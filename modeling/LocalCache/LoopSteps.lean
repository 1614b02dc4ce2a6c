import LocalCache.EventLoop

namespace LocalCache.Server

open Protocol Serializer Library

/-- Every way in which the event loop can move, one constructor for each branch of the source. -/
inductive LoopStep (config : ServerConfig) (fds : Descriptors) (s : Server) :
    Outcome → Server → Prop
  | harvest (events) (pc : s.loop = .wait) (valid : s.validBatch fds events = true) :
    LoopStep config fds s (.batch events)
      { s with todo := events.map s.harvest, loop := .next }
  | interrupted (pc : s.loop = .wait) : LoopStep config fds s .waitInterrupted s
  | waitFailed (pc : s.loop = .wait) : LoopStep config fds s .waitFailed s.leave
  | endBatch (pc : s.loop = .next) (todo : s.todo = []) (stay : s.leaving = false) :
    LoopStep config fds s .internal { s with loop := if s.draining then .drainPool else .wait }
  | finish (pc : s.loop = .next) (todo : s.todo = []) (leaving : s.leaving = true) :
    LoopStep config fds s .internal s.closeAll
  | listener (fd events owner rest) (pc : s.loop = .next)
    (todo : s.todo = .event fd events owner :: rest) (hfd : s.listenFd = some fd) :
    LoopStep config fds s .internal { s with todo := rest, loop := .accept }
  | completion (fd events owner rest) (pc : s.loop = .next)
    (todo : s.todo = .event fd events owner :: rest) (hfd : fd = fds.completion) :
    LoopStep config fds s .internal { s with todo := rest, loop := .drainRead }
  | shutdownFirst (fd events owner rest) (pc : s.loop = .next)
    (todo : s.todo = .event fd events owner :: rest) (hfd : fd = fds.shutdown)
    (fresh : s.draining = false) :
    LoopStep config fds s .internal
      { s with
        todo := s.connections.map (fun p => .interest p.2) ++ rest
        draining := true
        listenFd := none
        shutdownCount := 0 }
  | shutdownAgain (fd events owner rest) (pc : s.loop = .next)
    (todo : s.todo = .event fd events owner :: rest) (hfd : fd = fds.shutdown)
    (draining : s.draining = true) :
    LoopStep config fds s .internal { s with todo := rest, shutdownCount := 0 }
  | signalled (fd events owner rest) (pc : s.loop = .next)
    (todo : s.todo = .event fd events owner :: rest) (hfd : fds.signal = some fd) :
    LoopStep config fds s .internal
      { s with todo := rest, shutdownCount := s.shutdownCount + 1 }
  | stale (fd events owner rest) (pc : s.loop = .next)
    (todo : s.todo = .event fd events owner :: rest) (gone : s.findConnection fd = none) :
    LoopStep config fds s .internal { s with todo := rest }
  | event (fd events owner rest c) (pc : s.loop = .next)
    (todo : s.todo = .event fd events owner :: rest) (found : s.findConnection fd = some c) :
    LoopStep config fds s .internal
      { s with todo := rest, loop := s.connectionEvent c events }
  | ready (c rest) (pc : s.loop = .next) (todo : s.todo = .ready c :: rest) :
    LoopStep config fds s .internal
      { s with
        todo := rest
        conn := s.setConn c { s.conn c with notifyPending := false }
        loop := if (s.conn c).closed then .next else .flush c .done }
  | interest (c rest) (pc : s.loop = .next) (todo : s.todo = .interest c :: rest) :
    LoopStep config fds s .internal { s with todo := rest, loop := s.updateInterest c }
  | reject (fd added) (pc : s.loop = .accept) (free : s.fdOpen config fds fd = false)
    (full : config.maxConnections.toNat ≤ s.connections.length) :
    LoopStep config fds s (.client fd added) { s with stats := s.stats.recordRejected }
  | addFailed (fd) (pc : s.loop = .accept) (free : s.fdOpen config fds fd = false)
    (room : s.connections.length < config.maxConnections.toNat) :
    LoopStep config fds s (.client fd false)
      { s with nextConnectionId := s.nextConnectionId + 1 }
  | opened (fd) (pc : s.loop = .accept) (free : s.fdOpen config fds fd = false)
    (room : s.connections.length < config.maxConnections.toNat) :
    LoopStep config fds s (.client fd true) (s.openConnection config fd)
  | acceptRetry (pc : s.loop = .accept) : LoopStep config fds s .acceptRetry s
  | acceptStop (pc : s.loop = .accept) :
    LoopStep config fds s .acceptStop { s with loop := .next }
  | drainRead (pc : s.loop = .drainRead) :
    LoopStep config fds s .internal { s with completionCount := 0, loop := .drainSwap }
  | drainSwap (pc : s.loop = .drainSwap) :
    LoopStep config fds s .internal
      { s with
        readyConnections := []
        todo := s.readyConnections.map .ready ++ s.todo
        loop := .next }
  | flushMore (c k x) (pc : s.loop = .flush c k) (refill : (s.conn c).refill = (true, x)) :
    LoopStep config fds s .internal { s with conn := s.setConn c x, loop := .send c k }
  | flushed (c k x) (pc : s.loop = .flush c k) (refill : (s.conn c).refill = (false, x)) :
    LoopStep config fds s .internal { s with conn := s.setConn c x, loop := s.resume c k }
  | sent (c k n) (pc : s.loop = .send c k) (le : n ≤ (s.conn c).remaining) (pos : 0 < n) :
    LoopStep config fds s (.send (.sent n))
      { s with
        conn := s.setConn c ((s.conn c).advance n)
        loop := .flush c k
        ledger := { s.ledger with
          accepted := Function.update s.ledger.accepted c (s.ledger.accepted c ++
            ((s.conn c).writeBuf.drop (s.conn c).writePos).take n) } }
  | sendRetry (c k) (pc : s.loop = .send c k) :
    LoopStep config fds s (.send .eintr) { s with loop := .flush c k }
  | sendAgain (c k) (pc : s.loop = .send c k) :
    LoopStep config fds s (.send .eagain) { s with loop := s.resume c k }
  | sendFailed (c k r) (pc : s.loop = .send c k) :
    LoopStep config fds s (.send r) { s with loop := .close c false }
  | readData (c bytes) (pc : s.loop = .read c) (valid : (Recv.data bytes).valid = true) :
    LoopStep config fds s (.recv (.data bytes))
      { s with
        conn := s.setConn c { s.conn c with inBuf := (s.conn c).inBuf ++ bytes }
        loop := .process c }
  | readRetry (c) (pc : s.loop = .read c) :
    LoopStep config fds s (.recv .eintr) { s with loop := .process c }
  | readAgain (c) (pc : s.loop = .read c) :
    LoopStep config fds s (.recv .eagain) { s with loop := .flush c .done }
  | readEnd (c r) (pc : s.loop = .read c) :
    LoopStep config fds s (.recv r) { s with loop := .close c false }
  | limit (c) (pc : s.loop = .process c) (full : (s.conn c).inflightLimitReached = true) :
    LoopStep config fds s .internal { s with loop := .flush c .done }
  | needMore (c out x error n) (pc : s.loop = .process c)
    (room : (s.conn c).inflightLimitReached = false)
    (next : (s.conn c).nextRequest {} = (⟨.kNeedMoreData, error, n⟩, out, x)) :
    LoopStep config fds s .internal
      { s with conn := s.setConn c x, loop := .flush c .done }
  | malformed (c out x error n id opcode) (pc : s.loop = .process c)
    (room : (s.conn c).inflightLimitReached = false)
    (next : (s.conn c).nextRequest {} = (⟨.kMalformed, error, n⟩, out, x))
    (peek : x.peekRequestHeader = some (id, opcode)) :
    LoopStep config fds s .internal
      { s with
        conn := s.setConn c x
        stats := s.stats.recordProtocolError
        loop := .immediate c ⟨opcode, errorStatus error, id, []⟩ }
  | unidentified (c out x error n) (pc : s.loop = .process c)
    (room : (s.conn c).inflightLimitReached = false)
    (next : (s.conn c).nextRequest {} = (⟨.kMalformed, error, n⟩, out, x))
    (peek : x.peekRequestHeader = none) :
    LoopStep config fds s .internal
      { s with
        conn := s.setConn c { x with closeAfterFlush := true }
        stats := s.stats.recordProtocolError
        loop := .flush c .done }
  | submit (c request x error n) (pc : s.loop = .process c)
    (room : (s.conn c).inflightLimitReached = false)
    (next : (s.conn c).nextRequest {} = (⟨.kComplete, error, n⟩, request, x))
    (accepts : s.canSubmit config = true) :
    LoopStep config fds s .internal
      { s with
        conn := s.setConn c x.noteRequestSubmitted
        stats := s.stats.recordRequest
        queue := s.queue ++ [⟨c, request, s.ledger.taken.length⟩]
        ledger := { s.ledger with
          taken := s.ledger.taken ++ [⟨c, request, s.ledger.taken.length⟩] } }
  | refuse (c request x error n) (pc : s.loop = .process c)
    (room : (s.conn c).inflightLimitReached = false)
    (next : (s.conn c).nextRequest {} = (⟨.kComplete, error, n⟩, request, x))
    (refuses : s.canSubmit config = false) :
    LoopStep config fds s .internal
      { s with
        conn := s.setConn c x.noteRequestSubmitted
        stats := s.stats.recordRequest.recordRejected
        loop := .busy ⟨c, request, s.ledger.taken.length⟩
        ledger := { s.ledger with
          taken := s.ledger.taken ++ [⟨c, request, s.ledger.taken.length⟩] } }
  | busy (job ok x) (pc : s.loop = .busy job)
    (enqueue : (s.conn job.connection).enqueueResponse (serializeResponse (busyResponse job))
      true = some (ok, x)) :
    LoopStep config fds s .internal
      { s with
        conn := s.setConn job.connection x
        loop := if ok then .process job.connection else .close job.connection false
        ledger := recordAnswer s.ledger (s.conn job.connection).closed job (busyResponse job) }
  | immediate (c response ok x) (pc : s.loop = .immediate c response)
    (enqueue : (s.conn c).enqueueResponse (serializeResponse response) false = some (ok, x)) :
    LoopStep config fds s .internal
      { s with
        conn := s.setConn c (if ok then { x with closeAfterFlush := true } else x)
        loop := if ok then .flush c .done else .close c true
        ledger :=
          if (s.conn c).closed then s.ledger
          else { s.ledger with answers := s.ledger.answers ++ [⟨c, none, response⟩] } }
  | closedBefore (c malformed) (pc : s.loop = .close c malformed)
    (closed : (s.conn c).closed = true) :
    LoopStep config fds s .internal
      { s with
        conn := s.setConn c
          { s.conn c with closeAfterFlush := (s.conn c).closeAfterFlush || malformed }
        loop := if malformed then .flush c .done else .next }
  | close (c malformed) (pc : s.loop = .close c malformed) (opened : (s.conn c).closed = false) :
    LoopStep config fds s .internal
      { s with
        epollSet := Function.update s.epollSet (s.conn c).fd none
        conn := s.setConn c
          { s.conn c with
            closed := true
            closeAfterFlush := (s.conn c).closeAfterFlush || malformed }
        connections := Keyed.without Prod.fst (s.conn c).fd s.connections
        stats := s.stats.connectionClosed
        loop := if malformed then .flush c .done else .next }
  | closeCheck (c) (pc : s.loop = .closeCheck c) :
    LoopStep config fds s .internal
      { s with
        loop :=
          if (s.conn c).closeAfterFlush && !(s.conn c).hasPendingOutput then .close c false
          else s.updateInterest c }
  | pausedNow (c) (pc : s.loop = .paused c)
    (above : (s.conn c).limits.maxOutputBytes.toNat < (s.conn c).pendingOutputBytes) :
    LoopStep config fds s .internal { s with loop := .register c false }
  | notPaused (c) (pc : s.loop = .paused c)
    (under : (s.conn c).pendingOutputBytes ≤ (s.conn c).limits.maxOutputBytes.toNat) :
    LoopStep config fds s .internal { s with loop := .limited c }
  | limitedNow (c) (pc : s.loop = .limited c)
    (full : (s.conn c).inflightLimitReached = true) :
    LoopStep config fds s .internal { s with loop := .register c false }
  | notLimited (c) (pc : s.loop = .limited c)
    (room : (s.conn c).inflightLimitReached = false) :
    LoopStep config fds s .internal { s with loop := .flagged c }
  | flagged (c) (pc : s.loop = .flagged c) :
    LoopStep config fds s .internal
      { s with loop := .register c !(s.conn c).closeAfterFlush }
  | registered (c epollin ok) (pc : s.loop = .register c epollin)
    (same : (s.conn c).registeredEvents = { kBaseConnectionEvents with
      epollin := epollin, epollout := (s.conn c).hasPendingOutput }) :
    LoopStep config fds s (.control ok) { s with loop := .next }
  | register (c epollin) (pc : s.loop = .register c epollin)
    (known : (s.epollSet (s.conn c).fd).isSome = true) :
    LoopStep config fds s (.control true)
      { s with
        epollSet := Function.update s.epollSet (s.conn c).fd
          (some { kBaseConnectionEvents with
            epollin := epollin, epollout := (s.conn c).hasPendingOutput })
        conn := s.setConn c
          { s.conn c with
            registeredEvents := { kBaseConnectionEvents with
              epollin := epollin, epollout := (s.conn c).hasPendingOutput } }
        loop := .next }
  | registerFailed (c epollin ok) (pc : s.loop = .register c epollin) :
    LoopStep config fds s (.control ok) { s with loop := .close c false }
  | drainPool (pc : s.loop = .drainPool) :
    LoopStep config fds s .internal
      { s with
        loop := if s.queue ≠ [] then .deadline
          else .drainInflight (s.connections.map Prod.snd) }
  | drained (pc : s.loop = .drainInflight []) : LoopStep config fds s .internal s.leave
  | drainInflight (c cs) (pc : s.loop = .drainInflight (c :: cs)) :
    LoopStep config fds s .internal
      { s with loop := if (s.conn c).inflight > 0 then .deadline else .drainPending c cs }
  | drainPending (c cs) (pc : s.loop = .drainPending c cs) :
    LoopStep config fds s .internal
      { s with loop := if (s.conn c).hasPendingOutput then .deadline else .drainInflight cs }
  | expired (pc : s.loop = .deadline) : LoopStep config fds s (.clock true) s.leave
  | notExpired (pc : s.loop = .deadline) :
    LoopStep config fds s (.clock false) { s with loop := .wait }
  | stopped (pc : s.loop = .stop) (before : s.accepting = false ∧ s.stopping = true) :
    LoopStep config fds s .internal { s with loop := .drainRead }
  | stopWait (pc : s.loop = .stop) (waits : config.shutdownDrainMs > 0 ∧ s.queue ≠ []) :
    LoopStep config fds s .internal { s with accepting := false, loop := .stopWait }
  | stopNow (pc : s.loop = .stop) (waits : ¬(config.shutdownDrainMs > 0 ∧ s.queue ≠ [])) :
    LoopStep config fds s .internal
      { s with accepting := false, stopping := true, loop := .join }
  | stopDrained (pc : s.loop = .stopWait) (empty : s.queue = []) :
    LoopStep config fds s .internal { s with stopping := true, loop := .join }
  | stopExpired (pc : s.loop = .stopWait) :
    LoopStep config fds s (.clock true)
      { s with
        queue := []
        stopping := true
        loop := .join
        ledger := { s.ledger with dropped := s.ledger.dropped ++ s.queue } }
  | joined (pc : s.loop = .join)
    (exited : ∀ w < config.workerThreads.toNat, s.worker w = .exited) :
    LoopStep config fds s .internal { s with loop := .drainRead }

end LocalCache.Server
