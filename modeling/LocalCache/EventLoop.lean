import LocalCache.WorkerThread

namespace LocalCache

open Protocol Serializer Library

def kMaxEvents : Nat := 256

/-- What the system calls of the event loop report. Steps without one are `internal`. -/
inductive Outcome
  | internal
  | batch (events : List (Nat × Events))
  | waitInterrupted
  | waitFailed
  | client (fd : Nat) (added : Bool)
  | acceptRetry
  | acceptStop
  | recv (r : Recv)
  | send (r : Send)
  | control (ok : Bool)
  | clock (expired : Bool)
  deriving DecidableEq, Repr

namespace Server

def kBaseConnectionEvents : Events := { epollrdhup := true }

/-- An event mask `epoll_wait` may report for a descriptor, level-triggered. -/
def reportable (fds : Descriptors) (s : Server) (p : Nat × Events) : Bool :=
  if s.listenFd = some p.1 then true
  else if p.1 = fds.completion then 0 < s.completionCount
  else if p.1 = fds.shutdown then 0 < s.shutdownCount
  else if fds.signal = some p.1 then true
  else match s.epollSet p.1 with
    | none => false
    | some mask =>
      p.2 ≠ {} && (!p.2.epollin || mask.epollin) && (!p.2.epollout || mask.epollout) &&
        (!p.2.epollrdhup || mask.epollrdhup)

def validBatch (fds : Descriptors) (s : Server) (events : List (Nat × Events)) : Bool :=
  events.all (s.reportable fds) && decide (events.map Prod.fst).Nodup &&
    decide (events.length ≤ kMaxEvents) && (s.draining || !events.isEmpty)

def harvest (s : Server) (p : Nat × Events) : Item := .event p.1 p.2 (s.findConnection p.1)

def leave (s : Server) : Server := { s with listenFd := none, leaving := true, loop := .stop }

def onWait (fds : Descriptors) (s : Server) : Outcome → Option Server
  | .batch events =>
    if s.validBatch fds events then some { s with todo := events.map s.harvest, loop := .next }
    else none
  | .waitInterrupted => some s
  | .waitFailed => some s.leave
  | _ => none

def closeAll (s : Server) : Server :=
  { s with
    conn := fun c =>
      if s.connections.any (fun p => p.2 = c) then { s.conn c with closed := true } else s.conn c
    stats := s.connections.foldl (fun stats _ => stats.connectionClosed) s.stats
    connections := []
    loop := .finished }

def afterWritable (s : Server) (c : Nat) (events : Events) : Loop :=
  if !s.draining && (events.epollin || events.epollrdhup) then .read c else .flush c .done

def connectionEvent (s : Server) (c : Nat) (events : Events) : Loop :=
  if events.epollerr || events.epollhup then .close c false
  else if s.draining && events.epollrdhup then .close c false
  else if events.epollout then .flush c (.events events)
  else s.afterWritable c events

def resume (s : Server) (c : Nat) : Resume → Loop
  | .events events => s.afterWritable c events
  | .done => .closeCheck c

def updateInterest (s : Server) (c : Nat) : Loop :=
  if s.draining then .register c false else .paused c

def startDraining (s : Server) : Server :=
  { s with
    draining := true
    listenFd := none
    todo := s.connections.map (fun p => .interest p.2) ++ s.todo }

def dispatch (fds : Descriptors) (s : Server) (fd : Nat) (events : Events) : Server :=
  if s.listenFd = some fd then { s with loop := .accept }
  else if fd = fds.completion then { s with loop := .drainRead }
  else if fd = fds.shutdown then
    if s.draining then { s with shutdownCount := 0 }
    else { s.startDraining with shutdownCount := 0 }
  else if fds.signal = some fd then { s with shutdownCount := s.shutdownCount + 1 }
  else match s.findConnection fd with
    | none => s
    | some c => { s with loop := s.connectionEvent c events }

def onNext (fds : Descriptors) (s : Server) : Option Server :=
  match s.todo with
  | [] =>
    if s.leaving then some s.closeAll
    else some { s with loop := if s.draining then .drainPool else .wait }
  | .event fd events _ :: todo => some (dispatch fds { s with todo := todo } fd events)
  | .ready c :: todo =>
    some { s with
      todo := todo
      conn := s.setConn c { s.conn c with notifyPending := false }
      loop := if (s.conn c).closed then .next else .flush c .done }
  | .interest c :: todo => some { s with todo := todo, loop := s.updateInterest c }

def openConnection (config : ServerConfig) (s : Server) (fd : Nat) : Server :=
  let events := { kBaseConnectionEvents with epollin := true }
  let id := s.nextConnectionId
  { s with
    nextConnectionId := id + 1
    conn := s.setConn id
      { fd := fd, limits := config.connectionLimits, registeredEvents := events }
    epollSet := Function.update s.epollSet fd (some events)
    connections :=
      if (s.findConnection fd).isSome then s.connections else (fd, id) :: s.connections
    stats := s.stats.connectionOpened }

/-- One turn of the loop in `handle_listen_ready`. -/
def onAccept (config : ServerConfig) (fds : Descriptors) (s : Server) : Outcome → Option Server
  | .client fd added =>
    if s.fdOpen config fds fd then none
    else if s.connections.length ≥ config.maxConnections.toNat then
      some { s with stats := s.stats.recordRejected }
    else if !added then some { s with nextConnectionId := s.nextConnectionId + 1 }
    else some (s.openConnection config fd)
  | .acceptRetry => some s
  | .acceptStop => some { s with loop := .next }
  | _ => none

def onFlush (s : Server) (c : Nat) (k : Resume) : Server :=
  match (s.conn c).refill with
  | (true, x) => { s with conn := s.setConn c x, loop := .send c k }
  | (false, x) => { s with conn := s.setConn c x, loop := s.resume c k }

def onSend (s : Server) (c : Nat) (k : Resume) : Outcome → Option Server
  | .send (.sent n) =>
    if (s.conn c).remaining < n then none
    else if n = 0 then some { s with loop := .close c false }
    else
      let taken := ((s.conn c).writeBuf.drop (s.conn c).writePos).take n
      some { s with
        conn := s.setConn c ((s.conn c).advance n)
        loop := .flush c k
        ledger := { s.ledger with
          accepted := Function.update s.ledger.accepted c (s.ledger.accepted c ++ taken) } }
  | .send .eintr => some { s with loop := .flush c k }
  | .send .eagain => some { s with loop := s.resume c k }
  | .send .error => some { s with loop := .close c false }
  | _ => none

def onRead (s : Server) (c : Nat) : Outcome → Option Server
  | .recv r =>
    if r.valid then
      match (s.conn c).readSome r with
      | (.kOk, x) => some { s with conn := s.setConn c x, loop := .process c }
      | (.kWouldBlock, x) => some { s with conn := s.setConn c x, loop := .flush c .done }
      | (.kClosed, x) | (.kError, x) =>
        some { s with conn := s.setConn c x, loop := .close c false }
    else none
  | _ => none

def errorStatus : ParseError → Status
  | .kValueTooLarge => .kValueTooLarge
  | .kUnsupportedVersion => .kUnsupportedVersion
  | _ => .kInvalidRequest

/-- `try_submit`. -/
def canSubmit (config : ServerConfig) (s : Server) : Bool :=
  s.accepting && s.queue.length < config.maxPendingRequests.toNat

/-- One turn of the loop in `process_input`, up to `try_submit` or the reply to a malformed
frame. -/
def onProcess (config : ServerConfig) (s : Server) (c : Nat) : Server :=
  if (s.conn c).inflightLimitReached then { s with loop := .flush c .done }
  else match (s.conn c).nextRequest {} with
    | (⟨.kNeedMoreData, _, _⟩, _, x) =>
      { s with conn := s.setConn c x, loop := .flush c .done }
    | (⟨.kMalformed, error, _⟩, _, x) =>
      match x.peekRequestHeader with
      | some (id, opcode) =>
        { s with
          conn := s.setConn c x
          stats := s.stats.recordProtocolError
          loop := .immediate c ⟨opcode, errorStatus error, id, []⟩ }
      | none =>
        { s with
          conn := s.setConn c { x with closeAfterFlush := true }
          stats := s.stats.recordProtocolError
          loop := .flush c .done }
    | (⟨.kComplete, _, _⟩, request, x) =>
      let job : Job := ⟨c, request, s.ledger.taken.length⟩
      if s.canSubmit config then
        { s with
          conn := s.setConn c x.noteRequestSubmitted
          stats := s.stats.recordRequest
          queue := s.queue ++ [job]
          ledger := { s.ledger with taken := s.ledger.taken ++ [job] } }
      else
        { s with
          conn := s.setConn c x.noteRequestSubmitted
          stats := s.stats.recordRequest.recordRejected
          loop := .busy job
          ledger := { s.ledger with taken := s.ledger.taken ++ [job] } }

def recordAnswer (ledger : Ledger) (closed : Bool) (job : Job) (response : Response) : Ledger :=
  if closed then { ledger with discarded := ledger.discarded ++ [job] }
  else { ledger with
    answers := ledger.answers ++ [⟨job.connection, some job, response⟩] }

def busyResponse (job : Job) : Response :=
  ⟨job.request.opcode, .kServerBusy, job.request.requestId, []⟩

def onBusy (s : Server) (job : Job) : Option Server :=
  ((s.conn job.connection).enqueueResponse (serializeResponse (busyResponse job)) true).map
    fun (ok, x) =>
      { s with
        conn := s.setConn job.connection x
        loop := if ok then .process job.connection else .close job.connection false
        ledger := recordAnswer s.ledger (s.conn job.connection).closed job (busyResponse job) }

def onImmediate (s : Server) (c : Nat) (response : Response) : Option Server :=
  ((s.conn c).enqueueResponse (serializeResponse response) false).map fun (ok, x) =>
    { s with
      conn := s.setConn c (if ok then { x with closeAfterFlush := true } else x)
      loop := if ok then .flush c .done else .close c true
      ledger :=
        if (s.conn c).closed then s.ledger
        else { s.ledger with answers := s.ledger.answers ++ [⟨c, none, response⟩] } }

def closeConnection (s : Server) (c : Nat) : Server :=
  if (s.conn c).closed then s
  else { s with
    epollSet := Function.update s.epollSet (s.conn c).fd none
    conn := s.setConn c { s.conn c with closed := true }
    connections := Keyed.without Prod.fst (s.conn c).fd s.connections
    stats := s.stats.connectionClosed }

def onClose (s : Server) (c : Nat) (malformed : Bool) : Server :=
  let s := s.closeConnection c
  if malformed then
    { s with
      conn := s.setConn c { s.conn c with closeAfterFlush := true }
      loop := .flush c .done }
  else { s with loop := .next }

def onRegister (s : Server) (c : Nat) (epollin : Bool) (ok : Bool) : Server :=
  let events := { kBaseConnectionEvents with
    epollin := epollin
    epollout := (s.conn c).hasPendingOutput }
  if events = (s.conn c).registeredEvents then { s with loop := .next }
  else if ok && (s.epollSet (s.conn c).fd).isSome then
    { s with
      epollSet := Function.update s.epollSet (s.conn c).fd (some events)
      conn := s.setConn c { s.conn c with registeredEvents := events }
      loop := .next }
  else { s with loop := .close c false }

def onStop (config : ServerConfig) (s : Server) : Server :=
  if !s.accepting && s.stopping then { s with loop := .drainRead }
  else if config.shutdownDrainMs > 0 ∧ s.queue ≠ [] then
    { s with accepting := false, loop := .stopWait }
  else { s with accepting := false, stopping := true, loop := .join }

def onStopWait (s : Server) : Outcome → Option Server
  | .internal =>
    if s.queue = [] then some { s with stopping := true, loop := .join } else none
  | .clock true =>
    some { s with
      queue := []
      stopping := true
      loop := .join
      ledger := { s.ledger with dropped := s.ledger.dropped ++ s.queue } }
  | _ => none

def loopStep (config : ServerConfig) (fds : Descriptors) (s : Server) (o : Outcome) :
    Option Server :=
  match s.loop, o with
  | .wait, o => s.onWait fds o
  | .next, .internal => s.onNext fds
  | .accept, o => s.onAccept config fds o
  | .drainRead, .internal => some { s with completionCount := 0, loop := .drainSwap }
  | .drainSwap, .internal =>
    some { s with
      readyConnections := []
      todo := s.readyConnections.map .ready ++ s.todo
      loop := .next }
  | .flush c k, .internal => some (s.onFlush c k)
  | .send c k, o => s.onSend c k o
  | .read c, o => s.onRead c o
  | .process c, .internal => some (s.onProcess config c)
  | .busy job, .internal => s.onBusy job
  | .immediate c response, .internal => s.onImmediate c response
  | .close c malformed, .internal => some (s.onClose c malformed)
  | .closeCheck c, .internal =>
    some { s with
      loop :=
        if (s.conn c).closeAfterFlush && !(s.conn c).hasPendingOutput then .close c false
        else s.updateInterest c }
  | .paused c, .internal =>
    some { s with
      loop :=
        if (s.conn c).pendingOutputBytes > (s.conn c).limits.maxOutputBytes.toNat then
          .register c false
        else .limited c }
  | .limited c, .internal =>
    some { s with
      loop := if (s.conn c).inflightLimitReached then .register c false else .flagged c }
  | .flagged c, .internal => some { s with loop := .register c !(s.conn c).closeAfterFlush }
  | .register c epollin, .control ok => some (s.onRegister c epollin ok)
  | .drainPool, .internal =>
    some { s with
      loop := if s.queue ≠ [] then .deadline else .drainInflight (s.connections.map Prod.snd) }
  | .drainInflight [], .internal => some s.leave
  | .drainInflight (c :: cs), .internal =>
    some { s with loop := if (s.conn c).inflight > 0 then .deadline else .drainPending c cs }
  | .drainPending c cs, .internal =>
    some { s with loop := if (s.conn c).hasPendingOutput then .deadline else .drainInflight cs }
  | .deadline, .clock expired => some (if expired then s.leave else { s with loop := .wait })
  | .stop, .internal => some (s.onStop config)
  | .stopWait, o => s.onStopWait o
  | .join, .internal =>
    if (List.range config.workerThreads.toNat).all (fun w => s.worker w = .exited) then
      some { s with loop := .drainRead }
    else none
  | _, _ => none

end Server

/-- A step of the system: of the event loop, of a worker, or a call of `request_shutdown`. -/
inductive Action
  | loop (o : Outcome)
  | worker (w : Nat) (uptimeMs : UInt64)
  | requestShutdown
  deriving DecidableEq, Repr

namespace Server

def step (config : ServerConfig) (fds : Descriptors) (s : Server) : Action → Option Server
  | .loop o => s.loopStep config fds o
  | .worker w uptimeMs => if w < config.workerThreads.toNat then s.workerStep w uptimeMs else none
  | .requestShutdown => some { s with shutdownCount := s.shutdownCount + 1 }

end Server

end LocalCache
