import LocalCache.CacheClient
import LocalCache.Library.Keyed

namespace LocalCache

open Protocol Serializer Library Keyed

structure RequestSpec where
  opcode : Opcode := .kPing
  key : Bytes := []
  value : Bytes := []
  deriving DecidableEq, Repr

def RequestSpec.request (spec : RequestSpec) (id : UInt64) : Request :=
  ⟨spec.opcode, id, spec.key, spec.value⟩

structure Completion where
  connectionIndex : Nat
  request : RequestSpec
  response : Response
  latencyNs : UInt64
  deriving DecidableEq, Repr

structure EngineConfig where
  socketPath : String
  connections : Nat := 1
  pipelineDepth : Nat := 1
  requests : UInt64 := 0
  firstConnection : Nat := 0
  idleTimeoutMs : Int := 30000
  deriving DecidableEq, Repr

structure EngineStats where
  sent : Nat := 0
  received : Nat := 0
  connectFailures : Nat := 0
  ioFailures : Nat := 0
  protocolFailures : Nat := 0
  deriving DecidableEq, Repr

namespace Engine

structure Pending where
  spec : RequestSpec
  started : Nat
  deriving DecidableEq, Repr

/-- A connection of the engine. `watched` is the event mask that epoll has for it. -/
structure Conn where
  fd : Option Nat := none
  index : Nat := 0
  live : Bool := false
  input : Bytes := []
  output : Bytes := []
  outputPos : Nat := 0
  pending : List (UInt64 × Pending) := []
  watched : Option Events := none
  deriving DecidableEq, Repr

/-- Where the handler of a connection is: in `fill_pipeline`, which `on_writable` calls once
more if `again`; at the top of a loop of `on_writable` or `on_readable`; in `update_interest`; or
about to return false. -/
inductive Stage
  | fill (again : Bool)
  | send
  | interest (wantWrite : Bool)
  | recv
  | parse (consumed : Nat)
  | failed
  deriving DecidableEq, Repr

/-- Where `run` called the handler: in its first loop, or for an event, with what is left of the
batch. -/
inductive Caller
  | begin
  | readable (flags : Events) (rest : List (Nat × Events))
  | writable (rest : List (Nat × Events))
  deriving DecidableEq, Repr

inductive Phase
  | created
  | connecting
  | unconnected (error : String)
  | connected
  | begin (i : Nat)
  | handle (i : Nat) (stage : Stage) (caller : Caller)
  | check
  | wait
  | events (rest : List (Nat × Events))
  | returned (error : String)
  deriving DecidableEq, Repr

structure Ticket where
  connection : Nat
  id : UInt64
  spec : RequestSpec
  deriving DecidableEq, Repr

def Ticket.request (t : Ticket) : Request := t.spec.request t.id

def Ticket.frame (t : Ticket) : Bytes := serializeRequest t.request

/-- What happened so far; no decision depends on any of it. -/
structure Trace where
  issued : List Ticket := []
  completed : List (Nat × Completion) := []
  sent : Nat → Bytes := fun _ => []
  received : Nat → Bytes := fun _ => []

end Engine

open Engine in
/-- The pipelining client of the benchmarks. `conns` is the length of `conns_`. -/
structure Engine where
  stats : EngineStats := {}
  conns : Nat := 0
  conn : Nat → Conn := fun _ => {}
  issued : Nat := 0
  nextRequestId : UInt64 := 1
  generatorExhausted : Bool := false
  liveConnections : Nat := 0
  phase : Phase := .created
  trace : Trace := {}

/-- How far the system calls for one connection got in `connect_all`. -/
inductive Opening
  | socketFailed
  | connectFailed
  | fcntlFailed
  | epollFailed
  | opened (fd : Nat)
  deriving DecidableEq, Repr

inductive EngineWait
  | batch (events : List (Nat × Events))
  | timeout
  | eintr
  | error
  deriving DecidableEq, Repr

/-- A call of the engine, or what the next system call, the generator or the clock reports.
Steps without one are `internal`. -/
inductive EngineAction
  | internal
  | create (ok : Bool) (errno : String)
  | connect (r : Opening) (errno : String)
  | run
  | generate (r : Option RequestSpec) (now : Nat)
  | send (r : Send)
  | control (ok : Bool)
  | recv (r : Recv)
  | parse (now : Nat)
  | wait (r : EngineWait) (errno : String)
  deriving DecidableEq, Repr

namespace Engine

def kEventBatch : Nat := 256
def kBufferBytes : Nat := 64 * 1024

/-- `connect_all` up to its loop. -/
def onCreate (config : EngineConfig) (ok : Bool) (errno : String) (e : Engine) : Engine :=
  if config.connections = 0 || config.pipelineDepth = 0 then
    { e with phase := .unconnected "connections and pipeline depth must be positive" }
  else if config.socketPath.utf8ByteSize ≥ kSunPathSize then
    { e with phase := .unconnected "Unix socket path is too long" }
  else if !ok then { e with phase := .unconnected (errnoMessage "epoll_create1" errno) }
  else { e with phase := .connecting }

def connectFailed (error : String) (e : Engine) : Engine :=
  { e with
    stats := { e.stats with connectFailures := e.stats.connectFailures + 1 }
    phase := .unconnected error }

/-- The events every connection is watched for. -/
def kEngineEvents : Events := { epollin := true, epollrdhup := true }

/-- One turn of the loop in `connect_all`. -/
def onConnect (config : EngineConfig) (r : Opening) (errno : String) (e : Engine) : Engine :=
  match r with
  | .socketFailed => e.connectFailed (errnoMessage "socket" errno)
  | .connectFailed => e.connectFailed (errnoMessage "connect" errno)
  | .fcntlFailed => { e with phase := .unconnected (errnoMessage "fcntl(O_NONBLOCK)" errno) }
  | .epollFailed => { e with phase := .unconnected (errnoMessage "epoll_ctl" errno) }
  | .opened fd =>
    { e with
      conn := Function.update e.conn e.conns
        { fd := some fd, index := config.firstConnection + e.conns, live := true,
          watched := some kEngineEvents }
      conns := e.conns + 1
      liveConnections := e.liveConnections + 1 }

def wantsMore (config : EngineConfig) (e : Engine) (i : Nat) : Bool :=
  !e.generatorExhausted && (e.conn i).pending.length < config.pipelineDepth &&
    e.issued < config.requests.toNat

def emplace (id : UInt64) (p : Pending) (pending : List (UInt64 × Pending)) :
    List (UInt64 × Pending) :=
  if (find Prod.fst id pending).isSome then pending else pending ++ [(id, p)]

def issue (i : Nat) (spec : RequestSpec) (now : Nat) (e : Engine) : Engine :=
  let id := e.nextRequestId
  let c := e.conn i
  { e with
    nextRequestId := id + 1
    conn := Function.update e.conn i { c with
      output := serializeRequestInto (spec.request id) c.output
      pending := emplace id ⟨spec, now⟩ c.pending }
    issued := e.issued + 1
    stats := { e.stats with sent := e.stats.sent + 1 }
    trace := { e.trace with issued := e.trace.issued ++ [⟨i, id, spec⟩] } }

def filled (again : Bool) : Stage := if again then .fill false else .send

def onFill (config : EngineConfig) (i : Nat) (again : Bool) (caller : Caller) (e : Engine) :
    EngineAction → Option Engine
  | .internal =>
    if e.wantsMore config i then none else some { e with phase := .handle i (filled again) caller }
  | .generate r now =>
    if e.wantsMore config i then
      match r with
      | none => some { e with generatorExhausted := true, phase := .handle i (filled again) caller }
      | some spec => some (e.issue i spec now)
    else none
  | _ => none

/-- One turn of the loop in `on_writable`, or what follows it. -/
def onSend (i : Nat) (caller : Caller) (e : Engine) : EngineAction → Option Engine
  | .send r =>
    let c := e.conn i
    if c.outputPos < c.output.length then
      match r with
      | .sent n =>
        if n = 0 then some { e with phase := .handle i .failed caller }
        else if c.outputPos + n ≤ c.output.length then
          some { e with
            conn := Function.update e.conn i { c with outputPos := c.outputPos + n }
            trace := { e.trace with
              sent := Function.update e.trace.sent i
                (e.trace.sent i ++ (c.output.drop c.outputPos).take n) } }
        else none
      | .eintr => some e
      | .eagain => some { e with phase := .handle i (.interest true) caller }
      | .error => some { e with phase := .handle i .failed caller }
    else none
  | .internal =>
    let c := e.conn i
    if c.outputPos < c.output.length then none
    else
      some { e with
        conn := Function.update e.conn i { c with output := [], outputPos := 0 }
        phase := .handle i (.interest false) caller }
  | _ => none

def Caller.next (i : Nat) : Caller → Phase
  | .begin => .begin (i + 1)
  | .readable flags rest =>
    if flags.epollout then .handle i (.fill false) (.writable rest) else .events rest
  | .writable rest => .events rest

def Caller.dropped (i : Nat) : Caller → Phase
  | .begin => .begin (i + 1)
  | .readable _ rest | .writable rest => .events rest

/-- `update_interest`, and the return of `on_writable`. -/
def onInterest (i : Nat) (wantWrite : Bool) (caller : Caller) (ok : Bool) (e : Engine) : Engine :=
  if ok then
    { e with
      conn := Function.update e.conn i
        { e.conn i with watched := some { kEngineEvents with epollout := wantWrite } }
      phase := caller.next i }
  else { e with phase := .handle i .failed caller }

/-- One turn of the first loop in `on_readable`. -/
def onRecv (i : Nat) (caller : Caller) (r : Recv) (e : Engine) : Option Engine :=
  match r with
  | .data bytes =>
    if 0 < bytes.length ∧ bytes.length ≤ kBufferBytes then
      some { e with
        conn := Function.update e.conn i
          { e.conn i with input := (e.conn i).input ++ bytes }
        trace := { e.trace with
          received := Function.update e.trace.received i (e.trace.received i ++ bytes) } }
    else none
  | .eof => some { e with phase := .handle i .failed caller }
  | .eintr => some e
  | .eagain => some { e with phase := .handle i (.parse 0) caller }
  | .error => some { e with phase := .handle i .failed caller }

def protocolFailure (i : Nat) (caller : Caller) (e : Engine) : Engine :=
  { e with
    stats := { e.stats with protocolFailures := e.stats.protocolFailures + 1 }
    phase := .handle i .failed caller }

def parsed (i consumed : Nat) (caller : Caller) (e : Engine) : Engine :=
  { e with
    conn := Function.update e.conn i { e.conn i with input := (e.conn i).input.drop consumed }
    phase := .handle i (.fill true) caller }

def complete (i : Nat) (p : Pending) (response : Response) (now : Nat) (e : Engine) : Engine :=
  let c := e.conn i
  { e with
    conn := Function.update e.conn i
      { c with pending := without Prod.fst response.requestId c.pending }
    stats := { e.stats with received := e.stats.received + 1 }
    trace := { e.trace with
      completed := e.trace.completed ++
        [(i, ⟨c.index, p.spec, response, UInt64.ofInt ((now : Int) - p.started)⟩)] } }

/-- One turn of the second loop in `on_readable`. -/
def onParse (i consumed : Nat) (caller : Caller) (now : Nat) (e : Engine) : Engine :=
  if consumed < (e.conn i).input.length then
    match deserializeResponse ((e.conn i).input.drop consumed) {} {} with
    | (⟨.kNeedMoreData, _, _⟩, _) => e.parsed i consumed caller
    | (⟨.kMalformed, _, _⟩, _) => e.protocolFailure i caller
    | (⟨.kComplete, _, n⟩, response) =>
      match find Prod.fst response.requestId (e.conn i).pending with
      | none => e.protocolFailure i caller
      | some (_, p) =>
        if response.opcode ≠ p.spec.opcode then e.protocolFailure i caller
        else
          { e.complete i p response now with phase := .handle i (.parse (consumed + n)) caller }
  else e.parsed i consumed caller

def Conn.close (c : Conn) : Conn := { c with live := false, fd := none, watched := none }

def drop (i : Nat) (e : Engine) : Engine :=
  if !(e.conn i).live then e
  else
    { e with
      conn := Function.update e.conn i (e.conn i).close
      liveConnections := e.liveConnections - 1
      stats := { e.stats with ioFailures := e.stats.ioFailures + 1 } }

def onHandle (config : EngineConfig) (i : Nat) (stage : Stage) (caller : Caller) (e : Engine)
    (a : EngineAction) : Option Engine :=
  match stage, a with
  | .fill again, a => e.onFill config i again caller a
  | .send, a => e.onSend i caller a
  | .interest wantWrite, .control ok => some (e.onInterest i wantWrite caller ok)
  | .recv, .recv r => e.onRecv i caller r
  | .parse consumed, .parse now => some (e.onParse i consumed caller now)
  | .failed, .internal => some { e.drop i with phase := caller.dropped i }
  | _, _ => none

def allDone (config : EngineConfig) (e : Engine) : Bool :=
  if !e.generatorExhausted && e.issued < config.requests.toNat then false
  else if e.stats.received < e.issued then false
  else (List.range e.conns).all fun i =>
    (e.conn i).pending.isEmpty && !((e.conn i).outputPos < (e.conn i).output.length)

def onCheck (config : EngineConfig) (e : Engine) : Engine :=
  if e.allDone config then { e with phase := .returned "" }
  else if e.liveConnections = 0 then
    { e with phase := .returned "all benchmark connections failed" }
  else { e with phase := .wait }

def reportable (e : Engine) (p : Nat × Events) : Bool :=
  match (e.conn p.1).watched with
  | none => false
  | some mask =>
    p.2 ≠ {} && (!p.2.epollin || mask.epollin) && (!p.2.epollout || mask.epollout) &&
      (!p.2.epollrdhup || mask.epollrdhup)

def validBatch (e : Engine) (events : List (Nat × Events)) : Bool :=
  events.all e.reportable && decide (events.map Prod.fst).Nodup &&
    decide (events.length ≤ kEventBatch) && !events.isEmpty

def onWait (config : EngineConfig) (r : EngineWait) (errno : String) (e : Engine) :
    Option Engine :=
  match r with
  | .batch events =>
    if e.validBatch events then some { e with phase := .events events } else none
  | .timeout =>
    if config.idleTimeoutMs < 0 then none
    else some { e with phase := .returned "benchmark timed out waiting for server responses" }
  | .eintr => some { e with phase := .check }
  | .error => some { e with phase := .returned (errnoMessage "epoll_wait" errno) }

/-- One turn of the loop over the events in `run`, up to the call of a handler. -/
def onEvents (rest : List (Nat × Events)) (e : Engine) : Engine :=
  match rest with
  | [] => { e with phase := .check }
  | (i, flags) :: rest =>
    if !(e.conn i).live then { e with phase := .events rest }
    else if flags.epollerr || flags.epollhup || flags.epollrdhup then
      { e.drop i with phase := .events rest }
    else if flags.epollin then { e with phase := .handle i .recv (.readable flags rest) }
    else if flags.epollout then { e with phase := .handle i (.fill false) (.writable rest) }
    else { e with phase := .events rest }

def step (config : EngineConfig) (e : Engine) (a : EngineAction) : Option Engine :=
  match e.phase, a with
  | .created, .create ok errno => some (e.onCreate config ok errno)
  | .connecting, .connect r errno =>
    if e.conns < config.connections then some (e.onConnect config r errno) else none
  | .connecting, .internal =>
    if e.conns < config.connections then none else some { e with phase := .connected }
  | .connected, .run => some { e with phase := .begin 0 }
  | .begin i, .internal =>
    some { e with phase := if i < e.conns then .handle i (.fill true) .begin else .check }
  | .handle i stage caller, a => e.onHandle config i stage caller a
  | .check, .internal => some (e.onCheck config)
  | .wait, .wait r errno => e.onWait config r errno
  | .events rest, .internal => some (e.onEvents rest)
  | _, _ => none

/-- The state changes of an engine, each with the reason it happened. -/
inductive Moves (config : EngineConfig) (e : Engine) : EngineAction → Engine → Prop
  | rejected (ok : Bool) (errno error : String) (pc : e.phase = .created) :
      Moves config e (.create ok errno) { e with phase := .unconnected error }
  | created (ok : Bool) (errno : String) (pc : e.phase = .created)
      (positive : 0 < config.connections ∧ 0 < config.pipelineDepth) :
      Moves config e (.create ok errno) { e with phase := .connecting }
  | connectFailed (r : Opening) (errno error : String) (pc : e.phase = .connecting) :
      Moves config e (.connect r errno) (e.connectFailed error)
  | optionFailed (r : Opening) (errno error : String) (pc : e.phase = .connecting) :
      Moves config e (.connect r errno) { e with phase := .unconnected error }
  | opened (fd : Nat) (errno : String) (pc : e.phase = .connecting)
      (room : e.conns < config.connections) :
      Moves config e (.connect (.opened fd) errno) { e with
        conn := Function.update e.conn e.conns
          { fd := some fd, index := config.firstConnection + e.conns, live := true,
            watched := some kEngineEvents }
        conns := e.conns + 1
        liveConnections := e.liveConnections + 1 }
  | connected (pc : e.phase = .connecting) : Moves config e .internal { e with phase := .connected }
  | started (pc : e.phase = .connected) : Moves config e .run { e with phase := .begin 0 }
  | begins (i : Nat) (pc : e.phase = .begin i) (hi : i < e.conns) :
      Moves config e .internal { e with phase := .handle i (.fill true) .begin }
  | begun (i : Nat) (pc : e.phase = .begin i) (hi : e.conns ≤ i) :
      Moves config e .internal { e with phase := .check }
  | filled (i : Nat) (again : Bool) (caller : Caller)
      (pc : e.phase = .handle i (.fill again) caller) (full : e.wantsMore config i = false) :
      Moves config e .internal { e with phase := .handle i (filled again) caller }
  | exhausted (i : Nat) (again : Bool) (caller : Caller) (now : Nat)
      (pc : e.phase = .handle i (.fill again) caller) :
      Moves config e (.generate none now)
        { e with generatorExhausted := true, phase := .handle i (Engine.filled again) caller }
  | issued (i : Nat) (again : Bool) (caller : Caller) (spec : RequestSpec) (now : Nat)
      (pc : e.phase = .handle i (.fill again) caller) (room : e.wantsMore config i = true) :
      Moves config e (.generate (some spec) now) (e.issue i spec now)
  | sent (i : Nat) (caller : Caller) (n : Nat) (pc : e.phase = .handle i .send caller) (pos : 0 < n)
      (le : (e.conn i).outputPos + n ≤ (e.conn i).output.length) :
      Moves config e (.send (.sent n)) { e with
        conn := Function.update e.conn i
          { e.conn i with outputPos := (e.conn i).outputPos + n }
        trace := { e.trace with
          sent := Function.update e.trace.sent i (e.trace.sent i ++
            ((e.conn i).output.drop (e.conn i).outputPos).take n) } }
  | interrupted (a : EngineAction) (i : Nat) (stage : Stage) (caller : Caller)
      (pc : e.phase = .handle i stage caller) : Moves config e a e
  | blocked (i : Nat) (caller : Caller) (pc : e.phase = .handle i .send caller)
      (unsent : (e.conn i).outputPos < (e.conn i).output.length) :
      Moves config e (.send .eagain) { e with phase := .handle i (.interest true) caller }
  | flushed (i : Nat) (caller : Caller) (pc : e.phase = .handle i .send caller)
      (all : (e.conn i).output.length ≤ (e.conn i).outputPos) :
      Moves config e .internal { e with
        conn := Function.update e.conn i { e.conn i with output := [], outputPos := 0 }
        phase := .handle i (.interest false) caller }
  | registered (i : Nat) (wantWrite : Bool) (caller : Caller)
      (pc : e.phase = .handle i (.interest wantWrite) caller) :
      Moves config e (.control true) { e with
        conn := Function.update e.conn i
          { e.conn i with watched := some { kEngineEvents with epollout := wantWrite } }
        phase := caller.next i }
  | fails (a : EngineAction) (i : Nat) (stage : Stage) (caller : Caller)
      (pc : e.phase = .handle i stage caller) (idle : ∀ k, stage ≠ .parse k) :
      Moves config e a { e with phase := .handle i .failed caller }
  | received (i : Nat) (caller : Caller) (bytes : Bytes) (pc : e.phase = .handle i .recv caller)
      (pos : 0 < bytes.length) :
      Moves config e (.recv (.data bytes)) { e with
        conn := Function.update e.conn i
          { e.conn i with input := (e.conn i).input ++ bytes }
        trace := { e.trace with
          received := Function.update e.trace.received i (e.trace.received i ++ bytes) } }
  | drained (i : Nat) (caller : Caller) (pc : e.phase = .handle i .recv caller) :
      Moves config e (.recv .eagain) { e with phase := .handle i (.parse 0) caller }
  | parsed (i consumed : Nat) (caller : Caller) (now : Nat)
      (pc : e.phase = .handle i (.parse consumed) caller)
      (why : (e.conn i).input.length ≤ consumed ∨
        (deserializeResponse ((e.conn i).input.drop consumed) {} {}).1.status = .kNeedMoreData) :
      Moves config e (.parse now) (e.parsed i consumed caller)
  | malformed (i consumed : Nat) (caller : Caller) (now : Nat)
      (pc : e.phase = .handle i (.parse consumed) caller)
      (why : (deserializeResponse ((e.conn i).input.drop consumed) {} {}).1.status =
        .kMalformed) :
      Moves config e (.parse now) (e.protocolFailure i caller)
  | uncorrelated (i consumed : Nat) (caller : Caller) (now : Nat) (response : Response)
      (rest : Bytes) (pc : e.phase = .handle i (.parse consumed) caller)
      (frame : (e.conn i).input.drop consumed = serializeResponse response ++ rest)
      (value_le : response.value.length ≤ kMaxValueBytes.toNat)
      (why : ∀ p, find Prod.fst response.requestId (e.conn i).pending = some p →
        response.opcode ≠ p.2.spec.opcode) :
      Moves config e (.parse now) (e.protocolFailure i caller)
  | completed (i consumed : Nat) (caller : Caller) (now : Nat) (p : Pending) (response : Response)
      (rest : Bytes) (pc : e.phase = .handle i (.parse consumed) caller)
      (le : consumed ≤ (e.conn i).input.length)
      (frame : (e.conn i).input.drop consumed = serializeResponse response ++ rest)
      (value_le : response.value.length ≤ kMaxValueBytes.toNat)
      (hit : find Prod.fst response.requestId (e.conn i).pending =
        some (response.requestId, p))
      (opcode : response.opcode = p.spec.opcode) :
      Moves config e (.parse now) { e.complete i p response now with
        phase := .handle i (.parse (consumed + (serializeResponse response).length)) caller }
  | dropped (i : Nat) (caller : Caller) (pc : e.phase = .handle i .failed caller) :
      Moves config e .internal { e.drop i with phase := caller.dropped i }
  | done (pc : e.phase = .check) (all : e.allDone config = true) :
      Moves config e .internal { e with phase := .returned "" }
  | deserted (pc : e.phase = .check) (error : String) (he : error ≠ "") :
      Moves config e .internal { e with phase := .returned error }
  | waits (pc : e.phase = .check) (more : e.allDone config = false)
      (live : e.liveConnections ≠ 0) : Moves config e .internal { e with phase := .wait }
  | batch (events : List (Nat × Events)) (errno : String) (pc : e.phase = .wait)
      (valid : e.validBatch events = true) :
      Moves config e (.wait (.batch events) errno) { e with phase := .events events }
  | gaveUp (r : EngineWait) (errno error : String) (pc : e.phase = .wait) (he : error ≠ "") :
      Moves config e (.wait r errno) { e with phase := .returned error }
  | rechecked (errno : String) (pc : e.phase = .wait) :
      Moves config e (.wait .eintr errno) { e with phase := .check }
  | handled (pc : e.phase = .events []) : Moves config e .internal { e with phase := .check }
  | skipped (i : Nat) (flags : Events) (rest : List (Nat × Events))
      (pc : e.phase = .events ((i, flags) :: rest)) :
      Moves config e .internal { e with phase := .events rest }
  | hungUp (i : Nat) (flags : Events) (rest : List (Nat × Events))
      (pc : e.phase = .events ((i, flags) :: rest)) (live : (e.conn i).live = true) :
      Moves config e .internal { e.drop i with phase := .events rest }
  | readable (i : Nat) (flags : Events) (rest : List (Nat × Events))
      (pc : e.phase = .events ((i, flags) :: rest)) (live : (e.conn i).live = true) :
      Moves config e .internal { e with phase := .handle i .recv (.readable flags rest) }
  | writable (i : Nat) (flags : Events) (rest : List (Nat × Events))
      (pc : e.phase = .events ((i, flags) :: rest)) (live : (e.conn i).live = true) :
      Moves config e .internal { e with phase := .handle i (.fill false) (.writable rest) }

variable {config : EngineConfig} {e e' : Engine} {a : EngineAction} {i : Nat} {caller : Caller}

theorem moves_onCreate (ok : Bool) (errno : String) (pc : e.phase = .created) :
    Moves config e (.create ok errno) (e.onCreate config ok errno) := by
  unfold onCreate
  split
  · exact .rejected ok errno _ pc
  · rename_i hpos
    split
    · exact .rejected ok errno _ pc
    · split
      · exact .rejected ok errno _ pc
      · simp only [Bool.or_eq_true, decide_eq_true_eq, not_or] at hpos
        exact .created ok errno pc ⟨Nat.pos_of_ne_zero hpos.1, Nat.pos_of_ne_zero hpos.2⟩

theorem moves_onConnect (r : Opening) (errno : String) (pc : e.phase = .connecting)
    (room : e.conns < config.connections) :
    Moves config e (.connect r errno) (e.onConnect config r errno) := by
  cases r with
  | socketFailed | connectFailed => exact .connectFailed _ errno _ pc
  | fcntlFailed | epollFailed => exact .optionFailed _ errno _ pc
  | opened fd => exact .opened fd errno pc room

theorem moves_onFill {again : Bool} (pc : e.phase = .handle i (.fill again) caller)
    (h : e.onFill config i again caller a = some e') : Moves config e a e' := by
  unfold onFill at h
  split at h
  · split at h
    · cases h
    · cases h
      exact .filled i again caller pc (Bool.eq_false_of_not_eq_true ‹_›)
  · split at h
    · split at h
      · cases h
        exact .exhausted i again caller _ pc
      · cases h
        exact .issued i again caller _ _ pc ‹_›
    · cases h
  · cases h

theorem moves_onSend (pc : e.phase = .handle i .send caller)
    (h : e.onSend i caller a = some e') : Moves config e a e' := by
  unfold onSend at h
  split at h
  · rename_i r
    dsimp only at h
    split at h
    · rename_i hlt
      cases r with
      | sent n =>
        dsimp only at h
        split at h
        · cases h
          exact .fails _ i .send caller pc (by simp)
        · split at h
          · cases h
            exact .sent i caller n pc (Nat.pos_of_ne_zero ‹_›) ‹_›
          · cases h
      | eintr =>
        cases h
        exact .interrupted _ i .send caller pc
      | eagain =>
        cases h
        exact .blocked i caller pc hlt
      | error =>
        cases h
        exact .fails _ i .send caller pc (by simp)
    · cases h
  · dsimp only at h
    split at h
    · cases h
    · cases h
      exact .flushed i caller pc (Nat.le_of_not_lt ‹_›)
  · cases h

theorem moves_onInterest {wantWrite : Bool} (ok : Bool)
    (pc : e.phase = .handle i (.interest wantWrite) caller) :
    Moves config e (.control ok) (e.onInterest i wantWrite caller ok) := by
  cases ok with
  | true => exact .registered i wantWrite caller pc
  | false => exact .fails _ i _ caller pc (by simp)

theorem moves_onRecv {r : Recv} (pc : e.phase = .handle i .recv caller)
    (h : e.onRecv i caller r = some e') : Moves config e (.recv r) e' := by
  cases r with
  | data bytes =>
    rw [onRecv] at h
    split at h
    · cases h
      exact .received i caller bytes pc (And.left ‹_›)
    · cases h
  | eof | error =>
    cases h
    exact .fails _ i .recv caller pc (by simp)
  | eintr =>
    cases h
    exact .interrupted _ i .recv caller pc
  | eagain =>
    cases h
    exact .drained i caller pc

theorem moves_onParse {consumed : Nat} (now : Nat)
    (pc : e.phase = .handle i (.parse consumed) caller) :
    Moves config e (.parse now) (e.onParse i consumed caller now) := by
  unfold onParse
  split
  · rename_i hlt
    cases hd : deserializeResponse ((e.conn i).input.drop consumed) {} {} with
    | mk result response =>
      obtain ⟨status, error, n⟩ := result
      cases status with
      | kNeedMoreData => exact .parsed i consumed caller now pc (.inr (by rw [hd]))
      | kMalformed => exact .malformed i consumed caller now pc (by rw [hd])
      | kComplete =>
        obtain ⟨⟨rest, hin⟩, hres, hle⟩ := ResponseCodec.deserializeResponse_complete hd rfl
        have hlen : n = (serializeResponse response).length := by
          rw [ResponseCodec.length_serializeResponse]
          exact congrArg ParseResult.consumed hres
        have hvalue := hle.trans (Nat.min_le_right _ _)
        dsimp only
        cases hf : find Prod.fst response.requestId (e.conn i).pending with
        | none =>
          exact .uncorrelated i consumed caller now response rest pc hin hvalue
            (fun p hp => by rw [hf] at hp; cases hp)
        | some q =>
          obtain ⟨id, p⟩ := q
          obtain rfl : id = response.requestId := (mem_of_find hf).2
          dsimp only
          split
          · rename_i hne
            refine .uncorrelated i consumed caller now response rest pc hin hvalue ?_
            intro q hq
            rw [hf] at hq
            cases hq
            exact hne
          · rename_i heq
            rw [hlen]
            exact .completed i consumed caller now p response rest pc (Nat.le_of_lt hlt) hin
              hvalue hf (not_not.mp heq)
  · exact .parsed i consumed caller now pc (.inl (Nat.le_of_not_lt ‹_›))

theorem moves_onHandle {stage : Stage} (pc : e.phase = .handle i stage caller)
    (h : e.onHandle config i stage caller a = some e') : Moves config e a e' := by
  unfold onHandle at h
  split at h
  · exact moves_onFill pc h
  · exact moves_onSend pc h
  · cases h
    exact moves_onInterest _ pc
  · exact moves_onRecv pc h
  · cases h
    exact moves_onParse _ pc
  · cases h
    exact .dropped i caller pc
  · cases h

theorem moves_onCheck (pc : e.phase = .check) : Moves config e .internal (e.onCheck config) := by
  unfold onCheck
  split
  · exact .done pc ‹_›
  · split
    · exact .deserted pc _ (by decide)
    · exact .waits pc (Bool.eq_false_of_not_eq_true ‹_›) ‹_›

theorem moves_onWait {r : EngineWait} {errno : String} (pc : e.phase = .wait)
    (h : e.onWait config r errno = some e') : Moves config e (.wait r errno) e' := by
  cases r with
  | batch events =>
    rw [onWait] at h
    split at h
    · cases h
      exact .batch events errno pc ‹_›
    · cases h
  | timeout =>
    rw [onWait] at h
    split at h
    · cases h
    · cases h
      exact .gaveUp _ errno _ pc (by decide)
  | eintr =>
    cases h
    exact .rechecked errno pc
  | error =>
    cases h
    exact .gaveUp _ errno _ pc (CacheClient.errnoMessage_ne _ _ (by decide))

theorem moves_onEvents {rest : List (Nat × Events)} (pc : e.phase = .events rest) :
    Moves config e .internal (e.onEvents rest) := by
  cases rest with
  | nil => exact .handled pc
  | cons p rest =>
    obtain ⟨i, flags⟩ := p
    rw [onEvents]
    split
    · exact .skipped i flags rest pc
    · rename_i hlive
      have live : (e.conn i).live = true := by simpa using hlive
      split
      · exact .hungUp i flags rest pc live
      · split
        · exact .readable i flags rest pc live
        · split
          · exact .writable i flags rest pc live
          · exact .skipped i flags rest pc

theorem moves_of_step (h : e.step config a = some e') : Moves config e a e' := by
  unfold step at h
  split at h
  case h_1 pc =>
    cases h
    exact moves_onCreate _ _ pc
  case h_2 pc =>
    split at h
    · cases h
      exact moves_onConnect _ _ pc ‹_›
    · cases h
  case h_3 pc =>
    split at h
    · cases h
    · cases h
      exact .connected pc
  case h_4 pc =>
    cases h
    exact .started pc
  case h_5 i pc =>
    cases h
    split
    · exact .begins i pc ‹_›
    · exact .begun i pc (Nat.le_of_not_lt ‹_›)
  case h_6 pc => exact moves_onHandle pc h
  case h_7 pc =>
    cases h
    exact moves_onCheck pc
  case h_8 pc => exact moves_onWait pc h
  case h_9 pc =>
    cases h
    exact moves_onEvents pc
  case h_10 => cases h

end Engine

end LocalCache
