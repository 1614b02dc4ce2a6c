import Mathlib.Logic.Function.Basic
import LocalCache.Config
import LocalCache.ResponseCodec

namespace LocalCache

open Protocol Serializer

/-- What a caller asks for; each method of the client is `execute` on its own arguments. -/
inductive Operation
  | get (key : Bytes)
  | put (key value : Bytes)
  | erase (key : Bytes)
  | ping
  | clear
  | stats
  deriving DecidableEq, Repr

namespace Operation

def opcode : Operation → Opcode
  | .get _ => .kGet
  | .put _ _ => .kPut
  | .erase _ => .kDelete
  | .ping => .kPing
  | .clear => .kClear
  | .stats => .kStats

def key : Operation → Bytes
  | .get key | .put key _ | .erase key => key
  | .ping | .clear | .stats => []

def value : Operation → Bytes
  | .put _ value => value
  | .get _ | .erase _ | .ping | .clear | .stats => []

def request (op : Operation) (id : UInt64) : Request := ⟨op.opcode, id, op.key, op.value⟩

end Operation

structure ClientResult where
  status : Status := .kInternalError
  value : Bytes := []
  error : String := ""
  deriving DecidableEq, Repr

def ClientResult.ok (r : ClientResult) : Bool := r.error = ""

structure Issue where
  connection : Nat
  op : Operation
  id : UInt64
  deriving DecidableEq, Repr

def Issue.request (i : Issue) : Request := i.op.request i.id

def Issue.frame (i : Issue) : Bytes := serializeRequest i.request

/-- Where `execute` is: not called, in `send_all`, or in `receive_response` before the parse
or before `recv`. -/
inductive ClientPhase
  | idle
  | sending (issue : Issue) (sent : Nat)
  | parsing (issue : Issue)
  | receiving (issue : Issue)
  deriving DecidableEq, Repr

/-- A response frame taken off the buffer: where it began in the stream received, and what it
said. -/
structure Reply where
  offset : Nat
  response : Response
  deriving DecidableEq, Repr

/-- An operation that returned, with the request sent for it, how many bytes of its frame the
socket took, and the response frame it used up, if it came to that. -/
structure Returned where
  op : Operation
  issue : Option Issue
  handed : Nat
  reply : Option Reply
  result : ClientResult
  deriving DecidableEq, Repr

/-- What happened so far. The connections are numbered; no decision depends on any of it. -/
structure ClientTrace where
  connections : Nat := 0
  sent : Nat → Bytes := fun _ => []
  received : Nat → Bytes := fun _ => []
  issued : List Issue := []
  returned : List Returned := []

structure CacheClient where
  socketPath : String
  fd : Option Nat := none
  nextRequestId : UInt64 := 1
  inBuf : Bytes := []
  outBuf : Bytes := []
  phase : ClientPhase := .idle
  trace : ClientTrace := {}

/-- How far the system calls of `connect` got. -/
inductive Connect
  | socketFailed
  | optionFailed
  | refused
  | connected
  deriving DecidableEq, Repr

def errnoMessage (what errno : String) : String := what ++ ": " ++ errno

namespace CacheClient

def kClientLimits : Limits := ⟨kMaxKeyBytes, kMaxValueBytes⟩

def kChunkBytes : Nat := 16 * 1024

/-- `connect`; `errno` is the text of the error code, where there is one. -/
def connect (r : Connect) (errno : String) (c : CacheClient) : String × CacheClient :=
  if c.socketPath.utf8ByteSize ≥ kSunPathSize then ("socket path too long for AF_UNIX", c)
  else match r with
  | .socketFailed => (errnoMessage "socket" errno, c)
  | .optionFailed => (errnoMessage "setsockopt(SO_*TIMEO)" errno, c)
  | .refused => (errnoMessage ("connect(" ++ c.socketPath ++ ")") errno, c)
  | .connected =>
    ("", { c with
      fd := some c.trace.connections
      inBuf := []
      trace := { c.trace with connections := c.trace.connections + 1 } })

def disconnect (c : CacheClient) : CacheClient := { c with fd := none, inBuf := [] }

def handed (c : CacheClient) : Nat :=
  match c.phase with
  | .idle => 0
  | .sending _ sent => sent
  | .parsing _ | .receiving _ => c.outBuf.length

def finish (op : Operation) (issue : Option Issue) (reply : Option Reply)
    (result : ClientResult) (c : CacheClient) : CacheClient :=
  { c with
    phase := .idle
    trace := { c.trace with
      returned := c.trace.returned ++ [⟨op, issue, c.handed, reply, result⟩] } }

/-- `execute` up to `send_all`. -/
def execute (op : Operation) (c : CacheClient) : CacheClient :=
  match c.fd with
  | none => c.finish op none none { error := "not connected" }
  | some connection =>
    if op.key.length > kMaxKeyBytes.toNat then
      c.finish op none none { error := "key exceeds protocol maximum" }
    else if op.value.length > kMaxValueBytes.toNat then
      c.finish op none none { error := "value exceeds protocol maximum" }
    else
      let issue : Issue := ⟨connection, op, c.nextRequestId⟩
      { c with
        nextRequestId := c.nextRequestId + 1
        outBuf := serializeRequestInto issue.request []
        phase := .sending issue 0
        trace := { c.trace with issued := c.trace.issued ++ [issue] } }

/-- One turn of the loop in `send_all`. -/
def onSend (issue : Issue) (sent : Nat) (r : Send) (errno : String) (c : CacheClient) :
    Option CacheClient :=
  match r with
  | .sent n =>
    if c.outBuf.length - sent < n then none
    else if n = 0 then
      some (c.finish issue.op (some issue) none { error := errnoMessage "send" errno })
    else
      some { c with
        phase := if sent + n < c.outBuf.length then .sending issue (sent + n) else .parsing issue
        trace := { c.trace with
          sent := Function.update c.trace.sent issue.connection
            (c.trace.sent issue.connection ++ (c.outBuf.drop sent).take n) } }
  | .eintr => some c
  | .eagain => some (c.finish issue.op (some issue) none { error := "send timed out" })
  | .error => some (c.finish issue.op (some issue) none { error := errnoMessage "send" errno })

def correlationError (expectedId : UInt64) (expectedOpcode : Opcode) (out : Response) : String :=
  if out.requestId ≠ expectedId then
    "response correlation failure: expected request id " ++ toString expectedId ++ ", got " ++
      toString out.requestId
  else if out.opcode ≠ expectedOpcode then
    "response opcode mismatch: expected " ++ expectedOpcode.toString ++ ", got " ++
      out.opcode.toString
  else ""

def resultOf (issue : Issue) (out : Response) : ClientResult :=
  if correlationError issue.id issue.op.opcode out = "" then
    { status := out.status, value := out.value }
  else { error := correlationError issue.id issue.op.opcode out }

/-- The top of the loop in `receive_response`. The caller's response object is written only
when a frame is complete, and then the loop ends. -/
def onParse (issue : Issue) (c : CacheClient) : CacheClient :=
  match deserializeResponse c.inBuf kClientLimits {} with
  | (⟨.kComplete, _, consumed⟩, out) =>
    { c with inBuf := c.inBuf.drop consumed }.finish issue.op (some issue)
      (some ⟨(c.trace.received issue.connection).length - c.inBuf.length, out⟩)
      (resultOf issue out)
  | (⟨.kMalformed, error, _⟩, _) =>
    c.disconnect.finish issue.op (some issue) none
      { error := "malformed response frame: " ++ error.toString }
  | (⟨.kNeedMoreData, _, _⟩, _) => { c with phase := .receiving issue }

/-- The rest of the loop in `receive_response`. -/
def onRecv (issue : Issue) (r : Recv) (errno : String) (c : CacheClient) : Option CacheClient :=
  match r with
  | .data bytes =>
    if 0 < bytes.length ∧ bytes.length ≤ kChunkBytes then
      some { c with
        inBuf := c.inBuf ++ bytes
        phase := .parsing issue
        trace := { c.trace with
          received := Function.update c.trace.received issue.connection
            (c.trace.received issue.connection ++ bytes) } }
    else none
  | .eof =>
    some (c.disconnect.finish issue.op (some issue) none
      { error := "server closed the connection" })
  | .eintr => some { c with phase := .parsing issue }
  | .eagain =>
    some (c.disconnect.finish issue.op (some issue) none { error := "receive timed out" })
  | .error =>
    some (c.disconnect.finish issue.op (some issue) none { error := errnoMessage "recv" errno })

end CacheClient

/-- A call of the client, or what the next system call within one reports. -/
inductive ClientAction
  | connect (r : Connect) (errno : String)
  | disconnect
  | call (op : Operation)
  | send (r : Send) (errno : String)
  | parse
  | recv (r : Recv) (errno : String)
  deriving DecidableEq, Repr

namespace CacheClient

def step (c : CacheClient) (a : ClientAction) : Option CacheClient :=
  match c.phase, a with
  | .idle, .connect r errno => some (c.connect r errno).2
  | .idle, .disconnect => some c.disconnect
  | .idle, .call op => some (c.execute op)
  | .sending issue sent, .send r errno => c.onSend issue sent r errno
  | .parsing issue, .parse => some (c.onParse issue)
  | .receiving issue, .recv r errno => c.onRecv issue r errno
  | _, _ => none

/-- The state changes of a client, each with the reason it happened. -/
inductive Moves (c : CacheClient) : ClientAction → CacheClient → Prop
  | unconnected (r : Connect) (errno : String) : Moves c (.connect r errno) c
  | connected (r : Connect) (errno : String) (idle : c.phase = .idle) :
      Moves c (.connect r errno) { c with
        fd := some c.trace.connections
        inBuf := []
        trace := { c.trace with connections := c.trace.connections + 1 } }
  | disconnected (idle : c.phase = .idle) : Moves c .disconnect c.disconnect
  | rejected (op : Operation) (error : String) (idle : c.phase = .idle) (he : error ≠ "")
      (why : c.fd = none ∨ kMaxKeyBytes.toNat < op.key.length ∨
        kMaxValueBytes.toNat < op.value.length) :
      Moves c (.call op) (c.finish op none none { error := error })
  | issued (op : Operation) (connection : Nat) (idle : c.phase = .idle)
      (held : c.fd = some connection) (key_le : op.key.length ≤ kMaxKeyBytes.toNat)
      (value_le : op.value.length ≤ kMaxValueBytes.toNat) :
      Moves c (.call op) { c with
        nextRequestId := c.nextRequestId + 1
        outBuf := serializeRequest (op.request c.nextRequestId)
        phase := .sending ⟨connection, op, c.nextRequestId⟩ 0
        trace := { c.trace with
          issued := c.trace.issued ++ [⟨connection, op, c.nextRequestId⟩] } }
  | sent (issue : Issue) (sent n : Nat) (errno : String) (pc : c.phase = .sending issue sent)
      (pos : 0 < n) (le : n ≤ c.outBuf.length - sent) :
      Moves c (.send (.sent n) errno) { c with
        phase := if sent + n < c.outBuf.length then .sending issue (sent + n) else .parsing issue
        trace := { c.trace with
          sent := Function.update c.trace.sent issue.connection
            (c.trace.sent issue.connection ++ (c.outBuf.drop sent).take n) } }
  | unsent (issue : Issue) (sent : Nat) (r : Send) (errno error : String)
      (pc : c.phase = .sending issue sent) (he : error ≠ "")
      (why : r = .sent 0 ∨ r = .eagain ∨ r = .error) :
      Moves c (.send r errno) (c.finish issue.op (some issue) none { error := error })
  | resend (issue : Issue) (sent : Nat) (errno : String) (pc : c.phase = .sending issue sent) :
      Moves c (.send .eintr errno) c
  | replied (issue : Issue) (out : Response) (rest : Bytes) (pc : c.phase = .parsing issue)
      (frame : c.inBuf = serializeResponse out ++ rest)
      (value_le : out.value.length ≤ kMaxValueBytes.toNat) :
      Moves c .parse ({ c with inBuf := rest }.finish issue.op (some issue)
        (some ⟨(c.trace.received issue.connection).length - c.inBuf.length, out⟩)
        (resultOf issue out))
  | malformed (issue : Issue) (error : String) (pc : c.phase = .parsing issue)
      (why : (deserializeResponse c.inBuf kClientLimits {}).1.status = .kMalformed)
      (he : error ≠ "") :
      Moves c .parse (c.disconnect.finish issue.op (some issue) none { error := error })
  | waits (issue : Issue) (pc : c.phase = .parsing issue) :
      Moves c .parse { c with phase := .receiving issue }
  | received (issue : Issue) (bytes : Bytes) (errno : String) (pc : c.phase = .receiving issue)
      (pos : 0 < bytes.length) :
      Moves c (.recv (.data bytes) errno) { c with
        inBuf := c.inBuf ++ bytes
        phase := .parsing issue
        trace := { c.trace with
          received := Function.update c.trace.received issue.connection
            (c.trace.received issue.connection ++ bytes) } }
  | interrupted (issue : Issue) (errno : String) (pc : c.phase = .receiving issue) :
      Moves c (.recv .eintr errno) { c with phase := .parsing issue }
  | lost (issue : Issue) (r : Recv) (errno error : String) (pc : c.phase = .receiving issue)
      (he : error ≠ "") (why : r = .eof ∨ r = .eagain ∨ r = .error) :
      Moves c (.recv r errno) (c.disconnect.finish issue.op (some issue) none { error := error })

theorem resultOf_matching {i : Issue} {out : Response} (id : out.requestId = i.id)
    (opcode : out.opcode = i.op.opcode) :
    resultOf i out = { status := out.status, value := out.value } := by
  simp [resultOf, correlationError, id, opcode]

theorem errnoMessage_ne (what errno : String) (h : what ≠ "") : errnoMessage what errno ≠ "" := by
  intro he
  simp only [errnoMessage, String.append_eq_empty_iff] at he
  exact h he.1.1

theorem moves_execute {c : CacheClient} (op : Operation) (idle : c.phase = .idle) :
    Moves c (.call op) (c.execute op) := by
  unfold execute
  cases held : c.fd with
  | none => exact .rejected op _ idle (by decide) (.inl held)
  | some connection =>
    dsimp only
    by_cases hk : op.key.length > kMaxKeyBytes.toNat
    · rw [if_pos hk]
      exact .rejected op _ idle (by decide) (.inr (.inl hk))
    rw [if_neg hk]
    by_cases hv : op.value.length > kMaxValueBytes.toNat
    · rw [if_pos hv]
      exact .rejected op _ idle (by decide) (.inr (.inr hv))
    rw [if_neg hv, ← held]
    exact .issued op connection idle held (Nat.le_of_not_lt hk) (Nat.le_of_not_lt hv)

theorem moves_onSend {c c' : CacheClient} {issue : Issue} {sent : Nat} {r : Send}
    {errno : String} (pc : c.phase = .sending issue sent)
    (hs : c.onSend issue sent r errno = some c') : Moves c (.send r errno) c' := by
  cases r with
  | sent n =>
    rw [onSend] at hs
    by_cases hlen : c.outBuf.length - sent < n
    · rw [if_pos hlen] at hs
      cases hs
    rw [if_neg hlen] at hs
    by_cases hn : n = 0
    · rw [if_pos hn] at hs
      cases hs
      exact .unsent issue sent _ errno _ pc (errnoMessage_ne _ _ (by decide)) (.inl (hn ▸ rfl))
    · rw [if_neg hn] at hs
      cases hs
      exact .sent issue sent n errno pc (Nat.pos_of_ne_zero hn) (Nat.le_of_not_lt hlen)
  | eintr =>
    cases hs
    exact .resend issue sent errno pc
  | eagain =>
    cases hs
    exact .unsent issue sent _ errno _ pc (by decide) (.inr (.inl rfl))
  | error =>
    cases hs
    exact .unsent issue sent _ errno _ pc (errnoMessage_ne _ _ (by decide)) (.inr (.inr rfl))

theorem moves_onParse {c : CacheClient} {issue : Issue} (pc : c.phase = .parsing issue) :
    Moves c .parse (c.onParse issue) := by
  unfold onParse
  cases hd : deserializeResponse c.inBuf kClientLimits {} with
  | mk result out =>
    obtain ⟨status, error, consumed⟩ := result
    cases status with
    | kComplete =>
      obtain ⟨⟨rest, hin⟩, hres, hle⟩ := ResponseCodec.deserializeResponse_complete hd rfl
      have hlen : consumed = (serializeResponse out).length := by
        rw [ResponseCodec.length_serializeResponse]
        exact congrArg ParseResult.consumed hres
      have hdrop : c.inBuf.drop consumed = rest := by
        rw [hin, hlen, List.drop_left]
      dsimp only
      rw [hdrop]
      exact .replied issue out rest pc hin (hle.trans (Nat.min_le_right _ _))
    | kMalformed =>
      refine .malformed issue _ pc (by rw [hd]) ?_
      simp [String.append_eq_empty_iff]
    | kNeedMoreData => exact .waits issue pc

theorem moves_onRecv {c c' : CacheClient} {issue : Issue} {r : Recv} {errno : String}
    (pc : c.phase = .receiving issue) (hs : c.onRecv issue r errno = some c') :
    Moves c (.recv r errno) c' := by
  cases r with
  | data bytes =>
    rw [onRecv] at hs
    by_cases hb : 0 < bytes.length ∧ bytes.length ≤ kChunkBytes
    · rw [if_pos hb] at hs
      cases hs
      exact .received issue bytes errno pc hb.1
    · rw [if_neg hb] at hs
      cases hs
  | eof =>
    cases hs
    exact .lost issue _ errno _ pc (by decide) (.inl rfl)
  | eintr =>
    cases hs
    exact .interrupted issue errno pc
  | eagain =>
    cases hs
    exact .lost issue _ errno _ pc (by decide) (.inr (.inl rfl))
  | error =>
    cases hs
    exact .lost issue _ errno _ pc (errnoMessage_ne _ _ (by decide)) (.inr (.inr rfl))

theorem moves_of_step {c c' : CacheClient} {a : ClientAction} (hs : c.step a = some c') :
    Moves c a c' := by
  unfold step at hs
  split at hs
  case h_1 idle =>
    cases hs
    unfold connect
    split
    · exact .unconnected _ _
    · split
      · exact .unconnected _ _
      · exact .unconnected _ _
      · exact .unconnected _ _
      · exact .connected _ _ idle
  case h_2 idle =>
    cases hs
    exact .disconnected idle
  case h_3 idle =>
    cases hs
    exact moves_execute _ idle
  case h_4 pc => exact moves_onSend pc hs
  case h_5 pc =>
    cases hs
    exact moves_onParse pc
  case h_6 pc => exact moves_onRecv pc hs
  case h_7 => cases hs

end CacheClient

end LocalCache
