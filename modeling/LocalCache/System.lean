import LocalCache.ClientPeer
import LocalCache.PeerStreams
import LocalCache.ServerMap

namespace LocalCache

open Protocol Serializer RequestCodec Library Transition RecencyList

theorem Permitted.grammatical {config : ServerConfig} {mine : Bytes → Prop} {op : Operation}
    (hconfig : config.Valid) (h : Permitted config mine op) (id : UInt64) :
    Grammatical (op.request id) config.connectionLimits.protocolLimits := by
  obtain ⟨hkey, hvalue⟩ := hconfig.toNat_protocolLimits
  have hk : config.maxKeyBytes.toNat ≤ 64 * 1024 := hconfig.key_le
  have hv : config.maxValueBytes.toNat ≤ 64 * 1024 * 1024 := hconfig.value_le
  have key_le : (op.request id).key.length ≤ config.maxKeyBytes.toNat := by
    cases op with
    | get key | erase key => exact h.2.2
    | put key value => exact h.2.2.1
    | ping => exact Nat.zero_le _
    | clear | stats => cases h
  have value_le : (op.request id).value.length ≤ config.maxValueBytes.toNat := by
    cases op with
    | put key value => exact h.2.2.2
    | get key | erase key | ping | clear | stats => exact Nat.zero_le _
  refine ⟨isValidOpcode_raw _, ?_, ?_, ?_, ?_, ?_⟩
  · rw [hkey]
    exact Nat.le_min.mpr ⟨key_le, key_le.trans hk⟩
  · rw [hvalue]
    exact Nat.le_min.mpr ⟨value_le, value_le.trans hv⟩
  · intro hop
    cases op with
    | get key | put key value | erase key => exact h.2.1
    | ping | clear | stats => simp [Operation.request, Operation.opcode] at hop
  · intro hop
    cases op with
    | get key | put key value | erase key =>
      simp [Operation.request, Operation.opcode] at hop
    | ping | clear | stats => rfl
  · intro hop
    cases op with
    | put key value => exact absurd rfl hop
    | get key | erase key | ping | clear | stats => rfl

namespace CacheClient

variable {limits : Limits} {allowed : Operation → Prop} {c c' : CacheClient} {a : ClientAction}

/-- No system call of the client fails, and its caller asks for what is allowed, on a connection
and within the limits. -/
def Undisturbed (limits : Limits) (allowed : Operation → Prop) (c : CacheClient)
    (a : ClientAction) : Prop :=
  a.faultless = true ∧ ∀ op ∈ a.operation,
    c.fd ≠ none ∧ allowed op ∧ Grammatical (op.request 0) limits

structure Session (limits : Limits) (allowed : Operation → Prop) (c : CacheClient) : Prop where
  inv : c.Inv
  wire : c.Wire
  whole : c.Whole
  allowed : ∀ i ∈ c.trace.issued, allowed i.op
  grammatical : ∀ i ∈ c.trace.issued, Grammatical i.request limits

theorem session_start (path : String) : Session limits allowed { socketPath := path } where
  inv := inv_start path
  wire := wire_start path
  whole := whole_start path
  allowed := fun _ hi => by cases hi
  grammatical := fun _ hi => by cases hi

namespace Session

theorem steady (h : c.Session limits allowed)
    (served : ∀ n, ∃ rs, Served (listedOn n c.asked) (c.trace.received n) rs)
    (ok : c.Undisturbed limits allowed a) : c.Steady a where
  faultless := ok.1
  callable := by
    intro op hop
    obtain ⟨held, -, hgrammatical⟩ := ok.2 op hop
    obtain ⟨key_le, value_le⟩ := hgrammatical.withinCeilings
    exact ⟨held, key_le, value_le⟩
  readable := by
    intro i pc
    obtain ⟨rs, hrs⟩ := served i.connection
    exact h.whole.drawn.readable h.inv (h.inv.current i (by rw [pc]; rfl)) hrs

theorem issued_moves (h : c.Session limits allowed) (ok : c.Undisturbed limits allowed a)
    (hm : Moves c a c') :
    ∀ i ∈ c'.trace.issued, allowed i.op ∧ Grammatical i.request limits := by
  cases ends_of_moves hm with
  | kept issue issued | failed op handed error unsteady issue issued
  | answered i out rest offset pc frame value_le issue issued =>
    rw [issued]
    exact fun i hi => ⟨h.allowed i hi, h.grammatical i hi⟩
  | begun op n act idle held issue issued =>
    obtain ⟨-, hallowed, hgrammatical⟩ := ok.2 op (by rw [act]; rfl)
    rw [issued]
    intro i hi
    obtain hi | hi := List.mem_append.mp hi
    · exact ⟨h.allowed i hi, h.grammatical i hi⟩
    · rw [List.mem_singleton.mp hi]
      exact ⟨hallowed, Operation.grammatical_request hgrammatical _⟩

theorem moves (h : c.Session limits allowed)
    (served : ∀ n, ∃ rs, Served (listedOn n c.asked) (c.trace.received n) rs)
    (ok : c.Undisturbed limits allowed a) (hm : Moves c a c') : c'.Session limits allowed where
  inv := inv_moves h.inv hm
  wire := wire_moves h.wire hm
  whole := whole_moves h.whole h.inv h.wire (h.steady served ok) hm
  allowed := fun i hi => (h.issued_moves ok hm i hi).1
  grammatical := fun i hi => (h.issued_moves ok hm i hi).2

end Session

def undisturbed (limits : Limits) (allowed : Operation → Prop) (path : String) :
    Usage limits path where
  ok := Undisturbed limits allowed
  Inv := Session limits allowed
  inv := Session.inv
  wire := Session.wire
  drawn := fun h => h.whole.drawn
  framed := fun h => h.whole.sent h.inv h.wire
  grammatical := Session.grammatical
  inv_start := session_start path
  inv_moves := Session.moves

end CacheClient

def Returned.seen (r : Returned) : Operation × Option (Status × Bytes) :=
  (r.op, if r.result.status = .kServerBusy then none else some (r.result.status, r.result.value))

/-- A server and its clients. `live` are the entries that a map without limits would hold after
the requests executed so far; no step depends on it. -/
structure System extends Net CacheClient where
  live : List Entry := []

namespace System

def sessions (config : ServerConfig) (keys : Nat → Bytes → Prop) (paths : Nat → String) (i : Nat) :
    Peer config.frameLimits CacheClient ClientAction :=
  (CacheClient.undisturbed config.frameLimits (Permitted config (keys i)) (paths i)).peer

def start (config : ServerConfig) (fds : Descriptors) (keys : Nat → Bytes → Prop)
    (paths : Nat → String) : System where
  toNet := .start config fds (sessions config keys paths)

def settled (z : System) : NetAction ClientAction → List Entry
  | .server a => (z.fed.server.running a).elim z.live (fun job => settle z.live job.request)
  | .accept _ _ _ | .peer _ _ => z.live

def step (config : ServerConfig) (fds : Descriptors) (keys : Nat → Bytes → Prop)
    (paths : Nat → String) (z : System) (a : NetAction ClientAction) : Option System :=
  (z.toNet.step fds (sessions config keys paths) a).map fun net =>
    { toNet := net, live := z.settled a }

/-- The conditions on a run: the system calls of the clients succeed, the clients keep to their
own keys and to the configured sizes, and the live entries stay within the limits of the
cache. -/
def Assumed (config : ServerConfig) (keys : Nat → Bytes → Prop) (z : System) :
    NetAction ClientAction → Prop
  | .server a => Room config.cacheLimits (z.settled (.server a))
  | .accept _ _ _ => True
  | .peer i a => a.faultless = true ∧
      ∀ op ∈ a.operation, (z.peer i).fd ≠ none ∧ Permitted config (keys i) op

instance (config : ServerConfig) (keys : Nat → Bytes → Prop) [∀ i, DecidablePred (keys i)]
    (z : System) (a : NetAction ClientAction) : Decidable (Assumed config keys z a) :=
  match a with
  | .server a => inferInstanceAs (Decidable (Room config.cacheLimits (z.settled (.server a))))
  | .accept _ _ _ => isTrue trivial
  | .peer i a => inferInstanceAs (Decidable (_ = _ ∧
      ∀ op ∈ a.operation, _ ≠ none ∧ Permitted config (keys i) op))

variable {config : ServerConfig} {fds : Descriptors} {keys : Nat → Bytes → Prop}
  {paths : Nat → String} {z z' : System} {a : NetAction ClientAction}

theorem moves_of_step (h : z.step config fds keys paths a = some z') :
    Net.Moves fds (sessions config keys paths) z.toNet a z'.toNet ∧ z'.live = z.settled a := by
  obtain ⟨net, hs, rfl⟩ := Option.map_eq_some_iff.mp h
  exact ⟨Net.moves_of_step hs, rfl⟩

theorem net_assumed (paths : Nat → String) (hconfig : config.Valid) (ok : Assumed config keys z a) :
    Net.Assumed (sessions config keys paths) z.toNet a := by
  cases a with
  | server a | accept fd i n => trivial
  | peer i a =>
    refine ⟨ok.1, fun op hop => ?_⟩
    obtain ⟨held, permitted⟩ := ok.2 op hop
    exact ⟨held, permitted, permitted.grammatical hconfig 0⟩

end System

end LocalCache
