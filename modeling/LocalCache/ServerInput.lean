import LocalCache.ServerRequests

namespace LocalCache

open Protocol Serializer Library Transition RequestStream

/-- How often `process_input` has to ask for a request until these bytes are settled: once for
every complete frame, and once more for a malformed one. -/
def demand (limits : Limits) (x : Bytes) : Nat :=
  (Framing.parse (head limits) x).1.length +
    (Framing.parse (head limits) x).2.isSome.toNat

theorem demand_more {limits : Limits} {x : Bytes} (h : head limits x = .more) :
    demand limits x = 0 := by
  rw [demand, Framing.parse_more h]
  rfl

theorem demand_item {limits : Limits} {x : Bytes} {r : Request} {n : Nat}
    (h : head limits x = .item r n) : demand limits x = demand limits (x.drop n) + 1 := by
  rw [demand, demand, Framing.parse_item (head_incremental limits) h]
  simp only [Framing.after, List.length_append, List.length_singleton]
  omega

theorem head_of_demand {limits : Limits} {x : Bytes} (h : demand limits x = 0) :
    head limits x = .more := by
  cases hh : head limits x with
  | more => rfl
  | item r n =>
    rw [demand_item hh] at h
    cases h
  | bad e =>
    rw [demand, Framing.parse_bad hh] at h
    cases h

/-- What the other parts of the server do to a connection leaves its input as it is and gives
its requests no less room. -/
structure Connection.Keeps (x y : Connection) : Prop where
  input : y.unconsumed = x.unconsumed
  limits : y.limits = x.limits
  closed : x.closed = true → y.closed = true
  flag : x.closeAfterFlush = true → y.closeAfterFlush = true
  inflight : y.inflight ≤ x.inflight

namespace Connection.Keeps

variable {x y : Connection}

theorem refl (x : Connection) : Keeps x x := ⟨rfl, rfl, id, id, Nat.le_refl _⟩

theorem of_refill {more : Bool} (h : x.refill = (more, y)) : Keeps x y := by
  rw [refill_frame h]
  exact ⟨rfl, rfl, id, id, Nat.le_refl _⟩

theorem of_stage {frame : Bytes} {overLimit : Bool} (h : x.stage frame = some (overLimit, y)) :
    Keeps x y := by
  rw [stage_frame h]
  exact ⟨rfl, rfl, id, id, Nat.le_refl _⟩

theorem of_complete (h : 0 < x.inflight) : Keeps x x.completeRequest := by
  refine ⟨rfl, rfl, id, id, ?_⟩
  rw [Server.inflight_completeRequest h]
  exact Nat.sub_le _ _

end Connection.Keeps

def Loop.parses : Loop → Option Nat
  | .process c => some c
  | .busy job => some job.connection
  | _ => none

def Loop.ends : Loop → Option Nat
  | .immediate c _ | .close c _ => some c
  | _ => none

namespace Server

/-- A condition on the bytes a read brings to a connection. -/
def OnData (s : Server) (a : Action) (p : Nat → Bytes → Prop) : Prop :=
  match s.loop, a with
  | .read c, .loop (.recv (.data bytes)) => p c bytes
  | _, _ => True

instance (s : Server) (a : Action) (p : Nat → Bytes → Prop) [∀ c bytes, Decidable (p c bytes)] :
    Decidable (s.OnData a p) := by
  unfold OnData
  split <;> infer_instance

/-- The connection holds no request that nobody will take off it: it waits for more bytes, or
the loop is still at it with room for all that it holds, or it ends. -/
def Settled (s : Server) (c : Nat) : Prop :=
  (s.conn c).closed = true ∨ (s.conn c).closeAfterFlush = true ∨
    head (s.conn c).limits.protocolLimits (s.conn c).unconsumed = .more ∨
    (s.loop.parses = some c ∧
      demand (s.conn c).limits.protocolLimits (s.conn c).unconsumed + (s.conn c).inflight ≤
        (s.conn c).limits.maxInflight.toNat) ∨
    s.loop.ends = some c

variable {config : ServerConfig} {fds : Descriptors} {s s' : Server} {a : Action} {o : Outcome}
  {w c : Nat}

theorem Settled.keep (h : s.Settled c) (keeps : (s.conn c).Keeps (s'.conn c))
    (parses : s.loop.parses = some c → s'.loop.parses = some c)
    (ends : s.loop.ends = some c → s'.loop.ends = some c) : s'.Settled c := by
  rw [Settled, keeps.input, keeps.limits]
  refine h.imp keeps.closed (Or.imp keeps.flag (Or.imp id (Or.imp ?_ ends)))
  rintro ⟨hl, hroom⟩
  exact ⟨parses hl, Nat.le_trans (Nat.add_le_add_left keeps.inflight _) hroom⟩

theorem Settled.update {x : Connection} (h : ∀ d, s.Settled d) (conn : s'.conn = s.setConn c x)
    (keeps : (s.conn c).Keeps x)
    (parses : ∀ d, s.loop.parses = some d → s'.loop.parses = some d)
    (ends : ∀ d, s.loop.ends = some d → s'.loop.ends = some d) (d : Nat) : s'.Settled d := by
  refine (h d).keep ?_ (parses d) (ends d)
  rw [conn]
  by_cases hd : d = c
  · rw [hd, setConn_same]
    exact keeps
  · rw [setConn_of_ne hd]
    exact .refl _

theorem Settled.only (h : ∀ d, s.Settled d) (hl : s.loop.handles = some c)
    (conn : ∀ d, d ≠ c → s'.conn d = s.conn d) (settled : s'.Settled c) (d : Nat) :
    s'.Settled d := by
  by_cases hd : d = c
  · exact hd ▸ settled
  · refine (h d).keep ?_ ?_ ?_
    · rw [conn d hd]
      exact .refl _
    · intro hp
      cases hpc : s.loop <;> rw [hpc] at hp hl <;> cases hp <;>
        exact absurd (Option.some.inj hl) hd
    · intro he
      cases hpc : s.loop <;> rw [hpc] at he hl <;> cases he <;>
        exact absurd (Option.some.inj hl) hd

theorem settled_worker (h : ∀ c, s.Settled c) (ha : s.Accounted config)
    (hw : w < config.workerThreads.toNat) (hs : WorkerStep s w s') : ∀ c, s'.Settled c := by
  cases hs with
  | stage job response overLimit x pc hx =>
    exact .update h rfl (.of_stage hx) (fun _ => id) (fun _ => id)
  | discard job pc =>
    have hpos := ha.inflight_pos hw (c := job.connection) (by rw [pc]; rfl)
    exact .update h rfl (.of_complete hpos) (fun _ => id) (fun _ => id)
  | decrement d healthy pc =>
    have hpos := ha.inflight_pos hw (c := d) (by rw [pc]; rfl)
    exact .update h rfl (.of_complete hpos) (fun _ => id) (fun _ => id)
  | unhealthy d pc =>
    exact .update h rfl ⟨rfl, rfl, id, fun _ => rfl, Nat.le_refl _⟩ (fun _ => id) (fun _ => id)
  | notify d pc =>
    exact .update h rfl ⟨rfl, rfl, id, id, Nat.le_refl _⟩ (fun _ => id) (fun _ => id)
  | _ => exact fun c => (h c).keep (.refl _) id id

theorem nextRequest_demand {x y : Connection} {out request : Request} {result : ParseResult}
    (h : x.nextRequest out = (result, request, y)) :
    y.limits = x.limits ∧ y.inflight = x.inflight ∧
      demand y.limits.protocolLimits y.unconsumed +
        (if result.status = .kComplete then 1 else 0) =
        demand x.limits.protocolLimits x.unconsumed ∧
      (result.status = .kNeedMoreData →
        head y.limits.protocolLimits y.unconsumed = .more) := by
  have hf := Connection.nextRequest_frame h
  have hlim : y.limits = x.limits := by rw [hf]
  have hinfl : y.inflight = x.inflight := by rw [hf]
  refine ⟨hlim, hinfl, ?_⟩
  rw [hlim]
  obtain ⟨n, hh, rfl, rfl⟩ | ⟨hh, rfl, rfl⟩ | ⟨e, -, rfl, rfl⟩ := Connection.nextRequest_cases h
  · rw [Connection.unconsumed_consume, demand_item hh]
    exact ⟨rfl, fun hc => by cases hc⟩
  · rw [Connection.unconsumed_compactInput]
    exact ⟨rfl, fun _ => hh⟩
  · exact ⟨rfl, fun hc => by cases hc⟩

end Server

end LocalCache
