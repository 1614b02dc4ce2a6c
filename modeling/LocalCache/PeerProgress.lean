import LocalCache.AsyncClientWait
import LocalCache.PeerCapacity
import LocalCache.ServerParsing

namespace LocalCache

open Protocol Serializer RequestCodec RequestStream Library Keyed Threads Transition Framing

namespace Server

variable {config : ServerConfig} {fds : Descriptors} {s s' : Server} {a : Action} {o : Outcome}

theorem ne_stopWait (hs : LoopStep config fds s o s') (before : s.loop ≠ .stopWait)
    (accepting : s'.accepting = true) : s'.loop ≠ .stopWait := by
  cases hs with
  | stopWait => cases accepting
  | event fd events owner rest c pc =>
    exact connectionEvent_where (P := fun l => l ≠ .stopWait) s c events (by simp) (by simp)
      (by simp)
  | flushed c k x pc | sendAgain c k pc =>
    exact resume_where (P := fun l => l ≠ .stopWait) s c k (by simp) (by simp) (by simp)
  | interest c rest pc =>
    exact updateInterest_where (P := fun l => l ≠ .stopWait) s c (by simp) (by simp)
  | closeCheck c pc =>
    dsimp only
    split
    · simp
    · exact updateInterest_where (P := fun l => l ≠ .stopWait) s c (by simp) (by simp)
  | endBatch | ready | closedBefore | close | drainPool | drainInflight | drainPending
  | busy | immediate =>
    dsimp only
    split <;> simp
  | _ => simp_all [leave, closeAll, openConnection]

def Retains (s : Server) : Prop :=
  s.accepting = true → s.ledger.dropped = [] ∧ s.loop ≠ .stopWait

theorem step_retains (h : s.Retains) (hs : Step config fds s a s') : s'.Retains := by
  intro accepting
  obtain ⟨hdropped, hloop⟩ := h (accepting_of_step hs accepting)
  cases hs with
  | loop hl =>
    have hnext := ne_stopWait hl hloop accepting
    cases hl with
    | stopExpired pc => exact absurd pc hloop
    | busy job ok x pc he =>
      refine ⟨?_, hnext⟩
      simp only [recordAnswer]
      split <;> exact hdropped
    | immediate c response ok x pc he =>
      refine ⟨?_, hnext⟩
      dsimp only
      split <;> exact hdropped
    | _ => exact ⟨hdropped, hnext⟩
  | worker _ hs => cases hs <;> exact ⟨hdropped, hloop⟩
  | requestShutdown => exact ⟨hdropped, hloop⟩

/-- The server has nothing to do until a socket or a thread wakes it. -/
structure Idle (config : ServerConfig) (s : Server) : Prop where
  waits : s.loop = .wait
  accepting : s.accepting = true
  queue : s.queue = []
  workers : ∀ w < config.workerThreads.toNat, s.worker w = .waiting

instance (config : ServerConfig) (s : Server) : Decidable (s.Idle config) :=
  decidable_of_iff (s.loop = .wait ∧ s.accepting = true ∧ s.queue = [] ∧
      ∀ w < config.workerThreads.toNat, s.worker w = .waiting)
    ⟨fun ⟨h₁, h₂, h₃, h₄⟩ => ⟨h₁, h₂, h₃, h₄⟩,
      fun h => ⟨h.waits, h.accepting, h.queue, h.workers⟩⟩

theorem Idle.answered (h : s.Idle config) (hc : s.Core config) (hr : s.Retains) {j : Job}
    (taken : j ∈ s.ledger.taken) (opened : (s.conn j.connection).closed = false) :
    s.answered j = 1 := by
  refine hc.answered_of_idle taken ?_ opened
  have howing : total config.workerThreads.toNat (owing j.connection) s.worker = 0 :=
    total_eq_zero_iff.mpr (fun w hw => by rw [h.workers w hw]; rfl)
  rw [hc.accounted.inflight, outstanding, h.queue, h.waits, howing, (hr h.accepting).1]
  rfl

theorem owing_le_one (c : Nat) (pc : Worker) : owing c pc ≤ 1 := by
  rw [owing]
  split <;> omega

theorem total_owing_le (config : ServerConfig) (s : Server) (c : Nat) :
    total config.workerThreads.toNat (owing c) s.worker ≤ config.workerThreads.toNat := by
  have hle := Finset.sum_le_card_nsmul (Finset.range config.workerThreads.toNat)
    (fun w => owing c (s.worker w)) 1 (fun w _ => owing_le_one c _)
  rwa [Finset.card_range, nsmul_eq_mul, Nat.mul_one] at hle

def waitingOn (s : Server) (c : Nat) : List Job :=
  (s.queue ++ s.loop.job.toList).filter fun j => j.connection = c

theorem outstanding_le (s : Server) (c : Nat) (retained : s.ledger.dropped = []) :
    s.outstanding config c ≤ (s.waitingOn c).length + config.workerThreads.toNat := by
  have howing := total_owing_le config s c
  have hheld : (if s.loop.job.map Job.connection = some c then 1 else 0) =
      s.loop.job.toList.countP (fun j => j.connection = c) := by
    cases s.loop.job with
    | none => rfl
    | some j => simp [List.countP_cons]
  rw [outstanding, hheld, retained, List.countP_nil, waitingOn, ← List.countP_eq_length_filter,
    List.countP_append]
  omega

theorem Core.waitingOn_le (h : s.Core config) (jobs : ∀ x ∈ s.ledger.answers, x.job ≠ none)
    (c : Nat) : (s.waitingOn c).length + (s.answersOn c).length ≤ (s.takenOn c).length := by
  have hlength : (s.answersOn c).length = ((s.answersOn c).filterMap Answer.job).length := by
    rw [List.length_filterMap_eq_countP, eq_comm, List.countP_eq_length]
    intro x hx
    exact Option.isSome_iff_ne_none.mpr (jobs x (List.mem_filter.mp hx).1)
  rw [hlength, ← List.length_append]
  refine List.Subperm.length_le (List.subperm_iff_count.mpr ?_)
  intro j
  have hplaces := h.accounted.places j
  have hheld : s.loop.job.toList.count j = s.held j := by
    rw [held]
    cases s.loop.job with
    | none => rfl
    | some i => simp [List.count_singleton]
  have hanswered : ((s.answersOn c).filterMap Answer.job).count j ≤ s.answered j := by
    rw [List.count_filterMap, answered]
    refine (List.filter_sublist.countP_le (p := _)).trans (Nat.le_of_eq ?_)
    congr 1
    funext x
    exact beq_eq_decide ..
  rw [List.count_append]
  by_cases hj : j.connection = c
  · have htaken : (s.takenOn c).count j = s.ledger.taken.count j :=
      List.count_filter (decide_eq_true hj)
    have hwaiting : (s.waitingOn c).count j = s.queue.count j + s.held j := by
      rw [← hheld, ← List.count_append]
      exact List.count_filter (decide_eq_true hj)
    omega
  · have hwaiting : (s.waitingOn c).count j = 0 := by
      rw [List.count_eq_zero]
      intro hmem
      exact hj (of_decide_eq_true (List.mem_filter.mp hmem).2)
    have hother : ((s.answersOn c).filterMap Answer.job).count j = 0 := by
      rw [List.count_eq_zero]
      intro hmem
      obtain ⟨x, hx, hxj⟩ := List.mem_filterMap.mp hmem
      obtain ⟨hx, hc⟩ := List.mem_filter.mp hx
      exact hj ((h.accounted.answers x hx j hxj).1.symm.trans (of_decide_eq_true hc))
    omega

end Server

namespace Net

variable {σ α : Type} {config : ServerConfig} {fds : Descriptors}
  {P : Nat → Peer config.frameLimits σ α} {z z' : Net σ} {a : Action} {c k n m : Nat} {j : Job}

/-- A peer has at most `m` requests under way on each connection. -/
def Narrow (P : Nat → Peer config.frameLimits σ α) (z : Net σ) (m : Nat) : Prop :=
  ∀ p, (z.askedOn P p).length ≤ (z.toldOn P p).length + m

theorem Inv.demand_le (h : z.Inv P) {p : Nat × Nat} {bytes : Bytes}
    (arrives : z.fed.received c ++ bytes <+: z.sent P p) :
    (z.fed.server.takenOn c).length +
        demand config.frameLimits ((z.fed.server.conn c).unconsumed ++ bytes) ≤
      (z.askedOn P p).length := by
  have hpre := arrives.trans ((P p.1).framed (h.peers p.1) p.2)
  have hparse := ((h.tracked c).feed bytes).parse_eq
  have hfirst := parse_frames (head_incremental config.frameLimits)
    (fun q hq y => .inl (h.head_asked q hq y)) hpre
  have hclean := parse_clean (head_incremental config.frameLimits) (head_nil _) h.head_asked hpre
  rw [hparse] at hfirst hclean
  have hlength := hfirst.length_le
  simp only [after, List.length_append, List.length_map] at hlength hclean
  rw [demand, hclean]
  exact hlength

/-- If the window of a connection has room for the requests under way and for one decrement per
worker, no read goes beyond it. -/
theorem Inv.inWindow (h : z.Inv P) (narrow : z.Narrow P m)
    (fits : m + config.workerThreads.toNat ≤ config.maxInflightPerConn.toNat)
    (retained : z.fed.server.ledger.dropped = []) (ha : z.arrives P a = true) :
    z.fed.server.InWindow a := by
  unfold Server.InWindow Server.OnData
  unfold arrives at ha
  split
  · rename_i c bytes pc
    rw [pc] at ha
    obtain ⟨⟨k, n⟩, hp, hpre⟩ := (Option.any_eq_true _ _).mp ha
    have hdemand := h.demand_le (p := (k, n)) (of_decide_eq_true hpre)
    have hwaiting := h.core.waitingOn_le h.jobs c
    have houtstanding : z.fed.server.outstanding config c ≤
        (z.fed.server.waitingOn c).length + config.workerThreads.toNat :=
      Server.outstanding_le _ c retained
    have htold := (h.responses hp).length_le
    have hnarrow := narrow (k, n)
    rw [List.length_map] at htold
    rw [(h.core.buffers c).limits_eq, h.core.accounted.inflight]
    have hgoal : demand config.frameLimits ((z.fed.server.conn c).unconsumed ++ bytes) +
        z.fed.server.outstanding config c ≤ config.maxInflightPerConn.toNat := by
      omega
    exact hgoal
  · trivial

structure Flowing (P : Nat → Peer config.frameLimits σ α) (z : Net σ) : Prop where
  inv : z.Inv P
  retains : z.fed.server.Retains
  settled : z.fed.server.accepting = true → ∀ c, z.fed.server.Settled c

theorem flowing_fed {fed : Fed} (h : Flowing P z) (narrow : z.Narrow P m)
    (fits : m + config.workerThreads.toNat ≤ config.maxInflightPerConn.toNat)
    (ha : z.arrives P a = true) (inv : z'.Inv P) (hs : z.fed.step config fds a = some fed)
    (hfed : z'.fed = fed) : Flowing P z' := by
  subst hfed
  have hstep := Server.step_sound (Fed.step_server hs).1
  refine ⟨inv, Server.step_retains h.retains hstep, ?_⟩
  intro accepting
  have hbefore := Server.accepting_of_step hstep accepting
  exact Server.step_settled (h.settled hbefore) h.inv.core
    (h.inv.inWindow narrow fits (h.retains hbefore).1 ha) hstep

theorem flowing_moves (hconfig : config.Valid) (h : Flowing P z) (narrow : z.Narrow P m)
    (fits : m + config.workerThreads.toNat ≤ config.maxInflightPerConn.toNat)
    {a : NetAction α} (ok : Assumed P z a) (hm : Moves fds P z a z') : Flowing P z' := by
  have hinv := inv_moves hconfig h.inv ok hm
  cases hm with
  | served a fed arrives hs => exact flowing_fed h narrow fits arrives hinv hs rfl
  | accepted fd k n fed awaits hs | rejected fd k n fed hs =>
    exact flowing_fed h narrow fits (by simp [arrives]) hinv hs rfl
  | moved k a s delivers hs => exact ⟨hinv, h.retains, h.settled⟩

theorem reach_flowing (hconfig : config.Valid)
    (fits : m + config.workerThreads.toNat ≤ config.maxInflightPerConn.toNat)
    (narrow : ∀ z : Net σ, z.Inv P → z.Narrow P m)
    (h : Reach (step fds P) (Assumed P) (start config fds P) z) : Flowing P z := by
  refine h.invariant ⟨inv_start config fds P, fun _ => ⟨rfl, by simp [start, Fed.start,
    Server.start]⟩, fun _ => Server.settled_start config fds⟩ ?_
  intro z a z' hz ok hs
  exact flowing_moves hconfig hz (narrow z hz.inv) fits ok (moves_of_step hs)

/-- Nothing is under way between a connection that the server keeps and that of a peer. -/
structure Still (P : Nat → Peer config.frameLimits σ α) (z : Net σ) (c : Nat) (p : Nat × Nat) :
    Prop where
  link : z.link c = some p
  opened : (z.fed.server.conn c).closed = false
  stays : (z.fed.server.conn c).closeAfterFlush = false
  arrived : z.fed.received c = z.sent P p
  flushed : (z.fed.server.conn c).hasPendingOutput = false
  delivered : z.read P p = z.fed.server.ledger.accepted c

instance (P : Nat → Peer config.frameLimits σ α) (z : Net σ) (c : Nat) (p : Nat × Nat) :
    Decidable (z.Still P c p) :=
  decidable_of_iff (z.link c = some p ∧ (z.fed.server.conn c).closed = false ∧
      (z.fed.server.conn c).closeAfterFlush = false ∧ z.fed.received c = z.sent P p ∧
      (z.fed.server.conn c).hasPendingOutput = false ∧
      z.read P p = z.fed.server.ledger.accepted c)
    ⟨fun ⟨h₁, h₂, h₃, h₄, h₅, h₆⟩ => ⟨h₁, h₂, h₃, h₄, h₅, h₆⟩,
      fun h => ⟨h.link, h.opened, h.stays, h.arrived, h.flushed, h.delivered⟩⟩

theorem Still.taken {p : Nat × Nat} (h : z.Still P c p) (hz : Flowing P z)
    (idle : z.fed.server.Idle config)
    (written : z.sent P p = (z.askedOn P p).flatMap serializeRequest) :
    (z.fed.server.takenOn c).map Job.request = z.askedOn P p := by
  have hmore : head config.frameLimits (z.fed.server.conn c).unconsumed = .more := by
    rw [ServerConfig.frameLimits, ← (hz.inv.core.buffers c).limits_eq]
    obtain hc | hc | hc | hc | hc := hz.settled idle.accepting c
    · rw [h.opened] at hc
      cases hc
    · rw [h.stays] at hc
      cases hc
    · exact hc
    · rw [idle.waits] at hc
      cases hc.1
    · rw [idle.waits] at hc
      cases hc
  have hparse := (hz.inv.tracked c).parse_eq
  rw [h.arrived, written, parse_flatMap (head_incremental _) (head_nil _) hz.inv.head_asked,
    parse_more hmore, List.map_id] at hparse
  simpa only [after, List.append_nil] using (congrArg Prod.fst hparse).symm

theorem Flowing.answered (hz : Flowing P z) (idle : z.fed.server.Idle config)
    (opened : (z.fed.server.conn c).closed = false) :
    ((z.fed.server.answersOn c).map Answer.job).Perm ((z.fed.server.takenOn c).map some) := by
  have htaken : ((z.fed.server.takenOn c).map some).Nodup :=
    (List.filter_sublist.nodup hz.inv.core.taken_nodup).map (Option.some_injective _)
  rw [List.perm_ext_iff_of_nodup (hz.inv.jobs_nodup c) htaken]
  intro o
  constructor
  · intro ho
    obtain ⟨x, hx, rfl⟩ := List.mem_map.mp ho
    obtain ⟨j, hxj, hj, -⟩ := hz.inv.job_of_answer hx
    rw [hxj]
    exact List.mem_map_of_mem hj
  · intro ho
    obtain ⟨j, hj, rfl⟩ := List.mem_map.mp ho
    obtain ⟨htaken, hconn⟩ := List.mem_filter.mp hj
    have hanswered := idle.answered hz.inv.core hz.retains htaken (by
      rw [of_decide_eq_true hconn]
      exact opened)
    obtain ⟨x, hx, hxj⟩ := List.countP_pos_iff.mp
      (show 0 < z.fed.server.answered j by omega)
    refine List.mem_map.mpr ⟨x, List.mem_filter.mpr ⟨hx, ?_⟩, of_decide_eq_true hxj⟩
    rw [(hz.inv.core.accounted.answers x hx j (of_decide_eq_true hxj)).1]
    exact hconn

theorem Still.read {p : Nat × Nat} (h : z.Still P c p) (hz : Flowing P z) :
    z.read P p = ((z.fed.server.answersOn c).map Answer.response).flatMap serializeResponse := by
  rw [h.delivered, (hz.inv.core.accepted_of_flushed h.flushed).2, Server.frames_eq]

end Net

namespace Engine

variable {config : EngineConfig} {server : ServerConfig} {configs : Nat → EngineConfig}
  {z : Net Engine} {e : Engine} {i k m : Nat} {rs : List Response}

theorem narrow_engines (h : z.Inv (engines server configs))
    (depth : ∀ k, (configs k).pipelineDepth ≤ m) : z.Narrow (engines server configs) m := by
  rintro ⟨k, i⟩
  have hb : (z.peer k).Books (configs k) := (h.peers k).sound.books
  have hlength := (hb.shared.shares i).length_eq
  have hpending := (hb.shared.depth i).trans (depth k)
  have hasked : (z.askedOn (engines server configs) (k, i)).length =
      ((z.peer k).issuedOn i).length :=
    (congrArg List.length (listedOn_asked (z.peer k) i)).trans (List.length_map _)
  have htold : (z.toldOn (engines server configs) (k, i)).length =
      ((z.peer k).completedOn i).length :=
    (congrArg List.length (listedOn_told (z.peer k) i)).trans (List.length_map _)
  rw [List.length_append, List.length_map, List.length_map, List.length_map] at hlength
  omega

theorem Incoming.completed_all (h : e.Incoming) (live : (e.conn i).live = true)
    (waiting : e.phase = .wait) (drained : (e.conn i).Drained)
    (served : Served (listedOn i e.asked) (e.trace.received i) rs)
    (all : e.trace.received i = rs.flatMap serializeResponse) :
    (e.completedOn i).map Completion.response = rs := by
  have hfails : e.phase.fails i = false := by rw [waiting]; rfl
  obtain ⟨more, rfl, -⟩ := h.split live hfails served
  have hconsumed : e.phase.consumed i = 0 := by rw [waiting]; rfl
  have hheld := (h.held i live hfails).2
  rw [hconsumed, List.drop_zero, ← flatMap_told, listedOn_told, all,
    List.flatMap_append] at hheld
  have hinput := List.append_cancel_left hheld
  cases more with
  | nil => rw [List.append_nil]
  | cons r more =>
    exfalso
    have hle := served.sized r (List.mem_append_right _ (List.mem_cons_self ..))
    have hlimit : r.value.length ≤
        min ({} : Limits).maxValueBytes.toNat kMaxValueBytes.toNat := Nat.le_min.mpr ⟨hle, hle⟩
    have hcomplete : (deserializeResponse (e.conn i).input {} {}).1.status = .kComplete := by
      rw [hinput, List.flatMap_cons, ResponseCodec.deserializeResponse_serialize hlimit]
      rfl
    rw [Conn.Drained, hcomplete] at drained
    cases drained

theorem issued_answered (hz : Net.Flowing (engines server configs) z)
    (idle : z.fed.server.Idle server) (hsound : (z.peer k).Sound config) {c : Nat}
    (written : ((z.peer k).conn i).unwritten = false)
    (still : z.Still (engines server configs) c (k, i)) :
    (z.fed.server.takenOn c).map Job.request = ((z.peer k).issuedOn i).map Ticket.request ∧
      ((z.fed.server.answersOn c).map Answer.job).Perm ((z.fed.server.takenOn c).map some) := by
  have hsent : (z.peer k).trace.sent i =
      (listedOn i (z.peer k).asked).flatMap serializeRequest := by
    rw [flatMap_asked, ← hsound.outgoing.stream i, unsent_nil written, List.append_nil]
  refine ⟨?_, hz.answered idle still.opened⟩
  rw [← listedOn_asked]
  exact still.taken hz idle hsent

theorem pending_nil (hz : Net.Flowing (engines server configs) z)
    (idle : z.fed.server.Idle server) (hsound : (z.peer k).Sound config)
    (hsteady : (z.peer k).Steady config) {c : Nat} (waiting : (z.peer k).phase = .wait)
    (live : ((z.peer k).conn i).live = true) (written : ((z.peer k).conn i).unwritten = false)
    (still : z.Still (engines server configs) c (k, i)) : ((z.peer k).conn i).pending = [] := by
  obtain ⟨htaken, hanswered⟩ := issued_answered hz idle hsound written still
  have hall := hsound.incoming.completed_all live waiting
    (hsteady.resting_of_wait waiting live).drained (hz.inv.served_of_link still.link)
    (still.read hz)
  have hissued := congrArg List.length htaken
  have hanswers := hanswered.length_eq
  have hcompleted := congrArg List.length hall
  have hshares := (hsound.books.shared.shares i).length_eq
  rw [List.length_append] at hshares
  simp only [List.length_map] at hissued hanswers hcompleted hshares
  exact List.eq_nil_of_length_eq_zero (by omega)

/-- If the window of a connection has room for the engines' pipelines and for one decrement per
worker, and the generators keep to the limits of the server, no engine waits in vain. Let the
server be idle, all that an engine issued be sent, and each connection of the engine have nothing
pending or be open with nothing under way. Then the engine does not wait, and the server has taken
and answered once every request issued on a connection on which nothing is under way. -/
theorem engines_never_stall (config : ServerConfig) (fds : Descriptors)
    (configs : Nat → EngineConfig) (valid : config.validate = none)
    (fits : ∀ k, (configs k).pipelineDepth + config.workerThreads.toNat ≤
      config.maxInflightPerConn.toNat)
    {z : Net Engine}
    (h : Reach (Net.step fds (engines config configs)) (Net.Assumed (engines config configs))
      (Net.start config fds (engines config configs)) z)
    (idle : z.fed.server.Idle config) (k : Nat)
    (still : ∀ i < (z.peer k).conns, ((z.peer k).conn i).unwritten = false ∧
      (((z.peer k).conn i).pending = [] ∨
        ((z.peer k).conn i).live = true ∧ ∃ c, z.Still (engines config configs) c (k, i))) :
    (z.peer k).phase ≠ .wait ∧
      ∀ i < (z.peer k).conns, ∀ c, z.Still (engines config configs) c (k, i) →
        (z.fed.server.takenOn c).map Job.request = ((z.peer k).issuedOn i).map Ticket.request ∧
        ((z.fed.server.answersOn c).map Answer.job).Perm ((z.fed.server.takenOn c).map some) := by
  have hconfig := ServerConfig.valid_of_validate valid
  have hfits : config.maxInflightPerConn.toNat - config.workerThreads.toNat +
      config.workerThreads.toNat ≤ config.maxInflightPerConn.toNat := by
    have := fits 0
    omega
  have hz := Net.reach_flowing hconfig hfits
    (fun z hz => narrow_engines hz (fun k => Nat.le_sub_of_add_le (fits k))) h
  obtain ⟨hsound, hsteady⟩ := reach_steady (Net.reach_peer h k)
  constructor
  · intro waiting
    obtain ⟨i, hi, hunfinished⟩ := hsteady.unfinished hsound.books waiting
    obtain ⟨written, hcases⟩ := still i hi
    have hpending : ((z.peer k).conn i).pending = [] := by
      obtain hnil | ⟨live, c, hstill⟩ := hcases
      · exact hnil
      · exact pending_nil hz idle hsound hsteady waiting live written hstill
    obtain hlost | hlost := hunfinished
    · exact hlost hpending
    · cases written.symm.trans hlost
  · intro i hi c hstill
    exact issued_answered hz idle hsound (still i hi).1 hstill

def settling : List (NetAction EngineAction) :=
  List.replicate 5 (.server (.loop .internal)) ++
    [.server (.loop (.control true)), .server (.loop .internal)] ++
    [.parse 60, .internal, .internal, .internal, .control true, .internal, .internal].map (.peer 0)

theorem engines_never_stall_overtaken :
    ∃ z : Net Engine, z.fed.server.Idle Server.usualConfig ∧
      z.Still (engines Server.usualConfig putGetConfig) 1 (0, 0) ∧
      (z.peer 0).trace.completed.length = 2 ∧ (z.peer 0).phase ≠ .wait ∧
      (z.fed.server.takenOn 1).map Job.request =
        ((z.peer 0).issuedOn 0).map Ticket.request := by
  obtain ⟨z, hr, hidle, hconns, hlive, hwritten, hstill, hcompleted⟩ := exists_reach
    (guarded (Net.step Server.usualFds (engines Server.usualConfig putGetConfig))
      (Net.Assumed (engines Server.usualConfig putGetConfig)))
    (Net.start Server.usualConfig Server.usualFds (engines Server.usualConfig putGetConfig))
    (overtaking ++ settling)
    (fun z => z.fed.server.Idle Server.usualConfig ∧ (z.peer 0).conns = 1 ∧
      ((z.peer 0).conn 0).live = true ∧ ((z.peer 0).conn 0).unwritten = false ∧
      z.Still (engines Server.usualConfig putGetConfig) 1 (0, 0) ∧
      (z.peer 0).trace.completed.length = 2)
    (by decide +kernel)
  obtain ⟨hphase, hserved⟩ := engines_never_stall Server.usualConfig Server.usualFds putGetConfig
    (by decide +kernel) (fun _ => Nat.le_of_ble_eq_true rfl) hr.of_guarded hidle 0 (by
      intro i hi
      obtain rfl : i = 0 := by omega
      exact ⟨hwritten, .inr ⟨hlive, 1, hstill⟩⟩)
  exact ⟨z, hidle, hstill, hcompleted, hphase, (hserved 0 (by omega) 1 hstill).1⟩

def twoInflight : ServerConfig := { maxInflightPerConn := 2, workerThreads := 1 }

def fourPings (_ : Nat) : EngineConfig :=
  { socketPath := "s", connections := 1, pipelineDepth := 2, requests := 4 }

def openOne : List EngineAction :=
  [.create true "", .connect (.opened 5) "", .internal, .run, .internal]

def awaitAgain : List EngineAction :=
  [.internal, .internal, .internal, .control true, .internal, .internal]

def issueTwo : List EngineAction :=
  [.generate (some {}) 10, .generate (some {}) 20, .internal, .internal, .send (.sent 48),
    .internal, .control true, .internal, .internal]

def serveTwo (id : UInt64) (taken worker n : Nat) : List Action :=
  [.loop (.batch [(7, { epollin := true })]), .loop .internal,
    .loop (.recv (.data (serializeRequest { requestId := id, opcode := .kPing } ++
      serializeRequest { requestId := id + 1, opcode := .kPing })))] ++
    List.replicate (taken + 5) (.loop .internal) ++ [.loop (.control true), .loop .internal] ++
    List.replicate worker (.worker 0 0) ++ [.loop (.batch [(6, { epollin := true })])] ++
    List.replicate 5 (.loop .internal) ++ [.loop (.send (.sent n))] ++
    List.replicate 5 (.loop .internal) ++ [.loop (.control true), .loop .internal]

/-- The second response reaches the engine before the worker has lowered the counter, and of the
next two requests only one finds a place in the window. -/
def outrunning : List (NetAction EngineAction) :=
  (openOne ++ issueTwo).map (.peer 0) ++
    [.server (.loop (.batch [(3, { epollin := true })])), .server (.loop .internal),
      .accept 7 0 0, .server (.loop .acceptStop), .server (.loop .internal)] ++
    (serveTwo 1 2 15 48).map .server ++
    (readPair (pong 1 ++ pong 2) 3 ++ issueTwo).map (.peer 0) ++
    (serveTwo 3 1 13 24).map .server ++
    (readPair (pong 3) 2 ++ awaitAgain).map (.peer 0)

/-- A window as large as the pipeline is too small: the engine waits for a response to a request
that the server holds and never takes. -/
example : (exec (Net.step Server.usualFds (engines twoInflight fourPings))
    (Net.start twoInflight Server.usualFds (engines twoInflight fourPings)) outrunning).any
    (fun z => z.fed.server.Idle twoInflight ∧ z.Still (engines twoInflight fourPings) 1 (0, 0) ∧
      ((z.peer 0).conn 0).unwritten = false ∧ ((z.peer 0).conn 0).pending.length = 1 ∧
      (z.peer 0).phase = .wait) = true := by
  decide +kernel

end Engine

end LocalCache
