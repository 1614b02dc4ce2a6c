import LocalCache.Benchmark
import LocalCache.ServerAudit
import Mathlib.Algebra.Order.BigOperators.Group.Finset

namespace LocalCache

open Protocol Serializer RequestCodec Library Keyed Threads Transition

namespace Server

variable {config : ServerConfig} {fds : Descriptors} {s s' : Server} {a : Action} {o : Outcome}

theorem accepting_of_step (hs : Step config fds s a s') (accepting : s'.accepting = true) :
    s.accepting = true := by
  cases hs with
  | loop hs => cases hs <;> first | exact accepting | cases accepting
  | worker _ hs => cases hs <;> exact accepting
  | requestShutdown => exact accepting

theorem loop_refuses (h : s.answeredBusy = 0) (hr : s.Replies) (accepting : s'.accepting = true)
    (hs : LoopStep config fds s o s') : s'.answeredBusy = 0 ∨
      config.maxPendingRequests.toNat ≤ s'.queue.length ∧ ∃ j, s'.loop.job = some j := by
  have keep (answers : s'.ledger.answers = s.ledger.answers) (job : s'.loop.job = s.loop.job) :
      s'.answeredBusy = 0 := by
    rw [answeredBusy, answers, job]
    exact h
  cases hs with
  | refuse c request x error n pc room next refuses =>
    right
    refine ⟨?_, _, rfl⟩
    have haccepting : s.accepting = true := accepting
    rw [canSubmit, haccepting, Bool.true_and, decide_eq_false_iff_not, Nat.not_lt] at refuses
    exact refuses
  | busy job ok x pc he =>
    rw [answeredBusy, pc] at h
    simp at h
  | immediate c response ok x pc he =>
    left
    have hstatus : response.status ≠ .kServerBusy := hr.reply (c, response) (by rw [pc]; rfl)
    rw [← h]
    cases (s.conn c).closed
    · simp only [answeredBusy, pc, Bool.false_eq_true, if_false, countP_snoc_of_ne hstatus,
        ↓apply_ite Loop.job, Loop.job, ite_self]
    · simp only [answeredBusy, pc, if_true, ↓apply_ite Loop.job, Loop.job, ite_self]
  | finish pc =>
    left
    refine keep rfl ?_
    simp [closeAll, pc]
  | opened => exact .inl (keep rfl rfl)
  | _ =>
    left
    refine keep rfl ?_
    simp [leave, ↓apply_ite Loop.job, *]

theorem worker_refuses {w : Nat} (h : s.answeredBusy = 0) (hr : s.Replies)
    (hs : WorkerStep s w s') : s'.answeredBusy = 0 := by
  cases hs with
  | stage job response overLimit x pc =>
    have hstatus : response.status ≠ .kServerBusy := hr.workers w response (by rw [pc]; rfl)
    rw [← h]
    simp only [answeredBusy, countP_snoc_of_ne hstatus]
  | _ => exact h

theorem step_refuses (h : s.answeredBusy = 0) (hr : s.Replies) (accepting : s'.accepting = true)
    (hs : Step config fds s a s') : s'.answeredBusy = 0 ∨
      config.maxPendingRequests.toNat ≤ s'.queue.length ∧ ∃ j, s'.loop.job = some j := by
  cases hs with
  | loop hs => exact loop_refuses h hr accepting hs
  | worker _ hs => exact .inl (worker_refuses h hr hs)
  | requestShutdown => exact .inl h

theorem Core.waiting_nodup (h : s.Core config) {j : Job} (held : s.loop.job = some j) :
    (j :: s.queue).Nodup := by
  rw [List.nodup_cons, List.nodup_iff_count_le_one]
  constructor
  · intro hmem
    have hwaiting : s.Waiting config j := .refused held
    have hone := (h.only_place hwaiting.place).2.2
    have hcount := List.count_pos_iff.mpr hmem
    rw [Server.held, if_pos held] at hone
    omega
  · intro i
    have hplaces := h.accounted.places i
    have htaken := List.nodup_iff_count_le_one.mp h.taken_nodup i
    omega

end Server

namespace Net

variable {σ α : Type} {config : ServerConfig} {fds : Descriptors}
  {P : Nat → Peer config.frameLimits σ α} {z z' : Net σ} {j : Job} {m : Nat}

def Owed (P : Nat → Peer config.frameLimits σ α) (z : Net σ) (p : Nat × UInt64) : Prop :=
  p.2 ∈ ((P p.1).asked (z.peer p.1)).map (fun x => x.2.requestId) ∧
    p.2 ∉ ((P p.1).told (z.peer p.1)).map (fun x => x.2.requestId)

def Bounded (P : Nat → Peer config.frameLimits σ α) (z : Net σ) (m : Nat) : Prop :=
  ∀ s : Finset (Nat × UInt64), (∀ p ∈ s, z.Owed P p) → s.card ≤ m

theorem owed_of_unanswered (h : z.Inv P) (numbered : ∀ k, (P k).Numbered)
    (taken : j ∈ z.fed.server.ledger.taken) (unanswered : z.fed.server.answered j = 0) :
    z.Owed P (z.origin j) := by
  obtain ⟨k, n, hlink, hasked⟩ := h.asked_of_taken taken
  have horigin : z.origin j = (k, j.request.requestId) := origin_of_stems ⟨n, hlink, rfl⟩
  rw [horigin]
  refine ⟨List.mem_map_of_mem (f := fun x : Nat × Request => x.2.requestId)
    (mem_listedOn.mp hasked), ?_⟩
  intro htold
  obtain ⟨⟨n', r⟩, hr, hid⟩ := List.mem_map.mp htold
  obtain ⟨c, i, hlink', hanswer, htaken, hanswers⟩ := h.answer_of_told hr
  obtain ⟨htaken, hconn⟩ := List.mem_filter.mp htaken
  -- The response is that to the same job.
  have hsame : z.origin i = (k, j.request.requestId) := by
    refine origin_of_stems ⟨n', ?_, hid.symm.trans hanswers.2⟩
    rw [of_decide_eq_true hconn]
    exact hlink'
  obtain rfl := origin_inj h numbered taken htaken (horigin.trans hsame.symm)
  have hpos : 0 < z.fed.server.answered j :=
    List.countP_pos_iff.mpr ⟨_, hanswer, decide_eq_true rfl⟩
  omega

theorem length_le_of_bounded (h : z.Inv P) (numbered : ∀ k, (P k).Numbered)
    (bounded : z.Bounded P m) {jobs : List Job} (nodup : jobs.Nodup)
    (waiting : ∀ j ∈ jobs, z.fed.server.Waiting config j) : jobs.length ≤ m := by
  have hunanswered : ∀ j ∈ jobs, j ∈ z.fed.server.ledger.taken ∧ z.fed.server.answered j = 0 :=
    fun j hj => h.core.unanswered_of_waiting (waiting j hj)
  have horigins : (jobs.map z.origin).Nodup :=
    List.Nodup.map_on (fun i hi j hj same =>
      origin_inj h numbered (hunanswered i hi).1 (hunanswered j hj).1 same) nodup
  have hcard := bounded (jobs.map z.origin).toFinset (fun p hp => by
    obtain ⟨j, hj, rfl⟩ := List.mem_map.mp (List.mem_toFinset.mp hp)
    exact owed_of_unanswered h numbered (hunanswered j hj).1 (hunanswered j hj).2)
  rwa [List.toFinset_card_of_nodup horigins, List.length_map] at hcard

structure Uncrowded (P : Nat → Peer config.frameLimits σ α) (z : Net σ) : Prop where
  inv : z.Inv P
  numbered : ∀ k, (P k).Numbered
  replies : z.fed.server.Replies
  calm : z.fed.server.accepting = true → z.fed.server.answeredBusy = 0

theorem uncrowded_fed {a : Action} (h : Uncrowded P z) (inv : z'.Inv P)
    (hs : z.fed.server.step config fds a = some z'.fed.server)
    (bounded : z'.Bounded P config.maxPendingRequests.toNat) : Uncrowded P z' := by
  have hstep := Server.step_sound hs
  refine ⟨inv, h.numbered, Server.step_replies h.replies h.inv.core.tabled
    h.inv.cached.linked (Server.audit_step hs), ?_⟩
  intro haccepting
  have hcalm := h.calm (Server.accepting_of_step hstep haccepting)
  obtain hcalm | ⟨hfull, j, hj⟩ := Server.step_refuses hcalm h.replies haccepting hstep
  · exact hcalm
  · -- The refused request is one more than fit.
    have hle := length_le_of_bounded inv h.numbered bounded (inv.core.waiting_nodup hj) (by
      intro i hi
      obtain rfl | hi := List.mem_cons.mp hi
      · exact .refused hj
      · exact .queued hi)
    rw [List.length_cons] at hle
    omega

theorem uncrowded_moves (hconfig : config.Valid) (h : Uncrowded P z) {a : NetAction α}
    (ok : Assumed P z a) (hm : Moves fds P z a z')
    (bounded : z'.Bounded P config.maxPendingRequests.toNat) : Uncrowded P z' := by
  have hinv := inv_moves hconfig h.inv ok hm
  cases hm with
  | served a fed arrives hs => exact uncrowded_fed h hinv (Fed.step_server hs).1 bounded
  | accepted fd k n fed awaits hs more =>
    exact uncrowded_fed h hinv (Fed.step_server hs).1 bounded
  | rejected fd k n fed hs => exact uncrowded_fed h hinv (Fed.step_server hs).1 bounded
  | moved k a s delivers hs => exact ⟨hinv, h.numbered, h.replies, h.calm⟩

/-- If the peers never have more requests under way than the queue holds, none is refused before
the server stops its workers. -/
theorem reach_uncrowded (hconfig : config.Valid) (numbered : ∀ k, (P k).Numbered)
    {ok : Net σ → NetAction α → Prop}
    (assumed : ∀ z a, ok z a → Assumed P z a)
    (bounded : ∀ z, Reach (step fds P) ok (start config fds P) z →
      z.Bounded P config.maxPendingRequests.toNat)
    (h : Reach (step fds P) ok (start config fds P) z) : Uncrowded P z := by
  induction h with
  | refl =>
    exact ⟨inv_start config fds P, numbered, Server.replies_start config fds, fun _ => rfl⟩
  | tail hr ok hs ih =>
    exact uncrowded_moves hconfig ih (assumed _ _ ok) (moves_of_step hs)
      (bounded _ (.tail hr ok hs))

theorem Uncrowded.not_busy (h : Uncrowded P z) (accepting : z.fed.server.accepting = true)
    {k n : Nat} {r : Response} (told : (n, r) ∈ (P k).told (z.peer k)) :
    r.status ≠ .kServerBusy := by
  intro hbusy
  obtain ⟨c, i, -, hanswer, -⟩ := h.inv.answer_of_told told
  have hzero := (Nat.add_eq_zero_iff.mp (h.calm accepting)).1
  exact List.countP_eq_zero.mp hzero _ hanswer (decide_eq_true hbusy)

end Net

namespace Engine

variable {config : EngineConfig} {e : Engine}

theorem Books.card_owed (h : e.Books config) {s : Finset UInt64}
    (owed : ∀ id ∈ s, id ∈ e.asked.map (fun x => x.2.requestId) ∧
      id ∉ e.told.map (fun x => x.2.requestId)) :
    s.card ≤ total e.conns (fun c => c.pending.length) e.conn := by
  have hasked : e.asked.map (fun x => x.2.requestId) = e.trace.issued.map Ticket.id := by
    rw [asked, List.map_map]
    rfl
  have htold : e.told.map (fun x => x.2.requestId) =
      e.trace.completed.map (fun p => p.2.response.requestId) := by
    rw [told, List.map_map]
    rfl
  rw [hasked, htold] at owed
  have hdisjoint : Disjoint s
      (e.trace.completed.map (fun p => p.2.response.requestId)).toFinset := by
    rw [Finset.disjoint_left]
    intro id hid hmem
    exact (owed id hid).2 (List.mem_toFinset.mp hmem)
  have hsubset : s ∪ (e.trace.completed.map (fun p => p.2.response.requestId)).toFinset ⊆
      (e.trace.issued.map Ticket.id).toFinset := by
    intro id hid
    rw [List.mem_toFinset]
    obtain hid | hid := Finset.mem_union.mp hid
    · exact (owed id hid).1
    · obtain ⟨p, hp, rfl⟩ := List.mem_map.mp (List.mem_toFinset.mp hid)
      exact List.mem_map_of_mem (f := Ticket.id) (h.shared.issued_of_completed hp)
  have hcard := Finset.card_le_card hsubset
  have hids := congrArg List.length h.numbered.ids
  have hreceived := h.shared.received
  have hbalance := h.shared.balance
  rw [Finset.card_union_of_disjoint hdisjoint, List.toFinset_card_of_nodup h.completed_nodup,
    List.toFinset_card_of_nodup h.numbered.ids_nodup] at hcard
  rw [List.length_map, List.length_map, List.length_range] at hids
  rw [List.length_map, List.length_map] at hcard
  omega

theorem Books.pending_le (h : e.Books config) :
    total e.conns (fun c => c.pending.length) e.conn ≤
      config.connections * config.pipelineDepth := by
  have hle := Finset.sum_le_card_nsmul (Finset.range e.conns)
    (fun i => (e.conn i).pending.length) config.pipelineDepth (fun i _ => h.shared.depth i)
  rw [Finset.card_range, nsmul_eq_mul] at hle
  exact hle.trans (Nat.mul_le_mul_right _ h.fleet.conns_le)

variable {server : ServerConfig} {configs : Nat → EngineConfig} {z : Net Engine} {n : Nat}

theorem bounded_of_pending (h : z.Inv (engines server configs))
    (idle : ∀ k, n ≤ k → (configs k).connections = 0) :
    z.Bounded (engines server configs) (∑ k ∈ Finset.range n,
      total (z.peer k).conns (fun c => c.pending.length) (z.peer k).conn) := by
  have hbooks : ∀ k, (z.peer k).Books (configs k) := fun k => (h.peers k).sound.books
  intro s hs
  have howed : ∀ k, ((s.filter fun p => p.1 = k).image Prod.snd).card ≤
      total (z.peer k).conns (fun c => c.pending.length) (z.peer k).conn := by
    intro k
    apply (hbooks k).card_owed
    intro id hid
    obtain ⟨p, hp, rfl⟩ := Finset.mem_image.mp hid
    obtain ⟨hmem, rfl⟩ := Finset.mem_filter.mp hp
    exact hs p hmem
  have hmaps : ∀ p ∈ s, p.1 ∈ Finset.range n := by
    intro p hp
    rw [Finset.mem_range]
    by_contra hn
    have hle := (hbooks p.1).pending_le
    rw [idle p.1 (Nat.le_of_not_lt hn), Nat.zero_mul] at hle
    have hpos : 0 < ((s.filter fun q => q.1 = p.1).image Prod.snd).card :=
      Finset.card_pos.mpr ⟨p.2, Finset.mem_image_of_mem _ (Finset.mem_filter.mpr ⟨hp, rfl⟩)⟩
    have := howed p.1
    omega
  rw [Finset.card_eq_sum_card_fiberwise hmaps]
  refine Finset.sum_le_sum (fun k _ => ?_)
  rw [← Finset.card_image_of_injOn (f := Prod.snd)]
  · exact howed k
  · intro p hp q hq hpq
    obtain ⟨-, hp⟩ := Finset.mem_filter.mp (Finset.mem_coe.mp hp)
    obtain ⟨-, hq⟩ := Finset.mem_filter.mp (Finset.mem_coe.mp hq)
    exact Prod.ext (hp.trans hq.symm) hpq

/-- If the pipelines of all engines together hold no more than the server's queue does, and the
generators ask only for requests within the server's limits, no request is answered SERVER_BUSY
before the server stops its workers. -/
theorem engines_never_busy (config : ServerConfig) (fds : Descriptors)
    (configs : Nat → EngineConfig) (n : Nat) (valid : config.validate = none)
    (idle : ∀ k, n ≤ k → (configs k).connections = 0)
    (fits : ∑ k ∈ Finset.range n, (configs k).connections * (configs k).pipelineDepth ≤
      config.maxPendingRequests.toNat)
    {z : Net Engine}
    (h : Reach (Net.step fds (engines config configs)) (Net.Assumed (engines config configs))
      (Net.start config fds (engines config configs)) z)
    (accepting : z.fed.server.accepting = true) :
    (∀ x ∈ z.fed.server.ledger.answers, x.response.status ≠ .kServerBusy) ∧
      ∀ k, ∀ p ∈ (z.peer k).trace.completed, p.2.response.status ≠ .kServerBusy := by
  have hconfig := ServerConfig.valid_of_validate valid
  have huncrowded := Net.reach_uncrowded hconfig (numbered_engines config configs)
    (fun _ _ ok => ok) (fun z hz => by
    have hinv := Net.reach_inv hconfig hz
    intro s hs
    refine (bounded_of_pending hinv idle s hs).trans (le_trans ?_ fits)
    exact Finset.sum_le_sum (fun k _ => (hinv.peers k).sound.books.pending_le)) h
  constructor
  · intro x hx hbusy
    have hzero := (Nat.add_eq_zero_iff.mp (huncrowded.calm accepting)).1
    exact List.countP_eq_zero.mp hzero x hx (decide_eq_true hbusy)
  · intro k p hp
    exact huncrowded.not_busy accepting (k := k)
      (List.mem_map_of_mem (f := fun p : Nat × Completion => (p.1, p.2.response)) hp)

def twoSlots : ServerConfig := { maxPendingRequests := 2 }

def onlyFirst (k : Nat) : EngineConfig :=
  if k = 0 then putGetConfig 0 else { socketPath := "s", connections := 0 }

theorem engines_never_busy_twoSlots :
    ∃ z : Net Engine, (z.peer 0).trace.completed.map (fun p => p.2.response.status) =
        [.kNotFound, .kOk] ∧ z.fed.server.ledger.taken.length = 2 ∧
      ∀ x ∈ z.fed.server.ledger.answers, x.response.status ≠ .kServerBusy := by
  obtain ⟨z, hr, hcompleted, htaken, haccepting⟩ := exists_reach
    (guarded (Net.step Server.usualFds (engines twoSlots onlyFirst))
      (Net.Assumed (engines twoSlots onlyFirst)))
    (Net.start twoSlots Server.usualFds (engines twoSlots onlyFirst)) overtaking
    (fun z => (z.peer 0).trace.completed.map (fun p => p.2.response.status) =
        [.kNotFound, .kOk] ∧ z.fed.server.ledger.taken.length = 2 ∧
      z.fed.server.accepting = true)
    (by decide +kernel)
  refine ⟨z, hcompleted, htaken, (engines_never_busy twoSlots Server.usualFds onlyFirst 1
    (by decide +kernel) ?_ (by decide) hr.of_guarded haccepting).1⟩
  intro k hk
  rw [onlyFirst, if_neg (Nat.one_le_iff_ne_zero.mp hk)]

end Engine

end LocalCache
