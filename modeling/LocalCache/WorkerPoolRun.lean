import LocalCache.WorkerPool
import LocalCache.Library.Transition
import LocalCache.Library.Threads

namespace LocalCache.WorkerPool

open Library Transition Threads

variable {α : Type} {n maxPending : Nat} {p p' : WorkerPool α}

theorem exited_of_update {f : Nat → PoolThread α} {t : PoolThread α} {w v : Nat}
    (ht : t ≠ .exited) (h : Function.update f w t v = .exited) : f v = .exited := by
  by_cases hv : v = w
  · rw [hv, Function.update_self] at h
    exact absurd h ht
  · rwa [Function.update_of_ne hv] at h

theorem moves_closed (hm : Moves n maxPending p p') (closed : p.accepting = false) :
    p'.accepting = false := by
  cases hm <;> first | exact closed | rfl

theorem trySubmit_closed (job : α) (closed : p.accepting = false) :
    (p.trySubmit maxPending job).1 = false := by
  rw [trySubmit, closed]
  rfl

variable [DecidableEq α]

def busy (x : Submission α) (t : PoolThread α) : Nat := if t = .handling x then 1 else 0

structure Inv (n maxPending : Nat) (p : WorkerPool α) : Prop where
  queue_le : p.queue.length ≤ maxPending
  order : p.history.accepted = p.history.dequeued ++ (p.history.discarded ++ p.queue)
  fresh : ∀ x, x ∈ p.history.accepted ∨ x ∈ p.history.refused →
    x.ticket < p.history.accepted.length + p.history.refused.length
  distinct : p.history.accepted.Nodup
  apart : ∀ x ∈ p.history.refused, x ∉ p.history.accepted
  running : ∀ x, p.history.dequeued.count x =
    p.history.handled.count x + total n (busy x) p.thread
  closed : p.stopping = true → p.accepting = false
  cleared : p.history.discarded ≠ [] → p.stopping = true ∧ p.queue = []
  exited : ∀ w, p.thread w = .exited → p.stopping = true ∧ p.queue = []
  outside : p.stopper = .outside → p.accepting = true
  draining : p.stopper = .draining → p.accepting = false ∧ p.stopping = false
  joining : p.stopper = .joining ∨ p.stopper = .returned → p.stopping = true
  joined : p.stopper = .returned → ∀ w < n, p.thread w = .exited

theorem inv_start (n maxPending : Nat) : Inv n maxPending ({} : WorkerPool α) where
  queue_le := Nat.zero_le _
  order := rfl
  fresh := by simp
  distinct := List.nodup_nil
  apart := by simp
  running := by
    intro x
    have hz : total n (busy x) (fun _ => PoolThread.waiting) = 0 :=
      total_eq_zero_iff.mpr (fun _ _ => rfl)
    rw [hz]
    rfl
  closed := by simp
  cleared := by simp
  exited := by simp
  outside := fun _ => rfl
  draining := by simp
  joining := by simp
  joined := by simp

theorem Inv.submission_new (h : p.Inv n maxPending) (job : α) :
    p.submission job ∉ p.history.accepted ∧ p.submission job ∉ p.history.refused := by
  constructor <;> intro hmem
  · exact Nat.lt_irrefl _ (h.fresh _ (.inl hmem))
  · exact Nat.lt_irrefl _ (h.fresh _ (.inr hmem))

theorem busy_update {w : Nat} (hw : w < n) (p : WorkerPool α) (t : PoolThread α)
    (x : Submission α) :
    total n (busy x) (Function.update p.thread w t) + busy x (p.thread w) =
      total n (busy x) p.thread + busy x t :=
  total_update hw (busy x) p.thread t

theorem Inv.refused (h : p.Inv n maxPending) (job : α) :
    Inv n maxPending { p with
      history := { p.history with refused := p.history.refused ++ [p.submission job] } } :=
  { h with
    fresh := by
      intro x hx
      simp only [List.length_append, List.length_singleton, List.mem_append,
        List.mem_singleton] at hx ⊢
      obtain hx | hx | rfl := hx
      · exact Nat.lt_succ_of_lt (h.fresh x (.inl hx))
      · exact Nat.lt_succ_of_lt (h.fresh x (.inr hx))
      · exact Nat.lt_succ_self _
    apart := by
      intro x hx
      obtain hx | hx := List.mem_append.mp hx
      · exact h.apart x hx
      · rw [List.mem_singleton.mp hx]
        exact (h.submission_new job).1 }

theorem Inv.accepted (h : p.Inv n maxPending) (job : α) (opened : p.accepting = true)
    (room : p.queue.length < maxPending) :
    Inv n maxPending { p with
      queue := p.queue ++ [p.submission job]
      history := { p.history with accepted := p.history.accepted ++ [p.submission job] } } := by
  have running : p.stopping = false := by
    cases hs : p.stopping with
    | false => rfl
    | true =>
      rw [h.closed hs] at opened
      cases opened
  refine { h with
    queue_le := ?_
    order := ?_
    fresh := ?_
    distinct := ?_
    apart := ?_
    cleared := ?_
    exited := ?_ }
  · rw [List.length_append, List.length_singleton]
    exact room
  · dsimp only
    rw [h.order]
    simp only [List.append_assoc]
  · intro x hx
    simp only [List.length_append, List.length_singleton, List.mem_append,
      List.mem_singleton] at hx ⊢
    have hnew : (p.submission job).ticket =
        p.history.accepted.length + p.history.refused.length := rfl
    obtain (hx | rfl) | hx := hx
    · have hlt := h.fresh x (.inl hx)
      omega
    · omega
    · have hlt := h.fresh x (.inr hx)
      omega
  · refine List.nodup_append.mpr ⟨h.distinct, List.nodup_singleton _, ?_⟩
    rintro x hx y hy rfl
    rw [List.mem_singleton.mp hy] at hx
    exact (h.submission_new job).1 hx
  · intro x hx hacc
    obtain hacc | hacc := List.mem_append.mp hacc
    · exact h.apart x hx hacc
    · rw [List.mem_singleton.mp hacc] at hx
      exact (h.submission_new job).2 hx
  · intro hd
    rw [(h.cleared hd).1] at running
    cases running
  · intro w hw
    rw [(h.exited w hw).1] at running
    cases running

theorem Inv.take {w : Nat} {x : Submission α} {queue : List (Submission α)}
    (h : p.Inv n maxPending) (hw : w < n) (pc : p.thread w = .waiting)
    (hq : p.queue = x :: queue) :
    Inv n maxPending { p with
      queue := queue
      thread := Function.update p.thread w (.handling x)
      history := { p.history with dequeued := p.history.dequeued ++ [x] } } := by
  have hkept : p.history.discarded = [] := by
    by_contra hd
    rw [(h.cleared hd).2] at hq
    cases hq
  refine { h with
    queue_le := ?_
    order := ?_
    running := ?_
    cleared := fun hd => absurd hkept hd
    exited := ?_
    joined := ?_ }
  · have hle := h.queue_le
    rw [hq, List.length_cons] at hle
    exact Nat.le_of_succ_le hle
  · have ho := h.order
    rw [hkept, hq] at ho
    dsimp only
    rw [ho, hkept]
    simp
  · intro y
    have hu := busy_update hw p (.handling x) y
    have hr := h.running y
    have hold : busy y (p.thread w) = 0 := by rw [pc]; rfl
    have hnew : busy y (.handling x) = if x = y then 1 else 0 := by simp [busy]
    rw [hold, hnew] at hu
    simp only [List.count_append, List.count_singleton, beq_iff_eq]
    omega
  · intro v hv
    rw [(h.exited v (exited_of_update (by simp) hv)).2] at hq
    cases hq
  · intro hs
    rw [h.joined hs w hw] at pc
    cases pc

theorem Inv.exit {w : Nat} (h : p.Inv n maxPending) (hw : w < n) (pc : p.thread w = .waiting)
    (hq : p.queue = []) (stopping : p.stopping = true) :
    Inv n maxPending { p with thread := Function.update p.thread w .exited } := by
  refine { h with
    running := ?_
    exited := fun _ _ => ⟨stopping, hq⟩
    joined := ?_ }
  · intro y
    have hu := busy_update hw p .exited y
    have hr := h.running y
    have hold : busy y (p.thread w) = 0 := by rw [pc]; rfl
    have hnew : busy y (.exited : PoolThread α) = 0 := rfl
    rw [hold, hnew] at hu
    dsimp only
    omega
  · intro hs
    rw [h.joined hs w hw] at pc
    cases pc

theorem Inv.handled {w : Nat} {x : Submission α} (h : p.Inv n maxPending) (hw : w < n)
    (pc : p.thread w = .handling x) :
    Inv n maxPending { p with
      thread := Function.update p.thread w .waiting
      history := { p.history with handled := p.history.handled ++ [x] } } := by
  refine { h with
    running := ?_
    exited := ?_
    joined := ?_ }
  · intro y
    have hu := busy_update hw p .waiting y
    have hr := h.running y
    have hold : busy y (p.thread w) = if x = y then 1 else 0 := by simp [busy, pc]
    have hnew : busy y (.waiting : PoolThread α) = 0 := rfl
    rw [hold, hnew] at hu
    simp only [List.count_append, List.count_singleton, beq_iff_eq]
    omega
  · intro v hv
    exact h.exited v (exited_of_update (by simp) hv)
  · intro hs
    rw [h.joined hs w hw] at pc
    cases pc

theorem Inv.expired (h : p.Inv n maxPending) (pc : p.stopper = .draining) :
    Inv n maxPending { p with
      queue := []
      stopping := true
      stopper := .joining
      history := { p.history with discarded := p.history.discarded ++ p.queue } } := by
  obtain ⟨hclosed, hrunning⟩ := h.draining pc
  refine { h with
    queue_le := Nat.zero_le _
    order := ?_
    closed := fun _ => hclosed
    cleared := fun _ => ⟨rfl, rfl⟩
    exited := fun _ _ => ⟨rfl, rfl⟩
    outside := by simp
    draining := by simp
    joining := fun _ => rfl
    joined := by simp }
  dsimp only
  rw [h.order]
  simp only [List.append_nil]

theorem Inv.not_first (h : p.Inv n maxPending) (pc : p.stopper = .returned) :
    p.accepting = false ∧ p.stopping = true := by
  have hs := h.joining (.inr pc)
  exact ⟨h.closed hs, hs⟩

theorem inv_moves (h : p.Inv n maxPending) (hm : Moves n maxPending p p') :
    p'.Inv n maxPending := by
  cases hm with
  | refused job full => exact h.refused job
  | accepted job opened room => exact h.accepted job opened room
  | take w x queue hw pc hq => exact h.take hw pc hq
  | exit w hw pc hq stopping => exact h.exit hw pc hq stopping
  | handled w x hw pc => exact h.handled hw pc
  | expired pc => exact h.expired pc
  | again pc closed stopping =>
    obtain pc | pc := pc
    · rw [h.outside pc] at closed
      cases closed
    · exact { h with
        outside := by simp
        draining := by simp
        joining := fun _ => stopping
        joined := fun _ => h.joined pc }
  | drain pc first =>
    obtain pc | pc := pc
    · have running : p.stopping = false := by
        cases hs : p.stopping with
        | false => rfl
        | true =>
          have hc := h.closed hs
          rw [h.outside pc] at hc
          cases hc
      exact { h with
        closed := fun _ => rfl
        outside := by simp
        draining := fun _ => ⟨rfl, running⟩
        joining := by simp
        joined := by simp }
    · exact absurd (h.not_first pc) first
  | stop pc first =>
    obtain pc | pc := pc
    · exact { h with
        closed := fun _ => rfl
        cleared := fun hd => ⟨rfl, (h.cleared hd).2⟩
        exited := fun w hw => ⟨rfl, (h.exited w hw).2⟩
        outside := by simp
        draining := by simp
        joining := fun _ => rfl
        joined := by simp }
    · exact absurd (h.not_first pc) first
  | drained pc hq =>
    exact { h with
      closed := fun _ => (h.draining pc).1
      cleared := fun _ => ⟨rfl, hq⟩
      exited := fun _ _ => ⟨rfl, hq⟩
      outside := by simp
      draining := by simp
      joining := fun _ => rfl
      joined := by simp }
  | joined pc exited =>
    exact { h with
      outside := by simp
      draining := by simp
      joining := fun _ => h.joining (.inl pc)
      joined := fun _ => exited }

theorem reach_inv (h : Reach (step n maxPending) Free ({} : WorkerPool α) p) :
    p.Inv n maxPending :=
  h.invariant (inv_start n maxPending) (fun _ _ _ hi _ hs => inv_moves hi (moves_of_step hs))

theorem Inv.mem_accepted (h : p.Inv n maxPending) {x : Submission α} :
    x ∈ p.history.accepted ↔
      x ∈ p.history.dequeued ∨ x ∈ p.history.discarded ∨ x ∈ p.queue := by
  rw [h.order, List.mem_append, List.mem_append]

theorem Inv.count_dequeued (h : p.Inv n maxPending) (x : Submission α) :
    p.history.dequeued.count x + p.history.discarded.count x + p.queue.count x ≤ 1 := by
  have hle := List.nodup_iff_count_le_one.mp h.distinct x
  rw [h.order, List.count_append, List.count_append] at hle
  omega

/-- When `drain_and_stop` is back, every accepted job was handled or discarded. -/
theorem Inv.settled (h : p.Inv n maxPending) (hn : 1 ≤ n) (returned : p.stopper = .returned) :
    p.queue = [] ∧ ∀ x ∈ p.history.accepted,
      (p.history.handled.count x = 1 ∧ x ∉ p.history.discarded) ∨
        (x ∈ p.history.discarded ∧ x ∉ p.history.dequeued) := by
  have hexited := h.joined returned
  have hq : p.queue = [] := (h.exited 0 (hexited 0 hn)).2
  refine ⟨hq, fun x hx => ?_⟩
  have hcount := h.count_dequeued x
  have hidle : total n (busy x) p.thread = 0 := by
    refine total_eq_zero_iff.mpr (fun w hw => ?_)
    rw [hexited w hw]
    rfl
  have hrun := h.running x
  rw [hidle] at hrun
  obtain hx | hx | hx := h.mem_accepted.mp hx
  · have hpos := List.count_pos_iff.mpr hx
    exact .inl ⟨by omega, List.count_eq_zero.mp (by omega)⟩
  · have hpos := List.count_pos_iff.mpr hx
    exact .inr ⟨hx, List.count_eq_zero.mp (by omega)⟩
  · rw [hq] at hx
    cases hx

/-- The queue is bounded, jobs leave it in the order in which they were accepted, a refused
job never reaches the handler and an accepted one at most once. When `drain_and_stop` is
back, the queue is empty, every accepted job was handled to the end once or discarded at the
timeout, and nothing is accepted any more. -/
theorem exactly_once (n maxPending : Nat) (hn : 1 ≤ n) {p : WorkerPool α}
    (h : Reach (step n maxPending) Free ({} : WorkerPool α) p) :
    p.queue.length ≤ maxPending ∧
      p.history.dequeued <+: p.history.accepted ∧
      (∀ x ∈ p.history.refused, x ∉ p.history.dequeued ∧ x ∉ p.history.handled) ∧
      (∀ x, p.history.dequeued.count x ≤ 1) ∧
      (p.stopper = .returned →
        p.queue = [] ∧
        (∀ x ∈ p.history.accepted,
          (p.history.handled.count x = 1 ∧ x ∉ p.history.discarded) ∨
            (x ∈ p.history.discarded ∧ x ∉ p.history.dequeued)) ∧
        ∀ q, Reach (step n maxPending) Free p q →
          ∀ job, (q.trySubmit maxPending job).1 = false) := by
  have hi := reach_inv h
  refine ⟨hi.queue_le, ⟨_, hi.order.symm⟩, ?_, ?_, ?_⟩
  · intro x hx
    have hnot : x ∉ p.history.dequeued :=
      fun hd => hi.apart x hx (hi.mem_accepted.mpr (.inl hd))
    have hrun := hi.running x
    rw [List.count_eq_zero_of_not_mem hnot] at hrun
    exact ⟨hnot, List.count_eq_zero.mp (by omega)⟩
  · intro x
    have hcount := hi.count_dequeued x
    omega
  · intro returned
    obtain ⟨hq, hsettled⟩ := hi.settled hn returned
    refine ⟨hq, hsettled, fun q hq job => trySubmit_closed job ?_⟩
    exact hq.invariant (P := fun q => q.accepting = false) (hi.not_first returned).1
      (fun _ _ _ hc _ hs => moves_closed (moves_of_step hs) hc)

theorem exactly_once_expired :
    ∃ p : WorkerPool Nat, Reach (step 1 2) Free {} p ∧ p.stopper = .returned ∧
      p.history.handled = [⟨0, 10⟩] ∧ p.history.discarded = [⟨1, 20⟩, ⟨2, 30⟩] ∧
      p.history.refused = [⟨3, 40⟩] ∧ p.queue = [] := by
  obtain ⟨p, hr, hreturned, hhandled, hdiscarded, hrefused⟩ :=
    exists_reach (step 1 2) ({} : WorkerPool Nat)
      [.submit 10, .worker 0, .submit 20, .submit 30, .submit 40, .drain 5, .wake true,
        .worker 0, .worker 0, .join]
      (fun p => p.stopper = .returned ∧ p.history.handled = [⟨0, 10⟩] ∧
        p.history.discarded = [⟨1, 20⟩, ⟨2, 30⟩] ∧ p.history.refused = [⟨3, 40⟩])
      (by decide +kernel)
  exact ⟨p, hr, hreturned, hhandled, hdiscarded, hrefused,
    ((exactly_once 1 2 (Nat.le_refl 1) hr).2.2.2.2 hreturned).1⟩

end LocalCache.WorkerPool
