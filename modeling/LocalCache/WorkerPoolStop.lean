import LocalCache.WorkerPoolRun

namespace LocalCache.WorkerPool

open Library Transition Threads

variable {α : Type} {n maxPending : Nat} {p p' q : WorkerPool α} {a : Action α}

theorem discarded_mono (hm : Moves n maxPending p p') {x : Submission α}
    (hx : x ∈ p.history.discarded) : x ∈ p'.history.discarded := by
  cases hm with
  | expired => exact List.mem_append_left _ hx
  | refused | accepted | take | exit | handled | again | drain | stop | drained | joined =>
    exact hx

theorem reach_discarded (h : Reach (step n maxPending) Free p q) {x : Submission α}
    (hx : x ∈ p.history.discarded) : x ∈ q.history.discarded :=
  h.invariant (P := fun q => x ∈ q.history.discarded) hx
    (fun _ _ _ hi _ hs => discarded_mono (moves_of_step hs) hi)

/-- A call of `drain_and_stop` that waits for the queue, or has no need to. -/
def Waits (p : WorkerPool α) : Action α → Prop
  | .drain timeout => 0 < timeout ∨ p.queue = []
  | _ => True

theorem workerLoop_stopping {w : Nat} (h : p.workerLoop w = some p') :
    p'.stopping = p.stopping := by
  unfold workerLoop at h
  split at h
  · split at h
    · cases h
      rfl
    · split at h
      · cases h
        rfl
      · cases h
  · cases h
    rfl
  · cases h

theorem drainAndStop_stopping {timeout : Int} (hpos : 0 < timeout) (hq : p.queue ≠ []) :
    (p.drainAndStop timeout).stopping = p.stopping := by
  rw [drainAndStop]
  split
  · rfl
  · rw [if_pos ⟨hpos, hq⟩]

theorem discarded_of_stops (hs : p.step n maxPending a = some p') (hw : p.Waits a)
    (running : p.stopping = false) (stopped : p'.stopping = true) :
    ∀ x ∈ p.queue, x ∈ p'.history.discarded := by
  have hdiff : p'.stopping ≠ p.stopping := by
    rw [running, stopped]
    decide
  intro x hx
  have hq : p.queue ≠ [] := List.ne_nil_of_mem hx
  cases a with
  | submit job =>
    obtain rfl := Option.some.inj hs
    refine absurd ?_ hdiff
    rw [trySubmit]
    split <;> rfl
  | worker w =>
    rw [step] at hs
    split at hs
    · exact absurd (workerLoop_stopping hs) hdiff
    · cases hs
  | drain timeout =>
    have hpos : 0 < timeout := hw.resolve_right hq
    simp only [step] at hs
    split at hs
    · cases hs
      exact absurd (drainAndStop_stopping hpos hq) hdiff
    · cases hs
      exact absurd (drainAndStop_stopping hpos hq) hdiff
    · cases hs
    · cases hs
  | wake expired =>
    simp only [step] at hs
    split at hs
    · rw [stopWaiting, if_neg hq] at hs
      split at hs
      · cases hs
        exact List.mem_append_right _ hx
      · cases hs
    · cases hs
    · cases hs
    · cases hs
  | join =>
    simp only [step] at hs
    split at hs
    · split at hs
      · cases hs
        exact absurd rfl hdiff
      · cases hs
    · cases hs
    · cases hs
    · cases hs

variable [DecidableEq α]

theorem Inv.not_run (h : p.Inv n maxPending) {x : Submission α}
    (hx : x ∈ p.history.discarded) : x ∉ p.history.dequeued ∧ x ∉ p.history.handled := by
  have hcount := h.count_dequeued x
  have hrun := h.running x
  have hpos := List.count_pos_iff.mpr hx
  exact ⟨List.count_eq_zero.mp (by omega), List.count_eq_zero.mp (by omega)⟩

/-- Where the call waits for the queue, a job that is still queued when it stops waiting never
reaches the handler. -/
theorem queued_at_stop_discarded
    (h : Reach (step n maxPending) Free ({} : WorkerPool α) p)
    (hs : p.step n maxPending a = some p') (hw : p.Waits a)
    (running : p.stopping = false) (stopped : p'.stopping = true)
    (hq : Reach (step n maxPending) Free p' q) :
    ∀ x ∈ p.queue, x ∉ q.history.dequeued ∧ x ∉ q.history.handled := by
  intro x hx
  have hi : q.Inv n maxPending :=
    hq.invariant (inv_moves (reach_inv h) (moves_of_step hs))
      (fun _ _ _ hi _ hm => inv_moves hi (moves_of_step hm))
  exact hi.not_run (reach_discarded hq (discarded_of_stops hs hw running stopped x hx))

theorem queued_at_stop_discarded_expired :
    ∃ p p' q : WorkerPool Nat, p.queue = [⟨1, 20⟩] ∧ p.step 1 2 (.wake true) = some p' ∧
      Reach (step 1 2) Free p' q ∧ q.history.handled = [⟨0, 10⟩] ∧
      (⟨1, 20⟩ : Submission Nat) ∉ q.history.dequeued := by
  obtain ⟨p, hp, hqueue, hrunning, hstopper, hhandled⟩ :=
    exists_reach (step 1 2) ({} : WorkerPool Nat)
      [.submit 10, .submit 20, .worker 0, .worker 0, .drain 5]
      (fun p => p.queue = [⟨1, 20⟩] ∧ p.stopping = false ∧ p.stopper = .draining ∧
        p.history.handled = [⟨0, 10⟩])
      (by decide +kernel)
  obtain ⟨p', hs, hstopped, hkept⟩ : ∃ p', p.step 1 2 (.wake true) = some p' ∧
      p'.stopping = true ∧ p'.history.handled = p.history.handled := by
    simp only [step, hstopper, stopWaiting, hqueue]
    exact ⟨_, rfl, rfl, rfl⟩
  have hnot := queued_at_stop_discarded hp hs trivial hrunning hstopped .refl ⟨1, 20⟩
    (hqueue ▸ List.mem_singleton_self _)
  exact ⟨p, p', p', hqueue, hs, .refl, hkept.trans hhandled, hnot.1⟩

/-- With a timeout of zero the queue is not cleared: the thread runs the job that was queued
when the pool was stopped. -/
theorem zero_timeout_runs_queued :
    ∃ p p' q : WorkerPool Nat, Reach (step 1 1) Free {} p ∧ p.queue = [⟨0, 10⟩] ∧
      p.stopping = false ∧ p.step 1 1 (.drain 0) = some p' ∧ p'.stopping = true ∧
      Reach (step 1 1) Free p' q ∧ q.history.handled = [⟨0, 10⟩] ∧ q.stopper = .returned := by
  let p : WorkerPool Nat := (trySubmit 1 10 {}).2
  obtain ⟨q, hq, hhandled, hreturned⟩ :=
    exists_reach (step 1 1) (p.drainAndStop 0) [.worker 0, .worker 0, .worker 0, .join]
      (fun q => q.history.handled = [⟨0, 10⟩] ∧ q.stopper = .returned) (by decide +kernel)
  have hp : Reach (step 1 1) Free ({} : WorkerPool Nat) p :=
    .tail (a := .submit 10) .refl trivial rfl
  exact ⟨p, p.drainAndStop 0, q, hp, rfl, rfl, rfl, rfl, hq, hhandled, hreturned⟩

end LocalCache.WorkerPool
