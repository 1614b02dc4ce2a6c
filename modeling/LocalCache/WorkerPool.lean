import Mathlib.Data.List.Basic
import Mathlib.Logic.Function.Basic

namespace LocalCache

/-- A job given to `try_submit`. The ticket numbers the calls; no decision depends on it. -/
structure Submission (α : Type) where
  ticket : Nat
  job : α
  deriving DecidableEq, Repr

/-- Where a thread of the pool is: before or in its wait, in the handler, or returned. -/
inductive PoolThread (α : Type)
  | waiting
  | handling (x : Submission α)
  | exited
  deriving DecidableEq, Repr

def PoolThread.isExited {α : Type} : PoolThread α → Bool
  | .exited => true
  | .waiting | .handling _ => false

/-- Where the caller of `drain_and_stop` is: outside, in the bounded wait, joining the
threads, or back from a call. -/
inductive Stopper
  | outside
  | draining
  | joining
  | returned
  deriving DecidableEq, Repr

structure PoolHistory (α : Type) where
  accepted : List (Submission α) := []
  refused : List (Submission α) := []
  dequeued : List (Submission α) := []
  handled : List (Submission α) := []
  discarded : List (Submission α) := []

structure WorkerPool (α : Type) where
  queue : List (Submission α) := []
  accepting : Bool := true
  stopping : Bool := false
  thread : Nat → PoolThread α := fun _ => .waiting
  stopper : Stopper := .outside
  history : PoolHistory α := {}

namespace WorkerPool

variable {α : Type}

def submission (p : WorkerPool α) (job : α) : Submission α :=
  ⟨p.history.accepted.length + p.history.refused.length, job⟩

def trySubmit (maxPending : Nat) (job : α) (p : WorkerPool α) : Bool × WorkerPool α :=
  if !p.accepting || p.queue.length ≥ maxPending then
    (false, { p with
      history := { p.history with refused := p.history.refused ++ [p.submission job] } })
  else
    (true, { p with
      queue := p.queue ++ [p.submission job]
      history := { p.history with accepted := p.history.accepted ++ [p.submission job] } })

/-- One step of thread `w`: from its wait into the handler or to its end, or out of the
handler. A spurious wakeup goes back to the wait. -/
def workerLoop (w : Nat) (p : WorkerPool α) : Option (WorkerPool α) :=
  match p.thread w with
  | .waiting =>
    match p.queue with
    | x :: queue =>
      some { p with
        queue := queue
        thread := Function.update p.thread w (.handling x)
        history := { p.history with dequeued := p.history.dequeued ++ [x] } }
    | [] =>
      if p.stopping then some { p with thread := Function.update p.thread w .exited } else none
  | .handling x =>
    some { p with
      thread := Function.update p.thread w .waiting
      history := { p.history with handled := p.history.handled ++ [x] } }
  | .exited => none

def drainAndStop (timeout : Int) (p : WorkerPool α) : WorkerPool α :=
  if !p.accepting && p.stopping then { p with stopper := .returned }
  else if timeout > 0 ∧ p.queue ≠ [] then { p with accepting := false, stopper := .draining }
  else { p with accepting := false, stopping := true, stopper := .joining }

def stopWaiting (expired : Bool) (p : WorkerPool α) : Option (WorkerPool α) :=
  if p.queue = [] then some { p with stopping := true, stopper := .joining }
  else if expired then
    some { p with
      queue := []
      stopping := true
      stopper := .joining
      history := { p.history with discarded := p.history.discarded ++ p.queue } }
  else none

inductive Action (α : Type)
  | submit (job : α)
  | worker (w : Nat)
  | drain (timeout : Int)
  | wake (expired : Bool)
  | join
  deriving DecidableEq, Repr

/-- A step of the pool with `n` threads: a call of `try_submit` by anyone, a thread, or the
one caller of `drain_and_stop`. -/
def step (n maxPending : Nat) (p : WorkerPool α) : Action α → Option (WorkerPool α)
  | .submit job => some (p.trySubmit maxPending job).2
  | .worker w => if w < n then p.workerLoop w else none
  | .drain timeout =>
    match p.stopper with
    | .outside | .returned => some (p.drainAndStop timeout)
    | .draining | .joining => none
  | .wake expired =>
    match p.stopper with
    | .draining => p.stopWaiting expired
    | .outside | .joining | .returned => none
  | .join =>
    match p.stopper with
    | .joining =>
      if ∀ w < n, (p.thread w).isExited then some { p with stopper := .returned } else none
    | .outside | .draining | .returned => none

/-- Every way in which the pool can move. -/
inductive Moves (n maxPending : Nat) (p : WorkerPool α) : WorkerPool α → Prop
  | refused (job) (full : p.accepting = false ∨ maxPending ≤ p.queue.length) :
    Moves n maxPending p { p with
      history := { p.history with refused := p.history.refused ++ [p.submission job] } }
  | accepted (job) (opened : p.accepting = true) (room : p.queue.length < maxPending) :
    Moves n maxPending p { p with
      queue := p.queue ++ [p.submission job]
      history := { p.history with accepted := p.history.accepted ++ [p.submission job] } }
  | take (w x queue) (hw : w < n) (pc : p.thread w = .waiting) (hq : p.queue = x :: queue) :
    Moves n maxPending p { p with
      queue := queue
      thread := Function.update p.thread w (.handling x)
      history := { p.history with dequeued := p.history.dequeued ++ [x] } }
  | exit (w) (hw : w < n) (pc : p.thread w = .waiting) (hq : p.queue = [])
    (stopping : p.stopping = true) :
    Moves n maxPending p { p with thread := Function.update p.thread w .exited }
  | handled (w x) (hw : w < n) (pc : p.thread w = .handling x) :
    Moves n maxPending p { p with
      thread := Function.update p.thread w .waiting
      history := { p.history with handled := p.history.handled ++ [x] } }
  | again (pc : p.stopper = .outside ∨ p.stopper = .returned) (closed : p.accepting = false)
    (stopping : p.stopping = true) : Moves n maxPending p { p with stopper := .returned }
  | drain (pc : p.stopper = .outside ∨ p.stopper = .returned)
    (first : ¬(p.accepting = false ∧ p.stopping = true)) :
    Moves n maxPending p { p with accepting := false, stopper := .draining }
  | stop (pc : p.stopper = .outside ∨ p.stopper = .returned)
    (first : ¬(p.accepting = false ∧ p.stopping = true)) :
    Moves n maxPending p { p with accepting := false, stopping := true, stopper := .joining }
  | drained (pc : p.stopper = .draining) (hq : p.queue = []) :
    Moves n maxPending p { p with stopping := true, stopper := .joining }
  | expired (pc : p.stopper = .draining) :
    Moves n maxPending p { p with
      queue := []
      stopping := true
      stopper := .joining
      history := { p.history with discarded := p.history.discarded ++ p.queue } }
  | joined (pc : p.stopper = .joining) (exited : ∀ w < n, p.thread w = .exited) :
    Moves n maxPending p { p with stopper := .returned }

variable {n maxPending : Nat} {p p' : WorkerPool α}

theorem isExited_iff {t : PoolThread α} : t.isExited = true ↔ t = .exited := by
  cases t <;> simp [PoolThread.isExited]

theorem moves_submit (job : α) : Moves n maxPending p (p.trySubmit maxPending job).2 := by
  rw [trySubmit]
  split
  · rename_i h
    refine .refused job ?_
    simpa using h
  · rename_i h
    simp only [Bool.or_eq_true, Bool.not_eq_true', decide_eq_true_eq, not_or,
      Bool.not_eq_false, Nat.not_le] at h
    exact .accepted job h.1 h.2

theorem moves_drain (timeout : Int) (pc : p.stopper = .outside ∨ p.stopper = .returned) :
    Moves n maxPending p (p.drainAndStop timeout) := by
  rw [drainAndStop]
  split
  · rename_i h
    simp only [Bool.and_eq_true, Bool.not_eq_true'] at h
    exact .again pc h.1 h.2
  · rename_i h
    simp only [Bool.and_eq_true, Bool.not_eq_true'] at h
    split
    · exact .drain pc h
    · exact .stop pc h

theorem moves_worker {w : Nat} (hw : w < n) (h : p.workerLoop w = some p') :
    Moves n maxPending p p' := by
  unfold workerLoop at h
  split at h
  · rename_i pc
    split at h
    · rename_i x queue hq
      obtain rfl := Option.some.inj h
      exact .take w x queue hw pc hq
    · rename_i hq
      split at h
      · rename_i hs
        obtain rfl := Option.some.inj h
        exact .exit w hw pc hq hs
      · cases h
  · rename_i x pc
    obtain rfl := Option.some.inj h
    exact .handled w x hw pc
  · cases h

theorem moves_of_step {a : Action α} (h : step n maxPending p a = some p') :
    Moves n maxPending p p' := by
  cases a with
  | submit job =>
    obtain rfl := Option.some.inj h
    exact moves_submit job
  | worker w =>
    simp only [step] at h
    split at h
    · exact moves_worker ‹_› h
    · cases h
  | drain timeout =>
    simp only [step] at h
    split at h
    · obtain rfl := Option.some.inj h
      exact moves_drain timeout (.inl ‹_›)
    · obtain rfl := Option.some.inj h
      exact moves_drain timeout (.inr ‹_›)
    · cases h
    · cases h
  | wake expired =>
    simp only [step] at h
    split at h
    · rename_i pc
      simp only [stopWaiting] at h
      split at h
      · obtain rfl := Option.some.inj h
        exact .drained pc ‹_›
      · split at h
        · obtain rfl := Option.some.inj h
          exact .expired pc
        · cases h
    all_goals cases h
  | join =>
    simp only [step] at h
    split at h
    · rename_i pc
      split at h
      · rename_i hall
        obtain rfl := Option.some.inj h
        exact .joined pc (fun w hw => isExited_iff.mp (hall w hw))
      · cases h
    all_goals cases h

end WorkerPool

end LocalCache
