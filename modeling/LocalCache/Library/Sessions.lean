import Mathlib.Logic.Function.Basic
import LocalCache.Library.Transition

namespace LocalCache.Library.Sessions

open Transition

variable {σ Op Ans : Type}

/-- What each operation answers, and what it leaves in the store. -/
structure Service (σ Op Ans : Type) where
  answer : σ → Op → Ans
  effect : σ → Op → σ

inductive Slot (Op Ans : Type)
  | idle
  | pending (op : Op)
  | served (op : Op) (answer : Ans)

/-- Sessions on one store, each with at most one operation under way. `seen` is what came of the
earlier ones; those that were refused have no answer. -/
structure Board (σ Op Ans : Type) where
  store : σ
  slot : Nat → Slot Op Ans := fun _ => .idle
  seen : Nat → List (Op × Option Ans) := fun _ => []

inductive Event (Op : Type)
  | submit (i : Nat) (op : Op)
  | serve (i : Nat)
  | refuse (i : Nat)
  | deliver (i : Nat)

namespace Board

def close (b : Board σ Op Ans) (i : Nat) (op : Op) (answer : Option Ans) : Board σ Op Ans :=
  { b with
    slot := Function.update b.slot i .idle
    seen := Function.update b.seen i (b.seen i ++ [(op, answer)]) }

def step (S : Service σ Op Ans) (b : Board σ Op Ans) : Event Op → Option (Board σ Op Ans)
  | .submit i op =>
    match b.slot i with
    | .idle => some { b with slot := Function.update b.slot i (.pending op) }
    | _ => none
  | .serve i =>
    match b.slot i with
    | .pending op => some { b with
        store := S.effect b.store op
        slot := Function.update b.slot i (.served op (S.answer b.store op)) }
    | _ => none
  | .refuse i =>
    match b.slot i with
    | .pending op => some (b.close i op none)
    | _ => none
  | .deliver i =>
    match b.slot i with
    | .served op answer => some (b.close i op (some answer))
    | _ => none

end Board

def replay (S : Service σ Op Ans) (s : σ) : List (Op × Option Ans) → σ
  | [] => s
  | (_, none) :: l => replay S s l
  | (op, some _) :: l => replay S (S.effect s op) l

/-- The answers are those of the operations run one after the other. -/
def Alone (S : Service σ Op Ans) (s : σ) : List (Op × Option Ans) → Prop
  | [] => True
  | (_, none) :: l => Alone S s l
  | (op, some a) :: l => a = S.answer s op ∧ Alone S (S.effect s op) l

/-- Sessions work on parts of the store: `agree i` says that two stores have the same part `i`,
which decides what the operations of session `i` do and is all that they change. -/
structure Separated (S : Service σ Op Ans) (agree : Nat → σ → σ → Prop)
    (legal : Nat → Op → Prop) : Prop where
  equiv : ∀ i, Equivalence (agree i)
  own : ∀ {i op s t}, legal i op → agree i s t →
    S.answer s op = S.answer t op ∧ agree i (S.effect s op) (S.effect t op)
  other : ∀ {i j op} (s : σ), legal j op → i ≠ j → agree i s (S.effect s op)

def Legal (legal : Nat → Op → Prop) (_ : Board σ Op Ans) : Event Op → Prop
  | .submit i op => legal i op
  | _ => True

variable {S : Service σ Op Ans} {agree : Nat → σ → σ → Prop} {legal : Nat → Op → Prop}
  {s₀ : σ} {b b' : Board σ Op Ans} {e : Event Op} {i : Nat}

theorem replay_append (s : σ) (l m : List (Op × Option Ans)) :
    replay S s (l ++ m) = replay S (replay S s l) m := by
  induction l generalizing s with
  | nil => rfl
  | cons p l ih =>
    obtain ⟨op, answer⟩ := p
    cases answer with
    | none => exact ih s
    | some a => exact ih _

theorem alone_append (s : σ) (l m : List (Op × Option Ans)) :
    Alone S s (l ++ m) ↔ Alone S s l ∧ Alone S (replay S s l) m := by
  induction l generalizing s with
  | nil => exact (true_and _).symm.to_iff
  | cons p l ih =>
    obtain ⟨op, answer⟩ := p
    cases answer with
    | none => exact ih s
    | some a =>
      simp only [List.cons_append, Alone, replay, ih, and_assoc]

def Apart (S : Service σ Op Ans) (agree : Nat → σ → σ → Prop) (legal : Nat → Op → Prop) (s₀ : σ)
    (b : Board σ Op Ans) (i : Nat) : Prop :=
  Alone S s₀ (b.seen i) ∧
    match b.slot i with
    | .idle => agree i (replay S s₀ (b.seen i)) b.store
    | .pending op => legal i op ∧ agree i (replay S s₀ (b.seen i)) b.store
    | .served op a => legal i op ∧ a = S.answer (replay S s₀ (b.seen i)) op ∧
        agree i (S.effect (replay S s₀ (b.seen i)) op) b.store

theorem Apart.frame (h : Apart S agree legal s₀ b i) (equiv : Equivalence (agree i))
    (slot : b'.slot i = b.slot i) (seen : b'.seen i = b.seen i)
    (store : agree i b.store b'.store) : Apart S agree legal s₀ b' i := by
  unfold Apart at h ⊢
  rw [slot, seen]
  refine ⟨h.1, ?_⟩
  have hslot := h.2
  cases hs : b.slot i with
  | idle =>
    rw [hs] at hslot
    exact equiv.trans hslot store
  | pending op =>
    rw [hs] at hslot
    exact ⟨hslot.1, equiv.trans hslot.2 store⟩
  | served op a =>
    rw [hs] at hslot
    exact ⟨hslot.1, hslot.2.1, equiv.trans hslot.2.2 store⟩

theorem Apart.submit {op : Op} (h : Apart S agree legal s₀ b i) (hslot : b.slot i = .idle)
    (hop : legal i op) :
    Apart S agree legal s₀ { b with slot := Function.update b.slot i (.pending op) } i := by
  unfold Apart at h ⊢
  rw [hslot] at h
  dsimp only
  rw [Function.update_self]
  exact ⟨h.1, hop, h.2⟩

theorem Apart.serve {op : Op} (hsep : Separated S agree legal) (h : Apart S agree legal s₀ b i)
    (hslot : b.slot i = .pending op) :
    Apart S agree legal s₀ { b with
      store := S.effect b.store op
      slot := Function.update b.slot i (.served op (S.answer b.store op)) } i := by
  unfold Apart at h ⊢
  rw [hslot] at h
  dsimp only
  rw [Function.update_self]
  obtain ⟨hanswer, heffect⟩ := hsep.own h.2.1 h.2.2
  exact ⟨h.1, h.2.1, hanswer.symm, heffect⟩

theorem Apart.refuse {op : Op} (h : Apart S agree legal s₀ b i)
    (hslot : b.slot i = .pending op) : Apart S agree legal s₀ (b.close i op none) i := by
  unfold Apart at h ⊢
  rw [hslot] at h
  simp only [Board.close, Function.update_self, replay_append, alone_append]
  exact ⟨⟨h.1, trivial⟩, h.2.2⟩

theorem Apart.deliver {op : Op} {a : Ans} (h : Apart S agree legal s₀ b i)
    (hslot : b.slot i = .served op a) : Apart S agree legal s₀ (b.close i op (some a)) i := by
  unfold Apart at h ⊢
  rw [hslot] at h
  simp only [Board.close, Function.update_self, replay_append, alone_append]
  exact ⟨⟨h.1, h.2.2.1, trivial⟩, h.2.2.2⟩

theorem apart_step (hsep : Separated S agree legal) (h : ∀ i, Apart S agree legal s₀ b i)
    (hok : Legal legal b e) (hs : b.step S e = some b') (i : Nat) :
    Apart S agree legal s₀ b' i := by
  -- Of the sessions that do not move, only the store can change, and not their part of it.
  cases e with
  | submit j op =>
    simp only [Board.step] at hs
    split at hs
    · obtain rfl := Option.some.inj hs
      by_cases hi : i = j
      · subst hi
        exact (h i).submit ‹_› hok
      · exact (h i).frame (hsep.equiv i) (Function.update_of_ne hi _ _) rfl
          ((hsep.equiv i).refl _)
    · cases hs
  | serve j =>
    simp only [Board.step] at hs
    split at hs
    · rename_i op hslot
      obtain rfl := Option.some.inj hs
      by_cases hi : i = j
      · subst hi
        exact (h i).serve hsep hslot
      · have hlegal : legal j op := by
          have hj := (h j).2
          rw [hslot] at hj
          exact hj.1
        exact (h i).frame (hsep.equiv i) (Function.update_of_ne hi _ _) rfl
          (hsep.other _ hlegal hi)
    · cases hs
  | refuse j =>
    simp only [Board.step] at hs
    split at hs
    · obtain rfl := Option.some.inj hs
      by_cases hi : i = j
      · subst hi
        exact (h i).refuse ‹_›
      · exact (h i).frame (hsep.equiv i) (Function.update_of_ne hi _ _)
          (Function.update_of_ne hi _ _) ((hsep.equiv i).refl _)
    · cases hs
  | deliver j =>
    simp only [Board.step] at hs
    split at hs
    · obtain rfl := Option.some.inj hs
      by_cases hi : i = j
      · subst hi
        exact (h i).deliver ‹_›
      · exact (h i).frame (hsep.equiv i) (Function.update_of_ne hi _ _)
          (Function.update_of_ne hi _ _) ((hsep.equiv i).refl _)
    · cases hs

/-- Whatever the others do, every session sees what it would see alone. -/
theorem alone_of_reach (hsep : Separated S agree legal)
    (h : Reach (Board.step S) (Legal legal) { store := s₀ } b) (i : Nat) :
    Alone S s₀ (b.seen i) := by
  have hp : ∀ i, Apart S agree legal s₀ b i := by
    refine h.invariant (P := fun b => ∀ i, Apart S agree legal s₀ b i) ?_ ?_
    · intro i
      exact ⟨trivial, (hsep.equiv i).refl _⟩
    · intro b e b' hp hok hs
      exact apart_step hsep hp hok hs
  exact (hp i).1

end LocalCache.Library.Sessions
