import Mathlib.Algebra.BigOperators.Group.Finset.Piecewise
import Mathlib.Algebra.Order.BigOperators.Group.Finset

namespace LocalCache.Library.Threads

variable {α : Type}

def total (n : Nat) (g : α → Nat) (f : Nat → α) : Nat := ∑ w ∈ Finset.range n, g (f w)

theorem total_update {n w : Nat} (hw : w < n) (g : α → Nat) (f : Nat → α) (x : α) :
    total n g (Function.update f w x) + g (f w) = total n g f + g x := by
  have hmem : w ∈ Finset.range n := Finset.mem_range.mpr hw
  have hcomp : (fun v => g (Function.update f w x v)) =
      Function.update (fun v => g (f v)) w (g x) := Function.comp_update g f w x
  have hold := Finset.add_sum_erase (Finset.range n) (fun v => g (f v)) hmem
  rw [total, total, hcomp, Finset.sum_update_of_mem hmem, Finset.sdiff_singleton_eq_erase]
  omega

theorem total_succ (n : Nat) (g : α → Nat) (f : Nat → α) :
    total (n + 1) g f = total n g f + g (f n) :=
  Finset.sum_range_succ _ n

theorem total_update_of_le {n w : Nat} (hw : n ≤ w) (g : α → Nat) (f : Nat → α) (x : α) :
    total n g (Function.update f w x) = total n g f := by
  apply Finset.sum_congr rfl
  intro v hv
  rw [Function.update_of_ne (Nat.ne_of_lt (Nat.lt_of_lt_of_le (Finset.mem_range.mp hv) hw))]

theorem le_total {n w : Nat} (hw : w < n) (g : α → Nat) (f : Nat → α) : g (f w) ≤ total n g f :=
  Finset.single_le_sum (f := fun v => g (f v)) (fun _ _ => Nat.zero_le _) (Finset.mem_range.mpr hw)

theorem add_le_total {n v w : Nat} (hv : v < n) (hw : w < n) (hne : v ≠ w) (g : α → Nat)
    (f : Nat → α) : g (f v) + g (f w) ≤ total n g f := by
  rw [← Finset.sum_pair (f := fun u => g (f u)) hne, total]
  refine Finset.sum_le_sum_of_subset ?_
  simp [Finset.insert_subset_iff, hv, hw]

theorem total_mono {g h : α → Nat} (hle : ∀ x, g x ≤ h x) (n : Nat) (f : Nat → α) :
    total n g f ≤ total n h f :=
  Finset.sum_le_sum (fun w _ => hle (f w))

theorem total_eq_zero_iff {n : Nat} {g : α → Nat} {f : Nat → α} :
    total n g f = 0 ↔ ∀ w < n, g (f w) = 0 := by
  rw [total, Finset.sum_eq_zero_iff]
  simp only [Finset.mem_range]

end LocalCache.Library.Threads
