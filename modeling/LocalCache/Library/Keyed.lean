import Mathlib.Data.List.Nodup
import Mathlib.Algebra.BigOperators.Group.List.Basic
import Mathlib.Algebra.GroupWithZero.Nat

namespace LocalCache.Library.Keyed

variable {α κ : Type} [DecidableEq κ] {key : α → κ}

def find (key : α → κ) (k : κ) (l : List α) : Option α := l.find? (fun a => key a = k)

def without (key : α → κ) (k : κ) (l : List α) : List α := l.filter (fun a => key a ≠ k)

theorem mem_of_find {l : List α} {k : κ} {a : α} (h : find key k l = some a) :
    a ∈ l ∧ key a = k :=
  ⟨List.mem_of_find?_eq_some h, by simpa using List.find?_some h⟩

theorem find_eq_none_iff {l : List α} {k : κ} : find key k l = none ↔ k ∉ l.map key := by
  simp [find]

theorem find_of_mem {l : List α} (hn : (l.map key).Nodup) {a : α} (ha : a ∈ l) :
    find key (key a) l = some a := by
  cases hf : find key (key a) l with
  | none =>
    rw [find_eq_none_iff] at hf
    exact absurd (List.mem_map_of_mem ha) hf
  | some b =>
    obtain ⟨hb, hk⟩ := mem_of_find hf
    rw [List.inj_on_of_nodup_map hn hb ha hk]

theorem mem_without {l : List α} {k : κ} {a : α} : a ∈ without key k l ↔ a ∈ l ∧ key a ≠ k := by
  simp [without]

theorem without_sublist (k : κ) (l : List α) : (without key k l).Sublist l := List.filter_sublist

theorem without_of_notMem {l : List α} {k : κ} (h : k ∉ l.map key) : without key k l = l := by
  apply List.filter_eq_self.mpr
  intro a ha
  have hk : key a ≠ k := fun he => h (he ▸ List.mem_map_of_mem ha)
  simpa using hk

theorem notMem_without (k : κ) (l : List α) : k ∉ (without key k l).map key := by
  intro h
  obtain ⟨a, ha, hk⟩ := List.mem_map.mp h
  exact (mem_without.mp ha).2 hk

theorem perm_cons_without {l : List α} (hn : (l.map key).Nodup) {a : α} (ha : a ∈ l) :
    l.Perm (a :: without key (key a) l) := by
  induction l with
  | nil => cases ha
  | cons b l ih =>
    rw [List.map_cons, List.nodup_cons] at hn
    by_cases hk : key b = key a
    · have hb : b = a := by
        obtain h | h := List.mem_cons.mp ha
        · exact h.symm
        · exact absurd (hk ▸ List.mem_map_of_mem h) hn.1
      subst hb
      have hw : without key (key b) (b :: l) = l := by
        have hl := without_of_notMem hn.1
        simpa [without] using hl
      rw [hw]
    · have ha' : a ∈ l := by
        obtain h | h := List.mem_cons.mp ha
        · exact absurd (h ▸ rfl) hk
        · exact h
      have hw : without key (key a) (b :: l) = b :: without key (key a) l := by
        simp [without, hk]
      rw [hw]
      exact ((ih hn.2 ha').cons b).trans (List.Perm.swap a b _)

theorem find_cons (k : κ) (a : α) (l : List α) :
    find key k (a :: l) = if key a = k then some a else find key k l := by
  by_cases hk : key a = k <;> simp [find, hk]

theorem find_without (k k' : κ) (l : List α) :
    find key k' (without key k l) = if k' = k then none else find key k' l := by
  by_cases hk : k' = k
  · subst hk
    rw [if_pos rfl]
    exact find_eq_none_iff.mpr (notMem_without k' l)
  · rw [if_neg hk, find, find, without, List.find?_filter]
    congr 1
    ext a
    by_cases ha : key a = k'
    · simp [ha, hk]
    · simp [ha]

theorem find_perm {l m : List α} (hn : (l.map key).Nodup) (hp : l.Perm m) (k : κ) :
    find key k l = find key k m := by
  cases hf : find key k m with
  | none =>
    rw [find_eq_none_iff] at hf ⊢
    rwa [(hp.map key).mem_iff]
  | some a =>
    obtain ⟨ha, rfl⟩ := mem_of_find hf
    exact find_of_mem hn (hp.mem_iff.mpr ha)

theorem find_front {l m : List α} (hn : ((l ++ m).map key).Nodup) (k : κ) :
    find key k l = if k ∈ m.map key then none else find key k (l ++ m) := by
  rw [List.map_append, List.nodup_append] at hn
  by_cases hk : k ∈ m.map key
  · rw [if_pos hk, find_eq_none_iff]
    exact fun hl => hn.2.2 k hl k hk rfl
  · rw [if_neg hk, find, find, List.find?_append]
    have hm := find_eq_none_iff.mpr hk
    rw [find] at hm
    rw [hm, Option.or_none]

theorem find_sublist {s l : List α} (hn : (l.map key).Nodup) (hs : s.Sublist l) {k : κ} {a : α}
    (h : find key k s = some a) : find key k l = some a := by
  obtain ⟨ha, rfl⟩ := mem_of_find h
  exact find_of_mem hn (hs.subset ha)

theorem length_without {l : List α} (hn : (l.map key).Nodup) {a : α} (ha : a ∈ l) :
    (without key (key a) l).length + 1 = l.length := by
  rw [(perm_cons_without hn ha).length_eq, List.length_cons]

theorem sum_without {l : List α} (hn : (l.map key).Nodup) {a : α} (ha : a ∈ l) (f : α → Nat) :
    (l.map f).sum = f a + ((without key (key a) l).map f).sum := by
  have hp := ((perm_cons_without hn ha).map f).sum_eq
  rw [hp, List.map_cons, List.sum_cons]

theorem without_last {l : List α} {a : α} (hn : ((l ++ [a]).map key).Nodup) :
    without key (key a) (l ++ [a]) = l := by
  have hl : key a ∉ l.map key := by
    rw [List.map_append, List.nodup_append] at hn
    intro h
    exact hn.2.2 (key a) h (key a) (by simp) rfl
  have hs : without key (key a) [a] = [] := by simp [without]
  rw [without, List.filter_append]
  exact (congrArg₂ (· ++ ·) (without_of_notMem hl) hs).trans (List.append_nil l)

theorem without_congr {κ' : Type} [DecidableEq κ'] {key' : α → κ'} {l : List α}
    (hn : (l.map key).Nodup) (hn' : (l.map key').Nodup) {a : α} (ha : a ∈ l) :
    without key (key a) l = without key' (key' a) l := by
  apply List.filter_congr
  intro b hb
  have hiff : key b = key a ↔ key' b = key' a :=
    ⟨fun h => by rw [List.inj_on_of_nodup_map hn hb ha h],
      fun h => by rw [List.inj_on_of_nodup_map hn' hb ha h]⟩
  simp only [ne_eq, hiff]

theorem without_map {β : Type} (f : α → β) (key : β → κ) (k : κ) (l : List α) :
    without key k (l.map f) = (without (fun a => key (f a)) k l).map f := by
  rw [without, List.filter_map]
  rfl

theorem find_map {β : Type} (f : α → β) (key : β → κ) (k : κ) (l : List α) :
    find key k (l.map f) = (find (fun a => key (f a)) k l).map f := by
  rw [find, List.find?_map]
  rfl

end LocalCache.Library.Keyed
