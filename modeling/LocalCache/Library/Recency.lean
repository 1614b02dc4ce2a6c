import Mathlib.Data.List.Basic
import Mathlib.Data.List.Nodup
import LocalCache.Library.Keyed

namespace LocalCache.Library.Recency

section Trim

variable {α : Type}

/-- How many elements of the front stay when elements are dropped from the back
until what remains fits. -/
def keep (fits : List α → Bool) (l : List α) : Nat → Nat
  | 0 => 0
  | n + 1 => if fits (l.take (n + 1)) then n + 1 else keep fits l n

def trim (fits : List α → Bool) (l : List α) : List α := l.take (keep fits l l.length)

theorem keep_le (fits : List α → Bool) (l : List α) (n : Nat) : keep fits l n ≤ n := by
  induction n with
  | zero => exact Nat.le_refl 0
  | succ n ih =>
    rw [keep]
    split
    · exact Nat.le_refl _
    · exact Nat.le_succ_of_le ih

theorem keep_fits (fits : List α → Bool) (l : List α) (n : Nat) :
    keep fits l n = 0 ∨ fits (l.take (keep fits l n)) = true := by
  induction n with
  | zero => exact .inl rfl
  | succ n ih =>
    rw [keep]
    split
    · rename_i h
      exact .inr h
    · exact ih

theorem keep_maximal {fits : List α → Bool} {l : List α} {n m : Nat}
    (h : keep fits l n < m) (hm : m ≤ n) : fits (l.take m) = false := by
  induction n with
  | zero => omega
  | succ n ih =>
    rw [keep] at h
    split at h
    · omega
    · rename_i hf
      obtain hlt | hle := Nat.lt_or_ge n m
      · have he : m = n + 1 := by omega
        rw [he]
        simpa using hf
      · exact ih h hle

theorem keep_congr {fits : List α → Bool} {l l' : List α} {n : Nat}
    (h : ∀ m, m ≤ n → l.take m = l'.take m) : keep fits l n = keep fits l' n := by
  induction n with
  | zero => rfl
  | succ n ih =>
    rw [keep, keep, h (n + 1) (Nat.le_refl _), ih (fun m hm => h m (by omega))]

theorem trim_of_fits {fits : List α → Bool} {l : List α} (h : fits l = true) :
    trim fits l = l := by
  cases l with
  | nil => rfl
  | cons a l =>
    have hk : keep fits (a :: l) (a :: l).length = (a :: l).length := by
      rw [List.length_cons, keep, if_pos]
      rwa [← List.length_cons (a := a), List.take_length]
    rw [trim, hk, List.take_length]

theorem trim_nil (fits : List α → Bool) : trim fits [] = [] := rfl

theorem trim_concat {fits : List α → Bool} {l : List α} {a : α} (h : fits (l ++ [a]) = false) :
    trim fits (l ++ [a]) = trim fits l := by
  have hlen : (l ++ [a]).length = l.length + 1 := by simp
  have hfull : (l ++ [a]).take (l.length + 1) = l ++ [a] := by
    rw [← hlen, List.take_length]
  have hk : keep fits (l ++ [a]) (l.length + 1) = keep fits l l.length := by
    rw [keep, hfull, h, if_neg (by simp)]
    exact keep_congr (fun m hm => List.take_append_of_le_length hm)
  rw [trim, hlen, hk, trim, List.take_append_of_le_length (keep_le fits l l.length)]

theorem trim_spec (fits : List α → Bool) (l : List α) :
    ∃ n, n ≤ l.length ∧ trim fits l = l.take (l.length - n) ∧
      (n < l.length → fits (l.take (l.length - n)) = true) ∧
      ∀ m, m < n → fits (l.take (l.length - m)) = false := by
  have hle := keep_le fits l l.length
  refine ⟨l.length - keep fits l l.length, by omega, ?_, ?_, ?_⟩
  · rw [Nat.sub_sub_self hle]
    rfl
  · intro h
    rw [Nat.sub_sub_self hle]
    obtain h0 | hf := keep_fits fits l l.length
    · omega
    · exact hf
  · intro m hm
    exact keep_maximal (n := l.length) (by omega) (by omega)

theorem trim_sublist (fits : List α → Bool) (l : List α) : (trim fits l).Sublist l :=
  List.take_sublist _ _

theorem keep_of_bound {fits : List α → Bool} {l : List α} {bound n : Nat} (hpos : 0 < bound)
    (h : ∀ j ≤ n, fits (l.take j) = decide (j < bound)) :
    keep fits l n = min n (bound - 1) := by
  induction n with
  | zero => exact (Nat.zero_min _).symm
  | succ n ih =>
    rw [keep, h (n + 1) (Nat.le_refl _), ih (fun j hj => h j (Nat.le_succ_of_le hj))]
    by_cases hn : n + 1 < bound
    · rw [if_pos (decide_eq_true hn)]
      omega
    · rw [if_neg (by simpa using hn)]
      omega

theorem trim_of_bound {fits : List α → Bool} {l : List α} {bound : Nat} (hpos : 0 < bound)
    (h : ∀ j ≤ l.length, fits (l.take j) = decide (j < bound)) :
    trim fits l = l.take (bound - 1) := by
  rw [trim, keep_of_bound hpos h, ← List.take_take, List.take_of_length_le]
  exact List.length_take_le' _ _

/-- A sublist that lacks at most `d` elements keeps its front within a front that is longer by
`d`. -/
theorem take_sublist_take {s l : List α} {d : Nat} (h : s.Sublist l)
    (hd : l.length ≤ s.length + d) (n : Nat) : (s.take n).Sublist (l.take (n + d)) := by
  induction h generalizing n d with
  | slnil =>
    rw [List.take_nil]
    exact List.nil_sublist _
  | @cons s l a h ih =>
    have hle := h.length_le
    rw [List.length_cons] at hd
    obtain ⟨e, rfl⟩ : ∃ e, d = e + 1 := ⟨d - 1, by omega⟩
    rw [← Nat.add_assoc, List.take_succ_cons]
    exact (ih (by omega) n).cons a
  | @cons_cons s l a h ih =>
    rw [List.length_cons, List.length_cons] at hd
    cases n with
    | zero =>
      rw [List.take_zero]
      exact List.nil_sublist _
    | succ n =>
      rw [List.take_succ_cons, Nat.add_right_comm, List.take_succ_cons]
      exact (ih (by omega) n).cons_cons a

end Trim

section Within

variable {α κ : Type} [DecidableEq κ] {key : α → κ} {s l : List α} {d : Nat}

structure Within (d : Nat) (s l : List α) : Prop where
  sublist : s.Sublist l
  length_le : l.length ≤ s.length + d

theorem Within.cons (h : Within d s l) (a : α) : Within d (a :: s) (a :: l) := by
  refine ⟨h.sublist.cons_cons a, ?_⟩
  have hle := h.length_le
  rw [List.length_cons, List.length_cons]
  omega

theorem Within.take (h : Within d s l) (n : Nat) : Within d (s.take n) (l.take (n + d)) := by
  refine ⟨take_sublist_take h.sublist h.length_le n, ?_⟩
  have hle := h.length_le
  rw [List.length_take, List.length_take]
  omega

theorem Within.without (hn : (l.map key).Nodup) (h : Within d s l) (k : κ) :
    Within d (Keyed.without key k s) (Keyed.without key k l) := by
  refine ⟨h.sublist.filter _, ?_⟩
  have hle := h.length_le
  have hl : (Keyed.without key k l).length ≤ l.length := (Keyed.without_sublist k l).length_le
  by_cases hk : k ∈ s.map key
  · obtain ⟨a, ha, rfl⟩ := List.mem_map.mp hk
    have hs := Keyed.length_without ((h.sublist.map key).nodup hn) ha
    have hl := Keyed.length_without hn (h.sublist.subset ha)
    omega
  · rw [Keyed.without_of_notMem hk]
    omega

theorem Within.touch (hn : (l.map key).Nodup) (h : Within d s l) {a : α} (ha : a ∈ l)
    (hs : key a ∉ s.map key) : Within d s (a :: Keyed.without key (key a) l) := by
  have hlen := Keyed.length_without hn ha
  have hw := (h.without hn (key a)).sublist
  rw [Keyed.without_of_notMem hs] at hw
  refine ⟨hw.cons a, ?_⟩
  rw [List.length_cons, hlen]
  exact h.length_le

end Within

section History

variable {κ : Type} [DecidableEq κ]

/-- When a key was touched last, given what each operation touched, the newest
first. The first operation happens at time one; zero means never. -/
def lastTouch : List (Option κ) → κ → Nat
  | [], _ => 0
  | t :: ts, k => if t = some k then ts.length + 1 else lastTouch ts k

structure Ordered (history : List (Option κ)) (keys : List κ) : Prop where
  touched : ∀ k ∈ keys, 0 < lastTouch history k
  decreasing : keys.Pairwise (fun a b => lastTouch history b < lastTouch history a)

theorem lastTouch_le (history : List (Option κ)) (k : κ) :
    lastTouch history k ≤ history.length := by
  induction history with
  | nil => exact Nat.le_refl 0
  | cons t ts ih =>
    rw [lastTouch, List.length_cons]
    split
    · exact Nat.le_refl _
    · exact Nat.le_succ_of_le ih

theorem ordered_nil (history : List (Option κ)) : Ordered history [] where
  touched := by intro k hk; cases hk
  decreasing := List.Pairwise.nil

theorem Ordered.sublist {history : List (Option κ)} {keys keys' : List κ}
    (h : Ordered history keys) (hs : keys'.Sublist keys) : Ordered history keys' where
  touched := fun k hk => h.touched k (hs.subset hk)
  decreasing := h.decreasing.sublist hs

theorem Ordered.idle {history : List (Option κ)} {keys : List κ} (h : Ordered history keys) :
    Ordered (none :: history) keys where
  touched := fun k hk => by simpa [lastTouch] using h.touched k hk
  decreasing := h.decreasing.imp (fun {a b} hab => by simpa [lastTouch] using hab)

theorem Ordered.touch {history : List (Option κ)} {keys : List κ} {k : κ}
    (h : Ordered history keys) (hk : k ∉ keys) : Ordered (some k :: history) (k :: keys) := by
  have hself : lastTouch (some k :: history) k = history.length + 1 := by simp [lastTouch]
  have hother : ∀ a ∈ keys, lastTouch (some k :: history) a = lastTouch history a := by
    intro a ha
    have hne : k ≠ a := fun he => hk (he ▸ ha)
    simp [lastTouch, hne]
  refine ⟨?_, ?_⟩
  · intro a ha
    obtain rfl | ha := List.mem_cons.mp ha
    · rw [hself]
      exact Nat.succ_pos _
    · rw [hother a ha]
      exact h.touched a ha
  · apply List.Pairwise.cons
    · intro a ha
      rw [hself, hother a ha]
      exact Nat.lt_succ_of_le (lastTouch_le history a)
    · apply h.decreasing.imp_of_mem
      intro a b ha hb hab
      rw [hother a ha, hother b hb]
      exact hab

end History

end LocalCache.Library.Recency
