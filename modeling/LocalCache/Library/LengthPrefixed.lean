import LocalCache.Library.Framing

namespace LocalCache.Library.LengthPrefixed

open Framing

/-- A format whose frames begin with a header of fixed size, which is checked on its own and
tells how long the frame is. -/
structure Format (α η ρ ε : Type) where
  headerSize : Nat
  header : List α → Except ε η
  size : η → Nat
  payload : η → List α → ρ

namespace Format

variable {α η ρ ε : Type}

def head (f : Format α η ρ ε) (x : List α) : Verdict ρ ε :=
  if x.length < f.headerSize then .more
  else match f.header x with
    | .error e => .bad e
    | .ok h => if x.length < f.size h then .more else .item (f.payload h x) (f.size h)

/-- The header is decided by its own elements, the payload by those of its frame. -/
structure Local (f : Format α η ρ ε) : Prop where
  header_append : ∀ {x} y, f.headerSize ≤ x.length → f.header (x ++ y) = f.header x
  payload_append : ∀ {x h} y, f.size h ≤ x.length → f.payload h (x ++ y) = f.payload h x
  size_pos : ∀ h, 0 < f.size h

variable {f : Format α η ρ ε} {x : List α} {h : η} {e : ε}

theorem head_short (hl : x.length < f.headerSize) : f.head x = .more := by
  rw [head, if_pos hl]

theorem head_error (hl : f.headerSize ≤ x.length) (hh : f.header x = .error e) :
    f.head x = .bad e := by
  rw [head, if_neg (Nat.not_lt.mpr hl), hh]

theorem head_incomplete (hl : f.headerSize ≤ x.length) (hh : f.header x = .ok h)
    (hs : x.length < f.size h) : f.head x = .more := by
  rw [head, if_neg (Nat.not_lt.mpr hl), hh]
  exact if_pos hs

theorem head_full (hl : f.headerSize ≤ x.length) (hh : f.header x = .ok h)
    (hs : f.size h ≤ x.length) : f.head x = .item (f.payload h x) (f.size h) := by
  rw [head, if_neg (Nat.not_lt.mpr hl), hh]
  exact if_neg (Nat.not_lt.mpr hs)

theorem head_cases (f : Format α η ρ ε) (x : List α) :
    x.length < f.headerSize ∨
      (f.headerSize ≤ x.length ∧ ∃ e, f.header x = .error e) ∨
      (f.headerSize ≤ x.length ∧ ∃ h, f.header x = .ok h ∧ x.length < f.size h) ∨
      (f.headerSize ≤ x.length ∧ ∃ h, f.header x = .ok h ∧ f.size h ≤ x.length) := by
  obtain hl | hl := Nat.lt_or_ge x.length f.headerSize
  · exact .inl hl
  cases hh : f.header x with
  | error e => exact .inr (.inl ⟨hl, e, rfl⟩)
  | ok h =>
    obtain hs | hs := Nat.lt_or_ge x.length (f.size h)
    · exact .inr (.inr (.inl ⟨hl, h, rfl, hs⟩))
    · exact .inr (.inr (.inr ⟨hl, h, rfl, hs⟩))

theorem head_item {r : ρ} {n : Nat} (hx : f.head x = .item r n) :
    f.headerSize ≤ x.length ∧
      ∃ h, f.header x = .ok h ∧ f.size h ≤ x.length ∧ r = f.payload h x ∧ n = f.size h := by
  obtain hl | ⟨hl, e, he⟩ | ⟨hl, h, hh, hs⟩ | ⟨hl, h, hh, hs⟩ := f.head_cases x
  · rw [head_short hl] at hx
    cases hx
  · rw [head_error hl he] at hx
    cases hx
  · rw [head_incomplete hl hh hs] at hx
    cases hx
  · rw [head_full hl hh hs] at hx
    cases hx
    exact ⟨hl, h, hh, hs, rfl, rfl⟩

theorem head_bad (hx : f.head x = .bad e) : f.headerSize ≤ x.length ∧ f.header x = .error e := by
  obtain hl | ⟨hl, e', he⟩ | ⟨hl, h, hh, hs⟩ | ⟨hl, h, hh, hs⟩ := f.head_cases x
  · rw [head_short hl] at hx
    cases hx
  · rw [head_error hl he] at hx
    cases hx
    exact ⟨hl, he⟩
  · rw [head_incomplete hl hh hs] at hx
    cases hx
  · rw [head_full hl hh hs] at hx
    cases hx

theorem Local.incremental (hf : f.Local) : Incremental f.head where
  item_pos := by
    intro x r n hx
    obtain ⟨-, h, -, -, -, rfl⟩ := head_item hx
    exact hf.size_pos h
  item_le := by
    intro x r n hx
    obtain ⟨-, h, -, hs, -, rfl⟩ := head_item hx
    exact hs
  item_append := by
    intro x r n y hx
    obtain ⟨hl, h, hh, hs, rfl, rfl⟩ := head_item hx
    rw [← hf.payload_append y hs]
    apply head_full
    · rw [List.length_append]
      exact Nat.le_add_right_of_le hl
    · rw [hf.header_append y hl, hh]
    · rw [List.length_append]
      exact Nat.le_add_right_of_le hs
  bad_append := by
    intro x e y hx
    obtain ⟨hl, he⟩ := head_bad hx
    apply head_error
    · rw [List.length_append]
      exact Nat.le_add_right_of_le hl
    · rw [hf.header_append y hl, he]

theorem Local.completes (hf : f.Local) (a : α) (hl : f.headerSize ≤ x.length)
    (hx : f.head x = .more) : ∃ y r n, f.head (x ++ y) = .item r n ∧ x.length < n := by
  obtain hl' | ⟨-, e, he⟩ | ⟨-, h, hh, hs⟩ | ⟨-, h, hh, hs⟩ := f.head_cases x
  · exact absurd hl' (Nat.not_lt.mpr hl)
  · rw [head_error hl he] at hx
    cases hx
  · refine ⟨List.replicate (f.size h - x.length) a, _, f.size h, head_full ?_ ?_ ?_, hs⟩
    · rw [List.length_append]
      exact Nat.le_add_right_of_le hl
    · rw [hf.header_append _ hl, hh]
    · rw [List.length_append, List.length_replicate]
      omega
  · rw [head_full hl hh hs] at hx
    cases hx

end Format

end LocalCache.Library.LengthPrefixed
