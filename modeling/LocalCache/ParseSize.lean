import LocalCache.Library.Numeral
import LocalCache.ServerArgs

namespace LocalCache.ParseSize

open Protocol Library

def IsDigit (c : UInt8) : Prop := '0'.toNat ≤ c.toNat ∧ c.toNat ≤ '9'.toNat

def decimal (digits : Bytes) : Nat :=
  Nat.ofDigits 10 (digits.map (fun c => c.toNat - '0'.toNat)).reverse

def units : List (Bytes × Nat) :=
  [([], 1), (['k'.toUInt8], 2 ^ 10), (['K'.toUInt8], 2 ^ 10), (['m'.toUInt8], 2 ^ 20),
    (['M'.toUInt8], 2 ^ 20), (['g'.toUInt8], 2 ^ 30), (['G'.toUInt8], 2 ^ 30)]

/-- The text is a size in the grammar, and its value is `n`. -/
def Denotes (text : Bytes) (n : Nat) : Prop :=
  ∃ digits suffix unit, text = digits ++ suffix ∧ digits ≠ [] ∧ (∀ c ∈ digits, IsDigit c) ∧
    (suffix, unit) ∈ units ∧ n = decimal digits * unit

variable {text suffix : Bytes} {c : UInt8} {value v multiplier out : UInt64} {unit : Nat}

theorem isDigit_iff : IsDigit c ↔ ¬(c < '0'.toUInt8 ∨ '9'.toUInt8 < c) := by
  rw [IsDigit, UInt8.lt_iff_toNat_lt, UInt8.lt_iff_toNat_lt]
  change 48 ≤ c.toNat ∧ c.toNat ≤ 57 ↔ ¬(c.toNat < 48 ∨ 57 < c.toNat)
  omega

theorem toNat_digit (h : IsDigit c) :
    ((c - '0'.toUInt8).toUInt64).toNat = c.toNat - '0'.toNat := by
  have hle : '0'.toUInt8 ≤ c := UInt8.le_iff_toNat_le.mpr h.1
  rw [UInt8.toNat_toUInt64, UInt8.toNat_sub_of_le _ _ hle]
  rfl

theorem guard_iff (h : IsDigit c) :
    (kSizeMax - (c - '0'.toUInt8).toUInt64) / 10 < value ↔
      2 ^ 64 ≤ value.toNat * 10 + (c.toNat - '0'.toNat) := by
  have hd := toNat_digit h
  have hlt : c.toNat - '0'.toNat ≤ kSizeMax.toNat := by
    have hc := c.toNat_lt
    change c.toNat - 48 ≤ 18446744073709551615
    omega
  have hle : (c - '0'.toUInt8).toUInt64 ≤ kSizeMax := by
    rw [UInt64.le_iff_toNat_le, hd]
    exact hlt
  rw [UInt64.lt_iff_toNat_lt, UInt64.toNat_div, UInt64.toNat_sub_of_le _ _ hle, hd]
  exact Numeral.div_lt_iff (by decide) hlt

theorem toNat_next (h : IsDigit c)
    (hlt : value.toNat * 10 + (c.toNat - '0'.toNat) < 2 ^ 64) :
    (value * 10 + (c - '0'.toUInt8).toUInt64).toNat =
      value.toNat * 10 + (c.toNat - '0'.toNat) := by
  rw [UInt64.toNat_add, UInt64.toNat_mul, toNat_digit h]
  change (value.toNat * 10 % 2 ^ 64 + (c.toNat - '0'.toNat)) % 2 ^ 64 = _
  rw [Nat.mod_eq_of_lt (Nat.lt_of_le_of_lt (Nat.le_add_right _ _) hlt), Nat.mod_eq_of_lt hlt]

theorem parseDigits_iff (text : Bytes) (value v : UInt64) :
    parseDigits text value = some v ↔ (∀ c ∈ text, IsDigit c) ∧
      Numeral.horner 10 value.toNat (text.map (fun c => c.toNat - '0'.toNat)) = v.toNat := by
  induction text generalizing value with
  | nil =>
    rw [parseDigits, Option.some.injEq, ← UInt64.toNat_inj]
    simp [Numeral.horner]
  | cons c text ih =>
    rw [parseDigits, List.map_cons, Numeral.horner_cons, List.forall_mem_cons]
    by_cases hc : IsDigit c
    · rw [if_neg (isDigit_iff.mp hc)]
      by_cases hg : 2 ^ 64 ≤ value.toNat * 10 + (c.toNat - '0'.toNat)
      · -- what does not fit now will not fit with more digits either
        rw [if_pos ((guard_iff hc).mpr hg)]
        refine iff_of_false (by simp) ?_
        rintro ⟨-, hv⟩
        have hle := Numeral.le_horner (b := 10) (by decide)
          (value.toNat * 10 + (c.toNat - '0'.toNat)) (text.map (fun c => c.toNat - '0'.toNat))
        have hlt := v.toNat_lt
        omega
      · rw [if_neg (mt (guard_iff hc).mp hg), ih, toNat_next hc (Nat.lt_of_not_le hg)]
        simp [hc]
    · rw [if_pos (not_not.mp (mt isDigit_iff.mpr hc))]
      refine iff_of_false (by simp) ?_
      rintro ⟨⟨hd, -⟩, -⟩
      exact hc hd

theorem parseDigits_zero_iff (text : Bytes) (v : UInt64) :
    parseDigits text 0 = some v ↔ (∀ c ∈ text, IsDigit c) ∧ decimal text = v.toNat := by
  rw [parseDigits_iff, decimal, ← Numeral.horner_eq_ofDigits]
  rfl

theorem scale_iff (hm : 0 < multiplier.toNat) :
    (1 < multiplier ∧ kSizeMax / multiplier < value) ↔
      2 ^ 64 ≤ value.toNat * multiplier.toNat := by
  have hv := value.toNat_lt
  rw [UInt64.lt_iff_toNat_lt, UInt64.lt_iff_toNat_lt, UInt64.toNat_div, Nat.div_lt_iff_lt_mul hm]
  change 1 < multiplier.toNat ∧ 18446744073709551615 < value.toNat * multiplier.toNat ↔ _
  constructor
  · rintro ⟨-, h⟩
    omega
  · intro h
    refine ⟨?_, by omega⟩
    by_contra hone
    obtain hone : multiplier.toNat = 1 := by omega
    rw [hone] at h
    omega

theorem parseScaled_iff (hm : 0 < multiplier.toNat) :
    parseScaled text multiplier out = (true, v) ↔ text ≠ [] ∧ (∀ c ∈ text, IsDigit c) ∧
      decimal text * multiplier.toNat = v.toNat := by
  rw [parseScaled]
  constructor
  · intro h
    split at h
    · cases h
    · rename_i hne
      split at h
      · cases h
      · rename_i value hvalue
        obtain ⟨hdigits, hdecimal⟩ := (parseDigits_zero_iff text value).mp hvalue
        split at h
        · cases h
        · rename_i hfits
          cases h
          rw [scale_iff hm, Nat.not_le] at hfits
          refine ⟨fun hnil => hne (by rw [hnil]; rfl), hdigits, ?_⟩
          rw [hdecimal, UInt64.toNat_mul, Nat.mod_eq_of_lt hfits]
  · rintro ⟨hne, hdigits, hv⟩
    have hlt : decimal text < 2 ^ 64 := calc
      decimal text ≤ decimal text * multiplier.toNat := Nat.le_mul_of_pos_right _ hm
      _ = v.toNat := hv
      _ < 2 ^ 64 := v.toNat_lt
    have htoNat : (UInt64.ofNat (decimal text)).toNat = decimal text :=
      UInt64.toNat_ofNat_of_lt hlt
    have hvalue : parseDigits text 0 = some (UInt64.ofNat (decimal text)) :=
      (parseDigits_zero_iff text _).mpr ⟨hdigits, htoNat.symm⟩
    have hfits : ¬(1 < multiplier ∧ kSizeMax / multiplier < UInt64.ofNat (decimal text)) := by
      rw [scale_iff hm, htoNat, hv, Nat.not_le]
      exact v.toNat_lt
    rw [if_neg (by simpa using hne), hvalue]
    simp only [if_neg hfits, Prod.mk.injEq, true_and]
    apply UInt64.toNat_inj.mp
    rw [UInt64.toNat_mul, htoNat, hv, Nat.mod_eq_of_lt v.toNat_lt]

theorem suffixMultiplier_mem (h : suffixMultiplier c = some multiplier) :
    ([c], multiplier.toNat) ∈ units := by
  rw [suffixMultiplier] at h
  split at h
  · rename_i hc
    cases h
    obtain rfl | rfl := hc <;> decide
  · split at h
    · rename_i hc
      cases h
      obtain rfl | rfl := hc <;> decide
    · split at h
      · rename_i hc
        cases h
        obtain rfl | rfl := hc <;> decide
      · cases h

theorem units_pos (h : (suffix, unit) ∈ units) : 0 < unit := by
  have hall : ∀ p ∈ units, 0 < p.2 := by decide
  exact hall _ h

theorem mem_units (h : (suffix, unit) ∈ units) :
    suffix = [] ∧ unit = 1 ∨
      ∃ c m, suffix = [c] ∧ suffixMultiplier c = some m ∧ m.toNat = unit := by
  simp only [units, List.mem_cons, Prod.mk.injEq, List.not_mem_nil, or_false] at h
  obtain h | h := h
  · exact .inl h
  · refine .inr ?_
    obtain ⟨rfl, rfl⟩ | ⟨rfl, rfl⟩ | ⟨rfl, rfl⟩ | ⟨rfl, rfl⟩ | ⟨rfl, rfl⟩ | ⟨rfl, rfl⟩ := h <;>
      exact ⟨_, _, rfl, rfl, rfl⟩

theorem suffixMultiplier_digit (h : IsDigit c) : suffixMultiplier c = none := by
  have hne : ∀ letter : UInt8, '9'.toNat < letter.toNat → c ≠ letter := by
    rintro letter hlt rfl
    exact Nat.not_lt.mpr h.2 hlt
  rw [suffixMultiplier, if_neg (not_or.mpr ⟨hne _ (by decide), hne _ (by decide)⟩),
    if_neg (not_or.mpr ⟨hne _ (by decide), hne _ (by decide)⟩),
    if_neg (not_or.mpr ⟨hne _ (by decide), hne _ (by decide)⟩)]

/-- `parse_size` accepts its grammar, with the value of the text. -/
theorem parseSize_iff (text : Bytes) (out v : UInt64) :
    parseSize text out = (true, v) ↔ Denotes text v.toNat := by
  constructor
  · intro h
    rw [parseSize] at h
    split at h
    · cases h
    · rename_i c hlast
      split at h
      · rename_i m hm
        have hmem := suffixMultiplier_mem hm
        obtain ⟨hne, hdigits, hv⟩ := (parseScaled_iff (units_pos hmem)).mp h
        exact ⟨text.dropLast, [c], m.toNat, (List.dropLast_append_getLast? c hlast).symm, hne,
          hdigits, hmem, hv.symm⟩
      · obtain ⟨hne, hdigits, hv⟩ := (parseScaled_iff (by decide)).mp h
        exact ⟨text, [], 1, (List.append_nil text).symm, hne, hdigits, by decide, hv.symm⟩
  · rintro ⟨digits, suffix, unit, rfl, hne, hdigits, hmem, hv⟩
    obtain ⟨rfl, rfl⟩ | ⟨c, m, rfl, hm, rfl⟩ := mem_units hmem
    · rw [List.append_nil, parseSize, List.getLast?_eq_getLast_of_ne_nil hne]
      simp only [suffixMultiplier_digit (hdigits _ (List.getLast_mem hne))]
      exact (parseScaled_iff (by decide)).mpr ⟨hne, hdigits, hv.symm⟩
    · rw [parseSize, List.getLast?_concat, List.dropLast_concat]
      simp only [hm]
      exact (parseScaled_iff (units_pos hmem)).mpr ⟨hne, hdigits, hv.symm⟩

theorem parseScaled_refused (h : (parseScaled text multiplier out).1 = false) :
    (parseScaled text multiplier out).2 = out := by
  revert h
  rw [parseScaled]
  split
  · exact fun _ => rfl
  · split
    · exact fun _ => rfl
    · split
      · exact fun _ => rfl
      · exact fun h => by cases h

theorem parseSize_refused (h : (parseSize text out).1 = false) :
    (parseSize text out).2 = out := by
  revert h
  rw [parseSize]
  split
  · exact fun _ => rfl
  · split
    · exact parseScaled_refused
    · exact parseScaled_refused

/-- `parse_size` succeeds exactly on the sizes of its grammar that are below 2^64, with the exact
value; otherwise it leaves `*out` alone. -/
theorem parseSize_exact (text : Bytes) (out : UInt64) :
    ((parseSize text out).1 = true ↔ ∃ n, Denotes text n ∧ n < 2 ^ 64) ∧
      (∀ n, Denotes text n → n < 2 ^ 64 → (parseSize text out).2.toNat = n) ∧
      ((parseSize text out).1 = false → (parseSize text out).2 = out) := by
  have hvalue : ∀ n, Denotes text n → n < 2 ^ 64 →
      parseSize text out = (true, UInt64.ofNat n) := by
    intro n hn hlt
    have htoNat : (UInt64.ofNat n).toNat = n := UInt64.toNat_ofNat_of_lt hlt
    rw [parseSize_iff, htoNat]
    exact hn
  refine ⟨⟨fun h => ?_, ?_⟩, fun n hn hlt => ?_, parseSize_refused⟩
  · refine ⟨(parseSize text out).2.toNat, ?_, UInt64.toNat_lt _⟩
    rw [← parseSize_iff text out, ← h]
  · rintro ⟨n, hn, hlt⟩
    rw [hvalue n hn hlt]
  · rw [hvalue n hn hlt]
    exact UInt64.toNat_ofNat_of_lt hlt

example : parseSize (ServerOption.chars "18446744073709551615") 7 = (true, kSizeMax) ∧
    parseSize (ServerOption.chars "17179869184g") 7 = (false, 7) := by
  decide +kernel

end LocalCache.ParseSize
