import Mathlib.Data.Nat.Digits.Defs

namespace LocalCache.Library.Numeral

variable {b n d bound : Nat} {ds : List Nat}

/-- The number that is read when the digits `ds` follow those of `n` in base `b`. -/
def horner (b n : Nat) (ds : List Nat) : Nat := ds.foldl (fun n d => n * b + d) n

theorem horner_cons (b n d : Nat) (ds : List Nat) :
    horner b n (d :: ds) = horner b (n * b + d) ds := rfl

theorem le_horner (hb : 0 < b) (n : Nat) (ds : List Nat) : n ≤ horner b n ds := by
  induction ds generalizing n with
  | nil => exact Nat.le_refl n
  | cons d ds ih =>
    calc n ≤ n * b := Nat.le_mul_of_pos_right n hb
      _ ≤ n * b + d := Nat.le_add_right _ _
      _ ≤ horner b (n * b + d) ds := ih _

theorem horner_eq_ofDigits (b : Nat) (ds : List Nat) :
    horner b 0 ds = Nat.ofDigits b ds.reverse := by
  rw [Nat.ofDigits_eq_foldr, List.foldr_reverse, horner]
  congr 1
  funext n d
  rw [Nat.mul_comm, Nat.add_comm]
  rfl

/-- The test against a quotient tells whether one more digit would go beyond the bound. -/
theorem div_lt_iff (hb : 0 < b) (hd : d ≤ bound) : (bound - d) / b < n ↔ bound < n * b + d := by
  rw [Nat.div_lt_iff_lt_mul hb]
  omega

/-- The digits of `n` in base `b` in front of `ds`, at most `fuel` of them. A number has at least
one digit. -/
def digits (b : Nat) : Nat → Nat → List Nat → List Nat
  | 0, _, ds => ds
  | fuel + 1, n, ds =>
    if n / b = 0 then n % b :: ds else digits b fuel (n / b) (n % b :: ds)

theorem horner_digits (fuel n : Nat) (ds : List Nat) (h : n < b ^ fuel) :
    horner b 0 (digits b fuel n ds) = horner b n ds := by
  induction fuel generalizing n ds with
  | zero =>
    obtain rfl : n = 0 := by simpa using h
    rfl
  | succ fuel ih =>
    have hdiv : n / b * b + n % b = n := Nat.div_add_mod' n b
    rw [digits]
    split
    · rename_i hzero
      rw [hzero] at hdiv
      rw [horner_cons, hdiv]
    · rw [ih (n / b) _ (Nat.div_lt_of_lt_mul (Nat.pow_succ' ▸ h)), horner_cons, hdiv]

theorem digits_lt (hb : 0 < b) (fuel n : Nat) (ds : List Nat) (h : ∀ d ∈ ds, d < b) :
    ∀ d ∈ digits b fuel n ds, d < b := by
  induction fuel generalizing n ds with
  | zero => exact h
  | succ fuel ih =>
    have hcons : ∀ d ∈ n % b :: ds, d < b := by
      intro d hd
      obtain rfl | hd := List.mem_cons.mp hd
      · exact Nat.mod_lt n hb
      · exact h d hd
    rw [digits]
    split
    · exact hcons
    · exact ih (n / b) _ hcons

theorem length_digits (fuel n : Nat) (ds : List Nat) :
    (digits b fuel n ds).length ≤ fuel + ds.length ∧
      (fuel ≠ 0 → ds.length < (digits b fuel n ds).length) := by
  induction fuel generalizing n ds with
  | zero => exact ⟨by simp [digits], fun h => absurd rfl h⟩
  | succ fuel ih =>
    rw [digits]
    split
    · exact ⟨by rw [List.length_cons]; omega, fun _ => Nat.lt_succ_self _⟩
    · have hle := ih (n / b) (n % b :: ds)
      rw [List.length_cons] at hle
      refine ⟨by omega, fun _ => ?_⟩
      by_cases hz : fuel = 0
      · subst hz
        exact Nat.lt_succ_self _
      · have := hle.2 hz
        omega

end LocalCache.Library.Numeral
