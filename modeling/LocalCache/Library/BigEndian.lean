import Mathlib.Data.List.Induction
import Mathlib.Tactic.Ring

namespace LocalCache.Library.BigEndian

def value (bs : List UInt8) : Nat := bs.foldl (fun acc b => 256 * acc + b.toNat) 0

def bytes : Nat → Nat → List UInt8
  | 0, _ => []
  | w + 1, n => bytes w (n / 256) ++ [UInt8.ofNat n]

theorem value_concat (bs : List UInt8) (b : UInt8) :
    value (bs ++ [b]) = 256 * value bs + b.toNat := by
  simp only [value, List.foldl_append, List.foldl_cons, List.foldl_nil]

@[simp] theorem length_bytes (w n : Nat) : (bytes w n).length = w := by
  induction w generalizing n with
  | zero => rfl
  | succ w ih => simp only [bytes, List.length_append, ih, List.length_singleton]

theorem value_bytes (w n : Nat) : value (bytes w n) = n % 256 ^ w := by
  induction w generalizing n with
  | zero => simp [bytes, value, Nat.mod_one]
  | succ w ih =>
    have hm := Nat.mod_mul (x := n) (a := 256) (b := 256 ^ w)
    rw [bytes, value_concat, ih, UInt8.toNat_ofNat', Nat.pow_succ' (n := w), hm]
    omega

theorem value_bytes_of_lt {w n : Nat} (h : n < 256 ^ w) : value (bytes w n) = n := by
  rw [value_bytes, Nat.mod_eq_of_lt h]

theorem value_lt (bs : List UInt8) : value bs < 256 ^ bs.length := by
  induction bs using List.reverseRecOn with
  | nil => simp [value]
  | append_singleton bs b ih =>
    have hb : b.toNat < 256 := b.toNat_lt
    rw [value_concat, List.length_append, List.length_singleton, pow_succ]
    omega

/-- Encoding is canonical: the bytes are recovered from their value and number. -/
theorem bytes_value (bs : List UInt8) : bytes bs.length (value bs) = bs := by
  induction bs using List.reverseRecOn with
  | nil => rfl
  | append_singleton bs b ih =>
    have hb : b.toNat < 256 := b.toNat_lt
    have hd : (256 * value bs + b.toNat) / 256 = value bs := by omega
    have hl : UInt8.ofNat (256 * value bs + b.toNat) = b := by
      apply UInt8.toNat_inj.mp
      rw [UInt8.toNat_ofNat']
      omega
    rw [List.length_append, List.length_singleton, bytes, value_concat, hd, hl, ih]

end LocalCache.Library.BigEndian
