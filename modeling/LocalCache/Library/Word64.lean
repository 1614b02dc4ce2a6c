import Mathlib.Data.Nat.Basic
import Mathlib.Algebra.Group.Nat.Defs

namespace LocalCache.Library.Word64

def size : Nat := 2 ^ 64

/-- Sum of two 64-bit words, with the wraparound written as a case split. -/
def add (a b : Nat) : Nat := if a + b < size then a + b else a + b - size

def sub (a b : Nat) : Nat := if b ≤ a then a - b else size + a - b

def mul (a b : Nat) : Nat := (a * b) % size

theorem add_of_lt {a b : Nat} (h : a + b < size) : add a b = a + b := if_pos h

theorem add_zero {a : Nat} (h : a < size) : add a 0 = a := add_of_lt h

theorem add_lt {a b : Nat} (ha : a < size) (hb : b < size) : add a b < size := by
  unfold add
  split <;> omega

theorem add_add {a b c : Nat} (ha : a < size) (hbc : b + c < size) :
    add (add a b) c = add a (b + c) := by
  unfold add
  split <;> split <;> split <;> omega

theorem ofNat_add (a b : Nat) : UInt64.ofNat (add a b) = UInt64.ofNat a + UInt64.ofNat b := by
  have hsize : size = 18446744073709551616 := rfl
  apply UInt64.toNat_inj.mp
  rw [← UInt64.ofNat_add, UInt64.toNat_ofNat', UInt64.toNat_ofNat']
  unfold add
  split <;> omega

theorem sub_of_le {a b : Nat} (h : b ≤ a) : sub a b = a - b := if_pos h

theorem ofNat_inj_of_lt {k m : Nat} (hk : k < UInt64.size) (hm : m < UInt64.size)
    (h : UInt64.ofNat k = UInt64.ofNat m) : k = m :=
  calc
    k = (UInt64.ofNat k).toNat := (UInt64.toNat_ofNat_of_lt hk).symm
    _ = (UInt64.ofNat m).toNat := congrArg UInt64.toNat h
    _ = m := UInt64.toNat_ofNat_of_lt hm

end LocalCache.Library.Word64
