import LocalCache.Library.BigEndian
import LocalCache.Serializer

namespace LocalCache.WireFields

open LocalCache.Protocol LocalCache.Serializer LocalCache.Library

theorem appendU16_eq (out : Bytes) (v : UInt16) :
    appendU16 out v = out ++ BigEndian.bytes 2 v.toNat := by
  have h8 : (v >>> 8).toUInt8 = UInt8.ofNat (v.toNat / 256) := by
    apply UInt8.toNat_inj.mp
    simp [UInt16.toNat_shiftRight, Nat.shiftRight_eq_div_pow]
  have h0 : v.toUInt8 = UInt8.ofNat v.toNat := by
    apply UInt8.toNat_inj.mp
    simp
  simp only [appendU16, h8, h0, BigEndian.bytes, List.nil_append, List.append_assoc]

theorem appendU32_eq (out : Bytes) (v : UInt32) :
    appendU32 out v = out ++ BigEndian.bytes 4 v.toNat := by
  have hshift : ∀ k : UInt32, k.toNat < 32 →
      (v >>> k).toUInt8 = UInt8.ofNat (v.toNat / 2 ^ k.toNat) := by
    intro k hk
    apply UInt8.toNat_inj.mp
    simp [UInt32.toNat_shiftRight, Nat.shiftRight_eq_div_pow, Nat.mod_eq_of_lt hk]
  have h0 : v.toUInt8 = UInt8.ofNat v.toNat := by
    apply UInt8.toNat_inj.mp
    simp
  simp only [appendU32, BigEndian.bytes, List.nil_append, List.append_assoc,
    Nat.div_div_eq_div_mul]
  rw [hshift 24 (by decide), hshift 16 (by decide), hshift 8 (by decide), h0]
  rfl

theorem appendU64_eq (out : Bytes) (v : UInt64) :
    appendU64 out v = out ++ BigEndian.bytes 8 v.toNat := by
  have hshift : ∀ k : UInt64, k.toNat < 64 →
      (v >>> k).toUInt8 = UInt8.ofNat (v.toNat / 2 ^ k.toNat) := by
    intro k hk
    apply UInt8.toNat_inj.mp
    simp [UInt64.toNat_shiftRight, Nat.shiftRight_eq_div_pow, Nat.mod_eq_of_lt hk]
  simp only [appendU64, List.foldl_cons, List.foldl_nil, BigEndian.bytes, List.nil_append,
    List.append_assoc, Nat.div_div_eq_div_mul]
  rw [hshift 56 (by decide), hshift 48 (by decide), hshift 40 (by decide), hshift 32 (by decide),
    hshift 24 (by decide), hshift 16 (by decide), hshift 8 (by decide), hshift 0 (by decide)]
  simp

theorem toNat_readU16 (data : Bytes) (h : 2 ≤ data.length) :
    (readU16 data).toNat = BigEndian.value (data.take 2) := by
  match data, h with
  | a :: b :: rest, _ =>
    have ha : a.toNat < 256 := a.toNat_lt
    have hb : b.toNat < 2 ^ 8 := b.toNat_lt
    have hval : BigEndian.value [a, b] = a.toNat * 2 ^ 8 + b.toNat := by
      simp only [BigEndian.value, List.foldl_cons, List.foldl_nil]
      omega
    have ha' : a.toNat <<< 8 % 2 ^ 16 = a.toNat <<< 8 := by
      rw [Nat.shiftLeft_eq]; exact Nat.mod_eq_of_lt (by omega)
    change (a.toUInt16 <<< 8 ||| b.toUInt16).toNat = BigEndian.value [a, b]
    simp only [UInt16.toNat_or, UInt16.toNat_shiftLeft, UInt8.toNat_toUInt16]
    change a.toNat <<< 8 % 2 ^ 16 ||| b.toNat = _
    rw [hval, ha', ← Nat.shiftLeft_add_eq_or_of_lt hb, Nat.shiftLeft_eq]

theorem toNat_readU32 (data : Bytes) (h : 4 ≤ data.length) :
    (readU32 data).toNat = BigEndian.value (data.take 4) := by
  match data, h with
  | a :: b :: c :: d :: rest, _ =>
    have ha : a.toNat < 256 := a.toNat_lt
    have hb : b.toNat < 256 := b.toNat_lt
    have hc : c.toNat < 256 := c.toNat_lt
    have hd : d.toNat < 256 := d.toNat_lt
    have hcd : c.toNat <<< 8 ||| d.toNat = c.toNat * 2 ^ 8 + d.toNat := by
      rw [← Nat.shiftLeft_add_eq_or_of_lt (by omega), Nat.shiftLeft_eq]
    have hbcd : b.toNat <<< 16 ||| (c.toNat <<< 8 ||| d.toNat) =
        b.toNat * 2 ^ 16 + (c.toNat * 2 ^ 8 + d.toNat) := by
      rw [hcd, ← Nat.shiftLeft_add_eq_or_of_lt (by omega), Nat.shiftLeft_eq]
    have habcd : a.toNat <<< 24 ||| (b.toNat <<< 16 ||| (c.toNat <<< 8 ||| d.toNat)) =
        a.toNat * 2 ^ 24 + (b.toNat * 2 ^ 16 + (c.toNat * 2 ^ 8 + d.toNat)) := by
      rw [hbcd, ← Nat.shiftLeft_add_eq_or_of_lt (by omega), Nat.shiftLeft_eq]
    have hval : BigEndian.value [a, b, c, d] =
        a.toNat * 2 ^ 24 + (b.toNat * 2 ^ 16 + (c.toNat * 2 ^ 8 + d.toNat)) := by
      simp only [BigEndian.value, List.foldl_cons, List.foldl_nil]
      omega
    have ha' : a.toNat <<< 24 % 2 ^ 32 = a.toNat <<< 24 := by
      rw [Nat.shiftLeft_eq]; exact Nat.mod_eq_of_lt (by omega)
    have hb' : b.toNat <<< 16 % 2 ^ 32 = b.toNat <<< 16 := by
      rw [Nat.shiftLeft_eq]; exact Nat.mod_eq_of_lt (by omega)
    have hc' : c.toNat <<< 8 % 2 ^ 32 = c.toNat <<< 8 := by
      rw [Nat.shiftLeft_eq]; exact Nat.mod_eq_of_lt (by omega)
    change (a.toUInt32 <<< 24 ||| b.toUInt32 <<< 16 ||| c.toUInt32 <<< 8 ||| d.toUInt32).toNat =
      BigEndian.value [a, b, c, d]
    rw [hval, ← habcd]
    simp only [UInt32.toNat_or, UInt32.toNat_shiftLeft, UInt8.toNat_toUInt32]
    change a.toNat <<< 24 % 2 ^ 32 ||| b.toNat <<< 16 % 2 ^ 32 ||| c.toNat <<< 8 % 2 ^ 32 |||
      d.toNat = _
    rw [ha', hb', hc', Nat.or_assoc, Nat.or_assoc]

/-- One round of the loop in `readU64`; the accumulator never reaches the top byte. -/
theorem toNat_shift_or (v : UInt64) (b : UInt8) (h : v.toNat < 2 ^ 56) :
    (v <<< 8 ||| b.toUInt64).toNat = 256 * v.toNat + b.toNat := by
  have hb : b.toNat < 2 ^ 8 := b.toNat_lt
  have hm : v.toNat <<< 8 % 2 ^ 64 = v.toNat <<< 8 := by
    rw [Nat.shiftLeft_eq]; exact Nat.mod_eq_of_lt (by omega)
  simp only [UInt64.toNat_or, UInt64.toNat_shiftLeft, UInt8.toNat_toUInt64]
  change v.toNat <<< 8 % 2 ^ 64 ||| b.toNat = _
  rw [hm, ← Nat.shiftLeft_add_eq_or_of_lt hb, Nat.shiftLeft_eq]
  omega

theorem toNat_fold (bs : Bytes) (h : bs.length ≤ 8) :
    (bs.foldl (fun (v : UInt64) b => v <<< 8 ||| b.toUInt64) 0).toNat = BigEndian.value bs := by
  induction bs using List.reverseRecOn with
  | nil => rfl
  | append_singleton bs b ih =>
    have hl : bs.length ≤ 7 := by
      rw [List.length_append, List.length_singleton] at h
      omega
    have hlt : BigEndian.value bs < 2 ^ 56 := calc
      BigEndian.value bs < 256 ^ bs.length := BigEndian.value_lt bs
      _ ≤ 256 ^ 7 := Nat.pow_le_pow_right (by omega) hl
      _ = 2 ^ 56 := by norm_num
    have hv := ih (by omega)
    rw [List.foldl_append, List.foldl_cons, List.foldl_nil,
      toNat_shift_or _ _ (by rw [hv]; exact hlt),
      hv, BigEndian.value_concat]

theorem toNat_readU64 (data : Bytes) (h : 8 ≤ data.length) :
    (readU64 data).toNat = BigEndian.value (data.take 8) := by
  match data, h with
  | a :: b :: c :: d :: e :: f :: g :: i :: rest, _ =>
    exact toNat_fold [a, b, c, d, e, f, g, i] (by simp)

theorem bytes_readU32 (data : Bytes) (h : 4 ≤ data.length) :
    BigEndian.bytes 4 (readU32 data).toNat = data.take 4 := by
  have hb := BigEndian.bytes_value (data.take 4)
  rwa [List.length_take, Nat.min_eq_left h, ← toNat_readU32 data h] at hb

theorem bytes_readU64 (data : Bytes) (h : 8 ≤ data.length) :
    BigEndian.bytes 8 (readU64 data).toNat = data.take 8 := by
  have hb := BigEndian.bytes_value (data.take 8)
  rwa [List.length_take, Nat.min_eq_left h, ← toNat_readU64 data h] at hb

theorem readU32_bytes (v : UInt32) (rest : Bytes) :
    readU32 (BigEndian.bytes 4 v.toNat ++ rest) = v := by
  have hlt : v.toNat < 256 ^ 4 := v.toNat_lt
  apply UInt32.toNat_inj.mp
  rw [toNat_readU32 _ (by simp), List.take_append_of_le_length (by simp),
    List.take_of_length_le (by simp), BigEndian.value_bytes_of_lt hlt]

theorem readU64_bytes (v : UInt64) (rest : Bytes) :
    readU64 (BigEndian.bytes 8 v.toNat ++ rest) = v := by
  have hlt : v.toNat < 256 ^ 8 := v.toNat_lt
  apply UInt64.toNat_inj.mp
  rw [toNat_readU64 _ (by simp), List.take_append_of_le_length (by simp),
    List.take_of_length_le (by simp), BigEndian.value_bytes_of_lt hlt]

end LocalCache.WireFields
