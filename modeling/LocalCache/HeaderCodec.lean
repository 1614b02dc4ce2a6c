import LocalCache.WireFields

namespace LocalCache.HeaderCodec

open LocalCache.Protocol LocalCache.Serializer LocalCache.WireFields LocalCache.Library

theorem encodeHeader_eq (out : Bytes) (h : Header) :
    encodeHeader out h = out ++ (BigEndian.bytes 4 kMagic.toNat ++
      ([h.version, h.opcode, h.flags, h.status] ++ (BigEndian.bytes 8 h.requestId.toNat ++
        (BigEndian.bytes 4 h.keyLen.toNat ++ BigEndian.bytes 4 h.valueLen.toNat)))) := by
  simp only [encodeHeader, appendU8, appendU32_eq, appendU64_eq, List.append_assoc,
    List.cons_append, List.nil_append]

theorem length_encodeHeader (h : Header) : (encodeHeader [] h).length = kHeaderSize := by
  rw [encodeHeader_eq]
  simp [kHeaderSize]

theorem readU8_cons_drop (data : Bytes) (h : 0 < data.length) :
    data = readU8 data :: data.drop 1 := by
  cases data with
  | nil => simp at h
  | cons b rest => rfl

theorem byteAt_append {x : Bytes} (y : Bytes) {i : Nat} (h : i < x.length) :
    byteAt (x ++ y) i = byteAt x i := by
  simp only [byteAt, List.getD_eq_getElem?_getD, List.getElem?_append_left h]

theorem readU32_append {x : Bytes} (y : Bytes) (h : 4 ≤ x.length) :
    readU32 (x ++ y) = readU32 x := by
  simp only [readU32, byteAt_append y (show 0 < x.length by omega),
    byteAt_append y (show 1 < x.length by omega), byteAt_append y (show 2 < x.length by omega),
    byteAt_append y (show 3 < x.length by omega)]

theorem readU64_append {x : Bytes} (y : Bytes) (h : 8 ≤ x.length) :
    readU64 (x ++ y) = readU64 x := by
  apply UInt64.toNat_inj.mp
  rw [toNat_readU64 _ (by rw [List.length_append]; omega), toNat_readU64 _ h,
    List.take_append_of_le_length h]

theorem decodeCommonHeader_append {x : Bytes} (y : Bytes) (h : kHeaderSize ≤ x.length) :
    decodeCommonHeader (x ++ y) = decodeCommonHeader x := by
  have h' : 24 ≤ x.length := h
  have hd : ∀ k, k ≤ 20 → (x ++ y).drop k = x.drop k ++ y :=
    fun k hk => List.drop_append_of_le_length (by omega)
  have h8 : ∀ k, k ≤ 20 → readU8 ((x ++ y).drop k) = readU8 (x.drop k) := by
    intro k hk
    rw [hd k hk]
    exact byteAt_append y (by rw [List.length_drop]; omega)
  have h32 : ∀ k, k ≤ 20 → readU32 ((x ++ y).drop k) = readU32 (x.drop k) := by
    intro k hk
    rw [hd k hk]
    exact readU32_append y (by rw [List.length_drop]; omega)
  have h64 : readU64 ((x ++ y).drop 8) = readU64 (x.drop 8) := by
    rw [hd 8 (by omega)]
    exact readU64_append y (by rw [List.length_drop]; omega)
  unfold decodeCommonHeader
  rw [readU32_append y (by omega), h8 4 (by omega), h8 5 (by omega), h8 6 (by omega),
    h8 7 (by omega), h64, h32 16 (by omega), h32 20 (by omega)]

theorem fields_append (input : Bytes) (hl : kHeaderSize ≤ input.length) :
    input = BigEndian.bytes 4 (readU32 input).toNat ++
      ([readU8 (input.drop 4), readU8 (input.drop 5), readU8 (input.drop 6),
        readU8 (input.drop 7)] ++ (BigEndian.bytes 8 (readU64 (input.drop 8)).toNat ++
        (BigEndian.bytes 4 (readU32 (input.drop 16)).toNat ++
          (BigEndian.bytes 4 (readU32 (input.drop 20)).toNat ++ input.drop 24)))) := by
  have hl' : 24 ≤ input.length := hl
  have hlen : ∀ k, (input.drop k).length = input.length - k := fun k => List.length_drop
  have hbyte : ∀ k, k < 24 →
      input.drop k = readU8 (input.drop k) :: input.drop (k + 1) := by
    intro k hk
    have hc := readU8_cons_drop (input.drop k) (by rw [hlen]; omega)
    rwa [List.drop_drop] at hc
  have hsplit : ∀ k n, (input.drop k).take n ++ input.drop (k + n) = input.drop k := by
    intro k n
    rw [← List.drop_drop]
    exact List.take_append_drop n (input.drop k)
  rw [bytes_readU32 input (by omega), bytes_readU64 _ (by rw [hlen]; omega),
    bytes_readU32 (input.drop 16) (by rw [hlen]; omega),
    bytes_readU32 (input.drop 20) (by rw [hlen]; omega),
    hsplit 20 4, hsplit 16 4, hsplit 8 8]
  simp only [List.cons_append, List.nil_append]
  rw [← hbyte 7 (by omega), ← hbyte 6 (by omega), ← hbyte 5 (by omega), ← hbyte 4 (by omega),
    List.take_append_drop]

theorem encodeHeader_decode {input : Bytes} {h : Header} (hl : kHeaderSize ≤ input.length)
    (hd : decodeCommonHeader input = .ok h) :
    h.version = kVersion ∧ isValidOpcode h.opcode = true ∧ h.flags = 0 ∧
      input = encodeHeader [] h ++ input.drop kHeaderSize := by
  unfold decodeCommonHeader at hd
  split at hd
  · cases hd
  · rename_i hmagic
    split at hd
    · cases hd
    · rename_i hversion
      split at hd
      · cases hd
      · rename_i hopcode
        split at hd
        · cases hd
        · rename_i hflags
          cases hd
          simp only [ne_eq, not_not] at hmagic hversion hflags
          refine ⟨hversion, by simpa using hopcode, hflags, ?_⟩
          have hf := fields_append input hl
          rw [hmagic] at hf
          rw [encodeHeader_eq]
          simpa only [List.append_assoc, List.nil_append, kHeaderSize] using hf

theorem decodeCommonHeader_encode (h : Header) (rest : Bytes) (hv : h.version = kVersion)
    (ho : isValidOpcode h.opcode = true) (hf : h.flags = 0) :
    decodeCommonHeader (encodeHeader [] h ++ rest) = .ok h := by
  let lengths := BigEndian.bytes 4 h.keyLen.toNat ++ (BigEndian.bytes 4 h.valueLen.toNat ++ rest)
  let ids := BigEndian.bytes 8 h.requestId.toNat ++ lengths
  let input := encodeHeader [] h ++ rest
  have heq : input = BigEndian.bytes 4 kMagic.toNat ++
      (h.version :: h.opcode :: h.flags :: h.status :: ids) := by
    simp only [input, ids, lengths, encodeHeader_eq, List.nil_append, List.append_assoc,
      List.cons_append]
  have h4 : input.drop 4 = h.version :: h.opcode :: h.flags :: h.status :: ids := by
    rw [heq, List.drop_left' (BigEndian.length_bytes 4 _)]
  have h8 : input.drop 8 = ids := by
    rw [show 8 = 4 + 4 from rfl, ← List.drop_drop, h4]
    rfl
  have h16 : input.drop 16 = lengths := by
    rw [show 16 = 8 + 8 from rfl, ← List.drop_drop, h8,
      List.drop_left' (BigEndian.length_bytes 8 _)]
  have h20 : input.drop 20 = BigEndian.bytes 4 h.valueLen.toNat ++ rest := by
    rw [show 20 = 16 + 4 from rfl, ← List.drop_drop, h16,
      List.drop_left' (BigEndian.length_bytes 4 _)]
  have hmagic : readU32 input = kMagic := by rw [heq, readU32_bytes]
  have h5 : readU8 (input.drop 5) = h.opcode := by
    rw [show 5 = 4 + 1 from rfl, ← List.drop_drop, h4]
    rfl
  have h6 : readU8 (input.drop 6) = h.flags := by
    rw [show 6 = 4 + 2 from rfl, ← List.drop_drop, h4]
    rfl
  have h7 : readU8 (input.drop 7) = h.status := by
    rw [show 7 = 4 + 3 from rfl, ← List.drop_drop, h4]
    rfl
  have hversion : readU8 (input.drop 4) = h.version := by rw [h4]; rfl
  change decodeCommonHeader input = .ok h
  unfold decodeCommonHeader
  rw [hmagic, hversion, h5, h6, h7, h8, h16, h20, readU64_bytes, readU32_bytes, readU32_bytes,
    if_neg (by simp), if_neg (by simp [hv]), if_neg (by simp [ho]), if_neg (by simp [hf])]

end LocalCache.HeaderCodec
