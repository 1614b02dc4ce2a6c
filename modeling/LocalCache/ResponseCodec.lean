import LocalCache.RequestCodec

namespace LocalCache.ResponseCodec

open LocalCache.Protocol LocalCache.Serializer LocalCache.HeaderCodec
open LocalCache.RequestCodec (toNat_effectiveLimit toNat_ofNat_length)

def responseHeader (input : Bytes) (limits : Limits) : Except ParseError Header :=
  match decodeCommonHeader input with
  | .error error => .error error
  | .ok header =>
    if !isValidStatus header.status then .error .kInvalidStatus
    else if header.keyLen ≠ 0 then .error .kPayloadNotAllowed
    else if header.valueLen > effectiveLimit limits.maxValueBytes kMaxValueBytes then
      .error .kValueTooLarge
    else .ok header

def frameSize (h : Header) : Nat := kHeaderSize + h.valueLen.toNat

def payloadResponse (h : Header) (input : Bytes) : Response where
  opcode := Opcode.ofRaw h.opcode
  status := Status.ofRaw h.status
  requestId := h.requestId
  value := (input.drop kHeaderSize).take h.valueLen.toNat

structure Admissible (h : Header) (limits : Limits) : Prop where
  status : isValidStatus h.status = true
  key_zero : h.keyLen = 0
  value_le : h.valueLen.toNat ≤ min limits.maxValueBytes.toNat kMaxValueBytes.toNat

theorem responseHeader_ok_iff (input : Bytes) (limits : Limits) (h : Header) :
    responseHeader input limits = .ok h ↔
      decodeCommonHeader input = .ok h ∧ Admissible h limits := by
  unfold responseHeader
  cases hd : decodeCommonHeader input with
  | error error => simp
  | ok g =>
    have hv := toNat_effectiveLimit limits.maxValueBytes kMaxValueBytes
    simp only [gt_iff_lt, UInt32.lt_iff_toNat_lt, hv]
    constructor
    · intro he
      split at he
      · cases he
      · split at he
        · cases he
        · split at he
          · cases he
          · cases he
            refine ⟨rfl, ⟨?_, ?_, ?_⟩⟩ <;> simp_all
    · rintro ⟨he, ha⟩
      cases he
      have hle := ha.value_le
      rw [if_neg (by simp [ha.status]), if_neg (by simp [ha.key_zero]), if_neg (by omega)]

theorem deserializeResponse_cases (input : Bytes) (limits : Limits) (out : Response) :
    (input.length < kHeaderSize ∧ deserializeResponse input limits out = (.needMore, out)) ∨
    (kHeaderSize ≤ input.length ∧ ∃ error, responseHeader input limits = .error error ∧
      deserializeResponse input limits out = (.malformed error, out)) ∨
    (kHeaderSize ≤ input.length ∧ ∃ h, responseHeader input limits = .ok h ∧
      input.length < frameSize h ∧ deserializeResponse input limits out = (.needMore, out)) ∨
    (kHeaderSize ≤ input.length ∧ ∃ h, responseHeader input limits = .ok h ∧
      frameSize h ≤ input.length ∧
      deserializeResponse input limits out =
        (.complete (frameSize h), payloadResponse h input)) := by
  unfold deserializeResponse responseHeader
  by_cases hl : input.length < kHeaderSize
  · exact .inl ⟨hl, by rw [if_pos hl]⟩
  have hl' : kHeaderSize ≤ input.length := Nat.le_of_not_lt hl
  rw [if_neg hl]
  cases hd : decodeCommonHeader input with
  | error error => exact .inr (.inl ⟨hl', error, rfl, rfl⟩)
  | ok h =>
    dsimp only
    by_cases h1 : (!isValidStatus h.status) = true
    · rw [if_pos h1, if_pos h1]
      exact .inr (.inl ⟨hl', _, rfl, rfl⟩)
    rw [if_neg h1, if_neg h1]
    by_cases h2 : h.keyLen ≠ 0
    · rw [if_pos h2, if_pos h2]
      exact .inr (.inl ⟨hl', _, rfl, rfl⟩)
    rw [if_neg h2, if_neg h2]
    by_cases h3 : h.valueLen > effectiveLimit limits.maxValueBytes kMaxValueBytes
    · rw [if_pos h3, if_pos h3]
      exact .inr (.inl ⟨hl', _, rfl, rfl⟩)
    rw [if_neg h3, if_neg h3]
    by_cases hf : input.length < kHeaderSize + h.valueLen.toNat
    · rw [if_pos hf]
      exact .inr (.inr (.inl ⟨hl', h, rfl, hf, rfl⟩))
    · rw [if_neg hf]
      exact .inr (.inr (.inr ⟨hl', h, rfl, Nat.le_of_not_lt hf, rfl⟩))

def headerOf (r : Response) : Header where
  opcode := r.opcode.raw
  status := r.status.raw
  requestId := r.requestId
  keyLen := 0
  valueLen := UInt32.ofNat r.value.length

theorem serializeResponse_eq (r : Response) :
    serializeResponse r = encodeHeader [] (headerOf r) ++ r.value := by
  simp only [serializeResponse, serializeResponseInto, appendBytes, headerOf]

theorem length_serializeResponse (r : Response) :
    (serializeResponse r).length = kHeaderSize + r.value.length := by
  rw [serializeResponse_eq, List.length_append, length_encodeHeader]

theorem deserializeResponse_serialize {r : Response} {limits : Limits}
    (hv : r.value.length ≤ min limits.maxValueBytes.toNat kMaxValueBytes.toNat) (rest : Bytes)
    (out : Response) :
    deserializeResponse (serializeResponse r ++ rest) limits out =
      (.complete (kHeaderSize + r.value.length), r) := by
  have hlen : (serializeResponse r ++ rest).length =
      kHeaderSize + r.value.length + rest.length := by
    rw [List.length_append, length_serializeResponse]
  have hd : decodeCommonHeader (serializeResponse r ++ rest) = .ok (headerOf r) := by
    rw [serializeResponse_eq, List.append_assoc]
    exact decodeCommonHeader_encode (headerOf r) _ rfl (isValidOpcode_raw _) rfl
  have hw : (headerOf r).valueLen.toNat = r.value.length := toNat_ofNat_length hv
  have ha : Admissible (headerOf r) limits := ⟨isValidStatus_raw _, rfl, by rw [hw]; exact hv⟩
  have hs : frameSize (headerOf r) = kHeaderSize + r.value.length := by rw [frameSize, hw]
  have hh := (responseHeader_ok_iff _ limits _).mpr ⟨hd, ha⟩
  have hp : payloadResponse (headerOf r) (serializeResponse r ++ rest) = r := by
    have hdrop : (serializeResponse r ++ rest).drop kHeaderSize = r.value ++ rest := by
      rw [serializeResponse_eq, List.append_assoc, List.drop_left' (length_encodeHeader _)]
    unfold payloadResponse
    rw [hdrop, hw, List.take_left]
    simp only [headerOf, opcode_ofRaw_raw, status_ofRaw_raw]
  obtain ⟨hl, -⟩ | ⟨-, e, he, -⟩ | ⟨-, h, he, hf, -⟩ | ⟨-, h, he, -, hr⟩ :=
    deserializeResponse_cases (serializeResponse r ++ rest) limits out
  · omega
  · rw [hh] at he
    cases he
  · rw [hh] at he
    cases he
    omega
  · rw [hh] at he
    cases he
    rw [hr, hs, hp]

theorem serializeResponse_inj {r q : Response} (hr : r.value.length ≤ kMaxValueBytes.toNat)
    (hq : q.value.length ≤ kMaxValueBytes.toNat) {y z : Bytes}
    (h : serializeResponse r ++ y = serializeResponse q ++ z) : r = q := by
  have hread : ∀ p : Response, p.value.length ≤ kMaxValueBytes.toNat → ∀ rest,
      (deserializeResponse (serializeResponse p ++ rest) ⟨kMaxKeyBytes, kMaxValueBytes⟩ {}).2 =
        p := by
    intro p hp rest
    rw [deserializeResponse_serialize (by rw [Nat.min_self]; exact hp)]
  rw [← hread r hr y, h, hread q hq z]

theorem responseHeader_append {x : Bytes} (y : Bytes) (limits : Limits)
    (hl : kHeaderSize ≤ x.length) : responseHeader (x ++ y) limits = responseHeader x limits := by
  unfold responseHeader
  rw [decodeCommonHeader_append y hl]

theorem deserializeResponse_prefix {rs : List Response} {x : Bytes} {limits : Limits}
    {out : Response}
    (hv : ∀ r ∈ rs, r.value.length ≤ min limits.maxValueBytes.toNat kMaxValueBytes.toNat)
    (hx : x <+: rs.flatMap serializeResponse) :
    (deserializeResponse x limits out).1.status ≠ .kMalformed := by
  obtain ⟨-, hd⟩ | ⟨hl, e, he, -⟩ | ⟨-, g, -, -, hd⟩ | ⟨-, g, -, -, hd⟩ :=
    deserializeResponse_cases x limits out
  · rw [hd]
    simp [ParseResult.needMore]
  · -- The header would be refused in the whole stream as well, which begins with a frame.
    obtain ⟨y, hy⟩ := hx
    have hbad : responseHeader (x ++ y) limits = .error e := by
      rw [responseHeader_append y limits hl, he]
    cases rs with
    | nil =>
      rw [List.flatMap_nil, List.append_eq_nil_iff] at hy
      rw [hy.1] at hl
      cases hl
    | cons r rs =>
      rw [hy, List.flatMap_cons] at hbad
      have hread := deserializeResponse_serialize (hv r (List.mem_cons_self ..))
        (rs.flatMap serializeResponse) out
      obtain ⟨-, hd⟩ | ⟨-, e', -, hd⟩ | ⟨-, g, hg, -⟩ | ⟨-, g, hg, -⟩ :=
        deserializeResponse_cases (serializeResponse r ++ rs.flatMap serializeResponse) limits out
      · rw [hd] at hread
        cases hread
      · rw [hd] at hread
        cases hread
      · rw [hg] at hbad
        cases hbad
      · rw [hg] at hbad
        cases hbad
  · rw [hd]
    simp [ParseResult.needMore]
  · rw [hd]
    simp [ParseResult.complete]

/-- What the parser returns stands at the head of its input as a well-formed frame. -/
theorem deserializeResponse_complete {input : Bytes} {limits : Limits} {out r : Response}
    {result : ParseResult} (h : deserializeResponse input limits out = (result, r))
    (hc : result.status = .kComplete) :
    (∃ rest, input = serializeResponse r ++ rest) ∧
      result = .complete (kHeaderSize + r.value.length) ∧
      r.value.length ≤ min limits.maxValueBytes.toNat kMaxValueBytes.toNat := by
  obtain ⟨-, hd⟩ | ⟨-, e, -, hd⟩ | ⟨-, g, -, -, hd⟩ | ⟨hl, g, hg, hf, hd⟩ :=
    deserializeResponse_cases input limits out
  · rw [hd] at h
    cases h
    cases hc
  · rw [hd] at h
    cases h
    cases hc
  · rw [hd] at h
    cases h
    cases hc
  rw [hd] at h
  cases h
  obtain ⟨hdec, ha⟩ := (responseHeader_ok_iff input limits g).mp hg
  obtain ⟨hv, ho, hfl, hin⟩ := encodeHeader_decode hl hdec
  have hw : (payloadResponse g input).value.length = g.valueLen.toNat := by
    unfold frameSize at hf
    simp only [payloadResponse, List.length_take, List.length_drop]
    omega
  have he : headerOf (payloadResponse g input) = g := by
    have hraw : (payloadResponse g input).opcode.raw = g.opcode := opcode_raw_ofRaw ho
    have hst : (payloadResponse g input).status.raw = g.status := status_raw_ofRaw ha.status
    have hk := ha.key_zero
    unfold headerOf
    rw [hw, hraw, hst, UInt32.ofNat_toNat]
    cases g
    cases hv
    cases hfl
    cases hk
    rfl
  refine ⟨⟨input.drop (frameSize g), ?_⟩, by rw [hw]; rfl, hw ▸ ha.value_le⟩
  rw [serializeResponse_eq, he, List.append_assoc]
  have hsplit : input.drop kHeaderSize =
      (payloadResponse g input).value ++ input.drop (frameSize g) := by
    simp only [payloadResponse, frameSize]
    rw [← List.drop_drop, List.take_append_drop]
  rw [← hsplit]
  exact hin

/-- The parser returns a response exactly when its input begins with the one encoding of it and
the value is within the limits. -/
theorem deserializeResponse_complete_iff (input : Bytes) (limits : Limits) (out r : Response)
    (n : Nat) :
    ((deserializeResponse input limits out).1.status = .kComplete ∧
      (deserializeResponse input limits out).1.consumed = n ∧
      (deserializeResponse input limits out).2 = r) ↔
    (∃ rest, input = serializeResponse r ++ rest) ∧ n = 24 + r.value.length ∧
      isValidOpcode r.opcode.raw = true ∧ isValidStatus r.status.raw = true ∧
      r.value.length ≤ min limits.maxValueBytes.toNat (64 * 1024 * 1024) := by
  have hmax : kMaxValueBytes.toNat = 64 * 1024 * 1024 := rfl
  rw [← hmax]
  constructor
  · cases hd : deserializeResponse input limits out with
    | mk result q =>
      rintro ⟨hc, rfl, rfl⟩
      obtain ⟨hrest, hresult, hle⟩ := deserializeResponse_complete hd hc
      exact ⟨hrest, by rw [hresult]; rfl, isValidOpcode_raw _, isValidStatus_raw _, hle⟩
  · rintro ⟨⟨rest, hin⟩, hn, -, -, hle⟩
    rw [hin, deserializeResponse_serialize hle, hn]
    exact ⟨rfl, rfl, rfl⟩

end LocalCache.ResponseCodec
