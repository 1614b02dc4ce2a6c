import LocalCache.HeaderCodec

namespace LocalCache.RequestCodec

open LocalCache.Protocol LocalCache.Serializer LocalCache.HeaderCodec

/-- The part of `deserializeRequest` that looks at the header only. Its verdict
is final: no later byte of the stream can change it. -/
def requestHeader (input : Bytes) (limits : Limits) : Except ParseError Header :=
  match decodeCommonHeader input with
  | .error error => .error error
  | .ok header =>
    if header.status ≠ 0 then .error .kInvalidStatus
    else if header.keyLen > effectiveLimit limits.maxKeyBytes kMaxKeyBytes then
      .error .kKeyTooLarge
    else if header.valueLen > effectiveLimit limits.maxValueBytes kMaxValueBytes then
      .error .kValueTooLarge
    else if opcodeRequiresKey (Opcode.ofRaw header.opcode) && header.keyLen = 0 then
      .error .kMissingKey
    else if !opcodeRequiresKey (Opcode.ofRaw header.opcode) && header.keyLen ≠ 0 then
      .error .kPayloadNotAllowed
    else if !opcodeAllowsValue (Opcode.ofRaw header.opcode) && header.valueLen ≠ 0 then
      .error .kPayloadNotAllowed
    else .ok header

def frameSize (h : Header) : Nat := kHeaderSize + h.keyLen.toNat + h.valueLen.toNat

def payloadRequest (h : Header) (input : Bytes) : Request where
  opcode := Opcode.ofRaw h.opcode
  requestId := h.requestId
  key := (input.drop kHeaderSize).take h.keyLen.toNat
  value := ((input.drop kHeaderSize).drop h.keyLen.toNat).take h.valueLen.toNat

theorem toNat_effectiveLimit (a b : UInt32) :
    (effectiveLimit a b).toNat = min a.toNat b.toNat := by
  unfold effectiveLimit
  split
  · rename_i h
    exact (Nat.min_eq_right (Nat.le_of_lt (UInt32.lt_iff_toNat_lt.mp h))).symm
  · rename_i h
    exact (Nat.min_eq_left (Nat.le_of_not_lt (fun hlt => h (UInt32.lt_iff_toNat_lt.mpr hlt)))).symm

structure Admissible (h : Header) (limits : Limits) : Prop where
  status : h.status = 0
  key_le : h.keyLen.toNat ≤ min limits.maxKeyBytes.toNat kMaxKeyBytes.toNat
  value_le : h.valueLen.toNat ≤ min limits.maxValueBytes.toNat kMaxValueBytes.toNat
  key_pos : opcodeRequiresKey (Opcode.ofRaw h.opcode) = true → h.keyLen ≠ 0
  key_zero : opcodeRequiresKey (Opcode.ofRaw h.opcode) = false → h.keyLen = 0
  value_zero : opcodeAllowsValue (Opcode.ofRaw h.opcode) = false → h.valueLen = 0

theorem requestHeader_ok_iff (input : Bytes) (limits : Limits) (h : Header) :
    requestHeader input limits = .ok h ↔
      decodeCommonHeader input = .ok h ∧ Admissible h limits := by
  unfold requestHeader
  cases hd : decodeCommonHeader input with
  | error error => simp
  | ok g =>
    have hk := toNat_effectiveLimit limits.maxKeyBytes kMaxKeyBytes
    have hv := toNat_effectiveLimit limits.maxValueBytes kMaxValueBytes
    simp only [gt_iff_lt, UInt32.lt_iff_toNat_lt, hk, hv]
    constructor
    · intro he
      split at he
      · cases he
      · split at he
        · cases he
        · split at he
          · cases he
          · split at he
            · cases he
            · split at he
              · cases he
              · split at he
                · cases he
                · cases he
                  refine ⟨rfl, ⟨?_, ?_, ?_, ?_, ?_, ?_⟩⟩ <;> simp_all
    · rintro ⟨he, ha⟩
      cases he
      have h1 := ha.key_le
      have h2 := ha.value_le
      rw [if_neg (by simp [ha.status]), if_neg (by omega), if_neg (by omega)]
      cases hr : opcodeRequiresKey (Opcode.ofRaw h.opcode) with
      | true =>
        cases hw : opcodeAllowsValue (Opcode.ofRaw h.opcode) with
        | true => simp [ha.key_pos hr]
        | false => simp [ha.key_pos hr, ha.value_zero hw]
      | false =>
        cases hw : opcodeAllowsValue (Opcode.ofRaw h.opcode) with
        | true => simp [ha.key_zero hr]
        | false => simp [ha.key_zero hr, ha.value_zero hw]

theorem frameSize_le {h : Header} {limits : Limits} (ha : Admissible h limits) :
    frameSize h ≤ kHeaderSize + min limits.maxKeyBytes.toNat kMaxKeyBytes.toNat +
      min limits.maxValueBytes.toNat kMaxValueBytes.toNat := by
  have h1 := ha.key_le
  have h2 := ha.value_le
  unfold frameSize
  omega

/-- The parser is a length test, a verdict on the header and a second length
test. The check against `kMaxFrameBytes` never fires. -/
theorem deserializeRequest_eq (input : Bytes) (limits : Limits) (out : Request) :
    deserializeRequest input limits out =
      if input.length < kHeaderSize then (.needMore, out)
      else match requestHeader input limits with
        | .error error => (.malformed error, out)
        | .ok h =>
          if input.length < frameSize h then (.needMore, out)
          else (.complete (frameSize h), payloadRequest h input) := by
  have hf : ∀ h, requestHeader input limits = .ok h → ¬ frameSize h > kMaxFrameBytes := by
    intro h hh
    have hle := frameSize_le ((requestHeader_ok_iff input limits h).mp hh).2
    have hmax : kMaxFrameBytes = kHeaderSize + kMaxKeyBytes.toNat + kMaxValueBytes.toNat := rfl
    omega
  unfold deserializeRequest
  by_cases hl : input.length < kHeaderSize
  · rw [if_pos hl, if_pos hl]
  rw [if_neg hl, if_neg hl]
  unfold requestHeader at hf ⊢
  cases hd : decodeCommonHeader input with
  | error error => rfl
  | ok h =>
    rw [hd] at hf
    dsimp only at hf ⊢
    by_cases h1 : h.status ≠ 0
    · rw [if_pos h1, if_pos h1]
    rw [if_neg h1, if_neg h1]
    by_cases h2 : h.keyLen > effectiveLimit limits.maxKeyBytes kMaxKeyBytes
    · rw [if_pos h2, if_pos h2]
    rw [if_neg h2, if_neg h2]
    by_cases h3 : h.valueLen > effectiveLimit limits.maxValueBytes kMaxValueBytes
    · rw [if_pos h3, if_pos h3]
    rw [if_neg h3, if_neg h3]
    by_cases h4 : (opcodeRequiresKey (Opcode.ofRaw h.opcode) && h.keyLen = 0) = true
    · rw [if_pos h4, if_pos h4]
    rw [if_neg h4, if_neg h4]
    by_cases h5 : (!opcodeRequiresKey (Opcode.ofRaw h.opcode) && h.keyLen ≠ 0) = true
    · rw [if_pos h5, if_pos h5]
    rw [if_neg h5, if_neg h5]
    by_cases h6 : (!opcodeAllowsValue (Opcode.ofRaw h.opcode) && h.valueLen ≠ 0) = true
    · rw [if_pos h6, if_pos h6]
    rw [if_neg h6, if_neg h6]
    have hmax : ¬ kHeaderSize + h.keyLen.toNat + h.valueLen.toNat > kMaxFrameBytes :=
      hf h (by rw [if_neg h1, if_neg h2, if_neg h3, if_neg h4, if_neg h5, if_neg h6])
    rw [if_neg hmax]
    rfl

theorem deserializeRequest_cases (input : Bytes) (limits : Limits) (out : Request) :
    (input.length < kHeaderSize ∧ deserializeRequest input limits out = (.needMore, out)) ∨
    (kHeaderSize ≤ input.length ∧ ∃ error, requestHeader input limits = .error error ∧
      deserializeRequest input limits out = (.malformed error, out)) ∨
    (kHeaderSize ≤ input.length ∧ ∃ h, requestHeader input limits = .ok h ∧
      input.length < frameSize h ∧ deserializeRequest input limits out = (.needMore, out)) ∨
    (kHeaderSize ≤ input.length ∧ ∃ h, requestHeader input limits = .ok h ∧
      frameSize h ≤ input.length ∧
      deserializeRequest input limits out = (.complete (frameSize h), payloadRequest h input)) := by
  rw [deserializeRequest_eq]
  by_cases hl : input.length < kHeaderSize
  · exact .inl ⟨hl, by rw [if_pos hl]⟩
  rw [if_neg hl]
  have hl' : kHeaderSize ≤ input.length := Nat.le_of_not_lt hl
  cases requestHeader input limits with
  | error error => exact .inr (.inl ⟨hl', error, rfl, rfl⟩)
  | ok h =>
    by_cases hf : input.length < frameSize h
    · exact .inr (.inr (.inl ⟨hl', h, rfl, hf, by simp only [if_pos hf]⟩))
    · exact .inr (.inr (.inr ⟨hl', h, rfl, Nat.le_of_not_lt hf, by simp only [if_neg hf]⟩))

theorem requestHeader_append {x : Bytes} (y : Bytes) (limits : Limits)
    (h : kHeaderSize ≤ x.length) : requestHeader (x ++ y) limits = requestHeader x limits := by
  unfold requestHeader
  rw [decodeCommonHeader_append y h]

def headerOf (r : Request) : Header where
  opcode := r.opcode.raw
  requestId := r.requestId
  keyLen := UInt32.ofNat r.key.length
  valueLen := UInt32.ofNat r.value.length

theorem serializeRequest_eq (r : Request) :
    serializeRequest r = encodeHeader [] (headerOf r) ++ (r.key ++ r.value) := by
  simp only [serializeRequest, serializeRequestInto, appendBytes, headerOf, List.append_assoc]

theorem length_serializeRequest (r : Request) :
    (serializeRequest r).length = kHeaderSize + r.key.length + r.value.length := by
  rw [serializeRequest_eq, List.length_append, length_encodeHeader, List.length_append]
  omega

/-- The grammar of requests: which ones the parser is willing to return. -/
structure Grammatical (r : Request) (limits : Limits) : Prop where
  opcode : isValidOpcode r.opcode.raw = true
  key_le : r.key.length ≤ min limits.maxKeyBytes.toNat (64 * 1024)
  value_le : r.value.length ≤ min limits.maxValueBytes.toNat (64 * 1024 * 1024)
  key_present : r.opcode = .kGet ∨ r.opcode = .kPut ∨ r.opcode = .kDelete → r.key ≠ []
  key_absent : r.opcode = .kPing ∨ r.opcode = .kStats ∨ r.opcode = .kClear → r.key = []
  value_absent : r.opcode ≠ .kPut → r.value = []

theorem toNat_ofNat_length {l : Bytes} {m : Nat} {limit : UInt32}
    (h : l.length ≤ min limit.toNat m) :
    (UInt32.ofNat l.length).toNat = l.length := by
  have hlt := limit.toNat_lt
  exact UInt32.toNat_ofNat_of_lt' (by simp only [UInt32.size]; omega)

theorem ofNat_length_eq_zero {l : Bytes} {m : Nat} {limit : UInt32}
    (h : l.length ≤ min limit.toNat m) : UInt32.ofNat l.length = 0 ↔ l = [] := by
  rw [← UInt32.toNat_inj, toNat_ofNat_length h]
  exact List.length_eq_zero_iff

theorem admissible_headerOf {r : Request} {limits : Limits} (g : Grammatical r limits) :
    Admissible (headerOf r) limits where
  status := rfl
  key_le := by
    have h := g.key_le
    rw [headerOf, toNat_ofNat_length h]
    exact h
  value_le := by
    have h := g.value_le
    rw [headerOf, toNat_ofNat_length h]
    exact h
  key_pos := by
    intro hr hz
    have hk := (ofNat_length_eq_zero g.key_le).mp hz
    rw [headerOf, opcode_ofRaw_raw] at hr
    apply g.key_present _ hk
    cases ho : r.opcode <;> simp_all [opcodeRequiresKey]
  key_zero := by
    intro hr
    rw [headerOf, opcode_ofRaw_raw] at hr
    apply (ofNat_length_eq_zero g.key_le).mpr
    apply g.key_absent
    cases ho : r.opcode <;> simp_all [opcodeRequiresKey]
  value_zero := by
    intro hr
    rw [headerOf, opcode_ofRaw_raw] at hr
    apply (ofNat_length_eq_zero g.value_le).mpr
    apply g.value_absent
    simpa [opcodeAllowsValue] using hr

theorem payload_split {h : Header} {input : Bytes} (hl : frameSize h ≤ input.length) :
    (payloadRequest h input).key.length = h.keyLen.toNat ∧
      (payloadRequest h input).value.length = h.valueLen.toNat ∧
      input.drop kHeaderSize = (payloadRequest h input).key ++
        ((payloadRequest h input).value ++ input.drop (frameSize h)) := by
  unfold frameSize at hl ⊢
  refine ⟨?_, ?_, ?_⟩
  · simp only [payloadRequest, List.length_take, List.length_drop]
    omega
  · simp only [payloadRequest, List.length_take, List.length_drop]
    omega
  · simp only [payloadRequest]
    rw [← List.drop_drop, ← List.drop_drop, List.take_append_drop, List.take_append_drop]

theorem headerOf_payload {h : Header} {limits : Limits} {input : Bytes}
    (hl : frameSize h ≤ input.length) (ha : Admissible h limits) (hv : h.version = kVersion)
    (ho : isValidOpcode h.opcode = true) (hf : h.flags = 0) :
    headerOf (payloadRequest h input) = h := by
  obtain ⟨hk, hw, -⟩ := payload_split hl
  have hraw : (payloadRequest h input).opcode.raw = h.opcode := opcode_raw_ofRaw ho
  have hs := ha.status
  unfold headerOf
  rw [hk, hw, hraw, UInt32.ofNat_toNat, UInt32.ofNat_toNat]
  cases h
  simp_all [payloadRequest]

theorem grammatical_payload {h : Header} {limits : Limits} {input : Bytes}
    (hl : frameSize h ≤ input.length) (ha : Admissible h limits) :
    Grammatical (payloadRequest h input) limits := by
  obtain ⟨hk, hw, -⟩ := payload_split hl
  have hzero : ∀ l : UInt32, l.toNat = 0 → l = 0 := fun l hz => UInt32.toNat_inj.mp hz
  refine ⟨isValidOpcode_raw _, ?_, ?_, ?_, ?_, ?_⟩
  · rw [hk]; exact ha.key_le
  · rw [hw]; exact ha.value_le
  · intro ho he
    have hr : opcodeRequiresKey (Opcode.ofRaw h.opcode) = true := by
      change opcodeRequiresKey (payloadRequest h input).opcode = true
      obtain ho | ho | ho := ho <;> rw [ho] <;> rfl
    rw [he] at hk
    exact ha.key_pos hr (hzero _ hk.symm)
  · intro ho
    have hr : opcodeRequiresKey (Opcode.ofRaw h.opcode) = false := by
      change opcodeRequiresKey (payloadRequest h input).opcode = false
      obtain ho | ho | ho := ho <;> rw [ho] <;> rfl
    rw [ha.key_zero hr] at hk
    exact List.length_eq_zero_iff.mp hk
  · intro ho
    have hr : opcodeAllowsValue (Opcode.ofRaw h.opcode) = false := by
      simpa [opcodeAllowsValue, payloadRequest] using ho
    rw [ha.value_zero hr] at hw
    exact List.length_eq_zero_iff.mp hw

structure WithinCeilings (r : Request) : Prop where
  key_le : r.key.length ≤ kMaxKeyBytes.toNat
  value_le : r.value.length ≤ kMaxValueBytes.toNat

theorem Grammatical.withinCeilings {r : Request} {limits : Limits} (g : Grammatical r limits) :
    WithinCeilings r :=
  ⟨g.key_le.trans (Nat.min_le_right _ _), g.value_le.trans (Nat.min_le_right _ _)⟩

theorem WithinCeilings.toNat_lengths {r : Request} (h : WithinCeilings r) :
    (headerOf r).keyLen.toNat = r.key.length ∧ (headerOf r).valueLen.toNat = r.value.length :=
  ⟨toNat_ofNat_length (Nat.le_min.mpr ⟨h.key_le, h.key_le⟩),
    toNat_ofNat_length (Nat.le_min.mpr ⟨h.value_le, h.value_le⟩)⟩

theorem decode_serialize (r : Request) (rest : Bytes) :
    decodeCommonHeader (serializeRequest r ++ rest) = .ok (headerOf r) := by
  rw [serializeRequest_eq, List.append_assoc]
  exact decodeCommonHeader_encode (headerOf r) _ rfl (isValidOpcode_raw _) rfl

theorem frameSize_headerOf {r : Request} (h : WithinCeilings r) :
    frameSize (headerOf r) = kHeaderSize + r.key.length + r.value.length := by
  rw [frameSize, h.toNat_lengths.1, h.toNat_lengths.2]

theorem payload_serialize {r : Request} (h : WithinCeilings r) (rest : Bytes) :
    payloadRequest (headerOf r) (serializeRequest r ++ rest) = r := by
  have hdrop : (serializeRequest r ++ rest).drop kHeaderSize = r.key ++ (r.value ++ rest) := by
    rw [serializeRequest_eq, List.append_assoc, List.drop_left' (length_encodeHeader _),
      List.append_assoc]
  unfold payloadRequest
  rw [hdrop, h.toNat_lengths.1, h.toNat_lengths.2, List.take_left, List.drop_left,
    List.take_left]
  simp only [headerOf, opcode_ofRaw_raw]

/-- A complete frame is never short: it parses back to its request or its header is refused. -/
theorem deserializeRequest_frame {r : Request} (h : WithinCeilings r) (limits : Limits)
    (rest : Bytes) (out : Request) :
    (Admissible (headerOf r) limits ∧
      deserializeRequest (serializeRequest r ++ rest) limits out =
        (.complete (kHeaderSize + r.key.length + r.value.length), r)) ∨
    ∃ error, requestHeader (serializeRequest r ++ rest) limits = .error error ∧
      deserializeRequest (serializeRequest r ++ rest) limits out = (.malformed error, out) := by
  have hlen : (serializeRequest r ++ rest).length =
      kHeaderSize + r.key.length + r.value.length + rest.length := by
    rw [List.length_append, length_serializeRequest]
  rw [deserializeRequest_eq, if_neg (by omega)]
  cases hh : requestHeader (serializeRequest r ++ rest) limits with
  | error error => exact .inr ⟨error, rfl, rfl⟩
  | ok g =>
    obtain ⟨hd, ha⟩ := (requestHeader_ok_iff _ limits g).mp hh
    obtain rfl : headerOf r = g := by
      rw [decode_serialize] at hd
      exact Except.ok.inj hd
    dsimp only
    rw [frameSize_headerOf h, if_neg (by omega), payload_serialize h]
    exact .inl ⟨ha, rfl⟩

theorem deserializeRequest_serialize {r : Request} {limits : Limits} (g : Grammatical r limits)
    (rest : Bytes) (out : Request) :
    deserializeRequest (serializeRequest r ++ rest) limits out =
      (.complete (kHeaderSize + r.key.length + r.value.length), r) := by
  have hh := (requestHeader_ok_iff _ limits _).mpr
    ⟨decode_serialize r rest, admissible_headerOf g⟩
  obtain ⟨-, hd⟩ | ⟨e, he, -⟩ := deserializeRequest_frame g.withinCeilings limits rest out
  · exact hd
  · rw [hh] at he
    cases he

theorem deserializeRequest_complete_iff (input : Bytes) (limits : Limits) (out r : Request)
    (n : Nat) :
    ((deserializeRequest input limits out).1.status = .kComplete ∧
      (deserializeRequest input limits out).1.consumed = n ∧
      (deserializeRequest input limits out).2 = r) ↔
    (∃ rest, input = serializeRequest r ++ rest) ∧ n = 24 + r.key.length + r.value.length ∧
      Grammatical r limits := by
  constructor
  · rintro ⟨hc, hn, hr⟩
    obtain ⟨_, hd⟩ | ⟨_, _, _, hd⟩ | ⟨_, _, _, _, hd⟩ | ⟨hl, h, hh, hf, hd⟩ :=
      deserializeRequest_cases input limits out
    · rw [hd] at hc; cases hc
    · rw [hd] at hc; cases hc
    · rw [hd] at hc; cases hc
    · rw [hd] at hn hr
      obtain ⟨hdec, ha⟩ := (requestHeader_ok_iff input limits h).mp hh
      obtain ⟨hv, ho, hg, hin⟩ := encodeHeader_decode hl hdec
      obtain ⟨hk, hw, hrest⟩ := payload_split hf
      have he := headerOf_payload hf ha hv ho hg
      dsimp only at hr
      subst hr
      refine ⟨⟨input.drop (frameSize h), ?_⟩, ?_, grammatical_payload hf ha⟩
      · rw [serializeRequest_eq, he, List.append_assoc, List.append_assoc, ← hrest]
        exact hin
      · rw [hk, hw]
        exact hn.symm
  · rintro ⟨⟨rest, hin⟩, hn, g⟩
    rw [hin, deserializeRequest_serialize g, hn]
    simp only [ParseResult.complete, kHeaderSize, and_self]

end LocalCache.RequestCodec
