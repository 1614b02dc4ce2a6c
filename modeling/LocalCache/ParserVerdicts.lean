import LocalCache.RequestStream
import LocalCache.ResponseCodec

namespace LocalCache.ParserVerdicts

open Protocol Serializer Library Framing LengthPrefixed

variable {ρ : Type}

def outcome (v : Verdict ρ ParseError) (out : ρ) : ParseResult × ρ :=
  match v with
  | .item r n => (.complete n, r)
  | .more => (.needMore, out)
  | .bad e => (.malformed e, out)

/-- What a caller that reads from a stream relies on. The `frames` are those that the parser
is meant to accept. -/
structure Stable (parse : Bytes → ρ → ParseResult × ρ) (frames : Bytes → Prop) : Prop where
  final : ∀ x y out, (parse x out).1.status ≠ .kNeedMoreData → parse (x ++ y) out = parse x out
  truncated : ∀ frame x out, frames frame → x <+: frame → x ≠ frame →
    (parse x out).1.status = .kNeedMoreData
  completes : ∀ x out, 24 ≤ x.length → (parse x out).1.status = .kNeedMoreData →
    ∃ y, (parse (x ++ y) out).1.status = .kComplete ∧ x.length < (parse (x ++ y) out).1.consumed
  untouched : ∀ x out, (parse x out).1.status ≠ .kComplete →
    (parse x out).2 = out ∧ (parse x out).1.consumed = 0

theorem more_of_outcome {v : Verdict ρ ParseError} {out : ρ}
    (h : (outcome v out).1.status = .kNeedMoreData) : v = .more := by
  cases v with
  | more => rfl
  | item r n | bad e => cases h

theorem stable_of_format {η : Type} {f : Format UInt8 η ρ ParseError} {frames : Bytes → Prop}
    (hf : f.Local) (hsize : f.headerSize = kHeaderSize)
    (hframes : ∀ x, frames x → ∃ r, f.head x = .item r x.length) :
    Stable (fun x out => outcome (f.head x) out) frames where
  final := by
    intro x y out h
    cases hx : f.head x with
    | more =>
      rw [hx] at h
      exact absurd rfl h
    | item r n => rw [hf.incremental.item_append y hx]
    | bad e => rw [hf.incremental.bad_append y hx]
  truncated := by
    rintro frame x out hframe ⟨y, rfl⟩ hne
    obtain ⟨r, hr⟩ := hframes _ hframe
    have hlt : x.length < (x ++ y).length := by
      rw [List.length_append]
      apply Nat.lt_add_of_pos_right
      apply List.length_pos_of_ne_nil
      rintro rfl
      exact hne (List.append_nil x).symm
    rw [hf.incremental.more_of_lt hr hlt]
    rfl
  completes := by
    intro x out hl h
    obtain ⟨y, r, n, hy, hlt⟩ := hf.completes 0 (by rw [hsize]; exact hl) (more_of_outcome h)
    exact ⟨y, by rw [hy]; rfl, by rw [hy]; exact hlt⟩
  untouched := by
    intro x out h
    cases hx : f.head x with
    | more | bad e => exact ⟨rfl, rfl⟩
    | item r n =>
      rw [hx] at h
      exact absurd rfl h

section Request

open RequestCodec RequestStream

theorem deserializeRequest_outcome (limits : Limits) :
    (fun x out => deserializeRequest x limits out) =
      fun x out => outcome ((requestFormat limits).head x) out := by
  funext x out
  obtain ⟨hl, hd⟩ | ⟨hl, e, he, hd⟩ | ⟨hl, g, hg, hf, hd⟩ | ⟨hl, g, hg, hf, hd⟩ :=
    deserializeRequest_cases x limits out
  · rw [hd, ← head_eq, RequestStream.head_short hl]
    rfl
  · rw [hd, ← head_eq, RequestStream.head_error hl he]
    rfl
  · rw [hd, ← head_eq, RequestStream.head_incomplete hl hg hf]
    rfl
  · rw [hd, ← head_eq, RequestStream.head_full hl hg hf]
    rfl

end Request

section Response

open ResponseCodec

def responseFormat (limits : Limits) : Format UInt8 Header Response ParseError where
  headerSize := kHeaderSize
  header := fun x => responseHeader x limits
  size := frameSize
  payload := payloadResponse

theorem local_responseFormat (limits : Limits) : (responseFormat limits).Local where
  header_append := fun y hl => responseHeader_append y limits hl
  payload_append := by
    intro x h y hl
    change frameSize h ≤ x.length at hl
    change payloadResponse h (x ++ y) = payloadResponse h x
    unfold frameSize at hl
    unfold payloadResponse
    rw [List.drop_append_of_le_length (by omega),
      List.take_append_of_le_length (by rw [List.length_drop]; omega)]
  size_pos := by
    intro h
    change 0 < frameSize h
    unfold frameSize kHeaderSize
    omega

theorem deserializeResponse_outcome (limits : Limits) :
    (fun x out => deserializeResponse x limits out) =
      fun x out => outcome ((responseFormat limits).head x) out := by
  funext x out
  obtain ⟨hl, hd⟩ | ⟨hl, e, he, hd⟩ | ⟨hl, g, hg, hf, hd⟩ | ⟨hl, g, hg, hf, hd⟩ :=
    deserializeResponse_cases x limits out
  · rw [hd, Format.head_short (f := responseFormat limits) hl]
    rfl
  · rw [hd, Format.head_error (f := responseFormat limits) hl he]
    rfl
  · rw [hd, Format.head_incomplete (f := responseFormat limits) hl hg hf]
    rfl
  · rw [hd, Format.head_full (f := responseFormat limits) hl hg hf]
    rfl

theorem head_serializeResponse {r : Response} {limits : Limits}
    (hv : r.value.length ≤ min limits.maxValueBytes.toNat kMaxValueBytes.toNat) :
    (responseFormat limits).head (serializeResponse r) =
      .item r (serializeResponse r).length := by
  have hread := deserializeResponse_serialize hv [] {}
  rw [List.append_nil] at hread
  have heq := congrFun (congrFun (deserializeResponse_outcome limits) (serializeResponse r)) {}
  rw [hread] at heq
  rw [length_serializeResponse]
  cases hh : (responseFormat limits).head (serializeResponse r) with
  | item q n =>
    rw [hh] at heq
    cases heq
    rfl
  | more | bad e =>
    rw [hh] at heq
    cases heq

end Response

/-- The verdicts of both parsers are final, part of a frame is never taken for damage, what
passes as the beginning of a frame can become one, and nothing is touched or consumed before a
frame is complete. -/
theorem verdicts_stable (limits : Limits) :
    Stable (fun x out => deserializeRequest x limits out)
      (fun x => ∃ r, RequestCodec.Grammatical r limits ∧ x = serializeRequest r) ∧
    Stable (fun x out => deserializeResponse x limits out)
      (fun x => ∃ r : Response,
        r.value.length ≤ min limits.maxValueBytes.toNat (64 * 1024 * 1024) ∧
          x = serializeResponse r) := by
  have hmax : kMaxValueBytes.toNat = 64 * 1024 * 1024 := rfl
  rw [← hmax]
  constructor
  · rw [deserializeRequest_outcome]
    apply stable_of_format (RequestStream.local_requestFormat limits) rfl
    rintro x ⟨r, hr, hx⟩
    rw [hx]
    have hhead := RequestStream.head_grammatical hr []
    rw [List.append_nil, RequestStream.head_eq] at hhead
    exact ⟨r, hhead⟩
  · rw [deserializeResponse_outcome]
    apply stable_of_format (local_responseFormat limits) rfl
    rintro x ⟨r, hr, hx⟩
    rw [hx]
    exact ⟨r, head_serializeResponse hr⟩

end LocalCache.ParserVerdicts
