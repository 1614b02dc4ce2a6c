import LocalCache.Library.LengthPrefixed
import LocalCache.Library.Transition
import LocalCache.Connection
import LocalCache.RequestCodec

namespace LocalCache.RequestStream

open Protocol Serializer RequestCodec Library Library.Framing Library.LengthPrefixed
open Library.Transition

def head (limits : Limits) (x : Bytes) : Verdict Request ParseError :=
  match deserializeRequest x limits {} with
  | (result, r) => match result.status with
    | .kComplete => .item r result.consumed
    | .kNeedMoreData => .more
    | .kMalformed => .bad result.error

def requestFormat (limits : Limits) : Format UInt8 Header Request ParseError where
  headerSize := kHeaderSize
  header := fun x => requestHeader x limits
  size := frameSize
  payload := payloadRequest

theorem payloadRequest_append {h : Header} {x : Bytes} (y : Bytes) (hl : frameSize h ≤ x.length) :
    payloadRequest h (x ++ y) = payloadRequest h x := by
  unfold frameSize at hl
  unfold payloadRequest
  rw [List.drop_append_of_le_length (by omega),
    List.take_append_of_le_length (by rw [List.length_drop]; omega),
    List.drop_append_of_le_length (by rw [List.length_drop]; omega),
    List.take_append_of_le_length (by rw [List.length_drop, List.length_drop]; omega)]

theorem local_requestFormat (limits : Limits) : (requestFormat limits).Local where
  header_append := fun y hl => requestHeader_append y limits hl
  payload_append := fun y hl => payloadRequest_append y hl
  size_pos := by
    intro h
    change 0 < frameSize h
    unfold frameSize kHeaderSize
    omega

theorem head_eq (limits : Limits) : head limits = (requestFormat limits).head := by
  funext x
  rw [head]
  obtain ⟨hl, hd⟩ | ⟨hl, e, he, hd⟩ | ⟨hl, g, hg, hf, hd⟩ | ⟨hl, g, hg, hf, hd⟩ :=
    deserializeRequest_cases x limits {}
  · rw [hd]
    exact (Format.head_short (f := requestFormat limits) hl).symm
  · rw [hd]
    exact (Format.head_error (f := requestFormat limits) hl he).symm
  · rw [hd]
    exact (Format.head_incomplete (f := requestFormat limits) hl hg hf).symm
  · rw [hd]
    exact (Format.head_full (f := requestFormat limits) hl hg hf).symm

theorem head_short {limits : Limits} {x : Bytes} (h : x.length < kHeaderSize) :
    head limits x = .more := by
  rw [head_eq]
  exact Format.head_short h

theorem head_nil (limits : Limits) : head limits [] = .more := head_short (Nat.zero_lt_succ _)

theorem head_error {limits : Limits} {x : Bytes} {e : ParseError} (hl : kHeaderSize ≤ x.length)
    (h : requestHeader x limits = .error e) : head limits x = .bad e := by
  rw [head_eq]
  exact Format.head_error hl h

theorem head_incomplete {limits : Limits} {x : Bytes} {g : Header} (hl : kHeaderSize ≤ x.length)
    (h : requestHeader x limits = .ok g) (hf : x.length < frameSize g) :
    head limits x = .more := by
  rw [head_eq]
  exact Format.head_incomplete hl h hf

theorem head_full {limits : Limits} {x : Bytes} {g : Header} (hl : kHeaderSize ≤ x.length)
    (h : requestHeader x limits = .ok g) (hf : frameSize g ≤ x.length) :
    head limits x = .item (payloadRequest g x) (frameSize g) := by
  rw [head_eq]
  exact Format.head_full hl h hf

/-- The caller's object does not influence the verdict. -/
theorem head_of_deserialize (limits : Limits) (x : Bytes) (out : Request) :
    head limits x = match (deserializeRequest x limits out).1.status with
      | .kComplete => .item (deserializeRequest x limits out).2
          (deserializeRequest x limits out).1.consumed
      | .kNeedMoreData => .more
      | .kMalformed => .bad (deserializeRequest x limits out).1.error := by
  obtain ⟨hl, hd⟩ | ⟨hl, _, he, hd⟩ | ⟨hl, g, hg, hf, hd⟩ | ⟨hl, g, hg, hf, hd⟩ :=
    deserializeRequest_cases x limits out
  · rw [head_short hl, hd]; rfl
  · rw [head_error hl he, hd]; rfl
  · rw [head_incomplete hl hg hf, hd]; rfl
  · rw [head_full hl hg hf, hd]; rfl

theorem length_of_more {limits : Limits} {x : Bytes} (h : head limits x = .more) :
    x.length < kHeaderSize + limits.maxKeyBytes.toNat + limits.maxValueBytes.toNat ∨
      x.length < kHeaderSize := by
  obtain ⟨hl, _⟩ | ⟨hl, _, he, _⟩ | ⟨hl, g, hg, hf, _⟩ | ⟨hl, g, hg, hf, _⟩ :=
    deserializeRequest_cases x limits {}
  · exact .inr hl
  · rw [head_error hl he] at h; cases h
  · have hle := frameSize_le ((requestHeader_ok_iff x limits g).mp hg).2
    left
    omega
  · rw [head_full hl hg hf] at h; cases h

theorem head_incremental (limits : Limits) : Incremental (head limits) := by
  rw [head_eq]
  exact (local_requestFormat limits).incremental

theorem head_serialize {r : Request} (h : WithinCeilings r) (limits : Limits) (y : Bytes) :
    head limits (serializeRequest r ++ y) = .item r (serializeRequest r).length ∨
      ∃ e, head limits (serializeRequest r ++ y) = .bad e := by
  rw [head, length_serializeRequest]
  obtain ⟨-, hd⟩ | ⟨e, -, hd⟩ := deserializeRequest_frame h limits y {}
  · rw [hd]
    exact .inl rfl
  · rw [hd]
    exact .inr ⟨e, rfl⟩

theorem head_grammatical {r : Request} {limits : Limits} (g : Grammatical r limits) (y : Bytes) :
    head limits (serializeRequest r ++ y) = .item r (serializeRequest r).length := by
  rw [head, deserializeRequest_serialize g, length_serializeRequest]
  rfl

end LocalCache.RequestStream
