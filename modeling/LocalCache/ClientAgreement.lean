import LocalCache.CacheClient
import LocalCache.ConnectionInput
import LocalCache.EventLoop

namespace LocalCache

open Protocol Serializer HeaderCodec RequestCodec Connection

theorem Connection.peekRequestHeader_of_decode {x : Connection} {h : Header}
    (hl : kHeaderSize ≤ x.unconsumed.length) (hd : decodeCommonHeader x.unconsumed = .ok h) :
    x.peekRequestHeader = some (h.requestId, Opcode.ofRaw h.opcode) := by
  unfold decodeCommonHeader at hd
  rw [unconsumed, List.length_drop] at hl
  split at hd
  · cases hd
  · rename_i hmagic
    split at hd
    · cases hd
    · split at hd
      · cases hd
      · rename_i hopcode
        split at hd
        · cases hd
        · cases hd
          unfold peekRequestHeader
          rw [if_neg (Nat.not_lt.mpr hl)]
          unfold unconsumed at hmagic hopcode
          dsimp only
          rw [if_neg hmagic, if_neg hopcode]
          rfl

/-- Which error a frame is refused with, as far as the status of the reply depends on it. -/
theorem requestHeader_serialize_error {r : Request} (h : WithinCeilings r) {limits : Limits}
    {rest : Bytes} {error : ParseError}
    (he : requestHeader (serializeRequest r ++ rest) limits = .error error) :
    error ≠ .kUnsupportedVersion ∧
      (error = .kValueTooLarge ↔
        r.key.length ≤ min limits.maxKeyBytes.toNat kMaxKeyBytes.toNat ∧
          min limits.maxValueBytes.toNat kMaxValueBytes.toNat < r.value.length) := by
  have hk := toNat_effectiveLimit limits.maxKeyBytes kMaxKeyBytes
  have hv := toNat_effectiveLimit limits.maxValueBytes kMaxValueBytes
  obtain ⟨hkey, hvalue⟩ := h.toNat_lengths
  unfold requestHeader at he
  rw [decode_serialize] at he
  simp only [gt_iff_lt, UInt32.lt_iff_toNat_lt, hk, hv, hkey, hvalue] at he
  rw [if_neg (by simp [headerOf])] at he
  by_cases hlarge : min limits.maxKeyBytes.toNat kMaxKeyBytes.toNat < r.key.length
  · rw [if_pos hlarge] at he
    cases he
    simp only [ne_eq, reduceCtorEq, not_false_eq_true, true_and, false_iff]
    omega
  rw [if_neg hlarge] at he
  by_cases hlong : min limits.maxValueBytes.toNat kMaxValueBytes.toNat < r.value.length
  · rw [if_pos hlong] at he
    cases he
    simp only [ne_eq, reduceCtorEq, not_false_eq_true, true_and, true_iff]
    omega
  rw [if_neg hlong] at he
  have hother : error = .kMissingKey ∨ error = .kPayloadNotAllowed := by
    split at he
    · cases he
      exact .inl rfl
    · split at he
      · cases he
        exact .inr rfl
      · split at he
        · cases he
          exact .inr rfl
        · cases he
  obtain rfl | rfl := hother <;> simp [hlong]

namespace Server

variable {s : Server} {c : Nat}

theorem onProcess_refused (config : ServerConfig) {error : ParseError} {id : UInt64}
    {opcode : Opcode} (hopen : (s.conn c).inflightLimitReached = false)
    (hd : deserializeRequest (s.conn c).unconsumed (s.conn c).limits.protocolLimits {} =
      (.malformed error, {}))
    (hpeek : (s.conn c).peekRequestHeader = some (id, opcode)) :
    (onProcess config s c).loop = .immediate c ⟨opcode, errorStatus error, id, []⟩ := by
  have hn := nextRequest_of_malformed hd
  rw [onProcess, if_neg (by simp [hopen]), hn]
  simp only [ParseResult.malformed, hpeek]

theorem errorStatus_ne_ok (error : ParseError) : errorStatus error ≠ .kOk := by
  cases error <;> decide

theorem errorStatus_value (error : ParseError) :
    errorStatus error = .kValueTooLarge ↔ error = .kValueTooLarge := by
  cases error <;> decide

theorem reply_read (reply : Response) (hempty : reply.value = []) (rest : Bytes) :
    deserializeResponse (serializeResponse reply ++ rest) CacheClient.kClientLimits {} =
      (.complete (serializeResponse reply).length, reply) := by
  rw [ResponseCodec.length_serializeResponse]
  refine ResponseCodec.deserializeResponse_serialize ?_ rest {}
  rw [hempty]
  exact Nat.zero_le _

/-- Whatever the limits of the server, the complete frame of a request that the client lets
through is read as that request, or is refused with a reply that the client takes for the
answer to it. The status of the reply is never OK, and it blames the value exactly when the
key is small enough and the value is not. -/
theorem request_agreed (config : ServerConfig) (s : Server) (c : Nat) (op : Operation)
    (id : UInt64) (rest : Bytes) (hk : op.key.length ≤ kMaxKeyBytes.toNat)
    (hv : op.value.length ≤ kMaxValueBytes.toNat)
    (hin : (s.conn c).unconsumed = serializeRequest (op.request id) ++ rest) :
    deserializeRequest (s.conn c).unconsumed (s.conn c).limits.protocolLimits {} =
        (.complete (serializeRequest (op.request id)).length, op.request id) ∨
      ∃ error reply,
        deserializeRequest (s.conn c).unconsumed (s.conn c).limits.protocolLimits {} =
          (.malformed error, {}) ∧
        (s.conn c).peekRequestHeader = some (id, op.opcode) ∧
        ((s.conn c).inflightLimitReached = false →
          (onProcess config s c).loop = .immediate c reply) ∧
        (∀ more, deserializeResponse (serializeResponse reply ++ more)
            CacheClient.kClientLimits {} =
          (.complete (serializeResponse reply).length, reply)) ∧
        CacheClient.correlationError id op.opcode reply = "" ∧
        reply.status ≠ .kOk ∧
        (reply.status = .kValueTooLarge ↔
          op.key.length ≤
              min (s.conn c).limits.protocolLimits.maxKeyBytes.toNat kMaxKeyBytes.toNat ∧
            min (s.conn c).limits.protocolLimits.maxValueBytes.toNat kMaxValueBytes.toNat <
              op.value.length) := by
  have hsize : WithinCeilings (op.request id) := ⟨hk, hv⟩
  obtain ⟨-, hd⟩ | ⟨error, he, hd⟩ :=
    deserializeRequest_frame hsize (s.conn c).limits.protocolLimits rest {}
  · left
    rw [hin, hd, length_serializeRequest]
  · right
    have hlen : kHeaderSize ≤ (s.conn c).unconsumed.length := by
      rw [hin, List.length_append, length_serializeRequest]
      omega
    have hdecode : decodeCommonHeader (s.conn c).unconsumed = .ok (headerOf (op.request id)) := by
      rw [hin, decode_serialize]
    have hpeek : (s.conn c).peekRequestHeader = some (id, op.opcode) := by
      rw [peekRequestHeader_of_decode hlen hdecode]
      simp [headerOf, Operation.request, opcode_ofRaw_raw]
    rw [← hin] at hd
    refine ⟨error, ⟨op.opcode, errorStatus error, id, []⟩, hd, hpeek, ?_, ?_, ?_, ?_, ?_⟩
    · exact fun hopen => onProcess_refused config hopen hd hpeek
    · exact reply_read _ rfl
    · rw [CacheClient.correlationError, if_neg (by simp), if_neg (by simp)]
    · exact errorStatus_ne_ok error
    · exact (errorStatus_value error).trans (requestHeader_serialize_error hsize he).2

def longPut : Server where
  cache := .empty {}
  conn := fun _ => {
    fd := 7
    limits := { protocolLimits := ⟨4, 2⟩ }
    inBuf := serializeRequest ⟨.kPut, 5, [1], [1, 2, 3]⟩ }
  listenFd := none

theorem request_agreed_long :
    ∃ reply, (onProcess {} longPut 1).loop = .immediate 1 reply ∧
      CacheClient.correlationError 5 .kPut reply = "" ∧ reply.status = .kValueTooLarge := by
  obtain hd | ⟨error, reply, -, -, hloop, -, hcorr, -, hstatus⟩ :=
    request_agreed {} longPut 1 (.put [1] [1, 2, 3]) 5 [] (by decide) (by decide)
      (by decide +kernel)
  · exact absurd hd (by decide +kernel)
  · exact ⟨reply, hloop (by decide +kernel), hcorr, hstatus.mpr (by decide +kernel)⟩

end Server

end LocalCache
