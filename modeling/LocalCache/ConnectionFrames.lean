import LocalCache.ConnectionInput
import LocalCache.ConnectionOutput

namespace LocalCache.Connection

open Protocol Serializer Library RequestStream

variable {x y : Connection}

theorem refill_frame {more : Bool} (h : x.refill = (more, y)) :
    y = { x with writeBuf := y.writeBuf, writePos := y.writePos, staged := y.staged } := by
  rw [refill] at h
  split at h
  · split at h <;> cases h <;> rfl
  · cases h
    rfl

theorem stage_frame {frame : Bytes} {overLimit : Bool} (h : x.stage frame = some (overLimit, y)) :
    y = { x with staged := y.staged, pendingOutputBytes := y.pendingOutputBytes } := by
  obtain ⟨-, rfl⟩ := stage_eq h
  rfl

/-- With this frame the backlog is at most the hard cap, both as the machine computes them. -/
def WithinCap (x : Connection) (frame : Bytes) : Prop :=
  Word64.add x.pendingOutputBytes frame.length ≤ Word64.mul x.limits.maxOutputBytes.toNat 2

instance (x : Connection) (frame : Bytes) : Decidable (x.WithinCap frame) :=
  inferInstanceAs (Decidable (_ ≤ _))

theorem overLimit_of_stage {frame : Bytes} {overLimit : Bool}
    (h : x.stage frame = some (overLimit, y)) : overLimit = true ↔ ¬ x.WithinCap frame := by
  simp only [stage] at h
  split at h
  · cases h
  · cases h
    rw [decide_eq_true_eq, gt_iff_lt, WithinCap, Nat.not_le]

theorem enqueueResponse_cases {frame : Bytes} {completes ok : Bool}
    (h : x.enqueueResponse frame completes = some (ok, y)) :
    (x.closed = true ∧ ok = false ∧ y = if completes then x.completeRequest else x) ∨
      x.closed = false ∧ ∃ z, x.stage frame = some (!ok, z) ∧
        y = if completes then z.completeRequest else z := by
  rw [enqueueResponse] at h
  cases hc : x.closed with
  | true =>
    rw [if_pos hc] at h
    cases h
    exact .inl ⟨rfl, rfl, rfl⟩
  | false =>
    rw [if_neg (by rw [hc]; exact Bool.false_ne_true), Option.map_eq_some_iff] at h
    obtain ⟨⟨overLimit, z⟩, hz, he⟩ := h
    cases he
    exact .inr ⟨rfl, z, by rw [Bool.not_not]; exact hz, rfl⟩

theorem enqueueResponse_frame {frame : Bytes} {completes ok : Bool}
    (h : x.enqueueResponse frame completes = some (ok, y)) :
    y = { x with
      staged := y.staged
      pendingOutputBytes := y.pendingOutputBytes
      inflight := y.inflight } := by
  obtain ⟨-, -, hy⟩ | ⟨-, z, hz, hy⟩ := enqueueResponse_cases h
  · cases completes <;> rw [hy] <;> rfl
  · have hf := stage_frame hz
    cases completes
    · rw [hy, hf]
      rfl
    · rw [hy, hf]
      rfl

theorem compactInput_frame (x : Connection) :
    x.compactInput = { x with inBuf := x.compactInput.inBuf, inPos := x.compactInput.inPos } := by
  rw [compactInput]
  split <;> rfl

theorem consume_frame (n : Nat) (x : Connection) :
    x.consume n = { x with inBuf := (x.consume n).inBuf, inPos := (x.consume n).inPos } := by
  rw [consume]
  dsimp only
  split
  · rw [compactInput_frame]
  · rfl

theorem nextRequest_frame {out request : Request} {result : ParseResult}
    (h : x.nextRequest out = (result, request, y)) :
    y = { x with inBuf := y.inBuf, inPos := y.inPos } := by
  obtain ⟨n, -, -, rfl⟩ | ⟨-, -, rfl⟩ | ⟨e, -, -, rfl⟩ := nextRequest_cases h
  · exact consume_frame n x
  · exact compactInput_frame x
  · rfl

structure SameId (x y : Connection) : Prop where
  fd : y.fd = x.fd
  closed : y.closed = x.closed
  events : y.registeredEvents = x.registeredEvents

theorem SameId.refl (x : Connection) : SameId x x := ⟨rfl, rfl, rfl⟩

theorem SameId.of_refill {more : Bool} (h : x.refill = (more, y)) : SameId x y := by
  rw [refill_frame h]
  exact ⟨rfl, rfl, rfl⟩

theorem SameId.of_stage {frame : Bytes} {overLimit : Bool}
    (h : x.stage frame = some (overLimit, y)) : SameId x y := by
  rw [stage_frame h]
  exact ⟨rfl, rfl, rfl⟩

theorem SameId.of_enqueueResponse {frame : Bytes} {completes ok : Bool}
    (h : x.enqueueResponse frame completes = some (ok, y)) : SameId x y := by
  rw [enqueueResponse_frame h]
  exact ⟨rfl, rfl, rfl⟩

theorem SameId.of_nextRequest {out request : Request} {result : ParseResult}
    (h : x.nextRequest out = (result, request, y)) : SameId x y := by
  rw [nextRequest_frame h]
  exact ⟨rfl, rfl, rfl⟩

/-- The marks of a connection's end, which nothing takes back. -/
structure Marks (x y : Connection) : Prop where
  closed : x.closed = true → y.closed = true
  flag : x.closeAfterFlush = true → y.closeAfterFlush = true

theorem Marks.refl (x : Connection) : Marks x x := ⟨id, id⟩

theorem Marks.of_refill {more : Bool} (h : x.refill = (more, y)) : Marks x y := by
  rw [refill_frame h]
  exact ⟨id, id⟩

theorem Marks.of_stage {frame : Bytes} {overLimit : Bool}
    (h : x.stage frame = some (overLimit, y)) : Marks x y := by
  rw [stage_frame h]
  exact ⟨id, id⟩

theorem Marks.of_enqueueResponse {frame : Bytes} {completes ok : Bool}
    (h : x.enqueueResponse frame completes = some (ok, y)) : Marks x y := by
  rw [enqueueResponse_frame h]
  exact ⟨id, id⟩

theorem Marks.of_nextRequest {out request : Request} {result : ParseResult}
    (h : x.nextRequest out = (result, request, y)) : Marks x y := by
  rw [nextRequest_frame h]
  exact ⟨id, id⟩

end LocalCache.Connection
