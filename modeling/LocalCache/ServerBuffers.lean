import LocalCache.ServerRun
import LocalCache.ConnectionFrames

namespace LocalCache

open Protocol Serializer Library Transition RequestStream

/-- What holds of a connection object by itself: its buffers and its output counter agree. -/
structure Connection.Sound (limits : ConnectionLimits) (x : Connection) : Prop where
  counted : x.Counted
  inPos_le : x.inPos ≤ x.inBuf.length
  limits_eq : x.limits = limits

namespace Connection.Sound

variable {limits : ConnectionLimits} {x y : Connection}

theorem fresh (fd : Nat) (limits : ConnectionLimits) :
    Sound limits { fd := fd, limits := limits } :=
  ⟨.fresh fd limits, Nat.le_refl 0, rfl⟩

theorem flags (h : x.Sound limits) (fd : Nat) (events : Events) (flush closed notify : Bool)
    (inflight : Nat) :
    Sound limits { x with
      fd := fd
      registeredEvents := events
      closeAfterFlush := flush
      closed := closed
      notifyPending := notify
      inflight := inflight } :=
  ⟨⟨h.counted.pending_eq, h.counted.writePos_le, h.counted.writeBuf_le, h.counted.staged_le⟩,
    h.inPos_le, h.limits_eq⟩

theorem input (h : x.Sound limits) {inBuf : Bytes} {inPos : Nat} (hle : inPos ≤ inBuf.length) :
    Sound limits { x with inBuf := inBuf, inPos := inPos } :=
  ⟨⟨h.counted.pending_eq, h.counted.writePos_le, h.counted.writeBuf_le, h.counted.staged_le⟩,
    hle, h.limits_eq⟩

theorem stage (h : x.Sound limits) {frame : Bytes} {overLimit : Bool}
    (hs : x.stage frame = some (overLimit, y)) : y.Sound limits := by
  have hc := h.counted.stage hs
  obtain ⟨-, rfl⟩ := stage_eq hs
  exact ⟨hc, h.inPos_le, h.limits_eq⟩

theorem enqueueResponse (h : x.Sound limits) {frame : Bytes} {completes ok : Bool}
    (hs : x.enqueueResponse frame completes = some (ok, y)) : y.Sound limits := by
  obtain ⟨-, -, rfl⟩ | ⟨-, z, hz, rfl⟩ := enqueueResponse_cases hs
  · cases completes
    · exact h
    · exact h.flags _ _ _ _ _ _
  · have hz' := h.stage hz
    cases completes
    · exact hz'
    · exact hz'.flags _ _ _ _ _ _

theorem refill (h : x.Sound limits) {more : Bool} (hr : x.refill = (more, y)) :
    y.Sound limits := by
  have hc := h.counted.refill
  rw [hr] at hc
  refine ⟨hc, ?_, ?_⟩ <;> rw [refill_frame hr]
  · exact h.inPos_le
  · exact h.limits_eq

theorem advance (h : x.Sound limits) {n : Nat} (hn : n ≤ x.remaining) :
    (x.advance n).Sound limits :=
  ⟨h.counted.advance hn, h.inPos_le, h.limits_eq⟩

theorem compactInput (h : x.Sound limits) : x.compactInput.Sound limits := by
  rw [Connection.compactInput]
  split
  · exact h
  · exact h.input (Nat.zero_le _)

theorem consume (h : x.Sound limits) {n : Nat} (hn : n ≤ x.unconsumed.length) :
    (x.consume n).Sound limits := by
  have hle : x.inPos + n ≤ x.inBuf.length := by
    rw [unconsumed, List.length_drop] at hn
    have := h.inPos_le
    omega
  have hx : Sound limits { x with inPos := x.inPos + n } := h.input hle
  rw [Connection.consume]
  dsimp only
  split
  · exact hx.compactInput
  · exact hx

theorem nextRequest (h : x.Sound limits) {out request : Request} {result : ParseResult}
    (hn : x.nextRequest out = (result, request, y)) : y.Sound limits := by
  obtain ⟨n, hh, -, rfl⟩ | ⟨-, -, rfl⟩ | ⟨e, -, -, rfl⟩ := nextRequest_cases hn
  · exact h.consume ((head_incremental _).item_le hh)
  · exact h.compactInput
  · exact h

theorem readData (h : x.Sound limits) (bytes : Bytes) :
    Sound limits { x with inBuf := x.inBuf ++ bytes } := by
  apply h.input
  rw [List.length_append]
  exact Nat.le_add_right_of_le h.inPos_le

end Connection.Sound

namespace Server

variable {config : ServerConfig} {fds : Descriptors} {s s' : Server} {a : Action} {w : Nat}

def Buffers (config : ServerConfig) (s : Server) : Prop :=
  ∀ c, (s.conn c).Sound config.connectionLimits

theorem buffers_worker (h : s.Buffers config) (hs : WorkerStep s w s') : s'.Buffers config := by
  cases hs with
  | discard job => exact forall_setConn h ((h _).flags _ _ _ _ _ _)
  | stage job response overLimit x pc hx => exact forall_setConn h ((h _).stage hx)
  | decrement c healthy => exact forall_setConn h ((h _).flags _ _ _ _ _ _)
  | unhealthy c => exact forall_setConn h ((h _).flags _ _ _ _ _ _)
  | notify c => exact forall_setConn h ((h _).flags _ _ _ _ _ _)
  | _ => exact h

theorem buffers_loop {o : Outcome} (h : s.Buffers config) (hs : LoopStep config fds s o s') :
    s'.Buffers config := by
  cases hs with
  | finish =>
    intro c
    have hc := h c
    rw [closeAll]
    dsimp only
    split
    · exact hc.flags _ _ _ _ _ _
    · exact hc
  | ready c => exact forall_setConn h ((h c).flags _ _ _ _ _ _)
  | opened fd => exact forall_setConn h ((Connection.Sound.fresh fd _).flags _ _ _ _ _ _)
  | flushMore c k x pc hr => exact forall_setConn h ((h c).refill hr)
  | flushed c k x pc hr => exact forall_setConn h ((h c).refill hr)
  | sent c k n pc hle => exact forall_setConn h ((h c).advance hle)
  | readData c bytes => exact forall_setConn h ((h c).readData bytes)
  | needMore c out x error n pc room hn => exact forall_setConn h ((h c).nextRequest hn)
  | malformed c out x error n id opcode pc room hn =>
    exact forall_setConn h ((h c).nextRequest hn)
  | unidentified c out x error n pc room hn =>
    exact forall_setConn h (((h c).nextRequest hn).flags _ _ _ _ _ _)
  | submit c request x error n pc room hn =>
    exact forall_setConn h (((h c).nextRequest hn).flags _ _ _ _ _ _)
  | refuse c request x error n pc room hn =>
    exact forall_setConn h (((h c).nextRequest hn).flags _ _ _ _ _ _)
  | busy job ok x pc he => exact forall_setConn h ((h _).enqueueResponse he)
  | immediate c response ok x pc he =>
    have hx := (h c).enqueueResponse he
    apply forall_setConn h
    cases ok
    · exact hx
    · exact hx.flags _ _ _ _ _ _
  | closedBefore c => exact forall_setConn h ((h c).flags _ _ _ _ _ _)
  | close c => exact forall_setConn h ((h c).flags _ _ _ _ _ _)
  | register c => exact forall_setConn h ((h c).flags _ _ _ _ _ _)
  | _ => exact h

theorem step_buffers (h : s.Buffers config) (hs : Step config fds s a s') : s'.Buffers config := by
  cases hs with
  | loop hl => exact buffers_loop h hl
  | worker _ hw => exact buffers_worker h hw
  | requestShutdown => exact h

end Server

end LocalCache
