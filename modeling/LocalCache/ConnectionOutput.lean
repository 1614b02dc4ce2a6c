import LocalCache.Library.Transition
import LocalCache.Connection

namespace LocalCache.Connection

open Protocol Library Library.Transition

/-- The atomic counter agrees with the two output buffers. -/
structure Counted (c : Connection) : Prop where
  pending_eq : c.pendingOutputBytes = c.unsent.length
  writePos_le : c.writePos ≤ c.writeBuf.length
  writeBuf_le : c.writeBuf.length ≤ kVectorMaxSize
  staged_le : c.staged.length ≤ kVectorMaxSize

theorem length_unsent (c : Connection) :
    c.unsent.length = c.writeBuf.length - c.writePos + c.staged.length := by
  rw [unsent, List.length_append, List.length_drop]

theorem Counted.fresh (fd : Nat) (limits : ConnectionLimits) :
    Counted { fd := fd, limits := limits } where
  pending_eq := rfl
  writePos_le := Nat.le_refl 0
  writeBuf_le := Nat.zero_le _
  staged_le := Nat.zero_le _

theorem Counted.unsent_lt {c : Connection} (h : c.Counted) : c.unsent.length < Word64.size := by
  have hw := h.writeBuf_le
  have hs := h.staged_le
  rw [length_unsent]
  simp only [kVectorMaxSize, Word64.size] at *
  omega

theorem stage_eq {frame : Bytes} {c c' : Connection} {overLimit : Bool}
    (h : stage frame c = some (overLimit, c')) :
    c.staged.length + frame.length ≤ kVectorMaxSize ∧
      c' = { c with
        staged := c.staged ++ frame
        pendingOutputBytes := Word64.add c.pendingOutputBytes frame.length } := by
  simp only [stage] at h
  split at h
  · cases h
  · rename_i hl
    cases h
    exact ⟨Nat.le_of_not_lt hl, rfl⟩

theorem unsent_stage {frame : Bytes} {c c' : Connection} {overLimit : Bool}
    (h : stage frame c = some (overLimit, c')) : c'.unsent = c.unsent ++ frame := by
  obtain ⟨_, rfl⟩ := stage_eq h
  simp only [unsent, List.append_assoc]

theorem Counted.stage {frame : Bytes} {c c' : Connection} {overLimit : Bool} (hc : c.Counted)
    (h : stage frame c = some (overLimit, c')) : c'.Counted := by
  have hu := unsent_stage h
  obtain ⟨hl, rfl⟩ := stage_eq h
  have hst : (c.staged ++ frame).length ≤ kVectorMaxSize := by
    rw [List.length_append]
    exact hl
  have hw := hc.writeBuf_le
  have hlt : c.unsent.length + frame.length < Word64.size := by
    rw [length_unsent]
    simp only [kVectorMaxSize, Word64.size] at *
    omega
  refine ⟨?_, hc.writePos_le, hc.writeBuf_le, hst⟩
  rw [hu, List.length_append, hc.pending_eq]
  exact Word64.add_of_lt hlt

theorem unsent_refill {c : Connection} (hc : c.Counted) : (refill c).2.unsent = c.unsent := by
  have hw := hc.writePos_le
  simp only [refill]
  split
  · rename_i hp
    have hd : c.writeBuf.drop c.writePos = [] := List.drop_eq_nil_of_le hp
    split
    · rename_i hs
      simp only [unsent, hd, hs, List.drop_nil, List.append_nil]
    · simp only [unsent, hd, List.drop_zero, List.append_nil, List.nil_append]
  · rfl

theorem Counted.refill {c : Connection} (hc : c.Counted) : (refill c).2.Counted := by
  have hu := unsent_refill hc
  have hp := hc.pending_eq
  simp only [Connection.refill] at hu ⊢
  split
  · split
    · rename_i h1 h2
      rw [if_pos h1, if_pos h2] at hu
      exact ⟨by rw [hu]; exact hp, Nat.le_refl 0, Nat.zero_le _, hc.staged_le⟩
    · rename_i h1 h2
      rw [if_pos h1, if_neg h2] at hu
      exact ⟨by rw [hu]; exact hp, Nat.zero_le _, hc.staged_le, Nat.zero_le _⟩
  · exact hc

theorem refill_false {c : Connection} (h : (refill c).1 = false) :
    (refill c).2.writeBuf = [] ∧ (refill c).2.staged = [] ∧ c.writeBuf.length ≤ c.writePos ∧
      c.staged = [] := by
  simp only [refill] at h ⊢
  split at h
  · rename_i h1
    split at h
    · rename_i h2
      rw [if_pos h1, if_pos h2]
      exact ⟨rfl, h2, h1, h2⟩
    · cases h
  · cases h

theorem unsent_advance (n : Nat) (c : Connection) :
    (c.writeBuf.drop c.writePos).take n ++ (advance n c).unsent = c.unsent := by
  simp only [advance, unsent]
  rw [← List.drop_drop, ← List.append_assoc, List.take_append_drop]

theorem remaining_le_pending {c : Connection} (hc : c.Counted) :
    c.remaining ≤ c.pendingOutputBytes := by
  rw [hc.pending_eq, length_unsent, remaining]
  omega

theorem Counted.advance {n : Nat} {c : Connection} (hc : c.Counted) (hn : n ≤ c.remaining) :
    (advance n c).Counted := by
  have hu := congrArg List.length (unsent_advance n c)
  have hlt := hc.unsent_lt
  have hle := remaining_le_pending hc
  have hp := hc.pending_eq
  have hw := hc.writePos_le
  unfold remaining at hn
  rw [List.length_append, List.length_take, List.length_drop, Nat.min_eq_left hn] at hu
  refine ⟨?_, ?_, hc.writeBuf_le, hc.staged_le⟩
  · change Word64.sub c.pendingOutputBytes n = _
    rw [Word64.sub_of_le (by unfold remaining at hle; omega)]
    omega
  · change c.writePos + n ≤ c.writeBuf.length
    omega

inductive FlushPc
  | idle | refill | send
  deriving DecidableEq, Repr

/-- The writing side of an open connection, with the bytes the socket has taken
and the frames that were enqueued, in the order of their critical sections. -/
structure Output where
  conn : Connection
  pc : FlushPc := .idle
  accepted : Bytes := []
  frames : List Bytes := []
  returned : Option IoResult := none

/-- `enqueue` may come from any thread at any point of a flush. Taking bytes
into the socket and counting them is one step: no other thread sees the socket,
so nothing it does can tell the two apart. -/
inductive OutputAction
  | enqueue (frame : Bytes) (completesRequest : Bool)
  | flush
  | refill
  | send (r : Send)

def outputStep (s : Output) : OutputAction → Option Output
  | .enqueue frame completesRequest =>
    (s.conn.enqueueResponse frame completesRequest).map (fun p =>
      { s with
        conn := p.2, frames := if s.conn.closed then s.frames else s.frames ++ [frame] })
  | .flush => if s.pc = .idle then some { s with pc := .refill } else none
  | .refill =>
    if s.pc = .refill then
      match s.conn.refill with
      | (true, conn) => some { s with conn := conn, pc := .send }
      | (false, conn) => some { s with conn := conn, pc := .idle, returned := some .kOk }
    else none
  | .send r =>
    if s.pc = .send then
      match r with
      | .sent n =>
        if n > s.conn.remaining then none
        else if n > 0 then
          some { s with
            conn := s.conn.advance n
            accepted := s.accepted ++ (s.conn.writeBuf.drop s.conn.writePos).take n
            pc := .refill }
        else some { s with pc := .idle, returned := some .kError }
      | .eintr => some { s with pc := .refill }
      | .eagain => some { s with pc := .idle, returned := some .kWouldBlock }
      | .error => some { s with pc := .idle, returned := some .kError }
    else none

structure Output.Inv (s : Output) : Prop where
  counted : s.conn.Counted
  stream : s.accepted ++ s.conn.unsent = s.frames.flatten

theorem unsent_completeRequest (c : Connection) : c.completeRequest.unsent = c.unsent := by
  simp only [unsent, completeRequest]

theorem Counted.completeRequest {c : Connection} (hc : c.Counted) : c.completeRequest.Counted where
  pending_eq := by rw [unsent_completeRequest]; exact hc.pending_eq
  writePos_le := hc.writePos_le
  writeBuf_le := hc.writeBuf_le
  staged_le := hc.staged_le

theorem Counted.enqueueResponse {frame : Bytes} {completesRequest ok : Bool} {c c' : Connection}
    (hc : c.Counted) (h : enqueueResponse frame completesRequest c = some (ok, c')) :
    c'.Counted ∧ c'.unsent = if c.closed then c.unsent else c.unsent ++ frame := by
  simp only [Connection.enqueueResponse] at h
  split at h
  · rename_i hcl
    cases h
    rw [if_pos hcl]
    cases completesRequest
    · exact ⟨hc, rfl⟩
    · exact ⟨hc.completeRequest, unsent_completeRequest c⟩
  · rename_i hcl
    simp only [Option.map_eq_some_iff, Prod.mk.injEq] at h
    obtain ⟨⟨overLimit, d⟩, hs, -, rfl⟩ := h
    have hd := hc.stage hs
    rw [if_neg hcl]
    cases completesRequest
    · exact ⟨hd, unsent_stage hs⟩
    · exact ⟨hd.completeRequest, (unsent_completeRequest d).trans (unsent_stage hs)⟩

theorem outputStep_inv {s s' : Output} {a : OutputAction} (h : s.Inv)
    (hs : outputStep s a = some s') : s'.Inv := by
  obtain ⟨hc, hst⟩ := h
  cases a with
  | enqueue frame completesRequest =>
    simp only [outputStep, Option.map_eq_some_iff] at hs
    obtain ⟨⟨ok, c⟩, he, rfl⟩ := hs
    obtain ⟨hcc, hu⟩ := hc.enqueueResponse he
    refine ⟨hcc, ?_⟩
    change s.accepted ++ c.unsent = _
    rw [hu]
    split
    · exact hst
    · rw [List.flatten_append, List.flatten_singleton, ← List.append_assoc, hst]
  | flush =>
    simp only [outputStep] at hs
    split at hs
    · cases hs
      exact ⟨hc, hst⟩
    · cases hs
  | refill =>
    have hr := hc.refill
    have hu := unsent_refill hc
    simp only [outputStep] at hs
    split at hs
    · split at hs
      · rename_i c he
        cases hs
        rw [he] at hr hu
        exact ⟨hr, by rw [hu]; exact hst⟩
      · rename_i c he
        cases hs
        rw [he] at hr hu
        exact ⟨hr, by rw [hu]; exact hst⟩
    · cases hs
  | send r =>
    simp only [outputStep] at hs
    split at hs
    · cases r with
      | sent n =>
        simp only at hs
        split at hs
        · cases hs
        · rename_i hn
          split at hs
          · cases hs
            refine ⟨hc.advance (Nat.le_of_not_lt hn), ?_⟩
            rw [List.append_assoc, unsent_advance]
            exact hst
          · cases hs
            exact ⟨hc, hst⟩
      | eintr => cases hs; exact ⟨hc, hst⟩
      | eagain => cases hs; exact ⟨hc, hst⟩
      | error => cases hs; exact ⟨hc, hst⟩
    · cases hs

def Output.init (fd : Nat) (limits : ConnectionLimits) : Output where
  conn := { fd := fd, limits := limits }

theorem reach_output_inv {fd : Nat} {limits : ConnectionLimits} {s : Output}
    (h : Reach outputStep Free (Output.init fd limits) s) : s.Inv :=
  h.invariant ⟨.fresh fd limits, rfl⟩ (fun _ _ _ hi _ hs => outputStep_inv hi hs)

/-- Nothing is dropped, repeated or interleaved on the way out, the backlog
counter is exact and never underflows, and a flush that reports success found
both buffers empty. -/
theorem output_stream_exact (fd : Nat) (limits : ConnectionLimits) (s : Output)
    (h : Reach outputStep Free (Output.init fd limits) s) :
    s.accepted ++ (s.conn.writeBuf.drop s.conn.writePos ++ s.conn.staged) = s.frames.flatten ∧
    s.conn.pendingOutputBytes = (s.conn.writeBuf.drop s.conn.writePos ++ s.conn.staged).length ∧
    (∀ n s', 0 < n → outputStep s (.send (.sent n)) = some s' →
      n ≤ s.conn.pendingOutputBytes ∧
        s'.conn.pendingOutputBytes = s.conn.pendingOutputBytes - n) ∧
    (∀ a s', outputStep s a = some s' → s.pc ≠ .idle → s'.pc = .idle →
      s'.returned = some .kOk → s'.conn.writeBuf = [] ∧ s'.conn.staged = []) := by
  have hi := reach_output_inv h
  refine ⟨hi.stream, hi.counted.pending_eq, ?_, ?_⟩
  · intro n s' hpos hs
    simp only [outputStep] at hs
    split at hs
    · split at hs
      · cases hs
      · rename_i hn
        cases hs
        have hle := remaining_le_pending hi.counted
        exact ⟨by omega, Word64.sub_of_le (by omega)⟩
    · cases hs
  · intro a s' hs hpc hpc' hret
    cases a with
    | enqueue frame completesRequest =>
      simp only [outputStep, Option.map_eq_some_iff] at hs
      obtain ⟨p, _, rfl⟩ := hs
      exact absurd hpc' hpc
    | flush =>
      simp only [outputStep, if_neg hpc] at hs
      cases hs
    | refill =>
      simp only [outputStep] at hs
      split at hs
      · split at hs
        · cases hs; cases hpc'
        · rename_i c he
          cases hs
          have hf := refill_false (c := s.conn) (by rw [he])
          rw [he] at hf
          exact ⟨hf.1, hf.2.1⟩
      · cases hs
    | send r =>
      simp only [outputStep] at hs
      split at hs
      · cases r with
        | sent n =>
          simp only at hs
          split at hs
          · cases hs
          · split at hs
            · cases hs; cases hpc'
            · cases hs; cases hret
        | eintr => cases hs; cases hpc'
        | eagain => cases hs; cases hret
        | error => cases hs; cases hret
      · cases hs

theorem output_stream_short_writes : ∃ s : Output,
    s.accepted = [1, 2, 3, 4] ∧ s.conn.pendingOutputBytes = 0 ∧
      s.accepted ++ (s.conn.writeBuf.drop s.conn.writePos ++ s.conn.staged) =
        s.frames.flatten := by
  obtain ⟨s, hr, haccepted, hpending⟩ := exists_reach outputStep (Output.init 7 {})
    [.enqueue [1, 2, 3] true, .flush, .refill, .send (.sent 1), .enqueue [4] true, .refill,
      .send .eintr, .refill, .send (.sent 2), .refill, .send (.sent 1), .refill]
    (fun s => s.accepted = [1, 2, 3, 4] ∧ s.conn.pendingOutputBytes = 0)
    (by decide +kernel)
  have h := output_stream_exact 7 {} s hr
  exact ⟨s, haccepted, hpending, h.1⟩

end LocalCache.Connection
