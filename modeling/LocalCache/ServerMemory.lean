import LocalCache.ServerParsing

namespace LocalCache.Server

open Protocol Serializer Library Transition RequestStream

def inputBound (config : ServerConfig) : Nat :=
  kHeaderSize + config.maxKeyBytes.toNat + config.maxValueBytes.toNat + kReadChunkBytes

/-- The condition on a read that brings data: the connection holds no frame that could be
parsed without it. -/
def ReadsOnDemand (s : Server) (a : Action) : Prop :=
  s.OnData a fun c _ =>
    (deserializeRequest (s.conn c).unconsumed (s.conn c).limits.protocolLimits {}).1.status =
      .kNeedMoreData

instance (s : Server) (a : Action) : Decidable (s.ReadsOnDemand a) :=
  inferInstanceAs (Decidable (s.OnData a _))

variable {config : ServerConfig} {fds : Descriptors} {s s' : Server} {a : Action} {o : Outcome}
  {w c : Nat}

theorem length_nextRequest {x y : Connection} {out request : Request} {result : ParseResult}
    (h : x.nextRequest out = (result, request, y)) :
    y.unconsumed.length ≤ x.unconsumed.length := by
  obtain ⟨n, -, -, rfl⟩ | ⟨-, -, rfl⟩ | ⟨e, -, -, rfl⟩ := Connection.nextRequest_cases h
  · rw [Connection.unconsumed_consume, List.length_drop]
    exact Nat.sub_le _ _
  · rw [Connection.unconsumed_compactInput]
  · exact Nat.le_refl _

theorem length_read {x : Connection} {bytes : Bytes}
    (hx : x.Sound config.connectionLimits)
    (more : (deserializeRequest x.unconsumed x.limits.protocolLimits {}).1.status =
      .kNeedMoreData) (valid : (Recv.data bytes).valid = true) :
    (x.unconsumed ++ bytes).length ≤ inputBound config := by
  have hmore : head x.limits.protocolLimits x.unconsumed = .more := by
    rw [head_of_deserialize _ _ {}, more]
  have hlen := length_of_more hmore
  have hkey : x.limits.protocolLimits.maxKeyBytes.toNat ≤ config.maxKeyBytes.toNat := by
    rw [hx.limits_eq]
    exact Nat.mod_le _ _
  have hvalue : x.limits.protocolLimits.maxValueBytes.toNat ≤ config.maxValueBytes.toNat := by
    rw [hx.limits_eq]
    exact Nat.mod_le _ _
  simp only [Recv.valid, Bool.and_eq_true, decide_eq_true_eq] at valid
  rw [List.length_append, inputBound]
  omega

def Bounded (config : ServerConfig) (s : Server) : Prop :=
  ∀ c, (s.conn c).unconsumed.length ≤ inputBound config

theorem Bounded.update {x : Connection} (h : s.Bounded config) (conn : s'.conn = s.setConn c x)
    (hx : x.unconsumed.length ≤ inputBound config) : s'.Bounded config := by
  intro d
  rw [conn, setConn_apply]
  split
  · exact hx
  · exact h d

theorem bounded_worker (h : s.Bounded config) (hs : WorkerStep s w s') : s'.Bounded config := by
  cases hs with
  | stage job response overLimit x pc hx =>
    refine h.update rfl ?_
    rw [Connection.stage_frame hx]
    exact h job.connection
  | discard job => exact h.update rfl (h job.connection)
  | decrement c | unhealthy c | notify c => exact h.update rfl (h c)
  | _ => exact h

theorem bounded_loop (h : s.Bounded config) (hb : s.Buffers config)
    (demanded : s.ReadsOnDemand (.loop o)) (hs : LoopStep config fds s o s') :
    s'.Bounded config := by
  cases hs with
  | readData c bytes pc valid =>
    have more : (deserializeRequest (s.conn c).unconsumed (s.conn c).limits.protocolLimits
        {}).1.status = .kNeedMoreData := by
      simpa only [ReadsOnDemand, OnData, pc] using demanded
    have hlen := length_read (hb c) more valid
    rw [Connection.unconsumed, ← List.drop_append_of_le_length (hb c).inPos_le] at hlen
    exact h.update rfl hlen
  | finish pc =>
    intro c
    rw [closeAll]
    dsimp only
    split <;> exact h c
  | opened fd pc => exact h.update rfl (Nat.zero_le _)
  | flushMore c k x pc hr | flushed c k x pc hr =>
    refine h.update rfl ?_
    rw [Connection.refill_frame hr]
    exact h c
  | needMore c out x error n pc room next =>
    exact h.update rfl (Nat.le_trans (length_nextRequest next) (h c))
  | malformed c out x error n id opcode pc room next =>
    exact h.update rfl (Nat.le_trans (length_nextRequest next) (h c))
  | unidentified c out x error n pc room next =>
    have hx := Nat.le_trans (length_nextRequest next) (h c)
    exact h.update rfl hx
  | submit c request x error n pc room next | refuse c request x error n pc room next =>
    have hx := Nat.le_trans (length_nextRequest next) (h c)
    exact h.update rfl hx
  | busy job ok x pc he =>
    refine h.update rfl ?_
    rw [Connection.enqueueResponse_frame he]
    exact h job.connection
  | immediate c response ok x pc he =>
    have hx : x.unconsumed.length ≤ inputBound config := by
      rw [Connection.enqueueResponse_frame he]
      exact h c
    refine h.update rfl ?_
    cases ok <;> exact hx
  | ready c | sent c | closedBefore c | close c | register c => exact h.update rfl (h c)
  | _ => exact h

/-- In a run that reads from a connection only when it holds no complete frame, its unconsumed
input is at most one frame and one read. -/
theorem input_bounded (config : ServerConfig) (fds : Descriptors) {s : Server}
    (h : Reach (step config fds) ReadsOnDemand (start config fds) s) (c : Nat) :
    (s.conn c).inBuf.length - (s.conn c).inPos ≤ inputBound config := by
  rw [← List.length_drop]
  refine core_invariant (P := Bounded config) (fun _ => Nat.zero_le _) ?_ h c
  intro s a s' hc demanded hp hs
  cases hs with
  | loop hl => exact bounded_loop hp hc.buffers demanded hl
  | worker _ hs => exact bounded_worker hp hs
  | requestShutdown => exact hp

theorem input_bounded_pieces :
    ∃ s : Server, Reach (step usualConfig usualFds) ReadsOnDemand (start usualConfig usualFds) s ∧
      (s.conn 1).inBuf.length = 24 ∧
      (s.conn 1).inBuf.length - (s.conn 1).inPos ≤ inputBound usualConfig := by
  obtain ⟨s, hr, hlen⟩ := exists_reach
    (guarded (step usualConfig usualFds) ReadsOnDemand) (start usualConfig usualFds)
    (connect 7 ++ [.loop (.batch [(7, { epollin := true })]), .loop .internal,
      .loop (.recv (.data ((ping 1).take 10)))] ++ List.replicate 6 (.loop .internal) ++
      [.loop (.control true), .loop .internal,
        .loop (.batch [(7, { epollin := true })]), .loop .internal,
        .loop (.recv (.data ((ping 1).drop 10)))])
    (fun s => (s.conn 1).inBuf.length = 24)
    (by decide +kernel)
  exact ⟨s, hr.of_guarded, hlen, input_bounded usualConfig usualFds hr.of_guarded 1⟩

def smallFrames : ServerConfig :=
  { maxKeyBytes := 1, maxValueBytes := 1, maxInflightPerConn := 1, workerThreads := 1 }

/-- A completion switches reading on again although three requests wait in the buffer; a full
read on top of them passes the bound. -/
theorem input_exceeds_bound :
    smallFrames.validate = none ∧
      ∃ s : Server, Reach (step smallFrames usualFds) Free (start smallFrames usualFds) s ∧
        (7, 1) ∈ s.connections ∧
        inputBound smallFrames < (s.conn 1).inBuf.length - (s.conn 1).inPos := by
  refine ⟨by decide +kernel, ?_⟩
  obtain ⟨s, hr, hloop, hmem, hpos, hlen⟩ := exists_reach
    (step smallFrames usualFds) (start smallFrames usualFds)
    (answerFirst (ping 1 ++ ping 2 ++ ping 3 ++ ping 4) ++
      [.loop (.batch [(7, { epollin := true })]), .loop .internal])
    (fun s => s.loop = .read 1 ∧ (7, 1) ∈ s.connections ∧ (s.conn 1).inPos = 24 ∧
      (s.conn 1).inBuf.length = 96)
    (by decide +kernel)
  -- The chunk is kept symbolic: only its length matters.
  have hchunk : (List.replicate kReadChunkBytes (0 : UInt8)).length = 65536 :=
    List.length_replicate
  generalize List.replicate kReadChunkBytes (0 : UInt8) = chunk at hchunk
  have hvalid : (Recv.data chunk).valid = true := by
    simp [Recv.valid, hchunk, kReadChunkBytes]
  have hstep : step smallFrames usualFds s (.loop (.recv (.data chunk))) =
      some { s with
        conn := s.setConn 1 { s.conn 1 with inBuf := (s.conn 1).inBuf ++ chunk }
        loop := .process 1 } := by
    simp [step, loopStep, hloop, onRead, hvalid, Connection.readSome]
  refine ⟨_, .tail hr trivial hstep, hmem, ?_⟩
  dsimp only
  rw [setConn_same, List.length_append, hchunk, hpos, hlen]
  decide +kernel

end LocalCache.Server
