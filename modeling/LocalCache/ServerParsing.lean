import LocalCache.ServerInput

namespace LocalCache.Server

open Protocol Serializer Library Transition RequestStream

/-- The condition on a read that brings data: the requests it completes, and a malformed frame
at their end, fit what is left of the connection's in-flight window. -/
def InWindow (s : Server) (a : Action) : Prop :=
  s.OnData a fun c bytes =>
    demand (s.conn c).limits.protocolLimits ((s.conn c).unconsumed ++ bytes) +
      (s.conn c).inflight ≤ (s.conn c).limits.maxInflight.toNat

instance (s : Server) (a : Action) : Decidable (s.InWindow a) :=
  inferInstanceAs (Decidable (s.OnData a _))

variable {config : ServerConfig} {fds : Descriptors} {s s' : Server} {a : Action} {o : Outcome}
  {w c : Nat}

theorem Settled.room (h : s.Settled c) (hc : s.Core config) (pc : s.loop.ends = none) :
    (s.conn c).closed = true ∨ (s.conn c).closeAfterFlush = true ∨
      demand (s.conn c).limits.protocolLimits (s.conn c).unconsumed + (s.conn c).inflight ≤
        (s.conn c).limits.maxInflight.toNat := by
  obtain h | h | h | h | h := h
  · exact .inl h
  · exact .inr (.inl h)
  · have hle := hc.accounted.inflight_le c
    rw [demand_more h, (hc.buffers c).limits_eq, Nat.zero_add]
    exact .inr (.inr hle)
  · exact .inr (.inr h.2)
  · rw [pc] at h
    cases h

/-- One request is taken off: the window has one place less, the input one request less. -/
theorem settled_taken {out request : Request} {x : Connection} {error : ParseError} {n : Nat}
    (h : s.Settled c) (hc : s.Core config) (pc : s.loop = .process c)
    (room : (s.conn c).inflightLimitReached = false)
    (next : (s.conn c).nextRequest out = (⟨.kComplete, error, n⟩, request, x))
    (conn : s'.conn c = x.noteRequestSubmitted) (parses : s'.loop.parses = some c) :
    s'.Settled c := by
  obtain ⟨hlim, hinfl, hdem, -⟩ := nextRequest_demand next
  have hf := Connection.nextRequest_frame next
  have hlt : (s.conn c).inflight + 1 < Word64.size := by
    have hmax := (s.conn c).limits.maxInflight.toNat_lt
    simp only [Connection.inflightLimitReached, decide_eq_false_iff_not] at room
    simp only [Word64.size]
    omega
  have hnote : x.noteRequestSubmitted.inflight = (s.conn c).inflight + 1 := by
    rw [Connection.noteRequestSubmitted, hinfl]
    exact Word64.add_of_lt hlt
  rw [Settled, conn]
  obtain h | h | h := h.room hc (by rw [pc]; rfl)
  · left
    rw [hf]
    exact h
  · right
    left
    rw [hf]
    exact h
  · refine .inr (.inr (.inr (.inl ⟨parses, ?_⟩)))
    have hd : demand x.limits.protocolLimits x.unconsumed + 1 =
        demand (s.conn c).limits.protocolLimits (s.conn c).unconsumed := hdem
    have hgoal : demand x.limits.protocolLimits x.unconsumed +
        x.noteRequestSubmitted.inflight ≤ x.limits.maxInflight.toNat := by
      rw [hnote, hlim]
      rw [hlim] at hd
      omega
    exact hgoal

theorem settled_busy {job : Job} {ok : Bool} {x : Connection} {frame : Bytes}
    (h : s.Settled job.connection) (hc : s.Core config) (pc : s.loop = .busy job)
    (he : (s.conn job.connection).enqueueResponse frame true = some (ok, x))
    (conn : s'.conn job.connection = x)
    (loop : s'.loop = if ok then .process job.connection else .close job.connection false) :
    s'.Settled job.connection := by
  cases ok with
  | false => exact .inr (.inr (.inr (.inr (by rw [loop]; rfl))))
  | true =>
    have hf := Connection.enqueueResponse_frame he
    have hle : x.inflight ≤ (s.conn job.connection).inflight := by
      rw [inflight_enqueueResponse he (hc.accounted.busy_pos pc)]
      exact Nat.sub_le _ _
    refine h.keep ?_ (fun _ => by rw [loop]; rfl) (fun hends => by rw [pc] at hends; cases hends)
    rw [conn]
    refine ⟨?_, ?_, ?_, ?_, hle⟩ <;> rw [hf]
    · rfl
    · exact id
    · exact id

theorem settled_loop (h : ∀ c, s.Settled c) (hc : s.Core config)
    (window : s.InWindow (.loop o)) (hs : LoopStep config fds s o s') : ∀ c, s'.Settled c := by
  cases hs with
  | readData c bytes pc =>
    refine .only h (c := c) (by rw [pc]; rfl) (fun d hd => setConn_of_ne hd s _) ?_
    have hroom : demand (s.conn c).limits.protocolLimits ((s.conn c).unconsumed ++ bytes) +
        (s.conn c).inflight ≤ (s.conn c).limits.maxInflight.toNat := by
      simpa only [InWindow, OnData, pc] using window
    refine .inr (.inr (.inr (.inl ⟨rfl, ?_⟩)))
    dsimp only
    rw [setConn_same, Connection.unconsumed, List.drop_append_of_le_length (hc.buffers c).inPos_le]
    exact hroom
  | readRetry c pc =>
    refine .only h (c := c) (by rw [pc]; rfl) (fun _ _ => rfl) ?_
    obtain h | h | h := (h c).room hc (by rw [pc]; rfl)
    · exact .inl h
    · exact .inr (.inl h)
    · exact .inr (.inr (.inr (.inl ⟨rfl, h⟩)))
  | limit c pc full =>
    refine .only h (c := c) (by rw [pc]; rfl) (fun _ _ => rfl) ?_
    obtain h | h | h := (h c).room hc (by rw [pc]; rfl)
    · exact .inl h
    · exact .inr (.inl h)
    · refine .inr (.inr (.inl (head_of_demand ?_)))
      have hfull : (s.conn c).limits.maxInflight.toNat ≤ (s.conn c).inflight :=
        of_decide_eq_true full
      dsimp only
      omega
  | needMore c out x error n pc room next =>
    refine .only h (c := c) (by rw [pc]; rfl) (fun d hd => setConn_of_ne hd s _) ?_
    refine .inr (.inr (.inl ?_))
    dsimp only
    rw [setConn_same]
    exact (nextRequest_demand next).2.2.2 rfl
  | malformed c out x error n id opcode pc =>
    exact .only h (c := c) (by rw [pc]; rfl) (fun d hd => setConn_of_ne hd s _)
      (.inr (.inr (.inr (.inr rfl))))
  | unidentified c out x error n pc =>
    refine .only h (c := c) (by rw [pc]; rfl) (fun d hd => setConn_of_ne hd s _)
      (.inr (.inl ?_))
    dsimp only
    rw [setConn_same]
  | submit c request x error n pc room next =>
    exact .only h (c := c) (by rw [pc]; rfl) (fun d hd => setConn_of_ne hd s _)
      (settled_taken (h c) hc pc room next (setConn_same s _ _) (by rw [pc]; rfl))
  | refuse c request x error n pc room next =>
    exact .only h (c := c) (by rw [pc]; rfl) (fun d hd => setConn_of_ne hd s _)
      (settled_taken (h c) hc pc room next (setConn_same s _ _) rfl)
  | busy job ok x pc he =>
    exact .only h (c := job.connection) (by rw [pc]; rfl) (fun d hd => setConn_of_ne hd s _)
      (settled_busy (h _) hc pc he (setConn_same s _ _) rfl)
  | immediate c response ok x pc he =>
    refine .only h (c := c) (by rw [pc]; rfl) (fun d hd => setConn_of_ne hd s _) ?_
    cases ok with
    | false => exact .inr (.inr (.inr (.inr rfl)))
    | true =>
      refine .inr (.inl ?_)
      dsimp only
      rw [setConn_same, if_pos rfl]
  | closedBefore c malformed pc closed =>
    refine .only h (c := c) (by rw [pc]; rfl) (fun d hd => setConn_of_ne hd s _) (.inl ?_)
    dsimp only
    rw [setConn_same]
    exact closed
  | close c malformed pc =>
    refine .only h (c := c) (by rw [pc]; rfl) (fun d hd => setConn_of_ne hd s _) (.inl ?_)
    dsimp only
    rw [setConn_same]
  | opened fd pc =>
    refine .update h rfl ?_ (by simp [pc, Loop.parses]) (by simp [pc, Loop.ends])
    rw [hc.tabled.fresh _ (Nat.le_refl _)]
    exact ⟨rfl, rfl, id, id, Nat.le_refl _⟩
  | finish pc =>
    intro c
    refine (h c).keep ?_ (by simp [pc, Loop.parses]) (by simp [pc, Loop.ends])
    rw [closeAll]
    dsimp only
    split
    · exact ⟨rfl, rfl, fun _ => rfl, id, Nat.le_refl _⟩
    · exact .refl _
  | flushMore c k x pc hr | flushed c k x pc hr =>
    exact .update h rfl (.of_refill hr) (by simp [pc, Loop.parses]) (by simp [pc, Loop.ends])
  | ready c _ pc | sent c _ _ pc | register c _ pc =>
    exact .update h rfl ⟨rfl, rfl, id, id, Nat.le_refl _⟩ (by simp [pc, Loop.parses])
      (by simp [pc, Loop.ends])
  | _ =>
    refine fun c => (h c).keep (.refl _) ?_ ?_ <;> simp_all [Loop.parses, Loop.ends]

theorem step_settled (h : ∀ c, s.Settled c) (hc : s.Core config) (window : s.InWindow a)
    (hs : Step config fds s a s') : ∀ c, s'.Settled c := by
  cases hs with
  | loop hl => exact settled_loop h hc window hl
  | worker hw hs => exact settled_worker h hc.accounted hw hs
  | requestShutdown => exact fun c => (h c).keep (.refl _) id id

theorem settled_start (config : ServerConfig) (fds : Descriptors) (c : Nat) :
    (start config fds).Settled c :=
  .inr (.inr (.inl (head_short (Nat.succ_pos 23))))

/-- In a run whose reads stay within the in-flight windows, no connection of the table holds a
request while the loop waits. -/
theorem no_request_stranded (config : ServerConfig) (fds : Descriptors) {s : Server}
    (h : Reach (step config fds) InWindow (start config fds) s) (waits : s.loop = .wait)
    (fd c : Nat) (hc : (fd, c) ∈ s.connections) (stays : (s.conn c).closeAfterFlush = false)
    (out : Request) :
    (deserializeRequest (s.conn c).unconsumed (s.conn c).limits.protocolLimits out).1.status =
      .kNeedMoreData := by
  have hset : ∀ c, s.Settled c := core_invariant (settled_start config fds)
    (fun _ _ _ hc ok hp hs => step_settled hp hc ok hs) h
  have hopen := ((reach_core h).tabled.entry hc).2.1
  have hmore : head (s.conn c).limits.protocolLimits (s.conn c).unconsumed = .more := by
    obtain hc | hc | hc | hc | hc := hset c
    · rw [hopen] at hc
      cases hc
    · rw [stays] at hc
      cases hc
    · exact hc
    · rw [waits] at hc
      cases hc.1
    · rw [waits] at hc
      cases hc
  rw [head_of_deserialize _ _ out] at hmore
  split at hmore
  · cases hmore
  · assumption
  · cases hmore

theorem no_request_stranded_ping :
    ∃ s : Server, Reach (step usualConfig usualFds) InWindow (start usualConfig usualFds) s ∧
      s.ledger.taken.length = 1 ∧
      (deserializeRequest (s.conn 1).unconsumed (s.conn 1).limits.protocolLimits {}).1.status =
        .kNeedMoreData := by
  obtain ⟨s, hr, hwait, hmem, hstays, htaken⟩ := exists_reach
    (guarded (step usualConfig usualFds) InWindow) (start usualConfig usualFds)
    (connect 7 ++ readOne 7 (ping 1))
    (fun s => s.loop = .wait ∧ (7, 1) ∈ s.connections ∧ (s.conn 1).closeAfterFlush = false ∧
      s.ledger.taken.length = 1)
    (by decide +kernel)
  exact ⟨s, hr.of_guarded, htaken,
    no_request_stranded usualConfig usualFds hr.of_guarded hwait 7 1 hmem hstays {}⟩

def oneInflight : ServerConfig := { maxInflightPerConn := 1, workerThreads := 1 }

def answerFirst (bytes : Bytes) : List Action :=
  connect 7 ++ [.loop (.batch [(7, { epollin := true })]), .loop .internal,
    .loop (.recv (.data bytes))] ++ List.replicate 6 (.loop .internal) ++
    [.loop (.control true), .loop .internal] ++ List.replicate 10 (.worker 0 0) ++
    [.loop (.batch [(6, { epollin := true })])] ++ List.replicate 5 (.loop .internal) ++
    [.loop (.send (.sent 24))] ++ List.replicate 5 (.loop .internal) ++
    [.loop (.control true), .loop .internal]

/-- Two requests in one read with a window of one: when the first is answered and written, the
second is still in the buffer, and nothing but further input of the client will move it. -/
theorem request_stranded :
    oneInflight.validate = none ∧
      ∃ s : Server, Reach (step oneInflight usualFds) Free (start oneInflight usualFds) s ∧
        s.loop = .wait ∧ s.draining = false ∧ s.queue = [] ∧ s.worker 0 = .waiting ∧
        s.readyConnections = [] ∧ s.completionCount = 0 ∧ (7, 1) ∈ s.connections ∧
        (s.conn 1).closeAfterFlush = false ∧
        (s.conn 1).inflight < (s.conn 1).limits.maxInflight.toNat ∧
        (deserializeRequest (s.conn 1).unconsumed (s.conn 1).limits.protocolLimits {}).1.status =
          .kComplete := by
  refine ⟨by decide +kernel, exists_reach (step oneInflight usualFds)
    (start oneInflight usualFds) (answerFirst (ping 1 ++ ping 2)) _ ?_⟩
  decide +kernel

end LocalCache.Server
