import LocalCache.ServerAccounting
import LocalCache.ServerOutput
import LocalCache.ServerClosed

namespace LocalCache.Server

open Protocol Serializer Library Transition Threads

/-- What holds in every state of every run. -/
structure Core (config : ServerConfig) (s : Server) : Prop where
  buffers : s.Buffers config
  tabled : s.Tabled config
  accounted : s.Accounted config
  streamed : s.Streamed
  discards : s.Discards

variable {config : ServerConfig} {fds : Descriptors} {s s' : Server} {a : Action}

theorem core_start (config : ServerConfig) (fds : Descriptors) :
    (start config fds).Core config where
  buffers := fun _ => .fresh 0 _
  tabled := tabled_start config fds
  accounted := accounted_start config fds
  streamed := fun _ => rfl
  discards := ⟨fun _ hj => (by cases hj), fun _ _ hj => (by cases hj)⟩

theorem step_core (h : s.Core config) (hs : Step config fds s a s') : s'.Core config where
  buffers := step_buffers h.buffers hs
  tabled := step_tabled h.tabled hs
  accounted := step_accounted h.accounted h.buffers h.tabled hs
  streamed := step_streamed h.streamed h.buffers h.tabled hs
  discards := step_discards h.discards h.tabled hs

theorem reach_core {ok : Server → Action → Prop}
    (h : Reach (step config fds) ok (start config fds) s) : s.Core config :=
  run_invariant (core_start config fds) (fun _ _ _ hp hs => step_core hp hs) h

/-- The rule for properties of runs whose steps may use what holds in every run. -/
theorem core_invariant {ok : Server → Action → Prop} {P : Server → Prop}
    (h0 : P (start config fds))
    (hstep : ∀ s a s', s.Core config → ok s a → P s → Step config fds s a s' → P s')
    (h : Reach (step config fds) ok (start config fds) s) : P s := by
  have hp : s.Core config ∧ P s := by
    refine h.invariant (P := fun s => s.Core config ∧ P s) ⟨core_start config fds, h0⟩ ?_
    intro s a s' hp hok hs
    have hs' := step_sound hs
    exact ⟨step_core hp.1 hs', hstep s a s' hp.1 hok hp.2 hs'⟩
  exact hp.2

theorem doing_le_owing (j : Job) (pc : Worker) : doing j pc ≤ owing j.connection pc := by
  cases pc <;> simp [doing, owing, Worker.job, Worker.owes]
  all_goals
    split
    · simp_all
    · exact Nat.zero_le _

theorem count_eq_zero_of_connection {jobs : List Job} {j : Job}
    (h : jobs.countP (fun i => i.connection = j.connection) = 0) : jobs.count j = 0 := by
  rw [List.count_eq_zero]
  intro hmem
  exact List.countP_eq_zero.mp h j hmem (decide_eq_true rfl)

theorem Core.taken_nodup (hc : s.Core config) : s.ledger.taken.Nodup := by
  apply List.Nodup.of_map Job.ticket
  rw [hc.accounted.tickets]
  exact List.nodup_range

theorem Core.answered_of_idle {j : Job} (hc : s.Core config) (hj : j ∈ s.ledger.taken)
    (idle : (s.conn j.connection).inflight = 0) (opened : (s.conn j.connection).closed = false) :
    s.answered j = 1 := by
  have hp := hc.accounted.places j
  rw [List.count_eq_one_of_mem hc.taken_nodup hj] at hp
  rw [hc.accounted.inflight, outstanding] at idle
  have hqueue : s.queue.count j = 0 := count_eq_zero_of_connection (by omega)
  have hdropped : s.ledger.dropped.count j = 0 := count_eq_zero_of_connection (by omega)
  have hexecuting : s.executing config j = 0 := by
    have hle := total_mono (doing_le_owing j) config.workerThreads.toNat s.worker
    rw [executing]
    omega
  have hheld : s.held j = 0 := by
    rw [held, if_neg]
    intro hl
    rw [hl, Option.map_some, if_pos rfl] at idle
    omega
  have hdiscarded : s.ledger.discarded.count j = 0 := by
    rw [List.count_eq_zero]
    intro hmem
    have hclosed := hc.discards.jobs j hmem
    rw [opened] at hclosed
    cases hclosed
  omega

theorem Core.accepted_of_flushed {c : Nat} (hc : s.Core config)
    (flushed : (s.conn c).hasPendingOutput = false) :
    (s.conn c).pendingOutputBytes = 0 ∧ s.ledger.accepted c = s.frames c := by
  have hzero : (s.conn c).pendingOutputBytes = 0 := by
    simpa [Connection.hasPendingOutput] using flushed
  have hlen := (hc.buffers c).counted.pending_eq
  rw [hzero] at hlen
  have hnil := List.eq_nil_of_length_eq_zero hlen.symm
  have hst := hc.streamed c
  rw [hnil, List.append_nil] at hst
  exact ⟨hzero, hst⟩

/-- Every request taken off a connection is queued, executed, answered, discarded with its
closed connection, dropped when the pool stopped, or, between a refused submission and the
`SERVER_BUSY` reply, in the loop's hands; never in two of these places. Its answer carries its
opcode and id on its own connection, where the answers are the frames staged. The in-flight
counters count exactly the requests not yet settled. -/
theorem one_response_per_request (config : ServerConfig) (fds : Descriptors) {s : Server}
    (h : Reach (step config fds) Free (start config fds) s) :
    (s.ledger.taken.map Job.ticket).Nodup ∧
      (∀ j ∈ s.ledger.taken,
        s.queue.count j + s.executing config j + s.answered j + s.ledger.discarded.count j +
          s.ledger.dropped.count j + (if s.loop = .busy j then 1 else 0) = 1) ∧
      (∀ j, j ∉ s.ledger.taken →
        j ∉ s.queue ∧ s.executing config j = 0 ∧ s.answered j = 0) ∧
      (∀ a ∈ s.ledger.answers, ∀ j, a.job = some j → a.connection = j.connection ∧
        a.response.opcode = j.request.opcode ∧ a.response.requestId = j.request.requestId) ∧
      (∀ c, s.ledger.accepted c ++ (s.conn c).unsent = s.frames c) ∧
      (∀ j ∈ s.ledger.discarded, (s.conn j.connection).closed = true) ∧
      (∀ c, (s.conn c).inflight = s.outstanding config c ∧
        (s.conn c).inflight ≤ config.maxInflightPerConn.toNat) ∧
      (∀ w < config.workerThreads.toNat, ∀ c, (s.worker w).owes = some c →
        0 < (s.conn c).inflight) := by
  have hc := reach_core h
  have hnodup : (s.ledger.taken.map Job.ticket).Nodup := by
    rw [hc.accounted.tickets]
    exact List.nodup_range
  have hheld : ∀ j, s.held j = if s.loop = .busy j then 1 else 0 := by
    intro j
    rw [held]
    cases s.loop <;> simp [Loop.job]
  refine ⟨hnodup, ?_, ?_, hc.accounted.answers, hc.streamed, hc.discards.jobs,
    fun c => ⟨hc.accounted.inflight c, hc.accounted.inflight_le c⟩,
    fun w hw c howes => hc.accounted.inflight_pos hw howes⟩
  · intro j hj
    have hp := hc.accounted.places j
    rw [List.count_eq_one_of_mem hc.taken_nodup hj] at hp
    rw [← hheld]
    omega
  · intro j hj
    have hp := hc.accounted.places j
    rw [List.count_eq_zero_of_not_mem hj] at hp
    exact ⟨List.count_eq_zero.mp (by omega), by omega, by omega⟩

def connect (fd : Nat) : List Action :=
  [.loop (.batch [(3, { epollin := true })]), .loop .internal, .loop (.client fd true),
    .loop .acceptStop, .loop .internal]

def ping (id : UInt64) : Bytes := serializeRequest { requestId := id }

/-- From the event of a readable client to the next wait, with nothing written: the request is
submitted and the interest stays as it is. -/
def readOne (fd : Nat) (bytes : Bytes) : List Action :=
  .loop (.batch [(fd, { epollin := true })]) :: .loop .internal ::
    .loop (.recv (.data bytes)) :: List.replicate 7 (.loop .internal) ++
    [.loop (.control true), .loop .internal]

def usualFds : Descriptors := {}

def usualConfig : ServerConfig := {}

def oneSlot : ServerConfig := { maxPendingRequests := 1 }

theorem one_response_per_request_busy :
    ∃ s : Server, Reach (step oneSlot usualFds) Free (start oneSlot usualFds) s ∧
      s.ledger.answers.map (fun a => (a.response.status, a.response.requestId)) =
        [(.kServerBusy, 2)] ∧
      (s.conn 1).inflight = 1 ∧ ∀ j ∈ s.ledger.taken, s.answered j ≤ 1 := by
  obtain ⟨s, hr, hanswers, hinflight⟩ := exists_reach
    (step oneSlot usualFds) (start oneSlot usualFds)
    (connect 7 ++ [.loop (.batch [(7, { epollin := true })]), .loop .internal,
      .loop (.recv (.data (ping 1 ++ ping 2)))] ++ List.replicate 3 (.loop .internal))
    (fun s => s.ledger.answers.map (fun a => (a.response.status, a.response.requestId)) =
      [(.kServerBusy, 2)] ∧ (s.conn 1).inflight = 1)
    (by decide +kernel)
  refine ⟨s, hr, hanswers, hinflight, fun j hj => ?_⟩
  have hone := (one_response_per_request oneSlot usualFds hr).2.1 j hj
  omega

end LocalCache.Server
