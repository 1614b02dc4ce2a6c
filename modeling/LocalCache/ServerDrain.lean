import LocalCache.ServerParsing
import LocalCache.ServerStreams

namespace LocalCache

open Protocol Serializer Library Transition

/-- Positions from which a connection is accepted or read, or a request submitted. -/
def Loop.intake : Loop → Bool
  | .accept | .read _ | .process _ | .busy _ | .immediate _ _ => true
  | _ => false

/-- The loop is inside `drain_complete`, past the check of the queue. -/
def Loop.checks : Loop → Bool
  | .drainInflight _ | .drainPending _ _ => true
  | _ => false

namespace Server

/-- While the server drains, nothing comes in. -/
structure Sealed (s : Server) : Prop where
  listen : s.draining = true → s.listenFd = none
  intake : s.draining = true → s.loop.intake = false

variable {config : ServerConfig} {fds : Descriptors} {s s' : Server} {a : Action} {o : Outcome}
  {w c : Nat}

theorem intake_afterWritable (hd : s.draining = true) (c : Nat) (e : Events) :
    (s.afterWritable c e).intake = false := by
  rw [afterWritable, hd]
  rfl

theorem intake_connectionEvent (hd : s.draining = true) (c : Nat) (e : Events) :
    (s.connectionEvent c e).intake = false := by
  rw [connectionEvent]
  split
  · rfl
  · split
    · rfl
    · split
      · rfl
      · exact intake_afterWritable hd c e

theorem intake_resume (hd : s.draining = true) (c : Nat) (k : Resume) :
    (s.resume c k).intake = false := by
  cases k with
  | events e => exact intake_afterWritable hd c e
  | done => rfl

theorem intake_updateInterest (s : Server) (c : Nat) : (s.updateInterest c).intake = false :=
  updateInterest_where (P := fun l => l.intake = false) s c rfl rfl

theorem Sealed.move (h : s.Sealed) (draining : s'.draining = s.draining)
    (listen : s.listenFd = none → s'.listenFd = none)
    (loop : s.draining = true → s.loop.intake = false → s'.loop.intake = false) :
    s'.Sealed where
  listen := fun hd => listen (h.listen (draining ▸ hd))
  intake := fun hd => loop (draining ▸ hd) (h.intake (draining ▸ hd))

theorem sealed_loop (h : s.Sealed) (hs : LoopStep config fds s o s') : s'.Sealed := by
  cases hs with
  | shutdownFirst fd events owner rest pc =>
    exact ⟨fun _ => rfl, fun _ => by dsimp only; rw [pc]; rfl⟩
  | listener fd events owner rest pc todo hfd =>
    refine h.move rfl id (fun hd _ => ?_)
    rw [h.listen hd] at hfd
    cases hfd
  | event fd events owner rest d => exact h.move rfl id (fun hd _ => intake_connectionEvent hd d _)
  | flushed d k | sendAgain d k => exact h.move rfl id (fun hd _ => intake_resume hd d k)
  | interest d => exact h.move rfl id (fun _ _ => intake_updateInterest s d)
  | closeCheck d =>
    refine h.move rfl id (fun _ _ => ?_)
    dsimp only
    split
    · rfl
    · exact intake_updateInterest s d
  | reject _ _ pc | addFailed _ pc | opened _ pc | acceptRetry pc | acceptStop pc
  | readData _ _ pc | readRetry _ pc | readAgain _ pc | readEnd _ _ pc | limit _ pc
  | needMore _ _ _ _ _ pc | malformed _ _ _ _ _ _ _ pc | unidentified _ _ _ _ _ pc
  | submit _ _ _ _ _ pc | refuse _ _ _ _ _ pc | busy _ _ _ pc | immediate _ _ _ _ pc =>
    refine h.move rfl id (fun _ hl => ?_)
    rw [pc] at hl
    cases hl
  | waitFailed | drained | expired => exact h.move rfl (fun _ => rfl) (fun _ _ => rfl)
  | interrupted | shutdownAgain | signalled | stale => exact h.move rfl id (fun _ hl => hl)
  | endBatch | ready | closedBefore | close | drainPool | drainInflight | drainPending =>
    refine h.move rfl id (fun _ _ => ?_)
    dsimp only
    split <;> rfl
  | _ => exact h.move rfl id (fun _ _ => rfl)

theorem step_sealed (h : s.Sealed) (hs : Step config fds s a s') : s'.Sealed := by
  cases hs with
  | loop hl => exact sealed_loop h hl
  | worker _ hs => cases hs <;> exact h.move rfl id (fun _ hl => hl)
  | requestShutdown => exact h.move rfl id (fun _ hl => hl)

theorem reach_sealed {ok : Server → Action → Prop}
    (h : Reach (step config fds) ok (start config fds) s) : s.Sealed :=
  run_invariant ⟨fun hd => (by cases hd), fun _ => rfl⟩ (fun _ _ _ hp hs => step_sealed hp hs) h

theorem sealed_step (h : s.Sealed) (hd : s.draining = true) (hs : Step config fds s a s') :
    s'.draining = true ∧ s'.nextConnectionId = s.nextConnectionId ∧
      s'.ledger.taken = s.ledger.taken ∧ s'.queue <:+ s.queue := by
  have hl := h.intake hd
  cases hs with
  | loop hs =>
    cases hs with
    | shutdownFirst => exact ⟨rfl, rfl, rfl, List.suffix_refl _⟩
    | addFailed _ pc | opened _ pc | submit _ _ _ _ _ pc | refuse _ _ _ _ _ pc | busy _ _ _ pc
    | immediate _ _ _ _ pc =>
      rw [pc] at hl
      cases hl
    | stopExpired => exact ⟨hd, rfl, rfl, List.nil_suffix⟩
    | _ => exact ⟨hd, rfl, rfl, List.suffix_refl _⟩
  | worker _ hs =>
    cases hs with
    | take job queue pc hq =>
      refine ⟨hd, rfl, rfl, ?_⟩
      rw [hq]
      exact List.suffix_cons _ _
    | _ => exact ⟨hd, rfl, rfl, List.suffix_refl _⟩
  | requestShutdown => exact ⟨hd, rfl, rfl, List.suffix_refl _⟩

def Quiescent (s : Server) (c : Nat) : Prop :=
  (s.conn c).inflight = 0 ∧ (s.conn c).hasPendingOutput = false

/-- What `drain_complete` has found so far is still true while it looks at the rest. -/
def Checked (s : Server) : Prop :=
  match s.loop with
  | .drainInflight cs => ∀ p ∈ s.connections, p.2 ∉ cs → s.Quiescent p.2
  | .drainPending c cs => (s.conn c).inflight = 0 ∧
      ∀ p ∈ s.connections, p.2 ∉ c :: cs → s.Quiescent p.2
  | _ => True

theorem checked_drainInflight (cs : List Nat) (loop : s.loop = .drainInflight cs) :
    s.Checked ↔ ∀ p ∈ s.connections, p.2 ∉ cs → s.Quiescent p.2 := by
  unfold Checked
  rw [loop]

theorem checked_drainPending (c : Nat) (cs : List Nat) (loop : s.loop = .drainPending c cs) :
    s.Checked ↔ (s.conn c).inflight = 0 ∧
      ∀ p ∈ s.connections, p.2 ∉ c :: cs → s.Quiescent p.2 := by
  unfold Checked
  rw [loop]

theorem Checked.of_loop (h : s.loop.checks = false) : s.Checked := by
  unfold Checked
  split
  · rw [‹s.loop = _›] at h
    cases h
  · rw [‹s.loop = _›] at h
    cases h
  · trivial

/-- A worker adds nothing to a connection that has no request in flight: it stages a response
before it lowers the counter. -/
theorem idle_worker (ha : s.Accounted config) (hw : w < config.workerThreads.toNat)
    (idle : (s.conn c).inflight = 0) (hs : WorkerStep s w s') :
    (s'.conn c).inflight = 0 ∧
      (s'.conn c).hasPendingOutput = (s.conn c).hasPendingOutput := by
  have hne : ∀ d, (s.worker w).owes = some d → c ≠ d := by
    rintro d howes rfl
    have hpos := ha.inflight_pos hw howes
    omega
  cases hs with
  | stage job _ _ x pc | discard job pc =>
    dsimp only
    rw [setConn_of_ne (hne job.connection (by rw [pc]; rfl))]
    exact ⟨idle, rfl⟩
  | decrement d healthy pc =>
    dsimp only
    rw [setConn_of_ne (hne d (by rw [pc]; rfl))]
    exact ⟨idle, rfl⟩
  | unhealthy d | notify d =>
    refine ⟨(setConn_congr Connection.inflight ?_ c).trans idle,
      setConn_congr Connection.hasPendingOutput ?_ c⟩
    · rfl
    · rfl
  | _ => exact ⟨idle, rfl⟩

theorem checked_worker (h : s.Checked) (ha : s.Accounted config)
    (hw : w < config.workerThreads.toNat) (hs : WorkerStep s w s') : s'.Checked := by
  have hquiet : ∀ c, s.Quiescent c → s'.Quiescent c := by
    intro c hq
    obtain ⟨hidle, hsame⟩ := idle_worker ha hw hq.1 hs
    exact ⟨hidle, hsame.trans hq.2⟩
  have hloop : s'.loop = s.loop := by cases hs <;> rfl
  have htable : s'.connections = s.connections := by cases hs <;> rfl
  unfold Checked at h ⊢
  rw [hloop, htable]
  split
  · rename_i cs hl
    rw [hl] at h
    exact fun p hp hn => hquiet _ (h p hp hn)
  · rename_i c cs hl
    rw [hl] at h
    exact ⟨(idle_worker ha hw h.1 hs).1, fun p hp hn => hquiet _ (h.2 p hp hn)⟩
  · trivial

theorem checked_loop (h : s.Checked) (hs : LoopStep config fds s o s') : s'.Checked := by
  cases hs with
  | drainPool pc =>
    by_cases hq : s.queue = []
    · rw [checked_drainInflight (s.connections.map Prod.snd) (by simp [hq])]
      intro p hp hn
      exact absurd (List.mem_map_of_mem hp) hn
    · exact .of_loop (by simp [hq, Loop.checks])
  | drainInflight c cs pc =>
    rw [checked_drainInflight _ pc] at h
    by_cases hi : (s.conn c).inflight = 0
    · rw [checked_drainPending c cs (by simp [hi])]
      exact ⟨hi, h⟩
    · exact .of_loop (by simp [Nat.pos_of_ne_zero hi, Loop.checks])
  | drainPending c cs pc =>
    rw [checked_drainPending _ _ pc] at h
    cases hf : (s.conn c).hasPendingOutput with
    | true => exact .of_loop (by simp [Loop.checks])
    | false =>
      rw [checked_drainInflight cs (by simp)]
      intro p hp hn
      by_cases hpc : p.2 = c
      · rw [hpc]
        exact ⟨h.1, hf⟩
      · exact h.2 p hp (by simp [hpc, hn])
  | interrupted => exact h
  | event fd events owner rest d =>
    exact .of_loop (connectionEvent_where (P := fun l => l.checks = false) s d events rfl
      (fun _ => rfl) rfl)
  | flushed d k | sendAgain d k =>
    exact .of_loop (resume_where (P := fun l => l.checks = false) s d k rfl rfl rfl)
  | interest d =>
    exact .of_loop (updateInterest_where (P := fun l => l.checks = false) s d rfl rfl)
  | closeCheck d =>
    apply Checked.of_loop
    dsimp only
    split
    · rfl
    · exact updateInterest_where (P := fun l => l.checks = false) s d rfl rfl
  | shutdownFirst _ _ _ _ pc | shutdownAgain _ _ _ _ pc | signalled _ _ _ _ pc
  | stale _ _ _ _ pc | reject _ _ pc | addFailed _ pc | opened _ pc | acceptRetry pc
  | submit _ _ _ _ _ pc =>
    apply Checked.of_loop
    simp [openConnection, pc, Loop.checks]
  | endBatch | ready | closedBefore | close | busy | immediate =>
    apply Checked.of_loop
    dsimp only
    split <;> rfl
  | _ => exact .of_loop rfl

theorem step_checked (h : s.Checked) (ha : s.Accounted config) (hs : Step config fds s a s') :
    s'.Checked := by
  cases hs with
  | loop hl => exact checked_loop h hl
  | worker hw hs => exact checked_worker h ha hw hs
  | requestShutdown => exact h

/-- A server that drains accepts no connection, reads no socket and takes no request any more;
and when `drain_complete` has gone through all connections, every request taken off one that is
still open was answered, and its socket has all the frames. -/
theorem drain_loses_nothing (config : ServerConfig) (fds : Descriptors) {s : Server}
    (h : Reach (step config fds) Free (start config fds) s) :
    (s.draining = true → s.loop ≠ .accept ∧ (∀ c, s.loop ≠ .read c) ∧
      ∀ a s', step config fds s a = some s' → s'.draining = true ∧
        s'.nextConnectionId = s.nextConnectionId ∧ s'.ledger.taken = s.ledger.taken ∧
        s'.queue <:+ s.queue) ∧
    (s.loop = .drainInflight [] → ∀ fd c, (fd, c) ∈ s.connections →
      s.ledger.accepted c = s.frames c ∧
        ∀ j ∈ s.ledger.taken, j.connection = c → s.answered j = 1) := by
  have hc := reach_core h
  have hsealed := reach_sealed h
  have hchecked : s.Checked := core_invariant (.of_loop rfl)
    (fun _ _ _ hc _ hp hs => step_checked hp hc.accounted hs) h
  refine ⟨fun hd => ⟨?_, ?_, fun a s' hs => sealed_step hsealed hd (step_sound hs)⟩, ?_⟩
  · intro hl
    have hin := hsealed.intake hd
    rw [hl] at hin
    cases hin
  · intro c hl
    have hin := hsealed.intake hd
    rw [hl] at hin
    cases hin
  · intro hl fd c hmem
    obtain ⟨hidle, hflushed⟩ := (checked_drainInflight _ hl).mp hchecked _ hmem List.not_mem_nil
    have hopen := (hc.tabled.entry hmem).2.1
    refine ⟨(hc.accepted_of_flushed hflushed).2, ?_⟩
    rintro j hj rfl
    exact hc.answered_of_idle hj hidle hopen

def shutDown : List Action :=
  [.requestShutdown, .loop (.batch [(5, { epollin := true })]), .loop .internal, .loop .internal,
    .loop (.control true)] ++ List.replicate 4 (.loop .internal)

theorem drain_loses_nothing_answered :
    ∃ s : Server, Reach (step oneInflight usualFds) Free (start oneInflight usualFds) s ∧
      s.draining = true ∧ s.loop = .drainInflight [] ∧ s.loop ≠ .accept ∧
      s.ledger.taken.length = 1 ∧ s.ledger.accepted 1 = s.frames 1 := by
  obtain ⟨s, hr, hd, hl, hmem, htaken⟩ := exists_reach (step oneInflight usualFds)
    (start oneInflight usualFds) (answerFirst (ping 1) ++ shutDown)
    (fun s => s.draining = true ∧ s.loop = .drainInflight [] ∧ (7, 1) ∈ s.connections ∧
      s.ledger.taken.length = 1)
    (by decide +kernel)
  obtain ⟨hsealed, hdrained⟩ := drain_loses_nothing oneInflight usualFds hr
  exact ⟨s, hr, hd, hl, (hsealed hd).1, htaken, (hdrained hl 7 1 hmem).1⟩

end Server

end LocalCache
