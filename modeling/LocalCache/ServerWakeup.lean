import LocalCache.ServerRequests
import LocalCache.ServerWatch

namespace LocalCache.Server

open Protocol Serializer Library Transition

variable {config : ServerConfig} {fds : Descriptors} {s s' : Server} {a : Action} {o : Outcome}
  {w c : Nat}

@[simp] theorem connectionEvent_ne_register (s : Server) (c d : Nat) (e : Events) (b : Bool) :
    s.connectionEvent c e ≠ .register d b := by
  apply connectionEvent_where (P := fun l => l ≠ .register d b)
  · exact Loop.noConfusion
  · exact fun _ => Loop.noConfusion
  · exact Loop.noConfusion

@[simp] theorem resume_ne_register (s : Server) (c d : Nat) (k : Resume) (b : Bool) :
    s.resume c k ≠ .register d b := by
  apply resume_where (P := fun l => l ≠ .register d b)
  · exact Loop.noConfusion
  · exact Loop.noConfusion
  · exact Loop.noConfusion

theorem updateInterest_ne_register {d : Nat} (hd : d ≠ c) (s : Server) (b : Bool) :
    s.updateInterest c ≠ .register d b := by
  apply updateInterest_where (P := fun l => l ≠ .register d b)
  · exact fun he => hd (Loop.register.inj he).1.symm
  · exact Loop.noConfusion

theorem watched_updateInterest (loop : s'.loop = s.updateInterest c)
    (draining : s'.draining = s.draining) : s'.Watched config c := by
  have hl : s'.loop.handles = some c := by rw [loop, handles_updateInterest]
  by_cases hd : s.draining = true
  · exact ⟨fun _ => .inr (.inl hl), .inl (draining.trans hd)⟩
  · refine .handled hl ?_
    rw [loop, updateInterest, if_neg hd]
    exact Loop.noConfusion

theorem hasPendingOutput_of_unsent {x : Connection} (hx : x.Counted) (h : x.unsent ≠ []) :
    x.hasPendingOutput = true := by
  rw [Connection.hasPendingOutput, hx.pending_eq]
  exact decide_eq_true (List.length_pos_iff.mpr h)

theorem watched_register {epollin : Bool} (h : s.Watched config c)
    (hx : (s.conn c).Counted) (pc : s.loop = .register c epollin)
    (conn : s'.conn c = { s.conn c with
      registeredEvents := { kBaseConnectionEvents with
        epollin := epollin, epollout := (s.conn c).hasPendingOutput } })
    (worker : s'.worker = s.worker) (draining : s'.draining = s.draining)
    (loop : s'.loop = .next) : s'.Watched config c where
  output := by
    rw [conn]
    exact fun hu => .inl (hasPendingOutput_of_unsent hx hu)
  input := by
    rw [conn, worker, draining, loop]
    refine h.input.imp id (Or.imp id (Or.imp id (Or.imp id (Or.imp id ?_))))
    rintro ⟨hne, -⟩
    refine ⟨Loop.noConfusion, .inl ?_⟩
    cases epollin with
    | false => exact absurd pc hne
    | true => rfl

theorem Tabled.not_mem_of_closed (ht : s.Tabled config) (closed : (s.conn c).closed = true)
    (fd : Nat) : (fd, c) ∉ s.connections := by
  intro hc
  rw [(ht.entry hc).2.1] at closed
  cases closed

theorem alerted_loop (h : s.Alerted config) (hb : s.Buffers config) (ht : s.Tabled config)
    (hs : LoopStep config fds s o s') : s'.Alerted config := by
  cases hs with
  | finish pc => exact fun fd c hc => by cases hc
  | ready c rest pc todo =>
    refine h.decided (c := c) (by simp [pc]) rfl id (fun _ hp _ => hp)
      (fun d hd => setConn_of_ne hd s _) ?_ ?_
    · intro d _
      dsimp only
      split <;> exact Loop.noConfusion
    · intro fd hc
      have hopen : (s.conn c).closed = false :=
        (ht.entry (show (fd, c) ∈ s.connections from hc)).2.1
      refine .handled ?_ ?_ <;> simp [hopen]
  | interest c rest pc todo =>
    exact h.decided (c := c) (by simp [pc]) rfl id (fun _ hp _ => hp) (fun _ _ => rfl)
      (fun d hd => updateInterest_ne_register hd s false)
      (fun _ _ => watched_updateInterest rfl rfl)
  | opened fd pc free =>
    refine h.decided (c := s.nextConnectionId) (by simp [pc]) rfl id ?_
      (fun d hd => setConn_of_ne hd s _) ?_ ?_
    · intro p hp hne
      rw [ht.openConnection_connections free] at hp
      exact (List.mem_cons.mp hp).resolve_left (fun he => hne (congrArg Prod.snd he))
    · intro d _
      rw [openConnection]
      simp [pc]
    · intro _ _
      refine ⟨fun hu => ?_, .inr (.inr (.inr (.inr (.inr ⟨?_, .inl ?_⟩))))⟩
      · rw [openConnection_conn] at hu
        exact absurd rfl hu
      · rw [openConnection]
        simp [pc]
      · rw [openConnection_conn]
  | closeCheck c pc =>
    by_cases hclose : ((s.conn c).closeAfterFlush && !(s.conn c).hasPendingOutput) = true
    · rw [if_pos hclose]
      exact h.goto (by rw [pc]; rfl) rfl (fun _ => Loop.noConfusion) rfl rfl rfl (fun _ _ => rfl)
    · rw [if_neg hclose]
      exact h.decided (handles_ne_of (by rw [pc]; rfl)) rfl id (fun _ hp _ => hp)
        (fun _ _ => rfl) (fun d hd => updateInterest_ne_register hd s false)
        (fun _ _ => watched_updateInterest rfl rfl)
  | pausedNow c pc above =>
    refine h.decided (handles_ne_of (by rw [pc]; rfl)) rfl id (fun _ hp _ => hp)
      (fun _ _ => rfl) (fun d hd he => hd (Loop.register.inj he).1.symm) ?_
    intro fd _
    refine ⟨fun _ => .inr (.inl rfl), .inr (.inr (.inl ?_))⟩
    simp [Connection.readPaused, above]
  | limitedNow c pc full =>
    refine h.decided (handles_ne_of (by rw [pc]; rfl)) rfl id (fun _ hp _ => hp)
      (fun _ _ => rfl) (fun d hd he => hd (Loop.register.inj he).1.symm) ?_
    intro fd _
    refine ⟨fun _ => .inr (.inl rfl), .inr (.inr (.inl ?_))⟩
    simp [Connection.readPaused, full]
  | flagged c pc =>
    refine h.decided (handles_ne_of (by rw [pc]; rfl)) rfl id (fun _ hp _ => hp)
      (fun _ _ => rfl) (fun d hd he => hd (Loop.register.inj he).1.symm) ?_
    intro fd _
    cases hf : (s.conn c).closeAfterFlush with
    | true => exact ⟨fun _ => .inr (.inl rfl), .inr (.inl hf)⟩
    | false => exact .handled rfl (by simp)
  | registered c epollin ok pc same =>
    refine h.decided (handles_ne_of (by rw [pc]; rfl)) rfl id (fun _ hp _ => hp)
      (fun _ _ => rfl) (fun _ _ => Loop.noConfusion) ?_
    intro fd hc
    refine watched_register (h fd c hc) (hb c).counted pc ?_ rfl rfl rfl
    rw [← same]
  | register c epollin pc known =>
    refine h.decided (handles_ne_of (by rw [pc]; rfl)) rfl id (fun _ hp _ => hp)
      (fun d hd => setConn_of_ne hd s _) (fun _ _ => Loop.noConfusion) ?_
    intro fd hc
    exact watched_register (h fd c hc) (hb c).counted pc (setConn_same s _ _) rfl rfl rfl
  | closedBefore c malformed pc closed =>
    refine h.decided (handles_ne_of (by rw [pc]; rfl)) rfl id (fun _ hp _ => hp)
      (fun d hd => setConn_of_ne hd s _) ?_
      (fun fd hc => absurd hc (ht.not_mem_of_closed closed fd))
    cases malformed <;> exact fun _ _ => Loop.noConfusion
  | close c malformed pc opened =>
    refine h.decided (handles_ne_of (by rw [pc]; rfl)) rfl id
      (fun _ hp _ => (Keyed.mem_without.mp hp).1) (fun d hd => setConn_of_ne hd s _) ?_ ?_
    · cases malformed <;> exact fun _ _ => Loop.noConfusion
    · intro fd hc
      obtain ⟨hmem, hne⟩ := Keyed.mem_without.mp hc
      exact absurd (ht.entry hmem).1.symm hne
  | flushMore c _ _ pc | sent c _ _ pc | readData c _ pc | needMore c _ _ _ _ pc
  | malformed c _ _ _ _ _ _ pc | unidentified c _ _ _ _ pc | refuse c _ _ _ _ pc =>
    exact h.goto (by rw [pc]; rfl) rfl (fun _ => Loop.noConfusion) rfl rfl rfl
      (fun d hd => setConn_of_ne hd s _)
  | flushed c k _ pc =>
    exact h.goto (by rw [pc]; rfl) (handles_resume s c k)
      (fun d => resume_ne_register s c d k false) rfl rfl rfl (fun d hd => setConn_of_ne hd s _)
  | submit c _ _ _ _ pc =>
    exact h.goto (by rw [pc]; rfl) (by rw [pc]; rfl) (by simp [pc]) rfl rfl rfl
      (fun d hd => setConn_of_ne hd s _)
  | busy job ok x pc =>
    refine h.goto (by rw [pc]; rfl) ?_ ?_ rfl rfl rfl (fun d hd => setConn_of_ne hd s _)
    · cases ok <;> rfl
    · cases ok <;> exact fun _ => Loop.noConfusion
  | immediate c response ok x pc =>
    refine h.goto (by rw [pc]; rfl) ?_ ?_ rfl rfl rfl (fun d hd => setConn_of_ne hd s _)
    · cases ok <;> rfl
    · cases ok <;> exact fun _ => Loop.noConfusion
  | sendRetry c _ pc | sendFailed c _ _ pc | readRetry c pc | readAgain c pc | readEnd c _ pc
  | limit c pc | notPaused c pc | notLimited c pc | registerFailed c _ _ pc =>
    exact h.goto (by rw [pc]; rfl) rfl (fun _ => Loop.noConfusion) rfl rfl rfl (fun _ _ => rfl)
  | sendAgain c k pc =>
    exact h.goto (by rw [pc]; rfl) (handles_resume s c k)
      (fun d => resume_ne_register s c d k false) rfl rfl rfl (fun _ _ => rfl)
  | endBatch pc | drainPool pc | drainInflight _ _ pc | drainPending _ _ pc =>
    refine h.between (by simp [pc]) rfl id rfl rfl (fun c => ?_)
    dsimp only
    split <;> exact Loop.noConfusion
  | _ =>
    refine h.between ?_ rfl ?_ rfl rfl ?_ <;> simp_all [leave]

theorem step_alerted (h : s.Alerted config) (hb : s.Buffers config) (ht : s.Tabled config)
    (hs : Step config fds s a s') : s'.Alerted config := by
  cases hs with
  | loop hl => exact alerted_loop h hb ht hl
  | worker hw hs => exact alerted_worker h hb hw hs
  | requestShutdown => exact fun fd c hc => ⟨(h fd c hc).output, (h fd c hc).input⟩

def completing : Worker → Option Nat
  | .check job _ | .discard job | .stage job _ => some job.connection
  | .decrement c _ | .unhealthy c | .notify c | .push c | .write c => some c
  | _ => none

theorem completing_of_staging {pc : Worker} (h : pc.staging = some c) :
    completing pc = some c := by
  cases pc <;> first | exact h | cases h

theorem Notified.flag_iff (h : s.Notified config) (c : Nat) :
    (s.conn c).notifyPending = true ↔ c ∈ s.readyConnections ∨
      (∃ w < config.workerThreads.toNat, s.worker w = .push c) ∨ Item.ready c ∈ s.todo := by
  have hc := h.once c
  have hpush : 0 < s.pushing config c ↔
      ∃ w < config.workerThreads.toNat, s.worker w = .push c := by
    rw [Nat.pos_iff_ne_zero, Ne, pushing, Threads.total_eq_zero_iff]
    simp
  rw [← hpush, ← List.count_pos_iff, ← List.count_pos_iff]
  cases hn : (s.conn c).notifyPending <;> rw [hn] at hc <;>
    simp only [Bool.toNat_true, Bool.toNat_false] at hc
  · simp only [Bool.false_eq_true, false_iff]
    omega
  · simp only [true_iff]
    omega

/-- While the loop waits, a flagged connection that no worker is completing is in the ready
vector, and the wakeup for it is there. -/
theorem Notified.queued (h : s.Notified config) (waits : s.loop = .wait)
    (quiet : ∀ w < config.workerThreads.toNat, completing (s.worker w) ≠ some c)
    (flag : (s.conn c).notifyPending = true) :
    c ∈ s.readyConnections ∧ 0 < s.completionCount := by
  have hmem : c ∈ s.readyConnections := by
    obtain hc | ⟨w, hw, hpc⟩ | hc := (h.flag_iff c).mp flag
    · exact hc
    · exact absurd (by rw [hpc]; rfl) (quiet w hw)
    · rw [h.idle (by rw [waits]; rfl)] at hc
      cases hc
  refine ⟨hmem, ?_⟩
  obtain hpos | ⟨w, hw, hpc⟩ | hl := h.counter c hmem
  · exact hpos
  · exact absurd (by rw [hpc]; rfl) (quiet w hw)
  · rw [waits] at hl
    cases hl

theorem reach_notified {ok : Server → Action → Prop}
    (h : Reach (step config fds) ok (start config fds) s) : s.Notified config :=
  core_invariant (notified_start config fds)
    (fun _ _ _ hc _ hp hs => step_notified hp hc.tabled hs) h

theorem reach_alerted {ok : Server → Action → Prop}
    (h : Reach (step config fds) ok (start config fds) s) : s.Alerted config :=
  core_invariant (fun _ _ hc => by cases hc)
    (fun _ _ _ hc _ hp hs => step_alerted hp hc.buffers hc.tabled hs) h

/-- A connection is queued for the loop at most once, its flag says exactly that it is on the
way there, and while the loop waits every connection that no worker is completing has the
interest its output and its input need or its wakeup pending. -/
theorem no_lost_wakeup (config : ServerConfig) (fds : Descriptors) {s : Server}
    (h : Reach (step config fds) Free (start config fds) s) :
    (∀ c, s.readyConnections.count c ≤ 1) ∧
      (∀ c, (s.conn c).notifyPending = true ↔ c ∈ s.readyConnections ∨
        (∃ w < config.workerThreads.toNat, s.worker w = .push c) ∨ Item.ready c ∈ s.todo) ∧
      (s.loop = .wait → ∀ fd c, (fd, c) ∈ s.connections →
        (∀ w < config.workerThreads.toNat, completing (s.worker w) ≠ some c) →
        ((s.conn c).unsent ≠ [] →
          (∃ events, s.epollSet fd = some events ∧ events.epollout = true) ∨
            c ∈ s.readyConnections ∧ 0 < s.completionCount) ∧
        (s.draining = false → (s.conn c).closeAfterFlush = false →
          (s.conn c).readPaused = false →
          (∃ events, s.epollSet fd = some events ∧ events.epollin = true) ∨
            c ∈ s.readyConnections ∧ 0 < s.completionCount)) := by
  have hn := reach_notified h
  have ht := (reach_core h).tabled
  refine ⟨fun c => ?_, hn.flag_iff, fun waits fd c hc quiet => ?_⟩
  · have hone := hn.once c
    have hle := Bool.toNat_le (s.conn c).notifyPending
    omega
  have hwatch := reach_alerted h fd c hc
  have hset := (ht.entry hc).2.2
  have hidle : s.loop.handles = none := by rw [waits]; rfl
  have hstaging : ∀ w < config.workerThreads.toNat, (s.worker w).staging ≠ some c :=
    fun w hw hst => quiet w hw (completing_of_staging hst)
  refine ⟨fun hu => ?_, fun hd hf hp => ?_⟩
  · obtain he | hl | hflag | ⟨w, hw, hst⟩ := hwatch.output hu
    · exact .inl ⟨_, hset, he⟩
    · rw [hidle] at hl
      cases hl
    · exact .inr (hn.queued waits quiet hflag)
    · exact absurd hst (hstaging w hw)
  · obtain hd' | hf' | hp' | hflag | ⟨w, hw, hwk⟩ | ⟨-, he | hl⟩ := hwatch.input
    · rw [hd] at hd'
      cases hd'
    · rw [hf] at hf'
      cases hf'
    · rw [hp] at hp'
      cases hp'
    · exact .inr (hn.queued waits quiet hflag)
    · exact absurd (Worker.staging_of_waking hwk) (hstaging w hw)
    · exact .inl ⟨_, hset, he⟩
    · rw [hidle] at hl
      cases hl

theorem no_lost_wakeup_pending :
    ∃ s : Server, Reach (step usualConfig usualFds) Free (start usualConfig usualFds) s ∧
      s.loop = .wait ∧ (s.conn 1).unsent ≠ [] ∧ 1 ∈ s.readyConnections ∧
      0 < s.completionCount := by
  obtain ⟨s, hr, hwait, hunsent, hmem, hout, hquiet⟩ := exists_reach
    (step usualConfig usualFds) (start usualConfig usualFds)
    (connect 7 ++ readOne 7 (ping 1) ++ List.replicate 9 (.worker 0 0))
    (fun s => s.loop = .wait ∧ (s.conn 1).unsent ≠ [] ∧ (7, 1) ∈ s.connections ∧
      (s.epollSet 7).map Events.epollout = some false ∧
      ∀ w < usualConfig.workerThreads.toNat, completing (s.worker w) ≠ some 1)
    (by decide +kernel)
  refine ⟨s, hr, hwait, hunsent, ?_⟩
  have h := (no_lost_wakeup usualConfig usualFds hr).2.2 hwait 7 1 hmem hquiet
  refine (h.1 hunsent).resolve_left ?_
  rintro ⟨events, he, hset⟩
  rw [he, Option.map_some, hset] at hout
  cases hout

end LocalCache.Server
