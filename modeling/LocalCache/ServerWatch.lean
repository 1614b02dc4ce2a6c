import LocalCache.ServerBuffers
import LocalCache.ServerNotify

namespace LocalCache

open Protocol Serializer Library Threads

def Worker.staging : Worker → Option Nat
  | .decrement c _ | .unhealthy c | .notify c => some c
  | _ => none

def Worker.waking : Worker → Option Nat
  | .unhealthy c | .notify c => some c
  | _ => none

theorem Worker.staging_of_waking {pc : Worker} {c : Nat} (h : pc.waking = some c) :
    pc.staging = some c := by
  cases pc <;> first | exact h | cases h

theorem Connection.readPaused_stage {x y : Connection} {frame : Bytes} {overLimit : Bool}
    (hx : x.Counted) (h : x.stage frame = some (overLimit, y)) (hp : x.readPaused = true) :
    y.readPaused = true := by
  have hy := (hx.stage h).pending_eq
  rw [unsent_stage h, List.length_append, ← hx.pending_eq] at hy
  have hf := stage_frame h
  simp only [readPaused, inflightLimitReached, Bool.or_eq_true, decide_eq_true_eq] at hp ⊢
  rw [hy]
  rw [hf]
  exact hp.imp (fun hlt => Nat.lt_of_lt_of_le hlt (Nat.le_add_right _ _)) id

namespace Server

/-- Somebody will look at the connection again: the kernel's interest set and the loop cover
what is known of it, and a worker that changed it is on the way to announcing it. -/
structure Watched (config : ServerConfig) (s : Server) (c : Nat) : Prop where
  output : (s.conn c).unsent ≠ [] → (s.conn c).registeredEvents.epollout = true ∨
    s.loop.handles = some c ∨ (s.conn c).notifyPending = true ∨
    ∃ w < config.workerThreads.toNat, (s.worker w).staging = some c
  input : s.draining = true ∨ (s.conn c).closeAfterFlush = true ∨ (s.conn c).readPaused = true ∨
    (s.conn c).notifyPending = true ∨
    (∃ w < config.workerThreads.toNat, (s.worker w).waking = some c) ∨
    s.loop ≠ .register c false ∧
      ((s.conn c).registeredEvents.epollin = true ∨ s.loop.handles = some c)

def Alerted (config : ServerConfig) (s : Server) : Prop :=
  ∀ fd c, (fd, c) ∈ s.connections → s.Watched config c

variable {config : ServerConfig} {fds : Descriptors} {s s' : Server} {a : Action} {o : Outcome}
  {w c : Nat}

theorem Watched.handled (h : s.loop.handles = some c) (hr : s.loop ≠ .register c false) :
    s.Watched config c :=
  ⟨fun _ => .inr (.inl h), .inr (.inr (.inr (.inr (.inr ⟨hr, .inr h⟩))))⟩

theorem Watched.other (h : s.Watched config c) (hl : s.loop.handles ≠ some c)
    (worker : s'.worker = s.worker) (draining : s.draining = true → s'.draining = true)
    (conn : s'.conn c = s.conn c) (loop : s'.loop ≠ .register c false) :
    s'.Watched config c where
  output := by
    rw [conn, worker]
    exact fun hu => (h.output hu).imp id (Or.imp (fun hc => absurd hc hl) id)
  input := by
    rw [conn, worker]
    refine h.input.imp draining (Or.imp id (Or.imp id (Or.imp id (Or.imp id ?_))))
    rintro ⟨-, hin | hc⟩
    · exact ⟨loop, .inl hin⟩
    · exact absurd hc hl

theorem Alerted.between (h : s.Alerted config) (hl : s.loop.handles = none)
    (worker : s'.worker = s.worker) (draining : s.draining = true → s'.draining = true)
    (table : s'.connections = s.connections) (conn : s'.conn = s.conn)
    (loop : ∀ c, s'.loop ≠ .register c false) : s'.Alerted config := by
  intro fd c hc
  refine (h fd c (table ▸ hc)).other ?_ worker draining (by rw [conn]) (loop c)
  rw [hl]
  exact Option.some_ne_none c ∘ Eq.symm

theorem Alerted.decided (h : s.Alerted config) (hl : ∀ d, d ≠ c → s.loop.handles ≠ some d)
    (worker : s'.worker = s.worker) (draining : s.draining = true → s'.draining = true)
    (table : ∀ p ∈ s'.connections, p.2 ≠ c → p ∈ s.connections)
    (conn : ∀ d, d ≠ c → s'.conn d = s.conn d)
    (loop : ∀ d, d ≠ c → s'.loop ≠ .register d false)
    (watched : ∀ fd, (fd, c) ∈ s'.connections → s'.Watched config c) : s'.Alerted config := by
  intro fd d hd
  by_cases hdc : d = c
  · subst hdc
    exact watched fd hd
  · exact (h fd d (table _ hd hdc)).other (hl d hdc) worker draining (conn d hdc) (loop d hdc)

theorem handles_ne_of (hl : s.loop.handles = some c) (d : Nat) (hd : d ≠ c) :
    s.loop.handles ≠ some d := by
  rw [hl]
  exact fun he => hd (Option.some.inj he).symm

theorem Alerted.goto (h : s.Alerted config) (hl : s.loop.handles = some c)
    (hl' : s'.loop.handles = some c) (reads : ∀ d, s'.loop ≠ .register d false)
    (worker : s'.worker = s.worker) (draining : s'.draining = s.draining)
    (table : s'.connections = s.connections)
    (conn : ∀ d, d ≠ c → s'.conn d = s.conn d) : s'.Alerted config :=
  h.decided (handles_ne_of hl) worker (by rw [draining]; exact id)
    (by rw [table]; exact fun _ hp _ => hp) conn (fun d _ => reads d)
    (fun _ _ => .handled hl' (reads c))

theorem exists_setWorker {α : Type} {pc : Worker} {f : Worker → Option α} {x : α} {P : Prop}
    (hw : w < config.workerThreads.toNat) (worker : s'.worker = s.setWorker w pc)
    (hpc : f (s.worker w) = some x → f pc = some x ∨ P)
    (h : ∃ v < config.workerThreads.toNat, f (s.worker v) = some x) :
    (∃ v < config.workerThreads.toNat, f (s'.worker v) = some x) ∨ P := by
  obtain ⟨v, hv, hf⟩ := h
  by_cases hvw : v = w
  · subst hvw
    refine (hpc hf).imp (fun hx => ⟨v, hv, ?_⟩) id
    rw [worker, setWorker_apply, if_pos rfl]
    exact hx
  · refine .inl ⟨v, hv, ?_⟩
    rw [worker, setWorker_apply, if_neg hvw]
    exact hf

/-- A step of a worker after which connection `c` is `x`: what the worker changed of it, it has
still to announce, and it stops announcing only when the flag is set. -/
theorem Watched.setWorker {pc : Worker} {x : Connection} (h : s.Watched config c)
    (hw : w < config.workerThreads.toNat) (worker : s'.worker = s.setWorker w pc)
    (loop : s'.loop = s.loop) (draining : s'.draining = s.draining) (conn : s'.conn c = x)
    (events : x.registeredEvents = (s.conn c).registeredEvents)
    (flag : (s.conn c).closeAfterFlush = true → x.closeAfterFlush = true)
    (notify : (s.conn c).notifyPending = true → x.notifyPending = true)
    (unsent : x.unsent ≠ [] → (s.conn c).unsent ≠ [] ∨ pc.staging = some c)
    (paused : (s.conn c).readPaused = true → x.readPaused = true ∨ pc.waking = some c)
    (staging : (s.worker w).staging = some c → pc.staging = some c ∨ x.notifyPending = true)
    (waking : (s.worker w).waking = some c → pc.waking = some c ∨ x.notifyPending = true) :
    s'.Watched config c := by
  have self : s'.worker w = pc := by rw [worker, setWorker_apply, if_pos rfl]
  refine ⟨fun hu => ?_, ?_⟩
  · rw [conn] at hu ⊢
    rw [events, loop]
    obtain hu | hpc := unsent hu
    · obtain he | hl | hn | hst := h.output hu
      · exact .inl he
      · exact .inr (.inl hl)
      · exact .inr (.inr (.inl (notify hn)))
      · exact .inr (.inr (exists_setWorker hw worker staging hst).symm)
    · exact .inr (.inr (.inr ⟨w, hw, by rw [self]; exact hpc⟩))
  · rw [conn, events, loop, draining]
    obtain hd | hf | hp | hn | hwk | hl := h.input
    · exact .inl hd
    · exact .inr (.inl (flag hf))
    · obtain hp | hpc := paused hp
      · exact .inr (.inr (.inl hp))
      · exact .inr (.inr (.inr (.inr (.inl ⟨w, hw, by rw [self]; exact hpc⟩))))
    · exact .inr (.inr (.inr (.inl (notify hn))))
    · obtain hwk | hn := exists_setWorker hw worker waking hwk
      · exact .inr (.inr (.inr (.inr (.inl hwk))))
      · exact .inr (.inr (.inr (.inl hn)))
    · exact .inr (.inr (.inr (.inr (.inr hl))))

theorem Alerted.still {pc : Worker} (h : s.Alerted config)
    (hw : w < config.workerThreads.toNat) (worker : s'.worker = s.setWorker w pc)
    (loop : s'.loop = s.loop) (draining : s'.draining = s.draining)
    (table : s'.connections = s.connections) (conn : s'.conn = s.conn)
    (announced : ∀ c, (s.worker w).staging = some c → (s.conn c).notifyPending = true) :
    s'.Alerted config := fun fd c hc =>
  (h fd c (table ▸ hc)).setWorker hw worker loop draining (by rw [conn]) rfl id id .inl .inl
    (fun hst => .inr (announced c hst))
    (fun hwk => .inr (announced c (Worker.staging_of_waking hwk)))

theorem Alerted.touched {pc : Worker} {x : Connection} (h : s.Alerted config)
    (hw : w < config.workerThreads.toNat) (worker : s'.worker = s.setWorker w pc)
    (loop : s'.loop = s.loop) (draining : s'.draining = s.draining)
    (table : s'.connections = s.connections) (conn : s'.conn = s.setConn c x)
    (busy : (s.worker w).holds = some c)
    (events : x.registeredEvents = (s.conn c).registeredEvents)
    (flag : (s.conn c).closeAfterFlush = true → x.closeAfterFlush = true)
    (notify : (s.conn c).notifyPending = true → x.notifyPending = true)
    (unsent : x.unsent ≠ [] → (s.conn c).unsent ≠ [] ∨ pc.staging = some c)
    (paused : (s.conn c).readPaused = true → x.readPaused = true ∨ pc.waking = some c)
    (staging : (s.worker w).staging = some c → pc.staging = some c ∨ x.notifyPending = true)
    (waking : (s.worker w).waking = some c → pc.waking = some c ∨ x.notifyPending = true) :
    s'.Alerted config := by
  intro fd d hd
  have hold := h fd d (table ▸ hd)
  by_cases hdc : d = c
  · subst hdc
    exact hold.setWorker hw worker loop draining (by rw [conn, setConn_same]) events flag notify
      unsent paused staging waking
  · have only : (s.worker w).staging ≠ some d := by
      intro hst
      cases hpc : s.worker w <;> rw [hpc] at hst busy <;> cases hst <;>
        exact hdc (Option.some.inj busy)
    exact hold.setWorker hw worker loop draining (by rw [conn, setConn_of_ne hdc]) rfl id id .inl
      .inl (fun hst => absurd hst only)
      (fun hwk => absurd (Worker.staging_of_waking hwk) only)

theorem alerted_worker (h : s.Alerted config) (hb : s.Buffers config)
    (hw : w < config.workerThreads.toNat) (hs : WorkerStep s w s') : s'.Alerted config := by
  cases hs with
  | stage job response overLimit x pc hx =>
    have hf := Connection.stage_frame hx
    exact h.touched hw rfl rfl rfl rfl rfl (by rw [pc]; rfl) (by rw [hf])
      (by rw [hf]; exact id) (by rw [hf]; exact id) (fun _ => .inr rfl)
      (fun hp => .inl (Connection.readPaused_stage (hb _).counted hx hp))
      (fun _ => .inl rfl) (by simp [pc, Worker.waking])
  | discard job pc =>
    exact h.touched hw rfl rfl rfl rfl rfl (by rw [pc]; rfl) rfl id id .inl
      (fun _ => .inr rfl) (fun _ => .inl rfl) (fun _ => .inl rfl)
  | decrement d healthy pc =>
    have hpc : (if healthy then Worker.notify d else .unhealthy d).waking = some d := by
      cases healthy <;> rfl
    exact h.touched hw rfl rfl rfl rfl rfl (by rw [pc]; rfl) rfl id id .inl
      (fun _ => .inr hpc) (fun _ => .inl (Worker.staging_of_waking hpc)) (fun _ => .inl hpc)
  | unhealthy d pc =>
    exact h.touched hw rfl rfl rfl rfl rfl (by rw [pc]; rfl) rfl (fun _ => rfl) id .inl
      .inl (fun _ => .inl rfl) (fun _ => .inl rfl)
  | notify d pc =>
    exact h.touched hw rfl rfl rfl rfl rfl (by rw [pc]; rfl) rfl id (fun _ => rfl) .inl
      .inl (fun _ => .inr rfl) (fun _ => .inr rfl)
  | _ => exact h.still hw rfl rfl rfl rfl rfl (by simp_all [Worker.staging])

end Server

end LocalCache
