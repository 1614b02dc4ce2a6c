import LocalCache.ServerRun

namespace LocalCache

open Protocol Serializer Library

/-- The positions to which the decisions of a handler lead. -/
def Loop.turn : Loop → Bool
  | .close _ false | .flush _ _ | .read _ | .closeCheck _ | .register _ false | .paused _ => true
  | _ => false

namespace Server

/-- Somebody holds a reference to connection `c`. -/
inductive Mentions (config : ServerConfig) (s : Server) : Nat → Prop
  | table {fd c} (h : (fd, c) ∈ s.connections) : Mentions config s c
  | queue {job} (h : job ∈ s.queue) : Mentions config s job.connection
  | worker {w c} (hw : w < config.workerThreads.toNat) (h : (s.worker w).holds = some c) :
    Mentions config s c
  | ready {c} (h : c ∈ s.readyConnections) : Mentions config s c
  | todo {i c} (h : i ∈ s.todo) (hi : i.holds = some c) : Mentions config s c
  | loop {c} (h : s.loop.handles = some c) : Mentions config s c

variable {config : ServerConfig} {fds : Descriptors} {s s' : Server} {o : Outcome} {w c : Nat}

theorem Mentions.referenced (h : Mentions config s c) : s.referenced config c = true := by
  simp only [Server.referenced, Bool.or_eq_true, List.any_eq_true, decide_eq_true_eq]
  cases h with
  | table h => exact .inl (.inl (.inl (.inl (.inl ⟨_, h, rfl⟩))))
  | queue h => exact .inl (.inl (.inl (.inl (.inr ⟨_, h, rfl⟩))))
  | worker hw h => exact .inl (.inl (.inl (.inr ⟨_, List.mem_range.mpr hw, h⟩)))
  | ready h => exact .inl (.inl (.inr ⟨_, h, rfl⟩))
  | todo h hi => exact .inl (.inr ⟨_, h, hi⟩)
  | loop h => exact .inr h

@[simp] theorem handles_position (c : Nat) :
    (∀ k, (Loop.flush c k).handles = some c) ∧ (∀ k, (Loop.send c k).handles = some c) ∧
      (Loop.read c).handles = some c ∧ (Loop.process c).handles = some c ∧
      (∀ r, (Loop.immediate c r).handles = some c) ∧ (∀ m, (Loop.close c m).handles = some c) ∧
      (Loop.closeCheck c).handles = some c ∧ (Loop.paused c).handles = some c ∧
      (Loop.limited c).handles = some c ∧ (Loop.flagged c).handles = some c ∧
      (∀ e, (Loop.register c e).handles = some c) := by
  simp [Loop.handles]

@[simp] theorem handles_busy (job : Job) : (Loop.busy job).handles = some job.connection := rfl

@[simp] theorem handles_between :
    Loop.wait.handles = none ∧ Loop.next.handles = none ∧ Loop.accept.handles = none ∧
      Loop.drainRead.handles = none ∧ Loop.drainSwap.handles = none ∧
      Loop.drainPool.handles = none ∧ (∀ cs, (Loop.drainInflight cs).handles = none) ∧
      (∀ c cs, (Loop.drainPending c cs).handles = none) ∧ Loop.deadline.handles = none ∧
      Loop.stop.handles = none ∧ Loop.stopWait.handles = none ∧ Loop.join.handles = none ∧
      Loop.finished.handles = none := by
  simp [Loop.handles]

section Positions

variable {P : Loop → Prop} (s : Server) (c : Nat)

theorem afterWritable_where (e : Events) (read : P (.read c)) (flush : P (.flush c .done)) :
    P (s.afterWritable c e) := by
  rw [afterWritable]
  split
  · exact read
  · exact flush

theorem connectionEvent_where (e : Events) (close : P (.close c false))
    (flush : ∀ k, P (.flush c k)) (read : P (.read c)) : P (s.connectionEvent c e) := by
  rw [connectionEvent]
  split
  · exact close
  · split
    · exact close
    · split
      · exact flush _
      · exact afterWritable_where s c e read (flush _)

theorem resume_where (k : Resume) (read : P (.read c)) (flush : P (.flush c .done))
    (check : P (.closeCheck c)) : P (s.resume c k) := by
  cases k with
  | events e => exact afterWritable_where s c e read flush
  | done => exact check

theorem updateInterest_where (register : P (.register c false)) (paused : P (.paused c)) :
    P (s.updateInterest c) := by
  rw [updateInterest]
  split
  · exact register
  · exact paused

end Positions

@[simp] theorem turn_connectionEvent (s : Server) (c : Nat) (e : Events) :
    (s.connectionEvent c e).turn = true :=
  connectionEvent_where (P := fun l => l.turn = true) s c e rfl (fun _ => rfl) rfl

@[simp] theorem turn_resume (s : Server) (c : Nat) (k : Resume) : (s.resume c k).turn = true :=
  resume_where (P := fun l => l.turn = true) s c k rfl rfl rfl

@[simp] theorem turn_updateInterest (s : Server) (c : Nat) : (s.updateInterest c).turn = true :=
  updateInterest_where (P := fun l => l.turn = true) s c rfl rfl

@[simp] theorem handles_connectionEvent (s : Server) (c : Nat) (e : Events) :
    (s.connectionEvent c e).handles = some c :=
  connectionEvent_where (P := fun l => l.handles = some c) s c e rfl (fun _ => rfl) rfl

@[simp] theorem handles_resume (s : Server) (c : Nat) (k : Resume) :
    (s.resume c k).handles = some c :=
  resume_where (P := fun l => l.handles = some c) s c k rfl rfl rfl

@[simp] theorem handles_updateInterest (s : Server) (c : Nat) :
    (s.updateInterest c).handles = some c :=
  updateInterest_where (P := fun l => l.handles = some c) s c rfl rfl

theorem findConnection_mem {fd : Nat} (h : s.findConnection fd = some c) :
    (fd, c) ∈ s.connections := by
  rw [findConnection, Option.map_eq_some_iff] at h
  obtain ⟨⟨fd', c'⟩, hf, rfl⟩ := h
  obtain ⟨hm, rfl⟩ := Keyed.mem_of_find hf
  exact hm

theorem Mentions.mono (h : Mentions config s' c)
    (table : ∀ p ∈ s'.connections, p ∈ s.connections)
    (queue : ∀ job ∈ s'.queue, Mentions config s job.connection)
    (worker : ∀ w < config.workerThreads.toNat, ∀ c, (s'.worker w).holds = some c →
      Mentions config s c)
    (ready : ∀ c ∈ s'.readyConnections, Mentions config s c)
    (todo : ∀ i ∈ s'.todo, ∀ c, i.holds = some c → Mentions config s c)
    (loop : ∀ c, s'.loop.handles = some c → Mentions config s c) : Mentions config s c := by
  cases h with
  | table h => exact .table (table _ h)
  | queue h => exact queue _ h
  | worker hw h => exact worker _ hw _ h
  | ready h => exact ready _ h
  | todo h hi => exact todo _ h _ hi
  | loop h => exact loop _ h

theorem Mentions.goto (h : Mentions config s' c) (table : s'.connections = s.connections)
    (queue : s'.queue = s.queue) (worker : s'.worker = s.worker)
    (ready : s'.readyConnections = s.readyConnections)
    (todo : ∀ i ∈ s'.todo, ∀ c, i.holds = some c → Mentions config s c)
    (loop : ∀ c, s'.loop.handles = some c → Mentions config s c) : Mentions config s c :=
  h.mono (fun _ hp => table ▸ hp) (fun _ hj => .queue (queue ▸ hj))
    (fun _ hw _ hc => .worker hw (worker ▸ hc)) (fun _ hc => .ready (ready ▸ hc)) todo loop

theorem Mentions.same (h : Mentions config s' c) (table : s'.connections = s.connections)
    (queue : s'.queue = s.queue) (worker : s'.worker = s.worker)
    (ready : s'.readyConnections = s.readyConnections) (todo : s'.todo = s.todo)
    (loop : ∀ c, s'.loop.handles = some c → s.loop.handles = some c) : Mentions config s c :=
  h.goto table queue worker ready (fun _ hi _ hc => .todo (todo ▸ hi) hc)
    (fun _ hc => .loop (loop _ hc))

theorem Mentions.of_rest {i j : Item} {rest : List Item} (todo : s.todo = j :: rest)
    (h : i ∈ rest) (hi : i.holds = some c) : Mentions config s c :=
  .todo (todo ▸ List.mem_cons_of_mem j h) hi

theorem mentions_loop (hs : LoopStep config fds s o s') (h : Mentions config s' c) :
    Mentions config s c ∨
      c = s.nextConnectionId ∧ s.nextConnectionId < s'.nextConnectionId := by
  cases hs with
  | harvest events pc =>
    refine .inl (h.goto rfl rfl rfl rfl ?_ (fun c hc => by cases hc))
    intro i hi c hc
    obtain ⟨p, -, rfl⟩ := List.mem_map.mp hi
    cases hc
  | finish pc todo =>
    refine .inl (h.mono (fun p hp => by cases hp) (fun _ hj => .queue hj)
      (fun _ hw _ hc => .worker hw hc) (fun _ hc => .ready hc) (fun _ hi _ hc => .todo hi hc)
      (fun c hc => by cases hc))
  | opened fd pc =>
    by_cases hc : c = s.nextConnectionId
    · exact .inr ⟨hc, Nat.lt_succ_self _⟩
    · left
      cases h with
      | table h =>
        rw [openConnection] at h
        dsimp only at h
        split at h
        · exact .table h
        · obtain h | h := List.mem_cons.mp h
          · exact absurd (congrArg Prod.snd h) hc
          · exact .table h
      | queue h => exact .queue h
      | worker hw h => exact .worker hw h
      | ready h => exact .ready h
      | todo h hi => exact .todo h hi
      | loop h => exact .loop h
  | shutdownFirst fd events owner rest pc todo =>
    refine .inl (h.goto rfl rfl rfl rfl ?_ (fun c hc => .loop hc))
    intro i hi c hc
    obtain hi | hi := List.mem_append.mp hi
    · obtain ⟨p, hp, rfl⟩ := List.mem_map.mp hi
      cases hc
      exact .table hp
    · exact .of_rest todo hi hc
  | listener fd events owner rest pc todo =>
    exact .inl (h.goto rfl rfl rfl rfl (fun _ hi _ hc => .of_rest todo hi hc)
      (fun c hc => by cases hc))
  | completion fd events owner rest pc todo =>
    exact .inl (h.goto rfl rfl rfl rfl (fun _ hi _ hc => .of_rest todo hi hc)
      (fun c hc => by cases hc))
  | shutdownAgain fd events owner rest pc todo =>
    exact .inl (h.goto rfl rfl rfl rfl (fun _ hi _ hc => .of_rest todo hi hc)
      (fun c hc => .loop hc))
  | signalled fd events owner rest pc todo =>
    exact .inl (h.goto rfl rfl rfl rfl (fun _ hi _ hc => .of_rest todo hi hc)
      (fun c hc => .loop hc))
  | stale fd events owner rest pc todo =>
    exact .inl (h.goto rfl rfl rfl rfl (fun _ hi _ hc => .of_rest todo hi hc)
      (fun c hc => .loop hc))
  | event fd events owner rest d pc todo found =>
    refine .inl (h.goto rfl rfl rfl rfl (fun _ hi _ hc => .of_rest todo hi hc) ?_)
    intro c hc
    rw [handles_connectionEvent] at hc
    cases hc
    exact .table (findConnection_mem found)
  | ready d rest pc todo =>
    refine .inl (h.goto rfl rfl rfl rfl (fun _ hi _ hc => .of_rest todo hi hc) ?_)
    intro c hc
    have hd : Mentions config s d := .todo (todo ▸ List.mem_cons_self) rfl
    dsimp only at hc
    split at hc
    · cases hc
    · cases hc
      exact hd
  | interest d rest pc todo =>
    refine .inl (h.goto rfl rfl rfl rfl (fun _ hi _ hc => .of_rest todo hi hc) ?_)
    intro c hc
    rw [handles_updateInterest] at hc
    cases hc
    exact .todo (todo ▸ List.mem_cons_self) rfl
  | drainSwap pc =>
    refine .inl (h.mono (fun _ hp => hp) (fun _ hj => .queue hj) (fun _ hw _ hc => .worker hw hc)
      (fun c hc => by cases hc) ?_ (fun c hc => by cases hc))
    intro i hi c hc
    obtain hi | hi := List.mem_append.mp hi
    · obtain ⟨d, hd, rfl⟩ := List.mem_map.mp hi
      cases hc
      exact .ready hd
    · exact .todo hi hc
  | submit d request x error n pc =>
    refine .inl (h.mono (fun _ hp => hp) ?_ (fun _ hw _ hc => .worker hw hc)
      (fun _ hc => .ready hc) (fun _ hi _ hc => .todo hi hc) (fun _ hc => .loop hc))
    intro job hj
    obtain hj | hj := List.mem_append.mp hj
    · exact .queue hj
    · rw [List.mem_singleton.mp hj]
      exact .loop (by rw [pc]; rfl)
  | close d malformed pc =>
    refine .inl (h.mono (fun _ hp => (Keyed.mem_without.mp hp).1) (fun _ hj => .queue hj)
      (fun _ hw _ hc => .worker hw hc) (fun _ hc => .ready hc) (fun _ hi _ hc => .todo hi hc) ?_)
    intro c hc
    refine .loop (pc ▸ ?_)
    dsimp only at hc
    split at hc
    · exact hc
    · cases hc
  | stopExpired pc =>
    exact .inl (h.mono (fun _ hp => hp) (fun _ hj => by cases hj)
      (fun _ hw _ hc => .worker hw hc) (fun _ hc => .ready hc) (fun _ hi _ hc => .todo hi hc)
      (fun c hc => by cases hc))
  | interrupted => exact .inl h
  | reject => exact .inl (h.same rfl rfl rfl rfl rfl (fun _ hc => hc))
  | addFailed => exact .inl (h.same rfl rfl rfl rfl rfl (fun _ hc => hc))
  | acceptRetry => exact .inl h
  | _ =>
    refine .inl (h.same rfl rfl rfl rfl rfl (fun c hc => ?_))
    simp_all [apply_ite Loop.handles, leave]

theorem Mentions.setWorker {pc : Worker} (h : Mentions config s' c)
    (worker : s'.worker = s.setWorker w pc)
    (table : s'.connections = s.connections) (queue : ∀ job ∈ s'.queue, job ∈ s.queue)
    (ready : ∀ c ∈ s'.readyConnections, Mentions config s c) (todo : s'.todo = s.todo)
    (loop : s'.loop = s.loop) (holds : ∀ c, pc.holds = some c → Mentions config s c) :
    Mentions config s c := by
  refine h.mono (fun _ hp => table ▸ hp) (fun _ hj => .queue (queue _ hj)) ?_ ready
    (fun _ hi _ hc => .todo (todo ▸ hi) hc) (fun _ hc => .loop (loop ▸ hc))
  intro v hv c hc
  rw [worker, setWorker_apply] at hc
  by_cases hvw : v = w
  · rw [if_pos hvw] at hc
    exact holds c hc
  · rw [if_neg hvw] at hc
    exact .worker hv hc

theorem mentions_worker (hw : w < config.workerThreads.toNat) (hs : WorkerStep s w s')
    (h : Mentions config s' c) : Mentions config s c := by
  have key : ∀ d, (s.worker w).holds = some d → Mentions config s d := fun d hd => .worker hw hd
  cases hs with
  | take job queue pc hq =>
    refine h.setWorker rfl rfl (fun _ hj => hq ▸ List.mem_cons_of_mem job hj)
      (fun _ hc => .ready hc) rfl rfl ?_
    intro c hc
    cases hc
    exact .queue (hq ▸ List.mem_cons_self)
  | push d pc =>
    refine h.setWorker rfl rfl (fun _ hj => hj) ?_ rfl rfl ?_
    · intro c hc
      obtain hc | hc := List.mem_append.mp hc
      · exact .ready hc
      · exact key c (by rw [pc, List.mem_singleton.mp hc]; rfl)
    · intro c hc
      exact key c (by rw [pc]; exact hc)
  | decrement d healthy pc =>
    refine h.setWorker rfl rfl (fun _ hj => hj) (fun _ hc => .ready hc) rfl rfl ?_
    intro c hc
    refine key c (pc ▸ ?_)
    cases healthy <;> exact hc
  | exit pc =>
    exact h.setWorker rfl rfl (fun _ hj => hj) (fun _ hc => .ready hc) rfl rfl
      (fun c hc => by cases hc)
  | finish d pc =>
    exact h.setWorker rfl rfl (fun _ hj => hj) (fun _ hc => .ready hc) rfl rfl
      (fun c hc => by cases hc)
  | run job _ _ _ _ pc | record job _ _ pc | checkClosed job _ pc | checkOpen job _ pc
  | discard job pc | stage job _ _ _ pc | unhealthy d pc | notified d pc | notify d pc
  | write d pc =>
    exact h.setWorker rfl rfl (fun _ hj => hj) (fun _ hc => .ready hc) rfl rfl
      (fun c hc => key c (by rw [pc]; exact hc))

end Server

end LocalCache
