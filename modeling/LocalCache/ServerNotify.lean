import LocalCache.Library.Threads
import LocalCache.ServerTable

namespace LocalCache

open Protocol Serializer Library Threads

def Loop.idle : Loop → Bool
  | .wait | .drainPool | .drainInflight _ | .drainPending _ _ | .deadline | .stop | .stopWait
  | .join => true
  | _ => false

theorem Loop.idle_of_turn {l : Loop} (h : l.turn = true) : l.idle = false := by
  cases l <;> first | rfl | cases h

namespace Server

def pushing (config : ServerConfig) (s : Server) (c : Nat) : Nat :=
  total config.workerThreads.toNat (fun pc => if pc = .push c then 1 else 0) s.worker

/-- The flag of a connection stands for its one place on the way to the loop, and a connection
in the ready vector has its wakeup written or about to be. -/
structure Notified (config : ServerConfig) (s : Server) : Prop where
  once : ∀ c, s.readyConnections.count c + s.pushing config c + s.todo.count (.ready c) =
    (s.conn c).notifyPending.toNat
  counter : ∀ c ∈ s.readyConnections, 0 < s.completionCount ∨
    (∃ w < config.workerThreads.toNat, s.worker w = .write c) ∨ s.loop = .drainSwap
  idle : s.loop.idle = true → s.todo = []

variable {config : ServerConfig} {fds : Descriptors} {s s' : Server} {a : Action} {o : Outcome}
  {w c : Nat}

theorem notified_start (config : ServerConfig) (fds : Descriptors) :
    (start config fds).Notified config where
  once := by
    intro c
    have hz : (start config fds).pushing config c = 0 := total_eq_zero_iff.mpr (fun _ _ => rfl)
    rw [hz]
    rfl
  counter := by intro c hc; cases hc
  idle := fun _ => rfl

theorem Notified.frame (h : s.Notified config)
    (ready : s'.readyConnections = s.readyConnections) (worker : s'.worker = s.worker)
    (notify : ∀ c, (s'.conn c).notifyPending = (s.conn c).notifyPending)
    (count : s'.completionCount = s.completionCount)
    (todo : ∀ c, s'.todo.count (.ready c) = s.todo.count (.ready c))
    (loop : s.loop = .drainSwap → s'.loop = .drainSwap)
    (idle : s'.loop.idle = true → s'.todo = []) : s'.Notified config where
  once := by
    intro c
    rw [ready, notify, todo, pushing, worker]
    exact h.once c
  counter := by
    intro c hc
    rw [count, worker]
    exact (h.counter c (ready ▸ hc)).imp id (Or.imp id loop)
  idle := idle

theorem Notified.setWorker {pc : Worker} (h : s.Notified config)
    (hw : w < config.workerThreads.toNat)
    (worker : s'.worker = s.setWorker w pc)
    (once : ∀ c, s'.readyConnections.count c + (if pc = .push c then 1 else 0) +
        (s.conn c).notifyPending.toNat = s.readyConnections.count c +
          (if s.worker w = .push c then 1 else 0) + (s'.conn c).notifyPending.toNat)
    (counter : ∀ c ∈ s'.readyConnections, c ∈ s.readyConnections ∧
      s.completionCount ≤ s'.completionCount ∧
        (s.worker w = .write c → 0 < s'.completionCount) ∨ pc = .write c)
    (todo : s'.todo = s.todo) (loop : s'.loop = s.loop) : s'.Notified config where
  once := by
    intro c
    have hc := once c
    have hold := h.once c
    have ht := total_setWorker hw s (fun pc => if pc = .push c then 1 else 0) pc
    rw [← worker] at ht
    rw [todo]
    simp only [pushing] at hold ⊢
    omega
  counter := by
    intro c hc
    obtain ⟨hmem, hle, hwrite⟩ | hpc := counter c hc
    · obtain hpos | ⟨v, hv, hvc⟩ | hl := h.counter c hmem
      · exact .inl (Nat.lt_of_lt_of_le hpos hle)
      · by_cases hvw : v = w
        · exact .inl (hwrite (hvw ▸ hvc))
        · refine .inr (.inl ⟨v, hv, ?_⟩)
          rw [worker, setWorker_apply, if_neg hvw]
          exact hvc
      · exact .inr (.inr (loop.trans hl))
    · refine .inr (.inl ⟨w, hw, ?_⟩)
      rw [worker, setWorker_apply, if_pos rfl]
      exact hpc
  idle := by
    rw [todo, loop]
    exact h.idle

theorem Notified.moved {pc : Worker} (h : s.Notified config) (hw : w < config.workerThreads.toNat)
    (worker : s'.worker = s.setWorker w pc)
    (before : ∀ c, s.worker w ≠ .push c ∧ s.worker w ≠ .write c) (after : ∀ c, pc ≠ .push c)
    (ready : s'.readyConnections = s.readyConnections)
    (notify : ∀ c, (s'.conn c).notifyPending = (s.conn c).notifyPending)
    (count : s'.completionCount = s.completionCount) (todo : s'.todo = s.todo)
    (loop : s'.loop = s.loop) : s'.Notified config := by
  refine h.setWorker hw worker ?_ ?_ todo loop
  · intro c
    rw [ready, notify, if_neg (before c).1, if_neg (after c)]
  · intro c hc
    exact .inl ⟨ready ▸ hc, Nat.le_of_eq count.symm, fun hwc => absurd hwc (before c).2⟩

theorem notified_worker (h : s.Notified config) (hw : w < config.workerThreads.toNat)
    (hs : WorkerStep s w s') : s'.Notified config := by
  cases hs with
  | notify d pc fresh =>
    refine h.setWorker hw rfl ?_ (fun c hc => .inl ⟨hc, Nat.le_refl _, by simp [pc]⟩) rfl rfl
    intro c
    dsimp only
    rw [pc, setConn_apply]
    by_cases hc : c = d
    · subst hc
      simp [fresh]
    · simp [hc, Ne.symm hc]
  | push d pc =>
    refine h.setWorker hw rfl ?_ ?_ rfl rfl
    · intro c
      dsimp only
      rw [pc, List.count_append, List.count_singleton]
      by_cases hc : d = c <;> simp [hc]
    · intro c hc
      obtain hc | hc := List.mem_append.mp hc
      · exact .inl ⟨hc, Nat.le_refl _, by simp [pc]⟩
      · rw [List.mem_singleton.mp hc]
        exact .inr rfl
  | write d pc =>
    exact h.setWorker hw rfl (by simp [pc])
      (fun c hc => .inl ⟨hc, Nat.le_succ _, fun _ => Nat.succ_pos _⟩) rfl rfl
  | stage job response overLimit x pc hx =>
    refine h.moved hw rfl (by simp [pc]) (by simp) rfl ?_ rfl rfl rfl
    exact setConn_congr Connection.notifyPending (by rw [Connection.stage_frame hx])
  | discard job pc | unhealthy d pc =>
    exact h.moved hw rfl (by simp [pc]) (by simp) rfl
      (setConn_congr Connection.notifyPending rfl) rfl rfl rfl
  | decrement d healthy pc =>
    exact h.moved hw rfl (by simp [pc]) (by cases healthy <;> simp) rfl
      (setConn_congr Connection.notifyPending rfl) rfl rfl rfl
  | _ => exact h.moved hw rfl (by simp [*]) (by simp) rfl (fun _ => rfl) rfl rfl rfl

theorem Notified.handled {x : Connection} (h : s.Notified config)
    (hc : s.loop.handles = some c) (conn : s'.conn = s.setConn c x)
    (hx : x.notifyPending = (s.conn c).notifyPending)
    (ready : s'.readyConnections = s.readyConnections) (worker : s'.worker = s.worker)
    (count : s'.completionCount = s.completionCount) (todo : s'.todo = s.todo)
    (busy : s'.loop.idle = false) : s'.Notified config := by
  refine h.frame ready worker ?_ count (fun _ => by rw [todo]) ?_ ?_
  · intro d
    rw [conn]
    exact setConn_congr Connection.notifyPending hx d
  · intro hl
    rw [hl] at hc
    cases hc
  · intro hl
    rw [busy] at hl
    cases hl

theorem count_ready_map_ready (c : Nat) (cs : List Nat) :
    (cs.map Item.ready).count (.ready c) = cs.count c :=
  List.count_map_of_injective cs Item.ready (fun _ _ h => Item.ready.inj h) c

theorem notified_loop (h : s.Notified config) (ht : s.Tabled config)
    (hs : LoopStep config fds s o s') : s'.Notified config := by
  cases hs with
  | harvest events pc =>
    refine h.frame rfl rfl (fun _ => rfl) rfl ?_ (by simp [pc]) (fun hl => by cases hl)
    intro c
    rw [h.idle (by rw [pc]; rfl), List.count_nil, List.count_eq_zero]
    intro hmem
    obtain ⟨p, -, hp⟩ := List.mem_map.mp hmem
    cases hp
  | drainRead pc =>
    exact ⟨h.once, fun _ _ => .inr (.inr rfl), fun hl => by cases hl⟩
  | drainSwap pc =>
    refine ⟨fun c => ?_, (fun c hc => by cases hc), (fun hl => by cases hl)⟩
    have hc := h.once c
    rw [List.count_append, count_ready_map_ready, ← hc, List.count_nil]
    simp only [pushing]
    omega
  | ready d rest pc todo =>
    refine ⟨fun c => ?_, ?_, fun hl => ?_⟩
    · have hc := h.once c
      have hd := h.once d
      have hle := Bool.toNat_le (s.conn d).notifyPending
      dsimp only
      rw [todo, List.count_cons] at hc hd
      rw [setConn_apply]
      simp only [pushing] at hc hd ⊢
      by_cases hcd : c = d
      · subst hcd
        simp only [beq_self_eq_true, if_true] at hc hd
        simp only [if_true, Bool.toNat_false]
        omega
      · have hne : (Item.ready d == Item.ready c) = false := by
          simpa using Ne.symm hcd
        rw [hne] at hc
        rw [if_neg hcd]
        simpa using hc
    · intro c hc
      refine (h.counter c hc).imp id (Or.imp id ?_)
      simp [pc]
    · dsimp only at hl
      split at hl <;> cases hl
  | shutdownFirst fd events owner rest pc todo =>
    refine h.frame rfl rfl (fun _ => rfl) rfl ?_ (by simp [pc]) (by simp [pc, Loop.idle])
    intro c
    have hz : (s.connections.map (fun p => Item.interest p.2)).count (.ready c) = 0 := by
      rw [List.count_eq_zero]
      intro hmem
      obtain ⟨p, -, hp⟩ := List.mem_map.mp hmem
      cases hp
    rw [List.count_append, hz, todo]
    simp
  | finish pc todo =>
    refine h.frame rfl rfl (fun c => ?_) rfl (fun _ => rfl) (by simp [pc]) (fun _ => todo)
    rw [closeAll]
    dsimp only
    split <;> rfl
  | opened fd pc =>
    refine h.frame rfl rfl ?_ rfl (fun _ => rfl) (by simp [pc]) h.idle
    refine setConn_congr Connection.notifyPending ?_
    rw [ht.fresh _ (Nat.le_refl _)]
  | flushMore c k x pc hr =>
    exact h.handled (by rw [pc]; rfl) rfl (by rw [Connection.refill_frame hr]) rfl rfl rfl rfl rfl
  | flushed c k x pc hr =>
    exact h.handled (by rw [pc]; rfl) rfl (by rw [Connection.refill_frame hr]) rfl rfl rfl rfl
      (Loop.idle_of_turn (turn_resume s c k))
  | needMore c out x error n pc room hn | malformed c out x error n _ _ pc room hn =>
    exact h.handled (by rw [pc]; rfl) rfl (by rw [Connection.nextRequest_frame hn]) rfl rfl rfl
      rfl rfl
  | unidentified c out x error n pc room hn | refuse c out x error n pc room hn =>
    have hx : x.notifyPending = (s.conn c).notifyPending := by
      rw [Connection.nextRequest_frame hn]
    exact h.handled (by rw [pc]; rfl) rfl hx rfl rfl rfl rfl rfl
  | submit c request x error n pc room hn =>
    have hx : x.notifyPending = (s.conn c).notifyPending := by
      rw [Connection.nextRequest_frame hn]
    exact h.handled (by rw [pc]; rfl) rfl hx rfl rfl rfl rfl (by rw [pc]; rfl)
  | busy job ok x pc he =>
    refine h.handled (by rw [pc]; rfl) rfl (by rw [Connection.enqueueResponse_frame he]) rfl rfl
      rfl rfl ?_
    cases ok <;> rfl
  | immediate c response ok x pc he =>
    have hx : x.notifyPending = (s.conn c).notifyPending := by
      rw [Connection.enqueueResponse_frame he]
    refine h.handled (by rw [pc]; rfl) rfl ?_ rfl rfl rfl rfl ?_
    · cases ok <;> exact hx
    · cases ok <;> rfl
  | closedBefore c malformed pc | close c malformed pc =>
    refine h.handled (by rw [pc]; rfl) rfl rfl rfl rfl rfl rfl ?_
    cases malformed <;> rfl
  | sent c _ _ pc | readData c _ pc | register c _ pc =>
    exact h.handled (by rw [pc]; rfl) rfl rfl rfl rfl rfl rfl rfl
  | _ =>
    have hidle := h.idle
    refine h.frame rfl rfl (fun _ => rfl) rfl ?_ ?_ ?_ <;>
      simp_all [leave, ↓apply_ite Loop.idle, ↓Loop.idle_of_turn, Loop.idle]

theorem step_notified (h : s.Notified config) (ht : s.Tabled config)
    (hs : Step config fds s a s') : s'.Notified config := by
  cases hs with
  | loop hl => exact notified_loop h ht hl
  | worker hw hs => exact notified_worker h hw hs
  | requestShutdown =>
    exact h.frame rfl rfl (fun _ => rfl) rfl (fun _ => rfl) id h.idle

end Server

end LocalCache
