import LocalCache.LoopSoundness
import LocalCache.WorkerSteps
import LocalCache.Library.Transition
import LocalCache.Library.Threads

namespace LocalCache.Server

open Protocol Serializer Library Transition

/-- Every way in which the system can move. -/
inductive Step (config : ServerConfig) (fds : Descriptors) (s : Server) : Action → Server → Prop
  | loop {o s'} (h : LoopStep config fds s o s') : Step config fds s (.loop o) s'
  | worker {w uptimeMs s'} (hw : w < config.workerThreads.toNat) (h : WorkerStep s w s') :
    Step config fds s (.worker w uptimeMs) s'
  | requestShutdown :
    Step config fds s .requestShutdown { s with shutdownCount := s.shutdownCount + 1 }

variable {config : ServerConfig} {fds : Descriptors} {s s' : Server} {a : Action}

theorem step_sound (h : step config fds s a = some s') : Step config fds s a s' := by
  cases a with
  | loop o => exact .loop (loopStep_sound h)
  | worker w uptimeMs =>
    rw [step] at h
    by_cases hw : w < config.workerThreads.toNat
    · rw [if_pos hw] at h
      exact .worker hw (workerStep_sound h)
    · rw [if_neg hw] at h
      cases h
  | requestShutdown =>
    obtain rfl := Option.some.inj h
    exact .requestShutdown

/-- A property of the start state that every move keeps holds in every run. -/
theorem run_invariant {ok : Server → Action → Prop} {P : Server → Prop}
    (h0 : P (start config fds)) (hstep : ∀ s a s', P s → Step config fds s a s' → P s')
    (h : Reach (step config fds) ok (start config fds) s) : P s :=
  h.invariant h0 (fun s a s' hp _ hs => hstep s a s' hp (step_sound hs))

theorem setConn_same (s : Server) (c : Nat) (x : Connection) : s.setConn c x c = x := by
  rw [setConn, Function.update_self]

theorem setConn_of_ne {c d : Nat} (h : d ≠ c) (s : Server) (x : Connection) :
    s.setConn c x d = s.conn d := by
  rw [setConn, Function.update_of_ne h]

theorem setConn_apply (s : Server) (c d : Nat) (x : Connection) :
    s.setConn c x d = if d = c then x else s.conn d := by
  rw [setConn, Function.update_apply]

theorem setWorker_apply (s : Server) (w v : Nat) (pc : Worker) :
    s.setWorker w pc v = if v = w then pc else s.worker v := by
  rw [setWorker, Function.update_apply]

theorem total_setWorker {n w : Nat} (hw : w < n) (s : Server) (g : Worker → Nat) (pc : Worker) :
    Threads.total n g (s.setWorker w pc) + g (s.worker w) =
      Threads.total n g s.worker + g pc :=
  Threads.total_update hw g s.worker pc

theorem setConn_congr {α : Type} (f : Connection → α) {c : Nat} {x : Connection}
    (hx : f x = f (s.conn c)) (d : Nat) : f (s.setConn c x d) = f (s.conn d) := by
  rw [setConn_apply]
  split
  · rename_i hd
    rw [hx, hd]
  · rfl

theorem forall_setConn {P : Connection → Prop} {c : Nat} {x : Connection}
    (h : ∀ d, P (s.conn d)) (hx : P x) (d : Nat) : P (s.setConn c x d) := by
  by_cases hd : d = c
  · rw [hd, setConn_same]
    exact hx
  · rw [setConn_of_ne hd]
    exact h d

end LocalCache.Server
