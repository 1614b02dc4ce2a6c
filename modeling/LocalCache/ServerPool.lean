import LocalCache.ServerRequests
import LocalCache.WorkerPoolRun

namespace LocalCache

open Protocol Serializer Library Threads Transition

def Job.submission (j : Job) : Submission Job := ⟨j.ticket, j⟩

/-- What the pool can tell of a thread: all of `handle_job` is in the handler. -/
def Worker.Shows (pc : Worker) (t : PoolThread Job) : Prop :=
  match pc with
  | .waiting => t = .waiting
  | .run j | .record j _ _ | .check j _ | .discard j | .stage j _ => t = .handling j.submission
  | .decrement c _ | .unhealthy c | .notify c | .push c | .write c | .finish c =>
    ∃ j : Job, j.connection = c ∧ t = .handling j.submission
  | .exited => t = .exited

def Loop.stopper : Loop → Option Stopper
  | .stopWait => some .draining
  | .join => some .joining
  | _ => none

namespace Server

/-- The pool that the server has inside. -/
structure Shows (s : Server) (p : WorkerPool Job) : Prop where
  queue : p.queue = s.queue.map Job.submission
  accepting : p.accepting = s.accepting
  stopping : p.stopping = s.stopping
  threads : ∀ w, (s.worker w).Shows (p.thread w)
  within : ∀ t, s.loop.stopper = some t → p.stopper = t
  without : s.loop.stopper = none → p.stopper = .outside ∨ p.stopper = .returned
  taken : (p.history.accepted ++ p.history.refused).Perm (s.ledger.taken.map Job.submission)
  accepted : p.history.accepted.Sublist (s.ledger.taken.map Job.submission)
  refused : p.history.refused.Sublist (s.ledger.taken.map Job.submission)
  dropped : p.history.discarded = s.ledger.dropped.map Job.submission

variable {config : ServerConfig} {fds : Descriptors} {s s' : Server} {a : Action} {o : Outcome}
  {p : WorkerPool Job} {w : Nat}

theorem shows_start (config : ServerConfig) (fds : Descriptors) :
    (start config fds).Shows {} where
  queue := rfl
  accepting := rfl
  stopping := rfl
  threads := fun _ => rfl
  within := fun _ ht => by cases ht
  without := fun _ => .inl rfl
  taken := .nil
  accepted := .slnil
  refused := .slnil
  dropped := rfl

theorem Shows.next (h : s.Shows p) (c : Nat) (request : Request) :
    p.submission ⟨c, request, s.ledger.taken.length⟩ =
      Job.submission ⟨c, request, s.ledger.taken.length⟩ := by
  have hlength := h.taken.length_eq
  rw [List.length_append, List.length_map] at hlength
  rw [WorkerPool.submission, hlength]
  rfl

theorem Shows.frame (h : s.Shows p) (queue : s'.queue = s.queue)
    (accepting : s'.accepting = s.accepting) (stopping : s'.stopping = s.stopping)
    (threads : ∀ w t, (s.worker w).Shows t → (s'.worker w).Shows t)
    (stopper : s'.loop.stopper = s.loop.stopper) (taken : s'.ledger.taken = s.ledger.taken)
    (dropped : s'.ledger.dropped = s.ledger.dropped) : s'.Shows p where
  queue := queue ▸ h.queue
  accepting := accepting ▸ h.accepting
  stopping := stopping ▸ h.stopping
  threads := fun w => threads w _ (h.threads w)
  within := stopper ▸ h.within
  without := stopper ▸ h.without
  taken := taken ▸ h.taken
  accepted := taken ▸ h.accepted
  refused := taken ▸ h.refused
  dropped := dropped ▸ h.dropped

theorem shows_move {pc : Worker} (moves : ∀ t, (s.worker w).Shows t → pc.Shows t) (v : Nat)
    (t : PoolThread Job) (ht : (s.worker v).Shows t) : (s.setWorker w pc v).Shows t := by
  rw [setWorker_apply]
  split
  · rename_i hv
    exact moves t (hv ▸ ht)
  · exact ht

theorem shows_setWorker {pc : Worker} {t : PoolThread Job} (h : s.Shows p) (ht : pc.Shows t)
    (v : Nat) : (s.setWorker w pc v).Shows (Function.update p.thread w t v) := by
  rw [setWorker_apply, Function.update_apply]
  split
  · exact ht
  · exact h.threads v

def Matches (config : ServerConfig) (p : WorkerPool Job) (s' : Server) : Prop :=
  s'.Shows p ∨ ∃ b p', p.step config.workerThreads.toNat config.maxPendingRequests.toNat b =
    some p' ∧ s'.Shows p'

theorem matches_worker {p' : WorkerPool Job} (hw : w < config.workerThreads.toNat)
    (hs : p.workerLoop w = some p') (h : s'.Shows p') : Matches config p s' := by
  refine .inr ⟨.worker w, p', ?_, h⟩
  rw [WorkerPool.step, if_pos hw, hs]

theorem shows_worker (h : s.Shows p) (hw : w < config.workerThreads.toNat)
    (hs : WorkerStep s w s') : Matches config p s' := by
  have hthread := h.threads w
  cases hs with
  | take job queue pc hq =>
    have hwaiting : p.thread w = .waiting := by rwa [pc] at hthread
    have hqueue : p.queue = job.submission :: queue.map Job.submission := by
      rw [h.queue, hq, List.map_cons]
    refine matches_worker hw (by rw [WorkerPool.workerLoop, hwaiting, hqueue]) ?_
    exact { h with queue := rfl, threads := shows_setWorker h rfl }
  | exit pc hq stopping =>
    have hwaiting : p.thread w = .waiting := by rwa [pc] at hthread
    have hqueue : p.queue = [] := by rw [h.queue, hq, List.map_nil]
    have hstopping : p.stopping = true := h.stopping.trans stopping
    have hexit : p.workerLoop w =
        some { p with thread := Function.update p.thread w .exited } := by
      simp [WorkerPool.workerLoop, hwaiting, hqueue, hstopping]
    exact matches_worker hw hexit { h with threads := shows_setWorker h rfl }
  | finish c pc =>
    rw [pc] at hthread
    obtain ⟨j, -, hj⟩ := hthread
    refine matches_worker hw (by rw [WorkerPool.workerLoop, hj]) ?_
    exact { h with threads := shows_setWorker h rfl }
  | discard job pc | stage job response overLimit x pc =>
    left
    refine h.frame rfl rfl rfl (shows_move fun t ht => ?_) rfl rfl rfl
    rw [pc] at ht
    exact ⟨job, rfl, ht⟩
  | decrement c healthy pc =>
    left
    refine h.frame rfl rfl rfl (shows_move fun t ht => ?_) rfl rfl rfl
    rw [pc] at ht
    cases healthy <;> exact ht
  | run _ _ _ _ _ pc | record _ _ _ pc | checkClosed _ _ pc | checkOpen _ _ pc | unhealthy _ pc
  | notified _ pc | notify _ pc | push _ pc | write _ pc =>
    left
    refine h.frame rfl rfl rfl (shows_move fun t ht => ?_) rfl rfl rfl
    rw [pc] at ht
    exact ht

@[simp] theorem stopper_of_ne {l : Loop} (waits : l ≠ .stopWait) (joins : l ≠ .join) :
    l.stopper = none :=
  Loop.stopper.eq_3 l waits joins

@[simp] theorem stopper_of_turn {l : Loop} (h : l.turn = true) : l.stopper = none := by
  cases l <;> first | rfl | cases h

theorem shows_submit {c : Nat} {request : Request} (h : s.Shows p)
    (accepting : s'.accepting = s.accepting) (stopping : s'.stopping = s.stopping)
    (worker : s'.worker = s.worker) (stopper : s'.loop.stopper = none)
    (before : s.loop.stopper = none)
    (taken : s'.ledger.taken = s.ledger.taken ++ [⟨c, request, s.ledger.taken.length⟩])
    (dropped : s'.ledger.dropped = s.ledger.dropped)
    (queue : s'.queue = if s.canSubmit config then
      s.queue ++ [⟨c, request, s.ledger.taken.length⟩] else s.queue) : Matches config p s' := by
  have hcan : (!p.accepting || p.queue.length ≥ config.maxPendingRequests.toNat) =
      !s.canSubmit config := by
    rw [canSubmit, h.accepting, h.queue, List.length_map, Bool.not_and]
    congr 1
    exact (decide_eq_decide.mpr Nat.not_lt.symm).trans decide_not
  have hsubmit := h.next c request
  have hjobs : s'.ledger.taken.map Job.submission = s.ledger.taken.map Job.submission ++
      [Job.submission ⟨c, request, s.ledger.taken.length⟩] := by
    rw [taken, List.map_append, List.map_singleton]
  have hwithin : ∀ t, s'.loop.stopper = some t → p.stopper = t := by
    intro t ht
    rw [stopper] at ht
    cases ht
  cases hc : s.canSubmit config with
  | true =>
    rw [hc, if_pos rfl] at queue
    refine .inr ⟨.submit ⟨c, request, s.ledger.taken.length⟩, { p with
      queue := p.queue ++ [Job.submission ⟨c, request, s.ledger.taken.length⟩]
      history := { p.history with
        accepted := p.history.accepted ++
          [Job.submission ⟨c, request, s.ledger.taken.length⟩] } }, ?_, ?_⟩
    · rw [WorkerPool.step, WorkerPool.trySubmit, hcan, hc, hsubmit]
      rfl
    refine ⟨?_, accepting ▸ h.accepting, stopping ▸ h.stopping, worker ▸ h.threads, hwithin,
      fun _ => h.without before, ?_, ?_, ?_, dropped ▸ h.dropped⟩
    · rw [queue, List.map_append, ← h.queue, List.map_singleton]
    · rw [hjobs, List.append_assoc]
      refine List.Perm.trans ?_ (h.taken.append_right _)
      rw [List.append_assoc]
      exact List.perm_append_comm.append_left _
    · rw [hjobs]
      exact h.accepted.append (.refl _)
    · rw [hjobs]
      exact h.refused.trans (List.sublist_append_left _ _)
  | false =>
    rw [hc] at queue
    refine .inr ⟨.submit ⟨c, request, s.ledger.taken.length⟩, { p with
      history := { p.history with
        refused := p.history.refused ++
          [Job.submission ⟨c, request, s.ledger.taken.length⟩] } }, ?_, ?_⟩
    · rw [WorkerPool.step, WorkerPool.trySubmit, hcan, hc, hsubmit]
      rfl
    refine ⟨queue ▸ h.queue, accepting ▸ h.accepting, stopping ▸ h.stopping, worker ▸ h.threads,
      hwithin, fun _ => h.without before, ?_, ?_, ?_, dropped ▸ h.dropped⟩
    · rw [hjobs, ← List.append_assoc]
      exact h.taken.append_right _
    · rw [hjobs]
      exact h.accepted.trans (List.sublist_append_left _ _)
    · rw [hjobs]
      exact h.refused.append (.refl _)

theorem shows_onStop (h : s.Shows p) (pc : s.loop = .stop) :
    Matches config p (s.onStop config) := by
  refine .inr ⟨.drain config.shutdownDrainMs, p.drainAndStop config.shutdownDrainMs, ?_, ?_⟩
  · obtain hpc | hpc := h.without (by rw [pc]; rfl) <;> rw [WorkerPool.step, hpc]
  have hcalled : (!p.accepting && p.stopping) = (!s.accepting && s.stopping) := by
    rw [h.accepting, h.stopping]
  have hqueue : p.queue ≠ [] ↔ s.queue ≠ [] := by
    rw [h.queue, ne_eq, List.map_eq_nil_iff]
  rw [onStop, WorkerPool.drainAndStop, hcalled]
  split
  · exact { h with within := (fun _ ht => by cases ht), without := fun _ => .inr rfl }
  · by_cases hwaits : config.shutdownDrainMs > 0 ∧ s.queue ≠ []
    · rw [if_pos hwaits, if_pos ⟨hwaits.1, hqueue.mpr hwaits.2⟩]
      exact { h with
        accepting := rfl
        within := fun _ ht => Option.some.inj ht
        without := (fun ht => by cases ht) }
    · rw [if_neg hwaits, if_neg (fun hw => hwaits ⟨hw.1, hqueue.mp hw.2⟩)]
      exact { h with
        accepting := rfl
        stopping := rfl
        within := fun _ ht => Option.some.inj ht
        without := (fun ht => by cases ht) }

theorem shows_loop (h : s.Shows p) (before : s.loop ≠ .stop)
    (hs : LoopStep config fds s o s') : Matches config p s' := by
  cases hs with
  | submit c request x error n pc room next accepts =>
    exact shows_submit h rfl rfl rfl (by rw [pc]; rfl) (by rw [pc]; rfl) rfl rfl
      (by rw [accepts, if_pos rfl])
  | refuse c request x error n pc room next refuses =>
    exact shows_submit h rfl rfl rfl rfl (by rw [pc]; rfl) rfl rfl
      (by rw [refuses]; rfl)
  | stopped pc | stopWait pc | stopNow pc => exact absurd pc before
  | stopDrained pc empty =>
    have hpc := h.within .draining (by rw [pc]; rfl)
    have hqueue : p.queue = [] := by rw [h.queue, empty, List.map_nil]
    refine .inr ⟨.wake false, { p with stopping := true, stopper := .joining }, ?_, ?_⟩
    · rw [WorkerPool.step, hpc]
      exact if_pos hqueue
    · exact { h with
        stopping := rfl
        within := fun _ ht => Option.some.inj ht
        without := (fun ht => by cases ht) }
  | stopExpired pc =>
    have hpc := h.within .draining (by rw [pc]; rfl)
    refine .inr ⟨.wake true, { p with
      queue := []
      stopping := true
      stopper := .joining
      history := { p.history with discarded := p.history.discarded ++ p.queue } }, ?_, ?_⟩
    · rw [WorkerPool.step, hpc]
      by_cases hqueue : p.queue = []
      · simp [WorkerPool.stopWaiting, hqueue]
      · simp [WorkerPool.stopWaiting, hqueue]
    · exact { h with
        queue := rfl
        stopping := rfl
        within := fun _ ht => Option.some.inj ht
        without := (fun ht => by cases ht)
        dropped := by rw [h.dropped, h.queue, List.map_append] }
  | joined pc exited =>
    have hpc := h.within .joining (by rw [pc]; rfl)
    refine .inr ⟨.join, { p with stopper := .returned }, ?_, ?_⟩
    · rw [WorkerPool.step, hpc]
      refine if_pos (fun w hw => ?_)
      have ht := h.threads w
      rw [exited w hw] at ht
      exact WorkerPool.isExited_iff.mpr ht
    · exact { h with within := (fun _ ht => by cases ht), without := fun _ => .inr rfl }
  | busy job ok x pc he =>
    left
    refine h.frame rfl rfl rfl (fun _ _ ht => ht) ?_ ?_ ?_
    · simp [pc, apply_ite Loop.stopper]
    · simp only [recordAnswer]
      split <;> rfl
    · simp only [recordAnswer]
      split <;> rfl
  | immediate c response ok x pc he =>
    left
    refine h.frame rfl rfl rfl (fun _ _ ht => ht) ?_ ?_ ?_
    · simp [pc, apply_ite Loop.stopper]
    · dsimp only
      split <;> rfl
    · dsimp only
      split <;> rfl
  | _ =>
    left
    refine h.frame rfl rfl rfl (fun _ _ ht => ht) ?_ rfl rfl
    simp [leave, closeAll, openConnection, apply_ite Loop.stopper, *]

theorem shows_step (h : s.Shows p) (hs : step config fds s a = some s') :
    Matches config p s' := by
  by_cases hstop : s.loop = .stop ∧ ∃ o, a = .loop o
  · obtain ⟨pc, o, rfl⟩ := hstop
    unfold step loopStep at hs
    rw [pc] at hs
    cases o with
    | internal =>
      obtain rfl := Option.some.inj hs
      exact shows_onStop h pc
    | _ => cases hs
  · cases step_sound hs with
    | loop hl => exact shows_loop h (fun pc => hstop ⟨pc, _, rfl⟩) hl
    | worker hw hs => exact shows_worker h hw hs
    | requestShutdown => exact .inl (h.frame rfl rfl rfl (fun _ _ ht => ht) rfl rfl rfl)

/-- What the event loop and the workers of the server do with the queue and with each other is a
run of the worker pool: every request taken is a call of `try_submit`, a worker is in the handler
from taking a job to the end of `complete_job`, and the end of `run` is a call of
`drain_and_stop`. -/
theorem server_refines_pool (config : ServerConfig) (fds : Descriptors) {s : Server}
    (h : Reach (step config fds) Free (start config fds) s) :
    ∃ p : WorkerPool Job, Reach (WorkerPool.step config.workerThreads.toNat
      config.maxPendingRequests.toNat) Free {} p ∧ s.Shows p :=
  h.simulated (shows_start config fds) (fun _ _ _ _ hp hs => shows_step hp hs)

theorem server_refines_pool_refused :
    ∃ s : Server, ∃ p : WorkerPool Job,
      s.ledger.answers.map (fun x => x.response.status) = [.kServerBusy] ∧
      Reach (WorkerPool.step oneSlot.workerThreads.toNat oneSlot.maxPendingRequests.toNat)
        Free {} p ∧
      p.thread 0 = .handling ⟨0, 1, { requestId := 1, opcode := .kPing }, 0⟩ ∧
      p.history.accepted.length + p.history.refused.length = 2 := by
  obtain ⟨s, hr, hanswers, hworker, htaken⟩ := exists_reach
    (step oneSlot usualFds) (start oneSlot usualFds)
    (connect 7 ++ [.loop (.batch [(7, { epollin := true })]), .loop .internal,
      .loop (.recv (.data (ping 1 ++ ping 2)))] ++ List.replicate 3 (.loop .internal) ++
      [.worker 0 0])
    (fun s => s.ledger.answers.map (fun x => x.response.status) = [.kServerBusy] ∧
      s.worker 0 = .run ⟨1, { requestId := 1, opcode := .kPing }, 0⟩ ∧ s.ledger.taken.length = 2)
    (by decide +kernel)
  obtain ⟨p, hp, hshows⟩ := server_refines_pool oneSlot usualFds hr
  have hthread := hshows.threads 0
  have hlength := hshows.taken.length_eq
  rw [hworker] at hthread
  rw [List.length_append, List.length_map, htaken] at hlength
  exact ⟨s, p, hanswers, hp, hthread, hlength⟩

end Server

end LocalCache
