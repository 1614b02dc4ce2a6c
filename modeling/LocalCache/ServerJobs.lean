import LocalCache.ServerBacklog

namespace LocalCache

open Protocol Serializer Library Threads

def Worker.starts : Worker → Option Job
  | .run job => some job
  | _ => none

def Worker.carried : Worker → Option (Job × Response)
  | .record job response _ | .check job response | .stage job response => some (job, response)
  | _ => none

theorem Worker.response_of_carried {pc : Worker} {j : Job} {r : Response}
    (h : pc.carried = some (j, r)) : pc.response = some r := by
  cases pc <;> simp_all [Worker.carried, Worker.response]

namespace Server

def running (s : Server) : Action → Option Job
  | .worker w _ => (s.worker w).starts
  | _ => none

def answersOn (s : Server) (c : Nat) : List Answer :=
  s.ledger.answers.filter (fun a => a.connection = c)

/-- The job was taken and has not been executed. -/
inductive Waiting (config : ServerConfig) (s : Server) (j : Job) : Prop
  | queued (h : j ∈ s.queue)
  | refused (h : s.loop.job = some j)
  | started (w : Nat) (hw : w < config.workerThreads.toNat) (h : (s.worker w).starts = some j)

def Carrying (config : ServerConfig) (s : Server) (j : Job) (r : Response) : Prop :=
  ∃ w < config.workerThreads.toNat, (s.worker w).carried = some (j, r)

variable {config : ServerConfig} {fds : Descriptors} {s s' : Server} {a : Action} {o : Outcome}
  {w : Nat} {j : Job} {r : Response} {pc : Worker}

theorem Core.only_place (hc : s.Core config)
    (h : 0 < s.queue.count j + s.executing config j + s.held j) :
    j ∈ s.ledger.taken ∧ s.answered j = 0 ∧
      s.queue.count j + s.executing config j + s.held j = 1 := by
  have hp := hc.accounted.places j
  have hmem : j ∈ s.ledger.taken := by
    apply List.count_pos_iff.mp
    omega
  rw [List.count_eq_one_of_mem hc.taken_nodup hmem] at hp
  exact ⟨hmem, by omega, by omega⟩

theorem doing_starts (h : pc.starts = some j) : doing j pc = 1 := by
  cases pc <;> simp_all [Worker.starts, doing, Worker.job]

theorem doing_carried (h : pc.carried = some (j, r)) : doing j pc = 1 := by
  cases pc <;> simp_all [Worker.carried, doing, Worker.job]

theorem Carrying.executing_pos (h : s.Carrying config j r) : 0 < s.executing config j := by
  obtain ⟨w, hw, hc⟩ := h
  have hle := le_total hw (doing j) s.worker
  rw [doing_carried hc] at hle
  exact hle

theorem Waiting.place (h : s.Waiting config j) :
    0 < s.queue.count j + s.executing config j + s.held j := by
  cases h with
  | queued h =>
    have hpos := List.count_pos_iff.mpr h
    omega
  | refused h =>
    rw [held, if_pos h]
    omega
  | started w hw h =>
    have hle := le_total hw (doing j) s.worker
    rw [doing_starts h] at hle
    rw [executing]
    omega

theorem Core.unanswered_of_waiting (hc : s.Core config) (h : s.Waiting config j) :
    j ∈ s.ledger.taken ∧ s.answered j = 0 :=
  let ⟨hmem, hzero, _⟩ := hc.only_place h.place
  ⟨hmem, hzero⟩

theorem Core.unanswered_of_carrying (hc : s.Core config) (h : s.Carrying config j r) :
    j ∈ s.ledger.taken ∧ s.answered j = 0 := by
  have hpos := h.executing_pos
  obtain ⟨hmem, hzero, -⟩ := hc.only_place (j := j) (by omega)
  exact ⟨hmem, hzero⟩

theorem Core.not_carrying_of_waiting (hc : s.Core config) (h : s.Waiting config j) :
    ¬s.Carrying config j r := by
  intro hcar
  have hpos := hcar.executing_pos
  have hone := (hc.only_place h.place).2.2
  cases h with
  | queued h =>
    have hq := List.count_pos_iff.mpr h
    omega
  | refused h =>
    rw [held, if_pos h] at hone
    omega
  | started w hw h =>
    obtain ⟨v, hv, hcv⟩ := hcar
    have hne : v ≠ w := by
      rintro rfl
      cases hpc : s.worker v <;> simp_all [Worker.starts, Worker.carried]
    have hle := add_le_total hv hw hne (doing j) s.worker
    rw [doing_starts h, doing_carried hcv] at hle
    rw [executing] at hone
    omega

structure JobsKept (config : ServerConfig) (s s' : Server) : Prop where
  waiting : ∀ j, s'.Waiting config j → s.Waiting config j
  carrying : ∀ j r, s'.Carrying config j r → s.Carrying config j r

inductive JobStep (config : ServerConfig) (s : Server) (a : Action) (s' : Server) : Prop
  | kept (runs : s.running a = none) (cache : s'.cache = s.cache)
      (taken : s'.ledger.taken = s.ledger.taken) (answers : s'.ledger.answers = s.ledger.answers)
      (jobs : JobsKept config s s')
  | took (job : Job) (runs : s.running a = none) (cache : s'.cache = s.cache)
      (taken : s'.ledger.taken = s.ledger.taken ++ [job])
      (answers : s'.ledger.answers = s.ledger.answers)
      (waiting : ∀ j, s'.Waiting config j → s.Waiting config j ∨ j = job)
      (carrying : ∀ j r, s'.Carrying config j r → s.Carrying config j r)
  | ran (job : Job) (uptimeMs : UInt64) (response : Response) (tally : Option Tally)
      (runs : s.running a = some job) (waits : s.Waiting config job)
      (result : s.execute job.request uptimeMs = some (s'.cache, response, tally))
      (taken : s'.ledger.taken = s.ledger.taken) (answers : s'.ledger.answers = s.ledger.answers)
      (waiting : ∀ j, s'.Waiting config j → s.Waiting config j)
      (carries : s'.Carrying config job response)
      (carrying : ∀ j r, s'.Carrying config j r →
        s.Carrying config j r ∨ (j = job ∧ r = response))
  | answered (job : Job) (response : Response) (runs : s.running a = none)
      (cache : s'.cache = s.cache)
      (ready : s.Carrying config job response ∨
        (s.Waiting config job ∧ response = busyResponse job))
      (taken : s'.ledger.taken = s.ledger.taken)
      (answers : s'.ledger.answers =
        s.ledger.answers ++ [⟨job.connection, some job, response⟩])
      (jobs : JobsKept config s s')
  | replied (p : Nat × Response) (reply : s.loop.reply = some p)

theorem JobsKept.of_loop (queue : s'.queue = s.queue) (worker : s'.worker = s.worker)
    (job : ∀ j, s'.loop.job = some j → s.loop.job = some j) : JobsKept config s s' where
  waiting := by
    intro j h
    cases h with
    | queued h => exact .queued (queue ▸ h)
    | refused h => exact .refused (job j h)
    | started w hw h => exact .started w hw (worker ▸ h)
  carrying := by
    rintro j r ⟨w, hw, h⟩
    exact ⟨w, hw, worker ▸ h⟩

theorem waiting_setWorker (queue : ∀ j, j ∈ s'.queue → s.Waiting config j)
    (loop : s'.loop = s.loop) (worker : s'.worker = s.setWorker w pc)
    (starts : ∀ j, pc.starts = some j → s.Waiting config j) (h : s'.Waiting config j) :
    s.Waiting config j := by
  cases h with
  | queued h => exact queue j h
  | refused h => exact .refused (loop ▸ h)
  | started v hv h =>
    rw [worker, setWorker_apply] at h
    split at h
    · exact starts j h
    · exact .started v hv h

theorem carrying_setWorker (worker : s'.worker = s.setWorker w pc)
    (h : s'.Carrying config j r) : s.Carrying config j r ∨ pc.carried = some (j, r) := by
  obtain ⟨v, hv, h⟩ := h
  rw [worker, setWorker_apply] at h
  split at h
  · exact .inr h
  · exact .inl ⟨v, hv, h⟩

theorem JobsKept.of_worker (queue : s'.queue = s.queue) (loop : s'.loop = s.loop)
    (worker : s'.worker = s.setWorker w pc) (hw : w < config.workerThreads.toNat)
    (starts : pc.starts = none)
    (carried : ∀ p, pc.carried = some p → (s.worker w).carried = some p) :
    JobsKept config s s' where
  waiting := by
    intro j
    apply waiting_setWorker (fun j h => .queued (queue ▸ h)) loop worker
    simp [starts]
  carrying := by
    intro j r h
    obtain h | h := carrying_setWorker worker h
    · exact h
    · exact ⟨w, hw, carried _ h⟩

theorem jobStep_worker {uptimeMs : UInt64} (hw : w < config.workerThreads.toNat)
    (hs : WorkerStep s w s') : JobStep config s (.worker w uptimeMs) s' := by
  have still : ∀ {pc : Worker}, s.worker w = pc → pc.starts = none →
      s.running (.worker w uptimeMs) = none := by
    intro pc hpc hn
    rw [running, hpc, hn]
  cases hs with
  | take job queue pc hq =>
    refine .kept (still pc rfl) rfl rfl rfl ⟨fun j => waiting_setWorker ?_ rfl rfl ?_, ?_⟩
    · intro j hj
      exact .queued (by rw [hq]; exact List.mem_cons_of_mem _ hj)
    · rintro j ⟨⟩
      exact .queued (by rw [hq]; exact List.mem_cons_self ..)
    · intro j r h
      exact (carrying_setWorker rfl h).resolve_right (fun h => by cases h)
  | run job uptimeMs cache response tally pc result =>
    have waits : s.Waiting config job := .started w hw (by rw [pc]; rfl)
    refine .ran job uptimeMs response tally ?_ waits result rfl rfl
      (fun j => waiting_setWorker (fun _ h => .queued h) rfl rfl (fun _ h => by cases h)) ?_ ?_
    · rw [running, pc]
      rfl
    · exact ⟨w, hw, by dsimp only; rw [setWorker_apply, if_pos rfl]; rfl⟩
    · intro j r h
      obtain h | h := carrying_setWorker rfl h
      · exact .inl h
      · cases h
        exact .inr ⟨rfl, rfl⟩
  | stage job response overLimit x pc hx =>
    exact .answered job response (still pc rfl) rfl (.inl ⟨w, hw, by rw [pc]; rfl⟩) rfl rfl
      (.of_worker rfl rfl rfl hw rfl (fun _ h => by cases h))
  | record job response tally pc | checkOpen job response pc =>
    refine .kept (still pc rfl) rfl rfl rfl (.of_worker rfl rfl rfl hw rfl ?_)
    intro p hp
    rw [pc]
    exact hp
  | decrement c healthy pc =>
    refine .kept (still pc rfl) rfl rfl rfl (.of_worker rfl rfl rfl hw ?_ ?_)
    · cases healthy <;> rfl
    · intro p hp
      cases healthy <;> cases hp
  | exit pc | checkClosed job response pc | discard job pc | unhealthy c pc | notified c pc
  | notify c pc | push c pc | write c pc | finish c pc =>
    exact .kept (still pc rfl) rfl rfl rfl
      (.of_worker rfl rfl rfl hw rfl (fun _ h => by cases h))

theorem jobStep_loop (hs : LoopStep config fds s o s') : JobStep config s (.loop o) s' := by
  cases hs with
  | submit c request x error n pc room next =>
    refine .took ⟨c, request, s.ledger.taken.length⟩ rfl rfl rfl rfl ?_ (fun _ _ h => h)
    intro j h
    cases h with
    | queued h =>
      obtain h | h := List.mem_append.mp h
      · exact .inl (.queued h)
      · exact .inr (List.mem_singleton.mp h)
    | refused h => exact .inl (.refused h)
    | started w hw h => exact .inl (.started w hw h)
  | refuse c request x error n pc room next =>
    refine .took ⟨c, request, s.ledger.taken.length⟩ rfl rfl rfl rfl ?_ (fun _ _ h => h)
    intro j h
    cases h with
    | queued h => exact .inl (.queued h)
    | refused h =>
      cases h
      exact .inr rfl
    | started w hw h => exact .inl (.started w hw h)
  | busy job ok x pc he =>
    have waits : s.Waiting config job := .refused (by rw [pc]; rfl)
    have hnone : ∀ j, Loop.job (if ok then .process job.connection
        else .close job.connection false) = some j → s.loop.job = some j := by
      intro j hj
      cases ok <;> cases hj
    cases hclosed : (s.conn job.connection).closed with
    | true =>
      exact .kept rfl rfl (by simp [recordAnswer]) (by simp [recordAnswer])
        (.of_loop rfl rfl hnone)
    | false =>
      exact .answered job (busyResponse job) rfl rfl (.inr ⟨waits, rfl⟩) (by simp [recordAnswer])
        (by simp [recordAnswer]) (.of_loop rfl rfl hnone)
  | immediate c response ok x pc he => exact .replied (c, response) (by rw [pc]; rfl)
  | stopExpired pc =>
    refine .kept rfl rfl rfl rfl ⟨?_, fun _ _ h => h⟩
    intro j h
    cases h with
    | queued h => cases h
    | refused h => cases h
    | started w hw h => exact .started w hw h
  | _ =>
    refine .kept rfl rfl rfl rfl (.of_loop rfl rfl ?_)
    intro j hj
    simp_all [apply_ite Loop.job, leave, closeAll, openConnection]

theorem jobStep_of_step (hs : Step config fds s a s') : JobStep config s a s' := by
  cases hs with
  | loop hl => exact jobStep_loop hl
  | worker hw hs => exact jobStep_worker hw hs
  | requestShutdown => exact .kept rfl rfl rfl rfl (.of_loop rfl rfl (fun _ h => h))

theorem frames_eq (s : Server) (c : Nat) :
    s.frames c = ((s.answersOn c).map Answer.response).flatMap serializeResponse := by
  rw [frames, answersOn, List.flatMap_map, List.flatMap_def]

theorem mem_takenOn (hj : j ∈ s.ledger.taken) : j ∈ s.takenOn j.connection :=
  List.mem_filter.mpr ⟨hj, decide_eq_true rfl⟩

theorem takenOn_congr (h : s'.ledger.taken = s.ledger.taken) (c : Nat) :
    s'.takenOn c = s.takenOn c := by
  rw [takenOn, h, takenOn]

theorem takenOn_took (h : s'.ledger.taken = s.ledger.taken ++ [j]) (c : Nat) :
    s'.takenOn c = s.takenOn c ++ if j.connection = c then [j] else [] := by
  rw [takenOn, h, takenOn_append]

theorem answersOn_congr (h : s'.ledger.answers = s.ledger.answers) (c : Nat) :
    s'.answersOn c = s.answersOn c := by
  rw [answersOn, h, answersOn]

theorem answersOn_answered {x : Answer} (h : s'.ledger.answers = s.ledger.answers ++ [x])
    (c : Nat) : s'.answersOn c = s.answersOn c ++ if x.connection = c then [x] else [] := by
  rw [answersOn, h, List.filter_append, answersOn]
  by_cases hx : x.connection = c <;> simp [hx]

theorem Cached.ready_sized (h : s.Cached config) (hconfig : config.Valid)
    (ready : s.Carrying config j r ∨ (s.Waiting config j ∧ r = busyResponse j)) :
    r.value.length ≤ kMaxValueBytes.toNat := by
  obtain ⟨w, -, hw⟩ | ⟨-, rfl⟩ := ready
  · have hle := h.sized w r (Worker.response_of_carried hw)
    have hv := hconfig.value_le
    have hmax : kMaxValueBytes.toNat = 67108864 := rfl
    unfold valueBound at hle
    omega
  · exact Nat.zero_le _

theorem Core.unanswered_of_ready (h : s.Core config)
    (ready : s.Carrying config j r ∨ (s.Waiting config j ∧ r = busyResponse j)) :
    j ∈ s.ledger.taken ∧ s.answered j = 0 := by
  obtain hc | ⟨hw, -⟩ := ready
  · exact h.unanswered_of_carrying hc
  · exact h.unanswered_of_waiting hw

theorem step_accepted (hs : Step config fds s a s') (c : Nat) :
    s.ledger.accepted c <+: s'.ledger.accepted c := by
  cases hs with
  | loop hl =>
    cases hl with
    | sent d k n pc =>
      dsimp only
      rw [Function.update_apply]
      split
      · rename_i hd
        rw [hd]
        exact List.prefix_append _ _
      · exact List.prefix_refl _
    | busy job ok x pc he =>
      simp only [recordAnswer]
      split <;> exact List.prefix_refl _
    | immediate d response ok x pc he =>
      dsimp only
      split <;> exact List.prefix_refl _
    | _ => exact List.prefix_refl _
  | worker _ hs => cases hs <;> exact List.prefix_refl _
  | requestShutdown => exact List.prefix_refl _

theorem step_nextConnectionId (hs : Step config fds s a s') :
    s.nextConnectionId ≤ s'.nextConnectionId := by
  cases hs with
  | loop hl =>
    cases hl with
    | addFailed fd pc | opened fd pc => exact Nat.le_succ _
    | _ => exact Nat.le_refl _
  | worker _ hs => cases hs <;> exact Nat.le_refl _
  | requestShutdown => exact Nat.le_refl _

end Server

end LocalCache
