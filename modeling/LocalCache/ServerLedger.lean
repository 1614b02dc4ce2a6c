import LocalCache.ServerBuffers
import LocalCache.ServerTable
import LocalCache.Library.Threads

namespace LocalCache

open Protocol Serializer Library Threads

def Worker.job : Worker → Option Job
  | .run job | .record job _ _ | .check job _ | .discard job | .stage job _ => some job
  | .waiting | .decrement _ _ | .unhealthy _ | .notify _ | .push _ | .write _ | .finish _
  | .exited => none

def Worker.owes : Worker → Option Nat
  | .run job | .record job _ _ | .check job _ | .discard job | .stage job _ =>
    some job.connection
  | .decrement c _ => some c
  | .waiting | .unhealthy _ | .notify _ | .push _ | .write _ | .finish _ | .exited => none

def Loop.job : Loop → Option Job
  | .busy job => some job
  | _ => none

def AnswersTo (response : Response) (request : Request) : Prop :=
  response.opcode = request.opcode ∧ response.requestId = request.requestId

def Worker.Carries : Worker → Prop
  | .record job response _ | .check job response | .stage job response =>
    AnswersTo response job.request
  | _ => True

namespace Server

def doing (j : Job) (pc : Worker) : Nat := if pc.job = some j then 1 else 0

def owing (c : Nat) (pc : Worker) : Nat := if pc.owes = some c then 1 else 0

def executing (config : ServerConfig) (s : Server) (j : Job) : Nat :=
  total config.workerThreads.toNat (doing j) s.worker

def held (s : Server) (j : Job) : Nat := if s.loop.job = some j then 1 else 0

def answered (s : Server) (j : Job) : Nat := s.ledger.answers.countP (fun a => a.job = some j)

def outstanding (config : ServerConfig) (s : Server) (c : Nat) : Nat :=
  s.queue.countP (fun j => j.connection = c) +
    total config.workerThreads.toNat (owing c) s.worker +
    (if s.loop.job.map Job.connection = some c then 1 else 0) +
    s.ledger.dropped.countP (fun j => j.connection = c)

/-- Every request taken is in exactly one place, and the in-flight counters are exact. -/
structure Accounted (config : ServerConfig) (s : Server) : Prop where
  tickets : s.ledger.taken.map Job.ticket = List.range s.ledger.taken.length
  places : ∀ j, s.ledger.taken.count j = s.queue.count j + s.executing config j + s.held j +
    s.answered j + s.ledger.discarded.count j + s.ledger.dropped.count j
  answers : ∀ a ∈ s.ledger.answers, ∀ j, a.job = some j →
    a.connection = j.connection ∧ AnswersTo a.response j.request
  carries : ∀ w, (s.worker w).Carries
  inflight : ∀ c, (s.conn c).inflight = s.outstanding config c
  inflight_le : ∀ c, (s.conn c).inflight ≤ config.maxInflightPerConn.toNat

variable {config : ServerConfig} {fds : Descriptors} {s s' : Server} {a : Action} {o : Outcome}
  {w c : Nat} {pc : Worker}

theorem doing_setWorker (hw : w < config.workerThreads.toNat) (s : Server) (pc : Worker)
    (j : Job) :
    total config.workerThreads.toNat (doing j) (s.setWorker w pc) + doing j (s.worker w) =
      s.executing config j + doing j pc :=
  total_setWorker hw s (doing j) pc

theorem carries_setWorker (h : ∀ v, (s.worker v).Carries) (hpc : pc.Carries) (v : Nat) :
    (s.setWorker w pc v).Carries := by
  rw [setWorker_apply]
  split
  · exact hpc
  · exact h v

theorem accounted_start (config : ServerConfig) (fds : Descriptors) :
    (start config fds).Accounted config where
  tickets := rfl
  places := by
    intro j
    have hz : (start config fds).executing config j = 0 :=
      total_eq_zero_iff.mpr (fun _ _ => rfl)
    rw [hz]
    rfl
  answers := by intro a ha; cases ha
  carries := fun _ => trivial
  inflight := by
    intro c
    have hz : total config.workerThreads.toNat (owing c) (start config fds).worker = 0 :=
      total_eq_zero_iff.mpr (fun _ _ => rfl)
    rw [outstanding, hz]
    rfl
  inflight_le := fun _ => Nat.zero_le _

theorem Accounted.frame (h : s.Accounted config) (queue : s'.queue = s.queue)
    (worker : s'.worker = s.worker) (taken : s'.ledger.taken = s.ledger.taken)
    (answers : s'.ledger.answers = s.ledger.answers)
    (discarded : s'.ledger.discarded = s.ledger.discarded)
    (dropped : s'.ledger.dropped = s.ledger.dropped) (job : s'.loop.job = s.loop.job)
    (inflight : ∀ c, (s'.conn c).inflight = (s.conn c).inflight) : s'.Accounted config where
  tickets := taken ▸ h.tickets
  places := by
    intro j
    rw [taken, queue, executing, worker, held, job, answered, answers, discarded, dropped]
    exact h.places j
  answers := answers ▸ h.answers
  carries := worker ▸ h.carries
  inflight := by
    intro c
    rw [inflight, outstanding, queue, worker, job, dropped]
    exact h.inflight c
  inflight_le := by
    intro c
    rw [inflight]
    exact h.inflight_le c

theorem Accounted.move (h : s.Accounted config) (hw : w < config.workerThreads.toNat)
    (worker : s'.worker = s.setWorker w pc) (job : pc.job = (s.worker w).job)
    (owes : pc.owes = (s.worker w).owes) (carries : pc.Carries) (queue : s'.queue = s.queue)
    (ledger : s'.ledger = s.ledger) (loop : s'.loop = s.loop)
    (inflight : ∀ c, (s'.conn c).inflight = (s.conn c).inflight) : s'.Accounted config where
  tickets := ledger ▸ h.tickets
  places := by
    intro j
    have hd := doing_setWorker hw s pc j
    have hp := h.places j
    have hsame : doing j pc = doing j (s.worker w) := by rw [doing, doing, job]
    rw [ledger, queue, executing, worker, held, loop, answered, ledger]
    rw [answered, held] at hp
    omega
  answers := ledger ▸ h.answers
  carries := worker ▸ carries_setWorker h.carries carries
  inflight := by
    intro c
    have ho := total_setWorker hw s (owing c) pc
    have hi := h.inflight c
    have hsame : owing c pc = owing c (s.worker w) := by rw [owing, owing, owes]
    rw [outstanding] at hi
    rw [inflight, outstanding, queue, worker, loop, ledger]
    omega
  inflight_le := by
    intro c
    rw [inflight]
    exact h.inflight_le c

theorem Accounted.inflight_pos (h : s.Accounted config) (hw : w < config.workerThreads.toNat)
    (owes : (s.worker w).owes = some c) : 0 < (s.conn c).inflight := by
  have hle := le_total hw (owing c) s.worker
  have hone : owing c (s.worker w) = 1 := by rw [owing, if_pos owes]
  rw [h.inflight c, outstanding]
  omega

theorem inflight_completeRequest {x : Connection} (h : 0 < x.inflight) :
    x.completeRequest.inflight = x.inflight - 1 :=
  Word64.sub_of_le h

theorem Accounted.lowered {x : Connection} (h : s.Accounted config) (s' : Server)
    (hpos : 0 < (s.conn c).inflight) (conn : s'.conn = s.setConn c x)
    (hx : x.inflight = (s.conn c).inflight - 1)
    (settled : ∀ d, s'.outstanding config d + (if c = d then 1 else 0) =
      s.outstanding config d) (d : Nat) :
    (s'.conn d).inflight = s'.outstanding config d ∧
      (s'.conn d).inflight ≤ config.maxInflightPerConn.toNat := by
  have hs := settled d
  have hi := h.inflight d
  have hle := h.inflight_le d
  rw [conn, setConn_apply]
  by_cases hd : d = c
  · subst hd
    rw [if_pos rfl] at hs ⊢
    rw [hx]
    omega
  · rw [if_neg (Ne.symm hd)] at hs
    rw [if_neg hd]
    omega

theorem accounted_take {job : Job} {queue : List Job} (h : s.Accounted config)
    (hw : w < config.workerThreads.toNat) (pc : s.worker w = .waiting)
    (hq : s.queue = job :: queue) :
    Accounted config { s with queue := queue, worker := s.setWorker w (.run job) } where
  tickets := h.tickets
  places := by
    intro j
    have hd := doing_setWorker hw s (.run job) j
    have hp := h.places j
    have hold : doing j (s.worker w) = 0 := by rw [pc]; rfl
    have hnew : doing j (.run job) = if job = j then 1 else 0 := by simp [doing, Worker.job]
    rw [hq, List.count_cons] at hp
    rw [hold, hnew] at hd
    simp only [beq_iff_eq] at hp
    simp only [executing, held, answered] at hp ⊢ hd
    omega
  answers := h.answers
  carries := carries_setWorker h.carries trivial
  inflight := by
    intro c
    have ho := total_setWorker hw s (owing c) (.run job)
    have hi := h.inflight c
    have hold : owing c (s.worker w) = 0 := by rw [pc]; rfl
    have hnew : owing c (.run job) = if job.connection = c then 1 else 0 := by
      simp [owing, Worker.owes]
    rw [hold, hnew] at ho
    rw [outstanding, hq, List.countP_cons] at hi
    simp only [decide_eq_true_eq] at hi
    simp only [outstanding]
    omega
  inflight_le := h.inflight_le

theorem accounted_discard {job : Job} (h : s.Accounted config)
    (hw : w < config.workerThreads.toNat) (pc : s.worker w = .discard job) :
    Accounted config { s with
      conn := s.setConn job.connection (s.conn job.connection).completeRequest
      worker := s.setWorker w (.unhealthy job.connection)
      ledger := { s.ledger with discarded := s.ledger.discarded ++ [job] } } := by
  have hpos := h.inflight_pos hw (c := job.connection) (by rw [pc]; rfl)
  have hcount := h.lowered ({ s with
      conn := s.setConn job.connection (s.conn job.connection).completeRequest
      worker := s.setWorker w (.unhealthy job.connection)
      ledger := { s.ledger with discarded := s.ledger.discarded ++ [job] } })
    hpos rfl (inflight_completeRequest hpos) (by
      intro d
      have ho := total_setWorker hw s (owing d) (.unhealthy job.connection)
      have hold : owing d (s.worker w) = if job.connection = d then 1 else 0 := by
        simp [owing, Worker.owes, pc]
      have hnew : owing d (.unhealthy job.connection) = 0 := rfl
      rw [hold, hnew] at ho
      simp only [outstanding]
      omega)
  refine ⟨h.tickets, ?_, h.answers, carries_setWorker h.carries trivial, fun d => (hcount d).1,
    fun d => (hcount d).2⟩
  intro j
  have hd := doing_setWorker hw s (.unhealthy job.connection) j
  have hp := h.places j
  have hold : doing j (s.worker w) = if job = j then 1 else 0 := by simp [doing, Worker.job, pc]
  have hnew : doing j (.unhealthy job.connection) = 0 := rfl
  rw [hold, hnew] at hd
  simp only [executing, held, answered, List.count_append, List.count_singleton,
    beq_iff_eq] at hp hd ⊢
  omega

theorem accounted_stage {job : Job} {response : Response} {overLimit : Bool} {x : Connection}
    (h : s.Accounted config) (hw : w < config.workerThreads.toNat)
    (pc : s.worker w = .stage job response)
    (hx : (s.conn job.connection).stage (serializeResponse response) = some (overLimit, x)) :
    Accounted config { s with
      conn := s.setConn job.connection x
      worker := s.setWorker w (.decrement job.connection !overLimit)
      ledger := { s.ledger with
        answers := s.ledger.answers ++ [⟨job.connection, some job, response⟩] } } where
  tickets := h.tickets
  places := by
    intro j
    have hd := doing_setWorker hw s (.decrement job.connection !overLimit) j
    have hp := h.places j
    have hold : doing j (s.worker w) = if job = j then 1 else 0 := by simp [doing, Worker.job, pc]
    have hnew : doing j (.decrement job.connection !overLimit) = 0 := rfl
    rw [hold, hnew] at hd
    simp only [executing, held, answered, List.countP_append, List.countP_singleton,
      Option.some.injEq, decide_eq_true_eq] at hp hd ⊢
    omega
  answers := by
    intro a ha j hj
    obtain ha | ha := List.mem_append.mp ha
    · exact h.answers a ha j hj
    · rw [List.mem_singleton.mp ha] at hj ⊢
      cases hj
      have hc := h.carries w
      rw [pc] at hc
      exact ⟨rfl, hc⟩
  carries := carries_setWorker h.carries trivial
  inflight := by
    intro c
    have ho := total_setWorker hw s (owing c) (.decrement job.connection !overLimit)
    have hi := h.inflight c
    have hsame : owing c (.decrement job.connection !overLimit) = owing c (s.worker w) := by
      rw [pc]; rfl
    have hc : (s.setConn job.connection x c).inflight = (s.conn c).inflight :=
      setConn_congr Connection.inflight (by rw [Connection.stage_frame hx]) c
    simp only [outstanding] at hi ⊢
    rw [hc]
    omega
  inflight_le := by
    intro c
    have hc : (s.setConn job.connection x c).inflight = (s.conn c).inflight :=
      setConn_congr Connection.inflight (by rw [Connection.stage_frame hx]) c
    exact hc ▸ h.inflight_le c

theorem accounted_decrement {healthy : Bool} (h : s.Accounted config)
    (hw : w < config.workerThreads.toNat) (pc : s.worker w = .decrement c healthy) :
    Accounted config { s with
      conn := s.setConn c (s.conn c).completeRequest
      worker := s.setWorker w (if healthy then .notify c else .unhealthy c) } := by
  have hpos := h.inflight_pos hw (c := c) (by rw [pc]; rfl)
  have hjob : ∀ j, doing j (if healthy then .notify c else .unhealthy c) = 0 := by
    intro j
    cases healthy <;> rfl
  have howes : ∀ d, owing d (if healthy then .notify c else .unhealthy c) = 0 := by
    intro d
    cases healthy <;> rfl
  have hcount := h.lowered ({ s with
      conn := s.setConn c (s.conn c).completeRequest
      worker := s.setWorker w (if healthy then .notify c else .unhealthy c) })
    hpos rfl (inflight_completeRequest hpos) (by
      intro d
      have ho := total_setWorker hw s (owing d) (if healthy then .notify c else .unhealthy c)
      have hold : owing d (s.worker w) = if c = d then 1 else 0 := by
        simp [owing, Worker.owes, pc]
      rw [hold, howes] at ho
      simp only [outstanding]
      omega)
  refine ⟨h.tickets, ?_, h.answers, carries_setWorker h.carries (by cases healthy <;> trivial),
    fun d => (hcount d).1, fun d => (hcount d).2⟩
  intro j
  have hd := doing_setWorker hw s (if healthy then .notify c else .unhealthy c) j
  have hp := h.places j
  have hold : doing j (s.worker w) = 0 := by rw [pc]; rfl
  rw [hold, hjob] at hd
  simp only [executing, held, answered] at hp hd ⊢
  omega

theorem accounted_worker (h : s.Accounted config) (hw : w < config.workerThreads.toNat)
    (hs : WorkerStep s w s') : s'.Accounted config := by
  have hcarries := h.carries w
  cases hs with
  | take job queue pc hq => exact accounted_take h hw pc hq
  | discard job pc => exact accounted_discard h hw pc
  | stage job response overLimit x pc hx => exact accounted_stage h hw pc hx
  | decrement c healthy pc => exact accounted_decrement h hw pc
  | run job uptimeMs cache response tally pc result =>
    exact h.move hw rfl (by rw [pc]; rfl) (by rw [pc]; rfl) (execute_header result) rfl rfl rfl
      (fun _ => rfl)
  | record job response tally pc | checkOpen job response pc =>
    rw [pc] at hcarries
    exact h.move hw rfl (by rw [pc]; rfl) (by rw [pc]; rfl) hcarries rfl rfl rfl (fun _ => rfl)
  | unhealthy c pc | notify c pc =>
    exact h.move hw rfl (by rw [pc]; rfl) (by rw [pc]; rfl) trivial rfl rfl rfl
      (setConn_congr Connection.inflight rfl)
  | exit pc | checkClosed _ _ pc | notified _ pc | push _ pc | write _ pc | finish _ pc =>
    exact h.move hw rfl (by rw [pc]; rfl) (by rw [pc]; rfl) trivial rfl rfl rfl (fun _ => rfl)

end Server

end LocalCache
