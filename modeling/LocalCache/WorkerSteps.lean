import LocalCache.WorkerThread

namespace LocalCache.Server

open Protocol Serializer Library

/-- Every way in which worker `w` can move. -/
inductive WorkerStep (s : Server) (w : Nat) : Server → Prop
  | take (job queue) (pc : s.worker w = .waiting) (hq : s.queue = job :: queue) :
    WorkerStep s w { s with queue := queue, worker := s.setWorker w (.run job) }
  | exit (pc : s.worker w = .waiting) (hq : s.queue = []) (stopping : s.stopping = true) :
    WorkerStep s w { s with worker := s.setWorker w .exited }
  | run (job uptimeMs cache response tally) (pc : s.worker w = .run job)
    (result : s.execute job.request uptimeMs = some (cache, response, tally)) :
    WorkerStep s w
      { s with cache := cache, worker := s.setWorker w (.record job response tally) }
  | record (job response tally) (pc : s.worker w = .record job response tally) :
    WorkerStep s w
      { s with stats := s.stats.record tally, worker := s.setWorker w (.check job response) }
  | checkClosed (job response) (pc : s.worker w = .check job response)
    (closed : (s.conn job.connection).closed = true) :
    WorkerStep s w { s with worker := s.setWorker w (.discard job) }
  | checkOpen (job response) (pc : s.worker w = .check job response)
    (opened : (s.conn job.connection).closed = false) :
    WorkerStep s w { s with worker := s.setWorker w (.stage job response) }
  | discard (job) (pc : s.worker w = .discard job) :
    WorkerStep s w
      { s with
        conn := s.setConn job.connection (s.conn job.connection).completeRequest
        worker := s.setWorker w (.unhealthy job.connection)
        ledger := { s.ledger with discarded := s.ledger.discarded ++ [job] } }
  | stage (job response overLimit x) (pc : s.worker w = .stage job response)
    (staged : (s.conn job.connection).stage (serializeResponse response) = some (overLimit, x)) :
    WorkerStep s w
      { s with
        conn := s.setConn job.connection x
        worker := s.setWorker w (.decrement job.connection !overLimit)
        ledger := { s.ledger with
          answers := s.ledger.answers ++ [⟨job.connection, some job, response⟩] } }
  | decrement (c healthy) (pc : s.worker w = .decrement c healthy) :
    WorkerStep s w
      { s with
        conn := s.setConn c (s.conn c).completeRequest
        worker := s.setWorker w (if healthy then .notify c else .unhealthy c) }
  | unhealthy (c) (pc : s.worker w = .unhealthy c) :
    WorkerStep s w
      { s with
        conn := s.setConn c { s.conn c with closeAfterFlush := true }
        worker := s.setWorker w (.notify c) }
  | notified (c) (pc : s.worker w = .notify c) (already : (s.conn c).notifyPending = true) :
    WorkerStep s w { s with worker := s.setWorker w (.finish c) }
  | notify (c) (pc : s.worker w = .notify c) (fresh : (s.conn c).notifyPending = false) :
    WorkerStep s w
      { s with
        conn := s.setConn c { s.conn c with notifyPending := true }
        worker := s.setWorker w (.push c) }
  | push (c) (pc : s.worker w = .push c) :
    WorkerStep s w
      { s with
        readyConnections := s.readyConnections ++ [c]
        worker := s.setWorker w (.write c) }
  | write (c) (pc : s.worker w = .write c) :
    WorkerStep s w
      { s with
        completionCount := s.completionCount + 1
        worker := s.setWorker w (.finish c) }
  | finish (c) (pc : s.worker w = .finish c) :
    WorkerStep s w { s with worker := s.setWorker w .waiting }

variable {s s' : Server} {w : Nat} {uptimeMs : UInt64}

theorem workerStep_sound (h : s.workerStep w uptimeMs = some s') : WorkerStep s w s' := by
  unfold workerStep at h
  split at h
  · split at h
    · obtain rfl := Option.some.inj h
      exact .take _ _ ‹_› ‹_›
    · split at h
      · obtain rfl := Option.some.inj h
        exact .exit ‹_› ‹_› ‹_›
      · cases h
  · rename_i job pc
    rw [Option.map_eq_some_iff] at h
    obtain ⟨⟨cache, response, tally⟩, he, rfl⟩ := h
    exact .run job uptimeMs cache response tally pc he
  · obtain rfl := Option.some.inj h
    exact .record _ _ _ ‹_›
  · split at h
    · obtain rfl := Option.some.inj h
      exact .checkClosed _ _ ‹_› ‹_›
    · obtain rfl := Option.some.inj h
      exact .checkOpen _ _ ‹_› (Bool.eq_false_iff.mpr ‹_›)
  · obtain rfl := Option.some.inj h
    rename_i job pc
    exact .discard job pc
  · rename_i job response pc
    rw [Option.map_eq_some_iff] at h
    obtain ⟨⟨overLimit, x⟩, he, rfl⟩ := h
    exact .stage job response overLimit x pc he
  · obtain rfl := Option.some.inj h
    rename_i c healthy pc
    exact .decrement c healthy pc
  · obtain rfl := Option.some.inj h
    exact .unhealthy _ ‹_›
  · split at h
    · obtain rfl := Option.some.inj h
      exact .notified _ ‹_› ‹_›
    · obtain rfl := Option.some.inj h
      exact .notify _ ‹_› (Bool.eq_false_iff.mpr ‹_›)
  · obtain rfl := Option.some.inj h
    exact .push _ ‹_›
  · obtain rfl := Option.some.inj h
    exact .write _ ‹_›
  · obtain rfl := Option.some.inj h
    exact .finish _ ‹_›
  · cases h

theorem execute_header {request : Request} {cache : LruCache} {response : Response}
    {tally : Option Tally} (h : s.execute request uptimeMs = some (cache, response, tally)) :
    response.opcode = request.opcode ∧ response.requestId = request.requestId := by
  unfold execute at h
  split at h
  case h_1 | h_2 | h_3 =>
    rw [Option.map_eq_some_iff] at h
    obtain ⟨p, -, he⟩ := h
    split at he <;> cases he <;> exact ⟨rfl, rfl⟩
  all_goals
    cases h
    exact ⟨rfl, rfl⟩

end LocalCache.Server
