import LocalCache.Server

namespace LocalCache.Server

open Protocol Serializer Library

def execute (s : Server) (request : Request) (uptimeMs : UInt64) :
    Option (LruCache × Response × Option Tally) :=
  let response : Response := { opcode := request.opcode, requestId := request.requestId }
  match request.opcode with
  | .kGet => (s.cache.get request.key).map fun
    | (cache, some value) => (cache, { response with value := value }, some .hit)
    | (cache, none) => (cache, { response with status := .kNotFound }, some .miss)
  | .kPut => (s.cache.put request.key request.value).map fun
    | (cache, .kStored) => (cache, response, some .put)
    | (cache, .kValueTooLarge) | (cache, .kEntryTooLarge) =>
      (cache, { response with status := .kValueTooLarge }, none)
  | .kDelete => (s.cache.erase request.key).map fun
    | (cache, true) => (cache, response, some .delete)
    | (cache, false) => (cache, { response with status := .kNotFound }, none)
  | .kPing => some (s.cache, response, none)
  | .kStats =>
    let payload := serializeStats (s.stats.snapshot s.cache.snapshot uptimeMs)
    some (s.cache, { response with value := payload }, none)
  | .kClear => some (s.cache.clear, response, none)

def setWorker (s : Server) (w : Nat) (pc : Worker) : Nat → Worker :=
  Function.update s.worker w pc

def setConn (s : Server) (c : Nat) (x : Connection) : Nat → Connection :=
  Function.update s.conn c x

/-- One step of worker `w`. `uptimeMs` is what its clock shows. -/
def workerStep (s : Server) (w : Nat) (uptimeMs : UInt64) : Option Server :=
  match s.worker w with
  | .waiting =>
    match s.queue with
    | job :: queue => some { s with queue := queue, worker := s.setWorker w (.run job) }
    | [] => if s.stopping then some { s with worker := s.setWorker w .exited } else none
  | .run job => (s.execute job.request uptimeMs).map fun (cache, response, tally) =>
    { s with cache := cache, worker := s.setWorker w (.record job response tally) }
  | .record job response tally =>
    some { s with stats := s.stats.record tally, worker := s.setWorker w (.check job response) }
  | .check job response =>
    if (s.conn job.connection).closed then some { s with worker := s.setWorker w (.discard job) }
    else some { s with worker := s.setWorker w (.stage job response) }
  | .discard job =>
    some { s with
      conn := s.setConn job.connection (s.conn job.connection).completeRequest
      worker := s.setWorker w (.unhealthy job.connection)
      ledger := { s.ledger with discarded := s.ledger.discarded ++ [job] } }
  | .stage job response =>
    ((s.conn job.connection).stage (serializeResponse response)).map fun (overLimit, x) =>
      { s with
        conn := s.setConn job.connection x
        worker := s.setWorker w (.decrement job.connection !overLimit)
        ledger := { s.ledger with
          answers := s.ledger.answers ++ [⟨job.connection, some job, response⟩] } }
  | .decrement c healthy =>
    some { s with
      conn := s.setConn c (s.conn c).completeRequest
      worker := s.setWorker w (if healthy then .notify c else .unhealthy c) }
  | .unhealthy c =>
    some { s with
      conn := s.setConn c { s.conn c with closeAfterFlush := true }
      worker := s.setWorker w (.notify c) }
  | .notify c =>
    if (s.conn c).notifyPending then some { s with worker := s.setWorker w (.finish c) }
    else some { s with
      conn := s.setConn c { s.conn c with notifyPending := true }
      worker := s.setWorker w (.push c) }
  | .push c =>
    some { s with
      readyConnections := s.readyConnections ++ [c]
      worker := s.setWorker w (.write c) }
  | .write c =>
    some { s with
      completionCount := s.completionCount + 1
      worker := s.setWorker w (.finish c) }
  | .finish _ => some { s with worker := s.setWorker w .waiting }
  | .exited => none

end LocalCache.Server
