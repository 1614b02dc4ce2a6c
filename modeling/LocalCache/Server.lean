import Mathlib.Logic.Function.Basic
import LocalCache.Config
import LocalCache.Stats

namespace LocalCache

open Protocol Serializer Library

/-- One unit of work. The ticket numbers the requests in the order in which they were taken
off their connections; no decision depends on it. -/
structure Job where
  connection : Nat
  request : Request
  ticket : Nat
  deriving DecidableEq, Repr

/-- Where a worker thread is: waiting for work, in `handle_job`, in `enqueue_response`, or in
the rest of `complete_job`. Each step up to the next position is atomic. -/
inductive Worker
  | waiting
  | run (job : Job)
  | record (job : Job) (response : Response) (tally : Option Tally)
  | check (job : Job) (response : Response)
  | discard (job : Job)
  | stage (job : Job) (response : Response)
  | decrement (connection : Nat) (healthy : Bool)
  | unhealthy (connection : Nat)
  | notify (connection : Nat)
  | push (connection : Nat)
  | write (connection : Nat)
  | finish (connection : Nat)
  | exited
  deriving DecidableEq, Repr

/-- What follows a `flush_output`: the rest of the handler of an event, or its end. -/
inductive Resume
  | events (events : Events)
  | done
  deriving DecidableEq, Repr

/-- Where the event loop is. The connection being handled is part of the position. -/
inductive Loop
  | wait
  | next
  | accept
  | drainRead
  | drainSwap
  | flush (c : Nat) (k : Resume)
  | send (c : Nat) (k : Resume)
  | read (c : Nat)
  | process (c : Nat)
  | busy (job : Job)
  | immediate (c : Nat) (response : Response)
  | close (c : Nat) (malformed : Bool)
  | closeCheck (c : Nat)
  | paused (c : Nat)
  | limited (c : Nat)
  | flagged (c : Nat)
  | register (c : Nat) (epollin : Bool)
  | drainPool
  | drainInflight (cs : List Nat)
  | drainPending (c : Nat) (cs : List Nat)
  | deadline
  | stop
  | stopWait
  | join
  | finished
  deriving DecidableEq, Repr

def Worker.holds : Worker → Option Nat
  | .run job | .record job _ _ | .check job _ | .discard job | .stage job _ =>
    some job.connection
  | .decrement c _ | .unhealthy c | .notify c | .push c | .write c | .finish c => some c
  | .waiting | .exited => none

def Loop.handles : Loop → Option Nat
  | .flush c _ | .send c _ | .read c | .process c | .immediate c _ | .close c _ | .closeCheck c
  | .paused c | .limited c | .flagged c | .register c _ => some c
  | .busy job => some job.connection
  | _ => none

/-- What the loop has still to look at: the rest of a batch of events, of a swapped out ready
vector, or of the connections to update when draining starts. `owner` is the connection the
event was reported for. -/
inductive Item
  | event (fd : Nat) (events : Events) (owner : Option Nat)
  | ready (c : Nat)
  | interest (c : Nat)
  deriving DecidableEq, Repr

def Item.holds : Item → Option Nat
  | .ready c | .interest c => some c
  | .event _ _ _ => none

structure Answer where
  connection : Nat
  job : Option Job
  response : Response
  deriving DecidableEq, Repr

/-- What happened to the requests and responses so far. No step reads it, apart from counting
the requests taken to number the next one. -/
structure Ledger where
  taken : List Job := []
  answers : List Answer := []
  discarded : List Job := []
  dropped : List Job := []
  accepted : Nat → Bytes := fun _ => []

/-- The descriptors the process holds besides its client sockets. -/
structure Descriptors where
  listen : Nat := 3
  epoll : Nat := 4
  shutdown : Nat := 5
  completion : Nat := 6
  signal : Option Nat := none
  others : List Nat := [0, 1, 2]
  distinct : (listen :: epoll :: shutdown :: completion :: (signal.toList ++ others)).Nodup := by
    decide

structure Server where
  cache : LruCache
  stats : ServerStats := {}
  queue : List Job := []
  accepting : Bool := true
  stopping : Bool := false
  worker : Nat → Worker := fun _ => .waiting
  conn : Nat → Connection
  connections : List (Nat × Nat) := []
  nextConnectionId : Nat := 1
  readyConnections : List Nat := []
  completionCount : Nat := 0
  shutdownCount : Nat := 0
  listenFd : Option Nat
  epollSet : Nat → Option Events := fun _ => none
  draining : Bool := false
  loop : Loop := .wait
  todo : List Item := []
  leaving : Bool := false
  ledger : Ledger := {}

namespace Server

def start (config : ServerConfig) (fds : Descriptors) : Server where
  cache := .empty config.cacheLimits
  conn := fun _ => { fd := 0, limits := config.connectionLimits }
  listenFd := some fds.listen

def findConnection (s : Server) (fd : Nat) : Option Nat :=
  (Keyed.find Prod.fst fd s.connections).map Prod.snd

/-- Some reference keeps the connection object, and with it the descriptor, alive. -/
def referenced (config : ServerConfig) (s : Server) (c : Nat) : Bool :=
  s.connections.any (fun p => p.2 = c) || s.queue.any (fun job => job.connection = c) ||
    (List.range config.workerThreads.toNat).any (fun w => (s.worker w).holds = some c) ||
    s.readyConnections.any (fun d => d = c) || s.todo.any (fun i => i.holds = some c) ||
    s.loop.handles = some c

def fdOpen (config : ServerConfig) (fds : Descriptors) (s : Server) (fd : Nat) : Bool :=
  s.listenFd = some fd || fd = fds.epoll || fd = fds.shutdown || fd = fds.completion ||
    fds.signal = some fd || fds.others.contains fd ||
    (List.range s.nextConnectionId).any
      (fun c => (s.conn c).fd = fd && s.referenced config c)

end Server

end LocalCache
