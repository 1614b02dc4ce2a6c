import LocalCache.CacheEvents
import LocalCache.ServerBacklog
import LocalCache.ServerRegistry

namespace LocalCache

open Protocol Serializer Library Transition Threads

/-- A request that a worker executed, with its response and its counter. `entries` and `resident`
say what the cache held before: how many entries, and whether the key of the request. -/
structure Execution where
  request : Request
  response : Response
  tally : Option Tally
  entries : Nat
  resident : Bool
  deriving DecidableEq, Repr

namespace Execution

@[simp] def tallied (t : Tally) (e : Execution) : Nat := if e.tally = some t then 1 else 0

@[simp] def tooLarge (e : Execution) : Nat :=
  if e.request.opcode = .kPut ∧ e.response.status = .kValueTooLarge then 1 else 0

@[simp] def notFound (e : Execution) : Nat :=
  if e.request.opcode = .kDelete ∧ e.response.status = .kNotFound then 1 else 0

@[simp] def uncounted (e : Execution) : Nat :=
  if e.request.opcode = .kPing ∨ e.request.opcode = .kStats ∨ e.request.opcode = .kClear then 1
  else 0

@[simp] def cleared (e : Execution) : Nat := if e.request.opcode = .kClear then e.entries else 0

@[simp] def replaced (e : Execution) : Nat :=
  if e.request.opcode = .kPut ∧ e.response.status = .kOk ∧ e.resident = true then 1 else 0

@[simp] def ways (e : Execution) : Nat :=
  e.tallied .hit + e.tallied .miss + e.tallied .put + e.tallied .delete + e.tooLarge +
    e.notFound + e.uncounted

end Execution

/-- The connection whose input the loop is handling or is about to handle. -/
def Loop.reads : Loop → Option Nat
  | .flush c (.events _) | .send c (.events _) | .read c | .process c | .immediate c _ => some c
  | .busy job => some job.connection
  | _ => none

def ServerStats.tallied (s : ServerStats) : Tally → UInt64
  | .hit => s.hits
  | .miss => s.misses
  | .put => s.puts
  | .delete => s.deletes

namespace Server

def executions (s : Server) : Action → List Execution
  | .worker w uptimeMs =>
    match s.worker w with
    | .run job =>
      match s.execute job.request uptimeMs with
      | some (_, response, tally) =>
        [⟨job.request, response, tally, s.cache.size, s.cache.contains job.request.key⟩]
      | none => []
    | _ => []
  | .loop _ | .requestShutdown => []

section Execute

variable {s : Server} {request : Request} {uptimeMs : UInt64} {cache : LruCache}
  {response : Response} {tally : Option Tally}

/-- The execution of a request on a linked cache is counted in exactly one way, and the entries
balance. -/
structure Sums (c cache : LruCache) (e : Execution) : Prop where
  ways : e.ways = 1
  balance : UInt64.ofNat cache.size + UInt64.ofNat cache.evictions +
    UInt64.ofNat (e.tallied .delete) + UInt64.ofNat e.cleared + UInt64.ofNat e.replaced =
    UInt64.ofNat c.size + UInt64.ofNat c.evictions + UInt64.ofNat (e.tallied .put)
  status : e.response.status ≠ .kServerBusy

theorem Sums.of_does {c : LruCache} {e : Execution} {op : CacheOp} {result : CacheResult}
    {evicted : List Bytes} (h : c.Linked) (hl : cache.Linked)
    (hd : c.Does cache op result evicted)
    (losses : e.tallied .delete + e.cleared + e.replaced = c.losses op result)
    (gains : e.tallied .put = LruCache.gains op result) (ways : e.ways = 1)
    (status : e.response.status ≠ .kServerBusy) : Sums c cache e := by
  refine ⟨ways, ?_, status⟩
  have hb := hd.balance h hl
  rw [← losses, ← gains, UInt64.ofNat_add, UInt64.ofNat_add] at hb
  rw [← hb]
  simp only [UInt64.add_assoc]

theorem execute_sums (h : s.cache.Linked)
    (result : s.execute request uptimeMs = some (cache, response, tally)) :
    Sums s.cache cache
      ⟨request, response, tally, s.cache.size, s.cache.contains request.key⟩ := by
  unfold execute at result
  cases hop : request.opcode with
  | kGet =>
    obtain ⟨c', value, hget, hl, -, hd⟩ := LruCache.get_does h request.key
    simp only [hop, hget] at result
    cases value with
    | none | some v =>
      cases result
      refine .of_does h hl hd ?_ ?_ ?_ ?_ <;>
        simp [LruCache.losses, LruCache.gains, hop]
  | kPut =>
    obtain ⟨c', status, hput, hl, -, hd⟩ := LruCache.put_does h request.key request.value
    simp only [hop, hput] at result
    cases status with
    | kStored | kValueTooLarge | kEntryTooLarge =>
      cases result
      refine .of_does h hl hd ?_ ?_ ?_ ?_ <;>
        simp [LruCache.losses, LruCache.gains, hop]
  | kDelete =>
    obtain ⟨c', found, herase, hl, -, hd⟩ := LruCache.erase_does h request.key
    simp only [hop, herase] at result
    cases found with
    | false | true =>
      cases result
      refine .of_does h hl hd ?_ ?_ ?_ ?_ <;>
        simp [LruCache.losses, LruCache.gains, hop]
  | kPing | kStats =>
    simp only [hop] at result
    cases result
    -- the cache is left as a lookup leaves it
    refine .of_does h h (.looked (k := request.key) rfl) ?_ ?_ ?_ ?_ <;>
      simp [LruCache.losses, LruCache.gains, hop]
  | kClear =>
    simp only [hop] at result
    cases result
    refine .of_does h (LruCache.clear_leads s.cache).linked (.cleared rfl rfl) ?_ ?_ ?_ ?_ <;>
      simp [LruCache.losses, LruCache.gains, hop]

end Execute

inductive AuditStep (config : ServerConfig) (fds : Descriptors) (s : Server) :
    Action → Server → List Execution → Prop
  | ran {w uptimeMs job cache response tally} (hw : w < config.workerThreads.toNat)
    (pc : s.worker w = .run job)
    (result : s.execute job.request uptimeMs = some (cache, response, tally)) :
    AuditStep config fds s (.worker w uptimeMs)
      { s with cache := cache, worker := s.setWorker w (.record job response tally) }
      [⟨job.request, response, tally, s.cache.size, s.cache.contains job.request.key⟩]
  | worker {w uptimeMs s'} (hw : w < config.workerThreads.toNat) (hs : WorkerStep s w s')
    (pc : ∀ job, s.worker w ≠ .run job) : AuditStep config fds s (.worker w uptimeMs) s' []
  | loop {o s'} (hs : LoopStep config fds s o s') : AuditStep config fds s (.loop o) s' []
  | requestShutdown : AuditStep config fds s .requestShutdown
      { s with shutdownCount := s.shutdownCount + 1 } []

abbrev Audit := Traced Server Execution

def Audit.start (config : ServerConfig) (fds : Descriptors) : Audit :=
  ⟨Server.start config fds, []⟩

def Audit.step (config : ServerConfig) (fds : Descriptors) : Audit → Action → Option Audit :=
  traced (Server.step config fds) executions

def Audit.sum (t : Audit) (f : Execution → Nat) : Nat := (t.trace.map f).sum

variable {config : ServerConfig} {fds : Descriptors} {s s' : Server} {a : Action} {o : Outcome}
  {w c : Nat} {t : Audit} {es : List Execution}

theorem audit_step (hs : step config fds s a = some s') :
    AuditStep config fds s a s' (s.executions a) := by
  cases a with
  | loop o => exact .loop (loopStep_sound hs)
  | requestShutdown =>
    obtain rfl := Option.some.inj hs
    exact .requestShutdown
  | worker w uptimeMs =>
    rw [step] at hs
    split at hs
    · rename_i hw
      by_cases hrun : ∃ job, s.worker w = .run job
      · obtain ⟨job, pc⟩ := hrun
        simp only [workerStep, pc, Option.map_eq_some_iff] at hs
        obtain ⟨⟨cache, response, tally⟩, result, rfl⟩ := hs
        simp only [executions, pc, result]
        exact .ran hw pc result
      · have pc : ∀ job, s.worker w ≠ .run job := fun job h => hrun ⟨job, h⟩
        have hnone : s.executions (.worker w uptimeMs) = [] := by
          rw [executions]
          split
          · rename_i job hjob
            exact absurd hjob (pc job)
          · rfl
        rw [hnone]
        exact .worker hw (workerStep_sound hs) pc
    · cases hs

def Sorted (t : Audit) : Prop := ∀ e ∈ t.trace, e.ways = 1

theorem Sorted.sum_ways (h : Sorted t) :
    t.sum (Execution.tallied .hit) + t.sum (Execution.tallied .miss) +
      t.sum (Execution.tallied .put) + t.sum (Execution.tallied .delete) +
      t.sum Execution.tooLarge + t.sum Execution.notFound + t.sum Execution.uncounted =
      t.trace.length := by
  have hall : t.sum Execution.ways = t.trace.length := by
    rw [Audit.sum, List.map_congr_left h]
    simp
  have hways : Execution.ways = fun e => e.tallied .hit + e.tallied .miss + e.tallied .put +
      e.tallied .delete + e.tooLarge + e.notFound + e.uncounted := by
    funext e
    rfl
  rw [← hall, hways]
  simp only [Audit.sum, List.sum_map_add]

def Balanced (t : Audit) : Prop :=
  UInt64.ofNat (t.sum (Execution.tallied .put)) =
    UInt64.ofNat t.state.cache.size + UInt64.ofNat t.state.cache.evictions +
      UInt64.ofNat (t.sum (Execution.tallied .delete)) + UInt64.ofNat (t.sum Execution.cleared) +
      UInt64.ofNat (t.sum Execution.replaced)

theorem sum_snoc (t : Audit) (s' : Server) (e : Execution) (f : Execution → Nat) :
    Audit.sum ⟨s', t.trace ++ [e]⟩ f = t.sum f + f e := by
  simp [Audit.sum]

theorem sum_same (t : Audit) (s' : Server) (f : Execution → Nat) :
    Audit.sum ⟨s', t.trace ++ []⟩ f = t.sum f := by
  simp [Audit.sum]

theorem Balanced.frame (h : Balanced t) (cache : s'.cache = t.state.cache) :
    Balanced ⟨s', t.trace ++ []⟩ := by
  simp only [Balanced, sum_same, cache]
  exact h

theorem step_executed (hsorted : Sorted t) (hbalanced : Balanced t)
    (hl : t.state.cache.Linked) (hs : AuditStep config fds t.state a s' es) :
    Sorted ⟨s', t.trace ++ es⟩ ∧ Balanced ⟨s', t.trace ++ es⟩ := by
  have hsame : Sorted ⟨s', t.trace ++ []⟩ := by
    intro e he
    rw [List.append_nil] at he
    exact hsorted e he
  cases hs with
  | ran hw pc result =>
    have hsums := execute_sums hl result
    refine ⟨?_, ?_⟩
    · intro e he
      obtain he | he := List.mem_append.mp he
      · exact hsorted e he
      · rw [List.mem_singleton.mp he]
        exact hsums.ways
    · simp only [Balanced, sum_snoc, UInt64.ofNat_add]
      have hb := hsums.balance
      rw [Balanced] at hbalanced
      grind
  | loop hs =>
    refine ⟨hsame, hbalanced.frame ?_⟩
    cases hs <;> rfl
  | worker hw hs pc =>
    refine ⟨hsame, hbalanced.frame ?_⟩
    cases hs with
    | run job _ _ _ _ pc' => exact absurd pc' (pc job)
    | _ => rfl
  | requestShutdown => exact ⟨hsame, hbalanced.frame rfl⟩

def recording (k : Tally) : Worker → Nat
  | .record _ _ tally => if tally = some k then 1 else 0
  | _ => 0

def starting : Worker → Nat
  | .run _ => 1
  | _ => 0

def Tallied (config : ServerConfig) (t : Audit) : Prop :=
  ∀ k, t.state.stats.tallied k +
    UInt64.ofNat (total config.workerThreads.toNat (recording k) t.state.worker) =
    UInt64.ofNat (t.sum (Execution.tallied k))

theorem tallied_record (stats : ServerStats) (tally : Option Tally) (k : Tally) :
    (stats.record tally).tallied k =
      stats.tallied k + UInt64.ofNat (if tally = some k then 1 else 0) := by
  obtain _ | j := tally
  · exact (UInt64.add_zero _).symm
  · cases j <;> cases k <;> simp [ServerStats.record, ServerStats.tallied]

theorem total_setWorker_same (hw : w < config.workerThreads.toNat) {g : Worker → Nat}
    {pc : Worker} (hg : g pc = g (s.worker w)) :
    total config.workerThreads.toNat g (s.setWorker w pc) =
      total config.workerThreads.toNat g s.worker := by
  have hu := total_setWorker hw s g pc
  omega

theorem Tallied.frame (h : Tallied config t) (stats : ∀ k, s'.stats.tallied k =
    t.state.stats.tallied k) (worker : ∀ k, total config.workerThreads.toNat (recording k)
      s'.worker = total config.workerThreads.toNat (recording k) t.state.worker) :
    Tallied config ⟨s', t.trace ++ []⟩ := by
  intro k
  rw [sum_same]
  dsimp only
  rw [stats, worker]
  exact h k

theorem step_tallied (h : Tallied config t) (hs : AuditStep config fds t.state a s' es) :
    Tallied config ⟨s', t.trace ++ es⟩ := by
  cases hs with
  | @ran w _ job cache response tally hw pc result =>
    intro k
    have hu := total_setWorker hw t.state (recording k) (.record job response tally)
    rw [pc] at hu
    have hword := congrArg UInt64.ofNat hu
    have hk := h k
    simp only [sum_snoc, UInt64.ofNat_add, recording, Execution.tallied] at hword ⊢
    grind
  | loop hs =>
    refine h.frame (fun k => ?_) (fun k => ?_)
    · cases hs with
      | finish =>
        exact ServerStats.foldl_connectionClosed (f := fun stats => stats.tallied k)
          (fun _ => by cases k <;> rfl) _ _
      | _ => cases k <;> rfl
    · cases hs <;> rfl
  | @worker w _ _ hw hs pc =>
    cases hs with
    | record job response tally pc' =>
      intro k
      have hu := total_setWorker hw t.state (recording k) (.check job response)
      rw [pc'] at hu
      have hword := congrArg UInt64.ofNat hu
      have hk := h k
      simp only [sum_same, UInt64.ofNat_add, tallied_record, recording] at hword ⊢
      grind
    | run job _ _ _ _ pc' => exact absurd pc' (pc job)
    | decrement d healthy pc' =>
      refine h.frame (fun _ => rfl) (fun k => total_setWorker_same hw ?_)
      rw [pc']
      cases healthy <;> rfl
    | _ =>
      refine h.frame (fun _ => rfl) (fun k => total_setWorker_same hw ?_)
      simp [recording, *]
  | requestShutdown => exact h.frame (fun _ => rfl) (fun _ => rfl)

/-- Only the loop answers SERVER_BUSY, and what it reads from is open. -/
structure Replies (s : Server) : Prop where
  workers : ∀ w response, (s.worker w).response = some response →
    response.status ≠ .kServerBusy
  reply : ∀ p, s.loop.reply = some p → p.2.status ≠ .kServerBusy
  reading : ∀ c, s.loop.reads = some c → (s.conn c).closed = false

theorem reads_connectionEvent {d : Nat} {events : Events}
    (h : (s.connectionEvent d events).reads = some c) : d = c := by
  revert h
  apply connectionEvent_where (P := fun l => l.reads = some c → d = c)
  · exact fun h => by cases h
  · intro k h
    cases k with
    | events e => exact Option.some.inj h
    | done => cases h
  · exact Option.some.inj

theorem reads_resume {d : Nat} {k : Resume} (h : (s.resume d k).reads = some c) :
    (Loop.flush d k).reads = some c ∧ (Loop.send d k).reads = some c := by
  cases k with
  | events e =>
    refine afterWritable_where (P := fun l => l.reads = some c → (Loop.flush d (.events e)).reads =
      some c ∧ (Loop.send d (.events e)).reads = some c) s d e ?_ ?_ h
    · exact fun h => ⟨h, h⟩
    · exact fun h => by cases h
  | done => cases h

theorem reads_updateInterest (d : Nat) : (s.updateInterest d).reads = none :=
  updateInterest_where (P := fun l => l.reads = none) s d rfl rfl

theorem loop_reads (hs : LoopStep config fds s o s') (hc : s'.loop.reads = some c) :
    s.loop.reads = some c ∨ ∃ fd, s.findConnection fd = some c := by
  cases hs with
  | event fd events owner rest d pc todo found =>
    obtain rfl := reads_connectionEvent hc
    exact .inr ⟨fd, found⟩
  | flushed d k x pc => exact .inl (by rw [pc]; exact (reads_resume hc).1)
  | sendAgain d k pc => exact .inl (by rw [pc]; exact (reads_resume hc).2)
  | flushMore d k x pc | sent d k n pc | sendRetry d k pc =>
    refine .inl ?_
    rw [pc]
    cases k with
    | events e => exact hc
    | done => cases hc
  | interest d rest pc todo =>
    rw [reads_updateInterest] at hc
    cases hc
  | closeCheck d pc =>
    dsimp only at hc
    split at hc
    · cases hc
    · rw [reads_updateInterest] at hc
      cases hc
  | opened | interrupted | reject | addFailed | acceptRetry | shutdownFirst | shutdownAgain
  | signalled | stale | submit =>
    exact .inl hc
  | endBatch | ready | immediate | closedBefore | close | drainPool | drainInflight
  | drainPending =>
    dsimp only at hc
    split at hc <;> cases hc
  | busy job ok x pc =>
    dsimp only at hc
    split at hc
    · exact .inl (by rw [pc]; exact hc)
    · cases hc
  | readData d _ pc | readRetry d pc | malformed d _ _ _ _ _ _ pc | refuse d _ _ _ _ pc =>
    exact .inl (by rw [pc]; exact hc)
  | _ => cases hc

theorem errorStatus_ne_busy (e : ParseError) : errorStatus e ≠ .kServerBusy := by
  cases e <;> decide

theorem loop_reply (hs : LoopStep config fds s o s') {p : Nat × Response}
    (hp : s'.loop.reply = some p) :
    s.loop.reply = some p ∨ ∃ e, p.2.status = errorStatus e := by
  cases hs with
  | malformed d out x error n id opcode pc =>
    cases hp
    exact .inr ⟨error, rfl⟩
  | event fd events owner rest d =>
    rw [reply_of_turn (turn_connectionEvent ..)] at hp
    cases hp
  | flushed d k | sendAgain d k =>
    rw [reply_of_turn (turn_resume ..)] at hp
    cases hp
  | interest d =>
    rw [reply_of_turn (turn_updateInterest ..)] at hp
    cases hp
  | closeCheck d =>
    dsimp only at hp
    split at hp
    · cases hp
    · rw [reply_of_turn (turn_updateInterest ..)] at hp
      cases hp
  | opened | interrupted | reject | addFailed | acceptRetry | shutdownFirst | shutdownAgain
  | signalled | stale | submit =>
    exact .inl hp
  | endBatch | ready | busy | immediate | closedBefore | close | drainPool | drainInflight
  | drainPending =>
    dsimp only at hp
    split at hp <;> cases hp
  | _ => cases hp

theorem replies_start (config : ServerConfig) (fds : Descriptors) :
    (start config fds).Replies where
  workers := by intro w r h; cases h
  reply := by intro p h; cases h
  reading := by intro c h; cases h

theorem replies_loop (h : s.Replies) (ht : s.Tabled config) (hs : LoopStep config fds s o s') :
    s'.Replies := by
  refine ⟨?_, ?_, ?_⟩
  · have hsame : s'.worker = s.worker := by cases hs <;> rfl
    rw [hsame]
    exact h.workers
  · intro p hp
    obtain hp | ⟨e, he⟩ := loop_reply hs hp
    · exact h.reply p hp
    · rw [he]
      exact errorStatus_ne_busy e
  · intro c hc
    have hopen : (s.conn c).closed = false := by
      obtain hc | ⟨fd, hfd⟩ := loop_reads hs hc
      · exact h.reading c hc
      · exact (ht.entry (findConnection_mem hfd)).2.1
    refine still_open hs (fun hf => ?_) (fun m pc => ?_) hopen
    · rw [hf] at hc
      cases hc
    · rw [loop_of_close hs pc] at hc
      cases m <;> cases hc

theorem step_replies (h : s.Replies) (ht : s.Tabled config) (hl : s.cache.Linked)
    (hs : AuditStep config fds s a s' es) : s'.Replies := by
  cases hs with
  | @ran w _ job cache response tally hw pc result =>
    refine ⟨?_, h.reply, h.reading⟩
    intro v r hr
    dsimp only at hr
    rw [setWorker_apply] at hr
    split at hr
    · cases hr
      exact (execute_sums hl result).status
    · exact h.workers v r hr
  | loop hs => exact replies_loop h ht hs
  | worker hw hs pc =>
    have closed := (steady_worker hw hs).closed
    refine ⟨?_, ?_, ?_⟩
    · exact fun v r hr => h.workers v r (worker_response hs pc hr)
    · cases hs <;> exact h.reply
    · intro c hc
      rw [closed]
      refine h.reading c ?_
      cases hs <;> exact hc
  | requestShutdown => exact ⟨h.workers, h.reply, h.reading⟩

def answeredBusy (s : Server) : Nat :=
  s.ledger.answers.countP (fun a => a.response.status = .kServerBusy) + s.loop.job.toList.length

/-- A request that was taken was executed, refused or dropped, or has still to be executed. -/
structure Requested (config : ServerConfig) (t : Audit) : Prop where
  requests : t.state.stats.requests = UInt64.ofNat t.state.ledger.taken.length
  taken : t.state.ledger.taken.length = t.trace.length + t.state.queue.length +
    total config.workerThreads.toNat starting t.state.worker + t.state.answeredBusy +
    t.state.ledger.dropped.length

theorem requested_start (config : ServerConfig) (fds : Descriptors) :
    Requested config (Audit.start config fds) where
  requests := rfl
  taken := by
    have hz : total config.workerThreads.toNat starting (start config fds).worker = 0 :=
      total_eq_zero_iff.mpr (fun _ _ => rfl)
    simp only [Audit.start, hz]
    rfl

theorem Requested.frame (h : Requested config t)
    (requests : s'.stats.requests = t.state.stats.requests)
    (taken : s'.ledger.taken = t.state.ledger.taken) (queue : s'.queue = t.state.queue)
    (worker : total config.workerThreads.toNat starting s'.worker =
      total config.workerThreads.toNat starting t.state.worker)
    (busy : s'.answeredBusy = t.state.answeredBusy)
    (dropped : s'.ledger.dropped = t.state.ledger.dropped) :
    Requested config ⟨s', t.trace ++ []⟩ := by
  refine ⟨?_, ?_⟩
  · dsimp only
    rw [requests, taken]
    exact h.requests
  · dsimp only
    rw [taken, queue, worker, busy, dropped, List.append_nil]
    exact h.taken

theorem countP_snoc_of_ne {l : List Answer} {c : Nat} {job : Option Job} {response : Response}
    (h : response.status ≠ .kServerBusy) :
    (l ++ [(⟨c, job, response⟩ : Answer)]).countP (fun a => a.response.status = .kServerBusy) =
      l.countP (fun a => a.response.status = .kServerBusy) := by
  rw [List.countP_append, List.countP_singleton, if_neg (by simpa using h), Nat.add_zero]

theorem requested_loop (h : Requested config t) (hr : t.state.Replies)
    (hs : LoopStep config fds t.state o s') : Requested config ⟨s', t.trace ++ []⟩ := by
  have htaken := h.taken
  cases hs with
  | submit c request x error n pc =>
    refine ⟨?_, ?_⟩
    · simp only [ServerStats.recordRequest, h.requests, List.length_append,
        List.length_singleton, UInt64.ofNat_add]
      rfl
    · simp only [answeredBusy, List.append_nil, List.length_append, List.length_singleton]
        at htaken ⊢
      omega
  | refuse c request x error n pc =>
    refine ⟨?_, ?_⟩
    · simp only [ServerStats.recordRequest, ServerStats.recordRejected, h.requests,
        List.length_append, List.length_singleton, UInt64.ofNat_add]
      rfl
    · simp only [answeredBusy, pc, Loop.job, Option.toList, List.append_nil,
        List.length_append, List.length_singleton, List.length_nil] at htaken ⊢
      omega
  | busy job ok x pc he =>
    have hopen : (t.state.conn job.connection).closed = false :=
      hr.reading _ (by rw [pc]; rfl)
    have hledger : recordAnswer t.state.ledger (t.state.conn job.connection).closed job
        (busyResponse job) = { t.state.ledger with
          answers :=
            t.state.ledger.answers ++ [⟨job.connection, some job, busyResponse job⟩] } := by
      rw [recordAnswer, hopen]
      rfl
    rw [hledger]
    refine h.frame rfl rfl rfl rfl ?_ rfl
    -- the request leaves the loop and its answer enters the ledger
    simp [answeredBusy, pc, busyResponse, ↓apply_ite Loop.job]
  | immediate c response ok x pc he =>
    have hopen : (t.state.conn c).closed = false := hr.reading _ (by rw [pc]; rfl)
    have hstatus : response.status ≠ .kServerBusy := hr.reply (c, response) (by rw [pc]; rfl)
    rw [hopen, if_neg Bool.false_ne_true]
    refine h.frame rfl rfl rfl rfl ?_ rfl
    simp only [answeredBusy, pc, countP_snoc_of_ne hstatus, ↓apply_ite Loop.job, Loop.job,
      ite_self]
  | stopExpired pc =>
    refine ⟨h.requests, ?_⟩
    simp only [answeredBusy, pc, Loop.job, List.append_nil, List.length_append,
      List.length_nil] at htaken ⊢
    omega
  | finish pc =>
    have hrequests := ServerStats.foldl_connectionClosed (f := ServerStats.requests)
      (fun _ => rfl) t.state.connections t.state.stats
    refine h.frame hrequests rfl rfl rfl ?_ rfl
    simp [answeredBusy, closeAll, pc]
  | opened => exact h.frame rfl rfl rfl rfl rfl rfl
  | _ =>
    refine h.frame rfl rfl rfl rfl ?_ rfl
    simp [answeredBusy, leave, ↓apply_ite Loop.job, *]

theorem step_requested (h : Requested config t) (hr : t.state.Replies)
    (hs : AuditStep config fds t.state a s' es) : Requested config ⟨s', t.trace ++ es⟩ := by
  have htaken := h.taken
  cases hs with
  | @ran w _ job cache response tally hw pc result =>
    refine ⟨h.requests, ?_⟩
    have hu := total_setWorker hw t.state starting (.record job response tally)
    rw [pc] at hu
    simp only [starting, answeredBusy, List.length_append, List.length_singleton] at hu htaken ⊢
    omega
  | loop hs => exact requested_loop h hr hs
  | requestShutdown => exact h.frame rfl rfl rfl rfl rfl rfl
  | @worker w _ _ hw hs pc =>
    cases hs with
    | take job queue pc' hq =>
      refine ⟨h.requests, ?_⟩
      have hu := total_setWorker hw t.state starting (.run job)
      rw [pc'] at hu
      rw [hq, List.length_cons] at htaken
      simp only [starting, answeredBusy, List.append_nil] at hu htaken ⊢
      omega
    | run job _ _ _ _ pc' => exact absurd pc' (pc job)
    | record job response tally pc' =>
      refine h.frame ?_ rfl rfl (total_setWorker_same hw (by rw [pc']; rfl)) rfl rfl
      obtain _ | _ | _ | _ | _ := tally <;> rfl
    | stage job response overLimit x pc' =>
      have hstatus : response.status ≠ .kServerBusy := hr.workers w response (by rw [pc']; rfl)
      refine h.frame rfl rfl rfl (total_setWorker_same hw (by rw [pc']; rfl)) ?_ rfl
      simp only [answeredBusy, countP_snoc_of_ne hstatus]
    | decrement d healthy pc' =>
      refine h.frame rfl rfl rfl (total_setWorker_same hw ?_) rfl rfl
      rw [pc']
      cases healthy <;> rfl
    | _ =>
      refine h.frame rfl rfl rfl (total_setWorker_same hw ?_) rfl rfl
      simp [starting, *]

structure Audited (config : ServerConfig) (t : Audit) : Prop where
  core : t.state.Core config
  cached : t.state.Cached config
  replies : t.state.Replies
  sorted : Sorted t
  balanced : Balanced t
  tallied : Tallied config t
  requested : Requested config t

theorem reach_audited (h : Reach (Audit.step config fds) Free (Audit.start config fds) t) :
    Audited config t := by
  refine h.invariant (P := Audited config) ?_ ?_
  · have hz : ∀ k, total config.workerThreads.toNat (recording k) (start config fds).worker = 0 :=
      fun k => total_eq_zero_iff.mpr (fun _ _ => rfl)
    refine ⟨core_start config fds, cached_start config fds, replies_start config fds,
      (fun e he => by cases he), rfl, fun k => ?_, requested_start config fds⟩
    simp only [Audit.start, hz k]
    cases k <;> rfl
  · rintro t a ⟨s', trace⟩ hi - hs
    obtain ⟨hstep, htrace⟩ := traced_eq_some hs
    dsimp only at hstep htrace
    have hs' := step_sound hstep
    have ha := audit_step hstep
    obtain ⟨hsorted, hbalanced⟩ := step_executed hi.sorted hi.balanced hi.cached.linked ha
    rw [htrace]
    exact ⟨step_core hi.core hs', step_cached hi.cached hs',
      step_replies hi.replies hi.core.tabled hi.cached.linked ha, hsorted, hbalanced,
      step_tallied hi.tallied ha, step_requested hi.requested hi.replies ha⟩

/-- No job is queued, none is being executed and none was dropped at shutdown. -/
structure AtRest (config : ServerConfig) (s : Server) : Prop where
  queue : s.queue = []
  workers : ∀ w < config.workerThreads.toNat, (∀ job, s.worker w ≠ .run job) ∧
    ∀ job response tally, s.worker w ≠ .record job response tally
  dropped : s.ledger.dropped = []

theorem Audited.tallied_atRest (h : Audited config t) (hs : t.state.AtRest config)
    (k : Tally) : t.state.stats.tallied k = UInt64.ofNat (t.sum (Execution.tallied k)) := by
  have hz : total config.workerThreads.toNat (recording k) t.state.worker = 0 := by
    refine total_eq_zero_iff.mpr (fun w hw => ?_)
    rw [recording]
    exact (hs.workers w hw).2
  have hk := h.tallied k
  rw [hz] at hk
  rw [← hk]
  exact (UInt64.add_zero _).symm

theorem Audited.taken_atRest (h : Audited config t) (hs : t.state.AtRest config) :
    t.state.ledger.taken.length = t.trace.length + t.state.answeredBusy := by
  have hz : total config.workerThreads.toNat starting t.state.worker = 0 := by
    refine total_eq_zero_iff.mpr (fun w hw => ?_)
    rw [starting]
    exact (hs.workers w hw).1
  have htaken := h.requested.taken
  rw [hz, hs.queue, hs.dropped, List.length_nil] at htaken
  exact htaken

def statsSnapshot (s : Server) (uptimeMs : UInt64) : StatsSnapshot :=
  s.stats.snapshot s.cache.snapshot uptimeMs

/-- Once nothing is on its way, every request is accounted for by the counters and every stored
entry by the cache, in the arithmetic of the counters. -/
theorem statistics_reconcile (config : ServerConfig) (fds : Descriptors) {t : Audit}
    (h : Reach (Audit.step config fds) Free (Audit.start config fds) t)
    (hs : t.state.AtRest config) (uptimeMs : UInt64) :
    (t.state.statsSnapshot uptimeMs).requestsProcessed =
        (t.state.statsSnapshot uptimeMs).cacheHits + (t.state.statsSnapshot uptimeMs).cacheMisses +
        (t.state.statsSnapshot uptimeMs).puts + (t.state.statsSnapshot uptimeMs).deletes +
        UInt64.ofNat (t.sum Execution.tooLarge) + UInt64.ofNat (t.sum Execution.notFound) +
        UInt64.ofNat (t.sum Execution.uncounted) + UInt64.ofNat t.state.answeredBusy ∧
      (t.state.statsSnapshot uptimeMs).puts =
        (t.state.statsSnapshot uptimeMs).currentEntries +
        (t.state.statsSnapshot uptimeMs).evictions + (t.state.statsSnapshot uptimeMs).deletes +
        UInt64.ofNat (t.sum Execution.cleared) + UInt64.ofNat (t.sum Execution.replaced) := by
  have hi := reach_audited h
  have hhits := hi.tallied_atRest hs .hit
  have hmisses := hi.tallied_atRest hs .miss
  have hputs := hi.tallied_atRest hs .put
  have hdeletes := hi.tallied_atRest hs .delete
  simp only [ServerStats.tallied] at hhits hmisses hputs hdeletes
  simp only [statsSnapshot, ServerStats.snapshot, LruCache.snapshot, hhits, hmisses, hputs,
    hdeletes]
  refine ⟨?_, hi.balanced⟩
  rw [hi.requested.requests, hi.taken_atRest hs, ← hi.sorted.sum_ways]
  simp only [UInt64.ofNat_add]

def putFrame (id : UInt64) : Bytes :=
  serializeRequest { opcode := .kPut, requestId := id, key := [1], value := [2] }

theorem statistics_reconcile_replaced :
    ∃ t : Audit, Reach (Audit.step usualConfig usualFds) Free (Audit.start usualConfig usualFds) t ∧
      (t.state.statsSnapshot 0).puts = 2 ∧ t.sum Execution.replaced = 1 ∧
      2 = (t.state.statsSnapshot 0).currentEntries + (t.state.statsSnapshot 0).evictions +
        (t.state.statsSnapshot 0).deletes + UInt64.ofNat (t.sum Execution.cleared) + 1 := by
  obtain ⟨t, hr, hputs, hreplaced, hqueue, hworkers, hdropped⟩ := exists_reach
    (Audit.step usualConfig usualFds) (Audit.start usualConfig usualFds)
    (connect 7 ++ [.loop (.batch [(7, { epollin := true })]), .loop .internal,
      .loop (.recv (.data (putFrame 1 ++ putFrame 2)))] ++ List.replicate 2 (.loop .internal) ++
      List.replicate 18 (.worker 0 0))
    (fun t => (t.state.statsSnapshot 0).puts = 2 ∧ t.sum Execution.replaced = 1 ∧
      t.state.queue = [] ∧
      (∀ w < usualConfig.workerThreads.toNat, t.state.worker w = .waiting) ∧
      t.state.ledger.dropped = [])
    (by decide +kernel)
  have hrest : t.state.AtRest usualConfig := by
    refine ⟨hqueue, fun w hw => ?_, hdropped⟩
    rw [hworkers w hw]
    simp
  have hboth := (statistics_reconcile usualConfig usualFds hr hrest 0).2
  rw [hputs, hreplaced] at hboth
  exact ⟨t, hr, hputs, hreplaced, hboth⟩

end Server

end LocalCache
