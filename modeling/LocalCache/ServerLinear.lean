import LocalCache.CacheRefinement
import LocalCache.ServerCache
import LocalCache.ServerJobs
import LocalCache.Library.Linearization

namespace LocalCache

open Protocol Serializer RequestCodec Library Transition RecencyList Linearization

/-- The cache operation that a request asks for. PING and STATS ask for none. -/
def Protocol.Request.cacheOp (q : Request) : Option CacheOp :=
  match q.opcode with
  | .kGet => some (.get q.key)
  | .kPut => some (.put q.key q.value)
  | .kDelete => some (.erase q.key)
  | .kClear => some .clear
  | .kPing | .kStats => none

namespace LruServer

def told : CacheResult → Status × Bytes
  | .value (some v) => (.kOk, v)
  | .status .kStored | .found true | .done => (.kOk, [])
  | .value none | .found false => (.kNotFound, [])
  | .status .kValueTooLarge | .status .kEntryTooLarge => (.kValueTooLarge, [])

structure Reports (l : List Entry) (stats : StatsSnapshot) : Prop where
  entries : stats.currentEntries = UInt64.ofNat l.length
  bytes : stats.currentCacheBytes = UInt64.ofNat (l.map cost).sum
  payloadBytes : stats.currentPayloadBytes = UInt64.ofNat (l.map payload).sum

/-- What a server may answer when it holds the entries `l`. It may be busy at any time. -/
def Allows (limits : CacheLimits) (l : List Entry) (q : Request) (r : Response) : Prop :=
  AnswersTo r q ∧
    ((r.status, r.value) = (.kServerBusy, []) ∨
      match q.cacheOp with
      | some op => (r.status, r.value) = told (apply limits l op).result
      | none =>
        if q.opcode = .kStats then
          ∃ stats, Reports l stats ∧ (r.status, r.value) = (.kOk, serializeStats stats)
        else (r.status, r.value) = (.kOk, []))

def next (limits : CacheLimits) (l : List Entry) (q : Request) (r : Response) : List Entry :=
  if r.status = .kServerBusy then l
  else (q.cacheOp.map fun op => (apply limits l op).contents).getD l

/-- A server that executes one request after the other on a list of the entries, the most
recently used first. -/
def object (limits : CacheLimits) : Object (List Entry) Request Response where
  allows := Allows limits
  next := next limits

end LruServer

namespace Server

/-- A request is taken off a connection, or the answer to one is staged. -/
abbrev History := List (Event Job Request Response)

def emits (config : ServerConfig) (fds : Descriptors) (s : Server) (a : Action) : History :=
  match s.step config fds a with
  | none => []
  | some s' =>
    (s'.ledger.taken.drop s.ledger.taken.length).map (fun j => .call j j.request) ++
      (s'.ledger.answers.drop s.ledger.answers.length).filterMap
        (fun x => x.job.map fun j => .ret j x.response)

variable {config : ServerConfig} {fds : Descriptors} {s s' : Server} {a : Action}
  {j : Job} {q : Request} {r : Response} {uptimeMs : UInt64} {cache : LruCache}
  {tally : Option Tally}

theorem told_ne_busy (result : CacheResult) : (LruServer.told result).1 ≠ .kServerBusy := by
  cases result with
  | value v => cases v <;> simp [LruServer.told]
  | status s => cases s <;> simp [LruServer.told]
  | found b => cases b <;> simp [LruServer.told]
  | done => simp [LruServer.told]

theorem reports_snapshot (h : s.cache.Inv) (uptimeMs : UInt64) :
    LruServer.Reports s.cache.contents (s.stats.snapshot s.cache.snapshot uptimeMs) where
  entries := by
    rw [LruCache.length_contents, ← h.linked.size_eq]
    rfl
  bytes := by
    rw [← h.bytes_eq]
    rfl
  payloadBytes := by
    rw [← h.payload_eq]
    rfl

structure Executed (s : Server) (q : Request) (cache : LruCache) (r : Response) : Prop where
  inv : cache.Inv
  limits_eq : cache.limits = s.cache.limits
  allows : LruServer.Allows s.cache.limits s.cache.contents q r
  contents_eq : cache.contents = LruServer.next s.cache.limits s.cache.contents q r
  served : r.status ≠ .kServerBusy

theorem executed_of_run {op : CacheOp} (h : s.cache.Inv) (fits : s.cache.Fits op)
    (hop : q.cacheOp = some op) (answers : AnswersTo r q)
    (run : ∀ c' result, s.cache.run op = some (c', result) →
      cache = c' ∧ (r.status, r.value) = LruServer.told result) : Executed s q cache r := by
  obtain ⟨c', hrun, hm⟩ := LruCache.run_matches h fits
  obtain ⟨rfl, htold⟩ := run c' _ hrun
  have hbusy : r.status ≠ .kServerBusy := by
    have hne := told_ne_busy (apply s.cache.limits s.cache.contents op).result
    rwa [← htold] at hne
  refine ⟨hm.inv, hm.limits_eq, ⟨answers, .inr ?_⟩, ?_, hbusy⟩
  · rw [hop]
    exact htold
  · rw [LruServer.next, if_neg hbusy, hop]
    exact hm.contents_eq

theorem execute_executed (h : s.cache.Inv) (fits : ∀ op, q.cacheOp = some op → s.cache.Fits op)
    (result : s.execute q uptimeMs = some (cache, r, tally)) : Executed s q cache r := by
  have answers : AnswersTo r q := execute_header result
  have still : q.cacheOp = none → cache = s.cache → r.status ≠ .kServerBusy →
      (if q.opcode = .kStats then
        ∃ stats, LruServer.Reports s.cache.contents stats ∧
          (r.status, r.value) = (.kOk, serializeStats stats)
      else (r.status, r.value) = (.kOk, [])) → Executed s q cache r := by
    rintro hop rfl hbusy hallows
    refine ⟨h, rfl, ⟨answers, .inr ?_⟩, ?_, hbusy⟩
    · rw [hop]
      exact hallows
    · rw [LruServer.next, if_neg hbusy, hop]
      rfl
  unfold execute at result
  cases hop : q.opcode with
  | kGet =>
    have hcache : q.cacheOp = some (.get q.key) := by rw [Request.cacheOp, hop]
    refine executed_of_run h (fits _ hcache) hcache answers ?_
    intro c' res hrun
    simp only [hop, Option.map_eq_some_iff] at result
    obtain ⟨⟨c'', v⟩, hget, heq⟩ := result
    rw [LruCache.run, hget] at hrun
    cases hrun
    cases v <;> cases heq <;> exact ⟨rfl, rfl⟩
  | kPut =>
    have hcache : q.cacheOp = some (.put q.key q.value) := by rw [Request.cacheOp, hop]
    refine executed_of_run h (fits _ hcache) hcache answers ?_
    intro c' res hrun
    simp only [hop, Option.map_eq_some_iff] at result
    obtain ⟨⟨c'', v⟩, hput, heq⟩ := result
    rw [LruCache.run, hput] at hrun
    cases hrun
    cases v <;> cases heq <;> exact ⟨rfl, rfl⟩
  | kDelete =>
    have hcache : q.cacheOp = some (.erase q.key) := by rw [Request.cacheOp, hop]
    refine executed_of_run h (fits _ hcache) hcache answers ?_
    intro c' res hrun
    simp only [hop, Option.map_eq_some_iff] at result
    obtain ⟨⟨c'', v⟩, herase, heq⟩ := result
    rw [LruCache.run, herase] at hrun
    cases hrun
    cases v <;> cases heq <;> exact ⟨rfl, rfl⟩
  | kClear =>
    have hcache : q.cacheOp = some .clear := by rw [Request.cacheOp, hop]
    refine executed_of_run h (fits _ hcache) hcache answers ?_
    intro c' res hrun
    simp only [hop] at result
    cases hrun
    cases result
    exact ⟨rfl, rfl⟩
  | kPing =>
    simp only [hop] at result
    cases result
    refine still (by rw [Request.cacheOp, hop]) rfl (by simp) ?_
    rw [hop]
    rfl
  | kStats =>
    simp only [hop] at result
    cases result
    refine still (by rw [Request.cacheOp, hop]) rfl (by simp) ?_
    rw [if_pos hop]
    exact ⟨_, reports_snapshot h uptimeMs, rfl⟩

theorem grammatical_of_nextRequest {x y : Connection} {out : Request} {error : ParseError} {n : Nat}
    (h : x.nextRequest out = (⟨.kComplete, error, n⟩, q, y)) :
    Grammatical q x.limits.protocolLimits := by
  obtain ⟨m, hhead, hres, -⟩ | ⟨-, hres, -⟩ | ⟨e, -, hres, -⟩ := Connection.nextRequest_cases h
  · rw [RequestStream.head] at hhead
    refine ((deserializeRequest_complete_iff x.unconsumed _ {} q m).mp ?_).2.2
    cases hd : deserializeRequest x.unconsumed x.limits.protocolLimits {} with | mk result p =>
    cases hstatus : result.status <;> simp_all
  · cases hres
  · cases hres

/-- Every request taken off a connection is one that the protocol admits. -/
def WellFormed (config : ServerConfig) (s : Server) : Prop :=
  ∀ j ∈ s.ledger.taken, Grammatical j.request config.connectionLimits.protocolLimits

theorem wellFormed_start (config : ServerConfig) (fds : Descriptors) :
    (start config fds).WellFormed config :=
  fun _ hj => by cases hj

theorem WellFormed.took {c n : Nat} {x : Connection} {error : ParseError}
    (h : s.WellFormed config) (hc : s.Core config)
    (next : (s.conn c).nextRequest {} = (⟨.kComplete, error, n⟩, q, x))
    (taken : s'.ledger.taken = s.ledger.taken ++ [⟨c, q, s.ledger.taken.length⟩]) :
    s'.WellFormed config := by
  intro j hj
  rw [taken] at hj
  obtain hj | hj := List.mem_append.mp hj
  · exact h j hj
  · rw [List.mem_singleton.mp hj, ← (hc.buffers c).limits_eq]
    exact grammatical_of_nextRequest next

theorem step_wellFormed (h : s.WellFormed config) (hc : s.Core config)
    (hs : Step config fds s a s') : s'.WellFormed config := by
  cases hs with
  | loop hl =>
    cases hl with
    | submit c request x error n pc room next => exact h.took hc next rfl
    | refuse c request x error n pc room next => exact h.took hc next rfl
    | busy job ok x pc he =>
      intro j hj
      simp only [recordAnswer] at hj
      split at hj <;> exact h j hj
    | immediate c response ok x pc he =>
      intro j hj
      dsimp only at hj
      split at hj <;> exact h j hj
    | _ => exact h
  | worker _ hs => cases hs <;> exact h
  | requestShutdown => exact h

/-- What a step does to the history. -/
inductive Effect (config : ServerConfig) (s s' : Server) : Prop
  | quiet (cache : s'.cache = s.cache) (taken : s'.ledger.taken = s.ledger.taken)
      (answers : ∃ l, s'.ledger.answers = s.ledger.answers ++ l ∧ ∀ x ∈ l, x.job = none)
      (jobs : JobsKept config s s')
  | took (job : Job) (cache : s'.cache = s.cache)
      (taken : s'.ledger.taken = s.ledger.taken ++ [job])
      (answers : s'.ledger.answers = s.ledger.answers)
      (waiting : ∀ j, s'.Waiting config j → s.Waiting config j ∨ j = job)
      (carrying : ∀ j r, s'.Carrying config j r → s.Carrying config j r)
  | ran (job : Job) (uptimeMs : UInt64) (response : Response) (tally : Option Tally)
      (waits : s.Waiting config job)
      (result : s.execute job.request uptimeMs = some (s'.cache, response, tally))
      (taken : s'.ledger.taken = s.ledger.taken) (answers : s'.ledger.answers = s.ledger.answers)
      (waiting : ∀ j, s'.Waiting config j → s.Waiting config j)
      (carries : s'.Carrying config job response)
      (carrying : ∀ j r, s'.Carrying config j r →
        s.Carrying config j r ∨ (j = job ∧ r = response))
  | answered (job : Job) (response : Response) (cache : s'.cache = s.cache)
      (ready : s.Carrying config job response ∨
        (s.Waiting config job ∧ response = busyResponse job))
      (taken : s'.ledger.taken = s.ledger.taken)
      (answers : s'.ledger.answers =
        s.ledger.answers ++ [⟨job.connection, some job, response⟩])
      (jobs : JobsKept config s s')

theorem JobStep.effect (h : JobStep config s a s') (silent : s.loop.reply = none) :
    Effect config s s' := by
  cases h with
  | kept _ cache taken answers jobs =>
    exact .quiet cache taken ⟨[], by rw [answers, List.append_nil], (fun _ h => by cases h)⟩ jobs
  | took job _ cache taken answers waiting carrying =>
    exact .took job cache taken answers waiting carrying
  | ran job uptimeMs response tally _ waits result taken answers waiting carries carrying =>
    exact .ran job uptimeMs response tally waits result taken answers waiting carries carrying
  | answered job response _ cache ready taken answers jobs =>
    exact .answered job response cache ready taken answers jobs
  | replied p reply =>
    rw [silent] at reply
    cases reply

theorem effect_loop {o : Outcome} (hl : LoopStep config fds s o s') : Effect config s s' := by
  cases hreply : s.loop.reply with
  | none => exact (jobStep_loop hl).effect hreply
  | some p =>
    cases hl with
    | immediate c response ok x pc he =>
      have hnone : ∀ j, Loop.job (if ok then .flush c .done else .close c true) = some j →
          s.loop.job = some j := by
        intro j hj
        cases ok <;> cases hj
      cases hclosed : (s.conn c).closed with
      | true =>
        exact .quiet rfl (by simp) ⟨[], by simp, (fun _ hx => by cases hx)⟩
          (.of_loop rfl rfl hnone)
      | false =>
        refine .quiet rfl (by simp) ⟨[⟨c, none, response⟩], by simp, ?_⟩ (.of_loop rfl rfl hnone)
        intro x hx
        rw [List.mem_singleton.mp hx]
    | _ => simp_all [Loop.reply]

theorem effect_worker {w : Nat} (hw : w < config.workerThreads.toNat) (hs : WorkerStep s w s') :
    Effect config s s' := by
  -- The loop plays no part, so a step that is a reply by its state is of one of the other kinds.
  have still {pc : Worker} (cache : s'.cache = s.cache)
      (taken : s'.ledger.taken = s.ledger.taken) (answers : s'.ledger.answers = s.ledger.answers)
      (queue : s'.queue = s.queue) (loop : s'.loop = s.loop)
      (worker : s'.worker = s.setWorker w pc) (starts : pc.starts = none)
      (carried : ∀ p, pc.carried = some p → (s.worker w).carried = some p) :
      Effect config s s' :=
    .quiet cache taken ⟨[], by rw [answers, List.append_nil], (fun _ h => by cases h)⟩
      (.of_worker queue loop worker hw starts carried)
  cases hs with
  | take job queue pc hq =>
    refine .quiet rfl rfl ⟨[], (List.append_nil _).symm, (fun _ h => by cases h)⟩
      ⟨fun j => waiting_setWorker ?_ rfl rfl ?_, ?_⟩
    · intro j hj
      exact .queued (by rw [hq]; exact List.mem_cons_of_mem _ hj)
    · rintro j ⟨⟩
      exact .queued (by rw [hq]; exact List.mem_cons_self ..)
    · intro j r h
      exact (carrying_setWorker rfl h).resolve_right (fun h => by cases h)
  | run job uptimeMs cache response tally pc result =>
    refine .ran job uptimeMs response tally (.started w hw (by rw [pc]; rfl)) result rfl rfl
      (fun j => waiting_setWorker (fun _ h => .queued h) rfl rfl (fun _ h => by cases h)) ?_ ?_
    · exact ⟨w, hw, by dsimp only; rw [setWorker_apply, if_pos rfl]; rfl⟩
    · intro j r h
      obtain h | h := carrying_setWorker rfl h
      · exact .inl h
      · cases h
        exact .inr ⟨rfl, rfl⟩
  | stage job response overLimit x pc hx =>
    exact .answered job response rfl (.inl ⟨w, hw, by rw [pc]; rfl⟩) rfl rfl
      (.of_worker rfl rfl rfl hw rfl (fun _ h => by cases h))
  | record job response tally pc | checkOpen job response pc =>
    refine still rfl rfl rfl rfl rfl rfl rfl (fun p hp => ?_)
    rw [pc]
    exact hp
  | decrement c healthy pc =>
    refine still rfl rfl rfl rfl rfl rfl ?_ (fun p hp => ?_)
    · cases healthy <;> rfl
    · cases healthy <;> cases hp
  | exit pc | checkClosed job response pc | discard job pc | unhealthy c pc | notified c pc
  | notify c pc | push c pc | write c pc | finish c pc =>
    exact still rfl rfl rfl rfl rfl rfl rfl (fun _ h => by cases h)

theorem effect_of_step (hs : Step config fds s a s') : Effect config s s' := by
  cases hs with
  | loop hl => exact effect_loop hl
  | worker hw hs => exact effect_worker hw hs
  | requestShutdown =>
    exact .quiet rfl rfl ⟨[], (List.append_nil _).symm, (fun _ h => by cases h)⟩
      (.of_loop rfl rfl (fun _ h => h))

/-- The operations of the history have taken effect in the order `L`. What waits has not taken
effect, and what a worker carries is what its request returns. -/
structure Ordered (config : ServerConfig) (t : Traced Server (Event Job Request Response))
    (L : List (Job × Request × Response)) : Prop where
  pointed : Pointed (LruServer.object config.cacheLimits) [] t.trace L t.state.cache.contents
  inv : t.state.cache.Inv
  limits_eq : t.state.cache.limits = config.cacheLimits
  called : ∀ j q, .call j q ∈ t.trace ↔ j ∈ t.state.ledger.taken ∧ q = j.request
  waiting : ∀ j, t.state.Waiting config j → j ∉ L.map Prod.fst
  carrying : ∀ j r, t.state.Carrying config j r → (j, j.request, r) ∈ L

/-- No sum of the cache overflows. -/
def Roomy (config : ServerConfig) : Prop :=
  config.maxCacheBytes.toNat + (64 * 1024 + 64 * 1024 * 1024 + 128) < Word64.size

theorem fits_of_grammatical {limits : Limits} (room : Roomy config) (inv : s.cache.Inv)
    (limits_eq : s.cache.limits = config.cacheLimits) (g : Grammatical q limits) (op : CacheOp)
    (hop : q.cacheOp = some op) : s.cache.Fits op := by
  cases op with
  | put k v =>
    have hkv : k = q.key ∧ v = q.value := by
      rw [Request.cacheOp] at hop
      split at hop <;> cases hop
      exact ⟨rfl, rfl⟩
    have hbytes := inv.bytes_le
    rw [limits_eq] at hbytes
    simp only [LruCache.Fits, cost, payload, hkv.1, hkv.2]
    simp only [Roomy] at room
    have hkey : q.key.length ≤ 64 * 1024 := g.withinCeilings.key_le
    have hvalue : q.value.length ≤ 64 * 1024 * 1024 := g.withinCeilings.value_le
    simp only [ServerConfig.cacheLimits] at hbytes
    omega
  | get | erase | contains | clear => trivial

variable {t t' : Traced Server (Event Job Request Response)} {L : List (Job × Request × Response)}

theorem emits_eq {jobs : List Job} {answers : List Answer}
    (hstep : s.step config fds a = some s') (taken : s'.ledger.taken = s.ledger.taken ++ jobs)
    (answers_eq : s'.ledger.answers = s.ledger.answers ++ answers) :
    emits config fds s a = jobs.map (fun j => .call j j.request) ++
      answers.filterMap (fun x => x.job.map fun j => .ret j x.response) := by
  simp only [emits, hstep, taken, answers_eq, List.drop_left]

theorem ordered_start (config : ServerConfig) (fds : Descriptors) :
    Ordered config ⟨start config fds, []⟩ [] where
  pointed := .nil
  inv := LruCache.inv_empty _
  limits_eq := rfl
  called := by
    intro j q
    refine ⟨(fun h => by cases h), ?_⟩
    rintro ⟨hj, -⟩
    cases hj
  waiting := fun _ _ hmem => by cases hmem
  carrying := by
    rintro j r ⟨w, -, hw⟩
    cases hw

theorem Ordered.kept (h : Ordered config t L) (cache : t'.state.cache = t.state.cache)
    (trace : t'.trace = t.trace) (taken : t'.state.ledger.taken = t.state.ledger.taken)
    (jobs : JobsKept config t.state t'.state) : Ordered config t' L where
  pointed := by
    rw [trace, cache]
    exact h.pointed
  inv := by
    rw [cache]
    exact h.inv
  limits_eq := by
    rw [cache]
    exact h.limits_eq
  called := by
    rw [trace, taken]
    exact h.called
  waiting := fun j hj => h.waiting j (jobs.waiting j hj)
  carrying := fun j r hj => h.carrying j r (jobs.carrying j r hj)

theorem Ordered.call (h : Ordered config t L) (hc : t'.state.Core config)
    (cache : t'.state.cache = t.state.cache)
    (trace : t'.trace = t.trace ++ [.call j j.request])
    (taken : t'.state.ledger.taken = t.state.ledger.taken ++ [j])
    (waiting : ∀ i, t'.state.Waiting config i → t.state.Waiting config i ∨ i = j)
    (carrying : ∀ i r, t'.state.Carrying config i r → t.state.Carrying config i r) :
    Ordered config t' L := by
  have hnew : j ∉ t.state.ledger.taken := by
    have hnodup := hc.taken_nodup
    rw [taken, List.nodup_append] at hnodup
    intro hj
    exact hnodup.2.2 j hj j (List.mem_singleton_self j) rfl
  have hfresh : ∀ q, .call j q ∉ t.trace := fun q hq => hnew ((h.called j q).mp hq).1
  refine ⟨?_, cache ▸ h.inv, cache ▸ h.limits_eq, ?_, ?_, fun i r hi =>
    h.carrying i r (carrying i r hi)⟩
  · rw [trace, cache]
    exact h.pointed.call hfresh
  · intro i q
    rw [trace, taken, List.mem_append, List.mem_append, h.called, List.mem_singleton,
      List.mem_singleton, or_and_right]
    refine or_congr_right ⟨?_, ?_⟩
    · rintro ⟨⟩
      exact ⟨rfl, rfl⟩
    · rintro ⟨rfl, rfl⟩
      rfl
  · intro i hi
    obtain hi | rfl := waiting i hi
    · exact h.waiting i hi
    · -- Only what was called before has taken effect.
      intro hmem
      obtain ⟨x, hx, hj⟩ := List.mem_map.mp hmem
      have hcalled := h.pointed.linearizes.called x hx
      rw [hj] at hcalled
      exact hfresh _ hcalled

theorem Ordered.point (h : Ordered config t L) (hc : t.state.Core config)
    (waits : t.state.Waiting config j)
    (allows : LruServer.Allows config.cacheLimits t.state.cache.contents j.request r)
    (inv : t'.state.cache.Inv) (limits_eq : t'.state.cache.limits = config.cacheLimits)
    (contents : t'.state.cache.contents =
      LruServer.next config.cacheLimits t.state.cache.contents j.request r)
    (trace : t'.trace = t.trace) (taken : t'.state.ledger.taken = t.state.ledger.taken)
    (waiting : ∀ i, t'.state.Waiting config i → t.state.Waiting config i ∧ i ≠ j)
    (carrying : ∀ i r', t'.state.Carrying config i r' →
      t.state.Carrying config i r' ∨ (i = j ∧ r' = r)) :
    Ordered config t' (L ++ [(j, j.request, r)]) where
  pointed := by
    have hcalled := (h.called j j.request).mpr ⟨(hc.unanswered_of_waiting waits).1, rfl⟩
    rw [trace, contents]
    exact h.pointed.point hcalled (h.waiting j waits) allows
  inv := inv
  limits_eq := limits_eq
  called := by
    rw [trace, taken]
    exact h.called
  waiting := by
    intro i hi hmem
    obtain ⟨hi, hne⟩ := waiting i hi
    rw [List.map_append, List.mem_append] at hmem
    obtain hmem | hmem := hmem
    · exact h.waiting i hi hmem
    · exact hne (List.mem_singleton.mp hmem)
  carrying := by
    intro i r' hi
    obtain hi | ⟨rfl, rfl⟩ := carrying i r' hi
    · exact List.mem_append_left _ (h.carrying i r' hi)
    · exact List.mem_append_right _ (List.mem_singleton_self _)

theorem Ordered.ret (h : Ordered config t L) (done : (j, j.request, r) ∈ L)
    (trace : t'.trace = t.trace ++ [.ret j r]) (state : t'.state = t.state) :
    Ordered config t' L where
  pointed := by
    rw [trace, state]
    exact h.pointed.ret done
  inv := state ▸ h.inv
  limits_eq := state ▸ h.limits_eq
  called := by
    intro i q
    rw [trace, state, ← h.called, List.mem_append, List.mem_singleton]
    simp
  waiting := state ▸ h.waiting
  carrying := state ▸ h.carrying

theorem step_ordered (room : Roomy config) (h : Ordered config t L)
    (hc : t.state.Core config) (hg : t.state.WellFormed config)
    (hs : traced (step config fds) (emits config fds) t a = some t') :
    ∃ L', Ordered config t' L' := by
  obtain ⟨hstep, htrace⟩ := traced_eq_some hs
  have hc' := step_core hc (step_sound hstep)
  cases effect_of_step (step_sound hstep) with
  | quiet cache taken answers jobs =>
    obtain ⟨l, hanswers, hnone⟩ := answers
    rw [emits_eq hstep (taken.trans (List.append_nil _).symm) hanswers,
      List.filterMap_eq_nil_iff.mpr (fun x hx => by rw [hnone x hx]; rfl), List.map_nil,
      List.append_nil, List.append_nil] at htrace
    exact ⟨L, h.kept cache htrace taken jobs⟩
  | took job cache taken answers waiting carrying =>
    rw [emits_eq hstep taken (answers.trans (List.append_nil _).symm)] at htrace
    exact ⟨L, h.call hc' cache htrace taken waiting carrying⟩
  | ran job uptimeMs response tally waits result taken answers waiting carries carrying =>
    rw [emits_eq hstep (taken.trans (List.append_nil _).symm)
      (answers.trans (List.append_nil _).symm)] at htrace
    have hfits := fits_of_grammatical room h.inv h.limits_eq
      (hg job (hc.unanswered_of_waiting waits).1)
    have he := execute_executed h.inv hfits result
    have hallows := he.allows
    have hcontents := he.contents_eq
    rw [h.limits_eq] at hallows hcontents
    refine ⟨_, h.point hc waits hallows he.inv (he.limits_eq.trans h.limits_eq) hcontents
      (htrace.trans (List.append_nil _)) taken ?_ carrying⟩
    intro i hi
    refine ⟨waiting i hi, ?_⟩
    rintro rfl
    exact hc'.not_carrying_of_waiting hi carries
  | answered job response cache ready taken answers jobs =>
    rw [emits_eq hstep (taken.trans (List.append_nil _).symm) answers] at htrace
    obtain hcarry | ⟨waits, rfl⟩ := ready
    · have hkept : Ordered config ⟨t'.state, t.trace⟩ L := h.kept cache rfl taken jobs
      exact ⟨L, hkept.ret (h.carrying job response hcarry) htrace rfl⟩
    · -- A refused request takes effect with its answer, and the effect is none.
      have hallows : LruServer.Allows config.cacheLimits t.state.cache.contents job.request
          (busyResponse job) := ⟨⟨rfl, rfl⟩, .inl rfl⟩
      have hpoint : Ordered config ⟨t'.state, t.trace⟩
          (L ++ [(job, job.request, busyResponse job)]) := by
        refine h.point hc waits hallows (cache ▸ h.inv) (cache ▸ h.limits_eq) ?_ rfl taken ?_
          (fun i r hi => .inl (jobs.carrying i r hi))
        · rw [cache]
          rfl
        · intro i hi
          refine ⟨jobs.waiting i hi, ?_⟩
          rintro rfl
          have hzero := (hc'.unanswered_of_waiting hi).2
          rw [Server.answered, answers, List.countP_append, List.countP_singleton] at hzero
          simp at hzero
      exact ⟨_, hpoint.ret (List.mem_append_right _ (List.mem_singleton_self _)) htrace rfl⟩

/-- If no sum of the cache can overflow, then whatever the interleaving of the event loop with the
workers, the answers and the entries of the cache are those of a server that executes one request
at a time. The order agrees with real time: a request that is taken after the answer to another was
staged comes after it. -/
theorem server_linearizable (config : ServerConfig) (fds : Descriptors) (room : Roomy config)
    {t : Traced Server (Event Job Request Response)}
    (h : Reach (traced (step config fds) (emits config fds)) Free ⟨start config fds, []⟩ t) :
    ∃ L, Linearizes (LruServer.object config.cacheLimits) [] t.trace L ∧
      t.state.cache.contents =
        (LruServer.object config.cacheLimits).run [] (L.map Prod.snd) := by
  have hinv : t.state.Core config ∧ t.state.WellFormed config ∧ ∃ L, Ordered config t L := by
    refine h.invariant (P := fun t => t.state.Core config ∧ t.state.WellFormed config ∧
      ∃ L, Ordered config t L)
      ⟨core_start config fds, wellFormed_start config fds, [], ordered_start config fds⟩ ?_
    rintro t a t' ⟨hc, hg, L, ho⟩ - hs
    have hstep := step_sound (traced_eq_some hs).1
    exact ⟨step_core hc hstep, step_wellFormed hg hc hstep, step_ordered room ho hc hg hs⟩
  obtain ⟨-, -, L, ho⟩ := hinv
  exact ⟨L, ho.pointed.linearizes, ho.pointed.run_eq.symm⟩

def putGet : Bytes :=
  serializeRequest { opcode := .kPut, requestId := 1, key := [1], value := [2] } ++
    serializeRequest { opcode := .kGet, requestId := 2, key := [1] }

theorem server_linearizable_overtaken :
    ∃ t : Traced Server (Event Job Request Response),
      Reach (traced (step usualConfig usualFds) (emits usualConfig usualFds)) Free
        ⟨start usualConfig usualFds, []⟩ t ∧
      t.state.ledger.answers.map (fun a => (a.response.status, a.response.requestId)) =
        [(.kNotFound, 2), (.kOk, 1)] ∧
      t.trace.length = 4 ∧
      ∃ L, Linearizes (LruServer.object usualConfig.cacheLimits) [] t.trace L ∧
        t.state.cache.contents =
          (LruServer.object usualConfig.cacheLimits).run [] (L.map Prod.snd) := by
  obtain ⟨t, hr, hanswers, hlength⟩ := exists_reach
    (traced (step usualConfig usualFds) (emits usualConfig usualFds))
    ⟨start usualConfig usualFds, []⟩
    (connect 7 ++ [.loop (.batch [(7, { epollin := true })]), .loop .internal,
      .loop (.recv (.data putGet))] ++ List.replicate 2 (.loop .internal) ++
      [.worker 0 0] ++ List.replicate 5 (.worker 1 0) ++ List.replicate 4 (.worker 0 0))
    (fun t => t.state.ledger.answers.map (fun a => (a.response.status, a.response.requestId)) =
      [(.kNotFound, 2), (.kOk, 1)] ∧ t.trace.length = 4)
    (by decide +kernel)
  exact ⟨t, hr, hanswers, hlength,
    server_linearizable usualConfig usualFds (by rw [Roomy]; decide) hr⟩

end Server

end LocalCache
