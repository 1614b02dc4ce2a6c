import LocalCache.ServerRequests

namespace LocalCache

open Protocol Serializer Library Transition

inductive TableEvent
  | opened (c : Nat)
  | closed (c : Nat)
  deriving DecidableEq, Repr

def TableEvent.opens : TableEvent → Option Nat
  | .opened c => some c
  | .closed _ => none

def TableEvent.closes : TableEvent → Option Nat
  | .opened _ => none
  | .closed c => some c

namespace Server

/-- The calls of `connection_opened` and `connection_closed` in a step, with their
connections. -/
def tableEvents (config : ServerConfig) (s : Server) (a : Action) : List TableEvent :=
  match s.loop, a with
  | .accept, .loop (.client _ true) =>
    if s.connections.length ≥ config.maxConnections.toNat then []
    else [.opened s.nextConnectionId]
  | .close c _, .loop .internal => if (s.conn c).closed then [] else [.closed c]
  | .next, .loop .internal =>
    if s.todo = [] ∧ s.leaving then s.connections.map (fun p => .closed p.2) else []
  | _, _ => []

structure Steady (config : ServerConfig) (s s' : Server) : Prop where
  table : s'.connections = s.connections
  closed : ∀ c, (s'.conn c).closed = (s.conn c).closed
  active : s'.stats.activeConnections = s.stats.activeConnections
  next : s.nextConnectionId ≤ s'.nextConnectionId
  mentions : ∀ c, Mentions config s' c → Mentions config s c
  running : s'.loop = .finished → s.loop = .finished

/-- What a step does to the table, with the events it emits. -/
inductive TableStep (config : ServerConfig) (fds : Descriptors) (s : Server) :
    Action → Server → List TableEvent → Prop
  | steady {a s'} (h : Steady config s s') : TableStep config fds s a s' []
  | opened {fd} (pc : s.loop = .accept) (free : s.fdOpen config fds fd = false)
    (room : s.connections.length < config.maxConnections.toNat) :
    TableStep config fds s (.loop (.client fd true)) (s.openConnection config fd)
      [.opened s.nextConnectionId]
  | closed {c malformed s'} (pc : s.loop = .close c malformed)
    (opened : (s.conn c).closed = false)
    (conn : ∀ d, (s'.conn d).closed = if d = c then true else (s.conn d).closed)
    (table : s'.connections = Keyed.without Prod.fst (s.conn c).fd s.connections)
    (active : s'.stats.activeConnections = s.stats.activeConnections - 1)
    (next : s'.nextConnectionId = s.nextConnectionId)
    (mentions : ∀ d, Mentions config s' d → Mentions config s d)
    (loop : s'.loop = if malformed then .flush c .done else .next) :
    TableStep config fds s (.loop .internal) s' [.closed c]
  | finished (pc : s.loop = .next) (todo : s.todo = []) (leaving : s.leaving = true) :
    TableStep config fds s (.loop .internal) s.closeAll
      (s.connections.map (fun p => .closed p.2))

variable {config : ServerConfig} {fds : Descriptors} {s s' : Server} {a : Action} {o : Outcome}
  {w c : Nat}

theorem closed_setConn {x : Connection} (hx : x.closed = (s.conn c).closed) (d : Nat) :
    (s.setConn c x d).closed = (s.conn d).closed :=
  setConn_congr Connection.closed hx d

theorem steady_worker (hw : w < config.workerThreads.toNat) (hs : WorkerStep s w s') :
    Steady config s s' := by
  have mentions := fun c (hc : Mentions config s' c) => mentions_worker hw hs hc
  cases hs with
  | stage job response overLimit x pc hx =>
    exact ⟨rfl, closed_setConn (Connection.SameId.of_stage hx).closed, rfl, Nat.le_refl _,
      mentions, id⟩
  | record job response tally pc =>
    refine ⟨rfl, fun _ => rfl, ?_, Nat.le_refl _, mentions, id⟩
    obtain _ | _ | _ | _ | _ := tally <;> rfl
  | discard | decrement | unhealthy | notify =>
    exact ⟨rfl, closed_setConn rfl, rfl, Nat.le_refl _, mentions, id⟩
  | _ => exact ⟨rfl, fun _ => rfl, rfl, Nat.le_refl _, mentions, id⟩

theorem mentions_of_next (hs : LoopStep config fds s o s')
    (hopen : s'.nextConnectionId = s.nextConnectionId) (c : Nat) (hc : Mentions config s' c) :
    Mentions config s c := by
  refine (mentions_loop hs hc).resolve_right (fun hlt => ?_)
  rw [hopen] at hlt
  exact Nat.lt_irrefl _ hlt.2

theorem steady_of_loop (hs : LoopStep config fds s o s')
    (hclose : ∀ c m, s.loop ≠ .close c m) (hopen : s'.nextConnectionId = s.nextConnectionId)
    (hrun : s'.loop ≠ .finished) : Steady config s s' := by
  have mentions := mentions_of_next hs hopen
  cases hs with
  | close c m pc | closedBefore c m pc => exact absurd pc (hclose c m)
  | finish => exact absurd rfl hrun
  | opened fd | addFailed fd => exact absurd hopen (Nat.succ_ne_self _)
  | flushMore d k x pc hr | flushed d k x pc hr =>
    exact ⟨rfl, closed_setConn (Connection.SameId.of_refill hr).closed, rfl, Nat.le_refl _,
      mentions, fun h => absurd h hrun⟩
  | needMore d out x error n pc room hn | malformed d out x error n id opcode pc room hn
  | unidentified d out x error n pc room hn | submit d request x error n pc room hn
  | refuse d request x error n pc room hn =>
    exact ⟨rfl, closed_setConn (Connection.SameId.of_nextRequest hn).closed, rfl, Nat.le_refl _,
      mentions, fun h => absurd h hrun⟩
  | busy job ok x pc he =>
    exact ⟨rfl, closed_setConn (Connection.SameId.of_enqueueResponse he).closed, rfl,
      Nat.le_refl _, mentions, fun h => absurd h hrun⟩
  | immediate d response ok x pc he =>
    refine ⟨rfl, closed_setConn ?_, rfl, Nat.le_refl _, mentions, fun h => absurd h hrun⟩
    cases ok <;> exact (Connection.SameId.of_enqueueResponse he).closed
  | ready d | sent d | readData d | register d =>
    exact ⟨rfl, closed_setConn rfl, rfl, Nat.le_refl _, mentions, fun h => absurd h hrun⟩
  | _ => exact ⟨rfl, fun _ => rfl, rfl, Nat.le_refl _, mentions, fun h => absurd h hrun⟩

theorem tableEvents_of_steady (hs : LoopStep config fds s o s')
    (hclose : ∀ c m, s.loop ≠ .close c m) (hopen : s'.nextConnectionId = s.nextConnectionId)
    (hrun : s'.loop ≠ .finished) : s.tableEvents config (.loop o) = [] := by
  cases hs with
  | close c m pc | closedBefore c m pc => exact absurd pc (hclose c m)
  | finish => exact absurd rfl hrun
  | opened fd | addFailed fd => exact absurd hopen (Nat.succ_ne_self _)
  | reject fd added pc free full =>
    cases added <;> simp [tableEvents, pc, full]
  | endBatch pc todo stay => simp [tableEvents, pc, stay]
  | listener _ _ _ _ pc todo | completion _ _ _ _ pc todo | shutdownFirst _ _ _ _ pc todo
  | shutdownAgain _ _ _ _ pc todo | signalled _ _ _ _ pc todo | stale _ _ _ _ pc todo
  | event _ _ _ _ _ pc todo | ready _ _ pc todo | interest _ _ pc todo =>
    simp [tableEvents, pc, todo]
  | _ => simp [tableEvents, *]

theorem finished_of_loop (hs : LoopStep config fds s o s') (h : s'.loop = .finished) :
    s.loop = .next ∧ s.todo = [] ∧ s.leaving = true ∧ o = .internal ∧ s' = s.closeAll := by
  have hnone : s'.loop.handles = none := by rw [h]; rfl
  cases hs with
  | finish pc todo leaving => exact ⟨pc, todo, leaving, rfl, rfl⟩
  | endBatch | drainPool | drainInflight | drainPending =>
    dsimp only at h
    split at h <;> cases h
  | ready | busy | immediate | closedBefore | close =>
    dsimp only at h
    split at h <;> cases h
  | closeCheck c =>
    dsimp only at hnone
    rw [apply_ite Loop.handles, handles_updateInterest] at hnone
    split at hnone <;> cases hnone
  | event | interest | flushed | sendAgain => simp at hnone
  | _ => simp_all [leave, openConnection]

theorem table_loop (hs : LoopStep config fds s o s') :
    TableStep config fds s (.loop o) s' (s.tableEvents config (.loop o)) := by
  by_cases hrun : s'.loop = .finished
  · obtain ⟨pc, todo, leaving, rfl, rfl⟩ := finished_of_loop hs hrun
    have hevents : s.tableEvents config (.loop .internal) =
        s.connections.map (fun p => .closed p.2) := by
      simp [tableEvents, pc, todo, leaving]
    rw [hevents]
    exact .finished pc todo leaving
  by_cases hopen : s'.nextConnectionId = s.nextConnectionId
  · by_cases hclose : ∃ c m, s.loop = .close c m
    · obtain ⟨c, m, pc⟩ := hclose
      have mentions := mentions_of_next hs hopen
      cases hs with
      | closedBefore d malformed pc' closed =>
        have hevents : s.tableEvents config (.loop .internal) = [] := by
          simp [tableEvents, pc', closed]
        rw [hevents]
        exact .steady ⟨rfl, closed_setConn rfl, rfl, Nat.le_refl _, mentions,
          fun h => absurd h hrun⟩
      | close d malformed pc' opened =>
        have hevents : s.tableEvents config (.loop .internal) = [.closed d] := by
          simp [tableEvents, pc', opened]
        rw [hevents]
        refine .closed pc' opened ?_ rfl rfl rfl mentions rfl
        intro d
        dsimp only
        rw [setConn_apply]
        split <;> rfl
      | _ => simp_all
    · have hclose' : ∀ c m, s.loop ≠ .close c m := fun c m h => hclose ⟨c, m, h⟩
      rw [tableEvents_of_steady hs hclose' hopen hrun]
      exact .steady (steady_of_loop hs hclose' hopen hrun)
  · cases hs with
    | opened fd pc free room =>
      have hevents : s.tableEvents config (.loop (.client fd true)) =
          [.opened s.nextConnectionId] := by
        simp [tableEvents, pc, room]
      rw [hevents]
      exact .opened pc free room
    | addFailed fd pc =>
      have hevents : s.tableEvents config (.loop (.client fd false)) = [] := by
        simp [tableEvents, pc]
      rw [hevents]
      exact .steady ⟨rfl, fun _ => rfl, rfl, Nat.le_succ _,
        fun _ hc => hc.same rfl rfl rfl rfl rfl (fun _ hl => hl), id⟩
    | _ => exact absurd rfl hopen

theorem table_step (hs : Step config fds s a s') :
    TableStep config fds s a s' (s.tableEvents config a) := by
  cases hs with
  | loop hl => exact table_loop hl
  | @worker w uptimeMs _ hw h =>
    have hevents : s.tableEvents config (.worker w uptimeMs) = [] := by simp [tableEvents]
    rw [hevents]
    exact .steady (steady_worker hw h)
  | requestShutdown =>
    have hevents : s.tableEvents config .requestShutdown = [] := by simp [tableEvents]
    rw [hevents]
    exact .steady ⟨rfl, fun _ => rfl, rfl, Nat.le_refl _,
      fun _ hc => hc.same rfl rfl rfl rfl rfl (fun _ hl => hl), id⟩

theorem loop_of_close {malformed : Bool} (hs : LoopStep config fds s o s')
    (pc : s.loop = .close c malformed) :
    s'.loop = if malformed then .flush c .done else .next := by
  cases hs <;> simp_all

theorem still_open (hs : LoopStep config fds s o s') (hrun : s'.loop ≠ .finished)
    (hkeep : ∀ m, s.loop ≠ .close c m) (hopen : (s.conn c).closed = false) :
    (s'.conn c).closed = false := by
  have hstep := table_loop hs
  generalize s.tableEvents config (.loop o) = events at hstep
  cases hstep with
  | steady hsteady => exact (hsteady.closed c).trans hopen
  | opened =>
    rw [openConnection]
    dsimp only
    rw [setConn_apply]
    split
    · rfl
    · exact hopen
  | @closed d m _ pc _ conn =>
    have hne : c ≠ d := by
      rintro rfl
      exact hkeep m pc
    rw [conn, if_neg hne]
    exact hopen
  | finished => exact absurd rfl hrun

abbrev Registry := Traced Server TableEvent

def Registry.start (config : ServerConfig) (fds : Descriptors) : Registry :=
  ⟨Server.start config fds, []⟩

def Registry.step (config : ServerConfig) (fds : Descriptors) : Registry → Action →
    Option Registry :=
  traced (Server.step config fds) (tableEvents config)

def Registry.opened (r : Registry) : List Nat := r.trace.filterMap TableEvent.opens

def Registry.closed (r : Registry) : List Nat := r.trace.filterMap TableEvent.closes

/-- What was opened is closed or in the table, once, and the counter says how many are in the
table. -/
structure Registered (config : ServerConfig) (r : Registry) : Prop where
  perm : r.opened.Perm (r.closed ++ r.state.connections.map Prod.snd)
  distinct : r.opened.Nodup
  known : ∀ c ∈ r.opened, c < r.state.nextConnectionId
  listed : ∀ c, Mentions config r.state c → (r.state.conn c).closed = false →
    c ∈ r.state.connections.map Prod.snd
  room : r.state.connections.length ≤ config.maxConnections.toNat
  active : r.state.stats.activeConnections = UInt64.ofNat r.state.connections.length
  finished : r.state.loop = .finished → r.state.connections = []

theorem registered_start (config : ServerConfig) (fds : Descriptors) :
    Registered config (Registry.start config fds) where
  perm := List.Perm.nil
  distinct := List.nodup_nil
  known := by intro c hc; cases hc
  listed := fun c hc _ => absurd hc (not_mentions_start config fds c)
  room := Nat.zero_le _
  active := rfl
  finished := by intro h; cases h

theorem active_closeAll (l : List (Nat × Nat)) (stats : ServerStats) :
    (l.foldl (fun stats _ => stats.connectionClosed) stats).activeConnections =
      stats.activeConnections - UInt64.ofNat l.length := by
  induction l generalizing stats with
  | nil => exact (UInt64.sub_zero _).symm
  | cons p l ih =>
    rw [List.foldl_cons, ih, List.length_cons, UInt64.ofNat_add]
    simp only [ServerStats.connectionClosed, UInt64.ofNat_one]
    grind

variable {r : Registry} {events : List TableEvent}

theorem Registered.steady (h : Registered config r) (hs : Steady config r.state s') :
    Registered config ⟨s', r.trace ++ []⟩ := by
  rw [List.append_nil]
  refine ⟨?_, h.distinct, ?_, ?_, ?_, ?_, ?_⟩
  · dsimp only
    rw [hs.table]
    exact h.perm
  · exact fun c hc => (h.known c hc).trans_le hs.next
  · intro c hc opened
    dsimp only at hc opened ⊢
    rw [hs.closed] at opened
    rw [hs.table]
    exact h.listed c (hs.mentions c hc) opened
  · dsimp only
    rw [hs.table]
    exact h.room
  · dsimp only
    rw [hs.table, hs.active]
    exact h.active
  · intro hl
    dsimp only
    rw [hs.table]
    exact h.finished (hs.running hl)

theorem registered_opened {fd : Nat} (h : Registered config r) (ht : r.state.Tabled config)
    (pc : r.state.loop = .accept) (free : r.state.fdOpen config fds fd = false)
    (room : r.state.connections.length < config.maxConnections.toNat) :
    Registered config
      ⟨r.state.openConnection config fd, r.trace ++ [.opened r.state.nextConnectionId]⟩ := by
  have htable := ht.openConnection_connections free
  have hopened : Registry.opened ⟨r.state.openConnection config fd,
      r.trace ++ [.opened r.state.nextConnectionId]⟩ = r.opened ++ [r.state.nextConnectionId] :=
    List.filterMap_append
  have hclosed : Registry.closed ⟨r.state.openConnection config fd,
      r.trace ++ [.opened r.state.nextConnectionId]⟩ = r.closed := by
    rw [Registry.closed, List.filterMap_append]
    exact List.append_nil _
  refine ⟨?_, ?_, ?_, ?_, ?_, ?_, ?_⟩
  · rw [hopened, hclosed, htable, List.map_cons]
    refine (h.perm.append_right _).trans ?_
    rw [List.append_assoc]
    exact (List.perm_append_singleton _ _).append_left _
  · rw [hopened]
    refine List.nodup_append.mpr ⟨h.distinct, List.nodup_singleton _, ?_⟩
    rintro c hc d hd rfl
    rw [List.mem_singleton.mp hd] at hc
    exact Nat.lt_irrefl _ (h.known _ hc)
  · rw [hopened]
    intro c hc
    obtain hc | hc := List.mem_append.mp hc
    · exact Nat.lt_succ_of_lt (h.known c hc)
    · rw [List.mem_singleton.mp hc]
      exact Nat.lt_succ_self _
  · intro c hc opened
    dsimp only
    rw [htable, List.map_cons]
    obtain hold | ⟨rfl, -⟩ := mentions_loop (.opened fd pc free room) hc
    · have hne : c ≠ r.state.nextConnectionId := Nat.ne_of_lt (ht.known hold)
      have hsame : (r.state.openConnection config fd).conn c = r.state.conn c :=
        setConn_of_ne hne _ _
      dsimp only at opened
      rw [hsame] at opened
      exact List.mem_cons_of_mem _ (h.listed c hold opened)
    · exact List.mem_cons_self
  · dsimp only
    rw [htable]
    exact room
  · dsimp only
    rw [htable, List.length_cons, UInt64.ofNat_add, ← h.active]
    rfl
  · intro hl
    have hloop : (r.state.openConnection config fd).loop = r.state.loop := rfl
    dsimp only at hl
    rw [hloop, pc] at hl
    cases hl

theorem registered_closed {malformed : Bool} (h : Registered config r)
    (ht : r.state.Tabled config) (pc : r.state.loop = .close c malformed)
    (opened : (r.state.conn c).closed = false)
    (conn : ∀ d, (s'.conn d).closed = if d = c then true else (r.state.conn d).closed)
    (table : s'.connections = Keyed.without Prod.fst (r.state.conn c).fd r.state.connections)
    (active : s'.stats.activeConnections = r.state.stats.activeConnections - 1)
    (next : s'.nextConnectionId = r.state.nextConnectionId)
    (mentions : ∀ d, Mentions config s' d → Mentions config r.state d)
    (loop : s'.loop = if malformed then .flush c .done else .next) :
    Registered config ⟨s', r.trace ++ [.closed c]⟩ := by
  have hc : c ∈ r.state.connections.map Prod.snd := h.listed c (.loop (by rw [pc]; rfl)) opened
  obtain ⟨⟨fd, d⟩, hmem, rfl⟩ := List.mem_map.mp hc
  have hfd : (r.state.conn d).fd = fd := (ht.entry hmem).1
  have hperm := Keyed.perm_cons_without ht.keys hmem
  dsimp only at hperm
  rw [hfd] at table
  rw [← table] at hperm
  have hids : (r.state.connections.map Prod.snd).Perm (d :: s'.connections.map Prod.snd) :=
    hperm.map Prod.snd
  have hlen : r.state.connections.length = s'.connections.length + 1 := hperm.length_eq
  have hopened : Registry.opened ⟨s', r.trace ++ [.closed d]⟩ = r.opened := by
    rw [Registry.opened, List.filterMap_append]
    exact List.append_nil _
  have hclosed : Registry.closed ⟨s', r.trace ++ [.closed d]⟩ = r.closed ++ [d] :=
    List.filterMap_append
  refine ⟨?_, ?_, ?_, ?_, ?_, ?_, ?_⟩
  · rw [hopened, hclosed, List.append_assoc]
    exact h.perm.trans (hids.append_left _)
  · rw [hopened]
    exact h.distinct
  · rw [hopened]
    dsimp only
    rw [next]
    exact h.known
  · intro e he hopen
    dsimp only at he hopen ⊢
    rw [conn] at hopen
    by_cases hed : e = d
    · rw [if_pos hed] at hopen
      cases hopen
    · rw [if_neg hed] at hopen
      have hin := hids.mem_iff.mp (h.listed e (mentions e he) hopen)
      exact (List.mem_cons.mp hin).resolve_left hed
  · have hroom := h.room
    dsimp only
    omega
  · dsimp only
    rw [active, h.active, hlen, UInt64.ofNat_add]
    exact UInt64.add_sub_cancel _ _
  · intro hl
    dsimp only at hl
    rw [loop] at hl
    cases malformed <;> cases hl

theorem registered_finished (h : Registered config r)
    (hs : LoopStep config fds r.state .internal r.state.closeAll) :
    Registered config
      ⟨r.state.closeAll, r.trace ++ r.state.connections.map (fun p => .closed p.2)⟩ := by
  have hopened : Registry.opened ⟨r.state.closeAll,
      r.trace ++ r.state.connections.map (fun p => .closed p.2)⟩ = r.opened := by
    rw [Registry.opened, List.filterMap_append, List.filterMap_map]
    simp [Registry.opened, TableEvent.opens, Function.comp_def]
  have hclosed : Registry.closed ⟨r.state.closeAll,
      r.trace ++ r.state.connections.map (fun p => .closed p.2)⟩ =
      r.closed ++ r.state.connections.map Prod.snd := by
    rw [Registry.closed, List.filterMap_append, List.filterMap_map]
    simp [Registry.closed, TableEvent.closes, Function.comp_def]
  refine ⟨?_, ?_, ?_, ?_, Nat.zero_le _, ?_, fun _ => rfl⟩
  · rw [hopened, hclosed, List.append_assoc]
    exact h.perm.trans (by rw [closeAll]; simp)
  · rw [hopened]
    exact h.distinct
  · rw [hopened]
    exact h.known
  · intro c hc hopen
    have hold : Mentions config r.state c := mentions_of_next hs rfl c hc
    have hany : r.state.connections.any (fun p => p.2 = c) = false := by
      cases hany : r.state.connections.any (fun p => p.2 = c) with
      | false => rfl
      | true => simp [closeAll, hany] at hopen
    have hstill : (r.state.conn c).closed = false := by
      simpa [closeAll, hany] using hopen
    obtain ⟨p, hp, rfl⟩ := List.mem_map.mp (h.listed c hold hstill)
    have hin : r.state.connections.any (fun q => q.2 = p.2) = true :=
      List.any_eq_true.mpr ⟨p, hp, decide_eq_true rfl⟩
    rw [hany] at hin
    cases hin
  · rw [closeAll]
    dsimp only
    rw [active_closeAll, h.active]
    exact UInt64.sub_self _

theorem step_registered (h : Registered config r) (ht : r.state.Tabled config)
    (hs : TableStep config fds r.state a s' events) :
    Registered config ⟨s', r.trace ++ events⟩ := by
  cases hs with
  | steady hs => exact h.steady hs
  | opened pc free room => exact registered_opened h ht pc free room
  | closed pc opened conn table active next mentions loop =>
    exact registered_closed h ht pc opened conn table active next mentions loop
  | finished pc todo leaving =>
    have hl : LoopStep config fds r.state .internal r.state.closeAll := .finish pc todo leaving
    exact registered_finished h hl

theorem reach_registered {r : Registry}
    (h : Reach (Registry.step config fds) Free (Registry.start config fds) r) :
    r.state.Core config ∧ Registered config r := by
  refine h.invariant (P := fun r => r.state.Core config ∧ Registered config r)
    ⟨core_start config fds, registered_start config fds⟩ ?_
  rintro r a ⟨s', trace⟩ ⟨hc, hr⟩ - hs
  obtain ⟨hstep, htrace⟩ := traced_eq_some hs
  dsimp only at hstep htrace
  have hs' := step_sound hstep
  rw [htrace]
  exact ⟨step_core hc hs', step_registered hr hc.tabled (table_step hs')⟩

/-- The table maps each descriptor to an open connection that owns it. No accepted descriptor
is a key already. The table stays within its limit, and the counter says how many entries it
has. A connection that was opened is counted as closed at most once, and when `run` is back
the table is empty. -/
theorem connection_table (config : ServerConfig) (fds : Descriptors) {r : Registry}
    (h : Reach (Registry.step config fds) Free (Registry.start config fds) r) :
    (r.state.connections.map Prod.fst).Nodup ∧
      (∀ fd c, (fd, c) ∈ r.state.connections →
        (r.state.conn c).fd = fd ∧ (r.state.conn c).closed = false) ∧
      (∀ c, (r.state.conn c).closed = true → c ∉ r.state.connections.map Prod.snd) ∧
      (∀ fd, r.state.fdOpen config fds fd = false → fd ∉ r.state.connections.map Prod.fst) ∧
      r.state.connections.length ≤ config.maxConnections.toNat ∧
      r.state.stats.activeConnections.toNat = r.state.connections.length ∧
      r.opened.Nodup ∧ r.closed.Nodup ∧ (∀ c ∈ r.closed, c ∈ r.opened) ∧
      (r.state.loop = .finished →
        r.state.connections = [] ∧ r.state.stats.activeConnections = 0) := by
  obtain ⟨hc, hr⟩ := reach_registered h
  have ht := hc.tabled
  have hlt : r.state.connections.length < 2 ^ 64 :=
    hr.room.trans_lt config.maxConnections.toNat_lt
  have hdistinct := hr.perm.nodup_iff.mp hr.distinct
  refine ⟨ht.keys, ?_, ?_, ?_, hr.room, ?_, hr.distinct, hdistinct.of_append_left, ?_, ?_⟩
  · intro fd c hmem
    exact ⟨(ht.entry hmem).1, (ht.entry hmem).2.1⟩
  · intro c hclosed hmem
    obtain ⟨⟨fd, d⟩, hd, rfl⟩ := List.mem_map.mp hmem
    rw [(ht.entry hd).2.1] at hclosed
    cases hclosed
  · intro fd free hmem
    obtain ⟨⟨fd', c⟩, hd, rfl⟩ := List.mem_map.mp hmem
    exact ht.fd_free free (.table hd) (ht.entry hd).1
  · rw [hr.active, UInt64.toNat_ofNat', Nat.mod_eq_of_lt hlt]
  · intro c hclosed
    exact hr.perm.mem_iff.mpr (List.mem_append_left _ hclosed)
  · intro hl
    have hnil := hr.finished hl
    rw [hr.active, hnil]
    exact ⟨rfl, rfl⟩

theorem connection_table_hangup :
    ∃ r : Registry, Reach (Registry.step usualConfig usualFds) Free
      (Registry.start usualConfig usualFds) r ∧ r.closed = [1] ∧
      r.state.connections = [(8, 2)] ∧ r.state.stats.activeConnections.toNat = 1 := by
  obtain ⟨r, hr, hclosed, htable⟩ := exists_reach (Registry.step usualConfig usualFds)
    (Registry.start usualConfig usualFds)
    (connect 7 ++ connect 8 ++ [.loop (.batch [(7, { epollhup := true })]), .loop .internal,
      .loop .internal])
    (fun r => r.closed = [1] ∧ r.state.connections = [(8, 2)]) (by decide +kernel)
  refine ⟨r, hr, hclosed, htable, ?_⟩
  rw [(connection_table usualConfig usualFds hr).2.2.2.2.2.1, htable]
  rfl

end Server

end LocalCache
