import LocalCache.ServerReferences
import LocalCache.ConnectionFrames

namespace LocalCache.Server

open Protocol Serializer Library Transition

/-- The table, the kernel's interest set and the connection objects agree, and a descriptor
number is shared with no object that is still referenced. -/
structure Tabled (config : ServerConfig) (s : Server) : Prop where
  keys : (s.connections.map Prod.fst).Nodup
  entry : ∀ {fd c}, (fd, c) ∈ s.connections → (s.conn c).fd = fd ∧ (s.conn c).closed = false ∧
    s.epollSet fd = some (s.conn c).registeredEvents
  interest : s.loop ≠ .finished → ∀ fd, (s.epollSet fd).isSome = true →
    fd ∈ s.connections.map Prod.fst
  known : ∀ {c}, Mentions config s c → c < s.nextConnectionId
  fresh : ∀ c, s.nextConnectionId ≤ c →
    s.conn c = { fd := 0, limits := config.connectionLimits }
  distinct : ∀ {fd c d}, Mentions config s c → (fd, d) ∈ s.connections → (s.conn c).fd = fd →
    c = d

variable {config : ServerConfig} {fds : Descriptors} {s s' : Server} {a : Action} {o : Outcome}
  {w c : Nat}

theorem not_mentions_start (config : ServerConfig) (fds : Descriptors) (c : Nat) :
    ¬Mentions config (start config fds) c := by
  intro h
  cases h with
  | table h => cases h
  | queue h => cases h
  | worker hw h => cases h
  | ready h => cases h
  | todo h hi => cases h
  | loop h => cases h

theorem tabled_start (config : ServerConfig) (fds : Descriptors) :
    (start config fds).Tabled config where
  keys := List.nodup_nil
  entry := by intro fd c h; cases h
  interest := by intro _ fd h; cases h
  known := fun h => absurd h (not_mentions_start config fds _)
  fresh := fun _ _ => rfl
  distinct := by intro fd c d _ h; cases h

theorem Tabled.frame (h : s.Tabled config) (table : s'.connections = s.connections)
    (epoll : s'.epollSet = s.epollSet) (next : s'.nextConnectionId = s.nextConnectionId)
    (same : ∀ c, (s.conn c).SameId (s'.conn c))
    (fresh : ∀ c, s.nextConnectionId ≤ c → s'.conn c = s.conn c)
    (mentions : ∀ c, Mentions config s' c → Mentions config s c)
    (running : s'.loop ≠ .finished → s.loop ≠ .finished) : s'.Tabled config where
  keys := table ▸ h.keys
  entry := by
    intro fd c hc
    rw [table] at hc
    rw [(same c).fd, (same c).closed, (same c).events, epoll]
    exact h.entry hc
  interest := by
    intro hl
    rw [epoll, table]
    exact h.interest (running hl)
  known := by
    rw [next]
    exact fun hc => h.known (mentions _ hc)
  fresh := by
    intro c hc
    rw [next] at hc
    rw [fresh c hc]
    exact h.fresh c hc
  distinct := by
    intro fd c d hc hd hfd
    rw [table] at hd
    rw [(same c).fd] at hfd
    exact h.distinct (mentions c hc) hd hfd

theorem Tabled.update {x : Connection} (h : s.Tabled config) (hc : Mentions config s c)
    (conn : s'.conn = s.setConn c x) (same : (s.conn c).SameId x)
    (table : s'.connections = s.connections) (epoll : s'.epollSet = s.epollSet)
    (next : s'.nextConnectionId = s.nextConnectionId)
    (mentions : ∀ c, Mentions config s' c → Mentions config s c)
    (running : s'.loop ≠ .finished → s.loop ≠ .finished) : s'.Tabled config := by
  refine h.frame table epoll next ?_ ?_ mentions running
  · intro d
    rw [conn, setConn_apply]
    by_cases hd : d = c
    · rw [if_pos hd, hd]
      exact same
    · rw [if_neg hd]
      exact .refl _
  · intro d hd
    rw [conn, setConn_of_ne]
    rintro rfl
    exact Nat.not_le.mpr (h.known hc) hd

theorem ne_finished_of_handles (hc : s.loop.handles = some c) : s.loop ≠ .finished := by
  intro hl
  rw [hl] at hc
  cases hc

theorem tabled_worker (h : s.Tabled config) (hw : w < config.workerThreads.toNat)
    (hs : WorkerStep s w s') : s'.Tabled config := by
  have mentions : ∀ c, Mentions config s' c → Mentions config s c :=
    fun c hc => mentions_worker hw hs hc
  have key : ∀ d, (s.worker w).holds = some d → Mentions config s d := fun d hd => .worker hw hd
  cases hs with
  | discard job pc =>
    exact h.update (key _ (by rw [pc]; rfl)) rfl ⟨rfl, rfl, rfl⟩ rfl rfl rfl mentions id
  | stage job response overLimit x pc hx =>
    exact h.update (key _ (by rw [pc]; rfl)) rfl (.of_stage hx) rfl rfl rfl mentions id
  | decrement d healthy pc =>
    exact h.update (key _ (by rw [pc]; rfl)) rfl ⟨rfl, rfl, rfl⟩ rfl rfl rfl mentions id
  | unhealthy d pc =>
    exact h.update (key _ (by rw [pc]; rfl)) rfl ⟨rfl, rfl, rfl⟩ rfl rfl rfl mentions id
  | notify d pc =>
    exact h.update (key _ (by rw [pc]; rfl)) rfl ⟨rfl, rfl, rfl⟩ rfl rfl rfl mentions id
  | _ => exact h.frame rfl rfl rfl (fun _ => .refl _) (fun _ _ => rfl) mentions id

theorem Tabled.fd_free (h : s.Tabled config) {fd : Nat} (free : s.fdOpen config fds fd = false)
    (hc : Mentions config s c) : (s.conn c).fd ≠ fd := by
  intro hfd
  have hopen : s.fdOpen config fds fd = true := by
    simp only [fdOpen, Bool.or_eq_true]
    right
    rw [List.any_eq_true]
    refine ⟨c, List.mem_range.mpr (h.known hc), ?_⟩
    rw [hc.referenced, Bool.and_true, decide_eq_true hfd]
  rw [free] at hopen
  cases hopen

theorem Tabled.findConnection_free (h : s.Tabled config) {fd : Nat}
    (free : s.fdOpen config fds fd = false) : s.findConnection fd = none := by
  cases hf : s.findConnection fd with
  | none => rfl
  | some c =>
    have hm := findConnection_mem hf
    exact absurd (h.entry hm).1 (h.fd_free free (.table hm))

theorem Tabled.ids_nodup (h : s.Tabled config) : (s.connections.map Prod.snd).Nodup := by
  have hfds : (s.connections.map Prod.snd).map (fun c => (s.conn c).fd) =
      s.connections.map Prod.fst := by
    rw [List.map_map]
    apply List.map_congr_left
    rintro ⟨fd, c⟩ hc
    exact (h.entry hc).1
  exact List.Nodup.of_map (fun c => (s.conn c).fd) (hfds ▸ h.keys)

theorem openConnection_conn (config : ServerConfig) (s : Server) (fd : Nat) :
    (s.openConnection config fd).conn s.nextConnectionId =
      { fd := fd, limits := config.connectionLimits,
        registeredEvents := { kBaseConnectionEvents with epollin := true } } :=
  setConn_same s _ _

theorem Tabled.openConnection_connections (h : s.Tabled config) {fd : Nat}
    (free : s.fdOpen config fds fd = false) :
    (s.openConnection config fd).connections = (fd, s.nextConnectionId) :: s.connections := by
  rw [openConnection, h.findConnection_free free]
  rfl

theorem Tabled.opened (h : s.Tabled config) {fd : Nat} (pc : s.loop = .accept)
    (free : s.fdOpen config fds fd = false)
    (mentions : ∀ c, Mentions config (s.openConnection config fd) c →
      Mentions config s c ∨ c = s.nextConnectionId) :
    (s.openConnection config fd).Tabled config := by
  have hconn := h.openConnection_connections free
  have hold : ∀ {fd' c}, (fd', c) ∈ s.connections →
      (s.openConnection config fd).conn c = s.conn c ∧ fd' ≠ fd := by
    intro fd' c hc
    have hne : c ≠ s.nextConnectionId := Nat.ne_of_lt (h.known (.table hc))
    refine ⟨setConn_of_ne hne s _, ?_⟩
    rw [← (h.entry hc).1]
    exact h.fd_free free (.table hc)
  have hnew := openConnection_conn config s fd
  have hevents : ∀ {fd'}, fd' ≠ fd → (s.openConnection config fd).epollSet fd' = s.epollSet fd' :=
    fun hne => Function.update_of_ne hne _ _
  refine ⟨?_, ?_, ?_, ?_, ?_, ?_⟩
  · rw [hconn, List.map_cons, List.nodup_cons]
    refine ⟨?_, h.keys⟩
    intro hmem
    obtain ⟨⟨fd', c⟩, hc, rfl⟩ := List.mem_map.mp hmem
    exact (hold hc).2 rfl
  · intro fd' c hc
    rw [hconn] at hc
    obtain hc | hc := List.mem_cons.mp hc
    · cases hc
      rw [hnew]
      exact ⟨rfl, rfl, Function.update_self _ _ _⟩
    · rw [(hold hc).1, hevents (hold hc).2]
      exact h.entry hc
  · intro _ fd' hfd'
    rw [hconn, List.map_cons]
    by_cases hne : fd' = fd
    · exact hne ▸ List.mem_cons_self
    · rw [hevents hne] at hfd'
      exact List.mem_cons_of_mem _ (h.interest (by rw [pc]; simp) fd' hfd')
  · intro c hc
    obtain hc | rfl := mentions c hc
    · exact Nat.lt_succ_of_lt (h.known hc)
    · exact Nat.lt_succ_self _
  · intro c hc
    have hlt : s.nextConnectionId < c := hc
    have hold' : (s.openConnection config fd).conn c = s.conn c :=
      setConn_of_ne (Nat.ne_of_gt hlt) s _
    rw [hold']
    exact h.fresh c (Nat.le_of_lt hlt)
  · intro fd' c d hc hd hfd'
    rw [hconn] at hd
    obtain hm | rfl := mentions c hc
    · have hne : c ≠ s.nextConnectionId := Nat.ne_of_lt (h.known hm)
      have hcold : (s.openConnection config fd).conn c = s.conn c := setConn_of_ne hne s _
      rw [hcold] at hfd'
      obtain hd | hd := List.mem_cons.mp hd
      · cases hd
        exact absurd hfd' (h.fd_free free hm)
      · exact h.distinct hm hd hfd'
    · rw [hnew] at hfd'
      obtain hd | hd := List.mem_cons.mp hd
      · cases hd
        rfl
      · exact absurd hfd'.symm (hold hd).2

theorem Tabled.handled {x : Connection} (h : s.Tabled config) (hc : s.loop.handles = some c)
    (conn : s'.conn = s.setConn c x) (same : (s.conn c).SameId x)
    (table : s'.connections = s.connections) (epoll : s'.epollSet = s.epollSet)
    (next : s'.nextConnectionId = s.nextConnectionId)
    (mentions : ∀ c, Mentions config s' c → Mentions config s c) : s'.Tabled config :=
  h.update (.loop hc) conn same table epoll next mentions
    (fun _ => ne_finished_of_handles hc)

theorem Tabled.close {x : Connection} (h : s.Tabled config) (hc : s.loop.handles = some c)
    (conn : s'.conn = s.setConn c x) (hfd : x.fd = (s.conn c).fd)
    (table : s'.connections = Keyed.without Prod.fst (s.conn c).fd s.connections)
    (epoll : s'.epollSet = Function.update s.epollSet (s.conn c).fd none)
    (next : s'.nextConnectionId = s.nextConnectionId)
    (mentions : ∀ c, Mentions config s' c → Mentions config s c) : s'.Tabled config := by
  have running := ne_finished_of_handles hc
  have hfds : ∀ d, (s'.conn d).fd = (s.conn d).fd := by
    intro d
    rw [conn, setConn_apply]
    split
    · rename_i hd
      rw [hfd, hd]
    · rfl
  have hkeep : ∀ {fd d}, (fd, d) ∈ s'.connections →
      (fd, d) ∈ s.connections ∧ fd ≠ (s.conn c).fd ∧ s'.conn d = s.conn d := by
    intro fd d hd
    rw [table] at hd
    obtain ⟨hmem, hne⟩ := Keyed.mem_without.mp hd
    refine ⟨hmem, hne, ?_⟩
    rw [conn, setConn_of_ne]
    rintro rfl
    exact hne (h.entry hmem).1.symm
  refine ⟨?_, ?_, ?_, ?_, ?_, ?_⟩
  · rw [table]
    exact h.keys.sublist ((Keyed.without_sublist _ _).map _)
  · intro fd d hd
    obtain ⟨hd, hne, hsame⟩ := hkeep hd
    rw [hsame, epoll, Function.update_of_ne hne]
    exact h.entry hd
  · intro _ fd hsome
    rw [epoll] at hsome
    by_cases hne : fd = (s.conn c).fd
    · rw [hne, Function.update_self] at hsome
      cases hsome
    · rw [Function.update_of_ne hne] at hsome
      obtain ⟨p, hp, rfl⟩ := List.mem_map.mp (h.interest running fd hsome)
      rw [table]
      exact List.mem_map_of_mem (Keyed.mem_without.mpr ⟨hp, hne⟩)
  · rw [next]
    exact fun hd => h.known (mentions _ hd)
  · intro d hd
    rw [next] at hd
    rw [conn, setConn_of_ne]
    · exact h.fresh d hd
    · rintro rfl
      exact Nat.not_le.mpr (h.known (.loop hc)) hd
  · intro fd d e hd he hfd'
    rw [hfds] at hfd'
    exact h.distinct (mentions d hd) (hkeep he).1 hfd'

theorem Tabled.mem_of_interest (h : s.Tabled config) (hc : s.loop.handles = some c)
    (known : (s.epollSet (s.conn c).fd).isSome = true) :
    ((s.conn c).fd, c) ∈ s.connections := by
  have running := ne_finished_of_handles hc
  obtain ⟨⟨fd, d⟩, hd, hfd⟩ := List.mem_map.mp (h.interest running _ known)
  have hfd' : fd = (s.conn c).fd := hfd
  rw [← hfd']
  rwa [h.distinct (.loop hc) hd hfd'.symm]

theorem Tabled.register {events : Events} (h : s.Tabled config)
    (hc : s.loop.handles = some c) (known : (s.epollSet (s.conn c).fd).isSome = true)
    (conn : s'.conn = s.setConn c { s.conn c with registeredEvents := events })
    (table : s'.connections = s.connections)
    (epoll : s'.epollSet = Function.update s.epollSet (s.conn c).fd (some events))
    (next : s'.nextConnectionId = s.nextConnectionId)
    (mentions : ∀ c, Mentions config s' c → Mentions config s c) : s'.Tabled config := by
  have running := ne_finished_of_handles hc
  have hmem := h.mem_of_interest hc known
  have hfds : ∀ d, (s'.conn d).fd = (s.conn d).fd := by
    intro d
    rw [conn, setConn_apply]
    split
    · rename_i hd
      rw [hd]
    · rfl
  refine ⟨table ▸ h.keys, ?_, ?_, ?_, ?_, ?_⟩
  · intro fd d hd
    rw [table] at hd
    by_cases hdc : d = c
    · subst hdc
      obtain ⟨hfd, hclosed, -⟩ := h.entry hd
      rw [conn, setConn_same, epoll, hfd, Function.update_self]
      exact ⟨rfl, hclosed, rfl⟩
    · have hne : fd ≠ (s.conn c).fd := fun he => hdc (h.distinct (.loop hc) hd he.symm).symm
      rw [conn, setConn_of_ne hdc, epoll, Function.update_of_ne hne]
      exact h.entry hd
  · intro _ fd hsome
    rw [table]
    by_cases hne : fd = (s.conn c).fd
    · rw [hne]
      exact List.mem_map_of_mem hmem
    · rw [epoll, Function.update_of_ne hne] at hsome
      exact h.interest running fd hsome
  · rw [next]
    exact fun hd => h.known (mentions _ hd)
  · intro d hd
    rw [next] at hd
    rw [conn, setConn_of_ne]
    · exact h.fresh d hd
    · rintro rfl
      exact Nat.not_le.mpr (h.known (.loop hc)) hd
  · intro fd d e hd he hfd
    rw [table] at he
    rw [hfds] at hfd
    exact h.distinct (mentions d hd) he hfd

theorem tabled_loop (h : s.Tabled config) (hs : LoopStep config fds s o s') :
    s'.Tabled config := by
  have mentions := fun c (hc : Mentions config s' c) => mentions_loop hs hc
  have old : s'.nextConnectionId = s.nextConnectionId →
      ∀ c, Mentions config s' c → Mentions config s c := by
    intro hn c hc
    refine (mentions c hc).resolve_right (fun hlt => ?_)
    rw [hn] at hlt
    exact Nat.lt_irrefl _ hlt.2
  cases hs with
  | opened fd pc free room =>
    exact h.opened pc free (fun c hc => (mentions c hc).imp id And.left)
  | close c malformed pc =>
    exact h.close (by rw [pc]; rfl) rfl rfl rfl rfl rfl (old rfl)
  | register c epollin pc known =>
    exact h.register (by rw [pc]; rfl) known rfl rfl rfl rfl (old rfl)
  | finish pc =>
    have hfresh : ∀ c, s.nextConnectionId ≤ c → s.closeAll.conn c = s.conn c := by
      intro c hc
      rw [closeAll]
      dsimp only
      rw [if_neg]
      intro hany
      obtain ⟨p, hp, he⟩ := List.any_eq_true.mp hany
      have hlt := h.known (.table (show (p.1, p.2) ∈ s.connections from hp))
      rw [of_decide_eq_true he] at hlt
      omega
    refine ⟨List.nodup_nil, ?_, fun hl => absurd rfl hl, fun hc => h.known (old rfl _ hc), ?_, ?_⟩
    · intro fd c hc
      cases hc
    · intro c hc
      rw [hfresh c hc]
      exact h.fresh c hc
    · intro fd c d _ hd
      cases hd
  | addFailed fd pc =>
    refine ⟨h.keys, h.entry, h.interest, ?_, ?_, ?_⟩
    · intro c hc
      obtain hc | hc := mentions c hc
      · exact Nat.lt_succ_of_lt (h.known hc)
      · exact hc.1 ▸ Nat.lt_succ_self _
    · intro c hc
      exact h.fresh c (Nat.le_of_succ_le hc)
    · intro fd c d hc hd hfd
      exact h.distinct (hc.same rfl rfl rfl rfl rfl (fun _ hl => hl)) hd hfd
  | ready c rest pc todo =>
    exact h.update (.todo (todo ▸ List.mem_cons_self) rfl) rfl ⟨rfl, rfl, rfl⟩ rfl rfl rfl
      (old rfl) (fun _ hl => by rw [pc] at hl; cases hl)
  | flushMore c k x pc hr | flushed c k x pc hr =>
    exact h.handled (by rw [pc]; rfl) rfl (.of_refill hr) rfl rfl rfl (old rfl)
  | needMore c out x error n pc room hn =>
    exact h.handled (by rw [pc]; rfl) rfl (.of_nextRequest hn) rfl rfl rfl (old rfl)
  | malformed c out x error n id opcode pc room hn =>
    exact h.handled (by rw [pc]; rfl) rfl (.of_nextRequest hn) rfl rfl rfl (old rfl)
  | unidentified c out x error n pc room hn =>
    obtain ⟨hfd, hcl, hev⟩ := Connection.SameId.of_nextRequest hn
    exact h.handled (by rw [pc]; rfl) rfl ⟨hfd, hcl, hev⟩ rfl rfl rfl (old rfl)
  | submit c request x error n pc room hn | refuse c request x error n pc room hn =>
    obtain ⟨hfd, hcl, hev⟩ := Connection.SameId.of_nextRequest hn
    exact h.handled (by rw [pc]; rfl) rfl ⟨hfd, hcl, hev⟩ rfl rfl rfl (old rfl)
  | busy job ok x pc he =>
    exact h.handled (by rw [pc]; rfl) rfl (.of_enqueueResponse he) rfl rfl rfl (old rfl)
  | immediate c response ok x pc he =>
    obtain ⟨hfd, hcl, hev⟩ := Connection.SameId.of_enqueueResponse he
    refine h.handled (by rw [pc]; rfl) rfl ?_ rfl rfl rfl (old rfl)
    cases ok <;> exact ⟨hfd, hcl, hev⟩
  | sent c _ _ pc | readData c _ pc | closedBefore c _ pc =>
    exact h.handled (by rw [pc]; rfl) rfl ⟨rfl, rfl, rfl⟩ rfl rfl rfl (old rfl)
  | _ =>
    refine h.frame rfl rfl rfl (fun _ => .refl _) (fun _ _ => rfl) (old rfl) ?_
    simp_all

theorem step_tabled (h : s.Tabled config) (hs : Step config fds s a s') : s'.Tabled config := by
  cases hs with
  | loop hl => exact tabled_loop h hl
  | worker hw hs => exact tabled_worker h hw hs
  | requestShutdown =>
    exact h.frame rfl rfl rfl (fun _ => .refl _) (fun _ _ => rfl)
      (fun _ hc => hc.same rfl rfl rfl rfl rfl (fun _ hl => hl)) id

end LocalCache.Server
