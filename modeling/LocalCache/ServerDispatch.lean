import LocalCache.ServerRequests

namespace LocalCache.Server

open Protocol Serializer Library Transition

def Reserved (fds : Descriptors) (s : Server) (fd : Nat) : Prop :=
  s.listenFd = some fd ∨ fd = fds.completion ∨ fd = fds.shutdown ∨ fds.signal = some fd

def descriptor : Item → Option Nat
  | .event fd _ _ => some fd
  | .ready _ | .interest _ => none

/-- The condition on a connection that is entered: no event of the current batch is still waiting
under its descriptor number. -/
def FreshDescriptor (config : ServerConfig) (s : Server) (a : Action) : Prop :=
  match a with
  | .loop (.client fd true) =>
    s.connections.length < config.maxConnections.toNat → ∀ i ∈ s.todo, descriptor i ≠ some fd
  | _ => True

instance (config : ServerConfig) (s : Server) (a : Action) :
    Decidable (s.FreshDescriptor config a) := by
  unfold FreshDescriptor
  split <;> infer_instance

/-- The events left in a batch belong to the connections they were reported for. -/
structure Owned (fds : Descriptors) (s : Server) : Prop where
  apart : ∀ {fd c}, (fd, c) ∈ s.connections → ¬s.Reserved fds fd
  owner : ∀ {fd events c}, .event fd events (some c) ∈ s.todo →
    ¬s.Reserved fds fd ∧ ((fd, c) ∈ s.connections ∨ (s.conn c).closed = true)
  current : ∀ {fd events owner c}, .event fd events owner ∈ s.todo →
    (fd, c) ∈ s.connections → owner = some c

variable {config : ServerConfig} {fds : Descriptors} {s s' : Server} {a : Action} {o : Outcome}
  {w c : Nat}

theorem Owned.frame (h : s.Owned fds) (table : ∀ p ∈ s'.connections, p ∈ s.connections)
    (gone : ∀ fd c, (fd, c) ∈ s.connections →
      (fd, c) ∈ s'.connections ∨ (s'.conn c).closed = true)
    (closed : ∀ c, (s.conn c).closed = true → (s'.conn c).closed = true)
    (todo : ∀ fd events owner, .event fd events owner ∈ s'.todo →
      .event fd events owner ∈ s.todo)
    (listen : ∀ fd, s'.listenFd = some fd → s.listenFd = some fd) : s'.Owned fds := by
  have reserved : ∀ fd, s'.Reserved fds fd → s.Reserved fds fd :=
    fun fd hr => hr.imp (listen fd) id
  refine ⟨fun hc hr => h.apart (table _ hc) (reserved _ hr), ?_,
    fun hi hc => h.current (todo _ _ _ hi) (table _ hc)⟩
  intro fd events c hi
  obtain ⟨hfd, hc⟩ := h.owner (todo _ _ _ hi)
  refine ⟨fun hr => hfd (reserved _ hr), ?_⟩
  obtain hc | hc := hc
  · exact gone fd c hc
  · exact .inr (closed c hc)

theorem not_reserved_of_free {fd : Nat} (free : s.fdOpen config fds fd = false) :
    ¬s.Reserved fds fd := by
  intro hr
  have hopen : s.fdOpen config fds fd = true := by
    simp only [fdOpen, Bool.or_eq_true, decide_eq_true_eq]
    obtain hr | hr | hr | hr := hr
    · exact .inl (.inl (.inl (.inl (.inl (.inl hr)))))
    · exact .inl (.inl (.inl (.inr hr)))
    · exact .inl (.inl (.inl (.inl (.inr hr))))
    · exact .inl (.inl (.inr hr))
  rw [free] at hopen
  cases hopen

theorem owned_harvest {events : List (Nat × Events)} (h : s.Owned fds) (ht : s.Tabled config) :
    Owned fds { s with todo := events.map s.harvest, loop := .next } := by
  refine ⟨h.apart, ?_, ?_⟩
  · intro fd e c hi
    obtain ⟨p, -, hp⟩ := List.mem_map.mp hi
    obtain ⟨rfl, -, hfind⟩ := Item.event.inj hp
    have hc := findConnection_mem hfind
    exact ⟨h.apart hc, .inl hc⟩
  · intro fd e owner c hi hc
    obtain ⟨p, -, hp⟩ := List.mem_map.mp hi
    obtain ⟨rfl, -, rfl⟩ := Item.event.inj hp
    rw [findConnection, Keyed.find_of_mem ht.keys hc]
    rfl

theorem owned_loop (h : s.Owned fds) (ht : s.Tabled config)
    (fresh : s.FreshDescriptor config (.loop o)) (hs : LoopStep config fds s o s') :
    s'.Owned fds := by
  have closed : ∀ c, (s.conn c).closed = true → (s'.conn c).closed = true :=
    fun c hc => step_closed ht (.loop hs) hc
  cases hs with
  | harvest events pc => exact owned_harvest h ht
  | opened fd pc free room =>
    have hconn := ht.openConnection_connections free
    refine ⟨?_, ?_, ?_⟩
    · intro fd' c hc
      rw [hconn] at hc
      obtain hc | hc := List.mem_cons.mp hc
      · cases hc
        have hfd := not_reserved_of_free free
        exact hfd
      · exact h.apart hc
    · intro fd' e c hi
      obtain ⟨hfd, hc⟩ := h.owner hi
      refine ⟨hfd, hc.imp (fun hc => ?_) (closed c)⟩
      rw [hconn]
      exact List.mem_cons_of_mem _ hc
    · intro fd' e owner c hi hc
      rw [hconn] at hc
      obtain hc | hc := List.mem_cons.mp hc
      · cases hc
        exact absurd rfl (fresh room _ hi)
      · exact h.current hi hc
  | close c malformed pc =>
    refine h.frame (fun _ hp => (Keyed.mem_without.mp hp).1) ?_ closed (fun _ _ _ hi => hi)
      (fun _ hl => hl)
    intro fd d hd
    by_cases hfd : fd = (s.conn c).fd
    · right
      rw [← ht.distinct (.loop (by rw [pc]; rfl)) hd hfd.symm]
      dsimp only
      rw [setConn_same]
    · exact .inl (Keyed.mem_without.mpr ⟨hd, hfd⟩)
  | finish pc =>
    refine h.frame (fun _ hp => by cases hp) ?_ closed (fun _ _ _ hi => hi) (fun _ hl => hl)
    intro fd c hc
    right
    rw [closeAll]
    dsimp only
    rw [if_pos (List.any_eq_true.mpr ⟨_, hc, decide_eq_true rfl⟩)]
  | drainSwap pc =>
    refine h.frame (fun _ hp => hp) (fun _ _ hc => .inl hc) closed ?_ (fun _ hl => hl)
    intro fd e owner hi
    refine (List.mem_append.mp hi).resolve_left (fun hi => ?_)
    obtain ⟨d, -, hd⟩ := List.mem_map.mp hi
    cases hd
  | shutdownFirst fd events owner rest pc todo =>
    refine h.frame (fun _ hp => hp) (fun _ _ hc => .inl hc) closed ?_ (fun _ hl => by cases hl)
    intro fd e owner hi
    obtain hi | hi := List.mem_append.mp hi
    · obtain ⟨d, -, hd⟩ := List.mem_map.mp hi
      cases hd
    · rw [todo]
      exact List.mem_cons_of_mem _ hi
  | _ =>
    refine h.frame (fun _ hp => hp) (fun _ _ hc => .inl hc) closed ?_ ?_ <;> simp_all [leave]

theorem owned_step (h : s.Owned fds) (ht : s.Tabled config) (fresh : s.FreshDescriptor config a)
    (hs : Step config fds s a s') : s'.Owned fds := by
  have closed : ∀ c, (s.conn c).closed = true → (s'.conn c).closed = true :=
    fun c hc => step_closed ht hs hc
  cases hs with
  | loop hl => exact owned_loop h ht fresh hl
  | worker hw hs =>
    cases hs <;> exact h.frame (fun _ hp => hp) (fun _ _ hc => .inl hc) closed
      (fun _ _ _ hi => hi) (fun _ hl => hl)
  | requestShutdown =>
    exact h.frame (fun _ hp => hp) (fun _ _ hc => .inl hc) closed (fun _ _ _ hi => hi)
      (fun _ hl => hl)

theorem owned_start (config : ServerConfig) (fds : Descriptors) :
    (start config fds).Owned fds :=
  ⟨(fun hc => by cases hc), (fun hi => by cases hi), (fun hi => by cases hi)⟩

/-- In a run in which no connection is entered under a descriptor number with an event waiting in
the same batch, an event is handled on the connection it was reported for, or dropped because that
one is closed. -/
theorem event_for_its_connection (config : ServerConfig) (fds : Descriptors) {s s' : Server}
    {fd : Nat} {events : Events} {owner : Option Nat} {rest : List Item}
    (h : Reach (step config fds) (FreshDescriptor config) (start config fds) s)
    (pc : s.loop = .next) (todo : s.todo = .event fd events owner :: rest)
    (hs : step config fds s (.loop .internal) = some s') :
    (∀ c, s'.loop.handles = some c → owner = some c) ∧
      (∀ c, owner = some c → s'.loop = s.connectionEvent c events ∨
        (s.conn c).closed = true ∧ s'.loop = .next) := by
  have ht := (reach_core h).tabled
  have hp : s.Owned fds := core_invariant (P := Owned fds) (owned_start config fds)
    (fun _ _ _ hc fresh hp hs => owned_step hp hc.tabled fresh hs) h
  have hi : .event fd events owner ∈ s.todo := todo ▸ List.mem_cons_self
  have hnext : s.loop.handles = none := by rw [pc]; rfl
  -- A descriptor of the server's own has no owner, and its event starts no handling.
  have special (hr : s.Reserved fds fd) (hn : s'.loop.handles = none) :
      (∀ c, s'.loop.handles = some c → owner = some c) ∧
        (∀ c, owner = some c → s'.loop = s.connectionEvent c events ∨
          (s.conn c).closed = true ∧ s'.loop = .next) := by
    refine ⟨fun c hc => ?_, fun c hc => ?_⟩
    · rw [hn] at hc
      cases hc
    · subst hc
      exact absurd hr (hp.owner hi).1
  cases loopStep_sound hs with
  | event fd' events' owner' rest' c _ todo' found =>
    rw [todo] at todo'
    cases todo'
    have howner := hp.current hi (findConnection_mem found)
    refine ⟨fun d hd => ?_, fun d hd => .inl ?_⟩
    · rw [handles_connectionEvent] at hd
      rw [howner, hd]
    · rw [howner] at hd
      cases hd
      rfl
  | stale fd' events' owner' rest' _ todo' gone =>
    rw [todo] at todo'
    cases todo'
    refine ⟨fun d hd => ?_, fun d hd => .inr ⟨?_, pc⟩⟩
    · rw [hnext] at hd
      cases hd
    · subst hd
      refine (hp.owner hi).2.resolve_left (fun hc => ?_)
      rw [findConnection, Keyed.find_of_mem ht.keys hc] at gone
      cases gone
  | listener fd' _ _ _ _ todo' hfd =>
    rw [todo] at todo'
    cases todo'
    exact special (.inl hfd) rfl
  | completion fd' _ _ _ _ todo' hfd =>
    rw [todo] at todo'
    cases todo'
    exact special (.inr (.inl hfd)) rfl
  | shutdownFirst fd' _ _ _ _ todo' hfd | shutdownAgain fd' _ _ _ _ todo' hfd =>
    rw [todo] at todo'
    cases todo'
    exact special (.inr (.inr (.inl hfd))) hnext
  | signalled fd' _ _ _ _ todo' hfd =>
    rw [todo] at todo'
    cases todo'
    exact special (.inr (.inr (.inr hfd))) hnext
  | _ => simp_all

theorem event_for_its_connection_accepting :
    ∃ s s' : Server,
      Reach (step usualConfig usualFds) (FreshDescriptor usualConfig)
        (start usualConfig usualFds) s ∧
        s.todo = [.event 7 { epollin := true } (some 1)] ∧ (8, 2) ∈ s.connections ∧
        step usualConfig usualFds s (.loop .internal) = some s' ∧
        (s'.loop = s.connectionEvent 1 { epollin := true } ∨
          (s.conn 1).closed = true ∧ s'.loop = .next) := by
  obtain ⟨s, hr, hloop, htodo, hmem, hsome⟩ := exists_reach
    (guarded (step usualConfig usualFds) (FreshDescriptor usualConfig))
    (start usualConfig usualFds)
    (connect 7 ++ [.loop (.batch [(3, { epollin := true }), (7, { epollin := true })]),
      .loop .internal, .loop (.client 8 true), .loop .acceptStop])
    (fun s => s.loop = .next ∧ s.todo = [.event 7 { epollin := true } (some 1)] ∧
      (8, 2) ∈ s.connections ∧ (step usualConfig usualFds s (.loop .internal)).isSome = true)
    (by decide +kernel)
  obtain ⟨s', hs'⟩ := Option.isSome_iff_exists.mp hsome
  exact ⟨s, s', hr.of_guarded, htodo, hmem, hs',
    (event_for_its_connection usualConfig usualFds hr.of_guarded hloop htodo hs').2 1 rfl⟩

/-- The kernel hands out the lowest descriptor number that is not open. -/
def LowestDescriptor (config : ServerConfig) (fds : Descriptors) (s : Server) (a : Action) :
    Prop :=
  match a with
  | .loop (.client fd _) => ∀ g < fd, s.fdOpen config fds g = true
  | _ => True

instance (config : ServerConfig) (fds : Descriptors) (s : Server) (a : Action) :
    Decidable (s.LowestDescriptor config fds a) := by
  unfold LowestDescriptor
  split <;> infer_instance

/-- The wakeup, the listener and the hangup of a connection in one batch: writing to the
connection fails and closes it, the connection accepted next gets its number, and the hangup
closes that one. -/
theorem event_for_another_connection :
    usualConfig.validate = none ∧
      ∃ s s' : Server,
        Reach (step usualConfig usualFds) (LowestDescriptor usualConfig usualFds)
            (start usualConfig usualFds) s ∧
          s.loop = .next ∧ s.todo = [.event 7 { epollhup := true } (some 1)] ∧
          s.findConnection 7 = some 2 ∧ (s.conn 2).closed = false ∧
          exec (step usualConfig usualFds) s [.loop .internal, .loop .internal] = some s' ∧
          (s'.conn 2).closed = true := by
  refine ⟨by decide +kernel, ?_⟩
  obtain ⟨s, hr, hloop, htodo, hfind, hopen, hclosed⟩ := exists_reach
    (guarded (step usualConfig usualFds) (LowestDescriptor usualConfig usualFds))
    (start usualConfig usualFds)
    (connect 7 ++ readOne 7 (ping 1) ++ List.replicate 10 (.worker 0 0) ++
      [.loop (.batch [(6, { epollin := true }), (3, { epollin := true }),
        (7, { epollhup := true })])] ++ List.replicate 5 (.loop .internal) ++
      [.loop (.send .error), .loop .internal, .loop .internal, .loop (.client 7 true),
        .loop .acceptStop])
    (fun s => s.loop = .next ∧ s.todo = [.event 7 { epollhup := true } (some 1)] ∧
      s.findConnection 7 = some 2 ∧ (s.conn 2).closed = false ∧
      (exec (step usualConfig usualFds) s [.loop .internal, .loop .internal]).any
        (fun s' => (s'.conn 2).closed) = true)
    (by decide +kernel)
  obtain ⟨s', hs', hc⟩ := (Option.any_eq_true _ _).mp hclosed
  exact ⟨s, s', hr.of_guarded, hloop, htodo, hfind, hopen, hs', hc⟩

end LocalCache.Server
