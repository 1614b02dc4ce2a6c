import LocalCache.AsyncClientStreams

namespace LocalCache

open Protocol Serializer Library Keyed Threads Transition

namespace Engine

def Conn.Drained (c : Conn) : Prop :=
  (deserializeResponse c.input {} {}).1.status = .kNeedMoreData

def Conn.unwritten (c : Conn) : Bool := c.outputPos < c.output.length

/-- A connection to which only the server can bring something new: its pipeline is full or there
is nothing left to issue, its input is used up, and epoll reports when it can be written if it
has to be. -/
structure Resting (config : EngineConfig) (e : Engine) (i : Nat) : Prop where
  sated : e.wantsMore config i = false
  drained : (e.conn i).Drained
  watched : (e.conn i).watched = some { kEngineEvents with epollout := (e.conn i).unwritten }

def Reached (config : EngineConfig) (e : Engine) (i : Nat) : Stage → Prop
  | .fill _ => (e.conn i).Drained
  | .send => (e.conn i).Drained ∧ e.wantsMore config i = false
  | .interest wantWrite =>
    (e.conn i).Drained ∧ e.wantsMore config i = false ∧ (e.conn i).unwritten = wantWrite
  | .recv | .parse _ | .failed => True

def Phase.Visited (phase : Phase) (i : Nat) : Prop := ∀ k ∈ phase.frontier, i < k

/-- The connections that are open, have been visited and are not being handled are at rest. -/
structure Steady (config : EngineConfig) (e : Engine) : Prop where
  resting : ∀ i, (e.conn i).live = true → e.phase.Visited i → e.phase.handles ≠ some i →
    e.Resting config i
  reached : ∀ i stage caller, e.phase = .handle i stage caller → e.Reached config i stage
  untouched : ∀ k ∈ e.phase.frontier, ∀ i, k ≤ i → (e.conn i).input = []
  positive : e.phase = .connecting ∨ 0 < e.conns → 0 < config.pipelineDepth
  waiting : e.phase = .wait → e.allDone config = false ∧ e.liveConnections ≠ 0
  finished : e.phase = .returned "" → e.allDone config = true

variable {config : EngineConfig} {e e' : Engine} {a : EngineAction} {i j : Nat} {c : Conn}

theorem wantsMore_eq_false_iff : e.wantsMore config i = false ↔
    e.generatorExhausted = true ∨ config.pipelineDepth ≤ (e.conn i).pending.length ∨
      config.requests.toNat ≤ e.issued := by
  rw [← Bool.not_eq_true, wantsMore_iff, not_and_or, not_and_or, Bool.not_eq_false, Nat.not_lt,
    Nat.not_lt]

theorem drained_nil (h : c.input = []) : c.Drained := by
  rw [Conn.Drained, h]
  decide

theorem Resting.mono (h : e.Resting config i) (conn : e'.conn i = e.conn i)
    (exhausted : e.generatorExhausted = true → e'.generatorExhausted = true)
    (issued : e.issued ≤ e'.issued) : e'.Resting config i where
  sated := by
    have hs := h.sated
    rw [wantsMore_eq_false_iff] at hs ⊢
    rw [conn]
    obtain hs | hs | hs := hs
    · exact .inl (exhausted hs)
    · exact .inr (.inl hs)
    · exact .inr (.inr (hs.trans issued))
  drained := conn ▸ h.drained
  watched := conn ▸ h.watched

theorem steady_start : Steady config {} where
  resting := fun _ live => by cases live
  reached := fun _ _ _ pc => by cases pc
  untouched := fun _ _ _ _ => rfl
  positive := fun h => by
    obtain h | h := h
    · cases h
    · exact absurd h (Nat.lt_irrefl _)
  waiting := fun pc => by cases pc
  finished := fun pc => by cases pc

theorem frontier_handle {stage : Stage} {caller : Caller} :
    ∀ k ∈ (Phase.handle i stage caller).frontier, k = i + 1 := by
  intro k hk
  cases caller with
  | begin => exact (Option.some.inj hk).symm
  | readable flags rest | writable rest => cases hk

theorem frontier_stage (stage stage' : Stage) (caller : Caller) :
    (Phase.handle i stage caller).frontier = (Phase.handle i stage' caller).frontier := by
  cases caller <;> rfl

namespace Steady

theorem handling {stage stage' : Stage} {caller : Caller} (h : e.Steady config)
    (pc : e.phase = .handle i stage caller) (phase : e'.phase = .handle i stage' caller)
    (conn : ∀ j, j ≠ i → e'.conn j = e.conn j) (conns : e'.conns = e.conns)
    (exhausted : e.generatorExhausted = true → e'.generatorExhausted = true)
    (issued : e.issued ≤ e'.issued) (reached : e'.Reached config i stage') :
    e'.Steady config where
  resting := by
    intro j live visited idle
    rw [phase] at visited idle
    have hj : j ≠ i := fun he => idle (congrArg some he.symm)
    rw [conn j hj] at live
    refine (h.resting j live ?_ ?_).mono (conn j hj) exhausted issued
    · intro k hk
      rw [pc, frontier_stage stage stage'] at hk
      exact visited k hk
    · rw [pc]
      exact idle
  reached := by
    intro k stage'' caller' pc'
    cases phase.symm.trans pc'
    exact reached
  untouched := by
    intro k hk j hj
    rw [phase] at hk
    have hki := frontier_handle k hk
    rw [conn j (by omega)]
    rw [frontier_stage stage' stage, ← pc] at hk
    exact h.untouched k hk j hj
  positive := by
    intro hpos
    rw [phase, conns] at hpos
    exact h.positive (.inr (hpos.resolve_left (by simp)))
  waiting := fun hw => by cases phase.symm.trans hw
  finished := fun hw => by cases phase.symm.trans hw

theorem moving (h : e.Steady config) (pc : e.phase.handles = none) (conn : e'.conn = e.conn)
    (conns : e'.conns = e.conns) (exhausted : e'.generatorExhausted = e.generatorExhausted)
    (issued : e'.issued = e.issued)
    (visited : ∀ j, (e.conn j).live = true → e'.phase.Visited j → e'.phase.handles ≠ some j →
      e.phase.Visited j)
    (reached : ∀ i stage caller, e'.phase = .handle i stage caller → e'.Reached config i stage)
    (follows : e.phase.Follows e'.phase)
    (positive : e'.phase = .connecting → 0 < config.pipelineDepth)
    (waiting : e'.phase = .wait → e'.allDone config = false ∧ e'.liveConnections ≠ 0)
    (finished : e'.phase = .returned "" → e'.allDone config = true) : e'.Steady config where
  resting := by
    intro j live hv idle
    rw [conn] at live
    refine (h.resting j live (visited j live hv idle) ?_).mono (by rw [conn])
      (fun hx => exhausted ▸ hx) (Nat.le_of_eq issued.symm)
    rw [pc]
    simp
  reached := reached
  untouched := by
    intro k hk j hj
    obtain ⟨m, hm, hle⟩ := follows k hk
    rw [conn]
    exact h.untouched m hm j (hle.trans hj)
  positive := by
    intro hpos
    obtain hpos | hpos := hpos
    · exact positive hpos
    · exact h.positive (.inr (conns ▸ hpos))
  waiting := waiting
  finished := finished

theorem preparing (h : e.Steady config) (pc : e.phase.handles = none) (conn : e'.conn = e.conn)
    (conns : e'.conns = e.conns) (exhausted : e'.generatorExhausted = e.generatorExhausted)
    (issued : e'.issued = e.issued) (frontier : e'.phase.frontier = e.phase.frontier)
    (handles : e'.phase.handles = none)
    (positive : e'.phase = .connecting → 0 < config.pipelineDepth)
    (early : e.phase.frontier ≠ none) : e'.Steady config := by
  refine h.moving pc conn conns exhausted issued ?_ ?_ (.of_eq frontier) positive ?_ ?_
  · intro j _ hv _ k hk
    exact hv k (frontier ▸ hk)
  · intro i stage caller hp
    rw [hp] at handles
    cases handles
  · intro hp
    rw [hp] at frontier
    exact absurd frontier.symm early
  · intro hp
    rw [hp] at frontier
    exact absurd frontier.symm early

theorem passing {phase : Phase} (h : e.Steady config) (pc : e.phase.handles = none)
    (past : e.phase.frontier = none) (handles : phase.handles = none)
    (frontier : phase.frontier = none)
    (waiting : phase = .wait → e.allDone config = false ∧ e.liveConnections ≠ 0)
    (finished : phase = .returned "" → e.allDone config = true) :
    Steady config { e with phase := phase } := by
  refine h.moving pc rfl rfl rfl rfl ?_ ?_ (.of_none frontier) ?_ waiting finished
  · intro j _ _ _ k hk
    rw [past] at hk
    cases hk
  · rintro i stage caller rfl
    cases handles
  · rintro rfl
    cases frontier

theorem dispatched {stage : Stage} {caller : Caller} (h : e.Steady config)
    (pc : e.phase.handles = none) (past : e.phase.frontier = none) (live : (e.conn i).live = true)
    (frontier : (Phase.handle i stage caller).frontier = none)
    (reached : e.Resting config i → e.Reached config i stage) :
    Steady config { e with phase := .handle i stage caller } := by
  have visited : ∀ j, e.phase.Visited j := by
    intro j k hk
    rw [past] at hk
    cases hk
  refine h.moving pc rfl rfl rfl rfl (fun j _ _ _ => visited j) ?_ (.of_none frontier)
    (fun hp => by cases hp) (fun hp => by cases hp) (fun hp => by cases hp)
  intro j stage' caller' hp
  cases hp
  exact reached (h.resting i live (visited i) (by rw [pc]; simp))

theorem dropped {phase : Phase} (h : e.Steady config) (live : (e.conn i).live = true)
    (pc : ∀ j ∈ e.phase.handles, j = i) (handles : phase.handles = none)
    (visited : ∀ j, phase.Visited j → e.phase.Visited j)
    (ahead : ∀ k ∈ phase.frontier, k = i + 1 ∧ k ∈ e.phase.frontier)
    (calm : phase ≠ .wait ∧ phase ≠ .returned "") (hf : e.Fleet config) :
    Steady config { e.drop i with phase := phase } := by
  rw [drop_of_live live]
  refine ⟨?_, ?_, ?_, ?_, fun hw => absurd hw calm.1, fun hr => absurd hr calm.2⟩
  · intro j hlive hv _
    dsimp only at hlive
    have hj : j ≠ i := by
      rintro rfl
      rw [Function.update_self] at hlive
      cases hlive
    rw [Function.update_of_ne hj] at hlive
    refine (h.resting j hlive (visited j hv) ?_).mono (Function.update_of_ne hj _ _) id
      (Nat.le_refl _)
    intro hh
    exact hj (pc j hh)
  · rintro k stage caller rfl
    cases handles
  · intro k hk j hj
    obtain ⟨rfl, hk⟩ := ahead k hk
    dsimp only
    rw [Function.update_of_ne (by omega)]
    exact h.untouched _ hk j hj
  · intro _
    exact h.positive (.inr (Nat.lt_of_le_of_lt (Nat.zero_le _) (hf.lt_conns live)))

end Steady

theorem visited_dropped {stage : Stage} (caller : Caller) (j : Nat)
    (h : (caller.dropped i).Visited j) : (Phase.handle i stage caller).Visited j := by
  cases caller with
  | begin => exact h
  | readable flags rest | writable rest => exact fun _ hk => by cases hk

theorem calm_dropped (caller : Caller) :
    caller.dropped i ≠ .wait ∧ caller.dropped i ≠ .returned "" := by
  cases caller <;> simp [Caller.dropped]

theorem calm_next (caller : Caller) : caller.next i ≠ .wait ∧ caller.next i ≠ .returned "" := by
  cases caller with
  | begin | writable rest => exact ⟨(fun hp => by cases hp), (fun hp => by cases hp)⟩
  | readable flags rest =>
    rw [Caller.next]
    split <;> exact ⟨(fun hp => by cases hp), (fun hp => by cases hp)⟩

theorem Steady.registered {wantWrite : Bool} {caller : Caller} (h : e.Steady config)
    (pc : e.phase = .handle i (.interest wantWrite) caller) (hf : e.Fleet config) :
    Steady config { e with
      conn := Function.update e.conn i
        { e.conn i with watched := some { kEngineEvents with epollout := wantWrite } }
      phase := caller.next i } := by
  obtain ⟨hdrained, hsated, hwant⟩ := h.reached i _ _ pc
  have hlt := hf.lt_conns (hf.handled_of_phase pc)
  refine ⟨?_, ?_, ?_, ?_, fun hw => absurd hw (calm_next caller).1,
    fun hr => absurd hr (calm_next caller).2⟩
  · intro j hlive hv _
    by_cases hj : j = i
    · subst hj
      refine ⟨?_, ?_, ?_⟩
      · rw [wantsMore_eq_false_iff] at hsated ⊢
        dsimp only
        rw [Function.update_self]
        exact hsated
      · dsimp only
        rw [Function.update_self]
        exact hdrained
      · dsimp only
        rw [Function.update_self, ← hwant]
        rfl
    · dsimp only at hlive
      rw [Function.update_of_ne hj] at hlive
      refine (h.resting j hlive ?_ ?_).mono (Function.update_of_ne hj _ _) id (Nat.le_refl _)
      · intro k hk
        rw [pc, ← frontier_next] at hk
        exact hv k hk
      · rw [pc]
        exact fun he => hj (Option.some.inj he).symm
  · intro k stage caller' hphase
    have hk : k = i := handles_next caller k (by rw [show caller.next i = _ from hphase]; rfl)
    subst hk
    cases caller with
    | begin | writable rest => cases hphase
    | readable flags rest =>
      simp only [Caller.next] at hphase
      split at hphase
      · cases hphase
        show ((Function.update e.conn k _) k).Drained
        rw [Function.update_self]
        exact hdrained
      · cases hphase
  · intro k hk j hj
    dsimp only at hk
    rw [frontier_next (.interest wantWrite)] at hk
    have hki := frontier_handle k hk
    dsimp only
    rw [Function.update_of_ne (by omega)]
    exact h.untouched k (by rw [pc]; exact hk) j hj
  · intro _
    exact h.positive (.inr (Nat.lt_of_le_of_lt (Nat.zero_le _) hlt))

theorem steady_moves (h : e.Steady config) (hf : e.Fleet config) (hm : e.Moves config a e') :
    e'.Steady config := by
  cases hm with
  | created ok errno pc positive =>
    exact h.preparing (by rw [pc]; rfl) rfl rfl rfl rfl (by rw [pc]; rfl) rfl (fun _ => positive.2)
      (by rw [pc]; simp [Phase.frontier])
  | rejected ok errno error pc | connected pc | started pc | optionFailed r errno error pc
  | connectFailed r errno error pc =>
    exact h.preparing (by rw [pc]; rfl) rfl rfl rfl rfl (by rw [pc]; rfl) rfl
      (fun hp => by cases hp) (by rw [pc]; simp [Phase.frontier])
  | opened fd errno pc room =>
    refine ⟨?_, ?_, ?_, fun _ => h.positive (.inl pc), ?_, ?_⟩
    · intro j _ hv _
      exact absurd (hv 0 (by dsimp only; rw [pc]; rfl)) (Nat.not_lt_zero _)
    · intro j stage caller hp
      cases pc.symm.trans hp
    · intro k hk j hj
      dsimp only
      rw [Function.update_apply]
      split
      · rfl
      · exact h.untouched k hk j hj
    · intro hp
      cases pc.symm.trans hp
    · intro hp
      cases pc.symm.trans hp
  | begins i pc hi =>
    refine h.moving (by rw [pc]; rfl) rfl rfl rfl rfl ?_ ?_ ?_ (fun hp => by cases hp)
      (fun hp => by cases hp) (fun hp => by cases hp)
    · intro j _ hv idle k hk
      rw [pc] at hk
      obtain rfl := Option.some.inj hk
      have hlt : j < i + 1 := hv _ rfl
      have hne : j ≠ i := fun he => idle (congrArg some he.symm)
      omega
    · intro j stage caller hp
      cases hp
      exact drained_nil (h.untouched i (by rw [pc]; rfl) i (Nat.le_refl _))
    · intro k hk
      obtain rfl := Option.some.inj hk
      exact ⟨i, by rw [pc]; rfl, Nat.le_succ i⟩
  | begun i pc hi =>
    refine h.moving (by rw [pc]; rfl) rfl rfl rfl rfl ?_ (fun _ _ _ hp => by cases hp)
      (.of_none rfl) (fun hp => by cases hp) (fun hp => by cases hp) (fun hp => by cases hp)
    intro j live _ _ k hk
    rw [pc] at hk
    obtain rfl := Option.some.inj hk
    exact Nat.lt_of_lt_of_le (hf.lt_conns live) hi
  | filled i again caller pc full =>
    refine h.handling pc rfl (fun _ _ => rfl) rfl id (Nat.le_refl _) ?_
    have hr := h.reached i _ _ pc
    cases again with
    | true => exact hr
    | false => exact ⟨hr, full⟩
  | exhausted i again caller now pc =>
    refine h.handling pc rfl (fun _ _ => rfl) rfl (fun _ => rfl) (Nat.le_refl _) ?_
    have hr := h.reached i _ _ pc
    cases again with
    | true => exact hr
    | false => exact ⟨hr, wantsMore_eq_false_iff.mpr (.inl rfl)⟩
  | issued i again caller spec now pc room =>
    refine h.handling pc pc (fun j hj => Function.update_of_ne hj _ _) rfl id (Nat.le_succ _) ?_
    have hr := h.reached i _ _ pc
    simp only [Reached, issue, Conn.Drained, Function.update_self] at hr ⊢
    exact hr
  | sent i caller n pc pos le =>
    refine h.handling pc pc (fun j hj => Function.update_of_ne hj _ _) rfl id (Nat.le_refl _) ?_
    have hr := h.reached i _ _ pc
    simp only [Reached, Conn.Drained, wantsMore, Function.update_self] at hr ⊢
    exact hr
  | blocked i caller pc unsent =>
    obtain ⟨hdrained, hsated⟩ := h.reached i _ _ pc
    exact h.handling pc rfl (fun _ _ => rfl) rfl id (Nat.le_refl _)
      ⟨hdrained, hsated, decide_eq_true unsent⟩
  | flushed i caller pc all =>
    refine h.handling pc rfl (fun j hj => Function.update_of_ne hj _ _) rfl id (Nat.le_refl _) ?_
    have hr := h.reached i _ _ pc
    simp only [Reached, Conn.Drained, wantsMore, Conn.unwritten, Function.update_self] at hr ⊢
    exact ⟨hr.1, hr.2, rfl⟩
  | registered i wantWrite caller pc => exact h.registered pc hf
  | fails a i stage caller pc idle =>
    exact h.handling pc rfl (fun _ _ => rfl) rfl id (Nat.le_refl _) trivial
  | received i caller bytes pc pos =>
    exact h.handling pc pc (fun j hj => Function.update_of_ne hj _ _) rfl id (Nat.le_refl _) trivial
  | drained i caller pc =>
    exact h.handling pc rfl (fun _ _ => rfl) rfl id (Nat.le_refl _) trivial
  | parsed i consumed caller now pc why =>
    refine h.handling pc rfl (fun j hj => Function.update_of_ne hj _ _) rfl id (Nat.le_refl _) ?_
    simp only [Reached, Engine.parsed, Conn.Drained, Function.update_self]
    obtain hlen | hmore := why
    · rw [List.drop_eq_nil_of_le hlen]
      decide
    · exact hmore
  | malformed i consumed caller now pc | uncorrelated i consumed caller now response rest pc =>
    exact h.handling pc rfl (fun _ _ => rfl) rfl id (Nat.le_refl _) trivial
  | completed i consumed caller now p response rest pc =>
    exact h.handling pc rfl (fun j hj => Function.update_of_ne hj _ _) rfl id (Nat.le_refl _)
      trivial
  | dropped i caller pc =>
    refine h.dropped (hf.handled_of_phase pc) ?_ (handles_dropped caller) ?_ ?_
      (calm_dropped caller) hf
    · intro j hj
      rw [pc] at hj
      exact (Option.some.inj hj).symm
    · intro j hv
      rw [pc]
      exact visited_dropped caller j hv
    · rw [pc]
      exact frontier_dropped .failed caller
  | hungUp i flags rest pc live =>
    refine h.dropped live ?_ rfl ?_ (fun _ hk => by cases hk) ⟨by simp, by simp⟩ hf
    · intro j hj
      rw [pc] at hj
      cases hj
    · intro j _ k hk
      rw [pc] at hk
      cases hk
  | interrupted => exact h
  | readable i flags rest pc live =>
    exact h.dispatched (by rw [pc]; rfl) (by rw [pc]; rfl) live rfl (fun _ => trivial)
  | writable i flags rest pc live =>
    exact h.dispatched (by rw [pc]; rfl) (by rw [pc]; rfl) live rfl Resting.drained
  | done pc all =>
    exact h.passing (by rw [pc]; rfl) (by rw [pc]; rfl) rfl rfl (fun hp => by cases hp)
      (fun _ => all)
  | deserted pc error he =>
    exact h.passing (by rw [pc]; rfl) (by rw [pc]; rfl) rfl rfl (fun hp => by cases hp)
      (fun hp => absurd (Phase.returned.inj hp) he)
  | waits pc more live =>
    exact h.passing (by rw [pc]; rfl) (by rw [pc]; rfl) rfl rfl (fun _ => ⟨more, live⟩)
      (fun hp => by cases hp)
  | gaveUp r errno error pc he =>
    exact h.passing (by rw [pc]; rfl) (by rw [pc]; rfl) rfl rfl (fun hp => by cases hp)
      (fun hp => absurd (Phase.returned.inj hp) he)
  | batch _ _ pc | rechecked _ pc | handled pc | skipped _ _ _ pc =>
    exact h.passing (by rw [pc]; rfl) (by rw [pc]; rfl) rfl rfl (fun hp => by cases hp)
      (fun hp => by cases hp)

theorem reach_steady {ok : Engine → EngineAction → Prop} (h : Reach (step config) ok {} e) :
    e.Sound config ∧ e.Steady config := by
  refine h.invariant (P := fun e => e.Sound config ∧ e.Steady config)
    ⟨sound_start, steady_start⟩ ?_
  intro e a e' hp _ hs
  have hm := moves_of_step hs
  exact ⟨sound_moves hp.1 hm, steady_moves hp.2 hp.1.books.fleet hm⟩

theorem allDone_iff : e.allDone config = true ↔
    (e.generatorExhausted = true ∨ config.requests.toNat ≤ e.issued) ∧
      e.issued ≤ e.stats.received ∧
      ∀ i < e.conns, (e.conn i).pending = [] ∧ (e.conn i).unwritten = false := by
  unfold allDone
  split
  · rename_i hmore
    rw [Bool.and_eq_true, Bool.not_eq_true', decide_eq_true_eq] at hmore
    refine ⟨(fun hp => by cases hp), ?_⟩
    rintro ⟨hx | hx, -⟩
    · rw [hmore.1] at hx
      cases hx
    · exact absurd hx (Nat.not_le.mpr hmore.2)
  · rename_i hmore
    rw [Bool.and_eq_true, Bool.not_eq_true', decide_eq_true_eq, not_and_or, Bool.not_eq_false,
      Nat.not_lt] at hmore
    split
    · rename_i hlt
      exact ⟨(fun hp => by cases hp), fun h => absurd h.2.1 (Nat.not_le.mpr hlt)⟩
    · rename_i hle
      simp [hmore, Nat.le_of_not_lt hle, Conn.unwritten]

theorem unsent_nil (h : c.unwritten = false) : c.unsent = [] :=
  List.drop_eq_nil_of_le (Nat.le_of_not_lt (of_decide_eq_false h))

theorem Books.completed_perm (h : e.Books config) (all : e.stats.received = e.issued) :
    (e.trace.completed.map (fun p => p.2.response.requestId)).Perm
      (e.trace.issued.map Ticket.id) := by
  refine (List.subperm_of_subset h.completed_nodup ?_).perm_of_length_le ?_
  · intro id hid
    obtain ⟨p, hp, rfl⟩ := List.mem_map.mp hid
    exact List.mem_map_of_mem (f := Ticket.id) (h.shared.issued_of_completed hp)
  · have hids := congrArg List.length h.numbered.ids
    have hreceived := h.shared.received
    rw [List.length_map, List.length_map, List.length_range] at hids
    rw [List.length_map, List.length_map]
    omega

/-- When `run` reports success, every request it was to issue was issued, its frame was sent, and
it was completed exactly once. -/
theorem run_complete (config : EngineConfig) {e : Engine} (h : Reach (step config) Free {} e)
    (returned : e.phase = .returned "") :
    (e.generatorExhausted = true ∨ e.issued = config.requests.toNat) ∧
      e.stats.received = e.issued ∧
      (e.trace.completed.map (fun p => p.2.response.requestId)).Perm
        (e.trace.issued.map Ticket.id) ∧
      ∀ i, e.trace.sent i = (e.issuedOn i).flatMap Ticket.frame := by
  obtain ⟨⟨hb, hout, -⟩, hsteady⟩ := reach_steady h
  obtain ⟨hmore, hle, hidle⟩ := allDone_iff.mp (hsteady.finished returned)
  have hbalance := hb.shared.balance
  have hall : e.stats.received = e.issued := by omega
  refine ⟨hmore.imp_right (Nat.le_antisymm hb.numbered.issued_le), hall, hb.completed_perm hall, ?_⟩
  intro i
  have hstream := hout.stream i
  have hunsent : (e.conn i).unsent = [] := by
    by_cases hi : i < e.conns
    · exact unsent_nil (hidle i hi).2
    · rw [hb.fleet.fresh i (Nat.le_of_not_lt hi)]
      rfl
  rw [hunsent, List.append_nil] at hstream
  exact hstream

theorem run_complete_pair :
    ∃ e : Engine, Reach (step pairConfig) Free {} e ∧ e.phase = .returned "" ∧
      e.trace.completed.map (fun p => p.2.response.requestId) = [2, 1, 3] ∧
      (e.trace.completed.map (fun p => p.2.response.requestId)).Perm
        (e.trace.issued.map Ticket.id) := by
  obtain ⟨e, hr, hphase, hids⟩ := exists_reach (step pairConfig) {}
    (openPair ++ readPair (pong 2 ++ pong 1) 3 ++
      [.generate (some {}) 60, .internal, .internal, .send (.sent 24), .internal, .control true,
        .internal, .internal] ++ readPair (pong 3) 2 ++
      [.internal, .internal, .internal, .control true, .internal, .internal])
    (fun e => e.phase = .returned "" ∧
      e.trace.completed.map (fun p => p.2.response.requestId) = [2, 1, 3])
    (by decide +kernel)
  exact ⟨e, hr, hphase, hids, (run_complete pairConfig hr hphase).2.2.1⟩

theorem conn_of_dead (hf : e.Fleet config) (hi : i < e.conns) (dead : (e.conn i).live = false)
    (hm : e.Moves config a e') : e'.conn i = e.conn i ∧ i < e'.conns := by
  have hother : ∀ {j}, (e.conn j).live = true → i ≠ j := by
    rintro j hj rfl
    cases dead.symm.trans hj
  cases hm with
  | opened fd errno pc room =>
    exact ⟨Function.update_of_ne (Nat.ne_of_lt hi) _ _, Nat.lt_succ_of_lt hi⟩
  | issued j again caller spec now pc | sent j caller n pc | flushed j caller pc
  | registered j wantWrite caller pc | received j caller bytes pc | parsed j consumed caller now pc
  | completed j consumed caller now p response rest pc =>
    exact ⟨Function.update_of_ne (hother (hf.handled_of_phase pc)) _ _, hi⟩
  | dropped j caller pc =>
    have live := hf.handled_of_phase pc
    rw [drop_of_live live]
    exact ⟨Function.update_of_ne (hother live) _ _, hi⟩
  | hungUp j flags rest pc live =>
    rw [drop_of_live live]
    exact ⟨Function.update_of_ne (hother live) _ _, hi⟩
  | _ => exact ⟨rfl, hi⟩

/-- After a connection was dropped with a request pending, or with a part of a request unsent, it
is left alone and `run` never reports success. -/
theorem lost_request_reported (config : EngineConfig) {e e' : Engine} {i : Nat}
    (h : Reach (step config) Free {} e) (hi : i < e.conns) (dead : (e.conn i).live = false)
    (lost : (e.conn i).pending ≠ [] ∨ (e.conn i).unwritten = true)
    (h' : Reach (step config) Free e e') : e'.conn i = e.conn i ∧ e'.phase ≠ .returned "" := by
  have hkept : (e'.Sound config ∧ e'.Steady config) ∧ e'.conn i = e.conn i ∧ i < e'.conns := by
    refine h'.invariant (P := fun x => (x.Sound config ∧ x.Steady config) ∧
      x.conn i = e.conn i ∧ i < x.conns) ⟨reach_steady h, rfl, hi⟩ ?_
    rintro x a x' ⟨hp, hconn, hlt⟩ _ hs
    have hm := moves_of_step hs
    obtain ⟨hconn', hlt'⟩ := conn_of_dead hp.1.books.fleet hlt (by rw [hconn]; exact dead) hm
    exact ⟨⟨sound_moves hp.1 hm, steady_moves hp.2 hp.1.books.fleet hm⟩, hconn'.trans hconn, hlt'⟩
  refine ⟨hkept.2.1, ?_⟩
  intro hreturned
  obtain ⟨hpending, hunwritten⟩ :=
    (allDone_iff.mp (hkept.1.2.finished hreturned)).2.2 i hkept.2.2
  rw [hkept.2.1] at hpending hunwritten
  obtain hlost | hlost := lost
  · exact hlost hpending
  · cases hunwritten.symm.trans hlost

theorem lost_request_reported_hangup :
    ∃ e e' : Engine, Reach (step pairConfig) Free {} e ∧ Reach (step pairConfig) Free e e' ∧
      (e.conn 0).pending.length = 2 ∧ (e.conn 0).live = false ∧ e'.conn 0 = e.conn 0 ∧
      e'.phase = .returned "all benchmark connections failed" ∧ e'.phase ≠ .returned "" := by
  obtain ⟨e, hr, hpending, hdead, hconns, hfin⟩ := exists_reach (step pairConfig) {}
    (openPair ++ [.wait (.batch [(0, { epollrdhup := true })]) "", .internal])
    (fun e => (e.conn 0).pending.length = 2 ∧ (e.conn 0).live = false ∧ e.conns = 1 ∧
      (exec (step pairConfig) e [.internal, .internal]).any (fun e' =>
        decide (e'.phase = .returned "all benchmark connections failed")) = true)
    (by decide +kernel)
  obtain ⟨e', hr', hphase⟩ := exists_reach (step pairConfig) e [.internal, .internal]
    (fun e' => e'.phase = .returned "all benchmark connections failed") hfin
  obtain ⟨hkept, hreported⟩ := lost_request_reported pairConfig hr (by omega) hdead (.inl (by
    intro hnil
    rw [hnil] at hpending
    cases hpending)) hr'
  exact ⟨e, e', hr, hr', hpending, hdead, hkept, hphase, hreported⟩

theorem Steady.resting_of_wait (h : e.Steady config) (waiting : e.phase = .wait)
    (live : (e.conn i).live = true) : e.Resting config i := by
  refine h.resting i live ?_ ?_
  · intro k hk
    rw [waiting] at hk
    cases hk
  · rw [waiting]
    simp [Phase.handles]

theorem Steady.unfinished (h : e.Steady config) (hb : e.Books config)
    (waiting : e.phase = .wait) :
    ∃ i < e.conns, (e.conn i).pending ≠ [] ∨ (e.conn i).unwritten = true := by
  obtain ⟨hnot, hlive⟩ := h.waiting waiting
  by_contra hnone
  push Not at hnone
  have hidle : ∀ i < e.conns, (e.conn i).pending = [] ∧ (e.conn i).unwritten = false := by
    intro i hi
    exact ⟨(hnone i hi).1, Bool.eq_false_of_not_eq_true (hnone i hi).2⟩
  have hzero : total e.conns (fun c => c.pending.length) e.conn = 0 :=
    total_eq_zero_iff.mpr (fun i hi => by rw [(hidle i hi).1]; rfl)
  have hbalance := hb.shared.balance
  rw [hzero] at hbalance
  refine absurd (allDone_iff.mpr ⟨?_, Nat.le_of_eq hbalance, hidle⟩) (by rw [hnot]; simp)
  -- With nothing pending, an open connection is sated only if there is nothing left to issue.
  obtain ⟨i, hi, hialive⟩ : ∃ i < e.conns, (e.conn i).alive ≠ 0 := by
    by_contra hdead
    push Not at hdead
    rw [hb.fleet.alive, total_eq_zero_iff.mpr hdead] at hlive
    exact hlive rfl
  have live : (e.conn i).live = true := by
    by_contra hdead
    exact hialive (if_neg hdead)
  have hdepth := h.positive (.inr (Nat.lt_of_le_of_lt (Nat.zero_le _) hi))
  obtain hx | hx | hx := wantsMore_eq_false_iff.mp (h.resting_of_wait waiting live).sated
  · exact .inl hx
  · rw [(hidle i hi).1] at hx
    exact absurd hdepth (Nat.not_lt.mpr hx)
  · exact .inr hx

/-- `run` waits only for something: there is an open connection, a request is pending or a part of
one is unsent, and every open connection has a full pipeline or there is nothing left to issue,
holds no whole response, and is watched for writing exactly if it has something to write. -/
theorem wait_justified (config : EngineConfig) {e : Engine} (h : Reach (step config) Free {} e)
    (waiting : e.phase = .wait) :
    0 < e.liveConnections ∧ (∀ i, (e.conn i).live = true → e.Resting config i) ∧
      ∃ i < e.conns, (e.conn i).pending ≠ [] ∨ (e.conn i).unwritten = true := by
  obtain ⟨⟨hb, -, -⟩, hsteady⟩ := reach_steady h
  refine ⟨Nat.pos_of_ne_zero (hsteady.waiting waiting).2, ?_, hsteady.unfinished hb waiting⟩
  exact fun i live => hsteady.resting_of_wait waiting live

theorem wait_justified_blocked :
    ∃ e : Engine, Reach (step pairConfig) Free {} e ∧ e.phase = .wait ∧
      (e.conn 0).live = true ∧ (e.conn 0).unwritten = true ∧
      (e.conn 0).watched = some { kEngineEvents with epollout := (e.conn 0).unwritten } := by
  obtain ⟨e, hr, hphase, hlive, hunwritten⟩ := exists_reach (step pairConfig) {}
    [.create true "", .connect (.opened 5) "", .internal, .run, .internal,
      .generate (some {}) 10, .generate (some {}) 20, .internal, .internal, .send (.sent 36),
      .send .eagain, .control true, .internal, .internal]
    (fun e => e.phase = .wait ∧ (e.conn 0).live = true ∧ (e.conn 0).unwritten = true)
    (by decide +kernel)
  exact ⟨e, hr, hphase, hlive, hunwritten,
    ((wait_justified pairConfig hr hphase).2.1 0 hlive).watched⟩

end Engine

end LocalCache
