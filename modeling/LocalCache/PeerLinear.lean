import LocalCache.PeerStreams
import LocalCache.ServerLinear

namespace LocalCache

open Protocol Serializer RequestCodec Library Transition Linearization

/-- What a step of peer `k` adds to the history of the peers: a request is asked, or the response
to one is told. -/
def Peer.emits {limits : Limits} {σ α : Type} (P : Peer limits σ α) (k : Nat) (s : σ) (a : α) :
    List (Event (Nat × UInt64) Request Response) :=
  match P.step s a with
  | none => []
  | some s' =>
    ((P.asked s').drop (P.asked s).length).map (fun p => .call (k, p.2.requestId) p.2) ++
      ((P.told s').drop (P.told s).length).map (fun p => .ret (k, p.2.requestId) p.2)

def Server.Recorded (s : Server) (H : Server.History) : Prop :=
  ∀ x ∈ s.ledger.answers, ∀ j, x.job = some j → .ret j x.response ∈ H

theorem Server.Effect.grows {config : ServerConfig} {s s' : Server}
    (h : Server.Effect config s s') : ∃ jobs answers,
    s'.ledger.taken = s.ledger.taken ++ jobs ∧ s'.ledger.answers = s.ledger.answers ++ answers := by
  cases h with
  | quiet cache taken answers jobs =>
    obtain ⟨l, hanswers, -⟩ := answers
    exact ⟨[], l, by rw [taken, List.append_nil], hanswers⟩
  | took job cache taken answers => exact ⟨[job], [], taken, by rw [answers, List.append_nil]⟩
  | ran job uptimeMs response tally waits result taken answers =>
    exact ⟨[], [], by rw [taken, List.append_nil], by rw [answers, List.append_nil]⟩
  | answered job response cache ready taken answers =>
    exact ⟨[], _, by rw [taken, List.append_nil], answers⟩

theorem Server.step_recorded {config : ServerConfig} {fds : Descriptors} {s s' : Server}
    {a : Action} {H : Server.History} (h : s.Recorded H)
    (hs : s.step config fds a = some s') :
    s'.Recorded (H ++ s.emits config fds a) := by
  obtain ⟨jobs, answers, htaken, hanswers⟩ := (effect_of_step (step_sound hs)).grows
  intro x hx j hj
  rw [emits_eq hs htaken hanswers]
  rw [hanswers] at hx
  obtain hx | hx := List.mem_append.mp hx
  · exact List.mem_append_left _ (h x hx j hj)
  · refine List.mem_append_right _ (List.mem_append_right _ ?_)
    exact List.mem_filterMap.mpr ⟨x, hx, by rw [hj]; rfl⟩

namespace Net

variable {σ α : Type} {config : ServerConfig} {fds : Descriptors}
  {P : Nat → Peer config.frameLimits σ α} {z z' : Net σ} {k n : Nat} {j : Job} {s : σ} {fed : Fed}

abbrev Layers := List (Event Job Request Response ⊕ Event (Nat × UInt64) Request Response)

variable {M M' : Layers}

def emits (fds : Descriptors) (P : Nat → Peer config.frameLimits σ α) (z : Net σ) :
    NetAction α → Layers
  | .server a => (z.fed.server.emits config fds a).map .inl
  | .accept fd _ _ => (z.fed.server.emits config fds (.loop (.client fd true))).map .inl
  | .peer k a => ((P k).emits k (z.peer k) a).map .inr

/-- The request of the job is the one with that number of that peer. -/
def Stems (z : Net σ) (j : Job) (p : Nat × UInt64) : Prop :=
  ∃ n, z.link j.connection = some (p.1, n) ∧ p.2 = j.request.requestId

structure Histories (P : Nat → Peer config.frameLimits σ α) (z : Net σ) (M : Layers) : Prop where
  inv : z.Inv P
  numbered : ∀ k, (P k).Numbered
  wellFormed : z.fed.server.WellFormed config
  ordered : ∃ L, Server.Ordered config ⟨z.fed.server, inside M⟩ L
  recorded : z.fed.server.Recorded (inside M)
  calls : ∀ k id q, .inr (.call (k, id) q) ∈ M ↔
    ∃ n, (n, q) ∈ (P k).asked (z.peer k) ∧ id = q.requestId
  rets : ∀ k, ∀ p ∈ (P k).told (z.peer k), .inr (.ret (k, p.2.requestId) p.2) ∈ M
  contains : Contains z.Stems M

theorem histories_start (config : ServerConfig) (fds : Descriptors)
    (P : Nat → Peer config.frameLimits σ α) (numbered : ∀ k, (P k).Numbered) :
    Histories P (start config fds P) [] where
  inv := inv_start config fds P
  numbered := numbered
  wellFormed := Server.wellFormed_start config fds
  ordered := ⟨[], Server.ordered_start config fds⟩
  recorded := fun _ hx => by cases hx
  calls := by
    intro k id q
    refine ⟨(fun h => by cases h), ?_⟩
    rintro ⟨n, hn, -⟩
    rw [show (P k).asked ((start config fds P).peer k) = [] from (P k).silent_start.2.1] at hn
    cases hn
  rets := by
    intro k p hp
    rw [show (P k).told ((start config fds P).peer k) = [] from (P k).silent_start.2.2] at hp
    cases hp
  contains := .nil

theorem inside_append_inl (M : Layers) (es : Server.History) :
    inside (M ++ es.map .inl) = inside M ++ es := by
  simp [inside, List.filterMap_append, List.filterMap_map, Function.comp_def]

theorem inside_append_inr (M : Layers) (es : List (Event (Nat × UInt64) Request Response)) :
    inside (M ++ es.map .inr) = inside M := by
  simp [inside, List.filterMap_append, List.filterMap_map, Function.comp_def]

theorem mem_append_inl {e : Event (Nat × UInt64) Request Response} {es : Server.History} :
    .inr e ∈ M ++ es.map .inl ↔ .inr e ∈ M := by
  simp

theorem histories_fed (room : Server.Roomy config) (h : Histories P z M) {a : Action}
    (inv : z'.Inv P) (hs : z.fed.server.step config fds a = some z'.fed.server)
    (peer : z'.peer = z.peer) (link : ∀ c p, z.link c = some p → z'.link c = some p) :
    Histories P z' (M ++ (z.fed.server.emits config fds a).map .inl) := by
  have hstep := Server.step_sound hs
  have hmono : ∀ j p, z.Stems j p → z'.Stems j p := by
    rintro j p ⟨n, hn, hid⟩
    exact ⟨n, link _ _ hn, hid⟩
  have hcontains := h.contains.mono hmono
  obtain ⟨L, hL⟩ := h.ordered
  refine ⟨inv, h.numbered, Server.step_wellFormed h.wellFormed h.inv.core hstep, ?_, ?_, ?_, ?_,
    ?_⟩
  · rw [inside_append_inl]
    have htraced : traced (Server.step config fds) (Server.emits config fds)
        ⟨z.fed.server, inside M⟩ a =
        some ⟨z'.fed.server, inside M ++ z.fed.server.emits config fds a⟩ := by
      rw [traced, hs]
      rfl
    exact Server.step_ordered room hL h.inv.core h.wellFormed htraced
  · rw [inside_append_inl]
    exact Server.step_recorded h.recorded hs
  · intro k id q
    rw [mem_append_inl, h.calls, peer]
  · intro k p hp
    rw [peer] at hp
    exact List.mem_append_left _ (h.rets k p hp)
  · cases Server.effect_of_step hstep with
    | quiet cache taken answers jobs =>
      obtain ⟨l, hanswers, hnone⟩ := answers
      rw [Server.emits_eq hs (taken.trans (List.append_nil _).symm) hanswers,
        List.filterMap_eq_nil_iff.mpr (fun x hx => by rw [hnone x hx]; rfl)]
      simpa using hcontains
    | took job cache taken answers waiting carrying =>
      rw [Server.emits_eq hs taken (answers.trans (List.append_nil _).symm)]
      have hmem : job ∈ z'.fed.server.ledger.taken := by
        rw [taken]
        exact List.mem_append_right _ (List.mem_singleton_self _)
      obtain ⟨k, n, hlink, hasked⟩ := inv.asked_of_taken hmem
      have hcall := (h.calls k _ job.request).mpr
        ⟨n, by rw [← peer]; exact mem_listedOn.mp hasked, rfl⟩
      exact hcontains.innerCall ⟨n, hlink, rfl⟩ hcall
    | ran job uptimeMs response tally waits result taken answers waiting carries carrying =>
      rw [Server.emits_eq hs (taken.trans (List.append_nil _).symm)
        (answers.trans (List.append_nil _).symm)]
      simpa using hcontains
    | answered job response cache ready taken answers jobs =>
      rw [Server.emits_eq hs (taken.trans (List.append_nil _).symm) answers]
      exact hcontains.innerRet

theorem emits_peer {a : α} {qs : List (Nat × Request)} {rs : List (Nat × Response)}
    (hs : (P k).step (z.peer k) a = some s)
    (asked : (P k).asked s = (P k).asked (z.peer k) ++ qs)
    (told : (P k).told s = (P k).told (z.peer k) ++ rs) :
    (P k).emits k (z.peer k) a = qs.map (fun p => Event.call (k, p.2.requestId) p.2) ++
      rs.map (fun p => Event.ret (k, p.2.requestId) p.2) := by
  simp only [Peer.emits, hs, asked, told, List.drop_left]

theorem asked_update (same : (P k).asked s = (P k).asked (z.peer k)) (i : Nat) :
    (P i).asked (Function.update z.peer k s i) = (P i).asked (z.peer i) :=
  forall_update (Q := fun i s => (P i).asked s = (P i).asked (z.peer i)) (fun _ => rfl) same i

theorem asked_fresh (h : Histories P z M) (hk : (P k).Inv s) {p : Nat × Request}
    (asked : (P k).asked s = (P k).asked (z.peer k) ++ [p]) (q : Request) :
    .inr (.call (k, p.2.requestId) q) ∉ M := by
  intro hq
  obtain ⟨n, hn, hid⟩ := (h.calls k _ q).mp hq
  have hnodup := h.numbered k s hk
  rw [asked, List.map_append, List.nodup_append] at hnodup
  exact hnodup.2.2 _ (List.mem_map_of_mem hn) p.2.requestId (by simp) hid.symm

theorem calls_asked (h : Histories P z M) {p : Nat × Request}
    (asked : (P k).asked s = (P k).asked (z.peer k) ++ [p]) (i : Nat) (id : UInt64) (q : Request) :
    .inr (.call (i, id) q) ∈ M ++ [.inr (Event.call (k, p.2.requestId) p.2)] ↔
      ∃ n, (n, q) ∈ (P i).asked (Function.update z.peer k s i) ∧ id = q.requestId := by
  rw [List.mem_append, h.calls, List.mem_singleton]
  by_cases hi : i = k
  · subst hi
    rw [Function.update_self, asked]
    constructor
    · rintro (⟨n, hn, hid⟩ | heq)
      · exact ⟨n, List.mem_append_left _ hn, hid⟩
      · cases heq
        exact ⟨p.1, List.mem_append_right _ (List.mem_singleton_self _), rfl⟩
    · rintro ⟨n, hn, rfl⟩
      obtain hn | hn := List.mem_append.mp hn
      · exact .inl ⟨n, hn, rfl⟩
      · obtain rfl := List.mem_singleton.mp hn
        exact .inr rfl
  · rw [Function.update_of_ne hi]
    refine or_iff_left ?_
    rintro ⟨⟩
    exact hi rfl

theorem histories_peer (h : Histories P z M) {a : α}
    (inv : Inv P { z with peer := Function.update z.peer k s })
    (hs : (P k).step (z.peer k) a = some s) :
    Histories P { z with peer := Function.update z.peer k s }
      (M ++ ((P k).emits k (z.peer k) a).map .inr) := by
  have hk : (P k).Inv s := by
    have hpeer := inv.peers k
    dsimp only at hpeer
    rwa [Function.update_self] at hpeer
  have hcontains : Contains (Stems { z with peer := Function.update z.peer k s }) M := h.contains
  have hinside := inside_append_inr M ((P k).emits k (z.peer k) a)
  suffices hnew : (∀ i id q, .inr (.call (i, id) q) ∈
        M ++ ((P k).emits k (z.peer k) a).map .inr ↔
      ∃ n, (n, q) ∈ (P i).asked (Function.update z.peer k s i) ∧ id = q.requestId) ∧
      (∀ p ∈ (P k).told s, .inr (.ret (k, p.2.requestId) p.2) ∈
        M ++ ((P k).emits k (z.peer k) a).map .inr) ∧
      Contains (Stems { z with peer := Function.update z.peer k s })
        (M ++ ((P k).emits k (z.peer k) a).map .inr) by
    refine ⟨inv, h.numbered, h.wellFormed, by rw [hinside]; exact h.ordered,
      by rw [hinside]; exact h.recorded, hnew.1, ?_, hnew.2.2⟩
    refine forall_update (Q := fun i s => ∀ p ∈ (P i).told s, .inr (.ret (i, p.2.requestId) p.2) ∈
      M ++ ((P k).emits k (z.peer k) a).map .inr) ?_ hnew.2.1
    exact fun i p hp => List.mem_append_left _ (h.rets i p hp)
  obtain ⟨asked, told⟩ | ⟨p, asked, told⟩ | ⟨p, told, asked⟩ := (P k).turn (h.inv.peers k) hs
  · rw [emits_peer hs (asked.trans (List.append_nil _).symm)
      (told.trans (List.append_nil _).symm), told]
    refine ⟨?_, fun p hp => List.mem_append_left _ (h.rets k p hp), by simpa using hcontains⟩
    intro i id q
    rw [asked_update asked]
    simpa using h.calls i id q
  · rw [emits_peer hs asked (told.trans (List.append_nil _).symm), told]
    exact ⟨calls_asked h asked, fun p hp => List.mem_append_left _ (h.rets k p hp),
      hcontains.outerCall (asked_fresh h hk asked)⟩
  · rw [emits_peer hs (asked.trans (List.append_nil _).symm) told]
    refine ⟨?_, ?_, ?_⟩
    · intro i id q
      rw [asked_update asked]
      simpa using h.calls i id q
    · intro p' hp
      rw [told] at hp
      obtain hp | hp := List.mem_append.mp hp
      · exact List.mem_append_left _ (h.rets k p' hp)
      · rw [List.mem_singleton.mp hp]
        exact List.mem_append_right _ (List.mem_singleton_self _)
    · -- What the peer is told, the server has answered.
      obtain ⟨n, r⟩ := p
      have hmem : (n, r) ∈ (P k).told (Function.update z.peer k s k) := by
        rw [Function.update_self, told]
        exact List.mem_append_right _ (List.mem_singleton_self _)
      obtain ⟨c, j, hlink, hanswer, htaken, hanswers⟩ := inv.answer_of_told hmem
      have hconn : j.connection = c := of_decide_eq_true (List.mem_filter.mp htaken).2
      have hret := mem_inside.mp (h.recorded _ hanswer j rfl)
      exact hcontains.outerRet ⟨n, hconn ▸ hlink, hanswers.2⟩ hret

theorem histories_moves (hconfig : config.Valid) (room : Server.Roomy config)
    (h : Histories P z M) {a : NetAction α} (ok : Assumed P z a) (hm : Moves fds P z a z') :
    Histories P z' (M ++ emits fds P z a) := by
  have hinv := inv_moves hconfig h.inv ok hm
  cases hm with
  | served a fed arrives hs =>
    exact histories_fed room h hinv (Fed.step_server hs).1 rfl (fun _ _ hc => hc)
  | accepted fd k n fed awaits hs more =>
    refine histories_fed room h hinv (Fed.step_server hs).1 rfl ?_
    intro c p hc
    dsimp only
    rw [Function.update_of_ne, hc]
    rintro rfl
    cases (link_next h.inv).symm.trans hc
  | rejected fd k n fed hs =>
    exact histories_fed room h hinv (Fed.step_server hs).1 rfl (fun _ _ hc => hc)
  | moved k a s delivers hs => exact histories_peer h hinv hs

variable {t : Traced (Net σ) (Event Job Request Response ⊕ Event (Nat × UInt64) Request Response)}

theorem reach_histories (hconfig : config.Valid) (room : Server.Roomy config)
    (numbered : ∀ k, (P k).Numbered)
    (h : Reach (traced (step fds P) (emits fds P)) (fun t => Assumed P t.state)
      ⟨start config fds P, []⟩ t) :
    Histories P t.state t.trace := by
  refine h.invariant (P := fun t => Histories P t.state t.trace)
    (histories_start config fds P numbered) ?_
  intro t a t' hi ok hs
  obtain ⟨hstep, htrace⟩ := traced_eq_some hs
  rw [htrace]
  exact histories_moves hconfig room hi ok (moves_of_step hstep)

def origin (z : Net σ) (j : Job) : Nat × UInt64 :=
  ((z.link j.connection).elim 0 Prod.fst, j.request.requestId)

theorem origin_of_stems {p : Nat × UInt64} (h : z.Stems j p) : z.origin j = p := by
  obtain ⟨n, hn, hid⟩ := h
  rw [origin, hn, ← hid]
  rfl

theorem origin_inj (h : z.Inv P) (numbered : ∀ k, (P k).Numbered) {j' : Job}
    (hj : j ∈ z.fed.server.ledger.taken) (hj' : j' ∈ z.fed.server.ledger.taken)
    (same : z.origin j = z.origin j') : j = j' := by
  obtain ⟨k, n, hlink, hasked⟩ := h.asked_of_taken hj
  obtain ⟨k', n', hlink', hasked'⟩ := h.asked_of_taken hj'
  rw [origin_of_stems (p := (k, j.request.requestId)) ⟨n, hlink, rfl⟩,
    origin_of_stems (p := (k', j'.request.requestId)) ⟨n', hlink', rfl⟩] at same
  obtain ⟨rfl, hid⟩ := Prod.mk.inj same
  -- A peer uses a number once, so both were asked on one connection.
  have hpair := List.inj_on_of_nodup_map (numbered k _ (h.peers k)) (mem_listedOn.mp hasked)
    (mem_listedOn.mp hasked') hid
  obtain ⟨rfl, -⟩ := Prod.mk.inj hpair
  have hconn := h.wired.injective _ _ _ hlink hlink'
  refine h.job_inj hlink (nodup_listedOn (numbered k _ (h.peers k)) n) (Server.mem_takenOn hj) ?_
    hid
  rw [hconn]
  exact Server.mem_takenOn hj'

/-- The requests of the peers are linearizable, from the moment a peer asks to the moment it is
told the response. -/
theorem Histories.linearizes (h : Histories P z M) :
    ∃ L, Linearizes (LruServer.object config.cacheLimits) [] (outside M) L := by
  obtain ⟨L, hL⟩ := h.ordered
  refine ⟨_, hL.pointed.linearizes.widen h.contains (f := z.origin)
    (fun _ _ => origin_of_stems) ?_⟩
  intro j j' q q' hj hj' same
  have htaken := ((hL.called j q).mp (mem_inside.mpr hj)).1
  have htaken' := ((hL.called j' q').mp (mem_inside.mpr hj')).1
  exact origin_inj h.inv h.numbered htaken htaken' same

end Net

end LocalCache
