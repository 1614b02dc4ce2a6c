import LocalCache.AsyncClientWait
import LocalCache.PeerCapacity
import LocalCache.StressRun

namespace LocalCache

open Protocol Serializer RequestCodec Library Keyed Threads Transition RecencyList Linearization

namespace LruServer

variable {limits : CacheLimits} {l : List Entry} {q : Request} {r : Response}
  {ops : List (Request × Response)} {b : Nat}

def entry (q : Request) : Entry := (q.key, q.value)

structure Stores (limits : CacheLimits) (b : Nat) (p : Request × Response) : Prop where
  put : p.1.opcode = .kPut
  served : p.2.status ≠ .kServerBusy
  value_le : p.1.value.length ≤ limits.maxValueBytes.toNat
  cost_le : cost (entry p.1) ≤ b

theorem sum_cost_le {l : List Entry} (h : ∀ e ∈ l, cost e ≤ b) :
    (l.map cost).sum ≤ l.length * b := by
  have hle := List.sum_le_card_nsmul (l.map cost) b (List.forall_mem_map.mpr h)
  rwa [List.length_map, nsmul_eq_mul] at hle

theorem next_stores {p : Request × Response} (h : Stores limits b p)
    (new : p.1.key ∉ l.map Prod.fst) (costs : ∀ e ∈ l, cost e ≤ b)
    (entries : l.length + 1 ≤ limits.maxEntries.toNat)
    (bytes : (l.length + 1) * b ≤ limits.maxBytes.toNat) :
    next limits l p.1 p.2 = entry p.1 :: l := by
  have hsum := sum_cost_le costs
  have hcost := h.cost_le
  rw [Nat.add_mul, Nat.one_mul] at bytes
  have hentries : limits.maxEntries ≠ 0 := by
    intro hzero
    rw [hzero] at entries
    exact Nat.not_succ_le_zero _ entries
  have hfits : fits limits (cost (entry p.1)) l = true :=
    fits_iff.mpr ⟨entries, by omega⟩
  have hbig : ¬(limits.maxBytes.toNat < cost (entry p.1) ∨ limits.maxEntries = 0) := by
    rintro (hlt | hzero)
    · omega
    · exact hentries hzero
  rw [next, if_neg h.served, Request.cacheOp, h.put]
  simp only [Option.map_some, Option.getD_some, apply]
  rw [if_neg (Nat.not_lt.mpr h.value_le)]
  have hothers : others p.1.key l = l := Keyed.without_of_notMem new
  have hsame : cost (p.1.key, p.1.value) = cost (entry p.1) := rfl
  rw [hsame, if_neg hbig, hothers, Recency.trim_of_fits hfits]
  rfl

theorem run_stores (puts : ∀ p ∈ ops, Stores limits b p)
    (keys : (ops.map fun p => p.1.key).Nodup) (entries : ops.length ≤ limits.maxEntries.toNat)
    (bytes : ops.length * b ≤ limits.maxBytes.toNat) :
    (object limits).run [] ops = (ops.map fun p => entry p.1).reverse := by
  induction ops using List.reverseRecOn with
  | nil => rfl
  | append_singleton ops p ih =>
    rw [List.length_append, List.length_singleton] at entries bytes
    rw [List.map_append, List.nodup_append] at keys
    have hle : ops.length * b ≤ (ops.length + 1) * b := Nat.mul_le_mul_right b (Nat.le_succ _)
    have hrun := ih (fun p hp => puts p (List.mem_append_left _ hp)) keys.1 (by omega) (by omega)
    have hp := puts p (List.mem_append_right _ (List.mem_singleton_self _))
    rw [Object.run, List.foldl_append]
    rw [Object.run] at hrun
    rw [hrun, List.map_append, List.reverse_append]
    refine next_stores hp ?_ ?_ ?_ ?_
    · intro hmem
      rw [List.map_reverse, List.mem_reverse, List.map_map] at hmem
      exact keys.2.2 _ hmem p.1.key (by simp) rfl
    · intro e he
      rw [List.mem_reverse] at he
      obtain ⟨p', hp', rfl⟩ := List.mem_map.mp he
      exact (puts p' (List.mem_append_left _ hp')).cost_le
    · rw [List.length_reverse, List.length_map]
      exact entries
    · rw [List.length_reverse, List.length_map]
      exact bytes

theorem mem_keys_next {k : Bytes} (get : q.opcode = .kGet) (h : k ∈ l.map Prod.fst) :
    k ∈ (next limits l q r).map Prod.fst := by
  rw [next, Request.cacheOp, get]
  split
  · exact h
  · simp only [Option.map_some, Option.getD_some, apply]
    cases hfind : find q.key l with
    | none => exact h
    | some e =>
      by_cases hk : k = q.key
      · rw [hk, ← (mem_of_find hfind).2]
        exact List.mem_cons_self ..
      · obtain ⟨e', he', rfl⟩ := List.mem_map.mp h
        exact List.mem_cons_of_mem _ (List.mem_map_of_mem (Keyed.mem_without.mpr ⟨he', hk⟩))

theorem mem_keys_run {k : Bytes} (gets : ∀ p ∈ ops, p.1.opcode = .kGet)
    (h : k ∈ l.map Prod.fst) : k ∈ ((object limits).run l ops).map Prod.fst := by
  induction ops generalizing l with
  | nil => exact h
  | cons p ops ih =>
    exact ih (fun p hp => gets p (List.mem_cons_of_mem _ hp))
      (mem_keys_next (gets p (List.mem_cons_self ..)) h)

theorem ok_of_get (h : Allows limits l q r) (get : q.opcode = .kGet)
    (served : r.status ≠ .kServerBusy) (hk : q.key ∈ l.map Prod.fst) : r.status = .kOk := by
  obtain ⟨-, hbusy | hallows⟩ := h
  · exact absurd (congrArg Prod.fst hbusy) served
  · simp only [Request.cacheOp, get, apply] at hallows
    cases hfind : find q.key l with
    | none => exact absurd hk (Keyed.find_eq_none_iff.mp hfind)
    | some e =>
      rw [hfind] at hallows
      exact congrArg Prod.fst hallows

theorem ok_of_put (h : Allows limits l q r) (put : q.opcode = .kPut)
    (served : r.status ≠ .kServerBusy) (value_le : q.value.length ≤ limits.maxValueBytes.toNat)
    (cost_le : cost (entry q) ≤ limits.maxBytes.toNat) (entries : limits.maxEntries ≠ 0) :
    r.status = .kOk := by
  obtain ⟨-, hbusy | hallows⟩ := h
  · exact absurd (congrArg Prod.fst hbusy) served
  · have hbig : ¬(limits.maxBytes.toNat < cost (q.key, q.value) ∨ limits.maxEntries = 0) := by
      rintro (hlt | hzero)
      · exact absurd cost_le (Nat.not_le.mpr hlt)
      · exact entries hzero
    simp only [Request.cacheOp, put, apply] at hallows
    rw [if_neg (Nat.not_lt.mpr value_le), if_neg hbig] at hallows
    exact congrArg Prod.fst hallows

/-- What was put, and fitted, is found by every later GET as long as nothing but GETs happens. -/
theorem ok_of_stored {puts gets rest : List (Request × Response)}
    (stores : ∀ p ∈ puts, Stores limits b p) (keys : (puts.map fun p => p.1.key).Nodup)
    (entries : puts.length ≤ limits.maxEntries.toNat)
    (bytes : puts.length * b ≤ limits.maxBytes.toNat) (reads : ∀ p ∈ gets, p.1.opcode = .kGet)
    (legal : (object limits).Legal [] (puts ++ (gets ++ (q, r) :: rest)))
    (get : q.opcode = .kGet) (served : r.status ≠ .kServerBusy)
    (hk : q.key ∈ puts.map fun p => p.1.key) : r.status = .kOk := by
  have hlegal := ((object limits).legal_append [] puts _).mp legal
  have hallows := (((object limits).legal_append _ gets _).mp hlegal.2).2.1
  refine ok_of_get hallows get served (mem_keys_run reads ?_)
  rw [run_stores stores keys entries bytes, List.map_reverse, List.mem_reverse, List.map_map]
  exact hk

end LruServer

namespace Engine

variable {config : EngineConfig} {e e' : Engine} {a : EngineAction}

theorem not_moves_returned {error : String} (pc : e.phase = .returned error) :
    ¬e.Moves config a e' := by
  intro hm
  cases hm <;> simp_all

theorem create_of_start (hm : Moves config {} a e') : ∃ ok errno, a = .create ok errno := by
  cases hm with
  | rejected ok errno | created ok errno => exact ⟨ok, errno, rfl⟩
  | _ => simp_all

theorem exhausted_moves (h : e.generatorExhausted = false)
    (asks : ∀ now, a ≠ .generate none now) (hm : e.Moves config a e') :
    e'.generatorExhausted = false := by
  cases hm with
  | exhausted i again caller now pc => exact absurd rfl (asks now)
  | dropped | hungUp =>
    simp only [drop]
    split <;> exact h
  | _ => exact h

def Connects (e : Engine) : Prop :=
  e.stats.connectFailures = 0 ∨ ∃ error, e.phase = .unconnected error

theorem connects_moves (h : e.Connects) (hm : e.Moves config a e') : e'.Connects := by
  obtain h | ⟨error, pc⟩ := h
  · cases hm with
    | connectFailed r errno error pc => exact .inr ⟨error, rfl⟩
    | dropped | hungUp =>
      left
      simp only [drop]
      split <;> exact h
    | _ => exact .inl h
  · cases hm <;> simp_all

theorem reach_connects {ok : Engine → EngineAction → Prop} (h : Reach (step config) ok {} e) :
    e.Connects :=
  h.invariant (P := Connects) (.inl rfl) (fun _ _ _ hc _ hs => connects_moves hc (moves_of_step hs))

theorem Books.issued_nil (h : e.Books config) (idle : config.connections = 0) :
    e.trace.issued = [] := by
  have hconns : e.conns = 0 := Nat.le_zero.mp (idle ▸ h.fleet.conns_le)
  have hcompleted : e.trace.completed = [] := by
    refine List.eq_nil_iff_forall_not_mem.mpr (fun p hp => ?_)
    have hlt := (h.shared.matched p hp).1
    omega
  have hbalance := h.shared.balance
  rw [h.shared.received, hcompleted, hconns] at hbalance
  have hids := h.numbered.ids
  rw [hbalance] at hids
  exact List.map_eq_nil_iff.mp hids

theorem pending_of_returned (h : e.Steady config) (pc : e.phase = .returned "") :
    total e.conns (fun c => c.pending.length) e.conn = 0 := by
  refine total_eq_zero_iff.mpr (fun i hi => ?_)
  rw [((allDone_iff.mp (h.finished pc)).2.2 i hi).1]
  rfl

end Engine

namespace Stress

open Engine

variable {config : ServerConfig} {fds : Descriptors} {o : Options} {others : Nat → EngineConfig}
  {z z' : Net Engine} {a : NetAction EngineAction} {M : Net.Layers}
  {L L₁ L₂ : List ((Nat × UInt64) × Request × Response)}

theorem mem_emits {fds : Descriptors} {P : Nat → Peer config.frameLimits Engine EngineAction}
    {x : Event (Nat × UInt64) Request Response} (h : .inr x ∈ Net.emits fds P z a) :
    ∃ k b, a = .peer k b ∧ ((∃ id q, x = .call (k, id) q) ∨ ∃ id r, x = .ret (k, id) r) := by
  cases a with
  | server a | accept fd k n => simp [Net.emits] at h
  | peer k b =>
    refine ⟨k, b, rfl, ?_⟩
    obtain ⟨y, hy, heq⟩ := List.mem_map.mp h
    obtain rfl := Sum.inr.inj heq
    rw [Peer.emits] at hy
    split at hy
    · cases hy
    · obtain hy | hy := List.mem_append.mp hy <;> obtain ⟨p, -, rfl⟩ := List.mem_map.mp hy
      · exact .inl ⟨_, _, rfl⟩
      · exact .inr ⟨_, _, rfl⟩

/-- How far the stress test has come: the second engine has not begun, or the first has returned
and the history can be cut between its last completion and the first request of the second. -/
inductive Progress (z : Net Engine) (M : Net.Layers) : Prop
  | putting (waits : z.peer 1 = {}) (none : ∀ id q, .inr (.call (1, id) q) ∉ M)
  | getting (done : (z.peer 0).phase = .returned "") (M₁ M₂ : Net.Layers) (cut : M = M₁ ++ M₂)
      (puts : ∀ id q, .inr (.call (1, id) q) ∉ M₁) (gets : ∀ id r, .inr (.ret (0, id) r) ∉ M₂)

theorem Progress.still (h : Progress z M) {E : Net.Layers} (first : z'.peer 0 = z.peer 0)
    (second : z'.peer 1 = z.peer 1) (calls : ∀ id q, .inr (.call (1, id) q) ∉ E)
    (rets : ∀ id r, .inr (.ret (0, id) r) ∉ E) : Progress z' (M ++ E) := by
  cases h with
  | putting waits none =>
    refine .putting (second.trans waits) (fun id q hmem => ?_)
    exact (List.mem_append.mp hmem).elim (none id q) (calls id q)
  | getting done M₁ M₂ cut puts gets =>
    refine .getting (by rw [first, done]) M₁ (M₂ ++ E) (by rw [cut, List.append_assoc]) puts ?_
    exact fun id r hmem => (List.mem_append.mp hmem).elim (gets id r) (rets id r)

theorem progress_moves (h : Progress z M) (ok : Drives config z a)
    (hm : Net.Moves fds (engines config (configs o others)) z a z') :
    Progress z' (M ++ Net.emits fds (engines config (configs o others)) z a) := by
  -- Only the engine that moves is in what the step adds to the history.
  have hcall (hk : ∀ b, a ≠ .peer 1 b) (id : UInt64) (q : Request) :
      .inr (.call (1, id) q) ∉ Net.emits fds (engines config (configs o others)) z a := by
    intro hmem
    obtain ⟨k, b, ha, ⟨_, _, hx⟩ | ⟨_, _, hx⟩⟩ := mem_emits hmem <;> cases hx
    exact hk b ha
  have hret (hk : ∀ b, a ≠ .peer 0 b) (id : UInt64) (r : Response) :
      .inr (.ret (0, id) r) ∉ Net.emits fds (engines config (configs o others)) z a := by
    intro hmem
    obtain ⟨k, b, ha, ⟨_, _, hx⟩ | ⟨_, _, hx⟩⟩ := mem_emits hmem <;> cases hx
    exact hk b ha
  cases hm with
  | served | accepted | rejected =>
    exact h.still rfl rfl (hcall (by simp)) (hret (by simp))
  | moved k b s delivers hs =>
    have hm : (z.peer k).Moves (configs o others k) b s := moves_of_step hs
    have hother : ∀ i, i ≠ k → Function.update z.peer k s i = z.peer i :=
      fun i hi => Function.update_of_ne hi ..
    obtain _ | _ | k := k
    · have hcalls := hcall (fun b hb => by cases hb)
      cases h with
      | putting waits none =>
        refine .putting ((hother 1 (by decide)).trans waits) (fun id q hmem => ?_)
        exact (List.mem_append.mp hmem).elim (none id q) (hcalls id q)
      | getting done => exact absurd hm (not_moves_returned done)
    · have hrets := hret (fun b hb => by cases hb)
      cases h with
      | putting waits none =>
        rw [waits] at hm
        obtain ⟨created, errno, rfl⟩ := create_of_start hm
        refine .getting ?_ M _ rfl none hrets
        exact (congrArg Engine.phase (hother 0 (by decide))).trans (ok rfl)
      | getting done M₁ M₂ cut puts gets =>
        refine .getting ((congrArg Engine.phase (hother 0 (by decide))).trans done) M₁ _
          (by rw [cut, List.append_assoc]) puts ?_
        exact fun id r hmem => (List.mem_append.mp hmem).elim (gets id r) (hrets id r)
    · exact h.still (hother 0 (by omega)) (hother 1 (by omega))
        (hcall (fun b hb => by cases hb)) (hret (fun b hb => by cases hb))

theorem endless_moves (h : (z.peer 0).generatorExhausted = false) (ok : Drives config z a)
    (hm : Net.Moves fds (engines config (configs o others)) z a z') :
    (z'.peer 0).generatorExhausted = false := by
  cases hm with
  | served | accepted | rejected => exact h
  | moved k b s delivers hs =>
    dsimp only
    rw [Function.update_apply]
    split
    · rename_i hk
      subst hk
      refine exhausted_moves h ?_ (moves_of_step hs)
      rintro now rfl
      cases ok
    · exact h

structure Run (config : ServerConfig) (o : Options) (others : Nat → EngineConfig)
    (z : Net Engine) (M : Net.Layers) : Prop where
  histories : Net.Histories (engines config (configs o others)) z M
  scripted : Scripted z
  progress : Progress z M
  endless : (z.peer 0).generatorExhausted = false
  steady : ∀ k, (z.peer k).Steady (configs o others k) ∧ (z.peer k).Connects

theorem run_of_reach (hconfig : config.Valid) (room : Server.Roomy config)
    (key_le : 27 ≤ config.maxKeyBytes.toNat) (value_le : 256 ≤ config.maxValueBytes.toNat)
    (h : Reach (Net.step fds (engines config (configs o others))) (Drives config)
      (Net.start config fds (engines config (configs o others))) z) :
    ∃ M, Run config o others z M := by
  obtain ⟨M, hM⟩ := h.exists_trace (Net.emits fds (engines config (configs o others)))
  have hhistories := Net.reach_histories hconfig room
    (numbered_engines config (configs o others))
    (hM.mono (fun _ _ ok => assumed_of_drives hconfig key_le value_le ok))
  have hprogress := hM.invariant
    (P := fun t => Progress t.state t.trace ∧ (t.state.peer 0).generatorExhausted = false)
    ⟨.putting rfl (fun _ _ hmem => by cases hmem), rfl⟩ (by
      rintro t a t' ⟨hp, he⟩ ok hs
      obtain ⟨hstep, htrace⟩ := traced_eq_some hs
      have hm := Net.moves_of_step hstep
      rw [htrace]
      exact ⟨progress_moves hp ok hm, endless_moves he ok hm⟩)
  refine ⟨M, hhistories, reach_scripted h, hprogress.1, hprogress.2, fun k => ?_⟩
  have hreach : Reach (Engine.step (configs o others k)) Free {} (z.peer k) := Net.reach_peer h k
  exact ⟨(reach_steady hreach).2, reach_connects hreach⟩

theorem connections_configs (alone : ∀ k, (others k).connections = 0) (k : Nat) (hk : 2 ≤ k) :
    (configs o others k).connections = 0 := by
  rw [configs, if_neg (Nat.not_lt.mpr hk)]
  exact alone k

theorem key_inj {m n : UInt64} (h : key m = key n) : m = n := by
  rw [← strtoull_key m, h, strtoull_key]

theorem keys_nodup {e : Engine} {ec : EngineConfig} (hn : e.Numbered ec) (h : e.Follows putSpec) :
    (e.trace.issued.map fun t => t.spec.key).Nodup := by
  have hkeys : (e.trace.issued.map fun t => t.spec.key) =
      (List.range e.issued).map fun n => key (.ofNat n) := by
    have hmap := congrArg (List.map RequestSpec.key) h
    rw [List.map_map, List.map_map] at hmap
    exact hmap
  have hlt := hn.id_lt
  rw [hkeys]
  refine List.Nodup.map_on ?_ List.nodup_range
  intro m hm n hn same
  rw [List.mem_range] at hm hn
  exact Word64.ofNat_inj_of_lt (by omega) (by omega) (key_inj same)

structure Holds (config : ServerConfig) (o : Options) : Prop where
  entries : o.requests.toNat ≤ config.maxEntries.toNat
  bytes : o.requests.toNat * 411 ≤ config.maxCacheBytes.toNat

namespace Run

theorem accepted (h : Run config o others z M) (k : Nat) :
    (z.peer k).Accepted config.frameLimits (configs o others k) := h.histories.inv.peers k

theorem bounded (h : Run config o others z M) (alone : ∀ k, (others k).connections = 0) :
    z.Bounded (engines config (configs o others)) (o.connections.toNat * o.pipeline.toNat) := by
  intro s hs
  have hcard := bounded_of_pending h.histories.inv (connections_configs alone) s hs
  have hfirst := (h.accepted 0).sound.books.pending_le
  have hsecond := (h.accepted 1).sound.books.pending_le
  rw [Finset.sum_range_succ, Finset.sum_range_one] at hcard
  change _ ≤ o.connections.toNat * o.pipeline.toNat at hfirst hsecond
  cases h.progress with
  | putting waits =>
    rw [waits] at hcard
    exact hcard.trans hfirst
  | getting done =>
    rw [pending_of_returned (h.steady 0).1 done, Nat.zero_add] at hcard
    exact hcard.trans hsecond

section Finished

variable {k n : Nat} {q : Request}

theorem told_of_asked (h : Run config o others z M) (done : (z.peer k).phase = .returned "")
    (asked : (n, q) ∈ (z.peer k).asked) :
    ∃ r, (n, r) ∈ (z.peer k).told ∧ r.requestId = q.requestId := by
  have hb := (h.accepted k).sound.books
  obtain ⟨-, hle, -⟩ := allDone_iff.mp ((h.steady k).1.finished done)
  have hbalance := hb.shared.balance
  obtain ⟨t, ht, heq⟩ := List.mem_map.mp asked
  obtain ⟨rfl, rfl⟩ := Prod.mk.inj heq
  have hid := (hb.completed_perm (by omega)).mem_iff.mpr (List.mem_map_of_mem (f := Ticket.id) ht)
  obtain ⟨p, hp, hpid⟩ := List.mem_map.mp hid
  have hsame := List.inj_on_of_nodup_map hb.numbered.ids_nodup
    (hb.shared.issued_of_completed hp) ht hpid
  refine ⟨p.2.response, ?_, hpid⟩
  rw [← hsame]
  exact List.mem_map_of_mem (f := fun p : Nat × Completion => (p.1, p.2.response)) hp

theorem issued_of_returned (h : Run config o others z M)
    (done : (z.peer 0).phase = .returned "") : (z.peer 0).issued = o.requests.toNat := by
  obtain ⟨hmore, -, -⟩ := allDone_iff.mp ((h.steady 0).1.finished done)
  obtain hx | hle := hmore
  · rw [h.endless] at hx
    cases hx
  · exact Nat.le_antisymm (h.accepted 0).sound.books.numbered.issued_le hle

variable (hL : Linearizes (LruServer.object config.cacheLimits) [] (outside M) L)
include hL

theorem placed (h : Run config o others z M) (done : (z.peer k).phase = .returned "")
    (asked : (n, q) ∈ (z.peer k).asked) :
    ∃ r, (n, r) ∈ (z.peer k).told ∧ ((k, q.requestId), q, r) ∈ L := by
  obtain ⟨r, hr, hid⟩ := h.told_of_asked done asked
  have hplace := h.histories.place (k := k) hL hr asked hid
  rw [hid] at hplace
  exact ⟨r, hr, hplace⟩

theorem asked_of_mem (h : Run config o others z M)
    {x : (Nat × UInt64) × Request × Response} (hx : x ∈ L) :
    ∃ n, (n, x.2.1) ∈ (z.peer x.1.1).asked ∧ x.1.2 = x.2.1.requestId :=
  (h.histories.calls x.1.1 x.1.2 x.2.1).mp (mem_outside.mp (hL.called x hx))

theorem told_of_mem (h : Run config o others z M)
    {x : (Nat × UInt64) × Request × Response} (hx : x ∈ L)
    (done : (z.peer x.1.1).phase = .returned "") : ∃ n, (n, x.2.2) ∈ (z.peer x.1.1).told := by
  obtain ⟨n, hasked, hid⟩ := h.asked_of_mem hL hx
  obtain ⟨r, hr, hplace⟩ := h.placed hL done hasked
  have heq := List.inj_on_of_nodup_map hL.nodup hx hplace (Prod.ext rfl hid)
  refine ⟨n, ?_⟩
  rw [heq]
  exact hr

theorem cut (h : Run config o others z M) (alone : ∀ k, (others k).connections = 0)
    (first : (z.peer 0).phase = .returned "") (second : (z.peer 1).phase = .returned "") :
    ∃ L₁ L₂, L = L₁ ++ L₂ ∧ (∀ x ∈ L₁, x.1.1 = 0) ∧ ∀ x ∈ L₂, x.1.1 = 1 := by
  have hpeer : ∀ x ∈ L, x.1.1 = 0 ∨ x.1.1 = 1 := by
    intro x hx
    obtain ⟨n, hasked, -⟩ := h.asked_of_mem hL hx
    by_contra hne
    have hnil := (h.accepted x.1.1).sound.books.issued_nil
      (connections_configs alone x.1.1 (by omega))
    rw [asked, hnil] at hasked
    cases hasked
  cases h.progress with
  | putting waits =>
    rw [waits] at second
    cases second
  | getting done M₁ M₂ hcut puts gets =>
    obtain ⟨L₁, L₂, rfl, hbefore, hafter⟩ := hL.order (outside M₁) (outside M₂) (by
      rw [hcut]
      exact List.filterMap_append ..)
    refine ⟨L₁, L₂, rfl, ?_, ?_⟩
    · intro x hx
      have hmem := List.mem_append_left L₂ hx
      refine (hpeer x hmem).resolve_right (fun hone => ?_)
      have hcalled := mem_outside.mp (hL.called x hmem)
      rw [hcut] at hcalled
      obtain hcalled | hcalled := List.mem_append.mp hcalled
      · rw [show x.1 = (1, x.1.2) from Prod.ext hone rfl] at hcalled
        exact puts _ _ hcalled
      · exact hafter x.1 x.2.1 (mem_outside.mpr hcalled) (List.mem_map_of_mem hx)
    · intro x hx
      have hmem := List.mem_append_right L₁ hx
      refine (hpeer x hmem).resolve_left (fun hzero => ?_)
      obtain ⟨n, hasked, hid⟩ := h.asked_of_mem hL hmem
      rw [hzero] at hasked
      obtain ⟨r, hr, hrid⟩ := h.told_of_asked first hasked
      have hret := h.histories.rets 0 (n, r) hr
      rw [hcut] at hret
      -- The first engine had been told before the second asked.
      have hearly := (List.mem_append.mp hret).resolve_right (gets _ _)
      have hplace := hbefore _ r (mem_outside.mpr hearly)
      have hnodup := hL.nodup
      rw [List.map_append, List.nodup_append] at hnodup
      refine hnodup.2.2 _ hplace x.1 (List.mem_map_of_mem hx) (Prod.ext hzero.symm ?_)
      exact hrid.trans hid.symm

theorem stores (h : Run config o others z M) (value_le : 256 ≤ config.maxValueBytes.toNat)
    (first : (z.peer 0).phase = .returned "")
    (served : ∀ p ∈ (z.peer 0).told, p.2.status ≠ .kServerBusy)
    {x : (Nat × UInt64) × Request × Response} (hx : x ∈ L) (put : x.1.1 = 0) :
    LruServer.Stores config.cacheLimits 411 x.2 := by
  obtain ⟨n, hasked, -⟩ := h.asked_of_mem hL hx
  obtain ⟨n', htold⟩ := h.told_of_mem hL hx (by rw [put]; exact first)
  rw [put] at hasked htold
  obtain ⟨t, ht, heq⟩ := List.mem_map.mp hasked
  obtain ⟨-, hq⟩ := Prod.mk.inj heq
  obtain ⟨m, -, hm⟩ := mem_follows h.scripted.puts (List.mem_map_of_mem (f := Ticket.spec) ht)
  have hkey : x.2.1.key = key (.ofNat m) := by
    rw [← hq, Ticket.request, hm]
    rfl
  have hvalue : x.2.1.value = payload 0 (.ofNat m) := by
    rw [← hq, Ticket.request, hm]
    rfl
  refine ⟨?_, served _ htold, ?_, ?_⟩
  · rw [← hq, Ticket.request, hm]
    rfl
  · rw [hvalue, length_payload]
    exact value_le
  · have hlen := (length_key (.ofNat m)).2
    rw [LruServer.entry, hkey, hvalue, RecencyList.cost, RecencyList.payload, length_payload]
    dsimp only
    omega

theorem keys_of_puts (h : Run config o others z M) (puts : ∀ x ∈ L₁, x.1.1 = 0)
    (sub : ∀ x ∈ L₁, x ∈ L) (nodup : (L₁.map Prod.fst).Nodup) :
    (L₁.map fun x => x.2.1.key).Nodup ∧ L₁.length ≤ (z.peer 0).issued := by
  have hn := (h.accepted 0).sound.books.numbered
  have hkeys := keys_nodup hn h.scripted.puts
  have hticket : ∀ x ∈ L₁, ∃ t ∈ (z.peer 0).trace.issued,
      t.spec.key = x.2.1.key ∧ t.id = x.1.2 := by
    intro x hx
    obtain ⟨n, hasked, hid⟩ := h.asked_of_mem hL (sub x hx)
    rw [puts x hx] at hasked
    obtain ⟨t, ht, heq⟩ := List.mem_map.mp hasked
    obtain ⟨-, hq⟩ := Prod.mk.inj heq
    refine ⟨t, ht, congrArg Request.key hq, ?_⟩
    rw [hid, ← hq]
    rfl
  have hnodup : (L₁.map fun x => x.2.1.key).Nodup := by
    refine List.Nodup.map_on ?_ (List.Nodup.of_map Prod.fst nodup)
    intro x hx y hy same
    obtain ⟨t, ht, htkey, htid⟩ := hticket x hx
    obtain ⟨u, hu, hukey, huid⟩ := hticket y hy
    obtain rfl := List.inj_on_of_nodup_map hkeys ht hu (by rw [htkey, hukey, same])
    exact List.inj_on_of_nodup_map nodup hx hy
      (Prod.ext ((puts x hx).trans (puts y hy).symm) (htid.symm.trans huid))
  refine ⟨hnodup, ?_⟩
  have hsub : (L₁.map fun x => x.2.1.key) ⊆ (z.peer 0).trace.issued.map fun t => t.spec.key := by
    intro k hk
    obtain ⟨x, hx, rfl⟩ := List.mem_map.mp hk
    obtain ⟨t, ht, htkey, -⟩ := hticket x hx
    exact List.mem_map.mpr ⟨t, ht, htkey⟩
  have hlen := (List.subperm_of_subset hnodup hsub).length_le
  have hids := congrArg List.length hn.ids
  rw [List.length_map, List.length_map] at hlen
  rw [List.length_map, List.length_map, List.length_range] at hids
  omega

theorem get_of_mem (h : Run config o others z M)
    {x : (Nat × UInt64) × Request × Response} (hx : x ∈ L) (get : x.1.1 = 1) :
    x.2.1.opcode = .kGet := by
  obtain ⟨n, hasked, -⟩ := h.asked_of_mem hL hx
  rw [get] at hasked
  obtain ⟨t, ht, heq⟩ := List.mem_map.mp hasked
  obtain ⟨-, hq⟩ := Prod.mk.inj heq
  obtain ⟨m, -, hm⟩ := mem_follows h.scripted.gets (List.mem_map_of_mem (f := Ticket.spec) ht)
  rw [← hq, Ticket.request, hm]
  rfl

theorem put_of_got (h : Run config o others z M) (first : (z.peer 0).phase = .returned "")
    (hq : q ∈ (z.peer 1).asked.map Prod.snd) :
    ∃ x ∈ L, x.1.1 = 0 ∧ x.2.1.key = q.key := by
  obtain ⟨p, hp, rfl⟩ := List.mem_map.mp hq
  obtain ⟨t, ht, rfl⟩ := List.mem_map.mp hp
  obtain ⟨m, hlt, hm⟩ := mem_follows h.scripted.gets (List.mem_map_of_mem (f := Ticket.spec) ht)
  have hissued := h.issued_of_returned first
  have hle : (z.peer 1).issued ≤ o.requests.toNat :=
    (h.accepted 1).sound.books.numbered.issued_le
  have hput : putSpec (.ofNat m) ∈ (z.peer 0).trace.issued.map Ticket.spec := by
    rw [h.scripted.puts]
    exact List.mem_map.mpr ⟨m, List.mem_range.mpr (by omega), rfl⟩
  obtain ⟨u, hu, hspec⟩ := List.mem_map.mp hput
  obtain ⟨r, -, hplace⟩ := h.placed hL first
    (List.mem_map_of_mem (f := fun t : Ticket => (t.connection, t.request)) hu)
  refine ⟨_, hplace, rfl, ?_⟩
  have hukey : u.spec.key = key (.ofNat m) := by rw [hspec]; rfl
  have htkey : t.spec.key = key (.ofNat m) := by rw [hm]; rfl
  exact hukey.trans htkey.symm

end Finished

section Verdict

variable (h : Run config o others z M) (holds : Holds config o)
  (value_le : 256 ≤ config.maxValueBytes.toNat) (first : (z.peer 0).phase = .returned "")
include h holds value_le first

theorem put_ok (served : ∀ p ∈ (z.peer 0).told, p.2.status ≠ .kServerBusy)
    {p : Nat × Completion} (hp : p ∈ (z.peer 0).trace.completed) : p.2.response.status = .kOk := by
  obtain ⟨htold, hasked, hspec, -⟩ := told_of_completed (h.accepted 0).sound hp
  obtain ⟨m, hlt, -⟩ := mem_follows h.scripted.puts hspec
  obtain ⟨L, hL⟩ := h.histories.linearizes
  have hplace := h.histories.place (k := 0) hL htold hasked rfl
  have hstores := h.stores hL value_le first served hplace rfl
  obtain ⟨l, hallows⟩ := h.histories.allowed (k := 0) htold hasked rfl
  have hissued := h.issued_of_returned first
  have hentries := holds.entries
  have hbytes := holds.bytes
  refine LruServer.ok_of_put hallows hstores.put hstores.served hstores.value_le
    (hstores.cost_le.trans ?_) ?_
  · change 411 ≤ config.maxCacheBytes.toNat
    omega
  · intro hzero
    have hnone : config.maxEntries.toNat = 0 := congrArg UInt64.toNat hzero
    omega

theorem get_ok (alone : ∀ k, (others k).connections = 0)
    (second : (z.peer 1).phase = .returned "")
    (served : ∀ k, ∀ p ∈ (z.peer k).told, p.2.status ≠ .kServerBusy)
    {p : Nat × Completion} (hp : p ∈ (z.peer 1).trace.completed) : p.2.response.status = .kOk := by
  obtain ⟨htold, hasked, hspec, -⟩ := told_of_completed (h.accepted 1).sound hp
  obtain ⟨m, -, hm⟩ := mem_follows h.scripted.gets hspec
  obtain ⟨L, hL⟩ := h.histories.linearizes
  obtain ⟨L₁, L₂, rfl, hputs, hgets⟩ := h.cut hL alone first second
  have hplace := h.histories.place (k := 1) hL htold hasked rfl
  have hsecond := (List.mem_append.mp hplace).resolve_left (fun hx => by cases hputs _ hx)
  obtain ⟨before, after, rfl⟩ := List.append_of_mem hsecond
  have hnodup := hL.nodup
  rw [List.map_append, List.nodup_append] at hnodup
  obtain ⟨hkeys, hlen⟩ := h.keys_of_puts hL hputs (fun x hx => List.mem_append_left _ hx) hnodup.1
  have hissued := h.issued_of_returned first
  have hentries := holds.entries
  have hlegal := hL.legal
  rw [List.map_append, List.map_append, List.map_cons] at hlegal
  refine LruServer.ok_of_stored (b := 411) ?_ ?_ ?_ ?_ ?_ hlegal ?_ (served 1 _ htold) ?_
  · intro y hy
    obtain ⟨x, hx, rfl⟩ := List.mem_map.mp hy
    exact h.stores hL value_le first (served 0) (List.mem_append_left _ hx) (hputs x hx)
  · rw [List.map_map]
    exact hkeys
  · rw [List.length_map]
    exact (hlen.trans (Nat.le_of_eq hissued)).trans hentries
  · rw [List.length_map]
    exact (Nat.mul_le_mul_right _ (hlen.trans (Nat.le_of_eq hissued))).trans holds.bytes
  · intro y hy
    obtain ⟨x, hx, rfl⟩ := List.mem_map.mp hy
    exact h.get_of_mem hL (List.mem_append_right _ (List.mem_append_left _ hx))
      (hgets x (List.mem_append_left _ hx))
  · rw [hm]
    rfl
  · obtain ⟨x, hx, hzero, hkey⟩ := h.put_of_got hL first
      (List.mem_map_of_mem (f := Prod.snd) hasked)
    obtain hx | hx := List.mem_append.mp hx
    · exact List.mem_map.mpr ⟨x.2, List.mem_map_of_mem hx, hkey⟩
    · cases hzero.symm.trans (hgets x hx)

end Verdict

end Run

theorem counters_valid {put get : Engine}
    (puts : ∀ p ∈ put.trace.completed, p.2.response.status = .kOk)
    (gets : ∀ p ∈ get.trace.completed, p.2.response.status = .kOk) :
    (counters put get).validationFailures = 0 := by
  rw [counters]
  refine List.foldlRecOn _ _ (motive := fun c : Counters => c.validationFailures = 0) ?_ ?_
  · refine List.foldlRecOn _ _ (motive := fun c : Counters => c.validationFailures = 0) rfl ?_
    intro c hc x hx
    obtain ⟨p, hp, rfl⟩ := List.mem_map.mp hx
    simp only [onPut, puts p hp, ne_eq, not_true_eq_false, if_false]
    exact hc
  · intro c hc x hx
    obtain ⟨p, hp, rfl⟩ := List.mem_map.mp hx
    simp only [onGet, gets p hp, ne_eq, not_true_eq_false, if_false]
    split <;> split <;> exact hc

/-- Let the server admit the keys and the values of the stress test, have room for the requests
under way in its queue and for the entries in its cache, and let no sum of the cache overflow. If
nobody else uses it, the stress test passes whenever both engines return without an error and no
connection was lost before the server stops its workers: however the engines, the event loop and
the workers interleave, `main` returns 0. -/
theorem stress_passes (config : ServerConfig) (fds : Descriptors) (o : Options)
    (others : Nat → EngineConfig) (valid : config.validate = none) (room : Server.Roomy config)
    (key_le : 27 ≤ config.maxKeyBytes.toNat) (value_le : 256 ≤ config.maxValueBytes.toNat)
    (queue : o.connections.toNat * o.pipeline.toNat ≤ config.maxPendingRequests.toNat)
    (holds : Holds config o) (alone : ∀ k, (others k).connections = 0) {z : Net Engine}
    (h : Reach (Net.step fds (engines config (configs o others))) (Drives config)
      (Net.start config fds (engines config (configs o others))) z)
    (accepting : z.fed.server.accepting = true)
    (first : (z.peer 0).phase = .returned "") (second : (z.peer 1).phase = .returned "")
    (connected : (report (z.peer 0) (z.peer 1)).ioFailures = 0) :
    verdict (z.peer 0) (z.peer 1) = some 0 := by
  have hconfig := ServerConfig.valid_of_validate valid
  obtain ⟨M, hrun⟩ := run_of_reach hconfig room key_le value_le h
  have hserved : ∀ k, ∀ p ∈ (z.peer k).told, p.2.status ≠ .kServerBusy := by
    intro k p hp
    refine (Net.reach_uncrowded hconfig (numbered_engines config (configs o others)) (fun _ _ ok =>
      assumed_of_drives hconfig key_le value_le ok) (fun z hz s hs => ?_) h).not_busy
        accepting (k := k) (n := p.1) hp
    obtain ⟨M, hrun⟩ := run_of_reach hconfig room key_le value_le hz
    exact (hrun.bounded alone s hs).trans queue
  have hvalid := counters_valid
    (fun p hp => hrun.put_ok holds value_le first (hserved 0) hp)
    (fun p hp => hrun.get_ok holds value_le first alone second hserved hp)
  have hclean := hrun.scripted.clean hrun.histories
  have hconnect : ∀ k, (z.peer k).phase = .returned "" → (z.peer k).stats.connectFailures = 0 := by
    intro k pc
    refine (hrun.steady k).2.resolve_right ?_
    rintro ⟨error, hpc⟩
    cases pc.symm.trans hpc
  have hreport : exitCode "" (report (z.peer 0) (z.peer 1)) = 0 := by
    refine if_pos ⟨rfl, hvalid, ?_, ?_, connected, hclean.2⟩
    · simp only [report, hclean.1, (hrun.accepted 0).no_failure, (hrun.accepted 1).no_failure]
    · simp only [report, hconnect 0 first, hconnect 1 second]
  simp only [verdict, outcome, first, second, Option.bind_some, Option.map_some, if_true, hreport]

theorem stress_passes_onePair :
    ∃ z : Net Engine, (report (z.peer 0) (z.peer 1)).received = 2 ∧
      verdict (z.peer 0) (z.peer 1) = some 0 := by
  obtain ⟨z, hr, hreceived, haccepting, hfirst, hsecond, hconnected⟩ := exists_reach
    (guarded (Net.step Server.usualFds (engines Server.usualConfig
      (configs oneByOne fun _ => { socketPath := "s", connections := 0 })))
      (Drives Server.usualConfig))
    (Net.start Server.usualConfig Server.usualFds (engines Server.usualConfig
      (configs oneByOne fun _ => { socketPath := "s", connections := 0 }))) onePair
    (fun z => (report (z.peer 0) (z.peer 1)).received = 2 ∧ z.fed.server.accepting = true ∧
      (z.peer 0).phase = .returned "" ∧ (z.peer 1).phase = .returned "" ∧
      (report (z.peer 0) (z.peer 1)).ioFailures = 0)
    (by decide +kernel)
  exact ⟨z, hreceived, stress_passes Server.usualConfig Server.usualFds oneByOne _
    (by decide +kernel) (by rw [Server.Roomy]; decide) (by decide) (by decide) (by decide)
    ⟨by decide, by decide⟩ (fun _ => rfl) hr.of_guarded haccepting hfirst hsecond hconnected⟩

end Stress

end LocalCache
