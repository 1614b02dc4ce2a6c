import LocalCache.SystemStages

namespace LocalCache

open Protocol Serializer Library Transition Sessions

theorem Operation.answer_ne_busy (m : Bytes → Option Bytes) (op : Operation) :
    (op.answer m).1 ≠ .kServerBusy := by
  cases op with
  | get key | erase key => cases h : m key <;> simp [answer, h]
  | put key value | ping | clear | stats => simp [answer]

namespace System

abbrev Table := Board (Bytes → Option Bytes) Operation (Status × Bytes)

def Sound (r : Returned) : Prop :=
  r.result.ok = true ∧ (r.result.status = .kServerBusy → r.result.value = [])

/-- The board is that of a run of sessions on the map of the live entries, and the system is at
the same point. -/
structure Simulates (config : ServerConfig) (keys : Nat → Bytes → Prop) (z : System)
    (b : Table) : Prop where
  reach : Reach (Board.step unboundedMap) (Legal fun i => Permitted config (keys i))
    { store := fun _ => none } b
  store : b.store = lookup z.live
  cache : z.fed.server.cache.Holds z.live
  seen : ∀ i, b.seen i = (z.peer i).trace.returned.map Returned.seen
  stage : ∀ i, Stage config z.toNet i (b.slot i)
  sound : ∀ i, ∀ r ∈ (z.peer i).trace.returned, Sound r

variable {config : ServerConfig} {fds : Descriptors} {keys : Nat → Bytes → Prop}
  {paths : Nat → String} {z z' : System} {b : Table} {a : Action} {i : Nat} {q : Issue}

theorem simulates_start (config : ServerConfig) (fds : Descriptors) (keys : Nat → Bytes → Prop)
    (paths : Nat → String) :
    Simulates config keys (start config fds keys paths) { store := fun _ => none } where
  reach := .refl
  store := rfl
  cache := ⟨LruCache.inv_empty _, .refl _⟩
  seen := fun _ => rfl
  stage := by
    intro i
    refine ⟨fun _ => rfl, ?_, ?_, ?_, ?_, ?_⟩
    · intro q hq
      cases hq
    · intro q hq
      cases hq
    · intro j n hj hlink
      cases hlink
    · intro j r n hj hlink
      cases hlink
    · intro q c x hq
      cases hq
  sound := fun _ _ hr => by cases hr

theorem Simulates.stutter (h : Simulates config keys z b) (peer : z'.peer = z.peer)
    (live : z'.live = z.live) (cache : z'.fed.server.cache = z.fed.server.cache)
    (stage : ∀ i, Stage config z'.toNet i (b.slot i)) : Simulates config keys z' b where
  reach := h.reach
  store := live ▸ h.store
  cache := by
    rw [live, cache]
    exact h.cache
  seen := peer ▸ h.seen
  stage := stage
  sound := peer ▸ h.sound

theorem settled_none (h : z.fed.server.running a = none) : z.settled (.server a) = z.live := by
  rw [settled, h]
  rfl

theorem mem_issued (hz : Streams config keys paths z.toNet) (hq : (z.peer i).phase.issue = some q) :
    q ∈ (z.peer i).trace.issued := by
  rw [← (hz.client i).inv.issued, hq]
  exact List.mem_append_right _ (List.mem_singleton.mpr rfl)

theorem simulates_ran {job : Job} {uptimeMs : UInt64} {r : Response} {tally : Option Tally}
    (hz : Streams config keys paths z.toNet) (hz' : Streams config keys paths z'.toNet)
    (h : Simulates config keys z b) (peer : z'.peer = z.peer) (link : z'.link = z.link)
    (live : z'.live = settle z.live job.request)
    (room : Room config.cacheLimits (settle z.live job.request))
    (waits : z.fed.server.Waiting config job)
    (result : z.fed.server.execute job.request uptimeMs = some (z'.fed.server.cache, r, tally))
    (taken : z'.fed.server.ledger.taken = z.fed.server.ledger.taken)
    (answers : z'.fed.server.ledger.answers = z.fed.server.ledger.answers)
    (waiting : ∀ j, z'.fed.server.Waiting config j → z.fed.server.Waiting config j)
    (carries : z'.fed.server.Carrying config job r)
    (carrying : ∀ j r', z'.fed.server.Carrying config j r' →
      z.fed.server.Carrying config j r' ∨ (j = job ∧ r' = r)) :
    ∃ b', Simulates config keys z' b' := by
  obtain ⟨hmem, hun⟩ := hz.net.core.unanswered_of_waiting waits
  obtain ⟨i, q, serves⟩ := hz.serves hmem hun
  have hslot : b.slot i = .pending q.op := by
    obtain ⟨op, hop⟩ := (h.stage i).waiting job _ waits serves.link
    rw [hop, (h.stage i).op_eq serves.current (.inl hop)]
  have hpermitted := (hz.client i).allowed q (mem_issued hz serves.current)
  have hrequest : job.request = q.op.request q.id := serves.request
  rw [hrequest] at live room result
  obtain ⟨hcache, hanswer, heffect⟩ :=
    Server.execute_map h.cache hz.net.cached.limits_eq hpermitted room result
  have hstatus : r.status ≠ .kServerBusy := by
    have hne := q.op.answer_ne_busy (lookup z.live)
    rwa [← hanswer] at hne
  refine ⟨{ b with
    store := unboundedMap.effect b.store q.op
    slot := Function.update b.slot i (.served q.op (unboundedMap.answer b.store q.op)) },
    .tail (a := .serve i) h.reach trivial (by simp [Board.step, hslot]), ?_, ?_, peer ▸ h.seen,
    ?_, peer ▸ h.sound⟩
  · rw [live, heffect, h.store]
    rfl
  · rw [live]
    exact hcache
  · intro k
    dsimp only
    by_cases hk : k = i
    · subst hk
      rw [Function.update_self, h.store]
      have hserved := Stage.ran hz hz' peer link serves waits taken answers waiting
        carries carrying hstatus
      rw [hanswer] at hserved
      exact hserved
    · rw [Function.update_of_ne hk]
      refine (h.stage k).frame (by rw [peer]) (by rw [peer]) link
        (fun c _ _ => Server.takenOn_congr taken c) (fun c _ _ => Server.answersOn_congr answers c)
        (fun j _ _ => waiting j) ?_
      intro j r' n hlink hj
      obtain hold | ⟨rfl, -⟩ := carrying j r' hj
      · exact hold
      · exact absurd (Prod.mk.inj (Option.some.inj (hlink.symm.trans serves.link))).1 hk

theorem simulates_fed (hz : Streams config keys paths z.toNet)
    (hz' : Streams config keys paths z'.toNet) (h : Simulates config keys z b)
    (hs : Server.JobStep config z.fed.server a z'.fed.server) (peer : z'.peer = z.peer)
    (link : z'.link = z.link) (live : z'.live = z.settled (.server a))
    (room : ∀ job ∈ z.fed.server.running a,
      Room config.cacheLimits (settle z.live job.request)) :
    ∃ b', Simulates config keys z' b' := by
  cases hs with
  | kept runs cache taken answers jobs =>
    rw [settled_none runs] at live
    refine ⟨b, h.stutter peer live cache (fun i => ?_)⟩
    exact (h.stage i).frame (by rw [peer]) (by rw [peer]) link
      (fun c _ _ => Server.takenOn_congr taken c) (fun c _ _ => Server.answersOn_congr answers c)
      (fun j _ _ => jobs.waiting j) (fun j r _ _ => jobs.carrying j r)
  | took job runs cache taken answers waiting carrying =>
    rw [settled_none runs] at live
    refine ⟨b, h.stutter peer live cache (fun i => ?_)⟩
    exact (h.stage i).took hz' peer link taken answers waiting carrying
  | ran job uptimeMs response tally runs waits result taken answers waiting carries carrying =>
    rw [settled, runs] at live
    exact simulates_ran hz hz' h peer link live (room job runs) waits result taken
      answers waiting carries carrying
  | answered job response runs cache ready taken answers jobs =>
    rw [settled_none runs] at live
    refine ⟨b, h.stutter peer live cache (fun i => ?_)⟩
    exact (h.stage i).staged peer link ready taken answers jobs
  | replied p reply =>
    rw [hz.net.reply] at reply
    cases reply

theorem Stage.other {slot : Progress} {k : Nat} {x : CacheClient} (h : Stage config z.toNet k slot)
    (hk : k ≠ i) : Stage config { z.toNet with peer := Function.update z.peer i x } k slot := by
  refine h.frame ?_ ?_ rfl (fun _ _ _ => rfl) (fun _ _ _ => rfl) (fun _ _ _ hj => hj)
    (fun _ _ _ _ hj => hj) <;> dsimp only <;> rw [Function.update_of_ne hk]

theorem Stage.same {slot : Progress} {x : CacheClient} (h : Stage config z.toNet i slot)
    (issue : x.phase.issue = (z.peer i).phase.issue)
    (issued : x.trace.issued = (z.peer i).trace.issued) :
    Stage config { z.toNet with peer := Function.update z.peer i x } i slot := by
  refine h.frame ?_ ?_ rfl (fun _ _ _ => rfl) (fun _ _ _ => rfl) (fun _ _ _ hj => hj)
    (fun _ _ _ _ hj => hj) <;> dsimp only <;> rw [Function.update_self]
  · exact issue
  · exact issued

theorem stage_update {x : CacheClient} {slot : Progress}
    (h : ∀ k, Stage config z.toNet k (b.slot k))
    (own : Stage config { z.toNet with peer := Function.update z.peer i x } i slot) (k : Nat) :
    Stage config { z.toNet with peer := Function.update z.peer i x } k
      (Function.update b.slot i slot k) := by
  by_cases hk : k = i
  · subst hk
    rw [Function.update_self]
    exact own
  · rw [Function.update_of_ne hk]
    exact (h k).other hk

theorem Simulates.moved {x : CacheClient} {slot : Progress} (h : Simulates config keys z b)
    (returned : x.trace.returned = (z.peer i).trace.returned)
    (reach : Reach (Board.step unboundedMap) (Legal fun i => Permitted config (keys i))
      { store := fun _ => none } { b with slot := Function.update b.slot i slot })
    (own : Stage config { z.toNet with peer := Function.update z.peer i x } i slot) :
    Simulates config keys { z with peer := Function.update z.peer i x }
      { b with slot := Function.update b.slot i slot } where
  reach := reach
  store := h.store
  cache := h.cache
  seen := by
    apply Net.forall_update (z := z.toNet)
      (Q := fun k x => b.seen k = x.trace.returned.map Returned.seen) h.seen
    rw [returned]
    exact h.seen i
  stage := stage_update h.stage own
  sound := by
    apply Net.forall_update (z := z.toNet) (Q := fun _ x => ∀ r ∈ x.trace.returned, Sound r) h.sound
    rw [returned]
    exact h.sound i

theorem simulates_same {x : CacheClient} (h : Simulates config keys z b)
    (issue : x.phase.issue = (z.peer i).phase.issue)
    (issued : x.trace.issued = (z.peer i).trace.issued)
    (returned : x.trace.returned = (z.peer i).trace.returned) :
    Simulates config keys { z with peer := Function.update z.peer i x } b := by
  have hb : { b with slot := Function.update b.slot i (b.slot i) } = b := by
    rw [Function.update_eq_self]
  rw [← hb]
  apply h.moved returned
  · rw [hb]
    exact h.reach
  · exact (h.stage i).same issue issued

theorem simulates_begun {op : Operation} {n : Nat} {id : UInt64} {x : CacheClient}
    (hz : Streams config keys paths z.toNet) (h : Simulates config keys z b)
    (permitted : Permitted config (keys i) op) (idle : (z.peer i).phase.issue = none)
    (issue : x.phase.issue = some ⟨n, op, id⟩)
    (issued : x.trace.issued = (z.peer i).trace.issued ++ [⟨n, op, id⟩])
    (returned : x.trace.returned = (z.peer i).trace.returned) :
    Simulates config keys { z with peer := Function.update z.peer i x }
      { b with slot := Function.update b.slot i (.pending op) } := by
  apply h.moved returned
  · exact .tail (a := .submit i op) h.reach permitted
      (by simp [Board.step, (h.stage i).idle idle])
  · have hself : Function.update z.peer i x i = x := Function.update_self ..
    exact Stage.begun hz rfl rfl idle ((congrArg (·.phase.issue) hself).trans issue)
      ((congrArg (·.trace.issued) hself).trans issued)

theorem simulates_closed {r : Returned} {answer : Option (Status × Bytes)} {e : Event Operation}
    {op : Operation} {x : CacheClient}
    (hz' : Streams config keys paths { z.toNet with peer := Function.update z.peer i x })
    (h : Simulates config keys z b) (issue : x.phase.issue = none)
    (returned : x.trace.returned = (z.peer i).trace.returned ++ [r]) (sound : Sound r)
    (seen : r.seen = (op, answer)) (ok : Legal (fun i => Permitted config (keys i)) b e)
    (hs : b.step unboundedMap e = some (b.close i op answer)) :
    Simulates config keys { z with peer := Function.update z.peer i x }
      (b.close i op answer) where
  reach := .tail h.reach ok hs
  store := h.store
  cache := h.cache
  seen := by
    intro k
    dsimp only [Board.close]
    by_cases hk : k = i
    · subst hk
      rw [Function.update_self, Function.update_self, returned, List.map_append,
        List.map_singleton, seen, h.seen]
    · rw [Function.update_of_ne hk, Function.update_of_ne hk]
      exact h.seen k
  stage := by
    apply stage_update h.stage
    apply Stage.ended hz'
    dsimp only
    rw [Function.update_self]
    exact issue
  sound := by
    apply Net.forall_update (z := z.toNet) (Q := fun _ x => ∀ r ∈ x.trace.returned, Sound r) h.sound
    intro r' hr'
    rw [returned, List.mem_append, List.mem_singleton] at hr'
    obtain hr' | rfl := hr'
    · exact h.sound i r' hr'
    · exact sound

theorem simulates_replied {out : Response} {offset handed : Nat} {x : CacheClient}
    (hz : Streams config keys paths z.toNet)
    (hz' : Streams config keys paths { z.toNet with peer := Function.update z.peer i x })
    (h : Simulates config keys z b) (current : (z.peer i).phase.issue = some q)
    (issue : x.phase.issue = none)
    (returned : x.trace.returned = (z.peer i).trace.returned ++
      [⟨q.op, some q, handed, some ⟨offset, out⟩, CacheClient.resultOf q out⟩]) :
    ∃ b', Simulates config keys { z with peer := Function.update z.peer i x } b' := by
  obtain ⟨c, y, hlink, hlen, hlast, rfl, hid, hopcode⟩ := reply_matches hz hz' rfl rfl
    current (by dsimp only; rw [Function.update_self]; exact returned)
  rw [CacheClient.resultOf_matching hid hopcode] at returned
  obtain ⟨hbusy, hvalue, op, hslot⟩ | ⟨hbusy, op, hslot⟩ :=
    (h.stage i).answered q c y current hlink hlen hlast
  · obtain rfl := (h.stage i).op_eq current (.inl hslot)
    refine ⟨b.close i q.op none, simulates_closed (e := .refuse i) hz' h issue returned
      ⟨rfl, fun _ => hvalue⟩ ?_ trivial ?_⟩
    · rw [Returned.seen, if_pos hbusy]
    · simp [Board.step, hslot]
  · obtain rfl := (h.stage i).op_eq current (.inr ⟨_, hslot⟩)
    refine ⟨b.close i q.op (some (y.response.status, y.response.value)),
      simulates_closed (e := .deliver i) hz' h issue returned
        ⟨rfl, fun hb => absurd hb hbusy⟩ ?_ trivial ?_⟩
    · rw [Returned.seen, if_neg hbusy]
    · simp [Board.step, hslot]

theorem simulates_accepted {fd k n : Nat} {fed : Fed} (hconfig : config.Valid)
    (hz : Streams config keys paths z.toNet) (h : Simulates config keys z b)
    (hs : z.fed.step config fds (.loop (.client fd true)) = some fed) :
    ∃ b', Simulates config keys { z with
      fed := fed
      link := Function.update z.link z.fed.server.nextConnectionId (some (k, n)) } b' := by
  have hfed : Streams config keys paths { z.toNet with fed := fed } :=
    ⟨Net.inv_fed hconfig hz.net (by simp [Net.arrives]) hs, ordered_fed hz (jobStep_fed hs)⟩
  obtain ⟨b', h'⟩ : ∃ b', Simulates config keys { z with fed := fed } b' :=
    simulates_fed hz hfed h (jobStep_fed hs) rfl rfl rfl (fun job runs => by cases runs)
  refine ⟨b', h'.reach, h'.store, h'.cache, h'.seen, fun i => ?_, h'.sound⟩
  exact (h'.stage i).accept hfed (Net.link_next (z := z.toNet) hz.net)

theorem simulates_step (hconfig : config.Valid) (hz : Streams config keys paths z.toNet)
    (hz' : Streams config keys paths z'.toNet) (h : Simulates config keys z b)
    {a : NetAction ClientAction} (ok : Assumed config keys z a)
    (hm : Net.Moves fds (sessions config keys paths) z.toNet a z'.toNet)
    (live : z'.live = z.settled a) : ∃ b', Simulates config keys z' b' := by
  obtain ⟨net, live'⟩ := z'
  dsimp only at hz' hm live
  subst live
  cases hm with
  | served a fed arrives hs =>
    refine simulates_fed hz hz' h (jobStep_fed hs) rfl rfl rfl ?_
    intro job runs
    have room : Room config.cacheLimits (z.settled (.server a)) := ok
    rw [settled, runs] at room
    exact room
  | accepted fd k n fed awaits hs more => exact simulates_accepted hconfig hz h hs
  | rejected fd k n fed hs =>
    exact simulates_fed hz hz' h (jobStep_fed hs) rfl rfl rfl (fun job runs => by cases runs)
  | moved i a x delivers hs =>
    have steady := (hz.client i).steady (hz.net.served i) (net_assumed paths hconfig ok)
    cases CacheClient.ends_of_moves (CacheClient.moves_of_step hs) with
    | kept issue issued returned => exact ⟨b, simulates_same h issue issued returned⟩
    | begun op n act idle held issue issued returned =>
      exact ⟨_, simulates_begun hz h (ok.2 op (by rw [act]; rfl)).2 idle issue issued returned⟩
    | failed op handed error unsteady => exact absurd steady unsteady
    | answered q out rest offset pc frame value_le issue issued returned =>
      exact simulates_replied hz hz' h (by rw [pc]; rfl) issue returned

theorem reach_simulates (hconfig : config.Valid)
    (h : Reach (step config fds keys paths) (Assumed config keys)
      (start config fds keys paths) z) : ∃ b, Simulates config keys z b := by
  have hp : Streams config keys paths z.toNet ∧ ∃ b, Simulates config keys z b := by
    refine h.invariant
      (P := fun z => Streams config keys paths z.toNet ∧ ∃ b, Simulates config keys z b)
      ⟨streams_start config fds keys paths, _, simulates_start config fds keys paths⟩ ?_
    rintro z a z' ⟨hz, b, hb⟩ ok hs
    obtain ⟨hm, live⟩ := moves_of_step hs
    have hz' := streams_moves hconfig hz (net_assumed paths hconfig ok) hm
    exact ⟨hz', simulates_step hconfig hz hz' hb ok hm live⟩
  exact hp.2

/-- Clients that keep to disjoint sets of keys do not interfere. Whatever the order in which the
event loop, the workers and the clients move, as long as the live entries stay within the limits
of the cache and no system call of a client fails, every operation returns without an error, and
the statuses and values that a client sees are those of its own operations alone on an empty map
without limits, where an operation answered with `SERVER_BUSY` has no effect. -/
theorem clients_isolated (config : ServerConfig) (fds : Descriptors) (paths : Nat → String)
    (keys : Nat → Bytes → Prop) (valid : config.validate = none)
    (disjoint : ∀ i j k, keys i k → keys j k → i = j) {z : System}
    (h : Reach (step config fds keys paths) (Assumed config keys)
      (start config fds keys paths) z) (i : Nat) :
    (∀ r ∈ (z.peer i).trace.returned, r.result.ok = true ∧
      (r.result.status = .kServerBusy → r.result.value = [])) ∧
      Alone unboundedMap (fun _ => none) ((z.peer i).trace.returned.map Returned.seen) := by
  obtain ⟨b, hb⟩ := reach_simulates (ServerConfig.valid_of_validate valid) h
  refine ⟨hb.sound i, ?_⟩
  rw [← hb.seen]
  exact alone_of_reach (separated_unboundedMap config disjoint) hb.reach i

def byLength (i : Nat) (k : Bytes) : Prop := k.length = i + 1

instance (i : Nat) : DecidablePred (byLength i) :=
  fun k => inferInstanceAs (Decidable (k.length = i + 1))

def asks (i : Nat) (op : Operation) : List (NetAction ClientAction) :=
  [.peer i (.call op), .peer i (.send (.sent (serializeRequest (op.request 0)).length) ""),
    .peer i .parse]

def gets (i : Nat) (r : Response) : List (NetAction ClientAction) :=
  [.peer i (.recv (.data (serializeResponse r)) ""), .peer i .parse]

def writesOne (n : Nat) : List Action :=
  .loop (.send (.sent n)) :: List.replicate 5 (.loop .internal) ++
    [.loop (.control true), .loop .internal]

def refuseOne (fd : Nat) (bytes : Bytes) : List Action :=
  [.loop (.batch [(fd, { epollin := true })]), .loop .internal, .loop (.recv (.data bytes))] ++
    List.replicate 4 (.loop .internal) ++ writesOne 24

def answerOne (n : Nat) : List Action :=
  List.replicate 10 (.worker 0 0) ++ [.loop (.batch [(6, { epollin := true })])] ++
    List.replicate 5 (.loop .internal) ++ writesOne n

/-- Two clients and a queue with one place: while the PUT of the first waits there, the GET of the
second is refused, and the first then gets what it put. -/
theorem clients_isolated_refused :
    ∃ z : System, (z.peer 0).trace.returned.map Returned.seen =
        [(.put [1] [9], some (.kOk, [])), (.get [1], some (.kOk, [9]))] ∧
      (z.peer 1).trace.returned.map Returned.seen = [(.get [1, 2], none)] ∧
      ∀ i, Alone unboundedMap (fun _ => none)
        ((z.peer i).trace.returned.map Returned.seen) := by
  obtain ⟨z, hr, hfirst, hsecond⟩ := exists_reach
    (guarded (step Server.oneSlot Server.usualFds byLength (fun _ => "s"))
      (Assumed Server.oneSlot byLength))
    (start Server.oneSlot Server.usualFds byLength (fun _ => "s"))
    ([.peer 0 (.connect .connected ""), .peer 1 (.connect .connected ""),
        .server (.loop (.batch [(3, { epollin := true })])), .server (.loop .internal),
        .accept 7 0 0, .accept 8 1 0, .server (.loop .acceptStop), .server (.loop .internal)] ++
      asks 0 (.put [1] [9]) ++ asks 1 (.get [1, 2]) ++
      (Server.readOne 7 (serializeRequest ⟨.kPut, 1, [1], [9]⟩) ++
        refuseOne 8 (serializeRequest ⟨.kGet, 1, [1, 2], []⟩) ++ answerOne 24).map .server ++
      gets 1 ⟨.kGet, .kServerBusy, 1, []⟩ ++ gets 0 ⟨.kPut, .kOk, 1, []⟩ ++ asks 0 (.get [1]) ++
      (Server.readOne 7 (serializeRequest ⟨.kGet, 2, [1], []⟩) ++ answerOne 25).map .server ++
      gets 0 ⟨.kGet, .kOk, 2, [9]⟩)
    (fun z => (z.peer 0).trace.returned.map Returned.seen =
        [(.put [1] [9], some (.kOk, [])), (.get [1], some (.kOk, [9]))] ∧
      (z.peer 1).trace.returned.map Returned.seen = [(.get [1, 2], none)])
    (by decide +kernel)
  refine ⟨z, hfirst, hsecond, fun i => ?_⟩
  refine (clients_isolated Server.oneSlot Server.usualFds (fun _ => "s") byLength
    (by decide +kernel) ?_ hr.of_guarded i).2
  intro i j k hi hj
  exact Nat.succ.inj (hi.symm.trans hj)

end System

end LocalCache
