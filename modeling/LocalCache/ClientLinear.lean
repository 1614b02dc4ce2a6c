import LocalCache.ClientPeer
import LocalCache.PeerLinear

namespace LocalCache

open Protocol Serializer RequestCodec Library Transition Linearization

namespace CacheClient

variable {limits : Limits} {c c' : CacheClient} {a : ClientAction} {i : Issue} {n : Nat}
  {rs : List Response} {out : Response} {rest : Bytes}

/-- What the caller of a client has to keep to: it asks for nothing that the server would call
malformed and for fewer operations than there are ids, and after an operation that failed on a
connection it begins no other on it. -/
def Proper (limits : Limits) (c : CacheClient) : ClientAction → Prop
  | .call op => Grammatical (op.request 0) limits ∧ c.trace.issued.length + 1 < 2 ^ 64 ∧
      ∀ r ∈ c.trace.returned, ∀ i ∈ r.issue, c.fd = some i.connection → r.reply ≠ none
  | _ => True

structure Orderly (limits : Limits) (c : CacheClient) : Prop where
  inv : c.Inv
  wire : c.Wire
  drawn : c.Drawn
  /-- Whoever got a response had sent the whole request, and the response is to that request. -/
  answers : ∀ r ∈ c.trace.returned, ∀ i ∈ r.issue, ∀ p ∈ r.reply,
    r.handed = i.frame.length ∧ AnswersTo p.response i.request ∧
      r.result = { status := p.response.status, value := p.response.value }
  /-- All the earlier requests of the connection were answered. -/
  prior : ∀ i, c.phase.issue = some i → ∀ r ∈ c.trace.returned, ∀ j ∈ r.issue,
    j.connection = i.connection → r.reply ≠ none
  sequence : c.attempts.Pairwise
    (fun x y => x.issue.connection = y.issue.connection → x.Done)
  grammatical : ∀ i ∈ c.trace.issued, Grammatical i.request limits
  few : c.trace.issued.length < 2 ^ 64

theorem orderly_start (path : String) : Orderly limits { socketPath := path } where
  inv := inv_start path
  wire := wire_start path
  drawn := drawn_start path
  answers := fun _ hr => by cases hr
  prior := fun _ hi => by cases hi
  sequence := List.Pairwise.nil
  grammatical := fun _ hi => by cases hi
  few := Nat.two_pow_pos 64

namespace Orderly

theorem numbered (h : c.Orderly limits) : (c.asked.map fun p => p.2.requestId).Nodup := by
  have hids := h.inv.ids_nodup h.few
  rw [asked, List.map_map]
  exact hids

theorem mem_used {r : Returned} {p : Reply} (hr : r ∈ c.trace.returned) (hi : r.issue = some i)
    (hp : r.reply = some p) : p ∈ c.trace.used i.connection := by
  refine List.mem_filterMap.mpr ⟨r, hr, ?_⟩
  rw [Returned.usedOn, hi, Option.bind_some, if_pos rfl, hp]

theorem correlated (h : c.Orderly limits) (pc : c.phase = .parsing i)
    (frame : c.inBuf = serializeResponse out ++ rest)
    (value_le : out.value.length ≤ kMaxValueBytes.toNat)
    (served : Served (listedOn i.connection c.asked) (c.trace.received i.connection) rs) :
    AnswersTo out i.request := by
  have hissue : c.phase.issue = some i := by rw [pc]; rfl
  obtain ⟨more, rfl, hinput⟩ := h.drawn.split h.inv (h.inv.current i hissue) served
  have hfirst : [out] <+: more := by
    refine responses_prefix ?_ (fun r hr => served.sized r (List.mem_append_right _ hr)) ?_
    · intro r hr
      rw [List.mem_singleton.mp hr]
      exact value_le
    · rw [List.flatMap_singleton]
      rw [frame] at hinput
      exact (List.prefix_append _ _).trans hinput
  obtain ⟨others, rfl⟩ := hfirst
  obtain ⟨q, hq, hanswers⟩ := served.answers out (by simp)
  rw [listedOn_asked] at hq
  obtain ⟨j, hj, rfl⟩ := List.mem_map.mp hq
  obtain ⟨hj, hconn⟩ := List.mem_filter.mp hj
  rw [← h.inv.issued, hissue] at hj
  obtain hj | hj := List.mem_append.mp hj
  · -- An earlier request would have been answered twice.
    exfalso
    obtain ⟨r, hr, hrj⟩ := List.mem_filterMap.mp hj
    have hreply := h.prior i hissue r hr j hrj (of_decide_eq_true hconn)
    obtain ⟨p, hp⟩ := Option.ne_none_iff_exists'.mp hreply
    have hused := mem_used hr hrj hp
    rw [of_decide_eq_true hconn] at hused
    have hdistinct := served.distinct (nodup_listedOn h.numbered i.connection)
    rw [List.map_append, List.nodup_append] at hdistinct
    refine hdistinct.2.2 p.response.requestId ?_ out.requestId (by simp) ?_
    · exact List.mem_map_of_mem (List.mem_map_of_mem hused)
    · exact (h.answers r hr j hrj p hp).2.1.2.trans hanswers.2.symm
  · obtain rfl : j = i := by simpa using hj
    exact hanswers

/-- A request is begun when all the earlier ones on the connection have been answered, so that
their frames were sent as a whole. -/
theorem sequence_moves (h : c.Orderly limits) (ok : c.Proper limits a) (hm : Moves c a c') :
    c'.attempts.Pairwise (fun x y => x.issue.connection = y.issue.connection → x.Done) := by
  have hsequence := h.sequence
  cases wireStep_moves h.wire.outBuf hm with
  | kept same sent settled =>
    rw [same]
    exact hsequence
  | begun op n id act held sized more sent settled =>
    subst act
    rw [more]
    refine List.pairwise_append.mpr ⟨hsequence, List.pairwise_singleton _ _, ?_⟩
    intro x hx y hy hxy
    rw [List.mem_singleton.mp hy] at hxy
    obtain hx | hx := List.mem_append.mp hx
    · obtain ⟨r, hr, hrx⟩ := List.mem_filterMap.mp hx
      obtain ⟨i, hi, rfl⟩ := Option.map_eq_some_iff.mp hrx
      have hreply := ok.2.2 r hr i hi (held.trans (congrArg some hxy.symm))
      obtain ⟨p, hp⟩ := Option.ne_none_iff_exists'.mp hreply
      exact Nat.le_of_eq (h.answers r hr i hi p hp).1.symm
    · -- No other request is in progress.
      cases hm with
      | issued op connection idle =>
        rw [underway, idle] at hx
        cases hx
      | rejected op error idle =>
        rw [underway, idle] at hx
        cases hx
  | handed i k m act under after sent settled =>
    rw [attempts_underway under] at hsequence
    rw [after]
    obtain ⟨hl, -, hlast⟩ := List.pairwise_append.mp hsequence
    refine List.pairwise_append.mpr ⟨hl, List.pairwise_singleton _ _, ?_⟩
    intro x hx y hy hxy
    rw [List.mem_singleton.mp hy] at hxy
    exact hlast x hx ⟨i, k⟩ (List.mem_singleton.mpr rfl) hxy

theorem answers_moves (h : c.Orderly limits)
    (served : ∀ n, ∃ rs, Served (listedOn n c.asked) (c.trace.received n) rs)
    (hm : Moves c a c') : ∀ r ∈ c'.trace.returned, ∀ i ∈ r.issue, ∀ p ∈ r.reply,
      r.handed = i.frame.length ∧ AnswersTo p.response i.request ∧
        r.result = { status := p.response.status, value := p.response.value } := by
  cases ends_of_moves hm with
  | kept issue issued returned | begun op n act idle held issue issued returned =>
    rw [returned]
    exact h.answers
  | failed op handed error unsteady issue issued returned =>
    rw [returned]
    intro r hr i hi p hp
    obtain hr | hr := List.mem_append.mp hr
    · exact h.answers r hr i hi p hp
    · rw [List.mem_singleton.mp hr] at hp
      cases hp
  | answered i out rest offset pc frame value_le issue issued returned =>
    rw [returned]
    intro r hr j hj p hp
    obtain hr | hr := List.mem_append.mp hr
    · exact h.answers r hr j hj p hp
    · rw [List.mem_singleton.mp hr] at hj hp ⊢
      obtain rfl := Option.some.inj hj
      obtain rfl := Option.some.inj hp
      obtain ⟨rs, hrs⟩ := served i.connection
      have hanswers := h.correlated pc frame value_le hrs
      exact ⟨by rw [h.wire.outBuf i (by rw [pc]; rfl)], hanswers,
        resultOf_matching hanswers.2 hanswers.1⟩

theorem prior_moves (h : c.Orderly limits) (ok : c.Proper limits a) (hm : Moves c a c') :
    ∀ i, c'.phase.issue = some i → ∀ r ∈ c'.trace.returned, ∀ j ∈ r.issue,
      j.connection = i.connection → r.reply ≠ none := by
  intro i hi
  cases ends_of_moves hm with
  | kept issue issued returned =>
    rw [issue] at hi
    rw [returned]
    exact h.prior i hi
  | begun op n act idle held issue issued returned =>
    subst act
    rw [issue] at hi
    obtain rfl := Option.some.inj hi
    rw [returned]
    intro r hr j hj hconn
    exact ok.2.2 r hr j hj (by rw [held, hconn])
  | failed op handed error unsteady issue | answered i out rest offset pc frame value_le issue =>
    rw [issue] at hi
    cases hi

theorem grammatical_moves (h : c.Orderly limits) (ok : c.Proper limits a) (hm : Moves c a c') :
    (∀ i ∈ c'.trace.issued, Grammatical i.request limits) ∧ c'.trace.issued.length < 2 ^ 64 := by
  cases ends_of_moves hm with
  | kept issue issued returned | failed op handed error unsteady issue issued
  | answered i out rest offset pc frame value_le issue issued =>
    rw [issued]
    exact ⟨h.grammatical, h.few⟩
  | begun op n act idle held issue issued returned =>
    subst act
    rw [issued]
    constructor
    · intro i hi
      obtain hi | hi := List.mem_append.mp hi
      · exact h.grammatical i hi
      · rw [List.mem_singleton.mp hi]
        exact Operation.grammatical_request ok.1 _
    · rw [List.length_append, List.length_singleton]
      exact ok.2.1

theorem moves (h : c.Orderly limits)
    (served : ∀ n, ∃ rs, Served (listedOn n c.asked) (c.trace.received n) rs)
    (ok : c.Proper limits a) (hm : Moves c a c') : c'.Orderly limits where
  inv := inv_moves h.inv hm
  wire := wire_moves h.wire hm
  drawn := drawn_moves h.drawn h.inv hm
  answers := h.answers_moves served hm
  prior := h.prior_moves ok hm
  sequence := h.sequence_moves ok hm
  grammatical := (h.grammatical_moves ok hm).1
  few := (h.grammatical_moves ok hm).2

end Orderly

def proper (limits : Limits) (path : String) : Usage limits path where
  ok := Proper limits
  Inv := Orderly limits
  inv := Orderly.inv
  wire := Orderly.wire
  drawn := Orderly.drawn
  framed := fun h => h.wire.framed h.inv h.sequence
  grammatical := Orderly.grammatical
  inv_start := orderly_start path
  inv_moves := Orderly.moves

instance (limits : Limits) (c : CacheClient) : (a : ClientAction) → Decidable (c.Proper limits a)
  | .call _ => inferInstanceAs (Decidable (_ ∧ _ ∧ _))
  | .connect _ _ | .disconnect | .send _ _ | .parse | .recv _ _ => isTrue trivial

def clients (config : ServerConfig) (paths : Nat → String) (k : Nat) :
    Peer config.frameLimits CacheClient ClientAction :=
  (proper config.frameLimits (paths k)).peer

instance (config : ServerConfig) (paths : Nat → String) (z : Net CacheClient)
    (a : NetAction ClientAction) : Decidable (Net.Assumed (clients config paths) z a) :=
  match a with
  | .peer k a => inferInstanceAs (Decidable ((z.peer k).Proper config.frameLimits a))
  | .server _ | .accept _ _ _ => isTrue trivial

/-- Let the callers of the clients keep to the rules of `Proper`, and no sum of the cache overflow.
However the clients, the event loop and the workers interleave, whatever system calls fail and
whichever keys the clients share: an operation that gets a response returns it, and never reports
that it is malformed or does not belong to its request. The operations are linearizable, from the
call of `execute` to its return, where one that failed has taken effect once or not at all. -/
theorem clients_linearizable (config : ServerConfig) (fds : Descriptors) (paths : Nat → String)
    (valid : config.validate = none) (room : Server.Roomy config)
    {t : Traced (Net CacheClient)
      (Event Job Request Response ⊕ Event (Nat × UInt64) Request Response)}
    (h : Reach (traced (Net.step fds (clients config paths))
        (Net.emits fds (clients config paths)))
      (fun t => Net.Assumed (clients config paths) t.state)
      ⟨Net.start config fds (clients config paths), []⟩ t) :
    (∀ k, ∀ r ∈ (t.state.peer k).trace.returned, ∀ i ∈ r.issue, ∀ p ∈ r.reply,
        r.result = { status := p.response.status, value := p.response.value } ∧
        .ret (k, i.id) p.response ∈ outside t.trace) ∧
      (∀ k i, (t.state.peer k).phase = .parsing i →
        (deserializeResponse (t.state.peer k).inBuf kClientLimits {}).1.status ≠ .kMalformed) ∧
      ∃ L, Linearizes (LruServer.object config.cacheLimits) [] (outside t.trace) L := by
  have hh := Net.reach_histories (ServerConfig.valid_of_validate valid) room
    (fun _ _ h => Orderly.numbered h) h
  have horderly (k : Nat) : (t.state.peer k).Orderly config.frameLimits := hh.inv.peers k
  refine ⟨?_, ?_, hh.linearizes⟩
  · intro k r hr i hi p hp
    obtain ⟨-, hanswers, hresult⟩ := (horderly k).answers r hr i hi p hp
    have htold : (i.connection, p.response) ∈ (t.state.peer k).told := by
      refine List.mem_filterMap.mpr ⟨r, hr, ?_⟩
      rw [Returned.exchange, hi, hp]
      rfl
    have hret := hh.rets k _ htold
    dsimp only at hret
    rw [hanswers.2] at hret
    exact ⟨hresult, mem_outside.mpr hret⟩
  · intro k i pc
    have held := (horderly k).inv.current i (by rw [pc]; rfl)
    obtain ⟨rs, hrs⟩ := hh.inv.served k i.connection
    exact (horderly k).drawn.readable (horderly k).inv held hrs

def sendsOne (op : Operation) (n : Nat) : List ClientAction :=
  [.connect .connected "", .call op, .send (.sent n) "", .parse]

theorem clients_linearizable_timeout :
    ∃ t : Traced (Net CacheClient)
        (Event Job Request Response ⊕ Event (Nat × UInt64) Request Response),
      outside t.trace = [.call (0, 1) ⟨.kPut, 1, [1], [9]⟩, .call (1, 1) ⟨.kGet, 1, [1], []⟩,
        .ret (1, 1) ⟨.kGet, .kOk, 1, [9]⟩] ∧
      (t.state.peer 0).trace.returned.map (fun r => r.result.error) = ["receive timed out"] ∧
      ∃ L, Linearizes (LruServer.object Server.usualConfig.cacheLimits) []
        (outside t.trace) L := by
  obtain ⟨t, hr, htrace, herror⟩ := exists_reach
    (guarded (traced (Net.step Server.usualFds (clients Server.usualConfig fun _ => "s"))
        (Net.emits Server.usualFds (clients Server.usualConfig fun _ => "s")))
      (fun t => Net.Assumed (clients Server.usualConfig fun _ => "s") t.state))
    ⟨Net.start Server.usualConfig Server.usualFds (clients Server.usualConfig fun _ => "s"), []⟩
    ((sendsOne (.put [1] [9]) 26).map (.peer 0) ++ [.peer 0 (.recv .eagain "")] ++
      Net.servesOne 7 0 ⟨.kPut, 1, [1], [9]⟩ 24 ++ (sendsOne (.get [1]) 25).map (.peer 1) ++
      Net.servesOne 8 1 ⟨.kGet, 1, [1], []⟩ 25 ++
      [.peer 1 (.recv (.data (serializeResponse ⟨.kGet, .kOk, 1, [9]⟩)) ""), .peer 1 .parse])
    (fun t => outside t.trace = [.call (0, 1) ⟨.kPut, 1, [1], [9]⟩,
        .call (1, 1) ⟨.kGet, 1, [1], []⟩, .ret (1, 1) ⟨.kGet, .kOk, 1, [9]⟩] ∧
      (t.state.peer 0).trace.returned.map (fun r => r.result.error) = ["receive timed out"])
    (by decide +kernel)
  exact ⟨t, htrace, herror, (clients_linearizable Server.usualConfig Server.usualFds
    (fun _ => "s") (by decide +kernel) (by rw [Server.Roomy]; decide) hr.of_guarded).2.2⟩

end CacheClient

end LocalCache
