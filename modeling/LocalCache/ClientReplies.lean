import LocalCache.CacheClient
import LocalCache.Library.Transition

namespace LocalCache

open Protocol Serializer Library Transition

def ClientPhase.issue : ClientPhase → Option Issue
  | .idle => none
  | .sending issue _ | .parsing issue | .receiving issue => some issue

def Reply.stop (p : Reply) : Nat := p.offset + (serializeResponse p.response).length

structure Reply.Stands (p : Reply) (stream : Bytes) : Prop where
  frame : serializeResponse p.response <+: stream.drop p.offset
  value_le : p.response.value.length ≤ kMaxValueBytes.toNat

/-- The result is what a response frame says that answers the request. -/
structure Returned.Answered (r : Returned) (i : Issue) (p : Reply) : Prop where
  issue : r.issue = some i
  reply : r.reply = some p
  op : i.op = r.op
  id : p.response.requestId = i.id
  opcode : p.response.opcode = r.op.opcode
  status : r.result.status = p.response.status
  value : r.result.value = p.response.value

def Returned.usedOn (n : Nat) (r : Returned) : Option Reply :=
  r.issue.bind (fun i => if i.connection = n then r.reply else none)

def ClientTrace.used (t : ClientTrace) (n : Nat) : List Reply :=
  t.returned.filterMap (Returned.usedOn n)

theorem Reply.Stands.stop_le {p : Reply} {stream : Bytes} (h : p.Stands stream) :
    p.stop ≤ stream.length := by
  have hle := h.frame.length_le
  have hpos : 0 < (serializeResponse p.response).length := by
    rw [ResponseCodec.length_serializeResponse]
    exact Nat.lt_of_lt_of_le (by decide) (Nat.le_add_right kHeaderSize _)
  rw [List.length_drop] at hle
  unfold stop
  omega

theorem Reply.Stands.append {p : Reply} {stream : Bytes} (h : p.Stands stream) (bytes : Bytes) :
    p.Stands (stream ++ bytes) := by
  refine ⟨?_, h.value_le⟩
  have hle := h.stop_le
  unfold stop at hle
  rw [List.drop_append_of_le_length (by omega)]
  exact h.frame.trans (List.prefix_append _ _)

namespace CacheClient

variable {c c' : CacheClient} {a : ClientAction}

structure Inv (c : CacheClient) : Prop where
  fd_lt : ∀ n, c.fd = some n → n < c.trace.connections
  current : ∀ i, c.phase.issue = some i → c.fd = some i.connection
  issued : c.trace.returned.filterMap (·.issue) ++ c.phase.issue.toList = c.trace.issued
  ids : c.trace.issued.map (·.id) =
    (List.range c.trace.issued.length).map (fun k => UInt64.ofNat (k + 1))
  next : c.nextRequestId = UInt64.ofNat (c.trace.issued.length + 1)
  buffered : ∀ n, c.fd = some n → c.inBuf <:+ c.trace.received n
  stand : ∀ n, ∀ p ∈ c.trace.used n, p.Stands (c.trace.received n)
  answered : ∀ r ∈ c.trace.returned, r.result.ok → ∃ i p, r.Answered i p
  order : ∀ n, (c.trace.used n).Pairwise (fun p q => p.stop ≤ q.offset)
  before : ∀ n, c.fd = some n →
    ∀ p ∈ c.trace.used n, p.stop + c.inBuf.length ≤ (c.trace.received n).length

theorem inv_start (path : String) : Inv { socketPath := path } where
  fd_lt := by simp
  current := by simp [ClientPhase.issue]
  issued := rfl
  ids := rfl
  next := rfl
  buffered := by simp
  stand := by simp [ClientTrace.used]
  answered := by simp
  order := by simp [ClientTrace.used]
  before := by simp

theorem Inv.disconnect (h : c.Inv) (idle : c.phase = .idle) : c.disconnect.Inv :=
  { h with
    fd_lt := by simp [CacheClient.disconnect]
    current := by
      intro i hi
      rw [show c.disconnect.phase = .idle from idle] at hi
      cases hi
    buffered := by simp [CacheClient.disconnect]
    before := by simp [CacheClient.disconnect] }

theorem Inv.connected (h : c.Inv) (idle : c.phase = .idle) :
    Inv { c with
      fd := some c.trace.connections
      inBuf := []
      trace := { c.trace with connections := c.trace.connections + 1 } } :=
  { h with
    fd_lt := by
      rintro n ⟨⟩
      exact Nat.lt_succ_self _
    current := by
      intro i hi
      rw [show c.phase.issue = none by rw [idle]; rfl] at hi
      cases hi
    buffered := fun n _ => List.nil_suffix
    before := by
      intro n _ p hp
      rw [List.length_nil, Nat.add_zero]
      exact (h.stand n p hp).stop_le }

theorem used_failed (op : Operation) (issue : Option Issue) (result : ClientResult)
    (c : CacheClient) (n : Nat) :
    (c.finish op issue none result).trace.used n = c.trace.used n := by
  cases issue <;> simp [ClientTrace.used, finish, Returned.usedOn]

theorem used_replied (i : Issue) (p : Reply) (result : ClientResult) (c : CacheClient) (n : Nat) :
    (c.finish i.op (some i) (some p) result).trace.used n =
      c.trace.used n ++ if i.connection = n then [p] else [] := by
  by_cases hn : i.connection = n <;> simp [ClientTrace.used, finish, Returned.usedOn, hn]

theorem mem_used_replied {i : Issue} {p q : Reply} {result : ClientResult} {n : Nat}
    (h : q ∈ (c.finish i.op (some i) (some p) result).trace.used n) :
    q ∈ c.trace.used n ∨ (i.connection = n ∧ q = p) := by
  rw [used_replied, List.mem_append] at h
  obtain h | h := h
  · exact .inl h
  · split at h
    · exact .inr ⟨‹_›, List.mem_singleton.mp h⟩
    · cases h

theorem Inv.failed (h : c.Inv) (op : Operation) (issue : Option Issue) (error : String)
    (pc : c.phase.issue = issue) (he : error ≠ "") :
    Inv (c.finish op issue none { error := error }) := by
  have hused : ∀ n, (c.finish op issue none { error := error }).trace.used n =
      c.trace.used n := used_failed op issue _ c
  refine { h with
    current := by simp [finish, ClientPhase.issue]
    issued := ?_
    stand := fun n p hp => h.stand n p (hused n ▸ hp)
    answered := ?_
    order := fun n => (hused n).symm ▸ h.order n
    before := fun n hn p hp => h.before n hn p (hused n ▸ hp) }
  · have hi := h.issued
    rw [pc] at hi
    rw [show (c.finish op issue none { error := error }).trace.issued = c.trace.issued from rfl,
      ← hi]
    cases issue <;> simp [finish, ClientPhase.issue]
  · intro r hr hok
    simp only [finish, List.mem_append, List.mem_singleton] at hr
    obtain hr | rfl := hr
    · exact h.answered r hr hok
    · simp only [ClientResult.ok, decide_eq_true_eq] at hok
      exact absurd hok he

theorem Inv.issue (h : c.Inv) (op : Operation) (connection : Nat) (idle : c.phase = .idle)
    (held : c.fd = some connection) :
    Inv { c with
      nextRequestId := c.nextRequestId + 1
      outBuf := serializeRequest (op.request c.nextRequestId)
      phase := .sending ⟨connection, op, c.nextRequestId⟩ 0
      trace := { c.trace with
        issued := c.trace.issued ++ [⟨connection, op, c.nextRequestId⟩] } } := by
  refine { h with
    current := ?_
    issued := ?_
    ids := ?_
    next := ?_ }
  · rintro i ⟨⟩
    exact held
  · have hi := h.issued
    rw [show c.phase.issue = none by rw [idle]; rfl, Option.toList_none, List.append_nil] at hi
    rw [← hi]
    rfl
  · simp only [List.map_append, List.map_cons, List.map_nil, List.length_append,
      List.length_singleton, List.range_succ]
    rw [h.ids, h.next]
  · rw [h.next]
    simp [UInt64.ofNat_add]

theorem Inv.sent (h : c.Inv) {phase : ClientPhase} (sent : Nat → Bytes)
    (pc : phase.issue = c.phase.issue) :
    Inv { c with phase := phase, trace := { c.trace with sent := sent } } :=
  { h with
    current := fun i hi => h.current i (pc ▸ hi)
    issued := by
      rw [pc]
      exact h.issued }

theorem Inv.received (h : c.Inv) {i : Issue} (bytes : Bytes) (pc : c.phase = .receiving i) :
    Inv { c with
      inBuf := c.inBuf ++ bytes
      phase := .parsing i
      trace := { c.trace with
        received := Function.update c.trace.received i.connection
          (c.trace.received i.connection ++ bytes) } } := by
  have hi : c.phase.issue = some i := by rw [pc]; rfl
  have held := h.current i hi
  refine { h with
    current := ?_
    issued := ?_
    buffered := ?_
    stand := ?_
    before := ?_ }
  · rintro j ⟨⟩
    exact held
  · have hissued := h.issued
    rw [hi] at hissued
    exact hissued
  · intro n hn
    obtain rfl : i.connection = n := Option.some.inj (held.symm.trans hn)
    dsimp only
    rw [Function.update_self]
    obtain ⟨old, hold⟩ := h.buffered _ held
    exact ⟨old, by rw [← hold, List.append_assoc]⟩
  · intro n p hp
    dsimp only
    by_cases hn : n = i.connection
    · subst hn
      rw [Function.update_self]
      exact (h.stand _ p hp).append bytes
    · rw [Function.update_of_ne hn]
      exact h.stand n p hp
  · intro n hn p hp
    obtain rfl : i.connection = n := Option.some.inj (held.symm.trans hn)
    dsimp only
    rw [Function.update_self, List.length_append, List.length_append]
    have hle := h.before _ held p hp
    omega

theorem resultOf_ok {i : Issue} {out : Response} (h : (resultOf i out).ok) :
    out.requestId = i.id ∧ out.opcode = i.op.opcode ∧
      resultOf i out = { status := out.status, value := out.value } := by
  unfold resultOf at h ⊢
  by_cases he : correlationError i.id i.op.opcode out = ""
  · rw [if_pos he]
    unfold correlationError at he
    split at he
    · simp [String.append_eq_empty_iff] at he
    · split at he
      · simp [String.append_eq_empty_iff] at he
      · simp_all
  · rw [if_neg he] at h
    simp only [ClientResult.ok, decide_eq_true_eq] at h
    exact absurd h he

/-- An operation that ends with a response frame. The frame stands where the buffer began,
after all the frames used before. -/
theorem Inv.replied (h : c.Inv) {i : Issue} {out : Response} {rest : Bytes}
    (pc : c.phase = .parsing i) (frame : c.inBuf = serializeResponse out ++ rest)
    (value_le : out.value.length ≤ kMaxValueBytes.toNat) :
    Inv ({ c with inBuf := rest }.finish i.op (some i)
      (some ⟨(c.trace.received i.connection).length - c.inBuf.length, out⟩)
      (resultOf i out)) := by
  have hi : c.phase.issue = some i := by rw [pc]; rfl
  have held := h.current i hi
  obtain ⟨old, hold⟩ := h.buffered _ held
  have hoff : (c.trace.received i.connection).length - c.inBuf.length = old.length := by
    rw [← hold, List.length_append]
    omega
  rw [hoff]
  have hstands : Reply.Stands ⟨old.length, out⟩ (c.trace.received i.connection) := by
    refine ⟨?_, value_le⟩
    rw [← hold, List.drop_left, frame]
    exact List.prefix_append _ _
  refine { h with
    current := by simp [finish, ClientPhase.issue]
    issued := ?_
    buffered := ?_
    stand := ?_
    answered := ?_
    order := ?_
    before := ?_ }
  · have hissued := h.issued
    rw [hi] at hissued
    simp [finish, ClientPhase.issue, ← hissued]
  · intro n hn
    obtain ⟨pre, hpre⟩ := h.buffered n hn
    refine ⟨pre ++ serializeResponse out, ?_⟩
    rw [frame] at hpre
    simpa [finish] using hpre
  · intro n p hp
    obtain hp | ⟨rfl, rfl⟩ := mem_used_replied hp
    · exact h.stand n p hp
    · exact hstands
  · intro r hr hok
    simp only [finish, List.mem_append, List.mem_singleton] at hr
    obtain hr | rfl := hr
    · exact h.answered r hr hok
    · obtain ⟨hid, hop, hres⟩ := resultOf_ok hok
      exact ⟨i, _, rfl, rfl, rfl, hid, hop, by rw [hres], by rw [hres]⟩
  · intro n
    rw [used_replied]
    split
    · rename_i hn
      subst hn
      refine List.pairwise_append.mpr ⟨h.order _, List.pairwise_singleton _ _, ?_⟩
      intro p hp q hq
      rw [List.mem_singleton.mp hq]
      have hle := h.before _ held p hp
      rw [← hold, List.length_append] at hle
      dsimp only
      omega
    · rw [List.append_nil]
      exact h.order n
  · intro n hn p hp
    obtain rfl : i.connection = n := Option.some.inj (held.symm.trans hn)
    have hlen : c.inBuf.length = (serializeResponse out).length + rest.length := by
      rw [frame, List.length_append]
    obtain hp | ⟨-, rfl⟩ := mem_used_replied hp
    · have hle := h.before _ held p hp
      dsimp only [finish]
      omega
    · dsimp only [finish, Reply.stop]
      rw [← hold, List.length_append]
      omega

theorem inv_moves (h : c.Inv) (hm : Moves c a c') : c'.Inv := by
  cases hm with
  | unconnected r errno => exact h
  | connected r errno idle => exact h.connected idle
  | disconnected idle => exact h.disconnect idle
  | rejected op error idle he why => exact h.failed op none error (by rw [idle]; rfl) he
  | issued op connection idle held => exact h.issue op connection idle held
  | sent issue sent n errno pc =>
    refine h.sent _ ?_
    rw [pc]
    split <;> rfl
  | unsent issue sent r errno error pc he why =>
    exact h.failed issue.op (some issue) error (by rw [pc]; rfl) he
  | resend issue sent errno pc => exact h
  | replied issue out rest pc frame value_le => exact h.replied pc frame value_le
  | malformed issue error pc why he =>
    exact (h.failed issue.op (some issue) error (by rw [pc]; rfl) he).disconnect rfl
  | waits issue pc => exact h.sent c.trace.sent (by rw [pc]; rfl)
  | received issue bytes errno pc pos => exact h.received bytes pc
  | interrupted issue errno pc => exact h.sent c.trace.sent (by rw [pc]; rfl)
  | lost issue r errno error pc he why =>
    exact (h.failed issue.op (some issue) error (by rw [pc]; rfl) he).disconnect rfl

theorem reach_inv {path : String} (h : Reach step Free { socketPath := path } c) : c.Inv :=
  h.invariant (inv_start path) (fun _ _ _ hi _ hs => inv_moves hi (moves_of_step hs))

theorem Inv.ids_nodup (h : c.Inv) (few : c.trace.issued.length < 2 ^ 64) :
    (c.trace.issued.map (·.id)).Nodup := by
  rw [h.ids]
  refine List.Nodup.map_on ?_ List.nodup_range
  intro j hj k hk he
  have hj' := List.mem_range.mp hj
  have hk' := List.mem_range.mp hk
  have hn := congrArg UInt64.toNat he
  simp only [UInt64.toNat_ofNat'] at hn
  rw [Nat.mod_eq_of_lt (by omega), Nat.mod_eq_of_lt (by omega)] at hn
  omega

/-- An operation that succeeds returns what a well-formed response frame says which was
received on its connection and carries the id and the opcode of its own request. Operations
return in the order of their requests, each before the next is sent, the ids are distinct, and
the frames used on a connection follow one another in its stream without overlap. -/
theorem replies_correlated {path : String} {c : CacheClient}
    (h : Reach step Free { socketPath := path } c) (few : c.trace.issued.length < 2 ^ 64) :
    (∀ r ∈ c.trace.returned, r.result.ok → ∃ i p, r.Answered i p ∧
        p ∈ c.trace.used i.connection ∧ p.Stands (c.trace.received i.connection)) ∧
      (∀ i, c.phase.issue = some i → c.fd = some i.connection) ∧
      c.trace.returned.filterMap (·.issue) ++ c.phase.issue.toList = c.trace.issued ∧
      (c.trace.issued.map (·.id)).Nodup ∧
      ∀ n, (c.trace.used n).Pairwise (fun p q => p.stop ≤ q.offset) := by
  have hi := reach_inv h
  refine ⟨?_, hi.current, hi.issued, hi.ids_nodup few, hi.order⟩
  intro r hr hok
  obtain ⟨i, p, ha⟩ := hi.answered r hr hok
  have hused : p ∈ c.trace.used i.connection := by
    refine List.mem_filterMap.mpr ⟨r, hr, ?_⟩
    rw [Returned.usedOn, ha.issue, Option.bind_some, if_pos rfl]
    exact ha.reply
  exact ⟨i, p, ha, hused, hi.stand _ p hused⟩

/-- A late response to the first request is neither taken for an answer to the second nor
seen by the third. -/
theorem replies_correlated_late :
    ∃ c, Reach step Free { socketPath := "s" } c ∧
      c.trace.returned.map (·.result.ok) = [false, false, true] ∧
      (c.trace.issued.map (·.id)).Nodup := by
  obtain ⟨c, hr, hok, hfew⟩ := exists_reach step { socketPath := "s" }
    [.connect .connected "",
      .call .ping, .send (.sent 24) "", .parse,
      .recv (.data (serializeResponse ⟨.kPing, .kOk, 7, []⟩ ++
        serializeResponse ⟨.kPing, .kOk, 1, []⟩)) "", .parse,
      .call .ping, .send (.sent 10) "", .send .eintr "", .send (.sent 14) "", .parse,
      .call .ping, .send (.sent 24) "", .parse,
      .recv (.data (serializeResponse ⟨.kPing, .kOk, 3, []⟩)) "", .parse]
    (fun c => c.trace.returned.map (·.result.ok) = [false, false, true] ∧
      c.trace.issued.length = 3)
    (by decide +kernel)
  exact ⟨c, hr, hok, (replies_correlated hr (by rw [hfew]; decide)).2.2.2.1⟩

end CacheClient

end LocalCache
