import LocalCache.ClientRequests

namespace LocalCache

open Protocol Serializer RequestCodec

def ClientAction.faultless : ClientAction → Bool
  | .send (.sent n) _ => 0 < n
  | .send .eintr _ | .recv (.data _) _ | .recv .eintr _ => true
  | .send _ _ | .recv _ _ => false
  | .connect _ _ | .disconnect | .call _ | .parse => true

def ClientAction.operation : ClientAction → Option Operation
  | .call op => some op
  | _ => none

def Reply.frame (p : Reply) : Bytes := serializeResponse p.response

namespace CacheClient

variable {c c' : CacheClient} {a : ClientAction} {n : Nat} {i : Issue} {out : Response}
  {rest : Bytes}

def issuedOn (c : CacheClient) (n : Nat) : List Issue :=
  c.trace.issued.filter (·.connection = n)

/-- The step is none of those with which an operation ends early: no system call fails,
`execute` is called with a connection and with sizes that the protocol has, and the buffer does
not begin with a malformed frame. -/
structure Steady (c : CacheClient) (a : ClientAction) : Prop where
  faultless : a.faultless = true
  callable : ∀ op ∈ a.operation, c.fd ≠ none ∧ op.key.length ≤ kMaxKeyBytes.toNat ∧
    op.value.length ≤ kMaxValueBytes.toNat
  readable : ∀ i, c.phase = .parsing i →
    (deserializeResponse c.inBuf kClientLimits {}).1.status ≠ .kMalformed

theorem Steady.accepts {op : Operation} (h : c.Steady (.call op)) :
    ¬(c.fd = none ∨ kMaxKeyBytes.toNat < op.key.length ∨
      kMaxValueBytes.toNat < op.value.length) := by
  obtain ⟨hfd, hkey, hvalue⟩ := h.callable op rfl
  rintro (he | he | he)
  · exact hfd he
  · omega
  · omega

theorem Steady.sends {r : Send} {errno : String} (h : c.Steady (.send r errno)) :
    ¬(r = .sent 0 ∨ r = .eagain ∨ r = .error) := by
  rintro (rfl | rfl | rfl) <;> cases h.faultless

theorem Steady.receives {r : Recv} {errno : String} (h : c.Steady (.recv r errno)) :
    ¬(r = .eof ∨ r = .eagain ∨ r = .error) := by
  rintro (rfl | rfl | rfl) <;> cases h.faultless

/-- The frames used up on a connection are what was received there, up to the buffer. -/
structure Drawn (c : CacheClient) : Prop where
  consumed : ∀ n, (c.trace.used n).flatMap Reply.frame <+: c.trace.received n
  buffered : ∀ n, c.fd = some n →
    (c.trace.used n).flatMap Reply.frame ++ c.inBuf = c.trace.received n
  fresh : ∀ n, c.trace.connections ≤ n → c.trace.received n = []

theorem drawn_start (path : String) : Drawn { socketPath := path } :=
  ⟨fun _ => List.prefix_refl _, (fun _ hn => by cases hn), fun _ _ => rfl⟩

namespace Drawn

theorem frame (h : c.Drawn) (used : ∀ n, c'.trace.used n = c.trace.used n)
    (received : c'.trace.received = c.trace.received)
    (connections : c'.trace.connections = c.trace.connections)
    (buffer : c'.fd = none ∨ (c'.fd = c.fd ∧ c'.inBuf = c.inBuf)) : c'.Drawn where
  consumed := by
    intro n
    rw [used, received]
    exact h.consumed n
  buffered := by
    intro n hn
    obtain hfd | ⟨hfd, hbuf⟩ := buffer
    · rw [hfd] at hn
      cases hn
    · rw [used, received, hbuf]
      exact h.buffered n (hfd ▸ hn)
  fresh := by
    rw [received, connections]
    exact h.fresh

theorem connected (h : c.Drawn) :
    Drawn { c with
      fd := some c.trace.connections
      inBuf := []
      trace := { c.trace with connections := c.trace.connections + 1 } } := by
  refine ⟨h.consumed, ?_, fun n hn => h.fresh n (Nat.le_of_succ_le hn)⟩
  rintro n ⟨⟩
  have hnew := h.fresh c.trace.connections (Nat.le_refl _)
  have hnil := h.consumed c.trace.connections
  rw [hnew, List.prefix_nil] at hnil
  exact (List.append_nil _).trans (hnil.trans hnew.symm)

theorem replied (h : c.Drawn) (held : c.fd = some i.connection)
    (frame : c.inBuf = serializeResponse out ++ rest) (offset : Nat) (result : ClientResult) :
    Drawn ({ c with inBuf := rest }.finish i.op (some i) (some ⟨offset, out⟩) result) := by
  have hused := used_replied i ⟨offset, out⟩ result { c with inBuf := rest }
  have hnew : (c.trace.used i.connection ++ [(⟨offset, out⟩ : Reply)]).flatMap Reply.frame ++ rest =
      c.trace.received i.connection := by
    rw [← h.buffered _ held, frame, List.flatMap_append, List.flatMap_singleton, Reply.frame,
      List.append_assoc]
  refine ⟨?_, ?_, h.fresh⟩
  · intro n
    rw [hused]
    by_cases hn : i.connection = n
    · subst hn
      rw [if_pos rfl]
      exact ⟨rest, hnew⟩
    · rw [if_neg hn, List.append_nil]
      exact h.consumed n
  · intro n hn
    obtain rfl : i.connection = n := Option.some.inj (held.symm.trans hn)
    rw [hused, if_pos rfl]
    exact hnew

theorem received (h : c.Drawn) (hi : c.Inv) (pc : c.phase = .receiving i) (bytes : Bytes) :
    Drawn { c with
      inBuf := c.inBuf ++ bytes
      phase := .parsing i
      trace := { c.trace with
        received := Function.update c.trace.received i.connection
          (c.trace.received i.connection ++ bytes) } } := by
  have held := hi.current i (by rw [pc]; rfl)
  have hlt := hi.fd_lt _ held
  refine ⟨?_, ?_, ?_⟩
  · intro n
    dsimp only
    rw [Function.update_apply]
    split
    · rename_i hn
      subst hn
      exact (h.consumed _).trans (List.prefix_append _ _)
    · exact h.consumed n
  · intro n hn
    obtain rfl : i.connection = n := Option.some.inj (held.symm.trans hn)
    dsimp only
    rw [Function.update_self, ← h.buffered _ held, List.append_assoc]
    rfl
  · intro n hn
    dsimp only at hn ⊢
    rw [Function.update_of_ne (by omega)]
    exact h.fresh n hn

end Drawn

theorem drawn_moves (h : c.Drawn) (hi : c.Inv) (hm : Moves c a c') : c'.Drawn := by
  cases hm with
  | unconnected | resend => exact h
  | connected => exact h.connected
  | disconnected => exact h.frame (fun _ => rfl) rfl rfl (.inl rfl)
  | rejected op error | unsent issue sent r errno error =>
    exact h.frame (fun n => used_failed _ _ _ _ n) rfl rfl (.inr ⟨rfl, rfl⟩)
  | malformed issue error | lost issue r errno error =>
    exact h.frame (fun n => used_failed _ _ _ _ n) rfl rfl (.inl rfl)
  | replied issue out rest pc frame value_le =>
    exact h.replied (hi.current issue (by rw [pc]; rfl)) frame _ _
  | received issue bytes errno pc pos => exact h.received hi pc bytes
  | issued | sent | waits | interrupted =>
    exact h.frame (fun _ => rfl) rfl rfl (.inr ⟨rfl, rfl⟩)

inductive Ends (c : CacheClient) (a : ClientAction) (c' : CacheClient) : Prop
  | kept (issue : c'.phase.issue = c.phase.issue) (issued : c'.trace.issued = c.trace.issued)
      (returned : c'.trace.returned = c.trace.returned)
  | begun (op : Operation) (n : Nat) (act : a = .call op) (idle : c.phase.issue = none)
      (held : c.fd = some n) (issue : c'.phase.issue = some ⟨n, op, c.nextRequestId⟩)
      (issued : c'.trace.issued = c.trace.issued ++ [⟨n, op, c.nextRequestId⟩])
      (returned : c'.trace.returned = c.trace.returned)
  | failed (op : Operation) (handed : Nat) (error : String) (unsteady : ¬c.Steady a)
      (issue : c'.phase.issue = none)
      (issued : c'.trace.issued = c.trace.issued)
      (returned : c'.trace.returned =
        c.trace.returned ++ [⟨op, c.phase.issue, handed, none, { error := error }⟩])
  | answered (i : Issue) (out : Response) (rest : Bytes) (offset : Nat) (pc : c.phase = .parsing i)
      (frame : c.inBuf = serializeResponse out ++ rest)
      (value_le : out.value.length ≤ kMaxValueBytes.toNat) (issue : c'.phase.issue = none)
      (issued : c'.trace.issued = c.trace.issued)
      (returned : c'.trace.returned =
        c.trace.returned ++ [⟨i.op, some i, c.outBuf.length, some ⟨offset, out⟩, resultOf i out⟩])

theorem ends_of_moves (hm : Moves c a c') : Ends c a c' := by
  cases hm with
  | unconnected | resend | connected | disconnected => exact .kept rfl rfl rfl
  | rejected op error idle he why =>
    refine .failed op c.handed error (fun hok => hok.accepts why) rfl rfl ?_
    rw [idle]
    rfl
  | issued op connection idle held key_le value_le =>
    exact .begun op connection rfl (by rw [idle]; rfl) held rfl rfl rfl
  | sent issue sent n errno pc pos le =>
    refine .kept ?_ rfl rfl
    rw [pc]
    dsimp only
    split <;> rfl
  | unsent issue sent r errno error pc he why =>
    refine .failed issue.op c.handed error (fun hok => hok.sends why) rfl rfl ?_
    rw [pc]
    rfl
  | replied issue out rest pc frame value_le =>
    refine .answered issue out rest
      ((c.trace.received issue.connection).length - c.inBuf.length) pc frame value_le rfl rfl ?_
    simp only [finish, handed, pc]
  | malformed issue error pc why he =>
    refine .failed issue.op c.disconnect.handed error (fun hok => hok.readable issue pc why) rfl
      rfl ?_
    rw [pc]
    rfl
  | waits issue pc | received issue bytes errno pc pos | interrupted issue errno pc =>
    exact .kept (by rw [pc]; rfl) rfl rfl
  | lost issue r errno error pc he why =>
    refine .failed issue.op c.disconnect.handed error (fun hok => hok.receives why) rfl rfl ?_
    rw [pc]
    rfl

/-- Every operation that returned had its whole request sent and used up one response frame. -/
structure Whole (c : CacheClient) : Prop where
  drawn : c.Drawn
  returned : ∀ r ∈ c.trace.returned, ∃ i p,
    r = ⟨i.op, some i, i.frame.length, some p, resultOf i p.response⟩

theorem whole_start (path : String) : Whole { socketPath := path } where
  drawn := drawn_start path
  returned := by simp

theorem whole_moves (h : c.Whole) (hi : c.Inv) (hw : c.Wire) (hok : c.Steady a)
    (hm : Moves c a c') : c'.Whole := by
  refine ⟨drawn_moves h.drawn hi hm, ?_⟩
  cases ends_of_moves hm with
  | kept issue issued returned | begun op n act idle held issue issued returned =>
    rw [returned]
    exact h.returned
  | failed op handed error unsteady => exact absurd hok unsteady
  | answered i out rest offset pc frame value_le issue issued returned =>
    rw [returned]
    intro r hr
    obtain hr | hr := List.mem_append.mp hr
    · exact h.returned r hr
    · refine ⟨i, ⟨offset, out⟩, ?_⟩
      rw [List.mem_singleton.mp hr, hw.outBuf i (by rw [pc]; rfl)]

theorem sent_moves (hw : c.Wire) (hm : Moves c a c') (n : Nat) :
    c.trace.sent n <+: c'.trace.sent n := by
  cases wireStep_moves hw.outBuf hm with
  | kept same sent | begun op k id act held sized more sent => exact sent ▸ List.prefix_refl _
  | handed i k m act under after sent =>
    rw [sent, Function.update_apply]
    split
    · rename_i hn
      rw [hn]
      exact List.prefix_append _ _
    · exact List.prefix_refl _

theorem issuedOn_current (hi : c.Inv) (pc : c.phase.issue = some i) :
    ∃ front, c.issuedOn i.connection = front ++ [i] := by
  refine ⟨(c.trace.returned.filterMap (·.issue)).filter (·.connection = i.connection), ?_⟩
  rw [issuedOn, ← hi.issued, pc, List.filter_append]
  simp

theorem Whole.count (h : c.Whole) (hi : c.Inv) (n : Nat) :
    (c.issuedOn n).length =
      (c.trace.used n).length + if c.phase.issue.map (·.connection) = some n then 1 else 0 := by
  have hreturned : ∀ l : List Returned, (∀ r ∈ l, r ∈ c.trace.returned) →
      ((l.filterMap (·.issue)).filter (·.connection = n)).length =
        (l.filterMap (Returned.usedOn n)).length := by
    intro l hl
    induction l with
    | nil => rfl
    | cons r l ih =>
      have hrest := ih (fun r hr => hl r (List.mem_cons_of_mem _ hr))
      obtain ⟨i, p, rfl⟩ := h.returned r (hl r (List.mem_cons_self ..))
      by_cases hn : i.connection = n <;> simp [Returned.usedOn, hn] at hrest ⊢ <;> exact hrest
  rw [issuedOn, ← hi.issued, List.filter_append, List.length_append,
    hreturned _ (fun _ hr => hr), ClientTrace.used]
  cases c.phase.issue with
  | none => rfl
  | some i => by_cases hn : i.connection = n <;> simp [hn]

theorem issuedOn_eq_attempts (hi : c.Inv) (n : Nat) :
    c.issuedOn n = (c.attemptsOn n).map (·.issue) := by
  rw [issuedOn, ← hi.issued, ← attempts_issue, attemptsOn, List.filter_map]
  rfl

theorem pieces_prefix {l : List Attempt} (h : l.Pairwise (fun x _ => x.Done)) :
    l.flatMap Attempt.piece <+: l.flatMap (fun x => x.issue.frame) := by
  induction l with
  | nil =>
    rw [List.flatMap_nil]
    exact List.nil_prefix
  | cons x l ih =>
    rw [List.pairwise_cons] at h
    rw [List.flatMap_cons, List.flatMap_cons]
    cases l with
    | nil =>
      rw [List.flatMap_nil, List.flatMap_nil, List.append_nil, List.append_nil]
      exact List.take_prefix _ _
    | cons y l =>
      rw [Attempt.piece_of_done (h.1 y (List.mem_cons_self ..)), List.prefix_append_right_inj]
      exact ih h.2

/-- If only the last request of a connection may be incomplete, what was sent on it is a part of
the frames of its requests. -/
theorem Wire.framed (hw : c.Wire) (hi : c.Inv) (sequence : c.attempts.Pairwise
      (fun x y => x.issue.connection = y.issue.connection → x.Done)) (n : Nat) :
    c.trace.sent n <+: (c.issuedOn n).flatMap Issue.frame := by
  have hdone : (c.attemptsOn n).Pairwise (fun x _ => x.Done) := by
    refine (sequence.filter _).imp_of_mem ?_
    intro x y hx hy hxy
    have hx' := of_decide_eq_true (List.mem_filter.mp hx).2
    have hy' := of_decide_eq_true (List.mem_filter.mp hy).2
    exact hxy (hx'.trans hy'.symm)
  rw [hw.sent, issuedOn_eq_attempts hi, List.flatMap_map]
  exact pieces_prefix hdone

theorem Whole.sent (h : c.Whole) (hi : c.Inv) (hw : c.Wire) (n : Nat) :
    c.trace.sent n <+: (c.issuedOn n).flatMap Issue.frame := by
  have hdone : ∀ x ∈ c.settled, x.Done := by
    intro x hx
    obtain ⟨r, hr, hrx⟩ := List.mem_filterMap.mp hx
    obtain ⟨i, p, rfl⟩ := h.returned r hr
    rw [Returned.attempt, Option.map_some, Option.some.injEq] at hrx
    subst hrx
    dsimp only [Attempt.Done]
    exact Nat.le_refl _
  refine hw.framed hi (List.pairwise_append.mpr ⟨?_, ?_, fun x hx _ _ _ => hdone x hx⟩) n
  · exact List.pairwise_of_forall_mem_list fun x hx _ _ _ => hdone x hx
  · cases c.underway with
    | none => exact List.Pairwise.nil
    | some x => exact List.pairwise_singleton _ _

end CacheClient

end LocalCache
