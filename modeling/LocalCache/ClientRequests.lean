import LocalCache.ClientReplies
import LocalCache.RequestStream

namespace LocalCache

open Protocol Serializer RequestCodec RequestStream Library Transition Framing

structure Attempt where
  issue : Issue
  handed : Nat
  deriving DecidableEq, Repr

namespace Attempt

def piece (x : Attempt) : Bytes := x.issue.frame.take x.handed

def Done (x : Attempt) : Prop := x.issue.frame.length ≤ x.handed

instance : DecidablePred Done := fun x => inferInstanceAs (Decidable (_ ≤ x.handed))

def OnBoundary (x : Attempt) : Prop := x.handed = 0 ∨ x.Done

instance : DecidablePred OnBoundary := fun x => inferInstanceAs (Decidable (x.handed = 0 ∨ x.Done))

theorem piece_of_done {x : Attempt} (h : x.Done) : x.piece = x.issue.frame :=
  List.take_of_length_le h

theorem piece_of_not_done {x : Attempt} (h : x.OnBoundary) (hd : ¬x.Done) : x.piece = [] := by
  rw [piece, h.resolve_right hd, List.take_zero]

theorem flatMap_piece {l : List Attempt} (h : ∀ x ∈ l, x.OnBoundary) :
    l.flatMap piece = ((l.filter (fun x => x.Done)).map issue).flatMap Issue.frame := by
  induction l with
  | nil => rfl
  | cons x l ih =>
    have hl := ih (fun y hy => h y (List.mem_cons_of_mem _ hy))
    rw [List.flatMap_cons, hl]
    by_cases hd : x.Done
    · rw [List.filter_cons_of_pos (by simpa using hd), List.map_cons, List.flatMap_cons,
        piece_of_done hd]
    · rw [List.filter_cons_of_neg (by simpa using hd),
        piece_of_not_done (h x (List.mem_cons_self ..)) hd, List.nil_append]

end Attempt

def Returned.attempt (r : Returned) : Option Attempt := r.issue.map (fun i => ⟨i, r.handed⟩)

def ClientAction.sends : ClientAction → Bool
  | .send (.sent n) _ => 0 < n
  | _ => false

namespace CacheClient

variable {c c' : CacheClient} {a : ClientAction}

def settled (c : CacheClient) : List Attempt := c.trace.returned.filterMap Returned.attempt

def underway (c : CacheClient) : Option Attempt := c.phase.issue.map (fun i => ⟨i, c.handed⟩)

def attempts (c : CacheClient) : List Attempt := c.settled ++ c.underway.toList

def attemptsOn (c : CacheClient) (n : Nat) : List Attempt :=
  c.attempts.filter (·.issue.connection = n)

/-- Bytes of a request are sent only when no frame was left incomplete before it on its
connection. -/
def Aligned (c : CacheClient) (a : ClientAction) : Prop :=
  a.sends = true → ∀ y ∈ c.underway, ∀ x ∈ c.settled,
    x.issue.connection = y.issue.connection → x.OnBoundary

instance (c : CacheClient) (a : ClientAction) : Decidable (c.Aligned a) :=
  inferInstanceAs (Decidable (_ → ∀ y ∈ c.underway, ∀ x ∈ c.settled, _ → x.OnBoundary))

theorem attempts_issue (c : CacheClient) :
    c.attempts.map (·.issue) = c.trace.returned.filterMap (·.issue) ++ c.phase.issue.toList := by
  have hreturned : c.settled.map (·.issue) = c.trace.returned.filterMap (·.issue) := by
    rw [settled, List.map_filterMap]
    refine List.filterMap_congr (fun r _ => ?_)
    cases h : r.issue <;> simp [Returned.attempt, h]
  rw [attempts, List.map_append, hreturned, underway]
  cases c.phase.issue <;> rfl

/-- What a step does to the bytes sent and to the requests they belong to. -/
inductive WireStep (c : CacheClient) (a : ClientAction) (c' : CacheClient) : Prop
  | kept (same : c'.attempts = c.attempts) (sent : c'.trace.sent = c.trace.sent)
      (settled : c.settled <+: c'.settled)
  | begun (op : Operation) (n : Nat) (id : UInt64) (act : a = .call op) (held : c.fd = some n)
      (sized : WithinCeilings (op.request id))
      (more : c'.attempts = c.attempts ++ [⟨⟨n, op, id⟩, 0⟩])
      (sent : c'.trace.sent = c.trace.sent) (settled : c.settled <+: c'.settled)
  | handed (i : Issue) (k m : Nat) (act : a.sends = true) (under : c.underway = some ⟨i, k⟩)
      (after : c'.attempts = c.settled ++ [⟨i, k + m⟩])
      (sent : c'.trace.sent = Function.update c.trace.sent i.connection
        (c.trace.sent i.connection ++ (i.frame.drop k).take m))
      (settled : c.settled <+: c'.settled)

theorem settled_finish (op : Operation) (issue : Option Issue) (reply : Option Reply)
    (result : ClientResult) (c : CacheClient) :
    (c.finish op issue reply result).settled =
      c.settled ++ (issue.map (fun i => (⟨i, c.handed⟩ : Attempt))).toList := by
  cases issue <;> simp [settled, finish, Returned.attempt]

theorem wireStep_finish {op : Operation} {issue : Option Issue} {reply : Option Reply}
    {result : ClientResult} {d : CacheClient} (pc : c.phase.issue = issue)
    (settled : d.settled = c.settled) (handed : d.handed = c.handed)
    (sent : d.trace.sent = c.trace.sent) :
    WireStep c a (d.finish op issue reply result) := by
  have hset := settled_finish op issue reply result d
  have hunder : c.underway = issue.map (fun i => (⟨i, c.handed⟩ : Attempt)) := by
    rw [underway, pc]
  refine .kept ?_ sent ?_
  · rw [attempts, hset, settled, handed, ← hunder]
    exact List.append_nil _
  · rw [hset, settled]
    exact List.prefix_append _ _

theorem wireStep_moves (hout : ∀ i, c.phase.issue = some i → c.outBuf = i.frame)
    (hm : Moves c a c') : WireStep c a c' := by
  cases hm with
  | unconnected r errno => exact .kept rfl rfl (List.prefix_refl _)
  | connected r errno idle => exact .kept rfl rfl (List.prefix_refl _)
  | disconnected idle => exact .kept rfl rfl (List.prefix_refl _)
  | rejected op error idle he why => exact wireStep_finish (by rw [idle]; rfl) rfl rfl rfl
  | issued op connection idle held key_le value_le =>
    refine .begun op connection c.nextRequestId rfl held ⟨key_le, value_le⟩ ?_ rfl
      (List.prefix_refl _)
    have hidle : c.underway = none := by rw [underway, idle]; rfl
    rw [show c.attempts = c.settled ++ c.underway.toList from rfl, hidle]
    exact congrArg (· ++ _) (List.append_nil _).symm
  | sent issue sent n errno pc pos le =>
    have hframe : c.outBuf = issue.frame := hout issue (by rw [pc]; rfl)
    refine .handed issue sent n (decide_eq_true pos) ?_ ?_ (by rw [hframe]) (List.prefix_refl _)
    · rw [underway, handed, pc]
      rfl
    · dsimp only [attempts, underway, settled, handed]
      by_cases hlt : sent + n < c.outBuf.length
      · rw [if_pos hlt]
        rfl
      · have hlen : c.outBuf.length = sent + n := by omega
        rw [if_neg hlt, ← hlen]
        rfl
  | unsent issue sent r errno error pc he why =>
    exact wireStep_finish (by rw [pc]; rfl) rfl rfl rfl
  | resend issue sent errno pc => exact .kept rfl rfl (List.prefix_refl _)
  | replied issue out rest pc frame value_le =>
    exact wireStep_finish (by rw [pc]; rfl) rfl rfl rfl
  | malformed issue error pc why he => exact wireStep_finish (by rw [pc]; rfl) rfl rfl rfl
  | waits issue pc =>
    refine .kept ?_ rfl (List.prefix_refl _)
    simp only [attempts, underway, handed, pc]
    rfl
  | received issue bytes errno pc pos =>
    refine .kept ?_ rfl (List.prefix_refl _)
    simp only [attempts, underway, handed, pc]
    rfl
  | interrupted issue errno pc =>
    refine .kept ?_ rfl (List.prefix_refl _)
    simp only [attempts, underway, handed, pc]
    rfl
  | lost issue r errno error pc he why => exact wireStep_finish (by rw [pc]; rfl) rfl rfl rfl

theorem attempts_underway {x : Attempt} (h : c.underway = some x) :
    c.attempts = c.settled ++ [x] := by
  rw [attempts, h, Option.toList_some]

structure Wire (c : CacheClient) : Prop where
  outBuf : ∀ i, c.phase.issue = some i → c.outBuf = i.frame
  sized : ∀ x ∈ c.attempts, WithinCeilings x.issue.request
  sent : ∀ n, c.trace.sent n = (c.attemptsOn n).flatMap Attempt.piece

theorem outBuf_moves (h : ∀ i, c.phase.issue = some i → c.outBuf = i.frame)
    (hm : Moves c a c') : ∀ i, c'.phase.issue = some i → c'.outBuf = i.frame := by
  intro i hi
  cases hm with
  | unconnected r errno => exact h i hi
  | connected r errno idle => exact h i hi
  | disconnected idle => exact h i hi
  | rejected op error idle he why => cases hi
  | issued op connection idle held key_le value_le =>
    cases hi
    rfl
  | sent issue sent n errno pc pos le =>
    refine h i ?_
    rw [pc]
    dsimp only at hi
    split at hi <;> exact hi
  | unsent issue sent r errno error pc he why => cases hi
  | resend issue sent errno pc => exact h i hi
  | replied issue out rest pc frame value_le => cases hi
  | malformed issue error pc why he => cases hi
  | waits issue pc => exact h i (by rw [pc]; exact hi)
  | received issue bytes errno pc pos => exact h i (by rw [pc]; exact hi)
  | interrupted issue errno pc => exact h i (by rw [pc]; exact hi)
  | lost issue r errno error pc he why => cases hi

theorem wire_start (path : String) : Wire { socketPath := path } where
  outBuf := by simp [ClientPhase.issue]
  sized := by simp [attempts, settled, underway, ClientPhase.issue]
  sent := by simp [attemptsOn, attempts, settled, underway, ClientPhase.issue]

theorem wire_moves (h : c.Wire) (hm : Moves c a c') : c'.Wire := by
  refine ⟨outBuf_moves h.outBuf hm, ?_, ?_⟩
  · intro x hx
    cases wireStep_moves h.outBuf hm with
    | kept same sent settled => exact h.sized x (same ▸ hx)
    | begun op n id act held sized more sent settled =>
      rw [more, List.mem_append, List.mem_singleton] at hx
      obtain hx | rfl := hx
      · exact h.sized x hx
      · exact sized
    | handed i k m act under after sent settled =>
      have before := attempts_underway under
      rw [after, List.mem_append, List.mem_singleton] at hx
      obtain hx | rfl := hx
      · exact h.sized x (by rw [before]; exact List.mem_append_left _ hx)
      · apply h.sized ⟨i, k⟩
        rw [before]
        exact List.mem_append_right _ (List.mem_singleton.mpr rfl)
  · intro n
    have hn := h.sent n
    cases wireStep_moves h.outBuf hm with
    | kept same sent settled => rw [sent, hn, attemptsOn, attemptsOn, same]
    | begun op k id act held sized more sent settled =>
      rw [sent, hn, attemptsOn, attemptsOn, more, List.filter_append, List.flatMap_append]
      by_cases hk : k = n <;> simp [hk, Attempt.piece]
    | handed i k m act under after sent settled =>
      rw [attemptsOn, attempts_underway under, List.filter_append, List.flatMap_append] at hn
      rw [sent, attemptsOn, after, List.filter_append, List.flatMap_append]
      by_cases hi : i.connection = n
      · subst hi
        simp only [decide_true, List.filter_cons_of_pos, List.filter_nil,
          List.flatMap_singleton] at hn ⊢
        rw [Function.update_self, hn, List.append_assoc, Attempt.piece, Attempt.piece,
          List.take_add]
      · rw [Function.update_of_ne (Ne.symm hi), hn]
        simp [hi]

/-- Nothing was sent on a connection after a request that was left incomplete. -/
def Ordered (c : CacheClient) : Prop :=
  c.attempts.Pairwise fun x y =>
    x.issue.connection = y.issue.connection → y.handed ≠ 0 → x.OnBoundary

theorem ordered_moves (hw : c.Wire) (h : c.Ordered) (hok : c.Aligned a) (hm : Moves c a c') :
    c'.Ordered := by
  unfold Ordered at h ⊢
  cases wireStep_moves hw.outBuf hm with
  | kept same sent settled =>
    rw [same]
    exact h
  | begun op n id act held sized more sent settled =>
    rw [more]
    refine List.pairwise_append.mpr ⟨h, List.pairwise_singleton _ _, ?_⟩
    intro x hx y hy hxy hzero
    rw [List.mem_singleton.mp hy] at hzero
    exact absurd rfl hzero
  | handed i k m act under after sent settled =>
    rw [attempts_underway under] at h
    rw [after]
    refine List.pairwise_append.mpr
      ⟨(List.pairwise_append.mp h).1, List.pairwise_singleton _ _, ?_⟩
    intro x hx y hy hxy _
    rw [List.mem_singleton.mp hy] at hxy
    exact hok act ⟨i, k⟩ under x hx hxy

def Spoiled (n : Nat) (c : CacheClient) : Prop :=
  ∃ x ∈ c.settled, x.issue.connection = n ∧ ¬x.OnBoundary

/-- Nothing follows a frame that was left incomplete. -/
theorem spoiled_moves {n : Nat} (hw : c.Wire) (hok : c.Aligned a) (h : c.Spoiled n)
    (hm : Moves c a c') : c'.Spoiled n ∧ c'.trace.sent n = c.trace.sent n := by
  obtain ⟨x, hx, hn, hb⟩ := h
  cases wireStep_moves hw.outBuf hm with
  | kept same sent settled => exact ⟨⟨x, settled.subset hx, hn, hb⟩, by rw [sent]⟩
  | begun op k id act held sized more sent settled =>
    exact ⟨⟨x, settled.subset hx, hn, hb⟩, by rw [sent]⟩
  | handed i k m act under after sent settled =>
    refine ⟨⟨x, settled.subset hx, hn, hb⟩, ?_⟩
    by_cases hi : i.connection = n
    · exact absurd (hok act ⟨i, k⟩ under x hx (hn.trans hi.symm)) hb
    · rw [sent, Function.update_of_ne (Ne.symm hi)]

theorem reach_wire {path : String} (h : Reach step Aligned { socketPath := path } c) :
    c.Wire ∧ c.Ordered := by
  refine h.invariant (P := fun c => c.Wire ∧ c.Ordered) ⟨wire_start path, ?_⟩ ?_
  · simp [Ordered, attempts, settled, underway, ClientPhase.issue]
  · intro s a s' hs hok hstep
    have hm := moves_of_step hstep
    exact ⟨wire_moves hs.1 hm, ordered_moves hs.1 hs.2 hok hm⟩

theorem spoiled_reach {n : Nat} (hw : c.Wire) (hs : c.Spoiled n) (h : Reach step Aligned c c') :
    c'.trace.sent n = c.trace.sent n := by
  have hinv := h.invariant
    (P := fun d => d.Wire ∧ d.Spoiled n ∧ d.trace.sent n = c.trace.sent n) ⟨hw, hs, rfl⟩ ?_
  · exact hinv.2.2
  · rintro s a s' ⟨hw, hs, he⟩ hok hstep
    have hm := moves_of_step hstep
    obtain ⟨hs', he'⟩ := spoiled_moves hw hok hs hm
    exact ⟨wire_moves hw hm, hs', he'.trans he⟩

theorem parse_issues {is : List Issue} {limits : Limits} {got : Bytes}
    (hsized : ∀ i ∈ is, WithinCeilings i.request) (hgot : got <+: is.flatMap Issue.frame) :
    (parse (head limits) got).1 <+: is.map Issue.request :=
  parse_frames (head_incremental limits)
    (fun i hi y => head_serialize (hsized i hi) limits y) hgot

theorem put_of_opcode {i : Issue} (h : i.request.opcode = .kPut) :
    i.op = .put i.request.key i.request.value := by
  obtain ⟨connection, op, id⟩ := i
  cases op <;> first | rfl | cases h

theorem ordered_attemptsOn (h : c.Ordered) (n : Nat) :
    (c.attemptsOn n).Pairwise (fun x y => y.handed ≠ 0 → x.OnBoundary) := by
  refine (List.Pairwise.filter _ h).imp_of_mem ?_
  intro x y hx hy hxy
  have hx' := (List.mem_filter.mp hx).2
  have hy' := (List.mem_filter.mp hy).2
  simp only [decide_eq_true_eq] at hx' hy'
  exact hxy (hx'.trans hy'.symm)

/-- The requests of a connection: those before one that was left incomplete end on a boundary,
and of those after it nothing was sent. -/
theorem Ordered.split (h : c.Ordered) (n : Nat) :
    (∀ x ∈ c.attemptsOn n, x.OnBoundary) ∨
      ∃ front last back, c.attemptsOn n = front ++ last :: back ∧ (∀ x ∈ front, x.OnBoundary) ∧
        ¬last.OnBoundary ∧ ∀ x ∈ back, x.handed = 0 := by
  by_cases hall : ∀ x ∈ c.attemptsOn n, x.OnBoundary
  · exact .inl hall
  · right
    push Not at hall
    obtain ⟨x, hx, hb⟩ := hall
    obtain ⟨front, back, hl⟩ := List.append_of_mem hx
    have hp := ordered_attemptsOn h n
    rw [hl] at hp
    obtain ⟨-, hback, hfront⟩ := List.pairwise_append.mp hp
    refine ⟨front, x, back, hl, fun y hy => ?_, hb, fun y hy => ?_⟩
    · refine hfront y hy x List.mem_cons_self (fun hzero => hb (.inl hzero))
    · by_contra hne
      exact hb ((List.pairwise_cons.mp hback).1 y hy hne)

theorem sending_or_spoiled {x : Attempt} {n : Nat} (hw : c.Wire) (hx : x ∈ c.attemptsOn n)
    (hb : ¬x.OnBoundary) : c.phase = .sending x.issue x.handed ∨ c.Spoiled n := by
  obtain ⟨hmem, hn⟩ := List.mem_filter.mp hx
  simp only [decide_eq_true_eq] at hn
  obtain hmem | hmem := List.mem_append.mp hmem
  · exact .inr ⟨x, hmem, hn, hb⟩
  · rw [Option.mem_toList, underway, Option.map_eq_some_iff] at hmem
    obtain ⟨i, hi, rfl⟩ := hmem
    have hout := hw.outBuf i hi
    cases pc : c.phase with
    | idle =>
      rw [pc] at hi
      cases hi
    | sending j sent =>
      rw [pc] at hi
      cases hi
      left
      rw [handed, pc]
    | parsing j =>
      refine absurd (Or.inr ?_) hb
      rw [Attempt.Done, handed, pc, hout]
    | receiving j =>
      refine absurd (Or.inr ?_) hb
      rw [Attempt.Done, handed, pc, hout]

theorem mem_issued {x : Attempt} {n : Nat} (hi : c.Inv) (hx : x ∈ c.attemptsOn n) :
    x.issue ∈ c.trace.issued ∧ x.issue.connection = n := by
  obtain ⟨hmem, hn⟩ := List.mem_filter.mp hx
  refine ⟨?_, by simpa using hn⟩
  rw [← hi.issued, ← attempts_issue]
  exact List.mem_map_of_mem hmem

theorem puts_issued {l : List Attempt} {n : Nat} {limits : Limits} {got : Bytes} {q : Request}
    (hi : c.Inv) (hw : c.Wire) (hl : ∀ x ∈ l, x ∈ c.attemptsOn n)
    (hgot : got <+: (l.map (·.issue)).flatMap Issue.frame)
    (hq : q ∈ (parse (head limits) got).1) (hput : q.opcode = .kPut) :
    ∃ i ∈ c.trace.issued, i.connection = n ∧ i.op = .put q.key q.value := by
  have hsized : ∀ i ∈ l.map (·.issue), WithinCeilings i.request := by
    intro i hi
    obtain ⟨x, hx, rfl⟩ := List.mem_map.mp hi
    exact hw.sized x (List.mem_filter.mp (hl x hx)).1
  obtain ⟨i, hmem, rfl⟩ := List.mem_map.mp ((parse_issues hsized hgot).subset hq)
  obtain ⟨x, hx, rfl⟩ := List.mem_map.mp hmem
  obtain ⟨hissued, hn⟩ := mem_issued hi (hl x hx)
  exact ⟨x.issue, hissued, hn, put_of_opcode hput⟩

/-- If no byte of a request is sent on a connection on which a frame was left incomplete, then the
bytes sent on every connection are whole frames followed by at most one strict part of a
frame, which is still being sent or is the last thing ever sent there; and every PUT that a
server reads off them is one of the caller's. -/
theorem requests_whole {path : String} {c : CacheClient}
    (h : Reach step Aligned { socketPath := path } c) (n : Nat) :
    (∃ (whole : List Issue) (rest : Bytes), c.trace.sent n = whole.flatMap Issue.frame ++ rest ∧
      (∀ i ∈ whole, i ∈ c.trace.issued ∧ i.connection = n) ∧
      (rest = [] ∨ ∃ i ∈ c.trace.issued, i.connection = n ∧ rest <+: i.frame ∧
        rest ≠ i.frame ∧
        (c.phase = .sending i rest.length ∨
          ∀ c', Reach step Aligned c c' → c'.trace.sent n = c.trace.sent n))) ∧
      ∀ limits got, got <+: c.trace.sent n → ∀ q ∈ (parse (head limits) got).1,
        q.opcode = .kPut → ∃ i ∈ c.trace.issued, i.connection = n ∧
          i.op = .put q.key q.value := by
  have hi := reach_inv h.free
  obtain ⟨hw, ho⟩ := reach_wire h
  have hsent := hw.sent n
  obtain hall | ⟨front, last, back, hl, hfront, hlast, hback⟩ := ho.split n
  · rw [Attempt.flatMap_piece hall] at hsent
    have hsub : ∀ x ∈ (c.attemptsOn n).filter (fun x => x.Done), x ∈ c.attemptsOn n :=
      fun x hx => (List.mem_filter.mp hx).1
    refine ⟨⟨_, [], by rw [hsent, List.append_nil], ?_, .inl rfl⟩, ?_⟩
    · intro i hi'
      obtain ⟨x, hx, rfl⟩ := List.mem_map.mp hi'
      exact mem_issued hi (hsub x hx)
    · intro limits got hgot q hq hput
      rw [hsent] at hgot
      exact puts_issued hi hw hsub hgot hq hput
  · have hnone : back.flatMap Attempt.piece = [] := by
      refine List.flatMap_eq_nil_iff.mpr (fun x hx => ?_)
      rw [Attempt.piece, hback x hx, List.take_zero]
    rw [hl, List.flatMap_append, Attempt.flatMap_piece hfront, List.flatMap_cons, hnone,
      List.append_nil] at hsent
    have hmem : last ∈ c.attemptsOn n := by simp [hl]
    have hsub : ∀ x ∈ front.filter (fun x => x.Done) ++ [last], x ∈ c.attemptsOn n := by
      intro x hx
      rw [hl, List.mem_append]
      obtain hx | hx := List.mem_append.mp hx
      · exact .inl (List.mem_filter.mp hx).1
      · exact .inr (List.mem_singleton.mp hx ▸ List.mem_cons_self)
    have hlen : last.piece.length = last.handed := by
      rw [Attempt.piece, List.length_take]
      exact Nat.min_eq_left (Nat.le_of_not_le (fun hd => hlast (.inr hd)))
    have hpre : last.piece <+: last.issue.frame := List.take_prefix _ _
    obtain ⟨hissued, hn⟩ := mem_issued hi hmem
    refine ⟨⟨_, last.piece, hsent, ?_, .inr ⟨last.issue, hissued, hn, hpre, ?_, ?_⟩⟩, ?_⟩
    · intro i hi'
      obtain ⟨x, hx, rfl⟩ := List.mem_map.mp hi'
      exact mem_issued hi (hsub x (List.mem_append_left _ hx))
    · intro he
      rw [he] at hlen
      exact hlast (.inr (Nat.le_of_eq hlen))
    · rw [hlen]
      refine (sending_or_spoiled hw hmem hlast).imp_right (fun hs c' hc' => ?_)
      exact spoiled_reach hw hs hc'
    · intro limits got hgot q hq hput
      refine puts_issued hi hw hsub (hgot.trans ?_) hq hput
      rw [hsent, List.map_append, List.flatMap_append]
      exact (List.prefix_append_right_inj _).mpr (by simpa using hpre)

def cutPut : List ClientAction :=
  [.connect .connected "", .call (.put [7] (List.replicate 24 9)), .send (.sent 25) "",
    .send .eagain ""]

theorem requests_whole_reconnected :
    ∃ c, Reach step Aligned { socketPath := "s" } c ∧ (c.trace.sent 0).length = 25 ∧
      (c.trace.sent 1).length = 24 ∧
      ∀ limits, ∀ q ∈ (parse (head limits) (c.trace.sent 1)).1, q.opcode = .kPut →
        ∃ i ∈ c.trace.issued, i.connection = 1 ∧ i.op = .put q.key q.value := by
  obtain ⟨c, hr, h0, h1⟩ := exists_reach (guarded step Aligned) { socketPath := "s" }
    (cutPut ++ [.call .ping, .send .eagain "", .connect .connected "", .call .ping,
      .send (.sent 24) ""])
    (fun c => (c.trace.sent 0).length = 25 ∧ (c.trace.sent 1).length = 24) (by decide +kernel)
  exact ⟨c, hr.of_guarded, h0, h1, fun limits =>
    (requests_whole hr.of_guarded 1).2 limits _ (List.prefix_refl _)⟩

/-- Without a new connection the next request is read as the value of the PUT. -/
theorem requests_spliced :
    ∃ c, Reach step Free { socketPath := "s" } c ∧
      c.trace.returned.map (·.result.error) = ["send timed out"] ∧
      (parse (head {}) (c.trace.sent 0)).1 =
        [⟨.kPut, 1, [7], serializeRequest ⟨.kPing, 2, [], []⟩⟩] ∧
      ∀ i ∈ c.trace.issued, i.op ≠ .put [7] (serializeRequest ⟨.kPing, 2, [], []⟩) :=
  exists_reach step { socketPath := "s" } (cutPut ++ [.call .ping, .send (.sent 24) ""]) _
    (by decide +kernel)

end CacheClient

end LocalCache
