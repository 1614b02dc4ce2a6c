import LocalCache.RequestStream

namespace LocalCache.Connection

open Protocol Serializer RequestCodec RequestStream Library Library.Framing Library.Transition

def consume (n : Nat) (c : Connection) : Connection :=
  let c := { c with inPos := c.inPos + n }
  if c.inPos ≥ kCompactThresholdBytes then compactInput c else c

@[simp] theorem unconsumed_compactInput (c : Connection) :
    c.compactInput.unconsumed = c.unconsumed := by
  unfold compactInput
  split
  · rfl
  · simp only [unconsumed, List.drop_zero]

theorem compactInput_le {c : Connection} (h : c.inPos ≤ c.inBuf.length) :
    c.compactInput.inPos ≤ c.compactInput.inBuf.length := by
  unfold compactInput
  split
  · exact h
  · exact Nat.zero_le _

theorem unconsumed_consume (n : Nat) (c : Connection) :
    (c.consume n).unconsumed = c.unconsumed.drop n := by
  have hd : ({ c with inPos := c.inPos + n } : Connection).unconsumed = c.unconsumed.drop n := by
    simp only [unconsumed, List.drop_drop]
  simp only [consume]
  split
  · rw [unconsumed_compactInput, hd]
  · exact hd

theorem consume_le {n : Nat} {c : Connection} (h : c.inPos ≤ c.inBuf.length)
    (hn : n ≤ c.unconsumed.length) : (c.consume n).inPos ≤ (c.consume n).inBuf.length := by
  have hl : c.inPos + n ≤ c.inBuf.length := by
    rw [unconsumed, List.length_drop] at hn
    omega
  simp only [consume]
  split
  · exact compactInput_le hl
  · exact hl

theorem nextRequest_of_complete {out request : Request} {n : Nat} {c : Connection}
    (h : deserializeRequest c.unconsumed c.limits.protocolLimits out = (.complete n, request)) :
    c.nextRequest out = (.complete n, request, c.consume n) := by
  simp only [unconsumed] at h
  simp only [nextRequest, h, ParseResult.complete, consume]

theorem nextRequest_of_need_more {out request : Request} {c : Connection}
    (h : deserializeRequest c.unconsumed c.limits.protocolLimits out = (.needMore, request)) :
    c.nextRequest out = (.needMore, request, c.compactInput) := by
  simp only [unconsumed] at h
  simp only [nextRequest, h, ParseResult.needMore]

theorem nextRequest_of_malformed {out request : Request} {e : ParseError} {c : Connection}
    (h : deserializeRequest c.unconsumed c.limits.protocolLimits out = (.malformed e, request)) :
    c.nextRequest out = (.malformed e, request, c) := by
  simp only [unconsumed] at h
  simp only [nextRequest, h, ParseResult.malformed]

/-- What `next_request` can do, by what stands at the head of the input. -/
theorem nextRequest_cases {out request : Request} {result : ParseResult} {c c' : Connection}
    (h : c.nextRequest out = (result, request, c')) :
    (∃ n, head c.limits.protocolLimits c.unconsumed = .item request n ∧ result = .complete n ∧
        c' = c.consume n) ∨
      (head c.limits.protocolLimits c.unconsumed = .more ∧ result = .needMore ∧
        c' = c.compactInput) ∨
      ∃ e, head c.limits.protocolLimits c.unconsumed = .bad e ∧ result = .malformed e ∧
        c' = c := by
  obtain ⟨hl, hd⟩ | ⟨hl, e, he, hd⟩ | ⟨hl, g, hg, hf, hd⟩ | ⟨hl, g, hg, hf, hd⟩ :=
    deserializeRequest_cases c.unconsumed c.limits.protocolLimits out
  · cases (nextRequest_of_need_more hd).symm.trans h
    exact .inr (.inl ⟨head_short hl, rfl, rfl⟩)
  · cases (nextRequest_of_malformed hd).symm.trans h
    exact .inr (.inr ⟨e, head_error hl he, rfl, rfl⟩)
  · cases (nextRequest_of_need_more hd).symm.trans h
    exact .inr (.inl ⟨head_incomplete hl hg hf, rfl, rfl⟩)
  · cases (nextRequest_of_complete hd).symm.trans h
    exact .inl ⟨frameSize g, head_full hl hg hf, rfl, rfl⟩

def received : Recv → Bytes
  | .data bytes => bytes
  | _ => []

theorem readSome_eq (r : Recv) (c : Connection) :
    (readSome r c).2 = { c with inBuf := c.inBuf ++ received r } := by
  cases r <;> simp [readSome, received]

theorem unconsumed_readSome (r : Recv) {c : Connection} (h : c.inPos ≤ c.inBuf.length) :
    (readSome r c).2.unconsumed = c.unconsumed ++ received r := by
  rw [readSome_eq]
  exact List.drop_append_of_le_length h

/-- The reading side of a connection together with what has happened to it:
the bytes received so far, the requests returned so far, and the result of the
last call of `next_request` if no read came after it. -/
structure Input where
  conn : Connection
  stream : Bytes := []
  returned : List Request := []
  last : Option ParseResult := none

inductive InputAction
  | read (r : Recv)
  | next (out : Request)

def inputStep (s : Input) : InputAction → Option Input
  | .read r =>
    if r.valid then
      some { s with
        conn := (s.conn.readSome r).2, stream := s.stream ++ received r, last := none }
    else none
  | .next out =>
    let (result, request, conn) := s.conn.nextRequest out
    some { s with
      conn := conn
      returned := if result.status = .kComplete then s.returned ++ [request] else s.returned
      last := some result }

/-- The requests returned are the items taken off the stream, the unconsumed
bytes are its rest, and a verdict that ended a round of calls still stands. -/
structure Input.Inv (limits : Limits) (s : Input) : Prop where
  limits_eq : s.conn.limits.protocolLimits = limits
  inPos_le : s.conn.inPos ≤ s.conn.inBuf.length
  tracks : Tracks (head limits) s.stream s.returned s.conn.unconsumed
  need_more : ∀ result, s.last = some result → result.status = .kNeedMoreData →
    result = .needMore ∧ head limits s.conn.unconsumed = .more
  malformed : ∀ result, s.last = some result → result.status = .kMalformed →
    result = .malformed result.error ∧ head limits s.conn.unconsumed = .bad result.error

theorem inputStep_inv {limits : Limits} {s s' : Input} {a : InputAction} (h : s.Inv limits)
    (hs : inputStep s a = some s') : s'.Inv limits := by
  cases a with
  | read r =>
    simp only [inputStep] at hs
    split at hs
    · cases hs
      refine ⟨?_, ?_, ?_, by simp, by simp⟩
      · rw [readSome_eq]
        exact h.limits_eq
      · rw [readSome_eq]
        simp only [List.length_append]
        exact Nat.le_add_right_of_le h.inPos_le
      · rw [unconsumed_readSome r h.inPos_le]
        exact h.tracks.feed (received r)
    · cases hs
  | next out =>
    obtain ⟨⟨result, request, conn⟩, hn⟩ : ∃ p, s.conn.nextRequest out = p := ⟨_, rfl⟩
    simp only [inputStep, hn, Option.some.injEq] at hs
    subst hs
    obtain ⟨n, hh, rfl, rfl⟩ | ⟨hh, rfl, rfl⟩ | ⟨e, hh, rfl, rfl⟩ := nextRequest_cases hn
    all_goals rw [h.limits_eq] at hh
    · have hle := (head_incremental limits).item_le hh
      refine ⟨?_, consume_le h.inPos_le hle, ?_, ?_, ?_⟩
      · simp only [consume, compactInput]
        repeat' split
        all_goals exact h.limits_eq
      · rw [unconsumed_consume]
        exact h.tracks.take (head_incremental limits) hh
      · intro result hr hc
        cases hr
        cases hc
      · intro result hr hc
        cases hr
        cases hc
    · refine ⟨?_, compactInput_le h.inPos_le, ?_, ?_, ?_⟩
      · simp only [compactInput]
        split <;> exact h.limits_eq
      · rw [unconsumed_compactInput]
        exact h.tracks
      · intro result hr _
        cases hr
        exact ⟨rfl, by rw [unconsumed_compactInput]; exact hh⟩
      · intro result hr hc
        cases hr
        cases hc
    · refine ⟨h.limits_eq, h.inPos_le, h.tracks, ?_, ?_⟩
      · intro result hr hc
        cases hr
        cases hc
      · intro result hr _
        cases hr
        exact ⟨rfl, hh⟩

def Input.init (fd : Nat) (limits : ConnectionLimits) : Input where
  conn := { fd := fd, limits := limits }

theorem init_inv (fd : Nat) (limits : ConnectionLimits) :
    (Input.init fd limits).Inv limits.protocolLimits where
  limits_eq := rfl
  inPos_le := Nat.le_refl 0
  tracks := tracks_nil
  need_more := by intro result hr; cases hr
  malformed := by intro result hr; cases hr

theorem reach_inv {fd : Nat} {limits : ConnectionLimits} {s : Input}
    (h : Reach inputStep Free (Input.init fd limits) s) : s.Inv limits.protocolLimits :=
  h.invariant (init_inv fd limits) (fun _ _ _ hi _ hs => inputStep_inv hi hs)

theorem Input.Inv.ended {limits : Limits} {s : Input} {result : ParseResult} (h : s.Inv limits)
    (hl : s.last = some result) (hc : result.status ≠ .kComplete) :
    (result = .needMore ∧ parse (head limits) s.stream = (s.returned, none)) ∨
    (result = .malformed result.error ∧
      parse (head limits) s.stream = (s.returned, some result.error)) := by
  have hp := h.tracks.parse_eq
  cases hst : result.status with
  | kComplete => exact absurd hst hc
  | kNeedMoreData =>
    obtain ⟨hr, hu⟩ := h.need_more result hl hst
    left
    refine ⟨hr, ?_⟩
    rw [hp, parse_more hu]
    simp only [after, List.append_nil]
  | kMalformed =>
    obtain ⟨hr, hu⟩ := h.malformed result hl hst
    right
    refine ⟨hr, ?_⟩
    rw [hp, parse_bad hu]
    simp only [after, List.append_nil]

/-- Requests do not depend on how the stream was cut into reads: what has been
returned, followed by what the buffer still holds, is the parse of everything
received, and two runs over one stream that both ended a round of calls agree. -/
theorem requests_of_stream (fd fd' : Nat) (limits : ConnectionLimits) (s s' : Input)
    (h : Reach inputStep Free (Input.init fd limits) s)
    (h' : Reach inputStep Free (Input.init fd' limits) s') :
    s.conn.inPos ≤ s.conn.inBuf.length ∧
    parse (head limits.protocolLimits) s.stream =
      after s.returned (parse (head limits.protocolLimits) s.conn.unconsumed) ∧
    (∀ result, s.last = some result → result.status = .kNeedMoreData →
      parse (head limits.protocolLimits) s.stream = (s.returned, none)) ∧
    (∀ result, s.last = some result → result.status = .kMalformed →
      parse (head limits.protocolLimits) s.stream = (s.returned, some result.error)) ∧
    (∀ result result', s.stream = s'.stream → s.last = some result → s'.last = some result' →
      result.status ≠ .kComplete → result'.status ≠ .kComplete →
      s.returned = s'.returned ∧ result = result') := by
  have hi := reach_inv h
  have hi' := reach_inv h'
  refine ⟨hi.inPos_le, hi.tracks.parse_eq, ?_, ?_, ?_⟩
  · intro result hl hs
    obtain ⟨_, hp⟩ | ⟨hr, _⟩ := hi.ended hl (by rw [hs]; decide)
    · exact hp
    · rw [hr] at hs; cases hs
  · intro result hl hs
    obtain ⟨hr, _⟩ | ⟨_, hp⟩ := hi.ended hl (by rw [hs]; decide)
    · rw [hr] at hs; cases hs
    · exact hp
  · intro result result' hst hl hl' hc hc'
    obtain ⟨hr, hp⟩ | ⟨hr, hp⟩ := hi.ended hl hc <;>
      obtain ⟨hr', hp'⟩ | ⟨hr', hp'⟩ := hi'.ended hl' hc' <;>
      rw [hst, hp'] at hp <;> simp only [Prod.mk.injEq, Option.some.injEq] at hp
    · exact ⟨hp.1.symm, hr.trans hr'.symm⟩
    · exact absurd hp.2 (by simp)
    · exact absurd hp.2 (by simp)
    · exact ⟨hp.1.symm, by rw [hr, hr', hp.2]⟩

def twoPings : Bytes :=
  serializeRequest { requestId := 1 } ++ serializeRequest { requestId := 2 }

theorem requests_of_stream_pings : ∃ s s' : Input,
    s.stream = twoPings ∧ s.returned = [{ requestId := 1 }, { requestId := 2 }] ∧
      s.returned = s'.returned := by
  obtain ⟨s, hr, hstream, hreturned, hlast⟩ := exists_reach inputStep (Input.init 7 {})
    [.read (.data twoPings), .next {}, .next {}, .next {}]
    (fun s => s.stream = twoPings ∧ s.returned = [{ requestId := 1 }, { requestId := 2 }] ∧
      s.last = some .needMore)
    (by decide +kernel)
  obtain ⟨s', hr', hstream', hlast'⟩ := exists_reach inputStep (Input.init 8 {})
    [.read (.data (twoPings.take 10)), .next {}, .read .eintr,
      .read (.data (twoPings.drop 10)), .next {}, .next {}, .next {}]
    (fun s => s.stream = twoPings ∧ s.last = some .needMore)
    (by decide +kernel)
  have h := requests_of_stream 7 8 {} s s' hr hr'
  refine ⟨s, s', hstream, hreturned, ?_⟩
  exact (h.2.2.2.2 .needMore .needMore (hstream.trans hstream'.symm) hlast hlast' (by decide)
    (by decide)).1

end LocalCache.Connection
