import LocalCache.AsyncClientLedger

namespace LocalCache

open Protocol Serializer Library Keyed Threads Transition

theorem RequestCodec.serializeRequestInto_eq (r : Request) (out : Bytes) :
    serializeRequestInto r out = out ++ serializeRequest r := by
  simp only [serializeRequest, serializeRequestInto, appendBytes, HeaderCodec.encodeHeader_eq,
    List.append_assoc, List.nil_append]

namespace Engine

def Conn.unsent (c : Conn) : Bytes := c.output.drop c.outputPos

def Completion.frame (x : Completion) : Bytes := serializeResponse x.response

def Phase.consumed (i : Nat) : Phase → Nat
  | .handle j (.parse k) _ => if j = i then k else 0
  | _ => 0

def Phase.fails (i : Nat) : Phase → Bool
  | .handle j .failed _ => j = i
  | _ => false

structure Outgoing (e : Engine) : Prop where
  pos_le : ∀ i, (e.conn i).outputPos ≤ (e.conn i).output.length
  stream : ∀ i, e.trace.sent i ++ (e.conn i).unsent = (e.issuedOn i).flatMap Ticket.frame

/-- What was received on a connection begins with the responses completed. On an open one only
the input not parsed yet follows. -/
structure Incoming (e : Engine) : Prop where
  fresh : ∀ i, e.conns ≤ i → e.trace.received i = []
  used : ∀ i, (e.completedOn i).flatMap Completion.frame <+: e.trace.received i
  sized : ∀ i, ∀ x ∈ e.completedOn i, x.response.value.length ≤ kMaxValueBytes.toNat
  held : ∀ i, (e.conn i).live = true → e.phase.fails i = false →
    e.phase.consumed i ≤ (e.conn i).input.length ∧
      (e.completedOn i).flatMap Completion.frame ++
        (e.conn i).input.drop (e.phase.consumed i) = e.trace.received i

variable {config : EngineConfig} {e e' : Engine} {a : EngineAction} {i j : Nat} {c : Conn}

theorem outgoing_start : Outgoing {} := ⟨fun _ => Nat.le_refl _, fun _ => rfl⟩

theorem Outgoing.frame (h : e.Outgoing) (issued : e'.trace.issued = e.trace.issued)
    (sent : e'.trace.sent = e.trace.sent) (output : ∀ i, (e'.conn i).output = (e.conn i).output)
    (pos : ∀ i, (e'.conn i).outputPos = (e.conn i).outputPos) : e'.Outgoing where
  pos_le := by
    intro i
    rw [output, pos]
    exact h.pos_le i
  stream := by
    intro i
    rw [sent, Conn.unsent, output, pos, issuedOn, issued]
    exact h.stream i

theorem Outgoing.issue {spec : RequestSpec} {now : Nat} (h : e.Outgoing) :
    (e.issue i spec now).Outgoing := by
  refine ⟨?_, ?_⟩
  · intro j
    simp only [Engine.issue, RequestCodec.serializeRequestInto_eq]
    rw [Function.update_apply]
    split
    · rw [List.length_append]
      exact (h.pos_le i).trans (Nat.le_add_right _ _)
    · exact h.pos_le j
  · intro j
    have hs := h.stream j
    simp only [Engine.issue, RequestCodec.serializeRequestInto_eq, issuedOn, issuedOn_append]
    by_cases hj : j = i
    · subst hj
      rw [Function.update_self, if_pos rfl, List.flatMap_append, Conn.unsent,
        List.drop_append_of_le_length (h.pos_le j), ← List.append_assoc]
      exact congrArg₂ (· ++ ·) hs (List.append_nil _).symm
    · rw [Function.update_of_ne hj, if_neg (Ne.symm hj), List.append_nil]
      exact hs

theorem Outgoing.sent {n : Nat} (h : e.Outgoing)
    (le : (e.conn i).outputPos + n ≤ (e.conn i).output.length) :
    Outgoing { e with
      conn := Function.update e.conn i { e.conn i with outputPos := (e.conn i).outputPos + n }
      trace := { e.trace with
        sent := Function.update e.trace.sent i (e.trace.sent i ++
          ((e.conn i).output.drop (e.conn i).outputPos).take n) } } := by
  refine ⟨?_, ?_⟩
  · intro j
    dsimp only
    rw [Function.update_apply]
    split
    · exact le
    · exact h.pos_le j
  · intro j
    have hs := h.stream j
    dsimp only
    by_cases hj : j = i
    · subst hj
      rw [Function.update_self, Function.update_self, Conn.unsent, ← List.drop_drop,
        List.append_assoc, List.take_append_drop]
      exact hs
    · rw [Function.update_of_ne hj, Function.update_of_ne hj]
      exact hs

theorem Outgoing.flushed {phase : Phase} (h : e.Outgoing)
    (all : (e.conn i).output.length ≤ (e.conn i).outputPos) :
    Outgoing { e with
      conn := Function.update e.conn i { e.conn i with output := [], outputPos := 0 }
      phase := phase } := by
  refine ⟨?_, ?_⟩
  · intro j
    dsimp only
    rw [Function.update_apply]
    split
    · exact Nat.le_refl _
    · exact h.pos_le j
  · intro j
    have hs := h.stream j
    dsimp only
    by_cases hj : j = i
    · subst hj
      rw [Conn.unsent, List.drop_eq_nil_of_le all] at hs
      rw [Function.update_self]
      exact hs
    · rw [Function.update_of_ne hj]
      exact hs

theorem outgoing_moves (h : e.Outgoing) (hf : e.Fleet config) (hm : e.Moves config a e') :
    e'.Outgoing := by
  cases hm with
  | issued i again caller spec now pc room => exact h.issue
  | sent i caller n pc pos le => exact h.sent le
  | flushed i caller pc all => exact h.flushed all
  | opened fd errno pc room =>
    have hnew := hf.fresh _ (Nat.le_refl _)
    exact h.frame rfl rfl (conn_congr Conn.output (by rw [hnew]))
      (conn_congr Conn.outputPos (by rw [hnew]))
  | dropped i caller pc | hungUp i flags rest pc live =>
    exact h.frame (congrArg Trace.issued (drop_trace _ _)) (congrArg Trace.sent (drop_trace _ _))
      (fun j => drop_conn Conn.output (fun _ => rfl) _ j e)
      (fun j => drop_conn Conn.outputPos (fun _ => rfl) _ j e)
  | registered | received | parsed | completed =>
    exact h.frame rfl rfl (conn_congr Conn.output rfl) (conn_congr Conn.outputPos rfl)
  | _ => exact h.frame rfl rfl (fun _ => rfl) (fun _ => rfl)

theorem incoming_start : Incoming {} where
  fresh := fun _ _ => rfl
  used := fun _ => List.nil_prefix
  sized := fun _ _ hx => by cases hx
  held := fun _ live => by cases live

namespace Incoming

theorem frame (h : e.Incoming) (completed : e'.trace.completed = e.trace.completed)
    (received : e'.trace.received = e.trace.received) (conns : e'.conns = e.conns)
    (held : ∀ i, (e'.conn i).live = true → e'.phase.fails i = false →
      (e.conn i).live = true ∧ e.phase.fails i = false ∧
        (e'.conn i).input = (e.conn i).input ∧ e'.phase.consumed i = e.phase.consumed i) :
    e'.Incoming where
  fresh := by
    rw [received, conns]
    exact h.fresh
  used := by
    intro i
    rw [completedOn, completed, received]
    exact h.used i
  sized := by
    intro i
    rw [completedOn, completed]
    exact h.sized i
  held := by
    intro i live fails
    obtain ⟨hlive, hfails, hinput, hconsumed⟩ := held i live fails
    rw [hinput, hconsumed, completedOn, completed, received]
    exact h.held i hlive hfails

theorem relocate (h : e.Incoming) (completed : e'.trace.completed = e.trace.completed)
    (received : e'.trace.received = e.trace.received) (conns : e'.conns = e.conns)
    (live : ∀ i, (e'.conn i).live = (e.conn i).live)
    (input : ∀ i, (e'.conn i).input = (e.conn i).input)
    (phase : ∀ i, e'.phase.fails i = false →
      e.phase.fails i = false ∧ e'.phase.consumed i = e.phase.consumed i) : e'.Incoming := by
  refine h.frame completed received conns ?_
  intro i hlive hfails
  obtain ⟨hold, hconsumed⟩ := phase i hfails
  exact ⟨live i ▸ hlive, hold, input i, hconsumed⟩

theorem received (h : e.Incoming) (hi : i < e.conns) {caller : Caller} {bytes : Bytes}
    (pc : e.phase = .handle i .recv caller) :
    Incoming { e with
      conn := Function.update e.conn i { e.conn i with input := (e.conn i).input ++ bytes }
      trace := { e.trace with
        received := Function.update e.trace.received i (e.trace.received i ++ bytes) } } := by
  refine ⟨?_, ?_, h.sized, ?_⟩
  · intro j hj
    dsimp only at hj ⊢
    rw [Function.update_of_ne (by omega)]
    exact h.fresh j hj
  · intro j
    dsimp only
    by_cases hj : j = i
    · subst hj
      rw [Function.update_self]
      exact (h.used j).trans (List.prefix_append _ _)
    · rw [Function.update_of_ne hj]
      exact h.used j
  · intro j hlive hfails
    dsimp only at hlive hfails ⊢
    by_cases hj : j = i
    · subst hj
      rw [Function.update_self] at hlive
      have hheld := h.held j hlive hfails
      rw [pc] at hheld ⊢
      rw [Function.update_self, Function.update_self, ← hheld.2, List.append_assoc]
      exact ⟨Nat.zero_le _, rfl⟩
    · rw [Function.update_of_ne hj] at hlive
      rw [Function.update_of_ne hj, Function.update_of_ne hj]
      exact h.held j hlive hfails

theorem parsed (h : e.Incoming) {caller : Caller} {consumed : Nat}
    (pc : e.phase = .handle i (.parse consumed) caller) :
    (e.parsed i consumed caller).Incoming := by
  refine ⟨h.fresh, h.used, h.sized, ?_⟩
  intro j hlive hfails
  simp only [Engine.parsed, Phase.consumed, Nat.zero_le, List.drop_zero, true_and] at hlive ⊢
  have hheld := h.held j
  rw [pc] at hheld
  by_cases hj : j = i
  · subst hj
    rw [Function.update_self] at hlive
    have hheld := (hheld hlive rfl).2
    rw [Phase.consumed, if_pos rfl] at hheld
    rw [Function.update_self]
    exact hheld
  · rw [Function.update_of_ne hj] at hlive
    have hheld := (hheld hlive rfl).2
    rw [Phase.consumed, if_neg (Ne.symm hj), List.drop_zero] at hheld
    rw [Function.update_of_ne hj]
    exact hheld

theorem complete (h : e.Incoming) {caller : Caller} {consumed now : Nat} {p : Pending}
    {response : Response} {rest : Bytes} (live : (e.conn i).live = true)
    (pc : e.phase = .handle i (.parse consumed) caller)
    (frame : (e.conn i).input.drop consumed = serializeResponse response ++ rest)
    (value_le : response.value.length ≤ kMaxValueBytes.toNat) :
    Incoming { e.complete i p response now with
      phase := .handle i (.parse (consumed + (serializeResponse response).length)) caller } := by
  have hheld := h.held i live (by rw [pc]; rfl)
  rw [pc, Phase.consumed, if_pos rfl, frame] at hheld
  have hdrop : (e.conn i).input.drop (consumed + (serializeResponse response).length) = rest := by
    rw [← List.drop_drop, frame, List.drop_left]
  have hlen : consumed + (serializeResponse response).length ≤ (e.conn i).input.length := by
    have hl := congrArg List.length frame
    rw [List.length_drop, List.length_append] at hl
    omega
  refine ⟨h.fresh, ?_, ?_, ?_⟩
  · intro j
    simp only [Engine.complete, completedOn, completedOn_append]
    by_cases hj : i = j
    · subst hj
      rw [if_pos rfl, List.flatMap_append]
      exact ⟨rest, by rw [← hheld.2, List.append_assoc]; simp [Completion.frame, completedOn]⟩
    · rw [if_neg hj, List.append_nil]
      exact h.used j
  · intro j x hx
    simp only [Engine.complete, completedOn, completedOn_append] at hx
    obtain hx | hx := List.mem_append.mp hx
    · exact h.sized j x hx
    · split at hx
      · rw [List.mem_singleton.mp hx]
        exact value_le
      · cases hx
  · intro j hlive hfails
    simp only [Engine.complete, completedOn, completedOn_append] at hlive ⊢
    by_cases hj : i = j
    · subst hj
      rw [Function.update_self, Phase.consumed, if_pos rfl, if_pos rfl, List.flatMap_append]
      refine ⟨hlen, ?_⟩
      rw [hdrop, ← hheld.2, List.append_assoc]
      simp [Completion.frame, completedOn]
    · rw [Function.update_of_ne (Ne.symm hj)] at hlive
      have hother := h.held j hlive (by rw [pc]; rfl)
      rw [pc, Phase.consumed, if_neg hj] at hother
      rw [Function.update_of_ne (Ne.symm hj), Phase.consumed, if_neg hj, if_neg hj,
        List.append_nil]
      exact hother

theorem dropped (h : e.Incoming) (live : (e.conn i).live = true) {phase : Phase}
    (quiet : ∀ j, phase.consumed j = 0)
    (only : ∀ j, j ≠ i → e.phase.fails j = false ∧ e.phase.consumed j = 0) :
    Incoming { e.drop i with phase := phase } := by
  rw [drop_of_live live]
  refine h.frame rfl rfl rfl ?_
  intro j hlive hfails
  dsimp only at hlive ⊢
  have hj : j ≠ i := by
    rintro rfl
    rw [Function.update_self] at hlive
    cases hlive
  rw [Function.update_of_ne hj] at hlive ⊢
  obtain ⟨hold, hzero⟩ := only j hj
  exact ⟨hlive, hold, rfl, (quiet j).trans hzero.symm⟩

theorem opened (h : e.Incoming) (pc : e.phase = .connecting) (empty : c.input = []) :
    Incoming { e with
      conn := Function.update e.conn e.conns c
      conns := e.conns + 1
      liveConnections := e.liveConnections + 1 } := by
  have hnew := h.fresh _ (Nat.le_refl _)
  refine ⟨fun i hi => h.fresh i (Nat.le_of_succ_le hi), h.used, h.sized, ?_⟩
  intro j hlive hfails
  dsimp only at hlive hfails ⊢
  rw [pc]
  by_cases hj : j = e.conns
  · subst hj
    have hused := h.used e.conns
    rw [hnew, List.prefix_nil] at hused
    rw [Function.update_self, empty, hnew]
    exact ⟨Nat.zero_le _, congrArg (· ++ []) hused⟩
  · rw [Function.update_of_ne hj] at hlive ⊢
    have hheld := h.held j hlive hfails
    rw [pc] at hheld
    exact hheld

end Incoming

theorem consumed_next (caller : Caller) (j : Nat) : (caller.next i).consumed j = 0 := by
  cases caller with
  | begin | writable rest => rfl
  | readable flags rest =>
    rw [Caller.next]
    split <;> rfl

theorem consumed_dropped (caller : Caller) (j : Nat) : (caller.dropped i).consumed j = 0 := by
  cases caller <;> rfl

theorem consumed_filled (again : Bool) (caller : Caller) (j : Nat) :
    (Phase.handle i (filled again) caller).consumed j = 0 := by
  cases again <;> rfl

theorem incoming_moves (h : e.Incoming) (hf : e.Fleet config) (hm : e.Moves config a e') :
    e'.Incoming := by
  cases hm with
  | received i caller bytes pc pos => exact h.received (hf.lt_conns (hf.handled_of_phase pc)) pc
  | parsed i consumed caller now pc why => exact h.parsed pc
  | completed i consumed caller now p response rest pc le frame value_le hit opcode =>
    exact h.complete (hf.handled_of_phase pc) pc frame value_le
  | dropped i caller pc =>
    refine h.dropped (hf.handled_of_phase pc) (consumed_dropped caller) ?_
    intro j hj
    rw [pc]
    exact ⟨decide_eq_false (Ne.symm hj), rfl⟩
  | hungUp i flags rest pc live =>
    refine h.dropped live (fun _ => rfl) ?_
    intro j hj
    rw [pc]
    exact ⟨rfl, rfl⟩
  | opened fd errno pc room => exact h.opened pc rfl
  | malformed i consumed caller now pc | uncorrelated i consumed caller now response rest pc =>
    refine h.relocate rfl rfl rfl (fun _ => rfl) (fun _ => rfl) ?_
    intro j hj
    rw [pc]
    refine ⟨rfl, ?_⟩
    have hne : i ≠ j := of_decide_eq_false hj
    simp [protocolFailure, Phase.consumed, hne]
  | fails a i stage caller pc idle =>
    refine h.relocate rfl rfl rfl (fun _ => rfl) (fun _ => rfl) ?_
    intro j hj
    rw [pc]
    have hne : i ≠ j := of_decide_eq_false hj
    cases stage with
    | parse k => exact absurd rfl (idle k)
    | failed => exact ⟨decide_eq_false hne, rfl⟩
    | fill | send | interest | recv => exact ⟨rfl, rfl⟩
  | registered i wantWrite caller pc =>
    refine h.relocate rfl rfl rfl (conn_congr Conn.live rfl) (conn_congr Conn.input rfl) ?_
    intro j hj
    rw [pc]
    exact ⟨rfl, consumed_next caller j⟩
  | filled i again caller pc | exhausted i again caller now pc =>
    refine h.relocate rfl rfl rfl (fun _ => rfl) (fun _ => rfl) ?_
    intro j hj
    rw [pc]
    exact ⟨rfl, consumed_filled again caller j⟩
  | issued | sent =>
    exact h.relocate rfl rfl rfl (conn_congr Conn.live rfl) (conn_congr Conn.input rfl)
      (fun _ hj => ⟨hj, rfl⟩)
  | flushed i caller pc all =>
    refine h.relocate rfl rfl rfl (conn_congr Conn.live rfl) (conn_congr Conn.input rfl) ?_
    intro j hj
    rw [pc]
    exact ⟨rfl, rfl⟩
  | drained i caller pc =>
    refine h.relocate rfl rfl rfl (fun _ => rfl) (fun _ => rfl) ?_
    intro j hj
    rw [pc]
    refine ⟨rfl, ?_⟩
    simp only [Phase.consumed, ite_self]
  | interrupted => exact h
  | connectFailed _ _ _ pc | blocked _ _ pc
  | rejected _ _ _ pc | created _ _ pc | optionFailed _ _ _ pc | connected pc | started pc
  | begins _ pc | readable _ _ _ pc | writable _ _ _ pc
  | begun _ pc | done pc | deserted pc | waits pc | batch _ _ pc | gaveUp _ _ _ pc
  | rechecked _ pc | handled pc | skipped _ _ _ pc =>
    refine h.relocate rfl rfl rfl (fun _ => rfl) (fun _ => rfl) ?_
    intro j hj
    rw [pc]
    exact ⟨rfl, rfl⟩

structure Sound (config : EngineConfig) (e : Engine) : Prop where
  books : e.Books config
  outgoing : e.Outgoing
  incoming : e.Incoming

theorem sound_start : Sound config {} := ⟨books_start, outgoing_start, incoming_start⟩

theorem sound_moves (h : e.Sound config) (hm : e.Moves config a e') : e'.Sound config :=
  ⟨books_moves h.books hm, outgoing_moves h.outgoing h.books.fleet hm,
    incoming_moves h.incoming h.books.fleet hm⟩

theorem reach_sound {ok : Engine → EngineAction → Prop} (h : Reach (step config) ok {} e) :
    e.Sound config :=
  h.invariant sound_start (fun _ _ _ hp _ hs => sound_moves hp (moves_of_step hs))

/-- However `send` and `recv` cut the streams, what the socket of a connection has taken, with
what is unsent, is exactly the frames of the requests issued there, in order. What was received
begins with exactly the frames of the responses completed there, in order, and while the
connection is open and its handler does not run, all that follows them is kept. -/
theorem streams_exact (config : EngineConfig) {e : Engine} (h : Reach (step config) Free {} e) :
    (∀ i, e.trace.sent i ++ (e.conn i).unsent = (e.issuedOn i).flatMap Ticket.frame) ∧
      (∀ i, (e.completedOn i).flatMap Completion.frame <+: e.trace.received i) ∧
      ∀ i, (e.conn i).live = true → e.phase.handles ≠ some i →
        (e.completedOn i).flatMap Completion.frame ++ (e.conn i).input = e.trace.received i := by
  have hs := reach_sound h
  refine ⟨hs.outgoing.stream, hs.incoming.used, ?_⟩
  intro i live idle
  have hfails : e.phase.fails i = false := by
    unfold Phase.fails
    split
    · rename_i j caller pc
      refine decide_eq_false ?_
      rintro rfl
      exact idle (by rw [pc]; rfl)
    · rfl
  have hconsumed : e.phase.consumed i = 0 := by
    unfold Phase.consumed
    split
    · rename_i j k caller pc
      refine if_neg ?_
      rintro rfl
      exact idle (by rw [pc]; rfl)
    · rfl
  have hheld := (hs.incoming.held i live hfails).2
  rw [hconsumed, List.drop_zero] at hheld
  exact hheld

theorem streams_exact_cut :
    ∃ e : Engine, Reach (step pairConfig) Free {} e ∧ e.phase = .wait ∧
      e.trace.sent 0 = ((e.issuedOn 0).flatMap Ticket.frame).take 36 ∧
      e.trace.received 0 = (pong 1 ++ pong 2).take 36 ∧ (e.conn 0).input.length = 12 ∧
      e.trace.sent 0 ++ (e.conn 0).unsent = (e.issuedOn 0).flatMap Ticket.frame := by
  obtain ⟨e, hr, hphase, hsent, hreceived, hinput⟩ := exists_reach (step pairConfig) {}
    ([.create true "", .connect (.opened 5) "", .internal, .run, .internal,
      .generate (some {}) 10, .generate (some {}) 20, .internal, .internal, .send (.sent 36),
      .send .eagain, .control true, .internal, .internal] ++
      readPair ((pong 1 ++ pong 2).take 36) 2 ++
      [.generate none 60, .internal, .send .eagain, .control true, .internal, .internal])
    (fun e => e.phase = .wait ∧ e.trace.sent 0 = ((e.issuedOn 0).flatMap Ticket.frame).take 36 ∧
      e.trace.received 0 = (pong 1 ++ pong 2).take 36 ∧ (e.conn 0).input.length = 12)
    (by decide +kernel)
  exact ⟨e, hr, hphase, hsent, hreceived, hinput, (streams_exact pairConfig hr).1 0⟩

end Engine

end LocalCache
