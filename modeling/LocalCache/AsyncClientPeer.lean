import LocalCache.AsyncClientStreams
import LocalCache.PeerLinear

namespace LocalCache

open Protocol Serializer RequestCodec Library Keyed Transition Linearization

namespace Engine

def asked (e : Engine) : List (Nat × Request) :=
  e.trace.issued.map fun t => (t.connection, t.request)

def told (e : Engine) : List (Nat × Response) :=
  e.trace.completed.map fun p => (p.1, p.2.response)

variable {config : EngineConfig} {limits : Limits} {e e' : Engine} {a : EngineAction} {i n : Nat}
  {rs : List Response}

theorem listedOn_asked (e : Engine) (n : Nat) :
    listedOn n e.asked = (e.issuedOn n).map Ticket.request := by
  rw [listedOn, asked, List.filter_map, List.map_map, issuedOn]
  rfl

theorem listedOn_told (e : Engine) (n : Nat) :
    listedOn n e.told = (e.completedOn n).map Completion.response := by
  rw [listedOn, told, List.filter_map, List.map_map, completedOn, List.map_map]
  rfl

theorem flatMap_told (e : Engine) (n : Nat) : (listedOn n e.told).flatMap serializeResponse =
    (e.completedOn n).flatMap Completion.frame := by
  rw [listedOn_told, List.flatMap_map]
  rfl

theorem flatMap_asked (e : Engine) (n : Nat) : (listedOn n e.asked).flatMap serializeRequest =
    (e.issuedOn n).flatMap Ticket.frame := by
  rw [listedOn_asked, List.flatMap_map]
  rfl

theorem Incoming.split (h : e.Incoming) (live : (e.conn i).live = true)
    (handled : e.phase.fails i = false)
    (served : Served (listedOn i e.asked) (e.trace.received i) rs) :
    ∃ more, rs = (e.completedOn i).map Completion.response ++ more ∧
      (e.conn i).input.drop (e.phase.consumed i) <+: more.flatMap serializeResponse := by
  have hheld := (h.held i live handled).2
  rw [← flatMap_told, listedOn_told] at hheld
  have hstream := served.stream
  rw [← hheld] at hstream
  have hfirst : (e.completedOn i).map Completion.response <+: rs := by
    refine responses_prefix ?_ served.sized ((List.prefix_append _ _).trans hstream)
    intro r hr
    obtain ⟨x, hx, rfl⟩ := List.mem_map.mp hr
    exact h.sized i x hx
  obtain ⟨more, rfl⟩ := hfirst
  rw [List.flatMap_append, List.prefix_append_right_inj] at hstream
  exact ⟨more, rfl, hstream⟩

theorem Incoming.split_parse (h : e.Incoming) {consumed : Nat} {caller : Caller}
    (pc : e.phase = .handle i (.parse consumed) caller) (live : (e.conn i).live = true)
    (served : Served (listedOn i e.asked) (e.trace.received i) rs) :
    ∃ more, rs = (e.completedOn i).map Completion.response ++ more ∧
      (e.conn i).input.drop consumed <+: more.flatMap serializeResponse := by
  have hsplit := h.split live (by rw [pc]; rfl) served
  rwa [pc, Phase.consumed, if_pos rfl] at hsplit

theorem Shared.pending_of_served (h : e.Shared config) (hn : e.Numbered config) {r : Response}
    {more : List Response}
    (distinct : (((e.completedOn i).map Completion.response ++ r :: more).map
      Response.requestId).Nodup)
    (answers : ∃ q ∈ listedOn i e.asked, AnswersTo r q) :
    ∃ p, find Prod.fst r.requestId (e.conn i).pending = some p ∧ r.opcode = p.2.spec.opcode := by
  obtain ⟨q, hq, hanswers⟩ := answers
  rw [listedOn_asked] at hq
  obtain ⟨t, ht, rfl⟩ := List.mem_map.mp hq
  have hentry := (h.shares i).mem_iff.mp (List.mem_map_of_mem ht)
  obtain hpending | hcompleted := List.mem_append.mp hentry
  · obtain ⟨p, hp, heq⟩ := List.mem_map.mp hpending
    obtain ⟨hid, hspec⟩ := Prod.mk.inj heq
    refine ⟨p, ?_, ?_⟩
    · rw [hanswers.2, show t.request.requestId = p.1 from hid.symm]
      exact find_of_mem (h.pending_nodup hn i) hp
    · rw [hanswers.1, hspec]
      rfl
  · -- The request would have been answered twice.
    exfalso
    obtain ⟨x, hx, heq⟩ := List.mem_map.mp hcompleted
    rw [List.map_append, List.nodup_append] at distinct
    refine distinct.2.2 x.response.requestId ?_ r.requestId (by simp) ?_
    · exact List.mem_map_of_mem (List.mem_map_of_mem hx)
    · rw [hanswers.2]
      exact (Prod.mk.inj heq).1

theorem Sound.asked_nodup (h : e.Sound config) : (e.asked.map fun p => p.2.requestId).Nodup := by
  have hids := h.books.numbered.ids_nodup
  rw [asked, List.map_map]
  exact hids

/-- On a connection that is served well, every response that can be parsed belongs to a pending
request. -/
theorem Sound.no_failure (h : e.Sound config) (hm : e.Moves config a e')
    (served : ∀ n, ∃ rs, Served (listedOn n e.asked) (e.trace.received n) rs) :
    e'.stats.protocolFailures = e.stats.protocolFailures := by
  cases hm with
  | malformed i consumed caller now pc why =>
    exfalso
    obtain ⟨rs, hrs⟩ := served i
    obtain ⟨more, rfl, hinput⟩ :=
      h.incoming.split_parse pc (h.books.fleet.handled_of_phase pc) hrs
    refine ResponseCodec.deserializeResponse_prefix ?_ hinput why
    intro r hr
    have hle := hrs.sized r (List.mem_append_right _ hr)
    exact Nat.le_min.mpr ⟨hle, hle⟩
  | uncorrelated i consumed caller now response rest pc frame value_le why =>
    exfalso
    obtain ⟨rs, hrs⟩ := served i
    obtain ⟨more, rfl, hinput⟩ :=
      h.incoming.split_parse pc (h.books.fleet.handled_of_phase pc) hrs
    have hfirst : [response] <+: more := by
      refine responses_prefix ?_ (fun r hr => hrs.sized r (List.mem_append_right _ hr)) ?_
      · intro r hr
        rw [List.mem_singleton.mp hr]
        exact value_le
      · rw [List.flatMap_singleton]
        rw [frame] at hinput
        exact (List.prefix_append _ _).trans hinput
    obtain ⟨others, rfl⟩ := hfirst
    obtain ⟨p, hfind, hopcode⟩ := h.books.shared.pending_of_served h.books.numbered
      (hrs.distinct (nodup_listedOn h.asked_nodup i)) (hrs.answers response (by simp))
    exact why p hfind hopcode
  | dropped i caller pc | hungUp i flags rest pc live =>
    simp only [drop]
    split <;> rfl
  | _ => rfl

def brings (e : Engine) (a : EngineAction) : Option (Nat × Bytes) :=
  match e.phase, a with
  | .handle i .recv _, .recv (.data bytes) => some (i, bytes)
  | _, _ => none

theorem sent_moves (hm : e.Moves config a e') (n : Nat) : e.trace.sent n <+: e'.trace.sent n := by
  cases hm with
  | sent i caller k pc pos le =>
    dsimp only
    rw [Function.update_apply]
    split
    · rename_i hn
      rw [hn]
      exact List.prefix_append _ _
    · exact List.prefix_refl _
  | dropped | hungUp =>
    dsimp only
    rw [drop_trace]
  | _ => exact List.prefix_refl _

theorem received_moves (hm : e.Moves config a e') (n : Nat) :
    e'.trace.received n = e.trace.received n ∨
      ∃ bytes, e.brings a = some (n, bytes) ∧
        e'.trace.received n = e.trace.received n ++ bytes := by
  cases hm with
  | received i caller bytes pc pos =>
    dsimp only
    rw [Function.update_apply]
    split
    · rename_i hn
      subst hn
      exact .inr ⟨bytes, by simp only [brings, pc], rfl⟩
    · exact .inl rfl
  | dropped | hungUp =>
    left
    dsimp only
    rw [drop_trace]
  | _ => exact .inl rfl

theorem turn_of_moves (hm : e.Moves config a e') :
    (e'.asked = e.asked ∧ e'.told = e.told) ∨
      (∃ p, e'.asked = e.asked ++ [p] ∧ e'.told = e.told) ∨
      ∃ p, e'.told = e.told ++ [p] ∧ e'.asked = e.asked := by
  cases hm with
  | issued i again caller spec now pc room =>
    refine .inr (.inl ⟨(i, spec.request e.nextRequestId), ?_, rfl⟩)
    simp only [asked, issue, List.map_append]
    rfl
  | completed i consumed caller now p response rest pc le frame value_le hit opcode =>
    refine .inr (.inr ⟨(i, response), ?_, rfl⟩)
    simp only [told, complete, List.map_append]
    rfl
  | dropped | hungUp =>
    left
    simp only [asked, told, drop_trace, and_self]
  | _ => exact .inl ⟨rfl, rfl⟩

/-- The generator asks for nothing that the server would call malformed. -/
def Grants (limits : Limits) : EngineAction → Prop
  | .generate (some spec) _ => Grammatical (spec.request 0) limits
  | _ => True

structure Accepted (limits : Limits) (config : EngineConfig) (e : Engine) : Prop where
  sound : e.Sound config
  grammatical : ∀ p ∈ e.asked, Grammatical p.2 limits
  no_failure : e.stats.protocolFailures = 0

theorem grammatical_moves (h : ∀ p ∈ e.asked, Grammatical p.2 limits) (ok : Grants limits a)
    (hm : e.Moves config a e') : ∀ p ∈ e'.asked, Grammatical p.2 limits := by
  cases hm with
  | issued i again caller spec now pc room =>
    have hg : Grammatical (spec.request e.nextRequestId) limits := by
      exact ⟨ok.opcode, ok.key_le, ok.value_le, ok.key_present, ok.key_absent, ok.value_absent⟩
    intro p hp
    simp only [asked, issue, List.map_append, List.mem_append] at hp
    obtain hp | hp := hp
    · exact h p hp
    · obtain rfl := List.mem_singleton.mp hp
      exact hg
  | dropped | hungUp =>
    simp only [asked, drop_trace]
    exact h
  | _ => exact h

def peer (limits : Limits) (config : EngineConfig) : Peer limits Engine EngineAction where
  start := {}
  step := step config
  ok := fun _ => Grants limits
  Inv := Accepted limits config
  connections := Engine.conns
  sent := fun e => e.trace.sent
  read := fun e => e.trace.received
  brings := brings
  asked := asked
  told := told
  inv_start := ⟨sound_start, (fun _ hp => by cases hp), rfl⟩
  silent_start := ⟨fun _ => rfl, rfl, rfl⟩
  inv_step := by
    intro e e' a h served ok hs
    have hm := moves_of_step hs
    exact ⟨sound_moves h.sound hm, grammatical_moves h.grammatical ok hm,
      (h.sound.no_failure hm served).trans h.no_failure⟩
  sent_step := fun _ hs => sent_moves (moves_of_step hs)
  read_step := fun _ hs => received_moves (moves_of_step hs)
  turn := fun _ hs => turn_of_moves (moves_of_step hs)
  framed := by
    intro e h n
    rw [flatMap_asked]
    exact ⟨_, h.sound.outgoing.stream n⟩
  grammatical := fun h => h.grammatical
  used := by
    intro e h n
    rw [flatMap_told]
    exact h.sound.incoming.used n
  sized := by
    intro e h p hp
    have hmem : p.2 ∈ listedOn p.1 e.told := mem_listedOn.mpr hp
    rw [listedOn_told] at hmem
    obtain ⟨x, hx, heq⟩ := List.mem_map.mp hmem
    rw [← heq]
    exact h.sound.incoming.sized p.1 x hx

theorem numbered_peer (limits : Limits) (config : EngineConfig) : (peer limits config).Numbered :=
  fun _ h => h.sound.asked_nodup

end Engine

end LocalCache
