import LocalCache.Benchmark
import LocalCache.PeerValues
import LocalCache.Stress

namespace LocalCache

open Protocol Serializer RequestCodec Library Transition Linearization

namespace Engine

variable {config : EngineConfig} {e e' : Engine} {a : EngineAction}

theorem issued_moves (hm : e.Moves config a e') :
    (e'.trace.issued = e.trace.issued ∧ e'.issued = e.issued) ∨
      ∃ i spec now, a = .generate (some spec) now ∧ e'.issued = e.issued + 1 ∧
        e'.trace.issued = e.trace.issued ++ [⟨i, e.nextRequestId, spec⟩] := by
  cases hm with
  | issued i again caller spec now pc room => exact .inr ⟨i, spec, now, rfl, rfl, rfl⟩
  | dropped | hungUp =>
    left
    simp only [drop_trace, drop_issued, and_self]
  | _ => exact .inl ⟨rfl, rfl⟩

def Follows (gen : UInt64 → RequestSpec) (e : Engine) : Prop :=
  e.trace.issued.map Ticket.spec = (List.range e.issued).map fun n => gen (.ofNat n)

theorem follows_moves {gen : UInt64 → RequestSpec} (h : e.Follows gen)
    (asks : ∀ r now, a = .generate r now → r = some (gen (.ofNat e.issued)))
    (hm : e.Moves config a e') : e'.Follows gen := by
  obtain ⟨hissued, hcount⟩ | ⟨i, spec, now, rfl, hcount, hissued⟩ := issued_moves hm
  · rw [Follows, hissued, hcount]
    exact h
  · obtain rfl := Option.some.inj (asks _ now rfl)
    rw [Follows, hissued, hcount, List.map_append, h, List.range_succ, List.map_append]
    rfl

end Engine

namespace Stress

open Engine

/-- The first two engines are those of the stress test. The others are whatever else uses the
server. -/
def configs (o : Options) (others : Nat → EngineConfig) (k : Nat) : EngineConfig :=
  if k < 2 then o.engineConfig else others k

/-- The generators of the stress test are asked in turn, and its second engine is created when the
first has returned without an error. Nobody else writes to its keys. -/
def Drives (config : ServerConfig) (z : Net Engine) : NetAction EngineAction → Prop
  | .peer k (.generate r _) =>
    if k = 0 then r = some (putSpec (.ofNat (z.peer 0).issued))
    else if k = 1 then r = some (getSpec (.ofNat (z.peer 1).issued))
    else ∀ spec ∈ r, Grammatical (spec.request 0) config.frameLimits ∧
      (spec.opcode = .kPut → ¬ServerOption.chars "stress:" <+: spec.key)
  | .peer k (.create _ _) => k = 1 → (z.peer 0).phase = .returned ""
  | _ => True

instance (config : ServerConfig) (z : Net Engine) :
    (a : NetAction EngineAction) → Decidable (Drives config z a)
  | .peer _ (.generate _ _) => inferInstanceAs (Decidable (ite _ _ _))
  | .peer _ (.create _ _) => inferInstanceAs (Decidable (_ → _))
  | .peer _ .internal | .peer _ (.connect _ _) | .peer _ .run | .peer _ (.send _)
  | .peer _ (.control _) | .peer _ (.recv _) | .peer _ (.parse _) | .peer _ (.wait _ _)
  | .server _ | .accept _ _ _ => isTrue trivial

structure Scripted (z : Net Engine) : Prop where
  puts : (z.peer 0).Follows putSpec
  gets : (z.peer 1).Follows getSpec
  others : ∀ k, 2 ≤ k → ∀ t ∈ (z.peer k).trace.issued, t.spec.opcode = .kPut →
    ¬ServerOption.chars "stress:" <+: t.spec.key

variable {config : ServerConfig} {fds : Descriptors} {o : Options} {others : Nat → EngineConfig}
  {z z' : Net Engine} {a : NetAction EngineAction} {M : Net.Layers}

theorem scripted_start (config : ServerConfig) (fds : Descriptors) (o : Options)
    (others : Nat → EngineConfig) :
    Scripted (Net.start config fds (engines config (configs o others))) where
  puts := rfl
  gets := rfl
  others := fun _ _ _ ht => by cases ht

theorem scripted_moves (h : Scripted z) (ok : Drives config z a)
    (hm : Net.Moves fds (engines config (configs o others)) z a z') : Scripted z' := by
  cases hm with
  | served | accepted | rejected => exact ⟨h.puts, h.gets, h.others⟩
  | moved k a s delivers hs =>
    have hm : (z.peer k).Moves (configs o others k) a s := moves_of_step hs
    have hother : ∀ i, i ≠ k → Function.update z.peer k s i = z.peer i :=
      fun i hi => Function.update_of_ne hi ..
    obtain _ | _ | k := k
    · refine ⟨?_, ?_, ?_⟩ <;> dsimp only
      · rw [Function.update_self]
        exact follows_moves h.puts (fun r now ha => by subst ha; exact ok) hm
      · rw [hother 1 (by decide)]
        exact h.gets
      · intro i hi
        rw [hother i (by omega)]
        exact h.others i hi
    · refine ⟨?_, ?_, ?_⟩ <;> dsimp only
      · rw [hother 0 (by decide)]
        exact h.puts
      · rw [Function.update_self]
        exact follows_moves h.gets (fun r now ha => by subst ha; exact ok) hm
      · intro i hi
        rw [hother i (by omega)]
        exact h.others i hi
    · refine ⟨?_, ?_, ?_⟩ <;> dsimp only
      · rw [hother 0 (by omega)]
        exact h.puts
      · rw [hother 1 (by omega)]
        exact h.gets
      · refine Net.forall_update (Q := fun i (e : Engine) => 2 ≤ i → ∀ t ∈ e.trace.issued,
          t.spec.opcode = .kPut → ¬ServerOption.chars "stress:" <+: t.spec.key) h.others ?_
        intro hk t ht
        obtain ⟨hissued, -⟩ | ⟨i, spec, now, rfl, -, hissued⟩ := issued_moves hm
        · rw [hissued] at ht
          exact h.others _ hk t ht
        · rw [hissued] at ht
          obtain ht | ht := List.mem_append.mp ht
          · exact h.others _ hk t ht
          · rw [List.mem_singleton.mp ht]
            exact (ok spec rfl).2

theorem grammatical_spec (valid : config.Valid) (key_le : 27 ≤ config.maxKeyBytes.toNat)
    (value_le : 256 ≤ config.maxValueBytes.toNat) (n : UInt64) :
    Grammatical ((putSpec n).request 0) config.frameLimits ∧
      Grammatical ((getSpec n).request 0) config.frameLimits := by
  obtain ⟨hkey, hvalue⟩ := valid.toNat_protocolLimits
  have hlen := length_key n
  have hne : key n ≠ [] := fun h => by rw [h] at hlen; simp at hlen
  have hkeys : (key n).length ≤ min config.frameLimits.maxKeyBytes.toNat (64 * 1024) := by
    rw [hkey]
    omega
  constructor
  · refine ⟨isValidOpcode_raw _, hkeys, ?_, fun _ => hne, ?_, fun h => absurd rfl h⟩
    · rw [hvalue]
      have hpayload : ((putSpec n).request 0).value.length = 256 := length_payload 0 n
      omega
    · rintro (h | h | h) <;> cases h
  · refine ⟨isValidOpcode_raw _, hkeys, Nat.zero_le _, fun _ => hne, ?_, fun _ => rfl⟩
    rintro (h | h | h) <;> cases h

theorem assumed_of_drives (valid : config.Valid) (key_le : 27 ≤ config.maxKeyBytes.toNat)
    (value_le : 256 ≤ config.maxValueBytes.toNat) (ok : Drives config z a) :
    Net.Assumed (engines config (configs o others)) z a := by
  cases a with
  | server | accept => trivial
  | peer k a =>
    cases a with
    | generate r now =>
      cases r with
      | none => trivial
      | some spec =>
        obtain _ | _ | k := k
        · obtain rfl := Option.some.inj ok
          exact (grammatical_spec valid key_le value_le _).1
        · obtain rfl := Option.some.inj ok
          exact (grammatical_spec valid key_le value_le _).2
        · exact (ok spec rfl).1
    | _ => trivial

theorem told_of_completed {e : Engine} {ec : EngineConfig} (h : e.Sound ec) {p : Nat × Completion}
    (hp : p ∈ e.trace.completed) :
    (p.1, p.2.response) ∈ e.told ∧
      (p.1, p.2.request.request p.2.response.requestId) ∈ e.asked ∧
      p.2.request ∈ e.trace.issued.map Ticket.spec ∧ p.2.response.requestId ≠ 0 := by
  have hissued := h.books.shared.issued_of_completed hp
  refine ⟨List.mem_map_of_mem (f := fun p : Nat × Completion => (p.1, p.2.response)) hp,
    List.mem_map_of_mem (f := fun t : Ticket => (t.connection, t.request)) hissued,
    List.mem_map_of_mem (f := Ticket.spec) hissued, ?_⟩
  have hid := List.mem_map_of_mem (f := Ticket.id) hissued
  have hlt := h.books.numbered.id_lt
  rw [h.books.numbered.ids] at hid
  obtain ⟨m, hm, heq⟩ := List.mem_map.mp hid
  rw [List.mem_range] at hm
  dsimp only at heq
  rw [← heq]
  intro hzero
  have := Word64.ofNat_inj_of_lt (k := m + 1) (m := 0) (by omega) (by decide) hzero
  omega

theorem mem_follows {gen : UInt64 → RequestSpec} {e : Engine} (h : e.Follows gen)
    {spec : RequestSpec} (hs : spec ∈ e.trace.issued.map Ticket.spec) :
    ∃ m < e.issued, spec = gen (.ofNat m) := by
  rw [h] at hs
  obtain ⟨m, hm, rfl⟩ := List.mem_map.mp hs
  exact ⟨m, List.mem_range.mp hm, rfl⟩

theorem counters_clean {put get : Engine}
    (puts : ∀ p ∈ put.trace.completed, p.2.response.requestId ≠ 0 ∧ p.2.response.value = [])
    (gets : ∀ p ∈ get.trace.completed, p.2.response.requestId ≠ 0 ∧
      (p.2.response.status = .kOk → p.2.response.value =
        payload 0 (strtoull (behindLast ':'.toUInt8 p.2.request.key)))) :
    (counters put get).protocolFailures = 0 ∧ (counters put get).corruptionFailures = 0 := by
  rw [counters]
  refine List.foldlRecOn _ _ (motive := fun c : Counters => c.protocolFailures = 0 ∧
    c.corruptionFailures = 0) ?_ ?_
  · refine List.foldlRecOn _ _ (motive := fun c : Counters => c.protocolFailures = 0 ∧
      c.corruptionFailures = 0) ⟨rfl, rfl⟩ ?_
    intro c hc x hx
    obtain ⟨p, hp, rfl⟩ := List.mem_map.mp hx
    obtain ⟨hid, hvalue⟩ := puts p hp
    simp only [onPut, if_neg hid, hvalue, ne_eq, not_true_eq_false, if_false]
    exact hc
  · intro c hc x hx
    obtain ⟨p, hp, rfl⟩ := List.mem_map.mp hx
    obtain ⟨hid, hvalue⟩ := gets p hp
    simp only [onGet, if_neg hid]
    split
    · exact hc
    · rename_i hok
      rw [if_neg (not_not.mpr (hvalue (not_not.mp hok)))]
      exact hc

theorem value_of_put {limits : CacheLimits} {l : List RecencyList.Entry} {q : Request}
    {r : Response} (h : LruServer.Allows limits l q r) (put : q.opcode = .kPut) :
    r.value = [] := by
  obtain ⟨-, hbusy | hallows⟩ := h
  · exact congrArg Prod.snd hbusy
  · simp only [Request.cacheOp, put, RecencyList.apply] at hallows
    have hvalue := congrArg Prod.snd hallows
    repeat' split at hvalue
    all_goals exact hvalue

theorem Scripted.clean (h : Scripted z)
    (hh : Net.Histories (engines config (configs o others)) z M) :
    (counters (z.peer 0) (z.peer 1)).protocolFailures = 0 ∧
      (counters (z.peer 0) (z.peer 1)).corruptionFailures = 0 := by
  have haccepted (k : Nat) : (z.peer k).Accepted config.frameLimits (configs o others k) :=
    hh.inv.peers k
  apply counters_clean
  · intro p hp
    obtain ⟨htold, hasked, hspec, hid⟩ := told_of_completed (haccepted 0).sound hp
    obtain ⟨m, -, hm⟩ := mem_follows h.puts hspec
    obtain ⟨l, hallows⟩ := hh.allowed (k := 0) htold hasked rfl
    exact ⟨hid, value_of_put hallows (by rw [hm]; rfl)⟩
  · intro p hp
    obtain ⟨htold, hasked, hspec, hid⟩ := told_of_completed (haccepted 1).sound hp
    obtain ⟨m, -, hm⟩ := mem_follows h.gets hspec
    refine ⟨hid, fun hok => ?_⟩
    obtain ⟨i, n, q, hq, hput, hkey, hvalue⟩ :=
      hh.put_of_get (k := 1) htold hasked rfl (by rw [hm]; rfl) hok
    obtain ⟨x, hx, hxq⟩ := List.mem_map.mp hq
    obtain ⟨-, rfl⟩ := Prod.mk.inj hxq
    have hxspec := List.mem_map_of_mem (f := Ticket.spec) hx
    have hsame : x.spec.key = p.2.request.key := hkey
    -- Who put the key?
    obtain _ | _ | i := i
    · obtain ⟨m', -, hm'⟩ := mem_follows h.puts hxspec
      rw [← hvalue, ← hsame, Ticket.request, hm']
      exact congrArg (payload 0) (strtoull_key _).symm
    · obtain ⟨m', -, hm'⟩ := mem_follows h.gets hxspec
      rw [Ticket.request, hm'] at hput
      cases hput
    · refine absurd ?_ (h.others _ (by omega) x hx hput)
      rw [hsame, hm]
      exact List.prefix_append _ _

theorem reach_scripted (h : Reach (Net.step fds (engines config (configs o others)))
    (Drives config) (Net.start config fds (engines config (configs o others))) z) : Scripted z :=
  h.invariant (scripted_start config fds o others)
    (fun _ _ _ hz ok hs => scripted_moves hz ok (Net.moves_of_step hs))

/-- Let the server admit the keys and the values of the stress test, and no sum of its cache
overflow. Whatever else uses the server, as long as it keeps to the server's limits and does not
write to the keys of the stress test, and however the engines, the event loop and the workers
interleave, the stress test finds no corrupted data and no protocol failure. -/
theorem no_corruption (config : ServerConfig) (fds : Descriptors) (o : Options)
    (others : Nat → EngineConfig) (valid : config.validate = none) (room : Server.Roomy config)
    (key_le : 27 ≤ config.maxKeyBytes.toNat) (value_le : 256 ≤ config.maxValueBytes.toNat)
    {z : Net Engine}
    (h : Reach (Net.step fds (engines config (configs o others))) (Drives config)
      (Net.start config fds (engines config (configs o others))) z) :
    (report (z.peer 0) (z.peer 1)).corruptionFailures = 0 ∧
      (report (z.peer 0) (z.peer 1)).protocolFailures = 0 := by
  have hvalid := ServerConfig.valid_of_validate valid
  obtain ⟨M, hM⟩ := (h.mono (fun _ _ ok =>
    assumed_of_drives hvalid key_le value_le ok)).exists_trace
      (Net.emits fds (engines config (configs o others)))
  have hh := Net.reach_histories hvalid room (numbered_engines config (configs o others)) hM
  have hclean := (reach_scripted h).clean hh
  refine ⟨hclean.2, ?_⟩
  have hfirst : (z.peer 0).stats.protocolFailures = 0 := (hh.inv.peers 0).no_failure
  have hsecond : (z.peer 1).stats.protocolFailures = 0 := (hh.inv.peers 1).no_failure
  simp only [report, hclean.1, hfirst, hsecond]

def oneByOne : Options := { socket := "s", connections := 1, pipeline := 1, requests := 1 }

def twoEngines : Nat → Peer Server.usualConfig.frameLimits Engine EngineAction :=
  engines Server.usualConfig (configs oneByOne fun _ => oneByOne.engineConfig)

def sendsOne (spec : RequestSpec) (n : Nat) : List EngineAction :=
  [.create true "", .connect (.opened 5) "", .internal, .run, .internal, .generate (some spec) 10,
    .internal, .internal, .send (.sent n), .internal, .control true, .internal, .internal]

def readsOne (r : Response) : List EngineAction :=
  readPair (serializeResponse r) 2 ++
    [.internal, .internal, .internal, .control true, .internal, .internal]

def onePair : List (NetAction EngineAction) :=
  (sendsOne (putSpec 0) 288).map (.peer 0) ++ Net.servesOne 7 0 ((putSpec 0).request 1) 24 ++
    (readsOne ⟨.kPut, .kOk, 1, []⟩).map (.peer 0) ++
    (sendsOne (getSpec 0) 32).map (.peer 1) ++ Net.servesOne 8 1 ((getSpec 0).request 1) 280 ++
    (readsOne ⟨.kGet, .kOk, 1, payload 0 0⟩).map (.peer 1)

theorem no_corruption_onePair :
    ∃ z : Net Engine, (z.peer 1).trace.completed.map (fun p => p.2.response.status) = [.kOk] ∧
      (report (z.peer 0) (z.peer 1)).corruptionFailures = 0 ∧
      (report (z.peer 0) (z.peer 1)).protocolFailures = 0 := by
  obtain ⟨z, hr, hcompleted⟩ := exists_reach
    (guarded (Net.step Server.usualFds twoEngines) (Drives Server.usualConfig))
    (Net.start Server.usualConfig Server.usualFds twoEngines) onePair
    (fun z => (z.peer 1).trace.completed.map (fun p => p.2.response.status) = [.kOk])
    (by decide +kernel)
  exact ⟨z, hcompleted, no_corruption Server.usualConfig Server.usualFds oneByOne
    (fun _ => oneByOne.engineConfig) (by decide +kernel) (by rw [Server.Roomy]; decide)
    (by decide) (by decide) hr.of_guarded⟩

end Stress

end LocalCache
