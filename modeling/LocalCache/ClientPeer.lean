import LocalCache.ClientExchange
import LocalCache.Peer

namespace LocalCache

open Protocol Serializer RequestCodec

def Returned.exchange (r : Returned) : Option (Issue × Reply) :=
  r.issue.bind fun i => r.reply.map fun p => (i, p)

theorem Operation.grammatical_request {op : Operation} {limits : Limits}
    (h : Grammatical (op.request 0) limits) (id : UInt64) : Grammatical (op.request id) limits :=
  ⟨h.opcode, h.key_le, h.value_le, h.key_present, h.key_absent, h.value_absent⟩

namespace CacheClient

variable {limits : Limits} {c c' : CacheClient} {a : ClientAction} {i : Issue} {n : Nat}
  {rs : List Response}

def asked (c : CacheClient) : List (Nat × Request) :=
  c.trace.issued.map fun i => (i.connection, i.request)

def told (c : CacheClient) : List (Nat × Response) :=
  c.trace.returned.filterMap fun r => r.exchange.map fun x => (x.1.connection, x.2.response)

theorem listedOn_asked (c : CacheClient) (n : Nat) :
    listedOn n c.asked = (c.issuedOn n).map Issue.request := by
  rw [listedOn, asked, List.filter_map, List.map_map, issuedOn]
  rfl

theorem listedOn_told (c : CacheClient) (n : Nat) :
    listedOn n c.told = (c.trace.used n).map Reply.response := by
  rw [told, ClientTrace.used]
  induction c.trace.returned with
  | nil => rfl
  | cons r l ih =>
    obtain ⟨op, issue, handed, reply, result⟩ := r
    cases issue with
    | none => exact ih
    | some i =>
      cases reply with
      | none =>
        by_cases hn : i.connection = n <;>
          simpa [Returned.usedOn, Returned.exchange, hn] using ih
      | some p =>
        by_cases hn : i.connection = n <;>
          simpa [Returned.usedOn, Returned.exchange, listedOn, hn] using ih

theorem flatMap_used (c : CacheClient) (n : Nat) : (c.trace.used n).flatMap Reply.frame =
    ((c.trace.used n).map Reply.response).flatMap serializeResponse := by
  rw [List.flatMap_map]
  rfl

theorem Inv.sizedOn (h : c.Inv) (n : Nat) :
    ∀ r ∈ (c.trace.used n).map Reply.response, r.value.length ≤ kMaxValueBytes.toNat := by
  intro r hr
  obtain ⟨p, hp, rfl⟩ := List.mem_map.mp hr
  exact (h.stand n p hp).value_le

theorem Drawn.split (h : c.Drawn) (hi : c.Inv) (held : c.fd = some n)
    (served : Served (listedOn n c.asked) (c.trace.received n) rs) :
    ∃ more, rs = (c.trace.used n).map Reply.response ++ more ∧
      c.inBuf <+: more.flatMap serializeResponse := by
  have hstream := served.stream
  rw [← h.buffered n held, flatMap_used] at hstream
  obtain ⟨more, rfl⟩ := responses_prefix (hi.sizedOn n) served.sized
    ((List.prefix_append _ _).trans hstream)
  rw [List.flatMap_append, List.prefix_append_right_inj] at hstream
  exact ⟨more, rfl, hstream⟩

theorem Drawn.readable (h : c.Drawn) (hi : c.Inv) (held : c.fd = some n)
    (served : Served (listedOn n c.asked) (c.trace.received n) rs) :
    (deserializeResponse c.inBuf kClientLimits {}).1.status ≠ .kMalformed := by
  obtain ⟨more, rfl, hinput⟩ := h.split hi held served
  refine ResponseCodec.deserializeResponse_prefix ?_ hinput
  intro r hr
  have hle := served.sized r (List.mem_append_right _ hr)
  exact Nat.le_min.mpr ⟨hle, hle⟩

def brings (c : CacheClient) (a : ClientAction) : Option (Nat × Bytes) :=
  match c.phase, a with
  | .receiving i, .recv (.data bytes) _ => some (i.connection, bytes)
  | _, _ => none

theorem received_moves (hm : Moves c a c') (n : Nat) : c'.trace.received n = c.trace.received n ∨
    ∃ bytes, c.brings a = some (n, bytes) ∧
      c'.trace.received n = c.trace.received n ++ bytes := by
  cases hm with
  | received issue bytes errno pc pos =>
    dsimp only
    rw [Function.update_apply]
    split
    · rename_i hn
      subst hn
      exact .inr ⟨bytes, by simp only [brings, pc], rfl⟩
    · exact .inl rfl
  | _ => exact .inl rfl

theorem turn_of_ends (h : Ends c a c') :
    (c'.asked = c.asked ∧ c'.told = c.told) ∨
      (∃ p, c'.asked = c.asked ++ [p] ∧ c'.told = c.told) ∨
      ∃ p, c'.told = c.told ++ [p] ∧ c'.asked = c.asked := by
  cases h with
  | kept issue issued returned =>
    exact .inl ⟨by rw [asked, issued, asked], by rw [told, returned, told]⟩
  | begun op n act idle held issue issued returned =>
    refine .inr (.inl ⟨(n, op.request c.nextRequestId), ?_, by rw [told, returned, told]⟩)
    rw [asked, issued, List.map_append, asked]
    rfl
  | failed op handed error unsteady issue issued returned =>
    refine .inl ⟨by rw [asked, issued, asked], ?_⟩
    rw [told, returned, List.filterMap_append, told]
    cases c.phase.issue <;> simp [Returned.exchange]
  | answered i out rest offset pc frame value_le issue issued returned =>
    refine .inr (.inr ⟨(i.connection, out), ?_, by rw [asked, issued, asked]⟩)
    rw [told, returned, List.filterMap_append, told]
    rfl

/-- A way to use the client: what its caller keeps to, and what then holds of the client as long as
it is served well. -/
structure Usage (limits : Limits) (path : String) where
  ok : CacheClient → ClientAction → Prop
  Inv : CacheClient → Prop
  inv : ∀ {c}, Inv c → c.Inv
  wire : ∀ {c}, Inv c → c.Wire
  drawn : ∀ {c}, Inv c → c.Drawn
  framed : ∀ {c}, Inv c → ∀ n, c.trace.sent n <+: (c.issuedOn n).flatMap Issue.frame
  grammatical : ∀ {c}, Inv c → ∀ i ∈ c.trace.issued, Grammatical i.request limits
  inv_start : Inv { socketPath := path }
  inv_moves : ∀ {c c' a}, Inv c →
    (∀ n, ∃ rs, Served (listedOn n c.asked) (c.trace.received n) rs) → ok c a →
    Moves c a c' → Inv c'

def Usage.peer {path : String} (u : Usage limits path) : Peer limits CacheClient ClientAction where
  start := { socketPath := path }
  step := step
  ok := u.ok
  Inv := u.Inv
  connections := fun c => c.trace.connections
  sent := fun c => c.trace.sent
  read := fun c => c.trace.received
  brings := brings
  asked := asked
  told := told
  inv_start := u.inv_start
  silent_start := ⟨fun _ => rfl, rfl, rfl⟩
  inv_step := fun h served ok hs => u.inv_moves h served ok (moves_of_step hs)
  sent_step := fun h hs => sent_moves (u.wire h) (moves_of_step hs)
  read_step := fun _ hs => received_moves (moves_of_step hs)
  turn := fun _ hs => turn_of_ends (ends_of_moves (moves_of_step hs))
  framed := by
    intro c h n
    rw [listedOn_asked, List.flatMap_map]
    exact u.framed h n
  grammatical := by
    intro c h p hp
    obtain ⟨i, hi, rfl⟩ := List.mem_map.mp hp
    exact u.grammatical h i hi
  used := by
    intro c h n
    rw [listedOn_told, ← flatMap_used]
    exact (u.drawn h).consumed n
  sized := by
    intro c h p hp
    have hmem : p.2 ∈ listedOn p.1 c.told := mem_listedOn.mpr hp
    rw [listedOn_told] at hmem
    exact (u.inv h).sizedOn p.1 p.2 hmem

end CacheClient

end LocalCache
