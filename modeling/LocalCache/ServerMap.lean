import LocalCache.CacheClient
import LocalCache.CacheRefinement
import LocalCache.WorkerThread
import LocalCache.Library.Sessions

namespace LocalCache

open Protocol Serializer Library RecencyList

/-- What a map without limits answers. STATS reads counters that no map has. -/
def Operation.answer (m : Bytes → Option Bytes) : Operation → Status × Bytes
  | .get key => ((m key).elim .kNotFound (fun _ => .kOk), (m key).getD [])
  | .erase key => ((m key).elim .kNotFound (fun _ => .kOk), [])
  | .put _ _ | .ping | .clear | .stats => (.kOk, [])

def Operation.effect (m : Bytes → Option Bytes) : Operation → Bytes → Option Bytes
  | .put key value => Function.update m key (some value)
  | .erase key => Function.update m key none
  | .clear => fun _ => none
  | .get _ | .ping | .stats => m

def unboundedMap : Sessions.Service (Bytes → Option Bytes) Operation (Status × Bytes) where
  answer := Operation.answer
  effect := Operation.effect

def lookup (live : List Entry) (key : Bytes) : Option Bytes := (find key live).map Prod.snd

/-- The live entries after a request, if none is ever evicted or refused. -/
def settle (live : List Entry) (request : Request) : List Entry :=
  match request.opcode with
  | .kPut => (request.key, request.value) :: others request.key live
  | .kDelete => others request.key live
  | .kClear => []
  | .kGet | .kPing | .kStats => live

def Room (limits : CacheLimits) (live : List Entry) : Prop :=
  live.length ≤ limits.maxEntries.toNat ∧ (live.map cost).sum ≤ limits.maxBytes.toNat

instance (limits : CacheLimits) (live : List Entry) : Decidable (Room limits live) :=
  inferInstanceAs (Decidable (_ ≤ _ ∧ _ ≤ _))

/-- The operations of clients that keep to their own keys and to the configured sizes. -/
def Permitted (config : ServerConfig) (mine : Bytes → Prop) : Operation → Prop
  | .get key | .erase key => mine key ∧ key ≠ [] ∧ key.length ≤ config.maxKeyBytes.toNat
  | .put key value => mine key ∧ key ≠ [] ∧ key.length ≤ config.maxKeyBytes.toNat ∧
      value.length ≤ config.maxValueBytes.toNat
  | .ping => True
  | .clear | .stats => False

instance (config : ServerConfig) (mine : Bytes → Prop) [DecidablePred mine] :
    DecidablePred (Permitted config mine)
  | .get key | .erase key => inferInstanceAs (Decidable (mine key ∧ _ ≠ _ ∧ _ ≤ _))
  | .put key _ => inferInstanceAs (Decidable (mine key ∧ _ ≠ _ ∧ _ ≤ _ ∧ _ ≤ _))
  | .ping => isTrue trivial
  | .clear | .stats => isFalse id

theorem lookup_others (key k : Bytes) (live : List Entry) :
    lookup (others key live) k = if k = key then none else lookup live k := by
  rw [lookup, find, others, Keyed.find_without]
  split <;> rfl

theorem lookup_cons (key value k : Bytes) (live : List Entry) :
    lookup ((key, value) :: live) k = if k = key then some value else lookup live k := by
  rw [lookup, find, Keyed.find_cons]
  by_cases hk : k = key
  · rw [if_pos hk, if_pos hk.symm]
    rfl
  · rw [if_neg hk, if_neg (Ne.symm hk)]
    rfl

theorem separated_unboundedMap (config : ServerConfig) {keys : Nat → Bytes → Prop}
    (disjoint : ∀ i j k, keys i k → keys j k → i = j) :
    Sessions.Separated unboundedMap (fun i m m' => ∀ k, keys i k → m k = m' k)
      (fun i => Permitted config (keys i)) where
  equiv := fun i => ⟨fun _ _ _ => rfl, fun h k hk => (h k hk).symm,
    fun h h' k hk => (h k hk).trans (h' k hk)⟩
  own := by
    intro i op m m' hop hm
    have update : ∀ key v, ∀ k, keys i k →
        Function.update m key v k = Function.update m' key v k := by
      intro key v k hk
      rw [Function.update_apply, Function.update_apply, hm k hk]
    cases op with
    | get key => exact ⟨by simp only [unboundedMap, Operation.answer, hm key hop.1], hm⟩
    | put key value => exact ⟨rfl, update key _⟩
    | erase key =>
      exact ⟨by simp only [unboundedMap, Operation.answer, hm key hop.1], update key _⟩
    | ping => exact ⟨rfl, hm⟩
    | clear => cases hop
    | stats => cases hop
  other := by
    intro i j op m hop hne k hk
    have update : ∀ key v, keys j key → m k = Function.update m key v k := by
      intro key v hkey
      rw [Function.update_of_ne]
      rintro rfl
      exact hne (disjoint i j k hk hkey)
    cases op with
    | get key => rfl
    | put key value => exact update key _ hop.1
    | erase key => exact update key _ hop.1
    | ping => rfl
    | clear => cases hop
    | stats => cases hop

structure LruCache.Holds (c : LruCache) (live : List Entry) : Prop where
  inv : c.Inv
  perm : c.contents.Perm live

namespace LruCache.Holds

variable {c : LruCache} {live : List Entry}

theorem find_eq (h : c.Holds live) (k : Bytes) : find k c.contents = find k live :=
  Keyed.find_perm h.inv.linked.keys_contents h.perm k

theorem get (h : c.Holds live) (k : Bytes) :
    ∃ c', c.get k = some (c', lookup live k) ∧ c'.Holds live := by
  have hfit : c.Fits (.get k) := trivial
  obtain ⟨c', hrun, hm⟩ := run_matches h.inv hfit
  rw [run, Option.map_eq_some_iff] at hrun
  obtain ⟨⟨c₁, v⟩, hget, heq⟩ := hrun
  obtain ⟨rfl, hv⟩ := Prod.mk.inj heq
  refine ⟨c₁, ?_, hm.inv, ?_⟩
  · rw [hget, lookup, ← h.find_eq]
    cases hf : find k c.contents <;> simp_all [apply]
  · rw [hm.contents_eq, apply]
    cases hf : find k c.contents with
    | none => exact h.perm
    | some e =>
      obtain ⟨he, rfl⟩ := Keyed.mem_of_find hf
      exact (Keyed.perm_cons_without h.inv.linked.keys_contents he).symm.trans h.perm

theorem put {k v : Bytes} (h : c.Holds live) (hv : v.length ≤ c.limits.maxValueBytes.toNat)
    (room : Room c.limits ((k, v) :: others k live)) :
    ∃ c', c.put k v = some (c', .kStored) ∧ c'.Holds ((k, v) :: others k live) := by
  have hperm : (others k c.contents).Perm (others k live) := h.perm.filter _
  obtain ⟨hlength, hsum⟩ := room
  rw [List.length_cons, ← hperm.length_eq] at hlength
  rw [List.map_cons, List.sum_cons, ← (hperm.map cost).sum_eq] at hsum
  have hfits : fits c.limits (cost (k, v)) (others k c.contents) = true :=
    fits_iff.mpr ⟨hlength, by omega⟩
  have hentries : c.limits.maxEntries ≠ 0 := by
    intro h0
    rw [h0] at hlength
    cases hlength
  have hlt : ((others k c.contents).map cost).sum + cost (k, v) < Word64.size :=
    Nat.lt_of_le_of_lt (by omega) c.limits.maxBytes.toNat_lt
  obtain ⟨c', status, hput, hres, hm⟩ := put_matches h.inv
    (.inr (Nat.lt_of_add_left_lt hlt)) (exact_of_sum hlt)
  have happly : apply c.limits c.contents (.put k v) =
      ⟨(k, v) :: others k c.contents, .status .kStored, 0⟩ := by
    rw [apply, if_neg (by omega), if_neg (by simp only [not_or]; exact ⟨by omega, hentries⟩)]
    simp only [Recency.trim_of_fits hfits, Nat.sub_self]
  rw [happly] at hres hm
  cases hres
  refine ⟨c', hput, hm.inv, ?_⟩
  rw [hm.contents_eq]
  exact hperm.cons _

theorem erase (h : c.Holds live) (k : Bytes) :
    ∃ c', c.erase k = some (c', (lookup live k).isSome) ∧ c'.Holds (others k live) := by
  have hfit : c.Fits (.erase k) := trivial
  obtain ⟨c', hrun, hm⟩ := run_matches h.inv hfit
  rw [run, Option.map_eq_some_iff] at hrun
  obtain ⟨⟨c₁, v⟩, herase, heq⟩ := hrun
  obtain ⟨rfl, hv⟩ := Prod.mk.inj heq
  have hperm : (others k c.contents).Perm (others k live) := h.perm.filter _
  refine ⟨c₁, ?_, hm.inv, ?_⟩
  · rw [herase, lookup, ← h.find_eq]
    cases hf : find k c.contents <;> simp_all [apply]
  · rw [hm.contents_eq, apply]
    cases hf : find k c.contents with
    | none =>
      rw [find, Keyed.find_eq_none_iff] at hf
      exact (List.Perm.of_eq (Keyed.without_of_notMem hf).symm).trans hperm
    | some e => exact hperm

end LruCache.Holds

/-- While there is room, the cache answers an operation as the map of the live entries does. -/
theorem Server.execute_map {s : Server} {config : ServerConfig} {live : List Entry}
    {mine : Bytes → Prop} {op : Operation} {id uptimeMs : UInt64} {cache : LruCache}
    {response : Response} {tally : Option Tally} (h : s.cache.Holds live)
    (limits : s.cache.limits = config.cacheLimits) (hop : Permitted config mine op)
    (room : Room config.cacheLimits (settle live (op.request id)))
    (he : s.execute (op.request id) uptimeMs = some (cache, response, tally)) :
    cache.Holds (settle live (op.request id)) ∧
      (response.status, response.value) = op.answer (lookup live) ∧
      lookup (settle live (op.request id)) = op.effect (lookup live) := by
  cases op with
  | get key =>
    obtain ⟨c', hget, hc'⟩ := h.get key
    simp only [execute, Operation.request, Operation.opcode, Operation.key, hget] at he
    cases hv : lookup live key <;> rw [hv] at he <;> cases he <;>
      exact ⟨hc', by simp [Operation.answer, hv], rfl⟩
  | put key value =>
    have hv : value.length ≤ s.cache.limits.maxValueBytes.toNat := by
      rw [limits]
      exact hop.2.2.2
    obtain ⟨c', hput, hc'⟩ := h.put (k := key) (v := value) hv (limits ▸ room)
    simp only [execute, Operation.request, Operation.opcode, Operation.key, Operation.value,
      hput] at he
    cases he
    refine ⟨hc', rfl, ?_⟩
    funext k
    have hk : lookup ((key, value) :: others key live) k =
        if k = key then some value else lookup live k := by
      rw [lookup_cons, lookup_others]
      split <;> rfl
    rw [Operation.effect, Function.update_apply]
    exact hk
  | erase key =>
    obtain ⟨c', herase, hc'⟩ := h.erase key
    simp only [execute, Operation.request, Operation.opcode, Operation.key, herase] at he
    have heffect : lookup (settle live (Operation.request (.erase key) id)) =
        Operation.effect (lookup live) (.erase key) := by
      funext k
      rw [Operation.effect, Function.update_apply]
      exact lookup_others key k live
    cases hv : lookup live key <;> rw [hv] at he <;> cases he <;>
      exact ⟨hc', by simp [Operation.answer, hv], heffect⟩
  | ping =>
    cases he
    exact ⟨h, rfl, rfl⟩
  | clear => cases hop
  | stats => cases hop

end LocalCache
