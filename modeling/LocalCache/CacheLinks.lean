import LocalCache.CacheInvariant

namespace LocalCache.LruCache

open Protocol Library RecencyList

variable {c : LruCache} {n : Node} {k v : Bytes}

/-- A cache that came from another one: it is linked, has the same limits and these nodes. -/
structure Leads (c c' : LruCache) (entries : List Node) : Prop where
  linked : c'.Linked
  limits_eq : c'.limits = c.limits
  entries_eq : c'.entries = entries

theorem linked_empty (limits : CacheLimits) : (empty limits).Linked := (inv_empty limits).linked

theorem Linked.leads_self (h : c.Linked) : Leads c c c.entries := ⟨h, rfl, rfl⟩

theorem splice_leads (h : c.Linked) (hn : n ∈ c.entries) :
    Leads c (c.splice n) (n :: Keyed.without Node.key n.key c.entries) := by
  have hp : (n :: Keyed.without Node.id n.id c.entries).Perm c.entries := by
    rw [h.without_id hn]
    exact (Keyed.perm_cons_without h.keys_nodup hn).symm
  exact ⟨h.reorder hp, rfl, congrArg _ (h.without_id hn)⟩

/-- Taking a node out needs no counter to be right. -/
theorem eraseLocked_leads (h : c.Linked) (hn : n ∈ c.entries) :
    ∃ c', c.eraseLocked (n.key, n.id) = some c' ∧
      Leads c c' (Keyed.without Node.key n.key c.entries) ∧ c'.evictions = c.evictions := by
  simp only [eraseLocked, h.node_eq hn, h.without_id hn, Option.bind_eq_bind, Option.bind_some]
  exact ⟨_, rfl, ⟨h.without n.key _ _, rfl, rfl⟩, rfl⟩

theorem evictLruLocked_leads {l : List Node} (h : c.Linked) (hl : c.entries = l ++ [n]) :
    ∃ c', c.evictLruLocked = some c' ∧ Leads c c' l ∧
      UInt64.ofNat c'.evictions = UInt64.ofNat c.evictions + 1 := by
  obtain ⟨hn, hlast, hfind⟩ := h.tail_found hl
  obtain ⟨c', he, hc', hev⟩ := eraseLocked_leads h hn
  rw [h.without_tail hl] at hc'
  refine ⟨{ c' with evictions := Word64.add c'.evictions 1 }, ?_, ⟨?_, hc'.limits_eq,
    hc'.entries_eq⟩, ?_⟩
  · simp only [evictLruLocked, hlast, hfind, he, Option.bind_eq_bind, Option.bind_some]
    rfl
  · obtain ⟨hkeys, hids, hlt, hperm, hvalues⟩ := hc'.linked
    exact ⟨hkeys, hids, hlt, hperm, hvalues⟩
  · rw [← hev]
    exact Word64.ofNat_add _ _

def victims (incoming : Nat) : Nat → LruCache → List Bytes
  | 0, _ => []
  | fuel + 1, c =>
    if c.overfull incoming then
      match c.entries.getLast?, c.evictLruLocked with
      | some lru, some c' => lru.key :: victims incoming fuel c'
      | _, _ => []
    else []

def evictedBy (c : LruCache) : CacheOp → List Bytes
  | .put k v =>
    let cost := entryCost k.length v.length
    if c.limits.maxValueBytes.toNat < v.length ∨ c.limits.maxBytes.toNat < cost ∨
        c.limits.maxEntries = 0 then []
    else
      match c.eraseIfPresent k with
      | none => []
      | some c => victims cost c.entries.length c
  | _ => []

/-- `c'` is `c` without the last nodes, which were evicted one by one. -/
structure Evicts (c c' : LruCache) (dropped : List Node) : Prop where
  split : c.entries = c'.entries ++ dropped
  counted : UInt64.ofNat c'.evictions = UInt64.ofNat c.evictions + UInt64.ofNat dropped.length

theorem evicts_nothing (c : LruCache) : Evicts c c [] :=
  ⟨(List.append_nil _).symm, (UInt64.add_zero _).symm⟩

theorem makeRoomFuel_leads (incoming fuel : Nat) (h : c.Linked) (hfuel : c.entries.length ≤ fuel) :
    ∃ c' dropped, makeRoomFuel incoming fuel c = some c' ∧ Leads c c' c'.entries ∧
      Evicts c c' dropped ∧ victims incoming fuel c = (dropped.map Node.key).reverse := by
  induction fuel generalizing c with
  | zero =>
    have hnil : c.entries = [] := List.eq_nil_of_length_eq_zero (Nat.le_zero.mp hfuel)
    have hover : c.overfull incoming = false := by rw [overfull, hnil]; rfl
    exact ⟨c, [], by rw [makeRoomFuel, hover]; rfl, h.leads_self, evicts_nothing c, rfl⟩
  | succ fuel ih =>
    cases hover : c.overfull incoming with
    | false =>
      exact ⟨c, [], by rw [makeRoomFuel, hover]; rfl, h.leads_self, evicts_nothing c,
        by rw [victims, hover]; rfl⟩
    | true =>
      obtain ⟨l, n, hl⟩ := concat_of_overfull hover
      obtain ⟨c₁, he, hc₁, hev⟩ := evictLruLocked_leads h hl
      have hlen : c₁.entries.length ≤ fuel := by
        rw [hl, List.length_append, List.length_singleton] at hfuel
        rw [hc₁.entries_eq]
        omega
      obtain ⟨c', dropped, hr, hc', hd, hvictims⟩ := ih hc₁.linked hlen
      refine ⟨c', dropped ++ [n], ?_, ⟨hc'.linked, hc'.limits_eq.trans hc₁.limits_eq, rfl⟩,
        ⟨?_, ?_⟩, ?_⟩
      · rw [makeRoomFuel, hover]
        simp only [if_true, he, Option.bind_some, hr]
      · rw [hl, ← hc₁.entries_eq, hd.split, List.append_assoc]
      · rw [hd.counted, hev, List.length_append, List.length_singleton, UInt64.ofNat_add,
          UInt64.add_assoc, UInt64.add_comm 1]
        rfl
      · rw [victims, hover, hl, List.getLast?_concat, he]
        simp only [if_true, hvictims, List.map_append, List.reverse_append]
        rfl

theorem eraseIfPresent_leads (h : c.Linked) (k : Bytes) :
    ∃ c', c.eraseIfPresent k = some c' ∧ Leads c c' (Keyed.without Node.key k c.entries) ∧
      c'.evictions = c.evictions := by
  obtain ⟨hi, -⟩ | ⟨n, hn, rfl, hi, -⟩ := h.find_contents k
  · rw [h.indexFind_eq, Option.map_eq_none_iff, Keyed.find_eq_none_iff] at hi
    refine ⟨c, ?_, ?_, rfl⟩
    · rw [eraseIfPresent, h.indexFind_eq, Keyed.find_eq_none_iff.mpr hi]
      rfl
    · rw [Keyed.without_of_notMem hi]
      exact h.leads_self
  · obtain ⟨c', he, hc'⟩ := eraseLocked_leads h hn
    exact ⟨c', (by rw [eraseIfPresent, hi]; exact he), hc'⟩

theorem insertFront_leads (h : c.Linked) (hk : k ∉ c.entries.map Node.key)
    (hv : v.length ≤ c.limits.maxValueBytes.toNat) (cost : Nat) :
    Leads c (c.insertFront k v cost) (⟨c.nextNode, k, v⟩ :: c.entries) :=
  ⟨h.insertFront hk hv cost, rfl, rfl⟩

theorem put_stored (h : c.Linked) (hv : v.length ≤ c.limits.maxValueBytes.toNat)
    (hcost : entryCost k.length v.length ≤ c.limits.maxBytes.toNat)
    (hentries : c.limits.maxEntries ≠ 0) :
    ∃ c' id kept dropped, c.put k v = some (c', .kStored) ∧
      Keyed.without Node.key k c.entries = kept ++ dropped ∧
      c.evictedBy (.put k v) = (dropped.map Node.key).reverse ∧
      UInt64.ofNat c'.evictions = UInt64.ofNat c.evictions + UInt64.ofNat dropped.length ∧
      Leads c c' (⟨id, k, v⟩ :: kept) := by
  obtain ⟨c₁, he, hc₁, hev⟩ := eraseIfPresent_leads h k
  obtain ⟨c₂, dropped, hr, hc₂, hd, hvictims⟩ := makeRoomFuel_leads
    (entryCost k.length v.length) c₁.entries.length hc₁.linked (Nat.le_refl _)
  have hsplit : Keyed.without Node.key k c.entries = c₂.entries ++ dropped :=
    hc₁.entries_eq.symm.trans hd.split
  have hlimits : c₂.limits = c.limits := hc₂.limits_eq.trans hc₁.limits_eq
  have hkey : k ∉ c₂.entries.map Node.key := by
    intro hmem
    apply Keyed.notMem_without k c.entries
    rw [hsplit, List.map_append]
    exact List.mem_append_left _ hmem
  have hc := insertFront_leads hc₂.linked hkey (hlimits.symm ▸ hv) (entryCost k.length v.length)
  have hroom : ¬(c.limits.maxBytes.toNat < entryCost k.length v.length ∨
      c.limits.maxEntries = 0) := not_or.mpr ⟨Nat.not_lt.mpr hcost, hentries⟩
  refine ⟨_, c₂.nextNode, c₂.entries, dropped, ?_, hsplit, ?_, ?_, hc.linked,
    hc.limits_eq.trans hlimits, hc.entries_eq⟩
  · simp only [put, if_neg (Nat.not_lt.mpr hv), if_neg hroom, he, makeRoomLocked, hr,
      Option.bind_eq_bind, Option.bind_some]
    rfl
  · simp only [evictedBy, Nat.not_lt.mpr hv, false_or, if_neg hroom, he, hvictims]
  · rw [← hev]
    exact hd.counted

theorem clear_leads (c : LruCache) : Leads c c.clear [] :=
  ⟨⟨List.nodup_nil, List.nodup_nil, (fun _ hn => by cases hn), List.Perm.nil,
    (fun _ hn => by cases hn)⟩, rfl, rfl⟩

theorem Linked.value_le (h : c.Linked) {e : Entry} (hf : find k c.contents = some e) :
    e.2.length ≤ c.limits.maxValueBytes.toNat := by
  obtain ⟨hmem, -⟩ := Keyed.mem_of_find hf
  obtain ⟨n, hn, rfl⟩ := List.mem_map.mp hmem
  exact h.values_le n hn

end LocalCache.LruCache
