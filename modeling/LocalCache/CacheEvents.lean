import LocalCache.CacheLinks

namespace LocalCache.LruCache

open Protocol Library RecencyList

/-- What an operation does to the entries of a linked cache, with its result and the keys it
evicts. Nothing is said about the byte counters, so the cases also stand where these wrap. -/
inductive Does (c c' : LruCache) : CacheOp → CacheResult → List Bytes → Prop
  | miss {k : Bytes} (hf : find k c.contents = none) (hc : c' = c) :
      Does c c' (.get k) (.value none) []
  | hit {k : Bytes} {e : Entry} (hf : find k c.contents = some e)
      (hc : c'.contents = e :: others k c.contents) (hev : c'.evictions = c.evictions) :
      Does c c' (.get k) (.value (some e.2)) []
  | refused {k v : Bytes} {status : PutStatus} (hs : status ≠ .kStored) (hc : c' = c) :
      Does c c' (.put k v) (.status status) []
  | stored {k v : Bytes} {kept dropped : List Entry}
      (hsplit : others k c.contents = kept ++ dropped) (hc : c'.contents = (k, v) :: kept)
      (hev : UInt64.ofNat c'.evictions =
        UInt64.ofNat c.evictions + UInt64.ofNat dropped.length) :
      Does c c' (.put k v) (.status .kStored) (dropped.map Prod.fst).reverse
  | absent {k : Bytes} (hf : find k c.contents = none) (hc : c' = c) :
      Does c c' (.erase k) (.found false) []
  | erased {k : Bytes} {e : Entry} (hf : find k c.contents = some e)
      (hc : c'.contents = others k c.contents) (hev : c'.evictions = c.evictions) :
      Does c c' (.erase k) (.found true) []
  | looked {k : Bytes} (hc : c' = c) : Does c c' (.contains k) (.found (c.contains k)) []
  | cleared (hc : c'.contents = []) (hev : c'.evictions = c.evictions) :
      Does c c' .clear .done []

variable {c c' : LruCache} {k v : Bytes}

theorem others_contents (c : LruCache) (k : Bytes) :
    others k c.contents = (Keyed.without Node.key k c.entries).map Node.entry :=
  Keyed.without_map Node.entry Prod.fst k c.entries

theorem Leads.contents_eq {entries : List Node} (h : Leads c c' entries) :
    c'.contents = entries.map Node.entry := by
  rw [contents, h.entries_eq]

theorem get_does (h : c.Linked) (k : Bytes) :
    ∃ c' value, c.get k = some (c', value) ∧ c'.Linked ∧ c'.limits = c.limits ∧
      Does c c' (.get k) (.value value) [] := by
  obtain ⟨hi, hf⟩ | ⟨n, hn, rfl, hi, hf⟩ := h.find_contents k
  · exact ⟨c, none, by rw [get, hi], h, rfl, .miss hf rfl⟩
  · have hc := splice_leads h hn
    refine ⟨c.splice n, some n.value, ?_, hc.linked, hc.limits_eq, .hit hf ?_ rfl⟩
    · rw [get, hi]
      simp only [h.node_eq hn, Option.bind_eq_bind, Option.bind_some]
      rfl
    · rw [hc.contents_eq, List.map_cons, others_contents]

theorem get_value (h : c.Linked) (k : Bytes) :
    ∃ c', c.get k = some (c', (find k c.contents).map Prod.snd) := by
  obtain ⟨c', value, hget, -, -, hd⟩ := get_does h k
  refine ⟨c', ?_⟩
  cases hd with
  | miss hf | hit hf => rw [hget, hf]; rfl

theorem put_does (h : c.Linked) (k v : Bytes) :
    ∃ c' status, c.put k v = some (c', status) ∧ c'.Linked ∧ c'.limits = c.limits ∧
      Does c c' (.put k v) (.status status) (c.evictedBy (.put k v)) := by
  by_cases hv : c.limits.maxValueBytes.toNat < v.length
  · have hnone : c.evictedBy (.put k v) = [] := if_pos (.inl hv)
    rw [hnone]
    exact ⟨c, _, by rw [put, if_pos hv], h, rfl, .refused (by decide) rfl⟩
  by_cases hroom : c.limits.maxBytes.toNat < entryCost k.length v.length ∨
      c.limits.maxEntries = 0
  · have hnone : c.evictedBy (.put k v) = [] := if_pos (.inr hroom)
    rw [hnone]
    refine ⟨c, .kEntryTooLarge, ?_, h, rfl, .refused (by decide) rfl⟩
    rw [put, if_neg hv]
    exact if_pos hroom
  obtain ⟨hb, hentries⟩ := not_or.mp hroom
  obtain ⟨c', id, kept, dropped, hput, hsplit, hevicted, hev, hc'⟩ :=
    put_stored h (Nat.le_of_not_lt hv) (Nat.le_of_not_lt hb) hentries
  refine ⟨c', .kStored, hput, hc'.linked, hc'.limits_eq, ?_⟩
  have hkeys : dropped.map Node.key = (dropped.map Node.entry).map Prod.fst := by
    rw [List.map_map]
    rfl
  rw [hevicted, hkeys]
  apply Does.stored
  · rw [others_contents, hsplit, List.map_append]
  · rw [hc'.contents_eq, List.map_cons]
    rfl
  · rw [List.length_map]
    exact hev

theorem erase_does (h : c.Linked) (k : Bytes) :
    ∃ c' found, c.erase k = some (c', found) ∧ c'.Linked ∧ c'.limits = c.limits ∧
      Does c c' (.erase k) (.found found) [] := by
  obtain ⟨hi, hf⟩ | ⟨n, hn, rfl, hi, hf⟩ := h.find_contents k
  · exact ⟨c, false, by rw [erase, hi], h, rfl, .absent hf rfl⟩
  · obtain ⟨c', he, hc', hev⟩ := eraseLocked_leads h hn
    refine ⟨c', true, ?_, hc'.linked, hc'.limits_eq, .erased hf ?_ hev⟩
    · rw [erase, hi]
      simp only [he, Option.bind_eq_bind, Option.bind_some]
      rfl
    · rw [hc'.contents_eq, others_contents]

theorem run_does (h : c.Linked) (op : CacheOp) :
    ∃ c' result, c.run op = some (c', result) ∧ c'.Linked ∧ c'.limits = c.limits ∧
      Does c c' op result (c.evictedBy op) := by
  cases op with
  | get k =>
    obtain ⟨c', value, hget, hl, hlimits, hd⟩ := get_does h k
    exact ⟨c', .value value, by rw [run, hget]; rfl, hl, hlimits, hd⟩
  | put k v =>
    obtain ⟨c', status, hput, hl, hlimits, hd⟩ := put_does h k v
    exact ⟨c', .status status, by rw [run, hput]; rfl, hl, hlimits, hd⟩
  | erase k =>
    obtain ⟨c', found, he, hl, hlimits, hd⟩ := erase_does h k
    exact ⟨c', .found found, by rw [run, he]; rfl, hl, hlimits, hd⟩
  | contains k => exact ⟨c, _, rfl, h, rfl, .looked rfl⟩
  | clear =>
    have hc := clear_leads c
    exact ⟨c.clear, .done, rfl, hc.linked, rfl, .cleared rfl rfl⟩

def gains : CacheOp → CacheResult → Nat
  | .put _ _, .status .kStored => 1
  | _, _ => 0

def losses (c : LruCache) : CacheOp → CacheResult → Nat
  | .put k _, .status .kStored => if c.contains k then 1 else 0
  | .erase _, .found true => 1
  | .clear, _ => c.size
  | _, _ => 0

theorem Linked.size_contents (h : c.Linked) : c.size = c.contents.length :=
  h.size_eq.trans c.length_contents.symm

theorem Linked.length_others (h : c.Linked) (k : Bytes) :
    (others k c.contents).length + (if c.contains k then 1 else 0) = c.size := by
  rw [h.size_contents]
  obtain ⟨hi, hf⟩ | ⟨n, hn, rfl, hi, hf⟩ := h.find_contents k
  · rw [contains, hi, others, Keyed.without_of_notMem (Keyed.find_eq_none_iff.mp hf)]
    rfl
  · rw [contains, hi]
    exact Keyed.length_without h.keys_contents (Keyed.mem_of_find hf).1

theorem Linked.contains_of_find (h : c.Linked) {e : Entry} (hf : find k c.contents = some e) :
    c.contains k = true := by
  obtain ⟨-, hnone⟩ | ⟨n, -, -, hi, -⟩ := h.find_contents k
  · rw [hnone] at hf
    cases hf
  · rw [contains, hi]
    rfl

theorem Does.balance {op : CacheOp} {result : CacheResult} {evicted : List Bytes}
    (h : c.Linked) (h' : c'.Linked) (hd : Does c c' op result evicted) :
    UInt64.ofNat c'.size + UInt64.ofNat c'.evictions + UInt64.ofNat (c.losses op result) =
      UInt64.ofNat c.size + UInt64.ofNat c.evictions + UInt64.ofNat (gains op result) := by
  have hsize := h'.size_contents
  cases hd with
  | miss hf hc | absent hf hc | looked hc =>
    rw [hc]
    rfl
  | @refused k v status hs hc =>
    rw [hc]
    cases status with
    | kStored => exact absurd rfl hs
    | kValueTooLarge | kEntryTooLarge => rfl
  | @hit k e hf hc hev =>
    have hlen := h.length_others k
    rw [h.contains_of_find hf, if_pos rfl] at hlen
    rw [hc, List.length_cons, hlen] at hsize
    rw [hsize, hev]
    rfl
  | @stored k v kept dropped hsplit hc hev =>
    have hlen := h.length_others k
    rw [hsplit, List.length_append] at hlen
    rw [hc, List.length_cons] at hsize
    have hcount : c'.size + dropped.length + (if c.contains k then 1 else 0) = c.size + 1 := by
      omega
    have hword := congrArg UInt64.ofNat hcount
    rw [UInt64.ofNat_add, UInt64.ofNat_add, UInt64.ofNat_add] at hword
    rw [hev, losses, gains]
    grind
  | @erased k e hf hc hev =>
    have hlen := h.length_others k
    rw [h.contains_of_find hf, if_pos rfl] at hlen
    rw [hc] at hsize
    have hword := congrArg UInt64.ofNat hlen
    rw [UInt64.ofNat_add] at hword
    rw [hsize, hev]
    simp only [losses, gains]
    grind
  | cleared hc hev =>
    rw [hc, List.length_nil] at hsize
    rw [hsize, hev]
    simp only [losses, gains]
    grind

end LocalCache.LruCache
