import LocalCache.CacheRefinement

namespace LocalCache

open Protocol Library Transition RecencyList

/-- The cache with the operations run on it so far and their results, the newest first. -/
structure CacheRun where
  cache : LruCache
  log : List (CacheOp × CacheResult)

namespace CacheRun

def init (limits : CacheLimits) : CacheRun := ⟨.empty limits, []⟩

def step (s : CacheRun) (op : CacheOp) : Option CacheRun :=
  (s.cache.run op).map (fun p => ⟨p.1, (op, p.2) :: s.log⟩)

def Fits (s : CacheRun) (op : CacheOp) : Prop := s.cache.Fits op

instance (s : CacheRun) (op : CacheOp) : Decidable (s.Fits op) :=
  inferInstanceAs (Decidable (s.cache.Fits op))

/-- A stored put and a get that hit touch their key. -/
def touched : CacheOp × CacheResult → Option Bytes
  | (.get k, .value (some _)) => some k
  | (.put k _, .status .kStored) => some k
  | _ => none

def history (s : CacheRun) : List (Option Bytes) := s.log.map touched

/-- The shortest sufficient run at the old end makes room for the new entry. -/
def Stores (c c' : LruCache) (k v : Bytes) : Prop :=
  ∃ n, n ≤ (others k c.contents).length ∧
    c'.contents = (k, v) :: (others k c.contents).take ((others k c.contents).length - n) ∧
    fits c.limits (cost (k, v))
      ((others k c.contents).take ((others k c.contents).length - n)) = true ∧
    (∀ m < n, fits c.limits (cost (k, v))
      ((others k c.contents).take ((others k c.contents).length - m)) = false) ∧
    c'.evictions = Word64.add c.evictions n

def EvictsNothing (c c' : LruCache) (op : CacheOp) : Prop :=
  c'.evictions = c.evictions ∧
    ∀ e ∈ c.contents, e ∈ c'.contents ∨ op = .erase e.1 ∨ op = .clear

variable {limits : CacheLimits} {s s' : CacheRun} {op : CacheOp} {l : List Entry}

theorem find_key {k : Bytes} {e : Entry} (h : find k l = some e) : e ∈ l ∧ e.1 = k :=
  Keyed.mem_of_find h

theorem ordered_others {history : List (Option Bytes)}
    (h : Recency.Ordered history (l.map Prod.fst)) (k : Bytes) :
    Recency.Ordered history ((others k l).map Prod.fst) :=
  h.sublist ((Keyed.without_sublist k l).map Prod.fst)

theorem apply_ordered {history : List (Option Bytes)}
    (h : Recency.Ordered history (l.map Prod.fst)) (op : CacheOp) :
    Recency.Ordered (touched (op, (apply limits l op).result) :: history)
      ((apply limits l op).contents.map Prod.fst) := by
  cases op with
  | get k =>
    cases hf : find k l with
    | none =>
      simp only [apply, hf]
      exact h.idle
    | some e =>
      obtain ⟨-, rfl⟩ := find_key hf
      simp only [apply, hf]
      exact (ordered_others h e.1).touch (Keyed.notMem_without e.1 l)
  | put k v =>
    by_cases hv : limits.maxValueBytes.toNat < v.length
    · simp only [apply, if_pos hv]
      exact h.idle
    by_cases hroom : limits.maxBytes.toNat < cost (k, v) ∨ limits.maxEntries = 0
    · simp only [apply, if_neg hv, if_pos hroom]
      exact h.idle
    simp only [apply, if_neg hv, if_neg hroom]
    have hsub : ((Recency.trim (fits limits (cost (k, v))) (others k l)).map Prod.fst).Sublist
        ((others k l).map Prod.fst) := (Recency.trim_sublist _ _).map Prod.fst
    exact ((ordered_others h k).sublist hsub).touch
      (fun hmem => Keyed.notMem_without k l (hsub.subset hmem))
  | erase k =>
    cases hf : find k l with
    | none =>
      simp only [apply, hf]
      exact h.idle
    | some e =>
      simp only [apply, hf]
      exact (ordered_others h k).idle
  | contains k => exact h.idle
  | clear => exact Recency.ordered_nil _

structure Inv (limits : CacheLimits) (s : CacheRun) : Prop where
  cache_inv : s.cache.Inv
  limits_eq : s.cache.limits = limits
  ordered : Recency.Ordered s.history (s.cache.contents.map Prod.fst)

theorem Inv.step_eq (h : s.Inv limits) (hfit : s.Fits op) :
    ∃ c', s.step op = some ⟨c', (op, (apply limits s.cache.contents op).result) :: s.log⟩ ∧
      s.cache.Matches c' (apply limits s.cache.contents op).contents
        (apply limits s.cache.contents op).evicted := by
  obtain ⟨c', hrun, hm⟩ := LruCache.run_matches h.cache_inv hfit
  rw [h.limits_eq] at hrun hm
  exact ⟨c', by rw [step, hrun]; rfl, hm⟩

theorem step_inv (h : s.Inv limits) (hfit : s.Fits op) (hs : s.step op = some s') :
    s'.Inv limits := by
  obtain ⟨c', he, hm⟩ := h.step_eq hfit
  obtain rfl := Option.some.inj (he.symm.trans hs)
  refine ⟨hm.inv, hm.limits_eq.trans h.limits_eq, ?_⟩
  rw [hm.contents_eq]
  exact apply_ordered h.ordered op

theorem reach_inv (h : Reach step Fits (init limits) s) : s.Inv limits :=
  h.invariant ⟨LruCache.inv_empty limits, rfl, Recency.ordered_nil _⟩
    (fun _ _ _ hi hfit hs => step_inv hi hfit hs)

/-- The list, the index and the counters agree within the limits after every operation, and
every operation returns. -/
theorem cache_invariant (limits : CacheLimits) {s : CacheRun}
    (h : Reach step Fits (init limits) s) :
    s.cache.Inv ∧ s.cache.limits = limits ∧
      s.cache.bytes = s.cache.payloadBytes + 128 * s.cache.size ∧
      ∀ op, s.Fits op → ∃ s', s.step op = some s' := by
  have hi := reach_inv h
  refine ⟨hi.cache_inv, hi.limits_eq, hi.cache_inv.bytes_payload, ?_⟩
  intro op hfit
  obtain ⟨c', he, -⟩ := hi.step_eq hfit
  exact ⟨_, he⟩

def evictingRun : List CacheOp :=
  [.put [1] [10], .put [2] [20], .get [1], .put [3] [30, 31], .contains [2]]

def smallLimits : CacheLimits := ⟨2, 1000, 10⟩

theorem cache_invariant_evicting :
    ∃ s : CacheRun, Reach step Fits (init smallLimits) s ∧
      s.cache.keysMruToLru = [[3], [1]] ∧ s.cache.bytes = s.cache.payloadBytes + 128 * 2 := by
  obtain ⟨s, hr, hkeys, hsize⟩ := exists_reach (guarded step Fits) (init smallLimits) evictingRun
    (fun s => s.cache.keysMruToLru = [[3], [1]] ∧ s.cache.size = 2) (by decide +kernel)
  have hinv := cache_invariant smallLimits hr.of_guarded
  refine ⟨s, hr.of_guarded, hkeys, ?_⟩
  rw [hinv.2.2.1, hsize]

theorem stores_of_apply {c c' : LruCache} {k v : Bytes}
    (hres : (apply c.limits c.contents (.put k v)).result = .status .kStored)
    (hm : c.Matches c' (apply c.limits c.contents (.put k v)).contents
      (apply c.limits c.contents (.put k v)).evicted) : Stores c c' k v := by
  by_cases hv : c.limits.maxValueBytes.toNat < v.length
  · simp only [apply, if_pos hv] at hres
    cases hres
  by_cases hroom : c.limits.maxBytes.toNat < cost (k, v) ∨ c.limits.maxEntries = 0
  · simp only [apply, if_neg hv, if_pos hroom] at hres
    cases hres
  simp only [apply, if_neg hv, if_neg hroom] at hm
  obtain ⟨hb, hentries⟩ := not_or.mp hroom
  obtain ⟨n, hn, htrim, -, hmin⟩ :=
    Recency.trim_spec (fits c.limits (cost (k, v))) (others k c.contents)
  have hfits := fits_trim (Nat.not_lt.mp hb) hentries (others k c.contents)
  rw [htrim] at hm hfits
  refine ⟨n, hn, hm.contents_eq, hfits, hmin, ?_⟩
  rw [hm.evictions_eq, List.length_take_of_le (Nat.sub_le _ _), Nat.sub_sub_self hn]

theorem apply_keeps (hn : (l.map Prod.fst).Nodup)
    (hres : ∀ k v, op = .put k v → (apply limits l op).result ≠ .status .kStored) :
    (apply limits l op).evicted = 0 ∧
      ∀ e ∈ l, e ∈ (apply limits l op).contents ∨ op = .erase e.1 ∨ op = .clear := by
  cases op with
  | get k =>
    cases hf : find k l with
    | none =>
      simp only [apply, hf]
      exact ⟨trivial, fun e he => .inl he⟩
    | some e =>
      obtain ⟨hmem, rfl⟩ := find_key hf
      simp only [apply, hf]
      exact ⟨trivial, fun e' he' => .inl ((Keyed.perm_cons_without hn hmem).mem_iff.mp he')⟩
  | put k v =>
    have hr := hres k v rfl
    by_cases hv : limits.maxValueBytes.toNat < v.length
    · simp only [apply, if_pos hv]
      exact ⟨trivial, fun e he => .inl he⟩
    by_cases hroom : limits.maxBytes.toNat < cost (k, v) ∨ limits.maxEntries = 0
    · simp only [apply, if_neg hv, if_pos hroom]
      exact ⟨trivial, fun e he => .inl he⟩
    simp only [apply, if_neg hv, if_neg hroom, ne_eq, not_true] at hr
  | erase k =>
    cases hf : find k l with
    | none =>
      simp only [apply, hf]
      exact ⟨trivial, fun e he => .inl he⟩
    | some e =>
      simp only [apply, hf]
      refine ⟨trivial, fun e' he' => ?_⟩
      by_cases hk : e'.1 = k
      · exact .inr (.inl (by rw [hk]))
      · exact .inl (Keyed.mem_without.mpr ⟨he', hk⟩)
  | contains k => exact ⟨rfl, fun e he => .inl he⟩
  | clear => exact ⟨rfl, fun e he => .inr (.inr rfl)⟩

theorem evictsNothing_of_apply {c c' : LruCache} (h : c.Inv)
    (hres : ∀ k v, op = .put k v →
      (apply c.limits c.contents op).result ≠ .status .kStored)
    (hm : c.Matches c' (apply c.limits c.contents op).contents
      (apply c.limits c.contents op).evicted) : EvictsNothing c c' op := by
  obtain ⟨hzero, hkeep⟩ := apply_keeps h.linked.keys_contents hres
  refine ⟨?_, ?_⟩
  · rw [hm.evictions_eq, hzero, Word64.add_zero h.evictions_lt]
  · rw [hm.contents_eq]
    exact hkeep

theorem mem_keys_iff (h : s.cache.Inv) (k : Bytes) :
    k ∈ s.cache.keysMruToLru ↔ s.cache.contains k = true := by
  rw [LruCache.contains, h.linked.indexFind_eq, Option.isSome_map, Option.isSome_iff_ne_none, ne_eq,
    Keyed.find_eq_none_iff, not_not]
  rfl

/-- The keys are listed by their last touch, a stored put evicts exactly the oldest entries
that must go, and no other operation evicts. -/
theorem exact_lru (limits : CacheLimits) {s : CacheRun}
    (h : Reach step Fits (init limits) s) :
    (∀ k, k ∈ s.cache.keysMruToLru ↔ s.cache.contains k = true) ∧
      s.cache.keysMruToLru.Pairwise
        (fun a b => Recency.lastTouch s.history b < Recency.lastTouch s.history a) ∧
      ∀ op, s.Fits op → ∃ c' r, s.step op = some ⟨c', (op, r) :: s.log⟩ ∧
        (∀ k v, op = .put k v → r = .status .kStored → Stores s.cache c' k v) ∧
        ((∀ k v, op = .put k v → r ≠ .status .kStored) → EvictsNothing s.cache c' op) := by
  have hi := reach_inv h
  refine ⟨mem_keys_iff hi.cache_inv, ?_, ?_⟩
  · have hd := hi.ordered.decreasing
    rwa [LruCache.contents, List.map_map] at hd
  · intro op hfit
    obtain ⟨c', he, hm⟩ := hi.step_eq hfit
    rw [← hi.limits_eq] at he hm
    refine ⟨c', _, he, ?_, fun hres => evictsNothing_of_apply hi.cache_inv hres hm⟩
    intro k v hop hres
    subst hop
    exact stores_of_apply hres hm

theorem exact_lru_evicting :
    ∃ s : CacheRun, Reach step Fits (init smallLimits) s ∧
      s.cache.keysMruToLru = [[3], [1]] ∧
      Recency.lastTouch s.history [1] < Recency.lastTouch s.history [3] := by
  obtain ⟨s, hr, hkeys⟩ := exists_reach (guarded step Fits) (init smallLimits) evictingRun
    (fun s => s.cache.keysMruToLru = [[3], [1]]) (by decide +kernel)
  have hd := (exact_lru smallLimits hr.of_guarded).2.1
  rw [hkeys, List.pairwise_pair] at hd
  exact ⟨s, hr.of_guarded, hkeys, hd⟩

end CacheRun

end LocalCache
