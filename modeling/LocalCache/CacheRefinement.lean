import LocalCache.CacheInvariant
import LocalCache.Library.Transition

namespace LocalCache.LruCache

open Protocol Library RecencyList

/-- The address space holds the accounted bytes and one incoming entry. -/
def Fits (c : LruCache) : CacheOp → Prop
  | .put k v => c.bytes + cost (k, v) < Word64.size
  | _ => True

instance (c : LruCache) : (op : CacheOp) → Decidable (c.Fits op)
  | .put _ _ => inferInstanceAs (Decidable (_ < _))
  | .get _ | .erase _ | .contains _ | .clear => isTrue trivial

/-- `c'` keeps the invariant and holds `l`, after `evicted` evictions from `c`. -/
structure Matches (c c' : LruCache) (l : List Entry) (evicted : Nat) : Prop where
  inv : c'.Inv
  limits_eq : c'.limits = c.limits
  contents_eq : c'.contents = l
  evictions_eq : c'.evictions = Word64.add c.evictions evicted

variable {c c' : LruCache} {n : Node} {k v : Bytes} {incoming : Nat}

theorem Inv.matches_self (h : c.Inv) : Matches c c c.contents 0 :=
  ⟨h, rfl, rfl, (Word64.add_zero h.evictions_lt).symm⟩

theorem Inv.length_lt (h : c.Inv) : c.entries.length + 1 < Word64.size := by
  have hb := h.bytes_payload
  have hlt := h.bytes_lt
  have hs := h.linked.size_eq
  have hsize : Word64.size = 18446744073709551616 := rfl
  omega

theorem Inv.reorder {entries : List Node} (h : c.Inv) (hp : entries.Perm c.entries) :
    ({ c with entries := entries } : LruCache).Inv := by
  apply Inv.of_linked
  · exact h.linked.reorder hp
  · exact h.bytes_eq.trans ((hp.map Node.entry).map cost).sum_eq.symm
  · exact h.payload_eq.trans ((hp.map Node.entry).map payload).sum_eq.symm
  · exact h.size_le
  · exact h.bytes_le
  · exact h.evictions_lt

theorem splice_matches (h : c.Inv) (hn : n ∈ c.entries) :
    Matches c (c.splice n) (n.entry :: others n.key c.contents) 0 where
  inv := by
    apply h.reorder
    rw [h.linked.without_id hn]
    exact (Keyed.perm_cons_without h.keys_nodup hn).symm
  limits_eq := rfl
  contents_eq := by
    rw [contents, splice, List.map_cons, h.linked.without_id hn]
    exact congrArg _ (contents_remove c n)
  evictions_eq := (Word64.add_zero h.evictions_lt).symm

theorem remove_matches (h : c.Inv) (hn : n ∈ c.entries) :
    Matches c (c.remove n) (others n.key c.contents) 0 :=
  ⟨h.remove hn, rfl, contents_remove c n, (Word64.add_zero h.evictions_lt).symm⟩

/-- Wherever the bytes decide whether the first entries of `l` and an incoming one fit, their
sum does not wrap. -/
def Exact (limits : CacheLimits) (incoming : Nat) (l : List Entry) : Prop :=
  ∀ kept, kept <+: l → limits.maxEntries.toNat < kept.length + 1 ∨
    (kept.map cost).sum + incoming < Word64.size

theorem exact_of_sum {limits : CacheLimits} {l : List Entry}
    (h : (l.map cost).sum + incoming < Word64.size) : Exact limits incoming l := by
  rintro kept ⟨rest, rfl⟩
  rw [List.map_append, List.sum_append] at h
  exact .inr (by omega)

theorem Exact.of_prefix {limits : CacheLimits} {l l' : List Entry} (h : Exact limits incoming l)
    (hl : l' <+: l) : Exact limits incoming l' :=
  fun kept hk => h kept (hk.trans hl)

theorem overfull_eq (h : c.Inv) (hcost : incoming ≤ c.limits.maxBytes.toNat)
    (hentries : c.limits.maxEntries ≠ 0) (hfit : Exact c.limits incoming c.contents) :
    c.overfull incoming = !fits c.limits incoming c.contents := by
  by_cases he : c.entries = []
  · have hc : c.contents = [] := by rw [contents, he, List.map_nil]
    rw [hc, fits_nil hcost hentries, overfull, he]
    rfl
  · have hl := h.length_lt
    rw [← h.linked.size_eq, size] at hl
    have hs : c.index.length = c.contents.length := h.linked.size_eq.trans c.length_contents.symm
    rw [overfull, Word64.add_of_lt hl, hs, fits, List.isEmpty_eq_false_iff.mpr he, Bool.not_false,
      Bool.true_and, Bool.not_and]
    obtain hmany | hsum := hfit c.contents (List.prefix_refl _)
    · rw [decide_eq_true hmany, decide_eq_false (Nat.not_le.mpr hmany)]
      rfl
    · rw [h.bytes_eq, Word64.add_of_lt hsum]
      simp only [← Nat.not_le, decide_not]

theorem evictLruLocked_matches {l : List Node} (h : c.Inv) (hl : c.entries = l ++ [n]) :
    ∃ c', c.evictLruLocked = some c' ∧ Matches c c' (l.map Node.entry) 1 ∧
      c'.entries = l ∧ c'.bytes ≤ c.bytes := by
  obtain ⟨hn, hlast, hfind⟩ := h.linked.tail_found hl
  have hrest : (c.remove n).entries = l := h.linked.without_tail hl
  have hr := h.remove hn
  have hlt : Word64.add c.evictions 1 < Word64.size :=
    Word64.add_lt h.evictions_lt (by decide)
  refine ⟨{ c.remove n with evictions := Word64.add c.evictions 1 }, ?_, ⟨?_, rfl, ?_, rfl⟩,
    hrest, Nat.sub_le _ _⟩
  · simp only [evictLruLocked, hlast, hfind, eraseLocked_eq h hn, Option.bind_eq_bind,
      Option.bind_some]
    rfl
  · exact { hr with evictions_lt := hlt }
  · rw [← hrest]
    rfl

theorem makeRoomFuel_matches (fuel : Nat) (h : c.Inv)
    (hcost : incoming ≤ c.limits.maxBytes.toNat) (hentries : c.limits.maxEntries ≠ 0)
    (hfit : Exact c.limits incoming c.contents) (hfuel : c.entries.length ≤ fuel) :
    ∃ c', makeRoomFuel incoming fuel c = some c' ∧
      Matches c c' (Recency.trim (fits c.limits incoming) c.contents)
        (c.contents.length - c'.contents.length) := by
  induction fuel generalizing c with
  | zero =>
    have hnil : c.entries = [] := List.eq_nil_of_length_eq_zero (Nat.le_zero.mp hfuel)
    have hc : c.contents = [] := by rw [contents, hnil, List.map_nil]
    have hover : c.overfull incoming = false := by rw [overfull, hnil]; rfl
    refine ⟨c, by rw [makeRoomFuel, hover]; rfl, ?_⟩
    rw [Nat.sub_self, hc, Recency.trim_nil, ← hc]
    exact h.matches_self
  | succ fuel ih =>
    have hover := overfull_eq h hcost hentries hfit
    cases hf : fits c.limits incoming c.contents with
    | true =>
      refine ⟨c, by rw [makeRoomFuel, hover, hf]; rfl, ?_⟩
      rw [Nat.sub_self, Recency.trim_of_fits hf]
      exact h.matches_self
    | false =>
      rw [hf, Bool.not_false] at hover
      obtain ⟨l, n, hl⟩ := concat_of_overfull hover
      obtain ⟨c₁, he, hm, hrest, hb⟩ := evictLruLocked_matches h hl
      have hc : c.contents = c₁.contents ++ [n.entry] := by
        rw [contents, hl, List.map_append, hm.contents_eq, List.map_singleton]
      have hlen : c₁.entries.length ≤ fuel := by
        rw [hl, List.length_append, List.length_singleton] at hfuel
        rw [hrest]
        omega
      have hfit₁ : Exact c₁.limits incoming c₁.contents := by
        rw [hm.limits_eq]
        exact hfit.of_prefix ⟨[n.entry], hc.symm⟩
      obtain ⟨c', hr, hm'⟩ := ih hm.inv (hm.limits_eq ▸ hcost) (hm.limits_eq ▸ hentries)
        hfit₁ hlen
      rw [hm.limits_eq] at hm'
      refine ⟨c', ?_, hm'.inv, hm'.limits_eq.trans hm.limits_eq, ?_, ?_⟩
      · rw [makeRoomFuel, hover]
        simp only [if_true, he, Option.bind_some, hr]
      · rw [hm'.contents_eq, hc, Recency.trim_concat (hc ▸ hf)]
      · have hle : c'.contents.length ≤ c₁.contents.length := by
          rw [hm'.contents_eq]
          exact (Recency.trim_sublist _ _).length_le
        have hlt := hm.inv.length_lt
        rw [← length_contents] at hlt
        rw [hm'.evictions_eq, hm.evictions_eq, Word64.add_add h.evictions_lt (by omega), hc,
          List.length_append, List.length_singleton]
        congr 1
        omega

theorem Inv.insertFront (h : c.Inv) (hk : k ∉ c.entries.map Node.key)
    (hfits : fits c.limits (cost (k, v)) c.contents = true)
    (hv : v.length ≤ c.limits.maxValueBytes.toNat) :
    Matches c (c.insertFront k v (cost (k, v))) ((k, v) :: c.contents) 0 := by
  obtain ⟨hsize, hbytes⟩ := fits_iff.mp hfits
  rw [← h.bytes_eq] at hbytes
  have hlt : c.bytes + cost (k, v) < Word64.size :=
    Nat.lt_of_le_of_lt hbytes c.limits.maxBytes.toNat_lt
  have hpay : c.payloadBytes ≤ c.bytes := h.bytes_payload ▸ Nat.le_add_right _ _
  have hcost : cost (k, v) = k.length + v.length + 128 := rfl
  have hadd : Word64.add k.length v.length = payload (k, v) := Word64.add_of_lt (by omega)
  have hplt : c.payloadBytes + payload (k, v) < Word64.size := by
    have hp : payload (k, v) = k.length + v.length := rfl
    omega
  have hcontents : (c.insertFront k v (cost (k, v))).contents = (k, v) :: c.contents := rfl
  refine ⟨Inv.of_linked (h.linked.insertFront hk hv (cost (k, v))) ?_ ?_ ?_ ?_ h.evictions_lt, rfl,
    hcontents, (Word64.add_zero h.evictions_lt).symm⟩
  · rw [hcontents, List.map_cons, List.sum_cons, ← h.bytes_eq]
    exact (Word64.add_of_lt hlt).trans (Nat.add_comm _ _)
  · rw [hcontents, List.map_cons, List.sum_cons, ← h.payload_eq, ← hadd]
    rw [← hadd] at hplt
    exact (Word64.add_of_lt hplt).trans (Nat.add_comm _ _)
  · rw [size, h.linked.index_insertFront hk, List.length_cons]
    rw [length_contents, ← h.linked.size_eq] at hsize
    exact hsize
  · exact (Word64.add_of_lt hlt).trans_le hbytes

theorem eraseIfPresent_matches (h : c.Inv) (k : Bytes) :
    ∃ c', c.eraseIfPresent k = some c' ∧ Matches c c' (others k c.contents) 0 ∧
      c'.bytes ≤ c.bytes := by
  obtain ⟨hi, hf⟩ | ⟨n, hn, rfl, hi, -⟩ := h.linked.find_contents k
  · refine ⟨c, by rw [eraseIfPresent, hi], ?_, Nat.le_refl _⟩
    rw [others, Keyed.without_of_notMem (Keyed.find_eq_none_iff.mp hf)]
    exact h.matches_self
  · refine ⟨c.remove n, ?_, remove_matches h hn, Nat.sub_le _ _⟩
    rw [eraseIfPresent, hi]
    exact eraseLocked_eq h hn

theorem put_matches (h : c.Inv)
    (hlt : c.limits.maxEntries = 0 ∨ cost (k, v) < Word64.size)
    (hfit : Exact c.limits (cost (k, v)) (others k c.contents)) :
    ∃ c' s, c.put k v = some (c', s) ∧
      (apply c.limits c.contents (.put k v)).result = .status s ∧
      Matches c c' (apply c.limits c.contents (.put k v)).contents
        (apply c.limits c.contents (.put k v)).evicted := by
  by_cases hv : c.limits.maxValueBytes.toNat < v.length
  · simp only [put, apply, if_pos hv]
    exact ⟨c, _, rfl, rfl, h.matches_self⟩
  by_cases hzero : c.limits.maxEntries = 0
  · simp only [put, apply, if_neg hv, hzero, or_true, if_true]
    exact ⟨c, _, rfl, rfl, h.matches_self⟩
  have hcost : entryCost k.length v.length = cost (k, v) :=
    entryCost_eq (hlt.resolve_left hzero)
  by_cases hroom : c.limits.maxBytes.toNat < cost (k, v) ∨ c.limits.maxEntries = 0
  · simp only [put, apply, if_neg hv, hcost, if_pos hroom]
    exact ⟨c, _, rfl, rfl, h.matches_self⟩
  simp only [put, apply, if_neg hv, hcost, if_neg hroom]
  obtain ⟨hb, hentries⟩ := not_or.mp hroom
  obtain ⟨c₁, he, hm₁, -⟩ := eraseIfPresent_matches h k
  have hfit₁ : Exact c₁.limits (cost (k, v)) c₁.contents := by
    rw [hm₁.limits_eq, hm₁.contents_eq]
    exact hfit
  obtain ⟨c₂, hr, hm₂⟩ := makeRoomFuel_matches c₁.entries.length hm₁.inv
    (hm₁.limits_eq ▸ Nat.not_lt.mp hb) (hm₁.limits_eq ▸ hentries) hfit₁ (Nat.le_refl _)
  have hlimits : c₂.limits = c.limits := hm₂.limits_eq.trans hm₁.limits_eq
  have hcontents := hm₂.contents_eq
  rw [hm₁.limits_eq, hm₁.contents_eq] at hcontents
  have hkey : k ∉ c₂.entries.map Node.key := by
    intro hmem
    have hk : k ∈ c₂.contents.map Prod.fst := by rwa [contents, List.map_map]
    rw [hcontents] at hk
    exact Keyed.notMem_without k c.contents
      (((Recency.trim_sublist _ _).map Prod.fst).subset hk)
  have hfits : fits c₂.limits (cost (k, v)) c₂.contents = true := by
    rw [hlimits, hcontents]
    exact fits_trim (Nat.not_lt.mp hb) hentries _
  have hm := hm₂.inv.insertFront hkey hfits (hlimits ▸ Nat.not_lt.mp hv)
  refine ⟨c₂.insertFront k v (cost (k, v)), .kStored, ?_, rfl, hm.inv,
    hm.limits_eq.trans hlimits, ?_, ?_⟩
  · simp only [he, makeRoomLocked, hr, Option.bind_eq_bind, Option.bind_some]
    rfl
  · rw [hm.contents_eq, hcontents]
  · rw [hm.evictions_eq, Word64.add_zero hm₂.inv.evictions_lt, hm₂.evictions_eq,
      hm₁.evictions_eq, Word64.add_zero h.evictions_lt, hm₁.contents_eq, hcontents]

/-- No sum that decides about the operation wraps. -/
def Admits (c : LruCache) : CacheOp → Prop
  | .put k v => (c.limits.maxEntries = 0 ∨ cost (k, v) < Word64.size) ∧
      Exact c.limits (cost (k, v)) (others k c.contents)
  | _ => True

theorem Fits.admits (h : c.Inv) {op : CacheOp} (hfit : c.Fits op) : c.Admits op := by
  cases op with
  | put k v =>
    obtain ⟨c₁, -, hm₁, hle⟩ := eraseIfPresent_matches h k
    rw [hm₁.inv.bytes_eq, hm₁.contents_eq] at hle
    have hsum : ((others k c.contents).map cost).sum + cost (k, v) < Word64.size :=
      Nat.lt_of_le_of_lt (Nat.add_le_add_right hle _) hfit
    exact ⟨.inr (Nat.lt_of_add_left_lt hsum), exact_of_sum hsum⟩
  | get k | erase k | contains k | clear => trivial

/-- Every operation returns, keeps the invariant and does what the recency list does. -/
theorem run_matches_of_admits (h : c.Inv) {op : CacheOp} (ha : c.Admits op) :
    ∃ c', c.run op = some (c', (apply c.limits c.contents op).result) ∧
      Matches c c' (apply c.limits c.contents op).contents
        (apply c.limits c.contents op).evicted := by
  cases op with
  | get k =>
    obtain ⟨hi, hf⟩ | ⟨n, hn, rfl, hi, hf⟩ := h.linked.find_contents k
    · refine ⟨c, ?_, ?_⟩
      · simp only [run, get, hi, apply, hf, Option.map_some]
      · simp only [apply, hf]
        exact h.matches_self
    · refine ⟨c.splice n, ?_, ?_⟩
      · simp only [run, get, hi, h.linked.node_eq hn, apply, hf, Option.bind_eq_bind,
          Option.bind_some]
        rfl
      · simp only [apply, hf]
        exact splice_matches h hn
  | put k v =>
    obtain ⟨c', s, hput, hres, hm⟩ := put_matches h ha.1 ha.2
    exact ⟨c', by rw [run, hput, hres]; rfl, hm⟩
  | erase k =>
    obtain ⟨hi, hf⟩ | ⟨n, hn, rfl, hi, hf⟩ := h.linked.find_contents k
    · refine ⟨c, ?_, ?_⟩
      · simp only [run, erase, hi, apply, hf, Option.map_some]
      · simp only [apply, hf]
        exact h.matches_self
    · refine ⟨c.remove n, ?_, ?_⟩
      · simp only [run, erase, hi, eraseLocked_eq h hn, apply, hf, Option.bind_eq_bind,
          Option.bind_some]
        rfl
      · simp only [apply, hf]
        exact remove_matches h hn
  | contains k =>
    refine ⟨c, ?_, h.matches_self⟩
    obtain ⟨hi, hf⟩ | ⟨n, -, -, hi, hf⟩ := h.linked.find_contents k
    · simp only [run, contains, hi, apply, hf]
      rfl
    · simp only [run, contains, hi, apply, hf]
      rfl
  | clear =>
    refine ⟨c.clear, rfl, ?_, rfl, rfl, (Word64.add_zero h.evictions_lt).symm⟩
    exact { inv_empty c.limits with
      ids_lt := by intro n hn; cases hn
      evictions_lt := h.evictions_lt }

theorem run_matches (h : c.Inv) {op : CacheOp} (hfit : c.Fits op) :
    ∃ c', c.run op = some (c', (apply c.limits c.contents op).result) ∧
      Matches c c' (apply c.limits c.contents op).contents
        (apply c.limits c.contents op).evicted :=
  run_matches_of_admits h (Fits.admits h hfit)

end LocalCache.LruCache
