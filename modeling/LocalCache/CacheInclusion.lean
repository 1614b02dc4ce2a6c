import LocalCache.CacheEvents
import LocalCache.CacheHistory
import Mathlib.Algebra.Order.BigOperators.Group.List
import Mathlib.Algebra.Order.Ring.Nat
import Mathlib.Algebra.Group.Action.Defs

namespace LocalCache.CacheRun

open Protocol Library Transition RecencyList

def opCost : CacheOp → Nat
  | .put k v => cost (k, v)
  | _ => 0

def largestCost (ops : List CacheOp) : Nat := ops.foldr (fun op most => max (opCost op) most) 0

theorem opCost_le {ops : List CacheOp} {op : CacheOp} (h : op ∈ ops) :
    opCost op ≤ largestCost ops := by
  induction ops with
  | nil => cases h
  | cons a ops ih =>
    rw [largestCost, List.foldr_cons]
    obtain rfl | h := List.mem_cons.mp h
    · exact Nat.le_max_left _ _
    · exact (ih h).trans (Nat.le_max_right _ _)

section Roomy

variable {limits : CacheLimits} {most incoming : Nat} {l : List Entry} {op : CacheOp}

theorem sum_cost_le (h : ∀ e ∈ l, cost e ≤ most) : (l.map cost).sum ≤ l.length * most := by
  have hsum := List.sum_le_card_nsmul (l.map cost) most (by
    intro c hc
    obtain ⟨e, he, rfl⟩ := List.mem_map.mp hc
    exact h e he)
  rwa [List.length_map, smul_eq_mul] at hsum

theorem sum_incoming_le (hroom : limits.maxEntries.toNat * most ≤ limits.maxBytes.toNat)
    (hl : ∀ e ∈ l, cost e ≤ most) (hin : incoming ≤ most)
    (hlen : l.length + 1 ≤ limits.maxEntries.toNat) :
    (l.map cost).sum + incoming ≤ limits.maxBytes.toNat := by
  calc (l.map cost).sum + incoming ≤ l.length * most + most :=
        Nat.add_le_add (sum_cost_le hl) hin
    _ = (l.length + 1) * most := (Nat.succ_mul _ _).symm
    _ ≤ limits.maxEntries.toNat * most := Nat.mul_le_mul_right _ hlen
    _ ≤ limits.maxBytes.toNat := hroom

theorem fits_take (hroom : limits.maxEntries.toNat * most ≤ limits.maxBytes.toNat)
    (hl : ∀ e ∈ l, cost e ≤ most) (hin : incoming ≤ most) {j : Nat} (hj : j ≤ l.length) :
    fits limits incoming (l.take j) = decide (j < limits.maxEntries.toNat) := by
  rw [fits, List.length_take_of_le hj]
  by_cases hlt : j + 1 ≤ limits.maxEntries.toNat
  · have hsum := sum_incoming_le hroom (fun e he => hl e (List.mem_of_mem_take he)) hin
      ((List.length_take_of_le hj).symm ▸ hlt)
    rw [decide_eq_true hlt, decide_eq_true hsum, decide_eq_true (Nat.lt_of_succ_le hlt)]
    rfl
  · rw [decide_eq_false hlt, decide_eq_false (fun h => hlt (Nat.succ_le_of_lt h))]
    rfl

theorem trim_eq_take (hroom : limits.maxEntries.toNat * most ≤ limits.maxBytes.toNat)
    (hl : ∀ e ∈ l, cost e ≤ most) (hin : incoming ≤ most) (hpos : 0 < limits.maxEntries.toNat) :
    Recency.trim (fits limits incoming) l = l.take (limits.maxEntries.toNat - 1) :=
  Recency.trim_of_bound hpos (fun _ hj => fits_take hroom hl hin hj)

theorem admits_of_room {c : LruCache}
    (hroom : c.limits.maxEntries.toNat * most ≤ c.limits.maxBytes.toNat)
    (hl : ∀ e ∈ c.contents, cost e ≤ most) (hop : opCost op ≤ most) : c.Admits op := by
  cases op with
  | put k v =>
    have hlt := c.limits.maxBytes.toNat_lt
    refine ⟨?_, ?_⟩
    · by_cases hzero : c.limits.maxEntries = 0
      · exact .inl hzero
      · have hpos : 0 < c.limits.maxEntries.toNat :=
          Nat.pos_of_ne_zero (fun h => hzero (UInt64.toNat_inj.mp h))
        exact .inr ((hop.trans (Nat.le_mul_of_pos_left most hpos)).trans hroom |>.trans_lt hlt)
    · intro kept hkept
      by_cases hmany : c.limits.maxEntries.toNat < kept.length + 1
      · exact .inl hmany
      · have hcosts : ∀ e ∈ kept, cost e ≤ most := fun e he =>
          hl e ((Keyed.without_sublist k c.contents).subset (hkept.subset he))
        exact .inr ((sum_incoming_le hroom hcosts hop (Nat.not_lt.mp hmany)).trans_lt hlt)
  | get k | erase k | contains k | clear => trivial

theorem mem_apply {e : Entry} (he : e ∈ (apply limits l op).contents) :
    e ∈ l ∨ op = .put e.1 e.2 := by
  cases op with
  | get k =>
    cases hf : find k l with
    | none =>
      simp only [apply, hf] at he
      exact .inl he
    | some e' =>
      simp only [apply, hf] at he
      obtain rfl | he := List.mem_cons.mp he
      · exact .inl (find_key hf).1
      · exact .inl (Keyed.mem_without.mp he).1
  | put k v =>
    by_cases hv : limits.maxValueBytes.toNat < v.length
    · simp only [apply, if_pos hv] at he
      exact .inl he
    by_cases hroom : limits.maxBytes.toNat < cost (k, v) ∨ limits.maxEntries = 0
    · simp only [apply, if_neg hv, if_pos hroom] at he
      exact .inl he
    simp only [apply, if_neg hv, if_neg hroom] at he
    obtain rfl | he := List.mem_cons.mp he
    · exact .inr rfl
    · exact .inl (Keyed.mem_without.mp ((Recency.trim_sublist _ _).subset he)).1
  | erase k =>
    cases hf : find k l with
    | none =>
      simp only [apply, hf] at he
      exact .inl he
    | some e' =>
      simp only [apply, hf] at he
      exact .inl (Keyed.mem_without.mp he).1
  | contains k => exact .inl he
  | clear => cases he

theorem cost_apply (hl : ∀ e ∈ l, cost e ≤ most) (hop : opCost op ≤ most) :
    ∀ e ∈ (apply limits l op).contents, cost e ≤ most := by
  intro e he
  obtain he | rfl := mem_apply he
  · exact hl e he
  · exact hop

theorem apply_erase (k : Bytes) : (apply limits l (.erase k)).contents = others k l := by
  cases hf : find k l with
  | none =>
    simp only [apply, hf]
    exact (Keyed.without_of_notMem (Keyed.find_eq_none_iff.mp hf)).symm
  | some e => simp only [apply, hf]

theorem apply_put (hroom : limits.maxEntries.toNat * most ≤ limits.maxBytes.toNat)
    (hl : ∀ e ∈ l, cost e ≤ most) {k v : Bytes} (hin : cost (k, v) ≤ most)
    (hv : ¬limits.maxValueBytes.toNat < v.length) (hpos : 0 < limits.maxEntries.toNat) :
    (apply limits l (.put k v)).contents =
      (k, v) :: (others k l).take (limits.maxEntries.toNat - 1) := by
  have hfit : cost (k, v) ≤ limits.maxBytes.toNat :=
    (hin.trans (Nat.le_mul_of_pos_left most hpos)).trans hroom
  have hroom' : ¬(limits.maxBytes.toNat < cost (k, v) ∨ limits.maxEntries = 0) := by
    rintro (h | h)
    · omega
    · rw [h] at hpos
      exact absurd hpos (Nat.lt_irrefl 0)
  have hothers : ∀ e ∈ others k l, cost e ≤ most := fun e he => hl e (Keyed.mem_without.mp he).1
  simp only [apply, if_neg hv, if_neg hroom', trim_eq_take hroom hothers hin hpos]

end Roomy

section Inclusion

variable {m n maxBytes maxValueBytes : UInt64} {most : Nat} {s l : List Entry} {op : CacheOp}

/-- The smaller list stays within the larger one, and never lacks more than the limits
differ by. -/
theorem apply_within (hmn : m ≤ n) (hroom : n.toNat * most ≤ maxBytes.toNat)
    (hn : (l.map Prod.fst).Nodup) (hs : s.length ≤ m.toNat) (hl : ∀ e ∈ l, cost e ≤ most)
    (h : Recency.Within (n.toNat - m.toNat) s l) (hop : opCost op ≤ most) :
    Recency.Within (n.toNat - m.toNat)
      (apply ⟨m, maxBytes, maxValueBytes⟩ s op).contents
      (apply ⟨n, maxBytes, maxValueBytes⟩ l op).contents := by
  have hmn' : m.toNat ≤ n.toNat := UInt64.le_iff_toNat_le.mp hmn
  cases op with
  | get k =>
    cases hf : find k s with
    | some e =>
      have hf' : find k l = some e := Keyed.find_sublist hn h.sublist hf
      simp only [apply, hf, hf']
      exact (h.without hn k).cons e
    | none =>
      cases hf' : find k l with
      | none =>
        simp only [apply, hf, hf']
        exact h
      | some e =>
        obtain ⟨he, rfl⟩ := find_key hf'
        simp only [apply, hf, hf']
        exact h.touch hn he (Keyed.find_eq_none_iff.mp hf)
  | put k v =>
    by_cases hv : maxValueBytes.toNat < v.length
    · simp only [apply, if_pos hv]
      exact h
    have hsmall : ∀ e ∈ s, cost e ≤ most := fun e he => hl e (h.sublist.subset he)
    have hroom' : m.toNat * most ≤ maxBytes.toNat := (Nat.mul_le_mul_right _ hmn').trans hroom
    by_cases hm : m = 0
    · -- the smaller cache refuses every entry, so all the larger one may hold is lacking
      subst hm
      have hnil : s = [] := List.eq_nil_of_length_eq_zero (Nat.le_zero.mp hs)
      by_cases hzero : n = 0
      · subst hzero
        simp only [apply, if_neg hv, or_true, if_true]
        exact h
      · have hpos : 0 < n.toNat := Nat.pos_of_ne_zero (fun he => hzero (UInt64.toNat_inj.mp he))
        rw [apply_put hroom hl hop hv hpos]
        simp only [apply, if_neg hv, or_true, if_true, hnil]
        refine ⟨List.nil_sublist _, ?_⟩
        rw [List.length_cons, List.length_take, List.length_nil, UInt64.toNat_zero]
        omega
    · have hpos : 0 < m.toNat := Nat.pos_of_ne_zero (fun he => hm (UInt64.toNat_inj.mp he))
      rw [apply_put hroom' hsmall hop hv hpos, apply_put hroom hl hop hv (hpos.trans_le hmn')]
      have htake := ((h.without hn k).take (m.toNat - 1)).cons (k, v)
      rwa [show m.toNat - 1 + (n.toNat - m.toNat) = n.toNat - 1 by omega] at htake
  | erase k =>
    rw [apply_erase, apply_erase]
    exact h.without hn k
  | contains k => exact h
  | clear => exact ⟨List.Sublist.refl _, Nat.zero_le _⟩

/-- Two runs of the same operations on caches that differ in `max_entries`. -/
structure Paired (m n maxBytes maxValueBytes : UInt64) (most : Nat) (s t : CacheRun) : Prop where
  small_inv : s.cache.Inv
  small_limits : s.cache.limits = ⟨m, maxBytes, maxValueBytes⟩
  large_inv : t.cache.Inv
  large_limits : t.cache.limits = ⟨n, maxBytes, maxValueBytes⟩
  within : Recency.Within (n.toNat - m.toNat) s.cache.contents t.cache.contents
  costs : ∀ e ∈ t.cache.contents, cost e ≤ most

variable {r t : CacheRun}

theorem paired_init : Paired m n maxBytes maxValueBytes most
    (init ⟨m, maxBytes, maxValueBytes⟩) (init ⟨n, maxBytes, maxValueBytes⟩) where
  small_inv := LruCache.inv_empty _
  small_limits := rfl
  large_inv := LruCache.inv_empty _
  large_limits := rfl
  within := ⟨List.Sublist.refl _, Nat.zero_le _⟩
  costs := by intro e he; cases he

theorem Paired.step (hmn : m ≤ n) (hroom : n.toNat * most ≤ maxBytes.toNat)
    (h : Paired m n maxBytes maxValueBytes most r t) (hop : opCost op ≤ most) :
    ∃ r' t', r.step op = some r' ∧ t.step op = some t' ∧
      Paired m n maxBytes maxValueBytes most r' t' := by
  have hmn' : m.toNat ≤ n.toNat := UInt64.le_iff_toNat_le.mp hmn
  have hsmall : ∀ e ∈ r.cache.contents, cost e ≤ most :=
    fun e he => h.costs e (h.within.sublist.subset he)
  have hsize : r.cache.contents.length ≤ m.toNat := by
    have hle := h.small_inv.size_le
    rwa [h.small_inv.linked.size_eq, ← LruCache.length_contents, h.small_limits] at hle
  have hr : r.cache.Admits op := by
    apply admits_of_room _ hsmall hop
    rw [h.small_limits]
    exact (Nat.mul_le_mul_right _ hmn').trans hroom
  have ht : t.cache.Admits op := by
    apply admits_of_room _ h.costs hop
    rw [h.large_limits]
    exact hroom
  obtain ⟨c, hrun, hm⟩ := LruCache.run_matches_of_admits h.small_inv hr
  obtain ⟨c', hrun', hm'⟩ := LruCache.run_matches_of_admits h.large_inv ht
  refine ⟨_, _, by rw [CacheRun.step, hrun]; rfl, by rw [CacheRun.step, hrun']; rfl, hm.inv,
    hm.limits_eq.trans h.small_limits, hm'.inv, hm'.limits_eq.trans h.large_limits, ?_, ?_⟩
  · dsimp only
    rw [hm.contents_eq, hm'.contents_eq, h.small_limits, h.large_limits]
    exact apply_within hmn hroom h.large_inv.linked.keys_contents hsize h.costs h.within hop
  · dsimp only
    rw [hm'.contents_eq]
    exact cost_apply h.costs hop

theorem Paired.exec (hmn : m ≤ n) (hroom : n.toNat * most ≤ maxBytes.toNat) (ops : List CacheOp)
    (hops : ∀ op ∈ ops, opCost op ≤ most) (h : Paired m n maxBytes maxValueBytes most r t) :
    ∃ r' t', Transition.exec CacheRun.step r ops = some r' ∧
      Transition.exec CacheRun.step t ops = some t' ∧
      Paired m n maxBytes maxValueBytes most r' t' := by
  induction ops generalizing r t with
  | nil => exact ⟨r, t, rfl, rfl, h⟩
  | cons op ops ih =>
    obtain ⟨r₁, t₁, hr, ht, h₁⟩ := h.step hmn hroom (hops op List.mem_cons_self)
    obtain ⟨r', t', hr', ht', h'⟩ := ih (fun a ha => hops a (List.mem_cons_of_mem op ha)) h₁
    refine ⟨r', t', ?_, ?_, h'⟩
    · rw [Transition.exec, hr]
      exact hr'
    · rw [Transition.exec, ht]
      exact ht'

theorem Paired.get (h : Paired m n maxBytes maxValueBytes most r t) {k v : Bytes} {c : LruCache}
    (hget : r.cache.get k = some (c, some v)) : ∃ c', t.cache.get k = some (c', some v) := by
  obtain ⟨c₁, hr⟩ := LruCache.get_value h.small_inv.linked k
  obtain ⟨c₂, ht⟩ := LruCache.get_value h.large_inv.linked k
  have hval := (Prod.mk.inj (Option.some.inj (hr.symm.trans hget))).2
  obtain ⟨e, hf, rfl⟩ := Option.map_eq_some_iff.mp hval
  have hf' : find k t.cache.contents = some e :=
    Keyed.find_sublist h.large_inv.linked.keys_contents h.within.sublist hf
  exact ⟨c₂, by rw [ht, hf']; rfl⟩

end Inclusion

/-- More room for entries never loses a hit: after every operation the smaller cache holds a
sublist of what the larger one holds. -/
theorem larger_keeps_hits {m n maxBytes maxValueBytes : UInt64} (hmn : m ≤ n)
    {ops : List CacheOp} (hroom : n.toNat * largestCost ops ≤ maxBytes.toNat)
    {done : List CacheOp} (hdone : done <+: ops) :
    ∃ s t, exec step (init ⟨m, maxBytes, maxValueBytes⟩) done = some s ∧
      exec step (init ⟨n, maxBytes, maxValueBytes⟩) done = some t ∧
      s.cache.contents.Sublist t.cache.contents ∧
      ∀ k v c, s.cache.get k = some (c, some v) → ∃ c', t.cache.get k = some (c', some v) := by
  have h₀ : Paired m n maxBytes maxValueBytes (largestCost ops) _ _ := paired_init
  obtain ⟨s, t, hs, ht, hp⟩ := h₀.exec hmn hroom done
    (fun op hop => opCost_le (hdone.subset hop))
  exact ⟨s, t, hs, ht, hp.within.sublist, fun k v c hget => hp.get hget⟩

theorem larger_keeps_hits_evicting :
    ∃ s t, exec step (init ⟨2, 1000, 10⟩) evictingRun = some s ∧
      exec step (init ⟨3, 1000, 10⟩) evictingRun = some t ∧
      s.cache.contents.Sublist t.cache.contents := by
  have hroom : (3 : UInt64).toNat * largestCost evictingRun ≤ (1000 : UInt64).toNat := by
    decide +kernel
  have hmn : (2 : UInt64) ≤ 3 := by decide
  obtain ⟨s, t, hs, ht, hsub, -⟩ := larger_keeps_hits hmn hroom (List.prefix_refl evictingRun)
  exact ⟨s, t, hs, ht, hsub⟩

end LocalCache.CacheRun
