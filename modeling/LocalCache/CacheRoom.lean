import LocalCache.CacheEvents
import LocalCache.CacheHistory

namespace LocalCache

open Protocol Library Transition RecencyList

namespace LruCache

inductive Rounds (incoming : Nat) (c : LruCache) : Nat → LruCache → Prop
  | start : Rounds incoming c 0 c
  | round {n : Nat} {c₁ c₂ : LruCache} (h : Rounds incoming c n c₁)
      (hover : c₁.overfull incoming = true) (he : c₁.evictLruLocked = some c₂) :
      Rounds incoming c (n + 1) c₂

def FindsTail (c : LruCache) (lru : Node) : Prop :=
  c.entries.getLast? = some lru ∧ c.indexFind lru.key = some (lru.key, lru.id) ∧
    c.node (lru.key, lru.id) = some lru

def Subtracts (c : LruCache) (n : Node) : Prop :=
  entryCost n.key.length n.value.length ≤ c.bytes ∧
    Word64.add n.key.length n.value.length ≤ c.payloadBytes

variable {c c₁ c₂ : LruCache} {incoming n : Nat}

theorem Linked.findsTail (h : c.Linked) (hover : c.overfull incoming = true) :
    ∃ lru, c.FindsTail lru := by
  obtain ⟨l, lru, hl⟩ := concat_of_overfull hover
  obtain ⟨hmem, hlast, hfind⟩ := h.tail_found hl
  exact ⟨lru, hlast, hfind, h.node_eq hmem⟩

theorem Inv.subtracts (h : c.Inv) {lru : Node} (hlru : lru ∈ c.entries) : c.Subtracts lru := by
  obtain ⟨hcost, hpay⟩ := h.node_costs hlru
  rw [Subtracts, hcost, hpay]
  exact ⟨h.cost_le hlru, h.payload_le hlru⟩

namespace Rounds

theorem linked (h : c.Linked) (hr : Rounds incoming c n c₁) :
    c₁.Linked ∧ c₁.entries.length + n = c.entries.length := by
  induction hr with
  | start => exact ⟨h, rfl⟩
  | round _ hover he ih =>
    obtain ⟨hlinked, hlen⟩ := ih
    obtain ⟨l, lru, hl⟩ := concat_of_overfull hover
    obtain ⟨c', he', hc', -⟩ := evictLruLocked_leads hlinked hl
    rw [he] at he'
    cases he'
    refine ⟨hc'.linked, ?_⟩
    rw [hl, List.length_append, List.length_singleton] at hlen
    rw [hc'.entries_eq]
    omega

theorem inv (h : c.Inv) (hr : Rounds incoming c n c₁) : c₁.Inv := by
  induction hr with
  | start => exact h
  | round _ hover he ih =>
    obtain ⟨l, lru, hl⟩ := concat_of_overfull hover
    obtain ⟨c', he', hm, -⟩ := evictLruLocked_matches ih hl
    rw [he] at he'
    cases he'
    exact hm.inv

theorem of_makeRoomFuel (fuel : Nat) (hr : Rounds incoming c n c₁)
    (hmake : makeRoomFuel incoming fuel c₁ = some c₂) :
    ∃ m, Rounds incoming c m c₂ ∧ c₂.overfull incoming = false := by
  induction fuel generalizing n c₁ with
  | zero =>
    rw [makeRoomFuel] at hmake
    split at hmake
    · cases hmake
    · rename_i hover
      cases hmake
      exact ⟨n, hr, Bool.not_eq_true _ ▸ hover⟩
  | succ fuel ih =>
    rw [makeRoomFuel] at hmake
    split at hmake
    · rename_i hover
      rw [Option.bind_eq_some_iff] at hmake
      obtain ⟨c', he, hmake⟩ := hmake
      exact ih (hr.round hover he) hmake
    · rename_i hover
      cases hmake
      exact ⟨n, hr, Bool.not_eq_true _ ▸ hover⟩

end Rounds

theorem Linked.makeRoom_returns (h : c.Linked) (incoming : Nat) :
    ∃ n c', c.makeRoomLocked incoming = some c' ∧ Rounds incoming c n c' ∧
      c'.overfull incoming = false := by
  obtain ⟨c', -, hmake, -⟩ := makeRoomFuel_leads incoming c.entries.length h (Nat.le_refl _)
  obtain ⟨n, hr, hover⟩ := Rounds.start.of_makeRoomFuel c.entries.length hmake
  exact ⟨n, c', hmake, hr, hover⟩

theorem Inv.makeRoom_suffices (h : c.Inv) (hcost : incoming ≤ c.limits.maxBytes.toNat)
    (hentries : c.limits.maxEntries ≠ 0) (hfit : c.bytes + incoming < Word64.size)
    (hmake : c.makeRoomLocked incoming = some c₁) :
    c₁.size + 1 ≤ c.limits.maxEntries.toNat ∧ c₁.bytes + incoming ≤ c.limits.maxBytes.toNat := by
  rw [h.bytes_eq] at hfit
  obtain ⟨c', hmake', hm⟩ := makeRoomFuel_matches c.entries.length h hcost hentries
    (exact_of_sum hfit) (Nat.le_refl _)
  rw [makeRoomLocked, hmake'] at hmake
  cases hmake
  have hfits := fits_trim hcost hentries c.contents
  rw [← hm.contents_eq, fits_iff] at hfits
  rw [hm.inv.linked.size_contents, hm.inv.bytes_eq]
  exact hfits

end LruCache

namespace CacheRun

theorem reach_linked {limits : CacheLimits} {run : CacheRun}
    (h : Reach step Free (init limits) run) :
    run.cache.Linked ∧ run.cache.limits = limits := by
  refine h.invariant (P := fun run => run.cache.Linked ∧ run.cache.limits = limits)
    ⟨LruCache.linked_empty limits, rfl⟩ ?_
  rintro s op s' ⟨hl, hlimits⟩ - hs
  obtain ⟨c', result, hrun, hl', hlimits', -⟩ := LruCache.run_does hl op
  rw [step, hrun] at hs
  cases hs
  exact ⟨hl', hlimits'.trans hlimits⟩

/-- The eviction loop ends within `size` rounds and evicts what the index has for the tail,
whatever the counters hold. Where no put came near the end of the address space, no counter goes
below zero and there is room in the end. -/
theorem makeRoom_safe (limits : CacheLimits) {s : CacheRun}
    (h : Reach step Free (init limits) s) (incoming : Nat) :
    (∃ n c, s.cache.makeRoomLocked incoming = some c ∧ s.cache.Rounds incoming n c ∧
        c.overfull incoming = false) ∧
      (∀ n c, s.cache.Rounds incoming n c →
        n ≤ s.cache.size ∧ (c.overfull incoming = true → ∃ lru, c.FindsTail lru)) ∧
      (Reach step Fits (init limits) s →
        (∀ n c lru, s.cache.Rounds incoming n c → c.FindsTail lru → c.Subtracts lru) ∧
        (incoming ≤ limits.maxBytes.toNat → 1 ≤ limits.maxEntries.toNat →
          s.cache.bytes + incoming < 2 ^ 64 →
          ∀ c, s.cache.makeRoomLocked incoming = some c →
            c.size + 1 ≤ limits.maxEntries.toNat ∧
              c.bytes + incoming ≤ limits.maxBytes.toNat)) := by
  obtain ⟨hlinked, hlimits⟩ := reach_linked h
  refine ⟨hlinked.makeRoom_returns incoming, fun n c hr => ?_, fun hfits => ⟨?_, ?_⟩⟩
  · obtain ⟨hc, hlen⟩ := hr.linked hlinked
    refine ⟨?_, hc.findsTail⟩
    rw [hlinked.size_eq]
    omega
  · rintro n c lru hr ⟨hlast, -, -⟩
    exact (hr.inv (reach_inv hfits).cache_inv).subtracts (List.mem_of_getLast? hlast)
  · intro hcost hentries hlt c hmake
    have hne : limits.maxEntries ≠ 0 := by
      intro hzero
      rw [hzero] at hentries
      exact absurd hentries (by decide)
    rw [← hlimits] at hcost hne ⊢
    exact (reach_inv hfits).cache_inv.makeRoom_suffices hcost hne hlt hmake

theorem makeRoom_safe_empties :
    ∃ s : CacheRun, Reach step Fits (init smallLimits) s ∧ s.cache.size = 2 ∧
      ∃ c, s.cache.makeRoomLocked 1000 = some c ∧ c.bytes + 1000 ≤ 1000 := by
  obtain ⟨s, hr, hsize, hbytes⟩ := exists_reach (guarded step Fits) (init smallLimits)
    [.put [1] [10], .put [2] [20]] (fun s => s.cache.size = 2 ∧ s.cache.bytes = 260)
    (by decide +kernel)
  obtain ⟨⟨n, c, hmake, -, -⟩, -, hfits⟩ := makeRoom_safe smallLimits hr.of_guarded.free 1000
  have hroom := (hfits hr.of_guarded).2 (by decide) (by decide) (by rw [hbytes]; decide) c hmake
  exact ⟨s, hr.of_guarded, hsize, c, hmake, hroom.2⟩

end CacheRun

end LocalCache
