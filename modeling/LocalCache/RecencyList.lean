import LocalCache.LruCache
import LocalCache.Library.Recency

namespace LocalCache.RecencyList

open Protocol Library

/-- A key with its value. The abstract cache is a list of entries, the most recently used
first. -/
abbrev Entry := Bytes × Bytes

def payload (e : Entry) : Nat := e.1.length + e.2.length

def cost (e : Entry) : Nat := payload e + 128

def fits (limits : CacheLimits) (incoming : Nat) (l : List Entry) : Bool :=
  l.length + 1 ≤ limits.maxEntries.toNat && (l.map cost).sum + incoming ≤ limits.maxBytes.toNat

def others (k : Bytes) (l : List Entry) : List Entry := Keyed.without Prod.fst k l

def find (k : Bytes) (l : List Entry) : Option Entry := Keyed.find Prod.fst k l

structure Effect where
  contents : List Entry
  result : CacheResult
  evicted : Nat

/-- What each operation is for, without index, nodes or counters. -/
def apply (limits : CacheLimits) (l : List Entry) : CacheOp → Effect
  | .get k =>
    match find k l with
    | none => ⟨l, .value none, 0⟩
    | some e => ⟨e :: others k l, .value (some e.2), 0⟩
  | .put k v =>
    if limits.maxValueBytes.toNat < v.length then ⟨l, .status .kValueTooLarge, 0⟩
    else if limits.maxBytes.toNat < cost (k, v) ∨ limits.maxEntries = 0 then
      ⟨l, .status .kEntryTooLarge, 0⟩
    else
      let rest := Recency.trim (fits limits (cost (k, v))) (others k l)
      ⟨(k, v) :: rest, .status .kStored, (others k l).length - rest.length⟩
  | .erase k =>
    match find k l with
    | none => ⟨l, .found false, 0⟩
    | some _ => ⟨others k l, .found true, 0⟩
  | .contains k => ⟨l, .found (find k l).isSome, 0⟩
  | .clear => ⟨[], .done, 0⟩

theorem fits_iff {limits : CacheLimits} {incoming : Nat} {l : List Entry} :
    fits limits incoming l = true ↔
      l.length + 1 ≤ limits.maxEntries.toNat ∧
        (l.map cost).sum + incoming ≤ limits.maxBytes.toNat := by
  simp [fits]

theorem fits_nil {limits : CacheLimits} {incoming : Nat}
    (hcost : incoming ≤ limits.maxBytes.toNat) (hentries : limits.maxEntries ≠ 0) :
    fits limits incoming [] = true := by
  have hpos : limits.maxEntries.toNat ≠ 0 := fun h => hentries (UInt64.toNat_inj.mp h)
  rw [fits_iff, List.length_nil, List.map_nil, List.sum_nil]
  omega

theorem fits_trim {limits : CacheLimits} {incoming : Nat}
    (hcost : incoming ≤ limits.maxBytes.toNat) (hentries : limits.maxEntries ≠ 0)
    (l : List Entry) : fits limits incoming (Recency.trim (fits limits incoming) l) = true := by
  obtain h | h := Recency.keep_fits (fits limits incoming) l l.length
  · rw [Recency.trim, h, List.take_zero]
    exact fits_nil hcost hentries
  · exact h

end LocalCache.RecencyList
