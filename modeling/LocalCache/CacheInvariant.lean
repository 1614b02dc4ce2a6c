import LocalCache.RecencyList

namespace LocalCache

open Protocol Library RecencyList

def Node.entry (n : Node) : Entry := (n.key, n.value)

namespace LruCache

def contents (c : LruCache) : List Entry := c.entries.map Node.entry

/-- The list and the index agree and no value is too long, whatever the counters show. -/
structure Linked (c : LruCache) : Prop where
  keys_nodup : (c.entries.map Node.key).Nodup
  ids_nodup : (c.entries.map Node.id).Nodup
  ids_lt : ∀ n ∈ c.entries, n.id < c.nextNode
  index_perm : c.index.Perm (c.entries.map (fun n => (n.key, n.id)))
  values_le : ∀ n ∈ c.entries, n.value.length ≤ c.limits.maxValueBytes.toNat

/-- The list, the index and the counters agree, and the limits hold. -/
structure Inv (c : LruCache) : Prop where
  keys_nodup : (c.entries.map Node.key).Nodup
  ids_nodup : (c.entries.map Node.id).Nodup
  ids_lt : ∀ n ∈ c.entries, n.id < c.nextNode
  index_perm : c.index.Perm (c.entries.map (fun n => (n.key, n.id)))
  bytes_eq : c.bytes = (c.contents.map cost).sum
  payload_eq : c.payloadBytes = (c.contents.map payload).sum
  size_le : c.size ≤ c.limits.maxEntries.toNat
  bytes_le : c.bytes ≤ c.limits.maxBytes.toNat
  values_le : ∀ n ∈ c.entries, n.value.length ≤ c.limits.maxValueBytes.toNat
  evictions_lt : c.evictions < Word64.size

theorem inv_empty (limits : CacheLimits) : (empty limits).Inv where
  keys_nodup := List.nodup_nil
  ids_nodup := List.nodup_nil
  ids_lt := by intro n hn; cases hn
  index_perm := List.Perm.nil
  bytes_eq := rfl
  payload_eq := rfl
  size_le := Nat.zero_le _
  bytes_le := Nat.zero_le _
  values_le := by intro n hn; cases hn
  evictions_lt := Nat.two_pow_pos 64

variable {c : LruCache} {n : Node} {k v : Bytes}

theorem length_contents (c : LruCache) : c.contents.length = c.entries.length := by
  simp [contents]

theorem sum_payload_le (l : List Entry) :
    (l.map cost).sum = (l.map payload).sum + 128 * l.length := by
  induction l with
  | nil => rfl
  | cons e l ih =>
    simp only [List.map_cons, List.sum_cons, List.length_cons, cost] at ih ⊢
    omega

namespace Linked

theorem keys_contents (h : c.Linked) : (c.contents.map Prod.fst).Nodup := by
  rw [contents, List.map_map]
  exact h.keys_nodup

theorem size_eq (h : c.Linked) : c.size = c.entries.length := by
  rw [size, h.index_perm.length_eq, List.length_map]

theorem index_keys (h : c.Linked) : (c.index.map Prod.fst).Perm (c.entries.map Node.key) := by
  have hp := h.index_perm.map Prod.fst
  rwa [List.map_map] at hp

theorem indexFind_eq (h : c.Linked) (k : Bytes) :
    c.indexFind k = (Keyed.find Node.key k c.entries).map (fun n => (n.key, n.id)) := by
  have hnodup : (c.index.map Prod.fst).Nodup := h.index_keys.nodup_iff.mpr h.keys_nodup
  cases hf : Keyed.find Node.key k c.entries with
  | none =>
    rw [Keyed.find_eq_none_iff, ← h.index_keys.mem_iff, ← Keyed.find_eq_none_iff] at hf
    exact hf
  | some n =>
    obtain ⟨hn, rfl⟩ := Keyed.mem_of_find hf
    have hmem : (n.key, n.id) ∈ c.index := h.index_perm.mem_iff.mpr (List.mem_map_of_mem hn)
    exact Keyed.find_of_mem hnodup hmem

theorem node_eq (h : c.Linked) (hn : n ∈ c.entries) : c.node (n.key, n.id) = some n :=
  Keyed.find_of_mem h.ids_nodup hn

theorem without_id (h : c.Linked) (hn : n ∈ c.entries) :
    Keyed.without Node.id n.id c.entries = Keyed.without Node.key n.key c.entries :=
  Keyed.without_congr h.ids_nodup h.keys_nodup hn

theorem tail_found {l : List Node} (h : c.Linked) (hl : c.entries = l ++ [n]) :
    n ∈ c.entries ∧ c.entries.getLast? = some n ∧ c.indexFind n.key = some (n.key, n.id) := by
  have hn : n ∈ c.entries := by
    rw [hl]
    exact List.mem_append_right _ (List.mem_singleton_self n)
  refine ⟨hn, by rw [hl, List.getLast?_concat], ?_⟩
  rw [h.indexFind_eq, Keyed.find_of_mem h.keys_nodup hn]
  rfl

theorem without_tail {l : List Node} (h : c.Linked) (hl : c.entries = l ++ [n]) :
    Keyed.without Node.key n.key c.entries = l := by
  have hk := h.keys_nodup
  rw [hl] at hk ⊢
  exact Keyed.without_last hk

theorem find_contents (h : c.Linked) (k : Bytes) :
    c.indexFind k = none ∧ find k c.contents = none ∨
      ∃ n ∈ c.entries, n.key = k ∧ c.indexFind k = some (n.key, n.id) ∧
        find k c.contents = some n.entry := by
  have hf : find k c.contents = (Keyed.find Node.key k c.entries).map Node.entry :=
    Keyed.find_map Node.entry Prod.fst k c.entries
  rw [h.indexFind_eq, hf]
  cases hn : Keyed.find Node.key k c.entries with
  | none => exact .inl ⟨rfl, rfl⟩
  | some n =>
    obtain ⟨hmem, hkey⟩ := Keyed.mem_of_find hn
    exact .inr ⟨n, hmem, hkey, rfl, rfl⟩

theorem index_without (h : c.Linked) (k : Bytes) :
    (Keyed.without Prod.fst k c.index).Perm
      ((Keyed.without Node.key k c.entries).map (fun n => (n.key, n.id))) := by
  have hp := h.index_perm.filter (fun p => p.1 ≠ k)
  rw [List.filter_map] at hp
  exact hp

theorem reorder {entries : List Node} (h : c.Linked) (hp : entries.Perm c.entries) :
    ({ c with entries := entries } : LruCache).Linked where
  keys_nodup := (hp.map Node.key).nodup_iff.mpr h.keys_nodup
  ids_nodup := (hp.map Node.id).nodup_iff.mpr h.ids_nodup
  ids_lt := fun m hm => h.ids_lt m (hp.mem_iff.mp hm)
  index_perm := h.index_perm.trans (hp.map _).symm
  values_le := fun m hm => h.values_le m (hp.mem_iff.mp hm)

theorem without (h : c.Linked) (k : Bytes) (bytes payloadBytes : Nat) :
    ({ c with
      bytes := bytes
      payloadBytes := payloadBytes
      index := Keyed.without Prod.fst k c.index
      entries := Keyed.without Node.key k c.entries } : LruCache).Linked where
  keys_nodup := h.keys_nodup.sublist ((Keyed.without_sublist k c.entries).map _)
  ids_nodup := h.ids_nodup.sublist ((Keyed.without_sublist k c.entries).map _)
  ids_lt := fun m hm => h.ids_lt m (Keyed.mem_without.mp hm).1
  index_perm := h.index_without k
  values_le := fun m hm => h.values_le m (Keyed.mem_without.mp hm).1

theorem index_insertFront (h : c.Linked) (hk : k ∉ c.entries.map Node.key) (cost : Nat) :
    (c.insertFront k v cost).index = (k, c.nextNode) :: c.index := by
  have hnone : c.indexFind k = none := by
    rw [h.indexFind_eq, Keyed.find_eq_none_iff.mpr hk]
    rfl
  rw [LruCache.insertFront, hnone]
  rfl

theorem insertFront (h : c.Linked) (hk : k ∉ c.entries.map Node.key)
    (hv : v.length ≤ c.limits.maxValueBytes.toNat) (cost : Nat) :
    (c.insertFront k v cost).Linked := by
  refine ⟨List.nodup_cons.mpr ⟨hk, h.keys_nodup⟩, List.nodup_cons.mpr ⟨?_, h.ids_nodup⟩, ?_, ?_,
    ?_⟩
  · intro hmem
    obtain ⟨m, hm, hid⟩ := List.mem_map.mp hmem
    exact Nat.lt_irrefl _ (hid ▸ h.ids_lt m hm)
  · intro m hm
    obtain rfl | hm := List.mem_cons.mp hm
    · exact Nat.lt_succ_self _
    · exact Nat.lt_succ_of_lt (h.ids_lt m hm)
  · rw [h.index_insertFront hk]
    exact h.index_perm.cons _
  · intro m hm
    obtain rfl | hm := List.mem_cons.mp hm
    · exact hv
    · exact h.values_le m hm

end Linked

namespace Inv

theorem linked (h : c.Inv) : c.Linked :=
  ⟨h.keys_nodup, h.ids_nodup, h.ids_lt, h.index_perm, h.values_le⟩

theorem of_linked (h : c.Linked) (hbytes : c.bytes = (c.contents.map cost).sum)
    (hpayload : c.payloadBytes = (c.contents.map payload).sum)
    (hsize : c.size ≤ c.limits.maxEntries.toNat) (hmax : c.bytes ≤ c.limits.maxBytes.toNat)
    (hev : c.evictions < Word64.size) : c.Inv :=
  ⟨h.keys_nodup, h.ids_nodup, h.ids_lt, h.index_perm, hbytes, hpayload, hsize, hmax,
    h.values_le, hev⟩

theorem bytes_payload (h : c.Inv) : c.bytes = c.payloadBytes + 128 * c.size := by
  rw [h.bytes_eq, h.payload_eq, h.linked.size_eq, ← length_contents]
  exact sum_payload_le _

theorem sum_others (h : c.Inv) (hn : n ∈ c.entries) (f : Entry → Nat) :
    (c.contents.map f).sum = f n.entry + ((others n.key c.contents).map f).sum :=
  Keyed.sum_without h.linked.keys_contents (List.mem_map_of_mem hn) f

theorem cost_le (h : c.Inv) (hn : n ∈ c.entries) : cost n.entry ≤ c.bytes := by
  rw [h.bytes_eq, h.sum_others hn]
  exact Nat.le_add_right _ _

theorem payload_le (h : c.Inv) (hn : n ∈ c.entries) : payload n.entry ≤ c.payloadBytes := by
  rw [h.payload_eq, h.sum_others hn]
  exact Nat.le_add_right _ _

theorem bytes_lt (h : c.Inv) : c.bytes < Word64.size :=
  Nat.lt_of_le_of_lt h.bytes_le c.limits.maxBytes.toNat_lt

end Inv

/-- The loop goes on only while the list has a tail. -/
theorem concat_of_overfull {incoming : Nat} (h : c.overfull incoming = true) :
    ∃ l n, c.entries = l ++ [n] := by
  obtain hnil | ⟨l, n, hl⟩ := List.eq_nil_or_concat c.entries
  · rw [overfull, hnil] at h
    cases h
  · exact ⟨l, n, hl.trans List.concat_eq_append⟩

theorem entryCost_eq {ks vs : Nat} (h : ks + vs + 128 < Word64.size) :
    entryCost ks vs = ks + vs + 128 := by
  rw [entryCost, Word64.add_of_lt (Nat.lt_of_add_right_lt h), kEntryOverheadBytes,
    Word64.add_of_lt h]

def remove (c : LruCache) (n : Node) : LruCache :=
  { c with
    bytes := c.bytes - cost n.entry
    payloadBytes := c.payloadBytes - payload n.entry
    index := Keyed.without Prod.fst n.key c.index
    entries := Keyed.without Node.key n.key c.entries }

theorem Inv.node_costs (h : c.Inv) (hn : n ∈ c.entries) :
    entryCost n.key.length n.value.length = cost n.entry ∧
      Word64.add n.key.length n.value.length = payload n.entry := by
  have hlt : n.key.length + n.value.length + 128 < Word64.size :=
    Nat.lt_of_le_of_lt (h.cost_le hn) h.bytes_lt
  exact ⟨entryCost_eq hlt, Word64.add_of_lt (Nat.lt_of_add_right_lt hlt)⟩

theorem eraseLocked_eq (h : c.Inv) (hn : n ∈ c.entries) :
    c.eraseLocked (n.key, n.id) = some (c.remove n) := by
  obtain ⟨hcost, hpay⟩ := h.node_costs hn
  simp only [eraseLocked, h.linked.node_eq hn, Option.bind_eq_bind, Option.bind_some, hcost, hpay,
    Word64.sub_of_le (h.cost_le hn), Word64.sub_of_le (h.payload_le hn), h.linked.without_id hn]
  rfl

theorem contents_remove (c : LruCache) (n : Node) :
    (c.remove n).contents = others n.key c.contents :=
  (Keyed.without_map Node.entry Prod.fst n.key c.entries).symm

theorem Inv.remove (h : c.Inv) (hn : n ∈ c.entries) : (c.remove n).Inv := by
  have hcost := h.sum_others hn cost
  have hpayload := h.sum_others hn payload
  rw [← h.bytes_eq, ← contents_remove] at hcost
  rw [← h.payload_eq, ← contents_remove] at hpayload
  apply Inv.of_linked
  · exact h.linked.without n.key _ _
  · exact Nat.sub_eq_of_eq_add' hcost
  · exact Nat.sub_eq_of_eq_add' hpayload
  · exact Nat.le_trans (Keyed.without_sublist n.key c.index).length_le h.size_le
  · exact Nat.le_trans (Nat.sub_le _ _) h.bytes_le
  · exact h.evictions_lt

end LruCache

end LocalCache
