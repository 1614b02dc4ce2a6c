import LocalCache.CacheEvents
import LocalCache.Library.Transition

namespace LocalCache

open Protocol Library Transition RecencyList

structure CacheEvent where
  op : CacheOp
  result : CacheResult
  evicted : List Bytes
deriving DecidableEq

/-- A stored put of the key, a successful erase of it, and every clear. -/
def CacheEvent.writes (k : Bytes) (e : CacheEvent) : Bool :=
  match e.op, e.result with
  | .put k' _, .status .kStored => k' = k
  | .erase k', .found true => k' = k
  | .clear, _ => true
  | _, _ => false

/-- The cache with everything that happened to it, the newest first. -/
structure CacheTrace where
  cache : LruCache
  events : List CacheEvent

namespace CacheTrace

def init (limits : CacheLimits) : CacheTrace := ⟨.empty limits, []⟩

def step (s : CacheTrace) (op : CacheOp) : Option CacheTrace :=
  (s.cache.run op).map (fun p => ⟨p.1, ⟨op, p.2, s.cache.evictedBy op⟩ :: s.events⟩)

def lastWrite (k : Bytes) (events : List CacheEvent) : Option CacheOp :=
  (events.find? (fun e => e.writes k)).map CacheEvent.op

def evictedSince (k : Bytes) (events : List CacheEvent) : Bool :=
  (events.takeWhile (fun e => !e.writes k)).any (fun e => k ∈ e.evicted)

def written : CacheOp → Option Entry
  | .put k v => some (k, v)
  | _ => none

section Lookup

variable {c c' : LruCache} {op : CacheOp} {result : CacheResult} {evicted : List Bytes}

theorem find_does (h : c.Linked) (hd : c.Does c' op result evicted) (k : Bytes) :
    find k c'.contents =
      if CacheEvent.writes k ⟨op, result, evicted⟩ then written op
      else if k ∈ evicted then none else find k c.contents := by
  cases hd with
  | miss hf hc | refused hs hc | absent hf hc | looked hc =>
    rw [hc]
    simp [CacheEvent.writes, *]
  | @hit k' e hf hc hev =>
    obtain ⟨-, rfl⟩ := Keyed.mem_of_find hf
    have hfind : find k c'.contents = find k c.contents := by
      rw [hc, find, Keyed.find_cons]
      by_cases hk : e.1 = k
      · subst hk
        rw [if_pos rfl]
        exact hf.symm
      · rw [if_neg hk]
        exact (Keyed.find_without e.1 k _).trans (if_neg (Ne.symm hk))
    simp [CacheEvent.writes, hfind]
  | @stored k' v kept dropped hsplit hc hev =>
    have hn : ((kept ++ dropped).map Prod.fst).Nodup := by
      rw [← hsplit]
      exact h.keys_contents.sublist ((Keyed.without_sublist k' c.contents).map Prod.fst)
    rw [hc, find, Keyed.find_cons]
    by_cases hk : k' = k
    · subst hk
      simp [CacheEvent.writes, written]
    · have hothers : Keyed.find Prod.fst k (others k' c.contents) = find k c.contents :=
        (Keyed.find_without k' k _).trans (if_neg (Ne.symm hk))
      have hw : CacheEvent.writes k ⟨.put k' v, .status .kStored,
          (dropped.map Prod.fst).reverse⟩ = false := decide_eq_false hk
      rw [if_neg hk, Keyed.find_front hn k, ← hsplit, hothers, hw, if_neg Bool.false_ne_true]
      by_cases hd : k ∈ dropped.map Prod.fst
      · rw [if_pos hd, if_pos (List.mem_reverse.mpr hd)]
      · rw [if_neg hd, if_neg (fun hr => hd (List.mem_reverse.mp hr))]
  | @erased k' e hf hc hev =>
    rw [hc]
    by_cases hk : k' = k
    · subst hk
      simp only [CacheEvent.writes, decide_true, if_true, written]
      exact (Keyed.find_without k' k' _).trans (if_pos rfl)
    · simp only [CacheEvent.writes, hk, decide_false, Bool.false_eq_true, if_false,
        List.not_mem_nil]
      exact (Keyed.find_without k' k _).trans (if_neg (Ne.symm hk))
  | cleared hc hev =>
    rw [hc]
    rfl

end Lookup

section History

variable {k : Bytes} {e : CacheEvent} {events : List CacheEvent}

theorem lastWrite_cons_of_writes (h : e.writes k = true) :
    lastWrite k (e :: events) = some e.op := by
  rw [lastWrite, List.find?_cons_of_pos h, Option.map_some]

theorem lastWrite_cons (h : e.writes k = false) :
    lastWrite k (e :: events) = lastWrite k events := by
  rw [lastWrite, List.find?_cons_of_neg (by simp [h]), lastWrite]

theorem evictedSince_cons (h : e.writes k = false) :
    evictedSince k (e :: events) = (decide (k ∈ e.evicted) || evictedSince k events) := by
  rw [evictedSince, List.takeWhile_cons_of_pos (by simp [h]), List.any_cons, evictedSince]

theorem put_of_written (h : e.writes k = true) {entry : Entry}
    (hw : written e.op = some entry) : e.op = .put k entry.2 := by
  obtain ⟨op, result, evicted⟩ := e
  cases op with
  | put k' v =>
    obtain rfl := Option.some.inj hw
    cases result with
    | status status =>
      cases status with
      | kStored =>
        obtain rfl : k' = k := of_decide_eq_true h
        rfl
      | kValueTooLarge | kEntryTooLarge => cases h
    | value v | found b | done => cases h
  | get k | erase k | contains k | clear => cases hw

end History

/-- The cache is linked, and what it holds follows from its history. -/
structure Recorded (limits : CacheLimits) (s : CacheTrace) : Prop where
  linked : s.cache.Linked
  limits_eq : s.cache.limits = limits
  last : ∀ k e, find k s.cache.contents = some e → lastWrite k s.events = some (.put k e.2)
  held : ∀ k v, lastWrite k s.events = some (.put k v) → evictedSince k s.events = false →
    find k s.cache.contents = some (k, v)

variable {limits : CacheLimits} {s : CacheTrace}

theorem recorded_init (limits : CacheLimits) : Recorded limits (init limits) where
  linked := LruCache.linked_empty limits
  limits_eq := rfl
  last := by intro k e h; cases h
  held := by intro k v h; cases h

theorem Recorded.step (h : Recorded limits s) (op : CacheOp) :
    ∃ s', s.step op = some s' ∧ Recorded limits s' := by
  obtain ⟨c', result, hrun, hl, hlimits, hd⟩ := LruCache.run_does h.linked op
  refine ⟨_, by rw [CacheTrace.step, hrun]; rfl, hl, hlimits.trans h.limits_eq, ?_, ?_⟩
  · intro k e he
    have hf := find_does h.linked hd k
    dsimp only at he ⊢
    rw [he] at hf
    cases hw : CacheEvent.writes k ⟨op, result, s.cache.evictedBy op⟩ with
    | true =>
      rw [hw, if_pos rfl] at hf
      rw [lastWrite_cons_of_writes hw, put_of_written hw hf.symm]
    | false =>
      rw [hw, if_neg Bool.false_ne_true] at hf
      rw [lastWrite_cons hw]
      by_cases hev : k ∈ s.cache.evictedBy op
      · rw [if_pos hev] at hf
        cases hf
      · rw [if_neg hev] at hf
        exact h.last k e hf.symm
  · intro k v hlast hsince
    have hf := find_does h.linked hd k
    dsimp only at hlast hsince ⊢
    rw [hf]
    cases hw : CacheEvent.writes k ⟨op, result, s.cache.evictedBy op⟩ with
    | true =>
      rw [lastWrite_cons_of_writes hw] at hlast
      have hop : op = .put k v := Option.some.inj hlast
      rw [if_pos rfl, hop, written]
    | false =>
      rw [lastWrite_cons hw] at hlast
      rw [evictedSince_cons hw, Bool.or_eq_false_iff] at hsince
      rw [if_neg Bool.false_ne_true, if_neg (of_decide_eq_false hsince.1)]
      exact h.held k v hlast hsince.2

theorem Recorded.exec (ops : List CacheOp) (h : Recorded limits s) :
    ∃ s', Transition.exec CacheTrace.step s ops = some s' ∧ Recorded limits s' := by
  induction ops generalizing s with
  | nil => exact ⟨s, rfl, h⟩
  | cons op ops ih =>
    obtain ⟨s₁, hs, h₁⟩ := h.step op
    obtain ⟨s', he, h'⟩ := ih h₁
    exact ⟨s', by rw [Transition.exec, hs]; exact he, h'⟩

/-- A get returns the value of the last put, unless the key was erased, cleared or evicted
since, and a put that is refused leaves the cache as it was. -/
theorem get_returns_last_put (limits : CacheLimits) (ops : List CacheOp) :
    ∃ s, exec step (init limits) ops = some s ∧
      (∀ k v c', s.cache.get k = some (c', some v) →
        lastWrite k s.events = some (.put k v)) ∧
      (∀ k v, lastWrite k s.events = some (.put k v) → evictedSince k s.events = false →
        ∃ c', s.cache.get k = some (c', some v)) ∧
      ∀ k v c' status, s.cache.put k v = some (c', status) → status ≠ .kStored →
        c' = s.cache := by
  obtain ⟨s, hs, h⟩ := (recorded_init limits).exec ops
  refine ⟨s, hs, ?_, ?_, ?_⟩
  · intro k v c' hget
    obtain ⟨c₁, value, hget₁, -, -, hd⟩ := LruCache.get_does h.linked k
    cases hget.symm.trans hget₁
    cases hd with
    | @hit _ e hf => exact h.last k e hf
  · intro k v hlast hsince
    obtain ⟨c', value, hget, -, -, hd⟩ := LruCache.get_does h.linked k
    have hf := h.held k v hlast hsince
    cases hd with
    | miss hnone =>
      rw [hnone] at hf
      cases hf
    | hit hsome =>
      cases hsome.symm.trans hf
      exact ⟨c', hget⟩
  · intro k v c' status hput hne
    obtain ⟨c₁, status₁, hput₁, -, -, hd⟩ := LruCache.put_does h.linked k v
    cases hput.symm.trans hput₁
    generalize s.cache.evictedBy (.put k v) = evicted at hd
    cases hd with
    | refused _ hc => exact hc
    | stored => exact absurd rfl hne

end CacheTrace

end LocalCache
