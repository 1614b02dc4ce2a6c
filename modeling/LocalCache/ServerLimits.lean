import LocalCache.CacheClient
import LocalCache.CacheRoom
import LocalCache.StatsCodec
import LocalCache.WorkerSteps

namespace LocalCache

open Protocol Serializer RequestCodec Library Transition RecencyList

theorem ite_some_eq_none {p : Prop} [Decidable p] {m : String} {x : Option String} :
    (if p then some m else x) = none ↔ ¬p ∧ x = none := by
  by_cases hp : p <;> simp [hp]

namespace ServerConfig

variable {config : ServerConfig}

/-- What a configuration that passes `validate` promises. -/
structure Valid (config : ServerConfig) : Prop where
  entries_ne : config.maxEntries ≠ 0
  value_pos : 0 < config.maxValueBytes.toNat
  value_le : config.maxValueBytes.toNat ≤ kMaxValueBytes.toNat
  key_le : config.maxKeyBytes.toNat ≤ kMaxKeyBytes.toNat
  entry_le : config.maxValueBytes.toNat + config.maxKeyBytes.toNat + 128 ≤
    config.maxCacheBytes.toNat
  inflight_pos : 0 < config.maxInflightPerConn.toNat
  output_ge : config.maxValueBytes.toNat ≤ config.maxConnOutputBytes.toNat
  connections_pos : 0 < config.maxConnections.toNat

theorem valid_of_validate (h : config.validate = none) : config.Valid := by
  simp only [validate, ite_some_eq_none, not_or, gt_iff_lt, ge_iff_le, UInt64.not_lt,
    UInt64.le_iff_toNat_le, ← UInt64.toNat_inj] at h
  obtain ⟨-, -, hentries, ⟨hvalue, hvalue_le⟩, ⟨-, hkey_le⟩, hentry, -, -, hconnections,
    hinflight, houtput, -⟩ := h
  have hv : config.maxValueBytes.toNat ≤ 67108864 := hvalue_le
  have hk : config.maxKeyBytes.toNat ≤ 65536 := hkey_le
  have hsum : (config.maxValueBytes + config.maxKeyBytes +
      UInt64.ofNat LruCache.kEntryOverheadBytes).toNat =
      config.maxValueBytes.toNat + config.maxKeyBytes.toNat + 128 := by
    have hover : (UInt64.ofNat LruCache.kEntryOverheadBytes).toNat = 128 := rfl
    rw [UInt64.toNat_add, UInt64.toNat_add, hover]
    omega
  rw [hsum] at hentry
  refine ⟨fun he => hentries (by rw [he]), Nat.pos_of_ne_zero hvalue, hv, hk, hentry,
    Nat.pos_of_ne_zero hinflight, houtput, Nat.pos_of_ne_zero hconnections⟩

theorem Valid.toNat_protocolLimits (h : config.Valid) :
    config.connectionLimits.protocolLimits.maxKeyBytes.toNat = config.maxKeyBytes.toNat ∧
      config.connectionLimits.protocolLimits.maxValueBytes.toNat =
        config.maxValueBytes.toNat := by
  have hk : config.maxKeyBytes.toNat ≤ 65536 := h.key_le
  have hv : config.maxValueBytes.toNat ≤ 67108864 := h.value_le
  constructor
  · exact (UInt64.toNat_toUInt32 _).trans (Nat.mod_eq_of_lt (by omega))
  · exact (UInt64.toNat_toUInt32 _).trans (Nat.mod_eq_of_lt (by omega))

end ServerConfig

theorem length_serializeStats (stats : StatsSnapshot) : (serializeStats stats).length = 114 := by
  rw [StatsCodec.serializeStats_eq, StatsCodec.length_payload, StatsCodec.length_fields]

namespace Server

variable {config : ServerConfig} {s : Server} {request : Request} {uptimeMs : UInt64}

/-- Executing a request on a linked cache succeeds, and keeps the cache linked within the same
limits. The response carries at most a stored value or the counters. -/
theorem execute_linked (h : s.cache.Linked) (request : Request) (uptimeMs : UInt64) :
    ∃ cache response tally, s.execute request uptimeMs = some (cache, response, tally) ∧
      cache.Linked ∧ cache.limits = s.cache.limits ∧
      response.value.length ≤ max s.cache.limits.maxValueBytes.toNat 114 := by
  unfold execute
  cases request.opcode with
  | kGet =>
    obtain ⟨cache, value, hget, hl, hlimits, hd⟩ := LruCache.get_does h request.key
    dsimp only
    rw [hget]
    cases hd with
    | miss hf => exact ⟨cache, _, _, rfl, hl, hlimits, Nat.zero_le _⟩
    | hit hf =>
      exact ⟨cache, _, _, rfl, hl, hlimits, (h.value_le hf).trans (Nat.le_max_left _ _)⟩
  | kPut =>
    obtain ⟨cache, status, hput, hl, hlimits, -⟩ :=
      LruCache.put_does h request.key request.value
    dsimp only
    rw [hput]
    cases status <;> exact ⟨cache, _, _, rfl, hl, hlimits, Nat.zero_le _⟩
  | kDelete =>
    obtain ⟨cache, found, herase, hl, hlimits, -⟩ := LruCache.erase_does h request.key
    dsimp only
    rw [herase]
    cases found <;> exact ⟨cache, _, _, rfl, hl, hlimits, Nat.zero_le _⟩
  | kPing => exact ⟨s.cache, _, _, rfl, h, rfl, Nat.zero_le _⟩
  | kStats =>
    refine ⟨s.cache, _, _, rfl, h, rfl, ?_⟩
    dsimp only
    rw [length_serializeStats]
    exact Nat.le_max_right _ _
  | kClear =>
    have hcache := LruCache.clear_leads s.cache
    exact ⟨s.cache.clear, _, _, rfl, hcache.linked, rfl, Nat.zero_le _⟩

theorem execute_get (h : s.cache.Linked) {key value : Bytes}
    (hf : find key s.cache.contents = some (key, value)) (id : UInt64) (uptimeMs : UInt64) :
    ∃ cache, s.execute ⟨.kGet, id, key, []⟩ uptimeMs =
      some (cache, ⟨.kGet, .kOk, id, value⟩, some .hit) := by
  obtain ⟨cache, hget⟩ := LruCache.get_value h key
  refine ⟨cache, ?_⟩
  simp only [execute, hget, hf]
  rfl

theorem execute_put (hconfig : config.Valid) (h : s.cache.Linked)
    (hlimits : s.cache.limits = config.cacheLimits) (hput : request.opcode = .kPut)
    (hg : Grammatical request config.connectionLimits.protocolLimits) (uptimeMs : UInt64) :
    ∃ cache : LruCache, cache.Linked ∧
      s.execute request uptimeMs =
        some (cache, ⟨.kPut, .kOk, request.requestId, []⟩, some .put) ∧
      find request.key cache.contents = some (request.key, request.value) := by
  obtain ⟨hkey, hvalue⟩ := hconfig.toNat_protocolLimits
  have hk : request.key.length ≤ config.maxKeyBytes.toNat :=
    hkey ▸ hg.key_le.trans (Nat.min_le_left _ _)
  have hv : request.value.length ≤ config.maxValueBytes.toNat :=
    hvalue ▸ hg.value_le.trans (Nat.min_le_left _ _)
  have hentry := hconfig.entry_le
  have hlt := config.maxCacheBytes.toNat_lt
  have hcost : LruCache.entryCost request.key.length request.value.length =
      request.key.length + request.value.length + 128 :=
    LruCache.entryCost_eq (by simp only [Word64.size]; omega)
  have hvl : request.value.length ≤ s.cache.limits.maxValueBytes.toNat := by
    rw [hlimits]
    exact hv
  have hbytes : LruCache.entryCost request.key.length request.value.length ≤
      s.cache.limits.maxBytes.toNat := by
    have hmax : s.cache.limits.maxBytes = config.maxCacheBytes := by
      rw [hlimits]
      rfl
    rw [hmax, hcost]
    omega
  have hentries : s.cache.limits.maxEntries ≠ 0 := by
    rw [hlimits]
    exact hconfig.entries_ne
  obtain ⟨cache, id, kept, dropped, hstored, -, -, -, hcache⟩ :=
    LruCache.put_stored h hvl hbytes hentries
  refine ⟨cache, hcache.linked, ?_, ?_⟩
  · simp only [execute, hput, hstored]
    rfl
  · have hcontents : cache.contents = (request.key, request.value) :: kept.map Node.entry := by
      rw [LruCache.contents, hcache.entries_eq, List.map_cons]
      rfl
    rw [hcontents, find, Keyed.find, List.find?_cons_of_pos (by simp)]

/-- Under a configuration that passes `validate`, a request that the parser accepts fits the
cache: a PUT is stored and a GET that follows returns its value, and every response is read by
the client as it was built. -/
theorem limits_agree (config : ServerConfig) (hvalid : config.validate = none) {run : CacheRun}
    (h : Reach CacheRun.step Free (CacheRun.init config.cacheLimits) run) (s : Server)
    (hcache : s.cache = run.cache) {input : Bytes} {out request : Request}
    {result : ParseResult}
    (hparse : deserializeRequest input config.connectionLimits.protocolLimits out =
      (result, request))
    (hcomplete : result.status = .kComplete) (uptimeMs : UInt64) :
    config.connectionLimits.protocolLimits.maxKeyBytes.toNat = config.maxKeyBytes.toNat ∧
      config.connectionLimits.protocolLimits.maxValueBytes.toNat = config.maxValueBytes.toNat ∧
      ∃ cache response tally, s.execute request uptimeMs = some (cache, response, tally) ∧
        response.opcode = request.opcode ∧ response.requestId = request.requestId ∧
        (∀ rest, deserializeResponse (serializeResponse response ++ rest)
            CacheClient.kClientLimits {} =
          (.complete (serializeResponse response).length, response)) ∧
        (request.opcode = .kPut → response.status = .kOk ∧
          ∀ id uptimeMs', ∃ cache', execute { s with cache := cache } ⟨.kGet, id, request.key, []⟩
              uptimeMs' =
            some (cache', ⟨.kGet, .kOk, id, request.value⟩, some .hit)) := by
  have hconfig := ServerConfig.valid_of_validate hvalid
  obtain ⟨hlinked, hlimits⟩ := CacheRun.reach_linked h
  rw [← hcache] at hlinked hlimits
  obtain ⟨hkey, hvalue⟩ := hconfig.toNat_protocolLimits
  obtain ⟨-, -, hg⟩ := (deserializeRequest_complete_iff input _ out request result.consumed).mp
    (by rw [hparse]; exact ⟨hcomplete, rfl, rfl⟩)
  obtain ⟨cache, response, tally, hexec, -, -, hlen⟩ := execute_linked hlinked request uptimeMs
  obtain ⟨hop, hid⟩ := execute_header hexec
  refine ⟨hkey, hvalue, cache, response, tally, hexec, hop, hid, ?_, ?_⟩
  · intro rest
    rw [ResponseCodec.length_serializeResponse]
    apply ResponseCodec.deserializeResponse_serialize
    have hmax : s.cache.limits.maxValueBytes.toNat ≤ 67108864 := by
      rw [hlimits]
      exact hconfig.value_le
    have hle : response.value.length ≤ 67108864 :=
      hlen.trans (Nat.max_le.mpr ⟨hmax, by decide⟩)
    exact Nat.le_min.mpr ⟨hle, hle⟩
  · intro hput
    obtain ⟨cache', hlinked', hexec', hfind⟩ :=
      execute_put hconfig hlinked hlimits hput hg uptimeMs
    rw [hexec] at hexec'
    cases hexec'
    exact ⟨rfl, fun id uptimeMs' => execute_get (s := { s with cache := cache }) hlinked' hfind
      id uptimeMs'⟩

def oneEntry : ServerConfig :=
  { maxEntries := 1, maxCacheBytes := 133, maxValueBytes := 3, maxKeyBytes := 2 }

theorem limits_agree_full :
    ∃ run, Reach CacheRun.step Free (CacheRun.init oneEntry.cacheLimits) run ∧
      run.cache.contents = [([1, 1], [1, 2, 3])] ∧
      ∃ cache response tally,
        execute { start oneEntry {} with cache := run.cache } ⟨.kPut, 9, [2, 2], [4, 5, 6]⟩ 0 =
          some (cache, response, tally) ∧
        response.status = .kOk ∧
        ∃ cache', execute { start oneEntry {} with cache := cache } ⟨.kGet, 10, [2, 2], []⟩ 0 =
          some (cache', ⟨.kGet, .kOk, 10, [4, 5, 6]⟩, some .hit) := by
  obtain ⟨run, hr, hcontents⟩ := exists_reach CacheRun.step (CacheRun.init oneEntry.cacheLimits)
    [.put [1, 1] [1, 2, 3]] (fun run => run.cache.contents = [([1, 1], [1, 2, 3])])
    (by decide +kernel)
  have hparse : deserializeRequest (serializeRequest ⟨.kPut, 9, [2, 2], [4, 5, 6]⟩)
      oneEntry.connectionLimits.protocolLimits {} =
      (.complete 29, ⟨.kPut, 9, [2, 2], [4, 5, 6]⟩) := by decide +kernel
  obtain ⟨-, -, cache, response, tally, hexec, -, -, -, hput⟩ := limits_agree oneEntry
    (by decide +kernel) hr { start oneEntry {} with cache := run.cache } rfl hparse rfl 0
  obtain ⟨hstatus, hget⟩ := hput rfl
  exact ⟨run, hr, hcontents, cache, response, tally, hexec, hstatus, hget 10 0⟩

end Server

end LocalCache
