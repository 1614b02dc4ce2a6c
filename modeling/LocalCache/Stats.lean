import LocalCache.LruCache
import LocalCache.Serializer

namespace LocalCache

open Protocol Serializer

structure StatsSnapshot where
  cacheHits : UInt64 := 0
  cacheMisses : UInt64 := 0
  puts : UInt64 := 0
  deletes : UInt64 := 0
  evictions : UInt64 := 0
  currentEntries : UInt64 := 0
  currentCacheBytes : UInt64 := 0
  currentPayloadBytes : UInt64 := 0
  activeConnections : UInt64 := 0
  totalConnections : UInt64 := 0
  requestsProcessed : UInt64 := 0
  protocolErrors : UInt64 := 0
  rejectedRequests : UInt64 := 0
  uptimeMs : UInt64 := 0
  deriving DecidableEq, Repr

structure ServerStats where
  hits : UInt64 := 0
  misses : UInt64 := 0
  puts : UInt64 := 0
  deletes : UInt64 := 0
  requests : UInt64 := 0
  protocolErrors : UInt64 := 0
  rejected : UInt64 := 0
  activeConnections : UInt64 := 0
  totalConnections : UInt64 := 0
  deriving DecidableEq, Repr

inductive Tally
  | hit | miss | put | delete
  deriving DecidableEq, Repr

namespace ServerStats

def record (s : ServerStats) : Option Tally → ServerStats
  | none => s
  | some .hit => { s with hits := s.hits + 1 }
  | some .miss => { s with misses := s.misses + 1 }
  | some .put => { s with puts := s.puts + 1 }
  | some .delete => { s with deletes := s.deletes + 1 }

def recordRequest (s : ServerStats) : ServerStats := { s with requests := s.requests + 1 }

def recordProtocolError (s : ServerStats) : ServerStats :=
  { s with protocolErrors := s.protocolErrors + 1 }

def recordRejected (s : ServerStats) : ServerStats := { s with rejected := s.rejected + 1 }

def connectionOpened (s : ServerStats) : ServerStats :=
  { s with
    activeConnections := s.activeConnections + 1
    totalConnections := s.totalConnections + 1 }

def connectionClosed (s : ServerStats) : ServerStats :=
  { s with activeConnections := s.activeConnections - 1 }

theorem foldl_connectionClosed {α β : Type} {f : ServerStats → β}
    (hf : ∀ s : ServerStats, f s.connectionClosed = f s) (l : List α) (s : ServerStats) :
    f (l.foldl (fun s _ => s.connectionClosed) s) = f s := by
  induction l generalizing s with
  | nil => rfl
  | cons a l ih => rw [List.foldl_cons, ih, hf]

/-- The counters, with the cache's own accounting copied in. -/
def snapshot (s : ServerStats) (cache : CacheSnapshot) (uptimeMs : UInt64) : StatsSnapshot where
  cacheHits := s.hits
  cacheMisses := s.misses
  puts := s.puts
  deletes := s.deletes
  evictions := UInt64.ofNat cache.evictions
  currentEntries := UInt64.ofNat cache.entries
  currentCacheBytes := UInt64.ofNat cache.bytes
  currentPayloadBytes := UInt64.ofNat cache.payloadBytes
  activeConnections := s.activeConnections
  totalConnections := s.totalConnections
  requestsProcessed := s.requests
  protocolErrors := s.protocolErrors
  rejectedRequests := s.rejected
  uptimeMs := uptimeMs

end ServerStats

def StatsSnapshot.fields (s : StatsSnapshot) : List UInt64 :=
  [s.cacheHits, s.cacheMisses, s.puts, s.deletes, s.evictions, s.currentEntries,
    s.currentCacheBytes, s.currentPayloadBytes, s.activeConnections, s.totalConnections,
    s.requestsProcessed, s.protocolErrors, s.rejectedRequests, s.uptimeMs]

def StatsSnapshot.setField (s : StatsSnapshot) (i : Nat) (value : UInt64) : StatsSnapshot :=
  match i with
  | 0 => { s with cacheHits := value }
  | 1 => { s with cacheMisses := value }
  | 2 => { s with puts := value }
  | 3 => { s with deletes := value }
  | 4 => { s with evictions := value }
  | 5 => { s with currentEntries := value }
  | 6 => { s with currentCacheBytes := value }
  | 7 => { s with currentPayloadBytes := value }
  | 8 => { s with activeConnections := value }
  | 9 => { s with totalConnections := value }
  | 10 => { s with requestsProcessed := value }
  | 11 => { s with protocolErrors := value }
  | 12 => { s with rejectedRequests := value }
  | 13 => { s with uptimeMs := value }
  | _ => s

def serializeStats (stats : StatsSnapshot) : Bytes :=
  stats.fields.foldl appendU64 (appendU16 [] (UInt16.ofNat stats.fields.length))

/-- Whether the payload is long enough, and what `out` is afterwards. -/
def deserializeStats (input : Bytes) (out : StatsSnapshot) : Bool × StatsSnapshot :=
  if input.length < 2 then (false, out)
  else
    let count := readU16 input
    if input.length < 2 + count.toNat * 8 then (false, out)
    else
      let readable := min count.toNat out.fields.length
      (true, (List.range readable).foldl
        (fun out i => out.setField i (readU64 (input.drop (2 + i * 8)))) out)

end LocalCache
