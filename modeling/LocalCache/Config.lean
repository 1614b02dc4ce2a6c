import LocalCache.LruCache
import LocalCache.Connection

namespace LocalCache

open Protocol

def kMaxKeyBytesHardLimit : UInt64 := 64 * 1024
def kMaxValueBytesHardLimit : UInt64 := 64 * 1024 * 1024
def kMaxWorkerThreads : UInt64 := 1024

def kSunPathSize : Nat := 108

structure ServerConfig where
  socketPath : String := "/tmp/local_cache.sock"
  maxEntries : UInt64 := 100000
  maxCacheBytes : UInt64 := 256 * 1024 * 1024
  maxValueBytes : UInt64 := 1024 * 1024
  maxKeyBytes : UInt64 := 1024
  workerThreads : UInt64 := 4
  maxPendingRequests : UInt64 := 65536
  maxConnections : UInt64 := 4096
  maxConnOutputBytes : UInt64 := 8 * 1024 * 1024
  maxInflightPerConn : UInt64 := 512
  acceptBacklog : Int := 512
  shutdownDrainMs : Int := 2000
  verbose : Bool := false
  deriving DecidableEq, Repr

namespace ServerConfig

def cacheLimits (config : ServerConfig) : CacheLimits :=
  ⟨config.maxEntries, config.maxCacheBytes, config.maxValueBytes⟩

def connectionLimits (config : ServerConfig) : ConnectionLimits where
  protocolLimits := ⟨config.maxKeyBytes.toUInt32, config.maxValueBytes.toUInt32⟩
  maxOutputBytes := config.maxConnOutputBytes
  maxInflight := config.maxInflightPerConn

/-- The first field out of range, if any, as the message to show. -/
def validate (config : ServerConfig) : Option String :=
  if config.socketPath.utf8ByteSize = 0 then some "socket path must not be empty"
  else if config.socketPath.utf8ByteSize ≥ kSunPathSize then
    some ("socket path exceeds " ++ toString (kSunPathSize - 1) ++
      " bytes (AF_UNIX sun_path limit)")
  else if config.maxEntries = 0 then some "--max-entries must be at least 1"
  else if config.maxValueBytes = 0 ∨ config.maxValueBytes > kMaxValueBytesHardLimit then
    some ("--max-value-bytes must be in [1, " ++ toString kMaxValueBytesHardLimit ++ "]")
  else if config.maxKeyBytes = 0 ∨ config.maxKeyBytes > kMaxKeyBytesHardLimit then
    some ("--max-key-bytes must be in [1, " ++ toString kMaxKeyBytesHardLimit ++ "]")
  else if config.maxCacheBytes < config.maxValueBytes + config.maxKeyBytes +
      UInt64.ofNat LruCache.kEntryOverheadBytes then
    some "--max-cache-bytes is too small to hold a single maximum-sized entry"
  else if config.workerThreads = 0 ∨ config.workerThreads > kMaxWorkerThreads then
    some ("--workers must be in [1, " ++ toString kMaxWorkerThreads ++ "]")
  else if config.maxPendingRequests = 0 then some "--max-pending must be at least 1"
  else if config.maxConnections = 0 then some "--max-connections must be at least 1"
  else if config.maxInflightPerConn = 0 then some "--max-inflight-per-conn must be at least 1"
  else if config.maxConnOutputBytes < config.maxValueBytes then
    some "--max-conn-output-bytes must be at least --max-value-bytes"
  else if config.acceptBacklog ≤ 0 then some "--backlog must be positive"
  else if config.shutdownDrainMs < 0 then some "--shutdown-drain-ms must not be negative"
  else none

end ServerConfig

end LocalCache
