import LocalCache.Library.BigEndian
import LocalCache.Library.Framing
import LocalCache.Library.Transition
import LocalCache.Library.Word64
import LocalCache.RequestCodec
import LocalCache.ResponseCodec
import LocalCache.Connection
import LocalCache.RequestStream
import LocalCache.ConnectionInput
import LocalCache.ConnectionOutput
import LocalCache.Library.Keyed
import LocalCache.Library.Recency
import LocalCache.LruCache
import LocalCache.CacheInvariant
import LocalCache.CacheLinks
import LocalCache.CacheRefinement
import LocalCache.CacheHistory
import LocalCache.Config
import LocalCache.Server
import LocalCache.WorkerThread
import LocalCache.EventLoop
import LocalCache.LoopSoundness
import LocalCache.WorkerSteps
import LocalCache.ServerRun
import LocalCache.ServerBuffers
import LocalCache.ConnectionFrames
import LocalCache.ServerReferences
import LocalCache.ServerTable
import LocalCache.Library.Threads
import LocalCache.ServerLedger
import LocalCache.ServerAccounting
import LocalCache.ServerOutput
import LocalCache.ServerClosed
import LocalCache.ServerRequests
import LocalCache.ServerNotify
import LocalCache.ServerWatch
import LocalCache.ServerWakeup
import LocalCache.ServerInput
import LocalCache.ServerParsing
import LocalCache.ServerMemory
import LocalCache.ServerDispatch
import LocalCache.WorkerPool
import LocalCache.WorkerPoolRun
import LocalCache.CacheClient
import LocalCache.ClientReplies
import LocalCache.ClientRequests
import LocalCache.ClientAgreement
import LocalCache.ServerLimits
import LocalCache.ServerCache
import LocalCache.ServerBacklog
import LocalCache.ServerStreams
import LocalCache.ServerMalformed
import LocalCache.ServerDrain
import LocalCache.ServerFlushed
import LocalCache.Library.Sessions
import LocalCache.ClientExchange
import LocalCache.ServerJobs
import LocalCache.ServerMap
import LocalCache.System
import LocalCache.SystemStreams
import LocalCache.SystemStages
import LocalCache.SystemIsolation
import LocalCache.Library.LengthPrefixed
import LocalCache.ParserVerdicts
import LocalCache.CacheInclusion
import LocalCache.CacheEvents
import LocalCache.CacheValues
import LocalCache.ServerHardCap
import LocalCache.ServerRegistry
import LocalCache.WorkerPoolStop
import LocalCache.ServerAfterClose
import LocalCache.ServerAudit
import LocalCache.Library.UnixSocket
import LocalCache.SocketPath
import LocalCache.SocketOwners
import LocalCache.Library.Numeral
import LocalCache.ParseSize
import LocalCache.ArgStyles
import LocalCache.StatsCodec
import LocalCache.AsyncClient
import LocalCache.AsyncClientRun
import LocalCache.AsyncClientLedger
import LocalCache.AsyncClientStreams
import LocalCache.AsyncClientWait
import LocalCache.Library.Linearization
import LocalCache.ServerLinear
import LocalCache.AsyncClientPeer
import LocalCache.Benchmark
import LocalCache.PeerValues
import LocalCache.Stress
import LocalCache.StressRun
import LocalCache.StressVerdict
import LocalCache.ClientPeer
import LocalCache.PeerProgress
import LocalCache.PeerOrder
import LocalCache.ServerPool
import LocalCache.ClientLinear
