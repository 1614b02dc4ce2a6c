import LocalCache.Config

namespace LocalCache

open Protocol

def kSizeMax : UInt64 := 0xFFFFFFFFFFFFFFFF

def suffixMultiplier (suffix : UInt8) : Option UInt64 :=
  if suffix = 'k'.toUInt8 ∨ suffix = 'K'.toUInt8 then some 1024
  else if suffix = 'm'.toUInt8 ∨ suffix = 'M'.toUInt8 then some (1024 * 1024)
  else if suffix = 'g'.toUInt8 ∨ suffix = 'G'.toUInt8 then some (1024 * 1024 * 1024)
  else none

/-- The loop over the digits. A byte from 128 on is a negative `char` in the source and is
refused there by the other comparison. -/
def parseDigits : Bytes → UInt64 → Option UInt64
  | [], value => some value
  | c :: text, value =>
    if c < '0'.toUInt8 ∨ '9'.toUInt8 < c then none
    else
      let digit := (c - '0'.toUInt8).toUInt64
      if (kSizeMax - digit) / 10 < value then none
      else parseDigits text (value * 10 + digit)

def parseScaled (text : Bytes) (multiplier out : UInt64) : Bool × UInt64 :=
  if text.isEmpty then (false, out)
  else
    match parseDigits text 0 with
    | none => (false, out)
    | some value =>
      if 1 < multiplier ∧ kSizeMax / multiplier < value then (false, out)
      else (true, value * multiplier)

/-- Whether the text is a size, and what `*out` is afterwards. -/
def parseSize (text : Bytes) (out : UInt64) : Bool × UInt64 :=
  match text.getLast? with
  | none => (false, out)
  | some suffix =>
    match suffixMultiplier suffix with
    | some multiplier => parseScaled text.dropLast multiplier out
    | none => parseScaled text 1 out

inductive ServerOption
  | socket
  | maxEntries
  | maxCacheBytes
  | maxValueBytes
  | maxKeyBytes
  | workers
  | maxPending
  | maxConnections
  | maxConnOutputBytes
  | maxInflightPerConn
  | backlog
  | shutdownDrainMs
  deriving DecidableEq, Repr

namespace ServerOption

def name : ServerOption → String
  | .socket => "--socket"
  | .maxEntries => "--max-entries"
  | .maxCacheBytes => "--max-cache-bytes"
  | .maxValueBytes => "--max-value-bytes"
  | .maxKeyBytes => "--max-key-bytes"
  | .workers => "--workers"
  | .maxPending => "--max-pending"
  | .maxConnections => "--max-connections"
  | .maxConnOutputBytes => "--max-conn-output-bytes"
  | .maxInflightPerConn => "--max-inflight-per-conn"
  | .backlog => "--backlog"
  | .shutdownDrainMs => "--shutdown-drain-ms"

def all : List ServerOption :=
  [.socket, .maxEntries, .maxCacheBytes, .maxValueBytes, .maxKeyBytes, .workers, .maxPending,
    .maxConnections, .maxConnOutputBytes, .maxInflightPerConn, .backlog, .shutdownDrainMs]

def ofName (name : String) : Option ServerOption := all.find? (fun o => o.name = name)

def chars (value : String) : Bytes := value.toUTF8.data.toList

/-- `size_option`: `target` is the field that is written. -/
def sizeOption (value : String) (target : UInt64) : Option UInt64 :=
  match parseSize (chars value) target with
  | (true, size) => some size
  | (false, _) => none

/-- An option of type `int`, which goes through a variable of type `size_t`. -/
def boundedOption (value : String) (limit : UInt64) : Option Int :=
  match parseSize (chars value) 0 with
  | (true, size) => if size ≤ limit then some size.toNat else none
  | (false, _) => none

def set (o : ServerOption) (value : String) (config : ServerConfig) : Option ServerConfig :=
  match o with
  | .socket => some { config with socketPath := value }
  | .maxEntries =>
    (sizeOption value config.maxEntries).map fun n => { config with maxEntries := n }
  | .maxCacheBytes =>
    (sizeOption value config.maxCacheBytes).map fun n => { config with maxCacheBytes := n }
  | .maxValueBytes =>
    (sizeOption value config.maxValueBytes).map fun n => { config with maxValueBytes := n }
  | .maxKeyBytes =>
    (sizeOption value config.maxKeyBytes).map fun n => { config with maxKeyBytes := n }
  | .workers =>
    (sizeOption value config.workerThreads).map fun n => { config with workerThreads := n }
  | .maxPending =>
    (sizeOption value config.maxPendingRequests).map fun n =>
      { config with maxPendingRequests := n }
  | .maxConnections =>
    (sizeOption value config.maxConnections).map fun n => { config with maxConnections := n }
  | .maxConnOutputBytes =>
    (sizeOption value config.maxConnOutputBytes).map fun n =>
      { config with maxConnOutputBytes := n }
  | .maxInflightPerConn =>
    (sizeOption value config.maxInflightPerConn).map fun n =>
      { config with maxInflightPerConn := n }
  | .backlog => (boundedOption value 65535).map fun n => { config with acceptBacklog := n }
  | .shutdownDrainMs =>
    (boundedOption value 600000).map fun n => { config with shutdownDrainMs := n }

end ServerOption

structure ConfigParseResult where
  config : Option ServerConfig := none
  error : String := ""
  helpRequested : Bool := false
  deriving DecidableEq, Repr

namespace ConfigParseResult

def fail (message : String) : ConfigParseResult := { error := message }

def finish (config : ServerConfig) : ConfigParseResult :=
  match config.validate with
  | some error => fail error
  | none => { config := some config }

end ConfigParseResult

def splitEquals (arg : String) : Option (String × String) :=
  match arg.toList.span (fun c => c ≠ '=') with
  | (_, []) => none
  | (name, _ :: value) => some (String.ofList name, String.ofList value)

def setOption (config : ServerConfig) (name value : String) : Except String ServerConfig :=
  match ServerOption.ofName name with
  | none => .error ("unknown option " ++ name)
  | some o =>
    match o.set value config with
    | none => .error ("invalid value for " ++ name ++ ": " ++ value)
    | some config => .ok config

def parseArgs : List String → ServerConfig → ConfigParseResult
  | [], config => .finish config
  | arg :: args, config =>
    if arg = "--help" ∨ arg = "-h" then { helpRequested := true }
    else if arg = "--verbose" then parseArgs args { config with verbose := true }
    else
      match splitEquals arg with
      | some (name, value) =>
        match setOption config name value with
        | .error error => .fail error
        | .ok config => parseArgs args config
      | none =>
        match args with
        | [] => .fail ("missing value for option " ++ arg)
        | value :: args =>
          match setOption config arg value with
          | .error error => .fail error
          | .ok config => parseArgs args config

def parseServerArgs (argv : List String) : ConfigParseResult := parseArgs (argv.drop 1) {}

end LocalCache
