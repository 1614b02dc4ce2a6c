import LocalCache.Protocol
import LocalCache.Library.Word64
import LocalCache.Library.Keyed

namespace LocalCache

open Protocol Library

structure CacheLimits where
  maxEntries : UInt64 := 100000
  maxBytes : UInt64 := 256 * 1024 * 1024
  maxValueBytes : UInt64 := 1024 * 1024
deriving DecidableEq, Repr

inductive PutStatus
  | kStored
  | kValueTooLarge
  | kEntryTooLarge
deriving DecidableEq, Repr

/-- A list node. Nodes are told apart by `id`, the role of their address. -/
structure Node where
  id : Nat
  key : Bytes
  value : Bytes
deriving DecidableEq, Repr

/-- The cache: `entries` from the most to the least recently used, `index` from keys to
nodes. -/
structure LruCache where
  limits : CacheLimits
  entries : List Node
  index : List (Bytes × Nat)
  bytes : Nat
  payloadBytes : Nat
  evictions : Nat
  nextNode : Nat
deriving DecidableEq, Repr

structure CacheSnapshot where
  entries : Nat
  bytes : Nat
  payloadBytes : Nat
  evictions : Nat
deriving DecidableEq, Repr

namespace LruCache

def kEntryOverheadBytes : Nat := 128

def entryCost (keySize valueSize : Nat) : Nat :=
  Word64.add (Word64.add keySize valueSize) kEntryOverheadBytes

def empty (limits : CacheLimits) : LruCache where
  limits := limits
  entries := []
  index := []
  bytes := 0
  payloadBytes := 0
  evictions := 0
  nextNode := 0

def node (c : LruCache) (it : Bytes × Nat) : Option Node := Keyed.find Node.id it.2 c.entries

def indexFind (c : LruCache) (key : Bytes) : Option (Bytes × Nat) :=
  Keyed.find Prod.fst key c.index

def splice (c : LruCache) (n : Node) : LruCache :=
  { c with entries := n :: Keyed.without Node.id n.id c.entries }

-- Where the source would follow a dangling or end iterator the result is `none`.
def get (c : LruCache) (key : Bytes) : Option (LruCache × Option Bytes) :=
  match c.indexFind key with
  | none => some (c, none)
  | some it => do
    let n ← c.node it
    return (c.splice n, some n.value)

def eraseLocked (c : LruCache) (it : Bytes × Nat) : Option LruCache := do
  let n ← c.node it
  let payload := Word64.add n.key.length n.value.length
  return { c with
    bytes := Word64.sub c.bytes (entryCost n.key.length n.value.length)
    payloadBytes := Word64.sub c.payloadBytes payload
    index := Keyed.without Prod.fst it.1 c.index
    entries := Keyed.without Node.id n.id c.entries }

def evictLruLocked (c : LruCache) : Option LruCache := do
  let lru ← c.entries.getLast?
  let it ← c.indexFind lru.key
  let c ← c.eraseLocked it
  return { c with evictions := Word64.add c.evictions 1 }

def overfull (c : LruCache) (incomingCost : Nat) : Bool :=
  !c.entries.isEmpty &&
    (c.limits.maxEntries.toNat < Word64.add c.index.length 1 ||
      c.limits.maxBytes.toNat < Word64.add c.bytes incomingCost)

def makeRoomFuel (incomingCost : Nat) : Nat → LruCache → Option LruCache
  | 0, c => if c.overfull incomingCost then none else some c
  | fuel + 1, c =>
    if c.overfull incomingCost then c.evictLruLocked.bind (makeRoomFuel incomingCost fuel)
    else some c

def makeRoomLocked (c : LruCache) (incomingCost : Nat) : Option LruCache :=
  makeRoomFuel incomingCost c.entries.length c

def insertFront (c : LruCache) (key value : Bytes) (cost : Nat) : LruCache :=
  { c with
    entries := ⟨c.nextNode, key, value⟩ :: c.entries
    index := if (c.indexFind key).isSome then c.index else (key, c.nextNode) :: c.index
    bytes := Word64.add c.bytes cost
    payloadBytes := Word64.add c.payloadBytes (Word64.add key.length value.length)
    nextNode := c.nextNode + 1 }

def eraseIfPresent (c : LruCache) (key : Bytes) : Option LruCache :=
  match c.indexFind key with
  | none => some c
  | some it => c.eraseLocked it

def put (c : LruCache) (key value : Bytes) : Option (LruCache × PutStatus) :=
  if c.limits.maxValueBytes.toNat < value.length then some (c, .kValueTooLarge)
  else
    let cost := entryCost key.length value.length
    if c.limits.maxBytes.toNat < cost ∨ c.limits.maxEntries = 0 then
      some (c, .kEntryTooLarge)
    else do
      let c ← c.eraseIfPresent key
      let c ← c.makeRoomLocked cost
      return (c.insertFront key value cost, .kStored)

def erase (c : LruCache) (key : Bytes) : Option (LruCache × Bool) :=
  match c.indexFind key with
  | none => some (c, false)
  | some it => do
    let c ← c.eraseLocked it
    return (c, true)

def contains (c : LruCache) (key : Bytes) : Bool := (c.indexFind key).isSome

def clear (c : LruCache) : LruCache :=
  { c with index := [], entries := [], bytes := 0, payloadBytes := 0 }

def size (c : LruCache) : Nat := c.index.length

def snapshot (c : LruCache) : CacheSnapshot :=
  ⟨c.index.length, c.bytes, c.payloadBytes, c.evictions⟩

def keysMruToLru (c : LruCache) : List Bytes := c.entries.map Node.key

end LruCache

inductive CacheOp
  | get (key : Bytes)
  | put (key value : Bytes)
  | erase (key : Bytes)
  | contains (key : Bytes)
  | clear
deriving DecidableEq, Repr

inductive CacheResult
  | value (v : Option Bytes)
  | status (s : PutStatus)
  | found (b : Bool)
  | done
deriving DecidableEq, Repr

def LruCache.run (c : LruCache) : CacheOp → Option (LruCache × CacheResult)
  | .get k => (c.get k).map (fun p => (p.1, .value p.2))
  | .put k v => (c.put k v).map (fun p => (p.1, .status p.2))
  | .erase k => (c.erase k).map (fun p => (p.1, .found p.2))
  | .contains k => some (c, .found (c.contains k))
  | .clear => some (c.clear, .done)

end LocalCache
