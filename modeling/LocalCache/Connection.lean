import LocalCache.Library.Word64
import LocalCache.Serializer

namespace LocalCache

open Protocol Serializer Library

def kReadChunkBytes : Nat := 64 * 1024
def kCompactThresholdBytes : Nat := 32 * 1024

/-- Growing a `std::vector` past this length throws, which ends the process. -/
def kVectorMaxSize : Nat := 2 ^ 63 - 1

structure ConnectionLimits where
  protocolLimits : Limits := {}
  maxOutputBytes : UInt64 := 8 * 1024 * 1024
  maxInflight : UInt64 := 512
  deriving DecidableEq, Repr

inductive IoResult
  | kOk | kWouldBlock | kClosed | kError
  deriving DecidableEq, Repr

/-- An epoll event mask, one flag for each bit the server uses. -/
structure Events where
  epollin : Bool := false
  epollout : Bool := false
  epollrdhup : Bool := false
  epollerr : Bool := false
  epollhup : Bool := false
  deriving DecidableEq, Repr

/-- What `recv` may report: some bytes, the end of the stream, or an error code. -/
inductive Recv
  | data (bytes : Bytes)
  | eof
  | eintr
  | eagain
  | error
  deriving DecidableEq, Repr

def Recv.valid : Recv → Bool
  | .data bytes => 0 < bytes.length && bytes.length ≤ kReadChunkBytes
  | _ => true

/-- What `send` may report: how many bytes it took, or an error code. -/
inductive Send
  | sent (n : Nat)
  | eintr
  | eagain
  | error
  deriving DecidableEq, Repr

structure Connection where
  fd : Nat
  limits : ConnectionLimits
  inBuf : Bytes := []
  inPos : Nat := 0
  writeBuf : Bytes := []
  writePos : Nat := 0
  registeredEvents : Events := {}
  closeAfterFlush : Bool := false
  staged : Bytes := []
  inflight : Nat := 0
  closed : Bool := false
  notifyPending : Bool := false
  pendingOutputBytes : Nat := 0
  deriving Repr

namespace Connection

def readSome (r : Recv) (c : Connection) : IoResult × Connection :=
  match r with
  | .data bytes => (.kOk, { c with inBuf := c.inBuf ++ bytes })
  | .eof => (.kClosed, c)
  | .eintr => (.kOk, c)
  | .eagain => (.kWouldBlock, c)
  | .error => (.kError, c)

def compactInput (c : Connection) : Connection :=
  if c.inPos = 0 then c else { c with inBuf := c.inBuf.drop c.inPos, inPos := 0 }

def unconsumed (c : Connection) : Bytes := c.inBuf.drop c.inPos

def nextRequest (out : Request) (c : Connection) : ParseResult × Request × Connection :=
  let view := c.inBuf.drop c.inPos
  let (result, out) := deserializeRequest view c.limits.protocolLimits out
  match result.status with
  | .kComplete =>
    let c := { c with inPos := c.inPos + result.consumed }
    (result, out, if c.inPos ≥ kCompactThresholdBytes then compactInput c else c)
  | .kNeedMoreData => (result, out, compactInput c)
  | .kMalformed => (result, out, c)

def peekRequestHeader (c : Connection) : Option (UInt64 × Opcode) :=
  let head := c.inBuf.drop c.inPos
  if c.inBuf.length - c.inPos < kHeaderSize then none
  else if readU32 head ≠ kMagic then none
  else if !isValidOpcode (readU8 (head.drop 5)) then none
  else some (readU64 (head.drop 8), Opcode.ofRaw (readU8 (head.drop 5)))

def noteRequestSubmitted (c : Connection) : Connection :=
  { c with inflight := Word64.add c.inflight 1 }

def completeRequest (c : Connection) : Connection :=
  { c with inflight := Word64.sub c.inflight 1 }

def inflightLimitReached (c : Connection) : Bool := c.inflight ≥ c.limits.maxInflight.toNat

/-- The part of `enqueue_response` that runs under the output mutex. The flag
says whether the backlog is over the hard cap. -/
def stage (frame : Bytes) (c : Connection) : Option (Bool × Connection) :=
  if c.staged.length + frame.length > kVectorMaxSize then none
  else
    let pending := Word64.add c.pendingOutputBytes frame.length
    some (decide (pending > Word64.mul c.limits.maxOutputBytes.toNat 2),
      { c with staged := c.staged ++ frame, pendingOutputBytes := pending })

def enqueueResponse (frame : Bytes) (completesRequest : Bool) (c : Connection) :
    Option (Bool × Connection) :=
  if c.closed then some (false, if completesRequest then completeRequest c else c)
  else (stage frame c).map (fun p =>
    (!p.1, if completesRequest then completeRequest p.2 else p.2))

def hasPendingOutput (c : Connection) : Bool := c.pendingOutputBytes > 0

def readPaused (c : Connection) : Bool :=
  c.pendingOutputBytes > c.limits.maxOutputBytes.toNat || inflightLimitReached c

/-- One pass over the top of the loop in `flush_output`: the flag is false when
there is nothing left to write. -/
def refill (c : Connection) : Bool × Connection :=
  if c.writePos ≥ c.writeBuf.length then
    if c.staged = [] then (false, { c with writeBuf := [], writePos := 0 })
    else (true, { c with writeBuf := c.staged, writePos := 0, staged := [] })
  else (true, c)

def remaining (c : Connection) : Nat := c.writeBuf.length - c.writePos

def advance (n : Nat) (c : Connection) : Connection :=
  { c with
    writePos := c.writePos + n
    pendingOutputBytes := Word64.sub c.pendingOutputBytes n }

def unsent (c : Connection) : Bytes := c.writeBuf.drop c.writePos ++ c.staged

end Connection

end LocalCache
