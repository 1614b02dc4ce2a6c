import Mathlib.Data.List.Basic

namespace LocalCache.Protocol

abbrev Bytes := List UInt8

def kMagic : UInt32 := 0x4C435331
def kVersion : UInt8 := 1
def kHeaderSize : Nat := 24
def kMaxKeyBytes : UInt32 := 64 * 1024
def kMaxValueBytes : UInt32 := 64 * 1024 * 1024
def kMaxFrameBytes : Nat := kHeaderSize + kMaxKeyBytes.toNat + kMaxValueBytes.toNat

inductive Opcode
  | kGet | kPut | kDelete | kPing | kStats | kClear
  deriving DecidableEq, Repr

def Opcode.raw : Opcode → UInt8
  | .kGet => 1 | .kPut => 2 | .kDelete => 3 | .kPing => 4 | .kStats => 5 | .kClear => 6

inductive Status
  | kOk | kNotFound | kInvalidRequest | kValueTooLarge | kServerBusy | kInternalError
  | kUnsupportedVersion
  deriving DecidableEq, Repr

def Status.raw : Status → UInt8
  | .kOk => 0 | .kNotFound => 1 | .kInvalidRequest => 2 | .kValueTooLarge => 3
  | .kServerBusy => 4 | .kInternalError => 5 | .kUnsupportedVersion => 6

def isValidOpcode (raw : UInt8) : Bool :=
  raw = 1 || raw = 2 || raw = 3 || raw = 4 || raw = 5 || raw = 6

def isValidStatus (raw : UInt8) : Bool :=
  raw = 0 || raw = 1 || raw = 2 || raw = 3 || raw = 4 || raw = 5 || raw = 6

/-- The cast of a raw byte to the enumeration. Every use in the source is
guarded by the validity test, so the last branch is never the answer. -/
def Opcode.ofRaw (raw : UInt8) : Opcode :=
  if raw = 1 then .kGet else if raw = 2 then .kPut else if raw = 3 then .kDelete
  else if raw = 4 then .kPing else if raw = 5 then .kStats else .kClear

def Status.ofRaw (raw : UInt8) : Status :=
  if raw = 0 then .kOk else if raw = 1 then .kNotFound else if raw = 2 then .kInvalidRequest
  else if raw = 3 then .kValueTooLarge else if raw = 4 then .kServerBusy
  else if raw = 5 then .kInternalError else .kUnsupportedVersion

def Opcode.toString : Opcode → String
  | .kGet => "GET" | .kPut => "PUT" | .kDelete => "DELETE" | .kPing => "PING"
  | .kStats => "STATS" | .kClear => "CLEAR"

theorem isValidOpcode_raw (o : Opcode) : isValidOpcode o.raw = true := by
  cases o <;> rfl

theorem opcode_ofRaw_raw (o : Opcode) : Opcode.ofRaw o.raw = o := by
  cases o <;> rfl

theorem opcode_raw_ofRaw {raw : UInt8} (h : isValidOpcode raw = true) :
    (Opcode.ofRaw raw).raw = raw := by
  simp only [isValidOpcode, Bool.or_eq_true, decide_eq_true_eq] at h
  obtain ((((h | h) | h) | h) | h) | h := h <;> subst h <;> rfl

theorem isValidStatus_raw (s : Status) : isValidStatus s.raw = true := by
  cases s <;> rfl

theorem status_ofRaw_raw (s : Status) : Status.ofRaw s.raw = s := by
  cases s <;> rfl

theorem status_raw_ofRaw {raw : UInt8} (h : isValidStatus raw = true) :
    (Status.ofRaw raw).raw = raw := by
  simp only [isValidStatus, Bool.or_eq_true, decide_eq_true_eq] at h
  obtain (((((h | h) | h) | h) | h) | h) | h := h <;> subst h <;> rfl

structure Header where
  version : UInt8 := kVersion
  opcode : UInt8 := 0
  flags : UInt8 := 0
  status : UInt8 := 0
  requestId : UInt64 := 0
  keyLen : UInt32 := 0
  valueLen : UInt32 := 0
  deriving DecidableEq, Repr

structure Request where
  opcode : Opcode := .kPing
  requestId : UInt64 := 0
  key : Bytes := []
  value : Bytes := []
  deriving DecidableEq, Repr

structure Response where
  opcode : Opcode := .kPing
  status : Status := .kOk
  requestId : UInt64 := 0
  value : Bytes := []
  deriving DecidableEq, Repr

inductive ParseStatus
  | kComplete | kNeedMoreData | kMalformed
  deriving DecidableEq, Repr

inductive ParseError
  | kNone | kBadMagic | kUnsupportedVersion | kInvalidOpcode | kInvalidStatus | kReservedFlags
  | kKeyTooLarge | kValueTooLarge | kPayloadNotAllowed | kMissingKey
  deriving DecidableEq, Repr

def ParseError.toString : ParseError → String
  | .kNone => "none"
  | .kBadMagic => "bad magic"
  | .kUnsupportedVersion => "unsupported version"
  | .kInvalidOpcode => "invalid opcode"
  | .kInvalidStatus => "invalid status"
  | .kReservedFlags => "reserved flags set"
  | .kKeyTooLarge => "key too large"
  | .kValueTooLarge => "value too large"
  | .kPayloadNotAllowed => "payload not allowed for opcode"
  | .kMissingKey => "missing key"

structure ParseResult where
  status : ParseStatus := .kNeedMoreData
  error : ParseError := .kNone
  consumed : Nat := 0
  deriving DecidableEq, Repr

def ParseResult.complete (consumed : Nat) : ParseResult := ⟨.kComplete, .kNone, consumed⟩
def ParseResult.needMore : ParseResult := {}
def ParseResult.malformed (error : ParseError) : ParseResult := ⟨.kMalformed, error, 0⟩

structure Limits where
  maxKeyBytes : UInt32 := kMaxKeyBytes
  maxValueBytes : UInt32 := kMaxValueBytes
  deriving DecidableEq, Repr

def opcodeRequiresKey : Opcode → Bool
  | .kGet | .kPut | .kDelete => true
  | .kPing | .kStats | .kClear => false

def opcodeAllowsValue (opcode : Opcode) : Bool := opcode = .kPut

end LocalCache.Protocol
