import LocalCache.Protocol

namespace LocalCache.Serializer

open LocalCache.Protocol

def appendBytes (out data : Bytes) : Bytes := out ++ data

def appendU8 (out : Bytes) (value : UInt8) : Bytes := out ++ [value]

def appendU16 (out : Bytes) (value : UInt16) : Bytes :=
  out ++ [(value >>> 8).toUInt8] ++ [value.toUInt8]

def appendU32 (out : Bytes) (value : UInt32) : Bytes :=
  out ++ [(value >>> 24).toUInt8] ++ [(value >>> 16).toUInt8] ++ [(value >>> 8).toUInt8] ++
    [value.toUInt8]

def appendU64 (out : Bytes) (value : UInt64) : Bytes :=
  ([56, 48, 40, 32, 24, 16, 8, 0] : List UInt64).foldl
    (fun out shift => out ++ [(value >>> shift).toUInt8]) out

/-- The byte at a pointer. Reads past the end of the buffer are undefined in
the source; every caller checks the length first. -/
def byteAt (data : Bytes) (i : Nat) : UInt8 := data.getD i 0

def readU8 (data : Bytes) : UInt8 := byteAt data 0

def readU16 (data : Bytes) : UInt16 := (byteAt data 0).toUInt16 <<< 8 ||| (byteAt data 1).toUInt16

def readU32 (data : Bytes) : UInt32 :=
  (byteAt data 0).toUInt32 <<< 24 ||| (byteAt data 1).toUInt32 <<< 16 |||
    (byteAt data 2).toUInt32 <<< 8 ||| (byteAt data 3).toUInt32

def readU64 (data : Bytes) : UInt64 :=
  (List.range 8).foldl (fun value i => value <<< 8 ||| (byteAt data i).toUInt64) 0

def encodeHeader (out : Bytes) (header : Header) : Bytes :=
  let out := appendU32 out kMagic
  let out := appendU8 out header.version
  let out := appendU8 out header.opcode
  let out := appendU8 out header.flags
  let out := appendU8 out header.status
  let out := appendU64 out header.requestId
  let out := appendU32 out header.keyLen
  appendU32 out header.valueLen

/-- The checks shared by requests and responses, in the order of the source.
The header is only used by the caller when no error is reported. -/
def decodeCommonHeader (data : Bytes) : Except ParseError Header :=
  if readU32 data ≠ kMagic then .error .kBadMagic
  else if readU8 (data.drop 4) ≠ kVersion then .error .kUnsupportedVersion
  else if !isValidOpcode (readU8 (data.drop 5)) then .error .kInvalidOpcode
  else if readU8 (data.drop 6) ≠ 0 then .error .kReservedFlags
  else .ok {
    version := readU8 (data.drop 4)
    opcode := readU8 (data.drop 5)
    flags := readU8 (data.drop 6)
    status := readU8 (data.drop 7)
    requestId := readU64 (data.drop 8)
    keyLen := readU32 (data.drop 16)
    valueLen := readU32 (data.drop 20) }

def effectiveLimit (configured ceiling : UInt32) : UInt32 :=
  if ceiling < configured then ceiling else configured

def serializeRequestInto (request : Request) (out : Bytes) : Bytes :=
  let header : Header := {
    opcode := request.opcode.raw
    requestId := request.requestId
    keyLen := UInt32.ofNat request.key.length
    valueLen := UInt32.ofNat request.value.length }
  appendBytes (appendBytes (encodeHeader out header) request.key) request.value

def serializeRequest (request : Request) : Bytes := serializeRequestInto request []

def serializeResponseInto (response : Response) (out : Bytes) : Bytes :=
  let header : Header := {
    opcode := response.opcode.raw
    status := response.status.raw
    requestId := response.requestId
    keyLen := 0
    valueLen := UInt32.ofNat response.value.length }
  appendBytes (encodeHeader out header) response.value

def serializeResponse (response : Response) : Bytes := serializeResponseInto response []

def deserializeRequest (input : Bytes) (limits : Limits) (out : Request) :
    ParseResult × Request :=
  if input.length < kHeaderSize then (.needMore, out)
  else match decodeCommonHeader input with
  | .error error => (.malformed error, out)
  | .ok header =>
    if header.status ≠ 0 then (.malformed .kInvalidStatus, out)
    else
      let opcode := Opcode.ofRaw header.opcode
      if header.keyLen > effectiveLimit limits.maxKeyBytes kMaxKeyBytes then
        (.malformed .kKeyTooLarge, out)
      else if header.valueLen > effectiveLimit limits.maxValueBytes kMaxValueBytes then
        (.malformed .kValueTooLarge, out)
      else if opcodeRequiresKey opcode && header.keyLen = 0 then (.malformed .kMissingKey, out)
      else if !opcodeRequiresKey opcode && header.keyLen ≠ 0 then
        (.malformed .kPayloadNotAllowed, out)
      else if !opcodeAllowsValue opcode && header.valueLen ≠ 0 then
        (.malformed .kPayloadNotAllowed, out)
      else
        let frameSize := kHeaderSize + header.keyLen.toNat + header.valueLen.toNat
        if frameSize > kMaxFrameBytes then (.malformed .kValueTooLarge, out)
        else if input.length < frameSize then (.needMore, out)
        else
          let payload := input.drop kHeaderSize
          (.complete frameSize, {
            opcode := opcode
            requestId := header.requestId
            key := payload.take header.keyLen.toNat
            value := (payload.drop header.keyLen.toNat).take header.valueLen.toNat })

def deserializeResponse (input : Bytes) (limits : Limits) (out : Response) :
    ParseResult × Response :=
  if input.length < kHeaderSize then (.needMore, out)
  else match decodeCommonHeader input with
  | .error error => (.malformed error, out)
  | .ok header =>
    if !isValidStatus header.status then (.malformed .kInvalidStatus, out)
    else if header.keyLen ≠ 0 then (.malformed .kPayloadNotAllowed, out)
    else if header.valueLen > effectiveLimit limits.maxValueBytes kMaxValueBytes then
      (.malformed .kValueTooLarge, out)
    else
      let frameSize := kHeaderSize + header.valueLen.toNat
      if input.length < frameSize then (.needMore, out)
      else (.complete frameSize, {
        opcode := Opcode.ofRaw header.opcode
        status := Status.ofRaw header.status
        requestId := header.requestId
        value := (input.drop kHeaderSize).take header.valueLen.toNat })

end LocalCache.Serializer
