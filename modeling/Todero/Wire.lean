import Todero.Lib.BigEndian

/-! The v3 datagram: a 15-byte header, the payload and a block of TLVs. Encoder
and decoder follow v3-wire, with every limit check in the source's order. -/
namespace Todero.Wire

abbrev Bytes := List UInt8

def wireVersionV3 : UInt8 := 0x03
def headerLen : Nat := 1 + 1 + 1 + 8 + 2 + 2
def maxTlvCount : Nat := 64
def maxTlvValueLen : Nat := 2048
def maxPayloadLen : Nat := 64 * 1024

inductive WireError where
  | truncated
  | unsupportedVersion (version : UInt8)
  | unknownMessageType (value : UInt8)
  | payloadTooLarge (len : Nat)
  | tooManyTlvs (count : Nat)
  | tlvTooLarge (len : Nat)
  | tlvBlockTooLarge (len : Nat)
  | malformedTlv
  | lengthMismatch (remaining expected : Nat)
  deriving DecidableEq, Repr

inductive MessageType where
  | clientHello | serverHello | helloAck
  | msr | requestRange | data | fragment
  | error | close
  deriving DecidableEq, Repr

def MessageType.toU8 : MessageType → UInt8
  | .clientHello => 0x01
  | .serverHello => 0x02
  | .helloAck => 0x03
  | .msr => 0x10
  | .requestRange => 0x11
  | .data => 0x12
  | .fragment => 0x13
  | .error => 0x7e
  | .close => 0x7f

def MessageType.fromU8 (value : UInt8) : Except WireError MessageType :=
  match value with
  | 0x01 => .ok .clientHello
  | 0x02 => .ok .serverHello
  | 0x03 => .ok .helloAck
  | 0x10 => .ok .msr
  | 0x11 => .ok .requestRange
  | 0x12 => .ok .data
  | 0x13 => .ok .fragment
  | 0x7e => .ok .error
  | 0x7f => .ok .close
  | _ => .error (.unknownMessageType value)

theorem MessageType.fromU8_toU8 (t : MessageType) : fromU8 t.toU8 = .ok t := by
  cases t <;> rfl

structure Tlv where
  kind : UInt8
  value : Bytes
  deriving DecidableEq, Repr

structure WireFrame where
  version : UInt8
  messageType : MessageType
  flags : UInt8
  cid : UInt64
  payload : Bytes
  tlvs : List Tlv
  deriving DecidableEq, Repr

/-- `WireFrame::new`. -/
def WireFrame.new (messageType : MessageType) (flags : UInt8) (cid : UInt64)
    (payload : Bytes) (tlvs : List Tlv) : WireFrame :=
  ⟨wireVersionV3, messageType, flags, cid, payload, tlvs⟩

def validateFrame (frame : WireFrame) : Except WireError Unit := do
  if frame.version ≠ wireVersionV3 then
    throw (.unsupportedVersion frame.version)
  if frame.payload.length > maxPayloadLen then
    throw (.payloadTooLarge frame.payload.length)
  if frame.tlvs.length > maxTlvCount then
    throw (.tooManyTlvs frame.tlvs.length)

/-- The TLV loop of `encode`: kind, 16-bit length, value. -/
def encodeTlvs : List Tlv → Except WireError Bytes
  | [] => .ok []
  | tlv :: tlvs => do
    if tlv.value.length > maxTlvValueLen then
      throw (.tlvTooLarge tlv.value.length)
    let rest ← encodeTlvs tlvs
    return tlv.kind :: BigEndian.write 2 tlv.value.length ++ tlv.value ++ rest

/-- The two length fields are `as u16` casts: they keep the low 16 bits. -/
def WireFrame.encode (frame : WireFrame) : Except WireError Bytes := do
  validateFrame frame
  let tlvBlock ← encodeTlvs frame.tlvs
  if tlvBlock.length > 65535 then
    throw (.tlvBlockTooLarge tlvBlock.length)
  return [frame.version, frame.messageType.toU8, frame.flags]
    ++ BigEndian.write 8 frame.cid.toNat
    ++ BigEndian.write 2 frame.payload.length
    ++ BigEndian.write 2 tlvBlock.length
    ++ frame.payload ++ tlvBlock

/-- One pass of the `decode_tlvs` loop takes at least three bytes, so the input's
length is fuel enough; `decodeTlvs` starts it there. -/
def decodeTlvsLoop : Nat → Bytes → List Tlv → Except WireError (List Tlv)
  | 0, _, out => .ok out
  | fuel + 1, input, out => do
    if input.isEmpty then
      return out
    if input.length < 3 then
      throw .malformedTlv
    if out.length ≥ maxTlvCount then
      throw (.tooManyTlvs out.length)
    let (kind, input) := BigEndian.take 1 input
    let (len, input) := BigEndian.take 2 input
    if len > maxTlvValueLen then
      throw (.tlvTooLarge len)
    if input.length < len then
      throw .malformedTlv
    decodeTlvsLoop fuel (input.drop len) (out ++ [⟨UInt8.ofNat kind, input.take len⟩])

def decodeTlvs (input : Bytes) : Except WireError (List Tlv) :=
  decodeTlvsLoop input.length input []

def WireFrame.decode (input : Bytes) : Except WireError WireFrame := do
  if input.length < headerLen then
    throw .truncated
  let (version, buf) := BigEndian.take 1 input
  let version := UInt8.ofNat version
  if version ≠ wireVersionV3 then
    throw (.unsupportedVersion version)
  let (kind, buf) := BigEndian.take 1 buf
  let messageType ← MessageType.fromU8 (UInt8.ofNat kind)
  let (flags, buf) := BigEndian.take 1 buf
  let (cid, buf) := BigEndian.take 8 buf
  let (payloadLen, buf) := BigEndian.take 2 buf
  let (tlvLen, buf) := BigEndian.take 2 buf
  if payloadLen > maxPayloadLen then
    throw (.payloadTooLarge payloadLen)
  if buf.length ≠ payloadLen + tlvLen then
    throw (.lengthMismatch buf.length (payloadLen + tlvLen))
  let payload := buf.take payloadLen
  let buf := buf.drop payloadLen
  let tlvs ← decodeTlvs (buf.take tlvLen)
  return ⟨version, messageType, UInt8.ofNat flags, UInt64.ofNat cid, payload, tlvs⟩

end Todero.Wire
