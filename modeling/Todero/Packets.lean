import Todero.CoreMachine
import Todero.WireRoundTrip

/-! What a machine says on the wire: the shapes of datagram the core emits, and
what the receiving side reads out of each. -/
namespace Todero.Core
open Todero.Wire

inductive TimerTlv where
  | proposal (id : UInt32) (p : TimerProposal)
  | ack (id : UInt32) (accepted : Bool)
  deriving DecidableEq

def TimerTlv.encode : TimerTlv → Tlv
  | .proposal id p => encodeTimerProposalTlv id p
  | .ack id accepted => encodeTimerAckTlv id accepted

/-- `acked` and `next` are the two numbers of an MSR signal. -/
inductive Packet where
  | control (t : MessageType)
  | msr (acked next : Nat) (timer : Option TimerTlv)
  | requestRange (start stop acked next : Nat)
  | data (id : Nat) (msg : Bytes) (acked next : Nat)
  | fragment (id idx total : Nat) (chunk : Bytes) (acked next : Nat)

def Packet.messageType : Packet → MessageType
  | .control t => t
  | .msr .. => .msr
  | .requestRange .. => .requestRange
  | .data .. => .data
  | .fragment .. => .fragment

def Packet.payload : Packet → Bytes
  | .control _ => []
  | .msr acked next _ => encodeMsrPayload acked next
  | .requestRange start stop _ _ => encodeRange start stop
  | .data id msg _ _ => BigEndian.write 8 id ++ msg
  | .fragment id idx total chunk _ _ => fragmentPayload id idx total chunk

def Packet.tlvs : Packet → List Tlv
  | .control _ => []
  | .msr _ _ timer => timer.toList.map TimerTlv.encode
  | .requestRange _ _ acked next => [encodeMsrSignalTlv acked next]
  | .data _ _ acked next => [encodeMsrSignalTlv acked next]
  | .fragment _ _ _ _ acked next => [encodeMsrSignalTlv acked next]

def Packet.frame (cid : UInt64) (p : Packet) : WireFrame :=
  .new p.messageType 0 cid p.payload p.tlvs

def Packet.bytes (cid : UInt64) (p : Packet) : Bytes := (p.frame cid).bytes

/-- At most `maxDataPayloadPerFrame` bytes of payload. -/
def Packet.Small (p : Packet) : Prop := p.payload.length ≤ maxDataPayloadPerFrame

@[simp] theorem encodeMsrPayload_length (acked next : Nat) :
    (encodeMsrPayload acked next).length = 16 := by
  simp [encodeMsrPayload]

@[simp] theorem encodeRange_length (start stop : Nat) : (encodeRange start stop).length = 16 := by
  simp [encodeRange]

@[simp] theorem fragmentPayload_length (id idx total : Nat) (chunk : Bytes) :
    (fragmentPayload id idx total chunk).length = 12 + chunk.length := by
  simp only [fragmentPayload, List.length_append, BigEndian.write_length]

theorem TimerTlv.encode_length (t : TimerTlv) : t.encode.value.length ≤ 28 := by
  cases t <;> simp [TimerTlv.encode, encodeTimerProposalTlv, encodeTimerAckTlv]

theorem Packet.tlvs_eq (p : Packet) :
    p.tlvs = [] ∨ ∃ tlv, p.tlvs = [tlv] ∧ tlv.value.length ≤ 28 := by
  cases p with
  | control t => exact .inl rfl
  | msr acked next timer =>
    cases timer with
    | none => exact .inl rfl
    | some t => exact .inr ⟨t.encode, rfl, t.encode_length⟩
  | requestRange | data | fragment => exact .inr ⟨_, rfl, by simp [encodeMsrSignalTlv]⟩

theorem Packet.frame_fits {p : Packet} (h : p.Small) (cid : UInt64) : (p.frame cid).Fits := by
  have hp : p.payload.length ≤ 1000 := h
  have hpay : (p.frame cid).payload.length ≤ maxPayloadLen := by
    simp only [maxPayloadLen, Packet.frame, WireFrame.new]
    omega
  have htlvs : (p.frame cid).tlvs = p.tlvs := rfl
  obtain hnil | ⟨tlv, hone, hlen⟩ := p.tlvs_eq
  · exact ⟨rfl, hpay, by simp [htlvs, hnil], by simp [htlvs, hnil], by simp [htlvs, hnil, tlvBlock]⟩
  · refine ⟨rfl, hpay, by simp [htlvs, hone, maxTlvCount], ?_, ?_⟩
    · simp only [htlvs, hone, List.mem_singleton, forall_eq, maxTlvValueLen]
      omega
    · simp only [htlvs, hone, tlvBlock_cons, tlvBlock_nil, List.length_cons, List.length_append,
        BigEndian.write_length, List.length_nil]
      omega

theorem Packet.decode_bytes {p : Packet} (h : p.Small) (cid : UInt64) :
    WireFrame.decode (p.bytes cid) = .ok (p.frame cid) := by
  have hp : (p.frame cid).payload.length ≤ 65535 := by
    have : p.payload.length ≤ 1000 := h
    simp only [Packet.frame, WireFrame.new]
    omega
  rw [Packet.bytes, WireFrame.decode_bytes (Packet.frame_fits h cid), if_pos hp]

theorem Packet.encode_frame {p : Packet} (h : p.Small) (cid : UInt64) :
    encodeFrameWithTlvs p.messageType cid p.payload p.tlvs = .ok (p.bytes cid) := by
  have henc : (p.frame cid).encode = .ok (p.bytes cid) :=
    WireFrame.encode_eq_ok.mpr ⟨Packet.frame_fits h cid, rfl⟩
  show (p.frame cid).encode.mapError CoreError.wire = _
  rw [henc]
  rfl

theorem decodeMsrPayload_encode (acked next : Nat) :
    decodeMsrPayload (encodeMsrPayload acked next) = some (acked % 2 ^ 64, next % 2 ^ 64) := by
  have h := BigEndian.take_write_append 8 next []
  rw [List.append_nil] at h
  rw [decodeMsrPayload, if_neg (by simp), encodeMsrPayload]
  simp only [BigEndian.take_write_append, h]
  norm_num

theorem decodeRange_encode (start stop : Nat) :
    decodeRange (encodeRange start stop) = some (start % 2 ^ 64, stop % 2 ^ 64) :=
  decodeMsrPayload_encode start stop

theorem decodeTimerProposalTlv_encode (id : UInt32) (p : TimerProposal) :
    decodeTimerProposalTlv (encodeTimerProposalTlv id p) = some (id, p) := by
  have hid : id.toNat < 256 ^ 4 := id.toNat_lt
  have hm : p.msrIntervalMs.toNat < 256 ^ 8 := p.msrIntervalMs.toNat_lt
  have hw : p.missWindowCount.toNat < 256 ^ 8 := p.missWindowCount.toNat_lt
  have hd : p.disconnectWindowMs.toNat < 256 ^ 8 := p.disconnectWindowMs.toNat_lt
  have hlast := BigEndian.take_write_append_of_lt hd []
  rw [List.append_nil] at hlast
  rw [decodeTimerProposalTlv, if_neg (by simp [encodeTimerProposalTlv])]
  simp only [encodeTimerProposalTlv, List.append_assoc, BigEndian.take_write_append_of_lt hid,
    BigEndian.take_write_append_of_lt hm, BigEndian.take_write_append_of_lt hw, hlast,
    UInt32.ofNat_toNat, UInt64.ofNat_toNat]

theorem decodeTimerAckTlv_encode (id : UInt32) (accepted : Bool) :
    decodeTimerAckTlv (encodeTimerAckTlv id accepted) = some (id, accepted) := by
  have hid : id.toNat < 256 ^ 4 := id.toNat_lt
  rw [decodeTimerAckTlv, if_neg (by simp [encodeTimerAckTlv])]
  cases accepted <;>
    simp [encodeTimerAckTlv, BigEndian.take_write_append_of_lt hid]

/-- The `next` number a packet carries beside its payload. -/
def Packet.piggybacked : Packet → Option Nat
  | .requestRange _ _ _ next | .data _ _ _ next | .fragment _ _ _ _ _ next => some (next % 2 ^ 64)
  | .control _ | .msr .. => none

theorem Packet.find_signal {p : Packet} (h : p.messageType ≠ .msr) :
    (findMsrSignalTlv p.tlvs).map Prod.snd = p.piggybacked := by
  cases p with
  | control t => rfl
  | msr => exact absurd rfl h
  | requestRange | data | fragment =>
    simp [Packet.tlvs, findMsrSignalTlv, encodeMsrSignalTlv, decodeMsrPayload_encode,
      Packet.piggybacked]

end Todero.Core
