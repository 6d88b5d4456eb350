import Todero.Wire

/-! Data model of v3-core: the machine, what a call puts out, and the payload and
TLV codecs of the control messages.

Times and window lengths are `UInt64`, and `+` on them wraps as in the release
build. Message ids are 64-bit on the wire and `Nat` in the machine. -/
namespace Todero.Core
open Todero.Wire

def tlvTimerProposal : UInt8 := 0x30
def tlvTimerAck : UInt8 := 0x31
def tlvMsrSignal : UInt8 := 0x32
def clientKeepaliveEveryServerMsr : Nat := 4
def serverMaxConsecutiveServerMsrWithoutClientMsr : Nat := 8
def maxDataPayloadPerFrame : Nat := 1000
/-- msg_id(8) + frag_idx(2) + frag_total(2) -/
def fragmentHeaderLen : Nat := 12

def u32Max : Nat := 2 ^ 32 - 1
def u64Max : Nat := 2 ^ 64 - 1

/-- `u32::saturating_add`. -/
def saturatingAdd32 (a b : Nat) : Nat := min (a + b) u32Max

def saturatingAdd (a b : UInt64) : UInt64 := UInt64.ofNat (min (a.toNat + b.toNat) u64Max)
def saturatingMul (a b : UInt64) : UInt64 := UInt64.ofNat (min (a.toNat * b.toNat) u64Max)
def saturatingSub (a b : UInt64) : UInt64 := UInt64.ofNat (a.toNat - b.toNat)

theorem saturatingAdd_toNat (a b : UInt64) :
    (saturatingAdd a b).toNat = min (a.toNat + b.toNat) u64Max := by
  have hlt : min (a.toNat + b.toNat) u64Max < 2 ^ 64 :=
    (Nat.min_le_right _ _).trans_lt (by decide)
  rw [saturatingAdd, UInt64.toNat_ofNat', Nat.mod_eq_of_lt hlt]

theorem saturatingMul_toNat (a b : UInt64) :
    (saturatingMul a b).toNat = min (a.toNat * b.toNat) u64Max := by
  have hlt : min (a.toNat * b.toNat) u64Max < 2 ^ 64 :=
    (Nat.min_le_right _ _).trans_lt (by decide)
  rw [saturatingMul, UInt64.toNat_ofNat', Nat.mod_eq_of_lt hlt]

theorem saturatingSub_toNat (a b : UInt64) : (saturatingSub a b).toNat = a.toNat - b.toNat := by
  have hlt : a.toNat - b.toNat < 2 ^ 64 := (Nat.sub_le _ _).trans_lt a.toNat_lt
  rw [saturatingSub, UInt64.toNat_ofNat', Nat.mod_eq_of_lt hlt]

theorem toNat_max (a b : UInt64) : (max a b).toNat = max a.toNat b.toNat := by
  rw [UInt64.max_def, Nat.max_def]
  simp only [UInt64.le_iff_toNat_le]
  split_ifs <;> rfl

theorem toNat_min (a b : UInt64) : (min a b).toNat = min a.toNat b.toNat := by
  rw [UInt64.min_def, Nat.min_def]
  simp only [UInt64.le_iff_toNat_le]
  split_ifs <;> rfl

inductive Role where
  | client | server
  deriving DecidableEq, Repr

inductive LifecycleState where
  | preHandshake | established | reactivating | lost
  deriving DecidableEq, Repr

inductive TimerId where
  | serverMsr | clientProbe | disconnect | renegotiationTimeout
  deriving DecidableEq, Repr

structure OutboundDatagram where
  pathId : UInt32
  bytes : Bytes
  deriving DecidableEq, Repr

inductive Event where
  | handshakeStarted
  | handshakeEstablished
  | reactivationProbeSent
  | reactivated
  | disconnected
  | queueAdvertised (nextPendingId : Nat)
  | requestRangeSent (start stop : Nat)
  | messageDelivered (msgId : Nat)
  | messageReceived (msgId : Nat) (payload : Bytes)
  | timerRenegotiationProposed (proposalId : UInt32)
  | timerRenegotiationCommitted (proposalId : UInt32)
  | timerRenegotiationRejected (proposalId : UInt32)
  | timerRenegotiationRolledBack (proposalId : UInt32)
  | parseError
  deriving DecidableEq, Repr

inductive TimerAction where
  | schedule (id : TimerId) (deadlineMs : UInt64)
  deriving DecidableEq, Repr

structure CoreOutput where
  outboundDatagrams : List OutboundDatagram := []
  events : List Event := []
  timerActions : List TimerAction := []
  deriving DecidableEq, Repr

structure CoreConfig where
  msrIntervalMs : UInt64
  missWindowCount : UInt64
  disconnectWindowMs : UInt64
  deriving DecidableEq, Repr

structure TimerProposal where
  msrIntervalMs : UInt64
  missWindowCount : UInt64
  disconnectWindowMs : UInt64
  deriving DecidableEq, Repr

def TimerProposal.toConfig (p : TimerProposal) : CoreConfig :=
  ⟨p.msrIntervalMs, p.missWindowCount, p.disconnectWindowMs⟩

/-- `CoreConfig::default`. -/
def CoreConfig.default : CoreConfig := ⟨15000, 3, 180000⟩

inductive CoreError where
  | wire (e : WireError)
  | cidMismatch (expected got : UInt64)
  | malformedMsr
  | malformedRequestRange
  | malformedData
  | invalidStateForRenegotiation
  | invalidTimerProposal (reason : String)
  | malformedTimerProposal
  | malformedTimerAck
  deriving DecidableEq, Repr

structure PendingRenegotiation where
  proposalId : UInt32
  proposal : TimerProposal
  expiresAtMs : UInt64
  deriving DecidableEq, Repr

structure FragmentAccumulator where
  total : Nat := 0
  chunks : Std.TreeMap Nat Bytes := ∅

inductive MsrSource where
  | controlMsrFrame | piggybackTlv
  deriving DecidableEq, Repr

structure CoreMachine where
  role : Role
  cid : UInt64
  state : LifecycleState
  cfg : CoreConfig
  currentPathId : UInt32
  nextOutboundId : Nat
  outboundMessages : Std.TreeMap Nat Bytes
  receivedIds : Std.TreeSet Nat
  receivedBuffer : Std.TreeMap Nat Bytes
  receivedFragments : Std.TreeMap Nat FragmentAccumulator
  lastOrderedRx : Nat
  lastRequestedEnd : Nat
  lastServerMsrAtMs : Option UInt64
  disconnectDeadlineMs : Option UInt64
  clientServerMsrRxSinceLastKeepalive : Nat
  serverConsecutiveMsrWithoutClientMsr : Nat
  nextProposalId : UInt32
  pendingLocalProposal : Option PendingRenegotiation

def CoreMachine.new (role : Role) (cid : UInt64) (cfg : CoreConfig) : CoreMachine where
  role := role
  cid := cid
  state := .preHandshake
  cfg := cfg
  currentPathId := 0
  nextOutboundId := 1
  outboundMessages := ∅
  receivedIds := ∅
  receivedBuffer := ∅
  receivedFragments := ∅
  lastOrderedRx := 0
  lastRequestedEnd := 0
  lastServerMsrAtMs := none
  disconnectDeadlineMs := none
  clientServerMsrRxSinceLastKeepalive := 0
  serverConsecutiveMsrWithoutClientMsr := 0
  nextProposalId := 1
  pendingLocalProposal := none

/-- `outbound_messages.keys().next_back()`, 0 when nothing was enqueued. -/
def CoreMachine.maxPendingId (m : CoreMachine) : Nat :=
  m.outboundMessages.keys.getLast?.getD 0

def encodeFrameWithTlvs (messageType : MessageType) (cid : UInt64) (payload : Bytes)
    (tlvs : List Tlv) : Except CoreError Bytes :=
  (WireFrame.new messageType 0 cid payload tlvs).encode.mapError .wire

def encodeFrame (messageType : MessageType) (cid : UInt64) (payload : Bytes) :
    Except CoreError Bytes :=
  encodeFrameWithTlvs messageType cid payload []

def encodeMsrPayload (acked nextPending : Nat) : Bytes :=
  BigEndian.write 8 acked ++ BigEndian.write 8 nextPending

def decodeMsrPayload (payload : Bytes) : Option (Nat × Nat) :=
  if payload.length < 16 then none
  else
    let (acked, rest) := BigEndian.take 8 payload
    some (acked, (BigEndian.take 8 rest).1)

def encodeMsrSignalTlv (acked nextPending : Nat) : Tlv :=
  ⟨tlvMsrSignal, encodeMsrPayload acked nextPending⟩

def findMsrSignalTlv (tlvs : List Tlv) : Option (Nat × Nat) :=
  (tlvs.find? fun tlv => tlv.kind = tlvMsrSignal).bind fun tlv => decodeMsrPayload tlv.value

def encodeRange (start stop : Nat) : Bytes :=
  BigEndian.write 8 start ++ BigEndian.write 8 stop

def decodeRange (payload : Bytes) : Option (Nat × Nat) :=
  if payload.length < 16 then none
  else
    let (start, rest) := BigEndian.take 8 payload
    some (start, (BigEndian.take 8 rest).1)

def encodeTimerProposalTlv (proposalId : UInt32) (p : TimerProposal) : Tlv :=
  ⟨tlvTimerProposal, BigEndian.write 4 proposalId.toNat
    ++ BigEndian.write 8 p.msrIntervalMs.toNat
    ++ BigEndian.write 8 p.missWindowCount.toNat
    ++ BigEndian.write 8 p.disconnectWindowMs.toNat⟩

def decodeTimerProposalTlv (tlv : Tlv) : Option (UInt32 × TimerProposal) :=
  if tlv.kind ≠ tlvTimerProposal ∨ tlv.value.length ≠ 28 then none
  else
    let (id, rest) := BigEndian.take 4 tlv.value
    let (msr, rest) := BigEndian.take 8 rest
    let (miss, rest) := BigEndian.take 8 rest
    let (disc, _) := BigEndian.take 8 rest
    some (UInt32.ofNat id, ⟨UInt64.ofNat msr, UInt64.ofNat miss, UInt64.ofNat disc⟩)

def encodeTimerAckTlv (proposalId : UInt32) (accepted : Bool) : Tlv :=
  ⟨tlvTimerAck, BigEndian.write 4 proposalId.toNat ++ [if accepted then 1 else 0]⟩

def decodeTimerAckTlv (tlv : Tlv) : Option (UInt32 × Bool) :=
  if tlv.kind ≠ tlvTimerAck ∨ tlv.value.length ≠ 5 then none
  else
    let (id, rest) := BigEndian.take 4 tlv.value
    match rest with
    | 0 :: _ => some (UInt32.ofNat id, false)
    | 1 :: _ => some (UInt32.ofNat id, true)
    | _ => none

def minMsrIntervalMs : UInt64 := 1000
def maxMsrIntervalMs : UInt64 := 120000
def minMissWindowCount : UInt64 := 1
def maxMissWindowStep : UInt64 := 2
def minDisconnectWindowMs : UInt64 := 5000
def maxDisconnectWindowMs : UInt64 := 900000

def validateTimerProposal (current : CoreConfig) (p : TimerProposal) : Except CoreError Unit := do
  if ¬ (minMsrIntervalMs ≤ p.msrIntervalMs ∧ p.msrIntervalMs ≤ maxMsrIntervalMs) then
    throw (.invalidTimerProposal "msr_interval_ms out of bounds")
  if ¬ (minMissWindowCount ≤ p.missWindowCount ∧ p.missWindowCount ≤ 64) then
    throw (.invalidTimerProposal "miss_window_count out of bounds")
  if p.missWindowCount > saturatingAdd current.missWindowCount maxMissWindowStep then
    throw (.invalidTimerProposal "miss_window_count step too large")
  if ¬ (minDisconnectWindowMs ≤ p.disconnectWindowMs ∧
      p.disconnectWindowMs ≤ maxDisconnectWindowMs) then
    throw (.invalidTimerProposal "disconnect_window_ms out of bounds")
  if p.disconnectWindowMs < saturatingMul p.msrIntervalMs p.missWindowCount then
    throw (.invalidTimerProposal "disconnect_window_ms smaller than probe window")

end Todero.Core
