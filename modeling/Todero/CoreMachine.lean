import Todero.CoreTypes

/-! The operations of the v3-core state machine.

A call runs over `Ctx`: the machine (`&mut self`) and the output collected so
far. An error ends the call and drops that output; what was already done to the
machine stays. -/
namespace Todero.Core
open Todero.Wire

structure Ctx where
  self : CoreMachine
  out : CoreOutput

abbrev CoreM := EStateM CoreError Ctx

def getSelf : CoreM CoreMachine := do return (← get).self
def modifySelf (f : CoreMachine → CoreMachine) : CoreM Unit :=
  modify fun c => { c with self := f c.self }

def pushEvent (e : Event) : CoreM Unit :=
  modify fun c => { c with out := { c.out with events := c.out.events ++ [e] } }

def pushSchedule (id : TimerId) (deadlineMs : UInt64) : CoreM Unit :=
  modify fun c => { c with out :=
    { c.out with timerActions := c.out.timerActions ++ [.schedule id deadlineMs] } }

/-- Encode a frame of the machine's cid and push it; `?` on the encoder. -/
def pushFrame (pathId : UInt32) (messageType : MessageType) (payload : Bytes)
    (tlvs : List Tlv) : CoreM Unit := do
  match encodeFrameWithTlvs messageType (← getSelf).cid payload tlvs with
  | .error e => throw e
  | .ok bytes => modify fun c => { c with out :=
      { c.out with outboundDatagrams := c.out.outboundDatagrams ++ [⟨pathId, bytes⟩] } }

abbrev CallResult := Except CoreError CoreOutput

def CoreMachine.call (m : CoreMachine) (body : CoreM Unit) : CoreMachine × CallResult :=
  match body ⟨m, {}⟩ with
  | .ok _ c => (c.self, .ok c.out)
  | .error e c => (c.self, .error e)

def beginHandshake (m : CoreMachine) (_nowMs : UInt64) : CoreMachine × CallResult := m.call do
  if m.role = .client then
    pushFrame m.currentPathId .clientHello [] []
    pushEvent .handshakeStarted

def touchDisconnectDeadline (nowMs : UInt64) : CoreM Unit :=
  modifySelf fun m => { m with disconnectDeadlineMs := some (nowMs + m.cfg.disconnectWindowMs) }

def scheduleServerTimers (nowMs : UInt64) : CoreM Unit := do
  touchDisconnectDeadline nowMs
  let m ← getSelf
  pushSchedule .serverMsr (nowMs + m.cfg.msrIntervalMs)
  pushSchedule .disconnect (nowMs + m.cfg.disconnectWindowMs)

def scheduleClientTimers (nowMs : UInt64) : CoreM Unit := do
  modifySelf fun m =>
    { m with lastServerMsrAtMs := some nowMs, clientServerMsrRxSinceLastKeepalive := 0 }
  touchDisconnectDeadline nowMs
  let m ← getSelf
  pushSchedule .clientProbe (nowMs + m.cfg.msrIntervalMs)
  pushSchedule .disconnect (nowMs + m.cfg.disconnectWindowMs)

def onValidPeerDatagram (nowMs : UInt64) : CoreM Unit :=
  modifySelf fun m =>
    if m.state ≠ .established then m
    else match m.role with
      | .client => { m with lastServerMsrAtMs := some nowMs }
      | .server => { m with serverConsecutiveMsrWithoutClientMsr := 0 }

/-- The client's part of `handle_msr_signal`: a keepalive for every fourth control
MSR, whatever the lifecycle state, and the way out of `Reactivating`. -/
def noteServerMsr (nowMs : UInt64) (srcPathId : UInt32) (source : MsrSource) : CoreM Unit := do
  modifySelf fun m => { m with lastServerMsrAtMs := some nowMs }
  if source = .controlMsrFrame then
    modifySelf fun m =>
      { m with clientServerMsrRxSinceLastKeepalive :=
          saturatingAdd32 m.clientServerMsrRxSinceLastKeepalive 1 }
    if (← getSelf).clientServerMsrRxSinceLastKeepalive ≥ clientKeepaliveEveryServerMsr then
      modifySelf fun m => { m with clientServerMsrRxSinceLastKeepalive := 0 }
      let m ← getSelf
      pushFrame srcPathId .msr (encodeMsrPayload m.lastOrderedRx m.maxPendingId) []
  if (← getSelf).state = .reactivating then
    modifySelf fun m => { m with state := .established }
    pushEvent .reactivated

/-- The last part of `handle_msr_signal`: ask for everything advertised past the
request cursor, and move the cursor. -/
def requestPending (srcPathId : UInt32) (nextPending : Nat) : CoreM Unit := do
  let m ← getSelf
  if m.state = .established ∧ nextPending > m.lastRequestedEnd then
    let start := m.lastRequestedEnd + 1
    let stop := nextPending
    modifySelf fun m => { m with lastRequestedEnd := stop }
    pushFrame srcPathId .requestRange (encodeRange start stop)
      [encodeMsrSignalTlv m.lastOrderedRx m.maxPendingId]
    pushEvent (.requestRangeSent start stop)

def handleMsrSignal (nowMs : UInt64) (srcPathId : UInt32) (nextPending : Nat)
    (source : MsrSource) : CoreM Unit := do
  match (← getSelf).role with
  | .client => noteServerMsr nowMs srcPathId source
  | .server => modifySelf fun m => { m with serverConsecutiveMsrWithoutClientMsr := 0 }
  requestPending srcPathId nextPending

def handleTimerProposal (srcPathId : UInt32) (tlv : Tlv) : CoreM Unit := do
  match decodeTimerProposalTlv tlv with
  | none => throw .malformedTimerProposal
  | some (proposalId, proposal) =>
    let m ← getSelf
    let accepted := (validateTimerProposal m.cfg proposal).isOk
    pushFrame srcPathId .msr (encodeMsrPayload m.lastOrderedRx m.maxPendingId)
      [encodeTimerAckTlv proposalId accepted]
    if accepted then
      modifySelf fun m => { m with cfg := proposal.toConfig }
      pushEvent (.timerRenegotiationCommitted proposalId)
    else
      pushEvent (.timerRenegotiationRejected proposalId)

def handleTimerAck (tlv : Tlv) : CoreM Unit := do
  match decodeTimerAckTlv tlv with
  | none => throw .malformedTimerAck
  | some (proposalId, accepted) =>
    match (← getSelf).pendingLocalProposal with
    | none => pure ()
    | some pending =>
      if pending.proposalId = proposalId then
        if accepted then
          modifySelf fun m => { m with cfg := pending.proposal.toConfig }
          pushEvent (.timerRenegotiationCommitted proposalId)
        else
          pushEvent (.timerRenegotiationRejected proposalId)
        modifySelf fun m => { m with pendingLocalProposal := none }

/-- One pass of the loop of `handle_msr`. -/
def handleTimerTlv (srcPathId : UInt32) (tlv : Tlv) : CoreM Unit :=
  if tlv.kind = tlvTimerProposal then handleTimerProposal srcPathId tlv
  else if tlv.kind = tlvTimerAck then handleTimerAck tlv
  else pure ()

def handleTimerTlvs (srcPathId : UInt32) : List Tlv → CoreM Unit
  | [] => pure ()
  | tlv :: tlvs => do
    handleTimerTlv srcPathId tlv
    handleTimerTlvs srcPathId tlvs

def handleMsr (nowMs : UInt64) (srcPathId : UInt32) (frame : WireFrame) : CoreM Unit := do
  match decodeMsrPayload frame.payload with
  | none => throw .malformedMsr
  | some (_, nextPending) =>
    handleTimerTlvs srcPathId frame.tlvs
    handleMsrSignal nowMs srcPathId nextPending .controlMsrFrame

/-- `msg.chunks(size)`: consecutive pieces, the last one shorter when it must be. -/
def chunks (size : Nat) (msg : Bytes) : List Bytes :=
  (List.range (msg.length ⌈/⌉ size)).map fun idx => (msg.drop (idx * size)).take size

def fragmentPayload (id idx total : Nat) (chunk : Bytes) : Bytes :=
  BigEndian.write 8 id ++ BigEndian.write 2 idx ++ BigEndian.write 2 total ++ chunk

def pushFragments (srcPathId : UInt32) (id total : Nat) : List (Bytes × Nat) → CoreM Unit
  | [] => pure ()
  | (chunk, idx) :: rest => do
    if idx > 65535 then throw .malformedData
    let m ← getSelf
    pushFrame srcPathId .fragment (fragmentPayload id idx total chunk)
      [encodeMsrSignalTlv m.lastOrderedRx m.maxPendingId]
    pushFragments srcPathId id total rest

/-- One pass of the loop of `handle_request_range`. -/
def replyWith (srcPathId : UInt32) (id : Nat) : CoreM Unit := do
  let m ← getSelf
  match m.outboundMessages[id]? with
  | none => pure ()
  | some msg =>
    if 8 + msg.length ≤ maxDataPayloadPerFrame then
      pushFrame srcPathId .data (BigEndian.write 8 id ++ msg)
        [encodeMsrSignalTlv m.lastOrderedRx m.maxPendingId]
    else
      let chunkSize := maxDataPayloadPerFrame - fragmentHeaderLen
      if chunkSize = 0 then throw .malformedData
      let totalFrags := msg.length ⌈/⌉ chunkSize
      if totalFrags > 65535 then throw .malformedData
      pushFragments srcPathId id totalFrags (chunks chunkSize msg).zipIdx

def replyAll (srcPathId : UInt32) : List Nat → CoreM Unit
  | [] => pure ()
  | id :: ids => do
    replyWith srcPathId id
    replyAll srcPathId ids

def handleRequestRange (srcPathId : UInt32) (payload : Bytes) : CoreM Unit := do
  match decodeRange payload with
  | none => throw .malformedRequestRange
  | some (start, stop) => replyAll srcPathId (List.range' start (stop + 1 - start))

/-- Every pass takes one entry out of `received_buffer`, so its size is fuel enough.
`last_ordered_rx + 1` is taken in `Nat`: a machine for which it left 64 bits would
hold 2^64 received ids. -/
def flushLoop : Nat → CoreM Unit
  | 0 => pure ()
  | fuel + 1 => do
    let m ← getSelf
    match m.receivedBuffer[m.lastOrderedRx + 1]? with
    | none => pure ()
    | some orderedPayload =>
      modifySelf fun m => { m with
        receivedBuffer := m.receivedBuffer.erase (m.lastOrderedRx + 1)
        lastOrderedRx := m.lastOrderedRx + 1 }
      pushEvent (.messageDelivered (m.lastOrderedRx + 1))
      pushEvent (.messageReceived (m.lastOrderedRx + 1) orderedPayload)
      flushLoop fuel

def flushOrdered : CoreM Unit := do flushLoop (← getSelf).receivedBuffer.size

def handleData (payload : Bytes) : CoreM Unit := do
  if payload.length < 8 then throw .malformedData
  let msgId := (BigEndian.take 8 payload).1
  if (← getSelf).receivedIds.contains msgId then return
  modifySelf fun m => { m with
    receivedIds := m.receivedIds.insert msgId
    receivedBuffer := m.receivedBuffer.insert msgId (payload.drop 8)
    receivedFragments := m.receivedFragments.erase msgId }
  flushOrdered

def mergeLoop (chunks : Std.TreeMap Nat Bytes) : List Nat → Option Bytes
  | [] => some []
  | i :: is => do
    let chunk ← chunks[i]?
    let merged ← mergeLoop chunks is
    return chunk ++ merged

/-- The chunks `0..total` joined, if none is missing. -/
def mergeChunks (chunks : Std.TreeMap Nat Bytes) (total : Nat) : Option Bytes :=
  mergeLoop chunks (List.range total)

def FragmentAccumulator.add (acc : FragmentAccumulator) (fragIdx : Nat) (chunk : Bytes) :
    FragmentAccumulator :=
  { acc with chunks := acc.chunks.insertIfNew fragIdx chunk }

def handleFragment (payload : Bytes) : CoreM Unit := do
  if payload.length < fragmentHeaderLen then throw .malformedData
  let (msgId, rest) := BigEndian.take 8 payload
  if (← getSelf).receivedIds.contains msgId then return
  let (fragIdx, rest) := BigEndian.take 2 rest
  let (fragTotal, chunk) := BigEndian.take 2 rest
  if fragTotal = 0 ∨ fragIdx ≥ fragTotal then throw .malformedData
  let acc := ((← getSelf).receivedFragments[msgId]?).getD {}
  let acc := if acc.total = 0 then { acc with total := fragTotal } else acc
  -- only an entry that was there before can disagree, and it is left as it is
  if acc.total ≠ fragTotal then throw .malformedData
  let acc := acc.add fragIdx chunk
  modifySelf fun m => { m with receivedFragments := m.receivedFragments.insert msgId acc }
  if acc.chunks.size = acc.total then
    match mergeChunks acc.chunks acc.total with
    | none => throw .malformedData
    | some merged =>
      modifySelf fun m => { m with
        receivedFragments := m.receivedFragments.erase msgId
        receivedIds := m.receivedIds.insert msgId
        receivedBuffer := m.receivedBuffer.insert msgId merged }
      flushOrdered

/-- The `match frame.message_type` of `on_datagram`. -/
def dispatch (nowMs : UInt64) (srcPathId : UInt32) (frame : WireFrame) : CoreM Unit := do
  let m ← getSelf
  match frame.messageType with
  | .clientHello =>
    if m.role = .server ∧ m.state = .preHandshake then
      modifySelf fun m => { m with state := .established }
      pushEvent .handshakeEstablished
      pushFrame srcPathId .serverHello [] []
      scheduleServerTimers nowMs
  | .serverHello =>
    if m.role = .client ∧ (m.state = .preHandshake ∨ m.state = .reactivating) then
      modifySelf fun m => { m with state := .established, lastServerMsrAtMs := some nowMs }
      pushFrame srcPathId .helloAck [] []
      pushEvent (if m.state = .reactivating then .reactivated else .handshakeEstablished)
      scheduleClientTimers nowMs
  | .helloAck =>
    if m.role = .server ∧ m.state = .preHandshake then
      modifySelf fun m => { m with state := .established }
      pushEvent .handshakeEstablished
      scheduleServerTimers nowMs
  | .msr => handleMsr nowMs srcPathId frame
  | .requestRange =>
    if m.state = .established then handleRequestRange srcPathId frame.payload
  | .data => if m.state = .established then handleData frame.payload
  | .fragment => if m.state = .established then handleFragment frame.payload
  | .close | .error =>
    modifySelf fun m => { m with state := .lost }
    pushEvent .disconnected

def piggyback (nowMs : UInt64) (srcPathId : UInt32) (frame : WireFrame) : CoreM Unit :=
  if frame.messageType ≠ .msr then
    match findMsrSignalTlv frame.tlvs with
    | none => pure ()
    | some (_, nextPending) => handleMsrSignal nowMs srcPathId nextPending .piggybackTlv
  else pure ()

/-- `on_datagram` once the bytes have been decoded. -/
def onFrame (nowMs : UInt64) (srcPathId : UInt32) (frame : WireFrame) : CoreM Unit := do
  let m ← getSelf
  if m.cid ≠ 0 ∧ frame.cid ≠ m.cid then throw (.cidMismatch m.cid frame.cid)
  modifySelf fun m => { m with currentPathId := srcPathId }
  touchDisconnectDeadline nowMs
  onValidPeerDatagram nowMs
  dispatch nowMs srcPathId frame
  piggyback nowMs srcPathId frame

def onDatagram (m : CoreMachine) (nowMs : UInt64) (srcPathId : UInt32) (bytes : Bytes) :
    CoreMachine × CallResult :=
  match WireFrame.decode bytes with
  | .error _ => (m, .ok { events := [.parseError] })
  | .ok frame => m.call (onFrame nowMs srcPathId frame)

def onServerMsr (nowMs : UInt64) : CoreM Unit := do
  modifySelf fun m =>
    { m with serverConsecutiveMsrWithoutClientMsr :=
        saturatingAdd32 m.serverConsecutiveMsrWithoutClientMsr 1 }
  let m ← getSelf
  if m.serverConsecutiveMsrWithoutClientMsr >
      serverMaxConsecutiveServerMsrWithoutClientMsr then
    modifySelf fun m => { m with state := .lost }
    pushEvent .disconnected
  else
    pushFrame m.currentPathId .msr (encodeMsrPayload m.lastOrderedRx 0) []
    touchDisconnectDeadline nowMs
    pushSchedule .serverMsr (nowMs + m.cfg.msrIntervalMs)
    pushSchedule .disconnect (nowMs + m.cfg.disconnectWindowMs)

def onClientProbe (nowMs : UInt64) : CoreM Unit := do
  let m ← getSelf
  let sinceLast := saturatingSub nowMs (m.lastServerMsrAtMs.getD 0)
  let missWindow := saturatingMul m.cfg.msrIntervalMs m.cfg.missWindowCount
  if sinceLast > missWindow then
    modifySelf fun m => { m with state := .reactivating }
    pushFrame m.currentPathId .msr (encodeMsrPayload 0 m.maxPendingId) []
    pushEvent .reactivationProbeSent
  pushSchedule .clientProbe (nowMs + m.cfg.msrIntervalMs)

def onTimer (m : CoreMachine) (nowMs : UInt64) (timerId : TimerId) :
    CoreMachine × CallResult := m.call do
  match timerId with
  | .serverMsr =>
    if m.role = .server ∧ m.state = .established then onServerMsr nowMs
  | .clientProbe =>
    if m.role = .client ∧ (m.state = .established ∨ m.state = .reactivating) then
      onClientProbe nowMs
  | .disconnect =>
    match m.disconnectDeadlineMs with
    | none => pure ()
    | some deadline =>
      if nowMs ≥ deadline ∧ m.state ≠ .lost then
        modifySelf fun m => { m with state := .lost }
        pushEvent .disconnected
      else
        pushSchedule .disconnect deadline
  | .renegotiationTimeout =>
    match m.pendingLocalProposal with
    | none => pure ()
    | some pending =>
      if nowMs ≥ pending.expiresAtMs then
        modifySelf fun m => { m with pendingLocalProposal := none }
        pushEvent (.timerRenegotiationRolledBack pending.proposalId)

/-- `none` when `next_outbound_id += 1` leaves 64 bits: a panic where overflow is
checked, and out of reach where it is not, as the outbox would hold 2^64 - 2
payloads. -/
def onApiSend (m : CoreMachine) (payload : Bytes) : Option (CoreMachine × CallResult) :=
  if m.nextOutboundId + 1 > u64Max then none
  else some <| m.call do
    modifySelf fun m => { m with
      nextOutboundId := m.nextOutboundId + 1
      outboundMessages := m.outboundMessages.insert m.nextOutboundId payload }
    let m ← getSelf
    if m.state = .established then
      match m.role with
      | .client =>
        pushFrame m.currentPathId .msr (encodeMsrPayload 0 m.maxPendingId) []
        pushEvent (.queueAdvertised m.maxPendingId)
      | .server =>
        pushFrame m.currentPathId .msr (encodeMsrPayload m.lastOrderedRx m.maxPendingId) []

def onApiClose (m : CoreMachine) : CoreMachine × CallResult := m.call do
  if m.state = .lost then return
  pushFrame m.currentPathId .close [] []
  modifySelf fun m => { m with state := .lost }
  pushEvent .disconnected

def onApiProposeTimers (m : CoreMachine) (nowMs : UInt64) (proposal : TimerProposal) :
    CoreMachine × CallResult := m.call do
  if m.state ≠ .established then throw .invalidStateForRenegotiation
  match validateTimerProposal m.cfg proposal with
  | .error e => throw e
  | .ok () =>
    let proposalId := m.nextProposalId
    let expiresAtMs := saturatingAdd nowMs (saturatingMul m.cfg.msrIntervalMs 2)
    modifySelf fun m => { m with
      nextProposalId := UInt32.ofNat (saturatingAdd32 m.nextProposalId.toNat 1)
      pendingLocalProposal := some ⟨proposalId, proposal, expiresAtMs⟩ }
    pushFrame m.currentPathId .msr (encodeMsrPayload 0 m.maxPendingId)
      [encodeTimerProposalTlv proposalId proposal]
    pushEvent (.timerRenegotiationProposed proposalId)
    pushSchedule .renegotiationTimeout expiresAtMs

/-- `on_path_event(PathChanged)`. -/
def onPathEvent (m : CoreMachine) (pathId : UInt32) : CoreMachine × CallResult :=
  ({ m with currentPathId := pathId }, .ok {})

end Todero.Core
