import Todero.Calls
import Todero.SessionStore

/-! The server runtime of v3-server-runtime: it routes datagrams to a core machine for
each cid, drives their timers and writes a record of every session it has touched to the
store. A call may fail half-way; what it has done to the runtime by then stays. -/
namespace Todero.Server
open Todero.Wire Todero.Core Todero.Store

/-- `base64::engine::general_purpose::STANDARD`. -/
class Base64 where
  encode : Bytes → String

def base64Char (sextet : Nat) : Char :=
  ("ABCDEFGHIJKLMNOPQRSTUVWXYZabcdefghijklmnopqrstuvwxyz0123456789+/".toList)[sextet % 64]?.getD '='

/-- The standard alphabet, padded. -/
def base64Chars : Bytes → List Char
  | a :: b :: c :: rest =>
    [base64Char (a.toNat / 4), base64Char (a.toNat % 4 * 16 + b.toNat / 16),
      base64Char (b.toNat % 16 * 4 + c.toNat / 64), base64Char c.toNat] ++ base64Chars rest
  | [a, b] =>
    [base64Char (a.toNat / 4), base64Char (a.toNat % 4 * 16 + b.toNat / 16),
      base64Char (b.toNat % 16 * 4), '=']
  | [a] => [base64Char (a.toNat / 4), base64Char (a.toNat % 4 * 16), '=', '=']
  | [] => []

instance : Base64 := ⟨fun payload => String.ofList (base64Chars payload)⟩

inductive RuntimeEvent where
  | parseError
  | coreEvent (cid : UInt64) (event : Event)
  | vhostPathBound (cid : UInt64) (vhost : String) (pathId : UInt32)
  | messageReceived (cid : UInt64) (msgId : Nat) (payloadB64 : String)
  deriving DecidableEq, Repr

structure ServerRuntimeOutput where
  outboundDatagrams : List OutboundDatagram := []
  events : List RuntimeEvent := []
  deriving DecidableEq, Repr

structure SessionRuntime where
  core : CoreMachine
  peerId : String
  boundVhost : Option String
  selectedPathId : Option UInt32
  sentDataIds : Std.TreeSet Nat

/-- The counters the calls below move; the two latency sums are left to the clock. -/
structure ServerRuntimeMetrics where
  parseErrors : UInt64 := 0
  handshakeStarted : UInt64 := 0
  handshakeEstablished : UInt64 := 0
  reactivated : UInt64 := 0
  disconnected : UInt64 := 0
  disconnectReasonUnknown : UInt64 := 0
  msrSent : UInt64 := 0
  msrProbeSent : UInt64 := 0
  msrMissedInferred : UInt64 := 0
  requestRangeSent : UInt64 := 0
  dataSent : UInt64 := 0
  dataRetransmitInferred : UInt64 := 0
  storeLoadCalls : UInt64 := 0
  storeLoadFailures : UInt64 := 0
  storeUpsertCalls : UInt64 := 0
  storeUpsertFailures : UInt64 := 0
  storeDeleteCalls : UInt64 := 0
  storeDeleteFailures : UInt64 := 0
  peakSessions : UInt64 := 0
  deriving DecidableEq, Repr

inductive ServerRuntimeError where
  | wire (e : WireError)
  | core (e : CoreError)
  | store (e : StoreError)
  deriving DecidableEq, Repr

/-- The pending entries of each deadline, in the order they were pushed. -/
abbrev TimerMap := Std.TreeMap UInt64 (List (UInt64 × TimerId))

structure ServerRuntime (σ : Type) where
  cfg : CoreConfig
  store : σ
  sessions : Std.TreeMap UInt64 SessionRuntime
  timers : TimerMap
  metrics : ServerRuntimeMetrics

abbrev RuntimeResult := Except ServerRuntimeError ServerRuntimeOutput

/-- `saturating_add(1)`. -/
def bump (n : UInt64) : UInt64 := saturatingAdd n 1

def observeCoreEvent (m : ServerRuntimeMetrics) : Event → ServerRuntimeMetrics
  | .handshakeStarted => { m with handshakeStarted := bump m.handshakeStarted }
  | .handshakeEstablished => { m with handshakeEstablished := bump m.handshakeEstablished }
  | .reactivated => { m with reactivated := bump m.reactivated }
  | .reactivationProbeSent =>
    { m with msrProbeSent := bump m.msrProbeSent, msrMissedInferred := bump m.msrMissedInferred }
  | .requestRangeSent _ _ => { m with requestRangeSent := bump m.requestRangeSent }
  | .disconnected =>
    { m with
      disconnected := bump m.disconnected
      disconnectReasonUnknown := bump m.disconnectReasonUnknown }
  | _ => m

/-- `entry(deadline_ms).or_default().push((cid, id))`. -/
def pushTimer (cid : UInt64) (timers : TimerMap) : TimerAction → TimerMap
  | .schedule id deadlineMs =>
    timers.insert deadlineMs ((timers[deadlineMs]?).getD [] ++ [(cid, id)])

/-- Take one occurrence of an entry out, and the deadline with its last entry. -/
def dropTimer (timers : TimerMap) (deadline : UInt64) (entry : UInt64 × TimerId) : TimerMap :=
  match timers[deadline]? with
  | none => timers
  | some entries =>
    if (entries.erase entry).isEmpty then timers.erase deadline
    else timers.insert deadline (entries.erase entry)

structure DueTimer where
  deadline : UInt64
  cid : UInt64
  timerId : TimerId
  deriving DecidableEq, Repr

/-- The first `limit` entries, deadline by deadline, up to `nowMs`. -/
def collectDue (nowMs : UInt64) (limit : Nat) :
    List (UInt64 × List (UInt64 × TimerId)) → List DueTimer → List DueTimer
  | [], due => due
  | (deadline, entries) :: rest, due =>
    if deadline > nowMs ∨ due.length ≥ limit then due
    else collectDue nowMs limit rest (due ++
      (entries.take (limit - due.length)).map fun (cid, timerId) => ⟨deadline, cid, timerId⟩)

def SessionRuntime.pathBound (session : SessionRuntime) (cid : UInt64) (srcPathId : UInt32) :
    List RuntimeEvent :=
  match session.boundVhost, session.selectedPathId with
  | some vhost, some bound =>
    if bound = srcPathId then [.vhostPathBound cid vhost srcPathId] else []
  | _, _ => []

namespace ServerRuntime
variable {σ : Type}

def new (cfg : CoreConfig) (store : σ) : ServerRuntime σ := ⟨cfg, store, ∅, ∅, {}⟩

def ingestTimers (rt : ServerRuntime σ) (cid : UInt64) (timerActions : List TimerAction) :
    ServerRuntime σ :=
  { rt with timers := timerActions.foldl (pushTimer cid) rt.timers }

def observeDatagram (cid : UInt64) (rt : ServerRuntime σ) (d : OutboundDatagram) :
    ServerRuntime σ :=
  match WireFrame.decode d.bytes with
  | .error _ => rt
  | .ok frame =>
    match frame.messageType with
    | .msr => { rt with metrics := { rt.metrics with msrSent := bump rt.metrics.msrSent } }
    | .data =>
      let rt := { rt with metrics := { rt.metrics with dataSent := bump rt.metrics.dataSent } }
      if 8 ≤ frame.payload.length then
        let msgId := (BigEndian.take 8 frame.payload).1
        match rt.sessions[cid]? with
        | none => rt
        | some session =>
          if session.sentDataIds.contains msgId then
            { rt with metrics := { rt.metrics with
                dataRetransmitInferred := bump rt.metrics.dataRetransmitInferred } }
          else
            let session := { session with sentDataIds := session.sentDataIds.insert msgId }
            { rt with sessions := rt.sessions.insert cid session }
      else rt
    | _ => rt

def observeDatagrams (rt : ServerRuntime σ) (cid : UInt64) (datagrams : List OutboundDatagram) :
    ServerRuntime σ :=
  datagrams.foldl (observeDatagram cid) rt

def updatePeakSessionsMetric (rt : ServerRuntime σ) : ServerRuntime σ :=
  if UInt64.ofNat rt.sessions.size > rt.metrics.peakSessions then
    { rt with metrics := { rt.metrics with peakSessions := UInt64.ofNat rt.sessions.size } }
  else rt

/-- The record written for a live session: the timers are the runtime's own. -/
def recordOf (rt : ServerRuntime σ) (cid : UInt64) (session : SessionRuntime) : SessionRecord where
  cid := cid
  peerId := session.peerId
  negotiatedMsrIntervalMs := rt.cfg.msrIntervalMs
  disconnectWindowMs := rt.cfg.disconnectWindowMs
  lastOrderedRx := session.core.lastOrderedRx
  lastOrderedTx := 0

section Store
variable [SessionStore σ]

def ensureSessionLoaded (rt : ServerRuntime σ) (cid : UInt64) (srcPathId : UInt32)
    (nowMs : UInt64) : ServerRuntime σ × Except ServerRuntimeError Unit :=
  if rt.sessions.contains cid then (rt, .ok ())
  else
    let rt := { rt with metrics :=
      { rt.metrics with storeLoadCalls := bump rt.metrics.storeLoadCalls } }
    let (store, loaded) := SessionStore.load rt.store cid nowMs
    let rt := { rt with store := store }
    match loaded with
    | .error e =>
      ({ rt with metrics :=
          { rt.metrics with storeLoadFailures := bump rt.metrics.storeLoadFailures } },
        .error (.store e))
    | .ok loaded =>
      let (cfg, peerId) := match loaded with
        | some versioned =>
          (⟨versioned.record.negotiatedMsrIntervalMs, rt.cfg.missWindowCount,
            versioned.record.disconnectWindowMs⟩, versioned.record.peerId)
        | none => (rt.cfg, s!"path:{srcPathId}")
      let core := (onPathEvent (CoreMachine.new .server cid cfg) srcPathId).1
      let rt := { rt with sessions := rt.sessions.insert cid ⟨core, peerId, none, none, ∅⟩ }
      (rt.updatePeakSessionsMetric, .ok ())

/-- The end of `apply_core_output`: a lost session is deleted and dropped, any other one
written to the store. -/
def persist (rt : ServerRuntime σ) (cid nowMs : UInt64) :
    ServerRuntime σ × Except StoreError Unit :=
  match rt.sessions[cid]? with
  | none => (rt, .ok ())
  | some session =>
    if session.core.state = .lost then
      let rt := { rt with metrics :=
        { rt.metrics with storeDeleteCalls := bump rt.metrics.storeDeleteCalls } }
      let (store, deleted) := SessionStore.delete rt.store cid
      let rt := { rt with store := store, sessions := rt.sessions.erase cid }
      match deleted with
      | .error e =>
        ({ rt with metrics :=
            { rt.metrics with storeDeleteFailures := bump rt.metrics.storeDeleteFailures } },
          .error e)
      | .ok () =>
        ({ rt with metrics :=
            { rt.metrics with
              disconnected := bump rt.metrics.disconnected
              disconnectReasonUnknown := bump rt.metrics.disconnectReasonUnknown } },
          .ok ())
    else
      let rt := { rt with metrics :=
        { rt.metrics with storeUpsertCalls := bump rt.metrics.storeUpsertCalls } }
      let (store, written) := SessionStore.upsert rt.store cid (rt.recordOf cid session)
        rt.cfg.disconnectWindowMs nowMs
      let rt := { rt with store := store }
      match written with
      | .error e =>
        ({ rt with metrics :=
            { rt.metrics with storeUpsertFailures := bump rt.metrics.storeUpsertFailures } },
          .error e)
      | .ok _ => (rt, .ok ())

variable [Base64]

def runtimeEvents (cid : UInt64) (events : List Event) : List RuntimeEvent :=
  events.flatMap fun event =>
    .coreEvent cid event :: match event with
      | .messageReceived msgId payload => [.messageReceived cid msgId (Base64.encode payload)]
      | _ => []

/-- A datagram without a path of its own goes back where the call came from. -/
def redirect (srcPathId : UInt32) (d : OutboundDatagram) : OutboundDatagram :=
  ⟨if d.pathId = 0 then srcPathId else d.pathId, d.bytes⟩

def applyCoreOutput (rt : ServerRuntime σ) (cid : UInt64) (srcPathId : UInt32) (nowMs : UInt64)
    (out : CoreOutput) : ServerRuntime σ × RuntimeResult :=
  let rt := { rt with metrics := out.events.foldl observeCoreEvent rt.metrics }
  let rt := rt.ingestTimers cid out.timerActions
  let datagrams := out.outboundDatagrams.map (redirect srcPathId)
  let rt := rt.observeDatagrams cid datagrams
  let (rt, persisted) := rt.persist cid nowMs
  (rt, match persisted with
    | .error e => .error (.store e)
    | .ok () => .ok ⟨datagrams, runtimeEvents cid out.events⟩)

/-- A call of a session's core, `?`, and `apply_core_output` of what it put out. -/
def drive (rt : ServerRuntime σ) (cid : UInt64) (session : SessionRuntime) (srcPathId : UInt32)
    (nowMs : UInt64) (called : CoreMachine × CallResult) : ServerRuntime σ × RuntimeResult :=
  let rt := { rt with sessions := rt.sessions.insert cid { session with core := called.1 } }
  match called.2 with
  | .error e => (rt, .error (.core e))
  | .ok out => rt.applyCoreOutput cid srcPathId nowMs out

def onDatagram (rt : ServerRuntime σ) (nowMs : UInt64) (srcPathId : UInt32) (bytes : Bytes) :
    ServerRuntime σ × RuntimeResult :=
  match WireFrame.decode bytes with
  | .error _ =>
    ({ rt with metrics := { rt.metrics with parseErrors := bump rt.metrics.parseErrors } },
      .ok { events := [.parseError] })
  | .ok frame =>
    match rt.ensureSessionLoaded frame.cid srcPathId nowMs with
    | (rt, .error e) => (rt, .error e)
    | (rt, .ok ()) =>
      match rt.sessions[frame.cid]? with
      -- `expect`: the session is there
      | none => (rt, .ok {})
      | some session =>
        let preEvents := session.pathBound frame.cid srcPathId
        let (rt, res) := rt.drive frame.cid session srcPathId nowMs
          (Core.onDatagram session.core nowMs srcPathId bytes)
        (rt, res.map fun out => { out with events := preEvents ++ out.events })

/-- One pass of the loop of `poll_timers`. -/
def fire (nowMs : UInt64) (rt : ServerRuntime σ) (due : DueTimer) :
    ServerRuntime σ × RuntimeResult :=
  let rt := { rt with timers := dropTimer rt.timers due.deadline (due.cid, due.timerId) }
  match rt.sessions[due.cid]? with
  | none => (rt, .ok {})
  | some session => rt.drive due.cid session 0 nowMs (onTimer session.core nowMs due.timerId)

def fireAll (nowMs : UInt64) :
    ServerRuntime σ → List DueTimer → ServerRuntimeOutput → ServerRuntime σ × RuntimeResult
  | rt, [], output => (rt, .ok output)
  | rt, due :: rest, output =>
    match rt.fire nowMs due with
    | (rt, .error e) => (rt, .error e)
    | (rt, .ok partOut) => fireAll nowMs rt rest
        ⟨output.outboundDatagrams ++ partOut.outboundDatagrams, output.events ++ partOut.events⟩

def pollTimers (rt : ServerRuntime σ) (nowMs : UInt64) (limit : Nat) :
    ServerRuntime σ × RuntimeResult :=
  fireAll nowMs rt (collectDue nowMs limit rt.timers.toList []) {}

/-- `none` only where `onApiSend` is. -/
def sendMessage (rt : ServerRuntime σ) (cid : UInt64) (payload : Bytes) (nowMs : UInt64) :
    Option (ServerRuntime σ × RuntimeResult) :=
  match rt.sessions[cid]? with
  | none => some (rt, .ok {})
  | some session => (onApiSend session.core payload).map (rt.drive cid session 0 nowMs)

end Store

end ServerRuntime

inductive Op where
  | datagram (nowMs : UInt64) (srcPathId : UInt32) (bytes : Bytes)
  | pollTimers (nowMs : UInt64) (limit : Nat)
  | sendMessage (cid : UInt64) (payload : Bytes) (nowMs : UInt64)

def ServerRuntime.step {σ : Type} [SessionStore σ] [Base64] (rt : ServerRuntime σ) :
    Op → Option (ServerRuntime σ × RuntimeResult)
  | .datagram nowMs srcPathId bytes => some (rt.onDatagram nowMs srcPathId bytes)
  | .pollTimers nowMs limit => some (rt.pollTimers nowMs limit)
  | .sendMessage cid payload nowMs => rt.sendMessage cid payload nowMs

end Todero.Server
