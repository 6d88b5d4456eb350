import Todero.Calls

/-! The client runtime of v3-client-runtime: one core machine, the timers it has asked
for, and counters. Path candidates, which no call below reads, are left out. -/
namespace Todero.Client
open Todero.Wire Todero.Core

inductive ClientRuntimeEvent where
  | core (event : Event)
  deriving DecidableEq, Repr

structure ClientRuntimeOutput where
  outboundDatagrams : List OutboundDatagram := []
  events : List ClientRuntimeEvent := []
  deriving DecidableEq, Repr

/-- The counters the calls below move. -/
structure ClientRuntimeMetrics where
  handshakeStarted : UInt64 := 0
  handshakeEstablished : UInt64 := 0
  reactivationProbeSent : UInt64 := 0
  reactivated : UInt64 := 0
  disconnected : UInt64 := 0
  msrSent : UInt64 := 0
  deriving DecidableEq, Repr

inductive ClientRuntimeError where
  | core (e : CoreError)
  deriving DecidableEq, Repr

/-- The pending timers of each deadline, in the order they were pushed. -/
abbrev TimerMap := Std.TreeMap UInt64 (List TimerId)

structure ClientRuntime where
  core : CoreMachine
  timers : TimerMap
  metrics : ClientRuntimeMetrics

abbrev RuntimeResult := Except ClientRuntimeError ClientRuntimeOutput

def observeCoreEvent (m : ClientRuntimeMetrics) : Event → ClientRuntimeMetrics
  | .handshakeStarted => { m with handshakeStarted := saturatingAdd m.handshakeStarted 1 }
  | .handshakeEstablished =>
    { m with handshakeEstablished := saturatingAdd m.handshakeEstablished 1 }
  | .reactivationProbeSent =>
    { m with reactivationProbeSent := saturatingAdd m.reactivationProbeSent 1 }
  | .reactivated => { m with reactivated := saturatingAdd m.reactivated 1 }
  | .disconnected => { m with disconnected := saturatingAdd m.disconnected 1 }
  | _ => m

def observeDatagram (m : ClientRuntimeMetrics) (d : OutboundDatagram) : ClientRuntimeMetrics :=
  match WireFrame.decode d.bytes with
  | .error _ => m
  | .ok frame =>
    if frame.messageType = .msr then { m with msrSent := saturatingAdd m.msrSent 1 } else m

/-- `entry(deadline_ms).or_default()`, and a push unless the slot has the timer already. -/
def ingestTimer (timers : TimerMap) : TimerAction → TimerMap
  | .schedule id deadlineMs =>
    let slot := (timers[deadlineMs]?).getD []
    if slot.contains id then timers else timers.insert deadlineMs (slot ++ [id])

/-- Take one occurrence of a timer out, and the deadline with its last timer. -/
def dropTimer (timers : TimerMap) (deadline : UInt64) (id : TimerId) : TimerMap :=
  match timers[deadline]? with
  | none => timers
  | some list =>
    if (list.erase id).isEmpty then timers.erase deadline
    else timers.insert deadline (list.erase id)

/-- The first `limit` timers, deadline by deadline, up to `nowMs`. -/
def collectDue (nowMs : UInt64) (limit : Nat) :
    List (UInt64 × List TimerId) → List (UInt64 × TimerId) → List (UInt64 × TimerId)
  | [], due => due
  | (deadline, ids) :: rest, due =>
    if deadline > nowMs ∨ due.length ≥ limit then due
    else collectDue nowMs limit rest (due ++ (ids.take (limit - due.length)).map (deadline, ·))

namespace ClientRuntime

def new (cid : UInt64) (cfg : CoreConfig) : ClientRuntime := ⟨.new .client cid cfg, ∅, {}⟩

def applyCoreOutput (rt : ClientRuntime) (out : CoreOutput) :
    ClientRuntime × ClientRuntimeOutput :=
  let metrics := out.outboundDatagrams.foldl observeDatagram rt.metrics
  let metrics := out.events.foldl observeCoreEvent metrics
  ({ rt with metrics := metrics, timers := out.timerActions.foldl ingestTimer rt.timers },
    ⟨out.outboundDatagrams, out.events.map .core⟩)

/-- A call of the core, `?`, and `apply_core_output` of what it put out. -/
def drive (rt : ClientRuntime) (called : CoreMachine × CallResult) :
    ClientRuntime × RuntimeResult :=
  let rt := { rt with core := called.1 }
  match called.2 with
  | .error e => (rt, .error (.core e))
  | .ok out => ((rt.applyCoreOutput out).1, .ok (rt.applyCoreOutput out).2)

def beginHandshake (rt : ClientRuntime) (nowMs : UInt64) : ClientRuntime × RuntimeResult :=
  rt.drive (Core.beginHandshake rt.core nowMs)

def onDatagram (rt : ClientRuntime) (nowMs : UInt64) (srcPathId : UInt32) (bytes : Bytes) :
    ClientRuntime × RuntimeResult :=
  rt.drive (Core.onDatagram rt.core nowMs srcPathId bytes)

/-- `none` only where `onApiSend` is. -/
def sendMessage (rt : ClientRuntime) (payload : Bytes) : Option (ClientRuntime × RuntimeResult) :=
  (onApiSend rt.core payload).map rt.drive

def closeSession (rt : ClientRuntime) : ClientRuntime × RuntimeResult :=
  rt.drive (onApiClose rt.core)

def proposeTimers (rt : ClientRuntime) (nowMs : UInt64) (proposal : TimerProposal) :
    ClientRuntime × RuntimeResult :=
  rt.drive (onApiProposeTimers rt.core nowMs proposal)

def onPathChanged (rt : ClientRuntime) (pathId : UInt32) : ClientRuntime × RuntimeResult :=
  rt.drive (onPathEvent rt.core pathId)

/-- One pass of the loop of `poll_timers`. -/
def fire (nowMs : UInt64) (rt : ClientRuntime) (due : UInt64 × TimerId) :
    ClientRuntime × RuntimeResult :=
  let rt := { rt with timers := dropTimer rt.timers due.1 due.2 }
  rt.drive (onTimer rt.core nowMs due.2)

def fireAll (nowMs : UInt64) :
    ClientRuntime → List (UInt64 × TimerId) → ClientRuntimeOutput → ClientRuntime × RuntimeResult
  | rt, [], output => (rt, .ok output)
  | rt, due :: rest, output =>
    match rt.fire nowMs due with
    | (rt, .error e) => (rt, .error e)
    | (rt, .ok partOut) => fireAll nowMs rt rest
        ⟨output.outboundDatagrams ++ partOut.outboundDatagrams, output.events ++ partOut.events⟩

def pollTimers (rt : ClientRuntime) (nowMs : UInt64) (limit : Nat) :
    ClientRuntime × RuntimeResult :=
  fireAll nowMs rt (collectDue nowMs limit rt.timers.toList []) {}

end ClientRuntime

inductive Op where
  | beginHandshake (nowMs : UInt64)
  | datagram (nowMs : UInt64) (srcPathId : UInt32) (bytes : Bytes)
  | sendMessage (payload : Bytes)
  | closeSession
  | proposeTimers (nowMs : UInt64) (proposal : TimerProposal)
  | pathChanged (pathId : UInt32)
  | pollTimers (nowMs : UInt64) (limit : Nat)

def ClientRuntime.step (rt : ClientRuntime) : Op → Option (ClientRuntime × RuntimeResult)
  | .beginHandshake nowMs => some (rt.beginHandshake nowMs)
  | .datagram nowMs srcPathId bytes => some (rt.onDatagram nowMs srcPathId bytes)
  | .sendMessage payload => rt.sendMessage payload
  | .closeSession => some rt.closeSession
  | .proposeTimers nowMs proposal => some (rt.proposeTimers nowMs proposal)
  | .pathChanged pathId => some (rt.onPathChanged pathId)
  | .pollTimers nowMs limit => some (rt.pollTimers nowMs limit)

end Todero.Client
