import Todero.ClientHandle

/-! The calls on the handle of a server engine behind the C interface of v3-ffi. What
`v3_ffi_configure_nat` puts out stands beside the output of the engine; the calls that only
read the output or the error are left out. -/
namespace Todero.Ffi
open Todero.Wire Todero.Core Todero.Store Todero.Server Todero.Crypto

structure NatConfig where
  relayOnly : Bool
  stunUri : String
  turnUri : String
  turnRealm : String
  turnUsername : String
  turnPasswordSet : Bool
  deriving DecidableEq, Repr

/-- An entry of `events`, before it is written as JSON. -/
inductive ServerOutputEvent where
  | engine (event : OutputEvent)
  | natConfig (config : NatConfig)
  deriving DecidableEq, Repr

structure ServerOutputBuffer where
  datagrams : List (UInt32 × Bytes) := []
  events : List ServerOutputEvent := []
  deriving DecidableEq, Repr

/-- A handle whose `kind` is `EngineKind::Server`. With a `natConfig` the output of the engine
is empty. -/
structure ServerHandle where
  engine : EngineHandle InMemorySessionStore
  natConfig : Option NatConfig := none

namespace ServerHandle

def output (h : ServerHandle) : ServerOutputBuffer where
  datagrams := h.engine.output.datagrams
  events :=
    match h.natConfig with
    | some config => [.natConfig config]
    | none => h.engine.output.events.map .engine

def setError (h : ServerHandle) (e : HandleError) : ServerHandle × Int :=
  ({ h with engine := { h.engine with lastError := some e } }, -1)

/-- What a call that writes the output of the engine leaves, if it returns 0. -/
def wrote (h : ServerHandle) (called : EngineHandle InMemorySessionStore × Int) :
    ServerHandle × Int :=
  (⟨called.1, if called.2 = 0 then none else h.natConfig⟩, called.2)

/-- What a call of the runtime leaves in the handle. -/
def finish (h : ServerHandle)
    (called : ServerRuntime InMemorySessionStore × Server.RuntimeResult) : ServerHandle × Int :=
  let engine := { h.engine with runtime := called.1 }
  h.wrote <|
    match called.2 with
    | .ok out => ({ engine with output := normalizeServerOutput out }, 0)
    | .error e => engine.setError (.runtime e)

def v3FfiNewServer (msrIntervalMs missWindowCount disconnectWindowMs : UInt64) : ServerHandle :=
  ⟨.v3FfiNewServer msrIntervalMs missWindowCount disconnectWindowMs, none⟩

def v3FfiBeginHandshake (h : ServerHandle) : ServerHandle × Int := (h, 0)

/-- `none` where the call panics. -/
def v3FfiOnDatagram (host : Host) (h : ServerHandle) (nowMs : UInt64) (pathId : UInt32)
    (bytes : Bytes) : Option (ServerHandle × Int) :=
  (h.engine.v3FfiOnDatagram host nowMs pathId bytes).map h.wrote

/-- The relay policy is not kept: no call of the runtime reads it. -/
def v3FfiConfigureNat (h : ServerHandle) (relayPolicy : Int)
    (stunUri turnUri turnRealm turnUsername turnPassword : Bytes) : ServerHandle × Int :=
  match Utf8.decode stunUri with
  | none => h.setError (.invalidUtf8 "stun_uri")
  | some stunUri =>
    match Utf8.decode turnUri with
    | none => h.setError (.invalidUtf8 "turn_uri")
    | some turnUri =>
      match Utf8.decode turnRealm with
      | none => h.setError (.invalidUtf8 "turn_realm")
      | some turnRealm =>
        match Utf8.decode turnUsername with
        | none => h.setError (.invalidUtf8 "turn_username")
        | some turnUsername =>
          match Utf8.decode turnPassword with
          | none => h.setError (.invalidUtf8 "turn_password")
          | some turnPassword =>
            (⟨{ h.engine with output := {} }, some ⟨relayPolicy = 1, stunUri, turnUri, turnRealm,
              turnUsername, turnPassword ≠ ""⟩⟩, 0)

/-- `none` only where the runtime is. -/
def v3FfiServerSendMessage (h : ServerHandle) (cid : UInt64) (payload : Bytes) (nowMs : UInt64) :
    Option (ServerHandle × Int) :=
  (h.engine.runtime.sendMessage cid payload nowMs).map h.finish

def v3FfiPollTimers (h : ServerHandle) (nowMs : UInt64) (limit : Nat) : ServerHandle × Int :=
  h.finish (h.engine.runtime.pollTimers nowMs limit)

/-- `on_nat_tick` of the server runtime puts nothing out. -/
def v3FfiPollNat (h : ServerHandle) : ServerHandle × Int :=
  h.wrote ({ h.engine with output := normalizeServerOutput {} }, 0)

/-- The arguments are checked before the kind of the handle. -/
def v3FfiConfigureClientTls (h : ServerHandle) (expectedServerName : Bytes) : ServerHandle × Int :=
  match Utf8.decode expectedServerName with
  | none => h.setError (.invalidUtf8 "expected_server_name")
  | some expected =>
    match buildClientTlsCfg expected with
    | .error e => h.setError (.tlsConfig e)
    | .ok _ => h.setError (.tlsConfig "client tls can only be configured on client handle")

def v3FfiTlsClearAnchors (h : ServerHandle) : ServerHandle × Int :=
  match h.engine.tls with
  | .disabled =>
    h.setError (.tlsConfig "client tls must be configured before setting trust anchors")
  | .server _ => h.setError (.tlsConfig "trust anchors can only be changed on client tls")

def v3FfiTlsAddAnchorPem (h : ServerHandle) (pem : Bytes) : ServerHandle × Int :=
  if pem = [] then h.setError (.tlsConfig "trust anchor pem bytes are empty")
  else h.v3FfiTlsClearAnchors

def v3FfiConfigureServerTls (host : Host) (h : ServerHandle)
    (serverName certPath keyPath : Bytes) : ServerHandle × Int :=
  let (engine, rc) := h.engine.v3FfiConfigureServerTls host serverName certPath keyPath
  ({ h with engine := engine }, rc)

def v3FfiClearOutput (h : ServerHandle) : ServerHandle := ⟨{ h.engine with output := {} }, none⟩

/-- A call on a registered handle, with 0 for the calls that return nothing. -/
def call (host : Host) (h : ServerHandle) : ClientCall → Option (Option ServerHandle × Int)
  | .beginHandshake _ _ => some (h.v3FfiBeginHandshake.map some id)
  | .onDatagram nowMs pathId bytes =>
    (h.v3FfiOnDatagram host nowMs pathId bytes).map (Prod.map some id)
  | .sendMessage _ | .closeSession => some (some h, -1)
  | .configureNat relayPolicy stunUri turnUri turnRealm turnUsername turnPassword =>
    some ((h.v3FfiConfigureNat relayPolicy stunUri turnUri turnRealm turnUsername
      turnPassword).map some id)
  | .serverSendMessage cid payload nowMs =>
    (h.v3FfiServerSendMessage cid payload nowMs).map (Prod.map some id)
  | .pollTimers nowMs limit => some ((h.v3FfiPollTimers nowMs limit).map some id)
  | .pollNat _ => some (h.v3FfiPollNat.map some id)
  | .configureClientTls expected => some ((h.v3FfiConfigureClientTls expected).map some id)
  | .tlsClearAnchors => some (h.v3FfiTlsClearAnchors.map some id)
  | .tlsAddAnchorPem pem => some ((h.v3FfiTlsAddAnchorPem pem).map some id)
  | .configureServerTls host serverName certPath keyPath =>
    some ((h.v3FfiConfigureServerTls host serverName certPath keyPath).map some id)
  | .clearOutput => some (some h.v3FfiClearOutput, 0)
  | .free => some (none, 0)

end ServerHandle

end Todero.Ffi
