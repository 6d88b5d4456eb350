import Todero.ClientRuntime
import Todero.EngineHandle

/-! The handle of a client engine behind the C interface of v3-ffi: the runtime, the DTLS adapter
once client TLS is configured, the output of the last call and the last error. The calls that
only read the output or the error are left out. -/
namespace Todero.Ffi
open Todero.Wire Todero.Core Todero.Client Todero.Crypto

structure ClientTlsState where
  adapter : OpenSslDtlsAdapter
  cfg : HandshakeConfig
  established : Bool
  coreStarted : Bool

/-- No call puts server TLS on a client handle. -/
inductive ClientTlsMode where
  | disabled
  | client (tls : ClientTlsState)

/-- An entry of `events`, before it is written as JSON. -/
inductive ClientOutputEvent where
  | handshakeStarted
  | handshakeEstablished
  /-- What the core puts out when the handshake has been established. -/
  | core (event : ClientRuntimeEvent)
  | runtime (event : ClientRuntimeEvent)
  | natConfig (relayOnly : Bool) (stunUri turnUri turnRealm turnUsername : String)
      (turnPasswordSet : Bool)
  deriving DecidableEq, Repr

structure ClientOutputBuffer where
  datagrams : List (UInt32 × Bytes) := []
  events : List ClientOutputEvent := []
  deriving DecidableEq, Repr

/-- What `last_error` says. -/
inductive ClientHandleError where
  /-- "invalid {what} utf8". -/
  | invalidUtf8 (what : String)
  | text (message : String)
  /-- "tls start failed". -/
  | tlsStart (e : CryptoError)
  /-- "tls datagram failed". -/
  | tlsDatagram (e : CryptoError)
  | runtime (e : ClientRuntimeError)

/-- A handle whose `kind` is `EngineKind::Client`. -/
structure ClientHandle where
  runtime : ClientRuntime
  tls : ClientTlsMode
  output : ClientOutputBuffer
  lastError : Option ClientHandleError

def normalizeClientOutput (out : ClientRuntimeOutput) : ClientOutputBuffer where
  datagrams := out.outboundDatagrams.map fun d => (d.pathId, d.bytes)
  events := out.events.map .runtime

def buildClientTlsCfg (expectedServerName : String) : Except String HandshakeConfig :=
  if trim expectedServerName = "" then .error "expected_server_name is required for TLS"
  else
    .ok {
      profile := .serverAuth
      cipherPolicy := {}
      trust := { trustAnchorPems := [], requireHostnameVerification := true }
      clientIdentity := none
      expectedServerName := some expectedServerName }

namespace ClientHandle

def setError (h : ClientHandle) (e : ClientHandleError) : ClientHandle × Int :=
  ({ h with lastError := some e }, -1)

/-- What a call of the runtime leaves in the handle. -/
def finish (h : ClientHandle) (called : ClientRuntime × RuntimeResult) : ClientHandle × Int :=
  let h := { h with runtime := called.1 }
  match called.2 with
  | .ok out => ({ h with output := normalizeClientOutput out }, 0)
  | .error e => h.setError (.runtime e)

def v3FfiNewClient (cid msrIntervalMs missWindowCount disconnectWindowMs : UInt64) :
    ClientHandle where
  runtime := .new cid ⟨msrIntervalMs, missWindowCount, disconnectWindowMs⟩
  tls := .disabled
  output := {}
  lastError := none

/-- The arm of `v3_ffi_begin_handshake` for TLS that is not established. -/
def startTls (openssl : OpenSsl) (h : ClientHandle) (tls : ClientTlsState) : ClientHandle × Int :=
  let (adapter, hs) := tls.adapter.startClient openssl tls.cfg
  let h := { h with tls := .client { tls with adapter := adapter } }
  match hs with
  | .ok hs =>
    ({ h with
        output := {
          datagrams := hs.outboundDatagrams.map fun d => (0, d)
          events := [.handshakeStarted] } }, 0)
  | .error e => h.setError (.tlsStart e)

def v3FfiBeginHandshake (openssl : OpenSsl) (h : ClientHandle) (nowMs : UInt64) :
    ClientHandle × Int :=
  match h.tls with
  | .client tls =>
    if !tls.established then h.startTls openssl tls
    else h.finish (h.runtime.beginHandshake nowMs)
  | .disabled => h.finish (h.runtime.beginHandshake nowMs)

/-- The handshake of the core, started right after that of TLS; its output is added. -/
def startCore (h : ClientHandle) (nowMs : UInt64) : ClientHandle × Int :=
  let (runtime, res) := h.runtime.beginHandshake nowMs
  let h := { h with runtime := runtime }
  match res with
  | .ok out =>
    ({ h with
        output := {
          datagrams :=
            h.output.datagrams ++ out.outboundDatagrams.map fun d => (d.pathId, d.bytes)
          events := h.output.events ++ out.events.map .core } }, 0)
  | .error e => h.setError (.runtime e)

/-- The arm of `v3_ffi_on_datagram` for TLS that is not established. -/
def onHandshakeDatagram (h : ClientHandle) (tls : ClientTlsState) (nowMs : UInt64)
    (pathId : UInt32) (bytes : Bytes) : ClientHandle × Int :=
  let (adapter, hs) := tls.adapter.onDatagram bytes
  let tls := { tls with adapter := adapter }
  match hs with
  | .ok out =>
    let datagrams := out.outboundDatagrams.map fun d => (pathId, d)
    if out.established then
      let output : ClientOutputBuffer := ⟨datagrams, [.handshakeEstablished]⟩
      if !tls.coreStarted then
        { h with
          tls := .client { tls with established := true, coreStarted := true }
          output := output }.startCore nowMs
      else ({ h with tls := .client { tls with established := true }, output := output }, 0)
    else ({ h with tls := .client tls, output := ⟨datagrams, []⟩ }, 0)
  | .error e => { h with tls := .client tls }.setError (.tlsDatagram e)

def v3FfiOnDatagram (h : ClientHandle) (nowMs : UInt64) (pathId : UInt32) (bytes : Bytes) :
    ClientHandle × Int :=
  match h.tls with
  | .client tls =>
    if !tls.established then h.onHandshakeDatagram tls nowMs pathId bytes
    else if isDtlsPacket bytes then ({ h with output := {} }, 0)
    else h.finish (h.runtime.onDatagram nowMs pathId bytes)
  | .disabled => h.finish (h.runtime.onDatagram nowMs pathId bytes)

/-- `none` only where the runtime is. -/
def v3FfiSendMessage (h : ClientHandle) (payload : Bytes) : Option (ClientHandle × Int) :=
  (h.runtime.sendMessage payload).map h.finish

def v3FfiCloseSession (h : ClientHandle) : ClientHandle × Int := h.finish h.runtime.closeSession

/-- The relay policy is not kept: `set_relay_policy` of the client runtime does nothing. -/
def v3FfiConfigureNat (h : ClientHandle) (relayPolicy : Int)
    (stunUri turnUri turnRealm turnUsername turnPassword : Bytes) : ClientHandle × Int :=
  match Utf8.decode stunUri with
  | none => h.setError (.invalidUtf8 "stun_uri")
  | some stunUri =>
    match Utf8.decode turnUri with
    | none => h.setError (.invalidUtf8 "turn_uri")
    | some turnUri =>
      match Utf8.decode turnRealm with
      | none => h.setError (.invalidUtf8 "turn_realm")
      | some turnRealm =>
        match Utf8.decode turnUsername with
        | none => h.setError (.invalidUtf8 "turn_username")
        | some turnUsername =>
          match Utf8.decode turnPassword with
          | none => h.setError (.invalidUtf8 "turn_password")
          | some turnPassword =>
            ({ h with
                output := {
                  datagrams := []
                  events := [.natConfig (relayPolicy = 1) stunUri turnUri turnRealm turnUsername
                    (turnPassword ≠ "")] } }, 0)

def v3FfiPollTimers (h : ClientHandle) (nowMs : UInt64) (limit : Nat) : ClientHandle × Int :=
  h.finish (h.runtime.pollTimers nowMs limit)

/-- `on_nat_tick` of the client runtime puts nothing out. -/
def v3FfiPollNat (h : ClientHandle) : ClientHandle × Int :=
  ({ h with output := normalizeClientOutput {} }, 0)

def v3FfiConfigureClientTls (h : ClientHandle) (expectedServerName : Bytes) :
    ClientHandle × Int :=
  match Utf8.decode expectedServerName with
  | none => h.setError (.invalidUtf8 "expected_server_name")
  | some expected =>
    match buildClientTlsCfg expected with
    | .error e => h.setError (.text e)
    | .ok cfg => ({ h with tls := .client ⟨.new, cfg, false, false⟩ }, 0)

/-- The two calls that change the trust anchors, up to the change. -/
def changeAnchors (h : ClientHandle) (change : List Bytes → List Bytes) : ClientHandle × Int :=
  match h.tls with
  | .client state =>
    if state.established || state.coreStarted then
      h.setError (.text "trust anchors can only be changed before handshake start")
    else
      let trust :=
        { state.cfg.trust with trustAnchorPems := change state.cfg.trust.trustAnchorPems }
      ({ h with tls := .client { state with cfg := { state.cfg with trust := trust } } }, 0)
  | .disabled =>
    h.setError (.text "client tls must be configured before setting trust anchors")

def v3FfiTlsClearAnchors (h : ClientHandle) : ClientHandle × Int := h.changeAnchors fun _ => []

def v3FfiTlsAddAnchorPem (h : ClientHandle) (pem : Bytes) : ClientHandle × Int :=
  if pem = [] then h.setError (.text "trust anchor pem bytes are empty")
  else h.changeAnchors (· ++ [pem])

/-- The arguments are checked before the kind of the handle. -/
def v3FfiConfigureServerTls (host : Host) (h : ClientHandle)
    (serverName certPath keyPath : Bytes) : ClientHandle × Int :=
  match Utf8.decode serverName with
  | none => h.setError (.invalidUtf8 "server_name")
  | some serverName =>
    match Utf8.decode certPath with
    | none => h.setError (.invalidUtf8 "cert_path")
    | some certPath =>
      match Utf8.decode keyPath with
      | none => h.setError (.invalidUtf8 "key_path")
      | some keyPath =>
        match buildServerTlsCfg host serverName certPath keyPath with
        | .error e => h.setError (.text e)
        | .ok _ => h.setError (.text "server tls can only be configured on server handle")

def v3FfiClearOutput (h : ClientHandle) : ClientHandle := { h with output := {} }

end ClientHandle

/-- A call with the handle's id; what it asks the machine it runs on comes with it. -/
inductive ClientCall where
  | beginHandshake (openssl : OpenSsl) (nowMs : UInt64)
  | onDatagram (nowMs : UInt64) (pathId : UInt32) (bytes : Bytes)
  | sendMessage (payload : Bytes)
  | closeSession
  | configureNat (relayPolicy : Int)
      (stunUri turnUri turnRealm turnUsername turnPassword : Bytes)
  | serverSendMessage (cid : UInt64) (payload : Bytes) (nowMs : UInt64)
  | pollTimers (nowMs : UInt64) (limit : Nat)
  | pollNat (nowMs : UInt64)
  | configureClientTls (expectedServerName : Bytes)
  | tlsClearAnchors
  | tlsAddAnchorPem (pem : Bytes)
  | configureServerTls (host : Host) (serverName certPath keyPath : Bytes)
  | clearOutput
  | free

/-- A call on a registered handle, with 0 for the calls that return nothing. -/
def ClientHandle.call (h : ClientHandle) : ClientCall → Option (Option ClientHandle × Int)
  | .beginHandshake openssl nowMs => some ((h.v3FfiBeginHandshake openssl nowMs).map some id)
  | .onDatagram nowMs pathId bytes => some ((h.v3FfiOnDatagram nowMs pathId bytes).map some id)
  | .sendMessage payload => (h.v3FfiSendMessage payload).map (Prod.map some id)
  | .closeSession => some (h.v3FfiCloseSession.map some id)
  | .configureNat relayPolicy stunUri turnUri turnRealm turnUsername turnPassword =>
    some ((h.v3FfiConfigureNat relayPolicy stunUri turnUri turnRealm turnUsername
      turnPassword).map some id)
  | .serverSendMessage _ _ _ => some (some h, -1)
  | .pollTimers nowMs limit => some ((h.v3FfiPollTimers nowMs limit).map some id)
  | .pollNat _ => some (h.v3FfiPollNat.map some id)
  | .configureClientTls expected => some ((h.v3FfiConfigureClientTls expected).map some id)
  | .tlsClearAnchors => some (h.v3FfiTlsClearAnchors.map some id)
  | .tlsAddAnchorPem pem => some ((h.v3FfiTlsAddAnchorPem pem).map some id)
  | .configureServerTls host serverName certPath keyPath =>
    some ((h.v3FfiConfigureServerTls host serverName certPath keyPath).map some id)
  | .clearOutput => some (some h.v3FfiClearOutput, 0)
  | .free => some (none, 0)

/-- The calls on an id whose handle is freed return -1, or nothing. -/
def ClientCall.missing : ClientCall → Int
  | .clearOutput => 0
  | .free => 0
  | _ => -1

/-- The entry of one id in the registry: `none` once the handle is freed. -/
def clientStep : Option ClientHandle → ClientCall → Option (Option ClientHandle × Int)
  | none, c => some (none, c.missing)
  | some h, c => h.call c

end Todero.Ffi
