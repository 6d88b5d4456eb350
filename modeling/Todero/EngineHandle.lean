import Todero.DtlsAdapter
import Todero.ServerRuntime

/-! The handle of a server engine behind the C interface of v3-ffi: the runtime, a DTLS
adapter for each path once server TLS is configured, the output of the last call and the
last error. What a call asks the machine it runs on is a parameter of the call. -/
namespace Todero.Ffi
open Todero.Wire Todero.Core Todero.Store Todero.Server Todero.Crypto

structure Host where
  /-- `Path::exists`. -/
  pathExists : String → Bool
  openssl : OpenSsl

structure ServerPathTlsState where
  adapter : OpenSslDtlsAdapter
  established : Bool

structure ServerTlsState where
  serverName : String
  certPath : String
  keyPath : String
  sessionsByPath : Std.TreeMap UInt32 ServerPathTlsState

/-- No call puts client TLS on a server handle. -/
inductive TlsMode where
  | disabled
  | server (tls : ServerTlsState)

/-- An entry of `events`, before it is written as JSON. -/
inductive OutputEvent where
  | handshakeEstablished (pathId : UInt32)
  | runtime (event : RuntimeEvent)
  deriving DecidableEq, Repr

structure OutputBuffer where
  datagrams : List (UInt32 × Bytes) := []
  events : List OutputEvent := []
  deriving DecidableEq, Repr

/-- What `last_error` says. -/
inductive HandleError where
  /-- "invalid {what} utf8". -/
  | invalidUtf8 (what : String)
  | tlsConfig (message : String)
  /-- "server tls datagram failed". -/
  | tlsDatagram (e : CryptoError)
  | runtime (e : ServerRuntimeError)
  deriving DecidableEq, Repr

/-- A handle whose `kind` is `EngineKind::Server`. -/
structure EngineHandle (σ : Type) where
  runtime : ServerRuntime σ
  tls : TlsMode
  output : OutputBuffer
  lastError : Option HandleError

def normalizeServerOutput (out : ServerRuntimeOutput) : OutputBuffer where
  datagrams := out.outboundDatagrams.map fun d => (d.pathId, d.bytes)
  events := out.events.map .runtime

def isDtlsPacket (bytes : Bytes) : Bool := (Utf8.encode "DTLS_").isPrefixOf bytes

def buildServerTlsCfg (host : Host) (serverName certPath keyPath : String) :
    Except String HandshakeConfig :=
  if trim serverName = "" then .error "server_name is required for TLS"
  else if trim certPath = "" ∨ trim keyPath = "" then
    .error "server TLS cert/key paths are required"
  else if !host.pathExists certPath then .error s!"server cert path does not exist: {certPath}"
  else if !host.pathExists keyPath then .error s!"server key path does not exist: {keyPath}"
  else
    .ok {
      profile := .serverAuth
      cipherPolicy := {}
      trust := { trustAnchorPems := [], requireHostnameVerification := false }
      clientIdentity := some ⟨trim keyPath, [trim certPath]⟩
      expectedServerName := some serverName }

/-- `sessions_by_path.entry(path_id).or_insert_with(..)`: the configuration is built once
more for a new path, and `none` is the panic where that fails by now. An adapter that cannot
be started is kept as it is. -/
def ServerTlsState.entry (host : Host) (tls : ServerTlsState) (pathId : UInt32) :
    Option (ServerTlsState × ServerPathTlsState) :=
  match tls.sessionsByPath[pathId]? with
  | some session => some (tls, session)
  | none =>
    match buildServerTlsCfg host tls.serverName tls.certPath tls.keyPath with
    | .error _ => none
    | .ok cfg =>
      let session := ⟨(OpenSslDtlsAdapter.new.startServer host.openssl cfg).1, false⟩
      some ({ tls with sessionsByPath := tls.sessionsByPath.insert pathId session }, session)

namespace EngineHandle
variable {σ : Type}

def setError (h : EngineHandle σ) (e : HandleError) : EngineHandle σ × Int :=
  ({ h with lastError := some e }, -1)

/-- A datagram with the marker of the handshake goes to the adapter of its path. -/
def onDtlsPacket (h : EngineHandle σ) (tls : ServerTlsState) (session : ServerPathTlsState)
    (pathId : UInt32) (bytes : Bytes) : EngineHandle σ × Int :=
  let (adapter, hs) := session.adapter.onDatagram bytes
  match hs with
  | .ok out =>
    let session := ⟨adapter, session.established || out.established⟩
    ({ h with
        tls := .server { tls with sessionsByPath := tls.sessionsByPath.insert pathId session }
        output := {
          datagrams := out.outboundDatagrams.map fun d => (pathId, d)
          events := if out.established then [.handshakeEstablished pathId] else [] } }, 0)
  | .error e =>
    let session := { session with adapter := adapter }
    { h with
      tls := .server { tls with
        sessionsByPath := tls.sessionsByPath.insert pathId session } }.setError (.tlsDatagram e)

section Store
variable [SessionStore σ] [Base64]

def onFrame (h : EngineHandle σ) (nowMs : UInt64) (pathId : UInt32) (bytes : Bytes) :
    EngineHandle σ × Int :=
  match h.runtime.onDatagram nowMs pathId bytes with
  | (runtime, .ok out) =>
    ({ h with runtime := runtime, output := normalizeServerOutput out }, 0)
  | (runtime, .error e) => { h with runtime := runtime }.setError (.runtime e)

/-- `none` where the call panics. -/
def v3FfiOnDatagram (host : Host) (h : EngineHandle σ) (nowMs : UInt64) (pathId : UInt32)
    (bytes : Bytes) : Option (EngineHandle σ × Int) :=
  match h.tls with
  | .disabled => some (h.onFrame nowMs pathId bytes)
  | .server tls =>
    (tls.entry host pathId).map fun (tls, session) =>
      let h := { h with tls := .server tls }
      if !session.established || isDtlsPacket bytes then
        if isDtlsPacket bytes then h.onDtlsPacket tls session pathId bytes
        else ({ h with output := {} }, 0)
      else h.onFrame nowMs pathId bytes

end Store

def v3FfiNewServer (msrIntervalMs missWindowCount disconnectWindowMs : UInt64) :
    EngineHandle InMemorySessionStore where
  runtime := .new ⟨msrIntervalMs, missWindowCount, disconnectWindowMs⟩ .withDefaultShards
  tls := .disabled
  output := {}
  lastError := none

def v3FfiConfigureServerTls (host : Host) (h : EngineHandle σ)
    (serverName certPath keyPath : Bytes) : EngineHandle σ × Int :=
  match Utf8.decode serverName with
  | none => h.setError (.invalidUtf8 "server_name")
  | some serverName =>
    match Utf8.decode certPath with
    | none => h.setError (.invalidUtf8 "cert_path")
    | some certPath =>
      match Utf8.decode keyPath with
      | none => h.setError (.invalidUtf8 "key_path")
      | some keyPath =>
        match buildServerTlsCfg host serverName certPath keyPath with
        | .error e => h.setError (.tlsConfig e)
        | .ok _ => ({ h with tls := .server ⟨serverName, certPath, keyPath, ∅⟩ }, 0)

end EngineHandle

end Todero.Ffi
