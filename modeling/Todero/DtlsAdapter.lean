import Mathlib.Data.List.DropRight
import Todero.CoreTypes
import Todero.FrameAuth
import Todero.Lib.Utf8

/-! The DTLS adapter of v3-crypto: a handshake in plain text datagrams around an OpenSSL
context that is built and then left alone. What the openssl crate answers is a parameter. -/
namespace Todero.Crypto
open Todero.Wire
open Todero.Core (saturatingAdd)

inductive DtlsVersion where
  | dtls12
  | dtls13
  deriving DecidableEq, Repr

inductive AuthProfile where
  | serverAuth
  | mutualTls
  deriving DecidableEq, Repr

structure CipherPolicy where
  minDtlsVersion : DtlsVersion := .dtls12
  allowWeakSuites : Bool := false
  deriving DecidableEq, Repr

structure TrustConfig where
  trustAnchorPems : List Bytes := []
  requireHostnameVerification : Bool := true
  deriving DecidableEq, Repr

structure ClientIdentityRef where
  keyId : String
  certChainIds : List String
  deriving DecidableEq, Repr

structure HandshakeConfig where
  profile : AuthProfile
  cipherPolicy : CipherPolicy
  trust : TrustConfig
  clientIdentity : Option ClientIdentityRef
  expectedServerName : Option String
  deriving DecidableEq, Repr

structure PeerIdentity where
  subject : String
  certFingerprintSha256 : Vector UInt8 32
  deriving DecidableEq, Repr

structure ExporterBinding where
  cid : UInt64
  pathId : UInt32
  contextHash : Vector UInt8 32
  deriving DecidableEq, Repr

structure HandshakeOutput where
  outboundDatagrams : List Bytes := []
  established : Bool
  peerIdentity : Option PeerIdentity := none
  binding : Option ExporterBinding := none
  deriving DecidableEq, Repr

abbrev HandshakeResult := Except CryptoError HandshakeOutput

inductive AdapterRole where
  | client
  | server
  deriving DecidableEq, Repr

/-! ### Texts -/

/-- `char::is_whitespace`. -/
def isWhitespace (c : Char) : Bool :=
  let n := c.toNat
  (9 ≤ n && n ≤ 13) || n = 0x20 || n = 0x85 || n = 0xa0 || n = 0x1680 ||
    (0x2000 ≤ n && n ≤ 0x200a) || n = 0x2028 || n = 0x2029 || n = 0x202f || n = 0x205f ||
    n = 0x3000

/-- `str::trim`. -/
def trim (s : String) : String :=
  String.ofList ((s.toList.dropWhile isWhitespace).rdropWhile isWhitespace)

/-- `str::split_once`, over characters. -/
def splitOnce (separator : List Char) : List Char → Option (List Char × List Char)
  | [] => if separator = [] then some ([], []) else none
  | c :: cs =>
    if separator.isPrefixOf (c :: cs) then some ([], (c :: cs).drop separator.length)
    else (splitOnce separator cs).map fun (front, back) => (c :: front, back)

/-- `kv.and_then(|k| k.split_once(key).map(|(_, v)| v))`. -/
def valueOf (key : String) (kv : Option String) : Option String :=
  kv.bind fun k => (splitOnce key.toList k.toList).map fun (_, v) => String.ofList v

/-- A datagram that is not UTF-8 is read as an empty text. -/
def parseKv (datagram : Bytes) : String × Option String :=
  let raw := ((Utf8.decode datagram).getD "").toList
  match raw.dropWhile (· ≠ '|') with
  | [] => (String.ofList raw, none)
  | tail =>
    (String.ofList (raw.takeWhile (· ≠ '|')), some (String.ofList (tail.dropWhile (· = '|'))))

theorem takeWhile_until {p : Char → Bool} {front : List Char} {c : Char} (rest : List Char)
    (hfront : ∀ x ∈ front, p x = true) (hc : p c = false) :
    (front ++ c :: rest).takeWhile p = front ∧ (front ++ c :: rest).dropWhile p = c :: rest := by
  constructor
  · rw [List.takeWhile_append_of_pos hfront, List.takeWhile_cons_of_neg (by simp [hc]),
      List.append_nil]
  · rw [List.dropWhile_append_of_pos hfront, List.dropWhile_cons_of_neg (by simp [hc])]

/-- A text made of a head and a value under a key is cut at the bar between them. -/
theorem parseKv_text (head key value : String) (hhead : '|' ∉ head.toList)
    (hkey : key.toList.head? ≠ some '|') (hnil : key.toList ≠ []) :
    parseKv (Utf8.encode (head ++ "|" ++ (key ++ value))) = (head, some (key ++ value)) := by
  have htext : (head ++ "|" ++ (key ++ value)).toList =
      head.toList ++ '|' :: (key.toList ++ value.toList) := by
    simp [String.toList_append]
  have hfront : ∀ x ∈ head.toList, decide (x ≠ '|') = true :=
    fun x hx => by simpa using fun heq : x = '|' => hhead (heq ▸ hx)
  obtain ⟨htake, hdrop⟩ := takeWhile_until (p := (· ≠ '|')) (c := '|')
    (key.toList ++ value.toList) hfront (by simp)
  obtain ⟨c, cs, hc⟩ := List.exists_cons_of_ne_nil hnil
  have hbar : c ≠ '|' := by simpa [hc] using hkey
  have hafter : ('|' :: (key.toList ++ value.toList)).dropWhile (· = '|') =
      key.toList ++ value.toList := by
    simp [hc, hbar]
  unfold parseKv
  simp only [Utf8.decode_encode, Option.getD_some, htext, hdrop, htake, hafter]
  rw [← String.toList_append, String.ofList_toList, String.ofList_toList]

theorem valueOf_text {key : String} (value : String) (hnil : key.toList ≠ []) :
    valueOf key (some (key ++ value)) = some value := by
  obtain ⟨c, cs, hc⟩ := List.exists_cons_of_ne_nil hnil
  have hprefix : (c :: cs).isPrefixOf (c :: (cs ++ value.toList)) = true := by
    rw [List.isPrefixOf_iff_prefix]
    exact ⟨value.toList, rfl⟩
  simp [valueOf, String.toList_append, hc, splitOnce, hprefix]

/-! ### The OpenSSL context -/

/-- What a context was built from; peers are always verified. -/
structure SslContext where
  method : AdapterRole
  failIfNoPeerCert : Bool
  cipherList : Option String := none
  certStore : Option (List Bytes) := none
  certificateFile : Option String := none
  privateKeyFile : Option String := none
  deriving DecidableEq, Repr

/-- Every call may fail, with the text of an error; `stackFromPem` gives the certificates
of a bundle. -/
structure OpenSsl where
  newContext : AdapterRole → Except String Unit
  setCipherList : SslContext → String → Except String Unit
  newStore : Except String Unit
  stackFromPem : Bytes → Except String (List Bytes)
  addCert : List Bytes → Bytes → Except String Unit
  setCertificateFile : SslContext → String → Except String Unit
  setPrivateKeyFile : SslContext → String → Except String Unit
  newSsl : SslContext → Except String Unit

def validateCfg (cfg : HandshakeConfig) : Except CryptoError Unit :=
  if cfg.cipherPolicy.allowWeakSuites then
    .error (.invalidConfig "weak cipher suites are not allowed")
  else if cfg.trust.requireHostnameVerification ∧ trim (cfg.expectedServerName.getD "") = "" then
    .error (.invalidConfig "expected_server_name required when hostname verification is enabled")
  else if cfg.profile = .mutualTls ∧ cfg.clientIdentity = none then
    .error (.invalidConfig "client identity required for mutual TLS profile")
  else .ok ()

section Context
variable (ssl : OpenSsl)

def addCerts (index : Nat) : List Bytes → List Bytes → Except CryptoError (List Bytes)
  | store, [] => .ok store
  | store, cert :: certs => do
    (ssl.addCert store cert).mapError fun e =>
      .invalidConfig s!"failed to add trust anchor certificate at index {index}: {e}"
    addCerts index (store ++ [cert]) certs

def addAnchors : Nat → List Bytes → List Bytes → Except CryptoError (List Bytes)
  | _, store, [] => .ok store
  | index, store, anchorPem :: anchors => do
    let certs ← (ssl.stackFromPem anchorPem).mapError fun e =>
      .invalidConfig s!"invalid trust anchor bundle at index {index}: {e}"
    if certs = [] then
      throw (.invalidConfig
        s!"trust anchor bundle at index {index} does not contain any certificates")
    addAnchors (index + 1) (← addCerts ssl index store certs) anchors

def buildContext (role : AdapterRole) (cfg : HandshakeConfig) : Except CryptoError SslContext := do
  validateCfg cfg
  if cfg.cipherPolicy.minDtlsVersion = .dtls13 then
    throw (.invalidConfig
      "DTLS 1.3 policy requested but OpenSSL adapter currently targets DTLS 1.2")
  (ssl.newContext role).mapError fun e => .provider s!"openssl context build failed: {e}"
  let mut ctx : SslContext := ⟨role, cfg.profile = .mutualTls, none, none, none, none⟩
  if role = .client ∧ cfg.trust.trustAnchorPems = [] then
    throw (.invalidConfig "at least one trust anchor is required for client TLS")
  if !cfg.cipherPolicy.allowWeakSuites then
    (ssl.setCipherList ctx "HIGH:!aNULL:!MD5:!RC4:!DES:!3DES").mapError fun e =>
      .invalidConfig s!"cipher policy reject: {e}"
    ctx := { ctx with cipherList := some "HIGH:!aNULL:!MD5:!RC4:!DES:!3DES" }
  if cfg.trust.trustAnchorPems ≠ [] then
    ssl.newStore.mapError fun e => .provider s!"openssl trust store build failed: {e}"
    ctx := { ctx with certStore := some (← addAnchors ssl 0 [] cfg.trust.trustAnchorPems) }
  if let some id := cfg.clientIdentity then
    if let some certPath := id.certChainIds.head? then
      (ssl.setCertificateFile ctx certPath).mapError fun e =>
        .invalidConfig s!"invalid client certificate file '{certPath}': {e}"
      ctx := { ctx with certificateFile := some certPath }
    (ssl.setPrivateKeyFile ctx id.keyId).mapError fun e =>
      .invalidConfig s!"invalid client private key file '{id.keyId}': {e}"
    ctx := { ctx with privateKeyFile := some id.keyId }
  return ctx

end Context

/-! ### The adapter -/

/-- `ssl` is the context its session was made from. -/
structure OpenSslDtlsAdapter where
  role : Option AdapterRole := none
  cfg : Option HandshakeConfig := none
  established : Bool := false
  ctx : Option SslContext := none
  ssl : Option SslContext := none
  lastFlight : List Bytes := []
  nextRetransmitAtMs : Option UInt64 := none
  flightRtoMs : UInt64 := 1000
  issuedCookie : Option String := none
  deriving DecidableEq, Repr

/-- `DtlsBackendAdapter::established_output`. -/
def establishedOutput (cfg : HandshakeConfig) : HandshakeOutput where
  established := true
  peerIdentity := some ⟨cfg.expectedServerName.getD "peer", Vector.replicate 32 7⟩
  binding := some ⟨0, 0, Vector.replicate 32 9⟩

namespace OpenSslDtlsAdapter
variable (a : OpenSslDtlsAdapter)

def new : OpenSslDtlsAdapter := {}

def queueFlight (nowMs : UInt64) (datagrams : List Bytes) : OpenSslDtlsAdapter × HandshakeOutput :=
  ({ a with
      lastFlight := datagrams
      nextRetransmitAtMs := some (saturatingAdd nowMs a.flightRtoMs) },
    { outboundDatagrams := datagrams, established := a.established })

section Start
variable (openssl : OpenSsl)

/-- The context and the session made from it. -/
def initSsl (role : AdapterRole) (cfg : HandshakeConfig) : Except CryptoError SslContext := do
  let ctx ← buildContext openssl role cfg
  (openssl.newSsl ctx).mapError fun e => .provider s!"openssl ssl init failed: {e}"
  return ctx

def startClient (cfg : HandshakeConfig) : OpenSslDtlsAdapter × HandshakeResult :=
  match initSsl openssl .client cfg with
  | .error e => (a, .error e)
  | .ok ctx =>
    let a := { a with
      role := some .client
      cfg := some cfg
      established := false
      ctx := some ctx
      ssl := some ctx }
    let sni := cfg.expectedServerName.getD "peer"
    (a.queueFlight 0 [Utf8.encode ("DTLS_CLIENT_HELLO|sni=" ++ sni)]).map id .ok

def startServer (cfg : HandshakeConfig) : OpenSslDtlsAdapter × HandshakeResult :=
  match initSsl openssl .server cfg with
  | .error e => (a, .error e)
  | .ok ctx =>
    ({ a with
        role := some .server
        cfg := some cfg
        established := false
        ctx := some ctx
        ssl := some ctx
        lastFlight := []
        nextRetransmitAtMs := none
        issuedCookie := none },
      .ok { established := false })

end Start

/-- The arm of `on_datagram` for a client. -/
def onServerFlight (cfg : HandshakeConfig) (datagram : Bytes) :
    OpenSslDtlsAdapter × HandshakeResult :=
  let (head, kv) := parseKv datagram
  if head = "DTLS_HELLO_VERIFY" then
    match valueOf "cookie=" kv with
    | none => (a, .error (.authFailed "missing hello-verify cookie"))
    | some cookie =>
      (a.queueFlight 0 [Utf8.encode ("DTLS_CLIENT_HELLO_COOKIE|cookie=" ++ cookie)]).map id .ok
  else if head = "DTLS_SERVER_HELLO" then
    let sni := (valueOf "sni=" kv).getD ""
    let expected := cfg.expectedServerName.getD ""
    if cfg.trust.requireHostnameVerification ∧ sni ≠ expected then
      (a, .error (.authFailed s!"server identity mismatch expected '{expected}' got '{sni}'"))
    else
      ({ a with established := true, nextRetransmitAtMs := none }, .ok (establishedOutput cfg))
  else (a, .error (.authFailed "unexpected handshake response"))

/-- The arm of `on_datagram` for a server. -/
def onClientFlight (cfg : HandshakeConfig) (datagram : Bytes) :
    OpenSslDtlsAdapter × HandshakeResult :=
  let (head, kv) := parseKv datagram
  if head = "DTLS_CLIENT_HELLO" then
    let cookie := "cookie-v3"
    let a := { a with issuedCookie := some cookie }
    (a.queueFlight 0 [Utf8.encode ("DTLS_HELLO_VERIFY|cookie=" ++ cookie)]).map id .ok
  else if head = "DTLS_CLIENT_HELLO_COOKIE" then
    let cookie := (valueOf "cookie=" kv).getD ""
    if a.issuedCookie.getD "" ≠ cookie then
      (a, .error (.authFailed "invalid or missing hello-verify cookie"))
    else
      let sni := cfg.expectedServerName.getD "peer"
      -- what is sent here is not kept for another time
      ({ a with established := true, nextRetransmitAtMs := none },
        .ok {
          outboundDatagrams := [Utf8.encode ("DTLS_SERVER_HELLO|sni=" ++ sni)]
          established := true
          peerIdentity := some ⟨"client", Vector.replicate 32 5⟩
          binding := some ⟨0, 0, Vector.replicate 32 11⟩ })
  else (a, .error (.authFailed "unexpected client hello"))

def onDatagram (datagram : Bytes) : OpenSslDtlsAdapter × HandshakeResult :=
  if a.ctx.isNone ∨ a.ssl.isNone then
    (a, .error (.provider "openssl context not initialized"))
  else
    match a.role, a.cfg with
    | none, _ => (a, .error (.provider "handshake not started"))
    | some _, none => (a, .error (.provider "missing config"))
    | some role, some cfg =>
      if a.established then (a, .ok (establishedOutput cfg))
      else
        match role with
        | .client => a.onServerFlight cfg datagram
        | .server => a.onClientFlight cfg datagram

def onTimeout (nowMs : UInt64) : OpenSslDtlsAdapter × HandshakeResult :=
  if a.established then (a, .ok { established := true })
  else
    match a.nextRetransmitAtMs with
    | none => (a, .error (.provider "handshake timed out"))
    | some deadline =>
      if nowMs < deadline then (a, .ok { established := false })
      else if a.lastFlight = [] then (a, .error (.provider "handshake timed out"))
      else (a.queueFlight nowMs a.lastFlight).map id .ok

/-- What a successful start leaves behind and no later call takes back. -/
structure Running (role : AdapterRole) (cfg : HandshakeConfig) : Prop where
  role : a.role = some role
  cfg : a.cfg = some cfg
  ctx : a.ctx.isSome
  ssl : a.ssl.isSome

variable {a} {role : AdapterRole} {cfg : HandshakeConfig}

theorem Running.onDatagram_established (ha : a.Running role cfg) (hest : a.established = true)
    (datagram : Bytes) : a.onDatagram datagram = (a, .ok (establishedOutput cfg)) := by
  obtain ⟨hrole, hcfg, hctx, hssl⟩ := ha
  simp [onDatagram, hrole, hcfg, hest, Option.isSome_iff_ne_none.mp hctx,
    Option.isSome_iff_ne_none.mp hssl]

theorem Running.onDatagram_client (ha : a.Running .client cfg) (hest : a.established = false)
    (datagram : Bytes) : a.onDatagram datagram = a.onServerFlight cfg datagram := by
  obtain ⟨hrole, hcfg, hctx, hssl⟩ := ha
  simp [onDatagram, hrole, hcfg, hest, Option.isSome_iff_ne_none.mp hctx,
    Option.isSome_iff_ne_none.mp hssl]

theorem Running.onDatagram_server (ha : a.Running .server cfg) (hest : a.established = false)
    (datagram : Bytes) : a.onDatagram datagram = a.onClientFlight cfg datagram := by
  obtain ⟨hrole, hcfg, hctx, hssl⟩ := ha
  simp [onDatagram, hrole, hcfg, hest, Option.isSome_iff_ne_none.mp hctx,
    Option.isSome_iff_ne_none.mp hssl]

theorem startServer_ok {openssl : OpenSsl} {a a' : OpenSslDtlsAdapter} {cfg : HandshakeConfig}
    {out : HandshakeOutput} (h : a.startServer openssl cfg = (a', .ok out)) :
    a'.Running .server cfg ∧ a'.established = false ∧ a'.issuedCookie = none ∧
      a'.lastFlight = [] := by
  unfold startServer at h
  split at h
  · simp at h
  · rw [Prod.mk.injEq] at h
    rw [← h.1]
    exact ⟨⟨rfl, rfl, rfl, rfl⟩, rfl, rfl, rfl⟩

end OpenSslDtlsAdapter

end Todero.Crypto
