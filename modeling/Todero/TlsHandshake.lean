import Todero.CookieExchange
import Todero.Lib.Drain

/-! A client and a server adapter with the same expected server name and the datagrams
between them, and whether a timeout of the client completes a handshake of which
datagrams were lost. -/
namespace Todero.Crypto
open Todero.Wire Transition Duplex
open Todero.Core (saturatingAdd)

instance : Fintype AdapterRole := ⟨{.client, .server}, fun r => by cases r <;> simp⟩

def AdapterRole.peer : AdapterRole → AdapterRole
  | .client => .server
  | .server => .client

inductive HandshakeCall where
  | start
  | timeout (nowMs : UInt64)

def datagramsOf : HandshakeResult → List Bytes
  | .ok out => out.outboundDatagrams
  | .error _ => []

/-- Either end. Only the client is started again; the server is running throughout. -/
def tlsEnd (openssl : OpenSsl) (clientCfg : HandshakeConfig) :
    Party OpenSslDtlsAdapter HandshakeCall Unit Bytes HandshakeResult where
  call a
    | .start =>
      if a.role = some .server then none
      else
        let (a', res) := a.startClient openssl clientCfg
        some (a', datagramsOf res, res)
    | .timeout nowMs =>
      let (a', res) := a.onTimeout nowMs
      some (a', datagramsOf res, res)
  recv a _ bytes :=
    let (a', res) := a.onDatagram bytes
    (a', datagramsOf res, res)

abbrev TlsWorld := Net AdapterRole OpenSslDtlsAdapter Bytes
abbrev TlsMove := Action AdapterRole HandshakeCall Unit

section World
variable (openssl : OpenSsl) (clientCfg : HandshakeConfig)

def TlsWorld.step (w : TlsWorld) (a : TlsMove) : Option (TlsWorld × Option HandshakeResult) :=
  Net.step AdapterRole.peer (tlsEnd openssl clientCfg) w a

/-- One datagram in flight is delivered. -/
def TlsWorld.Delivers (w w' : TlsWorld) : Prop :=
  Net.Delivers AdapterRole.peer (tlsEnd openssl clientCfg) w w'

/-- A client that has not started yet, and a server. -/
def TlsWorld.start (server : OpenSslDtlsAdapter) : TlsWorld :=
  ⟨fun
    | .client => .new
    | .server => server, fun _ => []⟩

end World

/-! ### The four flights -/

inductive Flight where
  | clientHello
  | helloVerify
  | clientHelloCookie
  | serverHello
  deriving DecidableEq

namespace Flight

def head : Flight → String
  | clientHello => "DTLS_CLIENT_HELLO"
  | helloVerify => "DTLS_HELLO_VERIFY"
  | clientHelloCookie => "DTLS_CLIENT_HELLO_COOKIE"
  | serverHello => "DTLS_SERVER_HELLO"

def key : Flight → String
  | clientHello | serverHello => "sni="
  | helloVerify | clientHelloCookie => "cookie="

/-- `name` is the server name both ends expect. -/
def value (name : Option String) : Flight → String
  | clientHello | serverHello => name.getD "peer"
  | helloVerify | clientHelloCookie => "cookie-v3"

def bytes (name : Option String) (f : Flight) : Bytes :=
  Utf8.encode (f.head ++ "|" ++ (f.key ++ f.value name))

variable (name : Option String) (f : Flight)

theorem parsed : ∃ kv, parseKv (f.bytes name) = (f.head, kv) ∧
    valueOf f.key kv = some (f.value name) := by
  have hkey : f.key.toList ≠ [] := by cases f <;> decide
  exact ⟨_, parseKv_text _ _ _ (by cases f <;> decide) (by cases f <;> decide) hkey,
    valueOf_text _ hkey⟩

theorem head_bytes : (parseKv (f.bytes name)).1 = f.head := by
  obtain ⟨kv, hkv, -⟩ := f.parsed name
  rw [hkv]

theorem head_inj {f g : Flight} (h : f.head = g.head) : f = g := by
  revert h
  cases f <;> cases g <;> decide

theorem bytes_inj {name : Option String} {f g : Flight} (h : f.bytes name = g.bytes name) :
    f = g := by
  have hhead := congrArg (fun d => (parseKv d).1) h
  exact head_inj (by simpa only [head_bytes] using hhead)

theorem clientHello_bytes : clientHello.bytes name =
    Utf8.encode ("DTLS_CLIENT_HELLO|sni=" ++ name.getD "peer") := by
  rw [bytes, ← String.append_assoc]
  rfl

theorem helloVerify_bytes : helloVerify.bytes name = OpenSslDtlsAdapter.verifyFlight := by
  rw [bytes, ← String.append_assoc]
  rfl

theorem clientHelloCookie_bytes : clientHelloCookie.bytes name =
    Utf8.encode ("DTLS_CLIENT_HELLO_COOKIE|cookie=" ++ "cookie-v3") := by
  rw [bytes, ← String.append_assoc]
  rfl

theorem serverHello_bytes : serverHello.bytes name =
    Utf8.encode ("DTLS_SERVER_HELLO|sni=" ++ name.getD "peer") := by
  rw [bytes, ← String.append_assoc]
  rfl

/-- More than the answer to it. -/
def weight (d : Bytes) : Nat :=
  if (parseKv d).1 = "DTLS_CLIENT_HELLO" then 4
  else if (parseKv d).1 = "DTLS_HELLO_VERIFY" then 3
  else if (parseKv d).1 = "DTLS_CLIENT_HELLO_COOKIE" then 2
  else 1

theorem weight_bytes : weight (f.bytes name) =
    match f with
    | clientHello => 4
    | helloVerify => 3
    | clientHelloCookie => 2
    | serverHello => 1 := by
  rw [weight, head_bytes]
  cases f <;> rfl

end Flight

/-! ### What each end does with the flights of the other -/

section Ends
variable {cfg clientCfg serverCfg : HandshakeConfig} {openssl : OpenSsl}
variable {a a' : OpenSslDtlsAdapter}

theorem validateCfg_named (h : validateCfg cfg = .ok ())
    (hverify : cfg.trust.requireHostnameVerification = true) :
    ∃ name, cfg.expectedServerName = some name := by
  cases hname : cfg.expectedServerName with
  | some name => exact ⟨name, rfl⟩
  | none =>
    have hblank : trim "" = "" := by decide
    simp [validateCfg, hverify, hname, hblank] at h
    split_ifs at h

theorem initSsl_validated {role : AdapterRole} {ctx : SslContext}
    (h : OpenSslDtlsAdapter.initSsl openssl role cfg = .ok ctx) : validateCfg cfg = .ok () := by
  cases hvalid : validateCfg cfg with
  | ok _ => rfl
  | error e =>
    simp [OpenSslDtlsAdapter.initSsl, buildContext, hvalid, bind, Except.bind] at h

namespace OpenSslDtlsAdapter

/-- A client without a context, as `new` makes it. -/
structure Idle (a : OpenSslDtlsAdapter) : Prop where
  role : a.role = none
  ctx : a.ctx = none
  established : a.established = false
  deadline : a.nextRetransmitAtMs = none

theorem Idle.onDatagram_eq (ha : a.Idle) (d : Bytes) :
    a.onDatagram d = (a, .error (.provider "openssl context not initialized")) := by
  simp [onDatagram, ha.ctx]

theorem Idle.onTimeout_eq (ha : a.Idle) (nowMs : UInt64) :
    a.onTimeout nowMs = (a, .error (.provider "handshake timed out")) := by
  simp [onTimeout, ha.established, ha.deadline]

/-- The flight a client sends again until it is established. -/
structure Calling (cfg : HandshakeConfig) (a : OpenSslDtlsAdapter) (f : Flight) : Prop where
  running : a.Running .client cfg
  flight : a.lastFlight = [f.bytes cfg.expectedServerName]
  deadline : ∃ deadline, a.nextRetransmitAtMs = some deadline

theorem Calling.onTimeout_due {f : Flight} {nowMs deadline : UInt64} (ha : a.Calling cfg f)
    (hest : a.established = false) (hdeadline : a.nextRetransmitAtMs = some deadline)
    (hdue : deadline ≤ nowMs) :
    a.onTimeout nowMs =
      ({ a with nextRetransmitAtMs := some (saturatingAdd nowMs a.flightRtoMs) },
        .ok {
          outboundDatagrams := [f.bytes cfg.expectedServerName]
          established := false }) := by
  simp [onTimeout, hest, hdeadline, UInt64.not_lt.mpr hdue, ha.flight, queueFlight]

theorem startClient_cases (a : OpenSslDtlsAdapter) (openssl : OpenSsl) (cfg : HandshakeConfig) :
    (∃ e, a.startClient openssl cfg = (a, .error e)) ∨
      ∃ a', a.startClient openssl cfg = (a', .ok {
          outboundDatagrams := [Flight.clientHello.bytes cfg.expectedServerName]
          established := false }) ∧
        a'.Calling cfg .clientHello ∧ a'.established = false ∧ validateCfg cfg = .ok () := by
  rw [Flight.clientHello_bytes]
  unfold startClient
  cases hinit : initSsl openssl .client cfg with
  | error e => exact .inl ⟨e, rfl⟩
  | ok ctx =>
    refine .inr ⟨_, rfl, ⟨⟨rfl, rfl, rfl, rfl⟩, ?_, _, rfl⟩, rfl, initSsl_validated hinit⟩
    rw [Flight.clientHello_bytes]
    rfl

theorem Running.onHelloVerify (ha : a.Running .client cfg) (hest : a.established = false) :
    ∃ a', a.onDatagram (Flight.helloVerify.bytes cfg.expectedServerName) = (a', .ok {
        outboundDatagrams := [Flight.clientHelloCookie.bytes cfg.expectedServerName]
        established := false }) ∧
      a'.Calling cfg .clientHelloCookie ∧ a'.established = false := by
  refine ⟨{ a with
      lastFlight := [Flight.clientHelloCookie.bytes cfg.expectedServerName]
      nextRetransmitAtMs := some (saturatingAdd 0 a.flightRtoMs) }, ?_,
    ⟨⟨ha.role, ha.cfg, ha.ctx, ha.ssl⟩, rfl, _, rfl⟩, hest⟩
  obtain ⟨kv, hkv, hvalue⟩ := Flight.helloVerify.parsed cfg.expectedServerName
  have hcookie : valueOf "cookie=" kv = some "cookie-v3" := hvalue
  rw [ha.onDatagram_client hest, Flight.clientHelloCookie_bytes]
  simp only [onServerFlight, hkv, Flight.head, if_true, hcookie, queueFlight, hest, Prod.map_apply,
    id_eq]

theorem Running.onServerHello (ha : a.Running .client cfg) (hest : a.established = false)
    (hvalid : validateCfg cfg = .ok ()) :
    a.onDatagram (Flight.serverHello.bytes cfg.expectedServerName) =
      ({ a with established := true, nextRetransmitAtMs := none },
        .ok (establishedOutput cfg)) := by
  obtain ⟨kv, hkv, hvalue⟩ := Flight.serverHello.parsed cfg.expectedServerName
  have hsni : valueOf "sni=" kv = some (cfg.expectedServerName.getD "peer") := hvalue
  have hname : ¬ (cfg.trust.requireHostnameVerification = true ∧
      cfg.expectedServerName.getD "peer" ≠ cfg.expectedServerName.getD "") := by
    rintro ⟨hverify, hne⟩
    obtain ⟨name, hname⟩ := validateCfg_named hvalid hverify
    rw [hname] at hne
    exact hne rfl
  rw [ha.onDatagram_client hest]
  simp only [onServerFlight, hkv, Flight.head, String.reduceEq, if_false, if_true, hsni,
    Option.getD_some, hname]

theorem Running.onClientHello (ha : a.Running .server cfg) (hest : a.established = false) :
    a.onDatagram (Flight.clientHello.bytes cfg.expectedServerName) =
      ({ a with
          issuedCookie := some "cookie-v3"
          lastFlight := [Flight.helloVerify.bytes cfg.expectedServerName]
          nextRetransmitAtMs := some (saturatingAdd 0 a.flightRtoMs) },
        .ok {
          outboundDatagrams := [Flight.helloVerify.bytes cfg.expectedServerName]
          established := false }) := by
  obtain ⟨kv, hkv, -⟩ := Flight.clientHello.parsed cfg.expectedServerName
  rw [ha.onDatagram_server hest, Flight.helloVerify_bytes]
  simp only [onClientFlight, hkv, Flight.head, if_true, queueFlight, hest, Prod.map_apply, id_eq]
  rfl

theorem Running.onClientHelloCookie (ha : a.Running .server cfg) (hest : a.established = false)
    (hcookie : a.issuedCookie = some "cookie-v3") :
    a.onDatagram (Flight.clientHelloCookie.bytes cfg.expectedServerName) =
      ({ a with established := true, nextRetransmitAtMs := none }, .ok (serverHello cfg)) := by
  obtain ⟨kv, hkv, hvalue⟩ := Flight.clientHelloCookie.parsed cfg.expectedServerName
  have hsame : valueOf "cookie=" kv = some "cookie-v3" := hvalue
  rw [ha.onDatagram_server hest]
  simp only [onClientFlight, hkv, Flight.head, String.reduceEq, if_false, if_true, hsame, hcookie,
    Option.getD_some, ne_eq, not_true_eq_false]
  rfl

end OpenSslDtlsAdapter

end Ends

/-! ### What holds between the two ends -/

/-- What the server must have done for a flight to be on its way to an end. -/
def Flight.Due (server : OpenSslDtlsAdapter) : AdapterRole → Flight → Prop
  | .server, .clientHello => True
  | .server, .clientHelloCookie | .client, .helloVerify => server.issuedCookie = some "cookie-v3"
  | .client, .serverHello => server.established = true
  | _, _ => False

/-- A client that has started goes on with a flight until it is established. -/
def OpenSslDtlsAdapter.ClientSide (clientCfg : HandshakeConfig)
    (client server : OpenSslDtlsAdapter) : Prop :=
  client.Idle ∨ validateCfg clientCfg = .ok () ∧ client.Running .client clientCfg ∧
    (client.established = false →
      ∃ f, client.Calling clientCfg f ∧ Flight.Due server .server f) ∧
    (client.established = true → server.established = true)

structure OpenSslDtlsAdapter.ServerSide (serverCfg : HandshakeConfig)
    (server : OpenSslDtlsAdapter) : Prop where
  running : server.Running .server serverCfg
  kept : ∀ d ∈ server.lastFlight,
    d = Flight.helloVerify.bytes serverCfg.expectedServerName ∧
      server.issuedCookie = some "cookie-v3"

structure TlsWorld.Paired (clientCfg serverCfg : HandshakeConfig) (w : TlsWorld) : Prop where
  client : (w.core .client).ClientSide clientCfg (w.core .server)
  server : (w.core .server).ServerSide serverCfg
  flight : ∀ r, ∀ d ∈ w.inbox r,
    ∃ f : Flight, d = f.bytes serverCfg.expectedServerName ∧ f.Due (w.core .server) r

/-- What a flight does at an end, and what that end answers. -/
inductive Heard (clientCfg serverCfg : HandshakeConfig) :
    AdapterRole → Flight → OpenSslDtlsAdapter → OpenSslDtlsAdapter → List Flight → Prop
  | ignored {r : AdapterRole} {f : Flight} {a : OpenSslDtlsAdapter} :
      a.established = true ∨ a.Idle → Heard clientCfg serverCfg r f a a []
  | called {a a' : OpenSslDtlsAdapter} : validateCfg clientCfg = .ok () →
      a.established = false → a'.Calling clientCfg .clientHelloCookie → a'.established = false →
      Heard clientCfg serverCfg .client .helloVerify a a' [.clientHelloCookie]
  | finished {a a' : OpenSslDtlsAdapter} : validateCfg clientCfg = .ok () →
      a.established = false → a'.Running .client clientCfg → a'.established = true →
      Heard clientCfg serverCfg .client .serverHello a a' []
  | verified {a a' : OpenSslDtlsAdapter} : a.established = false → a'.ServerSide serverCfg →
      a'.established = false → a'.issuedCookie = some "cookie-v3" →
      Heard clientCfg serverCfg .server .clientHello a a' [.helloVerify]
  | accepted {a a' : OpenSslDtlsAdapter} : a.established = false → a'.ServerSide serverCfg →
      a'.established = true → a'.issuedCookie = a.issuedCookie →
      Heard clientCfg serverCfg .server .clientHelloCookie a a' [.serverHello]

section Pair
variable {clientCfg serverCfg : HandshakeConfig} {openssl : OpenSsl}
variable {w w' : TlsWorld} {r : AdapterRole} {f : Flight}

theorem Heard.weight_lt {a a' : OpenSslDtlsAdapter} {fs : List Flight} {name : Option String}
    (h : Heard clientCfg serverCfg r f a a' fs) :
    ((fs.map (Flight.bytes name)).map Flight.weight).sum < Flight.weight (f.bytes name) := by
  have hpos : 0 < Flight.weight (f.bytes name) := by
    rw [Flight.weight_bytes]
    cases f <;> decide
  cases h with
  | ignored => exact hpos
  | called => simp [Flight.weight_bytes]
  | finished => exact hpos
  | verified => simp [Flight.weight_bytes]
  | accepted => simp [Flight.weight_bytes]

/-- Both ends write the four flights alike. -/
theorem TlsWorld.Paired.heard (openssl : OpenSsl)
    (hname : clientCfg.expectedServerName = serverCfg.expectedServerName)
    (hw : w.Paired clientCfg serverCfg) (hdue : f.Due (w.core .server) r) (t : Unit) :
    ∃ a' fs res, (tlsEnd openssl clientCfg).recv (w.core r) t
        (f.bytes serverCfg.expectedServerName) =
          (a', fs.map (Flight.bytes serverCfg.expectedServerName), res) ∧
      Heard clientCfg serverCfg r f (w.core r) a' fs := by
  simp only [tlsEnd]
  cases r with
  | client =>
    rcases hw.client with hidle | ⟨hvalid, hrunning, -, -⟩
    · rw [hidle.onDatagram_eq]
      exact ⟨_, [], _, rfl, .ignored (.inr hidle)⟩
    cases hest : (w.core .client).established with
    | true =>
      rw [hrunning.onDatagram_established hest]
      exact ⟨_, [], _, rfl, .ignored (.inl hest)⟩
    | false =>
      rw [← hname]
      cases f with
      | helloVerify =>
        obtain ⟨a', heq, hcalling, hest'⟩ := hrunning.onHelloVerify hest
        rw [heq]
        exact ⟨a', [.clientHelloCookie], _, rfl, .called hvalid hest hcalling hest'⟩
      | serverHello =>
        rw [hrunning.onServerHello hest hvalid]
        exact ⟨_, [], _, rfl, .finished hvalid hest
          ⟨hrunning.role, hrunning.cfg, hrunning.ctx, hrunning.ssl⟩ rfl⟩
      | clientHello | clientHelloCookie => exact hdue.elim
  | server =>
    have hrunning := hw.server.running
    cases hest : (w.core .server).established with
    | true =>
      rw [hrunning.onDatagram_established hest]
      exact ⟨_, [], _, rfl, .ignored (.inl hest)⟩
    | false =>
      cases f with
      | clientHello =>
        rw [hrunning.onClientHello hest]
        refine ⟨_, [.helloVerify], _, rfl, .verified hest
          ⟨⟨hrunning.role, hrunning.cfg, hrunning.ctx, hrunning.ssl⟩, fun d hd => ?_⟩ hest rfl⟩
        exact ⟨List.mem_singleton.mp hd, rfl⟩
      | clientHelloCookie =>
        rw [hrunning.onClientHelloCookie hest hdue]
        have hsent : datagramsOf (.ok (OpenSslDtlsAdapter.serverHello serverCfg)) =
            [Flight.serverHello].map (Flight.bytes serverCfg.expectedServerName) := by
          rw [List.map_singleton, Flight.serverHello_bytes]
          rfl
        exact ⟨_, [.serverHello], _, congrArg (fun ds => (_, ds, _)) hsent, .accepted hest
          ⟨⟨hrunning.role, hrunning.cfg, hrunning.ctx, hrunning.ssl⟩, hw.server.kept⟩ rfl rfl⟩
      | helloVerify | serverHello => exact hdue.elim

namespace TlsWorld.Paired
variable (hname : clientCfg.expectedServerName = serverCfg.expectedServerName)

theorem commit_client (hw : w.Paired clientCfg serverCfg) {a : OpenSslDtlsAdapter}
    {ds : List Bytes} (ha : a.ClientSide clientCfg (w.core .server))
    (hds : ∀ d ∈ ds, ∃ f : Flight, d = f.bytes serverCfg.expectedServerName ∧
      f.Due (w.core .server) .server) :
    TlsWorld.Paired clientCfg serverCfg (w.commit AdapterRole.peer .client a ds) := by
  have hserver : (w.commit AdapterRole.peer .client a ds).core .server = w.core .server := by
    simp
  refine ⟨?_, hserver ▸ hw.server, fun r d hd => ?_⟩
  · rw [hserver, Net.commit_core, Function.update_self]
    exact ha
  · rw [hserver]
    rcases (Net.mem_commit w .client r a ds d AdapterRole.peer).mp hd with hold | ⟨rfl, hnew⟩
    · exact hw.flight r d hold
    · exact hds d hnew

theorem commit_server (hw : w.Paired clientCfg serverCfg) {a : OpenSslDtlsAdapter}
    {ds : List Bytes} (ha : a.ServerSide serverCfg)
    (hissued : (w.core .server).issuedCookie = some "cookie-v3" →
      a.issuedCookie = some "cookie-v3")
    (hest : (w.core .server).established = true → a.established = true)
    (hds : ∀ d ∈ ds, ∃ f : Flight, d = f.bytes serverCfg.expectedServerName ∧ f.Due a .client) :
    TlsWorld.Paired clientCfg serverCfg (w.commit AdapterRole.peer .server a ds) := by
  have hserver : (w.commit AdapterRole.peer .server a ds).core .server = a := by simp
  have hclient : (w.commit AdapterRole.peer .server a ds).core .client = w.core .client := by simp
  have hgrow : ∀ {r : AdapterRole} {f : Flight}, f.Due (w.core .server) r → f.Due a r := by
    intro r f hdue
    cases r <;> cases f
    · exact hdue
    · exact hissued hdue
    · exact hdue
    · exact hest hdue
    · exact hdue
    · exact hdue
    · exact hissued hdue
    · exact hdue
  refine ⟨?_, hserver.symm ▸ ha, fun r d hd => ?_⟩
  · rw [hserver, hclient]
    rcases hw.client with hidle | ⟨hvalid, hrunning, hcalling, hboth⟩
    · exact .inl hidle
    · refine .inr ⟨hvalid, hrunning, fun hfresh => ?_, fun hdone => hest (hboth hdone)⟩
      obtain ⟨f, hf, hdue⟩ := hcalling hfresh
      exact ⟨f, hf, hgrow hdue⟩
  · rw [hserver]
    rcases (Net.mem_commit w .server r a ds d AdapterRole.peer).mp hd with hold | ⟨rfl, hnew⟩
    · obtain ⟨f, rfl, hdue⟩ := hw.flight r d hold
      exact ⟨f, rfl, hgrow hdue⟩
    · exact hds d hnew

theorem remove (hw : w.Paired clientCfg serverCfg) (r : AdapterRole) (i : Nat) :
    TlsWorld.Paired clientCfg serverCfg (w.remove r i) :=
  ⟨hw.client, hw.server, fun q d hd => hw.flight q d (Net.mem_of_remove hd)⟩

theorem hears (hw : w.Paired clientCfg serverCfg) (hdue : f.Due (w.core .server) r)
    {a : OpenSslDtlsAdapter} {fs : List Flight}
    (hheard : Heard clientCfg serverCfg r f (w.core r) a fs) :
    TlsWorld.Paired clientCfg serverCfg (w.commit AdapterRole.peer r a
      (fs.map (Flight.bytes serverCfg.expectedServerName))) := by
  cases hheard with
  | ignored =>
    rw [List.map_nil, Net.commit_same]
    exact hw
  | called hvalid hfresh hcalling hfresh' =>
    refine hw.commit_client (.inr ⟨hvalid, hcalling.running, fun _ => ⟨_, hcalling, hdue⟩, ?_⟩) ?_
    · simp [hfresh']
    · exact fun d hd => ⟨_, List.mem_singleton.mp hd, hdue⟩
  | finished hvalid hfresh hrunning hest =>
    exact hw.commit_client (.inr ⟨hvalid, hrunning, by simp [hest], fun _ => hdue⟩) (by simp)
  | verified hfresh hside hfresh' hissued =>
    refine hw.commit_server hside (fun _ => hissued) (by simp [hfresh]) ?_
    exact fun d hd => ⟨_, List.mem_singleton.mp hd, hissued⟩
  | accepted hfresh hside hest hissued =>
    refine hw.commit_server hside (fun h => hissued.trans h) (fun _ => hest) ?_
    exact fun d hd => ⟨_, List.mem_singleton.mp hd, hest⟩

include hname in
/-- A timeout at either end: nothing, or the last flight once more. -/
theorem timeout (hw : w.Paired clientCfg serverCfg) (r : AdapterRole) (nowMs : UInt64) :
    TlsWorld.Paired clientCfg serverCfg (w.commit AdapterRole.peer r
      ((w.core r).onTimeout nowMs).1 (datagramsOf ((w.core r).onTimeout nowMs).2)) := by
  have hsame : ∀ ds : List Bytes, ds = [] → TlsWorld.Paired clientCfg serverCfg
      (w.commit AdapterRole.peer r (w.core r) ds) := by
    rintro ds rfl
    rw [Net.commit_same]
    exact hw
  generalize hcalled : (w.core r).onTimeout nowMs = called
  have hserved : OpenSslDtlsAdapter.Served clientCfg (w.core r) (.timeout nowMs)
      ((w.core r).onTimeout nowMs) := OpenSslDtlsAdapter.onTimeout_served nowMs
  rw [hcalled] at hserved
  cases hserved with
  | done _ out _ _ hnone => exact hsame _ hnone
  | refused => exact hsame _ rfl
  | waited => exact hsame _ rfl
  | resent _ hfresh =>
    cases r with
    | client =>
      rcases hw.client with hidle | ⟨hvalid, hrunning, hcalling, -⟩
      · have hres := congrArg Prod.snd hcalled
        rw [hidle.onTimeout_eq] at hres
        cases hres
      · obtain ⟨f, hf, hdue⟩ := hcalling hfresh
        have hagain : OpenSslDtlsAdapter.Calling clientCfg
            { w.core .client with
              nextRetransmitAtMs := some (saturatingAdd nowMs (w.core .client).flightRtoMs) } f :=
          ⟨⟨hrunning.role, hrunning.cfg, hrunning.ctx, hrunning.ssl⟩, hf.flight, _, rfl⟩
        refine hw.commit_client (.inr ⟨hvalid, hagain.running, fun _ => ⟨f, hagain, hdue⟩, ?_⟩) ?_
        · simp [hfresh]
        · intro d hd
          rw [datagramsOf, hf.flight, List.mem_singleton] at hd
          exact ⟨f, hd.trans (by rw [hname]), hdue⟩
    | server =>
      have hrunning := hw.server.running
      refine hw.commit_server ⟨⟨hrunning.role, hrunning.cfg, hrunning.ctx, hrunning.ssl⟩,
        hw.server.kept⟩ id id fun d hd => ?_
      obtain ⟨rfl, hissued⟩ := hw.server.kept d hd
      exact ⟨.helloVerify, rfl, hissued⟩

include hname in
/-- What one delivery is. -/
theorem delivered (hw : w.Paired clientCfg serverCfg) (hd : w.Delivers openssl clientCfg w') :
    ∃ r i f a fs, (w.inbox r)[i]? = some (Flight.bytes serverCfg.expectedServerName f) ∧
      f.Due (w.core .server) r ∧ Heard clientCfg serverCfg r f (w.core r) a fs ∧
      w' = (w.remove r i).commit AdapterRole.peer r a
        (fs.map (Flight.bytes serverCfg.expectedServerName)) := by
  obtain ⟨r, i, t, o, hs⟩ := hd
  simp only [Net.step, Option.map_eq_some_iff, Prod.mk.injEq] at hs
  obtain ⟨d, hd, heq, -⟩ := hs
  obtain ⟨f, rfl, hdue⟩ := hw.flight r d (List.mem_of_getElem? hd)
  obtain ⟨a, fs, res, hrecv, hheard⟩ := hw.heard openssl hname hdue t
  refine ⟨r, i, f, a, fs, hd, hdue, hheard, heq.symm.trans ?_⟩
  exact congrArg (fun x => (w.remove r i).commit AdapterRole.peer r x.1 x.2.1) hrecv

include hname in
theorem step (hw : w.Paired clientCfg serverCfg) {a : TlsMove} {o : Option HandshakeResult}
    (hs : w.step openssl clientCfg a = some (w', o)) : w'.Paired clientCfg serverCfg := by
  cases a with
  | call r k =>
    simp only [TlsWorld.step, Net.step, Option.map_eq_some_iff, Prod.mk.injEq] at hs
    obtain ⟨⟨s, ds, res⟩, hcall, rfl, -⟩ := hs
    cases k with
    | timeout nowMs =>
      simp only [tlsEnd, Option.some.injEq, Prod.mk.injEq] at hcall
      obtain ⟨rfl, rfl, -⟩ := hcall
      exact hw.timeout hname r nowMs
    | start =>
      simp only [tlsEnd, Option.ite_none_left_eq_some, Option.some.injEq, Prod.mk.injEq] at hcall
      obtain ⟨hrole, rfl, rfl, -⟩ := hcall
      cases r with
      | server => exact absurd hw.server.running.role hrole
      | client =>
        rcases (w.core .client).startClient_cases openssl clientCfg with
          ⟨e, heq⟩ | ⟨a', heq, hcalling, hfresh, hvalid⟩
        · rw [heq, datagramsOf, Net.commit_same]
          exact hw
        · rw [heq]
          refine hw.commit_client (.inr ⟨hvalid, hcalling.running, fun _ => ⟨_, hcalling, trivial⟩,
            ?_⟩) ?_
          · simp [hfresh]
          · intro d hd
            rw [datagramsOf, List.mem_singleton] at hd
            exact ⟨.clientHello, hd.trans (by rw [hname]), trivial⟩
  | deliver r i t =>
    obtain ⟨r, i, f, a, fs, -, hdue, hheard, rfl⟩ := hw.delivered hname ⟨r, i, t, o, hs⟩
    exact (hw.remove r i).hears hdue hheard
  | drop r i =>
    simp only [TlsWorld.step, Net.step, Option.map_eq_some_iff, Prod.mk.injEq] at hs
    obtain ⟨d, -, rfl, -⟩ := hs
    exact hw.remove r i
  | duplicate r i =>
    simp only [TlsWorld.step, Net.step, Option.map_eq_some_iff, Prod.mk.injEq] at hs
    obtain ⟨d, hd, rfl, -⟩ := hs
    refine ⟨hw.client, hw.server, fun q e he => ?_⟩
    rcases (Net.mem_add w r q [d] e).mp he with hold | ⟨rfl, hnew⟩
    · exact hw.flight q e hold
    · rw [List.mem_singleton.mp hnew]
      exact hw.flight q d (List.mem_of_getElem? hd)

include hname in
theorem of_run {serverSsl : OpenSsl} {server : OpenSslDtlsAdapter} {started : HandshakeOutput}
    (hstart : OpenSslDtlsAdapter.new.startServer serverSsl serverCfg = (server, .ok started))
    {h : List (Taken TlsWorld TlsMove (Option HandshakeResult))}
    (hrun : Run (TlsWorld.step openssl clientCfg) (TlsWorld.start server) h w) :
    w.Paired clientCfg serverCfg := by
  refine hrun.invariant (A := fun _ => True) (I := fun _ w => TlsWorld.Paired clientCfg serverCfg w)
    ?_ (fun _ _ _ _ _ hw hs _ => hw.step hname hs) fun _ _ => trivial
  obtain ⟨hrunning, -, -, hflight⟩ := OpenSslDtlsAdapter.startServer_ok hstart
  refine ⟨.inl ⟨rfl, rfl, rfl, rfl⟩, ⟨hrunning, fun d hd => ?_⟩, fun r d hd => ?_⟩
  · rw [TlsWorld.start, hflight] at hd
    cases hd
  · cases hd

end TlsWorld.Paired

/-! ### Whether a handshake is going to be completed -/

/-- Something is on its way to a server that is waiting, and the last answer to a client
that is. -/
structure TlsWorld.Live (serverCfg : HandshakeConfig) (w : TlsWorld) : Prop where
  started : ¬ (w.core .client).Idle
  fresh : (w.core .server).established = false → ∃ r, w.inbox r ≠ []
  answered : (w.core .server).established = true → (w.core .client).established = false →
    Flight.serverHello.bytes serverCfg.expectedServerName ∈ w.inbox .client

/-- The server has answered for the last time, and the answer is gone. -/
structure TlsWorld.Stuck (serverCfg : HandshakeConfig) (w : TlsWorld) : Prop where
  server : (w.core .server).established = true
  client : (w.core .client).established = false
  lost : Flight.serverHello.bytes serverCfg.expectedServerName ∉ w.inbox .client

theorem TlsWorld.remove_ignored (w : TlsWorld) (r : AdapterRole) (i : Nat) :
    (w.remove r i).commit AdapterRole.peer r (w.core r) [] = w.remove r i :=
  Net.commit_same AdapterRole.peer (w.remove r i) r

section Settling
variable (hname : clientCfg.expectedServerName = serverCfg.expectedServerName)

theorem OpenSslDtlsAdapter.Running.not_idle {a : OpenSslDtlsAdapter} {r : AdapterRole}
    {cfg : HandshakeConfig} (h : a.Running r cfg) : ¬ a.Idle := by
  intro hidle
  have hrole := hidle.role
  rw [h.role] at hrole
  cases hrole

include hname in
theorem TlsWorld.Live.delivered (hl : w.Live serverCfg) (hw : w.Paired clientCfg serverCfg)
    (hd : w.Delivers openssl clientCfg w') : w'.Live serverCfg := by
  obtain ⟨r, i, f, a, fs, hi, hdue, hheard, rfl⟩ := hw.delivered hname hd
  -- a flight that is answered was not the last one, so the last one stays
  have hstays : f ≠ .serverHello →
      Flight.serverHello.bytes serverCfg.expectedServerName ∈ w.inbox .client →
      Flight.serverHello.bytes serverCfg.expectedServerName ∈ (w.remove r i).inbox .client :=
    fun hne hmem => Net.mem_remove hi hmem fun _ heq => hne (Flight.bytes_inj heq).symm
  cases hheard with
  | ignored hest =>
    rw [List.map_nil, TlsWorld.remove_ignored]
    cases r with
    | client =>
      have hdone := hest.resolve_right hl.started
      rcases hw.client with hidle | ⟨-, -, -, hboth⟩
      · exact absurd hidle hl.started
      · refine ⟨hl.started, fun hfresh => ?_, fun _ hfresh => ?_⟩
        · simp [hboth hdone] at hfresh
        · simp [hdone] at hfresh
    | server =>
      have hdone := hest.resolve_right hw.server.running.not_idle
      refine ⟨hl.started, fun hfresh => ?_, fun hd hfresh => ?_⟩
      · simp [hdone] at hfresh
      · exact Net.mem_remove hi (hl.answered hd hfresh) fun h => by cases h
  | called _ hfresh hcalling =>
    refine ⟨?_, fun _ => ⟨.server, ?_⟩, fun hd _ => ?_⟩
    · simpa using hcalling.running.not_idle
    · exact List.ne_nil_of_mem ((Net.mem_commit _ _ _ _ _ _ _).mpr
        (.inr ⟨rfl, List.mem_singleton_self _⟩))
    · exact (Net.mem_commit _ _ _ _ _ _ _).mpr (.inl (hstays nofun (hl.answered hd hfresh)))
  | finished _ _ hrunning hest =>
    refine ⟨?_, fun hfresh => ?_, fun _ hfresh => ?_⟩
    · simpa using hrunning.not_idle
    · have hdone : (w.core .server).established = true := hdue
      simp [hdone] at hfresh
    · simp [hest] at hfresh
  | verified _ _ hfresh' =>
    refine ⟨by simpa using hl.started, fun _ => ⟨.client, ?_⟩, fun hd => ?_⟩
    · exact List.ne_nil_of_mem ((Net.mem_commit _ _ _ _ _ _ _).mpr
        (.inr ⟨rfl, List.mem_singleton_self _⟩))
    · simp [hfresh'] at hd
  | accepted _ _ hest =>
    refine ⟨by simpa using hl.started, fun hfresh => ?_, fun _ _ => ?_⟩
    · simp [hest] at hfresh
    · exact (Net.mem_commit _ _ _ _ _ _ _).mpr (.inr ⟨rfl, List.mem_singleton_self _⟩)

include hname in
theorem TlsWorld.Stuck.delivered (hstuck : w.Stuck serverCfg) (hw : w.Paired clientCfg serverCfg)
    (hd : w.Delivers openssl clientCfg w') : w'.Stuck serverCfg := by
  obtain ⟨r, i, f, a, fs, hi, -, hheard, rfl⟩ := hw.delivered hname hd
  have hlost : ∀ {q : AdapterRole},
      Flight.serverHello.bytes serverCfg.expectedServerName ∉ (w.remove q i).inbox .client :=
    fun hmem => hstuck.lost (Net.mem_of_remove hmem)
  cases hheard with
  | ignored =>
    rw [List.map_nil, TlsWorld.remove_ignored]
    exact ⟨hstuck.server, hstuck.client, hlost⟩
  | called _ _ _ hfresh' =>
    refine ⟨by simpa using hstuck.server, by simpa using hfresh', fun hmem => ?_⟩
    rcases (Net.mem_commit _ _ _ _ _ _ _).mp hmem with hold | ⟨hclient, -⟩
    · exact hlost hold
    · cases hclient
  | finished => exact absurd (List.mem_of_getElem? hi) hstuck.lost
  | verified hfresh => simp [hstuck.server] at hfresh
  | accepted hfresh => simp [hstuck.server] at hfresh

include hname in
/-- Deliveries come to an end, since every flight weighs more than the answer to it. -/
theorem TlsWorld.Paired.settles {I Q : TlsWorld → Prop} (hw : w.Paired clientCfg serverCfg)
    (hI : I w) (hinv : ∀ w w' : TlsWorld, w.Paired clientCfg serverCfg → I w →
      w.Delivers openssl clientCfg w' → I w')
    (hend : ∀ w : TlsWorld, w.Paired clientCfg serverCfg → I w → w.Quiet → Q w) :
    Settles (TlsWorld.Delivers openssl clientCfg) Q w := by
  refine Net.settles_of_load (I := fun w => TlsWorld.Paired clientCfg serverCfg w ∧ I w)
    (fun _ => 0) (fun _ => Flight.weight) ⟨hw, hI⟩ ?_ ?_ ?_
  · rintro v v' ⟨hv, hIv⟩ hd
    obtain ⟨r, i, t, o, hs⟩ := hd
    exact ⟨hv.step hname hs, hinv v v' hv hIv ⟨r, i, t, o, hs⟩⟩
  · rintro v r t i d ⟨hv, -⟩ hd
    obtain ⟨f, rfl, hdue⟩ := hv.flight r d (List.mem_of_getElem? hd)
    obtain ⟨a, fs, res, hrecv, hheard⟩ := hv.heard openssl hname hdue t
    rw [hrecv]
    exact .inr ⟨rfl, hheard.weight_lt⟩
  · exact fun v hv hterm => hend v hv.1 hv.2 ((Net.terminal_iff _ _ v).mp hterm)

include hname in
/-- Where nothing of the handshake is lost any more. -/
theorem TlsWorld.Paired.completes (hw : w.Paired clientCfg serverCfg) (hl : w.Live serverCfg) :
    Settles (TlsWorld.Delivers openssl clientCfg) (fun v => ∀ r, (v.core r).established = true) w := by
  refine hw.settles (I := fun v => v.Live serverCfg) hname hl
    (fun v v' hv hlive hd => hlive.delivered hname hv hd) fun v hv hlive hquiet r => ?_
  have hserver : (v.core .server).established = true := by
    by_contra hfresh
    obtain ⟨r, hr⟩ := hlive.fresh (Bool.eq_false_of_not_eq_true hfresh)
    exact hr (hquiet r)
  cases r with
  | server => exact hserver
  | client =>
    by_contra hfresh
    have hmem := hlive.answered hserver (Bool.eq_false_of_not_eq_true hfresh)
    rw [hquiet .client] at hmem
    cases hmem

include hname in
theorem TlsWorld.Paired.never_completes (hw : w.Paired clientCfg serverCfg)
    (hstuck : w.Stuck serverCfg) :
    ¬ Settles (TlsWorld.Delivers openssl clientCfg)
      (fun v => ∀ r, (v.core r).established = true) w := by
  refine not_settles (I := fun v => TlsWorld.Paired clientCfg serverCfg v ∧ v.Stuck serverCfg)
    ⟨hw, hstuck⟩ ?_ ?_
  · rintro v v' ⟨hv, hs⟩ hd
    obtain ⟨r, i, t, o, hstep⟩ := hd
    exact ⟨hv.step hname hstep, hs.delivered hname hv ⟨r, i, t, o, hstep⟩⟩
  · rintro v ⟨-, hs⟩ - hall
    have hfresh := hs.client
    simp [hall] at hfresh

include hname in
/-- The timeout puts the client's last flight on its way and does nothing else. -/
theorem TlsWorld.Paired.timeout_step (hw : w.Paired clientCfg serverCfg)
    (hclient : (w.core .client).role = some .client)
    (hfresh : (w.core .client).established = false) {deadline nowMs : UInt64}
    (hdeadline : (w.core .client).nextRetransmitAtMs = some deadline) (hdue : deadline ≤ nowMs)
    {o : Option HandshakeResult}
    (hs : w.step openssl clientCfg (.call .client (.timeout nowMs)) = some (w', o)) :
    ∃ a f, w' = w.commit AdapterRole.peer .client a
        [Flight.bytes serverCfg.expectedServerName f] ∧
      a.role = some .client ∧ a.established = false := by
  rcases hw.client with hidle | ⟨-, -, hcalling, -⟩
  · rw [hidle.role] at hclient
    cases hclient
  · obtain ⟨f, hf, -⟩ := hcalling hfresh
    simp only [TlsWorld.step, Net.step, tlsEnd, hf.onTimeout_due hfresh hdeadline hdue,
      Option.map_some, Option.some.injEq, Prod.mk.injEq] at hs
    refine ⟨{ w.core .client with
      nextRetransmitAtMs := some (saturatingAdd nowMs (w.core .client).flightRtoMs) }, f,
      hs.1.symm.trans ?_, hclient, hfresh⟩
    rw [← hname]
    rfl

end Settling

/-- A timeout of the client completes a handshake of which datagrams were lost exactly
when the server is not established yet, or its last answer is still on the way. -/
theorem timeout_completes_iff {serverSsl : OpenSsl} {server : OpenSslDtlsAdapter}
    {started : HandshakeOutput} {h : List (Taken TlsWorld TlsMove (Option HandshakeResult))}
    (hname : clientCfg.expectedServerName = serverCfg.expectedServerName)
    (hstart : OpenSslDtlsAdapter.new.startServer serverSsl serverCfg = (server, .ok started))
    (hrun : Run (TlsWorld.step openssl clientCfg) (TlsWorld.start server) h w)
    (hclient : (w.core .client).role = some .client)
    (hfresh : (w.core .client).established = false) {deadline nowMs : UInt64}
    (hdeadline : (w.core .client).nextRetransmitAtMs = some deadline) (hdue : deadline ≤ nowMs)
    {o : Option HandshakeResult}
    (hs : w.step openssl clientCfg (.call .client (.timeout nowMs)) = some (w', o)) :
    Settles (TlsWorld.Delivers openssl clientCfg)
        (fun v => ∀ r, (v.core r).established = true) w' ↔
      (w.core .server).established = false ∨
        Flight.serverHello.bytes serverCfg.expectedServerName ∈ w.inbox .client := by
  have hw := TlsWorld.Paired.of_run hname hstart hrun
  have hw' := hw.step hname hs
  obtain ⟨a, f, rfl, hrole, hnot⟩ :=
    hw.timeout_step hname hclient hfresh hdeadline hdue hs
  have hinbox : ∀ d, d ∈ (w.commit AdapterRole.peer .client a
      [f.bytes serverCfg.expectedServerName]).inbox .client ↔ d ∈ w.inbox .client := by
    intro d
    rw [Net.mem_commit]
    refine or_iff_left ?_
    rintro ⟨hne, -⟩
    cases hne
  constructor
  · intro hsettles
    by_contra hbad
    rw [not_or, Bool.not_eq_false] at hbad
    refine hw'.never_completes hname ⟨by simpa using hbad.1, by simpa using hnot, ?_⟩ hsettles
    rw [hinbox]
    exact hbad.2
  · intro hgood
    refine hw'.completes hname ⟨?_, fun _ => ⟨.server, ?_⟩, fun hdone _ => ?_⟩
    · rw [Net.commit_core, Function.update_self]
      intro hidle
      rw [hidle.role] at hrole
      cases hrole
    · exact List.ne_nil_of_mem ((Net.mem_commit _ _ _ _ _ _ _).mpr
        (.inr ⟨rfl, List.mem_singleton_self _⟩))
    · rw [hinbox]
      refine hgood.resolve_left ?_
      simpa using hdone

end Pair

def testRootPem : String :=
  "-----BEGIN CERTIFICATE-----\n" ++
  "MIIBQjCB9aADAgECAhRKO46TDUSI+fRzJ+LFkANCnsbZnTAFBgMrZXAwFzEVMBMG\n" ++
  "A1UEAwwMdjMgdGVzdCByb290MB4XDTI2MTExOTA4MzY1NloXDTM2MTExNjA4MzY1\n" ++
  "NlowFzEVMBMGA1UEAwwMdjMgdGVzdCByb290MCowBQYDK2VwAyEAcI7BGomcB4P8\n" ++
  "vQQghw9arHkAMhX0wAdpw/GegCod8uKjUzBRMB0GA1UdDgQWBBQQcCePuLVPyBfG\n" ++
  "Q89Ch/lyspe14jAfBgNVHSMEGDAWgBQQcCePuLVPyBfGQ89Ch/lyspe14jAPBgNV\n" ++
  "HRMBAf8EBTADAQH/MAUGAytlcANBADBgBXKOJCf+J/A8oWef/gYXSZAlgZulbUtH\n" ++
  "IohrhX6iAVzg2tyjRClKXksCWLZ7UaPMVwxMFw/YWxg+tlIMMQU=\n" ++
  "-----END CERTIFICATE-----\n"

def plainClientCfg : HandshakeConfig where
  profile := .serverAuth
  cipherPolicy := {}
  trust := { trustAnchorPems := [Utf8.encode testRootPem] }
  clientIdentity := none
  expectedServerName := some "api.example.com"

/-- The client's first flight is lost on the way. -/
def lostHello : List TlsMove := [.call .client .start, .drop .server 0]

/-- The server's last answer is lost on the way. -/
def lostLastAnswer : List TlsMove :=
  [.call .client .start, .deliver .server 0 (), .deliver .client 0 (), .deliver .server 0 (),
    .drop .client 0]

theorem lostHello_completed :
    ∃ server started h w w' o,
      OpenSslDtlsAdapter.new.startServer plainOpenSsl plainServerCfg = (server, .ok started) ∧
      exec (TlsWorld.step plainOpenSsl plainClientCfg) (TlsWorld.start server) lostHello =
        some (h, w) ∧
      w.step plainOpenSsl plainClientCfg (.call .client (.timeout 1000)) = some (w', o) ∧
      (Settles (TlsWorld.Delivers plainOpenSsl plainClientCfg)
          (fun v => ∀ r, (v.core r).established = true) w' ↔
        (w.core .server).established = false ∨
          Flight.serverHello.bytes plainServerCfg.expectedServerName ∈ w.inbox .client) := by
  have hrun : ∃ server started,
      OpenSslDtlsAdapter.new.startServer plainOpenSsl plainServerCfg = (server, .ok started) ∧
      (exec (TlsWorld.step plainOpenSsl plainClientCfg) (TlsWorld.start server) lostHello).map
        (fun x => ((x.2.core .client).role, (x.2.core .client).established,
          (x.2.core .client).nextRetransmitAtMs,
          (x.2.step plainOpenSsl plainClientCfg (.call .client (.timeout 1000))).isSome)) =
        some (some .client, false, some 1000, true) := ⟨_, _, rfl, by decide +kernel⟩
  obtain ⟨server, started, hstart, hexec⟩ := hrun
  obtain ⟨⟨h, w⟩, hexec, hx⟩ := Option.map_eq_some_iff.mp hexec
  simp only [Prod.mk.injEq] at hx
  obtain ⟨hclient, hfresh, hdeadline, hstep⟩ := hx
  obtain ⟨⟨w', o⟩, hs⟩ := Option.isSome_iff_exists.mp hstep
  exact ⟨server, started, h, w, w', o, hstart, hexec, hs,
    timeout_completes_iff rfl hstart (Run.of_exec hexec) hclient hfresh hdeadline (by decide) hs⟩

theorem lostLastAnswer_not_completed :
    ¬ ∀ (openssl serverSsl : OpenSsl) (clientCfg serverCfg : HandshakeConfig)
      (server : OpenSslDtlsAdapter) (started : HandshakeOutput),
      clientCfg.expectedServerName = serverCfg.expectedServerName →
      OpenSslDtlsAdapter.new.startServer serverSsl serverCfg = (server, .ok started) →
      ∀ (h : List (Taken TlsWorld TlsMove (Option HandshakeResult))) (w : TlsWorld),
        Run (TlsWorld.step openssl clientCfg) (TlsWorld.start server) h w →
        (w.core .client).role = some .client → (w.core .client).established = false →
        ∀ deadline nowMs, (w.core .client).nextRetransmitAtMs = some deadline →
          deadline ≤ nowMs → ∀ (w' : TlsWorld) (o : Option HandshakeResult),
            w.step openssl clientCfg (.call .client (.timeout nowMs)) = some (w', o) →
            Settles (TlsWorld.Delivers openssl clientCfg)
              (fun v => ∀ r, (v.core r).established = true) w' := by
  intro hclaim
  have hrun : ∃ server started,
      OpenSslDtlsAdapter.new.startServer plainOpenSsl plainServerCfg = (server, .ok started) ∧
      (exec (TlsWorld.step plainOpenSsl plainClientCfg) (TlsWorld.start server) lostLastAnswer).map
        (fun x => ((x.2.core .client).role, (x.2.core .client).established,
          (x.2.core .client).nextRetransmitAtMs, (x.2.core .server).established,
          (x.2.inbox .client).isEmpty,
          (x.2.step plainOpenSsl plainClientCfg (.call .client (.timeout 1000))).isSome)) =
        some (some .client, false, some 1000, true, true, true) := ⟨_, _, rfl, by decide +kernel⟩
  obtain ⟨server, started, hstart, hexec⟩ := hrun
  obtain ⟨⟨h, w⟩, hexec, hx⟩ := Option.map_eq_some_iff.mp hexec
  simp only [Prod.mk.injEq] at hx
  obtain ⟨hclient, hfresh, hdeadline, hserver, hinbox, hstep⟩ := hx
  obtain ⟨⟨w', o⟩, hs⟩ := Option.isSome_iff_exists.mp hstep
  have hname : plainClientCfg.expectedServerName = plainServerCfg.expectedServerName := rfl
  have hsettles := hclaim _ _ _ _ server started hname hstart h w (Run.of_exec hexec) hclient
    hfresh 1000 1000 hdeadline (by decide) w' o hs
  have hw := TlsWorld.Paired.of_run hname hstart (Run.of_exec hexec)
  have hw' := hw.step hname hs
  obtain ⟨a, f, rfl, -, hnot⟩ := hw.timeout_step hname hclient hfresh hdeadline (by decide) hs
  refine hw'.never_completes hname ⟨by simpa using hserver, by simpa using hnot, ?_⟩ hsettles
  rw [Net.mem_commit, List.isEmpty_iff.mp hinbox]
  rintro (hmem | ⟨hne, -⟩)
  · cases hmem
  · cases hne

end Todero.Crypto
