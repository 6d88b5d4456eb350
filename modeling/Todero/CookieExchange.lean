import Todero.DtlsAdapter
import Todero.Lib.Transition

/-! Whether a serving adapter is established only through the cookie exchange: over all
sequences of datagrams and timeouts, by the answer it gives to each. -/
namespace Todero.Crypto
open Todero.Wire Transition
open Todero.Core (saturatingAdd)

inductive AdapterInput where
  | datagram (bytes : Bytes)
  | timeout (nowMs : UInt64)

namespace OpenSslDtlsAdapter

def apply (a : OpenSslDtlsAdapter) : AdapterInput → OpenSslDtlsAdapter × HandshakeResult
  | .datagram bytes => a.onDatagram bytes
  | .timeout nowMs => a.onTimeout nowMs

def step (a : OpenSslDtlsAdapter) (i : AdapterInput) :
    Option (OpenSslDtlsAdapter × HandshakeResult) :=
  some (a.apply i)

def verifyFlight : Bytes := Utf8.encode "DTLS_HELLO_VERIFY|cookie=cookie-v3"

/-- The last answer of a server. -/
def serverHello (cfg : HandshakeConfig) : HandshakeOutput where
  outboundDatagrams :=
    [Utf8.encode ("DTLS_SERVER_HELLO|sni=" ++ cfg.expectedServerName.getD "peer")]
  established := true
  peerIdentity := some ⟨"client", Vector.replicate 32 5⟩
  binding := some ⟨0, 0, Vector.replicate 32 11⟩

/-- Everything a serving adapter does with an input. -/
inductive Served (cfg : HandshakeConfig) (a : OpenSslDtlsAdapter) :
    AdapterInput → OpenSslDtlsAdapter × HandshakeResult → Prop
  | done (i : AdapterInput) (out : HandshakeOutput) : a.established = true →
      out.established = true → out.outboundDatagrams = [] → Served cfg a i (a, .ok out)
  | refused (i : AdapterInput) (e : CryptoError) : a.established = false →
      Served cfg a i (a, .error e)
  | waited (nowMs : UInt64) : a.established = false →
      Served cfg a (.timeout nowMs) (a, .ok { established := false })
  | resent (nowMs : UInt64) : a.established = false →
      Served cfg a (.timeout nowMs)
        ({ a with nextRetransmitAtMs := some (saturatingAdd nowMs a.flightRtoMs) },
          .ok { outboundDatagrams := a.lastFlight, established := false })
  | verified (bytes : Bytes) (kv : Option String) : a.established = false →
      parseKv bytes = ("DTLS_CLIENT_HELLO", kv) →
      Served cfg a (.datagram bytes)
        ({ a with
            issuedCookie := some "cookie-v3"
            lastFlight := [verifyFlight]
            nextRetransmitAtMs := some (saturatingAdd 0 a.flightRtoMs) },
          .ok { outboundDatagrams := [verifyFlight], established := false })
  | accepted (bytes : Bytes) (kv : Option String) : a.established = false →
      parseKv bytes = ("DTLS_CLIENT_HELLO_COOKIE", kv) →
      (valueOf "cookie=" kv).getD "" = a.issuedCookie.getD "" →
      Served cfg a (.datagram bytes)
        ({ a with established := true, nextRetransmitAtMs := none }, .ok (serverHello cfg))

variable {cfg : HandshakeConfig} {a : OpenSslDtlsAdapter}

theorem onClientFlight_served (hest : a.established = false) (bytes : Bytes) :
    Served cfg a (.datagram bytes) (a.onClientFlight cfg bytes) := by
  rcases hkv : parseKv bytes with ⟨head, kv⟩
  simp only [onClientFlight, hkv]
  split_ifs with hhello hcookie hwrong
  · subst hhello
    have hserved : Served cfg a (.datagram bytes) _ := .verified bytes kv hest hkv
    rw [← hest] at hserved
    exact hserved
  · exact .refused _ _ hest
  · subst hcookie
    exact .accepted bytes kv hest hkv (not_not.mp hwrong).symm
  · exact .refused _ _ hest

theorem onTimeout_served (nowMs : UInt64) : Served cfg a (.timeout nowMs) (a.onTimeout nowMs) := by
  unfold onTimeout
  cases hest : a.established with
  | true => exact .done _ _ hest rfl rfl
  | false =>
    rw [if_neg (by simp)]
    cases hdeadline : a.nextRetransmitAtMs with
    | none => exact .refused _ _ hest
    | some deadline =>
      dsimp only
      split_ifs with hearly hempty
      · exact .waited nowMs hest
      · exact .refused _ _ hest
      · have hserved : Served cfg a (.timeout nowMs) _ := .resent nowMs hest
        rw [← hest] at hserved
        exact hserved

theorem Running.served (ha : a.Running .server cfg) (i : AdapterInput) : Served cfg a i (a.apply i) := by
  cases i with
  | datagram bytes =>
    rw [apply]
    cases hest : a.established with
    | true =>
      rw [ha.onDatagram_established hest]
      exact .done _ _ hest rfl rfl
    | false =>
      rw [ha.onDatagram_server hest]
      exact onClientFlight_served hest bytes
  | timeout nowMs => exact onTimeout_served nowMs

theorem Running.kept (ha : a.Running .server cfg) {i : AdapterInput}
    {r : OpenSslDtlsAdapter × HandshakeResult} (hs : Served cfg a i r) : r.1.Running .server cfg := by
  cases hs <;> exact ⟨ha.role, ha.cfg, ha.ctx, ha.ssl⟩

end OpenSslDtlsAdapter

/-! ### The exchange, seen from outside -/

abbrev AdapterTaken := Taken OpenSslDtlsAdapter AdapterInput HandshakeResult

/-- A datagram with this head, and with a cookie. -/
def Bears (head : String) (datagram : Bytes) (cookie : String) : Prop :=
  ∃ kv, parseKv datagram = (head, kv) ∧ valueOf "cookie=" kv = some cookie

namespace AdapterTaken

def Reports (t : AdapterTaken) : Prop := ∃ out, t.output = .ok out ∧ out.established = true

def Issues (t : AdapterTaken) (cookie : String) : Prop :=
  ∃ out, t.output = .ok out ∧
    ∃ d ∈ out.outboundDatagrams, Bears "DTLS_HELLO_VERIFY" d cookie

def Receives (t : AdapterTaken) (cookie : String) : Prop :=
  ∃ d, t.input = .datagram d ∧ Bears "DTLS_CLIENT_HELLO_COOKIE" d cookie

/-- A cookie hello without a cookie, or with an empty one, before any was issued. -/
def Premature (t : AdapterTaken) : Prop :=
  t.pre.issuedCookie = none ∧ ∃ d kv, t.input = .datagram d ∧
    parseKv d = ("DTLS_CLIENT_HELLO_COOKIE", kv) ∧ (valueOf "cookie=" kv).getD "" = ""

end AdapterTaken

/-- Up to step `k` a cookie was issued and afterwards received. -/
def Exchanged (hist : List AdapterTaken) (k : Nat) : Prop :=
  ∃ i j u v cookie, i < j ∧ j ≤ k ∧ hist[i]? = some u ∧ hist[j]? = some v ∧
    u.Issues cookie ∧ v.Receives cookie

/-- Every step that reports an established session has a cookie exchange behind it. -/
def Earned (hist : List AdapterTaken) : Prop :=
  ∀ k t, hist[k]? = some t → t.Reports → Exchanged hist k

section Exchange
variable {cfg : HandshakeConfig} {hist : List AdapterTaken} {a a' : OpenSslDtlsAdapter}
variable {i : AdapterInput} {res : HandshakeResult}

theorem Exchanged.snoc {k k' : Nat} (h : Exchanged hist k) (hk : k ≤ k') (t : AdapterTaken) :
    Exchanged (hist ++ [t]) k' := by
  obtain ⟨i, j, u, v, cookie, hij, hjk, hu, hv, hiss, hrec⟩ := h
  have hold : ∀ {n : Nat} {x : AdapterTaken}, hist[n]? = some x → (hist ++ [t])[n]? = some x :=
    fun hx => by rw [List.getElem?_append_left (List.getElem?_eq_some_iff.mp hx).1, hx]
  exact ⟨i, j, u, v, cookie, hij, hjk.trans hk, hold hu, hold hv, hiss, hrec⟩

theorem Earned.snoc {t : AdapterTaken} (h : Earned hist)
    (ht : t.Reports → Exchanged (hist ++ [t]) hist.length) : Earned (hist ++ [t]) := by
  intro k u hu hrep
  rcases Nat.lt_or_ge k hist.length with hlt | hge
  · rw [List.getElem?_append_left hlt] at hu
    exact (h k u hu hrep).snoc le_rfl t
  · have hk := (List.getElem?_eq_some_iff.mp hu).1
    rw [List.length_append, List.length_singleton] at hk
    obtain rfl : k = hist.length := by omega
    rw [List.getElem?_concat_length, Option.some.injEq] at hu
    subst hu
    exact ht hrep

/-- What a serving adapter remembers of the cookies it has sent. -/
structure Watched (cfg : HandshakeConfig) (hist : List AdapterTaken) (a : OpenSslDtlsAdapter) :
    Prop where
  serving : a.Running .server cfg
  unissued : a.issuedCookie = none → a.lastFlight = [] ∧ ∀ u ∈ hist, ∀ c, ¬ u.Issues c
  issued : ∀ c, a.issuedCookie = some c → c = "cookie-v3" ∧ ∃ u ∈ hist, u.Issues c

theorem bears_verifyFlight :
    Bears "DTLS_HELLO_VERIFY" OpenSslDtlsAdapter.verifyFlight "cookie-v3" :=
  ⟨some "cookie=cookie-v3", by decide +kernel, by decide +kernel⟩

theorem not_bears_serverHello {d : Bytes} {c : String}
    (hd : d ∈ (OpenSslDtlsAdapter.serverHello cfg).outboundDatagrams) :
    ¬ Bears "DTLS_HELLO_VERIFY" d c := by
  rintro ⟨kv, hkv, -⟩
  obtain rfl := List.mem_singleton.mp hd
  have htext := parseKv_text "DTLS_SERVER_HELLO" "sni=" (cfg.expectedServerName.getD "peer")
    (by decide) (by decide) (by decide)
  rw [← String.append_assoc] at htext
  have hhead : "DTLS_SERVER_HELLO" = "DTLS_HELLO_VERIFY" := congrArg Prod.fst (htext.symm.trans hkv)
  exact absurd hhead (by decide)

theorem Watched.snoc (h : Watched cfg hist a)
    (hs : OpenSslDtlsAdapter.Served cfg a i (a', res)) :
    Watched cfg (hist ++ [⟨a, i, res, a'⟩]) a' := by
  have hserving := h.serving.kept hs
  have hsilent : (∀ c, ¬ AdapterTaken.Issues ⟨a, i, res, a'⟩ c) → a.issuedCookie = none →
      ∀ u ∈ hist ++ [⟨a, i, res, a'⟩], ∀ c, ¬ AdapterTaken.Issues u c := by
    intro hnew hnone u hu
    rcases List.mem_append.mp hu with hold | hlast
    · exact (h.unissued hnone).2 u hold
    · rw [List.mem_singleton.mp hlast]
      exact hnew
  have hkept : ∀ c, a.issuedCookie = some c →
      c = "cookie-v3" ∧ ∃ u ∈ hist ++ [⟨a, i, res, a'⟩], AdapterTaken.Issues u c := by
    intro c hc
    obtain ⟨heq, u, hu, hiss⟩ := h.issued c hc
    exact ⟨heq, u, List.mem_append_left _ hu, hiss⟩
  cases hs with
  | done i out _ _ hnone =>
    refine ⟨hserving, fun hc => ⟨(h.unissued hc).1, hsilent ?_ hc⟩, hkept⟩
    rintro c ⟨out', ⟨⟩, d, hd, -⟩
    rw [hnone] at hd
    cases hd
  | refused i e =>
    refine ⟨hserving, fun hc => ⟨(h.unissued hc).1, hsilent ?_ hc⟩, hkept⟩
    rintro c ⟨out', ⟨⟩, -⟩
  | waited nowMs =>
    refine ⟨hserving, fun hc => ⟨(h.unissued hc).1, hsilent ?_ hc⟩, hkept⟩
    rintro c ⟨out', ⟨⟩, d, hd, -⟩
    cases hd
  | resent nowMs =>
    refine ⟨hserving, fun hc => ⟨(h.unissued hc).1, hsilent ?_ hc⟩, hkept⟩
    rintro c ⟨out', ⟨⟩, d, hd, -⟩
    rw [(h.unissued hc).1] at hd
    cases hd
  | verified bytes kv =>
    refine ⟨hserving, nofun, fun c hc => ?_⟩
    obtain rfl := Option.some.inj hc
    exact ⟨rfl, _, List.mem_append_right _ (List.mem_singleton_self _), _, rfl, _,
      List.mem_singleton_self _, bears_verifyFlight⟩
  | accepted bytes kv =>
    refine ⟨hserving, fun hc => ⟨(h.unissued hc).1, hsilent ?_ hc⟩, hkept⟩
    rintro c ⟨out', ⟨⟩, d, hd, hbears⟩
    exact not_bears_serverHello hd hbears

/-- An adapter is established by a cookie that it has issued, or by none at all. -/
theorem Watched.exchanged (h : Watched cfg hist a)
    (hs : OpenSslDtlsAdapter.Served cfg a i (a', res)) (hest : a.established = true →
      Exchanged hist (hist.length - 1)) (hnot : ¬ AdapterTaken.Premature ⟨a, i, res, a'⟩)
    (hest' : a'.established = true) :
    Exchanged (hist ++ [⟨a, i, res, a'⟩]) hist.length := by
  cases hs with
  | done i out hdone => exact (hest hdone).snoc (Nat.sub_le _ _) _
  | refused i e hfresh => simp [hfresh] at hest'
  | waited nowMs hfresh => simp [hfresh] at hest'
  | resent nowMs hfresh => simp [hfresh] at hest'
  | verified bytes kv hfresh => simp [hfresh] at hest'
  | accepted bytes kv _ hkv hcookie =>
    cases hc : a.issuedCookie with
    | none =>
      rw [hc] at hcookie
      exact absurd ⟨hc, bytes, kv, rfl, hkv, hcookie⟩ hnot
    | some c =>
      obtain ⟨rfl, u, hu, hiss⟩ := h.issued c hc
      obtain ⟨i, hi, rfl⟩ := List.getElem_of_mem hu
      rw [hc, Option.getD_some] at hcookie
      have hvalue : valueOf "cookie=" kv = some "cookie-v3" := by
        cases hv : valueOf "cookie=" kv with
        | none => simp [hv] at hcookie
        | some v => rw [← hcookie, hv, Option.getD_some]
      refine ⟨i, hist.length, hist[i], _, "cookie-v3", hi, le_rfl, ?_,
        List.getElem?_concat_length, hiss, bytes, rfl, kv, hkv, hvalue⟩
      rw [List.getElem?_append_left hi, List.getElem?_eq_getElem hi]

/-- A step reports an established session only if the adapter is established by then. -/
theorem reports_established {t : AdapterTaken}
    (hs : OpenSslDtlsAdapter.Served cfg t.pre t.input (t.post, t.output)) (hrep : t.Reports) :
    t.post.established = true := by
  obtain ⟨out, hout, hest⟩ := hrep
  obtain ⟨pre, input, output, post⟩ := t
  dsimp only at hs hout ⊢
  subst hout
  cases hs with
  | done _ _ hdone => exact hdone
  | waited => cases hest
  | resent => cases hest
  | verified => cases hest
  | accepted => rfl

variable {openssl : OpenSsl} {a₀ : OpenSslDtlsAdapter} {started : HandshakeOutput}

theorem Watched.start (hstart : a₀.startServer openssl cfg = (a, .ok started)) :
    Watched cfg [] a := by
  obtain ⟨hserving, -, hcookie, hflight⟩ := OpenSslDtlsAdapter.startServer_ok hstart
  refine ⟨hserving, fun _ => ⟨hflight, by simp⟩, fun c hc => ?_⟩
  rw [hcookie] at hc
  cases hc

theorem Watched.of_run (hstart : a₀.startServer openssl cfg = (a, .ok started))
    (hrun : Run OpenSslDtlsAdapter.step a hist a') : Watched cfg hist a' := by
  refine hrun.invariant (A := fun _ => True) (I := Watched cfg) (Watched.start hstart) ?_
    fun _ _ => trivial
  intro h s i s' o hwatched hstep _
  have happly := Option.some.inj hstep
  exact hwatched.snoc (happly ▸ hwatched.serving.served i)

end Exchange

section Results
variable {openssl : OpenSsl} {cfg : HandshakeConfig} {a₀ a a' : OpenSslDtlsAdapter}
variable {started : HandshakeOutput} {hist : List AdapterTaken}

theorem earned_of_run (hstart : a₀.startServer openssl cfg = (a, .ok started))
    (hrun : Run OpenSslDtlsAdapter.step a hist a') (hall : ∀ t ∈ hist, ¬ t.Premature) :
    Earned hist := by
  have hinv : Watched cfg hist a' ∧
      (a'.established = true → Exchanged hist (hist.length - 1)) ∧ Earned hist := by
    refine hrun.invariant (A := fun t => ¬ AdapterTaken.Premature t)
      (I := fun h s => Watched cfg h s ∧
        (s.established = true → Exchanged h (h.length - 1)) ∧ Earned h) ?_ ?_ hall
    · refine ⟨Watched.start hstart, fun hest => ?_, by simp [Earned]⟩
      simp [(OpenSslDtlsAdapter.startServer_ok hstart).2.1] at hest
    · rintro h s i s' o ⟨hwatched, hexch, hearned⟩ hstep hnot
      have happly := Option.some.inj hstep
      have hserved : OpenSslDtlsAdapter.Served cfg s i (s', o) :=
        happly ▸ hwatched.serving.served i
      have hnew := hwatched.exchanged hserved hexch hnot
      refine ⟨hwatched.snoc hserved, fun hest => ?_, hearned.snoc fun hrep => ?_⟩
      · rw [List.length_append, List.length_singleton, Nat.add_sub_cancel]
        exact hnew hest
      · exact hnew (reports_established hserved hrep)
  exact hinv.2.2

/-- A cookie hello without a cookie is taken for the right one while none is issued. -/
theorem premature_reports {t : AdapterTaken} (ht : t.Premature) (hs : t.pre.Running .server cfg)
    (hstep : t.pre.step t.input = some (t.post, t.output)) : t.Reports := by
  obtain ⟨hnone, d, kv, hd, hkv, hblank⟩ := ht
  rw [hd, OpenSslDtlsAdapter.step, Option.some.injEq, OpenSslDtlsAdapter.apply] at hstep
  cases hest : t.pre.established with
  | true =>
    rw [hs.onDatagram_established hest, Prod.mk.injEq] at hstep
    exact ⟨_, hstep.2.symm, rfl⟩
  | false =>
    rw [hs.onDatagram_server hest] at hstep
    simp [OpenSslDtlsAdapter.onClientFlight, hkv, hblank, hnone] at hstep
    exact ⟨_, hstep.2.symm, rfl⟩

theorem not_exchanged {h₀ h₁ : List AdapterTaken} {t : AdapterTaken}
    (hquiet : ∀ u ∈ h₀, ∀ c, ¬ u.Issues c) : ¬ Exchanged (h₀ ++ t :: h₁) h₀.length := by
  rintro ⟨i, j, u, v, c, hij, hjk, hu, -, hiss, -⟩
  have hlt : i < h₀.length := by omega
  rw [List.getElem?_append_left hlt] at hu
  exact hquiet u (List.mem_of_getElem? hu) c hiss

/-- A serving adapter is established only through the cookie exchange exactly when no
cookie hello without a cookie reaches it before it has issued one. -/
theorem cookie_exchange_iff (hstart : a₀.startServer openssl cfg = (a, .ok started))
    (hrun : Run OpenSslDtlsAdapter.step a hist a') :
    Earned hist ↔ ∀ t ∈ hist, ¬ t.Premature := by
  refine ⟨fun hearned t ht hpre => ?_, earned_of_run hstart hrun⟩
  obtain ⟨h₀, h₁, rfl, hbefore, hstep⟩ := hrun.before ht
  have hwatched := Watched.of_run hstart hbefore
  have hexch := hearned h₀.length t (by simp) (premature_reports hpre hwatched.serving hstep)
  exact not_exchanged (hwatched.unissued hpre.1).2 hexch

end Results

/-- What the crate answers where it has nothing to read but anchors. -/
def plainOpenSsl : OpenSsl where
  newContext _ := .ok ()
  setCipherList _ _ := .ok ()
  newStore := .ok ()
  stackFromPem pem := .ok [pem]
  addCert _ _ := .ok ()
  setCertificateFile _ path := .error s!"cannot read {path}"
  setPrivateKeyFile _ path := .error s!"cannot read {path}"
  newSsl _ := .ok ()

def plainServerCfg : HandshakeConfig where
  profile := .serverAuth
  cipherPolicy := {}
  trust := {}
  clientIdentity := none
  expectedServerName := some "api.example.com"

/-- A client that has waited for its cookie. -/
def patientClient : List AdapterInput :=
  [.datagram (Utf8.encode "DTLS_CLIENT_HELLO|sni=api.example.com"),
    .datagram (Utf8.encode "DTLS_CLIENT_HELLO_COOKIE|cookie=cookie-v3")]

/-- A client that has not even asked for one. -/
def cookielessClient : List AdapterInput := [.datagram (Utf8.encode "DTLS_CLIENT_HELLO_COOKIE")]

theorem patientClient_exchanges :
    ∃ a started hist a',
      OpenSslDtlsAdapter.new.startServer plainOpenSsl plainServerCfg = (a, .ok started) ∧
      exec OpenSslDtlsAdapter.step a patientClient = some (hist, a') ∧ a'.established = true ∧
      (Earned hist ↔ ∀ t ∈ hist, ¬ AdapterTaken.Premature t) := by
  have hrun : ∃ a started,
      OpenSslDtlsAdapter.new.startServer plainOpenSsl plainServerCfg = (a, .ok started) ∧
      (exec OpenSslDtlsAdapter.step a patientClient).map (fun r => r.2.established) = some true :=
    ⟨_, _, rfl, by decide +kernel⟩
  obtain ⟨a, started, hstart, hexec⟩ := hrun
  obtain ⟨⟨hist, a'⟩, hexec, hest⟩ := Option.map_eq_some_iff.mp hexec
  exact ⟨a, started, hist, a', hstart, hexec, hest,
    cookie_exchange_iff hstart (Run.of_exec hexec)⟩

theorem cookielessClient_established :
    ¬ ∀ (openssl : OpenSsl) (cfg : HandshakeConfig) (a₀ a : OpenSslDtlsAdapter)
      (started : HandshakeOutput), a₀.startServer openssl cfg = (a, .ok started) →
        ∀ (hist : List AdapterTaken) (a' : OpenSslDtlsAdapter),
          Run OpenSslDtlsAdapter.step a hist a' → Earned hist := by
  intro hclaim
  have hrun : ∃ a started t,
      OpenSslDtlsAdapter.new.startServer plainOpenSsl plainServerCfg = (a, .ok started) ∧
      exec OpenSslDtlsAdapter.step a cookielessClient = some ([t], t.post) ∧
      t.output.toOption.map HandshakeOutput.established = some true :=
    ⟨_, _, _, rfl, rfl, by decide +kernel⟩
  obtain ⟨a, started, t, hstart, hexec, hest⟩ := hrun
  have hearned := hclaim _ _ _ a started hstart [t] t.post (Run.of_exec hexec)
  have hrep : AdapterTaken.Reports t := by
    cases hout : t.output with
    | error e => simp [hout, Except.toOption] at hest
    | ok out => exact ⟨out, hout, by simpa [hout, Except.toOption] using hest⟩
  obtain ⟨i, j, u, v, c, hij, hj, -⟩ := hearned 0 t rfl hrep
  omega

end Todero.Crypto
