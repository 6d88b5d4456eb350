import Todero.EngineHandle
import Todero.CookieExchange

/-! The TLS gate of a server handle: over any sequence of datagrams on any paths, the
runtime does what it would do with the datagrams that are let through alone. -/
namespace Todero.Ffi
open Todero.Wire Todero.Store Todero.Server Todero.Crypto Transition

/-- One call of `v3_ffi_on_datagram`, with the machine as it is at the time. -/
structure DatagramCall where
  host : Host
  nowMs : UInt64
  pathId : UInt32
  bytes : Bytes

def DatagramCall.op (c : DatagramCall) : Op := .datagram c.nowMs c.pathId c.bytes

namespace EngineHandle
variable {σ : Type}

def session (h : EngineHandle σ) (pathId : UInt32) : Option ServerPathTlsState :=
  match h.tls with
  | .disabled => none
  | .server tls => tls.sessionsByPath[pathId]?

/-- The TLS session of a path is established. -/
def secured (h : EngineHandle σ) (pathId : UInt32) : Bool :=
  (h.session pathId).any ServerPathTlsState.established

/-- What is not removed: no handshake datagram, on a path established by now. -/
def admits (h : EngineHandle σ) (c : DatagramCall) : Bool :=
  h.secured c.pathId && !isDtlsPacket c.bytes

variable [SessionStore σ] [Base64]

def step (h : EngineHandle σ) (c : DatagramCall) : Option (EngineHandle σ × Int) :=
  h.v3FfiOnDatagram c.host c.nowMs c.pathId c.bytes

end EngineHandle

section Gate
variable {σ : Type} {h h' : EngineHandle σ} {host : Host}

theorem startServer_fresh (openssl : OpenSsl) (cfg : HandshakeConfig) :
    (OpenSslDtlsAdapter.new.startServer openssl cfg).1.established = false := by
  unfold OpenSslDtlsAdapter.startServer
  split
  · rfl
  · rfl

/-- A path has its session already, or gets one that nobody has spoken to. -/
theorem entry_cases {tls tls' : ServerTlsState} {pathId : UInt32} {s : ServerPathTlsState}
    (h : tls.entry host pathId = some (tls', s)) :
    (tls.sessionsByPath[pathId]? = some s ∧ tls' = tls) ∨
      (tls.sessionsByPath[pathId]? = none ∧
        s.established = false ∧ s.adapter.established = false ∧
        tls' = { tls with sessionsByPath := tls.sessionsByPath.insert pathId s }) := by
  unfold ServerTlsState.entry at h
  cases hs : tls.sessionsByPath[pathId]? with
  | some session =>
    rw [hs] at h
    simp only [Option.some.injEq, Prod.mk.injEq] at h
    obtain ⟨rfl, rfl⟩ := h
    exact .inl ⟨rfl, rfl⟩
  | none =>
    rw [hs] at h
    dsimp only at h
    split at h
    · cases h
    · simp only [Option.some.injEq, Prod.mk.injEq] at h
      obtain ⟨rfl, rfl⟩ := h
      exact .inr ⟨rfl, rfl, startServer_fresh _ _, rfl⟩

/-- Finding the session of a path, or making one, secures nothing. -/
theorem entry_established {tls tls' : ServerTlsState} {pathId : UInt32} {s : ServerPathTlsState}
    (h : tls.entry host pathId = some (tls', s)) :
    s.established = (tls.sessionsByPath[pathId]?).any ServerPathTlsState.established := by
  obtain ⟨hs, -⟩ | ⟨hs, hest, -⟩ := entry_cases h
  · rw [hs, Option.any_some]
  · rw [hs, Option.any_none, hest]

theorem onDtlsPacket_runtime (h : EngineHandle σ) (tls : ServerTlsState) (s : ServerPathTlsState)
    (pathId : UInt32) (bytes : Bytes) :
    (h.onDtlsPacket tls s pathId bytes).1.runtime = h.runtime ∧
      ∃ tls', (h.onDtlsPacket tls s pathId bytes).1.tls = .server tls' := by
  unfold EngineHandle.onDtlsPacket
  rcases s.adapter.onDatagram bytes with ⟨adapter, hs⟩
  cases hs with
  | ok out => exact ⟨rfl, _, rfl⟩
  | error e => exact ⟨rfl, _, rfl⟩

variable [SessionStore σ] [Base64]

theorem onFrame_eq (h : EngineHandle σ) (nowMs : UInt64) (pathId : UInt32) (bytes : Bytes) :
    (h.onFrame nowMs pathId bytes).1.runtime = (h.runtime.onDatagram nowMs pathId bytes).1 ∧
      (h.onFrame nowMs pathId bytes).1.tls = h.tls := by
  unfold EngineHandle.onFrame
  rcases h.runtime.onDatagram nowMs pathId bytes with ⟨runtime, res⟩
  cases res with
  | ok out => exact ⟨rfl, rfl⟩
  | error e => exact ⟨rfl, rfl⟩

/-- One call: the runtime gets the datagram if it is admitted, and is left alone if not. -/
theorem step_gated {tls : ServerTlsState} {c : DatagramCall} {rc : Int}
    (htls : h.tls = .server tls) (hs : h.step c = some (h', rc)) :
    (∃ tls', h'.tls = .server tls') ∧
      h'.runtime = if h.admits c then (h.runtime.onDatagram c.nowMs c.pathId c.bytes).1
        else h.runtime := by
  simp only [EngineHandle.step, EngineHandle.v3FfiOnDatagram, htls, Option.map_eq_some_iff] at hs
  obtain ⟨⟨tls', s⟩, hentry, heq⟩ := hs
  have hsecured : h.admits c = (s.established && !isDtlsPacket c.bytes) := by
    rw [entry_established hentry]
    simp [EngineHandle.admits, EngineHandle.secured, EngineHandle.session, htls]
  rw [hsecured]
  dsimp only at heq
  cases hdtls : isDtlsPacket c.bytes with
  | true =>
    simp only [hdtls, Bool.or_true, if_true] at heq
    obtain ⟨hruntime, tls'', htls''⟩ :=
      onDtlsPacket_runtime { h with tls := .server tls' } tls' s c.pathId c.bytes
    rw [heq] at hruntime htls''
    refine ⟨⟨tls'', htls''⟩, ?_⟩
    rw [Bool.not_true, Bool.and_false, if_neg (by decide)]
    exact hruntime
  | false =>
    cases hest : s.established with
    | true =>
      simp only [hdtls, hest, Bool.not_true, Bool.or_false, Bool.false_eq_true, if_false] at heq
      obtain ⟨hruntime, htls'⟩ :=
        onFrame_eq { h with tls := .server tls' } c.nowMs c.pathId c.bytes
      rw [heq] at hruntime htls'
      exact ⟨⟨tls', htls'⟩, hruntime⟩
    | false =>
      simp only [hdtls, hest, Bool.not_false, Bool.or_false, if_true, Bool.false_eq_true, if_false,
        Prod.mk.injEq] at heq
      obtain ⟨rfl, -⟩ := heq
      exact ⟨⟨tls', rfl⟩, rfl⟩

end Gate

section Run
variable {σ : Type} [SessionStore σ] [Base64]

/-- The same step, of the runtime alone. -/
def fed (t : Taken (EngineHandle σ) DatagramCall Int) : Taken (ServerRuntime σ) Op RuntimeResult :=
  ⟨t.pre.runtime, t.input.op,
    (t.pre.runtime.onDatagram t.input.nowMs t.input.pathId t.input.bytes).2, t.post.runtime⟩

def admitted (hist : List (Taken (EngineHandle σ) DatagramCall Int)) :
    List (Taken (EngineHandle σ) DatagramCall Int) :=
  hist.filter fun t => t.pre.admits t.input

/-- The runtime behind a handle with server TLS goes through the states of a runtime that
is fed the admitted datagrams alone, and a datagram that is not admitted leaves it as it
is. -/
theorem tls_gate {start h : EngineHandle σ} {tls : ServerTlsState}
    {hist : List (Taken (EngineHandle σ) DatagramCall Int)} (htls : start.tls = .server tls)
    (hrun : Run EngineHandle.step start hist h) :
    Run ServerRuntime.step start.runtime ((admitted hist).map fed) h.runtime ∧
      ∀ t ∈ hist, t.pre.admits t.input = false → t.post.runtime = t.pre.runtime := by
  have hinv : (∃ tls', h.tls = .server tls') ∧
      Run ServerRuntime.step start.runtime ((admitted hist).map fed) h.runtime ∧
      ∀ t ∈ hist, t.pre.admits t.input = false → t.post.runtime = t.pre.runtime := by
    refine hrun.invariant (A := fun _ => True) (I := fun hist h => (∃ tls', h.tls = .server tls') ∧
      Run ServerRuntime.step start.runtime ((admitted hist).map fed) h.runtime ∧
      ∀ t ∈ hist, t.pre.admits t.input = false → t.post.runtime = t.pre.runtime)
      ⟨⟨tls, htls⟩, .nil, by simp⟩ ?_ fun _ _ => trivial
    rintro hist h c h' rc ⟨⟨tls, htls⟩, hfed, hleft⟩ hs -
    obtain ⟨htls', hruntime⟩ := step_gated htls hs
    refine ⟨htls', ?_, fun t ht hnot => ?_⟩
    · rw [admitted, List.filter_append, List.map_append]
      cases hadm : h.admits c with
      | true =>
        rw [hadm, if_pos rfl] at hruntime
        rw [List.filter_cons_of_pos (by exact hadm), List.filter_nil]
        refine hfed.snoc ?_
        rw [hruntime]
        rfl
      | false =>
        rw [hadm, if_neg (by decide)] at hruntime
        rw [List.filter_cons_of_neg (by simp [hadm]), List.filter_nil, List.map_nil,
          List.append_nil, hruntime]
        exact hfed
    · rcases List.mem_append.mp ht with hold | hnew
      · exact hleft t hold hnot
      · obtain rfl := List.mem_singleton.mp hnew
        have hnot' : h.admits c = false := hnot
        rw [hnot', if_neg (by decide)] at hruntime
        exact hruntime
  exact hinv.2

end Run

/-- A machine on which every file is there and readable. -/
def plainHost : Host where
  pathExists _ := true
  openssl := { plainOpenSsl with
    setCertificateFile := fun _ _ => .ok ()
    setPrivateKeyFile := fun _ _ => .ok () }

def plainHandle : EngineHandle InMemorySessionStore :=
  ((EngineHandle.v3FfiNewServer 1000 3 30000).v3FfiConfigureServerTls plainHost
    (Utf8.encode "api.example.com") (Utf8.encode "cert.pem") (Utf8.encode "key.pem")).1

/-- The same bytes before and after the handshake of their path, and on another path. -/
def gatedCalls : List DatagramCall :=
  [⟨plainHost, 0, 1, [1, 2, 3]⟩,
    ⟨plainHost, 1, 1, Utf8.encode "DTLS_CLIENT_HELLO|sni=api.example.com"⟩,
    ⟨plainHost, 2, 1, Utf8.encode "DTLS_CLIENT_HELLO_COOKIE|cookie=cookie-v3"⟩,
    ⟨plainHost, 3, 1, [1, 2, 3]⟩, ⟨plainHost, 4, 2, [1, 2, 3]⟩]

theorem gatedCalls_gated :
    ∃ tls hist h, plainHandle.tls = .server tls ∧
      exec EngineHandle.step plainHandle gatedCalls = some (hist, h) ∧
      hist.map (fun t => t.pre.admits t.input) = [false, false, false, true, false] ∧
      Run ServerRuntime.step plainHandle.runtime ((admitted hist).map fed) h.runtime ∧
      ∀ t ∈ hist, t.pre.admits t.input = false → t.post.runtime = t.pre.runtime := by
  have htls : ∃ tls, plainHandle.tls = .server tls := by
    cases h : plainHandle.tls with
    | server tls => exact ⟨tls, rfl⟩
    | disabled =>
      have hserver : (match plainHandle.tls with | .server _ => true | .disabled => false) = true := by
        decide +kernel
      simp [h] at hserver
  have hexec : (exec EngineHandle.step plainHandle gatedCalls).map
      (fun r => r.1.map fun t => t.pre.admits t.input) =
        some [false, false, false, true, false] := by decide +kernel
  obtain ⟨tls, htls⟩ := htls
  obtain ⟨⟨hist, h⟩, hexec, hadmits⟩ := Option.map_eq_some_iff.mp hexec
  exact ⟨tls, hist, h, htls, hexec, hadmits, tls_gate htls (Run.of_exec hexec)⟩

/-! ### What the flag of a path means -/

section Flags
variable {σ : Type}

/-- An answer that reports the state of the adapter after it; an error changes nothing. -/
inductive Reported (a : OpenSslDtlsAdapter) : OpenSslDtlsAdapter × HandshakeResult → Prop
  | ok {a' : OpenSslDtlsAdapter} {out : HandshakeOutput} : out.established = a'.established →
      (a.established = true → a'.established = true) → Reported a (a', .ok out)
  | error (e : CryptoError) : Reported a (a, .error e)

theorem onServerFlight_reported (a : OpenSslDtlsAdapter) (cfg : HandshakeConfig) (bytes : Bytes) :
    Reported a (a.onServerFlight cfg bytes) := by
  unfold OpenSslDtlsAdapter.onServerFlight
  dsimp only
  split_ifs
  · split
    · exact .error _
    · exact .ok rfl id
  · exact .error _
  · exact .ok rfl fun _ => rfl
  · exact .error _

theorem onClientFlight_reported (a : OpenSslDtlsAdapter) (cfg : HandshakeConfig) (bytes : Bytes) :
    Reported a (a.onClientFlight cfg bytes) := by
  unfold OpenSslDtlsAdapter.onClientFlight
  dsimp only
  split_ifs
  · exact .ok rfl id
  · exact .error _
  · exact .ok rfl fun _ => rfl
  · exact .error _

theorem onDatagram_reported (a : OpenSslDtlsAdapter) (bytes : Bytes) :
    Reported a (a.onDatagram bytes) := by
  unfold OpenSslDtlsAdapter.onDatagram
  by_cases hctx : a.ctx.isNone ∨ a.ssl.isNone
  · rw [if_pos hctx]
    exact .error _
  · rw [if_neg hctx]
    cases a.role with
    | none => exact .error _
    | some role =>
      cases a.cfg with
      | none => exact .error _
      | some cfg =>
        dsimp only
        split_ifs with hest
        · exact .ok hest.symm id
        · cases role with
          | client => exact onServerFlight_reported a cfg bytes
          | server => exact onClientFlight_reported a cfg bytes

/-- The flag of every path is that of its adapter. -/
def ServerTlsState.Agrees (tls : ServerTlsState) : Prop :=
  ∀ (pathId : UInt32) (s : ServerPathTlsState), tls.sessionsByPath[pathId]? = some s →
    s.established = s.adapter.established

theorem ServerTlsState.Agrees.insert {tls : ServerTlsState} {pathId : UInt32}
    {s : ServerPathTlsState} (h : tls.Agrees) (hs : s.established = s.adapter.established) :
    ServerTlsState.Agrees { tls with sessionsByPath := tls.sessionsByPath.insert pathId s } := by
  intro q r hr
  simp only [Std.TreeMap.getElem?_insert] at hr
  split_ifs at hr with heq
  · rwa [← Option.some.inj hr]
  · exact h q r hr

theorem entry_agrees {host : Host} {tls tls' : ServerTlsState} {pathId : UInt32}
    {s : ServerPathTlsState} (ha : tls.Agrees) (h : tls.entry host pathId = some (tls', s)) :
    tls'.Agrees ∧ s.established = s.adapter.established := by
  obtain ⟨hs, rfl⟩ | ⟨-, hest, hadapter, rfl⟩ := entry_cases h
  · exact ⟨ha, ha pathId s hs⟩
  · have hflag : s.established = s.adapter.established := by rw [hest, hadapter]
    exact ⟨ha.insert hflag, hflag⟩

theorem onDtlsPacket_agrees (h : EngineHandle σ) {tls : ServerTlsState} {s : ServerPathTlsState}
    (ha : tls.Agrees) (hs : s.established = s.adapter.established) (pathId : UInt32)
    (bytes : Bytes) :
    ∃ tls', (h.onDtlsPacket tls s pathId bytes).1.tls = .server tls' ∧ tls'.Agrees := by
  have hreported := onDatagram_reported s.adapter bytes
  unfold EngineHandle.onDtlsPacket
  generalize s.adapter.onDatagram bytes = answered at hreported ⊢
  cases hreported with
  | ok hout hkeep =>
    refine ⟨_, rfl, ha.insert ?_⟩
    rw [hs, hout]
    cases hest : s.adapter.established with
    | true => rw [hkeep hest, Bool.or_true]
    | false => rw [Bool.false_or]
  | error e => exact ⟨_, rfl, ha.insert hs⟩

variable [SessionStore σ] [Base64]

theorem step_agrees {h h' : EngineHandle σ} {tls : ServerTlsState} {c : DatagramCall} {rc : Int}
    (htls : h.tls = .server tls) (ha : tls.Agrees) (hs : h.step c = some (h', rc)) :
    ∃ tls', h'.tls = .server tls' ∧ tls'.Agrees := by
  simp only [EngineHandle.step, EngineHandle.v3FfiOnDatagram, htls, Option.map_eq_some_iff] at hs
  obtain ⟨⟨tls', s⟩, hentry, heq⟩ := hs
  obtain ⟨ha', hflag⟩ := entry_agrees ha hentry
  dsimp only at heq
  split_ifs at heq with hgate hdtls
  · have hpacket := onDtlsPacket_agrees { h with tls := .server tls' } ha' hflag c.pathId c.bytes
    rwa [heq] at hpacket
  · rw [← (Prod.mk.inj heq).1]
    exact ⟨tls', rfl, ha'⟩
  · have hframe := (onFrame_eq { h with tls := .server tls' } c.nowMs c.pathId c.bytes).2
    rw [heq] at hframe
    exact ⟨tls', hframe, ha'⟩

/-- From configuration on, a path counts as established exactly when its adapter is. -/
theorem secured_iff_adapter {host : Host} {h₀ start h : EngineHandle σ} {rc : Int}
    {serverName certPath keyPath : Bytes}
    (hcfg : h₀.v3FfiConfigureServerTls host serverName certPath keyPath = (start, rc))
    (hrc : rc = 0) {hist : List (Taken (EngineHandle σ) DatagramCall Int)}
    (hrun : Run EngineHandle.step start hist h) (pathId : UInt32) :
    h.secured pathId = (h.session pathId).any fun s => s.adapter.established := by
  have hstart : ∃ tls, start.tls = .server tls ∧ tls.Agrees := by
    subst hrc
    unfold EngineHandle.v3FfiConfigureServerTls at hcfg
    split at hcfg
    · simp [EngineHandle.setError] at hcfg
    split at hcfg
    · simp [EngineHandle.setError] at hcfg
    split at hcfg
    · simp [EngineHandle.setError] at hcfg
    split at hcfg
    · simp [EngineHandle.setError] at hcfg
    · rw [← (Prod.mk.inj hcfg).1]
      exact ⟨_, rfl, fun q s hs => by simp at hs⟩
  obtain ⟨tls, htls, hagrees⟩ : ∃ tls, h.tls = .server tls ∧ tls.Agrees :=
    hrun.invariant (A := fun _ => True) (I := fun _ h => ∃ tls, h.tls = .server tls ∧ tls.Agrees)
      hstart (fun _ _ _ _ _ ⟨_, htls, ha⟩ hs _ => step_agrees htls ha hs) fun _ _ => trivial
  cases hs : tls.sessionsByPath[pathId]? with
  | none => simp [EngineHandle.secured, EngineHandle.session, htls, hs]
  | some s => simp [EngineHandle.secured, EngineHandle.session, htls, hs, hagrees pathId s hs]

end Flags

end Todero.Ffi
