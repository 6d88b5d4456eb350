import Todero.ClientHandle
import Todero.ServerGate

/-! When the trust anchors of a client handle can be changed. The two calls look at flags that
are set when the handshake is established, not when it starts. -/
namespace Todero.Ffi
open Todero.Wire Todero.Core Todero.Client Todero.Crypto Transition

abbrev ClientTaken := Taken (Option ClientHandle) ClientCall Int

abbrev ClientHistory := List ClientTaken

def ClientTlsMode.state : ClientTlsMode → Option ClientTlsState
  | .disabled => none
  | .client tls => some tls

def tlsState (s : Option ClientHandle) : Option ClientTlsState := s.bind fun h => h.tls.state

/-- The trust configuration of a handle that has TLS configured. -/
def trustConfig (s : Option ClientHandle) : Option TrustConfig :=
  (tlsState s).map fun tls => tls.cfg.trust

def ClientCall.IsAnchorCall (c : ClientCall) : Prop :=
  c = .tlsClearAnchors ∨ ∃ pem, c = .tlsAddAnchorPem pem

/-- An anchor call that is not refused for its argument. -/
def ClientCall.ChangesAnchors (c : ClientCall) : Prop :=
  c = .tlsClearAnchors ∨ ∃ pem, pem ≠ [] ∧ c = .tlsAddAnchorPem pem

/-- A call of `v3_ffi_begin_handshake` has returned 0, and `v3_ffi_configure_client_tls` has not
been called since. -/
def HandshakeBegun (hist : ClientHistory) : Prop :=
  After (fun _ => True)
    (fun t => (∃ openssl nowMs, t.input = .beginHandshake openssl nowMs) ∧ t.output = 0)
    (fun t => ∀ expected, t.input ≠ .configureClientTls expected) hist

/-- The anchor calls fail once the handshake has begun, and change nothing. -/
def AnchorsFrozen (hist : ClientHistory) : Prop :=
  ∀ (hist₀ : ClientHistory) (t : ClientTaken) (hist₁ : ClientHistory),
    hist = hist₀ ++ t :: hist₁ → HandshakeBegun hist₀ → t.input.IsAnchorCall →
      t.output = -1 ∧ trustConfig t.post = trustConfig t.pre

/-- The DTLS adapter has not completed its handshake. -/
def Unestablished (s : Option ClientHandle) : Prop :=
  ∃ tls, tlsState s = some tls ∧ tls.adapter.established = false

/-- No anchors are changed between the beginning of a handshake and its completion. -/
def AnchorsLeft (hist : ClientHistory) : Prop :=
  ∀ (hist₀ : ClientHistory) (t : ClientTaken) (hist₁ : ClientHistory),
    hist = hist₀ ++ t :: hist₁ → HandshakeBegun hist₀ → t.input.ChangesAnchors →
      ¬ Unestablished t.pre

/-! ### The flags of a handle -/

/-- Both flags are those of the adapter. -/
def ClientTlsState.Agrees (tls : ClientTlsState) : Prop :=
  tls.established = tls.adapter.established ∧ tls.coreStarted = tls.adapter.established

def FlagsAgree (s : Option ClientHandle) : Prop := ∀ tls, tlsState s = some tls → tls.Agrees

section Calls
variable {h : ClientHandle}

theorem flagsAgree_iff {tls : ClientTlsState} (htls : h.tls = .client tls) :
    FlagsAgree (some h) ↔ tls.Agrees := by
  have hstate : tlsState (some h) = some tls := by
    rw [tlsState, Option.bind_some, htls]
    rfl
  rw [FlagsAgree, hstate]
  simp

/-- Most calls leave the adapter and the flags as they are. -/
theorem FlagsAgree.of_tls {h' : ClientHandle} (ha : FlagsAgree (some h)) (heq : h'.tls = h.tls) :
    FlagsAgree (some h') := by
  have hstate : tlsState (some h') = tlsState (some h) := by
    rw [tlsState, tlsState, Option.bind_some, Option.bind_some, heq]
  rwa [FlagsAgree, hstate]

theorem finish_tls (h : ClientHandle) (called : ClientRuntime × RuntimeResult) :
    (h.finish called).1.tls = h.tls := by
  unfold ClientHandle.finish
  dsimp only
  split <;> rfl

theorem configureNat_tls (h : ClientHandle) (relayPolicy : Int)
    (stunUri turnUri turnRealm turnUsername turnPassword : Bytes) :
    (h.v3FfiConfigureNat relayPolicy stunUri turnUri turnRealm turnUsername turnPassword).1.tls =
      h.tls := by
  unfold ClientHandle.v3FfiConfigureNat
  repeat' split
  all_goals rfl

theorem configureServerTls_tls (host : Host) (h : ClientHandle)
    (serverName certPath keyPath : Bytes) :
    (h.v3FfiConfigureServerTls host serverName certPath keyPath).1.tls = h.tls := by
  unfold ClientHandle.v3FfiConfigureServerTls
  repeat' split
  all_goals rfl

theorem startCore_tls (h : ClientHandle) (nowMs : UInt64) : (h.startCore nowMs).1.tls = h.tls := by
  unfold ClientHandle.startCore
  dsimp only
  split <;> rfl

theorem startClient_established (a : OpenSslDtlsAdapter) (openssl : OpenSsl)
    (cfg : HandshakeConfig) (hest : a.established = false) :
    (a.startClient openssl cfg).1.established = false := by
  unfold OpenSslDtlsAdapter.startClient
  split
  · exact hest
  · rfl

theorem beginHandshake_agrees (openssl : OpenSsl) (nowMs : UInt64) (ha : FlagsAgree (some h)) :
    FlagsAgree (some (h.v3FfiBeginHandshake openssl nowMs).1) := by
  unfold ClientHandle.v3FfiBeginHandshake
  split
  · rename_i tls htls
    obtain ⟨hest, hcore⟩ := (flagsAgree_iff htls).mp ha
    split_ifs with hflag
    · have hnot : tls.adapter.established = false := by
        rw [← hest]
        simpa using hflag
      have hstart := startClient_established tls.adapter openssl tls.cfg hnot
      unfold ClientHandle.startTls
      generalize tls.adapter.startClient openssl tls.cfg = started at *
      obtain ⟨adapter, hs⟩ := started
      have hagree : ClientTlsState.Agrees { tls with adapter := adapter } :=
        ⟨(hest.trans hnot).trans hstart.symm, (hcore.trans hnot).trans hstart.symm⟩
      cases hs with
      | ok out => exact (flagsAgree_iff rfl).mpr hagree
      | error e => exact (flagsAgree_iff rfl).mpr hagree
    · exact ha.of_tls (finish_tls h _)
  · exact ha.of_tls (finish_tls h _)

theorem onHandshakeDatagram_agrees {tls : ClientTlsState} (nowMs : UInt64) (pathId : UInt32)
    (bytes : Bytes) (ha : tls.Agrees) (hnot : tls.established = false) :
    FlagsAgree (some (h.onHandshakeDatagram tls nowMs pathId bytes).1) := by
  obtain ⟨hest, hcore⟩ := ha
  have hreported := onDatagram_reported tls.adapter bytes
  unfold ClientHandle.onHandshakeDatagram
  generalize tls.adapter.onDatagram bytes = answer at *
  cases hreported with
  | @ok adapter out hout _ =>
    dsimp only
    cases hdone : out.established with
    | true =>
      rw [hdone] at hout
      have hstarted : tls.coreStarted = false := hcore.trans (hest.symm.trans hnot)
      rw [if_pos rfl, hstarted]
      refine FlagsAgree.of_tls ?_ (startCore_tls _ nowMs)
      exact (flagsAgree_iff rfl).mpr ⟨hout, hout⟩
    | false =>
      rw [hdone] at hout
      rw [if_neg Bool.false_ne_true]
      intro tls' htls'
      obtain rfl := Option.some.inj htls'
      exact ⟨hnot.trans hout, (hcore.trans (hest.symm.trans hnot)).trans hout⟩
  | error e => exact (flagsAgree_iff rfl).mpr ⟨hest, hcore⟩

theorem onDatagram_agrees (nowMs : UInt64) (pathId : UInt32) (bytes : Bytes)
    (ha : FlagsAgree (some h)) : FlagsAgree (some (h.v3FfiOnDatagram nowMs pathId bytes).1) := by
  unfold ClientHandle.v3FfiOnDatagram
  split
  · rename_i tls htls
    have hagree := (flagsAgree_iff htls).mp ha
    split_ifs with hflag hdtls
    · exact onHandshakeDatagram_agrees nowMs pathId bytes hagree (by simpa using hflag)
    · exact ha.of_tls rfl
    · exact ha.of_tls (finish_tls h _)
  · exact ha.of_tls (finish_tls h _)

theorem configureClientTls_agrees (expected : Bytes) (ha : FlagsAgree (some h)) :
    FlagsAgree (some (h.v3FfiConfigureClientTls expected).1) := by
  unfold ClientHandle.v3FfiConfigureClientTls
  split
  · exact ha.of_tls rfl
  · split
    · exact ha.of_tls rfl
    · exact (flagsAgree_iff rfl).mpr ⟨rfl, rfl⟩

theorem changeAnchors_agrees (change : List Bytes → List Bytes) (ha : FlagsAgree (some h)) :
    FlagsAgree (some (h.changeAnchors change).1) := by
  unfold ClientHandle.changeAnchors
  split
  · rename_i tls htls
    have hagree := (flagsAgree_iff htls).mp ha
    split_ifs
    · exact ha.of_tls rfl
    · intro tls' htls'
      obtain rfl := Option.some.inj htls'
      exact hagree
  · exact ha.of_tls rfl

theorem addAnchorPem_agrees (pem : Bytes) (ha : FlagsAgree (some h)) :
    FlagsAgree (some (h.v3FfiTlsAddAnchorPem pem).1) := by
  unfold ClientHandle.v3FfiTlsAddAnchorPem
  split_ifs
  · exact ha.of_tls rfl
  · exact changeAnchors_agrees _ ha

theorem agrees_of_called {s' : Option ClientHandle} {called : ClientHandle × Int} {rc : Int}
    (ha : FlagsAgree (some called.1)) (hs : some (called.map some id) = some (s', rc)) :
    FlagsAgree s' := by
  have heq : some called.1 = s' := congrArg Prod.fst (Option.some.inj hs)
  rwa [← heq]

theorem call_agrees {s' : Option ClientHandle} {c : ClientCall} {rc : Int}
    (ha : FlagsAgree (some h)) (hs : h.call c = some (s', rc)) : FlagsAgree s' := by
  cases c with
  | beginHandshake openssl nowMs =>
    exact agrees_of_called (beginHandshake_agrees openssl nowMs ha) hs
  | onDatagram nowMs pathId bytes =>
    exact agrees_of_called (onDatagram_agrees nowMs pathId bytes ha) hs
  | sendMessage payload =>
    obtain ⟨⟨h', rc'⟩, hsend, heq⟩ := Option.map_eq_some_iff.mp hs
    obtain ⟨called, -, hfinish⟩ := Option.map_eq_some_iff.mp hsend
    have htls := finish_tls h called
    rw [hfinish] at htls
    exact agrees_of_called (ha.of_tls htls) (congrArg some heq)
  | closeSession => exact agrees_of_called (ha.of_tls (finish_tls h _)) hs
  | configureNat relayPolicy stunUri turnUri turnRealm turnUsername turnPassword =>
    exact agrees_of_called (ha.of_tls (configureNat_tls h relayPolicy stunUri turnUri turnRealm
      turnUsername turnPassword)) hs
  | serverSendMessage cid payload nowMs =>
    obtain ⟨rfl, -⟩ := Prod.mk.inj (Option.some.inj hs)
    exact ha
  | pollTimers nowMs limit => exact agrees_of_called (ha.of_tls (finish_tls h _)) hs
  | pollNat nowMs =>
    have htls : h.v3FfiPollNat.1.tls = h.tls := rfl
    exact agrees_of_called (ha.of_tls htls) hs
  | configureClientTls expected => exact agrees_of_called (configureClientTls_agrees expected ha) hs
  | tlsClearAnchors => exact agrees_of_called (changeAnchors_agrees (fun _ => []) ha) hs
  | tlsAddAnchorPem pem => exact agrees_of_called (addAnchorPem_agrees pem ha) hs
  | configureServerTls host serverName certPath keyPath =>
    exact agrees_of_called (ha.of_tls (configureServerTls_tls host h serverName certPath keyPath))
      hs
  | clearOutput =>
    have htls : h.v3FfiClearOutput.tls = h.tls := rfl
    have heq : some h.v3FfiClearOutput = s' := congrArg Prod.fst (Option.some.inj hs)
    rw [← heq]
    exact ha.of_tls htls
  | free =>
    have heq : none = s' := congrArg Prod.fst (Option.some.inj hs)
    rw [← heq]
    intro tls htls
    cases htls

end Calls

theorem flagsAgree_of_run {cid msrIntervalMs missWindowCount disconnectWindowMs : UInt64}
    {hist : ClientHistory} {s : Option ClientHandle}
    (hrun : Run clientStep (some (ClientHandle.v3FfiNewClient cid msrIntervalMs missWindowCount
      disconnectWindowMs)) hist s) : FlagsAgree s := by
  induction hrun with
  | nil =>
    intro tls htls
    cases htls
  | @snoc hist s s' c rc _ hs ih =>
    cases s with
    | none =>
      obtain ⟨rfl, -⟩ := Prod.mk.inj (Option.some.inj hs)
      exact ih
    | some h => exact call_agrees ih hs

/-! ### The calls that change anchors -/

section Anchors
variable {s s' : Option ClientHandle} {rc : Int}

/-- An anchor call that is refused changes nothing. -/
def Refused (s s' : Option ClientHandle) (rc : Int) : Prop :=
  rc = -1 ∧ trustConfig s' = trustConfig s

theorem unestablished_iff {h : ClientHandle} {tls : ClientTlsState} (htls : h.tls = .client tls) :
    Unestablished (some h) ↔ tls.adapter.established = false := by
  have hstate : tlsState (some h) = some tls := by
    rw [tlsState, Option.bind_some, htls]
    rfl
  simp [Unestablished, hstate]

theorem setError_refused (h : ClientHandle) (e : ClientHandleError) :
    Refused (some h) (some (h.setError e).1) (h.setError e).2 := ⟨rfl, rfl⟩

theorem changeAnchors_refused_iff {h : ClientHandle} (change : List Bytes → List Bytes)
    (ha : FlagsAgree (some h)) :
    Refused (some h) (some (h.changeAnchors change).1) (h.changeAnchors change).2 ↔
      ¬ Unestablished (some h) := by
  unfold ClientHandle.changeAnchors
  split
  · rename_i tls htls
    obtain ⟨hest, hcore⟩ := (flagsAgree_iff htls).mp ha
    rw [unestablished_iff htls, hest, hcore, Bool.or_self]
    cases tls.adapter.established with
    | true => exact iff_of_true (setError_refused h _) Bool.true_eq_false_eq_False
    | false =>
      refine iff_of_false ?_ (not_not.mpr rfl)
      rintro ⟨hrc, -⟩
      cases hrc
  · rename_i htls
    refine iff_of_true (setError_refused h _) ?_
    rintro ⟨tls, hstate, -⟩
    rw [tlsState, Option.bind_some, htls] at hstate
    cases hstate

/-- What is taken does not reach a handshake that is under way. -/
theorem changeAnchors_adapter (h : ClientHandle) (change : List Bytes → List Bytes) :
    (tlsState (some (h.changeAnchors change).1)).map ClientTlsState.adapter =
      (tlsState (some h)).map ClientTlsState.adapter := by
  unfold ClientHandle.changeAnchors
  cases htls : h.tls with
  | disabled => simp [tlsState, ClientHandle.setError, htls]
  | client tls =>
    dsimp only
    split_ifs
    · rfl
    · simp [tlsState, htls, ClientTlsMode.state]

theorem anchorCall_refused_iff {c : ClientCall} (ha : FlagsAgree s) (hc : c.IsAnchorCall)
    (hs : clientStep s c = some (s', rc)) :
    Refused s s' rc ↔ (c.ChangesAnchors → ¬ Unestablished s) := by
  cases s with
  | none =>
    have hmissing : (none, c.missing) = (s', rc) := Option.some.inj hs
    obtain ⟨rfl, rfl⟩ := Prod.mk.inj hmissing
    refine iff_of_true ?_ fun _ hun => ?_
    · obtain rfl | ⟨pem, rfl⟩ := hc
      · exact ⟨rfl, rfl⟩
      · exact ⟨rfl, rfl⟩
    · obtain ⟨tls, hstate, -⟩ := hun
      cases hstate
  | some h =>
    obtain rfl | ⟨pem, rfl⟩ := hc
    · have heq : (some h.v3FfiTlsClearAnchors.1, h.v3FfiTlsClearAnchors.2) = (s', rc) :=
        Option.some.inj hs
      obtain ⟨rfl, rfl⟩ := Prod.mk.inj heq
      rw [forall_prop_of_true (.inl rfl)]
      exact changeAnchors_refused_iff _ ha
    · have heq : (some (h.v3FfiTlsAddAnchorPem pem).1, (h.v3FfiTlsAddAnchorPem pem).2) =
          (s', rc) := Option.some.inj hs
      obtain ⟨rfl, rfl⟩ := Prod.mk.inj heq
      unfold ClientHandle.v3FfiTlsAddAnchorPem
      by_cases hpem : pem = []
      · rw [if_pos hpem]
        refine iff_of_true (setError_refused h _) ?_
        rintro (hclear | ⟨pem', hne, hadd⟩)
        · cases hclear
        · cases hadd
          exact absurd hpem hne
      · rw [if_neg hpem, imp_iff_right (.inr ⟨pem, hpem, rfl⟩)]
        exact changeAnchors_refused_iff _ ha

end Anchors

/-- In every run of a client handle the anchors are frozen exactly if they are left alone until
the handshake that has begun is established. -/
theorem anchors_frozen_iff {cid msrIntervalMs missWindowCount disconnectWindowMs : UInt64}
    {hist : ClientHistory} {s : Option ClientHandle}
    (hrun : Run clientStep (some (ClientHandle.v3FfiNewClient cid msrIntervalMs missWindowCount
      disconnectWindowMs)) hist s) :
    AnchorsFrozen hist ↔ AnchorsLeft hist := by
  have hcall : ∀ (hist₀ : ClientHistory) (t : ClientTaken) (hist₁ : ClientHistory),
      hist = hist₀ ++ t :: hist₁ → t.input.IsAnchorCall →
        (Refused t.pre t.post t.output ↔ (t.input.ChangesAnchors → ¬ Unestablished t.pre)) := by
    rintro hist₀ t hist₁ rfl hc
    obtain ⟨hbefore, hs⟩ := hrun.split
    exact anchorCall_refused_iff (flagsAgree_of_run hbefore) hc hs
  constructor
  · intro hfrozen hist₀ t hist₁ hsplit hbegun hchanges
    have hc : t.input.IsAnchorCall := by
      obtain hclear | ⟨pem, -, hadd⟩ := hchanges
      · exact .inl hclear
      · exact .inr ⟨pem, hadd⟩
    exact (hcall hist₀ t hist₁ hsplit hc).mp (hfrozen hist₀ t hist₁ hsplit hbegun hc) hchanges
  · intro hleft hist₀ t hist₁ hsplit hbegun hc
    exact (hcall hist₀ t hist₁ hsplit hc).mpr (hleft hist₀ t hist₁ hsplit hbegun)

/-- A handle with TLS and one anchor, its handshake, and a second anchor after it. -/
def anchoredCalls : List ClientCall :=
  [.configureClientTls (Utf8.encode "api.example.com"), .tlsAddAnchorPem [1],
    .beginHandshake plainOpenSsl 0, .onDatagram 1 1 (Utf8.encode "DTLS_HELLO_VERIFY|cookie=c"),
    .onDatagram 2 1 (Utf8.encode "DTLS_SERVER_HELLO|sni=api.example.com"), .tlsAddAnchorPem [2]]

theorem anchoredCalls_frozen :
    ∃ hist s, exec clientStep (some (ClientHandle.v3FfiNewClient 7 1000 3 30000)) anchoredCalls =
        some (hist, s) ∧ hist.map Taken.output = [0, 0, 0, 0, 0, -1] ∧
      (AnchorsFrozen hist ↔ AnchorsLeft hist) := by
  have hexec : ((exec clientStep (some (ClientHandle.v3FfiNewClient 7 1000 3 30000))
      anchoredCalls).any fun r => r.1.map Taken.output = [0, 0, 0, 0, 0, -1]) = true := by
    decide +kernel
  obtain ⟨⟨hist, s⟩, hexec, houtputs⟩ := (Option.any_eq_true _ _).mp hexec
  exact ⟨hist, s, hexec, of_decide_eq_true houtputs, anchors_frozen_iff (Run.of_exec hexec)⟩

/-- The second anchor is taken while the handshake is under way. -/
def lateAnchorCalls : List ClientCall :=
  [.configureClientTls (Utf8.encode "api.example.com"), .tlsAddAnchorPem [1],
    .beginHandshake plainOpenSsl 0, .tlsAddAnchorPem [2]]

theorem lateAnchor_taken :
    ¬ ∀ (cid msrIntervalMs missWindowCount disconnectWindowMs : UInt64) (hist : ClientHistory)
      (s : Option ClientHandle), Run clientStep (some (ClientHandle.v3FfiNewClient cid
        msrIntervalMs missWindowCount disconnectWindowMs)) hist s → AnchorsFrozen hist := by
  intro hclaim
  have hexec : ((exec clientStep (some (ClientHandle.v3FfiNewClient 7 1000 3 30000))
      lateAnchorCalls).any fun r => r.1.map Taken.output = [0, 0, 0, 0]) = true := by
    decide +kernel
  obtain ⟨⟨hist, s⟩, hexec, houtputs⟩ := (Option.any_eq_true _ _).mp hexec
  have hfrozen := hclaim 7 1000 3 30000 hist s (Run.of_exec hexec)
  have hinputs := exec_inputs hexec
  have houtputs : hist.map Taken.output = [0, 0, 0, 0] := of_decide_eq_true houtputs
  obtain ⟨t₀, hist, rfl, -, hinputs⟩ := List.map_eq_cons_iff.mp hinputs
  obtain ⟨t₁, hist, rfl, -, hinputs⟩ := List.map_eq_cons_iff.mp hinputs
  obtain ⟨t₂, hist, rfl, hbegin, hinputs⟩ := List.map_eq_cons_iff.mp hinputs
  obtain ⟨t₃, hist, rfl, hadd, -⟩ := List.map_eq_cons_iff.mp hinputs
  simp only [List.map_cons, List.cons.injEq] at houtputs
  obtain ⟨-, -, hbegun, htaken, -⟩ := houtputs
  have hstarted : HandshakeBegun [t₀, t₁, t₂] :=
    ⟨[t₀, t₁], t₂, [], rfl, trivial, ⟨⟨_, _, hbegin⟩, hbegun⟩, by simp⟩
  have hrefused := (hfrozen [t₀, t₁, t₂] t₃ hist rfl hstarted (.inr ⟨_, hadd⟩)).1
  rw [htaken] at hrefused
  cases hrefused

end Todero.Ffi
