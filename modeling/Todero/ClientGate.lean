import Todero.ClientSpec
import Todero.TrustAnchors

/-! The TLS gate of a client handle: what each call of the handle comes to in its runtime, and
what leaves the handle before the TLS handshake is established. -/
namespace Todero.Core
open Todero.Wire Transition

/-! ### A core that is not in a session -/

section Asleep
variable {m m' : CoreMachine}

def CoreMachine.live (m : CoreMachine) : Bool := m.state = .established || m.state = .reactivating

theorem Moved.asleep {k : Call} (h : Moved m k m') (hm : m.live = false) : m'.live = false := by
  cases h with
  | doubted _ hup _ => rcases hup with hup | hup <;> simp [CoreMachine.live, hup] at hm
  | same | announced | rolledBack | queued | proposed | switched => exact hm
  | abandoned | timedOut | closed => rfl

theorem utters_asleep (hm : m.live = false) (k : Call) : ∀ p ∈ m.utters k,
    p = .control .close ∨ ((∃ nowMs, k = .beginHandshake nowMs) ∧ p = .control .clientHello) := by
  obtain ⟨hestablished, hreactivating⟩ : m.state ≠ .established ∧ m.state ≠ .reactivating := by
    simpa [CoreMachine.live] using hm
  intro p hp
  cases k with
  | beginHandshake nowMs =>
    rw [CoreMachine.utters] at hp
    split_ifs at hp
    · exact .inr ⟨⟨nowMs, rfl⟩, List.mem_singleton.mp hp⟩
    · cases hp
  | timer nowMs timerId => cases timerId <;> simp [CoreMachine.utters, *] at hp
  | close =>
    rw [CoreMachine.utters] at hp
    split_ifs at hp
    · cases hp
    · exact .inl (List.mem_singleton.mp hp)
  | send payload => simp [CoreMachine.utters, hestablished] at hp
  | proposeTimers nowMs p => simp [CoreMachine.utters, CoreMachine.canPropose, hestablished] at hp
  | pathChanged pathId => cases hp

/-- What calls of the application and of timers do to a core outside a session: it stays
outside, takes nothing in, and says nothing but `Close` and its own hello. -/
structure Sleeps (m m' : CoreMachine) (begun : Prop) (seg : History) : Prop where
  asleep : m'.live = false
  lasting : m'.lasting = m.lasting
  quiet : (told seg).filter Event.isDelivery = []
  said : ∀ bytes ∈ said seg, bytes = (Packet.control .close).bytes m.cid ∨
    (begun ∧ bytes = (Packet.control .clientHello).bytes m.cid)

theorem exec_sleeps {ops : List Op} {seg : History} (hm : m.live = false)
    (hops : ∀ op ∈ ops, ∃ k, op = .call k) (h : exec CoreMachine.step m ops = some (seg, m')) :
    Sleeps m m' (∃ nowMs, .call (.beginHandshake nowMs) ∈ ops) seg := by
  induction ops generalizing m seg with
  | nil =>
    obtain ⟨rfl, rfl⟩ := Prod.mk.inj (Option.some.inj h)
    exact ⟨hm, rfl, rfl, by simp [said]⟩
  | cons op ops ih =>
    obtain ⟨k, rfl⟩ := hops op (by simp)
    cases hs : m.step (.call k) with
    | none => simp [exec, hs] at h
    | some called =>
      obtain ⟨m₁, res⟩ := called
      simp only [exec, hs, Option.map_eq_some_iff, Prod.mk.injEq] at h
      obtain ⟨⟨seg₁, m₂⟩, htail, rfl, rfl⟩ := h
      have hans := apply_answers m hs
      obtain rfl : m₁ = m.next k := hans.next
      have hmoved := next_moved m k
      have hrest := ih (hmoved.asleep hm) (fun op hop => hops op (by simp [hop])) htail
      have hcid : (m.next k).cid = m.cid := congrArg Lasting.cid hmoved.lasting
      refine ⟨hrest.asleep, hrest.lasting.trans hmoved.lasting, ?_, fun bytes hmem => ?_⟩
      · have hsplit : told (⟨m, .call k, res, m.next k⟩ :: seg₁) =
          res.output.events ++ told seg₁ := rfl
        rw [hsplit, List.filter_append, hrest.quiet, hans.events, tells_deliveries]
        rfl
      · have hsplit : said (⟨m, .call k, res, m.next k⟩ :: seg₁) =
          res.output.outboundDatagrams.map OutboundDatagram.bytes ++ said seg₁ := rfl
        rw [hsplit, hans.datagrams, List.mem_append, List.map_map, List.mem_map] at hmem
        rcases hmem with ⟨p, hp, rfl⟩ | hlater
        · obtain rfl | ⟨⟨nowMs, rfl⟩, rfl⟩ := utters_asleep hm k p hp
          · exact .inl rfl
          · exact .inr ⟨⟨nowMs, by simp⟩, rfl⟩
        · rcases hrest.said bytes hlater with hclose | ⟨⟨nowMs, hbegin⟩, hhello⟩
          · exact .inl (hcid ▸ hclose)
          · exact .inr ⟨⟨nowMs, by simp [hbegin]⟩, hcid ▸ hhello⟩

theorem exec_cid {ops : List Op} {seg : History}
    (h : exec CoreMachine.step m ops = some (seg, m')) : m'.cid = m.cid := by
  refine (Run.of_exec h).invariant (A := fun _ => True) (I := fun _ m' => m'.cid = m.cid) rfl ?_
    fun _ _ => trivial
  rintro hist m₁ op m₂ res hcid hs -
  cases op with
  | call k => exact (apply_cid hs).trans hcid
  | datagram nowMs src bytes =>
    have heq : onDatagram m₁ nowMs src bytes = (m₂, res) := Option.some.inj hs
    have hfixed := onDatagram_fixed m₁ nowMs src bytes
    rw [heq] at hfixed
    exact (congrArg Fixed.cid hfixed).trans hcid

end Asleep

end Todero.Core

namespace Todero.Ffi
open Todero.Wire Todero.Core Todero.Client Todero.Crypto Transition

/-! ### What a call of the handle comes to -/

/-- TLS is configured and not established. -/
def ClientHandle.gated (h : ClientHandle) : Bool :=
  match h.tls with
  | .client tls => !tls.established
  | .disabled => false

/-- The datagram establishes TLS, for the first time since it was configured. -/
def ClientTlsState.opensOn (tls : ClientTlsState) (bytes : Bytes) : Bool :=
  match (tls.adapter.onDatagram bytes).2 with
  | .ok out => out.established && !tls.coreStarted
  | .error _ => false

/-- The call of the runtime that a call of the handle comes to. -/
def ClientHandle.reached (h : ClientHandle) : ClientCall → Option Client.Op
  | .beginHandshake _ nowMs => if h.gated then none else some (.beginHandshake nowMs)
  | .onDatagram nowMs pathId bytes =>
    match h.tls with
    | .client tls =>
      if !tls.established then
        if tls.opensOn bytes then some (.beginHandshake nowMs) else none
      else if isDtlsPacket bytes then none
      else some (.datagram nowMs pathId bytes)
    | .disabled => some (.datagram nowMs pathId bytes)
  | .sendMessage payload => some (.sendMessage payload)
  | .closeSession => some .closeSession
  | .pollTimers nowMs limit => some (.pollTimers nowMs limit)
  | .configureNat _ _ _ _ _ _ | .serverSendMessage _ _ _ | .pollNat _ | .configureClientTls _
  | .tlsClearAnchors | .tlsAddAnchorPem _ | .configureServerTls _ _ _ _ | .clearOutput | .free =>
    none

/-- The calls that put something new in the output where they return 0. -/
def ClientCall.writes : ClientCall → Bool
  | .beginHandshake _ _ | .onDatagram _ _ _ | .sendMessage _ | .closeSession
  | .configureNat _ _ _ _ _ _ | .pollTimers _ _ | .pollNat _ => true
  | _ => false

/-- What a caller sees that looks at the output after each call that has put something there. -/
def ClientCall.shown (c : ClientCall) (h' : ClientHandle) (rc : Int) : ClientOutputBuffer :=
  if c.writes && rc = 0 then h'.output else {}

def ClientOutputEvent.coreEvent : ClientOutputEvent → Option Event
  | .core (.core event) => some event
  | .runtime (.core event) => some event
  | .handshakeStarted | .handshakeEstablished | .natConfig _ _ _ _ _ _ => none

def ClientOutputBuffer.coreEvents (out : ClientOutputBuffer) : List Event :=
  out.events.filterMap ClientOutputEvent.coreEvent

/-- The message of an entry that is written as a delivery. -/
def ClientOutputEvent.message : ClientOutputEvent → Option (Nat × Bytes)
  | .runtime (.core event) => event.message
  | .core _ | .handshakeStarted | .handshakeEstablished | .natConfig _ _ _ _ _ _ => none

/-- An output that has the given events of the core in it, and all their messages as
deliveries. -/
structure ClientOutputBuffer.Tells (out : ClientOutputBuffer) (events : List Event) : Prop where
  core : out.coreEvents = events
  messages : out.events.filterMap ClientOutputEvent.message = events.filterMap Event.message

/-- How a call of the handle passes to the runtime, and what it shows: a flight of the TLS
handshake, and after it what the runtime puts out. -/
inductive Passes (h h' : ClientHandle) (shown : ClientOutputBuffer) : Option Client.Op → Prop
  | aside (runtime : h'.runtime = h.runtime) (events : shown.Tells [])
      (flight : ∀ d ∈ shown.datagrams, isDtlsPacket d.2) : Passes h h' shown none
  | through {op : Client.Op} {res : RuntimeResult} (flight : List Bytes)
      (step : h.runtime.step op = some (h'.runtime, res))
      (events : shown.Tells (eventsOf res)) (handshake : ∀ bytes ∈ flight, isDtlsPacket bytes)
      (datagrams : shown.datagrams.map Prod.snd = flight ++ datagramsOf res) :
      Passes h h' shown (some op)

theorem ClientOutputBuffer.Tells.nothing (ds : List (UInt32 × Bytes)) :
    ClientOutputBuffer.Tells ⟨ds, []⟩ [] := ⟨rfl, rfl⟩

theorem ClientOutputBuffer.Tells.runtime (ds : List (UInt32 × Bytes)) (es : List ClientRuntimeEvent) :
    ClientOutputBuffer.Tells ⟨ds, es.map .runtime⟩ (es.map coreEvent) where
  core := by
    have hcomp : ClientOutputEvent.coreEvent ∘ ClientOutputEvent.runtime = some ∘ coreEvent :=
      funext fun _ => rfl
    rw [ClientOutputBuffer.coreEvents, List.filterMap_map, hcomp, List.filterMap_eq_map]
  messages := by
    rw [List.filterMap_map, List.filterMap_map]
    rfl

/-- The events of the handshake of the core are written after those of TLS. -/
theorem ClientOutputBuffer.Tells.follow {out : ClientOutputBuffer} (hout : out.Tells []) (ds : List (UInt32 × Bytes))
    {es : List ClientRuntimeEvent} (hes : (es.map coreEvent).filterMap Event.message = []) :
    ClientOutputBuffer.Tells ⟨ds, out.events ++ es.map .core⟩ (es.map coreEvent) where
  core := by
    have hcomp : ClientOutputEvent.coreEvent ∘ ClientOutputEvent.core = some ∘ coreEvent :=
      funext fun _ => rfl
    rw [ClientOutputBuffer.coreEvents, List.filterMap_append, List.filterMap_map, hcomp,
      List.filterMap_eq_map, ← ClientOutputBuffer.coreEvents, hout.core, List.nil_append]
  messages := by
    have hcomp : ClientOutputEvent.message ∘ ClientOutputEvent.core = fun _ => none :=
      funext fun _ => rfl
    rw [hes, List.filterMap_append, hout.messages, List.filterMap_map, hcomp]
    simp

theorem map_snd_outbound (ds : List OutboundDatagram) :
    (ds.map fun d => (d.pathId, d.bytes)).map Prod.snd = ds.map OutboundDatagram.bytes := by
  rw [List.map_map]
  rfl

theorem finish_passes (h : ClientHandle) (op : Client.Op) (c : ClientCall)
    {called : ClientRuntime × RuntimeResult} (hcalled : h.runtime.step op = some called) (hwrites : c.writes = true) :
    Passes h (h.finish called).1 (c.shown (h.finish called).1 (h.finish called).2) (some op) := by
  obtain ⟨runtime, res⟩ := called
  cases res with
  | ok out =>
    have hshown : c.shown (h.finish (runtime, .ok out)).1 (h.finish (runtime, .ok out)).2 =
        normalizeClientOutput out := by
      simp [ClientCall.shown, hwrites, ClientHandle.finish]
    rw [hshown]
    refine .through [] hcalled (.runtime _ _) (by simp) ?_
    exact map_snd_outbound out.outboundDatagrams
  | error e =>
    have hshown : c.shown (h.finish (runtime, .error e)).1 (h.finish (runtime, .error e)).2 =
        {} := by
      simp [ClientCall.shown, ClientHandle.finish, ClientHandle.setError]
    rw [hshown]
    exact .through [] hcalled (.nothing []) (by simp) rfl

/-! ### The flights of the adapter -/

theorem isDtlsPacket_text (text : String) : isDtlsPacket (Utf8.encode ("DTLS_" ++ text)) = true := by
  rw [isDtlsPacket, List.isPrefixOf_iff_prefix]
  refine ⟨Utf8.encode text, ?_⟩
  rw [Utf8.encode, Utf8.encode, Utf8.encode, String.toByteArray_append, ByteArray.data_append,
    Array.toList_append]

theorem startClient_flight {a : OpenSslDtlsAdapter} {openssl : OpenSsl} {cfg : HandshakeConfig}
    {out : HandshakeOutput} (h : (a.startClient openssl cfg).2 = .ok out) :
    ∀ bytes ∈ out.outboundDatagrams, isDtlsPacket bytes := by
  unfold OpenSslDtlsAdapter.startClient at h
  split at h
  · cases h
  · rw [← Except.ok.inj h]
    rintro bytes hmem
    obtain rfl := List.mem_singleton.mp hmem
    exact isDtlsPacket_text ("CLIENT_HELLO|sni=" ++ cfg.expectedServerName.getD "peer")

theorem onServerFlight_flight {a : OpenSslDtlsAdapter} {cfg : HandshakeConfig} {datagram : Bytes}
    {out : HandshakeOutput} (h : (a.onServerFlight cfg datagram).2 = .ok out) :
    ∀ bytes ∈ out.outboundDatagrams, isDtlsPacket bytes := by
  unfold OpenSslDtlsAdapter.onServerFlight at h
  dsimp only at h
  split_ifs at h
  · split at h
    · cases h
    · rw [← Except.ok.inj h]
      rintro bytes hmem
      obtain rfl := List.mem_singleton.mp hmem
      exact isDtlsPacket_text ("CLIENT_HELLO_COOKIE|cookie=" ++ _)
  · rw [← Except.ok.inj h]
    rintro bytes hmem
    cases hmem

theorem onClientFlight_flight {a : OpenSslDtlsAdapter} {cfg : HandshakeConfig} {datagram : Bytes}
    {out : HandshakeOutput} (h : (a.onClientFlight cfg datagram).2 = .ok out) :
    ∀ bytes ∈ out.outboundDatagrams, isDtlsPacket bytes := by
  unfold OpenSslDtlsAdapter.onClientFlight at h
  dsimp only at h
  split_ifs at h
  · rw [← Except.ok.inj h]
    rintro bytes hmem
    obtain rfl := List.mem_singleton.mp hmem
    exact isDtlsPacket_text ("HELLO_VERIFY|cookie=" ++ "cookie-v3")
  · rw [← Except.ok.inj h]
    rintro bytes hmem
    obtain rfl := List.mem_singleton.mp hmem
    exact isDtlsPacket_text ("SERVER_HELLO|sni=" ++ cfg.expectedServerName.getD "peer")

/-- Where a datagram goes in an adapter. -/
inductive Heard (a : OpenSslDtlsAdapter) (datagram : Bytes) :
    OpenSslDtlsAdapter × HandshakeResult → Prop
  | refused (e : CryptoError) : Heard a datagram (a, .error e)
  | again {cfg : HandshakeConfig} (hest : a.established = true) :
      Heard a datagram (a, .ok (establishedOutput cfg))
  | client {cfg : HandshakeConfig} (hrole : a.role = some .client) (hcfg : a.cfg = some cfg) :
      Heard a datagram (a.onServerFlight cfg datagram)
  | server {cfg : HandshakeConfig} (hrole : a.role = some .server) :
      Heard a datagram (a.onClientFlight cfg datagram)

theorem onDatagram_heard (a : OpenSslDtlsAdapter) (datagram : Bytes) :
    Heard a datagram (a.onDatagram datagram) := by
  unfold OpenSslDtlsAdapter.onDatagram
  by_cases hctx : a.ctx.isNone ∨ a.ssl.isNone
  · rw [if_pos hctx]
    exact .refused _
  · rw [if_neg hctx]
    cases hrole : a.role with
    | none => exact .refused _
    | some role =>
      cases hcfg : a.cfg with
      | none => exact .refused _
      | some cfg =>
        dsimp only
        split_ifs with hest
        · exact .again hest
        · cases role with
          | client => exact .client hrole hcfg
          | server => exact .server hrole

theorem Heard.flight {a a' : OpenSslDtlsAdapter} {datagram : Bytes} {out : HandshakeOutput}
    {answer : OpenSslDtlsAdapter × HandshakeResult} (h : Heard a datagram answer)
    (hanswer : answer = (a', .ok out)) : ∀ bytes ∈ out.outboundDatagrams, isDtlsPacket bytes := by
  cases h with
  | refused e => cases hanswer
  | again hest =>
    obtain ⟨-, hout⟩ := Prod.mk.inj hanswer
    rw [← Except.ok.inj hout]
    rintro bytes hmem
    cases hmem
  | client hrole hcfg => exact onServerFlight_flight (by rw [hanswer])
  | server hrole => exact onClientFlight_flight (by rw [hanswer])

/-! ### The calls -/

section Call
variable {h : ClientHandle}

theorem gated_iff : h.gated = true ↔ ∃ tls, h.tls = .client tls ∧ tls.established = false := by
  unfold ClientHandle.gated
  cases h.tls with
  | disabled => simp
  | client tls => simp

/-- What a call does that comes to nothing in the runtime, up to what it shows. -/
theorem Passes.of_shown {h' : ClientHandle} {c : ClientCall} {rc : Int}
    (hruntime : h'.runtime = h.runtime)
    (hshown : c.writes = true → rc = 0 → h'.output.Tells [] ∧
      ∀ d ∈ h'.output.datagrams, isDtlsPacket d.2) :
    Passes h h' (c.shown h' rc) none := by
  unfold ClientCall.shown
  split_ifs with hboth
  · obtain ⟨hwrites, hrc⟩ := Bool.and_eq_true_iff.mp hboth
    obtain ⟨hevents, hflight⟩ := hshown hwrites (of_decide_eq_true hrc)
    exact .aside hruntime hevents hflight
  · exact .aside hruntime (.nothing []) (by simp)

theorem setError_passes {h₁ : ClientHandle} (hruntime : h₁.runtime = h.runtime)
    (e : ClientHandleError) (c : ClientCall) :
    Passes h (h₁.setError e).1 (c.shown (h₁.setError e).1 (h₁.setError e).2) none :=
  .of_shown hruntime fun _ hrc => absurd hrc (by simp [ClientHandle.setError])

theorem startTls_passes (openssl : OpenSsl) (tls : ClientTlsState) (c : ClientCall) :
    Passes h (h.startTls openssl tls).1
      (c.shown (h.startTls openssl tls).1 (h.startTls openssl tls).2) none := by
  have hflight : ∀ out, (tls.adapter.startClient openssl tls.cfg).2 = .ok out →
      ∀ bytes ∈ out.outboundDatagrams, isDtlsPacket bytes := fun _ => startClient_flight
  unfold ClientHandle.startTls
  generalize tls.adapter.startClient openssl tls.cfg = started at hflight ⊢
  obtain ⟨adapter, hs⟩ := started
  cases hs with
  | ok out =>
    refine .of_shown rfl fun _ _ => ⟨⟨rfl, rfl⟩, fun d hd => ?_⟩
    obtain ⟨bytes, hbytes, rfl⟩ := List.mem_map.mp hd
    exact hflight out rfl bytes hbytes
  | error e => exact setError_passes (by exact rfl) _ c

theorem beginHandshake_passes (openssl : OpenSsl) (nowMs : UInt64) :
    Passes h (h.v3FfiBeginHandshake openssl nowMs).1
      ((ClientCall.beginHandshake openssl nowMs).shown (h.v3FfiBeginHandshake openssl nowMs).1
        (h.v3FfiBeginHandshake openssl nowMs).2)
      (h.reached (.beginHandshake openssl nowMs)) := by
  rw [ClientHandle.reached]
  cases hgated : h.gated with
  | true =>
    obtain ⟨tls, htls, hest⟩ := gated_iff.mp hgated
    have hcall : h.v3FfiBeginHandshake openssl nowMs = h.startTls openssl tls := by
      simp [ClientHandle.v3FfiBeginHandshake, htls, hest]
    rw [hcall]
    exact startTls_passes openssl tls _
  | false =>
    have hcall : h.v3FfiBeginHandshake openssl nowMs =
        h.finish (h.runtime.beginHandshake nowMs) := by
      unfold ClientHandle.v3FfiBeginHandshake
      unfold ClientHandle.gated at hgated
      cases htls : h.tls with
      | disabled => rfl
      | client tls =>
        simp only [htls] at hgated
        simp [hgated]
    rw [hcall]
    exact finish_passes _ _ _ rfl rfl

theorem begin_messages {m m' : CoreMachine} {nowMs : UInt64} {seg : History}
    (h : exec CoreMachine.step m [.call (.beginHandshake nowMs)] = some (seg, m')) :
    (told seg).filterMap Event.message = [] := by
  obtain ⟨⟨m₁, res⟩, hs⟩ : ∃ called, m.apply (.beginHandshake nowMs) = some called := ⟨_, rfl⟩
  obtain ⟨rfl, -⟩ := Prod.mk.inj (Option.some.inj (h.symm.trans (exec_single _ hs)))
  have htold : told [⟨m, .call (.beginHandshake nowMs), res, m₁⟩] = m.tells (.beginHandshake nowMs) :=
    (List.append_nil _).trans (apply_answers m hs).events
  dsimp only
  rw [htold, CoreMachine.tells]
  split_ifs
  · rfl
  · rfl

/-- The handshake of the core comes right after that of TLS, in one output. -/
theorem startCore_passes {h₁ : ClientHandle} (hruntime : h₁.runtime = h.runtime)
    (hevents : h₁.output.Tells []) (hflight : ∀ d ∈ h₁.output.datagrams, isDtlsPacket d.2)
    (nowMs : UInt64) {c : ClientCall} (hwrites : c.writes = true) :
    Passes h (h₁.startCore nowMs).1 (c.shown (h₁.startCore nowMs).1 (h₁.startCore nowMs).2)
      (some (.beginHandshake nowMs)) := by
  have hstep : h.runtime.step (.beginHandshake nowMs) = some (h₁.runtime.beginHandshake nowMs) := by
    rw [hruntime]
    rfl
  unfold ClientHandle.startCore
  generalize h₁.runtime.beginHandshake nowMs = called at hstep ⊢
  obtain ⟨runtime, res⟩ := called
  cases res with
  | ok out =>
    rw [ClientCall.shown, if_pos (by simp [hwrites])]
    refine .through (h₁.output.datagrams.map Prod.snd) hstep ?_ ?_ ?_
    · refine hevents.follow _ ?_
      obtain ⟨seg, hcalls, htold, -⟩ := step_follows hstep
      have hmessages := begin_messages hcalls
      rwa [← htold] at hmessages
    · intro bytes hbytes
      obtain ⟨d, hd, rfl⟩ := List.mem_map.mp hbytes
      exact hflight d hd
    · rw [List.map_append, map_snd_outbound]
      rfl
  | error e =>
    rw [ClientCall.shown, if_neg (by simp [ClientHandle.setError])]
    exact .through [] hstep (.nothing []) (by simp) rfl

theorem onHandshakeDatagram_passes {tls : ClientTlsState} (hnot : tls.established = false)
    (htls : h.tls = .client tls) (nowMs : UInt64) (pathId : UInt32) (bytes : Bytes) :
    Passes h (h.onHandshakeDatagram tls nowMs pathId bytes).1
      ((ClientCall.onDatagram nowMs pathId bytes).shown
        (h.onHandshakeDatagram tls nowMs pathId bytes).1
        (h.onHandshakeDatagram tls nowMs pathId bytes).2)
      (h.reached (.onDatagram nowMs pathId bytes)) := by
  have hheard := onDatagram_heard tls.adapter bytes
  have hopens : tls.opensOn bytes = match (tls.adapter.onDatagram bytes).2 with
    | .ok out => out.established && !tls.coreStarted
    | .error _ => false := rfl
  simp only [ClientHandle.reached, htls, hnot, Bool.not_false, if_true]
  unfold ClientHandle.onHandshakeDatagram
  generalize tls.adapter.onDatagram bytes = answer at hheard hopens ⊢
  obtain ⟨adapter, hs⟩ := answer
  cases hs with
  | error e =>
    rw [hopens, if_neg Bool.false_ne_true]
    exact setError_passes (by exact rfl) _ _
  | ok out =>
    have hsent : ∀ d ∈ out.outboundDatagrams.map fun d => (pathId, d), isDtlsPacket d.2 := by
      intro d hd
      obtain ⟨bytes', hbytes, rfl⟩ := List.mem_map.mp hd
      exact hheard.flight rfl bytes' hbytes
    dsimp only at hopens ⊢
    by_cases hdone : out.established = true
    · by_cases hstarted : tls.coreStarted = true
      · rw [if_pos hdone, if_neg (by simp [hstarted]), if_neg (by simp [hopens, hstarted])]
        exact .of_shown rfl fun _ _ => ⟨⟨rfl, rfl⟩, hsent⟩
      · rw [if_pos hdone, if_pos (by simp [hstarted]), if_pos (by simp [hopens, hdone, hstarted])]
        refine startCore_passes ?_ ?_ ?_ nowMs ?_
        · rfl
        · exact ⟨rfl, rfl⟩
        · exact hsent
        · rfl
    · rw [if_neg hdone, if_neg (by simp [hopens, hdone])]
      exact .of_shown rfl fun _ _ => ⟨⟨rfl, rfl⟩, hsent⟩

theorem onDatagram_passes (nowMs : UInt64) (pathId : UInt32) (bytes : Bytes) :
    Passes h (h.v3FfiOnDatagram nowMs pathId bytes).1
      ((ClientCall.onDatagram nowMs pathId bytes).shown (h.v3FfiOnDatagram nowMs pathId bytes).1
        (h.v3FfiOnDatagram nowMs pathId bytes).2)
      (h.reached (.onDatagram nowMs pathId bytes)) := by
  unfold ClientHandle.v3FfiOnDatagram
  cases htls : h.tls with
  | disabled =>
    simp only [ClientHandle.reached, htls]
    exact finish_passes _ _ _ rfl rfl
  | client tls =>
    cases hest : tls.established with
    | false =>
      simp only [hest, Bool.not_false, if_true]
      exact onHandshakeDatagram_passes hest htls nowMs pathId bytes
    | true =>
      simp only [ClientHandle.reached, htls, hest, Bool.not_true, Bool.false_eq_true, if_false]
      split_ifs
      · exact .of_shown rfl fun _ _ => ⟨⟨rfl, rfl⟩, by simp⟩
      · exact finish_passes _ _ _ rfl rfl

theorem configureNat_passes (relayPolicy : Int)
    (stunUri turnUri turnRealm turnUsername turnPassword : Bytes) (c : ClientCall) :
    let called := h.v3FfiConfigureNat relayPolicy stunUri turnUri turnRealm turnUsername turnPassword
    Passes h called.1 (c.shown called.1 called.2) none := by
  dsimp only
  unfold ClientHandle.v3FfiConfigureNat
  repeat' split
  all_goals first
    | exact setError_passes rfl _ c
    | exact .of_shown rfl fun _ _ => ⟨⟨rfl, rfl⟩, by simp⟩

/-- The calls that have no output of their own leave the runtime alone. -/
theorem Passes.of_silent {h' : ClientHandle} {c : ClientCall} (rc : Int)
    (hruntime : h'.runtime = h.runtime) (hwrites : c.writes = false) :
    Passes h h' (c.shown h' rc) none :=
  .of_shown hruntime fun hw => absurd hw (by simp [hwrites])

theorem configureClientTls_runtime (expected : Bytes) :
    (h.v3FfiConfigureClientTls expected).1.runtime = h.runtime := by
  unfold ClientHandle.v3FfiConfigureClientTls
  repeat' split
  all_goals rfl

theorem changeAnchors_runtime (change : List Bytes → List Bytes) :
    (h.changeAnchors change).1.runtime = h.runtime := by
  unfold ClientHandle.changeAnchors
  repeat' split
  all_goals rfl

theorem addAnchorPem_runtime (pem : Bytes) :
    (h.v3FfiTlsAddAnchorPem pem).1.runtime = h.runtime := by
  unfold ClientHandle.v3FfiTlsAddAnchorPem
  split_ifs
  · rfl
  · exact changeAnchors_runtime _

theorem configureServerTls_runtime (host : Host) (serverName certPath keyPath : Bytes) :
    (h.v3FfiConfigureServerTls host serverName certPath keyPath).1.runtime = h.runtime := by
  unfold ClientHandle.v3FfiConfigureServerTls
  repeat' split
  all_goals rfl

/-- Each call on a handle passes to its runtime as `reached` says. -/
theorem call_passes {h' : ClientHandle} {c : ClientCall} {rc : Int}
    (hs : h.call c = some (some h', rc)) : Passes h h' (c.shown h' rc) (h.reached c) := by
  have hcalled : ∀ {called : ClientHandle × Int}, some (called.map some id) = some (some h', rc) →
      called = (h', rc) := by
    rintro ⟨h₁, rc₁⟩ heq
    obtain ⟨hh, hrc⟩ := Prod.mk.inj (Option.some.inj heq)
    exact Prod.ext (Option.some.inj hh) hrc
  cases c with
  | beginHandshake openssl nowMs =>
    have hpasses := beginHandshake_passes (h := h) openssl nowMs
    rwa [hcalled hs] at hpasses
  | onDatagram nowMs pathId bytes =>
    have hpasses := onDatagram_passes (h := h) nowMs pathId bytes
    rwa [hcalled hs] at hpasses
  | sendMessage payload =>
    obtain ⟨finished, hsend, heq⟩ := Option.map_eq_some_iff.mp hs
    obtain ⟨called, hcall, rfl⟩ := Option.map_eq_some_iff.mp hsend
    have hpasses := finish_passes h (.sendMessage payload) (.sendMessage payload) hcall rfl
    rwa [hcalled (congrArg some heq)] at hpasses
  | closeSession =>
    have hpasses := finish_passes h .closeSession .closeSession rfl rfl
    rwa [← ClientHandle.v3FfiCloseSession, hcalled hs] at hpasses
  | pollTimers nowMs limit =>
    have hpasses := finish_passes h (.pollTimers nowMs limit) (.pollTimers nowMs limit) rfl rfl
    rwa [← ClientHandle.v3FfiPollTimers, hcalled hs] at hpasses
  | configureNat relayPolicy stunUri turnUri turnRealm turnUsername turnPassword =>
    have hpasses := configureNat_passes (h := h) relayPolicy stunUri turnUri turnRealm turnUsername
      turnPassword (.configureNat relayPolicy stunUri turnUri turnRealm turnUsername turnPassword)
    dsimp only at hpasses
    rwa [hcalled hs] at hpasses
  | serverSendMessage cid payload nowMs =>
    obtain ⟨hh, -⟩ := Prod.mk.inj (Option.some.inj hs)
    exact .of_silent rc (by rw [← Option.some.inj hh]) rfl
  | pollNat nowMs =>
    obtain ⟨rfl, -⟩ := Prod.mk.inj (hcalled hs)
    exact .of_shown rfl fun _ _ => ⟨⟨rfl, rfl⟩, by simp [normalizeClientOutput]⟩
  | configureClientTls expected =>
    have hruntime := configureClientTls_runtime (h := h) expected
    rw [hcalled hs] at hruntime
    exact .of_silent rc hruntime rfl
  | tlsClearAnchors =>
    have hruntime := changeAnchors_runtime (h := h) fun _ => []
    rw [← ClientHandle.v3FfiTlsClearAnchors, hcalled hs] at hruntime
    exact .of_silent rc hruntime rfl
  | tlsAddAnchorPem pem =>
    have hruntime := addAnchorPem_runtime (h := h) pem
    rw [hcalled hs] at hruntime
    exact .of_silent rc hruntime rfl
  | configureServerTls host serverName certPath keyPath =>
    have hruntime := configureServerTls_runtime (h := h) host serverName certPath keyPath
    rw [hcalled hs] at hruntime
    exact .of_silent rc hruntime rfl
  | clearOutput =>
    obtain ⟨hh, -⟩ := Prod.mk.inj (Option.some.inj hs)
    exact .of_silent rc (by rw [← Option.some.inj hh]; rfl) rfl
  | free =>
    obtain ⟨hh, -⟩ := Prod.mk.inj (Option.some.inj hs)
    cases hh

/-! ### What a call does to TLS -/

def establishes (a : OpenSslDtlsAdapter) (bytes : Bytes) : Bool :=
  match (a.onDatagram bytes).2 with
  | .ok out => out.established
  | .error _ => false

/-- What a datagram leaves of TLS that is not established. -/
def ClientTlsState.hearing (tls : ClientTlsState) (bytes : Bytes) : ClientTlsState where
  adapter := (tls.adapter.onDatagram bytes).1
  cfg := tls.cfg
  established := establishes tls.adapter bytes
  coreStarted := tls.coreStarted || establishes tls.adapter bytes

/-- What a call can make of the TLS state of a handle. -/
inductive TlsMoved (h : ClientHandle) : ClientCall → ClientTlsMode → Prop
  | same {c : ClientCall} : TlsMoved h c h.tls
  | started {openssl : OpenSsl} {nowMs : UInt64} {tls : ClientTlsState} (htls : h.tls = .client tls)
      (hnot : tls.established = false) : TlsMoved h (.beginHandshake openssl nowMs)
        (.client { tls with adapter := (tls.adapter.startClient openssl tls.cfg).1 })
  | heard {nowMs : UInt64} {pathId : UInt32} {bytes : Bytes} {tls : ClientTlsState}
      (htls : h.tls = .client tls) (hnot : tls.established = false) :
      TlsMoved h (.onDatagram nowMs pathId bytes)
        (.client (tls.hearing bytes))
  | configured {expected : Bytes} {name : String} {cfg : HandshakeConfig}
      (hname : Utf8.decode expected = some name) (hcfg : buildClientTlsCfg name = .ok cfg) :
      TlsMoved h (.configureClientTls expected) (.client ⟨.new, cfg, false, false⟩)
  | anchored {c : ClientCall} {tls : ClientTlsState} {pems : List Bytes}
      (htls : h.tls = .client tls) : TlsMoved h c (.client { tls with
        cfg := { tls.cfg with trust := { tls.cfg.trust with trustAnchorPems := pems } } })

theorem TlsMoved.of_same {h' : ClientHandle} {c : ClientCall} (heq : h'.tls = h.tls) :
    TlsMoved h c h'.tls := heq ▸ .same

theorem startTls_moved {tls : ClientTlsState} (htls : h.tls = .client tls)
    (hnot : tls.established = false) (openssl : OpenSsl) (nowMs : UInt64) :
    TlsMoved h (.beginHandshake openssl nowMs) (h.startTls openssl tls).1.tls := by
  have hstarted : TlsMoved h (.beginHandshake openssl nowMs)
      (.client { tls with adapter := (tls.adapter.startClient openssl tls.cfg).1 }) :=
    .started htls hnot
  unfold ClientHandle.startTls
  generalize tls.adapter.startClient openssl tls.cfg = called at hstarted ⊢
  obtain ⟨adapter, hs⟩ := called
  cases hs with
  | ok out => exact hstarted
  | error e => exact hstarted

theorem beginHandshake_moved (openssl : OpenSsl) (nowMs : UInt64) :
    TlsMoved h (.beginHandshake openssl nowMs) (h.v3FfiBeginHandshake openssl nowMs).1.tls := by
  unfold ClientHandle.v3FfiBeginHandshake
  split
  · rename_i tls htls
    split_ifs with hflag
    · exact startTls_moved htls (by simpa using hflag) openssl nowMs
    · exact .of_same (finish_tls h _)
  · exact .of_same (finish_tls h _)

theorem onHandshakeDatagram_tls {tls : ClientTlsState} (hnot : tls.established = false)
    (nowMs : UInt64) (pathId : UInt32) (bytes : Bytes) :
    (h.onHandshakeDatagram tls nowMs pathId bytes).1.tls = .client (tls.hearing bytes) := by
  unfold ClientHandle.onHandshakeDatagram ClientTlsState.hearing establishes
  rcases tls.adapter.onDatagram bytes with ⟨adapter, hs⟩
  cases hs with
  | error e => simp [hnot, ClientHandle.setError]
  | ok out =>
    dsimp only
    by_cases hdone : out.established = true
    · by_cases hstarted : tls.coreStarted = true
      · rw [if_pos hdone, if_neg (by simp [hstarted])]
        simp [hdone, hstarted]
      · rw [if_pos hdone, if_pos (by simp [hstarted]), startCore_tls]
        simp [hdone]
    · rw [if_neg hdone]
      simp [hdone, hnot]

theorem onDatagram_moved (nowMs : UInt64) (pathId : UInt32) (bytes : Bytes) :
    TlsMoved h (.onDatagram nowMs pathId bytes) (h.v3FfiOnDatagram nowMs pathId bytes).1.tls := by
  unfold ClientHandle.v3FfiOnDatagram
  split
  · rename_i tls htls
    split_ifs with hflag
    · have hnot : tls.established = false := by simpa using hflag
      rw [onHandshakeDatagram_tls hnot]
      exact .heard htls hnot
    · exact .of_same rfl
    · exact .of_same (finish_tls h _)
  · exact .of_same (finish_tls h _)

theorem configureClientTls_moved (expected : Bytes) :
    TlsMoved h (.configureClientTls expected) (h.v3FfiConfigureClientTls expected).1.tls := by
  unfold ClientHandle.v3FfiConfigureClientTls
  split
  · exact .of_same rfl
  · rename_i name hname
    split
    · exact .of_same rfl
    · rename_i cfg hcfg
      exact .configured hname hcfg

theorem changeAnchors_moved (change : List Bytes → List Bytes) (c : ClientCall) :
    TlsMoved h c (h.changeAnchors change).1.tls := by
  unfold ClientHandle.changeAnchors
  split
  · rename_i tls htls
    split_ifs
    · exact .of_same rfl
    · exact .anchored htls
  · exact .of_same rfl

theorem addAnchorPem_moved (pem : Bytes) (c : ClientCall) :
    TlsMoved h c (h.v3FfiTlsAddAnchorPem pem).1.tls := by
  unfold ClientHandle.v3FfiTlsAddAnchorPem
  split_ifs
  · exact .of_same rfl
  · exact changeAnchors_moved _ c

/-- Each call moves the TLS state of its handle as `TlsMoved` says. -/
theorem call_moved {h' : ClientHandle} {c : ClientCall} {rc : Int}
    (hs : h.call c = some (some h', rc)) : TlsMoved h c h'.tls := by
  have hof : ∀ {called : ClientHandle × Int}, some (called.map some id) = some (some h', rc) →
      TlsMoved h c called.1.tls → TlsMoved h c h'.tls := by
    rintro ⟨h₁, rc₁⟩ heq hmoved
    obtain ⟨hh, -⟩ := Prod.mk.inj (Option.some.inj heq)
    exact Option.some.inj hh ▸ hmoved
  cases c with
  | beginHandshake openssl nowMs => exact hof hs (beginHandshake_moved openssl nowMs)
  | onDatagram nowMs pathId bytes => exact hof hs (onDatagram_moved nowMs pathId bytes)
  | sendMessage payload =>
    obtain ⟨finished, hsend, heq⟩ := Option.map_eq_some_iff.mp hs
    obtain ⟨called, -, rfl⟩ := Option.map_eq_some_iff.mp hsend
    exact hof (congrArg some heq) (.of_same (finish_tls h called))
  | closeSession => exact hof hs (.of_same (finish_tls h _))
  | pollTimers nowMs limit => exact hof hs (.of_same (finish_tls h _))
  | configureNat relayPolicy stunUri turnUri turnRealm turnUsername turnPassword =>
    exact hof hs (.of_same (configureNat_tls h relayPolicy stunUri turnUri turnRealm turnUsername
      turnPassword))
  | serverSendMessage cid payload nowMs =>
    obtain ⟨hh, -⟩ := Prod.mk.inj (Option.some.inj hs)
    exact .of_same (by rw [← Option.some.inj hh])
  | pollNat nowMs => exact hof hs (.of_same rfl)
  | configureClientTls expected => exact hof hs (configureClientTls_moved expected)
  | tlsClearAnchors => exact hof hs (changeAnchors_moved (fun _ => []) _)
  | tlsAddAnchorPem pem => exact hof hs (addAnchorPem_moved pem _)
  | configureServerTls host serverName certPath keyPath =>
    exact hof hs (.of_same (configureServerTls_tls host h serverName certPath keyPath))
  | clearOutput =>
    obtain ⟨hh, -⟩ := Prod.mk.inj (Option.some.inj hs)
    exact .of_same (by rw [← Option.some.inj hh]; rfl)
  | free =>
    obtain ⟨hh, -⟩ := Prod.mk.inj (Option.some.inj hs)
    cases hh

end Call

/-! ### Over a run -/

/-- A client adapter, if it has been started, for the name that TLS was configured with. -/
structure ClientTlsState.Names (tls : ClientTlsState) (name : String) : Prop where
  expected : tls.cfg.expectedServerName = some name
  verified : tls.cfg.trust.requireHostnameVerification = true
  nonblank : trim name ≠ ""
  role : tls.adapter.role ≠ some .server
  started : ∀ cfg, tls.adapter.cfg = some cfg → cfg.expectedServerName = some name ∧
    cfg.trust.requireHostnameVerification = true

/-- The server hello that names the server. -/
def IsServerHello (name : String) (bytes : Bytes) : Prop :=
  ∃ kv, parseKv bytes = ("DTLS_SERVER_HELLO", kv) ∧ valueOf "sni=" kv = some name

theorem onServerFlight_fixed (a : OpenSslDtlsAdapter) (cfg : HandshakeConfig) (datagram : Bytes) :
    (a.onServerFlight cfg datagram).1.role = a.role ∧
      (a.onServerFlight cfg datagram).1.cfg = a.cfg := by
  unfold OpenSslDtlsAdapter.onServerFlight
  dsimp only
  split_ifs
  · split
    · exact ⟨rfl, rfl⟩
    · exact ⟨rfl, rfl⟩
  · exact ⟨rfl, rfl⟩
  · exact ⟨rfl, rfl⟩
  · exact ⟨rfl, rfl⟩

theorem ClientTlsState.Names.hearing {tls : ClientTlsState} {name : String} (h : tls.Names name)
    (bytes : Bytes) : (tls.hearing bytes).Names name := by
  have hfixed : (tls.adapter.onDatagram bytes).1.role = tls.adapter.role ∧
      (tls.adapter.onDatagram bytes).1.cfg = tls.adapter.cfg := by
    have hheard := onDatagram_heard tls.adapter bytes
    generalize tls.adapter.onDatagram bytes = answer at hheard ⊢
    cases hheard with
    | refused e => exact ⟨rfl, rfl⟩
    | again hest => exact ⟨rfl, rfl⟩
    | client hrole hcfg => exact onServerFlight_fixed _ _ _
    | server hrole => exact absurd hrole h.role
  exact ⟨h.expected, h.verified, h.nonblank, hfixed.1 ▸ h.role, hfixed.2 ▸ h.started⟩

theorem ClientTlsState.Names.starting {tls : ClientTlsState} {name : String} (h : tls.Names name)
    (openssl : OpenSsl) :
    ClientTlsState.Names { tls with adapter := (tls.adapter.startClient openssl tls.cfg).1 } name := by
  unfold OpenSslDtlsAdapter.startClient
  split
  · exact ⟨h.expected, h.verified, h.nonblank, h.role, h.started⟩
  · refine ⟨h.expected, h.verified, h.nonblank, by simp [OpenSslDtlsAdapter.queueFlight], ?_⟩
    rintro cfg hcfg
    obtain rfl : tls.cfg = cfg := Option.some.inj hcfg
    exact ⟨h.expected, h.verified⟩

theorem names_configured {name : String} {cfg : HandshakeConfig}
    (hcfg : buildClientTlsCfg name = .ok cfg) :
    ClientTlsState.Names ⟨.new, cfg, false, false⟩ name := by
  unfold buildClientTlsCfg at hcfg
  split_ifs at hcfg with hblank
  rw [← Except.ok.inj hcfg]
  exact ⟨rfl, rfl, hblank, by simp [OpenSslDtlsAdapter.new], by simp [OpenSslDtlsAdapter.new]⟩

theorem TlsMoved.names {h : ClientHandle} {c : ClientCall} {mode : ClientTlsMode}
    (hmoved : TlsMoved h c mode) (hh : ∀ tls, h.tls = .client tls → ∃ name, tls.Names name) :
    ∀ tls, mode = .client tls → ∃ name, tls.Names name := by
  rintro tls' rfl
  generalize hmode : ClientTlsMode.client tls' = mode at hmoved
  cases hmoved with
  | same => exact hh tls' hmode.symm
  | @started openssl nowMs tls htls hnot =>
    obtain ⟨name, hnames⟩ := hh tls htls
    obtain rfl := ClientTlsMode.client.inj hmode
    exact ⟨name, hnames.starting openssl⟩
  | @heard nowMs pathId bytes tls htls hnot =>
    obtain ⟨name, hnames⟩ := hh tls htls
    obtain rfl := ClientTlsMode.client.inj hmode
    exact ⟨name, hnames.hearing bytes⟩
  | @configured expected name cfg hname hcfg =>
    obtain rfl := ClientTlsMode.client.inj hmode
    exact ⟨name, names_configured hcfg⟩
  | @anchored c tls pems htls =>
    obtain ⟨name, hnames⟩ := hh tls htls
    obtain rfl := ClientTlsMode.client.inj hmode
    exact ⟨name, hnames.expected, hnames.verified, hnames.nonblank, hnames.role, hnames.started⟩

/-- An adapter that was not established is, only by the hello of the server it was told of. -/
theorem establishes_hello {tls : ClientTlsState} {name : String} {bytes : Bytes}
    (hnames : tls.Names name) (hnot : tls.adapter.established = false)
    (hest : establishes tls.adapter bytes = true) : IsServerHello name bytes := by
  have hheard := onDatagram_heard tls.adapter bytes
  unfold establishes at hest
  generalize tls.adapter.onDatagram bytes = answer at hheard hest
  cases hheard with
  | refused e => cases hest
  | again hyes => simp [hnot] at hyes
  | server hrole => exact absurd hrole hnames.role
  | @client cfg hrole hcfg =>
    obtain ⟨hname, hverify⟩ := hnames.started cfg hcfg
    obtain ⟨kv, hkv, hsni⟩ : ∃ kv, parseKv bytes = ("DTLS_SERVER_HELLO", kv) ∧
        (valueOf "sni=" kv).getD "" = name := by
      unfold OpenSslDtlsAdapter.onServerFlight at hest
      generalize parseKv bytes = parsed at hest ⊢
      obtain ⟨head, kv⟩ := parsed
      dsimp only at hest
      split_ifs at hest with hverify' hhello hwrong
      · cases hcookie : valueOf "cookie=" kv with
        | none => simp [hcookie] at hest
        | some cookie => simp [hcookie, OpenSslDtlsAdapter.queueFlight, hnot] at hest
      · refine ⟨kv, by rw [hhello], ?_⟩
        simpa [hverify, hname] using hwrong
    refine ⟨kv, hkv, ?_⟩
    cases hvalue : valueOf "sni=" kv with
    | some sni => rw [hvalue] at hsni; exact congrArg some hsni
    | none =>
      rw [hvalue] at hsni
      refine absurd ?_ hnames.nonblank
      rw [← hsni]
      rfl

/-- The state of a handle with the core of `cid`: behind a closed gate the core is in no
session. -/
structure Guarded (cid : UInt64) (h : ClientHandle) : Prop where
  cid : h.runtime.core.cid = cid
  agrees : FlagsAgree (some h)
  names : ∀ tls, h.tls = .client tls → ∃ name, tls.Names name
  asleep : h.gated = true → h.runtime.core.live = false

/-- What the gate holds back in a call that finds it closed. -/
structure Held (cid : UInt64) (c : ClientCall) (rc : Int) (h h' : ClientHandle) : Prop where
  before : h.runtime.core.live = false
  after : h'.runtime.core.live = false
  /-- Nothing that has arrived gets to the core. -/
  unheard : h'.runtime.core.lasting = h.runtime.core.lasting
  undelivered : (c.shown h' rc).coreEvents.filter Event.isDelivery = []
  /-- What goes out is TLS, a `Close`, or the hello of the core right after the gate opens. -/
  datagrams : ∀ d ∈ (c.shown h' rc).datagrams, isDtlsPacket d.2 ∨
    d.2 = (Packet.control .close).bytes cid ∨
      (h'.gated = false ∧ d.2 = (Packet.control .clientHello).bytes cid)
  /-- The gate is opened by the hello of the server that TLS was configured for. -/
  opened : h'.gated = false → ∃ tls name nowMs pathId bytes, h.tls = .client tls ∧
    tls.cfg.expectedServerName = some name ∧ c = .onDatagram nowMs pathId bytes ∧
      IsServerHello name bytes

section Gate
variable {cid : UInt64} {h h' : ClientHandle} {c : ClientCall} {rc : Int}

/-- The calls of the core that come through a closed gate. -/
theorem reached_gated (hgated : h.gated = true) {op : Client.Op} (hop : h.reached c = some op) :
    (∀ o ∈ coreOps h.runtime op, ∃ k, o = .call k) ∧
      ((∃ nowMs, Core.Op.call (.beginHandshake nowMs) ∈ coreOps h.runtime op) →
        ∃ tls nowMs pathId bytes, h.tls = .client tls ∧ tls.established = false ∧
          c = .onDatagram nowMs pathId bytes ∧ establishes tls.adapter bytes = true) := by
  obtain ⟨tls, htls, hnot⟩ := gated_iff.mp hgated
  cases c with
  | beginHandshake openssl nowMs => simp [ClientHandle.reached, hgated] at hop
  | onDatagram nowMs pathId bytes =>
    simp only [ClientHandle.reached, htls, hnot, Bool.not_false, if_true] at hop
    split_ifs at hop with hopens
    obtain rfl := Option.some.inj hop
    refine ⟨by simp [coreOps], fun _ => ⟨tls, nowMs, pathId, bytes, htls, hnot, rfl, ?_⟩⟩
    unfold ClientTlsState.opensOn at hopens
    unfold establishes
    split at hopens
    · exact (Bool.and_eq_true_iff.mp hopens).1
    · cases hopens
  | sendMessage payload =>
    obtain rfl := Option.some.inj hop
    exact ⟨by simp [coreOps], by simp [coreOps]⟩
  | closeSession =>
    obtain rfl := Option.some.inj hop
    exact ⟨by simp [coreOps], by simp [coreOps]⟩
  | pollTimers nowMs limit =>
    obtain rfl := Option.some.inj hop
    constructor
    · intro o ho
      obtain ⟨due, -, rfl⟩ := List.mem_map.mp ho
      exact ⟨_, rfl⟩
    · rintro ⟨τ, hbegin⟩
      obtain ⟨due, -, heq⟩ := List.mem_map.mp hbegin
      cases heq
  | configureNat | serverSendMessage | pollNat | configureClientTls | tlsClearAnchors
  | tlsAddAnchorPem | configureServerTls | clearOutput | free => cases hop

/-- Only the hello of its server opens the gate of a handle. -/
theorem Guarded.opened (hg : Guarded cid h) (hgated : h.gated = true)
    (hmoved : TlsMoved h c h'.tls) (hopen : h'.gated = false) :
    ∃ tls name nowMs pathId bytes, h.tls = .client tls ∧
      tls.cfg.expectedServerName = some name ∧ c = .onDatagram nowMs pathId bytes ∧
        IsServerHello name bytes := by
  have hclosed : ∀ tls, h'.tls = .client tls → tls.established = true := by
    rintro tls htls
    simpa [ClientHandle.gated, htls] using hopen
  obtain ⟨tls, htls, hnot⟩ := gated_iff.mp hgated
  generalize hmode : h'.tls = mode at hmoved hclosed
  cases hmoved with
  | same =>
    have hyes := hclosed tls htls
    simp [hnot] at hyes
  | started htls' hnot' =>
    have hyes := hclosed _ rfl
    simp [hnot'] at hyes
  | @heard nowMs pathId bytes tls' htls' hnot' =>
    obtain ⟨name, hnames⟩ := hg.names tls' htls'
    obtain ⟨hflag, -⟩ := (flagsAgree_iff htls').mp hg.agrees
    exact ⟨tls', name, nowMs, pathId, bytes, htls', hnames.expected, rfl,
      establishes_hello hnames (hflag.symm.trans hnot') (hclosed _ rfl)⟩
  | configured hname hcfg =>
    have hyes := hclosed _ rfl
    simp at hyes
  | @anchored c tls' pems htls' =>
    obtain rfl : tls = tls' := ClientTlsMode.client.inj (htls.symm.trans htls')
    have hyes := hclosed _ rfl
    simp [hnot] at hyes

theorem Guarded.held (hg : Guarded cid h) (hgated : h.gated = true)
    (hs : h.call c = some (some h', rc)) : Held cid c rc h h' := by
  have hbefore := hg.asleep hgated
  have hopened := hg.opened hgated (call_moved hs)
  have hpasses := call_passes hs
  generalize hop : h.reached c = reached at hpasses
  cases hpasses with
  | aside hruntime hevents hflight =>
    refine ⟨hbefore, hruntime ▸ hbefore, by rw [hruntime], by rw [hevents.core]; rfl, ?_, hopened⟩
    exact fun d hd => .inl (hflight d hd)
  | @through op res flight hstep hevents hhandshake hdatagrams =>
    obtain ⟨seg, hcalls, htold, hsaid⟩ := step_follows hstep
    obtain ⟨honly, hbegins⟩ := reached_gated hgated hop
    have hsleeps := exec_sleeps hbefore honly hcalls
    refine ⟨hbefore, hsleeps.asleep, hsleeps.lasting, ?_, fun d hd => ?_, hopened⟩
    · rw [hevents.core, htold]
      exact hsleeps.quiet
    · have hbytes : d.2 ∈ flight ++ datagramsOf res := by
        rw [← hdatagrams]
        exact List.mem_map_of_mem hd
      rcases List.mem_append.mp hbytes with hflight | hcore
      · exact .inl (hhandshake d.2 hflight)
      · rw [hsaid] at hcore
        rcases hsleeps.said d.2 hcore with hclose | ⟨hbegun, hhello⟩
        · exact .inr (.inl (hg.cid ▸ hclose))
        · obtain ⟨tls, nowMs, pathId, bytes, htls, hnot, rfl, hest⟩ := hbegins hbegun
          refine .inr (.inr ⟨?_, hg.cid ▸ hhello⟩)
          have hcall : h.v3FfiOnDatagram nowMs pathId bytes =
              h.onHandshakeDatagram tls nowMs pathId bytes := by
            simp [ClientHandle.v3FfiOnDatagram, htls, hnot]
          have heq : some (h.v3FfiOnDatagram nowMs pathId bytes).1 = some h' :=
            (Prod.mk.inj (Option.some.inj hs)).1
          rw [hcall] at heq
          have htls' := onHandshakeDatagram_tls (h := h) hnot nowMs pathId bytes
          rw [Option.some.inj heq] at htls'
          simp [ClientHandle.gated, htls', ClientTlsState.hearing, hest]

theorem call_runtime (hs : h.call c = some (some h', rc)) :
    ∃ hc, exec CoreMachine.step h.runtime.core
        ((h.reached c).elim [] (coreOps h.runtime)) = some (hc, h'.runtime.core) ∧
      (c.shown h' rc).Tells (told hc) := by
  have hpasses := call_passes hs
  generalize h.reached c = reached at hpasses ⊢
  cases hpasses with
  | aside hruntime hevents hflight => exact ⟨[], by rw [hruntime]; rfl, hevents⟩
  | @through op res flight hstep hevents hhandshake hdatagrams =>
    obtain ⟨seg, hcalls, htold, -⟩ := step_follows hstep
    exact ⟨seg, hcalls, htold ▸ hevents⟩

theorem Guarded.step (hg : Guarded cid h) (hs : h.call c = some (some h', rc))
    (hconf : ∀ expected, c = .configureClientTls expected → h.runtime.core.live = false) :
    Guarded cid h' := by
  have hmoved := call_moved hs
  obtain ⟨hc, hcalls, -⟩ := call_runtime hs
  refine ⟨(exec_cid hcalls).trans hg.cid, call_agrees hg.agrees hs, hmoved.names hg.names, ?_⟩
  intro hgated'
  cases hgated : h.gated with
  | true => exact (hg.held hgated hs).after
  | false =>
    have hopen : ∀ tls, h.tls = .client tls → tls.established = true := by
      rintro tls htls
      simpa [ClientHandle.gated, htls] using hgated
    obtain ⟨tls', htls', hnot'⟩ := gated_iff.mp hgated'
    generalize hmode : h'.tls = mode at hmoved htls'
    cases hmoved with
    | same =>
      have hyes := hopen tls' htls'
      simp [hnot'] at hyes
    | started htls hnot =>
      have hyes := hopen _ htls
      simp [hnot] at hyes
    | heard htls hnot =>
      have hyes := hopen _ htls
      simp [hnot] at hyes
    | @configured expected name cfg hname hcfg =>
      have hasleep := hconf expected rfl
      have hcore : h.runtime.core = h'.runtime.core := (Prod.mk.inj (Option.some.inj hcalls)).2
      exact hcore ▸ hasleep
    | @anchored c tls pems htls =>
      have hyes := hopen _ htls
      obtain rfl := ClientTlsMode.client.inj htls'
      simp [show tls.established = false from hnot'] at hyes

end Gate

section Run
variable {cid msrIntervalMs missWindowCount disconnectWindowMs : UInt64} {hist : ClientHistory}
  {s : Option ClientHandle}

/-- TLS is put on a handle whose core is in a session. -/
def configuresAwake (t : ClientTaken) : Bool :=
  match t.input, t.pre with
  | .configureClientTls _, some h => h.runtime.core.live
  | _, _ => false

theorem guarded_of_run (hrun : Run clientStep (some (ClientHandle.v3FfiNewClient cid msrIntervalMs
      missWindowCount disconnectWindowMs)) hist s) (hconf : ∀ t ∈ hist, configuresAwake t = false) :
    ∀ h, s = some h → Guarded cid h := by
  induction hrun with
  | nil =>
    intro h hnew
    rw [← Option.some.inj hnew]
    refine ⟨rfl, fun tls htls => ?_, fun tls htls => ?_, fun hgated => ?_⟩
    · cases htls
    · cases htls
    · cases hgated
  | @snoc hist s s' c rc _ hs ih =>
    rintro h' rfl
    cases s with
    | none => cases hs
    | some h =>
      have hbefore := ih (fun t ht => hconf t (by simp [ht])) h rfl
      refine hbefore.step hs fun expected hc => ?_
      have hasleep := hconf ⟨some h, c, rc, some h'⟩ (by simp)
      subst hc
      exact hasleep

/-- In every run of a client handle in which TLS is put on it outside sessions, every call that
finds TLS configured and not established leaves the core as far as the peer is concerned: it
hears nothing, hands out nothing, is in no session, and says nothing but `Close`; and only the
hello of the named server ends this. -/
theorem client_gate (hrun : Run clientStep (some (ClientHandle.v3FfiNewClient cid msrIntervalMs
      missWindowCount disconnectWindowMs)) hist s) (hconf : ∀ t ∈ hist, configuresAwake t = false) :
    ∀ t ∈ hist, ∀ h h', t.pre = some h → t.post = some h' → h.gated = true →
      Held cid t.input t.output h h' := by
  rintro t ht h h' hpre hpost hgated
  obtain ⟨hist₀, hist₁, rfl⟩ := List.append_of_mem ht
  obtain ⟨hbefore, hs⟩ := hrun.split
  have hguarded := guarded_of_run hbefore (fun u hu => hconf u (by simp [hu])) h hpre
  rw [hpre, hpost] at hs
  exact hguarded.held hgated hs

end Run

/-- A plain frame, a message and a flight of somebody else before the gate opens, and the same
plain frame after it. -/
def gatedClientCalls : List ClientCall :=
  [.configureClientTls (Utf8.encode "api.example.com"), .tlsAddAnchorPem [1],
    .onDatagram 0 1 ((Packet.control .serverHello).bytes 7), .beginHandshake plainOpenSsl 0,
    .onDatagram 1 1 ((Packet.control .serverHello).bytes 7), .sendMessage [1, 2, 3],
    .onDatagram 2 1 (Utf8.encode "DTLS_SERVER_HELLO|sni=evil.example.com"),
    .onDatagram 3 1 (Utf8.encode "DTLS_HELLO_VERIFY|cookie=c"), .pollTimers 4 8,
    .onDatagram 5 1 (Utf8.encode "DTLS_SERVER_HELLO|sni=api.example.com"),
    .onDatagram 6 1 ((Packet.control .serverHello).bytes 7)]

theorem gatedClientCalls_held :
    ∃ hist s, exec clientStep (some (ClientHandle.v3FfiNewClient 7 1000 3 30000))
        gatedClientCalls = some (hist, s) ∧
      hist.map Taken.output = [0, 0, -1, 0, -1, 0, -1, 0, 0, 0, 0] ∧
      (s.any fun h => h.runtime.core.live) = true ∧
      ∀ t ∈ hist, ∀ h h', t.pre = some h → t.post = some h' → h.gated = true →
        Held 7 t.input t.output h h' := by
  have hsome : ((exec clientStep (some (ClientHandle.v3FfiNewClient 7 1000 3 30000))
      gatedClientCalls).any fun r =>
        (decide (r.1.map Taken.output = [0, 0, -1, 0, -1, 0, -1, 0, 0, 0, 0]) &&
          r.2.any fun h => h.runtime.core.live) && r.1.all fun t => !configuresAwake t) =
      true := by decide +kernel
  obtain ⟨⟨hist, s⟩, hexec, hchecked⟩ := (Option.any_eq_true _ _).mp hsome
  simp only [Bool.and_eq_true, decide_eq_true_eq, List.all_eq_true, Bool.not_eq_true'] at hchecked
  obtain ⟨⟨houtputs, hlive⟩, hconf⟩ := hchecked
  exact ⟨hist, s, hexec, houtputs, hlive, client_gate (Run.of_exec hexec) hconf⟩

end Todero.Ffi
