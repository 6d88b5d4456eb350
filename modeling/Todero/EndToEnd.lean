import Todero.Alone
import Todero.ClientSpec
import Todero.Speaking

/-! A client runtime and a server runtime at the two ends of a lossy line: a message the
server hands to its caller is the one the client's application has sent under that id, in
whatever session it arrives and whatever the store and the other clients do. -/
namespace Todero.Server
open Todero.Wire Todero.Core Todero.Store Transition Duplex

section Base
variable [Base64]

/-! ### The messages a caller of the server gets -/

def returnedMessage (cid : UInt64) : RuntimeEvent → Option (Nat × String)
  | .messageReceived other msgId payloadB64 => if other = cid then some (msgId, payloadB64) else none
  | _ => none

/-- The messages of `cid` in a result, with their payloads as the caller gets them. -/
def returnedMessages (cid : UInt64) : RuntimeResult → List (Nat × String)
  | .ok out => out.events.filterMap (returnedMessage cid)
  | .error _ => []

def asReturned (x : Nat × Bytes) : Nat × String := (x.1, Base64.encode x.2)

theorem returnedMessage_runtimeEvents (cid other : UInt64) (events : List Event) :
    (ServerRuntime.runtimeEvents cid events).filterMap (returnedMessage other) =
      if cid = other then (events.filterMap Event.message).map asReturned else [] := by
  have hone : ∀ e : Event, (ServerRuntime.runtimeEvents cid [e]).filterMap (returnedMessage other) =
      if cid = other then ([e].filterMap Event.message).map asReturned else [] := by
    intro e
    by_cases h : cid = other <;> cases e <;>
      simp [ServerRuntime.runtimeEvents, Event.message, returnedMessage, asReturned, h,
        List.filterMap_cons]
  induction events with
  | nil => simp [ServerRuntime.runtimeEvents]
  | cons e events ih =>
    have hcons : ServerRuntime.runtimeEvents cid (e :: events) =
        ServerRuntime.runtimeEvents cid [e] ++ ServerRuntime.runtimeEvents cid events := by
      simp [ServerRuntime.runtimeEvents]
    have hmsgs : (e :: events).filterMap Event.message =
        [e].filterMap Event.message ++ events.filterMap Event.message :=
      List.filterMap_append (l := [e])
    rw [hcons, List.filterMap_append, ih, hone, hmsgs, List.map_append]
    split_ifs <;> rfl

omit [Base64] in
theorem returnedMessage_pathBound (s : SessionRuntime) (cid other : UInt64) (src : UInt32) :
    (s.pathBound cid src).filterMap (returnedMessage other) = [] := by
  unfold SessionRuntime.pathBound
  split
  · split_ifs <;> rfl
  · rfl

omit [Base64] in
theorem returnedMessages_ids (cid : UInt64) (res : RuntimeResult) :
    (returnedMessages cid res).map Prod.fst = returned cid res := by
  cases res with
  | error e => rfl
  | ok out =>
    rw [returnedMessages, returned, List.map_filterMap]
    congr 1
    funext e
    cases e with
    | messageReceived other msgId b64 =>
      simp only [returnedMessage, returnedId]
      split_ifs <;> rfl
    | _ => rfl

variable {σ : Type} [SessionStore σ] {rt rt₁ rt' : ServerRuntime σ} {cid other : UInt64}
  {s s' : SessionRuntime} {src : UInt32} {nowMs : UInt64} {called : CoreMachine × CallResult}
  {res : RuntimeResult}

/-- A call of a core returns its messages or, if it fails, none. -/
theorem Driven.messages (hd : Driven rt cid s src nowMs called rt' res) :
    ∀ x ∈ returnedMessages cid res, ∃ y ∈ called.2.messages, x = asReturned y := by
  obtain ⟨core, cres⟩ := called
  have hres := hd.result
  intro x hx
  cases cres with
  | error e =>
    dsimp only at hres
    subst hres
    simp [returnedMessages] at hx
  | ok out =>
    dsimp only at hres
    split at hres
    · subst hres
      simp [returnedMessages] at hx
    · subst hres
      have hall : returnedMessages cid (.ok ⟨out.outboundDatagrams.map (ServerRuntime.redirect src),
          ServerRuntime.runtimeEvents cid out.events⟩) =
            (out.events.filterMap Event.message).map asReturned := by
        rw [returnedMessages, returnedMessage_runtimeEvents, if_pos rfl]
      rw [hall, List.mem_map] at hx
      obtain ⟨y, hy, rfl⟩ := hx
      exact ⟨y, hy, rfl⟩

omit [Base64] in
theorem returnedMessages_map (s : SessionRuntime) (frame : WireFrame) (src : UInt32)
    (res : RuntimeResult) :
    returnedMessages cid (res.map fun out => { out with
      events := s.pathBound frame.cid src ++ out.events }) = returnedMessages cid res := by
  cases res with
  | error e => rfl
  | ok out =>
    show ((s.pathBound frame.cid src ++ out.events).filterMap (returnedMessage cid)) = _
    rw [List.filterMap_append, returnedMessage_pathBound, List.nil_append]
    rfl

/-! ### The server's side of a session -/

/-- The session of `cid`, if there is one, holds messages of `t` only. -/
structure Keeps (cid : UInt64) (t : CoreMachine) (rt : ServerRuntime σ) : Prop where
  hosting : rt.Hosting
  tracks : ∀ s, rt.sessions[cid]? = some s → Tracks t.outboundMessages s.core

/-- What a call may bring for `cid` are frames of `t`. -/
def Brings (cid : UInt64) (t : CoreMachine) : Op → Prop
  | .datagram _ _ bytes => carries cid bytes →
      ∃ p : Packet, p.Small ∧ Honest t p ∧ bytes = p.bytes cid
  | _ => True

omit [Base64] in
theorem fresh_tracks (cid : UInt64) (src : UInt32) (cfg : CoreConfig)
    (loaded : Option VersionedRecord) (out : Std.TreeMap Nat Bytes) :
    (freshSession cfg cid src loaded).core.cid = cid ∧
      Tracks out (freshSession cfg cid src loaded).core := by
  obtain ⟨cfg', hcore⟩ := freshSession_core cfg cid src loaded
  rw [hcore]
  exact ⟨rfl, Rx.empty_ok, Rx.empty_agrees out⟩

section Step
variable {fits : Bytes → Prop} {t : CoreMachine} {op : Op}

theorem coreOps_fromPeer (hop : Brings cid t op) : ∀ o ∈ coreOps cid rt op, FromPeer cid t o := by
  intro o ho
  cases op with
  | datagram nowMs src bytes =>
    rw [coreOps] at ho
    split_ifs at ho with hc
    · rw [List.mem_singleton.mp ho]
      exact hop hc
    · simp at ho
  | pollTimers nowMs limit =>
    obtain ⟨x, -, hx⟩ := List.mem_filterMap.mp ho
    rw [timerCall] at hx
    split_ifs at hx
    rw [← Option.some.inj hx]
    trivial
  | sendMessage other payload nowMs =>
    rw [coreOps] at ho
    split_ifs at ho
    · rw [List.mem_singleton.mp ho]
      trivial
    · simp at ho

theorem step_keeps (hk : Keeps cid t rt) (hout : Outbox fits t) (hop : Brings cid t op)
    (h : rt.step op = some (rt', res)) : Keeps cid t rt' := by
  refine ⟨step_hosting hk.hosting h, fun s' hs' => ?_⟩
  have hops : ∀ o ∈ coreOps cid rt op, FromPeer cid t o := coreOps_fromPeer hop
  obtain ⟨s, seg, hs, hfollows⟩ | ⟨src, loaded, seg, -, hfollows⟩ := step_follows hk.hosting h hs'
  · exact exec_tracks (hk.hosting cid s hs).named (hk.tracks s hs) hout hops hfollows.calls
  · obtain ⟨hcid, htracks⟩ := fresh_tracks cid src rt.cfg loaded t.outboundMessages
    exact exec_tracks hcid htracks hout hops hfollows.calls

/-- What the caller gets for `cid` is in `t`'s outbox. -/
theorem step_returns (hk : Keeps cid t rt) (hout : Outbox fits t) (hop : Brings cid t op)
    (h : rt.step op = some (rt', res)) :
    ∀ x ∈ returnedMessages cid res,
      ∃ payload, t.outboundMessages[x.1]? = some payload ∧ x.2 = Base64.encode payload := by
  intro x hx
  have hnone : returned cid res ≠ [] := by
    rw [← returnedMessages_ids]
    exact List.ne_nil_of_mem (List.mem_map_of_mem hx)
  cases op with
  | pollTimers nowMs limit =>
    obtain ⟨rfl, rfl⟩ := step_polled h
    exact absurd (poll_returned rt nowMs limit) hnone
  | sendMessage other payload nowMs => exact absurd (sendMessage_sent h).returned hnone
  | datagram nowMs src bytes =>
    cases step_received h with
    | undecodable | unloaded => simp [returnedMessages, returnedMessage] at hx
    | @visited frame s rt₁ _ res' hd henter hdrive =>
      rw [returnedMessages_map] at hx
      by_cases hcid : frame.cid = cid
      · subst hcid
        obtain ⟨p, hp, hhonest, rfl⟩ := hop (by simp [carries, hd])
        have hnamed := henter.named hk.hosting
        have htracks : Tracks t.outboundMessages s.core := by
          cases henter with
          | present hs => exact hk.tracks s hs
          | fresh => exact (fresh_tracks _ _ _ _ t.outboundMessages).2
        have hhears := hears s.core nowMs src hp
        rw [hnamed] at hhears
        obtain ⟨y, hy, rfl⟩ := hdrive.messages x hx
        exact ⟨y.2, (htracks.hears hout hhonest hhears).2 y hy, rfl⟩
      · rw [returned_map, hdrive.returned, if_neg fun hboth => hcid hboth.1] at hnone
        exact absurd rfl hnone

end Step

/-! ### What the server sends -/

/-- Frames of any cid that can be read back. -/
def Framed (ds : List OutboundDatagram) : Prop :=
  ∀ d ∈ ds, ∃ (c : UInt64) (p : Packet), p.Small ∧ d.bytes = p.bytes c

omit [Base64] in
theorem onDatagram_framed {m : CoreMachine} {bytes : Bytes} {frame : WireFrame}
    (hd : WireFrame.decode bytes = .ok frame) (hcid : m.cid = frame.cid) (nowMs : UInt64)
    (src : UInt32) : Framed (Core.onDatagram m nowMs src bytes).2.output.outboundDatagrams := by
  obtain ⟨ps, hps, hsaid⟩ := (onDatagram_emission (ownFrame_of_cid hd hcid) nowMs src).1.said
  intro d hmem
  have hbytes := List.mem_map_of_mem (f := OutboundDatagram.bytes) hmem
  rw [hsaid, List.mem_map] at hbytes
  obtain ⟨p, hp, hpd⟩ := hbytes
  exact ⟨m.cid, p, hps p hp, hpd.symm⟩

omit [Base64] in
theorem apply_framed {m m' : CoreMachine} {k : Call} {cres : CallResult}
    (h : m.apply k = some (m', cres)) : Framed cres.output.outboundDatagrams := by
  intro d hmem
  rw [(apply_answers m h).datagrams, List.mem_map] at hmem
  obtain ⟨p, hp, rfl⟩ := hmem
  exact ⟨m.cid, p, utters_small m k p hp, rfl⟩

theorem Driven.framed (hd : Driven rt cid s src nowMs called rt' res)
    (hcalled : Framed called.2.output.outboundDatagrams) {out : ServerRuntimeOutput}
    (hout : res = .ok out) : Framed out.outboundDatagrams := by
  obtain ⟨core, cres⟩ := called
  have hres := hd.result
  rw [hout] at hres
  cases cres with
  | error e => simp at hres
  | ok o =>
    dsimp only at hres
    split at hres
    · simp at hres
    · rw [Except.ok.injEq] at hres
      subst hres
      intro d hmem
      obtain ⟨d', hmem', rfl⟩ := List.mem_map.mp hmem
      exact hcalled d' hmem'

theorem fireAll_framed (dues : List DueTimer) {rt : ServerRuntime σ} {output : ServerRuntimeOutput}
    (h : Framed output.outboundDatagrams) {out : ServerRuntimeOutput}
    (hout : (ServerRuntime.fireAll nowMs rt dues output).2 = .ok out) :
    Framed out.outboundDatagrams := by
  induction dues generalizing rt output with
  | nil =>
    obtain rfl := Except.ok.inj hout
    exact h
  | cons due rest ih =>
    have hfired := fire_fired nowMs rt due
    rw [ServerRuntime.fireAll] at hout
    cases hf : rt.fire nowMs due with
    | mk rt' res =>
      rw [hf] at hfired hout
      cases res with
      | error e => simp at hout
      | ok partOut =>
        refine ih ?_ hout
        intro d hd
        rcases List.mem_append.mp hd with hold | hnew
        · exact h d hold
        · generalize hr : (rt', (.ok partOut : RuntimeResult)).2 = r at hfired
          cases hfired with
          | skipped =>
            obtain rfl := Except.ok.inj hr
            simp at hnew
          | visited _ hdrive =>
            exact hdrive.framed (apply_framed (k := .timer nowMs due.timerId) rfl) hr.symm d hnew

theorem step_framed {op : Op} (hrt : rt.Hosting) (h : rt.step op = some (rt', res)) :
    ∀ bytes ∈ datagramsOf cid res, ∃ p : Packet, p.Small ∧ bytes = p.bytes cid := by
  have hall : ∀ out, res = .ok out → Framed out.outboundDatagrams := by
    intro out hout
    cases op with
    | datagram nowMs src bytes =>
      cases step_received h with
      | undecodable =>
        obtain rfl := Except.ok.inj hout
        simp [Framed]
      | unloaded => simp at hout
      | @visited frame s rt₁ _ res' hd henter hdrive =>
        have hframed := onDatagram_framed hd (henter.named hrt) nowMs src
        cases res' with
        | error e => simp [Except.map] at hout
        | ok out' =>
          obtain rfl := Except.ok.inj hout
          have hout' : Framed out'.outboundDatagrams := hdrive.framed hframed rfl
          exact hout'
    | pollTimers nowMs limit =>
      obtain ⟨rfl, rfl⟩ := step_polled h
      exact fireAll_framed _ (by simp [Framed]) hout
    | sendMessage other payload nowMs =>
      cases sendMessage_sent h with
      | skipped =>
        obtain rfl := Except.ok.inj hout
        simp [Framed]
      | visited _ hcall hdrive =>
        exact hdrive.framed (apply_framed (k := .send payload) hcall) hout
  intro bytes hmem
  cases res with
  | error e => simp [datagramsOf] at hmem
  | ok out =>
    obtain ⟨hin, hcarries⟩ := List.mem_filter.mp hmem
    obtain ⟨d, hd, rfl⟩ := List.mem_map.mp hin
    obtain ⟨c, p, hp, hbytes⟩ := hall out rfl d hd
    have hcid : c = cid := by
      rw [hbytes, carries, Packet.decode_bytes hp] at hcarries
      exact of_decide_eq_true hcarries
    exact ⟨p, hp, by rw [hbytes, hcid]⟩

/-! ### The line -/

inductive Host (σ : Type) where
  | client (rt : Client.ClientRuntime)
  | server (rt : ServerRuntime σ)

inductive HostCall where
  | client (op : Client.Op)
  | server (op : Op)

inductive HostResult where
  | client (res : Client.RuntimeResult)
  | server (res : RuntimeResult)

/-- Datagrams of the session come in over the line only. The server gets those of others too. -/
def HostCall.onSite (cid : UInt64) : HostCall → Bool
  | .client (.datagram ..) => false
  | .server (.datagram _ _ bytes) => !carries cid bytes
  | _ => true

/-- Either end of the line of `cid`. -/
def host (cid : UInt64) : Party (Host σ) HostCall Receipt Bytes HostResult where
  call
    | .client rt, .client op =>
      if (HostCall.client op).onSite cid then
        (rt.step op).map fun (rt', res) => (.client rt', Client.datagramsOf res, .client res)
      else none
    | .server rt, .server op =>
      if (HostCall.server op).onSite cid then
        (rt.step op).map fun (rt', res) => (.server rt', datagramsOf cid res, .server res)
      else none
    | _, _ => none
  recv
    | .client rt, x, bytes =>
      let (rt', res) := rt.onDatagram x.nowMs x.srcPathId bytes
      (.client rt', Client.datagramsOf res, .client res)
    | .server rt, x, bytes =>
      let (rt', res) := rt.onDatagram x.nowMs x.srcPathId bytes
      (.server rt', datagramsOf cid res, .server res)

abbrev Line (σ : Type) := Net Role (Host σ) Bytes
abbrev Hop := Action Role HostCall Receipt
abbrev LineHistory (σ : Type) := List (Taken (Line σ) Hop (Option HostResult))

def Line.step (cid : UInt64) (w : Line σ) (a : Hop) : Option (Line σ × Option HostResult) :=
  Net.step Role.peer (host cid) w a

def Line.start (cid : UInt64) (clientCfg serverCfg : CoreConfig) (store : σ) : Line σ where
  core
    | .client => .client (.new cid clientCfg)
    | .server => .server (.new serverCfg store)
  inbox _ := []

/-! ### Its invariant -/

structure ClientSide (cid : UInt64) (rt : Client.ClientRuntime) : Prop where
  named : rt.core.cid = cid
  outbox : Outbox (fun _ => True) rt.core

/-- One end as it stands to the other. -/
def Faces (cid : UInt64) : Host σ → Host σ → Prop
  | .client rt, .server _ => ClientSide cid rt
  | .server rt, .client c => Keeps cid c.core rt
  | _, _ => False

/-- What each end sends. -/
def Sends (cid : UInt64) : Host σ → Bytes → Prop
  | .client rt, bytes => ∃ p : Packet, p.Small ∧ Honest rt.core p ∧ bytes = p.bytes cid
  | .server _, bytes => ∃ p : Packet, p.Small ∧ bytes = p.bytes cid

abbrev Line.Sound (cid : UInt64) (w : Line σ) : Prop := w.Holds Role.peer (Faces cid) (Sends cid)

omit [Base64] [SessionStore σ] in
theorem client_good (op : Client.Op) {c c' : Client.ClientRuntime} {res : Client.RuntimeResult}
    (hc : ClientSide cid c) (hk : Keeps cid c.core rt)
    (hops : ∀ o ∈ Client.coreOps c op, Readable cid o) (h : c.step op = some (c', res)) :
    Good (Faces cid) (Sends cid) (.client c) (.server rt) (.client c')
      (Client.datagramsOf res) := by
  obtain ⟨seg, hcalls, -, hsaid⟩ := Client.step_follows h
  have hspeaks := exec_speaks hc.named hc.outbox hops hcalls
  refine ⟨⟨hspeaks.named, hspeaks.outbox⟩, ⟨hk.hosting, fun s hs => ?_⟩, ?_, ?_⟩
  · exact (hk.tracks s hs).mono hspeaks.grows.outbox
  · rintro bytes ⟨p, hp, hhonest, rfl⟩
    exact ⟨p, hp, hhonest.mono hspeaks.grows, rfl⟩
  · rw [hsaid]
    exact hspeaks.honest

theorem server_good (op : Op) {c : Client.ClientRuntime} (hc : ClientSide cid c)
    (hk : Keeps cid c.core rt) (hop : Brings cid c.core op) (h : rt.step op = some (rt', res)) :
    Good (Faces cid) (Sends cid) (.server rt) (.client c) (.server rt') (datagramsOf cid res) :=
  ⟨step_keeps hk hc.outbox hop h, hc, fun _ hbytes => hbytes, step_framed hk.hosting h⟩

omit [Base64] [SessionStore σ] in
theorem onSite_readable {c : Client.ClientRuntime} {op : Client.Op}
    (h : (HostCall.client op).onSite cid) : ∀ o ∈ Client.coreOps c op, Readable cid o := by
  intro o ho
  cases op with
  | datagram => simp [HostCall.onSite] at h
  | pollTimers nowMs limit =>
    obtain ⟨due, -, rfl⟩ := List.mem_map.mp ho
    trivial
  | beginHandshake | sendMessage | closeSession | proposeTimers | pathChanged =>
    rw [List.mem_singleton.mp ho]
    trivial

omit [Base64] [SessionStore σ] in
theorem onSite_brings {op : Op} (h : (HostCall.server op).onSite cid) (t : CoreMachine) :
    Brings cid t op := by
  cases op with
  | datagram nowMs src bytes =>
    intro hc
    simp [HostCall.onSite, hc] at h
  | pollTimers | sendMessage => trivial

/-- The two ends, one step of either and the network. -/
theorem Line.Sound.step {w w' : Line σ} (hw : w.Sound cid) {a : Hop} {o : Option HostResult}
    (hs : w.step cid a = some (w', o)) : w'.Sound cid := by
  refine Net.Holds.step Role.peer_peer Role.peer_ne (fun _ => True) ?_ ?_ hw
    (fun _ _ _ => trivial) hs
  · intro s t k s' ds o _ hst hts hcall
    cases s with
    | client c =>
      cases t with
      | client => exact hst.elim
      | server rt =>
        cases k with
        | server => simp [host] at hcall
        | client op =>
          simp only [host] at hcall
          split_ifs at hcall with hsite
          simp only [Option.map_eq_some_iff, Prod.mk.injEq] at hcall
          obtain ⟨⟨c', res⟩, hstep, rfl, rfl, -⟩ := hcall
          exact client_good op hst hts (onSite_readable hsite) hstep
    | server rt =>
      cases t with
      | server => exact hst.elim
      | client c =>
        cases k with
        | client => simp [host] at hcall
        | server op =>
          simp only [host] at hcall
          split_ifs at hcall with hsite
          simp only [Option.map_eq_some_iff, Prod.mk.injEq] at hcall
          obtain ⟨⟨rt', res⟩, hstep, rfl, rfl, -⟩ := hcall
          exact server_good op hts hst (onSite_brings hsite c.core) hstep
  · intro s t x bytes hst hts hsent
    cases s with
    | client c =>
      cases t with
      | client => exact hst.elim
      | server rt =>
        refine client_good (.datagram x.nowMs x.srcPathId bytes) hst hts ?_ rfl
        intro o ho
        rw [List.mem_singleton.mp ho]
        exact hsent
    | server rt =>
      cases t with
      | server => exact hst.elim
      | client c =>
        exact server_good (.datagram x.nowMs x.srcPathId bytes) hts hst (fun _ => hsent) rfl

/-! ### Histories -/

def acceptedBy : Hop → Option Bytes
  | .call .client (.client (.sendMessage payload)) => some payload
  | _ => none

/-- The payloads the client's application has sent, in order. -/
def accepted (h : LineHistory σ) : List Bytes := h.filterMap fun t => acceptedBy t.input

/-- The messages of `cid` that the server's caller gets in a step. -/
def handed (cid : UInt64) (t : Taken (Line σ) Hop (Option HostResult)) : List (Nat × String) :=
  match t.output with
  | some (.server res) => returnedMessages cid res
  | _ => []

/-- The call of the server in a step. -/
def serverOp (w : Line σ) : Hop → Option Op
  | .call .server (.server op) => some op
  | .deliver .server i x =>
    (w.inbox .server)[i]?.map fun bytes => .datagram x.nowMs x.srcPathId bytes
  | _ => none

def payloadOf : Client.Op → Option Bytes
  | .sendMessage payload => some payload
  | _ => none

/-- What a step is for the two runtimes. -/
inductive Line.Moves (cid : UInt64) (c : Client.ClientRuntime) (rt : ServerRuntime σ) (w : Line σ)
    (a : Hop) : Client.ClientRuntime → ServerRuntime σ → Option HostResult → Prop
  | client (op : Client.Op) {c' : Client.ClientRuntime} {res : Client.RuntimeResult}
      (hstep : c.step op = some (c', res)) (hpayload : acceptedBy a = payloadOf op)
      (hop : serverOp w a = none) : Moves cid c rt w a c' rt (some (.client res))
  | server (op : Op) {rt' : ServerRuntime σ} {res : RuntimeResult}
      (hstep : rt.step op = some (rt', res)) (hpayload : acceptedBy a = none)
      (hop : serverOp w a = some op) (hbrings : Brings cid c.core op) :
      Moves cid c rt w a c rt' (some (.server res))
  | idle (hpayload : acceptedBy a = none) (hop : serverOp w a = none) : Moves cid c rt w a c rt none

theorem Line.Sound.moves {c : Client.ClientRuntime} {w w' : Line σ} (hw : w.Sound cid)
    (hc : w.core .client = .client c) (hrt : w.core .server = .server rt) {a : Hop}
    {o : Option HostResult} (hs : w.step cid a = some (w', o)) :
    ∃ c' rt', w'.core .client = .client c' ∧ w'.core .server = .server rt' ∧
      Line.Moves cid c rt w a c' rt' o := by
  have hkept : ∀ v : Line σ, v.core = w.core → v.core .client = .client c ∧ v.core .server = .server rt :=
    fun v hv => ⟨by rw [hv, hc], by rw [hv, hrt]⟩
  cases a with
  | call r k =>
    simp only [Line.step, Net.step, Option.map_eq_some_iff, Prod.mk.injEq] at hs
    obtain ⟨⟨s', ds, res⟩, hcall, rfl, rfl⟩ := hs
    rw [Net.commit_core]
    cases r with
    | client =>
      rw [hc] at hcall
      cases k with
      | server => simp [host] at hcall
      | client op =>
        simp only [host] at hcall
        split_ifs at hcall with hsite
        simp only [Option.map_eq_some_iff, Prod.mk.injEq] at hcall
        obtain ⟨⟨c', res⟩, hstep, rfl, rfl, rfl⟩ := hcall
        refine ⟨c', rt, Function.update_self .., ?_, .client op hstep ?_ rfl⟩
        · rw [Function.update_of_ne (by decide), hrt]
        · cases op <;> rfl
    | server =>
      rw [hrt] at hcall
      cases k with
      | client => simp [host] at hcall
      | server op =>
        simp only [host] at hcall
        split_ifs at hcall with hsite
        simp only [Option.map_eq_some_iff, Prod.mk.injEq] at hcall
        obtain ⟨⟨rt', res⟩, hstep, rfl, rfl, rfl⟩ := hcall
        refine ⟨c, rt', ?_, Function.update_self .., ?_⟩
        · rw [Function.update_of_ne (by decide), hc]
        · exact .server op hstep rfl rfl (onSite_brings hsite c.core)
  | deliver r i x =>
    simp only [Line.step, Net.step, Option.map_eq_some_iff, Prod.mk.injEq] at hs
    obtain ⟨bytes, hbytes, rfl, rfl⟩ := hs
    rw [Net.commit_core, Net.remove_core]
    have hsent := hw.flight r bytes (List.mem_of_getElem? hbytes)
    cases r with
    | client =>
      simp only [hc, host]
      refine ⟨_, rt, Function.update_self .., ?_,
        .client (.datagram x.nowMs x.srcPathId bytes) rfl rfl rfl⟩
      rw [Function.update_of_ne (by decide), hrt]
    | server =>
      have hpeer : w.core (Role.peer .server) = .client c := hc
      rw [hpeer] at hsent
      simp only [hrt, host]
      refine ⟨c, _, ?_, Function.update_self .., ?_⟩
      · rw [Function.update_of_ne (by decide), hc]
      · refine .server (.datagram x.nowMs x.srcPathId bytes) rfl rfl ?_ fun _ => hsent
        rw [serverOp, hbytes]
        rfl
  | drop r i =>
    simp only [Line.step, Net.step, Option.map_eq_some_iff, Prod.mk.injEq] at hs
    obtain ⟨-, -, rfl, rfl⟩ := hs
    obtain ⟨hc', hrt'⟩ := hkept (w.remove r i) rfl
    exact ⟨c, rt, hc', hrt', .idle rfl rfl⟩
  | duplicate r i =>
    simp only [Line.step, Net.step, Option.map_eq_some_iff, Prod.mk.injEq] at hs
    obtain ⟨bytes, -, rfl, rfl⟩ := hs
    obtain ⟨hc', hrt'⟩ := hkept (w.add r [bytes]) rfl
    exact ⟨c, rt, hc', hrt', .idle rfl rfl⟩

omit [Base64] [SessionStore σ] in
theorem client_posted {c c' : Client.ClientRuntime} {op : Client.Op} {res : Client.RuntimeResult}
    {sent : List Bytes} (hc : Posted sent c.core) (h : c.step op = some (c', res)) :
    Posted (sent ++ (payloadOf op).toList) c'.core := by
  obtain ⟨seg, hcalls, -, -⟩ := Client.step_follows h
  have hquiet : (∀ o ∈ Client.coreOps c op, o.silent) → payloadOf op = none →
      Posted (sent ++ (payloadOf op).toList) c'.core := by
    intro hops hnone
    rw [hnone, Option.toList_none, List.append_nil]
    exact hc.of_fixed (exec_fixed hops hcalls)
  cases op with
  | sendMessage payload =>
    obtain ⟨called, hcall, heq⟩ := Option.map_eq_some_iff.mp h
    have happ : c.core.apply (.send payload) = some (called.1, called.2) := hcall
    have hexec := exec_single (m := c.core) (.call (.send payload)) hcall
    obtain ⟨-, hcore⟩ := Prod.mk.inj (Option.some.inj (hcalls.symm.trans hexec))
    have hnext : called.1 = c.core.enqueue payload := (apply_answers c.core happ).next
    rw [hcore, hnext]
    exact hc.enqueue payload
  | pollTimers nowMs limit =>
    refine hquiet (fun o ho => ?_) rfl
    obtain ⟨due, -, rfl⟩ := List.mem_map.mp ho
    trivial
  | beginHandshake | datagram | closeSession | proposeTimers | pathChanged =>
    refine hquiet (fun o ho => ?_) rfl
    rw [List.mem_singleton.mp ho]
    trivial

/-- The steps of the server in a history of the line. -/
def serverSteps (h : LineHistory σ) : ServerHistory σ :=
  h.filterMap fun t => match serverOp t.pre t.input, t.pre.core .server, t.output, t.post.core .server with
    | some op, .server rt, some (.server res), .server rt' => some ⟨rt, op, res, rt'⟩
    | _, _, _, _ => none

omit [Base64] [SessionStore σ] in
theorem lifetime_subset (cid : UInt64) (h : ServerHistory σ) : lifetime cid h ⊆ h := by
  induction h using List.reverseRecOn with
  | nil => exact List.Subset.refl _
  | append_singleton h t ih =>
    rw [lifetime_snoc]
    split_ifs
    · exact List.append_subset.mpr ⟨fun x hx => List.mem_append_left _ (ih hx), by simp⟩
    · simp

section Steps
variable {h : LineHistory σ} {t : Taken (Line σ) Hop (Option HostResult)} {op : Op}

omit [SessionStore σ] [Base64] in
theorem serverSteps_none (hop : serverOp t.pre t.input = none) :
    serverSteps (h ++ [t]) = serverSteps h := by
  rw [serverSteps, List.filterMap_append]
  simp [hop, serverSteps]

omit [SessionStore σ] [Base64] in
theorem serverSteps_snoc (hop : serverOp t.pre t.input = some op)
    (hpre : t.pre.core .server = .server rt) (hout : t.output = some (.server res))
    (hpost : t.post.core .server = .server rt') :
    serverSteps (h ++ [t]) = serverSteps h ++ [⟨rt, op, res, rt'⟩] := by
  rw [serverSteps, List.filterMap_append]
  simp [hop, hpre, hout, hpost, serverSteps]

end Steps

/-- Messages the caller gets, all of them among those sent. -/
def AllSent (sent : List Bytes) (xs : List (Nat × String)) : Prop :=
  ∀ x ∈ xs, ∃ i payload, x = (i + 1, Base64.encode payload) ∧ sent[i]? = some payload

/-- The state of a run: the server has taken its own steps, and the client's outbox is what
its application has sent. -/
structure Line.Traced (cid : UInt64) (serverCfg : CoreConfig) (store : σ) (h : LineHistory σ)
    (w : Line σ) (c : Client.ClientRuntime) (rt : ServerRuntime σ) : Prop where
  sound : w.Sound cid
  client : w.core .client = .client c
  server : w.core .server = .server rt
  sent : Posted (accepted h) c.core
  run : Run ServerRuntime.step (ServerRuntime.new serverCfg store) (serverSteps h) rt
  right : ∀ t ∈ serverSteps h, AllSent (accepted h) (returnedMessages cid t.output)

theorem Line.start_traced (cid : UInt64) (clientCfg serverCfg : CoreConfig) (store : σ) :
    Line.Traced cid serverCfg store [] (Line.start cid clientCfg serverCfg store)
      (.new cid clientCfg) (.new serverCfg store) where
  client := rfl
  server := rfl
  sent := ⟨rfl, fun i => by simp [Client.ClientRuntime.new, CoreMachine.new, accepted]⟩
  run := .nil
  right := by simp [serverSteps]
  sound := by
    have hout : Outbox (fun _ => True) (CoreMachine.new .client cid clientCfg) :=
      { keys := fun id => by simp [CoreMachine.new]; omega
        pos := le_rfl
        bound := show 1 ≤ u64Max by decide
        fits := by simp [CoreMachine.new] }
    have hnone : (ServerRuntime.new serverCfg store).Hosting := by
      intro other s hs
      simp [ServerRuntime.new] at hs
    refine ⟨fun p => ?_, fun p bytes h => by simp [Line.start] at h⟩
    cases p with
    | client => exact ⟨rfl, hout⟩
    | server => exact ⟨hnone, fun s hs => by simp [ServerRuntime.new] at hs⟩

omit [SessionStore σ] in
theorem AllSent.append {sent : List Bytes} {xs : List (Nat × String)} (h : AllSent sent xs)
    (more : List Bytes) : AllSent (sent ++ more) xs := by
  intro x hx
  obtain ⟨i, payload, hid, hi⟩ := h x hx
  exact ⟨i, payload, hid, List.getElem?_append_left (List.getElem?_eq_some_iff.mp hi).1 ▸ hi⟩

theorem Line.Traced.returns {serverCfg : CoreConfig} {store : σ} {h : LineHistory σ} {w : Line σ}
    {c : Client.ClientRuntime} {op : Op} (ht : Line.Traced cid serverCfg store h w c rt)
    (hop : Brings cid c.core op) (hstep : rt.step op = some (rt', res)) :
    AllSent (accepted h) (returnedMessages cid res) := by
  intro x hx
  have hkeeps : Keeps cid c.core rt := by
    have hends := ht.sound.ends .server
    have hpeer : w.core (Role.peer .server) = .client c := ht.client
    rwa [ht.server, hpeer] at hends
  have hclient : ClientSide cid c := by
    have hends := ht.sound.ends .client
    have hpeer : w.core (Role.peer .client) = .server rt := ht.server
    rwa [ht.client, hpeer] at hends
  obtain ⟨payload, hpayload, hcode⟩ := step_returns hkeeps hclient.outbox hop hstep x hx
  have hpos := ((hclient.outbox.keys x.1).mp (mem_iff_getElem?.mpr ⟨payload, hpayload⟩)).1
  have hid : x.1 = x.1 - 1 + 1 := by omega
  refine ⟨x.1 - 1, payload, Prod.ext hid hcode, ?_⟩
  rw [← ht.sent.outbox, ← hid]
  exact hpayload

theorem Line.traced_of_run {clientCfg serverCfg : CoreConfig} {store : σ} {h : LineHistory σ}
    {w : Line σ} (hrun : Run (Line.step cid) (Line.start cid clientCfg serverCfg store) h w) :
    ∃ c rt, Line.Traced cid serverCfg store h w c rt := by
  induction hrun with
  | nil => exact ⟨_, _, Line.start_traced cid clientCfg serverCfg store⟩
  | @snoc h w w' a o _ hs ih =>
    obtain ⟨c, rt, ht⟩ := ih
    obtain ⟨c', rt', hc', hrt', hmoves⟩ := ht.sound.moves ht.client ht.server hs
    have hsent : accepted (h ++ [⟨w, a, o, w'⟩]) = accepted h ++ (acceptedBy a).toList := by
      rw [accepted, List.filterMap_append]
      cases ha : acceptedBy a <;> simp [accepted, ha]
    have hold : ∀ t ∈ serverSteps h, AllSent (accepted h ++ (acceptedBy a).toList)
        (returnedMessages cid t.output) := fun t hmem => (ht.right t hmem).append _
    refine ⟨c', rt', ?_⟩
    cases hmoves with
    | client op hstep hpayload hop =>
      refine ⟨ht.sound.step hs, hc', hrt', ?_, ?_, ?_⟩
      · rw [hsent, hpayload]
        exact client_posted ht.sent hstep
      · rw [serverSteps_none hop]
        exact ht.run
      · rw [hsent, serverSteps_none hop]
        exact hold
    | idle hpayload hop =>
      refine ⟨ht.sound.step hs, hc', hrt', ?_, ?_, ?_⟩
      · rw [hsent, hpayload, Option.toList_none, List.append_nil]
        exact ht.sent
      · rw [serverSteps_none hop]
        exact ht.run
      · rw [hsent, serverSteps_none hop]
        exact hold
    | server op hstep hpayload hop hbrings =>
      rw [hpayload, Option.toList_none, List.append_nil] at hsent hold
      refine ⟨ht.sound.step hs, hc', hrt', ?_, ?_, ?_⟩
      · rw [hsent]
        exact ht.sent
      · rw [serverSteps_snoc hop ht.server rfl hrt']
        exact ht.run.snoc hstep
      · rw [hsent, serverSteps_snoc hop ht.server rfl hrt']
        intro t ht'
        rcases List.mem_append.mp ht' with hmem | hnew
        · exact hold t hmem
        · rw [List.mem_singleton.mp hnew]
          exact ht.returns hbrings hstep

/-- Whatever the network, the other clients and the store have done: a message that the server
hands to its caller for the client's cid is, under its id, one that the client's application
had sent by then. -/
theorem handed_is_sent {clientCfg serverCfg : CoreConfig} {store : σ} {h₀ h₁ : LineHistory σ}
    {t : Taken (Line σ) Hop (Option HostResult)} {w : Line σ}
    (hrun : Run (Line.step cid) (Line.start cid clientCfg serverCfg store) (h₀ ++ t :: h₁) w) :
    ∀ x ∈ handed cid t, ∃ i payload, x = (i + 1, Base64.encode payload) ∧
      (accepted h₀)[i]? = some payload := by
  obtain ⟨hpre, hs⟩ := hrun.split
  obtain ⟨c, rt, ht⟩ := Line.traced_of_run hpre
  obtain ⟨c', rt', -, -, hmoves⟩ := ht.sound.moves ht.client ht.server hs
  intro x hx
  rw [handed] at hx
  cases hout : t.output with
  | none => simp [hout] at hx
  | some r =>
    rw [hout] at hx hmoves
    cases hmoves with
    | client => simp at hx
    | server op hstep _ _ hbrings => exact ht.returns hbrings hstep x hx

/-- Sent messages that bear the ids from 1 on are the first that were sent. -/
theorem AllSent.in_order {sent : List Bytes} {xs : List (Nat × String)} {n : Nat}
    (h : AllSent sent xs) (hids : xs.map Prod.fst = List.range' 1 n) :
    xs = (numbered 1 (sent.take n)).map asReturned := by
  have hlen : xs.length = n := by simpa using congrArg List.length hids
  refine List.ext_getElem? fun k => ?_
  by_cases hk : k < n
  · obtain ⟨x, hx⟩ : ∃ x, xs[k]? = some x := ⟨_, List.getElem?_eq_getElem (by omega)⟩
    obtain ⟨i, payload, hid, hi⟩ := h _ (List.mem_of_getElem? hx)
    have hfst : (xs.map Prod.fst)[k]? = some (1 + k) := by
      rw [hids, List.getElem?_range' hk]
      simp
    rw [List.getElem?_map, hx, hid, Option.map_some, Option.some.injEq] at hfst
    obtain rfl : i = k := by
      have : i + 1 = 1 + k := hfst
      omega
    have hnth : (numbered 1 (sent.take n))[i]? = some (1 + i, payload) := by
      have htake : (sent.take n)[i]? = some payload := by rw [List.getElem?_take_of_lt hk, hi]
      have hlt := (List.getElem?_eq_some_iff.mp htake).1
      refine List.getElem?_zip_eq_some.mpr ⟨?_, htake⟩
      rw [List.getElem?_range' hlt]
      simp
    rw [hx, hid, List.getElem?_map, hnth, Nat.add_comm 1 i]
    rfl
  · rw [List.getElem?_eq_none (by omega), List.getElem?_eq_none]
    have hle : (numbered 1 (sent.take n)).length ≤ n := by
      rw [numbered, List.length_zip, List.length_range', List.length_take]
      omega
    rw [List.length_map]
    omega

/-- As long as no completed message has failed to be recorded, what the caller has been handed
over a session's life are the first messages of the client's application, each once and in
order: as many as the session has counted. -/
theorem handed_in_order {clientCfg serverCfg : CoreConfig} {store : σ} {h : LineHistory σ}
    {w : Line σ} (hrun : Run (Line.step cid) (Line.start cid clientCfg serverCfg store) h w)
    (hrt : w.core .server = .server rt) (hs : rt.sessions[cid]? = some s)
    (hkept : ∀ t ∈ lifetime cid (serverSteps h), ¬ loses cid t.pre t.input) :
    ((lifetime cid (serverSteps h)).flatMap fun t => returnedMessages cid t.output) =
      (numbered 1 ((accepted h).take s.core.lastOrderedRx)).map asReturned := by
  obtain ⟨c, rt', ht⟩ := Line.traced_of_run hrun
  obtain rfl : rt' = rt := by
    have hboth := ht.server.symm.trans hrt
    injection hboth
  refine AllSent.in_order ?_ ?_
  · intro x hx
    obtain ⟨t, hmem, hx⟩ := List.mem_flatMap.mp hx
    exact ht.right t (lifetime_subset cid (serverSteps h) hmem) x hx
  · rw [← (given_of_run ht.run s hs).1 hkept, given, List.map_flatMap]
    simp only [returnedMessages_ids]

end Base

/-! ### One line -/

/-- The store in memory takes every record. -/
theorem memory_loses_nothing (cid : UInt64) (rt : ServerRuntime InMemorySessionStore) (op : Op) :
    ¬ loses cid rt op := by
  cases op with
  | datagram nowMs src bytes =>
    rintro ⟨frame, s, -, -, -, -, hfail⟩
    exact hfail rfl
  | pollTimers | sendMessage => exact id

def memoryLine : Line InMemorySessionStore := .start 7 .default .default .withDefaultShards

/-- The client sends one message, and what it advertises with it arrives twice. -/
def oneMessage : List Hop :=
  [.call .client (.client (.beginHandshake 0)), .deliver .server 0 ⟨1, 3⟩,
    .deliver .client 0 ⟨2, 0⟩, .deliver .server 0 ⟨3, 3⟩,
    .call .client (.client (.sendMessage [10])), .duplicate .server 0, .deliver .server 0 ⟨4, 3⟩,
    .deliver .client 0 ⟨5, 0⟩, .deliver .server 0 ⟨6, 3⟩]

theorem oneMessage_handed :
    ∃ h₀ t w, Run (Line.step 7) memoryLine (h₀ ++ [t]) w ∧ handed 7 t ≠ [] ∧
      ∀ x ∈ handed 7 t, ∃ i payload, x = (i + 1, Base64.encode payload) ∧
        (accepted h₀)[i]? = some payload := by
  have hsome : (exec (Line.step 7) memoryLine oneMessage).any fun x =>
      (Line.step 7 x.2 (.deliver .server 0 ⟨7, 3⟩)).any fun y =>
        !(handed 7 ⟨x.2, .deliver .server 0 ⟨7, 3⟩, y.2, y.1⟩).isEmpty := by
    decide +kernel
  obtain ⟨⟨h₀, w₀⟩, hexec, hlast⟩ := (Option.any_eq_true _ _).mp hsome
  obtain ⟨⟨w, o⟩, hs, hgiven⟩ := (Option.any_eq_true _ _).mp hlast
  have hrun := (Run.of_exec hexec).snoc hs
  refine ⟨h₀, _, w, hrun, ?_, handed_is_sent hrun⟩
  intro hnil
  simp [hnil] at hgiven

theorem oneMessage_in_order :
    ∃ h w rt s, Run (Line.step 7) memoryLine h w ∧ w.core .server = .server rt ∧
      rt.sessions[(7 : UInt64)]? = some s ∧
      ((lifetime 7 (serverSteps h)).flatMap fun t => returnedMessages 7 t.output) =
        (numbered 1 ((accepted h).take s.core.lastOrderedRx)).map asReturned := by
  have hsome : (exec (Line.step 7) memoryLine (oneMessage ++ [.deliver .server 0 ⟨7, 3⟩])).any
      fun x => match x.2.core .server with
        | .server rt => rt.sessions[(7 : UInt64)]?.isSome
        | .client _ => false := by
    decide +kernel
  obtain ⟨⟨h, w⟩, hexec, hin⟩ := (Option.any_eq_true _ _).mp hsome
  cases hrt : w.core .server with
  | client c => simp [hrt] at hin
  | server rt =>
    simp only [hrt] at hin
    obtain ⟨s, hs⟩ := Option.isSome_iff_exists.mp hin
    have hrun := Run.of_exec hexec
    exact ⟨h, w, rt, s, hrun, hrt, hs,
      handed_in_order hrun hrt hs fun t _ => memory_loses_nothing 7 t.pre t.input⟩

end Todero.Server
