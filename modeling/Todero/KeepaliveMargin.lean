import Todero.Counters
import Todero.Outgoing
import Todero.Renegotiation

/-! The keepalives of a client against the ticks of its server: eight ticks in a row without
a sign of the client, and one keepalive for every four MSRs. -/
namespace Todero.Core
open Todero.Wire Transition Duplex

/-- The `ServerMsr` timer of the server fires. -/
def ticks (t : Taken World Move (Option CallResult)) : Prop :=
  ∃ nowMs, t.input = .call .server (.timer nowMs .serverMsr)

/-- The datagram is delivered at `r`. -/
def brings (r : Role) (bytes : Bytes) (t : Taken World Move (Option CallResult)) : Prop :=
  ∃ i x, t.input = .deliver r i x ∧ (t.pre.inbox r)[i]? = some bytes

def emits (r : Role) (bytes : Bytes) (t : Taken World Move (Option CallResult)) : Prop :=
  t.input.actor = some r ∧ ∃ res, t.output = some res ∧ bytes ∈ res.datagrams

def IsMsr (bytes : Bytes) : Prop :=
  ∃ frame, WireFrame.decode bytes = .ok frame ∧ frame.messageType = .msr

/-- The client answers a datagram with an MSR that has no timers beside it. -/
def keepsAlive (bytes : Bytes) (t : Taken World Move (Option CallResult)) : Prop :=
  (∃ i x, t.input = .deliver .client i x) ∧ emits .client bytes t ∧
    ∃ frame, WireFrame.decode bytes = .ok frame ∧ frame.messageType = .msr ∧ frame.tlvs = []

/-- The server has sent an MSR that the client has not got, and has not ticked since. -/
def Unheard (h : WorldHistory) : Prop :=
  ∃ bytes, IsMsr bytes ∧
    After (fun _ => True) (emits .server bytes) (fun t => ¬ ticks t ∧ ¬ brings .client bytes t) h

/-- The server has got neither of two keepalives in a row, and has not ticked since the
second one. -/
def Starved (h : WorldHistory) : Prop :=
  ∃ first second,
    After
      (After (fun _ => True) (keepsAlive first)
        fun t => ¬ brings .server first t ∧ ∀ bytes, ¬ keepsAlive bytes t)
      (keepsAlive second)
      (fun t => ¬ ticks t ∧ ¬ brings .server first t ∧ ¬ brings .server second t) h

/-- Whenever the server ticks, the client has got its MSRs, and it one of any two keepalives
in a row. -/
def Attentive (h : WorldHistory) : Prop :=
  ∀ h₀ t h₁, h = h₀ ++ t :: h₁ → ticks t → ¬ Unheard h₀ ∧ ¬ Starved h₀

/-- Two ends in a session, with nothing counted and no hello on its way: of the control
frames of an end only `Close` is not a hello. -/
structure Talk.Fresh (cid : UInt64) (v : Talk) : Prop where
  clean : v.Clean cid
  role : ∀ r, (v.core r).role = r
  up : ∀ r, (v.core r).state = .established
  client : (v.core .client).clientServerMsrRxSinceLastKeepalive = 0
  server : (v.core .server).serverConsecutiveMsrWithoutClientMsr = 0
  flight : ∀ r, ∀ t, .control t ∈ v.inbox r → t = .close

theorem Attentive.before {h h' : WorldHistory} (ha : Attentive (h ++ h')) : Attentive h := by
  intro h₀ u h₁ hsplit htick
  exact ha h₀ u (h₁ ++ h') (by simp [hsplit]) htick

theorem Attentive.last {h : WorldHistory} {t : Taken World Move (Option CallResult)}
    (ha : Attentive (h ++ [t])) (htick : ticks t) : ¬ Unheard h ∧ ¬ Starved h :=
  ha h t [] rfl htick

/-! ### What the client counts -/

theorem isMsr_packet {cid : UInt64} {p : Packet} (hp : p.Small) :
    IsMsr (p.bytes cid) ↔ p.messageType = .msr := by
  unfold IsMsr
  rw [Packet.decode_bytes hp]
  constructor
  · intro ⟨frame, hframe, htype⟩
    obtain rfl := Except.ok.inj hframe
    exact htype
  · exact fun htype => ⟨_, rfl, htype⟩

/-- Only the keepalive is an MSR without timers. -/
theorem plain_reply {m : CoreMachine} {p q : Packet} (hq : q ∈ m.replies p)
    (htype : q.messageType = .msr) (htlvs : q.tlvs = []) :
    p.messageType = .msr ∧ keepaliveDue .controlMsrFrame m := by
  obtain ⟨-, hans | ⟨next, source, hsignal, hsent⟩⟩ := mem_replies hq
  · cases answer_of_mem hans with
    | serverHello | helloAck | data | fragment => cases htype
    | timerAck => cases htlvs
  · obtain ⟨-, hdue, -⟩ | ⟨-, rfl⟩ := mem_signalPackets.mp hsent
    · obtain rfl := hdue.1
      refine ⟨?_, hdue⟩
      cases p with
      | msr => rfl
      | control | requestRange | data | fragment => simp [Packet.signal] at hsignal
    · cases htype

theorem keepalive_reply {m : CoreMachine} (hrole : m.role = .client)
    (hdue : keepaliveDue .controlMsrFrame m) (acked next : Nat) (timer : Option TimerTlv) :
    .msr m.lastOrderedRx m.maxPendingId none ∈ m.replies (.msr acked next timer) := by
  have hok : m.fails (.msr acked next timer) = false := rfl
  rw [replies_of_ok m hok rfl, rxOn_of_none m rfl]
  exact List.mem_append_right _ (mem_signalPackets.mpr (.inl ⟨hrole, hdue, rfl⟩))

theorem saturatingAdd32_one {c : Nat} (hc : c ≤ 7) : saturatingAdd32 c 1 = c + 1 := by
  rw [saturatingAdd32, u32Max]
  omega

/-- The client counts every MSR that its server sends. -/
theorem onDatagram_counts {m : CoreMachine} (hrole : m.role = .client) (acked next : Nat)
    (timer : Option TimerTlv) (nowMs : UInt64) (src : UInt32) :
    (onDatagram m nowMs src ((Packet.msr acked next timer).bytes m.cid)).1.clientServerMsrRxSinceLastKeepalive =
      if keepaliveDue .controlMsrFrame m then 0
      else saturatingAdd32 m.clientServerMsrRxSinceLastKeepalive 1 := by
  have hsmall : (Packet.msr acked next timer).Small := small_of_short (by simp [Packet.payload])
  have htlvs : msrTlvs m ((Packet.msr acked next timer).bytes m.cid) =
      some (timer.toList.map TimerTlv.encode) := by
    rw [msrTlvs, ownFrame_packet hsmall, Option.bind_some]
    exact if_pos ⟨rfl, (encodeMsrPayload_length acked next).ge⟩
  have hgood : (readTimerTlvs (timer.toList.map TimerTlv.encode)).2 = none := by
    cases timer with
    | none => rfl
    | some t => simp only [Option.toList, List.map_cons, List.map_nil, readTimerTlvs, readTimerTlv_encode]
  exact onDatagram_counted nowMs src hrole htlvs hgood

/-! ### What is left of the eight ticks -/

/-- The client sends no keepalive, and the server gets nothing from it. -/
def Still (t : Taken World Move (Option CallResult)) : Prop :=
  (∀ bytes, ¬ keepsAlive bytes t) ∧ ∀ bytes, ¬ brings .server bytes t

/-- The client has sent a keepalive since the server has heard from it. -/
def Called (h : WorldHistory) : Prop :=
  ∃ bytes, After (fun _ => True) (keepsAlive bytes) Still h

/-- It has sent another one, and the server has not ticked since. -/
def CalledTwice (h : WorldHistory) : Prop :=
  ∃ bytes, After Called (keepsAlive bytes) (fun t => Still t ∧ ¬ ticks t) h

theorem CalledTwice.called {h : WorldHistory} (hc : CalledTwice h) : Called h := by
  obtain ⟨bytes, hafter⟩ := hc
  exact ⟨bytes, hafter.imp (fun _ _ => trivial) fun _ hq => hq.1⟩

theorem CalledTwice.starved {h : WorldHistory} (hc : CalledTwice h) : Starved h := by
  obtain ⟨second, h₁, t, h₂, rfl, ⟨first, hfirst⟩, hsecond, hrest⟩ := hc
  refine ⟨first, second, h₁, t, h₂, rfl, ?_, hsecond, fun t' ht' => ?_⟩
  · exact hfirst.imp (fun _ hI => hI) fun u hu => ⟨hu.2 first, hu.1⟩
  · obtain ⟨hstill, hquiet⟩ := hrest t' ht'
    exact ⟨hquiet, hstill.2 first, hstill.2 second⟩

/-- Where the server has ticked `s` times since it has heard from the client, and the client
has counted `c` MSRs: each tick has been counted, but four for a keepalive that is on its
way, and one whose MSR is. -/
def Slack (h : WorldHistory) (s c : Nat) : Prop :=
  CalledTwice h ∨
    ∃ due, (due = c ∨ due = c + 4 ∧ Called h) ∧ (s ≤ due ∨ s ≤ due + 1 ∧ Unheard h)

section Slack
variable {h : WorldHistory} {t : Taken World Move (Option CallResult)} {s s' c : Nat}

theorem Called.snoc (hc : Called h) (hstill : Still t) : Called (h ++ [t]) := by
  obtain ⟨bytes, hafter⟩ := hc
  exact ⟨bytes, hafter.snoc hstill⟩

theorem CalledTwice.snoc (hc : CalledTwice h) (hstill : Still t) (htick : ¬ ticks t) :
    CalledTwice (h ++ [t]) := by
  obtain ⟨bytes, hafter⟩ := hc
  exact ⟨bytes, hafter.snoc ⟨hstill, htick⟩⟩

theorem slack_zero : Slack h 0 c := .inr ⟨c, .inl rfl, .inl (Nat.zero_le c)⟩

/-- A step that the margin does not depend on. -/
theorem Slack.keep (hslack : Slack h s c) (hstill : Still t) (htick : ¬ ticks t)
    (hmsr : ∀ bytes, IsMsr bytes → ¬ brings .client bytes t) : Slack (h ++ [t]) s c := by
  obtain htwice | ⟨due, hdue, hle⟩ := hslack
  · exact .inl (htwice.snoc hstill htick)
  · refine .inr ⟨due, hdue.imp_right fun hd => ⟨hd.1, hd.2.snoc hstill⟩, hle.imp_right ?_⟩
    intro ⟨hs, bytes, hb, hafter⟩
    exact ⟨hs, bytes, hb, hafter.snoc ⟨htick, hmsr bytes hb⟩⟩

/-- At a tick at most seven are behind, and the MSR that it sends is on its way. -/
theorem Slack.lt (hslack : Slack h s c) (hc : c ≤ 3) (hheard : ¬ Unheard h) (hfed : ¬ Starved h) :
    s ≤ 7 := by
  obtain htwice | ⟨due, hdue, hle⟩ := hslack
  · exact absurd htwice.starved hfed
  · have hle' := hle.resolve_right fun hu => hheard hu.2
    obtain rfl | ⟨rfl, -⟩ := hdue <;> omega

theorem Slack.tick (hslack : Slack h s c) (hheard : ¬ Unheard h) (hfed : ¬ Starved h)
    (hstill : Still t) (hs : s' ≤ s + 1) {bytes : Bytes} (hb : IsMsr bytes)
    (hemits : emits .server bytes t) : Slack (h ++ [t]) s' c := by
  obtain htwice | ⟨due, hdue, hle⟩ := hslack
  · exact absurd htwice.starved hfed
  · have hle' := hle.resolve_right fun hu => hheard hu.2
    refine .inr ⟨due, hdue.imp_right fun hd => ⟨hd.1, hd.2.snoc hstill⟩, .inr ⟨by omega, ?_⟩⟩
    exact ⟨bytes, hb, .last trivial hemits⟩

/-- The client counts one more MSR. -/
theorem Slack.count (hslack : Slack h s c) (hstill : Still t) (htick : ¬ ticks t) :
    Slack (h ++ [t]) s (c + 1) := by
  obtain htwice | ⟨due, hdue, hle⟩ := hslack
  · exact .inl (htwice.snoc hstill htick)
  · have hle' : s ≤ due + 1 := hle.elim (fun hs => by omega) fun hu => hu.1
    refine .inr ⟨due + 1, ?_, .inl hle'⟩
    obtain rfl | ⟨rfl, hcalled⟩ := hdue
    · exact .inl rfl
    · exact .inr ⟨by omega, hcalled.snoc hstill⟩

/-- The client sends a keepalive instead, and counts from zero. -/
theorem Slack.call (hslack : Slack h s c) (hc : c ≤ 3) {bytes : Bytes}
    (hcalls : keepsAlive bytes t) : Slack (h ++ [t]) s 0 := by
  have honce : Called (h ++ [t]) := ⟨bytes, .last trivial hcalls⟩
  have htwice : Called h → CalledTwice (h ++ [t]) := fun hcalled => ⟨bytes, .last hcalled hcalls⟩
  obtain hboth | ⟨due, rfl | ⟨-, hcalled⟩, hle⟩ := hslack
  · exact .inl (htwice hboth.called)
  · have hle' : s ≤ due + 1 := hle.elim (fun hs => by omega) fun hu => hu.1
    exact .inr ⟨4, .inr ⟨rfl, honce⟩, .inl (by omega)⟩
  · exact .inl (htwice hcalled)

end Slack

/-! ### The two ends -/

/-- What an end does with a datagram on its way to it. -/
theorem Talk.step_deliver {v v' : Talk} {r : Role} {i : Nat} {x : Receipt}
    {o : Option CallResult} (hs : v.step (.deliver r i x) = some (v', o)) :
    ∃ p, (v.inbox r)[i]? = some p ∧
      v'.core r = (onDatagram (v.core r) x.nowMs x.srcPathId (p.bytes (v.core r).cid)).1 ∧
      v'.core r.peer = v.core r.peer ∧
      o = some (onDatagram (v.core r) x.nowMs x.srcPathId (p.bytes (v.core r).cid)).2 := by
  simp only [Talk.step, Net.step, talker, Option.map_eq_some_iff, Prod.mk.injEq] at hs
  obtain ⟨p, hp, rfl, rfl⟩ := hs
  refine ⟨p, hp, ?_, ?_, rfl⟩
  · rw [Net.commit_core, Function.update_self]
  · rw [Net.commit_core, Function.update_of_ne r.peer_ne]
    rfl

/-- A machine past its handshake, and a packet that is neither a `ServerHello` nor an MSR
without its payload. -/
abbrev Talk.Settled (v : Talk) : Prop :=
  v.Holds Role.peer (fun s _ => s.state ≠ .preHandshake)
    fun _ p => p.Small ∧ p ≠ .control .serverHello ∧ p ≠ .control .msr

theorem utters_settled {m : CoreMachine} {k : Call} {p : Packet} (hp : p ∈ m.utters k) :
    p ≠ .control .serverHello ∧ p ≠ .control .msr := by
  cases k with
  | timer nowMs timerId =>
    cases timerId <;> simp only [CoreMachine.utters] at hp <;> (try split_ifs at hp) <;>
      simp_all
  | beginHandshake | send | close | proposeTimers =>
    simp only [CoreMachine.utters] at hp
    split_ifs at hp <;> simp_all
  | pathChanged => simp [CoreMachine.utters] at hp

theorem replies_settled {m : CoreMachine} (hbegun : m.state ≠ .preHandshake) {p q : Packet}
    (hq : q ∈ m.replies p) : q ≠ .control .serverHello ∧ q ≠ .control .msr := by
  obtain ⟨-, hans | ⟨next, source, -, hsent⟩⟩ := mem_replies hq
  · cases answer_of_mem hans with
    | serverHello _ hpre => exact absurd hpre hbegun
    | helloAck | timerAck | data | fragment => simp
  · obtain ⟨-, -, rfl⟩ | ⟨-, rfl⟩ := mem_signalPackets.mp hsent <;> simp

theorem Talk.Settled.step {v v' : Talk} (hv : v.Settled) {a : Move} {o : Option CallResult}
    (hs : v.step a = some (v', o)) : v'.Settled := by
  refine Net.Holds.step Role.peer_peer Role.peer_ne (fun _ => True) ?_ ?_ hv
    (fun _ _ _ => trivial) hs
  · intro s t k s' ds o _ hbegun htbegun hc
    simp only [talker, Option.map_eq_some_iff, Prod.mk.injEq] at hc
    obtain ⟨⟨m', res⟩, happ, rfl, rfl, -⟩ := hc
    have hnext : m'.state ≠ .preHandshake := by
      rw [(apply_answers s happ).next]
      exact next_begun s k hbegun
    exact ⟨hnext, htbegun, fun _ h => h, fun p hp => ⟨utters_small s k p hp, utters_settled hp⟩⟩
  · intro s t x p hbegun htbegun hp
    have hreaction := packet_reaction s x.nowMs x.srcPathId hp.1
    have hnext : (onDatagram s x.nowMs x.srcPathId (p.bytes s.cid)).1.state ≠ .preHandshake := by
      rw [hreaction.state]
      exact stateOn_begun p hbegun
    exact ⟨hnext, htbegun, fun _ h => h,
      fun q hq => ⟨replies_small s p q hq, replies_settled hbegun hq⟩⟩

/-- A server that a datagram leaves in the session was in it before. -/
theorem stateOn_up {m : CoreMachine} {p : Packet} (hrole : m.role = .server)
    (hbegun : m.state ≠ .preHandshake) (hup : m.stateOn p = .established) :
    m.state = .established := by
  have hwoken : m.wokenState = m.state := by simp [CoreMachine.wokenState, hrole]
  cases p with
  | control t => cases t <;> simp_all [CoreMachine.stateOn]
  | msr | requestRange | data | fragment => exact hwoken ▸ hup

/-- What the margin needs of the two ends after a run. -/
structure Talk.Margin (h : WorldHistory) (v : Talk) : Prop where
  role : ∀ r, (v.core r).role = r
  settled : v.Settled
  count : (v.core .client).clientServerMsrRxSinceLastKeepalive ≤ 3
  slack : (v.core .server).state = .established →
    Slack h (v.core .server).serverConsecutiveMsrWithoutClientMsr
      (v.core .client).clientServerMsrRxSinceLastKeepalive

section Step
variable {cid : UInt64} {h : WorldHistory} {v v' : Talk} {o : Option CallResult}

/-- The step over bytes. -/
abbrev recorded (cid : UInt64) (v : Talk) (a : Move) (o : Option CallResult) (v' : Talk) :
    Taken World Move (Option CallResult) :=
  ⟨v.toWorld cid, a, o, v'.toWorld cid⟩

theorem not_brings_of_other {a : Move} (ha : ∀ r i x, a ≠ .deliver r i x) (r : Role)
    (bytes : Bytes) : ¬ brings r bytes (recorded cid v a o v') := by
  intro hb
  obtain ⟨i, x, hinput, -⟩ := hb
  exact ha r i x hinput

theorem still_of_other {a : Move} (ha : ∀ r i x, a ≠ .deliver r i x) :
    Still (recorded cid v a o v') := by
  refine ⟨fun bytes hk => ?_, not_brings_of_other ha .server⟩
  obtain ⟨i, x, hinput⟩ := hk.1
  exact ha .client i x hinput

theorem not_ticks_of_other {a : Move} (ha : ∀ nowMs, a ≠ .call .server (.timer nowMs .serverMsr)) :
    ¬ ticks (recorded cid v a o v') := by
  intro htick
  obtain ⟨nowMs, hinput⟩ := htick
  exact ha nowMs hinput

/-- What is neither a delivery nor a tick leaves the margin alone. -/
theorem Slack.aside {s c : Nat} (hslack : Slack h s c) {a : Move}
    (ha : ∀ r i x, a ≠ .deliver r i x) (htick : ¬ ticks (recorded cid v a o v')) :
    Slack (h ++ [recorded cid v a o v']) s c :=
  hslack.keep (still_of_other ha) htick fun bytes _ => not_brings_of_other ha .client bytes

theorem brings_packet {r : Role} {i : Nat} {x : Receipt} {p : Packet}
    (hp : (v.inbox r)[i]? = some p) {q : Role} {bytes : Bytes}
    (hb : brings q bytes (recorded cid v (.deliver r i x) o v')) : q = r ∧ bytes = p.bytes cid := by
  obtain ⟨j, y, hinput, hget⟩ := hb
  obtain ⟨rfl, rfl, rfl⟩ := Action.deliver.inj hinput
  have hmap : ((v.toWorld cid).inbox r)[i]? = some (p.bytes cid) := by
    simp [Talk.toWorld, Net.map, hp]
  exact ⟨rfl, (Option.some.inj (hget.symm.trans hmap))⟩

theorem emits_call (hv : v.Clean cid) {r : Role} {k : Call}
    (hs : v.step (.call r k) = some (v', o)) {p : Packet} (hp : p ∈ (v.core r).utters k) :
    emits r (p.bytes cid) (recorded cid v (.call r k) o v') := by
  cases hv.moves hs r with
  | idle hactor _ => exact absurd rfl hactor
  | recv _ _ _ _ ha => cases ha
  | call k' res ha ho happ =>
    obtain ⟨-, rfl⟩ := Action.call.inj ha
    refine ⟨rfl, res, ho, ?_⟩
    rw [CallResult.datagrams, (apply_answers _ happ).datagrams, List.map_map, hv.ends r]
    exact List.mem_map_of_mem hp

theorem emits_deliver (hv : v.Clean cid) {r : Role} {i : Nat} {x : Receipt}
    (hs : v.step (.deliver r i x) = some (v', o)) {p : Packet} (hp : (v.inbox r)[i]? = some p)
    (bytes : Bytes) :
    emits r bytes (recorded cid v (.deliver r i x) o v') ↔
      ∃ q ∈ (v.core r).replies p, bytes = q.bytes cid := by
  obtain ⟨p', hp', -, -, rfl⟩ := Talk.step_deliver hs
  obtain rfl := Option.some.inj (hp.symm.trans hp')
  have hsaid := (packet_reaction (v.core r) x.nowMs x.srcPathId
    (hv.flight r p (List.mem_of_getElem? hp))).said
  rw [hv.ends r] at hsaid
  constructor
  · intro hemits
    obtain ⟨-, res, hres, hmem⟩ := hemits
    obtain rfl := Option.some.inj hres
    rw [CallResult.datagrams, hv.ends r, hsaid, List.mem_map] at hmem
    obtain ⟨q, hq, rfl⟩ := hmem
    exact ⟨q, hq, rfl⟩
  · intro hreply
    obtain ⟨q, hq, hbytes⟩ := hreply
    refine ⟨rfl, _, rfl, ?_⟩
    rw [CallResult.datagrams, hv.ends r, hsaid, hbytes]
    exact List.mem_map_of_mem hq

/-- The client keeps alive on an MSR that is due for it, and on nothing else. -/
theorem keepsAlive_due (hv : v.Clean cid) {i : Nat} {x : Receipt}
    (hs : v.step (.deliver .client i x) = some (v', o)) {p : Packet}
    (hp : (v.inbox .client)[i]? = some p) {bytes : Bytes}
    (hk : keepsAlive bytes (recorded cid v (.deliver .client i x) o v')) :
    p.messageType = .msr ∧ keepaliveDue .controlMsrFrame (v.core .client) := by
  obtain ⟨-, hemits, frame, hdec, htype, htlvs⟩ := hk
  obtain ⟨q, hq, rfl⟩ := (emits_deliver hv hs hp bytes).mp hemits
  rw [Packet.decode_bytes (replies_small _ p q hq)] at hdec
  obtain rfl := Except.ok.inj hdec
  exact plain_reply hq htype htlvs

theorem keepsAlive_of_due (hv : v.Clean cid) {i : Nat} {x : Receipt}
    (hs : v.step (.deliver .client i x) = some (v', o)) {acked next : Nat}
    {timer : Option TimerTlv} (hp : (v.inbox .client)[i]? = some (.msr acked next timer))
    (hrole : (v.core .client).role = .client)
    (hdue : keepaliveDue .controlMsrFrame (v.core .client)) :
    ∃ bytes, keepsAlive bytes (recorded cid v (.deliver .client i x) o v') := by
  have hreply := keepalive_reply hrole hdue acked next timer
  refine ⟨_, ⟨i, x, rfl⟩, (emits_deliver hv hs hp _).mpr ⟨_, hreply, rfl⟩, ?_⟩
  exact ⟨_, Packet.decode_bytes (replies_small _ _ _ hreply) cid, rfl, rfl⟩

/-- The tick of a server that stays in the session. -/
theorem Talk.Margin.tick (hm : v.Margin h) (hv : v.Clean cid) {nowMs : UInt64}
    (hs : v.step (.call .server (.timer nowMs .serverMsr)) = some (v', o))
    (hheard : ¬ Unheard h) (hfed : ¬ Starved h) (hup : (v.core .server).state = .established) :
    (v'.core .server).state = .established ∧
      Slack (h ++ [recorded cid v (.call .server (.timer nowMs .serverMsr)) o v'])
        (v'.core .server).serverConsecutiveMsrWithoutClientMsr
        (v'.core .client).clientServerMsrRxSinceLastKeepalive := by
  obtain ⟨hserver, hclient, -⟩ := Talk.step_call hs
  have hrole := hm.role .server
  have hseven := (hm.slack hup).lt hm.count hheard hfed
  have hsat : saturatingAdd32 (v.core .server).serverConsecutiveMsrWithoutClientMsr 1 =
      (v.core .server).serverConsecutiveMsrWithoutClientMsr + 1 :=
    saturatingAdd32_one (by omega)
  have hanswered : ¬ (v.core .server).unanswered := by
    rw [CoreMachine.unanswered, hsat, serverMaxConsecutiveServerMsrWithoutClientMsr]
    omega
  have hnext : v'.core .server = (v.core .server).onServerMsrTimer nowMs := by
    rw [hserver]
    exact if_pos ⟨hrole, hup⟩
  have hcount : (v'.core .server).serverConsecutiveMsrWithoutClientMsr =
      (v.core .server).serverConsecutiveMsrWithoutClientMsr + 1 := by
    rw [hnext, CoreMachine.onServerMsrTimer, if_neg hanswered]
    exact hsat
  have hsaid : .msr (v.core .server).lastOrderedRx 0 none ∈
      (v.core .server).utters (.timer nowMs .serverMsr) := by
    simp [CoreMachine.utters, hrole, hup, hanswered]
  refine ⟨?_, ?_⟩
  · rw [hnext, CoreMachine.onServerMsrTimer, if_neg hanswered]
    exact hup
  · have hsame : v'.core .client = v.core .client := hclient
    rw [hsame]
    exact (hm.slack hup).tick hheard hfed (still_of_other (by simp)) hcount.le
      ((isMsr_packet (small_of_short (by simp [Packet.payload]))).mpr rfl)
      (emits_call hv hs hsaid)

/-- A datagram that the client counts, or answers with a keepalive, or neither. -/
theorem Talk.Margin.toClient (hm : v.Margin h) (hv : v.Clean cid) {i : Nat} {x : Receipt}
    (hs : v.step (.deliver .client i x) = some (v', o)) :
    (v'.core .client).clientServerMsrRxSinceLastKeepalive ≤ 3 ∧
      ∀ s, Slack h s (v.core .client).clientServerMsrRxSinceLastKeepalive →
        Slack (h ++ [recorded cid v (.deliver .client i x) o v']) s
          (v'.core .client).clientServerMsrRxSinceLastKeepalive := by
  obtain ⟨p, hp, hclient, -⟩ := Talk.step_deliver hs
  have hmem := List.mem_of_getElem? hp
  have hrole := hm.role .client
  have hquiet : ∀ bytes, ¬ brings .server bytes (recorded cid v (.deliver .client i x) o v') :=
    fun bytes hb => absurd (brings_packet hp hb).1 (by decide)
  have hnotick : ¬ ticks (recorded cid v (.deliver .client i x) o v') :=
    not_ticks_of_other (by simp)
  obtain ⟨hsmall, hnothello, hnotmsr⟩ := hm.settled.flight .client p hmem
  by_cases htype : p.messageType = .msr
  · obtain ⟨acked, next, timer, rfl⟩ : ∃ acked next timer, p = .msr acked next timer := by
      cases p with
      | msr acked next timer => exact ⟨acked, next, timer, rfl⟩
      | control t => exact absurd (congrArg Packet.control htype) hnotmsr
      | requestRange | data | fragment => cases htype
    rw [hclient, onDatagram_counts hrole acked next timer x.nowMs x.srcPathId]
    by_cases hdue : keepaliveDue .controlMsrFrame (v.core .client)
    · rw [if_pos hdue]
      obtain ⟨bytes, hcalls⟩ := keepsAlive_of_due hv hs hp hrole hdue
      exact ⟨by omega, fun s hslack => hslack.call hm.count hcalls⟩
    · have hcount := hm.count
      have hsat := saturatingAdd32_one
        (c := (v.core .client).clientServerMsrRxSinceLastKeepalive) (by omega)
      have hstill : Still (recorded cid v (.deliver .client i x) o v') :=
        ⟨fun bytes hk => hdue (keepsAlive_due hv hs hp hk).2, hquiet⟩
      rw [if_neg hdue, hsat]
      refine ⟨?_, fun s hslack => hslack.count hstill hnotick⟩
      have hfour : ¬ (v.core .client).clientServerMsrRxSinceLastKeepalive + 1 ≥ 4 := fun hge =>
        hdue ⟨rfl, hsat.symm ▸ hge⟩
      omega
  · have hframe : (p.frame (v.core .client).cid).messageType ≠ .serverHello := by
      intro hhello
      cases p with
      | control t => exact hnothello (congrArg Packet.control hhello)
      | msr | requestRange | data | fragment => cases hhello
    rw [hclient, onDatagram_uncounted x.nowMs x.srcPathId (ownFrame_packet hsmall) htype hframe]
    refine ⟨hm.count, fun s hslack => hslack.keep ?_ hnotick fun bytes hmsr hb => ?_⟩
    · exact ⟨fun bytes hk => htype (keepsAlive_due hv hs hp hk).1, hquiet⟩
    · rw [(brings_packet hp hb).2] at hmsr
      exact htype ((isMsr_packet hsmall).mp hmsr)

/-- The server has heard from its client. -/
theorem Talk.Margin.toServer (hm : v.Margin h) {i : Nat} {x : Receipt}
    (hs : v.step (.deliver .server i x) = some (v', o))
    (hup : (v'.core .server).state = .established) :
    (v'.core .server).serverConsecutiveMsrWithoutClientMsr = 0 := by
  obtain ⟨p, hp, hserver, -⟩ := Talk.step_deliver hs
  have hsmall := (hm.settled.flight .server p (List.mem_of_getElem? hp)).1
  rw [hserver] at hup ⊢
  rw [(packet_reaction (v.core .server) x.nowMs x.srcPathId hsmall).state] at hup
  have hbefore := stateOn_up (hm.role .server) (hm.settled.ends .server) hup
  exact onDatagram_heard x.nowMs x.srcPathId (ownFrame_packet hsmall) (hm.role .server) hbefore

theorem Talk.Margin.step (hm : v.Margin h) (hv : v.Clean cid) {a : Move}
    (hs : v.step a = some (v', o))
    (hfair : ticks (recorded cid v a o v') → ¬ Unheard h ∧ ¬ Starved h) :
    v'.Margin (h ++ [recorded cid v a o v']) := by
  have hsettled := hm.settled.step hs
  have hrole : ∀ r, (v'.core r).role = r := by
    intro r
    cases hv.moves hs r with
    | idle _ hsame => rw [hsame, hm.role]
    | call k _ _ _ happ => rw [(apply_answers _ happ).next, next_role, hm.role]
    | recv _ _ _ _ _ _ _ hears => exact (congrArg Fixed.role hears.fixed).trans (hm.role r)
  cases a with
  | call r k =>
    obtain ⟨hself, hother, -⟩ := Talk.step_call hs
    cases r with
    | client =>
      have hserver : v'.core .server = v.core .server := hother
      refine ⟨hrole, hsettled, ?_, ?_⟩ <;> rw [hself, next_clientCount]
      · exact hm.count
      · rw [hserver]
        exact fun hup => (hm.slack hup).aside (by simp) (not_ticks_of_other (by simp))
    | server =>
      have hclient : v'.core .client = v.core .client := hother
      refine ⟨hrole, hsettled, hclient.symm ▸ hm.count, fun hup => ?_⟩
      have hbefore : (v.core .server).state = .established := next_up (hself ▸ hup)
      by_cases htick : ticks (recorded cid v (.call .server k) o v')
      · obtain ⟨hheard, hfed⟩ := hfair htick
        obtain ⟨nowMs, hinput⟩ := htick
        obtain ⟨-, rfl⟩ := Action.call.inj hinput
        exact (hm.tick hv hs hheard hfed hbefore).2
      · have hnot : ∀ nowMs, k ≠ .timer nowMs .serverMsr := by
          intro nowMs hk
          exact htick ⟨nowMs, by rw [hk]⟩
        rw [hself, hclient, next_serverCount hnot]
        exact (hm.slack hbefore).aside (by simp) htick
  | deliver r i x =>
    obtain ⟨-, -, -, hother, -⟩ := Talk.step_deliver hs
    cases r with
    | client =>
      obtain ⟨hcount, hslack⟩ := hm.toClient hv hs
      have hserver : v'.core .server = v.core .server := hother
      refine ⟨hrole, hsettled, hcount, ?_⟩
      rw [hserver]
      exact fun hup => hslack _ (hm.slack hup)
    | server =>
      have hclient : v'.core .client = v.core .client := hother
      refine ⟨hrole, hsettled, hclient.symm ▸ hm.count, fun hup => ?_⟩
      rw [hm.toServer hs hup]
      exact slack_zero
  | drop r i | duplicate r i =>
    have hsame : v'.core = v.core := by
      simp only [Talk.step, Net.step, Option.map_eq_some_iff, Prod.mk.injEq] at hs
      obtain ⟨p, -, rfl, -⟩ := hs
      rfl
    refine ⟨hrole, hsettled, ?_, ?_⟩ <;> rw [hsame]
    · exact hm.count
    · exact fun hup => (hm.slack hup).aside (by simp) (not_ticks_of_other (by simp))

end Step

theorem Talk.Fresh.margin {cid : UInt64} {v : Talk} (hv : v.Fresh cid) : v.Margin [] := by
  refine ⟨hv.role, ⟨fun r => ?_, fun r p hp => ⟨hv.clean.flight r p hp, ?_, ?_⟩⟩, ?_, fun _ => ?_⟩
  · simp [hv.up r]
  · rintro rfl
    exact absurd (hv.flight r _ hp) (by decide)
  · rintro rfl
    exact absurd (hv.flight r _ hp) (by decide)
  · rw [hv.client]
    omega
  · rw [hv.server]
    exact slack_zero

/-- From two fresh ends in a session, whatever else the network does: as long as every MSR of
the server gets to the client, and one of any two keepalives in a row to the server, before
the server ticks again, no tick finds the client lost. -/
theorem margin_kept {cid : UInt64} {v₀ : Talk} (h₀ : v₀.Fresh cid) {h : WorldHistory} {w : World}
    (hrun : Run World.step (v₀.toWorld cid) h w) (hfair : Attentive h) :
    ∀ t ∈ h, ticks t → (t.post.core .server).state = .lost →
      (t.pre.core .server).state = .lost := by
  intro t ht htick hlost
  obtain ⟨before, after, rfl, hpre, hs⟩ := hrun.before ht
  obtain ⟨hheard, hfed⟩ := hfair before t after rfl htick
  obtain ⟨v, hv, hv_eq, hmargin⟩ := World.talk_invariant h₀.clean
    (I := fun h v => Attentive h → v.Margin h) (fun _ => h₀.margin)
    (fun h v a v' o hv hs hI ha => (hI ha.before).step hv hs ha.last) hpre
  have hm := hmargin hfair.before
  obtain ⟨nowMs, hinput⟩ := htick
  rw [hinput, hv_eq] at hs
  obtain ⟨v', hs', -, hv'_eq⟩ := hv.world_step hs
  rw [hv_eq]
  rw [hv'_eq] at hlost
  change (v'.core .server).state = .lost at hlost
  change (v.core .server).state = .lost
  by_cases hup : (v.core .server).state = .established
  · have hstays := (hm.tick hv hs' hheard hfed hup).1
    rw [hlost] at hstays
    cases hstays
  · obtain ⟨hserver, -⟩ := Talk.step_call hs'
    have hsame : v'.core .server = v.core .server :=
      hserver.trans (if_neg fun hboth => hup hboth.2)
    exact hsame ▸ hlost

/-- Two ends that have just got into a session. -/
def session : Talk :=
  ⟨fun r => { CoreMachine.new r 7 .default with state := .established }, fun _ => []⟩

theorem session_fresh : session.Fresh 7 :=
  ⟨⟨fun _ => rfl, fun _ _ => nofun⟩, fun _ => rfl, fun _ => rfl, rfl, rfl, fun _ _ => nofun⟩

/-- Two ticks, and between them the MSR of the first one gets to the client. -/
def twoTicks : List Move :=
  [.call .server (.timer 1000 .serverMsr), .deliver .client 0 ⟨1001, 0⟩,
    .call .server (.timer 2000 .serverMsr)]

/-- After the first tick the client has got the MSR, and has not had to keep alive. -/
theorem twoTicks_attentive {t₀ t₁ t₂ : Taken World Move (Option CallResult)}
    (hinputs : [t₀, t₁, t₂].map Taken.input = twoTicks)
    (hmsr : ∀ bytes, emits .server bytes t₀ → brings .client bytes t₁) :
    Attentive [t₀, t₁, t₂] := by
  simp only [twoTicks, List.map_cons, List.map_nil, List.cons.injEq, and_true] at hinputs
  obtain ⟨hfirst, hsecond, -⟩ := hinputs
  have hcalls : ∀ bytes, ¬ keepsAlive bytes t₀ := by
    intro bytes ⟨⟨i, x, hdeliver⟩, _⟩
    rw [hfirst] at hdeliver
    cases hdeliver
  have hclient : ∀ bytes, ¬ emits .server bytes t₁ := by
    intro bytes ⟨hactor, _⟩
    rw [hsecond] at hactor
    cases hactor
  intro before t after hsplit htick
  obtain _ | ⟨a, _ | ⟨b, _ | ⟨c, rest⟩⟩⟩ := before
  · exact ⟨fun ⟨_, _, hafter⟩ => not_after_nil hafter, fun ⟨_, _, hafter⟩ => not_after_nil hafter⟩
  · simp only [List.cons_append, List.nil_append, List.cons.injEq] at hsplit
    obtain ⟨nowMs, hinput⟩ := htick
    rw [← hsplit.2.1, hsecond] at hinput
    cases hinput
  · simp only [List.cons_append, List.nil_append, List.cons.injEq] at hsplit
    obtain ⟨rfl, rfl, -⟩ := hsplit
    have hpair : [t₀, t₁] = ([] ++ [t₀]) ++ [t₁] := rfl
    constructor
    · intro ⟨bytes, _, hafter⟩
      simp only [hpair, after_snoc, not_after_nil, hclient, and_false, true_and, false_and,
        or_false, false_or] at hafter
      exact hafter.2.2 (hmsr bytes hafter.1)
    · intro ⟨_, _, hafter⟩
      simp only [hpair, after_snoc, not_after_nil, hcalls, and_false, false_and, or_self] at hafter
  · simp at hsplit

theorem twoTicks_kept :
    ∃ h w, exec World.step (session.toWorld 7) twoTicks = some (h, w) ∧
      ∀ t ∈ h, ticks t → (t.post.core .server).state = .lost →
        (t.pre.core .server).state = .lost := by
  have hsome : ((exec World.step (session.toWorld 7) twoTicks).any fun x =>
      (x.1[1]?.map fun t => t.pre.inbox .client) =
        (x.1[0]?.bind Taken.output).map CallResult.datagrams ∧
      ((x.1[0]?.bind Taken.output).map CallResult.datagrams).all fun ds => ds.length = 1) =
        true := by
    decide +kernel
  obtain ⟨⟨h, w⟩, hexec, hx⟩ := (Option.any_eq_true _ _).mp hsome
  obtain ⟨hinbox, hone⟩ := of_decide_eq_true hx
  refine ⟨h, w, hexec, margin_kept session_fresh (Run.of_exec hexec) ?_⟩
  have hinputs := exec_inputs hexec
  obtain ⟨t₀, t₁, t₂, rfl⟩ : ∃ t₀ t₁ t₂, h = [t₀, t₁, t₂] :=
    List.length_eq_three.mp (by rw [← List.length_map Taken.input, hinputs]; rfl)
  refine twoTicks_attentive hinputs fun bytes ⟨_, res, hres, hmem⟩ => ?_
  simp only [List.getElem?_cons_succ, List.getElem?_cons_zero, Option.map_some, Option.bind_some,
    hres, Option.some.injEq] at hinbox hone
  simp only [twoTicks, List.map_cons, List.map_nil, List.cons.injEq] at hinputs
  obtain ⟨d, hd⟩ := List.length_eq_one_iff.mp (of_decide_eq_true hone)
  rw [hd, List.mem_singleton] at hmem
  exact ⟨0, _, hinputs.2.1, by simp [hinbox, hd, hmem]⟩

/-- Every two ends that have got into a session by themselves are such a start, when nothing
is counted and no hello is on its way. -/
theorem World.fresh_of_run {cid : UInt64} {cfg : Role → CoreConfig} {h : WorldHistory} {w : World}
    (hrun : Run World.step (World.start cid cfg) h w)
    (hup : ∀ r, (w.core r).state = .established)
    (hclient : (w.core .client).clientServerMsrRxSinceLastKeepalive = 0)
    (hserver : (w.core .server).serverConsecutiveMsrWithoutClientMsr = 0)
    (hhello : ∀ r, ∀ bytes ∈ w.inbox r, ∀ frame, WireFrame.decode bytes = .ok frame →
      frame.messageType ∉ [MessageType.clientHello, .serverHello, .helloAck]) :
    ∃ v : Talk, v.Fresh cid ∧ w = v.toWorld cid := by
  obtain ⟨v, hv, rfl⟩ := World.paired_of_run (F := fun _ => True) hrun fun _ _ _ _ _ => trivial
  refine ⟨v, ⟨hv.honest.clean, hv.role, hup, hclient, hserver, fun r t ht => ?_⟩, rfl⟩
  obtain ⟨hsmall, hhonest⟩ := hv.honest.flight r _ ht
  have hnot := hhello r _ (List.mem_map_of_mem ht) _ (Packet.decode_bytes hsmall cid)
  cases t with
  | close => rfl
  | clientHello | serverHello | helloAck => simp [Packet.frame, WireFrame.new, Packet.messageType] at hnot
  | msr | requestRange | data | fragment | error => exact absurd hhonest id

end Todero.Core
