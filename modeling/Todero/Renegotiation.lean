import Todero.Emissions
import Todero.Honest

/-! The renegotiation between two machines as a protocol of its own: the timers of both
ends, the timer TLVs in flight, and that the machines take its steps. -/
namespace Todero.Core
open Todero.Wire Transition Duplex

inductive TimerCall where
  | propose (nowMs : UInt64) (p : TimerProposal)
  | expire

def Timers.propose (t : Timers) (nowMs : UInt64) (p : TimerProposal) : Timers :=
  { t with
    nextProposalId := UInt32.ofNat (saturatingAdd32 t.nextProposalId.toNat 1)
    pending := some ⟨t.nextProposalId, p,
      saturatingAdd nowMs (saturatingMul t.cfg.msrIntervalMs 2)⟩ }

def Timers.rollBack (t : Timers) : Timers := { t with pending := none }

/-- What is sent back for a timer TLV. -/
def Timers.answers (t : Timers) : TimerTlv → List TimerTlv
  | .proposal id p => [.ack id (validateTimerProposal t.cfg p).isOk]
  | .ack .. => []

/-- One end of a renegotiation. -/
def negotiator : Party Timers TimerCall Unit TimerTlv Unit where
  call t
    | .propose nowMs p =>
      if (validateTimerProposal t.cfg p).isOk then
        some (t.propose nowMs p, [.proposal t.nextProposalId p], ())
      else none
    | .expire => some (t.rollBack, [], ())
  recv t _ tlv := (t.on tlv, t.answers tlv, ())

abbrev Renegotiation := Net Role Timers TimerTlv

/-- A call that starts a proposal or gives one up. -/
def CoreMachine.timerCall (m : CoreMachine) : Call → Option TimerCall
  | .proposeTimers nowMs p => if m.canPropose p then some (.propose nowMs p) else none
  | .timer nowMs .renegotiationTimeout => if m.pastExpiry nowMs then some .expire else none
  | _ => none

def Talk.renegotiation (w : Talk) : Renegotiation := w.view CoreMachine.timers Packet.timer

/-! ### The machines take the steps of the protocol -/

theorem call_renegotiates (m : CoreMachine) (k : Call) :
    (m.timerCall k).elim
      ((m.next k).timers = m.timers ∧ (m.utters k).filterMap Packet.timer = [])
      fun c => negotiator.call m.timers c =
        some ((m.next k).timers, (m.utters k).filterMap Packet.timer, ()) := by
  have hfilter : ∀ (p : Prop) [Decidable p] (q : Packet), q.timer = none →
      (if p then [q] else []).filterMap Packet.timer = [] := by
    intro p _ q hq
    split_ifs <;> simp [hq]
  cases k with
  | timer nowMs timerId =>
    cases timerId with
    | renegotiationTimeout =>
      by_cases h : m.pastExpiry nowMs <;> simp only [CoreMachine.timerCall, h, if_true, if_false,
        Bool.false_eq_true, Option.elim_some, Option.elim_none, CoreMachine.next, CoreMachine.utters]
      · rfl
      · exact ⟨trivial, rfl⟩
    | serverMsr =>
      refine ⟨?_, hfilter _ _ rfl⟩
      simp only [CoreMachine.next, CoreMachine.onServerMsrTimer]
      split_ifs <;> rfl
    | clientProbe =>
      refine ⟨?_, hfilter _ _ rfl⟩
      simp only [CoreMachine.next]
      split_ifs <;> rfl
    | disconnect =>
      refine ⟨?_, rfl⟩
      simp only [CoreMachine.next]
      split_ifs <;> rfl
  | proposeTimers nowMs p =>
    by_cases h : m.canPropose p
    · have hok : (validateTimerProposal m.timers.cfg p).isOk := h.2
      simp only [CoreMachine.timerCall, h, if_true, Option.elim_some, CoreMachine.next,
        CoreMachine.utters, negotiator, hok]
      rfl
    · simp only [CoreMachine.timerCall, h, if_false, Option.elim_none, CoreMachine.next,
        CoreMachine.utters, List.filterMap_nil, and_self]
  | beginHandshake nowMs => exact ⟨rfl, hfilter _ _ rfl⟩
  | send payload => exact ⟨rfl, hfilter _ _ rfl⟩
  | close =>
    refine ⟨rfl, ?_⟩
    simp only [CoreMachine.utters]
    split_ifs <;> rfl
  | pathChanged pathId => exact ⟨rfl, rfl⟩

theorem signalled_timers (m : CoreMachine) (p : Packet) :
    (m.signalled p).filterMap Packet.timer = [] := by
  rw [List.filterMap_eq_nil_iff]
  intro q hq
  unfold CoreMachine.signalled at hq
  split at hq
  · simp at hq
  · rcases mem_signalPackets.mp hq with ⟨-, -, rfl⟩ | ⟨-, rfl⟩ <;> rfl

theorem replies_renegotiate (m : CoreMachine) (p : Packet) :
    (m.replies p).filterMap Packet.timer = p.timer.elim [] m.timers.answers := by
  have hanswers : (m.answers p).filterMap Packet.timer = p.timer.elim [] m.timers.answers := by
    cases p with
    | msr acked next timer =>
      cases timer with
      | none => rfl
      | some t => cases t <;> rfl
    | control | requestRange | data | fragment =>
      refine List.filterMap_eq_nil_iff.mpr fun q hq => ?_
      cases answer_of_mem hq <;> rfl
  unfold CoreMachine.replies
  split_ifs with hf
  · cases p with
    | requestRange | fragment => rfl
    | control | msr | data => simp [CoreMachine.fails] at hf
  · rw [List.filterMap_append, signalled_timers, List.append_nil, hanswers]

/-- The machines of a talk renegotiate as the protocol does, or leave it alone. -/
theorem Talk.Clean.renegotiates {cid : UInt64} {w w' : Talk} (hw : w.Clean cid) {a : Move}
    {o : Option CallResult} (hs : w.step a = some (w', o)) :
    (w.viewAction Packet.timer CoreMachine.timerCall a).elim
      (w'.renegotiation = w.renegotiation)
      fun b => (w.renegotiation.step Role.peer negotiator b).map Prod.fst =
        some w'.renegotiation := by
  refine Net.step_view ?_ ?_ hs
  · intro r k m' ds o hc
    simp only [talker, Option.map_eq_some_iff, Prod.mk.injEq] at hc
    obtain ⟨⟨m', res⟩, happ, rfl, rfl, -⟩ := hc
    rw [(apply_answers _ happ).next]
    exact call_renegotiates (w.core r) k
  · intro r x p hp
    have hhears := hears (w.core r) x.nowMs x.srcPathId (hw.flight r p hp)
    have hsent := replies_renegotiate (w.core r) p
    have htimers := hhears.timers
    simp only [talker]
    rw [htimers, hsent, CoreMachine.timersOn]
    cases p.timer with
    | none => exact ⟨rfl, rfl⟩
    | some t => rfl

/-- A step of two machines as what it is for the renegotiation. -/
inductive Talk.Turn (w : Talk) (a : Move) : Renegotiation → Prop
  | same (hnone : ∀ r nowMs p, a = .call r (.proposeTimers nowMs p) → ¬ (w.core r).canPropose p) :
      w.Turn a w.renegotiation
  | propose (r : Role) (nowMs : UInt64) (p : TimerProposal)
      (ha : a = .call r (.proposeTimers nowMs p)) (hcan : (w.core r).canPropose p) :
      w.Turn a (w.renegotiation.commit Role.peer r ((w.core r).timers.propose nowMs p)
        [.proposal (w.core r).nextProposalId p])
  | expire (r : Role) (nowMs : UInt64) (ha : a = .call r (.timer nowMs .renegotiationTimeout))
      (hpast : (w.core r).pastExpiry nowMs) :
      w.Turn a (w.renegotiation.commit Role.peer r (w.core r).timers.rollBack [])
  | recv (r : Role) (i j : Nat) (x : Receipt) (p : Packet) (tlv : TimerTlv)
      (ha : a = .deliver r i x) (hp : (w.inbox r)[i]? = some p) (ht : p.timer = some tlv)
      (hj : j ≤ i) (htlv : (w.renegotiation.inbox r)[j]? = some tlv) :
      w.Turn a ((w.renegotiation.remove r j).commit Role.peer r ((w.core r).timers.on tlv)
        ((w.core r).timers.answers tlv))
  | drop (r : Role) (i j : Nat) (ha : a = .drop r i) : w.Turn a (w.renegotiation.remove r j)
  | duplicate (r : Role) (i j : Nat) (tlv : TimerTlv) (ha : a = .duplicate r i)
      (htlv : (w.renegotiation.inbox r)[j]? = some tlv) : w.Turn a (w.renegotiation.add r [tlv])

theorem Talk.Clean.turn {cid : UInt64} {w w' : Talk} (hw : w.Clean cid) {a : Move}
    {o : Option CallResult} (hs : w.step a = some (w', o)) : w.Turn a w'.renegotiation := by
  have h := hw.renegotiates hs
  cases hb : w.viewAction Packet.timer CoreMachine.timerCall a with
  | none =>
    rw [hb] at h
    have hsame : w'.renegotiation = w.renegotiation := h
    rw [hsame]
    refine .same fun r nowMs p ha hcan => ?_
    subst ha
    simp [Net.viewAction, CoreMachine.timerCall, hcan] at hb
  | some b =>
    rw [hb] at h
    obtain ⟨⟨v, u⟩, hstep, hv⟩ := Option.map_eq_some_iff.mp h
    have hv' : v = w'.renegotiation := hv
    subst hv'
    cases a with
    | call r k =>
      obtain ⟨c, hk, rfl⟩ := Option.map_eq_some_iff.mp hb
      simp only [Net.step, Option.map_eq_some_iff, Prod.mk.injEq] at hstep
      obtain ⟨⟨t, tlvs, u'⟩, hc, heq, -⟩ := hstep
      rw [← heq]
      cases k with
      | proposeTimers nowMs p =>
        simp only [CoreMachine.timerCall] at hk
        split_ifs at hk with hcan
        obtain rfl := Option.some.inj hk
        simp only [negotiator] at hc
        split_ifs at hc
        simp only [Option.some.injEq, Prod.mk.injEq] at hc
        obtain ⟨rfl, rfl, -⟩ := hc
        exact .propose r nowMs p rfl hcan
      | timer nowMs timerId =>
        cases timerId with
        | renegotiationTimeout =>
          simp only [CoreMachine.timerCall] at hk
          split_ifs at hk with hpast
          obtain rfl := Option.some.inj hk
          simp only [negotiator, Option.some.injEq, Prod.mk.injEq] at hc
          obtain ⟨rfl, rfl, -⟩ := hc
          exact .expire r nowMs rfl hpast
        | serverMsr | clientProbe | disconnect => simp [CoreMachine.timerCall] at hk
      | beginHandshake | send | close | pathChanged => simp [CoreMachine.timerCall] at hk
    | deliver r i x =>
      obtain ⟨j, hj, rfl⟩ := Option.map_eq_some_iff.mp hb
      simp only [Net.step, Option.map_eq_some_iff, Prod.mk.injEq] at hstep
      obtain ⟨tlv, htlv, heq, -⟩ := hstep
      obtain ⟨tlv', hseen, -⟩ := Option.map_eq_some_iff.mp hj
      obtain ⟨p, hp, ht⟩ := Option.bind_eq_some_iff.mp hseen
      have hle := Net.sees_le Packet.timer hj
      have hthere := filterMap_getElem? hp ht
      rw [Net.sees_some hp ht] at hj
      rw [Option.some.inj hj] at hthere
      have hsame : tlv' = tlv := Option.some.inj (hthere.symm.trans htlv)
      subst hsame
      rw [← heq]
      exact .recv r i j x p tlv' rfl hp ht hle htlv
    | drop r i =>
      obtain ⟨j, -, rfl⟩ := Option.map_eq_some_iff.mp hb
      simp only [Net.step, Option.map_eq_some_iff, Prod.mk.injEq] at hstep
      obtain ⟨tlv, -, heq, -⟩ := hstep
      rw [← heq]
      exact .drop r i j rfl
    | duplicate r i =>
      obtain ⟨j, -, rfl⟩ := Option.map_eq_some_iff.mp hb
      simp only [Net.step, Option.map_eq_some_iff, Prod.mk.injEq] at hstep
      obtain ⟨tlv, htlv, heq, -⟩ := hstep
      rw [← heq]
      exact .duplicate r i j tlv rfl htlv

/-! ### What is read of a renegotiation in a run over bytes -/

/-- The timer TLVs a machine works off in a datagram. -/
def CoreMachine.timerTlvs (m : CoreMachine) (bytes : Bytes) : List TimerTlv :=
  (ownFrame m bytes).elim [] timersRead

theorem readTimerTlv_encode (t : TimerTlv) : readTimerTlv t.encode = .ok (some t) := by
  cases t with
  | proposal id p =>
    have hkind : (TimerTlv.proposal id p).encode.kind = tlvTimerProposal := rfl
    rw [readTimerTlv, if_pos hkind, TimerTlv.encode, decodeTimerProposalTlv_encode]
  | ack id accepted =>
    have hkind : (TimerTlv.ack id accepted).encode.kind = tlvTimerAck := rfl
    have hother : ¬ (TimerTlv.ack id accepted).encode.kind = tlvTimerProposal := by
      rw [hkind]
      decide
    rw [readTimerTlv, if_neg hother, if_pos hkind, TimerTlv.encode, decodeTimerAckTlv_encode]

theorem timerTlvs_bytes (m : CoreMachine) {p : Packet} (hp : p.Small) :
    m.timerTlvs (p.bytes m.cid) = p.timer.toList := by
  have hown : ownFrame m (p.bytes m.cid) = some (p.frame m.cid) :=
    ownFrame_eq_some.mpr ⟨Packet.decode_bytes hp m.cid, not_foreign m p⟩
  rw [CoreMachine.timerTlvs, hown, Option.elim_some]
  cases p with
  | msr acked next timer =>
    have hlong : ((Packet.msr acked next timer).frame m.cid).messageType = .msr ∧
        16 ≤ ((Packet.msr acked next timer).frame m.cid).payload.length :=
      ⟨rfl, (encodeMsrPayload_length acked next).ge⟩
    rw [timersRead, if_pos hlong]
    cases timer with
    | none => rfl
    | some t =>
      show (readTimerTlvs [t.encode]).1 = [t]
      rw [readTimerTlvs, readTimerTlv_encode]
      rfl
  | control t =>
    have hshort : ¬ (((Packet.control t).frame m.cid).messageType = .msr ∧
        16 ≤ ((Packet.control t).frame m.cid).payload.length) := fun h => by
      simp [Packet.frame, WireFrame.new, Packet.payload] at h
    exact if_neg hshort
  | requestRange | data | fragment =>
    exact timersRead_other (by simp [Packet.frame, WireFrame.new, Packet.messageType])

/-- A timer TLV that the machine at `r` works off at a step. -/
def Reads (r : Role) (t : Taken World Move (Option CallResult)) (tlv : TimerTlv) : Prop :=
  ∃ i x bytes, t.input = .deliver r i x ∧ (t.pre.inbox r)[i]? = some bytes ∧
    tlv ∈ (t.pre.core r).timerTlvs bytes

/-- The machine at `r` commits its own proposal: an ack reaches it that accepts what it has
pending. -/
def CommitsOwn (r : Role) (t : Taken World Move (Option CallResult))
    (pending : PendingRenegotiation) : Prop :=
  (t.pre.core r).pendingLocalProposal = some pending ∧ Reads r t (.ack pending.proposalId true)

/-- The machine at `r` accepts a proposal of its peer and sets its configuration to it. -/
def Accepts (r : Role) (t : Taken World Move (Option CallResult)) (id : UInt32)
    (p : TimerProposal) : Prop :=
  Reads r t (.proposal id p) ∧ (validateTimerProposal (t.pre.core r).cfg p).isOk ∧
    (t.post.core r).cfg = p.toConfig

/-- What the machine at `r` proposes at a step. -/
def proposedAt (r : Role) (t : Taken World Move (Option CallResult)) : Option TimerProposal :=
  match t.input with
  | .call q (.proposeTimers _ p) => if q = r ∧ (t.pre.core q).canPropose p then some p else none
  | _ => none

/-- The proposals the machine at `r` has made, in order. -/
def proposed (r : Role) (h : WorldHistory) : List TimerProposal := h.filterMap (proposedAt r)

end Todero.Core
