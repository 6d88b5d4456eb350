import Todero.Commitment
import Todero.Emissions
import Todero.Outgoing

/-! What a datagram that `on_datagram` returns an error for leaves behind. -/
namespace Todero.Core
open Todero.Wire Transition

/-- The ways in which the handler of a frame fails, each with the machine it leaves. -/
inductive Refused (m : CoreMachine) (frame : WireFrame) : CoreError → CoreMachine → Prop
  | shortMsr : frame.messageType = .msr → ¬ 16 ≤ frame.payload.length →
      Refused m frame .malformedMsr m
  | timerTlv {e : CoreError} : frame.messageType = .msr → 16 ≤ frame.payload.length →
      (readTimerTlvs frame.tlvs).2 = some e →
      Refused m frame e (m.withTimers ((readTimerTlvs frame.tlvs).1.foldl Timers.on m.timers))
  | shortRange : frame.messageType = .requestRange → Refused m frame .malformedRequestRange m
  | malformed : frame.messageType ≠ .msr → Refused m frame .malformedData m
  | fragment {a : Arrival} : frame.messageType = .fragment →
      fragmentArrival frame.payload = some a → m.rx.rejects a →
      Refused m frame .malformedData (m.withRx (m.rx.arrive a).1)

section Dispatch
variable {nowMs : UInt64} {src : UInt32} {frame : WireFrame} {c c' : Ctx} {e : CoreError}

theorem handleMsr_refused (hm : frame.messageType = .msr)
    (h : handleMsr nowMs src frame c = .error e c') : Refused c.self frame e c'.self := by
  cases hdec : decodeMsrPayload frame.payload with
  | none =>
    have hshort := decodeMsrPayload_short hdec
    simp only [handleMsr, hdec, throw_run] at h
    cases h
    exact .shortMsr hm hshort
  | some d =>
    have hlong := decodeMsrPayload_long hdec
    simp only [handleMsr, hdec, bind_run, handleTimerTlvs_read] at h
    cases hbad : (readTimerTlvs frame.tlvs).2 with
    | none => simp [hbad, handleMsrSignal_run] at h
    | some e' =>
      simp only [hbad] at h
      cases h
      rw [Ctx.timedAll_self]
      exact .timerTlv hm hlong hbad

theorem handleRequestRange_refused (hm : frame.messageType = .requestRange)
    (h : handleRequestRange src frame.payload c = .error e c') :
    Refused c.self frame e c'.self := by
  obtain ⟨-, hrun⟩ | ⟨ps, hrun⟩ | ⟨d, ps, -, -, hrun⟩ :=
    handleRequestRange_run src frame.payload c <;> rw [hrun] at h <;> cases h
  · exact .shortRange hm
  · rw [Ctx.sendAll_self]
    exact .malformed (by simp [hm])

theorem handleData_refused (hm : frame.messageType = .data)
    (h : handleData frame.payload c = .error e c') : Refused c.self frame e c'.self := by
  by_cases hlen : 8 ≤ frame.payload.length
  · rw [handleData_run c hlen] at h
    cases h
  · have hshort : frame.payload.length < 8 := by omega
    simp only [handleData, bind_run, hshort, if_true, throw_run] at h
    cases h
    exact .malformed (by simp [hm])

theorem handleFragment_refused (hm : frame.messageType = .fragment)
    (h : handleFragment frame.payload c = .error e c') : Refused c.self frame e c'.self := by
  by_cases hlen : 12 ≤ frame.payload.length
  · rw [handleFragment_run c hlen] at h
    cases ha : fragmentArrival frame.payload with
    | none =>
      simp only [ha] at h
      split_ifs at h
      cases h
      exact .malformed (by simp [hm])
    | some a =>
      simp only [ha] at h
      split_ifs at h with hrej
      cases h
      exact .fragment hm ha hrej
  · have hshort : frame.payload.length < fragmentHeaderLen := by
      simp only [fragmentHeaderLen]
      omega
    simp only [handleFragment, bind_run, hshort, if_true, throw_run] at h
    cases h
    exact .malformed (by simp [hm])

theorem dispatch_refused (h : dispatch nowMs src frame c = .error e c') :
    Refused c.self frame e c'.self := by
  cases hm : frame.messageType with
  | clientHello => simp [dispatch_clientHello nowMs src c hm] at h
  | serverHello => simp [dispatch_serverHello nowMs src c hm] at h
  | helloAck => simp [dispatch_helloAck nowMs src c hm] at h
  | msr =>
    rw [dispatch_msr nowMs src c hm] at h
    exact handleMsr_refused hm h
  | requestRange =>
    rw [dispatch_requestRange nowMs src c hm] at h
    split_ifs at h
    exact handleRequestRange_refused hm h
  | data =>
    rw [dispatch_data nowMs src c hm] at h
    split_ifs at h
    exact handleData_refused hm h
  | fragment =>
    rw [dispatch_fragment nowMs src c hm] at h
    split_ifs at h
    exact handleFragment_refused hm h
  | close => simp [dispatch_close nowMs src c (.inl hm)] at h
  | error => simp [dispatch_close nowMs src c (.inr hm)] at h

end Dispatch

/-- A call that fails: the frame is of another cid, or its handler fails once the machine
has noted where the frame came from and when. -/
theorem onDatagram_refused {m : CoreMachine} {nowMs : UInt64} {src : UInt32} {bytes : Bytes}
    {e : CoreError} (h : (onDatagram m nowMs src bytes).2 = .error e) :
    (ownFrame m bytes = none ∧ (onDatagram m nowMs src bytes).1 = m ∧
        ∃ frame : WireFrame, e = .cidMismatch m.cid frame.cid) ∨
      ∃ frame, ownFrame m bytes = some frame ∧
        Refused (Ctx.received nowMs src ⟨m, {}⟩).self frame e (onDatagram m nowMs src bytes).1 := by
  cases hown : ownFrame m bytes with
  | none =>
    refine .inl ⟨rfl, (onDatagram_of_no_frame hown nowMs src).1, ?_⟩
    cases hd : WireFrame.decode bytes with
    | error err => simp [onDatagram, hd] at h
    | ok frame =>
      have hf : foreign m frame := by
        by_contra hf
        rw [ownFrame_eq_some.mpr ⟨hd, hf⟩] at hown
        cases hown
      simp only [onDatagram, hd, CoreMachine.call, onFrame_run, hf, if_true] at h
      cases h
      exact ⟨frame, rfl⟩
  | some frame =>
    obtain ⟨hd, hf⟩ := ownFrame_eq_some.mp hown
    refine .inr ⟨frame, rfl, ?_⟩
    rw [onDatagram_run hd hf] at h ⊢
    cases hr : dispatch nowMs src frame (Ctx.received nowMs src ⟨m, {}⟩) with
    | ok a c => simp [hr] at h
    | error e' c =>
      simp only [hr, Except.error.injEq] at h
      subst h
      exact dispatch_refused hr

/-! ### What was agreed -/

/-- From `m` to `m'` nothing that was agreed or exchanged has changed. -/
structure CoreMachine.Keeps (m m' : CoreMachine) : Prop where
  state : m'.state = m.state
  cfg : m'.cfg = m.cfg
  pendingLocalProposal : m'.pendingLocalProposal = m.pendingLocalProposal
  outboundMessages : m'.outboundMessages = m.outboundMessages
  receivedIds : m'.receivedIds = m.receivedIds
  receivedBuffer : m'.receivedBuffer = m.receivedBuffer
  receivedFragments : m'.receivedFragments = m.receivedFragments
  lastOrderedRx : m'.lastOrderedRx = m.lastOrderedRx
  lastRequestedEnd : m'.lastRequestedEnd = m.lastRequestedEnd

/-- An MSR whose timer TLVs, up to the first malformed one, ack the pending proposal or
lead to another configuration. -/
def commitsInPart (m : CoreMachine) (bytes : Bytes) : Bool :=
  match msrTlvs m bytes with
  | none => false
  | some tlvs =>
    (readTimerTlvs tlvs).1.any (TimerTlv.settles m.pendingLocalProposal) ||
      (readTimerTlvs tlvs).1.foldl CoreConfig.offered m.cfg ≠ m.cfg

/-- A fragment that is refused leaves the buffers as they are. -/
theorem Rx.Ok.refused {r : Rx} (hr : r.Ok) {a : Arrival} (ha : a.Sane) (hrej : r.rejects a) :
    (r.arrive a).1 = r := by
  obtain ⟨id, idx, total, chunk, rfl, htot⟩ := hr.rejects ha hrej
  simp only [Rx.arrive]
  split_ifs <;> rfl

theorem Timers.foldl_on_kept (ts : List TimerTlv) (t : Timers) :
    ((ts.foldl Timers.on t).cfg = t.cfg ∧ (ts.foldl Timers.on t).pending = t.pending) ↔
      (∀ u ∈ ts, u.settles t.pending = false) ∧ ts.foldl CoreConfig.offered t.cfg = t.cfg := by
  rw [and_comm, Timers.foldl_on_eq_iff]
  refine and_congr_right fun hquiet => ?_
  rw [Timers.foldl_on_cfg hquiet]

theorem msrTlvs_of_frame {m : CoreMachine} {bytes : Bytes} {frame : WireFrame}
    (hown : ownFrame m bytes = some frame) :
    msrTlvs m bytes = if frame.messageType = .msr ∧ 16 ≤ frame.payload.length then some frame.tlvs
      else none := by
  rw [msrTlvs, hown, Option.bind_some]

/-- Where a datagram came from, and when, is noted in no field of the agreement. -/
theorem Ctx.received_keeps (m : CoreMachine) (nowMs : UInt64) (src : UInt32) :
    m.Keeps (Ctx.received nowMs src ⟨m, {}⟩).self :=
  ⟨rfl, rfl, rfl, rfl, rfl, rfl, rfl, rfl, rfl⟩

theorem commitsInPart_other {m : CoreMachine} {bytes : Bytes} (h : msrTlvs m bytes = none) :
    commitsInPart m bytes = false := by
  rw [commitsInPart, h]

theorem keeps_iff {m : CoreMachine} (hr : m.rx.Ok) {nowMs : UInt64} {src : UInt32} {bytes : Bytes}
    {e : CoreError} (h : (onDatagram m nowMs src bytes).2 = .error e) :
    m.Keeps (onDatagram m nowMs src bytes).1 ↔ commitsInPart m bytes = false := by
  obtain ⟨hown, hsame, -⟩ | ⟨frame, hown, hrefused⟩ := onDatagram_refused h
  · rw [hsame]
    refine iff_of_true ⟨rfl, rfl, rfl, rfl, rfl, rfl, rfl, rfl, rfl⟩ (commitsInPart_other ?_)
    rw [msrTlvs, hown, Option.bind_none]
  · have hother : ¬ (frame.messageType = .msr ∧ 16 ≤ frame.payload.length) →
        commitsInPart m bytes = false := by
      intro hno
      exact commitsInPart_other (by rw [msrTlvs_of_frame hown, if_neg hno])
    have hreceived := Ctx.received_keeps m nowMs src
    generalize (onDatagram m nowMs src bytes).1 = m' at hrefused ⊢
    cases hrefused with
    | shortMsr _ hshort => exact iff_of_true hreceived (hother fun hlong => hshort hlong.2)
    | shortRange htype => exact iff_of_true hreceived (hother (by simp [htype]))
    | malformed htype => exact iff_of_true hreceived (hother (by simp [htype]))
    | @fragment a htype harr hrej =>
      have hsame : (m.rx.arrive a).1 = m.rx := hr.refused (fragmentArrival_sane harr) hrej
      have hkept : ((Ctx.received nowMs src ⟨m, {}⟩).self.withRx
          ((Ctx.received nowMs src ⟨m, {}⟩).self.rx.arrive a).1) =
          (Ctx.received nowMs src ⟨m, {}⟩).self :=
        (congrArg (Ctx.received nowMs src ⟨m, {}⟩).self.withRx hsame).trans (by rfl)
      rw [hkept]
      exact iff_of_true hreceived (hother (by simp [htype]))
    | timerTlv htype hlong hbad =>
      have htlvs : msrTlvs m bytes = some frame.tlvs := by
        rw [msrTlvs_of_frame hown, if_pos ⟨htype, hlong⟩]
      have hkept : m.Keeps ((Ctx.received nowMs src ⟨m, {}⟩).self.withTimers
          ((readTimerTlvs frame.tlvs).1.foldl Timers.on m.timers)) ↔
          ((readTimerTlvs frame.tlvs).1.foldl Timers.on m.timers).cfg = m.timers.cfg ∧
          ((readTimerTlvs frame.tlvs).1.foldl Timers.on m.timers).pending = m.timers.pending :=
        ⟨fun hk => ⟨hk.cfg, hk.pendingLocalProposal⟩,
          fun hk => { hreceived with cfg := hk.1, pendingLocalProposal := hk.2 }⟩
      refine hkept.trans ((Timers.foldl_on_kept _ _).trans ?_)
      simp only [commitsInPart, htlvs, Bool.or_eq_false_iff, List.any_eq_false, ne_eq,
        decide_eq_false_iff_not, not_not, Bool.not_eq_true]
      rfl

/-- A datagram that is refused changes nothing that was agreed, exactly if it is no MSR
that commits in part. -/
theorem refused_keeps_iff {role : Role} {cid : UInt64} {cfg : CoreConfig} {h : History}
    {m : CoreMachine} (hrun : Run CoreMachine.step (CoreMachine.new role cid cfg) h m)
    {nowMs : UInt64} {src : UInt32} {bytes : Bytes} {e : CoreError}
    (herr : (onDatagram m nowMs src bytes).2 = .error e) :
    m.Keeps (onDatagram m nowMs src bytes).1 ↔ commitsInPart m bytes = false := by
  obtain ⟨ps, hd⟩ := delivered_of_run hrun
  exact keeps_iff hd.ok herr

/-- A `Data` frame without room for an id, and an MSR with a good proposal before a
malformed one. -/
def shortData : Bytes := (WireFrame.new .data 0 7 [] []).bytes
def halfOffer : Bytes :=
  (WireFrame.new .msr 0 7 (encodeMsrPayload 0 0)
    [encodeTimerProposalTlv 1 fasterTimers, ⟨tlvTimerProposal, []⟩]).bytes

theorem shortData_keeps :
    ∃ h m e, exec CoreMachine.step (CoreMachine.new .server 7 .default) greeted = some (h, m) ∧
      (onDatagram m 1 0 shortData).2 = .error e ∧
      (m.Keeps (onDatagram m 1 0 shortData).1 ↔ commitsInPart m shortData = false) := by
  have hsome : ((exec CoreMachine.step (CoreMachine.new .server 7 .default) greeted).any fun x =>
      (onDatagram x.2 1 0 shortData).2 = .error .malformedData) = true := by decide +kernel
  obtain ⟨⟨h, m⟩, hexec, hx⟩ := (Option.any_eq_true _ _).mp hsome
  exact ⟨h, m, _, hexec, of_decide_eq_true hx,
    refused_keeps_iff (Run.of_exec hexec) (of_decide_eq_true hx)⟩

/-- The good proposal is in force, and its ack is gone with the error. -/
theorem halfOffer_commits :
    ¬ ∀ (role : Role) (cid : UInt64) (cfg : CoreConfig) (h : History) (m : CoreMachine),
      Run CoreMachine.step (CoreMachine.new role cid cfg) h m →
        ∀ (nowMs : UInt64) (src : UInt32) (bytes : Bytes) (e : CoreError),
          (onDatagram m nowMs src bytes).2 = .error e →
            m.Keeps (onDatagram m nowMs src bytes).1 := by
  intro hclaim
  have hsome : ((exec CoreMachine.step (CoreMachine.new .server 7 .default) greeted).any fun x =>
      (onDatagram x.2 1 0 halfOffer).2 = .error .malformedTimerProposal ∧
        (onDatagram x.2 1 0 halfOffer).1.cfg ≠ x.2.cfg) = true := by decide +kernel
  obtain ⟨⟨h, m⟩, hexec, hx⟩ := (Option.any_eq_true _ _).mp hsome
  obtain ⟨herr, hmoved⟩ := of_decide_eq_true hx
  exact hmoved (hclaim .server 7 .default h m (Run.of_exec hexec) 1 0 halfOffer _ herr).cfg

end Todero.Core
