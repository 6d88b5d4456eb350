import Todero.ReceiverInv

/-! What one datagram does to the parts of a machine that only some handlers touch:
the outbox, the receive buffers with the deliveries, and the lifecycle with the
`Disconnected` events. -/
namespace Todero.Core
open Todero.Wire

/-- The part of a machine that only `on_api_send` changes. -/
structure Fixed where
  role : Role
  cid : UInt64
  nextOutboundId : Nat
  outboundMessages : Std.TreeMap Nat Bytes

def CoreMachine.fixed (m : CoreMachine) : Fixed :=
  ⟨m.role, m.cid, m.nextOutboundId, m.outboundMessages⟩

def Event.isDelivery : Event → Bool
  | .messageDelivered _ | .messageReceived _ _ => true
  | _ => false

def CoreOutput.deliveries (out : CoreOutput) : List Event := out.events.filter Event.isDelivery
def CoreOutput.disconnects (out : CoreOutput) : Nat := out.events.count .disconnected

/-- What the caller of an operation gets to see; nothing when it fails. -/
def CallResult.output : CallResult → CoreOutput
  | .ok out => out
  | .error _ => {}

@[simp] theorem CallResult.output_ok (out : CoreOutput) :
    CallResult.output (.ok out) = out := rfl
@[simp] theorem CallResult.output_error (e : CoreError) :
    CallResult.output (.error e) = {} := rfl

/-- The state a call has reached, whether it failed or not. -/
def reached : EStateM.Result CoreError Ctx Unit → Ctx
  | .ok _ c => c
  | .error _ c => c

/-- From `c` to `c'` nothing was sent by the application, nothing received, and the
session was neither lost nor revived. -/
structure Ctx.Frame (c c' : Ctx) : Prop where
  fixed : c'.self.fixed = c.self.fixed
  rx : c'.self.rx = c.self.rx
  deliveries : c'.out.deliveries = c.out.deliveries
  lost : c'.self.state = .lost ↔ c.self.state = .lost
  disconnects : c'.out.disconnects = c.out.disconnects

namespace Ctx.Frame
variable {c c' c'' : Ctx}

theorem refl (c : Ctx) : Frame c c := ⟨rfl, rfl, rfl, Iff.rfl, rfl⟩

/-- The later move first, as the contexts are nested. -/
theorem after (h' : Frame c' c'') (h : Frame c c') : Frame c c'' :=
  ⟨h'.fixed.trans h.fixed, h'.rx.trans h.rx, h'.deliveries.trans h.deliveries,
    h'.lost.trans h.lost, h'.disconnects.trans h.disconnects⟩

theorem self {m : CoreMachine} (hfixed : m.fixed = c.self.fixed) (hrx : m.rx = c.self.rx)
    (hlost : m.state = .lost ↔ c.self.state = .lost) : Frame c { c with self := m } :=
  ⟨hfixed, hrx, rfl, hlost, rfl⟩

theorem tell (c : Ctx) {e : Event} (hdel : e.isDelivery = false) (hdis : e ≠ .disconnected) :
    Frame c (c.tell e) where
  fixed := rfl
  rx := rfl
  deliveries := by simp [Ctx.tell, CoreOutput.deliveries, hdel]
  lost := Iff.rfl
  disconnects := by simp [Ctx.tell, CoreOutput.disconnects, hdis]

theorem send (c : Ctx) (pathId : UInt32) (p : Packet) : Frame c (c.send pathId p) :=
  ⟨rfl, rfl, rfl, Iff.rfl, rfl⟩

theorem schedule (c : Ctx) (id : TimerId) (d : UInt64) : Frame c (c.schedule id d) :=
  ⟨rfl, rfl, rfl, Iff.rfl, rfl⟩

theorem sendAll (src : UInt32) (ps : List Packet) (c : Ctx) : Frame c (c.sendAll src ps) := by
  induction ps generalizing c with
  | nil => exact refl c
  | cons p ps ih => exact (ih _).after (send c src p)

theorem sendIf (c : Ctx) (p : Prop) [Decidable p] (pathId : UInt32) (packet : Packet) :
    Frame c (c.sendIf p pathId packet) := by
  unfold Ctx.sendIf
  split_ifs
  · exact send c pathId packet
  · exact refl c

theorem tellIf (c : Ctx) (p : Prop) [Decidable p] {e : Event} (hdel : e.isDelivery = false)
    (hdis : e ≠ .disconnected) : Frame c (c.tellIf p e) := by
  unfold Ctx.tellIf
  split_ifs
  · exact tell c hdel hdis
  · exact refl c

theorem touched (nowMs : UInt64) (c : Ctx) : Frame c (c.touched nowMs) :=
  self rfl rfl Iff.rfl

theorem validated (nowMs : UInt64) (c : Ctx) : Frame c (c.validated nowMs) :=
  self rfl rfl Iff.rfl

theorem received (nowMs : UInt64) (src : UInt32) (c : Ctx) : Frame c (c.received nowMs src) :=
  (validated nowMs _).after ((touched nowMs _).after (self rfl rfl Iff.rfl))

theorem noted (nowMs : UInt64) (src : UInt32) (source : MsrSource) (c : Ctx) :
    Frame c (c.noted nowMs src source) := by
  refine (tellIf _ _ rfl (by simp)).after ((sendIf _ _ _ _).after (self rfl rfl ?_))
  by_cases h : c.self.state = .reactivating <;> simp [afterServerMsr, h]

theorem requested (src : UInt32) (next : Nat) (c : Ctx) : Frame c (c.requested src next) := by
  unfold Ctx.requested
  split_ifs
  · exact (tell _ rfl (by simp)).after ((send _ _ _).after (self rfl rfl Iff.rfl))
  · exact refl c

theorem signalled (nowMs : UInt64) (src : UInt32) (next : Nat) (source : MsrSource) (c : Ctx) :
    Frame c (c.signalled nowMs src next source) := by
  unfold Ctx.signalled
  split
  · exact (requested src next _).after (noted nowMs src source c)
  · exact (requested src next _).after (self rfl rfl Iff.rfl)

theorem piggybacked (nowMs : UInt64) (src : UInt32) (frame : WireFrame) (c : Ctx) :
    Frame c (c.piggybacked nowMs src frame) := by
  unfold Ctx.piggybacked
  split_ifs
  · split
    · exact refl c
    · exact signalled nowMs src _ _ c
  · exact refl c

theorem enter {state : LifecycleState} (h : state ≠ .lost) (hc : c.self.state ≠ .lost) :
    Frame c (c.enter state) :=
  self rfl rfl (iff_of_false h hc)

theorem serverTimers (nowMs : UInt64) (c : Ctx) : Frame c (c.serverTimers nowMs) :=
  (schedule _ _ _).after ((schedule _ _ _).after (touched nowMs c))

theorem clientTimers (nowMs : UInt64) (c : Ctx) : Frame c (c.clientTimers nowMs) :=
  (schedule _ _ _).after ((schedule _ _ _).after ((touched nowMs _).after (self rfl rfl Iff.rfl)))

theorem clientHello (nowMs : UInt64) (src : UInt32) (c : Ctx) :
    Frame c (c.clientHello nowMs src) := by
  unfold Ctx.clientHello
  split_ifs with h
  · exact (serverTimers nowMs _).after ((send _ _ _).after ((tell _ rfl (by simp)).after
      (enter (by simp) (by simp [h.2]))))
  · exact refl c

theorem serverHello (nowMs : UInt64) (src : UInt32) (c : Ctx) :
    Frame c (c.serverHello nowMs src) := by
  unfold Ctx.serverHello
  split_ifs with h hr
  · exact (clientTimers nowMs _).after ((tell _ rfl (by simp)).after ((send _ _ _).after
      (enter (by simp) (by simp [hr]))))
  · have hpre : c.self.state = .preHandshake := h.2.resolve_right hr
    exact (clientTimers nowMs _).after ((tell _ rfl (by simp)).after ((send _ _ _).after
      (enter (by simp) (by simp [hpre]))))
  · exact refl c

theorem helloAck (nowMs : UInt64) (c : Ctx) : Frame c (c.helloAck nowMs) := by
  unfold Ctx.helloAck
  split_ifs with h
  · exact (serverTimers nowMs _).after ((tell _ rfl (by simp)).after
      (enter (by simp) (by simp [h.2])))
  · exact refl c

theorem setCfg (cfg : CoreConfig) (c : Ctx) : Frame c (c.setCfg cfg) := self rfl rfl Iff.rfl

theorem resolved (c : Ctx) : Frame c c.resolved := self rfl rfl Iff.rfl

theorem answered (src id : UInt32) (p : TimerProposal) (c : Ctx) :
    Frame c (c.answered src id p) := by
  simp only [Ctx.answered]
  split_ifs
  · exact (tell _ rfl (by simp)).after ((setCfg _ _).after (send c src _))
  · exact (tell _ rfl (by simp)).after (send c src _)

theorem acked (id : UInt32) (accepted : Bool) (c : Ctx) : Frame c (c.acked id accepted) := by
  unfold Ctx.acked
  split
  · exact refl c
  · split_ifs
    · exact (resolved _).after ((tell _ rfl (by simp)).after (setCfg _ c))
    · exact (resolved _).after (tell _ rfl (by simp))
    · exact refl c

theorem timerProposal (src : UInt32) (tlv : Tlv) (c : Ctx) :
    Frame c (reached (handleTimerProposal src tlv c)) := by
  rw [handleTimerProposal_run]
  split
  · exact refl c
  · exact answered src _ _ c

theorem timerAck (tlv : Tlv) (c : Ctx) : Frame c (reached (handleTimerAck tlv c)) := by
  rw [handleTimerAck_run]
  split
  · exact refl c
  · exact acked _ _ c

theorem timerTlv (src : UInt32) (tlv : Tlv) (c : Ctx) :
    Frame c (reached (handleTimerTlv src tlv c)) := by
  rw [handleTimerTlv, ite_run, ite_run]
  split_ifs
  · exact timerProposal src tlv c
  · exact timerAck tlv c
  · exact refl c

/-- The timer TLVs of an MSR, up to the end or to the first one that is malformed. -/
theorem timerTlvs (src : UInt32) (tlvs : List Tlv) (c : Ctx) :
    Frame c (reached (handleTimerTlvs src tlvs c)) := by
  induction tlvs generalizing c with
  | nil => exact refl c
  | cons tlv tlvs ih =>
    have hone := timerTlv src tlv c
    rw [handleTimerTlvs, bind_run]
    cases hr : handleTimerTlv src tlv c with
    | ok a c' =>
      rw [hr] at hone
      exact (ih c').after hone
    | error e c' =>
      rw [hr] at hone
      exact hone

end Ctx.Frame

/-! ### A whole datagram -/

/-- The message part a frame brings, if it is well formed. -/
def frameArrival (frame : WireFrame) : Option Arrival :=
  match frame.messageType with
  | .data => if 8 ≤ frame.payload.length then some (dataArrival frame.payload) else none
  | .fragment => if 12 ≤ frame.payload.length then fragmentArrival frame.payload else none
  | _ => none

def closing (frame : WireFrame) : Prop :=
  frame.messageType = .close ∨ frame.messageType = .error

instance (frame : WireFrame) : Decidable (closing frame) := by
  unfold closing
  infer_instance

/-- `handle_data` and `handle_fragment` run only while the machine is established. -/
def arrivalIn (m : CoreMachine) (frame : WireFrame) : Option Arrival :=
  if m.state = .established then frameArrival frame else none

def Rx.arriveOpt (r : Rx) : Option Arrival → Rx × List Bytes
  | none => (r, [])
  | some a => r.arrive a

/-- What a call has done by the time it has reached `c'`: `a` has arrived, and the
session is over if `gone` says so. -/
structure Ctx.Effect (a : Option Arrival) (gone : Prop) [Decidable gone] (c c' : Ctx) : Prop where
  fixed : c'.self.fixed = c.self.fixed
  rx : c'.self.rx = (c.self.rx.arriveOpt a).1
  deliveries : c'.out.deliveries =
    c.out.deliveries ++ deliveryEvents (c.self.rx.last + 1) (c.self.rx.arriveOpt a).2
  lost : c'.self.state = .lost ↔ c.self.state = .lost ∨ gone
  disconnects : c'.out.disconnects = c.out.disconnects + if gone then 1 else 0

theorem deliveryEvents_isDelivery (k : Nat) (ps : List Bytes) :
    (deliveryEvents k ps).filter Event.isDelivery = deliveryEvents k ps := by
  induction ps generalizing k with
  | nil => rfl
  | cons p ps ih => rw [deliveryEvents, List.filter_cons_of_pos rfl, List.filter_cons_of_pos rfl, ih]

theorem deliveryEvents_disconnects (k : Nat) (ps : List Bytes) :
    (deliveryEvents k ps).count .disconnected = 0 := by
  induction ps generalizing k with
  | nil => rfl
  | cons p ps ih => simp [deliveryEvents, ih]

namespace Ctx.Effect
variable {a : Option Arrival} {gone : Prop} [Decidable gone] {c c' c'' : Ctx}

theorem of_frame (h : Frame c c') (hgone : ¬ gone) : Effect none gone c c' where
  fixed := h.fixed
  rx := h.rx
  deliveries := by simp [h.deliveries, Rx.arriveOpt, deliveryEvents]
  lost := by rw [h.lost]; tauto
  disconnects := by simp [h.disconnects, hgone]

theorem before (h : Effect a gone c' c'') (h' : Frame c c') : Effect a gone c c'' where
  fixed := h.fixed.trans h'.fixed
  rx := by rw [h.rx, h'.rx]
  deliveries := by rw [h.deliveries, h'.deliveries, h'.rx]
  lost := by rw [h.lost, h'.lost]
  disconnects := by rw [h.disconnects, h'.disconnects]

theorem after (h' : Frame c' c'') (h : Effect a gone c c') : Effect a gone c c'' where
  fixed := h'.fixed.trans h.fixed
  rx := h'.rx.trans h.rx
  deliveries := h'.deliveries.trans h.deliveries
  lost := h'.lost.trans h.lost
  disconnects := h'.disconnects.trans h.disconnects

theorem arrive (a : Arrival) (hgone : ¬ gone) (c : Ctx) :
    Effect (some a) gone c (c.arrive a) where
  fixed := rfl
  rx := rfl
  deliveries := by
    simp [Ctx.arrive, Ctx.tellAll, CoreOutput.deliveries, deliveryEvents_isDelivery, Rx.arriveOpt]
  lost := by
    show c.self.state = .lost ↔ _
    tauto
  disconnects := by
    simp [Ctx.arrive, Ctx.tellAll, CoreOutput.disconnects, deliveryEvents_disconnects, hgone]

theorem closed (hgone : gone) (c : Ctx) : Effect none gone c c.closed where
  fixed := rfl
  rx := rfl
  deliveries := by
    simp [Ctx.closed, Ctx.tell, Ctx.enter, CoreOutput.deliveries, Event.isDelivery, Rx.arriveOpt,
      deliveryEvents]
  lost := by simp [Ctx.closed, Ctx.enter, hgone]
  disconnects := by simp [Ctx.closed, Ctx.tell, Ctx.enter, CoreOutput.disconnects, hgone]

end Ctx.Effect

/-- A rejected fragment delivers nothing. -/
theorem Rx.rejects_delivers {a : Arrival} {r : Rx} (h : r.rejects a) : (r.arrive a).2 = [] := by
  unfold Rx.rejects at h
  unfold Rx.arrive
  cases hin : r.ids.contains a.id <;> simp only [hin] at h ⊢
  · cases a with
    | data id p => simp at h
    | fragment id idx total chunk =>
      by_cases htot : (r.accFor id total).total = total
      · simp only [htot, ne_eq, not_true_eq_false, decide_false, Bool.false_or, Bool.not_false,
          Bool.true_and, Bool.and_eq_true, decide_eq_true_eq, Option.isNone_iff_eq_none] at h
        simp [htot, h.1, h.2]
      · simp [htot]
  · rfl

section Dispatch
variable (nowMs : UInt64) (src : UInt32) (frame : WireFrame) (c : Ctx)

theorem handleMsr_frame : Ctx.Frame c (reached (handleMsr nowMs src frame c)) := by
  cases hd : decodeMsrPayload frame.payload with
  | none =>
    simp only [handleMsr, hd, throw_run]
    exact .refl c
  | some d =>
    have htlvs := Ctx.Frame.timerTlvs src frame.tlvs c
    simp only [handleMsr, hd, bind_run]
    cases hr : handleTimerTlvs src frame.tlvs c with
    | ok a c' =>
      rw [hr] at htlvs
      simp only [handleMsrSignal_run]
      exact (Ctx.Frame.signalled nowMs src d.2 _ c').after htlvs
    | error e c' =>
      rw [hr] at htlvs
      exact htlvs

theorem handleRequestRange_frame (payload : Bytes) :
    Ctx.Frame c (reached (handleRequestRange src payload c)) := by
  obtain ⟨-, hrun⟩ | ⟨ps, hrun⟩ | ⟨d, ps, -, -, hrun⟩ := handleRequestRange_run src payload c
  · rw [hrun]
    exact .refl c
  · rw [hrun]
    exact .sendAll src ps c
  · rw [hrun]
    exact .sendAll src ps c

theorem handleData_effect (payload : Bytes) {gone : Prop} [Decidable gone] (hgone : ¬ gone) :
    Ctx.Effect (if 8 ≤ payload.length then some (dataArrival payload) else none) gone c
      (reached (handleData payload c)) := by
  by_cases hlen : 8 ≤ payload.length
  · rw [handleData_run c hlen, if_pos hlen]
    exact .arrive _ hgone c
  · have hshort : payload.length < 8 := by omega
    simp only [handleData, bind_run, hshort, if_true, throw_run, hlen, if_false]
    exact .of_frame (.refl c) hgone

theorem handleFragment_effect (payload : Bytes) {gone : Prop} [Decidable gone] (hgone : ¬ gone) :
    Ctx.Effect (if 12 ≤ payload.length then fragmentArrival payload else none) gone c
      (reached (handleFragment payload c)) := by
  by_cases hlen : 12 ≤ payload.length
  · rw [handleFragment_run c hlen, if_pos hlen]
    cases fragmentArrival payload with
    | none =>
      dsimp only
      split_ifs <;> exact .of_frame (.refl c) hgone
    | some a =>
      dsimp only
      split_ifs <;> exact .arrive a hgone c
  · have hshort : payload.length < fragmentHeaderLen := by
      simp only [fragmentHeaderLen]
      omega
    simp only [handleFragment, bind_run, hshort, if_true, throw_run, hlen, if_false]
    exact .of_frame (.refl c) hgone

theorem dispatch_effect :
    Ctx.Effect (arrivalIn c.self frame) (closing frame) c
      (reached (dispatch nowMs src frame c)) := by
  cases hm : frame.messageType with
  | clientHello =>
    rw [dispatch_clientHello nowMs src c hm, arrivalIn, frameArrival, hm, ite_self]
    exact .of_frame (.clientHello nowMs src c) (by simp [closing, hm])
  | serverHello =>
    rw [dispatch_serverHello nowMs src c hm, arrivalIn, frameArrival, hm, ite_self]
    exact .of_frame (.serverHello nowMs src c) (by simp [closing, hm])
  | helloAck =>
    rw [dispatch_helloAck nowMs src c hm, arrivalIn, frameArrival, hm, ite_self]
    exact .of_frame (.helloAck nowMs c) (by simp [closing, hm])
  | msr =>
    rw [dispatch_msr nowMs src c hm, arrivalIn, frameArrival, hm, ite_self]
    exact .of_frame (handleMsr_frame nowMs src frame c) (by simp [closing, hm])
  | requestRange =>
    rw [dispatch_requestRange nowMs src c hm, arrivalIn, frameArrival, hm, ite_self]
    refine .of_frame ?_ (by simp [closing, hm])
    split_ifs
    · exact handleRequestRange_frame src c frame.payload
    · exact .refl c
  | data =>
    rw [dispatch_data nowMs src c hm, arrivalIn, frameArrival, hm]
    by_cases hest : c.self.state = .established
    · rw [if_pos hest, if_pos hest]
      exact handleData_effect c frame.payload (by simp [closing, hm])
    · rw [if_neg hest, if_neg hest]
      exact .of_frame (.refl c) (by simp [closing, hm])
  | fragment =>
    rw [dispatch_fragment nowMs src c hm, arrivalIn, frameArrival, hm]
    by_cases hest : c.self.state = .established
    · rw [if_pos hest, if_pos hest]
      exact handleFragment_effect c frame.payload (by simp [closing, hm])
    · rw [if_neg hest, if_neg hest]
      exact .of_frame (.refl c) (by simp [closing, hm])
  | close =>
    rw [dispatch_close nowMs src c (.inl hm), arrivalIn, frameArrival, hm, ite_self]
    exact .closed (.inl hm) c
  | error =>
    rw [dispatch_close nowMs src c (.inr hm), arrivalIn, frameArrival, hm, ite_self]
    exact .closed (.inr hm) c

/-- A frame whose handler fails has neither delivered a message nor ended the session. -/
theorem dispatch_error {e : CoreError} {c' : Ctx} (h : dispatch nowMs src frame c = .error e c') :
    (c.self.rx.arriveOpt (arrivalIn c.self frame)).2 = [] ∧ ¬ closing frame := by
  cases hm : frame.messageType with
  | clientHello => simp [dispatch_clientHello nowMs src c hm] at h
  | serverHello => simp [dispatch_serverHello nowMs src c hm] at h
  | helloAck => simp [dispatch_helloAck nowMs src c hm] at h
  | msr | requestRange => simp [arrivalIn, frameArrival, hm, Rx.arriveOpt, closing]
  | data =>
    refine ⟨?_, by simp [closing, hm]⟩
    rw [dispatch_data nowMs src c hm] at h
    by_cases hest : c.self.state = .established
    · by_cases hlen : 8 ≤ frame.payload.length
      · simp [hest, handleData_run c hlen] at h
      · simp [arrivalIn, frameArrival, hm, hest, hlen, Rx.arriveOpt]
    · simp [arrivalIn, hest, Rx.arriveOpt]
  | fragment =>
    refine ⟨?_, by simp [closing, hm]⟩
    rw [dispatch_fragment nowMs src c hm] at h
    by_cases hest : c.self.state = .established
    · by_cases hlen : 12 ≤ frame.payload.length
      · cases ha : fragmentArrival frame.payload with
        | none => simp [arrivalIn, frameArrival, hm, hest, hlen, ha, Rx.arriveOpt]
        | some a =>
          by_cases hrej : c.self.rx.rejects a
          · simpa [arrivalIn, frameArrival, hm, hest, hlen, ha, Rx.arriveOpt] using
              Rx.rejects_delivers hrej
          · simp [hest, handleFragment_run c hlen, ha, hrej] at h
      · simp [arrivalIn, frameArrival, hm, hest, hlen, Rx.arriveOpt]
    · simp [arrivalIn, hest, Rx.arriveOpt]
  | close => simp [dispatch_close nowMs src c (.inl hm)] at h
  | error => simp [dispatch_close nowMs src c (.inr hm)] at h

end Dispatch

/-- The message part of a datagram that `m` looks at. -/
def arrivalOf (m : CoreMachine) (bytes : Bytes) : Option Arrival :=
  match WireFrame.decode bytes with
  | .error _ => none
  | .ok frame => if foreign m frame then none else arrivalIn m frame

/-- The datagram is a `Close` or `Error` frame of the machine's own cid. -/
def closes (m : CoreMachine) (bytes : Bytes) : Bool :=
  match WireFrame.decode bytes with
  | .error _ => false
  | .ok frame => ¬ foreign m frame ∧ closing frame

/-- What a datagram does, whatever its bytes are. -/
theorem onDatagram_effect (m : CoreMachine) (nowMs : UInt64) (src : UInt32) (bytes : Bytes) :
    (onDatagram m nowMs src bytes).1.fixed = m.fixed ∧
    (onDatagram m nowMs src bytes).1.rx = (m.rx.arriveOpt (arrivalOf m bytes)).1 ∧
    (onDatagram m nowMs src bytes).2.output.deliveries =
      deliveryEvents (m.lastOrderedRx + 1) (m.rx.arriveOpt (arrivalOf m bytes)).2 ∧
    ((onDatagram m nowMs src bytes).1.state = .lost ↔ m.state = .lost ∨ closes m bytes) ∧
    (onDatagram m nowMs src bytes).2.output.disconnects = if closes m bytes then 1 else 0 := by
  cases hd : WireFrame.decode bytes with
  | error e =>
    simp [onDatagram, hd, arrivalOf, closes, Rx.arriveOpt, deliveryEvents, CoreOutput.deliveries,
      CoreOutput.disconnects, Event.isDelivery]
  | ok frame =>
    by_cases hf : foreign m frame
    · simp [onDatagram, hd, CoreMachine.call, onFrame_run, hf, arrivalOf, closes, Rx.arriveOpt,
        deliveryEvents, CoreOutput.deliveries, CoreOutput.disconnects]
    · have hcloses : closes m bytes = decide (closing frame) := by simp [closes, hd, hf]
      have harr : arrivalOf m bytes = arrivalIn m frame := by simp [arrivalOf, hd, hf]
      have hin : arrivalIn (Ctx.received nowMs src ⟨m, {}⟩).self frame = arrivalIn m frame := rfl
      have hrx := (Ctx.Frame.received nowMs src ⟨m, {}⟩).rx
      have heff := (dispatch_effect nowMs src frame _).before (.received nowMs src ⟨m, {}⟩)
      rw [onDatagram_run hd hf, harr, hcloses]
      rw [hin] at heff
      cases hr : dispatch nowMs src frame (Ctx.received nowMs src ⟨m, {}⟩) with
      | ok a c =>
        rw [hr] at heff
        have hall := heff.after (.piggybacked nowMs src frame c)
        exact ⟨hall.fixed, hall.rx, hall.deliveries, by simpa using hall.lost,
          by simpa [CoreOutput.disconnects] using hall.disconnects⟩
      | error e c =>
        obtain ⟨hnone, hopen⟩ := dispatch_error nowMs src frame _ hr
        rw [hr] at heff
        rw [hin, hrx] at hnone
        refine ⟨heff.fixed, heff.rx, ?_, by simpa [reached] using heff.lost, by simp [hopen]; rfl⟩
        rw [hnone]
        rfl

end Todero.Core
