import Todero.FirstCopy

/-! Exactly-once, in-order delivery over every run of a machine, whatever it is sent. -/
namespace Todero.Core
open Todero.Wire Transition

abbrev History := List (Taken CoreMachine Op CallResult)

/-- The message part of the datagram an operation is given. -/
def Op.arrival (m : CoreMachine) : Op → Option Arrival
  | .call _ => none
  | .datagram _ _ bytes => arrivalOf m bytes

/-- The message frames a machine has looked at, in order. -/
def arrivals (h : History) : List Arrival := h.filterMap fun t => t.input.arrival t.pre

/-- The delivery events returned over a run. -/
def deliveries (h : History) : List Event := h.flatMap fun t => t.output.output.deliveries

/-- The events and the datagrams of a machine over a history. -/
def told (h : History) : List Event := h.flatMap fun t => t.output.output.events

def said (h : History) : List Bytes :=
  h.flatMap fun t => t.output.output.outboundDatagrams.map OutboundDatagram.bytes

theorem told_append (h h' : History) : told (h ++ h') = told h ++ told h' := List.flatMap_append
theorem said_append (h h' : History) : said (h ++ h') = said h ++ said h' := List.flatMap_append

theorem exec_single {m : CoreMachine} {called : CoreMachine × CallResult} (op : Op)
    (h : m.step op = some called) :
    exec CoreMachine.step m [op] = some ([⟨m, op, called.2, called.1⟩], called.1) := by
  obtain ⟨m', res⟩ := called
  simp [exec, h]

theorem fragmentArrival_sane {payload : Bytes} {a : Arrival}
    (h : fragmentArrival payload = some a) : a.Sane := by
  simp only [fragmentArrival] at h
  split_ifs at h with hbad
  rw [Option.some.injEq] at h
  subst h
  show _ < _
  omega

theorem arrivalOf_sane {m : CoreMachine} {bytes : Bytes} {a : Arrival}
    (h : arrivalOf m bytes = some a) : a.Sane := by
  unfold arrivalOf at h
  split at h
  · simp at h
  · split_ifs at h
    unfold arrivalIn at h
    split_ifs at h
    unfold frameArrival at h
    split at h
    · split_ifs at h
      rw [Option.some.injEq] at h
      subst h
      trivial
    · split_ifs at h
      exact fragmentArrival_sane h
    · simp at h

/-- What a step of any kind does to the receive buffers and hands out. -/
theorem step_rx {m m' : CoreMachine} {op : Op} {res : CallResult}
    (h : m.step op = some (m', res)) :
    m'.rx = (m.rx.arriveOpt (op.arrival m)).1 ∧
      res.output.deliveries =
        deliveryEvents (m.lastOrderedRx + 1) (m.rx.arriveOpt (op.arrival m)).2 := by
  cases op with
  | call k =>
    have hans := apply_answers m h
    refine ⟨by rw [hans.next, next_rx]; rfl, ?_⟩
    rw [CoreOutput.deliveries, hans.events, tells_deliveries]
    rfl
  | datagram nowMs src bytes =>
    have heq : onDatagram m nowMs src bytes = (m', res) := Option.some.inj h
    obtain ⟨-, hrx, hdel, -, -⟩ := onDatagram_effect m nowMs src bytes
    rw [heq] at hrx hdel
    exact ⟨hrx, hdel⟩

theorem deliveryEvents_append (k : Nat) (ps qs : List Bytes) :
    deliveryEvents k (ps ++ qs) = deliveryEvents k ps ++ deliveryEvents (k + ps.length) qs := by
  induction ps generalizing k with
  | nil => rfl
  | cons p ps ih =>
    simp only [List.cons_append, deliveryEvents, ih, List.length_cons]
    rw [show k + 1 + ps.length = k + (ps.length + 1) by omega]

/-- The state of a run: the buffers follow the specification of what has arrived, and
what has been handed out are the first copies of the ids from 1 on. -/
structure Delivered (h : History) (m : CoreMachine) (ps : List Bytes) : Prop where
  ok : m.rx.Ok
  follows : m.rx.Follows (arrivals h)
  events : deliveries h = deliveryEvents 1 ps
  last : ps.length = m.lastOrderedRx
  copies : ∀ (i : Nat) (p : Bytes), ps[i]? = some p → firstCopy (i + 1) (arrivals h) = some p

theorem Delivered.step {h : History} {m m' : CoreMachine} {ps : List Bytes} {op : Op}
    {res : CallResult} (hd : Delivered h m ps) (hs : m.step op = some (m', res)) :
    ∃ ps', Delivered (h ++ [⟨m, op, res, m'⟩]) m' ps' := by
  obtain ⟨hrx, hev⟩ := step_rx hs
  have hlast : m.rx.last = m.lastOrderedRx := rfl
  cases ha : op.arrival m with
  | none =>
    have harr : arrivals (h ++ [⟨m, op, res, m'⟩]) = arrivals h := by simp [arrivals, ha]
    rw [ha] at hrx hev
    have hrx' : m'.rx = m.rx := hrx
    refine ⟨ps, ⟨hrx' ▸ hd.ok, ?_, ?_, ?_, ?_⟩⟩
    · rw [harr, hrx']
      exact hd.follows
    · rw [deliveries, List.flatMap_append, ← deliveries, hd.events]
      simp [hev, Rx.arriveOpt, deliveryEvents]
    · rw [hd.last, ← hlast, ← hrx']
      rfl
    · rw [harr]
      exact hd.copies
  | some a =>
    have harr : arrivals (h ++ [⟨m, op, res, m'⟩]) = arrivals h ++ [a] := by simp [arrivals, ha]
    have hsane : a.Sane := by
      cases op with
      | call k => simp [Op.arrival] at ha
      | datagram nowMs src bytes => exact arrivalOf_sane ha
    obtain ⟨hfollows, hnew⟩ := hd.follows.arrive hd.ok hsane
    rw [ha] at hrx hev
    have hrx' : m'.rx = (m.rx.arrive a).1 := hrx
    refine ⟨ps ++ (m.rx.arrive a).2, ⟨hrx' ▸ hd.ok.arrive hsane, ?_, ?_, ?_, ?_⟩⟩
    · rw [harr, hrx']
      exact hfollows
    · rw [deliveries, List.flatMap_append, ← deliveries, hd.events, deliveryEvents_append, hd.last]
      simp only [List.flatMap_cons, List.flatMap_nil, List.append_nil, hev, Rx.arriveOpt]
      rw [Nat.add_comm]
    · have hsum := hd.ok.arrive_last hsane
      rw [← hrx', hlast, ← hd.last] at hsum
      rw [List.length_append, ← hsum]
      rfl
    · intro i p hp
      rw [harr]
      by_cases hi : i < ps.length
      · rw [List.getElem?_append_left hi] at hp
        exact firstCopy_stable (hd.copies i p hp) [a]
      · rw [List.getElem?_append_right (by omega)] at hp
        have h' := hnew (i - ps.length) p hp
        rw [hlast, ← hd.last] at h'
        rwa [show ps.length + 1 + (i - ps.length) = i + 1 by omega] at h'

theorem Delivered.start (role : Role) (cid : UInt64) (cfg : CoreConfig) :
    Delivered [] (CoreMachine.new role cid cfg) [] where
  ok := Rx.empty_ok
  follows := Rx.empty_follows
  events := rfl
  last := rfl
  copies := by simp

theorem delivered_of_run {role : Role} {cid : UInt64} {cfg : CoreConfig} {h : History}
    {m : CoreMachine} (hrun : Run CoreMachine.step (CoreMachine.new role cid cfg) h m) :
    ∃ ps, Delivered h m ps := by
  induction hrun with
  | nil => exact ⟨[], .start role cid cfg⟩
  | snoc _ hs ih =>
    obtain ⟨ps, hd⟩ := ih
    exact hd.step hs

/-- Over every run the deliveries are those of the messages 1, 2, ..., `last_ordered_rx`
in order and once each, with the payload of the copy that was complete first, and the
message after the last one delivered is not waiting. -/
theorem exactly_once_in_order {role : Role} {cid : UInt64} {cfg : CoreConfig} {h : History}
    {m : CoreMachine} (hrun : Run CoreMachine.step (CoreMachine.new role cid cfg) h m) :
    ∃ ps : List Bytes, deliveries h = deliveryEvents 1 ps ∧ ps.length = m.lastOrderedRx ∧
      (∀ (i : Nat) (p : Bytes), ps[i]? = some p → firstCopy (i + 1) (arrivals h) = some p) ∧
      m.receivedBuffer[m.lastOrderedRx + 1]? = none := by
  obtain ⟨ps, hd⟩ := delivered_of_run hrun
  exact ⟨ps, hd.events, hd.last, hd.copies, hd.ok.stuck⟩

/-- A server that gets message 2 before message 1, and then another payload for 2. -/
def swappedDatas : List Op :=
  [.datagram 0 0 ((Packet.control .clientHello).bytes 7),
    .datagram 1 0 ((Packet.data 2 [20] 0 2).bytes 7),
    .datagram 2 0 ((Packet.data 1 [10] 0 2).bytes 7),
    .datagram 3 0 ((Packet.data 2 [21] 0 2).bytes 7)]

theorem swappedDatas_delivered :
    ∃ h m, exec CoreMachine.step (CoreMachine.new .server 7 .default) swappedDatas = some (h, m) ∧
      ∃ ps : List Bytes, deliveries h = deliveryEvents 1 ps ∧ ps.length = m.lastOrderedRx ∧
        (∀ (i : Nat) (p : Bytes), ps[i]? = some p → firstCopy (i + 1) (arrivals h) = some p) ∧
        m.receivedBuffer[m.lastOrderedRx + 1]? = none := by
  have hsome : (exec CoreMachine.step (CoreMachine.new .server 7 .default) swappedDatas).isSome := by
    decide +kernel
  obtain ⟨⟨h, m⟩, hexec⟩ := Option.isSome_iff_exists.mp hsome
  exact ⟨h, m, hexec, exactly_once_in_order (Run.of_exec hexec)⟩

end Todero.Core
