import Todero.CallSpec

/-! The receiving half of a machine on its own: the four receive buffers, what one
arriving message frame does to them, and that `handle_data` and `handle_fragment`
do exactly that. -/
namespace Todero.Core
open Todero.Wire

structure Rx where
  ids : Std.TreeSet Nat
  buffer : Std.TreeMap Nat Bytes
  fragments : Std.TreeMap Nat FragmentAccumulator
  last : Nat

def CoreMachine.rx (m : CoreMachine) : Rx :=
  ⟨m.receivedIds, m.receivedBuffer, m.receivedFragments, m.lastOrderedRx⟩

def CoreMachine.withRx (m : CoreMachine) (r : Rx) : CoreMachine :=
  { m with
    receivedIds := r.ids
    receivedBuffer := r.buffer
    receivedFragments := r.fragments
    lastOrderedRx := r.last }

@[simp] theorem CoreMachine.withRx_rx (m : CoreMachine) : m.withRx m.rx = m := rfl
@[simp] theorem CoreMachine.rx_withRx (m : CoreMachine) (r : Rx) : (m.withRx r).rx = r := rfl
@[simp] theorem CoreMachine.withRx_withRx (m : CoreMachine) (r s : Rx) :
    (m.withRx r).withRx s = m.withRx s := rfl

/-- The events of the messages `k`, `k + 1`, ... with the given payloads. -/
def deliveryEvents : Nat → List Bytes → List Event
  | _, [] => []
  | k, p :: ps => .messageDelivered k :: .messageReceived k p :: deliveryEvents (k + 1) ps

/-- The payloads waiting in order, and the state once they are handed out. -/
def Rx.flush : Nat → Rx → Rx × List Bytes
  | 0, r => (r, [])
  | fuel + 1, r =>
    match r.buffer[r.last + 1]? with
    | none => (r, [])
    | some p =>
      let (r', ps) := Rx.flush fuel { r with buffer := r.buffer.erase (r.last + 1)
                                             last := r.last + 1 }
      (r', p :: ps)

/-- A complete copy of message `id`. -/
def Rx.accept (id : Nat) (p : Bytes) (r : Rx) : Rx × List Bytes :=
  let r' : Rx := { r with ids := r.ids.insert id
                          buffer := r.buffer.insert id p
                          fragments := r.fragments.erase id }
  r'.flush r'.buffer.size

/-- A message frame that passed the checks on its own header. -/
inductive Arrival where
  | data (id : Nat) (p : Bytes)
  | fragment (id idx total : Nat) (chunk : Bytes)

def Arrival.id : Arrival → Nat
  | .data id _ => id
  | .fragment id _ _ _ => id

/-- The accumulator a fragment of `id` is added to. -/
def Rx.accFor (r : Rx) (id total : Nat) : FragmentAccumulator :=
  let acc := (r.fragments[id]?).getD {}
  if acc.total = 0 then { acc with total := total } else acc

def Rx.arrive (a : Arrival) (r : Rx) : Rx × List Bytes :=
  if r.ids.contains a.id then (r, [])
  else match a with
  | .data id p => r.accept id p
  | .fragment id idx total chunk =>
    let acc := r.accFor id total
    if acc.total ≠ total then (r, [])
    else
      let acc := acc.add idx chunk
      let r' : Rx := { r with fragments := r.fragments.insert id acc }
      if acc.chunks.size = acc.total then
        match mergeChunks acc.chunks acc.total with
        | none => (r', [])
        | some merged => r'.accept id merged
      else (r', [])

def Ctx.tellAll (c : Ctx) (es : List Event) : Ctx :=
  { c with out := { c.out with events := c.out.events ++ es } }

/-- The state of a call after `a` has arrived. -/
def Ctx.arrive (a : Arrival) (c : Ctx) : Ctx :=
  let (r, ps) := c.self.rx.arrive a
  ({ c with self := c.self.withRx r } : Ctx).tellAll (deliveryEvents (c.self.rx.last + 1) ps)

theorem flushLoop_run (fuel : Nat) (c : Ctx) :
    flushLoop fuel c = .ok () (({ c with self := c.self.withRx (c.self.rx.flush fuel).1 } : Ctx).tellAll
      (deliveryEvents (c.self.rx.last + 1) (c.self.rx.flush fuel).2)) := by
  induction fuel generalizing c with
  | zero => simp [flushLoop, pure_run, Rx.flush, deliveryEvents, Ctx.tellAll]
  | succ fuel ih =>
    cases hp : c.self.receivedBuffer[c.self.lastOrderedRx + 1]? with
    | none =>
      have hp' : c.self.rx.buffer[c.self.rx.last + 1]? = none := hp
      simp [flushLoop, bind_run, getSelf_run, hp, pure_run, Rx.flush, hp', deliveryEvents,
        Ctx.tellAll]
    | some p =>
      have hp' : c.self.rx.buffer[c.self.rx.last + 1]? = some p := hp
      simp only [flushLoop, bind_run, getSelf_run, hp, modifySelf_run, pushEvent_run, ih, Rx.flush,
        hp', deliveryEvents]
      simp only [Ctx.tell, Ctx.tellAll, List.append_assoc, List.cons_append, List.nil_append]
      rfl

theorem flushOrdered_run (c : Ctx) :
    flushOrdered c =
      .ok () (({ c with self := c.self.withRx (c.self.rx.flush c.self.rx.buffer.size).1 } : Ctx).tellAll
        (deliveryEvents (c.self.rx.last + 1) (c.self.rx.flush c.self.rx.buffer.size).2)) := by
  simp only [flushOrdered, bind_run, getSelf_run, flushLoop_run]
  rfl

def Ctx.accepted (id : Nat) (p : Bytes) (c : Ctx) : Ctx :=
  let (r, ps) := c.self.rx.accept id p
  ({ c with self := c.self.withRx r } : Ctx).tellAll (deliveryEvents (c.self.rx.last + 1) ps)

/-- What a `Data` frame's payload brings. -/
def dataArrival (payload : Bytes) : Arrival :=
  .data (BigEndian.take 8 payload).1 (payload.drop 8)

theorem handleData_run {payload : Bytes} (c : Ctx) (h : 8 ≤ payload.length) :
    handleData payload c = .ok () (c.arrive (dataArrival payload)) := by
  have hlen : ¬ payload.length < 8 := by omega
  by_cases hin : c.self.receivedIds.contains (BigEndian.take 8 payload).1
  · have hin' : c.self.rx.ids.contains (dataArrival payload).id := hin
    simp only [handleData, bind_run, hlen, if_false, getSelf_run, hin, if_true, pure_run,
      Ctx.arrive, Rx.arrive, hin', deliveryEvents]
    simp [Ctx.tellAll]
  · have hin' : ¬ c.self.rx.ids.contains (dataArrival payload).id := hin
    have harr : c.arrive (dataArrival payload) =
        c.accepted (BigEndian.take 8 payload).1 (payload.drop 8) := by
      simp only [Ctx.arrive, Rx.arrive, hin', Bool.false_eq_true, if_false]
      rfl
    simp only [handleData, bind_run, hlen, if_false, getSelf_run, hin, Bool.false_eq_true,
      modifySelf_run, flushOrdered_run, harr]
    rfl

/-- What a `Fragment` frame's payload brings, when its header is sane. -/
def fragmentArrival (payload : Bytes) : Option Arrival :=
  let (id, rest) := BigEndian.take 8 payload
  let (idx, rest) := BigEndian.take 2 rest
  let (total, chunk) := BigEndian.take 2 rest
  if total = 0 ∨ idx ≥ total then none else some (.fragment id idx total chunk)

/-- A fragment that disagrees with its accumulator's size, or one that fills an
accumulator in which an index is missing. -/
def Rx.rejects (a : Arrival) (r : Rx) : Bool :=
  !r.ids.contains a.id && match a with
  | .data _ _ => false
  | .fragment id idx total chunk =>
    let acc := (r.accFor id total).add idx chunk
    (r.accFor id total).total ≠ total ||
      acc.chunks.size = acc.total && (mergeChunks acc.chunks acc.total).isNone

theorem handleFragment_run {payload : Bytes} (c : Ctx) (h : 12 ≤ payload.length) :
    handleFragment payload c = match fragmentArrival payload with
      | none =>
        if c.self.receivedIds.contains (BigEndian.take 8 payload).1 then .ok () c
        else .error .malformedData c
      | some a =>
        if c.self.rx.rejects a then .error .malformedData (c.arrive a)
        else .ok () (c.arrive a) := by
  have hlen : ¬ payload.length < fragmentHeaderLen := by
    simp only [fragmentHeaderLen]
    omega
  obtain ⟨id, rest, h₁⟩ : ∃ id rest, BigEndian.take 8 payload = (id, rest) := ⟨_, _, rfl⟩
  obtain ⟨idx, rest', h₂⟩ : ∃ idx rest', BigEndian.take 2 rest = (idx, rest') := ⟨_, _, rfl⟩
  obtain ⟨total, chunk, h₃⟩ : ∃ total chunk, BigEndian.take 2 rest' = (total, chunk) :=
    ⟨_, _, rfl⟩
  simp only [handleFragment, fragmentArrival, h₁, h₂, h₃, bind_run, hlen, if_false, getSelf_run]
  by_cases hin : c.self.receivedIds.contains id
  · have hin' : c.self.rx.ids.contains id := hin
    by_cases hbad : total = 0 ∨ idx ≥ total <;>
      simp [hin, hbad, hin', pure_run, Ctx.arrive, Rx.arrive, Rx.rejects, Arrival.id,
        deliveryEvents, Ctx.tellAll]
  · have hin' : ¬ c.self.rx.ids.contains id := hin
    by_cases hbad : total = 0 ∨ idx ≥ total
    · simp only [hin, hbad, if_true, Bool.false_eq_true, if_false, throw_run, bind_run]
    · have hacc : (if (c.self.receivedFragments[id]?.getD {}).total = 0 then
          { (c.self.receivedFragments[id]?.getD {}) with total := total }
          else c.self.receivedFragments[id]?.getD {}) = c.self.rx.accFor id total := rfl
      by_cases htot : (c.self.rx.accFor id total).total = total
      · by_cases hfull : ((c.self.rx.accFor id total).add idx chunk).chunks.size =
          ((c.self.rx.accFor id total).add idx chunk).total
        · cases hmerge : mergeChunks ((c.self.rx.accFor id total).add idx chunk).chunks
              ((c.self.rx.accFor id total).add idx chunk).total with
          | none =>
            simp [hin, hbad, hacc, htot, hfull, hmerge, bind_run, getSelf_run, modifySelf_run,
              throw_run, Ctx.arrive, Rx.arrive, Rx.rejects, hin', Arrival.id, deliveryEvents,
              Ctx.tellAll]
            rfl
          | some merged =>
            simp [hin, hbad, hacc, htot, hfull, hmerge, bind_run, getSelf_run, modifySelf_run,
              flushOrdered_run, Ctx.arrive, Rx.arrive, Rx.rejects, hin', Arrival.id]
            rfl
        · simp [hin, hbad, hacc, htot, hfull, bind_run, getSelf_run, modifySelf_run, pure_run,
            Ctx.arrive, Rx.arrive, Rx.rejects, hin', Arrival.id, deliveryEvents, Ctx.tellAll]
          rfl
      · simp [hin, hbad, hacc, htot, bind_run, getSelf_run, throw_run, Ctx.arrive, Rx.arrive,
          Rx.rejects, hin', Arrival.id, deliveryEvents, Ctx.tellAll]

end Todero.Core
