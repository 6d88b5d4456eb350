import Todero.CoreTypes
import Todero.Lib.Allowance
import Todero.Lib.Transition

/-! The anti-amplification gate of v3-crypto: saturating 64-bit counters against the exact
sums of what came in and what was sent. -/
namespace Todero.Crypto
open Todero.Core (saturatingAdd saturatingMul saturatingAdd_toNat saturatingMul_toNat toNat_max
  u64Max)
open Allowance Transition

structure AntiAmplificationGate where
  bytesIn : UInt64
  bytesOut : UInt64
  amplificationFactor : UInt64
  authenticated : Bool
  deriving DecidableEq, Repr

namespace AntiAmplificationGate

def new (amplificationFactor : UInt64) : AntiAmplificationGate where
  bytesIn := 0
  bytesOut := 0
  amplificationFactor := max amplificationFactor 1
  authenticated := false

/-- `Default::default`. -/
def default : AntiAmplificationGate := new 3

variable (gate : AntiAmplificationGate) (bytes : UInt64)

def onReceive : AntiAmplificationGate :=
  { gate with bytesIn := saturatingAdd gate.bytesIn bytes }

def canSend : Bool :=
  if gate.authenticated then true
  else
    let allowed := saturatingMul gate.bytesIn gate.amplificationFactor
    saturatingAdd gate.bytesOut bytes ≤ allowed

def onSend : AntiAmplificationGate × Bool :=
  if !gate.canSend bytes then (gate, false)
  else ({ gate with bytesOut := saturatingAdd gate.bytesOut bytes }, true)

def markAuthenticated : AntiAmplificationGate := { gate with authenticated := true }

end AntiAmplificationGate

inductive GateOp where
  | onReceive (bytes : UInt64)
  | canSend (bytes : UInt64)
  | onSend (bytes : UInt64)
  | markAuthenticated
  deriving DecidableEq, Repr

inductive GateAnswer where
  | done
  | granted (yes : Bool)
  deriving DecidableEq, Repr

def AntiAmplificationGate.step (gate : AntiAmplificationGate) :
    GateOp → Option (AntiAmplificationGate × GateAnswer)
  | .onReceive bytes => some (gate.onReceive bytes, .done)
  | .canSend bytes => some (gate, .granted (gate.canSend bytes))
  | .onSend bytes => some ((gate.onSend bytes).1, .granted (gate.onSend bytes).2)
  | .markAuthenticated => some (gate.markAuthenticated, .done)

abbrev GateTaken := Taken AntiAmplificationGate GateOp GateAnswer

/-- What one call received. -/
def GateTaken.received (t : GateTaken) : ℕ :=
  match t.input with
  | .onReceive bytes => bytes.toNat
  | _ => 0

/-- What one call was allowed to send. -/
def GateTaken.sent (t : GateTaken) : ℕ :=
  match t.input, t.output with
  | .onSend bytes, .granted true => bytes.toNat
  | _, _ => 0

def received (h : List GateTaken) : ℕ := (h.map GateTaken.received).sum
def sent (h : List GateTaken) : ℕ := (h.map GateTaken.sent).sum

theorem received_snoc (h : List GateTaken) (t : GateTaken) :
    received (h ++ [t]) = received h + t.received := by
  simp [received]

theorem sent_snoc (h : List GateTaken) (t : GateTaken) : sent (h ++ [t]) = sent h + t.sent := by
  simp [sent]

/-! ### The gate keeps exact books -/

/-- The two counters are the sums of the ledger, and nothing has been cut off. -/
structure Keeps (gate : AntiAmplificationGate) {factor : ℕ} (l : Ledger factor) : Prop where
  bytesIn : gate.bytesIn.toNat = l.received
  bytesOut : gate.bytesOut.toNat = l.sent
  factor_eq : gate.amplificationFactor.toNat = factor
  factor_pos : 1 ≤ factor
  unauthenticated : gate.authenticated = false
  room : l.allowed < u64Max

variable {gate : AntiAmplificationGate} {factor : ℕ} {l : Ledger factor} {bytes : UInt64}

theorem new_keeps (amplificationFactor : UInt64) :
    Keeps (.new amplificationFactor) (Ledger.empty (max amplificationFactor.toNat 1)) where
  bytesIn := rfl
  bytesOut := rfl
  factor_eq := toNat_max amplificationFactor 1
  factor_pos := le_max_right _ _
  unauthenticated := rfl
  room := by
    show _ * 0 < u64Max
    rw [Nat.mul_zero]
    decide

/-- A sum that saturates is beyond everything that is allowed. -/
theorem Keeps.canSend_iff (hk : Keeps gate l) (bytes : UInt64) :
    gate.canSend bytes = true ↔ l.Covers bytes.toNat := by
  have hallowed : (saturatingMul gate.bytesIn gate.amplificationFactor).toNat = l.allowed := by
    rw [saturatingMul_toNat, hk.bytesIn, hk.factor_eq, Nat.mul_comm]
    exact min_eq_left hk.room.le
  have hroom := hk.room
  rw [AntiAmplificationGate.canSend, hk.unauthenticated, if_neg (by decide), decide_eq_true_eq,
    UInt64.le_iff_toNat_le, hallowed, saturatingAdd_toNat, hk.bytesOut, Ledger.Covers]
  omega

theorem Keeps.receive (hk : Keeps gate l) (hroom : (l.receive bytes.toNat).allowed < u64Max) :
    Keeps (gate.onReceive bytes) (l.receive bytes.toNat) where
  bytesIn := by
    have hfit : l.received + bytes.toNat ≤ u64Max := by
      refine le_trans ?_ hroom.le
      exact Nat.le_mul_of_pos_left _ hk.factor_pos
    rw [AntiAmplificationGate.onReceive, saturatingAdd_toNat, hk.bytesIn, min_eq_left hfit]
    rfl
  bytesOut := hk.bytesOut
  factor_eq := hk.factor_eq
  factor_pos := hk.factor_pos
  unauthenticated := hk.unauthenticated
  room := hroom

/-- A granted send is booked, and a refused one changes nothing. -/
theorem Keeps.send (hk : Keeps gate l) (bytes : UInt64) :
    (gate.onSend bytes).2 = (l.send bytes.toNat).2 ∧
      Keeps (gate.onSend bytes).1 (l.send bytes.toNat).1 := by
  by_cases hcovers : l.Covers bytes.toNat
  · have hfit : l.sent + bytes.toNat ≤ u64Max := le_trans hcovers hk.room.le
    rw [AntiAmplificationGate.onSend, (hk.canSend_iff bytes).mpr hcovers, if_neg (by decide),
      Ledger.send_covered hcovers]
    refine ⟨rfl, { hk with bytesOut := ?_ }⟩
    show (saturatingAdd gate.bytesOut bytes).toNat = l.sent + bytes.toNat
    rw [saturatingAdd_toNat, hk.bytesOut, min_eq_left hfit]
  · have hrefused : gate.canSend bytes = false :=
      Bool.eq_false_iff.mpr fun h => hcovers ((hk.canSend_iff bytes).mp h)
    rw [AntiAmplificationGate.onSend, hrefused, if_pos (by decide), Ledger.send_refused hcovers]
    exact ⟨rfl, hk⟩

/-- Over a run before authentication the gate keeps the books of what came in and what it
has granted. -/
theorem run_keeps {amplificationFactor : UInt64} {h : List GateTaken} {gate : AntiAmplificationGate}
    (hrun : Run AntiAmplificationGate.step (.new amplificationFactor) h gate)
    (hbefore : ∀ t ∈ h, t.input ≠ .markAuthenticated)
    (hroom : max amplificationFactor.toNat 1 * received h < u64Max) :
    ∃ l : Ledger (max amplificationFactor.toNat 1),
      Keeps gate l ∧ l.received = received h ∧ l.sent = sent h := by
  induction hrun with
  | nil => exact ⟨Ledger.empty _, new_keeps amplificationFactor, rfl, rfl⟩
  | @snoc h gate gate' op answer _ hs ih =>
    rw [received_snoc] at hroom
    have hle := Nat.mul_le_mul_left (max amplificationFactor.toNat 1)
      (Nat.le_add_right (received h) (GateTaken.received ⟨gate, op, answer, gate'⟩))
    obtain ⟨l, hk, hreceived, hsent⟩ :=
      ih (fun t ht => hbefore t (List.mem_append_left _ ht)) (hle.trans_lt hroom)
    rw [received_snoc, sent_snoc]
    cases op with
    | onReceive bytes =>
      obtain ⟨rfl, rfl⟩ := Prod.mk.inj (Option.some.inj hs)
      rw [← hreceived] at hroom ⊢
      exact ⟨l.receive bytes.toNat, hk.receive hroom, rfl, hsent⟩
    | canSend bytes =>
      obtain ⟨rfl, rfl⟩ := Prod.mk.inj (Option.some.inj hs)
      exact ⟨l, hk, hreceived, hsent⟩
    | onSend bytes =>
      obtain ⟨rfl, rfl⟩ := Prod.mk.inj (Option.some.inj hs)
      obtain ⟨hanswer, hk'⟩ := hk.send bytes
      refine ⟨_, hk', Ledger.send_received.trans hreceived, ?_⟩
      rw [Ledger.send_sent, ← hanswer, hsent]
      cases hgranted : (gate.onSend bytes).2 <;> simp [GateTaken.sent]
    | markAuthenticated => exact absurd rfl (hbefore _ List.mem_concat_self)

/-- Before authentication, and while the budget stays below the greatest 64-bit number, the
gate never grants more than the factor times what it has received, grants exactly what keeps
that bound, and is left as it was by what it refuses. -/
theorem amplification_bounded {amplificationFactor : UInt64} {h : List GateTaken}
    {gate : AntiAmplificationGate}
    (hrun : Run AntiAmplificationGate.step (.new amplificationFactor) h gate)
    (hbefore : ∀ t ∈ h, t.input ≠ .markAuthenticated)
    (hroom : max amplificationFactor.toNat 1 * received h < 2 ^ 64 - 1) :
    sent h ≤ max amplificationFactor.toNat 1 * received h ∧
      ∀ bytes : UInt64,
        (gate.canSend bytes = true ↔
          sent h + bytes.toNat ≤ max amplificationFactor.toNat 1 * received h) ∧
        (gate.onSend bytes).2 = gate.canSend bytes ∧
        ((gate.onSend bytes).2 = false → (gate.onSend bytes).1 = gate) := by
  obtain ⟨l, hk, hreceived, hsent⟩ := run_keeps hrun hbefore hroom
  rw [← hreceived, ← hsent]
  refine ⟨l.covered, fun bytes => ⟨hk.canSend_iff bytes, ?_⟩⟩
  unfold AntiAmplificationGate.onSend
  cases gate.canSend bytes <;> simp

/-- A budget of three times 100 bytes, asked for the rest, for one byte more, and for a size
whose sum with what was sent leaves the 64 bits. -/
theorem amplification_bounded_at_limit : ∃ h gate,
    exec AntiAmplificationGate.step (.new 3)
      [.onReceive 100, .onSend 250, .onSend 51, .onSend 18446744073709551615, .onSend 50] =
        some (h, gate) ∧
      h.map Taken.output =
        [.done, .granted true, .granted false, .granted false, .granted true] ∧
      sent h ≤ max (3 : UInt64).toNat 1 * received h ∧
      ∀ bytes : UInt64,
        (gate.canSend bytes = true ↔
          sent h + bytes.toNat ≤ max (3 : UInt64).toNat 1 * received h) ∧
        (gate.onSend bytes).2 = gate.canSend bytes ∧
        ((gate.onSend bytes).2 = false → (gate.onSend bytes).1 = gate) := by
  have hexec : (exec AntiAmplificationGate.step (.new 3)
      [.onReceive 100, .onSend 250, .onSend 51, .onSend 18446744073709551615, .onSend 50]).map
      (fun r => (r.1.map Taken.output, received r.1)) =
        some ([.done, .granted true, .granted false, .granted false, .granted true], 100) := by
    decide
  obtain ⟨⟨h, gate⟩, hexec, heq⟩ := Option.map_eq_some_iff.mp hexec
  obtain ⟨houts, hreceived⟩ := Prod.mk.inj heq
  refine ⟨h, gate, hexec, houts, amplification_bounded (Run.of_exec hexec) ?_ ?_⟩
  · intro t ht hmark
    have hinput := List.mem_map_of_mem (f := Taken.input) ht
    rw [exec_inputs hexec, hmark] at hinput
    simp at hinput
  · rw [show received h = 100 from hreceived]
    decide

end Todero.Crypto
