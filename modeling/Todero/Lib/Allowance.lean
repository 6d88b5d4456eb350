import Mathlib.Data.Nat.Notation
import Mathlib.Tactic.Linarith

/-! An allowance that grows with what comes in: each unit received pays for `factor` units
sent, and what was sent is never more than what was paid for. -/
namespace Allowance

structure Ledger (factor : ℕ) where
  received : ℕ
  sent : ℕ
  covered : sent ≤ factor * received

variable {factor : ℕ}

namespace Ledger

def empty (factor : ℕ) : Ledger factor := ⟨0, 0, Nat.zero_le _⟩

variable (l : Ledger factor) (n : ℕ)

def allowed : ℕ := factor * l.received

/-- Sending `n` more stays within what was paid for. -/
def Covers : Prop := l.sent + n ≤ l.allowed

instance : Decidable (l.Covers n) := inferInstanceAs (Decidable (_ ≤ _))

def receive : Ledger factor :=
  ⟨l.received + n, l.sent, l.covered.trans (Nat.mul_le_mul_left _ (Nat.le_add_right _ _))⟩

def send : Ledger factor × Bool :=
  if h : l.Covers n then (⟨l.received, l.sent + n, h⟩, true) else (l, false)

variable {l n}

theorem send_covered (h : l.Covers n) : l.send n = (⟨l.received, l.sent + n, h⟩, true) :=
  dif_pos h

theorem send_refused (h : ¬ l.Covers n) : l.send n = (l, false) := dif_neg h

theorem send_received : (l.send n).1.received = l.received := by
  unfold send
  split_ifs <;> rfl

theorem send_sent : (l.send n).1.sent = l.sent + if (l.send n).2 then n else 0 := by
  by_cases h : l.Covers n
  · rw [send_covered h, if_pos rfl]
  · rw [send_refused h, if_neg Bool.false_ne_true, Nat.add_zero]

end Ledger

end Allowance
