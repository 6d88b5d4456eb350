import Mathlib

/-! Windows of numbers: the set of all that were accepted, and a shift register that keeps
the part of it just below the greatest one. -/
namespace SlidingWindow

/-- Everything accepted so far, and how far back a number may lie. -/
structure PlainWindow where
  size : Nat
  accepted : Finset Nat
  deriving DecidableEq

namespace PlainWindow
variable (p : PlainWindow)

def greatest : Nat := p.accepted.sup id

/-- Nothing was accepted yet, or `n` is the greatest so far, or recent enough and new. -/
def Fresh (n : Nat) : Prop :=
  p.accepted = ∅ ∨ p.greatest < n ∨ p.greatest - n < p.size ∧ n ∉ p.accepted

instance (n : Nat) : Decidable (p.Fresh n) := by
  unfold Fresh
  infer_instance

def accept (n : Nat) : PlainWindow × Bool :=
  if p.Fresh n then (⟨p.size, insert n p.accepted⟩, true) else (p, false)

variable {p} {n m : Nat}

theorem le_greatest (h : n ∈ p.accepted) : n ≤ p.greatest := Finset.le_sup (f := id) h

theorem greatest_mem (h : p.accepted ≠ ∅) : p.greatest ∈ p.accepted := by
  obtain ⟨m, hm, hsup⟩ := Finset.exists_mem_eq_sup _ (Finset.nonempty_iff_ne_empty.mpr h) id
  rw [greatest, hsup]
  exact hm

theorem greatest_of_bounds (hmem : n ∈ p.accepted) (hmax : ∀ m ∈ p.accepted, m ≤ n) :
    p.greatest = n :=
  le_antisymm (Finset.sup_le hmax) (le_greatest hmem)

theorem accept_fresh (h : p.Fresh n) : p.accept n = (⟨p.size, insert n p.accepted⟩, true) :=
  if_pos h

theorem accept_stale (h : ¬ p.Fresh n) : p.accept n = (p, false) := if_neg h

theorem Fresh.not_mem (h : p.Fresh n) : n ∉ p.accepted := by
  rintro hmem
  obtain hnone | hgreater | ⟨-, hnew⟩ := h
  · simp [hnone] at hmem
  · exact absurd (le_greatest hmem) (not_le.mpr hgreater)
  · exact hnew hmem

end PlainWindow

/-! ### Registers -/

variable {w size top top' d : Nat} {b : BitVec w} {S : Finset Nat}

/-- Bit `d` tells whether `top - d` is in the set, for the first `size` bits. -/
def Shows (b : BitVec w) (size top : Nat) (S : Finset Nat) : Prop :=
  ∀ d < size, d ≤ top → (b.getLsbD d = true ↔ top - d ∈ S)

theorem getLsbD_one_shiftLeft (hd : d < w) (e : Nat) :
    ((1 : BitVec w) <<< d).getLsbD e = decide (d = e) := by
  change (1#w <<< d).getLsbD e = _
  rw [← BitVec.twoPow_eq, BitVec.getLsbD_twoPow]
  simp [hd]

/-- The bit of a mask, tested by `&`. -/
theorem and_mask_eq_zero (hd : d < w) :
    b &&& (1 : BitVec w) <<< d = 0 ↔ b.getLsbD d = false := by
  constructor
  · intro h
    have hbit := congrArg (fun x => x.getLsbD d) h
    simp only [BitVec.getLsbD_and, getLsbD_one_shiftLeft hd] at hbit
    simpa using hbit
  · intro h
    refine BitVec.eq_of_getLsbD_eq fun e _ => ?_
    rw [BitVec.getLsbD_and, getLsbD_one_shiftLeft hd]
    by_cases heq : d = e
    · simp [← heq, h]
    · simp [heq]

/-- A first number. -/
theorem Shows.single (hsize : size ≤ w) : Shows (1 : BitVec w) size top {top} := by
  intro d hd htop
  simp
  omega

/-- A number of the window is marked. -/
theorem Shows.mark (h : Shows b size top S) (hsize : size ≤ w) (hd : d < size) (htop : d ≤ top) :
    Shows (b ||| (1 : BitVec w) <<< d) size top (insert (top - d) S) := by
  intro e he hle
  rw [BitVec.getLsbD_or, Bool.or_eq_true, h e he hle, getLsbD_one_shiftLeft (by omega),
    Finset.mem_insert, decide_eq_true_eq]
  constructor
  · rintro (hmem | rfl)
    · exact .inr hmem
    · exact .inl rfl
  · rintro (heq | hmem)
    · exact .inr (by omega)
    · exact .inl hmem

/-- A greater number moves the register; what falls out of the window may be lost. -/
theorem Shows.advance (h : Shows b size top S) (hsize : size ≤ w) (hpos : 0 < size)
    (hmax : ∀ n ∈ S, n ≤ top) (hlt : top < top') :
    Shows ((if size ≤ top' - top then 0 else b <<< (top' - top)) ||| 1) size top'
      (insert top' S) := by
  intro e he hle
  have hone : (1 : BitVec w).getLsbD e = decide (e = 0) := by
    simp
    omega
  rw [BitVec.getLsbD_or, Bool.or_eq_true, hone, decide_eq_true_eq, Finset.mem_insert, or_comm]
  refine or_congr (by omega) ?_
  split_ifs with hfar
  · -- everything accepted before lies below the window
    refine iff_of_false (by simp) fun hmem => ?_
    have hold := hmax _ hmem
    omega
  · by_cases hshift : e < top' - top
    · refine iff_of_false (by simp [hshift]) fun hmem => ?_
      have hold := hmax _ hmem
      omega
    · have hsame : top' - e = top - (e - (top' - top)) := by omega
      rw [hsame, ← h (e - (top' - top)) (by omega) (by omega), BitVec.getLsbD_shiftLeft]
      simp [hshift]
      omega

end SlidingWindow
