import Mathlib.Algebra.BigOperators.Group.List.Basic
import Mathlib.Algebra.GroupWithZero.Nat
import Mathlib.Data.List.Basic

/-! Counters that stop at a greatest value, and what they say about a stream of items: how
many of a kind there were, and how many had been there before. -/
namespace Tally
variable {σ α : Type}

/-! ### Counters -/

/-- A counter that stops at `top` has gone up by `k` at least, and by `k` if `exact`. -/
structure Moved (top : ℕ) (exact : Prop) (n k n' : ℕ) : Prop where
  atLeast : min (n + k) top ≤ n'
  exactly : exact → n' = min (n + k) top

variable {top n n' n'' k k' : ℕ} {p q : Prop}

theorem Moved.still (hn : n ≤ top) : Moved top p n 0 n := ⟨Nat.min_le_left _ _, fun _ => by omega⟩

theorem Moved.bumped (k : ℕ) : Moved top p n k (min (n + k) top) :=
  ⟨Nat.le_refl _, fun _ => rfl⟩

theorem Moved.imp (h : Moved top p n k n') (hpq : q → p) : Moved top q n k n' :=
  ⟨h.atLeast, fun hq => h.exactly (hpq hq)⟩

/-- What was counted but is not to be told of. -/
theorem Moved.unsaid (h : Moved top p n k n') (hq : ¬ q) : Moved top q n 0 n' :=
  ⟨by have hleast := h.atLeast; omega, fun h => absurd h hq⟩

theorem Moved.trans (h : Moved top p n k n') (h' : Moved top p n' k' n'') :
    Moved top p n (k + k') n'' := by
  refine ⟨?_, fun hp => ?_⟩
  · have hfirst := h.atLeast
    have hsecond := h'.atLeast
    omega
  · have hfirst := h.exactly hp
    have hsecond := h'.exactly hp
    omega

/-- Items taken one after the other, each moving the counter by what it counts for. -/
theorem foldl_moved (read : σ → ℕ) {step : σ → α → σ} {counts : α → ℕ}
    (hread : ∀ s, read s ≤ top)
    (hstep : ∀ s a, Moved top p (read s) (counts a) (read (step s a))) (l : List α) (s : σ) :
    Moved top p (read s) (l.map counts).sum (read (l.foldl step s)) := by
  induction l generalizing s with
  | nil => exact .still (hread s)
  | cons a l ih =>
    rw [List.map_cons, List.sum_cons, List.foldl_cons]
    exact (hstep s a).trans (ih (step s a))

/-! ### Repetitions -/

variable [DecidableEq α]

/-- The items that were there before, in `seen` or earlier in the list. -/
def repeats (seen : List α) : List α → ℕ
  | [] => 0
  | a :: l => (if a ∈ seen then 1 else 0) + repeats (a :: seen) l

theorem repeats_congr {seen seen' : List α} {l : List α}
    (h : ∀ a ∈ l, a ∈ seen ↔ a ∈ seen') : repeats seen l = repeats seen' l := by
  induction l generalizing seen seen' with
  | nil => rfl
  | cons a l ih =>
    have htail : repeats (a :: seen) l = repeats (a :: seen') l := by
      refine ih fun b hb => ?_
      rw [List.mem_cons, List.mem_cons, h b (List.mem_cons_of_mem a hb)]
    simp only [repeats, h a List.mem_cons_self, htail]

theorem repeats_append (seen l l' : List α) :
    repeats seen (l ++ l') = repeats seen l + repeats (seen ++ l) l' := by
  induction l generalizing seen with
  | nil => simp [repeats]
  | cons a l ih =>
    rw [List.cons_append, repeats, repeats, ih, Nat.add_assoc]
    congr 2
    exact repeats_congr fun b _ => by simp [or_left_comm]

end Tally
