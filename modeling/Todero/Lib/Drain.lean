import Mathlib.Algebra.BigOperators.Group.Finset.Piecewise
import Mathlib.Algebra.BigOperators.Group.List.Lemmas
import Mathlib.Algebra.Order.Monoid.Prod
import Mathlib.Data.Fintype.Basic
import Mathlib.Data.Prod.Lex
import Todero.Lib.Duplex

/-! Networks in which the datagrams in flight are used up: each weighs more than what
it is answered with, unless its delivery takes something from a store that is not
refilled. -/
namespace Duplex
open Transition
variable {P σ κ τ D ο : Type} [DecidableEq P] [Fintype P]

section Load
variable {α : Type} [AddCommMonoid α] (weight : P → D → α)

/-- The weight of everything in flight. -/
def Net.load (w : Net P σ D) : α := ∑ p, ((w.inbox p).map (weight p)).sum

variable (w : Net P σ D) (p : P)

theorem Net.load_add (ds : List D) :
    (w.add p ds).load weight = w.load weight + (ds.map (weight p)).sum := by
  have hq : ∀ q, (((w.add p ds).inbox q).map (weight q)).sum =
      ((w.inbox q).map (weight q)).sum + if q = p then (ds.map (weight p)).sum else 0 := by
    intro q
    by_cases h : q = p
    · subst h
      simp [Net.add]
    · simp [Net.add, h]
  simp only [Net.load, hq, Finset.sum_add_distrib, Finset.sum_ite_eq', Finset.mem_univ, if_true]

theorem Net.load_remove {i : Nat} {d : D} (hd : (w.inbox p)[i]? = some d) :
    w.load weight = (w.remove p i).load weight + weight p d := by
  have hq : ∀ q, ((w.inbox q).map (weight q)).sum =
      (((w.remove p i).inbox q).map (weight q)).sum + if q = p then weight p d else 0 := by
    intro q
    by_cases h : q = p
    · subst h
      obtain ⟨hi, rfl⟩ := List.getElem?_eq_some_iff.mp hd
      have hperm := (List.getElem_cons_eraseIdx_perm hi).map (weight q)
      simp [Net.remove, ← hperm.sum_eq, add_comm]
    · simp [Net.remove, h]
  simp only [Net.load, hq, Finset.sum_add_distrib, Finset.sum_ite_eq', Finset.mem_univ, if_true]

end Load

section Settles
variable {peer : P → P} {party : Party σ κ τ D ο} {α β : Type}
variable [AddCommMonoid α] [PartialOrder α] [IsOrderedCancelAddMonoid α] [WellFoundedLT α]
variable [PartialOrder β] [WellFoundedLT β]

/-- A network settles when every delivery lowers the slack, or leaves it alone and is
answered with less than was delivered. -/
theorem Net.settles_of_load {I Q : Net P σ D → Prop} (slack : Net P σ D → β)
    (weight : P → D → α) {w : Net P σ D} (hw : I w)
    (hinv : ∀ w w', I w → w.Delivers peer party w' → I w')
    (hless : ∀ w p t i d, I w → (w.inbox p)[i]? = some d →
      let (s, ds, _) := party.recv (w.core p) t d
      slack ((w.remove p i).commit peer p s ds) < slack w ∨
        slack ((w.remove p i).commit peer p s ds) = slack w ∧
          (ds.map (weight (peer p))).sum < weight p d)
    (hend : ∀ w, I w → Terminal (Net.Delivers peer party) w → Q w) :
    Settles (Net.Delivers peer party) Q w := by
  refine Settles.of_measure (fun w => toLex (slack w, w.load weight)) hw ?_ hend
  intro w w' hI hstep
  refine ⟨hinv w w' hI hstep, ?_⟩
  obtain ⟨p, i, t, o, hs⟩ := hstep
  simp only [Net.step, Option.map_eq_some_iff, Prod.mk.injEq] at hs
  obtain ⟨d, hd, rfl, -⟩ := hs
  rw [Prod.Lex.toLex_lt_toLex]
  rcases hless w p t i d hI hd with hlt | ⟨heq, hlt⟩
  · exact .inl hlt
  · refine .inr ⟨heq, ?_⟩
    rw [w.load_remove weight p hd, Net.commit, Net.load_add]
    exact add_lt_add_right hlt _

end Settles

end Duplex
