import Mathlib
import Todero.SingleNomination

/-! Which pairs a new checklist holds, and in which order. The sum of `pair_priority` leaves
64 bits where both priorities are `u32::MAX`, and nowhere else. -/
namespace Todero.Ice
open Ranking Transition

/-- The priority of a pair in exact integers. No product or sum on the way to it is greater. -/
def exactPriority (localPriority remotePriority : UInt32) : Nat :=
  2 ^ 32 * min localPriority.toNat remotePriority.toNat +
    2 * max localPriority.toNat remotePriority.toNat +
    if localPriority.toNat > remotePriority.toNat then 1 else 0

/-- The two candidates may be paired. -/
def compatible (l r : IceCandidate) : Bool :=
  l.component = r.component && l.transport = r.transport

/-- There are candidates at the two indices, and they may be paired. -/
def pairable (A B : List IceCandidate) (x : Nat × Nat) : Bool :=
  match A[x.1]?, B[x.2]? with
  | some l, some r => compatible l r
  | _, _ => false

def exactOf (A B : List IceCandidate) (p : CandidatePair) : Nat :=
  exactPriority (priorityOf A p.localIndex) (priorityOf B p.remoteIndex)

/-- One pair for each two candidates that may be paired and no other, in the order of the
exact priorities, none of which leaves 64 bits. -/
structure IceChecklist.Arranged (A B : List IceCandidate) (c : IceChecklist) : Prop where
  complete : ∀ x, (c.pairs.map CandidatePair.indices).count x = if pairable A B x then 1 else 0
  ordered : c.pairs.Pairwise fun p q => exactOf A B q ≤ exactOf A B p
  noOverflow : ∀ p ∈ c.pairs, exactOf A B p < 2 ^ 64

/-! ### The sum -/

theorem pairPriority_mod (l r : UInt32) :
    (pairPriority l r).toNat = exactPriority l r % 2 ^ 64 := by
  have hmin : (min l r).toNat = min l.toNat r.toNat := by
    rw [UInt32.min_def, Nat.min_def]
    simp only [UInt32.le_iff_toNat_le]
    split_ifs <;> rfl
  have hmax : (max l r).toNat = max l.toNat r.toNat := by
    rw [UInt32.max_def, Nat.max_def]
    simp only [UInt32.le_iff_toNat_le]
    split_ifs <;> rfl
  have hbit : (if l > r then (1 : UInt64) else 0).toNat =
      if l.toNat > r.toNat then 1 else 0 := by
    simp only [gt_iff_lt, UInt32.lt_iff_toNat_lt]
    split_ifs <;> rfl
  rw [pairPriority, exactPriority, UInt64.toNat_add, UInt64.toNat_add, UInt64.toNat_mul,
    UInt64.toNat_mul, UInt32.toNat_toUInt64, UInt32.toNat_toUInt64, hmin, hmax, hbit]
  simp only [UInt64.reduceToNat]
  omega

theorem exactPriority_fits_iff (l r : UInt32) :
    exactPriority l r < 2 ^ 64 ↔ ¬ (l.toNat = 2 ^ 32 - 1 ∧ r.toNat = 2 ^ 32 - 1) := by
  have hl := l.toNat_lt
  have hr := r.toNat_lt
  unfold exactPriority
  split_ifs <;> omega

/-! ### The pairs -/

section Pairs
variable {A B : List IceCandidate}

theorem pairable_iff {i j : Nat} : pairable A B (i, j) ↔
    ∃ l r, A[i]? = some l ∧ B[j]? = some r ∧ compatible l r := by
  rw [pairable]
  cases hl : A[i]? with
  | none => simp
  | some l =>
    cases hr : B[j]? with
    | none => simp
    | some r => simp

theorem mem_enumerated_indices {x : Nat × Nat} :
    x ∈ (enumeratedPairs A B).map CandidatePair.indices ↔ pairable A B x = true := by
  obtain ⟨i, j⟩ := x
  constructor
  · intro hx
    obtain ⟨p, hp, heq⟩ := List.mem_map.mp hx
    obtain ⟨⟨l, li⟩, hl, hp⟩ := List.mem_flatMap.mp hp
    obtain ⟨⟨r, ri⟩, hr, hp⟩ := List.mem_filterMap.mp hp
    dsimp only at hp
    split_ifs at hp with hdiffer
    obtain rfl := Option.some.inj hp
    obtain ⟨rfl, rfl⟩ := Prod.mk.inj heq
    have hl' : A[li]? = some l := List.mk_mem_zipIdx_iff_getElem?.mp hl
    have hr' : B[ri]? = some r := List.mk_mem_zipIdx_iff_getElem?.mp hr
    rw [not_or, not_not, not_not] at hdiffer
    exact pairable_iff.mpr ⟨l, r, hl', hr', by simpa [compatible] using hdiffer⟩
  · intro hx
    obtain ⟨l, r, hl, hr, hcompatible⟩ := pairable_iff.mp hx
    have hsame : ¬ (l.component ≠ r.component ∨ l.transport ≠ r.transport) := by
      simpa [compatible, not_or] using hcompatible
    refine List.mem_map.mpr ⟨⟨i, j, pairPriority l.priority r.priority, false, .frozen⟩, ?_, rfl⟩
    refine List.mem_flatMap.mpr ⟨(l, i), List.mk_mem_zipIdx_iff_getElem?.mpr hl, ?_⟩
    refine List.mem_filterMap.mpr ⟨(r, j), List.mk_mem_zipIdx_iff_getElem?.mpr hr, ?_⟩
    exact if_neg hsame

/-- Sorting neither adds nor loses a pair. -/
theorem mem_new_indices {x : Nat × Nat} :
    x ∈ (IceChecklist.new A B).pairs.map CandidatePair.indices ↔ pairable A B x = true := by
  rw [← mem_enumerated_indices]
  simp only [List.mem_map, IceChecklist.new, mem_sortDesc]

theorem new_complete (A B : List IceCandidate) (x : Nat × Nat) :
    ((IceChecklist.new A B).pairs.map CandidatePair.indices).count x =
      if pairable A B x then 1 else 0 := by
  have hnodup : ((IceChecklist.new A B).pairs.map CandidatePair.indices).Nodup :=
    indices_nodup .nil
  split_ifs with hx
  · exact List.count_eq_one_of_mem hnodup (mem_new_indices.mpr hx)
  · exact List.count_eq_zero_of_not_mem fun h => hx (mem_new_indices.mp h)

theorem stored_exact {p : CandidatePair} (hp : p ∈ (IceChecklist.new A B).pairs) :
    p.priority.toNat = exactOf A B p % 2 ^ 64 := by
  rw [mem_enumeratedPairs (mem_sortDesc.mp hp), pairPriority_mod, exactOf]

/-- The stored priorities are in order always, so the exact ones are where they fit. -/
theorem new_ordered (hfits : ∀ p ∈ (IceChecklist.new A B).pairs, exactOf A B p < 2 ^ 64) :
    (IceChecklist.new A B).pairs.Pairwise fun p q => exactOf A B q ≤ exactOf A B p := by
  refine (pairs_ranked (h := []) .nil).imp_of_mem ?_
  intro p q hp hq hranked
  have hle : q.priority.toNat ≤ p.priority.toNat := hranked.elim le_of_lt fun h => h.1.le
  rwa [stored_exact hp, stored_exact hq, Nat.mod_eq_of_lt (hfits p hp),
    Nat.mod_eq_of_lt (hfits q hq)] at hle

theorem new_fits_iff : (∀ p ∈ (IceChecklist.new A B).pairs, exactOf A B p < 2 ^ 64) ↔
    ¬ ∃ l ∈ A, ∃ r ∈ B, compatible l r ∧ l.priority.toNat = 2 ^ 32 - 1 ∧
      r.priority.toNat = 2 ^ 32 - 1 := by
  have hprio : ∀ {C : List IceCandidate} {i c}, C[i]? = some c → priorityOf C i = c.priority := by
    intro C i c hc
    rw [priorityOf, hc, Option.map_some, Option.getD_some]
  constructor
  · rintro hfits ⟨l, hl, r, hr, hcompatible, hlmax, hrmax⟩
    obtain ⟨i, hi⟩ := List.mem_iff_getElem?.mp hl
    obtain ⟨j, hj⟩ := List.mem_iff_getElem?.mp hr
    have hin := mem_new_indices.mpr (pairable_iff.mpr ⟨l, r, hi, hj, hcompatible⟩)
    obtain ⟨p, hp, heq⟩ := List.mem_map.mp hin
    obtain ⟨rfl, rfl⟩ := Prod.mk.inj heq
    refine (exactPriority_fits_iff _ _).mp (hfits p hp) ?_
    rw [hprio hi, hprio hj]
    exact ⟨hlmax, hrmax⟩
  · intro hnone p hp
    obtain ⟨l, r, hl, hr, hcompatible⟩ :=
      pairable_iff.mp (mem_new_indices.mp (List.mem_map_of_mem hp))
    refine (exactPriority_fits_iff _ _).mpr fun hmax => hnone ?_
    rw [hprio hl, hprio hr] at hmax
    exact ⟨l, List.mem_of_getElem? hl, r, List.mem_of_getElem? hr, hcompatible, hmax⟩

end Pairs

/-- A new checklist is as it has to be exactly if no two candidates that may be paired both
have the greatest priority there is. -/
theorem new_arranged_iff (A B : List IceCandidate) :
    (IceChecklist.new A B).Arranged A B ↔
      ¬ ∃ l ∈ A, ∃ r ∈ B, compatible l r ∧ l.priority.toNat = 2 ^ 32 - 1 ∧
        r.priority.toNat = 2 ^ 32 - 1 := by
  rw [← new_fits_iff]
  exact ⟨fun harranged => harranged.noOverflow,
    fun hfits => ⟨new_complete A B, new_ordered hfits, hfits⟩⟩

/-- The pair of the two best candidates comes last. -/
theorem greatestPriorities_misplaced :
    ¬ ∀ A B : List IceCandidate, (IceChecklist.new A B).Arranged A B := by
  intro hclaim
  have hordered := (hclaim [host 0x0A000001 5000 4294967295, host 0x0A000001 5001 100]
    [host 0x0A000002 6000 4294967295]).ordered
  revert hordered
  decide +kernel

end Todero.Ice
