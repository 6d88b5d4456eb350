import Todero.Lib.Worklist
import Todero.SingleNomination

/-! The order in which the pairs of a checklist are checked. The pairs that are frozen are those
that have neither been returned nor given a result, so the checklist is a worklist. -/
namespace Todero.Ice
open Ranking Transition Worklist

/-- The pairs that `next_check` has returned, in this order. -/
def returned (h : CheckHistory) : List (Nat × Nat) :=
  h.filterMap fun t => match t.output with
    | .checking pair => pair
    | _ => none

def GivenResult (h : CheckHistory) (x : Nat × Nat) : Prop :=
  ∃ t ∈ h, ∃ ok, t.input = .markCheckResult x.1 x.2 ok

/-- Every pair is checked once: in the order of the list, unless it has been given a result
before, and none is left out. -/
structure ChecksOnce (A B : List IceCandidate) (h : CheckHistory) : Prop where
  inOrder : ∃ ps : List CandidatePair, ps.Sublist (IceChecklist.new A B).pairs ∧
    returned h = ps.map CandidatePair.indices ∧
    ps.Pairwise fun p q => p.indices ≠ q.indices ∧ q.priority ≤ p.priority
  unsettled : ∀ (h₀ : CheckHistory) (t : Taken IceChecklist CheckOp CheckAnswer)
    (h₁ : CheckHistory) (x : Nat × Nat), h = h₀ ++ t :: h₁ → t.output = .checking (some x) →
      ¬ GivenResult h₀ x
  covered : ∀ (h₀ : CheckHistory) (t : Taken IceChecklist CheckOp CheckAnswer)
    (h₁ : CheckHistory), h = h₀ ++ t :: h₁ → t.output = .checking none →
      ∀ p ∈ t.pre.pairs, p.indices ∈ returned h₀ ∨ GivenResult h₀ p.indices

/-- What a call is to the list of the pairs still to be checked. -/
def checkEvent (t : Taken IceChecklist CheckOp CheckAnswer) : Option (Event (Nat × Nat)) :=
  match t.output, t.input with
  | .checking pair, _ => some (.next pair)
  | _, .markCheckResult localIndex remoteIndex _ => some (.settle (localIndex, remoteIndex))
  | _, _ => none

def checkEvents (h : CheckHistory) : List (Event (Nat × Nat)) := h.filterMap checkEvent

/-! ### The frozen pairs -/

def IceChecklist.FrozenOutside (c : IceChecklist) (T : List (Nat × Nat)) : Prop :=
  ∀ p ∈ c.pairs, p.state = .frozen ↔ p.indices ∉ T

theorem updateFirst_cases {α : Type} (p : α → Bool) (f : α → α) (l : List α) :
    l.find? p = none ∧ updateFirst p f l = l ∨
      ∃ l₁ a l₂, l.find? p = some a ∧ l = l₁ ++ a :: l₂ ∧ updateFirst p f l = l₁ ++ f a :: l₂ := by
  induction l with
  | nil => exact .inl ⟨rfl, rfl⟩
  | cons b l ih =>
    rw [updateFirst]
    cases hb : p b with
    | true => exact .inr ⟨[], b, l, List.find?_cons_of_pos hb, rfl, rfl⟩
    | false =>
      rw [List.find?_cons_of_neg (by simp [hb]), if_neg (by simp)]
      obtain ⟨hnone, hsame⟩ | ⟨l₁, a, l₂, hfind, hsplit, hupdate⟩ := ih
      · exact .inl ⟨hnone, by rw [hsame]⟩
      · exact .inr ⟨b :: l₁, a, l₂, hfind, by rw [hsplit]; rfl, by rw [hupdate]; rfl⟩

section Calls
variable {c : IceChecklist} {T : List (Nat × Nat)}

/-- A pair that stops being frozen, and the others. -/
theorem frozenOutside_write {l₁ l₂ : List CandidatePair} {a : CandidatePair}
    {state : CandidatePairState} (hnodup : (c.pairs.map CandidatePair.indices).Nodup)
    (hfrozen : c.FrozenOutside T) (hstate : state ≠ .frozen) (hsplit : c.pairs = l₁ ++ a :: l₂) :
    ({ c with pairs := l₁ ++ a.withState state :: l₂ } : IceChecklist).FrozenOutside
      (T ++ [a.indices]) := by
  intro p hp
  have hcase : p = a.withState state ∨ p ∈ c.pairs ∧ p.indices ≠ a.indices := by
    rw [hsplit] at hnodup ⊢
    simp only [List.map_append, List.map_cons, List.nodup_append, List.nodup_cons,
      List.mem_map, List.mem_cons] at hnodup
    grind
  obtain rfl | ⟨hold, hne⟩ := hcase
  · exact iff_of_false hstate fun h => h (by simp [CandidatePair.indices, CandidatePair.withState])
  · rw [hfrozen p hold, List.mem_append, List.mem_singleton, not_or, and_iff_left hne]

theorem nextCheck_frozen (hnodup : (c.pairs.map CandidatePair.indices).Nodup)
    (hfrozen : c.FrozenOutside T) :
    c.nextCheck.1.FrozenOutside (T ++ c.nextCheck.2.toList) := by
  rw [IceChecklist.nextCheck]
  obtain ⟨hnone, hsame⟩ | ⟨l₁, a, l₂, hfind, hsplit, hupdate⟩ :=
    updateFirst_cases (CandidatePair.isIn .frozen) (CandidatePair.withState .inProgress) c.pairs
  · rw [hnone, hsame, Option.map_none, Option.toList_none, List.append_nil]
    exact hfrozen
  · rw [hfind, hupdate]
    exact frozenOutside_write hnodup hfrozen (by decide) hsplit

/-- A result for indices that no pair has changes nothing. -/
theorem markCheckResult_frozen (hnodup : (c.pairs.map CandidatePair.indices).Nodup)
    (hfrozen : c.FrozenOutside T) (l r : Nat) (ok : Bool) :
    (c.markCheckResult l r ok).FrozenOutside (T ++ [(l, r)]) := by
  have hfound : ∀ p : CandidatePair,
      (p.localIndex = l && p.remoteIndex = r) = true ↔ p.indices = (l, r) := by
    simp [CandidatePair.indices]
  rw [IceChecklist.markCheckResult]
  obtain ⟨hnone, hsame⟩ | ⟨l₁, a, l₂, hfind, hsplit, hupdate⟩ :=
    updateFirst_cases (fun p => p.localIndex = l && p.remoteIndex = r)
      (CandidatePair.withState (if ok then .succeeded else .failed)) c.pairs
  · rw [hsame]
    intro p hp
    have hne : p.indices ≠ (l, r) := fun heq =>
      List.find?_eq_none.mp hnone p hp ((hfound p).mpr heq)
    rw [hfrozen p hp, List.mem_append, List.mem_singleton, not_or, and_iff_left hne]
  · have hstate : (if ok then CandidatePairState.succeeded else .failed) ≠ .frozen := by
      cases ok <;> decide
    have ha := List.find?_some hfind
    rw [hupdate, ← (hfound a).mp ha]
    exact frozenOutside_write hnodup hfrozen hstate hsplit

theorem nominateBest_frozen (hfrozen : c.FrozenOutside T) :
    c.nominateBest.1.FrozenOutside T := by
  cases hbest : c.best with
  | none =>
    rw [nominateBest_none hbest]
    exact hfrozen
  | some b =>
    obtain ⟨p, i⟩ := b
    intro q hq
    rw [(nominateBest_pairs hbest).1] at hq
    obtain hq | rfl := List.mem_or_eq_of_mem_set hq
    · exact hfrozen q hq
    · exact hfrozen p (List.mem_of_getElem? (best_getElem? hbest).1)

end Calls

/-! ### Whole runs -/

section Runs
variable {A B : List IceCandidate} {h : CheckHistory} {c : IceChecklist}

theorem checkEvents_snoc (h : CheckHistory) (t : Taken IceChecklist CheckOp CheckAnswer) :
    checkEvents (h ++ [t]) = checkEvents h ++ (checkEvent t).toList := by
  cases hevent : checkEvent t <;> simp [checkEvents, hevent]

theorem frozen_of_run (hrun : Run IceChecklist.step (.new A B) h c) :
    c.FrozenOutside (touched (checkEvents h)) := by
  induction hrun with
  | nil =>
    intro p hp
    have hfresh := (enumeratedPairs_fresh (mem_sortDesc.mp hp)).2
    exact iff_of_true hfresh List.not_mem_nil
  | @snoc h c c' op o hrun hs ih =>
    have hnodup := indices_nodup hrun
    rw [checkEvents_snoc]
    cases op with
    | nextCheck =>
      obtain ⟨rfl, rfl⟩ := Prod.mk.inj (Option.some.inj hs)
      rw [checkEvent, Option.toList_some, touched_snoc]
      exact nextCheck_frozen hnodup ih
    | markCheckResult l r ok =>
      obtain ⟨rfl, rfl⟩ := Prod.mk.inj (Option.some.inj hs)
      rw [checkEvent, Option.toList_some, touched_snoc]
      exact markCheckResult_frozen hnodup ih l r ok
    | nominateBest =>
      obtain ⟨rfl, rfl⟩ := Prod.mk.inj (Option.some.inj hs)
      rw [checkEvent, Option.toList_none, List.append_nil]
      exact nominateBest_frozen ih

/-- The indices of the pairs stay those of the new list. -/
theorem indices_of_run (hrun : Run IceChecklist.step (.new A B) h c) :
    c.pairs.map CandidatePair.indices =
      (IceChecklist.new A B).pairs.map CandidatePair.indices := by
  have hranks := congrArg (List.map Prod.fst) (ranks_of_run hrun)
  rwa [List.map_map, List.map_map] at hranks

theorem output_checking {c c' : IceChecklist} {op : CheckOp} {pair : Option (Nat × Nat)}
    (hs : c.step op = some (c', .checking pair)) : pair = c.nextCheck.2 := by
  cases op with
  | nextCheck =>
    obtain ⟨-, heq⟩ := Prod.mk.inj (Option.some.inj hs)
    exact (CheckAnswer.checking.inj heq).symm
  | markCheckResult l r ok =>
    obtain ⟨-, heq⟩ := Prod.mk.inj (Option.some.inj hs)
    cases heq
  | nominateBest =>
    obtain ⟨-, heq⟩ := Prod.mk.inj (Option.some.inj hs)
    cases heq

/-- `next_check` returns the first pair that has neither been returned nor given a result. -/
theorem nextCheck_first (hrun : Run IceChecklist.step (.new A B) h c) :
    c.nextCheck.2 =
      firstLeft ((IceChecklist.new A B).pairs.map CandidatePair.indices) (checkEvents h) := by
  rw [← indices_of_run hrun, firstLeft_map (p := CandidatePair.isIn .frozen), IceChecklist.nextCheck]
  intro p hp
  rw [CandidatePair.isIn, decide_eq_true_iff]
  exact frozen_of_run hrun p hp

theorem served_of_run (hrun : Run IceChecklist.step (.new A B) h c) :
    Served ((IceChecklist.new A B).pairs.map CandidatePair.indices) (checkEvents h) := by
  intro g₀ pair g₁ hevents
  obtain ⟨h₀, h', rfl, rfl, hrest⟩ := List.filterMap_eq_append_iff.mp hevents
  obtain ⟨h₁, t, h₂, rfl, hnone, hnext, -⟩ := List.filterMap_eq_cons_iff.mp hrest
  have hprefix : checkEvents (h₀ ++ h₁) = h₀.filterMap checkEvent := by
    rw [checkEvents, List.filterMap_append, List.filterMap_eq_nil_iff.mpr hnone, List.append_nil]
  rw [← List.append_assoc] at hrun
  obtain ⟨hpre, hs⟩ := hrun.split
  rw [← hprefix, ← nextCheck_first hpre]
  obtain ⟨c₀, op, o, c₁⟩ := t
  cases o with
  | checking answer =>
    obtain rfl := Event.next.inj (Option.some.inj hnext)
    exact output_checking hs
  | marked => cases op <;> cases hnext
  | nominating answer => cases op <;> cases hnext

theorem returned_eq_taken (h : CheckHistory) : returned h = taken (checkEvents h) := by
  rw [returned, taken, checkEvents, List.filterMap_filterMap]
  refine List.filterMap_congr fun t _ => ?_
  obtain ⟨c, op, o, c'⟩ := t
  cases o <;> cases op <;> rfl

theorem mem_touched (hrun : Run IceChecklist.step (.new A B) h c) {x : Nat × Nat} :
    x ∈ touched (checkEvents h) ↔ x ∈ returned h ∨ GivenResult h x := by
  induction hrun with
  | nil => simp [checkEvents, touched, returned, GivenResult]
  | @snoc h c c' op o _ hs ih =>
    have hgiven : GivenResult (h ++ [⟨c, op, o, c'⟩]) x ↔
        GivenResult h x ∨ ∃ ok, op = .markCheckResult x.1 x.2 ok := by
      simp [GivenResult, or_and_right, exists_or]
    rw [hgiven, returned_eq_taken, checkEvents_snoc]
    rw [returned_eq_taken] at ih
    cases op with
    | nextCheck =>
      obtain ⟨rfl, rfl⟩ := Prod.mk.inj (Option.some.inj hs)
      rw [checkEvent, Option.toList_some, touched_snoc, taken_snoc]
      simp [ih, Event.taken, Event.touched, or_right_comm]
    | markCheckResult l r ok =>
      obtain ⟨rfl, rfl⟩ := Prod.mk.inj (Option.some.inj hs)
      rw [checkEvent, Option.toList_some, touched_snoc, taken_snoc]
      simp [ih, Event.taken, Event.touched, or_assoc, Prod.ext_iff, eq_comm]
    | nominateBest =>
      obtain ⟨rfl, rfl⟩ := Prod.mk.inj (Option.some.inj hs)
      simp [checkEvent, ih]

end Runs

/-- Whatever calls are made on a new checklist, it has every pair checked once. -/
theorem checks_once {A B : List IceCandidate} {h : CheckHistory} {c : IceChecklist}
    (hrun : Run IceChecklist.step (.new A B) h c) : ChecksOnce A B h where
  inOrder := by
    have hserved := served_of_run hrun
    obtain ⟨ps, hsub, heq⟩ := List.sublist_map_iff.mp hserved.sublist
    have hranked := (pairs_ranked (h := []) .nil).sublist hsub
    have hnodup := hserved.nodup
    rw [heq] at hnodup
    refine ⟨ps, hsub, (returned_eq_taken h).trans heq, ?_⟩
    refine (List.pairwise_map.mp hnodup).imp₂ (fun p q hne hrank => ⟨hne, ?_⟩) hranked
    exact UInt64.le_iff_toNat_le.mpr (hrank.elim le_of_lt fun h => h.1.le)
  unsettled := by
    rintro h₀ t h₁ x rfl hout hgiven
    obtain ⟨hpre, hs⟩ := hrun.split
    rw [hout] at hs
    have hfirst := (output_checking hs).trans (nextCheck_first hpre)
    exact firstLeft_some hfirst.symm ((mem_touched hpre).mpr (.inr hgiven))
  covered := by
    rintro h₀ t h₁ rfl hout p hp
    obtain ⟨hpre, hs⟩ := hrun.split
    rw [hout] at hs
    have hnone := (output_checking hs).trans (nextCheck_first hpre)
    have hin : p.indices ∈ (IceChecklist.new A B).pairs.map CandidatePair.indices := by
      rw [← indices_of_run hpre]
      exact List.mem_map_of_mem hp
    exact (mem_touched hpre).mp (firstLeft_none hnone.symm p.indices hin)

/-- A result for a pair that has not been returned, one for indices that no pair has, and
checks until none is left. -/
theorem earlyResult_once :
    ∃ h c, exec IceChecklist.step (.new clientHosts serverHosts)
        [.markCheckResult 1 0 true, .nextCheck, .markCheckResult 7 7 false, .nominateBest,
          .nextCheck, .nextCheck, .nextCheck] = some (h, c) ∧
      returned h = [(1, 1), (0, 1), (0, 0)] ∧ ChecksOnce clientHosts serverHosts h := by
  have hsome : ((exec IceChecklist.step (.new clientHosts serverHosts)
      [.markCheckResult 1 0 true, .nextCheck, .markCheckResult 7 7 false, .nominateBest,
        .nextCheck, .nextCheck, .nextCheck]).any fun x =>
      returned x.1 = [(1, 1), (0, 1), (0, 0)]) = true := by decide +kernel
  obtain ⟨⟨h, c⟩, hexec, hx⟩ := (Option.any_eq_true _ _).mp hsome
  exact ⟨h, c, hexec, of_decide_eq_true hx, checks_once (Run.of_exec hexec)⟩

end Todero.Ice
