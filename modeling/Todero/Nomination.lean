import Mathlib.Data.Prod.Lex
import Todero.IceChecklist

/-! What the two ends of an ICE session nominate, each from its own checklist. The two
checklists hold the same pairs, each with its indices the other way round. -/
namespace Todero.Ice
open Ranking Transition

/-- The pairs that have succeeded, in the order of the list. -/
def IceChecklist.succeeded (c : IceChecklist) : List (Nat × Nat) :=
  (c.pairs.filter (CandidatePair.isIn .succeeded)).map CandidatePair.indices

def priorityOf (cs : List IceCandidate) (i : Nat) : UInt32 :=
  (cs[i]?.map IceCandidate.priority).getD 0

/-- The part of a pair's priority that does not depend on which end computes it. -/
def sharedPriority (localPriority remotePriority : UInt32) : UInt64 :=
  4294967296 * (min localPriority remotePriority).toUInt64 +
    2 * (max localPriority remotePriority).toUInt64

theorem sharedPriority_comm (l r : UInt32) : sharedPriority l r = sharedPriority r l := by
  unfold sharedPriority
  rw [UInt32.min_def, UInt32.min_def, UInt32.max_def, UInt32.max_def]
  split_ifs with hle hge hge
  · rw [UInt32.le_antisymm hle hge]
  · rfl
  · rfl
  · exact absurd ((UInt32.le_total l r).resolve_left hle) hge

theorem sharedPriority_even (l r : UInt32) : (sharedPriority l r).toNat % 2 = 0 := by
  rw [sharedPriority, UInt64.toNat_add, UInt64.toNat_mul, UInt64.toNat_mul]
  simp only [UInt64.reduceToNat]
  omega

/-- The last bit is set where the local candidate has the greater priority. -/
theorem pairPriority_toNat (l r : UInt32) :
    (pairPriority l r).toNat =
      (sharedPriority l r).toNat + if compare l.toNat r.toNat = .gt then 1 else 0 := by
  have heven := sharedPriority_even l r
  have hlt := (sharedPriority l r).toNat_lt
  have hsplit : pairPriority l r = sharedPriority l r + if l > r then 1 else 0 := rfl
  rw [hsplit, UInt64.toNat_add]
  by_cases hgt : l > r
  · rw [if_pos hgt, if_pos (Nat.compare_eq_gt.mpr (UInt32.lt_iff_toNat_lt.mp hgt)),
      UInt64.toNat_one]
    omega
  · rw [if_neg hgt, if_neg fun h => hgt (UInt32.lt_iff_toNat_lt.mpr (Nat.compare_eq_gt.mp h)),
      UInt64.toNat_zero]
    omega

/-- The other end sets it where the remote one has. -/
theorem pairPriority_swap (l r : UInt32) :
    (pairPriority r l).toNat =
      (sharedPriority l r).toNat + if compare l.toNat r.toNat = .lt then 1 else 0 := by
  rw [pairPriority_toNat, sharedPriority_comm]
  simp only [Nat.compare_eq_gt, Nat.compare_eq_lt]

/-! ### What one end nominates -/

section Checklist
variable {A B : List IceCandidate} {h : CheckHistory} {c : IceChecklist}

theorem zipIdx_pairwise {α : Type} (l : List α) :
    l.zipIdx.Pairwise fun a b => a.2 < b.2 := by
  have hsnd : (l.zipIdx.map Prod.snd).Pairwise (· < ·) := by
    rw [List.zipIdx_map_snd]
    exact List.pairwise_lt_range' 1
  exact List.pairwise_map.mp hsnd

theorem enumeratedPairs_pairwise (A B : List IceCandidate) :
    (enumeratedPairs A B).Pairwise fun p q => toLex p.indices < toLex q.indices := by
  refine List.pairwise_flatMap.mpr ⟨fun ⟨l, li⟩ _ => ?_, ?_⟩
  · refine (zipIdx_pairwise B).filterMap _ fun ⟨r, ri⟩ ⟨r', ri'⟩ hlt p hp q hq => ?_
    dsimp only at hp hq
    split_ifs at hp hq
    obtain rfl := Option.some.inj hp
    obtain rfl := Option.some.inj hq
    exact Prod.Lex.toLex_lt_toLex.mpr (.inr ⟨rfl, hlt⟩)
  · refine (zipIdx_pairwise A).imp ?_
    intro ⟨l, li⟩ ⟨l', li'⟩ hlt p hp q hq
    obtain ⟨⟨r, ri⟩, -, hp⟩ := List.mem_filterMap.mp hp
    obtain ⟨⟨r', ri'⟩, -, hq⟩ := List.mem_filterMap.mp hq
    dsimp only at hp hq
    split_ifs at hp hq
    obtain rfl := Option.some.inj hp
    obtain rfl := Option.some.inj hq
    exact Prod.Lex.toLex_lt_toLex.mpr (.inl hlt)

theorem mem_enumeratedPairs {p : CandidatePair} (hp : p ∈ enumeratedPairs A B) :
    p.priority = pairPriority (priorityOf A p.localIndex) (priorityOf B p.remoteIndex) := by
  obtain ⟨⟨l, li⟩, hl, hp⟩ := List.mem_flatMap.mp hp
  obtain ⟨⟨r, ri⟩, hr, hp⟩ := List.mem_filterMap.mp hp
  dsimp only at hp
  split_ifs at hp
  obtain rfl := Option.some.inj hp
  have hl' : A[li]? = some l := List.mk_mem_zipIdx_iff_getElem?.mp hl
  have hr' : B[ri]? = some r := List.mk_mem_zipIdx_iff_getElem?.mp hr
  simp [priorityOf, hl', hr']

/-- No call moves a pair or changes its priority. -/
theorem pairs_ranked (hrun : Run IceChecklist.step (.new A B) h c) :
    c.pairs.Pairwise (Ranked (fun p => p.priority.toNat)
      fun p q => toLex p.indices < toLex q.indices) := by
  have hnew : (IceChecklist.new A B).pairs.Pairwise (Ranked (fun p => p.priority.toNat)
      fun p q => toLex p.indices < toLex q.indices) :=
    sortDesc_ranked (enumeratedPairs_pairwise A B)
  have hranks : ((IceChecklist.new A B).pairs.map CandidatePair.rank).Pairwise
      (Ranked (fun x => x.2.toNat) fun x y => toLex x.1 < toLex y.1) :=
    List.pairwise_map.mpr hnew
  rw [← ranks_of_run hrun] at hranks
  have hpairs := List.pairwise_map.mp hranks
  exact hpairs

theorem pairs_priority (hrun : Run IceChecklist.step (.new A B) h c) {p : CandidatePair}
    (hp : p ∈ c.pairs) :
    p.priority = pairPriority (priorityOf A p.localIndex) (priorityOf B p.remoteIndex) := by
  have hrank := List.mem_map_of_mem (f := CandidatePair.rank) hp
  rw [ranks_of_run hrun] at hrank
  obtain ⟨q, hq, hrank⟩ := List.mem_map.mp hrank
  obtain ⟨hindices, hpriority⟩ := Prod.mk.inj hrank
  obtain ⟨hlocal, hremote⟩ := Prod.mk.inj hindices
  rw [← hpriority, ← hlocal, ← hremote]
  exact mem_enumeratedPairs (mem_sortDesc.mp hq)

/-- What decides between two succeeded pairs: the priority, and then which of them comes
later in the nested loops. -/
def standing (A B : List IceCandidate) (x : Nat × Nat) : ℕ ×ₗ ℕ ×ₗ ℕ :=
  toLex ((pairPriority (priorityOf A x.1) (priorityOf B x.2)).toNat, toLex x)

theorem standing_inj {x y : Nat × Nat} (heq : standing A B x = standing A B y) : x = y :=
  toLex.injective (Prod.mk.inj (toLex.injective heq)).2

theorem pairs_standing (hrun : Run IceChecklist.step (.new A B) h c) {p : CandidatePair}
    (hp : p ∈ c.pairs) : standing A B p.indices = toLex (p.priority.toNat, toLex p.indices) := by
  rw [pairs_priority hrun hp]
  rfl

theorem nominateBest_indices (c : IceChecklist) :
    c.nominateBest.2.map CandidatePair.indices = c.best.map fun b => b.1.indices := by
  unfold IceChecklist.nominateBest
  cases c.best <;> rfl

/-- The places that `best` looks at, without the places. -/
theorem candidates_pairs (c : IceChecklist) :
    (c.pairs.zipIdx.filter fun p => p.1.isIn .succeeded).map Prod.fst =
      c.pairs.filter (CandidatePair.isIn .succeeded) := by
  conv_rhs => rw [← List.zipIdx_map_fst 0 c.pairs]
  rw [List.filter_map]
  rfl

theorem best_eq_none : c.best = none ↔ c.succeeded = [] := by
  rw [IceChecklist.best, lastMax_eq_none, IceChecklist.succeeded, List.map_eq_nil_iff,
    ← candidates_pairs, List.map_eq_nil_iff]

/-- One end nominates the succeeded pair that stands first. -/
theorem best_standing (hrun : Run IceChecklist.step (.new A B) h c) {b : CandidatePair × Nat}
    (hbest : c.best = some b) :
    b.1.indices ∈ c.succeeded ∧
      ∀ y ∈ c.succeeded, standing A B y ≤ standing A B b.1.indices := by
  have hmem : ∀ {a : CandidatePair × Nat},
      a ∈ c.pairs.zipIdx.filter (fun p => p.1.isIn .succeeded) → a.1 ∈ c.pairs := by
    intro a ha
    have hfst := List.mem_map_of_mem (f := Prod.fst) ha
    rw [candidates_pairs] at hfst
    exact List.mem_of_mem_filter hfst
  have hranked : (c.pairs.zipIdx.filter fun p => p.1.isIn .succeeded).Pairwise
      (Ranked (fun p => p.1.priority.toNat)
        fun p q => toLex p.1.indices < toLex q.1.indices) := by
    have hpairs := (pairs_ranked hrun).filter (CandidatePair.isIn .succeeded)
    rw [← candidates_pairs] at hpairs
    have hplaces := List.pairwise_map.mp hpairs
    exact hplaces
  obtain ⟨hb, hall⟩ := lastMax_ranked hranked hbest
  have hsucceeded : c.succeeded =
      (c.pairs.zipIdx.filter fun p => p.1.isIn .succeeded).map fun a => a.1.indices := by
    rw [IceChecklist.succeeded, ← candidates_pairs, List.map_map]
    rfl
  rw [hsucceeded]
  refine ⟨List.mem_map_of_mem hb, fun y hy => ?_⟩
  obtain ⟨a, ha, rfl⟩ := List.mem_map.mp hy
  rw [pairs_standing hrun (hmem ha), pairs_standing hrun (hmem hb), Prod.Lex.toLex_le_toLex]
  obtain rfl | hlt | ⟨heq, hlater⟩ := hall a ha
  · exact .inr ⟨rfl, le_rfl⟩
  · exact .inl hlt
  · exact .inr ⟨heq, hlater.le⟩

theorem nominated_iff (hrun : Run IceChecklist.step (.new A B) h c) {x : Nat × Nat} :
    c.nominateBest.2.map CandidatePair.indices = some x ↔
      x ∈ c.succeeded ∧ ∀ y ∈ c.succeeded, standing A B y ≤ standing A B x := by
  rw [nominateBest_indices]
  cases hbest : c.best with
  | none =>
    rw [best_eq_none.mp hbest]
    simp
  | some b =>
    obtain ⟨hmem, hfirst⟩ := best_standing hrun hbest
    rw [Option.map_some, Option.some.injEq]
    constructor
    · rintro rfl
      exact ⟨hmem, hfirst⟩
    · intro ⟨hx, hall⟩
      exact standing_inj (le_antisymm (hall _ hmem) (hfirst x hx))

theorem nominated_none : c.nominateBest.2.map CandidatePair.indices = none ↔ c.succeeded = [] := by
  rw [nominateBest_indices, Option.map_eq_none_iff, best_eq_none]

end Checklist

/-! ### Both ends -/

/-- Which of the two candidates of a pair has the greater priority. -/
def greater (A B : List IceCandidate) (x : Nat × Nat) : Ordering :=
  compare (priorityOf A x.1).toNat (priorityOf B x.2).toNat

def shared (A B : List IceCandidate) (x : Nat × Nat) : UInt64 :=
  sharedPriority (priorityOf A x.1) (priorityOf B x.2)

/-- `y` does not keep `x` from being nominated by both ends: its priority is smaller without
the last bit, or the same, and the last bit and the order of the loops speak for `x` at both
ends. -/
def Behind (A B : List IceCandidate) (y x : Nat × Nat) : Prop :=
  shared A B y < shared A B x ∨
    shared A B y = shared A B x ∧
      (greater A B y = greater A B x ∧ y.1 ≤ x.1 ∧ y.2 ≤ x.2 ∨
        greater A B y = .eq ∧
          (greater A B x = .gt ∧ toLex y.swap ≤ toLex x.swap ∨
            greater A B x = .lt ∧ toLex y ≤ toLex x))

theorem behind_iff (A B : List IceCandidate) (y x : Nat × Nat) :
    standing A B y ≤ standing A B x ∧ standing B A y.swap ≤ standing B A x.swap ↔
      Behind A B y x := by
  have hy := sharedPriority_even (priorityOf A y.1) (priorityOf B y.2)
  have hx := sharedPriority_even (priorityOf A x.1) (priorityOf B x.2)
  simp only [Behind, standing, shared, greater, Prod.Lex.toLex_le_toLex, Prod.fst_swap,
    Prod.snd_swap, pairPriority_toNat (priorityOf A _), pairPriority_swap (priorityOf A _),
    UInt64.lt_iff_toNat_lt, ← UInt64.toNat_inj]
  generalize (sharedPriority (priorityOf A y.1) (priorityOf B y.2)).toNat = sy at *
  generalize (sharedPriority (priorityOf A x.1) (priorityOf B x.2)).toNat = sx at *
  generalize compare (priorityOf A y.1).toNat (priorityOf B y.2).toNat = gy
  generalize compare (priorityOf A x.1).toNat (priorityOf B x.2).toNat = gx
  cases gy <;> cases gx <;> simp only [reduceCtorEq, if_true, if_false, true_and, false_and,
    or_false, false_or, and_false] <;> omega

/-- Whatever checks the two ends have made, when the same pairs have succeeded at both of
them, they nominate the same pair exactly if every other one is behind it. -/
theorem nominations_agree_iff {A B : List IceCandidate} {h₁ h₂ : CheckHistory}
    {c₁ c₂ : IceChecklist} (hrun₁ : Run IceChecklist.step (.new A B) h₁ c₁)
    (hrun₂ : Run IceChecklist.step (.new B A) h₂ c₂)
    (hsame : ∀ x, x ∈ c₁.succeeded ↔ x.swap ∈ c₂.succeeded) :
    c₁.nominateBest.2.map CandidatePair.indices =
        (c₂.nominateBest.2.map CandidatePair.indices).map Prod.swap ↔
      c₁.succeeded = [] ∨ ∃ x ∈ c₁.succeeded, ∀ y ∈ c₁.succeeded, Behind A B y x := by
  have hnone : c₂.succeeded = [] ↔ c₁.succeeded = [] := by
    simp only [List.eq_nil_iff_forall_not_mem, hsame, Prod.forall, Prod.swap_prod_mk]
    exact forall_comm
  have hboth : ∀ x, c₁.nominateBest.2.map CandidatePair.indices = some x ∧
      c₂.nominateBest.2.map CandidatePair.indices = some x.swap ↔
        x ∈ c₁.succeeded ∧ ∀ y ∈ c₁.succeeded, Behind A B y x := by
    intro x
    have hmirror : (∀ z ∈ c₂.succeeded, standing B A z ≤ standing B A x.swap) ↔
        ∀ y ∈ c₁.succeeded, standing B A y.swap ≤ standing B A x.swap := by
      refine ⟨fun hall y hy => hall _ ((hsame y).mp hy), fun hall z hz => ?_⟩
      exact hall z.swap ((hsame z.swap).mpr hz)
    rw [nominated_iff hrun₁, nominated_iff hrun₂, ← hsame, hmirror]
    simp only [← behind_iff, forall_and]
    tauto
  cases hone : c₁.nominateBest.2.map CandidatePair.indices with
  | none =>
    have hempty := nominated_none.mp hone
    rw [nominated_none.mpr (hnone.mpr hempty)]
    exact iff_of_true rfl (.inl hempty)
  | some x =>
    have hne : c₁.succeeded ≠ [] := by
      intro hempty
      rw [nominated_none.mpr hempty] at hone
      cases hone
    constructor
    · intro heq
      obtain ⟨z, hz, rfl⟩ := Option.map_eq_some_iff.mp heq.symm
      exact .inr ⟨z.swap, (hboth z.swap).mp ⟨hone, hz⟩⟩
    · intro hor
      obtain ⟨z, hz⟩ := hor.resolve_left hne
      obtain ⟨hone', htwo⟩ := (hboth z).mpr hz
      obtain rfl := Option.some.inj (hone.symm.trans hone')
      rw [htwo, Option.map_some, Prod.swap_swap]

/-- A host candidate. -/
def host (bits : UInt32) (port : UInt16) (priority : UInt32) : IceCandidate :=
  ⟨"f", 1, "udp", priority, .v4 bits, port, .host, none, none⟩

/-- Two candidates of each end, with the same two priorities. -/
def clientHosts : List IceCandidate := [host 0x0A000001 5000 100, host 0x0A000001 5001 200]
def serverHosts : List IceCandidate := [host 0x0A000002 6000 100, host 0x0A000002 6001 200]

/-- All four pairs are checked, and the given ones succeed. -/
def checking (ok : Nat → Nat → Bool) : List CheckOp :=
  [(1, 1), (1, 0), (0, 1), (0, 0)].flatMap fun (i, j) =>
    [.nextCheck, .markCheckResult i j (ok i j)]

theorem bestPair_agreed :
    ∃ h₁ c₁ h₂ c₂,
      exec IceChecklist.step (.new clientHosts serverHosts) (checking fun _ _ => true) =
          some (h₁, c₁) ∧
        exec IceChecklist.step (.new serverHosts clientHosts) (checking fun _ _ => true) =
          some (h₂, c₂) ∧
        (c₁.nominateBest.2.map CandidatePair.indices =
            (c₂.nominateBest.2.map CandidatePair.indices).map Prod.swap ↔
          c₁.succeeded = [] ∨
            ∃ x ∈ c₁.succeeded, ∀ y ∈ c₁.succeeded, Behind clientHosts serverHosts y x) := by
  have hsome₁ : ((exec IceChecklist.step (.new clientHosts serverHosts)
      (checking fun _ _ => true)).any fun x =>
        x.2.succeeded = [(1, 1), (1, 0), (0, 1), (0, 0)]) = true := by decide +kernel
  have hsome₂ : ((exec IceChecklist.step (.new serverHosts clientHosts)
      (checking fun _ _ => true)).any fun x =>
        x.2.succeeded = [(1, 1), (1, 0), (0, 1), (0, 0)]) = true := by decide +kernel
  obtain ⟨⟨h₁, c₁⟩, hexec₁, hx₁⟩ := (Option.any_eq_true _ _).mp hsome₁
  obtain ⟨⟨h₂, c₂⟩, hexec₂, hx₂⟩ := (Option.any_eq_true _ _).mp hsome₂
  refine ⟨h₁, c₁, h₂, c₂, hexec₁, hexec₂,
    nominations_agree_iff (Run.of_exec hexec₁) (Run.of_exec hexec₂) fun ⟨i, j⟩ => ?_⟩
  have hone : c₁.succeeded = [(1, 1), (1, 0), (0, 1), (0, 0)] := of_decide_eq_true hx₁
  have htwo : c₂.succeeded = [(1, 1), (1, 0), (0, 1), (0, 0)] := of_decide_eq_true hx₂
  rw [hone, htwo]
  simp
  omega

/-- Each end nominates the pair of its own better candidate. -/
theorem crossPairs_disagree :
    ¬ ∀ (A B : List IceCandidate) (h₁ h₂ : CheckHistory) (c₁ c₂ : IceChecklist),
      Run IceChecklist.step (.new A B) h₁ c₁ → Run IceChecklist.step (.new B A) h₂ c₂ →
        (∀ x, x ∈ c₁.succeeded ↔ x.swap ∈ c₂.succeeded) →
          c₁.nominateBest.2.map CandidatePair.indices =
            (c₂.nominateBest.2.map CandidatePair.indices).map Prod.swap := by
  intro hclaim
  have hsome₁ : ((exec IceChecklist.step (.new clientHosts serverHosts)
      (checking fun i j => i ≠ j)).any fun x => x.2.succeeded = [(1, 0), (0, 1)] ∧
        x.2.nominateBest.2.map CandidatePair.indices = some (1, 0)) = true := by decide +kernel
  have hsome₂ : ((exec IceChecklist.step (.new serverHosts clientHosts)
      (checking fun i j => i ≠ j)).any fun x => x.2.succeeded = [(1, 0), (0, 1)] ∧
        x.2.nominateBest.2.map CandidatePair.indices = some (1, 0)) = true := by decide +kernel
  obtain ⟨⟨h₁, c₁⟩, hexec₁, hx₁⟩ := (Option.any_eq_true _ _).mp hsome₁
  obtain ⟨⟨h₂, c₂⟩, hexec₂, hx₂⟩ := (Option.any_eq_true _ _).mp hsome₂
  obtain ⟨hone, hnominated₁⟩ := of_decide_eq_true hx₁
  obtain ⟨htwo, hnominated₂⟩ := of_decide_eq_true hx₂
  have hagree := hclaim clientHosts serverHosts h₁ h₂ c₁ c₂ (Run.of_exec hexec₁)
    (Run.of_exec hexec₂) fun ⟨i, j⟩ => by
      rw [hone, htwo]
      simp
      omega
  rw [hnominated₁, hnominated₂] at hagree
  exact absurd hagree (by decide)

end Todero.Ice
