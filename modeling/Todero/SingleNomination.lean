import Todero.Nomination

/-! How many pairs of a checklist carry the flag `nominated`, and in which state they are. No
call takes the flag away again, neither a failed check nor the nomination of another pair. -/
namespace Todero.Ice
open Ranking Transition

/-- At most one pair is nominated, and it has succeeded. -/
def IceChecklist.SingleNominated (c : IceChecklist) : Prop :=
  (c.pairs.filter CandidatePair.nominated).length ≤ 1 ∧
    ∀ p ∈ c.pairs, p.nominated → p.state = .succeeded

/-- The call does no harm to a nomination: a check that fails is not that of a nominated pair,
and a pair nominated before is still the one that stands first. -/
def Careful (A B : List IceCandidate) (t : Taken IceChecklist CheckOp CheckAnswer) : Prop :=
  match t.input with
  | .nextCheck => True
  | .markCheckResult localIndex remoteIndex ok =>
    ok = true ∨ ∀ p ∈ t.pre.pairs, p.nominated → p.indices ≠ (localIndex, remoteIndex)
  | .nominateBest => ∀ p ∈ t.pre.pairs, p.nominated →
    ∀ y ∈ t.pre.succeeded, standing A B y ≤ standing A B p.indices

theorem enumeratedPairs_fresh {A B : List IceCandidate} {p : CandidatePair}
    (hp : p ∈ enumeratedPairs A B) : ¬ p.nominated ∧ p.state = .frozen := by
  obtain ⟨⟨l, li⟩, -, hp⟩ := List.mem_flatMap.mp hp
  obtain ⟨⟨r, ri⟩, -, hp⟩ := List.mem_filterMap.mp hp
  dsimp only at hp
  split_ifs at hp
  obtain rfl := Option.some.inj hp
  exact ⟨Bool.false_ne_true, rfl⟩

/-! ### The pairs of one state -/

section Pairs
variable {c c' : IceChecklist}

theorem nominated_length_le_one {pairs : List CandidatePair}
    (hnodup : (pairs.map CandidatePair.indices).Nodup) :
    (pairs.filter CandidatePair.nominated).length ≤ 1 ↔
      ∀ p ∈ pairs, p.nominated → ∀ q ∈ pairs, q.nominated → p.indices = q.indices := by
  constructor
  · intro hle p hp hpn q hq hqn
    have hp' := List.mem_filter.mpr ⟨hp, hpn⟩
    have hq' := List.mem_filter.mpr ⟨hq, hqn⟩
    generalize pairs.filter CandidatePair.nominated = l at *
    rcases l with _ | ⟨a, _ | ⟨b, l⟩⟩
    · cases hp'
    · rw [List.mem_singleton.mp hp', List.mem_singleton.mp hq']
    · simp at hle
  · intro hall
    have hsub : ((pairs.filter CandidatePair.nominated).map CandidatePair.indices).Nodup :=
      hnodup.sublist (List.filter_sublist.map _)
    have hmem : ∀ p ∈ pairs.filter CandidatePair.nominated, p ∈ pairs ∧ p.nominated := by
      intro p hp
      exact List.mem_filter.mp hp
    generalize pairs.filter CandidatePair.nominated = l at *
    rcases l with _ | ⟨a, _ | ⟨b, l⟩⟩
    · simp
    · simp
    · obtain ⟨ha, han⟩ := hmem a (by simp)
      obtain ⟨hb, hbn⟩ := hmem b (by simp)
      have hne := List.ne_of_not_mem_cons (List.nodup_cons.mp hsub).1
      exact absurd (hall a ha han b hb hbn) hne

theorem mem_succeeded {p : CandidatePair} (hp : p ∈ c.pairs) (hstate : p.state = .succeeded) :
    p.indices ∈ c.succeeded :=
  List.mem_map_of_mem (List.mem_filter.mpr ⟨hp, decide_eq_true hstate⟩)

/-- Every call that takes no pair out of `succeeded` that is nominated, and nominates none. -/
theorem IceChecklist.SingleNominated.of_origin (hnodup : (c.pairs.map CandidatePair.indices).Nodup)
    (hnodup' : (c'.pairs.map CandidatePair.indices).Nodup) (hc : c.SingleNominated)
    (horigin : ∀ b ∈ c'.pairs, b.nominated → ∃ a ∈ c.pairs, a.nominated ∧
      a.indices = b.indices ∧ (a.state = .succeeded → b.state = .succeeded)) :
    c'.SingleNominated := by
  obtain ⟨hone, hworks⟩ := hc
  have hsame := (nominated_length_le_one hnodup).mp hone
  refine ⟨(nominated_length_le_one hnodup').mpr fun p hp hpn q hq hqn => ?_, fun p hp hpn => ?_⟩
  · obtain ⟨a, ha, han, heq, -⟩ := horigin p hp hpn
    obtain ⟨b, hb, hbn, heq', -⟩ := horigin q hq hqn
    rw [← heq, ← heq']
    exact hsame a ha han b hb hbn
  · obtain ⟨a, ha, han, -, hkeeps⟩ := horigin p hp hpn
    exact hkeeps (hworks a ha han)

end Pairs

/-! ### One call -/

section Step
variable {A B : List IceCandidate} {h : CheckHistory} {c : IceChecklist}

theorem indices_nodup (hrun : Run IceChecklist.step (.new A B) h c) :
    (c.pairs.map CandidatePair.indices).Nodup := by
  refine List.pairwise_map.mpr ((pairs_ranked hrun).imp_of_mem ?_)
  intro p q hp hq hranked heq
  have hpriority : p.priority = q.priority := by
    rw [pairs_priority hrun hp, pairs_priority hrun hq, (Prod.mk.inj heq).1, (Prod.mk.inj heq).2]
  obtain hlt | ⟨-, hlt⟩ := hranked
  · have hlt : q.priority.toNat < p.priority.toNat := hlt
    rw [hpriority] at hlt
    exact lt_irrefl _ hlt
  · rw [heq] at hlt
    exact lt_irrefl _ hlt

theorem indices_withState (state : CandidatePairState) (p : CandidatePair) :
    (p.withState state).indices = p.indices := rfl

/-- What a check writes to a pair, and the pair it is written to. -/
theorem updateFirst_single {p : CandidatePair → Bool} {state : CandidatePairState}
    (hnodup : (c.pairs.map CandidatePair.indices).Nodup) (hc : c.SingleNominated)
    (hsafe : ∀ a ∈ c.pairs, a.nominated → p a → state = .succeeded) :
    ({ c with pairs := updateFirst p (CandidatePair.withState state) c.pairs } :
      IceChecklist).SingleNominated := by
  have hindices : (updateFirst p (CandidatePair.withState state) c.pairs).map
      CandidatePair.indices = c.pairs.map CandidatePair.indices :=
    updateFirst_map (indices_withState state) c.pairs
  refine hc.of_origin hnodup (hindices ▸ hnodup) fun b hb hbn => ?_
  obtain hold | ⟨a, ha, hp, rfl⟩ := mem_updateFirst hb
  · exact ⟨b, hold, hbn, rfl, id⟩
  · exact ⟨a, ha, hbn, rfl, fun _ => hsafe a ha hbn hp⟩

/-- The next check is of a frozen pair, so not of one that has succeeded. -/
theorem nextCheck_single (hnodup : (c.pairs.map CandidatePair.indices).Nodup)
    (hc : c.SingleNominated) : c.nextCheck.1.SingleNominated := by
  refine updateFirst_single hnodup hc fun a ha han hfrozen => ?_
  rw [CandidatePair.isIn, hc.2 a ha han] at hfrozen
  exact absurd hfrozen (by decide)

theorem markCheckResult_single_iff (hnodup : (c.pairs.map CandidatePair.indices).Nodup)
    (hc : c.SingleNominated) {l r : Nat} {ok : Bool} :
    (c.markCheckResult l r ok).SingleNominated ↔
      ok = true ∨ ∀ p ∈ c.pairs, p.nominated → p.indices ≠ (l, r) := by
  constructor
  · intro hafter
    by_contra hnot
    obtain ⟨hok, hhit⟩ := not_or.mp hnot
    push Not at hhit
    obtain ⟨p, hp, hpn, heq⟩ := hhit
    obtain ⟨rfl, rfl⟩ := Prod.mk.inj heq
    have hfailed : p.withState (if ok then .succeeded else .failed) ∈
        (c.markCheckResult p.localIndex p.remoteIndex ok).pairs := by
      refine updateFirst_mem _ hp (by simp) fun b hb hfound => ?_
      refine List.inj_on_of_nodup_map hnodup hb hp ?_
      simpa [CandidatePair.indices] using hfound
    have hstate := hafter.2 _ hfailed hpn
    rw [if_neg hok] at hstate
    cases hstate
  · intro hcareful
    refine updateFirst_single hnodup hc fun a ha han hfound => ?_
    obtain rfl | hother := hcareful
    · rfl
    · refine absurd ?_ (hother a ha han)
      simpa [CandidatePair.indices] using hfound

theorem nominateBest_none (hbest : c.best = none) : c.nominateBest.1 = c := by
  rw [IceChecklist.nominateBest, hbest]

/-- The pair that a nomination writes to, and the pairs it leaves as they are. -/
theorem nominateBest_pairs {p : CandidatePair} {i : Nat} (hbest : c.best = some (p, i)) :
    c.nominateBest.1.pairs = c.pairs.set i { p with nominated := true } ∧
      { p with nominated := true } ∈ c.nominateBest.1.pairs ∧
      ∀ q ∈ c.pairs, q.indices ≠ p.indices → q ∈ c.nominateBest.1.pairs := by
  have hget : c.pairs[i]? = some p := (best_getElem? hbest).1
  have hpairs : c.nominateBest.1.pairs = c.pairs.set i { p with nominated := true } := by
    rw [IceChecklist.nominateBest, hbest]
  rw [hpairs]
  refine ⟨rfl, List.mem_set (List.getElem?_eq_some_iff.mp hget).1 _, fun q hq hne => ?_⟩
  obtain ⟨j, hj⟩ := List.mem_iff_getElem?.mp hq
  have hij : i ≠ j := by
    rintro rfl
    exact hne (congrArg CandidatePair.indices (Option.some.inj (hj.symm.trans hget)))
  exact List.mem_iff_getElem?.mpr ⟨j, by rw [List.getElem?_set_ne hij, hj]⟩

/-- A second nomination adds a nominated pair, unless it is of the same one. -/
theorem nominateBest_single_iff (hrun : Run IceChecklist.step (.new A B) h c)
    (hc : c.SingleNominated) :
    c.nominateBest.1.SingleNominated ↔
      ∀ p ∈ c.pairs, p.nominated → ∀ y ∈ c.succeeded,
        standing A B y ≤ standing A B p.indices := by
  have hnodup' : (c.nominateBest.1.pairs.map CandidatePair.indices).Nodup :=
    indices_nodup (hrun.snoc (i := .nominateBest) rfl)
  cases hbest : c.best with
  | none =>
    rw [nominateBest_none hbest]
    refine iff_of_true hc fun p hp hpn y hy => ?_
    rw [best_eq_none.mp hbest] at hy
    cases hy
  | some b =>
    obtain ⟨p, i⟩ := b
    obtain ⟨hpairs, hbestIn, hstays⟩ := nominateBest_pairs hbest
    obtain ⟨hmem, hfirst⟩ := best_standing hrun hbest
    constructor
    · intro hafter q hq hqn
      have hsame : q.indices = p.indices := by
        by_contra hne
        exact hne ((nominated_length_le_one hnodup').mp hafter.1 q (hstays q hq hne) hqn
          { p with nominated := true } hbestIn rfl)
      rw [hsame]
      exact hfirst
    · intro hcareful
      have hsame : ∀ q ∈ c.nominateBest.1.pairs, q.nominated → q.indices = p.indices := by
        intro q hq hqn
        rw [hpairs] at hq
        obtain hq | rfl := List.mem_or_eq_of_mem_set hq
        · exact standing_inj (le_antisymm (hfirst _ (mem_succeeded hq (hc.2 q hq hqn)))
            (hcareful q hq hqn _ hmem))
        · rfl
      refine ⟨(nominated_length_le_one hnodup').mpr fun q hq hqn q' hq' hqn' => ?_,
        fun q hq hqn => ?_⟩
      · rw [hsame q hq hqn, hsame q' hq' hqn']
      · obtain rfl := List.inj_on_of_nodup_map hnodup' hq hbestIn (hsame q hq hqn)
        exact (best_getElem? hbest).2

theorem step_single_iff (hrun : Run IceChecklist.step (.new A B) h c) (hc : c.SingleNominated)
    {op : CheckOp} {o : CheckAnswer} {c' : IceChecklist} (hs : c.step op = some (c', o)) :
    c'.SingleNominated ↔ Careful A B ⟨c, op, o, c'⟩ := by
  cases op with
  | nextCheck =>
    obtain ⟨rfl, -⟩ := Prod.mk.inj (Option.some.inj hs)
    exact iff_of_true (nextCheck_single (indices_nodup hrun) hc) trivial
  | markCheckResult l r ok =>
    obtain ⟨rfl, -⟩ := Prod.mk.inj (Option.some.inj hs)
    exact markCheckResult_single_iff (indices_nodup hrun) hc
  | nominateBest =>
    obtain ⟨rfl, -⟩ := Prod.mk.inj (Option.some.inj hs)
    exact nominateBest_single_iff hrun hc

end Step

/-- Whatever calls are made, in all states there is at most one nominated pair and it has
succeeded exactly if no call harms a nomination. -/
theorem single_nomination_iff {A B : List IceCandidate} {h : CheckHistory} {c : IceChecklist}
    (hrun : Run IceChecklist.step (.new A B) h c) :
    ((IceChecklist.new A B).SingleNominated ∧ ∀ t ∈ h, t.post.SingleNominated) ↔
      ∀ t ∈ h, Careful A B t := by
  have hnew : (IceChecklist.new A B).SingleNominated := by
    have hnone : ∀ p ∈ (IceChecklist.new A B).pairs, ¬ p.nominated := by
      intro p hp
      exact (enumeratedPairs_fresh (mem_sortDesc.mp hp)).1
    refine ⟨?_, fun p hp hpn => absurd hpn (hnone p hp)⟩
    rw [List.filter_eq_nil_iff.mpr hnone]
    exact Nat.zero_le 1
  rw [and_iff_right hnew]
  refine hrun.all_iff hnew fun _ c op c' o hrun hc hs => ?_
  exact step_single_iff hrun hc hs

/-- Two checks succeed and the better pair is nominated, twice. -/
theorem bestPair_single :
    ∃ h c, exec IceChecklist.step (.new clientHosts serverHosts)
        (checking (fun i j => i ≠ j) ++ [.nominateBest, .nominateBest]) = some (h, c) ∧
      (((IceChecklist.new clientHosts serverHosts).SingleNominated ∧
          ∀ t ∈ h, t.post.SingleNominated) ↔
        ∀ t ∈ h, Careful clientHosts serverHosts t) := by
  have hsome : (exec IceChecklist.step (.new clientHosts serverHosts)
      (checking (fun i j => i ≠ j) ++ [.nominateBest, .nominateBest])).isSome := by
    decide +kernel
  obtain ⟨⟨h, c⟩, hexec⟩ := Option.isSome_iff_exists.mp hsome
  exact ⟨h, c, hexec, single_nomination_iff (Run.of_exec hexec)⟩

/-- A nominated pair fails its next check, and another one is nominated beside it. -/
theorem failedPair_nominated :
    ¬ ∀ (A B : List IceCandidate) (h : CheckHistory) (c : IceChecklist),
      Run IceChecklist.step (.new A B) h c → c.SingleNominated := by
  intro hclaim
  have hsome : ((exec IceChecklist.step (.new clientHosts serverHosts)
      (checking (fun i j => i ≠ j) ++
        [.nominateBest, .markCheckResult 1 0 false, .nominateBest])).any fun x =>
      (x.2.pairs.filter CandidatePair.nominated).map (fun p => (p.indices, p.state)) =
        [((1, 0), .failed), ((0, 1), .succeeded)]) = true := by decide +kernel
  obtain ⟨⟨h, c⟩, hexec, hx⟩ := (Option.any_eq_true _ _).mp hsome
  have htwo := congrArg List.length (of_decide_eq_true hx)
  rw [List.length_map] at htwo
  have hone := (hclaim _ _ h c (Run.of_exec hexec)).1
  rw [htwo] at hone
  exact absurd hone (by decide)

end Todero.Ice
