import Mathlib.Data.List.Basic
import Mathlib.Data.Set.Basic
import Mathlib.Logic.Function.Basic

/-! Maps that change one key at a time, the journal of such changes, and a memory
whose changes reach its journal later than the memory itself. -/
namespace Journal
variable {κ ν : Type}

/-- A key and what it holds afterwards. -/
structure Change (κ ν : Type) where
  key : κ
  after : Option ν
  deriving DecidableEq, Repr

variable [DecidableEq κ]

def Change.apply (m : κ → Option ν) (c : Change κ ν) : κ → Option ν :=
  Function.update m c.key c.after

def replay (m : κ → Option ν) (cs : List (Change κ ν)) : κ → Option ν :=
  cs.foldl Change.apply m

/-- What the last change of a key leaves there; `none` if no change is of the key. -/
def last (k : κ) : List (Change κ ν) → Option (Option ν)
  | [] => none
  | c :: cs => (last k cs).or (if c.key = k then some c.after else none)

section Replay
variable {m : κ → Option ν} {cs : List (Change κ ν)} {c : Change κ ν} {k : κ}

@[simp] theorem apply_same : c.apply m c.key = c.after := Function.update_self ..

theorem apply_other (h : k ≠ c.key) : c.apply m k = m k := Function.update_of_ne h ..

@[simp] theorem replay_nil : replay m [] = m := rfl

@[simp] theorem replay_cons : replay m (c :: cs) = replay (c.apply m) cs := rfl

theorem replay_append (ds : List (Change κ ν)) :
    replay m (cs ++ ds) = replay (replay m cs) ds := List.foldl_append

/-- Key by key, a replay is its last change or the map it started from. -/
theorem replay_eq (m : κ → Option ν) (cs : List (Change κ ν)) (k : κ) :
    replay m cs k = (last k cs).getD (m k) := by
  induction cs generalizing m with
  | nil => rfl
  | cons c cs ih =>
    rw [replay_cons, ih, last]
    cases hl : last k cs with
    | some after => rfl
    | none =>
      by_cases hk : c.key = k
      · subst hk
        simp
      · simp [hk, apply_other (Ne.symm hk)]

/-- Once replayed, a journal changes nothing any more. -/
theorem replay_replay (m : κ → Option ν) (cs : List (Change κ ν)) :
    replay (replay m cs) cs = replay m cs := by
  funext k
  rw [replay_eq (replay m cs), replay_eq m]
  cases last k cs <;> rfl

/-- The last change of a key that is touched does not depend on what was there before. -/
theorem last_touched (h : ¬ ∀ c ∈ cs, c.key ≠ k) (a b : Option ν) :
    (last k cs).getD a = (last k cs).getD b := by
  induction cs with
  | nil => simp at h
  | cons c cs ih =>
    rw [last]
    by_cases hrest : ∀ c ∈ cs, c.key ≠ k
    · by_cases hc : c.key = k
      · cases last k cs <;> simp [hc]
      · exact absurd (fun d hd => (List.mem_cons.mp hd).elim (fun heq => heq ▸ hc) (hrest d)) h
    · have hsome := ih hrest
      cases hl : last k cs with
      | some after => rfl
      | none =>
        rw [hl] at hsome
        by_cases hc : c.key = k <;> simp [hc, show a = b from hsome]

/-- A replay that leads towards a map reaches it wherever it starts on it or touches it. -/
theorem replay_eq_of_agree {m' : κ → Option ν} (hcs : ∀ c ∈ cs, c.after = m' c.key)
    (hrest : (∀ c ∈ cs, c.key ≠ k) → m k = m' k) : replay m cs k = m' k := by
  induction cs generalizing m with
  | nil => exact hrest (by simp)
  | cons c cs ih =>
    refine ih (fun d hd => hcs d (List.mem_cons_of_mem c hd)) fun huntouched => ?_
    by_cases hk : k = c.key
    · subst hk
      rw [apply_same, hcs c List.mem_cons_self]
    · rw [apply_other hk]
      refine hrest fun d hd => ?_
      rcases List.mem_cons.mp hd with rfl | hd'
      · exact Ne.symm hk
      · exact huntouched d hd'

theorem replay_of_untouched (h : ∀ c ∈ cs, c.key ≠ k) : replay m cs k = m k := by
  induction cs generalizing m with
  | nil => rfl
  | cons c cs ih =>
    rw [replay_cons, ih fun d hd => h d (List.mem_cons_of_mem c hd)]
    exact apply_other (h c List.mem_cons_self).symm

end Replay

section Covered
variable {memory journaled m m' : κ → Option ν} {pending rest : Set (Change κ ν)}
  {c : Change κ ν} {cs : List (Change κ ν)}

/-- Whatever the journal does not show yet is about to be written to it. -/
def Covered (memory journaled : κ → Option ν) (pending : Set (Change κ ν)) : Prop :=
  ∀ k, journaled k = memory k ∨ ⟨k, memory k⟩ ∈ pending

omit [DecidableEq κ] in
theorem Covered.of_eq (h : journaled = memory) : Covered memory journaled pending :=
  fun k => .inl (congrFun h k)

omit [DecidableEq κ] in
theorem Covered.eq_of_empty (h : Covered memory journaled ∅) : journaled = memory :=
  funext fun k => (h k).resolve_right (Set.notMem_empty _)

omit [DecidableEq κ] in
theorem Covered.mono (h : Covered memory journaled pending) (hsub : pending ⊆ rest) :
    Covered memory journaled rest :=
  fun k => (h k).imp id fun hk => hsub hk

/-- A change of the memory that is still to be written. -/
theorem Covered.write (h : Covered memory journaled pending) (hc : c ∈ pending) :
    Covered (c.apply memory) journaled pending := by
  intro k
  by_cases hk : k = c.key
  · subst hk
    right
    rw [apply_same]
    exact hc
  · rw [apply_other hk]
    exact h k

/-- Many changes of the memory that are still to be written. -/
theorem Covered.writes (h : Covered memory journaled pending) (hcs : ∀ c ∈ cs, c ∈ pending) :
    Covered (replay memory cs) journaled pending := by
  induction cs generalizing memory with
  | nil => exact h
  | cons c cs ih =>
    exact ih (h.write (hcs c List.mem_cons_self)) fun d hd => hcs d (List.mem_cons_of_mem c hd)

/-- A change that reaches the memory and the journal at once. -/
theorem Covered.apply (h : Covered memory journaled pending) (c : Change κ ν) :
    Covered (c.apply memory) (c.apply journaled) pending := by
  intro k
  by_cases hk : k = c.key
  · subst hk
    left
    rw [apply_same, apply_same]
  · rw [apply_other hk, apply_other hk]
    exact h k

theorem Covered.replay (h : Covered memory journaled pending) (cs : List (Change κ ν)) :
    Covered (replay memory cs) (replay journaled cs) pending := by
  induction cs generalizing memory journaled with
  | nil => exact h
  | cons c cs ih => exact ih (h.apply c)

/-- Writing `c` down keeps everything covered exactly if it is what the memory holds, or a
change to that is still to come. -/
theorem covered_append_iff (h : Covered memory journaled pending) (hsub : rest ⊆ pending)
    (hrest : ∀ d ∈ pending, d = c ∨ d ∈ rest) :
    Covered memory (c.apply journaled) rest ↔
      c.after = memory c.key ∨ ⟨c.key, memory c.key⟩ ∈ pending := by
  constructor
  · intro hafter
    refine (hafter c.key).imp (fun hsame => ?_) fun hpend => hsub hpend
    rwa [apply_same] at hsame
  · intro hc k
    by_cases hk : k = c.key
    · subst hk
      rw [apply_same]
      by_cases hsame : c.after = memory c.key
      · exact .inl hsame
      · refine .inr ((hrest _ (hc.resolve_left hsame)).resolve_left fun heq => hsame ?_)
        exact (congrArg Change.after heq).symm
    · rw [apply_other hk]
      refine (h k).imp id fun hpend => ?_
      exact (hrest _ hpend).resolve_left fun heq => hk (congrArg Change.key heq)

/-- Putting `m'` under the journal shows in the keys that the journal does not mention. -/
theorem covered_rebase_iff (h : Covered memory (replay m cs) pending) :
    Covered memory (replay m' cs) pending ↔
      ∀ k, (∀ c ∈ cs, c.key ≠ k) → m' k = memory k ∨ ⟨k, memory k⟩ ∈ pending := by
  constructor
  · intro hafter k huntouched
    have hk := hafter k
    rwa [replay_of_untouched huntouched] at hk
  · intro hc k
    by_cases huntouched : ∀ c ∈ cs, c.key ≠ k
    · rw [replay_of_untouched huntouched]
      exact hc k huntouched
    · have hk := h k
      rwa [replay_eq, last_touched huntouched (m k) (m' k), ← replay_eq] at hk

end Covered

end Journal
