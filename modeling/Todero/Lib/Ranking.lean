import Mathlib.Data.List.Induction
import Mathlib.Data.List.Sort

/-! Stable sorting by a key, greatest first, and the last one of the greatest elements. -/
namespace Ranking
variable {α κ : Type} [LinearOrder κ] (key : α → κ)

/-- Stable: what is equal under the key stays in order. -/
def sortDesc (l : List α) : List α := l.insertionSort fun a b => key b ≤ key a

/-- `a` comes before `b`: its key is greater, or the same and `a` was before `b`. -/
def Ranked (s : α → α → Prop) (a b : α) : Prop := key b < key a ∨ key b = key a ∧ s a b

/-- `max_by` on an iterator: of elements equal under the key, the last one. -/
def lastMax : List α → Option α
  | [] => none
  | a :: l => some (l.foldl (fun x y => if key y < key x then x else y) a)

variable {key} {s : α → α → Prop} {l : List α}

theorem orderedInsert_ranked {a : α} (hl : l.Pairwise (Ranked key s)) (ha : ∀ b ∈ l, s a b) :
    (l.orderedInsert (fun a b => key b ≤ key a) a).Pairwise (Ranked key s) := by
  induction l with
  | nil => simp
  | cons b l ih =>
    obtain ⟨hb, hl'⟩ := List.pairwise_cons.mp hl
    by_cases hle : key b ≤ key a
    · rw [List.orderedInsert_cons_of_le (fun a b => key b ≤ key a) l hle]
      refine List.pairwise_cons.mpr ⟨fun c hc => ?_, hl⟩
      have hcb : key c ≤ key b := by
        rcases List.mem_cons.mp hc with rfl | hc
        · exact le_rfl
        · exact (hb c hc).elim le_of_lt fun h => h.1.le
      rcases (hcb.trans hle).lt_or_eq with hlt | heq
      · exact .inl hlt
      · exact .inr ⟨heq, ha c hc⟩
    · rw [List.orderedInsert_of_not_le (fun a b => key b ≤ key a) l hle]
      refine List.pairwise_cons.mpr ⟨fun c hc => ?_, ih hl' fun c hc => ha c (.tail b hc)⟩
      rcases (List.mem_orderedInsert _).mp hc with rfl | hc
      · exact .inl (not_le.mp hle)
      · exact hb c hc

theorem sortDesc_ranked (h : l.Pairwise s) : (sortDesc key l).Pairwise (Ranked key s) := by
  induction l with
  | nil => exact .nil
  | cons a l ih =>
    obtain ⟨ha, hl⟩ := List.pairwise_cons.mp h
    exact orderedInsert_ranked (ih hl) fun b hb => ha b ((List.mem_insertionSort _).mp hb)

theorem mem_sortDesc {a : α} : a ∈ sortDesc key l ↔ a ∈ l := List.mem_insertionSort _

theorem lastMax_eq_none : lastMax key l = none ↔ l = [] := by
  cases l <;> simp [lastMax]

/-- Nothing before the chosen element has a greater key, nothing after it one as great. -/
theorem lastMax_split {x : α} (h : lastMax key l = some x) :
    ∃ l₁ l₂, l = l₁ ++ x :: l₂ ∧ (∀ y ∈ l₁, key y ≤ key x) ∧ ∀ y ∈ l₂, key y < key x := by
  induction l using List.reverseRecOn generalizing x with
  | nil => simp [lastMax] at h
  | append_singleton l a ih =>
    cases l with
    | nil =>
      rw [List.nil_append, lastMax, List.foldl_nil, Option.some.injEq] at h
      exact ⟨[], [], by simp [h], by simp, by simp⟩
    | cons b l =>
      simp only [List.cons_append, lastMax, List.foldl_append, List.foldl_cons, List.foldl_nil,
        Option.some.injEq] at h
      obtain ⟨l₁, l₂, hsplit, hbefore, hafter⟩ := ih rfl
      generalize l.foldl (fun x y => if key y < key x then x else y) b = m at *
      split_ifs at h with hlt
      · subst h
        refine ⟨l₁, l₂ ++ [a], by simp [hsplit], hbefore, fun y hy => ?_⟩
        rcases List.mem_append.mp hy with hy | hy
        · exact hafter y hy
        · rwa [List.mem_singleton.mp hy]
      · subst h
        have hm : key m ≤ key a := not_lt.mp hlt
        refine ⟨b :: l, [], by simp, fun y hy => ?_, by simp⟩
        rw [hsplit] at hy
        rcases List.mem_append.mp hy with hy | hy
        · exact (hbefore y hy).trans hm
        · rcases List.mem_cons.mp hy with rfl | hy
          · exact hm
          · exact (hafter y hy).le.trans hm

/-- The chosen element of a sorted list: of those with the greatest key, the one that was
last before the list was sorted. -/
theorem lastMax_ranked {x : α} (hl : l.Pairwise (Ranked key s)) (h : lastMax key l = some x) :
    x ∈ l ∧ ∀ y ∈ l, y = x ∨ key y < key x ∨ key y = key x ∧ s y x := by
  obtain ⟨l₁, l₂, rfl, hbefore, hafter⟩ := lastMax_split h
  refine ⟨by simp, fun y hy => ?_⟩
  rcases List.mem_append.mp hy with hy | hy
  · rcases (List.pairwise_append.mp hl).2.2 y hy x List.mem_cons_self with hlt | ⟨heq, hs⟩
    · exact absurd (hbefore y hy) (not_le.mpr hlt)
    · exact .inr (.inr ⟨heq.symm, hs⟩)
  · rcases List.mem_cons.mp hy with rfl | hy
    · exact .inl rfl
    · exact .inr (.inl (hafter y hy))

end Ranking
