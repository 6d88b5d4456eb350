import Mathlib.Data.List.Induction
import Mathlib.Data.List.Nodup

/-! Items that are handed out in the order of a list, each at most once, while any of them may
be settled at any time without having been handed out. -/
namespace Worklist
variable {α : Type}

inductive Event (α : Type) where
  | next (item : Option α)
  | settle (item : α)

def Event.taken : Event α → Option α
  | .next item => item
  | .settle _ => none

def Event.touched : Event α → Option α
  | .next item => item
  | .settle item => some item

/-- The items handed out, in the order they were. -/
def taken (h : List (Event α)) : List α := h.filterMap Event.taken

/-- The items handed out or settled. -/
def touched (h : List (Event α)) : List α := h.filterMap Event.touched

variable {h h₀ h₁ : List (Event α)} {e : Event α} {x : α}

theorem taken_snoc : taken (h ++ [e]) = taken h ++ e.taken.toList := by
  cases htaken : e.taken <;> simp [taken, htaken]

theorem touched_snoc : touched (h ++ [e]) = touched h ++ e.touched.toList := by
  cases htouched : e.touched <;> simp [touched, htouched]

theorem touched_of_taken (hx : x ∈ taken h) : x ∈ touched h := by
  obtain ⟨e, he, htaken⟩ := List.mem_filterMap.mp hx
  refine List.mem_filterMap.mpr ⟨e, he, ?_⟩
  cases e with
  | next item => exact htaken
  | settle item => cases htaken

theorem Event.eq_next (htaken : e.taken = some x) : e = .next (some x) := by
  cases e with
  | next item => exact congrArg Event.next htaken
  | settle item => cases htaken

variable [DecidableEq α] {items : List α}

/-- The first item that has not been touched yet. -/
def firstLeft (items : List α) (h : List (Event α)) : Option α :=
  items.find? fun x => x ∉ touched h

/-- Each time the first item that is left is handed out. -/
def Served (items : List α) (h : List (Event α)) : Prop :=
  ∀ h₀ item h₁, h = h₀ ++ .next item :: h₁ → item = firstLeft items h₀

theorem firstLeft_map {β : Type} {f : β → α} {p : β → Bool} {l : List β}
    (hp : ∀ b ∈ l, p b = true ↔ f b ∉ touched h) :
    firstLeft (l.map f) h = (l.find? p).map f := by
  rw [firstLeft, List.find?_map, ← List.head?_filter, ← List.head?_filter]
  refine congrArg (fun bs => (List.head? bs).map f) (List.filter_congr fun b hb => ?_)
  rw [Bool.eq_iff_iff, hp b hb, Function.comp_apply, decide_eq_true_iff]

theorem firstLeft_some (hfirst : firstLeft items h = some x) : x ∉ touched h := by
  simpa using List.find?_some hfirst

theorem firstLeft_none (hfirst : firstLeft items h = none) : ∀ x ∈ items, x ∈ touched h := by
  simpa [firstLeft] using hfirst

theorem Served.front (hserved : Served items (h₀ ++ h₁)) : Served items h₀ := by
  rintro g item g' rfl
  exact hserved g item (g' ++ h₁) (by simp)

theorem Served.nodup (hserved : Served items h) : (taken h).Nodup := by
  induction h using List.reverseRecOn with
  | nil => exact List.nodup_nil
  | append_singleton h e ih =>
    rw [taken_snoc]
    cases htaken : e.taken with
    | none => simpa using ih hserved.front
    | some x =>
      obtain rfl := Event.eq_next htaken
      refine List.nodup_append.mpr ⟨ih hserved.front, List.nodup_singleton x, ?_⟩
      rintro y hy z hz rfl
      obtain rfl := List.mem_singleton.mp hz
      exact firstLeft_some (hserved h (some _) [] rfl).symm (touched_of_taken hy)

/-- The part of the list in front of what was handed out last has been touched. -/
theorem Served.split (hserved : Served items h) :
    ∃ done rest, items = done ++ rest ∧ (taken h).Sublist done ∧ ∀ x ∈ done, x ∈ touched h := by
  induction h using List.reverseRecOn with
  | nil => exact ⟨[], items, rfl, List.Sublist.refl [], by simp⟩
  | append_singleton h e ih =>
    obtain ⟨done, rest, hsplit, hsub, hdone⟩ := ih hserved.front
    rw [taken_snoc, touched_snoc]
    cases htaken : e.taken with
    | none =>
      refine ⟨done, rest, hsplit, by simpa using hsub, fun x hx => ?_⟩
      exact List.mem_append_left _ (hdone x hx)
    | some x =>
      obtain rfl := Event.eq_next htaken
      obtain ⟨hnew, as, bs, hfirst, has⟩ :=
        List.find?_eq_some_iff_append.mp (hserved h (some x) [] rfl).symm
      -- `x` has not been touched, so it stands behind the part that has
      have hlater : done <+: as := by
        rw [hsplit] at hfirst
        obtain ⟨mid, hmid, -⟩ | ⟨mid, hmid, hrest⟩ := List.append_eq_append_iff.mp hfirst
        · exact ⟨mid, hmid.symm⟩
        · cases mid with
          | nil => exact ⟨[], by simp [hmid]⟩
          | cons y mid =>
            obtain rfl := (List.cons.inj hrest).1
            have htouched := hdone x (by simp [hmid])
            simp [htouched] at hnew
      refine ⟨as ++ [x], bs, by simp [hfirst], ?_, fun y hy => ?_⟩
      · exact (hsub.trans hlater.sublist).append (List.Sublist.refl [x])
      · obtain hy | hy := List.mem_append.mp hy
        · exact List.mem_append_left _ (by simpa using has y hy)
        · exact List.mem_append_right _ hy

/-- What is handed out keeps the order of the list. -/
theorem Served.sublist (hserved : Served items h) : (taken h).Sublist items := by
  obtain ⟨done, rest, rfl, hsub, -⟩ := hserved.split
  exact hsub.trans (List.sublist_append_left done rest)

end Worklist
