import Mathlib

/-! Tree maps keyed below a bound: the size never passes the bound, and reaches it
exactly when every key below it is there. -/
namespace BoundedKeys
variable {β : Type*}

/-- Every key of `t` is below `n`. -/
def Below (n : Nat) (t : Std.TreeMap Nat β) : Prop := ∀ k ∈ t, k < n

theorem keys_nodup (t : Std.TreeMap Nat β) : t.keys.Nodup := by
  have h := t.distinct_keys
  simpa [List.Nodup] using h

def keySet (t : Std.TreeMap Nat β) : Finset Nat := t.keys.toFinset

theorem mem_keySet {t : Std.TreeMap Nat β} {k : Nat} : k ∈ keySet t ↔ k ∈ t := by
  rw [keySet, List.mem_toFinset, Std.TreeMap.mem_keys]

theorem card_keySet (t : Std.TreeMap Nat β) : (keySet t).card = t.size := by
  rw [keySet, List.toFinset_card_of_nodup (keys_nodup t), Std.TreeMap.length_keys]

theorem Below.subset_range {n : Nat} {t : Std.TreeMap Nat β} (h : Below n t) :
    keySet t ⊆ Finset.range n :=
  fun k hk => Finset.mem_range.mpr (h k (mem_keySet.mp hk))

theorem Below.full_iff {n : Nat} {t : Std.TreeMap Nat β} (h : Below n t) :
    t.size = n ↔ ∀ k < n, k ∈ t := by
  constructor
  · intro hs k hk
    have heq := Finset.eq_of_subset_of_card_le h.subset_range
      (by rw [card_keySet, hs, Finset.card_range])
    rw [← mem_keySet, heq]
    exact Finset.mem_range.mpr hk
  · intro hall
    have heq : keySet t = Finset.range n := by
      apply Finset.Subset.antisymm h.subset_range
      intro k hk
      exact mem_keySet.mpr (hall k (Finset.mem_range.mp hk))
    rw [← card_keySet, heq, Finset.card_range]

theorem Below.size_le {n : Nat} {t : Std.TreeMap Nat β} (h : Below n t) : t.size ≤ n := by
  rw [← card_keySet]
  simpa using Finset.card_le_card h.subset_range

theorem Below.insertIfNew {n k : Nat} {t : Std.TreeMap Nat β} (h : Below n t) (hk : k < n)
    (v : β) : Below n (t.insertIfNew k v) := by
  intro a ha
  rcases Std.TreeMap.mem_insertIfNew.mp ha with he | ha
  · have : k = a := by simpa using he
    omega
  · exact h a ha

/-- An entry that is there stays. -/
theorem getElem?_insertIfNew (t : Std.TreeMap Nat β) (k a : Nat) (v : β) :
    (t.insertIfNew k v)[a]? = t[a]?.or (if k = a then some v else none) := by
  simp only [Std.TreeMap.getElem?_insertIfNew, Std.LawfulEqCmp.compare_eq_iff_eq]
  by_cases hk : k = a
  · subst hk
    cases hv : t[k]? with
    | none =>
      have : k ∉ t := by simp [Std.TreeMap.mem_iff_isSome_getElem?, hv]
      simp [this]
    | some w =>
      have : k ∈ t := by simp [Std.TreeMap.mem_iff_isSome_getElem?, hv]
      simp [this]
  · simp [hk]

end BoundedKeys
