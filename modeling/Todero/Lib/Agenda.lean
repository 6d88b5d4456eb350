import Mathlib.Data.List.Count

/-! Agendas: a slot of entries for each key, worked off in the order of the keys and
within a slot first in, first out. An entry may stand in a slot more than once. -/
namespace Agenda
variable {κ α : Type} [Ord κ]

/-- The entries under a key, in the order they were pushed. -/
def slot (q : Std.TreeMap κ (List α)) (k : κ) : List α := (q[k]?).getD []

def push (q : Std.TreeMap κ (List α)) (k : κ) (a : α) : Std.TreeMap κ (List α) :=
  q.insert k (slot q k ++ [a])

/-- Push an entry unless its slot has it already. -/
def pushNew [BEq α] (q : Std.TreeMap κ (List α)) (k : κ) (a : α) : Std.TreeMap κ (List α) :=
  if (slot q k).contains a then q else push q k a

/-- An entry at the end of a slot, unless the slot has it already. -/
def join [BEq α] (slot : List α) (a : α) : List α :=
  if slot.contains a then slot else slot ++ [a]

/-- Take one occurrence of an entry out, and the slot with its last entry. -/
def take [BEq α] (q : Std.TreeMap κ (List α)) (k : κ) (a : α) : Std.TreeMap κ (List α) :=
  match q[k]? with
  | none => q
  | some slot => if (slot.erase a).isEmpty then q.erase k else q.insert k (slot.erase a)

/-- Slots one after the other, each entry with its key. -/
def flatten (l : List (κ × List α)) : List (κ × α) := l.flatMap fun s => s.2.map (s.1, ·)

def entries (q : Std.TreeMap κ (List α)) : List (κ × α) := flatten q.toList

/-- The entries that `f` keeps. -/
def picked {β : Type} (f : α → Option β) (l : List (κ × α)) : List (κ × β) :=
  l.filterMap fun e => (f e.2).map (e.1, ·)

def due (now : κ) (e : κ × α) : Bool := (compare e.1 now).isLE

/-- The first `limit` entries, slot by slot, up to the first slot after `now`. -/
def collect (now : κ) (limit : Nat) : List (κ × List α) → List (κ × α) → List (κ × α)
  | [], acc => acc
  | (k, slot) :: rest, acc =>
    if compare k now = .gt ∨ acc.length ≥ limit then acc
    else collect now limit rest (acc ++ (slot.take (limit - acc.length)).map (k, ·))

/-! ### Slots -/

section Slot
variable [Std.TransOrd κ] [Std.LawfulEqOrd κ] [DecidableEq κ]

theorem slot_push (q : Std.TreeMap κ (List α)) (k k' : κ) (a : α) :
    slot (push q k a) k' = slot q k' ++ if k' = k then [a] else [] := by
  by_cases h : k' = k
  · simp [slot, push, h]
  · simp [slot, push, Std.TreeMap.getElem?_insert, h, Ne.symm h]

theorem slot_take [BEq α] (q : Std.TreeMap κ (List α)) (k k' : κ) (a : α) :
    slot (take q k a) k' = if k' = k then (slot q k').erase a else slot q k' := by
  unfold take
  cases hq : q[k]? with
  | none =>
    split_ifs with h
    · rw [h, slot, hq]
      rfl
    · rfl
  | some entries =>
    dsimp only
    by_cases h : k' = k
    · subst h
      by_cases hempty : (entries.erase a).isEmpty
      · rw [if_pos hempty, if_pos rfl]
        simp only [slot, Std.TreeMap.getElem?_erase_self, hq, Option.getD_none, Option.getD_some]
        exact (List.isEmpty_iff.mp hempty).symm
      · rw [if_neg hempty, if_pos rfl]
        simp [slot, hq]
    · have hne : ¬ compare k k' = .eq := by simpa using Ne.symm h
      split_ifs
      · rw [slot, Std.TreeMap.getElem?_erase, if_neg hne, slot]
      · rw [slot, Std.TreeMap.getElem?_insert, if_neg hne, slot]

theorem slot_pushNew [BEq α] [LawfulBEq α] (q : Std.TreeMap κ (List α)) (k k' : κ) (a : α) :
    slot (pushNew q k a) k' = slot q k' ++ if k' = k ∧ a ∉ slot q k then [a] else [] := by
  by_cases hmem : a ∈ slot q k
  · rw [pushNew, if_pos (List.contains_iff_mem.mpr hmem), if_neg fun h => h.2 hmem, List.append_nil]
  · rw [pushNew, if_neg fun h => hmem (List.contains_iff_mem.mp h), slot_push]
    simp only [hmem, not_false_eq_true, and_true]

theorem slot_pushNews [BEq α] [LawfulBEq α] (new : List (κ × α)) (q : Std.TreeMap κ (List α))
    (k : κ) : slot (new.foldl (fun q e => pushNew q e.1 e.2) q) k =
      ((new.filter (·.1 = k)).map (·.2)).foldl join (slot q k) := by
  induction new generalizing q with
  | nil => rfl
  | cons e new ih =>
    obtain ⟨k', a⟩ := e
    rw [List.foldl_cons, ih, slot_pushNew]
    by_cases h : k' = k
    · subst h
      by_cases hmem : a ∈ slot q k' <;> simp [join, hmem]
    · simp [h, Ne.symm h]

end Slot

section Join
variable [BEq α] [LawfulBEq α]

omit [Ord κ] in
theorem mem_join {l : List α} {a b : α} : b ∈ join l a ↔ b ∈ l ∨ b = a := by
  unfold join
  split_ifs with h
  · exact ⟨.inl, fun hb => hb.elim id fun hb => hb ▸ List.contains_iff_mem.mp h⟩
  · simp

theorem mem_joins {l new : List α} {b : α} : b ∈ new.foldl join l ↔ b ∈ l ∨ b ∈ new := by
  induction new generalizing l with
  | nil => simp
  | cons a new ih => rw [List.foldl_cons, ih, mem_join, List.mem_cons, or_assoc]

omit [LawfulBEq α] in
theorem head?_joins (l new : List α) : (new.foldl join l).head? = l.head?.or new.head? := by
  induction new generalizing l with
  | nil => simp
  | cons a new ih =>
    rw [List.foldl_cons, ih, join]
    cases l with
    | nil => simp
    | cons b l => split_ifs <;> simp

/-- A map that tells apart the entries it keeps goes through. -/
theorem filterMap_joins {β : Type} [BEq β] [LawfulBEq β] {f : α → Option β}
    (hinj : ∀ a b c, f a = some c → f b = some c → a = b) (l new : List α) :
    (new.foldl join l).filterMap f = (new.filterMap f).foldl join (l.filterMap f) := by
  induction new generalizing l with
  | nil => rfl
  | cons a new ih =>
    rw [List.foldl_cons, ih]
    cases hf : f a with
    | none =>
      rw [List.filterMap_cons_none hf, join]
      split_ifs <;> simp [hf]
    | some b =>
      have hmem : b ∈ l.filterMap f ↔ a ∈ l := by
        rw [List.mem_filterMap]
        exact ⟨fun ⟨a', ha', hb⟩ => hinj a' a b hb hf ▸ ha', fun ha => ⟨a, ha, hf⟩⟩
      rw [List.filterMap_cons_some hf, List.foldl_cons, join, join]
      by_cases ha : a ∈ l <;> simp [ha, hmem, hf]

end Join

/-! ### Entries -/

omit [Ord κ] in
theorem mem_flatten {l : List (κ × List α)} {e : κ × α} :
    e ∈ flatten l ↔ ∃ slot, (e.1, slot) ∈ l ∧ e.2 ∈ slot := by
  obtain ⟨k, a⟩ := e
  simp [flatten]

omit [Ord κ] in
theorem flatten_cons (k : κ) (slot : List α) (l : List (κ × List α)) :
    flatten ((k, slot) :: l) = slot.map (k, ·) ++ flatten l := rfl

section Entries
variable [BEq κ] [LawfulBEq κ] [BEq α] [LawfulBEq α]

variable [Std.TransOrd κ] [Std.LawfulEqOrd κ] [DecidableEq κ]

omit [Ord κ] [BEq κ] [LawfulBEq κ] [BEq α] [LawfulBEq α] [Std.TransOrd κ] [Std.LawfulEqOrd κ] in
/-- With every key in one slot only, its entries are those of that slot. -/
theorem filter_flatten {l : List (κ × List α)} (hkeys : l.Pairwise fun s t => s.1 ≠ t.1)
    {k : κ} {slot : List α} (hmem : (k, slot) ∈ l) :
    (flatten l).filter (·.1 = k) = slot.map (k, ·) := by
  induction l with
  | nil => simp at hmem
  | cons s l ih =>
    obtain ⟨k', slot'⟩ := s
    obtain ⟨hfirst, hrest⟩ := List.pairwise_cons.mp hkeys
    rw [flatten_cons, List.filter_append]
    rcases List.mem_cons.mp hmem with heq | htail
    · obtain ⟨rfl, rfl⟩ := Prod.mk.inj heq
      have hnone : (flatten l).filter (·.1 = k) = [] := by
        refine List.filter_eq_nil_iff.mpr fun e he hk => ?_
        obtain ⟨other, hother, -⟩ := mem_flatten.mp he
        exact hfirst _ hother (of_decide_eq_true hk).symm
      rw [hnone, List.append_nil, List.filter_eq_self]
      simp
    · have hne : k' ≠ k := hfirst _ htail
      rw [ih hrest htail, List.filter_eq_nil_iff.mpr (by simp [hne]), List.nil_append]

omit [BEq κ] [LawfulBEq κ] [BEq α] [LawfulBEq α] in
theorem filter_entries (q : Std.TreeMap κ (List α)) (k : κ) :
    (entries q).filter (·.1 = k) = (slot q k).map (k, ·) := by
  cases hq : q[k]? with
  | some l =>
    have hkeys : q.toList.Pairwise fun s t => s.1 ≠ t.1 :=
      Std.TreeMap.distinct_keys_toList.imp fun h => by simpa using h
    rw [entries, filter_flatten hkeys (Std.TreeMap.mem_toList_iff_getElem?_eq_some.mpr hq), slot, hq]
    rfl
  | none =>
    rw [slot, hq, Option.getD_none, List.map_nil, List.filter_eq_nil_iff]
    intro e he hk
    obtain ⟨l, hmem, -⟩ := mem_flatten.mp he
    rw [Std.TreeMap.mem_toList_iff_getElem?_eq_some, of_decide_eq_true hk, hq] at hmem
    simp at hmem

theorem count_entries (q : Std.TreeMap κ (List α)) (k : κ) (a : α) :
    (entries q).count (k, a) = (slot q k).count a := by
  have hfilter : ((entries q).filter (·.1 = k)).count (k, a) = (entries q).count (k, a) :=
    List.count_filter (by simp)
  rw [← hfilter, filter_entries]
  exact List.count_map_of_injective _ _ (fun _ _ h => (Prod.mk.inj h).2) a

theorem mem_entries {q : Std.TreeMap κ (List α)} {k : κ} {a : α} :
    (k, a) ∈ entries q ↔ a ∈ slot q k := by
  rw [← List.count_pos_iff, count_entries, List.count_pos_iff]

theorem entries_push (q : Std.TreeMap κ (List α)) (k : κ) (a : α) :
    (entries (push q k a)).Perm (entries q ++ [(k, a)]) := by
  rw [List.perm_iff_count]
  rintro ⟨k', b⟩
  rw [count_entries, slot_push, List.count_append, List.count_append, count_entries]
  congr 1
  by_cases h : k' = k
  · subst h
    rw [if_pos rfl]
    exact (List.count_map_of_injective [a] _ (fun _ _ h => (Prod.mk.inj h).2) b).symm
  · rw [if_neg h, List.count_nil]
    exact (List.count_eq_zero_of_not_mem (by simp [h])).symm

theorem entries_pushNew (q : Std.TreeMap κ (List α)) (k : κ) (a : α) :
    (entries (pushNew q k a)).Perm (entries q ++ if a ∈ slot q k then [] else [(k, a)]) := by
  by_cases hmem : a ∈ slot q k
  · rw [pushNew, if_pos (List.contains_iff_mem.mpr hmem), if_pos hmem, List.append_nil]
  · rw [pushNew, if_neg fun h => hmem (List.contains_iff_mem.mp h), if_neg hmem]
    exact entries_push q k a

/-- Taking out an entry leaves the others. -/
theorem entries_take {q : Std.TreeMap κ (List α)} {k : κ} {a : α} {rest : List (κ × α)}
    (h : (entries q).Perm ((k, a) :: rest)) : (entries (take q k a)).Perm rest := by
  refine List.Perm.trans ?_ ((h.erase (k, a)).trans (by simp))
  rw [List.perm_iff_count]
  rintro ⟨k', b⟩
  rw [count_entries, slot_take, List.count_erase, count_entries]
  by_cases hk : k' = k
  · subst hk
    have heq : ((k', a) == (k', b)) = (a == b) := by
      change (k' == k' && a == b) = (a == b)
      rw [beq_self_eq_true, Bool.true_and]
    rw [if_pos rfl, List.count_erase, heq]
  · have hne : ((k, a) == (k', b)) = false := by simpa using fun h => absurd h.symm hk
    rw [if_neg hk, hne, if_neg Bool.false_ne_true, Nat.sub_zero]

end Entries

/-! ### Ordered entries -/

section Picked
variable {β : Type} {f : α → Option β}

omit [Ord κ] in
theorem filter_picked (p : κ → Bool) (l : List (κ × α)) :
    (picked f l).filter (fun e => p e.1) = picked f (l.filter fun e => p e.1) := by
  induction l with
  | nil => rfl
  | cons e l ih =>
    unfold picked at ih ⊢
    by_cases hp : p e.1 <;> cases hf : f e.2 <;> simp [hp, hf, ih]

omit [Ord κ] in
theorem picked_map (k : κ) (l : List α) :
    picked f (l.map (k, ·)) = (l.filterMap f).map (k, ·) := by
  rw [picked, List.filterMap_map, List.map_filterMap]
  rfl

omit [Ord κ] in
theorem picked_snd (l : List (κ × α)) : (picked f l).map (·.2) = l.filterMap fun e => f e.2 := by
  rw [picked, List.map_filterMap]
  congr 1
  funext e
  cases f e.2 <;> rfl

omit [Ord κ] in
theorem mem_picked {l : List (κ × α)} {k : κ} {b : β} :
    (k, b) ∈ picked f l ↔ ∃ a, (k, a) ∈ l ∧ f a = some b := by
  simp [picked]

omit [Ord κ] in
theorem picked_pairwise {R : κ → κ → Prop} {l : List (κ × α)}
    (h : l.Pairwise fun e e' => R e.1 e'.1) : (picked f l).Pairwise fun e e' => R e.1 e'.1 := by
  refine h.filterMap _ fun e e' hR b hb b' hb' => ?_
  obtain ⟨_, _, rfl⟩ := Option.map_eq_some_iff.mp hb
  obtain ⟨_, _, rfl⟩ := Option.map_eq_some_iff.mp hb'
  exact hR

end Picked

omit [Ord κ] in
/-- Of a list in which what has `q` comes after what has `p`. -/
theorem filter_or {l : List α} {p q : α → Bool} (h : l.Pairwise fun a b => q a → ¬ p b)
    (hnot : ∀ a ∈ l, p a → ¬ q a) : l.filter (fun a => p a || q a) = l.filter p ++ l.filter q := by
  induction l with
  | nil => rfl
  | cons a l ih =>
    obtain ⟨hfirst, hrest⟩ := List.pairwise_cons.mp h
    obtain ⟨hhead, htail⟩ := List.forall_mem_cons.mp hnot
    have hl := ih hrest htail
    by_cases hp : p a
    · simp [hp, hhead hp, hl]
    · by_cases hq : q a
      · have hnone : l.filter p = [] := List.filter_eq_nil_iff.mpr fun b hb => hfirst b hb hq
        rw [hnone, List.nil_append] at hl
        simp [hp, hq, hl, hnone]
      · simp [hp, hq, hl]

section Ordered
variable [Std.TransOrd κ] [Std.LawfulEqOrd κ] [DecidableEq κ]

/-- Lists in the order of their keys are the same if their slots are. -/
theorem ordered_ext {l l' : List (κ × α)} (hl : l.Pairwise fun e e' => (compare e.1 e'.1).isLE)
    (hl' : l'.Pairwise fun e e' => (compare e.1 e'.1).isLE)
    (h : ∀ k, l.filter (·.1 = k) = l'.filter (·.1 = k)) : l = l' := by
  induction l generalizing l' with
  | nil =>
    cases l' with
    | nil => rfl
    | cons e' l' =>
      have hslot := h e'.1
      simp at hslot
  | cons e l ih =>
    cases l' with
    | nil =>
      have hslot := h e.1
      simp at hslot
    | cons e' l' =>
      obtain ⟨hfirst, hrest⟩ := List.pairwise_cons.mp hl
      obtain ⟨hfirst', hrest'⟩ := List.pairwise_cons.mp hl'
      have hkey : e.1 = e'.1 := by
        by_contra hne
        have hin : e ∈ l' := by
          have hmem : e ∈ (e' :: l').filter (·.1 = e.1) := by
            rw [← h e.1]
            simp
          simpa [Ne.symm hne] using hmem
        have hin' : e' ∈ l := by
          have hmem : e' ∈ (e :: l).filter (·.1 = e'.1) := by
            rw [h e'.1]
            simp
          simpa [hne] using hmem
        exact hne (Std.LawfulEqCmp.eq_of_compare
          (Std.OrientedCmp.isLE_antisymm (hfirst e' hin') (hfirst' e hin)))
      have hslot := h e.1
      rw [List.filter_cons_of_pos (by simp), List.filter_cons_of_pos (by simp [hkey])] at hslot
      obtain ⟨rfl, -⟩ := List.cons.inj hslot
      refine congrArg (e :: ·) (ih hrest hrest' fun k => ?_)
      have hboth := h k
      by_cases hk : e.1 = k
      · simpa [hk] using hboth
      · simpa [hk] using hboth

end Ordered

/-! ### Due entries -/

section Due
variable [Std.TransOrd κ]

/-- The due entries are the first ones, as many as the limit lets through. -/
theorem collect_eq {now : κ} {limit : Nat} {l : List (κ × List α)}
    (hsorted : l.Pairwise fun s t => compare s.1 t.1 = .lt) (acc : List (κ × α)) :
    collect now limit l acc = acc ++ (flatten l).take
      (min (limit - acc.length) ((flatten l).countP (due now))) := by
  induction l generalizing acc with
  | nil => simp [collect, flatten]
  | cons s l ih =>
    obtain ⟨k, slot⟩ := s
    obtain ⟨hfirst, hrest⟩ := List.pairwise_cons.mp hsorted
    rw [collect, flatten_cons]
    split_ifs with hstop
    · obtain hlate | hfull := hstop
      · have hnone : ∀ e ∈ slot.map (k, ·) ++ flatten l, ¬ due now e := by
          rintro ⟨k', a⟩ he hdue
          have hle : (compare k k').isLE := by
            obtain hin | hin := List.mem_append.mp he
            · obtain ⟨_, _, heq⟩ := List.mem_map.mp hin
              rw [(Prod.mk.inj heq).1]
              exact Std.ReflCmp.isLE_rfl
            · obtain ⟨slot', hmem, -⟩ := mem_flatten.mp hin
              rw [hfirst _ hmem]
              rfl
          have hboth := Std.TransCmp.isLE_trans hle hdue
          rw [hlate] at hboth
          exact absurd hboth (by decide)
        rw [List.countP_eq_zero.mpr hnone]
        simp
      · simp [Nat.sub_eq_zero_of_le hfull]
    · obtain ⟨hearly, hroom⟩ := not_or.mp hstop
      have hall : (slot.map (k, ·)).countP (due now) = slot.length := by
        rw [List.countP_map, List.countP_eq_length]
        intro a _
        exact Ordering.isLE_iff_ne_gt.mpr hearly
      rw [ih hrest, List.countP_append, hall, List.append_assoc, List.take_append,
        List.length_append, List.length_map, List.length_map, List.length_take, List.map_take]
      congr 2
      · rw [← List.map_take, ← List.map_take, List.take_eq_take_iff.mpr]
        omega
      · congr 1
        omega

theorem flatten_ordered {l : List (κ × List α)}
    (hsorted : l.Pairwise fun s t => compare s.1 t.1 = .lt) :
    (flatten l).Pairwise fun e f => (compare e.1 f.1).isLE := by
  induction l with
  | nil => exact .nil
  | cons s l ih =>
    obtain ⟨k, slot⟩ := s
    obtain ⟨hfirst, hrest⟩ := List.pairwise_cons.mp hsorted
    rw [flatten_cons, List.pairwise_append]
    refine ⟨?_, ih hrest, fun e he f hf => ?_⟩
    · rw [List.pairwise_map]
      exact List.pairwise_of_forall fun _ _ => Std.ReflCmp.isLE_rfl
    · obtain ⟨a, _, rfl⟩ := List.mem_map.mp he
      obtain ⟨slot', hmem, -⟩ := mem_flatten.mp hf
      rw [hfirst _ hmem]
      rfl

theorem entries_ordered (q : Std.TreeMap κ (List α)) :
    (entries q).Pairwise fun e f => (compare e.1 f.1).isLE :=
  flatten_ordered q.ordered_keys_toList

omit [Ord κ] [Std.TransOrd κ] in
/-- Where what has `p` comes first, it is found by counting. -/
theorem take_countP {l : List α} {p : α → Bool} (h : l.Pairwise fun a b => p b → p a) :
    l.take (l.countP p) = l.filter p := by
  induction l with
  | nil => rfl
  | cons a l ih =>
    obtain ⟨hfirst, hrest⟩ := List.pairwise_cons.mp h
    by_cases ha : p a
    · rw [List.countP_cons_of_pos ha, List.filter_cons_of_pos ha, List.take_succ_cons, ih hrest]
    · have hnone : ∀ b ∈ l, ¬ p b := fun b hb hpb => ha (hfirst b hb hpb)
      rw [List.countP_cons_of_neg ha, List.filter_cons_of_neg ha, List.countP_eq_zero.mpr hnone,
        List.filter_eq_nil_iff.mpr hnone, List.take_zero]

theorem collect_entries [Std.LawfulEqOrd κ] (q : Std.TreeMap κ (List α)) (now : κ) (limit : Nat) :
    collect now limit q.toList [] =
      (entries q).take (min limit ((entries q).countP (due now))) := by
  rw [collect_eq Std.TreeMap.ordered_keys_toList, List.nil_append, List.length_nil, Nat.sub_zero]
  rfl

/-- With room for all of them, all due entries are collected. -/
theorem collect_all [Std.LawfulEqOrd κ] {q : Std.TreeMap κ (List α)} {limit : Nat}
    (hlimit : (entries q).length ≤ limit) (now : κ) :
    collect now limit q.toList [] = (entries q).filter (due now) := by
  rw [collect_entries, Nat.min_eq_right (Nat.le_trans List.countP_le_length hlimit)]
  exact take_countP ((entries_ordered q).imp fun h hdue => Std.TransCmp.isLE_trans h hdue)

end Due

section DueEntries
variable [Std.TransOrd κ]

/-- The due entries, in order. -/
def dueEntries (q : Std.TreeMap κ (List α)) (now : κ) : List (κ × α) := (entries q).filter (due now)

theorem dueEntries_ordered (q : Std.TreeMap κ (List α)) (now : κ) :
    (dueEntries q now).Pairwise fun e f => (compare e.1 f.1).isLE :=
  (entries_ordered q).filter _

variable [Std.LawfulEqOrd κ]

/-- What is collected is what is due, as much as the limit lets through. -/
theorem collect_dueEntries (q : Std.TreeMap κ (List α)) (now : κ) (limit : Nat) :
    collect now limit q.toList [] = (dueEntries q now).take limit := by
  have hdue : (entries q).take ((entries q).countP (due now)) = dueEntries q now :=
    take_countP ((entries_ordered q).imp fun h hdue => Std.TransCmp.isLE_trans h hdue)
  rw [collect_entries, ← hdue, List.take_take]

variable [DecidableEq κ]

theorem filter_dueEntries (q : Std.TreeMap κ (List α)) (now k : κ) :
    (dueEntries q now).filter (·.1 = k) =
      if (compare k now).isLE then (slot q k).map (k, ·) else [] := by
  have hswap : (dueEntries q now).filter (·.1 = k) =
      ((entries q).filter (·.1 = k)).filter (due now) := by
    rw [dueEntries, List.filter_filter, List.filter_filter]
    simp only [Bool.and_comm]
  rw [hswap, filter_entries]
  split_ifs with hdue
  · rw [List.filter_eq_self]
    intro e he
    obtain ⟨a, -, rfl⟩ := List.mem_map.mp he
    exact hdue
  · rw [List.filter_eq_nil_iff]
    intro e he
    obtain ⟨a, -, rfl⟩ := List.mem_map.mp he
    exact hdue

/-- The due entries of two agendas are the same if the due slots are. -/
theorem dueEntries_congr {q q' : Std.TreeMap κ (List α)} {now : κ}
    (h : ∀ k, (compare k now).isLE → slot q k = slot q' k) :
    dueEntries q now = dueEntries q' now := by
  refine ordered_ext (dueEntries_ordered q now) (dueEntries_ordered q' now) fun k => ?_
  rw [filter_dueEntries, filter_dueEntries]
  split_ifs with hdue
  · rw [h k hdue]
  · rfl

theorem dueEntries_push {q : Std.TreeMap κ (List α)} {k now : κ} (hlate : ¬ (compare k now).isLE)
    (a : α) : dueEntries (push q k a) now = dueEntries q now := by
  refine dueEntries_congr fun k' hdue => ?_
  have hne : k' ≠ k := fun h => hlate (h ▸ hdue)
  rw [slot_push, if_neg hne, List.append_nil]

/-- Taking out the first due entry leaves the others in their order. -/
theorem dueEntries_take [BEq α] [LawfulBEq α] {q : Std.TreeMap κ (List α)} {k now : κ} {a : α}
    {rest : List (κ × α)} (h : dueEntries q now = (k, a) :: rest) :
    dueEntries (take q k a) now = rest := by
  have hordered := dueEntries_ordered q now
  rw [h] at hordered
  refine ordered_ext (dueEntries_ordered _ now) (List.pairwise_cons.mp hordered).2 fun k' => ?_
  have hslot := filter_dueEntries q now k'
  rw [h] at hslot
  rw [filter_dueEntries, slot_take]
  by_cases hk : k' = k
  · subst hk
    rw [List.filter_cons_of_pos (by simp)] at hslot
    rw [if_pos rfl]
    split_ifs at hslot ⊢ with hdue
    cases hentries : slot q k' with
    | nil => simp [hentries] at hslot
    | cons b entries =>
      rw [hentries, List.map_cons] at hslot
      obtain ⟨hhead, htail⟩ := List.cons.inj hslot
      obtain ⟨-, rfl⟩ := Prod.mk.inj hhead
      rw [List.erase_cons_head, htail]
  · rw [List.filter_cons_of_neg (by simpa using Ne.symm hk)] at hslot
    rw [if_neg hk, hslot]

end DueEntries

end Agenda
