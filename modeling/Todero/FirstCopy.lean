import Mathlib.Data.List.Infix
import Todero.Calls

/-! Which payload a message id stands for, said of the message frames a machine has
been sent and not of its buffers: that of the first `Data` frame or of the first
fragment set to be complete. The receive buffers follow this specification. -/
namespace Todero.Core
open Todero.Wire

section Spec
variable (id : Nat) (l : List Arrival)

def Arrival.dataOf (id : Nat) : Arrival → Option Bytes
  | .data i p => if i = id then some p else none
  | .fragment .. => none

/-- Index, total and chunk of a fragment of `id`. -/
def Arrival.fragmentOf (id : Nat) : Arrival → Option (Nat × Nat × Bytes)
  | .data .. => none
  | .fragment i idx total chunk => if i = id then some (idx, total, chunk) else none

/-- The size of the fragment set of `id` is what its first fragment says. -/
def setTotal : Option Nat := (l.findSome? (Arrival.fragmentOf id)).map fun f => f.2.1

/-- The chunk of an index is the first one of that index that agrees on the size. -/
def setChunk (idx : Nat) : Option Bytes :=
  ((l.filterMap (Arrival.fragmentOf id)).find? fun f =>
    f.1 = idx ∧ some f.2.1 = setTotal id l).map fun f => f.2.2

/-- The joined fragment set, once no index is missing. -/
def assembled : Option Bytes :=
  (setTotal id l).bind fun total =>
    if ∀ idx < total, (setChunk id l idx).isSome then
      some ((List.range total).flatMap fun idx => (setChunk id l idx).getD [])
    else none

def complete : Option Bytes := (l.findSome? (Arrival.dataOf id)).or (assembled id l)

/-- The copy of message `id` that is complete first. -/
def firstCopy : Option Bytes := l.inits.findSome? (complete id)

end Spec

variable {id : Nat} {l : List Arrival} {a : Arrival}

theorem firstCopy_append (l : List Arrival) (a : Arrival) :
    firstCopy id (l ++ [a]) = (firstCopy id l).or (complete id (l ++ [a])) := by
  rw [firstCopy, List.inits_append, List.findSome?_append, firstCopy]
  simp

theorem firstCopy_stable {p : Bytes} (h : firstCopy id l = some p) (l' : List Arrival) :
    firstCopy id (l ++ l') = some p := by
  rw [firstCopy, List.inits_append, List.findSome?_append]
  rw [firstCopy] at h
  simp [h]

theorem complete_none (h : firstCopy id l = none) : complete id l = none := by
  rw [firstCopy, List.findSome?_eq_none_iff] at h
  exact h l (by simp)

theorem setTotal_append (l : List Arrival) (a : Arrival) :
    setTotal id (l ++ [a]) = (setTotal id l).or ((a.fragmentOf id).map fun f => f.2.1) := by
  simp only [setTotal, List.findSome?_append, List.findSome?_singleton]
  cases l.findSome? (Arrival.fragmentOf id) <;> rfl

/-- Another fragment is nothing to an index that is there, or that it does not name, or
to a set of another size. -/
theorem setChunk_append {idx total : Nat} {chunk : Bytes} {n : Nat}
    (ht : setTotal id (l ++ [Arrival.fragment id idx total chunk]) = some n)
    (hold : setTotal id l = some n ∨ l.filterMap (Arrival.fragmentOf id) = []) (k : Nat) :
    setChunk id (l ++ [Arrival.fragment id idx total chunk]) k =
      (setChunk id l k).or (if idx = k ∧ total = n then some chunk else none) := by
  have hlast : [Arrival.fragment id idx total chunk].filterMap (Arrival.fragmentOf id) =
      [(idx, total, chunk)] := by simp [Arrival.fragmentOf]
  rw [setChunk, List.filterMap_append, List.find?_append, hlast, ht, setChunk]
  have hsame : ((l.filterMap (Arrival.fragmentOf id)).find? fun f => f.1 = k ∧ some f.2.1 = some n) =
      ((l.filterMap (Arrival.fragmentOf id)).find? fun f =>
        f.1 = k ∧ some f.2.1 = setTotal id l) := by
    rcases hold with h | h
    · rw [h]
    · rw [h]
      rfl
  rw [hsame]
  by_cases hk : idx = k ∧ total = n
  · cases ((l.filterMap (Arrival.fragmentOf id)).find? fun f =>
      f.1 = k ∧ some f.2.1 = setTotal id l) <;> simp [hk]
  · cases ((l.filterMap (Arrival.fragmentOf id)).find? fun f =>
      f.1 = k ∧ some f.2.1 = setTotal id l) <;> simp [hk]

theorem of_other (h : a.id ≠ id) : a.dataOf id = none ∧ a.fragmentOf id = none := by
  cases a <;> simpa [Arrival.dataOf, Arrival.fragmentOf, Arrival.id] using h

theorem setTotal_other (h : a.id ≠ id) : setTotal id (l ++ [a]) = setTotal id l := by
  rw [setTotal_append, (of_other h).2]
  simp

theorem setChunk_other (h : a.id ≠ id) (k : Nat) :
    setChunk id (l ++ [a]) k = setChunk id l k := by
  rw [setChunk, setTotal_other h, List.filterMap_append]
  simp [(of_other h).2, setChunk]

theorem firstCopy_other (h : a.id ≠ id) : firstCopy id (l ++ [a]) = firstCopy id l := by
  have hc : complete id (l ++ [a]) = complete id l := by
    simp only [complete, assembled, setTotal_other h, setChunk_other h, List.findSome?_append]
    simp [(of_other h).1]
  rw [firstCopy_append, hc]
  cases hf : firstCopy id l with
  | none => rw [Option.none_or, complete_none hf]
  | some p => rfl

/-- The receive buffers, as the specification of the frames seen so far has them. -/
structure Rx.Follows (r : Rx) (l : List Arrival) : Prop where
  received : ∀ id, id ∈ r.ids ↔ (firstCopy id l).isSome
  waiting : ∀ (id : Nat) (p : Bytes), r.buffer[id]? = some p → firstCopy id l = some p
  unseen : ∀ id, id ∉ r.ids → r.fragments[id]? = none →
    l.filterMap (Arrival.fragmentOf id) = []
  started : ∀ (id : Nat) (acc : FragmentAccumulator), r.fragments[id]? = some acc →
    setTotal id l = some acc.total ∧ ∀ k : Nat, acc.chunks[k]? = setChunk id l k

theorem Rx.empty_follows : Rx.empty.Follows [] where
  received id := by simp [Rx.empty, firstCopy, complete, assembled, setTotal]
  waiting id p h := by simp [Rx.empty] at h
  unseen id _ _ := rfl
  started id acc h := by simp [Rx.empty] at h

/-- What an arrival of another id leaves of a set that has not been begun. -/
theorem Rx.Follows.unseen_other {r : Rx} (hf : r.Follows l) {k : Nat} (hk : k ∉ r.ids)
    (hnone : r.fragments[k]? = none) (hother : a.id ≠ k) :
    (l ++ [a]).filterMap (Arrival.fragmentOf k) = [] := by
  simp [List.filterMap_append, (of_other hother).2, hf.unseen k hk hnone]

/-- What it leaves of one that has. -/
theorem Rx.Follows.started_other {r : Rx} (hf : r.Follows l) {k : Nat}
    {acc : FragmentAccumulator} (h : r.fragments[k]? = some acc) (hother : a.id ≠ k) :
    setTotal k (l ++ [a]) = some acc.total ∧
      ∀ i : Nat, acc.chunks[i]? = setChunk k (l ++ [a]) i := by
  rw [setTotal_other hother]
  refine ⟨(hf.started k acc h).1, fun i => ?_⟩
  rw [setChunk_other hother]
  exact (hf.started k acc h).2 i

/-- A copy of `id` that is complete is taken over, and nothing else changes. -/
theorem Rx.Follows.takes {r r' : Rx} {p : Bytes} {ps : List Bytes} (hf : r.Follows l)
    (ha : a.id = id) (hcopy : firstCopy id (l ++ [a]) = some p) (ht : r.Takes id p r' ps) :
    r'.Follows (l ++ [a]) ∧ ∀ (i : Nat) (q : Bytes), ps[i]? = some q →
      firstCopy (r.last + 1 + i) (l ++ [a]) = some q := by
  obtain ⟨hbuf, hfreed⟩ := ht.reads (f := fun k => firstCopy k (l ++ [a])) hcopy
    fun k q h => firstCopy_stable (hf.waiting k q h) [a]
  refine ⟨⟨?_, hbuf, ?_, ?_⟩, hfreed⟩
  · intro k
    rw [ht.ids, Std.TreeSet.mem_insert, Std.LawfulEqCmp.compare_eq_iff_eq]
    by_cases hk : id = k
    · subst hk
      simp [hcopy]
    · rw [firstCopy_other (by rw [ha]; exact hk), ← hf.received k]
      tauto
  · intro k hk hnone
    rw [ht.ids, Std.TreeSet.mem_insert, Std.LawfulEqCmp.compare_eq_iff_eq, not_or] at hk
    rw [ht.fragments, if_neg hk.1] at hnone
    exact hf.unseen_other hk.2 hnone (by rw [ha]; exact hk.1)
  · intro k acc h
    rw [ht.fragments] at h
    by_cases hk : id = k
    · simp [hk] at h
    · rw [if_neg hk] at h
      exact hf.started_other h (by rw [ha]; exact hk)

/-- What a fragment of a new id does to its set: the accumulator it makes is the set
with the fragment in it, unless the sizes disagree. -/
theorem Rx.Follows.accFor {r : Rx} (hr : r.Ok) (hf : r.Follows l) (idx total : Nat)
    (chunk : Bytes) (hid : id ∉ r.ids) :
    let acc := r.accFor id total
    setTotal id (l ++ [Arrival.fragment id idx total chunk]) = some acc.total ∧
      ∀ k : Nat, setChunk id (l ++ [Arrival.fragment id idx total chunk]) k =
        if acc.total = total then (acc.add idx chunk).chunks[k]? else acc.chunks[k]? := by
  intro acc
  cases hfrag : r.fragments[id]? with
  | none =>
    have hnew := hf.unseen id hid hfrag
    have hacc : acc = { total := total } := by simp [acc, Rx.accFor, hfrag]
    have hfind : l.findSome? (Arrival.fragmentOf id) = none := by
      rw [List.findSome?_eq_none_iff]
      intro b hb
      by_contra hne
      obtain ⟨f, hf⟩ := Option.ne_none_iff_exists'.mp hne
      have := List.mem_filterMap.mpr ⟨b, hb, hf⟩
      rw [hnew] at this
      simp at this
    have htotal : setTotal id (l ++ [Arrival.fragment id idx total chunk]) = some total := by
      rw [setTotal_append]
      simp [setTotal, hfind, Arrival.fragmentOf]
    refine ⟨by rw [htotal, hacc], fun k => ?_⟩
    rw [setChunk_append htotal (.inr hnew), setChunk, hnew, hacc]
    simp [FragmentAccumulator.add, BoundedKeys.getElem?_insertIfNew]
  | some acc₀ =>
    obtain ⟨htot, hchunks⟩ := hf.started id acc₀ hfrag
    have hpos : acc₀.total ≠ 0 := by
      have := (hr.unfinished id acc₀ hfrag).2.missing
      omega
    have hacc : acc = acc₀ := by simp [acc, Rx.accFor, hfrag, hpos]
    have htotal : setTotal id (l ++ [Arrival.fragment id idx total chunk]) = some acc₀.total := by
      rw [setTotal_append, htot]
      rfl
    refine ⟨by rw [htotal, hacc], fun k => ?_⟩
    rw [setChunk_append htotal (.inl htot), ← hchunks, hacc]
    by_cases heq : acc₀.total = total
    · simp [heq, FragmentAccumulator.add, BoundedKeys.getElem?_insertIfNew]
    · simp [heq, Ne.symm heq]

theorem Rx.Follows.added {r : Rx} (hr : r.Ok) (hf : r.Follows l) {idx total : Nat} {chunk : Bytes}
    (hid : id ∉ r.ids) {acc : FragmentAccumulator} (hacc : acc = (r.accFor id total).add idx chunk)
    (htot : acc.total = total) :
    setTotal id (l ++ [Arrival.fragment id idx total chunk]) = some acc.total ∧
      ∀ k : Nat, setChunk id (l ++ [Arrival.fragment id idx total chunk]) k = acc.chunks[k]? := by
  obtain ⟨hset, hchunks⟩ := hf.accFor hr idx total chunk hid
  have hsame : acc.total = (r.accFor id total).total := by rw [hacc]; rfl
  rw [hsame] at htot ⊢
  exact ⟨hset, fun k => by rw [hchunks k, if_pos htot, ← hacc]⟩

theorem assembled_some {total : Nat} {f : Nat → Bytes} (ht : setTotal id l = some total)
    (hf : ∀ k < total, setChunk id l k = some (f k)) :
    assembled id l = some ((List.range total).flatMap f) := by
  have hall : ∀ k < total, (setChunk id l k).isSome := fun k hk => by rw [hf k hk]; rfl
  rw [assembled, ht, Option.bind_some, if_pos hall]
  congr 1
  refine List.flatMap_congr fun k hk => ?_
  rw [hf k (List.mem_range.mp hk)]
  rfl

theorem assembled_none {total k : Nat} (ht : setTotal id l = some total) (hk : k < total)
    (hmiss : setChunk id l k = none) : assembled id l = none := by
  have hnot : ¬ ∀ k < total, (setChunk id l k).isSome := fun h => by simpa [hmiss] using h k hk
  rw [assembled, ht, Option.bind_some, if_neg hnot]

theorem no_data (h : firstCopy id l = none) : l.findSome? (Arrival.dataOf id) = none := by
  have hc := complete_none h
  rw [complete, Option.or_eq_none_iff] at hc
  exact hc.1

theorem firstCopy_data (h : firstCopy id l = none) (p : Bytes) :
    firstCopy id (l ++ [.data id p]) = some p := by
  rw [firstCopy_append, h, Option.none_or, complete, List.findSome?_append, no_data h]
  simp [Arrival.dataOf]

theorem firstCopy_fragment (h : firstCopy id l = none) (idx total : Nat) (chunk : Bytes) :
    firstCopy id (l ++ [Arrival.fragment id idx total chunk]) =
      assembled id (l ++ [Arrival.fragment id idx total chunk]) := by
  rw [firstCopy_append, h, Option.none_or, complete, List.findSome?_append, no_data h]
  simp [Arrival.dataOf]

/-- An arrival that completes nothing. -/
theorem Rx.Follows.pending {r r' : Rx} {idx total : Nat} {chunk : Bytes} (hf : r.Follows l)
    (hid : id ∉ r.ids) (hids : r'.ids = r.ids) (hbuf : r'.buffer = r.buffer)
    (hcopy : assembled id (l ++ [Arrival.fragment id idx total chunk]) = none)
    (hother : ∀ k : Nat, k ≠ id → r'.fragments[k]? = r.fragments[k]?)
    (hone : ∃ acc, r'.fragments[id]? = some acc ∧
      setTotal id (l ++ [Arrival.fragment id idx total chunk]) = some acc.total ∧
      ∀ k : Nat, acc.chunks[k]? = setChunk id (l ++ [Arrival.fragment id idx total chunk]) k) :
    r'.Follows (l ++ [Arrival.fragment id idx total chunk]) := by
  have hne : ∀ k, k ≠ id → (Arrival.fragment id idx total chunk).id ≠ k := fun k hk => Ne.symm hk
  have hnone : firstCopy id l = none := by
    simpa [Option.isSome_iff_ne_none] using (hf.received id).not.mp hid
  have hsame : ∀ k, firstCopy k (l ++ [Arrival.fragment id idx total chunk]) = firstCopy k l := by
    intro k
    by_cases hk : k = id
    · subst hk
      rw [firstCopy_fragment hnone, hcopy, hnone]
    · exact firstCopy_other (hne k hk)
  obtain ⟨acc, hacc, htot, hchunks⟩ := hone
  refine ⟨?_, ?_, ?_, ?_⟩
  · intro k
    rw [hids, hsame]
    exact hf.received k
  · intro k q h
    rw [hbuf] at h
    rw [hsame]
    exact hf.waiting k q h
  · intro k hk hk'
    rw [hids] at hk
    by_cases hkid : k = id
    · subst hkid
      simp [hacc] at hk'
    · rw [hother k hkid] at hk'
      exact hf.unseen_other hk hk' (hne k hkid)
  · intro k acc' h
    by_cases hkid : k = id
    · subst hkid
      rw [hacc, Option.some.injEq] at h
      subst h
      exact ⟨htot, hchunks⟩
    · rw [hother k hkid] at h
      exact hf.started_other h (hne k hkid)

theorem FragmentAccumulator.Open.exists_missing {acc : FragmentAccumulator} (h : acc.Open) :
    ∃ k < acc.total, acc.chunks[k]? = none := by
  by_contra hall
  push Not at hall
  have hfull := h.below.full_iff.mpr fun k hk => by
    rw [Std.TreeMap.mem_iff_isSome_getElem?, Option.isSome_iff_ne_none]
    exact hall k hk
  have := h.missing
  omega

/-- Every arrival does to the buffers what it does in the specification, and hands out
first copies only. -/
theorem Rx.Follows.arrive {r : Rx} (hr : r.Ok) (hf : r.Follows l) {a : Arrival} (ha : a.Sane) :
    (r.arrive a).1.Follows (l ++ [a]) ∧ ∀ (i : Nat) (p : Bytes), (r.arrive a).2[i]? = some p →
      firstCopy (r.last + 1 + i) (l ++ [a]) = some p := by
  have h := hr.arrives ha
  generalize r.arrive a = out at h ⊢
  have hnone : ∀ id, id ∉ r.ids → firstCopy id l = none := fun id hid => by
    simpa [Option.isSome_iff_ne_none] using (hf.received id).not.mp hid
  cases h with
  | known hin =>
    refine ⟨⟨?_, ?_, ?_, ?_⟩, by simp⟩
    · intro k
      by_cases hk : a.id = k
      · subst hk
        obtain ⟨p, hp⟩ := Option.isSome_iff_exists.mp ((hf.received a.id).mp hin)
        simp [hin, firstCopy_stable hp [a]]
      · rw [firstCopy_other hk]
        exact hf.received k
    · exact fun k q h => firstCopy_stable (hf.waiting k q h) [a]
    · exact fun k hk hnone => hf.unseen_other hk hnone fun h => hk (h ▸ hin)
    · exact fun k acc h =>
        hf.started_other h fun hk => (hr.unfinished k acc h).1 (hk ▸ hin)
  | @data id p _ _ hid htakes => exact hf.takes rfl (firstCopy_data (hnone id hid) p) htakes
  | @conflict id idx total chunk hid htot =>
    obtain ⟨hset, hall⟩ := hf.accFor hr idx total chunk hid
    have hchunks : ∀ k : Nat, setChunk id (l ++ [Arrival.fragment id idx total chunk]) k =
        (r.accFor id total).chunks[k]? := fun k => by rw [hall k, if_neg htot]
    have hthere : r.fragments[id]? = some (r.accFor id total) := by
      cases hfrag : r.fragments[id]? with
      | none => exact absurd (by simp [Rx.accFor, hfrag]) htot
      | some acc =>
        have hpos : acc.total ≠ 0 := by
          have := (hr.unfinished id acc hfrag).2.missing
          omega
        simp [Rx.accFor, hfrag, hpos]
    obtain ⟨k, hk, hmiss⟩ := (hr.unfinished id _ hthere).2.exists_missing
    refine ⟨hf.pending hid rfl rfl ?_ (fun _ _ => rfl) ⟨_, hthere, hset, fun k => (hchunks k).symm⟩,
      by simp⟩
    exact assembled_none hset hk (by rw [hchunks, hmiss])
  | @stored id idx total chunk acc hid hacc htot hopen =>
    obtain ⟨hset, hchunks⟩ := hf.added hr hid hacc htot
    obtain ⟨k, hk, hmiss⟩ := hopen.exists_missing
    refine ⟨hf.pending hid rfl rfl ?_ (fun k hk => ?_) ⟨acc, ?_, hset, fun k => (hchunks k).symm⟩,
      by simp⟩
    · exact assembled_none hset hk (by rw [hchunks, hmiss])
    · simp [Std.TreeMap.getElem?_insert, Ne.symm hk]
    · simp
  | @completed id idx total chunk _ _ acc f hid hacc htot hall htakes =>
    obtain ⟨hset, hchunks⟩ := hf.added hr hid hacc htot
    rw [htot] at hset
    have hcopy : firstCopy id (l ++ [Arrival.fragment id idx total chunk]) =
        some ((List.range total).flatMap f) := by
      rw [firstCopy_fragment (hnone id hid)]
      exact assembled_some hset fun k hk => by rw [hchunks, hall k hk]
    exact hf.takes rfl hcopy htakes

end Todero.Core
