import Todero.Receiver
import Todero.Lib.BoundedKeys

/-! The invariant of the receive buffers under every arrival, and what an arrival
hands to the application. -/
namespace Todero.Core
open Todero.Wire

theorem Rx.flush_spec (fuel : Nat) (r : Rx) :
    (r.flush fuel).1.ids = r.ids ∧ (r.flush fuel).1.fragments = r.fragments ∧
      (r.flush fuel).1.last = r.last + (r.flush fuel).2.length ∧
      (∀ (i : Nat) (p : Bytes), (r.flush fuel).2[i]? = some p →
        r.buffer[r.last + 1 + i]? = some p) ∧
      ∀ k : Nat, (r.flush fuel).1.buffer[k]? =
        if r.last < k ∧ k ≤ r.last + (r.flush fuel).2.length then none else r.buffer[k]? := by
  induction fuel generalizing r with
  | zero =>
    exact ⟨rfl, rfl, rfl, by simp [Rx.flush], by simp [Rx.flush]⟩
  | succ fuel ih =>
    cases hp : r.buffer[r.last + 1]? with
    | none =>
      simp only [Rx.flush, hp]
      exact ⟨trivial, trivial, rfl, by simp, by simp⟩
    | some p =>
      obtain ⟨hids, hfr, hlast, hps, hbuf⟩ :=
        ih { r with buffer := r.buffer.erase (r.last + 1), last := r.last + 1 }
      simp only [Rx.flush, hp, List.length_cons]
      refine ⟨hids, hfr, by rw [hlast]; grind, ?_, ?_⟩
      · intro i q hq
        cases i with
        | zero =>
          simp only [List.getElem?_cons_zero, Option.some.injEq] at hq
          simpa [hq] using hp
        | succ i =>
          have h := hps i q (by simpa using hq)
          have hne : ¬ r.last + 1 = r.last + 1 + 1 + i := by omega
          simp only [Std.TreeMap.getElem?_erase, Std.LawfulEqCmp.compare_eq_iff_eq, hne,
            if_false] at h
          rw [← h]
          congr 1
          omega
      · intro k
        rw [hbuf k]
        simp only [Std.TreeMap.getElem?_erase, Std.LawfulEqCmp.compare_eq_iff_eq]
        by_cases hk : r.last + 1 = k
        · subst hk
          simp
        · simp only [hk, if_false]
          congr 1
          simp only [eq_iff_iff]
          omega

/-- With as much fuel as there are waiting messages, the next one in order is not
among those left waiting. -/
theorem Rx.flush_stops (fuel : Nat) (r : Rx) (h : r.buffer.size ≤ fuel) :
    (r.flush fuel).1.buffer[(r.flush fuel).1.last + 1]? = none := by
  induction fuel generalizing r with
  | zero =>
    have : r.buffer.isEmpty := by
      rw [Std.TreeMap.isEmpty_eq_size_eq_zero]
      simpa using h
    simpa [Rx.flush] using Std.TreeMap.getElem?_of_isEmpty this
  | succ fuel ih =>
    cases hp : r.buffer[r.last + 1]? with
    | none => simp only [Rx.flush, hp]
    | some p =>
      simp only [Rx.flush, hp]
      apply ih
      have hmem : r.buffer.contains (r.last + 1) := by
        rw [Std.TreeMap.contains_eq_isSome_getElem?, hp]
        rfl
      have hsize := Std.TreeMap.size_erase (t := r.buffer) (k := r.last + 1)
      rw [if_pos hmem] at hsize
      show (r.buffer.erase (r.last + 1)).size ≤ fuel
      omega

theorem mergeLoop_eq {chunks : Std.TreeMap Nat Bytes} {f : Nat → Bytes} {l : List Nat}
    (h : ∀ i ∈ l, chunks[i]? = some (f i)) : mergeLoop chunks l = some (l.flatMap f) := by
  induction l with
  | nil => rfl
  | cons i l ih =>
    simp [mergeLoop, h i (by simp), ih fun j hj => h j (List.mem_cons_of_mem i hj)]

/-- A fragment set that is still open: some index below `total` is missing, and
nothing else has been stored. -/
structure FragmentAccumulator.Open (acc : FragmentAccumulator) : Prop where
  below : BoundedKeys.Below acc.total acc.chunks
  missing : acc.chunks.size < acc.total

/-- What has been received is what was handed out and what waits, out of order. -/
structure Rx.Ordered (r : Rx) : Prop where
  ids_iff : ∀ id, id ∈ r.ids ↔ (1 ≤ id ∧ id ≤ r.last) ∨ id ∈ r.buffer
  ahead : ∀ id ∈ r.buffer, id = 0 ∨ r.last < id
  stuck : r.buffer[r.last + 1]? = none

/-- The receive buffers of every machine, whatever it has been sent. -/
structure Rx.Ok (r : Rx) : Prop extends r.Ordered where
  unfinished : ∀ (id : Nat) (acc : FragmentAccumulator), r.fragments[id]? = some acc →
    id ∉ r.ids ∧ acc.Open

def Rx.empty : Rx := ⟨∅, ∅, ∅, 0⟩

theorem Rx.empty_ok : Rx.empty.Ok where
  ids_iff := by
    intro id
    have : ¬ (1 ≤ id ∧ id ≤ (Rx.empty).last) := by
      simp only [Rx.empty]
      omega
    simp only [this, false_or]
    simp [Rx.empty]
  ahead := by simp [Rx.empty]
  stuck := by simp [Rx.empty]
  unfinished := by simp [Rx.empty]

theorem mem_iff_getElem? {β : Type} {t : Std.TreeMap Nat β} {k : Nat} :
    k ∈ t ↔ ∃ v, t[k]? = some v := by
  rw [Std.TreeMap.mem_iff_isSome_getElem?, Option.isSome_iff_exists]

/-- What a new complete copy does: it is buffered, and with it everything that has
become next in order is handed out. -/
theorem Rx.accept_spec {id : Nat} {p : Bytes} {r : Rx} (hr : r.Ordered) (hid : id ∉ r.ids)
    (hfrag : ∀ (k : Nat) (acc : FragmentAccumulator), k ≠ id → r.fragments[k]? = some acc →
      k ∉ r.ids ∧ acc.Open) :
    (r.accept id p).1.Ok ∧ (r.accept id p).1.ids = r.ids.insert id ∧
      (r.accept id p).1.fragments = r.fragments.erase id ∧
      (r.accept id p).1.last = r.last + (r.accept id p).2.length ∧
      (∀ (i : Nat) (q : Bytes), (r.accept id p).2[i]? = some q →
        (if id = r.last + 1 + i then some p else r.buffer[r.last + 1 + i]?) = some q) ∧
      ∀ k : Nat, (r.accept id p).1.buffer[k]? =
        if r.last < k ∧ k ≤ r.last + (r.accept id p).2.length then none
        else if id = k then some p else r.buffer[k]? := by
  obtain ⟨hids, hfr, hlast, hps, hbuf⟩ := Rx.flush_spec (r.buffer.insert id p).size
    { r with ids := r.ids.insert id, buffer := r.buffer.insert id p,
             fragments := r.fragments.erase id }
  have hstuck := Rx.flush_stops (r.buffer.insert id p).size
    { r with ids := r.ids.insert id, buffer := r.buffer.insert id p,
             fragments := r.fragments.erase id } le_rfl
  change (r.accept id p).1.buffer[(r.accept id p).1.last + 1]? = none at hstuck
  change (r.accept id p).1.ids = r.ids.insert id at hids
  change (r.accept id p).1.fragments = r.fragments.erase id at hfr
  change (r.accept id p).1.last = r.last + (r.accept id p).2.length at hlast
  change ∀ (i : Nat) (q : Bytes), (r.accept id p).2[i]? = some q →
    (r.buffer.insert id p)[r.last + 1 + i]? = some q at hps
  change ∀ k : Nat, (r.accept id p).1.buffer[k]? =
    if r.last < k ∧ k ≤ r.last + (r.accept id p).2.length then none
    else (r.buffer.insert id p)[k]? at hbuf
  simp only [Std.TreeMap.getElem?_insert, Std.LawfulEqCmp.compare_eq_iff_eq] at hps hbuf
  refine ⟨⟨⟨?_, ?_, hstuck⟩, ?_⟩, hids, hfr, hlast, hps, hbuf⟩
  · intro k
    rw [hids, hlast, mem_iff_getElem?, hbuf k]
    have hk := hr.ids_iff k
    have hold := hr.ids_iff id
    have hkeep := hr.ahead k
    rw [mem_iff_getElem?] at hk hkeep
    rw [Std.TreeSet.mem_insert, Std.LawfulEqCmp.compare_eq_iff_eq]
    by_cases hnew : r.last < k ∧ k ≤ r.last + (r.accept id p).2.length
    · have hget := List.getElem?_eq_getElem (l := (r.accept id p).2) (i := k - r.last - 1)
        (by omega)
      have hwas := hps _ _ hget
      rw [show r.last + 1 + (k - r.last - 1) = k by omega] at hwas
      have hin : id = k ∨ k ∈ r.ids := by
        by_cases hkid : id = k
        · exact .inl hkid
        · rw [if_neg hkid] at hwas
          exact .inr (hk.mpr (.inr ⟨_, hwas⟩))
      exact iff_of_true hin (.inl (by omega))
    · simp only [hnew, if_false]
      by_cases hkid : id = k
      · simp [hkid]
      · simp only [hkid, if_false, false_or, hk]
        constructor
        · rintro (h | h)
          · exact .inl (by omega)
          · exact .inr h
        · rintro (h | h)
          · exact .inl (by omega)
          · exact .inr h
  · intro k hk
    rw [mem_iff_getElem?, hbuf k] at hk
    have hkeep := hr.ahead k
    have hold := hr.ids_iff id
    rw [mem_iff_getElem?] at hkeep
    rw [hlast]
    by_cases hnew : r.last < k ∧ k ≤ r.last + (r.accept id p).2.length
    · simp [hnew] at hk
    · by_cases hkid : id = k
      · have : ¬ (1 ≤ id ∧ id ≤ r.last) := fun h => hid (hold.mpr (.inl h))
        omega
      · have := hkeep (by simpa [hnew, hkid] using hk)
        omega
  · intro k acc hk
    rw [hfr] at hk
    simp only [Std.TreeMap.getElem?_erase, Std.LawfulEqCmp.compare_eq_iff_eq] at hk
    by_cases hkid : id = k
    · simp [hkid] at hk
    · obtain ⟨hnot, hopen⟩ := hfrag k acc (Ne.symm hkid) (by simpa [hkid] using hk)
      refine ⟨?_, hopen⟩
      rw [hids, Std.TreeSet.mem_insert, Std.LawfulEqCmp.compare_eq_iff_eq]
      tauto

/-- What taking over a complete copy `p` of message `id` does: `ps` are the payloads it
sets free. -/
structure Rx.Takes (r : Rx) (id : Nat) (p : Bytes) (r' : Rx) (ps : List Bytes) : Prop where
  ok : r'.Ok
  ids : r'.ids = r.ids.insert id
  fragments : ∀ k : Nat, r'.fragments[k]? = if id = k then none else r.fragments[k]?
  last : r'.last = r.last + ps.length
  freed : ∀ (i : Nat) (q : Bytes), ps[i]? = some q →
    (if id = r.last + 1 + i then some p else r.buffer[r.last + 1 + i]?) = some q
  buffer : ∀ k : Nat, r'.buffer[k]? = if r.last < k ∧ k ≤ r.last + ps.length then none
    else if id = k then some p else r.buffer[k]?

/-- The fragment set of the message itself does not matter. -/
theorem Rx.Ok.takes {r : Rx} (hr : r.Ok) {id : Nat} (hid : id ∉ r.ids) (p : Bytes)
    {fragments : Std.TreeMap Nat FragmentAccumulator}
    (hsame : ∀ k : Nat, k ≠ id → fragments[k]? = r.fragments[k]?) :
    r.Takes id p (Rx.accept id p { r with fragments := fragments }).1
      (Rx.accept id p { r with fragments := fragments }).2 := by
  obtain ⟨hok, hids, hfr, hlast, hps, hbuf⟩ := Rx.accept_spec
    (r := { r with fragments := fragments }) (p := p) ⟨hr.ids_iff, hr.ahead, hr.stuck⟩ hid
    fun k acc hk hacc => hr.unfinished k acc (by rw [← hsame k hk]; exact hacc)
  refine ⟨hok, hids, fun k => ?_, hlast, hps, hbuf⟩
  rw [hfr, Std.TreeMap.getElem?_erase]
  by_cases hk : id = k
  · simp [hk]
  · simp [hk, hsame k (Ne.symm hk)]

/-- Where `f` gives the buffered payloads and the one taken over, it gives what stays
buffered and what is set free. -/
theorem Rx.Takes.reads {r r' : Rx} {id : Nat} {p : Bytes} {ps : List Bytes}
    (ht : r.Takes id p r' ps) {f : Nat → Option Bytes} (hp : f id = some p)
    (hbuf : ∀ (k : Nat) (q : Bytes), r.buffer[k]? = some q → f k = some q) :
    (∀ (k : Nat) (q : Bytes), r'.buffer[k]? = some q → f k = some q) ∧
      ∀ (i : Nat) (q : Bytes), ps[i]? = some q → f (r.last + 1 + i) = some q := by
  have hread : ∀ (k : Nat) (q : Bytes), (if id = k then some p else r.buffer[k]?) = some q →
      f k = some q := by
    intro k q h
    by_cases hk : id = k
    · subst hk
      rw [if_pos rfl] at h
      rwa [← h]
    · rw [if_neg hk] at h
      exact hbuf k q h
  refine ⟨fun k q h => ?_, fun i q h => hread _ q (ht.freed i q h)⟩
  rw [ht.buffer] at h
  by_cases hn : r.last < k ∧ k ≤ r.last + ps.length
  · simp [hn] at h
  · exact hread k q (by simpa [hn] using h)

/-- The fragments of an index below their total. -/
def Arrival.Sane : Arrival → Prop
  | .data _ _ => True
  | .fragment _ idx total _ => idx < total

/-- Everything an arrival can do. -/
inductive Rx.Arrives (r : Rx) : Arrival → Rx × List Bytes → Prop
  | known {a : Arrival} : a.id ∈ r.ids → r.Arrives a (r, [])
  | data {id : Nat} {p : Bytes} {r' : Rx} {ps : List Bytes} : id ∉ r.ids →
      r.Takes id p r' ps → r.Arrives (.data id p) (r', ps)
  | conflict {id idx total : Nat} {chunk : Bytes} : id ∉ r.ids →
      (r.accFor id total).total ≠ total → r.Arrives (.fragment id idx total chunk) (r, [])
  | stored {id idx total : Nat} {chunk : Bytes} (acc : FragmentAccumulator) : id ∉ r.ids →
      acc = (r.accFor id total).add idx chunk → acc.total = total → acc.Open →
      r.Arrives (.fragment id idx total chunk)
        ({ r with fragments := r.fragments.insert id acc }, [])
  | completed {id idx total : Nat} {chunk : Bytes} {r' : Rx} {ps : List Bytes}
      (acc : FragmentAccumulator) (f : Nat → Bytes) : id ∉ r.ids →
      acc = (r.accFor id total).add idx chunk → acc.total = total →
      (∀ k < total, acc.chunks[k]? = some (f k)) →
      r.Takes id ((List.range total).flatMap f) r' ps →
      r.Arrives (.fragment id idx total chunk) (r', ps)

/-- The accumulator a fragment meets holds only indices below the fragment's total. -/
theorem Rx.Ok.accFor_below {r : Rx} (hr : r.Ok) {id total : Nat}
    (h : (r.accFor id total).total = total) :
    BoundedKeys.Below total (r.accFor id total).chunks ∧
      ∀ acc, r.fragments[id]? = some acc → acc = r.accFor id total := by
  cases hacc : r.fragments[id]? with
  | none =>
    have : (r.accFor id total).chunks = ∅ := by simp [Rx.accFor, hacc]
    rw [this]
    exact ⟨fun k hk => absurd hk Std.TreeMap.not_mem_emptyc, by simp⟩
  | some acc =>
    have hopen := (hr.unfinished id acc hacc).2
    have hpos : ¬ acc.total = 0 := by
      have := hopen.missing
      omega
    have heq : r.accFor id total = acc := by simp [Rx.accFor, hacc, hpos]
    rw [heq] at h ⊢
    subst h
    exact ⟨hopen.below, by simp⟩

/-- A set of chunks as large as their total can be joined. -/
theorem mergeChunks_full {chunks : Std.TreeMap Nat Bytes} {total : Nat}
    (hbelow : BoundedKeys.Below total chunks) (hfull : chunks.size = total) :
    ∃ f : Nat → Bytes, (∀ k < total, chunks[k]? = some (f k)) ∧
      mergeChunks chunks total = some ((List.range total).flatMap f) := by
  have hall := hbelow.full_iff.mp hfull
  have hf : ∀ k < total, chunks[k]? = some ((chunks[k]?).getD []) := by
    intro k hk
    obtain ⟨v, hv⟩ := mem_iff_getElem?.mp (hall k hk)
    simp [hv]
  exact ⟨_, hf, mergeLoop_eq fun k hk => hf k (List.mem_range.mp hk)⟩

theorem Rx.Ok.arrives {r : Rx} (hr : r.Ok) {a : Arrival} (ha : a.Sane) :
    r.Arrives a (r.arrive a) := by
  by_cases hin : a.id ∈ r.ids
  · have hc : r.ids.contains a.id = true := hin
    simp only [Rx.arrive, hc, if_true]
    exact .known hin
  · have hc : r.ids.contains a.id = false := Bool.eq_false_iff.mpr hin
    cases a with
    | data id p =>
      simp only [Rx.arrive, hc, Bool.false_eq_true, if_false]
      exact .data hin (hr.takes hin p fun _ _ => rfl)
    | fragment id idx total chunk =>
      by_cases htot : (r.accFor id total).total = total
      · obtain ⟨hbelow, -⟩ := hr.accFor_below htot
        have hadd : ((r.accFor id total).add idx chunk).total = total := htot
        have hbelow' : BoundedKeys.Below total ((r.accFor id total).add idx chunk).chunks :=
          hbelow.insertIfNew ha chunk
        simp only [Rx.arrive, hc, Bool.false_eq_true, if_false, htot, ne_eq, not_true_eq_false,
          hadd]
        by_cases hfull : ((r.accFor id total).add idx chunk).chunks.size = total
        · obtain ⟨f, hf, hmerge⟩ := mergeChunks_full hbelow' hfull
          simp only [hfull, if_true, hmerge]
          refine .completed _ f hin rfl hadd hf (hr.takes hin _ fun k hk => ?_)
          have hne : id ≠ k := Ne.symm hk
          simp [Std.TreeMap.getElem?_insert, hne]
        · simp only [hfull, if_false]
          refine .stored _ hin rfl hadd ⟨?_, ?_⟩
          · rw [hadd]
            exact hbelow'
          · have := hbelow'.size_le
            omega
      · simp only [Rx.arrive, hc, Bool.false_eq_true, if_false, htot, ne_eq, not_false_eq_true,
          if_true]
        exact .conflict hin htot

theorem Rx.Ok.arrive {r : Rx} (hr : r.Ok) {a : Arrival} (ha : a.Sane) : (r.arrive a).1.Ok := by
  have h := hr.arrives ha
  generalize r.arrive a = out at h ⊢
  cases h with
  | known | conflict => exact hr
  | data _ htakes => exact htakes.ok
  | @stored id _ _ _ acc hid _ _ hopen =>
    refine ⟨⟨hr.ids_iff, hr.ahead, hr.stuck⟩, fun k acc' hk => ?_⟩
    simp only [Std.TreeMap.getElem?_insert, Std.LawfulEqCmp.compare_eq_iff_eq] at hk
    by_cases hkid : id = k
    · subst hkid
      simp only [if_true, Option.some.injEq] at hk
      exact ⟨hid, hk ▸ hopen⟩
    · exact hr.unfinished k acc' (by simpa [hkid] using hk)
  | completed _ _ _ _ _ _ htakes => exact htakes.ok

theorem Rx.Ok.arrive_last {r : Rx} (hr : r.Ok) {a : Arrival} (ha : a.Sane) :
    (r.arrive a).1.last = r.last + (r.arrive a).2.length := by
  have h := hr.arrives ha
  generalize r.arrive a = out at h ⊢
  cases h with
  | known | conflict | stored => rfl
  | data _ htakes => exact htakes.last
  | completed _ _ _ _ _ _ htakes => exact htakes.last

/-- A sane fragment is refused only for its total. -/
theorem Rx.Ok.rejects {r : Rx} (hr : r.Ok) {a : Arrival} (ha : a.Sane) (hrej : r.rejects a) :
    ∃ id idx total chunk, a = .fragment id idx total chunk ∧ (r.accFor id total).total ≠ total := by
  cases a with
  | data id p => simp [Rx.rejects] at hrej
  | fragment id idx total chunk =>
    refine ⟨id, idx, total, chunk, rfl, fun htot => ?_⟩
    have hadd : ((r.accFor id total).add idx chunk).total = total := htot
    have hbelow : BoundedKeys.Below total ((r.accFor id total).add idx chunk).chunks :=
      (hr.accFor_below htot).1.insertIfNew ha chunk
    simp only [Rx.rejects, htot, hadd, ne_eq, not_true_eq_false, decide_false, Bool.false_or,
      Bool.and_eq_true, decide_eq_true_eq] at hrej
    obtain ⟨-, hfull, hnone⟩ := hrej
    obtain ⟨f, -, hmerge⟩ := mergeChunks_full hbelow hfull
    simp [hmerge] at hnone

end Todero.Core
