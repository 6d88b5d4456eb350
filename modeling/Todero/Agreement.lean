import Todero.World

/-! What a receiver holds is what its peer has enqueued. -/
namespace Todero.Core
open Todero.Wire

/-- The `idx`-th piece of a message sent in fragments. -/
def piece (msg : Bytes) (idx : Nat) : Bytes := (msg.drop (idx * chunkSize)).take chunkSize

theorem pieces_join (msg : Bytes) (n : Nat) :
    (List.range n).flatMap (piece msg) = msg.take (n * chunkSize) := by
  induction n with
  | zero => simp
  | succ n ih =>
    rw [List.range_succ, List.flatMap_append, ih, Nat.succ_mul, List.take_add]
    simp [piece]

theorem length_le_fragmentCount (msg : Bytes) : msg.length ≤ fragmentCount msg * chunkSize := by
  have h : msg.length ≤ chunkSize • (msg.length ⌈/⌉ chunkSize) :=
    le_smul_ceilDiv (by decide)
  simpa [fragmentCount, Nat.mul_comm] using h

theorem pieces_all (msg : Bytes) : (List.range (fragmentCount msg)).flatMap (piece msg) = msg := by
  rw [pieces_join, List.take_of_length_le (length_le_fragmentCount msg)]

/-- The arrival is a copy of a message in `out`, or a piece of one. -/
def Arrival.From (out : Std.TreeMap Nat Bytes) : Arrival → Prop
  | .data id p => out[id]? = some p
  | .fragment id idx total chunk => ∃ msg, out[id]? = some msg ∧ total = fragmentCount msg ∧
      idx < total ∧ chunk = piece msg idx

theorem Arrival.From.sane {out : Std.TreeMap Nat Bytes} {a : Arrival} (h : a.From out) : a.Sane := by
  cases a with
  | data => trivial
  | fragment id idx total chunk =>
    obtain ⟨msg, -, -, hidx, -⟩ := h
    exact hidx

/-- Everything in the buffers comes from `out`. -/
structure Rx.Agrees (out : Std.TreeMap Nat Bytes) (r : Rx) : Prop where
  buffer : ∀ (id : Nat) (p : Bytes), r.buffer[id]? = some p → out[id]? = some p
  fragments : ∀ (id : Nat) (acc : FragmentAccumulator), r.fragments[id]? = some acc →
    ∃ msg, out[id]? = some msg ∧ acc.total = fragmentCount msg ∧
      ∀ (k : Nat) (c : Bytes), acc.chunks[k]? = some c → c = piece msg k
  known : ∀ id ∈ r.ids, id ∈ out

variable {out : Std.TreeMap Nat Bytes} {r : Rx}

theorem Rx.empty_agrees (out : Std.TreeMap Nat Bytes) : Rx.empty.Agrees out :=
  ⟨by simp [Rx.empty], by simp [Rx.empty], by simp [Rx.empty]⟩

theorem Rx.Agrees.mono {out' : Std.TreeMap Nat Bytes}
    (h : ∀ (id : Nat) (p : Bytes), out[id]? = some p → out'[id]? = some p)
    (hr : r.Agrees out) : r.Agrees out' where
  buffer id p hp := h id p (hr.buffer id p hp)
  fragments id acc hacc := by
    obtain ⟨msg, hmsg, hrest⟩ := hr.fragments id acc hacc
    exact ⟨msg, h id msg hmsg, hrest⟩
  known id hid := by
    obtain ⟨p, hp⟩ := mem_iff_getElem?.mp (hr.known id hid)
    exact mem_iff_getElem?.mpr ⟨p, h id p hp⟩

/-- A whole copy of a message of `out` is taken over. -/
theorem Rx.Agrees.takes {r' : Rx} {id : Nat} {p : Bytes} {ps : List Bytes}
    (hr : r.Agrees out) (hp : out[id]? = some p) (ht : r.Takes id p r' ps) :
    r'.Agrees out ∧ ∀ (i : Nat) (q : Bytes), ps[i]? = some q →
      out[r.last + 1 + i]? = some q := by
  obtain ⟨hbuf, hfreed⟩ := ht.reads (f := fun k => out[k]?) hp hr.buffer
  refine ⟨⟨hbuf, ?_, ?_⟩, hfreed⟩
  · intro k acc h
    rw [ht.fragments] at h
    by_cases hk : id = k
    · simp [hk] at h
    · exact hr.fragments k acc (by simpa [hk] using h)
  · intro k hk
    rw [ht.ids, Std.TreeSet.mem_insert, Std.LawfulEqCmp.compare_eq_iff_eq] at hk
    rcases hk with rfl | hk
    · exact mem_iff_getElem?.mpr ⟨p, hp⟩
    · exact hr.known k hk

/-- The accumulator that `idx` of message `msg` is added to, and what it holds then. -/
theorem Rx.Agrees.added (hr : r.Agrees out) {id idx : Nat} {msg : Bytes}
    (hmsg : out[id]? = some msg) (hidx : idx < fragmentCount msg) :
    (r.accFor id (fragmentCount msg)).total = fragmentCount msg ∧
      ∀ (k : Nat) (c : Bytes),
        ((r.accFor id (fragmentCount msg)).add idx (piece msg idx)).chunks[k]? = some c →
          c = piece msg k := by
  have hadd : ∀ (acc : FragmentAccumulator) (k : Nat) (c : Bytes),
      (∀ (k : Nat) (c : Bytes), acc.chunks[k]? = some c → c = piece msg k) →
      (acc.add idx (piece msg idx)).chunks[k]? = some c → c = piece msg k := by
    intro acc k c hacc hk
    rw [FragmentAccumulator.add, BoundedKeys.getElem?_insertIfNew, Option.or_eq_some_iff] at hk
    rcases hk with hold | ⟨-, hnew⟩
    · exact hacc k c hold
    · split_ifs at hnew with h
      rw [Option.some.injEq] at hnew
      rw [← hnew, h]
  cases hfrag : r.fragments[id]? with
  | none =>
    have hacc : r.accFor id (fragmentCount msg) = { total := fragmentCount msg } := by
      simp [Rx.accFor, hfrag]
    rw [hacc]
    exact ⟨rfl, fun k c hk => hadd _ k c (by simp) hk⟩
  | some acc =>
    obtain ⟨msg', hmsg', htot, hchunks⟩ := hr.fragments id acc hfrag
    have hsame : msg' = msg := Option.some.inj (hmsg'.symm.trans hmsg)
    subst hsame
    have hpos : acc.total ≠ 0 := by omega
    have hacc : r.accFor id (fragmentCount msg') = acc := by simp [Rx.accFor, hfrag, hpos]
    rw [hacc]
    exact ⟨htot, fun k c hk => hadd acc k c hchunks hk⟩

/-- Copies of the peer's messages keep the buffers in agreement with its outbox, and what
they set free is what it enqueued. -/
theorem Rx.Agrees.arrive (hok : r.Ok) (hr : r.Agrees out) {a : Arrival} (ha : a.From out) :
    (r.arrive a).1.Agrees out ∧ ∀ (i : Nat) (p : Bytes), (r.arrive a).2[i]? = some p →
      out[r.last + 1 + i]? = some p := by
  have h := hok.arrives ha.sane
  generalize r.arrive a = res at h ⊢
  cases h with
  | known _ => exact ⟨hr, by simp⟩
  | data _ htakes => exact hr.takes ha htakes
  | @conflict id idx total chunk hid htot =>
    obtain ⟨msg, hmsg, rfl, hidx, -⟩ := ha
    exact absurd (hr.added hmsg hidx).1 htot
  | @stored id idx total chunk acc hid hacc htot hopen =>
    obtain ⟨msg, hmsg, rfl, hidx, rfl⟩ := ha
    refine ⟨⟨hr.buffer, ?_, hr.known⟩, by simp⟩
    intro k acc' hk
    simp only [Std.TreeMap.getElem?_insert, Std.LawfulEqCmp.compare_eq_iff_eq] at hk
    by_cases hkid : id = k
    · subst hkid
      simp only [if_true, Option.some.injEq] at hk
      subst hk
      exact ⟨msg, hmsg, htot, by rw [hacc]; exact (hr.added hmsg hidx).2⟩
    · exact hr.fragments k acc' (by simpa [hkid] using hk)
  | @completed id idx total chunk _ _ acc f hid hacc htot hall htakes =>
    obtain ⟨msg, hmsg, rfl, hidx, rfl⟩ := ha
    have hf : ∀ k < fragmentCount msg, f k = piece msg k := fun k hk =>
      (hr.added hmsg hidx).2 k (f k) (hacc ▸ hall k hk)
    have hjoin : (List.range (fragmentCount msg)).flatMap f = msg :=
      calc (List.range (fragmentCount msg)).flatMap f
          = (List.range (fragmentCount msg)).flatMap (piece msg) :=
            List.flatMap_congr fun k hk => hf k (List.mem_range.mp hk)
        _ = msg := pieces_all msg
    rw [hjoin] at htakes
    exact hr.takes hmsg htakes

end Todero.Core
