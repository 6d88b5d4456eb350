import Todero.Delivery

/-! The fragment sets of every reachable machine, and what becomes of one that is filled. -/
namespace Todero.Core
open Todero.Wire Transition

/-- A set that has been begun and is not complete, of a message that has not been received. -/
structure FragmentSet (m : CoreMachine) (id : Nat) (acc : FragmentAccumulator) : Prop where
  begun : 1 ≤ acc.total
  indices : ∀ k ∈ acc.chunks, k < acc.total
  incomplete : acc.chunks.size < acc.total
  unreceived : id ∉ m.receivedIds

/-- No index of the set is missing, and what it is merged into are the chunks that came first
for each of them. -/
structure Merges (arrived : List Arrival) (id : Nat) (acc : FragmentAccumulator) : Prop where
  all : ∀ k < acc.total, k ∈ acc.chunks
  merged : ∃ chunk : Nat → Bytes, (∀ k < acc.total, setChunk id arrived k = some (chunk k)) ∧
    mergeChunks acc.chunks acc.total = some ((List.range acc.total).flatMap chunk)

/-- The reasons for which `handle_fragment` refuses a payload. -/
def Refusable (m : CoreMachine) (payload : Bytes) : Prop :=
  payload.length < fragmentHeaderLen ∨ fragmentArrival payload = none ∨
    ∃ id idx total chunk acc, fragmentArrival payload = some (.fragment id idx total chunk) ∧
      m.receivedFragments[id]? = some acc ∧ acc.total ≠ total

/-- The fragment sets of a machine after a run, and what the next fragment does to them,
whatever it says. -/
structure FragmentsSound (h : History) (m : CoreMachine) : Prop where
  sets : ∀ (id : Nat) (acc : FragmentAccumulator), m.receivedFragments[id]? = some acc →
    FragmentSet m id acc
  filled : ∀ (payload : Bytes) (id idx total : Nat) (chunk : Bytes) (acc : FragmentAccumulator),
    fragmentArrival payload = some (.fragment id idx total chunk) → id ∉ m.receivedIds →
      acc = (m.rx.accFor id total).add idx chunk → acc.total = total →
        acc.chunks.size = acc.total →
          Merges (arrivals h ++ [.fragment id idx total chunk]) id acc
  refused : ∀ (payload : Bytes) (c c' : Ctx) (e : CoreError), c.self.rx = m.rx →
    handleFragment payload c = .error e c' → Refusable m payload

theorem Rx.accFor_conflict {r : Rx} (hr : r.Ok) {id total : Nat}
    (h : (r.accFor id total).total ≠ total) :
    ∃ acc, r.fragments[id]? = some acc ∧ acc.total ≠ total := by
  cases hacc : r.fragments[id]? with
  | none => exact absurd (by simp [Rx.accFor, hacc]) h
  | some acc =>
    have hpos : acc.total ≠ 0 := by
      have hmissing := (hr.unfinished id acc hacc).2.missing
      omega
    have heq : r.accFor id total = acc := by simp [Rx.accFor, hacc, hpos]
    exact ⟨acc, rfl, heq ▸ h⟩

/-- Every fragment set of a reachable machine is well formed, a set that is filled can be
merged, and no fragment is refused for a chunk that is missing. -/
theorem fragments_sound {role : Role} {cid : UInt64} {cfg : CoreConfig} {h : History}
    {m : CoreMachine} (hrun : Run CoreMachine.step (CoreMachine.new role cid cfg) h m) :
    FragmentsSound h m := by
  obtain ⟨ps, hd⟩ := delivered_of_run hrun
  refine ⟨fun id acc hacc => ?_, ?_, ?_⟩
  · obtain ⟨hid, hopen⟩ := hd.ok.unfinished id acc hacc
    have hmissing := hopen.missing
    exact ⟨by omega, hopen.below, hmissing, hid⟩
  · intro payload id idx total chunk acc harr hid hacc htot hfull
    have hsane : idx < total := fragmentArrival_sane harr
    have hsame : (m.rx.accFor id total).total = total :=
      (congrArg FragmentAccumulator.total hacc).symm.trans htot
    have hbelow : BoundedKeys.Below acc.total acc.chunks := by
      rw [htot, hacc]
      exact (hd.ok.accFor_below hsame).1.insertIfNew hsane chunk
    obtain ⟨f, hchunks, hmerge⟩ := mergeChunks_full hbelow hfull
    obtain ⟨-, hset⟩ := hd.follows.added hd.ok hid hacc htot
    exact ⟨hbelow.full_iff.mp hfull, f, fun k hk => by rw [hset, hchunks k hk], hmerge⟩
  · intro payload c c' e hrx herr
    by_cases hlen : payload.length < fragmentHeaderLen
    · exact .inl hlen
    · rw [handleFragment_run c (not_lt.mp hlen), hrx] at herr
      cases harr : fragmentArrival payload with
      | none => exact .inr (.inl harr)
      | some a =>
        simp only [harr] at herr
        split_ifs at herr with hrej
        obtain ⟨id, idx, total, chunk, rfl, htot⟩ := hd.ok.rejects (fragmentArrival_sane harr) hrej
        obtain ⟨acc, hacc, hne⟩ := Rx.accFor_conflict hd.ok htot
        exact .inr (.inr ⟨id, idx, total, chunk, acc, harr, hacc, hne⟩)

/-- Fragments of message 1 that repeat an index, go beyond their total and disagree about it,
and message 2 as a whole after a fragment of it. -/
def forgedFragments : List Op :=
  [.datagram 0 0 ((Packet.control .clientHello).bytes 7),
    .datagram 1 0 ((Packet.fragment 1 0 3 [10] 0 2).bytes 7),
    .datagram 2 0 ((Packet.fragment 1 0 3 [11] 0 2).bytes 7),
    .datagram 3 0 ((Packet.fragment 1 3 3 [12] 0 2).bytes 7),
    .datagram 4 0 ((Packet.fragment 1 1 2 [13] 0 2).bytes 7),
    .datagram 5 0 ((Packet.fragment 2 0 2 [20] 0 2).bytes 7),
    .datagram 6 0 ((Packet.data 2 [21] 0 2).bytes 7)]

theorem forgedFragments_sound :
    ∃ h m, exec CoreMachine.step (CoreMachine.new .server 7 .default) forgedFragments =
        some (h, m) ∧
      FragmentsSound h m := by
  have hsome : (exec CoreMachine.step (CoreMachine.new .server 7 .default)
      forgedFragments).isSome := by decide +kernel
  obtain ⟨⟨h, m⟩, hexec⟩ := Option.isSome_iff_exists.mp hsome
  exact ⟨h, m, hexec, fragments_sound (Run.of_exec hexec)⟩

end Todero.Core
