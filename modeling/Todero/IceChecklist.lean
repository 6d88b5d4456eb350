import Todero.Lib.Ranking
import Todero.Lib.Transition

/-! The candidate pairs of v3-nat: how a checklist is built, checked and nominated from.

`pair_priority` adds and multiplies in 64 bits and wraps as in the release build, which it
does only where both priorities are `u32::MAX`. -/
namespace Todero.Ice
open Ranking Transition

inductive CandidateType where
  | host | srflx | relay
  deriving DecidableEq, Repr

inductive IpAddr where
  | v4 (bits : UInt32)
  | v6 (bits : BitVec 128)
  deriving DecidableEq, Repr

structure IceCandidate where
  foundation : String
  component : UInt16
  transport : String
  priority : UInt32
  address : IpAddr
  port : UInt16
  typ : CandidateType
  relatedAddress : Option IpAddr
  relatedPort : Option UInt16
  deriving DecidableEq, Repr

inductive CandidatePairState where
  | frozen | inProgress | succeeded | failed
  deriving DecidableEq, Repr

structure CandidatePair where
  localIndex : Nat
  remoteIndex : Nat
  priority : UInt64
  nominated : Bool
  state : CandidatePairState
  deriving DecidableEq, Repr

structure IceChecklist where
  locals : List IceCandidate
  remotes : List IceCandidate
  pairs : List CandidatePair
  deriving DecidableEq, Repr

def relayPathMtu : CandidateType → Nat
  | .relay => 1200
  | .srflx => 1232
  | .host => 1400

def pairPriority (localPriority remotePriority : UInt32) : UInt64 :=
  let g := (max localPriority remotePriority).toUInt64
  let l := (min localPriority remotePriority).toUInt64
  4294967296 * l + 2 * g + if localPriority > remotePriority then 1 else 0

/-- The pairs in the order of the two nested loops of `IceChecklist::new`. -/
def enumeratedPairs (locals remotes : List IceCandidate) : List CandidatePair :=
  locals.zipIdx.flatMap fun (l, li) => remotes.zipIdx.filterMap fun (r, ri) =>
    if l.component ≠ r.component ∨ l.transport ≠ r.transport then none
    else some ⟨li, ri, pairPriority l.priority r.priority, false, .frozen⟩

def IceChecklist.new (locals remotes : List IceCandidate) : IceChecklist where
  locals := locals
  remotes := remotes
  pairs := sortDesc (fun p => p.priority.toNat) (enumeratedPairs locals remotes)

/-- `iter_mut().find(p)` and a write to what is found. -/
def updateFirst {α : Type} (p : α → Bool) (f : α → α) : List α → List α
  | [] => []
  | a :: l => if p a then f a :: l else a :: updateFirst p f l

def CandidatePair.indices (p : CandidatePair) : Nat × Nat := (p.localIndex, p.remoteIndex)

def CandidatePair.withState (state : CandidatePairState) (p : CandidatePair) : CandidatePair :=
  { p with state := state }

def CandidatePair.isIn (state : CandidatePairState) (p : CandidatePair) : Bool := p.state = state

def IceChecklist.nextCheck (c : IceChecklist) : IceChecklist × Option (Nat × Nat) :=
  ({ c with
      pairs := updateFirst (CandidatePair.isIn .frozen) (CandidatePair.withState .inProgress)
        c.pairs },
    (c.pairs.find? (CandidatePair.isIn .frozen)).map CandidatePair.indices)

def IceChecklist.markCheckResult (c : IceChecklist) (localIndex remoteIndex : Nat) (ok : Bool) :
    IceChecklist :=
  { c with
    pairs := updateFirst (fun p => p.localIndex = localIndex && p.remoteIndex = remoteIndex)
      (CandidatePair.withState (if ok then .succeeded else .failed)) c.pairs }

/-- The succeeded pair that `max_by` chooses, and its place in the list. -/
def IceChecklist.best (c : IceChecklist) : Option (CandidatePair × Nat) :=
  lastMax (fun p => p.1.priority.toNat) (c.pairs.zipIdx.filter fun p => p.1.isIn .succeeded)

def IceChecklist.nominateBest (c : IceChecklist) : IceChecklist × Option CandidatePair :=
  match c.best with
  | none => (c, none)
  | some (p, i) =>
    let best := { p with nominated := true }
    ({ c with pairs := c.pairs.set i best }, some best)

inductive CheckOp where
  | nextCheck
  | markCheckResult (localIndex remoteIndex : Nat) (ok : Bool)
  | nominateBest

inductive CheckAnswer where
  | checking (pair : Option (Nat × Nat))
  | marked
  | nominating (pair : Option CandidatePair)

def IceChecklist.step (c : IceChecklist) : CheckOp → Option (IceChecklist × CheckAnswer)
  | .nextCheck => some (c.nextCheck.1, .checking c.nextCheck.2)
  | .markCheckResult localIndex remoteIndex ok =>
    some (c.markCheckResult localIndex remoteIndex ok, .marked)
  | .nominateBest => some (c.nominateBest.1, .nominating c.nominateBest.2)

abbrev CheckHistory := List (Taken IceChecklist CheckOp CheckAnswer)

/-! ### What no call changes -/

/-- Which pair it is, and where it stands. -/
def CandidatePair.rank (p : CandidatePair) : (Nat × Nat) × UInt64 := (p.indices, p.priority)

theorem updateFirst_map {α β : Type} {p : α → Bool} {f : α → α} {g : α → β}
    (h : ∀ a, g (f a) = g a) (l : List α) : (updateFirst p f l).map g = l.map g := by
  induction l with
  | nil => rfl
  | cons a l ih =>
    rw [updateFirst]
    split_ifs
    · rw [List.map_cons, List.map_cons, h]
    · rw [List.map_cons, List.map_cons, ih]

theorem mem_updateFirst {α : Type} {p : α → Bool} {f : α → α} {l : List α} {b : α}
    (hb : b ∈ updateFirst p f l) : b ∈ l ∨ ∃ a ∈ l, p a ∧ b = f a := by
  induction l with
  | nil => exact .inl hb
  | cons a l ih =>
    rw [updateFirst] at hb
    split_ifs at hb with hp
    · rcases List.mem_cons.mp hb with rfl | hb
      · exact .inr ⟨a, List.mem_cons_self, hp, rfl⟩
      · exact .inl (List.mem_cons_of_mem _ hb)
    · rcases List.mem_cons.mp hb with rfl | hb
      · exact .inl List.mem_cons_self
      · obtain hb | ⟨a', ha', hp', heq⟩ := ih hb
        · exact .inl (List.mem_cons_of_mem _ hb)
        · exact .inr ⟨a', List.mem_cons_of_mem _ ha', hp', heq⟩

/-- Where only one element can be found, it is the one written to. -/
theorem updateFirst_mem {α : Type} {p : α → Bool} (f : α → α) {l : List α} {a : α} (ha : a ∈ l)
    (hp : p a) (honly : ∀ b ∈ l, p b → b = a) : f a ∈ updateFirst p f l := by
  induction l with
  | nil => cases ha
  | cons b l ih =>
    rw [updateFirst]
    split_ifs with hb
    · rw [honly b List.mem_cons_self hb]
      exact List.mem_cons_self
    · rcases List.mem_cons.mp ha with rfl | ha
      · exact absurd hp hb
      · exact List.mem_cons_of_mem _
          (ih ha fun b hmem => honly b (List.mem_cons_of_mem _ hmem))

theorem rank_withState (state : CandidatePairState) (p : CandidatePair) :
    (p.withState state).rank = p.rank := rfl

/-- The chosen pair stands at its place in the list, and has succeeded. -/
theorem best_getElem? {c : IceChecklist} {b : CandidatePair × Nat} (hbest : c.best = some b) :
    c.pairs[b.2]? = some b.1 ∧ b.1.state = .succeeded := by
  obtain ⟨l₁, l₂, hsplit, -⟩ := lastMax_split hbest
  have hmem : b ∈ c.pairs.zipIdx.filter fun p => p.1.isIn .succeeded := by
    rw [hsplit]
    simp
  obtain ⟨hplace, hstate⟩ := List.mem_filter.mp hmem
  exact ⟨List.mk_mem_zipIdx_iff_getElem?.mp hplace, of_decide_eq_true hstate⟩

theorem step_ranks {c c' : IceChecklist} {op : CheckOp} {o : CheckAnswer}
    (hs : c.step op = some (c', o)) :
    c'.pairs.map CandidatePair.rank = c.pairs.map CandidatePair.rank := by
  cases op with
  | nextCheck =>
    obtain ⟨rfl, -⟩ := Prod.mk.inj (Option.some.inj hs)
    exact updateFirst_map (rank_withState _) _
  | markCheckResult localIndex remoteIndex ok =>
    obtain ⟨rfl, -⟩ := Prod.mk.inj (Option.some.inj hs)
    exact updateFirst_map (rank_withState _) _
  | nominateBest =>
    obtain ⟨rfl, -⟩ := Prod.mk.inj (Option.some.inj hs)
    unfold IceChecklist.nominateBest
    cases hbest : c.best with
    | none => rfl
    | some b =>
      obtain ⟨p, i⟩ := b
      obtain ⟨hi, hget⟩ := List.getElem?_eq_some_iff.mp (best_getElem? hbest).1
      show (c.pairs.set i _).map _ = _
      rw [List.map_set]
      have hi' : i < (c.pairs.map CandidatePair.rank).length := by simpa using hi
      have hsame : CandidatePair.rank { p with nominated := true } =
          (c.pairs.map CandidatePair.rank)[i] := by
        rw [List.getElem_map, hget]
        rfl
      rw [hsame, List.set_getElem_self]

theorem ranks_of_run {locals remotes : List IceCandidate} {h : CheckHistory} {c : IceChecklist}
    (hrun : Run IceChecklist.step (IceChecklist.new locals remotes) h c) :
    c.pairs.map CandidatePair.rank =
      (IceChecklist.new locals remotes).pairs.map CandidatePair.rank := by
  induction hrun with
  | nil => rfl
  | snoc _ hs ih => exact (step_ranks hs).trans ih

end Todero.Ice
