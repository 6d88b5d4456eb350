import Mathlib.Data.List.InsertIdx
import Mathlib.Data.List.Perm.Basic
import Mathlib.Logic.Function.Basic
import Todero.Lib.Transition

/-! Two parties that exchange datagrams over a network that may delay, reorder, drop
and duplicate them. The parties are named by `P`; `peer p` is the other end of `p`. -/
namespace Duplex
open Transition
variable {P σ κ τ D ο : Type}

/-- What both ends run: a call from the application, or a datagram that arrives, gives
a new state, datagrams for the other end, and a result. -/
structure Party (σ κ τ D ο : Type) where
  call : σ → κ → Option (σ × List D × ο)
  recv : σ → τ → D → σ × List D × ο

/-- `inbox p` is what is on its way to `p`. -/
@[ext] structure Net (P σ D : Type) where
  core : P → σ
  inbox : P → List D

inductive Action (P κ τ : Type) where
  | call (p : P) (k : κ)
  | deliver (p : P) (i : Nat) (t : τ)
  | drop (p : P) (i : Nat)
  | duplicate (p : P) (i : Nat)

/-- The end at which an action happens, unless it happens on the way. -/
def Action.actor : Action P κ τ → Option P
  | .call p _ | .deliver p _ _ => some p
  | .drop _ _ | .duplicate _ _ => none

def Net.Quiet (w : Net P σ D) : Prop := ∀ p, w.inbox p = []

/-- The same state with every datagram written another way. -/
def Net.map {D' : Type} (f : D → D') (w : Net P σ D) : Net P σ D' :=
  ⟨w.core, fun p => (w.inbox p).map f⟩

@[simp] theorem Net.map_core {D' : Type} (f : D → D') (w : Net P σ D) :
    (w.map f).core = w.core := rfl

theorem Net.map_quiet {D' : Type} (f : D → D') (w : Net P σ D) :
    (w.map f).Quiet ↔ w.Quiet := by
  simp [Net.Quiet, Net.map]

variable [DecidableEq P]

def Net.remove (w : Net P σ D) (p : P) (i : Nat) : Net P σ D :=
  { w with inbox := Function.update w.inbox p ((w.inbox p).eraseIdx i) }

def Net.add (w : Net P σ D) (p : P) (ds : List D) : Net P σ D :=
  { w with inbox := Function.update w.inbox p (w.inbox p ++ ds) }

def Net.enter (w : Net P σ D) (p : P) (s : σ) : Net P σ D :=
  { w with core := Function.update w.core p s }

section Step
variable (peer : P → P) (party : Party σ κ τ D ο)

/-- `p` has moved to `s` and sent `ds`. -/
def Net.commit (w : Net P σ D) (p : P) (s : σ) (ds : List D) : Net P σ D :=
  (w.enter p s).add (peer p) ds

def Net.step (w : Net P σ D) : Action P κ τ → Option (Net P σ D × Option ο)
  | .call p k => (party.call (w.core p) k).map fun (s, ds, o) => (w.commit peer p s ds, some o)
  | .deliver p i t => (w.inbox p)[i]?.map fun d =>
    let (s, ds, o) := party.recv (w.core p) t d
    ((w.remove p i).commit peer p s ds, some o)
  | .drop p i => (w.inbox p)[i]?.map fun _ => (w.remove p i, none)
  | .duplicate p i => (w.inbox p)[i]?.map fun d => (w.add p [d], none)

/-- One datagram in flight is delivered. -/
def Net.Delivers (w w' : Net P σ D) : Prop :=
  ∃ p i t o, w.step peer party (.deliver p i t) = some (w', o)

theorem Net.terminal_iff [Nonempty τ] (w : Net P σ D) :
    Terminal (Net.Delivers peer party) w ↔ w.Quiet := by
  constructor
  · intro h p
    cases hp : w.inbox p with
    | nil => rfl
    | cons d ds =>
      obtain ⟨t⟩ := ‹Nonempty τ›
      obtain ⟨r, hr⟩ : ∃ r, w.step peer party (.deliver p 0 t) = some r := by
        simp [Net.step, hp]
      exact absurd ⟨p, 0, t, r.2, hr⟩ (h r.1)
  · rintro h w' ⟨p, i, t, o, hs⟩
    simp [Net.step, h p] at hs

end Step

section Fields
variable (w : Net P σ D) (p q : P) (s : σ) (i : Nat) (ds : List D) (d : D)

@[simp] theorem Net.remove_core : (w.remove p i).core = w.core := rfl
@[simp] theorem Net.add_core : (w.add p ds).core = w.core := rfl
@[simp] theorem Net.enter_inbox : (w.enter p s).inbox = w.inbox := rfl
@[simp] theorem Net.commit_core (peer : P → P) :
    (w.commit peer p s ds).core = Function.update w.core p s := rfl

theorem Net.mem_add : d ∈ (w.add p ds).inbox q ↔ d ∈ w.inbox q ∨ q = p ∧ d ∈ ds := by
  by_cases h : q = p
  · subst h
    simp [Net.add]
  · simp [Net.add, h]

theorem Net.mem_commit (peer : P → P) :
    d ∈ (w.commit peer p s ds).inbox q ↔ d ∈ w.inbox q ∨ q = peer p ∧ d ∈ ds :=
  Net.mem_add (w.enter p s) (peer p) q ds d

theorem Net.mem_of_remove {w : Net P σ D} {p q : P} {i : Nat} {d : D}
    (h : d ∈ (w.remove p i).inbox q) : d ∈ w.inbox q := by
  by_cases hq : q = p
  · subst hq
    exact List.mem_of_mem_eraseIdx (by simpa [Net.remove] using h)
  · simpa [Net.remove, hq] using h

/-- Taking one datagram away leaves every other one. -/
theorem Net.mem_remove {w : Net P σ D} {p q : P} {i : Nat} {d e : D}
    (hi : (w.inbox p)[i]? = some e) (hd : d ∈ w.inbox q) (hne : q = p → d ≠ e) : d ∈ (w.remove p i).inbox q := by
  by_cases h : q = p
  · subst h
    obtain ⟨hlt, rfl⟩ := List.getElem?_eq_some_iff.mp hi
    have hmem := (List.getElem_cons_eraseIdx_perm hlt).mem_iff.mpr hd
    simpa [Net.remove] using (List.mem_cons.mp hmem).resolve_left (hne rfl)
  · simpa [Net.remove, h] using hd

end Fields

/-! ### An invariant of the two ends and of everything in flight -/

section Invariant
variable {peer : P → P} {party : Party σ κ τ D ο}

/-- `K s t` holds of the state of each end and that of its peer, and `G t d` of every
datagram `d` in flight from an end in state `t`. -/
structure Net.Holds (peer : P → P) (K : σ → σ → Prop) (G : σ → D → Prop) (w : Net P σ D) :
    Prop where
  ends : ∀ p, K (w.core p) (w.core (peer p))
  flight : ∀ p, ∀ d ∈ w.inbox p, G (w.core (peer p)) d

/-- A move of one end, seen from both: it keeps the relation with its peer in both
directions, what it sent before stays good, and what it sends now is good. -/
structure Good (K : σ → σ → Prop) (G : σ → D → Prop) (s t s' : σ) (ds : List D) : Prop where
  self : K s' t
  peer : K t s'
  kept : ∀ d, G s d → G s' d
  sent : ∀ d ∈ ds, G s' d

variable {K : σ → σ → Prop} {G : σ → D → Prop} {w : Net P σ D}

theorem Net.Holds.commit (hpeer : ∀ p, peer (peer p) = p) (hne : ∀ p, peer p ≠ p)
    (hw : w.Holds peer K G) {p : P} {s : σ} {ds : List D}
    (hgood : Good K G (w.core p) (w.core (peer p)) s ds) :
    (w.commit peer p s ds).Holds peer K G := by
  have hcases : ∀ q, q = p ∨ q = peer p ∨ (q ≠ p ∧ peer q ≠ p) := by
    intro q
    by_cases h₁ : q = p
    · exact .inl h₁
    · by_cases h₂ : peer q = p
      · exact .inr (.inl (by rw [← h₂, hpeer]))
      · exact .inr (.inr ⟨h₁, h₂⟩)
  constructor
  · intro q
    rw [Net.commit_core]
    rcases hcases q with rfl | rfl | ⟨h₁, h₂⟩
    · rw [Function.update_self, Function.update_of_ne (hne q)]
      exact hgood.self
    · rw [hpeer, Function.update_self, Function.update_of_ne (hne p)]
      exact hgood.peer
    · rw [Function.update_of_ne h₁, Function.update_of_ne h₂]
      exact hw.ends q
  · intro q d hd
    rw [Net.commit_core]
    rw [Net.mem_commit] at hd
    by_cases h : peer q = p
    · rw [h, Function.update_self]
      rcases hd with hold | ⟨-, hnew⟩
      · exact hgood.kept d (h ▸ hw.flight q d hold)
      · exact hgood.sent d hnew
    · rw [Function.update_of_ne h]
      rcases hd with hold | ⟨rfl, -⟩
      · exact hw.flight q d hold
      · exact absurd (hpeer p) h

theorem Net.Holds.remove (hw : w.Holds peer K G) (p : P) (i : Nat) :
    (w.remove p i).Holds peer K G :=
  ⟨hw.ends, fun q d hd => hw.flight q d (Net.mem_of_remove hd)⟩

theorem Net.Holds.add (hw : w.Holds peer K G) {p : P} {ds : List D} (hds : ∀ d ∈ ds, d ∈ w.inbox p) :
    (w.add p ds).Holds peer K G := by
  refine ⟨hw.ends, fun q d hd => ?_⟩
  rcases (Net.mem_add w p q ds d).mp hd with hold | ⟨rfl, hnew⟩
  · exact hw.flight q d hold
  · exact hw.flight q d (hds d hnew)

/-- One step of the network, from what a call and a datagram do at one end. -/
theorem Net.Holds.step (hpeer : ∀ p, peer (peer p) = p) (hne : ∀ p, peer p ≠ p)
    (ok : κ → Prop)
    (hcall : ∀ s t k s' ds o, ok k → K s t → K t s → party.call s k = some (s', ds, o) →
      Good K G s t s' ds)
    (hrecv : ∀ s t x d, K s t → K t s → G t d →
      Good K G s t (party.recv s x d).1 (party.recv s x d).2.1)
    (hw : w.Holds peer K G) {a : Action P κ τ} (ha : ∀ p k, a = .call p k → ok k)
    {w' : Net P σ D} {o : Option ο} (hs : w.step peer party a = some (w', o)) :
    w'.Holds peer K G := by
  have hends : ∀ p, K (w.core p) (w.core (peer p)) ∧ K (w.core (peer p)) (w.core p) := by
    intro p
    have h := hw.ends (peer p)
    rw [hpeer] at h
    exact ⟨hw.ends p, h⟩
  cases a with
  | call p k =>
    simp only [Net.step, Option.map_eq_some_iff, Prod.mk.injEq] at hs
    obtain ⟨⟨s', ds, o'⟩, hc, rfl, -⟩ := hs
    exact hw.commit hpeer hne (hcall _ _ k s' ds o' (ha p k rfl) (hends p).1 (hends p).2 hc)
  | deliver p i x =>
    simp only [Net.step, Option.map_eq_some_iff, Prod.mk.injEq] at hs
    obtain ⟨d, hd, rfl, -⟩ := hs
    have hG := hw.flight p d (List.mem_of_getElem? hd)
    exact (hw.remove p i).commit hpeer hne (hrecv _ _ x d (hends p).1 (hends p).2 hG)
  | drop p i =>
    simp only [Net.step, Option.map_eq_some_iff, Prod.mk.injEq] at hs
    obtain ⟨d, -, rfl, -⟩ := hs
    exact hw.remove p i
  | duplicate p i =>
    simp only [Net.step, Option.map_eq_some_iff, Prod.mk.injEq] at hs
    obtain ⟨d, hd, rfl, -⟩ := hs
    exact hw.add fun x hx => by
      rw [List.mem_singleton.mp hx]
      exact List.mem_of_getElem? hd

end Invariant

/-! ### Two encodings of the same datagrams -/

section Encoding
variable {D' : Type} (f : D → D')

theorem Net.map_add (w : Net P σ D) (p : P) (ds : List D) :
    (w.add p ds).map f = (w.map f).add p (ds.map f) := by
  refine Net.ext rfl (funext fun q => ?_)
  by_cases h : q = p
  · subst h
    simp [Net.add, Net.map]
  · simp [Net.add, Net.map, h]

theorem Net.map_remove (w : Net P σ D) (p : P) (i : Nat) :
    (w.remove p i).map f = (w.map f).remove p i := by
  refine Net.ext rfl (funext fun q => ?_)
  by_cases h : q = p
  · subst h
    simp [Net.remove, Net.map, List.eraseIdx_map]
  · simp [Net.remove, Net.map, h]

theorem Net.map_commit (peer : P → P) (w : Net P σ D) (p : P) (s : σ) (ds : List D) :
    (w.commit peer p s ds).map f = (w.map f).commit peer p s (ds.map f) :=
  Net.map_add f (w.enter p s) (peer p) ds

/-- Two parties that differ only in how they write their datagrams take the same steps. -/
theorem Net.step_map {peer : P → P} {A : Party σ κ τ D ο} {B : Party σ κ τ D' ο} (w : Net P σ D)
    (hcall : ∀ p k, B.call (w.core p) k =
      (A.call (w.core p) k).map fun (s, ds, o) => (s, ds.map f, o))
    (hrecv : ∀ p t, ∀ d ∈ w.inbox p, B.recv (w.core p) t (f d) =
      ((A.recv (w.core p) t d).1, (A.recv (w.core p) t d).2.1.map f, (A.recv (w.core p) t d).2.2))
    (a : Action P κ τ) :
    (w.map f).step peer B a = (w.step peer A a).map fun (w', o) => (w'.map f, o) := by
  have hget : ∀ (p : P) (i : Nat), ((w.map f).inbox p)[i]? = (w.inbox p)[i]?.map f := by
    simp [Net.map]
  cases a with
  | call p k =>
    simp only [Net.step, Net.map_core, hcall, Option.map_map]
    congr 1
    funext ⟨s, ds, o⟩
    simp [Net.map_commit]
  | deliver p i t =>
    simp only [Net.step, hget, Option.map_map]
    cases hd : (w.inbox p)[i]? with
    | none => rfl
    | some d =>
      simp only [Option.map_some, Function.comp_apply, Net.map_core,
        hrecv p t d (List.mem_of_getElem? hd), Net.map_commit, Net.map_remove]
  | drop p i =>
    simp only [Net.step, hget, Option.map_map]
    cases (w.inbox p)[i]? <;> simp [Net.map_remove]
  | duplicate p i =>
    simp only [Net.step, hget, Option.map_map]
    cases (w.inbox p)[i]? <;> simp [Net.map_add]

end Encoding

/-! ### A part of what the ends do -/

section View
variable {σ' κ' D' : Type} (f : σ → σ') (g : D → Option D')

/-- A part of the state of each end, and of the datagrams in flight. -/
def Net.view (w : Net P σ D) : Net P σ' D' :=
  ⟨fun p => f (w.core p), fun p => (w.inbox p).filterMap g⟩

/-- The place among the datagrams of the view of one that belongs to it. -/
def Net.sees (w : Net P σ D) (p : P) (i : Nat) : Option Nat :=
  ((w.inbox p)[i]?.bind g).map fun _ => (((w.inbox p).take i).filterMap g).length

omit [DecidableEq P] in
@[simp] theorem Net.view_core (w : Net P σ D) (p : P) : (w.view f g).core p = f (w.core p) := rfl
omit [DecidableEq P] in
@[simp] theorem Net.view_inbox (w : Net P σ D) (p : P) :
    (w.view f g).inbox p = (w.inbox p).filterMap g := rfl

omit [DecidableEq P] in
theorem Net.sees_le {w : Net P σ D} {p : P} {i j : Nat} (h : w.sees g p i = some j) : j ≤ i := by
  obtain ⟨-, -, rfl⟩ := Option.map_eq_some_iff.mp h
  exact (List.length_filterMap_le g _).trans (List.length_take_le i _)

/-- What an action is in the view, if it is one there. -/
def Net.viewAction (φ : σ → κ → Option κ') (w : Net P σ D) :
    Action P κ τ → Option (Action P κ' Unit)
  | .call p k => (φ (w.core p) k).map (.call p)
  | .deliver p i _ => (w.sees g p i).map fun j => .deliver p j ()
  | .drop p i => (w.sees g p i).map (.drop p)
  | .duplicate p i => (w.sees g p i).map (.duplicate p)

variable {g}

theorem filterMap_split {l : List D} {i : Nat} {d : D} (hd : l[i]? = some d) :
    l = l.take i ++ d :: l.drop (i + 1) ∧ l.eraseIdx i = l.take i ++ l.drop (i + 1) := by
  obtain ⟨hi, rfl⟩ := List.getElem?_eq_some_iff.mp hd
  refine ⟨?_, List.eraseIdx_eq_take_drop_succ l i⟩
  rw [List.getElem_cons_drop, List.take_append_drop]

theorem filterMap_getElem? {l : List D} {i : Nat} {d : D} {e : D'} (hd : l[i]? = some d)
    (he : g d = some e) : (l.filterMap g)[((l.take i).filterMap g).length]? = some e := by
  have hsplit : l.filterMap g =
      (l.take i).filterMap g ++ e :: (l.drop (i + 1)).filterMap g := by
    conv_lhs => rw [(filterMap_split hd).1]
    rw [List.filterMap_append, List.filterMap_cons_some he]
  rw [hsplit, List.getElem?_append_right le_rfl, Nat.sub_self]
  rfl

theorem filterMap_eraseIdx_none {l : List D} {i : Nat} {d : D} (hd : l[i]? = some d)
    (he : g d = none) : (l.eraseIdx i).filterMap g = l.filterMap g := by
  conv_rhs => rw [(filterMap_split hd).1]
  rw [(filterMap_split hd).2, List.filterMap_append, List.filterMap_append,
    List.filterMap_cons_none he]

theorem filterMap_eraseIdx_some {l : List D} {i : Nat} {d : D} {e : D'} (hd : l[i]? = some d)
    (he : g d = some e) : (l.eraseIdx i).filterMap g =
      (l.filterMap g).eraseIdx ((l.take i).filterMap g).length := by
  have hsplit : l.filterMap g =
      (l.take i).filterMap g ++ e :: (l.drop (i + 1)).filterMap g := by
    conv_lhs => rw [(filterMap_split hd).1]
    rw [List.filterMap_append, List.filterMap_cons_some he]
  rw [hsplit, (filterMap_split hd).2, List.filterMap_append,
    List.eraseIdx_append_of_length_le le_rfl, Nat.sub_self, List.eraseIdx_cons_zero]

omit [DecidableEq P] in
theorem Net.sees_none {w : Net P σ D} {p : P} {i : Nat} {d : D} (hd : (w.inbox p)[i]? = some d)
    (he : g d = none) : w.sees g p i = none := by
  simp [Net.sees, hd, he]

omit [DecidableEq P] in
theorem Net.sees_some {w : Net P σ D} {p : P} {i : Nat} {d : D} {e : D'}
    (hd : (w.inbox p)[i]? = some d) (he : g d = some e) :
    w.sees g p i = some (((w.inbox p).take i).filterMap g).length := by
  simp [Net.sees, hd, he]

theorem Net.view_add (w : Net P σ D) (p : P) (ds : List D) :
    (w.add p ds).view f g = (w.view f g).add p (ds.filterMap g) := by
  refine Net.ext rfl (funext fun q => ?_)
  by_cases h : q = p
  · subst h
    simp [Net.add, Net.view]
  · simp [Net.add, Net.view, h]

theorem Net.view_enter (w : Net P σ D) (p : P) (s : σ) :
    (w.enter p s).view f g = (w.view f g).enter p (f s) := by
  refine Net.ext (funext fun q => ?_) rfl
  by_cases h : q = p
  · subst h
    simp [Net.enter, Net.view]
  · simp [Net.enter, Net.view, h]

theorem Net.view_commit (peer : P → P) (w : Net P σ D) (p : P) (s : σ) (ds : List D) :
    (w.commit peer p s ds).view f g = (w.view f g).commit peer p (f s) (ds.filterMap g) := by
  rw [Net.commit, Net.view_add, Net.view_enter]
  rfl

theorem Net.view_remove_none (w : Net P σ D) {p : P} {i : Nat} {d : D}
    (hd : (w.inbox p)[i]? = some d) (he : g d = none) : (w.remove p i).view f g = w.view f g := by
  refine Net.ext rfl (funext fun q => ?_)
  by_cases h : q = p
  · subst h
    simp [Net.remove, Net.view, filterMap_eraseIdx_none hd he]
  · simp [Net.remove, Net.view, h]

theorem Net.view_remove_some (w : Net P σ D) {p : P} {i : Nat} {d : D} {e : D'}
    (hd : (w.inbox p)[i]? = some d) (he : g d = some e) :
    (w.remove p i).view f g =
      (w.view f g).remove p (((w.inbox p).take i).filterMap g).length := by
  refine Net.ext rfl (funext fun q => ?_)
  by_cases h : q = p
  · subst h
    simp [Net.remove, Net.view, filterMap_eraseIdx_some hd he]
  · simp [Net.remove, Net.view, h]

theorem Net.commit_same (peer : P → P) (w : Net P σ D) (p : P) :
    w.commit peer p (w.core p) [] = w := by
  refine Net.ext ?_ (funext fun q => ?_)
  · rw [Net.commit_core, Function.update_eq_self]
  · by_cases h : q = peer p
    · subst h
      simp [Net.commit, Net.add]
    · simp [Net.commit, Net.add]

variable {f}

/-- Where calls and datagrams outside the view leave it alone and the others act in it as
the party `B` does, the view takes the steps of `B`, or none. -/
theorem Net.step_view {peer : P → P} {A : Party σ κ τ D ο} {B : Party σ' κ' Unit D' Unit}
    {φ : σ → κ → Option κ'} {w w' : Net P σ D} {a : Action P κ τ} {o : Option ο}
    (hcall : ∀ p k s ds o, A.call (w.core p) k = some (s, ds, o) →
      (φ (w.core p) k).elim (f s = f (w.core p) ∧ ds.filterMap g = [])
        fun k' => B.call (f (w.core p)) k' = some (f s, ds.filterMap g, ()))
    (hrecv : ∀ p t, ∀ d ∈ w.inbox p,
      (g d).elim (f (A.recv (w.core p) t d).1 = f (w.core p) ∧
          (A.recv (w.core p) t d).2.1.filterMap g = [])
        fun e => B.recv (f (w.core p)) () e =
          (f (A.recv (w.core p) t d).1, (A.recv (w.core p) t d).2.1.filterMap g, ()))
    (hs : w.step peer A a = some (w', o)) :
    (w.viewAction g φ a).elim (w'.view f g = w.view f g)
      fun b => ((w.view f g).step peer B b).map Prod.fst = some (w'.view f g) := by
  cases a with
  | call p k =>
    simp only [Net.step, Option.map_eq_some_iff, Prod.mk.injEq] at hs
    obtain ⟨⟨s, ds, o'⟩, hc, rfl, -⟩ := hs
    have h := hcall p k s ds o' hc
    cases hφ : φ (w.core p) k with
    | none =>
      rw [hφ] at h
      simp only [Net.viewAction, hφ, Option.map_none, Option.elim_none]
      rw [Net.view_commit, h.1, h.2]
      exact Net.commit_same peer (w.view f g) p
    | some k' =>
      rw [hφ] at h
      have h' : B.call ((w.view f g).core p) k' = some (f s, ds.filterMap g, ()) := h
      simp only [Net.viewAction, hφ, Option.map_some, Option.elim_some, Net.step, h', Net.view_commit]
  | deliver p i t =>
    simp only [Net.step, Option.map_eq_some_iff, Prod.mk.injEq] at hs
    obtain ⟨d, hd, rfl, -⟩ := hs
    have h := hrecv p t d (List.mem_of_getElem? hd)
    cases he : g d with
    | none =>
      rw [he] at h
      simp only [Net.viewAction, Net.sees_none hd he, Option.map_none, Option.elim_none]
      rw [Net.view_commit, h.1, h.2, Net.view_remove_none f w hd he]
      exact Net.commit_same peer (w.view f g) p
    | some e =>
      rw [he] at h
      have h' : B.recv ((w.view f g).core p) () e = _ := h
      have hj : ((w.view f g).inbox p)[(((w.inbox p).take i).filterMap g).length]? = some e :=
        filterMap_getElem? hd he
      simp only [Net.viewAction, Net.sees_some hd he, Option.map_some, Option.elim_some, Net.step, hj, h']
      rw [Net.view_commit, Net.view_remove_some f w hd he]
  | drop p i =>
    simp only [Net.step, Option.map_eq_some_iff, Prod.mk.injEq] at hs
    obtain ⟨d, hd, rfl, -⟩ := hs
    cases he : g d with
    | none =>
      simp only [Net.viewAction, Net.sees_none hd he, Option.map_none, Option.elim_none]
      exact Net.view_remove_none f w hd he
    | some e =>
      have hj : ((w.view f g).inbox p)[(((w.inbox p).take i).filterMap g).length]? = some e :=
        filterMap_getElem? hd he
      simp only [Net.viewAction, Net.sees_some hd he, Option.map_some, Option.elim_some, Net.step, hj]
      rw [Net.view_remove_some f w hd he]
  | duplicate p i =>
    simp only [Net.step, Option.map_eq_some_iff, Prod.mk.injEq] at hs
    obtain ⟨d, hd, rfl, -⟩ := hs
    have hadd : (w.add p [d]).view f g = (w.view f g).add p (g d).toList := by
      rw [Net.view_add]
      cases he : g d <;> simp [he]
    cases he : g d with
    | none =>
      simp only [Net.viewAction, Net.sees_none hd he, Option.map_none, Option.elim_none]
      rw [hadd, he]
      exact Net.ext rfl (funext fun q => by by_cases h : q = p <;> simp [Net.add, h])
    | some e =>
      have hj : ((w.view f g).inbox p)[(((w.inbox p).take i).filterMap g).length]? = some e :=
        filterMap_getElem? hd he
      simp only [Net.viewAction, Net.sees_some hd he, Option.map_some, Option.elim_some, Net.step, hj]
      rw [hadd, he]
      rfl

end View

end Duplex
