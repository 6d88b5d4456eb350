import Mathlib.Data.List.Induction
import Mathlib.Order.WellFounded
import Mathlib.Logic.Relation

/-! Runs of a step function with what was put in and what came out, and systems
whose own steps come to an end. -/
namespace Transition
variable {σ ι ο : Type}

/-- One step of a run. -/
structure Taken (σ ι ο : Type) where
  pre : σ
  input : ι
  output : ο
  post : σ

section Run
variable (step : σ → ι → Option (σ × ο)) (start : σ)

inductive Run : List (Taken σ ι ο) → σ → Prop
  | nil : Run [] start
  | snoc {h : List (Taken σ ι ο)} {s s' : σ} {i : ι} {o : ο} :
      Run h s → step s i = some (s', o) → Run (h ++ [⟨s, i, o, s'⟩]) s'

variable {step start}

/-- What holds at the start and survives every allowed step holds after every run
of allowed steps. -/
theorem Run.invariant {A : Taken σ ι ο → Prop} {I : List (Taken σ ι ο) → σ → Prop}
    (hstart : I [] start)
    (hstep : ∀ h s i s' o, I h s → step s i = some (s', o) → A ⟨s, i, o, s'⟩ →
      I (h ++ [⟨s, i, o, s'⟩]) s')
    {h : List (Taken σ ι ο)} {s : σ} (hrun : Run step start h s) (hall : ∀ t ∈ h, A t) : I h s := by
  induction hrun with
  | nil => exact hstart
  | @snoc h s s' i o _ hs ih =>
    have hpre := ih fun t ht => hall t (List.mem_append_left _ ht)
    exact hstep h s i s' o hpre hs (hall _ (by simp))

/-- A property that every good state hands on at exactly the allowed steps holds in all the
states of a run exactly if all its steps are allowed. -/
theorem Run.all_iff {A : Taken σ ι ο → Prop} {P : σ → Prop} (hstart : P start)
    (hstep : ∀ h s i s' o, Run step start h s → P s → step s i = some (s', o) →
      (P s' ↔ A ⟨s, i, o, s'⟩))
    {h : List (Taken σ ι ο)} {s : σ} (hrun : Run step start h s) :
    (∀ t ∈ h, P t.post) ↔ ∀ t ∈ h, A t := by
  have hboth : ((∀ t ∈ h, P t.post) ↔ ∀ t ∈ h, A t) ∧ ((∀ t ∈ h, P t.post) → P s) := by
    induction hrun with
    | nil => exact ⟨by simp, fun _ => hstart⟩
    | @snoc h s s' i o hr hs ih =>
      obtain ⟨hiff, hlast⟩ := ih
      simp only [List.forall_mem_append, List.forall_mem_singleton]
      refine ⟨?_, fun hall => hall.2⟩
      rw [← hiff]
      exact and_congr_right fun hall => hstep h s i s' o hr (hlast hall) hs
  exact hboth.1

/-- The run at a step in the middle of it. -/
theorem Run.before {h : List (Taken σ ι ο)} {s : σ} (hrun : Run step start h s) {t : Taken σ ι ο}
    (ht : t ∈ h) :
    ∃ h₀ h₁, h = h₀ ++ t :: h₁ ∧ Run step start h₀ t.pre ∧
      step t.pre t.input = some (t.post, t.output) := by
  induction hrun with
  | nil => simp at ht
  | @snoc h s s' i o hr hs ih =>
    rcases List.mem_append.mp ht with hold | hnew
    · obtain ⟨h₀, h₁, hsplit, hpre, hstep⟩ := ih hold
      exact ⟨h₀, h₁ ++ [⟨s, i, o, s'⟩], by simp [hsplit], hpre, hstep⟩
    · rw [List.mem_singleton.mp hnew]
      exact ⟨h, [], rfl, hr, hs⟩

/-- The run up to a given step of it. -/
theorem Run.split {h₀ h₁ : List (Taken σ ι ο)} {t : Taken σ ι ο} {s : σ}
    (hrun : Run step start (h₀ ++ t :: h₁) s) :
    Run step start h₀ t.pre ∧ step t.pre t.input = some (t.post, t.output) := by
  generalize hh : h₀ ++ t :: h₁ = h at hrun
  induction hrun generalizing h₁ with
  | nil => simp at hh
  | @snoc h s s' i o hr hs ih =>
    rcases List.eq_nil_or_concat h₁ with rfl | ⟨h₂, last, rfl⟩
    · obtain ⟨rfl, hlast⟩ := List.append_inj' hh rfl
      obtain rfl := List.singleton_inj.mp hlast
      exact ⟨hr, hs⟩
    · rw [List.concat_eq_append, ← List.cons_append, ← List.append_assoc] at hh
      exact ih (List.append_inj' hh rfl).1

/-- A run goes on from where one of its steps ends. -/
theorem Run.continued {h₀ h₁ : List (Taken σ ι ο)} {t : Taken σ ι ο} {s : σ}
    (hrun : Run step start (h₀ ++ t :: h₁) s) : Run step t.post h₁ s := by
  generalize hh : h₀ ++ t :: h₁ = h at hrun
  induction hrun generalizing h₁ with
  | nil => simp at hh
  | @snoc h s s' i o _ hs ih =>
    rcases List.eq_nil_or_concat h₁ with rfl | ⟨h₂, last, rfl⟩
    · obtain rfl := List.singleton_inj.mp (List.append_inj' hh rfl).2
      exact .nil
    · rw [List.concat_eq_append, ← List.cons_append, ← List.append_assoc] at hh
      obtain ⟨hfront, hlast⟩ := List.append_inj' hh rfl
      rw [List.concat_eq_append, List.singleton_inj.mp hlast]
      exact (ih hfront).snoc hs

variable (step)

/-- The run that takes the given inputs in order, if every step is possible. -/
def exec (s : σ) : List ι → Option (List (Taken σ ι ο) × σ)
  | [] => some ([], s)
  | i :: is =>
    match step s i with
    | none => none
    | some (s', o) => (exec s' is).map fun (h, s'') => (⟨s, i, o, s'⟩ :: h, s'')

variable {step}

theorem Run.append_exec {h : List (Taken σ ι ο)} {s : σ} (hrun : Run step start h s)
    {is : List ι} {h' : List (Taken σ ι ο)} {s' : σ} (hexec : exec step s is = some (h', s')) :
    Run step start (h ++ h') s' := by
  induction is generalizing h s h' with
  | nil =>
    simp only [exec, Option.some.injEq, Prod.mk.injEq] at hexec
    obtain ⟨rfl, rfl⟩ := hexec
    simpa using hrun
  | cons i is ih =>
    cases hs : step s i with
    | none => simp [exec, hs] at hexec
    | some r =>
      obtain ⟨s₁, o⟩ := r
      simp only [exec, hs, Option.map_eq_some_iff, Prod.mk.injEq] at hexec
      obtain ⟨⟨h₁, s₂⟩, htail, rfl, rfl⟩ := hexec
      have hrun' := ih (hrun.snoc hs) htail
      rwa [List.append_assoc] at hrun'

theorem exec_inputs {is : List ι} {s s' : σ} {h : List (Taken σ ι ο)}
    (hexec : exec step s is = some (h, s')) : h.map Taken.input = is := by
  induction is generalizing s h with
  | nil =>
    simp only [exec, Option.some.injEq, Prod.mk.injEq] at hexec
    rw [← hexec.1, List.map_nil]
  | cons i is ih =>
    cases hs : step s i with
    | none => simp [exec, hs] at hexec
    | some r =>
      simp only [exec, hs, Option.map_eq_some_iff, Prod.mk.injEq] at hexec
      obtain ⟨⟨h₁, s₂⟩, htail, rfl, rfl⟩ := hexec
      rw [List.map_cons, ih htail]

theorem exec_append {is js : List ι} {s s' s'' : σ} {h h' : List (Taken σ ι ο)}
    (hexec : exec step s is = some (h, s')) (hexec' : exec step s' js = some (h', s'')) :
    exec step s (is ++ js) = some (h ++ h', s'') := by
  induction is generalizing s h with
  | nil =>
    simp only [exec, Option.some.injEq, Prod.mk.injEq] at hexec
    obtain ⟨rfl, rfl⟩ := hexec
    exact hexec'
  | cons i is ih =>
    cases hs : step s i with
    | none => simp [exec, hs] at hexec
    | some r =>
      simp only [exec, hs, Option.map_eq_some_iff, Prod.mk.injEq] at hexec
      obtain ⟨⟨h₁, s₁⟩, htail, rfl, rfl⟩ := hexec
      rw [List.cons_append, exec, hs]
      simp only [ih htail, Option.map_some, List.cons_append]

theorem Run.of_exec {is : List ι} {h : List (Taken σ ι ο)} {s : σ}
    (hexec : exec step start is = some (h, s)) : Run step start h s :=
  Run.append_exec (h := []) .nil hexec

end Run

section After
variable {α : Type}

/-- A step with `p` at the end of a part with `I`, and only `q` since. -/
def After (I : List α → Prop) (p q : α → Prop) (h : List α) : Prop :=
  ∃ h₁ t h₂, h = h₁ ++ t :: h₂ ∧ I h₁ ∧ p t ∧ ∀ t' ∈ h₂, q t'

variable {I J : List α → Prop} {p q q' : α → Prop} {h : List α}

theorem not_after_nil : ¬ After I p q [] := by
  intro ⟨h₁, t, h₂, hnil, _⟩
  simp at hnil

theorem after_snoc {t : α} : After I p q (h ++ [t]) ↔ I h ∧ p t ∨ After I p q h ∧ q t := by
  constructor
  · intro ⟨h₁, u, h₂, hsplit, hI, hp, hrest⟩
    obtain rfl | ⟨h₃, last, rfl⟩ := List.eq_nil_or_concat h₂
    · obtain ⟨rfl, hlast⟩ := List.append_inj' hsplit rfl
      rw [List.singleton_inj.mp hlast]
      exact .inl ⟨hI, hp⟩
    · rw [List.concat_eq_append] at hsplit hrest
      rw [← List.cons_append, ← List.append_assoc] at hsplit
      obtain ⟨rfl, hlast⟩ := List.append_inj' hsplit rfl
      rw [List.singleton_inj.mp hlast]
      exact .inr ⟨⟨h₁, u, h₃, rfl, hI, hp, fun t' ht' => hrest t' (by simp [ht'])⟩,
        hrest last (by simp)⟩
  · rintro (⟨hI, hp⟩ | ⟨⟨h₁, u, h₂, rfl, hI, hp, hrest⟩, hq⟩)
    · exact ⟨h, t, [], rfl, hI, hp, by simp⟩
    · refine ⟨h₁, u, h₂ ++ [t], by simp, hI, hp, fun t' ht' => ?_⟩
      obtain hold | hnew := List.mem_append.mp ht'
      · exact hrest t' hold
      · rwa [List.mem_singleton.mp hnew]

theorem After.last {t : α} (hI : I h) (hp : p t) : After I p q (h ++ [t]) :=
  after_snoc.mpr (.inl ⟨hI, hp⟩)

theorem After.snoc {t : α} (ha : After I p q h) (hq : q t) : After I p q (h ++ [t]) :=
  after_snoc.mpr (.inr ⟨ha, hq⟩)

theorem After.imp (ha : After I p q h) (hI : ∀ h, I h → J h) (hq : ∀ t, q t → q' t) :
    After J p q' h := by
  obtain ⟨h₁, u, h₂, hsplit, hpre, hp, hrest⟩ := ha
  exact ⟨h₁, u, h₂, hsplit, hI h₁ hpre, hp, fun t' ht' => hq t' (hrest t' ht')⟩

/-- The last step with `p` has `q`. -/
def LastHas (p q : α → Prop) (h : List α) : Prop :=
  ∃ h₁ t h₂, h = h₁ ++ t :: h₂ ∧ p t ∧ q t ∧ ∀ t' ∈ h₂, ¬ p t'

theorem lastHas_iff_after :
    LastHas p q h ↔ After (fun _ => True) (fun t => p t ∧ q t) (fun t => ¬ p t) h := by
  simp only [LastHas, After, true_and, and_assoc]

theorem LastHas.imp (hlast : LastHas p q h) (hq : ∀ t, q t → q' t) : LastHas p q' h := by
  obtain ⟨h₁, t, h₂, hsplit, hp, hhas, hrest⟩ := hlast
  exact ⟨h₁, t, h₂, hsplit, hp, hq t hhas, hrest⟩

theorem lastHas_nil : ¬ LastHas p q [] := fun hlast => not_after_nil (lastHas_iff_after.mp hlast)

theorem lastHas_snoc_of {t : α} (hp : p t) : LastHas p q (h ++ [t]) ↔ q t := by
  rw [lastHas_iff_after, after_snoc]
  simp [hp]

theorem lastHas_snoc_of_not {t : α} (hp : ¬ p t) :
    LastHas p q (h ++ [t]) ↔ LastHas p q h := by
  rw [lastHas_iff_after, after_snoc, lastHas_iff_after]
  simp [hp]

theorem lastHas_split {h₁ h₂ : List α} {t : α} (hp : p t) (hrest : ∀ t' ∈ h₂, ¬ p t') :
    LastHas p q (h₁ ++ t :: h₂) ↔ q t := by
  induction h₂ using List.reverseRecOn with
  | nil => exact lastHas_snoc_of hp
  | append_singleton h₂ last ih =>
    rw [← List.cons_append, ← List.append_assoc, lastHas_snoc_of_not (hrest last (by simp))]
    exact ih fun t' ht' => hrest t' (List.mem_append_left _ ht')

end After

section Simulation
variable {σ' ο' : Type} {step : σ → ι → Option (σ × ο)} {step' : σ' → ι → Option (σ' × ο)}

def Taken.map (f : σ → σ') (t : Taken σ ι ο) : Taken σ' ι ο :=
  ⟨f t.pre, t.input, t.output, f t.post⟩

/-- When `f` commutes with the steps from states that satisfy an invariant, every run
from the image of such a state is the image of a run. -/
theorem Run.of_map {f : σ → σ'} {I : σ → Prop}
    (hcomm : ∀ s i, I s → step' (f s) i = (step s i).map fun (s', o) => (f s', o))
    (hinv : ∀ s i s' o, I s → step s i = some (s', o) → I s')
    {s₀ : σ} (h₀ : I s₀) {h' : List (Taken σ' ι ο)} {t : σ'} (hrun : Run step' (f s₀) h' t) :
    ∃ h s, Run step s₀ h s ∧ I s ∧ h' = h.map (Taken.map f) ∧ t = f s := by
  induction hrun with
  | nil => exact ⟨[], s₀, .nil, h₀, rfl, rfl⟩
  | @snoc h' t t' i o _ hs ih =>
    obtain ⟨h, s, hr, hI, rfl, rfl⟩ := ih
    rw [hcomm s i hI, Option.map_eq_some_iff] at hs
    obtain ⟨⟨s', o'⟩, hstep, heq⟩ := hs
    simp only [Prod.mk.injEq] at heq
    obtain ⟨rfl, rfl⟩ := heq
    exact ⟨_, s', hr.snoc hstep, hinv s i s' o' hI hstep, by simp [Taken.map], rfl⟩

end Simulation

section Settles
variable (r : σ → σ → Prop)

def Terminal (s : σ) : Prop := ∀ s', ¬ r s s'

/-- However the steps of `r` are taken from `s`, they come to an end, and in `Q`. -/
def Settles (Q : σ → Prop) (s : σ) : Prop :=
  Acc (fun a b => r b a) s ∧ ∀ s', Relation.ReflTransGen r s s' → Terminal r s' → Q s'

variable {r} {Q : σ → Prop} {s : σ}

theorem preserved {I : σ → Prop} (hstep : ∀ s s', I s → r s s' → I s') {s s' : σ} (hs : I s)
    (hpath : Relation.ReflTransGen r s s') : I s' := by
  induction hpath with
  | refl => exact hs
  | tail _ hr ih => exact hstep _ _ ih hr

/-- A measure that every step lowers, and what holds where none is left. -/
theorem Settles.of_measure {α : Type} [LT α] [WellFoundedLT α] {I : σ → Prop} (μ : σ → α)
    (hs : I s) (hstep : ∀ s s', I s → r s s' → I s' ∧ μ s' < μ s)
    (hend : ∀ s, I s → Terminal r s → Q s) : Settles r Q s := by
  constructor
  · have hall : ∀ a (s : σ), μ s = a → I s → Acc (fun a b => r b a) s := by
      intro a
      induction a using WellFoundedLT.induction with
      | ind a ih =>
        rintro s rfl hI
        refine Acc.intro s fun s' hr => ?_
        obtain ⟨hI', hlt⟩ := hstep s s' hI hr
        exact ih _ hlt s' rfl hI'
    exact hall _ s rfl hs
  · intro s' hpath hterm
    exact hend s' (preserved (fun s s' hI hr => (hstep s s' hI hr).1) hs hpath) hterm

/-- Some schedule reaches an end. -/
theorem Settles.exists_end (h : Settles r Q s) :
    ∃ s', Relation.ReflTransGen r s s' ∧ Terminal r s' := by
  obtain ⟨hacc, -⟩ := h
  induction hacc with
  | intro s _ ih =>
    by_cases hterm : Terminal r s
    · exact ⟨s, .refl, hterm⟩
    · obtain ⟨s₁, hr⟩ := not_forall_not.mp hterm
      obtain ⟨s', hpath, hend⟩ := ih s₁ hr
      exact ⟨s', .head hr hpath, hend⟩

/-- Nothing that is kept up to the end and rules `Q` out there settles in `Q`. -/
theorem not_settles {I : σ → Prop} (hs : I s) (hstep : ∀ s s', I s → r s s' → I s')
    (hend : ∀ s, I s → Terminal r s → ¬ Q s) : ¬ Settles r Q s := by
  intro h
  obtain ⟨s', hpath, hterm⟩ := h.exists_end
  exact hend s' (preserved hstep hs hpath) hterm (h.2 s' hpath hterm)

/-- Settling is the same for two systems that step alike. -/
theorem settles_map {σ' : Type} {r' : σ' → σ' → Prop} {f : σ → σ'} {I : σ → Prop}
    {Q' : σ' → Prop} (hs : I s)
    (hcomm : ∀ s t, I s → (r' (f s) t ↔ ∃ s', r s s' ∧ t = f s'))
    (hinv : ∀ s s', I s → r s s' → I s') (hQ : ∀ s, Q' (f s) ↔ Q s) :
    Settles r' Q' (f s) ↔ Settles r Q s := by
  have hterm : ∀ s, I s → (Terminal r' (f s) ↔ Terminal r s) := by
    intro s hI
    refine ⟨fun h s' hr => h (f s') ((hcomm s _ hI).mpr ⟨s', hr, rfl⟩), ?_⟩
    intro h t hr
    obtain ⟨s', hr', -⟩ := (hcomm s t hI).mp hr
    exact h s' hr'
  constructor
  · rintro ⟨hacc, hend⟩
    constructor
    · have hall : ∀ t, Acc (fun a b => r' b a) t → ∀ s, I s → t = f s → Acc (fun a b => r b a) s := by
        intro t ht
        induction ht with
        | intro t _ ih =>
          rintro s hI rfl
          refine Acc.intro s fun s' hr => ?_
          have hI' := hinv s s' hI hr
          exact ih (f s') ((hcomm s _ hI).mpr ⟨s', hr, rfl⟩) s' hI' rfl
      exact hall _ hacc s hs rfl
    · intro s' hpath hterm'
      have hboth : I s' ∧ Relation.ReflTransGen r' (f s) (f s') := by
        clear hterm'
        induction hpath with
        | refl => exact ⟨hs, .refl⟩
        | tail _ hr ih =>
          have hI' := hinv _ _ ih.1 hr
          exact ⟨hI', ih.2.tail ((hcomm _ _ ih.1).mpr ⟨_, hr, rfl⟩)⟩
      exact (hQ s').mp (hend (f s') hboth.2 ((hterm s' hboth.1).mpr hterm'))
  · rintro ⟨hacc, hend⟩
    constructor
    · clear hend
      induction hacc with
      | intro s _ ih =>
        refine Acc.intro _ fun t hr => ?_
        obtain ⟨s', hr', rfl⟩ := (hcomm s t hs).mp hr
        exact ih s' hr' (hinv s s' hs hr')
    · intro t hpath hterm'
      have hback : ∃ s', t = f s' ∧ I s' ∧ Relation.ReflTransGen r s s' := by
        clear hterm'
        induction hpath with
        | refl => exact ⟨s, rfl, hs, .refl⟩
        | tail _ hr ih =>
          obtain ⟨s₁, rfl, hI₁, hpath₁⟩ := ih
          obtain ⟨s₂, hr₂, rfl⟩ := (hcomm s₁ _ hI₁).mp hr
          exact ⟨s₂, rfl, hinv s₁ s₂ hI₁ hr₂, hpath₁.tail hr₂⟩
      obtain ⟨s', rfl, hI', hpath'⟩ := hback
      exact (hQ s').mpr (hend s' hpath' ((hterm s' hI').mp hterm'))

end Settles

end Transition
