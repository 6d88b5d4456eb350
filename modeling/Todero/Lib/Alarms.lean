import Todero.Lib.Agenda
import Mathlib.Data.Nat.Find
import Mathlib.Tactic.Common

/-! Two alarms in slots of instants, which are worked off at every instant. The probe comes up
periodically and goes off once a limit has passed; the guard comes up again at its deadline and
goes off then. Which of the two goes off first? -/
namespace Alarms
open Agenda

inductive Alarm where
  | probe
  | guard
  deriving DecidableEq

structure Watch where
  period : ℕ
  limit : ℕ
  deadline : ℕ
  deriving DecidableEq

/-- The alarms of each instant, in the order in which they come up. -/
abbrev Slots := ℕ → List Alarm

namespace Watch
variable (w : Watch)

def goesOff (n : ℕ) : Alarm → Bool
  | .probe => w.limit < n
  | .guard => w.deadline ≤ n

/-- The instant at which an alarm comes up again that has not gone off. -/
def again (n : ℕ) : Alarm → ℕ
  | .probe => n + w.period
  | .guard => w.deadline

@[simp] theorem again_probe (n : ℕ) : w.again n .probe = n + w.period := rfl

@[simp] theorem again_guard (n : ℕ) : w.again n .guard = w.deadline := rfl

/-- The alarm that goes off among those of an instant. -/
def off (F : Slots) (n : ℕ) : Option Alarm := (F n).find? (w.goesOff n)

/-- The slots when the alarms of `n` have come up and none of them has gone off. -/
def after (F : Slots) (n : ℕ) : Slots :=
  fun k => ((F n).filter fun a => w.again n a = k).foldl join (F k)

/-- The probe comes up at `x`, unless it goes off before. -/
def Tick (F : Slots) (t x : ℕ) : Prop := ∃ q j, t < q ∧ .probe ∈ F q ∧ x = q + j * w.period

/-- The instant at which a guard goes off that comes up at `e`. -/
def ends (e : ℕ) : ℕ := max e w.deadline

/-- The probe comes up before the guard where both do at the end. A slot that is free at first
is the probe's when the probe gets there before the guard has come up at `e`. -/
def Leads (F : Slots) (e : ℕ) : Prop :=
  (F (w.ends e)).head? = some .probe ∨ F (w.ends e) = [] ∧
    (w.ends e < e + w.period ∨ w.ends e = e + w.period ∧ (F e).head? = some .probe)

def Wins (F : Slots) (t e : ℕ) : Prop :=
  ∃ x, w.Tick F t x ∧ w.limit < x ∧ (x < w.ends e ∨ x = w.ends e ∧ w.Leads F e)

end Watch

/-- The first instant after `t` at which the guard comes up. -/
structure FirstGuard (F : Slots) (t e : ℕ) : Prop where
  later : t < e
  mem : .guard ∈ F e
  first : ∀ k, t < k → k < e → .guard ∉ F k

/-! ### Slots -/

theorem head?_probe {l : List Alarm} (hprobe : .probe ∈ l) (hguard : .guard ∉ l) :
    l.head? = some .probe := by
  cases l with
  | nil => simp at hprobe
  | cons a l =>
    cases a with
    | probe => rfl
    | guard => simp at hguard

section After
variable {w : Watch} {F : Slots} {n k : ℕ}

theorem mem_after {a : Alarm} : a ∈ w.after F n k ↔ a ∈ F k ∨ a ∈ F n ∧ w.again n a = k := by
  simp [Watch.after, mem_joins]

/-- Who is first in a slot stays first; a free slot is the probe's if it gets there alone, or
first in the slot from which both come. -/
theorem head?_after : (w.after F n k).head? = some .probe ↔ (F k).head? = some .probe ∨
    F k = [] ∧ k = n + w.period ∧ .probe ∈ F n ∧ (k = w.deadline → (F n).head? = some .probe) := by
  rw [Watch.after, head?_joins]
  cases hk : F k with
  | cons b l => simp
  | nil =>
    simp only [List.head?_nil, Option.none_or, reduceCtorEq, true_and, false_or]
    rw [List.head?_filter]
    induction F n with
    | nil => simp
    | cons a l ih =>
      cases a with
      | probe =>
        by_cases hprobe : n + w.period = k
        · simp [hprobe]
        · simp [hprobe, ih, Ne.symm hprobe]
      | guard =>
        by_cases hguard : w.deadline = k
        · simp [hguard]
        · simp [hguard, ih, Ne.symm hguard]

theorem after_eq_nil : w.after F n k = [] ↔ F k = [] ∧ ∀ a ∈ F n, w.again n a ≠ k := by
  simp only [List.eq_nil_iff_forall_not_mem, mem_after, not_or, not_and, forall_and, ne_eq]

theorem off_eq_none : w.off F n = none ↔
    (.probe ∈ F n → ¬ w.limit < n) ∧ (.guard ∈ F n → n < w.deadline) := by
  rw [Watch.off, List.find?_eq_none]
  refine ⟨fun h => ⟨fun hp => by simpa [Watch.goesOff] using h _ hp,
    fun hg => by simpa [Watch.goesOff] using h _ hg⟩, fun h a ha => ?_⟩
  cases a with
  | probe => simpa [Watch.goesOff] using h.1 ha
  | guard => simpa [Watch.goesOff] using h.2 ha

end After

/-! ### One instant -/

section Instant
variable {w : Watch} {F : Slots} {t e : ℕ}

/-- At the last instant both alarms go off when they come up. -/
theorem off_last (h : FirstGuard F t e) (hn : w.ends e = t + 1) :
    ∃ a, w.off F (t + 1) = some a ∧ (a = .probe ↔ w.Wins F t e) := by
  have he : e = t + 1 := Nat.le_antisymm (hn ▸ Nat.le_max_left _ _) h.later
  have hdeadline : w.deadline ≤ t + 1 := hn ▸ Nat.le_max_right _ _
  subst he
  have hwins : w.Wins F t (t + 1) ↔ w.limit < t + 1 ∧ (F (t + 1)).head? = some .probe := by
    constructor
    · rintro ⟨x, ⟨q, j, hq, hmem, rfl⟩, hlate, hend⟩
      have hx : q + j * w.period = t + 1 := by omega
      refine ⟨hx ▸ hlate, ?_⟩
      obtain hbefore | ⟨-, hleads⟩ := hend
      · omega
      · rw [Watch.Leads, hn] at hleads
        exact hleads.resolve_right fun hfree => absurd h.mem (by simp [hfree.1])
    · rintro ⟨hlate, hhead⟩
      have hmem : .probe ∈ F (t + 1) := List.mem_of_mem_head? hhead
      refine ⟨t + 1, ⟨t + 1, 0, h.later, hmem, by simp⟩, hlate, .inr ⟨hn.symm, .inl ?_⟩⟩
      rwa [hn]
  have hall : w.limit < t + 1 → w.off F (t + 1) = (F (t + 1)).head? := by
    intro hlate
    have hany : ∀ a, w.goesOff (t + 1) a := by
      intro a
      cases a with
      | probe => exact decide_eq_true hlate
      | guard => exact decide_eq_true hdeadline
    rw [Watch.off]
    cases F (t + 1) with
    | nil => rfl
    | cons b l => exact List.find?_cons_of_pos (hany b)
  obtain ⟨a, hoff⟩ : ∃ a, w.off F (t + 1) = some a := by
    refine Option.isSome_iff_exists.mp (List.find?_isSome.mpr ⟨_, h.mem, ?_⟩)
    simpa [Watch.goesOff] using hdeadline
  refine ⟨a, hoff, ?_⟩
  rw [hwins]
  constructor
  · rintro rfl
    have hlate : w.limit < t + 1 := by simpa [Watch.goesOff] using List.find?_some hoff
    exact ⟨hlate, hall hlate ▸ hoff⟩
  · rintro ⟨hlate, hhead⟩
    rw [hall hlate, hhead] at hoff
    exact (Option.some.inj hoff).symm

theorem Watch.Wins.limit_lt (h : w.Wins F t e) : w.limit < w.ends e := by
  obtain ⟨x, -, hlate, hend⟩ := h
  omega

/-- Before that only the probe does, and it has won then. -/
theorem off_early (h : FirstGuard F t e) (hn : t + 1 < w.ends e) {a : Alarm}
    (hoff : w.off F (t + 1) = some a) : a = .probe ∧ w.Wins F t e := by
  have hmem := List.mem_of_find?_eq_some hoff
  have hgoes := List.find?_some hoff
  cases a with
  | probe =>
    exact ⟨rfl, t + 1, ⟨t + 1, 0, Nat.lt_succ_self t, hmem, by simp⟩,
      by simpa [Watch.goesOff] using hgoes, .inl hn⟩
  | guard =>
    have hdeadline : w.deadline ≤ t + 1 := by simpa [Watch.goesOff] using hgoes
    have he : ¬ t + 1 < e := fun hlt => h.first _ (Nat.lt_succ_self t) hlt hmem
    rw [Watch.ends] at hn
    omega

/-- As long as the probe does not go off, its ticks lie ahead of it. -/
theorem tick_after (hprobe : .probe ∈ F (t + 1) → ¬ w.limit < t + 1) {x : ℕ}
    (hlate : w.limit < x) : w.Tick (w.after F (t + 1)) (t + 1) x ↔ w.Tick F t x := by
  constructor
  · rintro ⟨q, j, hq, hin, rfl⟩
    obtain hmem | ⟨hmem, hagain⟩ := mem_after.mp hin
    · exact ⟨q, j, by omega, hmem, rfl⟩
    · rw [Watch.again_probe] at hagain
      refine ⟨t + 1, j + 1, Nat.lt_succ_self t, hmem, ?_⟩
      rw [Nat.succ_mul]
      omega
  · rintro ⟨q, j, hq, hmem, rfl⟩
    obtain hlater | hnow := Nat.lt_or_eq_of_le hq
    · exact ⟨q, j, hlater, mem_after.mpr (.inl hmem), rfl⟩
    · obtain rfl : t + 1 = q := hnow
      have hearly := hprobe hmem
      cases j with
      | zero => omega
      | succ j =>
        rw [Nat.succ_mul] at hlate ⊢
        have hperiod : 0 < w.period := by
          by_contra hzero
          obtain hzero : w.period = 0 := by omega
          rw [hzero, Nat.mul_zero] at hlate
          omega
        refine ⟨t + 1 + w.period, j, by omega, mem_after.mpr (.inr ⟨hmem, rfl⟩), by omega⟩

theorem exists_firstGuard {k : ℕ} (hk : t < k) (hmem : .guard ∈ F k) :
    ∃ e, FirstGuard F t e ∧ e ≤ k := by
  have hsome : ∃ k, t < k ∧ .guard ∈ F k := ⟨k, hk, hmem⟩
  exact ⟨Nat.find hsome, ⟨(Nat.find_spec hsome).1, (Nat.find_spec hsome).2,
    fun _ hlater hlt hin => Nat.find_min hsome hlt ⟨hlater, hin⟩⟩, Nat.find_min' hsome ⟨hk, hmem⟩⟩

/-- A guard that has come up does so again at the deadline, if not before. -/
theorem firstGuard_after (h : FirstGuard F t e)
    (hguard : .guard ∈ F (t + 1) → t + 1 < w.deadline) :
    ∃ e', FirstGuard (w.after F (t + 1)) (t + 1) e' ∧ w.ends e' = w.ends e ∧
      if .guard ∈ F (t + 1) then e = t + 1 else e' = e := by
  have hlater := h.later
  by_cases hmem : .guard ∈ F (t + 1)
  · have hdeadline := hguard hmem
    have he : e = t + 1 := by
      have hle : ¬ t + 1 < e := fun hlt => h.first _ (Nat.lt_succ_self t) hlt hmem
      omega
    obtain ⟨e', hfirst, hle⟩ := exists_firstGuard hdeadline
      (mem_after (w := w).mpr (.inr ⟨hmem, rfl⟩))
    refine ⟨e', hfirst, ?_, by rwa [if_pos hmem]⟩
    rw [Watch.ends, Watch.ends]
    omega
  · have hne : t + 1 ≠ e := fun heq => hmem (heq ▸ h.mem)
    refine ⟨e, ⟨by omega, mem_after.mpr (.inl h.mem), fun k hk hlt hin => ?_⟩, rfl,
      by rw [if_neg hmem]⟩
    obtain hin | ⟨hin, -⟩ := mem_after.mp hin
    · exact h.first k (by omega) hlt hin
    · exact hmem hin

/-- Who is ahead at the end was so at every instant before. -/
theorem leads_after (h : FirstGuard F t e) {e' : ℕ} (hends : w.ends e' = w.ends e)
    (hguard : .guard ∈ F (t + 1) → t + 1 < w.deadline)
    (he' : if .guard ∈ F (t + 1) then e = t + 1 else e' = e) (htick : w.Tick F t (w.ends e)) :
    w.Leads (w.after F (t + 1)) e' ↔ w.Leads F e := by
  rw [Watch.Leads, Watch.Leads, hends, head?_after]
  by_cases hmem : .guard ∈ F (t + 1)
  · obtain rfl : e = t + 1 := by rwa [if_pos hmem] at he'
    have hend : w.ends (t + 1) = w.deadline := Nat.max_eq_right (Nat.le_of_lt (hguard hmem))
    have htaken : w.after F (t + 1) (w.ends (t + 1)) ≠ [] :=
      List.ne_nil_of_mem (mem_after.mpr (.inr ⟨hmem, hend.symm⟩))
    constructor
    · rintro ((hhead | ⟨hfree, hsame, -, hfirst⟩) | ⟨hnil, -⟩)
      · exact .inl hhead
      · exact .inr ⟨hfree, .inr ⟨hsame, hfirst hend⟩⟩
      · exact absurd hnil htaken
    · rintro (hhead | ⟨hfree, hbefore | ⟨hsame, hfirst⟩⟩)
      · exact .inl (.inl hhead)
      · obtain ⟨q, j, hq, hin, heq⟩ := htick
        cases j with
        | zero => simp [heq] at hfree; simp [hfree] at hin
        | succ j => rw [Nat.succ_mul] at heq; omega
      · exact .inl (.inr ⟨hfree, hsame, List.mem_of_mem_head? hfirst, fun _ => hfirst⟩)
  · obtain rfl : e' = e := by rwa [if_neg hmem] at he'
    have hlater : t + 1 < e' :=
      Nat.lt_of_le_of_ne h.later fun heq => hmem (heq ▸ h.mem)
    have hfirst : (w.after F (t + 1) e').head? = some .probe ↔ (F e').head? = some .probe := by
      rw [head?_after, or_iff_left]
      exact fun hfree => List.ne_nil_of_mem h.mem hfree.1
    rw [after_eq_nil, hfirst]
    constructor
    · rintro ((hhead | ⟨hfree, hsame, -, -⟩) | ⟨⟨hfree, -⟩, hlead⟩)
      · exact .inl hhead
      · exact .inr ⟨hfree, .inl (by omega)⟩
      · exact .inr ⟨hfree, hlead⟩
    · rintro (hhead | ⟨hfree, hlead⟩)
      · exact .inl (.inl hhead)
      by_cases hjoins : .probe ∈ F (t + 1) ∧ w.ends e' = t + 1 + w.period
      · exact .inl (.inr ⟨hfree, hjoins.2, hjoins.1, fun _ => head?_probe hjoins.1 hmem⟩)
      · refine .inr ⟨⟨hfree, fun a ha => ?_⟩, hlead⟩
        cases a with
        | probe => exact fun hagain => hjoins ⟨ha, hagain.symm⟩
        | guard => exact absurd ha hmem

/-- An instant at which no alarm goes off leaves the race as it is. -/
theorem wins_after (h : FirstGuard F t e) (hoff : w.off F (t + 1) = none) :
    ∃ e', FirstGuard (w.after F (t + 1)) (t + 1) e' ∧ w.ends e' = w.ends e ∧
      (w.Wins (w.after F (t + 1)) (t + 1) e' ↔ w.Wins F t e) := by
  obtain ⟨hprobe, hguard⟩ := off_eq_none.mp hoff
  obtain ⟨e', hfirst, hends, he'⟩ := firstGuard_after h hguard
  refine ⟨e', hfirst, hends, exists_congr fun x => ?_⟩
  rw [hends]
  constructor
  · rintro ⟨htick, hlate, hend⟩
    rw [tick_after hprobe hlate] at htick
    refine ⟨htick, hlate, hend.imp_right ?_⟩
    rintro ⟨rfl, hleads⟩
    exact ⟨rfl, (leads_after h hends hguard he' htick).mp hleads⟩
  · rintro ⟨htick, hlate, hend⟩
    refine ⟨(tick_after hprobe hlate).mpr htick, hlate, hend.imp_right ?_⟩
    rintro ⟨rfl, hleads⟩
    exact ⟨rfl, (leads_after h hends hguard he' htick).mpr hleads⟩

end Instant

/-! ### Probes in front -/

section Front
variable {w : Watch} {F G : Slots} {t e : ℕ}

/-- The slots of `G` up to the end are those of `F` with probes in front. -/
def Watch.Fronts (w : Watch) (F G : Slots) (t e : ℕ) : Prop :=
  ∀ k, t < k → k ≤ w.ends e → ∃ s, (∀ a ∈ s, a = .probe) ∧ G k = s ++ F k

theorem FirstGuard.fronts (h : FirstGuard F t e) (hfront : w.Fronts F G t e) :
    FirstGuard G t e := by
  have hmem : ∀ k, t < k → k ≤ e → (.guard ∈ G k ↔ .guard ∈ F k) := by
    intro k hk hle
    obtain ⟨s, hs, hG⟩ := hfront k hk (Nat.le_trans hle (Nat.le_max_left _ _))
    rw [hG, List.mem_append, or_iff_right]
    exact fun hin => absurd (hs _ hin) (by simp)
  refine ⟨h.later, (hmem e h.later (Nat.le_refl e)).mpr h.mem, fun k hk hlt hin => ?_⟩
  exact h.first k hk hlt ((hmem k hk (Nat.le_of_lt hlt)).mp hin)

/-- More probes do not make the probe lose. -/
theorem wins_fronts (h : FirstGuard F t e) (hfront : w.Fronts F G t e) (hwins : w.Wins F t e) :
    w.Wins G t e := by
  have hhead : ∀ k, t < k → k ≤ w.ends e → (F k).head? = some .probe →
      (G k).head? = some .probe := by
    intro k hk hle hprobe
    obtain ⟨s, hs, hG⟩ := hfront k hk hle
    cases s with
    | nil => rwa [hG]
    | cons a s => rw [hG, hs a List.mem_cons_self]; rfl
  have hle : e ≤ w.ends e := Nat.le_max_left _ _
  obtain ⟨x, ⟨q, j, hq, hmem, rfl⟩, hlate, hend⟩ := hwins
  obtain ⟨s, -, hG⟩ := hfront q hq (by omega)
  refine ⟨_, ⟨q, j, hq, hG ▸ List.mem_append_right s hmem, rfl⟩, hlate, hend.imp_right ?_⟩
  rintro ⟨hx, hfirst | ⟨hfree, hlead⟩⟩
  · exact ⟨hx, .inl (hhead _ (by omega) (Nat.le_refl _) hfirst)⟩
  · refine ⟨hx, ?_⟩
    obtain ⟨s, hs, hG⟩ := hfront (w.ends e) (by omega) (Nat.le_refl _)
    rw [hfree, List.append_nil] at hG
    cases s with
    | nil => exact .inr ⟨hG, hlead.imp_right (And.imp_right (hhead e h.later hle))⟩
    | cons a s => exact .inl (by rw [hG, hs a List.mem_cons_self]; rfl)

end Front
end Alarms
