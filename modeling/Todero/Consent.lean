import Mathlib.Data.List.DropRight
import Todero.CoreTypes
import Todero.Lib.Transition

/-! The consent checks of v3-nat. The count of missed checks is a byte that saturates, so the
loss of the path is found except where 255 checks may be missed. -/
namespace Todero.Consent
open Transition
open Todero.Core (saturatingAdd)

structure ConsentConfig where
  intervalMs : UInt64 := 15000
  maxMissed : UInt8 := 3
  deriving DecidableEq, Repr

structure ConsentState where
  nextDeadlineMs : UInt64
  missedCount : UInt8
  deriving DecidableEq, Repr

inductive ConsentAction where
  | sendKeepalive | pathLost | noop
  deriving DecidableEq, Repr

structure ConsentManager where
  cfg : ConsentConfig
  state : ConsentState
  deriving DecidableEq, Repr

/-- `u8::saturating_add`. -/
def saturatingAdd8 (a b : UInt8) : UInt8 := UInt8.ofNat (min (a.toNat + b.toNat) 255)

namespace ConsentManager

def new (startMs : UInt64) (cfg : ConsentConfig) : ConsentManager :=
  ⟨cfg, saturatingAdd startMs cfg.intervalMs, 0⟩

def onTick (m : ConsentManager) (nowMs : UInt64) : ConsentManager × ConsentAction :=
  if nowMs < m.state.nextDeadlineMs then (m, .noop)
  else
    let m : ConsentManager :=
      ⟨m.cfg, saturatingAdd nowMs m.cfg.intervalMs, saturatingAdd8 m.state.missedCount 1⟩
    (m, if m.state.missedCount > m.cfg.maxMissed then .pathLost else .sendKeepalive)

def onResponse (m : ConsentManager) (nowMs : UInt64) : ConsentManager :=
  ⟨m.cfg, saturatingAdd nowMs m.cfg.intervalMs, 0⟩

end ConsentManager

inductive ConsentCall where
  | onTick (nowMs : UInt64)
  | onResponse (nowMs : UInt64)
  deriving DecidableEq, Repr

def ConsentManager.step (m : ConsentManager) :
    ConsentCall → Option (ConsentManager × Option ConsentAction)
  | .onTick nowMs => some ((m.onTick nowMs).1, some (m.onTick nowMs).2)
  | .onResponse nowMs => some (m.onResponse nowMs, none)

abbrev ConsentTaken := Taken ConsentManager ConsentCall (Option ConsentAction)

def ConsentTaken.due (t : ConsentTaken) : Bool :=
  match t.input with
  | .onTick nowMs => t.pre.state.nextDeadlineMs ≤ nowMs
  | .onResponse _ => false

def ConsentTaken.isTick (t : ConsentTaken) : Bool :=
  match t.input with
  | .onTick _ => true
  | .onResponse _ => false

/-- The ticks since the start or the last response that came at or past the deadline. -/
def dueTicks (h : List ConsentTaken) : Nat :=
  (h.rtakeWhile ConsentTaken.isTick).countP ConsentTaken.due

/-- A tick finds the path lost exactly if it is due and more than `max_missed` due ticks have
gone without a response. -/
def Detects (cfg : ConsentConfig) (h : List ConsentTaken) : Prop :=
  ∀ (h₀ : List ConsentTaken) (t : ConsentTaken), h₀ ++ [t] <+: h → t.isTick →
    (t.output = some .pathLost ↔ t.due ∧ cfg.maxMissed.toNat < dueTicks (h₀ ++ [t]))

/-! ### One call -/

theorem saturatingAdd8_one (a : UInt8) : (saturatingAdd8 a 1).toNat = min (a.toNat + 1) 255 := by
  have hlt : min (a.toNat + 1) 255 < 2 ^ 8 := by omega
  rw [saturatingAdd8, UInt8.toNat_ofNat', UInt8.toNat_one, Nat.mod_eq_of_lt hlt]

theorem onTick_early {m : ConsentManager} {nowMs : UInt64} (hlt : nowMs < m.state.nextDeadlineMs) :
    m.onTick nowMs = (m, .noop) := if_pos hlt

theorem onTick_due {m : ConsentManager} {nowMs : UInt64} (hlt : ¬ nowMs < m.state.nextDeadlineMs) :
    m.onTick nowMs =
      (⟨m.cfg, saturatingAdd nowMs m.cfg.intervalMs, saturatingAdd8 m.state.missedCount 1⟩,
        if saturatingAdd8 m.state.missedCount 1 > m.cfg.maxMissed then .pathLost
        else .sendKeepalive) := if_neg hlt

section Snoc
variable {h : List ConsentTaken} {t : ConsentTaken}

theorem dueTicks_tick (htick : t.isTick) :
    dueTicks (h ++ [t]) = dueTicks h + if t.due then 1 else 0 := by
  rw [dueTicks, List.rtakeWhile_concat_pos _ _ _ htick, List.countP_append, List.countP_singleton]
  rfl

theorem dueTicks_response (htick : ¬ t.isTick) : dueTicks (h ++ [t]) = 0 := by
  rw [dueTicks, List.rtakeWhile_concat_neg _ _ _ htick]
  rfl

theorem detects_snoc {cfg : ConsentConfig} : Detects cfg (h ++ [t]) ↔
    Detects cfg h ∧ (t.isTick → (t.output = some .pathLost ↔
      t.due ∧ cfg.maxMissed.toNat < dueTicks (h ++ [t]))) := by
  simp only [Detects, List.prefix_concat_iff]
  constructor
  · exact fun hall => ⟨fun h₀ u hu => hall h₀ u (.inr hu), hall h t (.inl rfl)⟩
  · rintro ⟨hold, hnew⟩ h₀ u (heq | hu)
    · obtain ⟨rfl, hlast⟩ := List.append_inj' heq rfl
      obtain rfl := List.singleton_inj.mp hlast
      exact hnew
    · exact hold h₀ u hu

end Snoc

/-! ### Whole runs -/

section Runs
variable {start : UInt64} {cfg : ConsentConfig} {h : List ConsentTaken} {m m' : ConsentManager}

theorem due_iff {nowMs : UInt64} {o : Option ConsentAction} :
    ConsentTaken.due ⟨m, .onTick nowMs, o, m'⟩ ↔ ¬ nowMs < m.state.nextDeadlineMs := by
  rw [UInt64.not_lt]
  exact decide_eq_true_iff

/-- The byte stops at 255. -/
structure Counted (cfg : ConsentConfig) (h : List ConsentTaken) (m : ConsentManager) : Prop where
  cfg_eq : m.cfg = cfg
  missed : m.state.missedCount.toNat = min (dueTicks h) 255

theorem counted_step {call : ConsentCall} {o : Option ConsentAction} (hm : Counted cfg h m)
    (hs : m.step call = some (m', o)) : Counted cfg (h ++ [⟨m, call, o, m'⟩]) m' := by
  cases call with
  | onResponse nowMs =>
    obtain ⟨rfl, rfl⟩ := Prod.mk.inj (Option.some.inj hs)
    have hresponse : ¬ ConsentTaken.isTick ⟨m, .onResponse nowMs, none, m.onResponse nowMs⟩ :=
      Bool.false_ne_true
    exact ⟨hm.cfg_eq, by rw [dueTicks_response hresponse]; rfl⟩
  | onTick nowMs =>
    have heq : ((m.onTick nowMs).1, some (m.onTick nowMs).2) = (m', o) := Option.some.inj hs
    by_cases hlt : nowMs < m.state.nextDeadlineMs
    · rw [onTick_early hlt] at heq
      obtain ⟨rfl, rfl⟩ := Prod.mk.inj heq
      refine ⟨hm.cfg_eq, ?_⟩
      rw [dueTicks_tick rfl, if_neg fun hdue => due_iff.mp hdue hlt]
      exact hm.missed
    · rw [onTick_due hlt] at heq
      obtain ⟨rfl, rfl⟩ := Prod.mk.inj heq
      refine ⟨hm.cfg_eq, ?_⟩
      rw [dueTicks_tick rfl, if_pos (due_iff.mpr hlt)]
      show (saturatingAdd8 m.state.missedCount 1).toNat = _
      rw [saturatingAdd8_one, hm.missed]
      omega

theorem counted_of_run (hrun : Run ConsentManager.step (.new start cfg) h m) : Counted cfg h m := by
  induction hrun with
  | nil => exact ⟨rfl, rfl⟩
  | snoc _ hs ih => exact counted_step ih hs

/-- A due tick compares the byte, which falls short of the count only where that is past 255. -/
theorem tick_lost_iff {call : ConsentCall} {o : Option ConsentAction} (hm : Counted cfg h m)
    (hs : m.step call = some (m', o)) (htick : ConsentTaken.isTick ⟨m, call, o, m'⟩) :
    o = some .pathLost ↔ ConsentTaken.due ⟨m, call, o, m'⟩ ∧
      cfg.maxMissed.toNat < min (dueTicks (h ++ [⟨m, call, o, m'⟩])) 255 := by
  have hafter := (counted_step hm hs).missed
  cases call with
  | onResponse nowMs => cases htick
  | onTick nowMs =>
    have heq : ((m.onTick nowMs).1, some (m.onTick nowMs).2) = (m', o) := Option.some.inj hs
    by_cases hlt : nowMs < m.state.nextDeadlineMs
    · rw [onTick_early hlt] at heq
      obtain ⟨rfl, rfl⟩ := Prod.mk.inj heq
      exact iff_of_false (by simp) fun hdue => due_iff.mp hdue.1 hlt
    · rw [onTick_due hlt] at heq
      obtain ⟨rfl, rfl⟩ := Prod.mk.inj heq
      rw [and_iff_right (due_iff.mpr hlt), ← hafter, ← hm.cfg_eq, ← UInt8.lt_iff_toNat_lt]
      split_ifs with hmissed
      · exact iff_of_true rfl hmissed
      · exact iff_of_false (by simp) hmissed

end Runs

/-- The loss of the path is found in a run exactly if fewer than 255 checks may be missed, or
256 due ticks in a row never go without a response. -/
theorem path_loss_iff {start : UInt64} {cfg : ConsentConfig} {h : List ConsentTaken}
    {m : ConsentManager} (hrun : Run ConsentManager.step (.new start cfg) h m) :
    Detects cfg h ↔ cfg.maxMissed.toNat < 255 ∨ ∀ h₀, h₀ <+: h → dueTicks h₀ < 256 := by
  induction hrun with
  | nil =>
    have hnone : dueTicks [] < 256 := by decide
    refine iff_of_true ?_ (.inr fun h₀ hpre => List.prefix_nil.mp hpre ▸ hnone)
    intro h₀ t hpre
    cases List.append_eq_nil_iff.mp (List.prefix_nil.mp hpre) with
    | intro _ hnil => cases hnil
  | @snoc h m m' call o hrun hs ih =>
    have hmax := cfg.maxMissed.toNat_lt
    have hlost := tick_lost_iff (counted_of_run hrun) hs
    have hstep : dueTicks (h ++ [⟨m, call, o, m'⟩]) ≤ dueTicks h + 1 := by
      by_cases htick : ConsentTaken.isTick ⟨m, call, o, m'⟩
      · rw [dueTicks_tick htick]
        split_ifs <;> omega
      · rw [dueTicks_response htick]
        omega
    rw [detects_snoc, ih]
    simp only [List.prefix_concat_iff, forall_eq_or_imp]
    constructor
    · rintro ⟨hfew | hbefore, hthis⟩
      · exact .inl hfew
      · refine or_iff_not_imp_left.mpr fun hmany => ⟨?_, hbefore⟩
        have hlast := hbefore h List.prefix_rfl
        by_contra hpast
        have htick : ConsentTaken.isTick ⟨m, call, o, m'⟩ := by
          by_contra htick
          rw [dueTicks_response htick] at hpast
          omega
        have hdue : ConsentTaken.due ⟨m, call, o, m'⟩ := by
          by_contra hdue
          rw [dueTicks_tick htick, if_neg hdue] at hpast
          omega
        have hfound := (hlost htick).mp ((hthis htick).mpr ⟨hdue, by omega⟩)
        omega
    · rintro (hfew | ⟨hlast, hbefore⟩)
      · refine ⟨.inl hfew, fun htick => (hlost htick).trans (and_congr_right fun _ => ?_)⟩
        omega
      · refine ⟨.inr hbefore, fun htick => (hlost htick).trans (and_congr_right fun _ => ?_)⟩
        omega

/-- Three missed checks where two may be missed, a response, and a tick before it is due. -/
theorem missedChecks_found :
    ∃ h m, exec ConsentManager.step (.new 0 ⟨100, 2⟩) [.onTick 100, .onTick 200, .onTick 300,
        .onResponse 301, .onTick 400] = some (h, m) ∧
      (Detects ⟨100, 2⟩ h ↔ (⟨100, 2⟩ : ConsentConfig).maxMissed.toNat < 255 ∨
        ∀ h₀, h₀ <+: h → dueTicks h₀ < 256) := by
  have hsome : (exec ConsentManager.step (.new 0 ⟨100, 2⟩) [.onTick 100, .onTick 200,
      .onTick 300, .onResponse 301, .onTick 400]).isSome := by decide +kernel
  obtain ⟨⟨h, m⟩, hexec⟩ := Option.isSome_iff_exists.mp hsome
  exact ⟨h, m, hexec, path_loss_iff (Run.of_exec hexec)⟩

/-- A tick at each deadline, never answered. -/
def unanswered (n : Nat) : List ConsentCall :=
  (List.range n).map fun i => .onTick (UInt64.ofNat (100 * (i + 1)))

/-- Where 255 checks may be missed, the 256th is not found to be one too many. -/
theorem longSilence_unnoticed :
    ¬ ∀ (start : UInt64) (cfg : ConsentConfig) (h : List ConsentTaken) (m : ConsentManager),
      Run ConsentManager.step (.new start cfg) h m → Detects cfg h := by
  intro hclaim
  have hsome : ((exec ConsentManager.step (.new 0 ⟨100, 255⟩) (unanswered 256)).any fun x =>
      dueTicks x.1 = 256 ∧ (x.1.getLast?.any fun t : ConsentTaken =>
        t.isTick ∧ t.due ∧ t.output = some .sendKeepalive)) = true := by decide +kernel
  obtain ⟨⟨h, m⟩, hexec, hx⟩ := (Option.any_eq_true _ _).mp hsome
  obtain ⟨hcount, hlast⟩ := of_decide_eq_true hx
  obtain ⟨t, hget, ht⟩ := (Option.any_eq_true _ _).mp hlast
  obtain ⟨htick, hdue, hout⟩ := of_decide_eq_true ht
  have hsplit : h = h.dropLast ++ [t] := (List.dropLast_append_getLast? t hget).symm
  have hdetects := hclaim 0 ⟨100, 255⟩ h m (Run.of_exec hexec) h.dropLast t
    (hsplit ▸ List.prefix_rfl) htick
  rw [← hsplit, hcount, hout] at hdetects
  cases Option.some.inj (hdetects.mpr ⟨hdue, by decide⟩)

end Todero.Consent
