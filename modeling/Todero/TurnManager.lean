import Todero.CoreTypes
import Todero.Lib.Transition

/-! The TURN allocation of v3-nat, and how many failures an attempt at it survives. The count
of failures is taken back by a successful allocation only, not by the start of an attempt. -/
namespace Todero.Turn
open Transition
open Todero.Core (saturatingAdd saturatingAdd32 saturatingMul saturatingMul_toNat saturatingSub
  u32Max u64Max)

inductive TurnAuthMode where
  | longTerm | restSecret
  deriving DecidableEq, Repr

inductive TurnState where
  | idle | allocating | allocated | failed
  deriving DecidableEq, Repr

inductive TurnEvent where
  | allocationOk (lifetimeSecs : UInt32)
  | permissionOk
  | channelBindOk
  | unauthorized
  | staleNonce
  | transportFailure
  deriving DecidableEq, Repr

inductive TurnAction where
  | sendAllocate
  | sendAllocateWithAuth
  | sendRefresh
  | sendCreatePermission
  | sendChannelBind
  | retryAfter (delayMs : UInt64)
  | markFailed
  | noop
  deriving DecidableEq, Repr

inductive RelayPolicy where
  | preferDirect | relayOnly
  deriving DecidableEq, Repr

structure TurnConfig where
  authMode : TurnAuthMode := .restSecret
  refreshBeforeExpirySecs : UInt32 := 60
  retryBackoffMs : UInt64 := 1000
  permissionRefreshMs : UInt64 := 240000
  channelRefreshMs : UInt64 := 540000
  relayPolicy : RelayPolicy := .preferDirect
  deriving DecidableEq, Repr

/-- `retries` is a `u32`, which `saturatingAdd32` keeps it. -/
structure TurnManager where
  state : TurnState
  allocationExpiryMs : Option UInt64
  permissionExpiryMs : Option UInt64
  channelExpiryMs : Option UInt64
  retries : Nat
  cfg : TurnConfig
  deriving DecidableEq, Repr

namespace TurnManager

def new (cfg : TurnConfig) : TurnManager := ⟨.idle, none, none, none, 0, cfg⟩

def startAllocate (m : TurnManager) : TurnManager × TurnAction :=
  ({ m with state := .allocating }, .sendAllocate)

/-- No call of `on_tick` writes to the manager. -/
def onTick (m : TurnManager) (nowMs : UInt64) : TurnAction :=
  if m.state ≠ .allocated then .noop
  else if m.allocationExpiryMs.any fun expiry =>
      nowMs ≥ saturatingSub expiry (m.cfg.refreshBeforeExpirySecs.toUInt64 * 1000) then
    .sendRefresh
  else if m.permissionExpiryMs.any (nowMs ≥ ·) then .sendCreatePermission
  else if m.channelExpiryMs.any (nowMs ≥ ·) then .sendChannelBind
  else .noop

def onEvent (m : TurnManager) (nowMs : UInt64) : TurnEvent → TurnManager × TurnAction
  | .allocationOk lifetimeSecs =>
    let lifeMs := lifetimeSecs.toUInt64 * 1000
    ({ m with
        state := .allocated
        retries := 0
        allocationExpiryMs := some (saturatingAdd nowMs lifeMs)
        permissionExpiryMs := some (saturatingAdd nowMs m.cfg.permissionRefreshMs)
        channelExpiryMs := some (saturatingAdd nowMs m.cfg.channelRefreshMs) },
      .sendCreatePermission)
  | .permissionOk =>
    ({ m with permissionExpiryMs := some (saturatingAdd nowMs m.cfg.permissionRefreshMs) },
      .sendChannelBind)
  | .channelBindOk =>
    ({ m with channelExpiryMs := some (saturatingAdd nowMs m.cfg.channelRefreshMs) }, .noop)
  | .unauthorized | .staleNonce => (m, .sendAllocateWithAuth)
  | .transportFailure =>
    let retries := saturatingAdd32 m.retries 1
    if retries > 5 then ({ m with retries := retries, state := .failed }, .markFailed)
    else
      ({ m with retries := retries },
        .retryAfter (saturatingMul m.cfg.retryBackoffMs (1 <<< UInt64.ofNat (retries - 1))))

end TurnManager

inductive TurnCall where
  | startAllocate
  | onTick (nowMs : UInt64)
  | onEvent (nowMs : UInt64) (event : TurnEvent)
  deriving DecidableEq, Repr

def TurnManager.step (m : TurnManager) : TurnCall → Option (TurnManager × TurnAction)
  | .startAllocate => some m.startAllocate
  | .onTick nowMs => some (m, m.onTick nowMs)
  | .onEvent nowMs event => some (m.onEvent nowMs event)

abbrev TurnTaken := Taken TurnManager TurnCall TurnAction

def TurnTaken.event (t : TurnTaken) : Option TurnEvent :=
  match t.input with
  | .onEvent _ event => some event
  | _ => none

def TurnTaken.Failure (t : TurnTaken) : Prop := t.event = some .transportFailure

def TurnTaken.Allocation (t : TurnTaken) : Prop := ∃ secs, t.event = some (.allocationOk secs)

/-- Ticks and failures, and nothing else. -/
def Failing (h : List TurnTaken) : Prop :=
  ∀ t ∈ h, (∃ nowMs, t.input = .onTick nowMs) ∨ t.Failure

def failures (h : List TurnTaken) : Nat := h.countP fun t => t.event = some .transportFailure

/-- What the `k`-th failure of an attempt has to lead to. -/
def Budgeted (cfg : TurnConfig) (k : Nat) (o : TurnAction) (m : TurnManager) : Prop :=
  (k ≤ 5 → o = .retryAfter (UInt64.ofNat (min (cfg.retryBackoffMs.toNat * 2 ^ (k - 1)) u64Max)) ∧
    m.state ≠ .failed) ∧
  (k = 6 → o = .markFailed ∧ m.state = .failed)

/-- An attempt started here has its full budget. -/
def FullBudget (m : TurnManager) : Prop :=
  ∀ (h : List TurnTaken) (m₁ m₂ : TurnManager) (nowMs : UInt64) (o : TurnAction),
    Run TurnManager.step m.startAllocate.1 h m₁ → Failing h →
      m₁.step (.onEvent nowMs .transportFailure) = some (m₂, o) →
        Budgeted m.cfg (failures h + 1) o m₂

/-- A failure since which no allocation has succeeded. -/
def Burdened (h : List TurnTaken) : Prop :=
  After (fun _ => True) TurnTaken.Failure (fun t => ¬ t.Allocation) h

/-! ### One call -/

section Calls
variable {m m' : TurnManager} {o : TurnAction} {nowMs : UInt64}

theorem failure_cases (m : TurnManager) (nowMs : UInt64) :
    m.retries < 5 ∧ m.onEvent nowMs .transportFailure = ({ m with retries := m.retries + 1 },
        .retryAfter (UInt64.ofNat (min (m.cfg.retryBackoffMs.toNat * 2 ^ m.retries) u64Max))) ∨
      5 ≤ m.retries ∧ m.onEvent nowMs .transportFailure =
        ({ m with retries := saturatingAdd32 m.retries 1, state := .failed }, .markFailed) := by
  rw [TurnManager.onEvent]
  by_cases hlt : m.retries < 5
  · have hnext : saturatingAdd32 m.retries 1 = m.retries + 1 := by
      rw [saturatingAdd32, u32Max]
      omega
    have hshift : (1 <<< UInt64.ofNat m.retries : UInt64).toNat = 2 ^ m.retries := by
      interval_cases m.retries <;> rfl
    refine .inl ⟨hlt, ?_⟩
    rw [hnext, if_neg (by omega), Nat.add_sub_cancel]
    rw [saturatingMul, hshift]
  · have hge : saturatingAdd32 m.retries 1 > 5 := by
      rw [saturatingAdd32, u32Max]
      omega
    exact .inr ⟨by omega, by rw [if_pos hge]⟩

theorem failure_input {t : TurnTaken} (hfail : t.Failure) :
    ∃ nowMs, t.input = .onEvent nowMs .transportFailure := by
  rw [TurnTaken.Failure, TurnTaken.event] at hfail
  cases hinput : t.input with
  | onEvent nowMs event =>
    rw [hinput] at hfail
    exact ⟨nowMs, by rw [Option.some.inj hfail]⟩
  | _ => simp [hinput] at hfail

theorem failures_snoc (h : List TurnTaken) (t : TurnTaken) :
    failures (h ++ [t]) = failures h + if t.event = some .transportFailure then 1 else 0 := by
  simp [failures, List.countP_append, List.countP_singleton]

end Calls

/-! ### Whole runs -/

section Runs
variable {cfg : TurnConfig} {s m m' : TurnManager} {h : List TurnTaken}

/-- Failures are counted, and nothing else happens before the sixth. -/
structure Attempt (s : TurnManager) (h : List TurnTaken) (m : TurnManager) : Prop where
  cfg_eq : m.cfg = s.cfg
  retries_eq : min m.retries 6 = min (s.retries + failures h) 6
  state_eq : s.retries + failures h ≤ 5 → m.state = s.state

theorem attempt_of_run (hrun : Run TurnManager.step s h m) (hfailing : Failing h) :
    Attempt s h m := by
  refine hrun.invariant (A := fun t : TurnTaken => (∃ nowMs, t.input = .onTick nowMs) ∨ t.Failure)
    (I := fun h m => Attempt s h m) ⟨rfl, rfl, fun _ => rfl⟩ ?_ hfailing
  rintro h m call m' o ⟨hcfg, hretries, hstate⟩ hs (⟨nowMs, hinput⟩ | hfail)
  · obtain rfl : call = .onTick nowMs := hinput
    obtain ⟨rfl, rfl⟩ := Prod.mk.inj (Option.some.inj hs)
    have hsame : failures (h ++ [⟨m, .onTick nowMs, m.onTick nowMs, m⟩]) = failures h := by
      simp [failures_snoc, TurnTaken.event]
    rw [← hsame] at hretries hstate
    exact ⟨hcfg, hretries, hstate⟩
  · have hmore : failures (h ++ [⟨m, call, o, m'⟩]) = failures h + 1 :=
      (failures_snoc h _).trans (congrArg (failures h + ·) (if_pos hfail))
    obtain ⟨nowMs, hinput⟩ := failure_input (t := ⟨m, call, o, m'⟩) hfail
    obtain rfl : call = .onEvent nowMs .transportFailure := hinput
    have heq : m.onEvent nowMs .transportFailure = (m', o) := Option.some.inj hs
    obtain ⟨hlt, hcase⟩ | ⟨hge, hcase⟩ := failure_cases m nowMs
    · obtain ⟨rfl, rfl⟩ := Prod.mk.inj (hcase.symm.trans heq)
      refine ⟨hcfg, ?_, fun hle => hstate (by omega)⟩
      rw [hmore]
      show min (m.retries + 1) 6 = _
      omega
    · obtain ⟨rfl, rfl⟩ := Prod.mk.inj (hcase.symm.trans heq)
      refine ⟨hcfg, ?_, fun hle => ?_⟩
      · rw [hmore]
        show min (saturatingAdd32 m.retries 1) 6 = _
        rw [saturatingAdd32, u32Max]
        omega
      · rw [hmore] at hle
        omega

/-- An attempt can fail any number of times. -/
theorem exists_failures (s : TurnManager) (n : Nat) :
    ∃ h m, Run TurnManager.step s h m ∧ Failing h ∧ failures h = n := by
  induction n with
  | zero => exact ⟨[], s, .nil, by simp [Failing], rfl⟩
  | succ n ih =>
    obtain ⟨h, m, hrun, hfailing, hcount⟩ := ih
    have hnext := hrun.snoc (i := .onEvent 0 .transportFailure) rfl
    refine ⟨_, _, hnext, ?_, ?_⟩
    · exact List.forall_mem_append.mpr ⟨hfailing, by simp [TurnTaken.Failure, TurnTaken.event]⟩
    · rw [failures_snoc, hcount]
      rfl

theorem fullBudget_iff (m : TurnManager) : FullBudget m ↔ m.retries = 0 := by
  constructor
  · intro hfull
    by_contra hne
    obtain ⟨h, m₁, hrun, hfailing, hcount⟩ := exists_failures m.startAllocate.1 (5 - m.retries)
    have hretries : min m₁.retries 6 = min (m.retries + failures h) 6 :=
      (attempt_of_run hrun hfailing).retries_eq
    obtain ⟨hlt, -⟩ | ⟨-, hcase⟩ := failure_cases m₁ 0
    · omega
    · have hbudget := hfull h m₁ _ 0 _ hrun hfailing (congrArg some hcase)
      obtain ⟨hretry, -⟩ := hbudget.1 (by omega)
      cases hretry
  · rintro hzero h m₁ m₂ nowMs o hrun hfailing hs
    obtain ⟨hcfg, hretries, hstate⟩ := attempt_of_run hrun hfailing
    have hretries : min m₁.retries 6 = min (m.retries + failures h) 6 := hretries
    have hcfg : m₁.cfg = m.cfg := hcfg
    have hstate : m.retries + failures h ≤ 5 → m₁.state = .allocating := hstate
    have heq : m₁.onEvent nowMs .transportFailure = (m₂, o) := Option.some.inj hs
    obtain ⟨hlt, hcase⟩ | ⟨hge, hcase⟩ := failure_cases m₁ nowMs
    · obtain ⟨rfl, rfl⟩ := Prod.mk.inj (hcase.symm.trans heq)
      have hcount : m₁.retries = failures h := by omega
      refine ⟨fun hle => ⟨?_, ?_⟩, fun hsix => by omega⟩
      · rw [hcount, hcfg, Nat.add_sub_cancel]
      · show m₁.state ≠ .failed
        rw [hstate (by omega)]
        decide
    · obtain ⟨rfl, rfl⟩ := Prod.mk.inj (hcase.symm.trans heq)
      exact ⟨fun hle => by omega, fun _ => ⟨rfl, rfl⟩⟩

/-- The count is taken back by an allocation only. -/
theorem retries_eq_zero_iff (hrun : Run TurnManager.step (.new cfg) h m) :
    m.retries = 0 ↔ ¬ Burdened h := by
  induction hrun with
  | nil => exact iff_of_true rfl not_after_nil
  | @snoc h m m' call o _ hs ih =>
    rw [Burdened, after_snoc, not_or, true_and, not_and, not_not]
    rw [Burdened] at ih
    cases call with
    | startAllocate =>
      obtain ⟨rfl, rfl⟩ := Prod.mk.inj (Option.some.inj hs)
      simpa [TurnTaken.Failure, TurnTaken.Allocation, TurnTaken.event] using ih
    | onTick nowMs =>
      obtain ⟨rfl, rfl⟩ := Prod.mk.inj (Option.some.inj hs)
      simpa [TurnTaken.Failure, TurnTaken.Allocation, TurnTaken.event] using ih
    | onEvent nowMs event =>
      have heq : m.onEvent nowMs event = (m', o) := Option.some.inj hs
      cases event with
      | allocationOk secs =>
        obtain ⟨rfl, rfl⟩ := Prod.mk.inj heq
        simp [TurnTaken.Failure, TurnTaken.Allocation, TurnTaken.event]
      | transportFailure =>
        refine iff_of_false ?_ fun hnot => hnot.1 rfl
        obtain ⟨hlt, hcase⟩ | ⟨hge, hcase⟩ := failure_cases m nowMs
        · obtain ⟨rfl, rfl⟩ := Prod.mk.inj (hcase.symm.trans heq)
          exact Nat.succ_ne_zero m.retries
        · obtain ⟨rfl, rfl⟩ := Prod.mk.inj (hcase.symm.trans heq)
          show saturatingAdd32 m.retries 1 ≠ 0
          rw [saturatingAdd32, u32Max]
          omega
      | _ =>
        obtain ⟨rfl, rfl⟩ := Prod.mk.inj heq
        simpa [TurnTaken.Failure, TurnTaken.Allocation, TurnTaken.event, TurnManager.onEvent]
          using ih

end Runs

/-- An attempt started after any calls has its full budget exactly if no failure stands since
the last successful allocation. -/
theorem full_budget_iff {cfg : TurnConfig} {h : List TurnTaken} {m : TurnManager}
    (hrun : Run TurnManager.step (.new cfg) h m) : FullBudget m ↔ ¬ Burdened h := by
  rw [fullBudget_iff, retries_eq_zero_iff hrun]

/-- A failure, an allocation, and the tick at which its refresh is due. -/
theorem refreshed_budget :
    ∃ h m, exec TurnManager.step (.new {}) [.startAllocate, .onEvent 5 .transportFailure,
        .onEvent 1500 (.allocationOk 600), .onTick 541500] = some (h, m) ∧
      (FullBudget m ↔ ¬ Burdened h) := by
  have hsome : (exec TurnManager.step (.new {}) [.startAllocate, .onEvent 5 .transportFailure,
      .onEvent 1500 (.allocationOk 600), .onTick 541500]).isSome := by decide +kernel
  obtain ⟨⟨h, m⟩, hexec⟩ := Option.isSome_iff_exists.mp hsome
  exact ⟨h, m, hexec, full_budget_iff (Run.of_exec hexec)⟩

/-- After six failures a new attempt fails for good at its first one. -/
theorem secondAttempt_failed :
    ¬ ∀ (cfg : TurnConfig) (h : List TurnTaken) (m : TurnManager),
      Run TurnManager.step (.new cfg) h m → FullBudget m := by
  intro hclaim
  have hsome : ((exec TurnManager.step (.new {})
      (.startAllocate :: List.replicate 6 (.onEvent 2000 .transportFailure))).any
        fun x => x.2.retries = 6) = true := by decide +kernel
  obtain ⟨⟨h, m⟩, hexec, hx⟩ := (Option.any_eq_true _ _).mp hsome
  have hretries : m.retries = 6 := of_decide_eq_true hx
  have hzero := (fullBudget_iff m).mp (hclaim {} h m (Run.of_exec hexec))
  omega

end Todero.Turn
