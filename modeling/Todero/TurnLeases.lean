import Todero.TurnManager

/-! The three leases that a TURN manager keeps up: the allocation, the permission on it and
the channel. What a tick asks for is read off the calls that have renewed them. -/
namespace Todero.Turn
open Transition
open Todero.Core (saturatingAdd saturatingAdd_toNat saturatingSub saturatingSub_toNat u64Max)

/-- The periodic refreshes are held inside the disconnect window, but for a floor of half a
minute. -/
def tuneTurnRefreshForDisconnectWindow (cfg : TurnConfig) (disconnectWindowMs : UInt64) :
    TurnConfig :=
  let guardMs := disconnectWindowMs / 10
  let targetMs := max (saturatingSub disconnectWindowMs guardMs) 30000
  { cfg with
    permissionRefreshMs := min cfg.permissionRefreshMs targetMs
    channelRefreshMs := min cfg.channelRefreshMs targetMs }

inductive Lease where
  | allocation | permission | channel
  deriving DecidableEq, Repr

def TurnManager.expiry (m : TurnManager) : Lease → Option UInt64
  | .allocation => m.allocationExpiryMs
  | .permission => m.permissionExpiryMs
  | .channel => m.channelExpiryMs

/-- How long an event renews a lease for, if it does. -/
def TurnEvent.renews (cfg : TurnConfig) : Lease → TurnEvent → Option Nat
  | .allocation, .allocationOk lifetimeSecs => some (lifetimeSecs.toNat * 1000)
  | .permission, .allocationOk _ | .permission, .permissionOk => some cfg.permissionRefreshMs.toNat
  | .channel, .allocationOk _ | .channel, .channelBindOk => some cfg.channelRefreshMs.toNat
  | _, _ => none

namespace TurnTaken

/-- When the lease that a call has renewed ends, in exact numbers. -/
def renewedTo (cfg : TurnConfig) (lease : Lease) (t : TurnTaken) : Option Nat :=
  match t.input with
  | .onEvent nowMs event => (event.renews cfg lease).map (nowMs.toNat + ·)
  | _ => none

/-- Whether there is an allocation after a call that decides it. -/
def relays (t : TurnTaken) : Option Bool :=
  match t.input, t.output with
  | .startAllocate, _ | .onEvent _ .transportFailure, .markFailed => some false
  | .onEvent _ (.allocationOk _), _ => some true
  | _, _ => none

end TurnTaken

/-- What the last call that says anything has said. -/
def lastOf {β : Type} (p : TurnTaken → Option β) (h : List TurnTaken) : Option β :=
  (h.filterMap p).getLast?

/-- A lease that has been given ends at or before `nowMs` + `early`. -/
def Ending (cfg : TurnConfig) (h : List TurnTaken) (lease : Lease) (early : Nat) (nowMs : UInt64) :
    Prop :=
  ∃ endMs, lastOf (TurnTaken.renewedTo cfg lease) h = some endMs ∧
    min endMs u64Max - early ≤ nowMs.toNat

instance (cfg : TurnConfig) (h : List TurnTaken) (lease : Lease) (early : Nat) (nowMs : UInt64) :
    Decidable (Ending cfg h lease early nowMs) :=
  decidable_of_iff
    ((lastOf (TurnTaken.renewedTo cfg lease) h).any fun endMs =>
      min endMs u64Max - early ≤ nowMs.toNat) (by simp [Ending, Option.any_eq_true])

/-- What a tick has to ask for, by the calls before it. -/
def wanted (cfg : TurnConfig) (h : List TurnTaken) (nowMs : UInt64) : TurnAction :=
  if lastOf TurnTaken.relays h ≠ some true then .noop
  else if Ending cfg h .allocation (cfg.refreshBeforeExpirySecs.toNat * 1000) nowMs then
    .sendRefresh
  else if Ending cfg h .permission 0 nowMs then .sendCreatePermission
  else if Ending cfg h .channel 0 nowMs then .sendChannelBind
  else .noop

/-- Every lease stands where the last call that renewed it has put it. -/
structure Leased (cfg : TurnConfig) (h : List TurnTaken) (m : TurnManager) : Prop where
  cfg_eq : m.cfg = cfg
  state_eq : m.state = .allocated ↔ lastOf TurnTaken.relays h = some true
  expiry_eq : ∀ lease, (m.expiry lease).map UInt64.toNat =
    (lastOf (TurnTaken.renewedTo cfg lease) h).map (min · u64Max)

section Runs
variable {β : Type} {p : TurnTaken → Option β} {cfg : TurnConfig} {h : List TurnTaken}
variable {m m' : TurnManager} {t : TurnTaken}

theorem lastOf_snoc (p : TurnTaken → Option β) (h : List TurnTaken) (t : TurnTaken) :
    lastOf p (h ++ [t]) = (p t).or (lastOf p h) := by
  rw [lastOf, List.filterMap_append]
  cases hp : p t <;> simp [hp, lastOf]

theorem mem_of_lastOf {b : β} (hlast : lastOf p h = some b) : ∃ t ∈ h, p t = some b :=
  List.mem_filterMap.mp (List.mem_of_getLast? hlast)

theorem seconds_toNat (secs : UInt32) : (secs.toUInt64 * 1000).toNat = secs.toNat * 1000 := by
  have hlt := secs.toNat_lt
  rw [UInt64.toNat_mul, UInt32.toNat_toUInt64, show (1000 : UInt64).toNat = 1000 from rfl,
    Nat.mod_eq_of_lt (by omega)]

theorem Leased.kept (hleased : Leased cfg h m) {lease : Lease}
    (hnone : t.renewedTo cfg lease = none) (hsame : m'.expiry lease = m.expiry lease) :
    (m'.expiry lease).map UInt64.toNat =
      (lastOf (TurnTaken.renewedTo cfg lease) (h ++ [t])).map (min · u64Max) := by
  rw [lastOf_snoc, hnone, hsame, Option.none_or]
  exact hleased.expiry_eq lease

theorem renewed {lease : Lease} {nowMs ms : UInt64}
    (hsome : t.renewedTo cfg lease = some (nowMs.toNat + ms.toNat))
    (hnew : m'.expiry lease = some (saturatingAdd nowMs ms)) :
    (m'.expiry lease).map UInt64.toNat =
      (lastOf (TurnTaken.renewedTo cfg lease) (h ++ [t])).map (min · u64Max) := by
  rw [lastOf_snoc, hsome, hnew, Option.some_or, Option.map_some, Option.map_some,
    saturatingAdd_toNat]

theorem Leased.step {call : TurnCall} {o : TurnAction} (hleased : Leased cfg h m)
    (hstep : m.step call = some (m', o)) : Leased cfg (h ++ [⟨m, call, o, m'⟩]) m' := by
  have hcfg := hleased.cfg_eq
  have hstate := hleased.state_eq
  cases call with
  | startAllocate =>
    obtain ⟨rfl, rfl⟩ := Prod.mk.inj (Option.some.inj hstep)
    refine ⟨hcfg, ?_, fun lease => hleased.kept rfl rfl⟩
    rw [lastOf_snoc]
    simp [TurnTaken.relays]
  | onTick nowMs =>
    obtain ⟨rfl, rfl⟩ := Prod.mk.inj (Option.some.inj hstep)
    refine ⟨hcfg, ?_, fun lease => hleased.kept rfl rfl⟩
    rw [lastOf_snoc]
    exact hstate
  | onEvent nowMs event =>
    have heq : m.onEvent nowMs event = (m', o) := Option.some.inj hstep
    cases event with
    | allocationOk secs =>
      obtain ⟨rfl, rfl⟩ := Prod.mk.inj heq
      refine ⟨hcfg, ?_, fun lease => ?_⟩
      · rw [lastOf_snoc]
        simp [TurnTaken.relays]
      · cases lease with
        | allocation =>
          refine renewed ?_ rfl
          rw [seconds_toNat]
          rfl
        | permission => exact renewed (by rw [hcfg]; rfl) rfl
        | channel => exact renewed (by rw [hcfg]; rfl) rfl
    | permissionOk =>
      obtain ⟨rfl, rfl⟩ := Prod.mk.inj heq
      refine ⟨hcfg, by rw [lastOf_snoc]; exact hstate, fun lease => ?_⟩
      cases lease with
      | permission => exact renewed (by rw [hcfg]; rfl) rfl
      | _ => exact hleased.kept rfl rfl
    | channelBindOk =>
      obtain ⟨rfl, rfl⟩ := Prod.mk.inj heq
      refine ⟨hcfg, by rw [lastOf_snoc]; exact hstate, fun lease => ?_⟩
      cases lease with
      | channel => exact renewed (by rw [hcfg]; rfl) rfl
      | _ => exact hleased.kept rfl rfl
    | transportFailure =>
      obtain ⟨-, hcase⟩ | ⟨-, hcase⟩ := failure_cases m nowMs
      · obtain ⟨rfl, rfl⟩ := Prod.mk.inj (hcase.symm.trans heq)
        refine ⟨hcfg, by rw [lastOf_snoc]; exact hstate, fun lease => ?_⟩
        exact hleased.kept (by cases lease <;> rfl) rfl
      · obtain ⟨rfl, rfl⟩ := Prod.mk.inj (hcase.symm.trans heq)
        refine ⟨hcfg, ?_, fun lease => ?_⟩
        · rw [lastOf_snoc]
          simp [TurnTaken.relays]
        · exact hleased.kept (by cases lease <;> rfl) rfl
    | _ =>
      obtain ⟨rfl, rfl⟩ := Prod.mk.inj heq
      refine ⟨hcfg, by rw [lastOf_snoc]; exact hstate, fun lease => ?_⟩
      exact hleased.kept (by cases lease <;> rfl) rfl

theorem leased_of_run (hrun : Run TurnManager.step (.new cfg) h m) : Leased cfg h m := by
  induction hrun with
  | nil => exact ⟨rfl, by simp [TurnManager.new, lastOf], fun lease => by cases lease <;> rfl⟩
  | snoc _ hstep ih => exact ih.step hstep

/-- A tick finds a lease ending exactly when its last renewal says so. -/
theorem Leased.ending_iff (hleased : Leased cfg h m) (lease : Lease) (early : UInt64)
    (nowMs : UInt64) :
    (m.expiry lease).any (fun expiry => nowMs ≥ saturatingSub expiry early) = true ↔
      Ending cfg h lease early.toNat nowMs := by
  have hexpiry := hleased.expiry_eq lease
  unfold Ending
  cases hm : m.expiry lease with
  | none =>
    rw [hm, Option.map_none] at hexpiry
    simp [Option.map_eq_none_iff.mp hexpiry.symm]
  | some expiry =>
    rw [hm, Option.map_some] at hexpiry
    obtain ⟨endMs, hlast, hend⟩ := Option.map_eq_some_iff.mp hexpiry.symm
    simp only [Option.any_some, decide_eq_true_eq, ge_iff_le, UInt64.le_iff_toNat_le,
      saturatingSub_toNat, hlast, Option.some.injEq, exists_eq_left', hend]

theorem Leased.wanted (hleased : Leased cfg h m) (nowMs : UInt64) :
    m.onTick nowMs = Turn.wanted cfg h nowMs := by
  have hsame : ∀ expiry : UInt64, saturatingSub expiry 0 = expiry := by
    intro expiry
    rw [← UInt64.toNat_inj, saturatingSub_toNat]
    rfl
  have hallocation := hleased.ending_iff .allocation (m.cfg.refreshBeforeExpirySecs.toUInt64 * 1000)
    nowMs
  have hpermission := hleased.ending_iff .permission 0 nowMs
  have hchannel := hleased.ending_iff .channel 0 nowMs
  simp only [hsame] at hpermission hchannel
  rw [seconds_toNat, hleased.cfg_eq] at hallocation
  rw [TurnManager.onTick, Turn.wanted, hleased.cfg_eq]
  exact if_congr (not_congr hleased.state_eq) rfl
    (if_congr hallocation rfl (if_congr hpermission rfl (if_congr hchannel rfl rfl)))

/-- After any calls a tick asks for what the last renewals of the three leases make due, the
allocation first, and for nothing while there is no allocation. -/
theorem ticks_follow_leases (hrun : Run TurnManager.step (.new cfg) h m) (nowMs : UInt64) :
    m.onTick nowMs = wanted cfg h nowMs :=
  (leased_of_run hrun).wanted nowMs

end Runs

/-- An allocation, a permission renewed late, and a tick at which the channel is due. -/
theorem lateChannel_wanted :
    ∃ h m, exec TurnManager.step (.new {}) [.startAllocate, .onEvent 1000 (.allocationOk 3600),
        .onEvent 200000 .permissionOk, .onEvent 300000 .staleNonce, .onEvent 430000 .permissionOk] =
          some (h, m) ∧
      m.onTick 541000 = .sendChannelBind ∧ m.onTick 541000 = wanted {} h 541000 := by
  have hsome : (exec TurnManager.step (.new {}) [.startAllocate,
      .onEvent 1000 (.allocationOk 3600), .onEvent 200000 .permissionOk,
      .onEvent 300000 .staleNonce, .onEvent 430000 .permissionOk]).any
        (fun x => x.2.onTick 541000 = .sendChannelBind) = true := by decide +kernel
  obtain ⟨⟨h, m⟩, hexec, hbind⟩ := (Option.any_eq_true _ _).mp hsome
  exact ⟨h, m, hexec, of_decide_eq_true hbind, ticks_follow_leases (Run.of_exec hexec) 541000⟩

/-! ### The disconnect window -/

/-- A lease was renewed less than `windowMs` ago. -/
def RenewedWithin (cfg : TurnConfig) (h : List TurnTaken) (lease : Lease)
    (windowMs nowMs : UInt64) : Prop :=
  ∃ t ∈ h, ∃ atMs event, t.input = .onEvent atMs event ∧ (event.renews cfg lease).isSome ∧
    nowMs.toNat < atMs.toNat + windowMs.toNat

/-- No tick passes in silence over a permission or a channel older than the window. -/
def KeptInside (cfg : TurnConfig) (windowMs : UInt64) : Prop :=
  ∀ (h : List TurnTaken) (m : TurnManager) (nowMs : UInt64),
    Run TurnManager.step (.new cfg) h m → m.state = .allocated → m.onTick nowMs = .noop →
      RenewedWithin cfg h .permission windowMs nowMs ∧ RenewedWithin cfg h .channel windowMs nowMs

theorem toNat_max (a b : UInt64) : (max a b).toNat = max a.toNat b.toNat := by
  show (if a ≤ b then b else a).toNat = _
  rw [max_def, apply_ite UInt64.toNat]
  simp only [UInt64.le_iff_toNat_le]

theorem toNat_min (a b : UInt64) : (min a b).toNat = min a.toNat b.toNat := by
  show (if a ≤ b then a else b).toNat = _
  rw [min_def, apply_ite UInt64.toNat]
  simp only [UInt64.le_iff_toNat_le]

/-- How long the lease of a permission or a channel lasts. -/
def TurnConfig.refreshMs (cfg : TurnConfig) : Lease → Option UInt64
  | .allocation => none
  | .permission => some cfg.permissionRefreshMs
  | .channel => some cfg.channelRefreshMs

theorem renews_refreshMs {cfg : TurnConfig} {lease : Lease} {event : TurnEvent} {ms : Nat}
    (hlease : lease ≠ .allocation) (hrenews : event.renews cfg lease = some ms) :
    (cfg.refreshMs lease).map UInt64.toNat = some ms := by
  cases lease with
  | allocation => exact absurd rfl hlease
  | permission => cases event <;> first | exact hrenews | cases hrenews
  | channel => cases event <;> first | exact hrenews | cases hrenews

/-- Tuning leaves at most the window, and at most half a minute where that is longer. -/
theorem tuned_le {cfg : TurnConfig} {windowMs refreshMs : UInt64} {lease : Lease}
    (htuned : (tuneTurnRefreshForDisconnectWindow cfg windowMs).refreshMs lease = some refreshMs) :
    refreshMs.toNat ≤ max windowMs.toNat 30000 := by
  have hbound : ∀ ms : UInt64,
      (min ms (max (saturatingSub windowMs (windowMs / 10)) 30000)).toNat ≤
        max windowMs.toNat 30000 := by
    intro ms
    rw [toNat_min, toNat_max, saturatingSub_toNat]
    exact (min_le_right _ _).trans (max_le_max (Nat.sub_le _ _) le_rfl)
  cases lease with
  | allocation => cases htuned
  | permission => exact Option.some.inj htuned ▸ hbound cfg.permissionRefreshMs
  | channel => exact Option.some.inj htuned ▸ hbound cfg.channelRefreshMs

theorem lastOf_isSome {β : Type} {p : TurnTaken → Option β} {h : List TurnTaken} {t : TurnTaken}
    (ht : t ∈ h) (hp : (p t).isSome) : (lastOf p h).isSome := by
  obtain ⟨b, hb⟩ := Option.isSome_iff_exists.mp hp
  exact List.getLast?_isSome.mpr (List.ne_nil_of_mem (List.mem_filterMap.mpr ⟨t, ht, hb⟩))

section Quiet
variable {cfg : TurnConfig} {h : List TurnTaken} {m : TurnManager} {lease : Lease}
variable {windowMs nowMs : UInt64}

/-- A lease that is not ending was renewed by a call, no longer ago than that call gave it. -/
theorem renewedWithin_of_quiet (hlease : lease ≠ .allocation)
    (hends : (lastOf (TurnTaken.renewedTo cfg lease) h).isSome)
    (hquiet : ¬ Ending cfg h lease 0 nowMs)
    (hwithin : ∀ refreshMs, cfg.refreshMs lease = some refreshMs →
      refreshMs.toNat ≤ windowMs.toNat) :
    RenewedWithin cfg h lease windowMs nowMs := by
  obtain ⟨endMs, hlast⟩ := Option.isSome_iff_exists.mp hends
  have hlt : nowMs.toNat < endMs := by
    have hnot : ¬ min endMs u64Max - 0 ≤ nowMs.toNat := fun hle => hquiet ⟨endMs, hlast, hle⟩
    omega
  obtain ⟨t, ht, hto⟩ := mem_of_lastOf hlast
  unfold TurnTaken.renewedTo at hto
  cases hcall : t.input with
  | onEvent atMs event =>
    simp only [hcall, Option.map_eq_some_iff] at hto
    obtain ⟨ms, hrenews, rfl⟩ := hto
    obtain ⟨refreshMs, hrefresh, rfl⟩ :=
      Option.map_eq_some_iff.mp (renews_refreshMs hlease hrenews)
    have hle := hwithin refreshMs hrefresh
    exact ⟨t, ht, atMs, event, hcall, by rw [hrenews]; rfl, by omega⟩
  | _ => simp [hcall] at hto

/-- An allocation has given all three leases. -/
theorem leases_of_allocated (hleased : Leased cfg h m) (hstate : m.state = .allocated)
    (lease : Lease) : (lastOf (TurnTaken.renewedTo cfg lease) h).isSome := by
  obtain ⟨t, ht, hrelays⟩ := mem_of_lastOf (hleased.state_eq.mp hstate)
  refine lastOf_isSome ht ?_
  unfold TurnTaken.relays at hrelays
  unfold TurnTaken.renewedTo
  split at hrelays
  · simp at hrelays
  · simp at hrelays
  · next hcall =>
    rw [hcall]
    cases lease <;> rfl
  · simp at hrelays

/-- What a tick has left alone is not ending. -/
theorem Leased.quiet (hleased : Leased cfg h m) (hstate : m.state = .allocated)
    (hnoop : m.onTick nowMs = .noop) :
    ¬ Ending cfg h .permission 0 nowMs ∧ ¬ Ending cfg h .channel 0 nowMs := by
  rw [hleased.wanted, Turn.wanted, if_neg (not_not.mpr (hleased.state_eq.mp hstate))] at hnoop
  split_ifs at hnoop with hallocation hpermission hchannel
  exact ⟨hpermission, hchannel⟩

end Quiet

/-- Below half a minute the floor is what stands. -/
theorem tuned_short {windowMs : UInt64} (hshort : windowMs.toNat < 30000) :
    tuneTurnRefreshForDisconnectWindow {} windowMs =
      { permissionRefreshMs := 30000, channelRefreshMs := 30000 } := by
  have htarget : max (saturatingSub windowMs (windowMs / 10)) 30000 = 30000 := by
    rw [← UInt64.toNat_inj, toNat_max, saturatingSub_toNat]
    exact max_eq_right ((Nat.sub_le _ _).trans hshort.le)
  rw [tuneTurnRefreshForDisconnectWindow, htarget]
  rfl

theorem short_quiet {nowMs : UInt64} (hshort : nowMs.toNat < 30000) :
    ((TurnManager.new { permissionRefreshMs := 30000, channelRefreshMs := 30000 }).onEvent 0
      (.allocationOk 600)).1.onTick nowMs = .noop := by
  have hallocated : ((TurnManager.new
      { permissionRefreshMs := 30000, channelRefreshMs := 30000 }).onEvent 0
        (.allocationOk 600)).1 = ⟨.allocated, some 600000, some 30000, some 30000, 0,
          { permissionRefreshMs := 30000, channelRefreshMs := 30000 }⟩ := by decide +kernel
  have hrefresh : saturatingSub 600000 ((60 : UInt32).toUInt64 * 1000) = 540000 := by decide +kernel
  have hlate : ∀ ms : UInt64, 30000 ≤ ms.toNat → ¬ nowMs ≥ ms := by
    intro ms hms hge
    have hle := UInt64.le_iff_toNat_le.mp hge
    omega
  rw [hallocated, TurnManager.onTick, if_neg (by simp)]
  simp only [Option.any_some, decide_eq_true_eq, hrefresh]
  rw [if_neg (hlate 540000 (by decide)), if_neg (hlate 30000 (by decide)),
    if_neg (hlate 30000 (by decide))]

/-- With tuned intervals, whatever the configuration, no tick of an allocated manager passes in
silence over a permission or a channel that was renewed a whole disconnect window ago or
earlier; this is so exactly for windows of half a minute and more. -/
theorem refreshes_inside_window_iff (windowMs : UInt64) :
    (∀ cfg, KeptInside (tuneTurnRefreshForDisconnectWindow cfg windowMs) windowMs) ↔
      30000 ≤ windowMs.toNat := by
  constructor
  · intro hkept
    by_contra hshort
    rw [not_le] at hshort
    have hrun : Run TurnManager.step
        (.new (tuneTurnRefreshForDisconnectWindow {} windowMs)) _ _ :=
      Run.nil.snoc (i := .onEvent 0 (.allocationOk 600)) rfl
    have hnoop : ((TurnManager.new (tuneTurnRefreshForDisconnectWindow {} windowMs)).onEvent 0
        (.allocationOk 600)).1.onTick windowMs = .noop := by
      rw [tuned_short hshort]
      exact short_quiet hshort
    obtain ⟨⟨t, ht, atMs, event, hcall, -, hlt⟩, -⟩ := hkept {} _ _ windowMs hrun rfl hnoop
    rw [List.mem_singleton.mp ht] at hcall
    obtain ⟨rfl, -⟩ := TurnCall.onEvent.inj hcall
    exact absurd hlt (by simp)
  · intro hfloor cfg h m nowMs hrun hstate hnoop
    have hleased := leased_of_run hrun
    obtain ⟨hpermission, hchannel⟩ := hleased.quiet hstate hnoop
    have hwithin : ∀ lease refreshMs,
        (tuneTurnRefreshForDisconnectWindow cfg windowMs).refreshMs lease = some refreshMs →
          refreshMs.toNat ≤ windowMs.toNat := by
      intro lease refreshMs htuned
      have hle := tuned_le htuned
      omega
    exact ⟨renewedWithin_of_quiet (by decide) (leases_of_allocated hleased hstate _) hpermission
        (hwithin _),
      renewedWithin_of_quiet (by decide) (leases_of_allocated hleased hstate _) hchannel
        (hwithin _)⟩

end Todero.Turn
