import Todero.TimerChains
import Todero.Datagrams
import Todero.Lib.Alarms

/-! A client that hears nothing any more and is polled at every millisecond: whether it probes
its server before it gives the session up. -/
namespace Todero.Client
open Todero.Wire Todero.Core Transition Alarms

def alarm : TimerId → Option Alarm
  | .clientProbe => some .probe
  | .disconnect => some .guard
  | .serverMsr | .renegotiationTimeout => none

/-- What a machine goes by until it hears from its server again. -/
def watch (m : CoreMachine) : Watch where
  period := m.cfg.msrIntervalMs.toNat
  limit := (m.lastServerMsrAtMs.getD 0).toNat +
    m.cfg.msrIntervalMs.toNat * m.cfg.missWindowCount.toNat
  deadline := (m.disconnectDeadlineMs.getD 0).toNat

def alarms (timers : TimerMap) : List (UInt64 × Alarm) :=
  Agenda.picked alarm (Agenda.entries timers)

/-- The alarms at the instants after `t`, at each of which the timers are polled. What is due
already comes up at the next instant. -/
def ring (timers : TimerMap) (t : ℕ) : Slots := fun n =>
  ((alarms timers).filter fun e => max e.1.toNat (t + 1) = n).map (·.2)

/-- The next instant at which a `Disconnect` entry comes up. -/
def nextGuard (timers : TimerMap) (t : ℕ) : ℕ :=
  ((alarms timers).find? (·.2 = .guard)).elim 0 fun e => max e.1.toNat (t + 1)

/-- When the client gives its session up, if it hears nothing after `t`. -/
def givesUpAt (rt : ClientRuntime) (t : ℕ) : ℕ := (watch rt.core).ends (nextGuard rt.timers t)

/-- A tick of the probe timer is later than the miss window, and comes up before the
`Disconnect` entry with which the client gives up. -/
def TicksFirst (rt : ClientRuntime) (t : ℕ) : Prop :=
  (watch rt.core).Wins (ring rt.timers t) t (nextGuard rt.timers t)

/-! ### One turn -/

structure Waits (w : Watch) (m : CoreMachine) : Prop where
  role : m.role = .client
  up : live m
  deadline : m.disconnectDeadlineMs.isSome
  watch : watch m = w

def sign : Event → Option Alarm
  | .reactivationProbeSent => some .probe
  | .disconnected => some .guard
  | _ => none

section Turn
variable {w : Watch} {m : CoreMachine}

theorem misses_iff (m : CoreMachine) (nowMs : UInt64) :
    m.misses nowMs ↔ (watch m).limit < nowMs.toNat := by
  have hnow := nowMs.toNat_lt
  have hlimit : (watch m).limit = (m.lastServerMsrAtMs.getD 0).toNat +
    m.cfg.msrIntervalMs.toNat * m.cfg.missWindowCount.toNat := rfl
  rw [CoreMachine.misses, gt_iff_lt, UInt64.lt_iff_toNat_lt, saturatingSub_toNat,
    saturatingMul_toNat, hlimit, u64Max]
  omega

theorem Waits.misses (h : Waits w m) (nowMs : UInt64) :
    m.misses nowMs ↔ w.goesOff nowMs.toNat .probe := by
  rw [misses_iff, h.watch]
  simp [Watch.goesOff]

theorem Waits.pastDeadline (h : Waits w m) (nowMs : UInt64) :
    m.pastDeadline nowMs = w.goesOff nowMs.toNat .guard := by
  obtain ⟨deadline, hd⟩ := Option.isSome_iff_exists.mp h.deadline
  have hdeadline : w.deadline = deadline.toNat := by
    rw [← h.watch]
    simp [Client.watch, hd]
  simp [CoreMachine.pastDeadline, Watch.goesOff, hd, hdeadline, UInt64.le_iff_toNat_le]

theorem Waits.not_lost (h : Waits w m) : m.state ≠ .lost := by
  intro hlost
  have hup := h.up
  simp [live, hlost] at hup

/-- What a timer that fires announces. -/
theorem Waits.tells (h : Waits w m) (nowMs : UInt64) (id : TimerId) :
    (m.tells (.timer nowMs id)).findSome? sign =
      (alarm id).toList.find? (w.goesOff nowMs.toNat) := by
  cases id with
  | serverMsr => simp [CoreMachine.tells, h.role, alarm]
  | clientProbe =>
    have hup : m.state = .established ∨ m.state = .reactivating := h.up
    simp only [CoreMachine.tells, h.role, hup, h.misses, true_and, alarm]
    cases hoff : w.goesOff nowMs.toNat .probe <;> simp [hoff, sign]
  | disconnect =>
    simp only [CoreMachine.tells, h.pastDeadline, h.not_lost, ne_eq, not_false_eq_true, and_true,
      alarm]
    cases hoff : w.goesOff nowMs.toNat .guard <;> simp [hoff, sign]
  | renegotiationTimeout =>
    simp only [CoreMachine.tells, alarm, Option.toList_none, List.find?_nil]
    split_ifs
    · cases m.pendingLocalProposal <;> simp [sign]
    · rfl

/-- A timer that does not go off comes up again. -/
theorem Waits.quiet (h : Waits w m) {nowMs : UInt64} {id : TimerId}
    (hquiet : (alarm id).toList.find? (w.goesOff nowMs.toNat) = none) :
    Waits w (m.next (.timer nowMs id)) ∧ m.schedules (.timer nowMs id) =
      (alarm id).toList.map fun a => .schedule id (.ofNat (w.again nowMs.toNat a)) := by
  have hup : m.state = .established ∨ m.state = .reactivating := h.up
  cases id with
  | serverMsr =>
    rw [CoreMachine.next, CoreMachine.schedules, if_neg (by simp [h.role]),
      if_neg (by simp [h.role])]
    exact ⟨h, rfl⟩
  | clientProbe =>
    have hnot : ¬ m.misses nowMs := by
      rw [h.misses]
      simpa [alarm] using hquiet
    rw [CoreMachine.next, CoreMachine.schedules, if_neg (by simp [hnot]), if_pos ⟨h.role, hup⟩]
    refine ⟨h, ?_⟩
    simp [alarm, ← h.watch, Client.watch]
  | disconnect =>
    obtain ⟨deadline, hd⟩ := Option.isSome_iff_exists.mp h.deadline
    have hnot : ¬ m.pastDeadline nowMs := by
      rw [h.pastDeadline]
      simpa [alarm] using hquiet
    have hbefore : ¬ (nowMs ≥ deadline ∧ m.state ≠ .lost) := by
      rintro ⟨hpast, -⟩
      simp [CoreMachine.pastDeadline, hd, hpast] at hnot
    rw [CoreMachine.next, if_neg hnot]
    simp only [CoreMachine.schedules, hd]
    rw [if_neg hbefore]
    refine ⟨h, ?_⟩
    simp [alarm, ← h.watch, Client.watch, hd]
  | renegotiationTimeout =>
    rw [CoreMachine.next, CoreMachine.schedules]
    refine ⟨?_, rfl⟩
    split_ifs
    · exact ⟨h.role, h.up, h.deadline, h.watch⟩
    · exact h

theorem Waits.again_lt (h : Waits w m) {nowMs k : UInt64} (hk : nowMs < k) (a : Alarm) :
    UInt64.ofNat (w.again nowMs.toNat a) = k ↔ w.again nowMs.toNat a = k.toNat := by
  have hperiod : w.period < 2 ^ 64 := h.watch ▸ m.cfg.msrIntervalMs.toNat_lt
  have hdeadline : w.deadline < 2 ^ 64 := h.watch ▸ (m.disconnectDeadlineMs.getD 0).toNat_lt
  have hlt := UInt64.lt_iff_toNat_lt.mp hk
  have hkey := k.toNat_lt
  rw [← UInt64.toNat_inj, UInt64.toNat_ofNat']
  cases a with
  | probe => rw [Watch.again_probe]; omega
  | guard => rw [Watch.again_guard]; omega

end Turn

/-! ### One poll -/

section Turns
variable {w : Watch} {rt : ClientRuntime} (nowMs : UInt64)

/-- The entries of a poll, one after the other. -/
def turns (rt : ClientRuntime) (dues : List (UInt64 × TimerId)) : ClientRuntime :=
  dues.foldl (fun rt due => (rt.fire nowMs due).1) rt

def turnEvents : ClientRuntime → List (UInt64 × TimerId) → List Event
  | _, [] => []
  | rt, due :: rest => rt.core.tells (.timer nowMs due.2) ++ turnEvents (rt.fire nowMs due).1 rest

theorem fire_ok (rt : ClientRuntime) (due : UInt64 × TimerId) :
    ∃ out, (rt.fire nowMs due).2 = .ok out ∧
      out.events = (rt.core.tells (.timer nowMs due.2)).map .core := by
  have hcall : rt.core.apply (.timer nowMs due.2) =
    some ((onTimer rt.core nowMs due.2).1, (onTimer rt.core nowMs due.2).2) := rfl
  have hevents := (apply_answers rt.core hcall).events
  cases hres : (onTimer rt.core nowMs due.2).2 with
  | error e => exact absurd hres (onTimer_not_error _ _ _ _)
  | ok out =>
    rw [hres] at hevents
    refine ⟨⟨out.outboundDatagrams, out.events.map .core⟩, ?_, congrArg (List.map _) hevents⟩
    simp only [ClientRuntime.fire, ClientRuntime.drive, hres]
    rfl

theorem fireAll_ok (dues : List (UInt64 × TimerId)) (rt : ClientRuntime)
    (output : ClientRuntimeOutput) :
    ∃ out, ClientRuntime.fireAll nowMs rt dues output = (turns nowMs rt dues, .ok out) ∧
      out.events = output.events ++ (turnEvents nowMs rt dues).map .core := by
  induction dues generalizing rt output with
  | nil => exact ⟨output, rfl, (List.append_nil _).symm⟩
  | cons due dues ih =>
    obtain ⟨partOut, hok, hevents⟩ := fire_ok nowMs rt due
    rw [ClientRuntime.fireAll]
    cases hf : rt.fire nowMs due with
    | mk rt₁ res =>
      obtain rfl : res = .ok partOut := by rw [← hok, hf]
      obtain ⟨out, hall, houtput⟩ := ih rt₁
        ⟨output.outboundDatagrams ++ partOut.outboundDatagrams, output.events ++ partOut.events⟩
      refine ⟨out, ?_, ?_⟩
      · simp only [hall, turns, List.foldl_cons, hf]
      · rw [houtput, turnEvents, hf, hevents, List.map_append, List.append_assoc]

/-- The alarms of a poll. -/
def comingUp (dues : List (UInt64 × TimerId)) : List Alarm := dues.filterMap fun due => alarm due.2

theorem comingUp_cons (due : UInt64 × TimerId) (dues : List (UInt64 × TimerId)) :
    comingUp (due :: dues) = (alarm due.2).toList ++ comingUp dues := by
  cases ha : alarm due.2 <;> simp [comingUp, ha]

theorem Waits.fire (h : Waits w rt.core) {due : UInt64 × TimerId}
    (hquiet : (alarm due.2).toList.find? (w.goesOff nowMs.toNat) = none) :
    Waits w (rt.fire nowMs due).1.core ∧ (rt.fire nowMs due).1.timers =
      ((alarm due.2).toList.map fun a => (UInt64.ofNat (w.again nowMs.toNat a), due.2)).foldl
        (fun q e => Agenda.pushNew q e.1 e.2) (dropTimer rt.timers due.1 due.2) := by
  obtain ⟨hwaits, hschedules⟩ := h.quiet hquiet
  refine ⟨?_, ?_⟩
  · rwa [ClientRuntime.fire, drive_core, onTimer_next]
  · rw [ClientRuntime.fire, drive_timers, onTimer_schedules, hschedules]
    cases alarm due.2 <;> rfl

/-- What a poll reports first is the first of its alarms that goes off. -/
theorem turnEvents_sign (h : Waits w rt.core) (dues : List (UInt64 × TimerId)) :
    (turnEvents nowMs rt dues).findSome? sign = (comingUp dues).find? (w.goesOff nowMs.toNat) := by
  induction dues generalizing rt with
  | nil => rfl
  | cons due dues ih =>
    rw [turnEvents, List.findSome?_append, h.tells, comingUp_cons, List.find?_append]
    cases hoff : (alarm due.2).toList.find? (w.goesOff nowMs.toNat) with
    | none => rw [ih (h.fire nowMs hoff).1]
    | some a => rfl

/-- An entry that comes up again. -/
def Again (w : Watch) (n : ℕ) (e : UInt64 × TimerId) : Prop :=
  ∃ a, alarm e.2 = some a ∧ ¬ w.goesOff n a ∧ e.1 = .ofNat (w.again n a)

theorem alarm_injective {id id' : TimerId} {a : Alarm} (h : alarm id = some a)
    (h' : alarm id' = some a) : id = id' := by
  cases id <;> cases id' <;> simp [alarm] at h h' ⊢ <;> simp [← h] at h'

theorem Waits.fire_entries (h : Waits w rt.core) {due : UInt64 × TimerId}
    (hquiet : (alarm due.2).toList.find? (w.goesOff nowMs.toNat) = none)
    {rest : List (UInt64 × TimerId)} (hentries : (Agenda.entries rt.timers).Perm (due :: rest)) :
    ∃ new, (Agenda.entries (rt.fire nowMs due).1.timers).Perm (rest ++ new) ∧
      ∀ e ∈ new, Again w nowMs.toNat e := by
  obtain ⟨new, hperm, hnew⟩ := Client.fire_entries nowMs hentries
  refine ⟨new, hperm, fun e he => ?_⟩
  have hin := hnew e he
  rw [(h.quiet hquiet).2] at hin
  obtain ⟨a, ha, heq⟩ := List.mem_map.mp hin
  obtain ⟨hid, hkey⟩ := TimerAction.schedule.inj heq
  rw [Again, ← hid, ← hkey]
  exact ⟨a, Option.mem_toList.mp ha, List.find?_eq_none.mp hquiet a ha, rfl⟩

theorem Waits.fire_slot (h : Waits w rt.core) {due : UInt64 × TimerId}
    (hquiet : (alarm due.2).toList.find? (w.goesOff nowMs.toNat) = none) {k : UInt64}
    (hk : due.1 ≠ k) :
    (Agenda.slot (rt.fire nowMs due).1.timers k).filterMap alarm =
      ((alarm due.2).toList.filter fun a => UInt64.ofNat (w.again nowMs.toNat a) = k).foldl
        Agenda.join ((Agenda.slot rt.timers k).filterMap alarm) := by
  rw [(h.fire nowMs hquiet).2, Agenda.slot_pushNews,
    Agenda.filterMap_joins fun _ _ _ => alarm_injective, dropTimer_eq_take, Agenda.slot_take,
    if_neg hk.symm]
  congr 1
  cases ha : alarm due.2 with
  | none => rfl
  | some a =>
    by_cases hagain : UInt64.ofNat (w.again nowMs.toNat a) = k <;> simp [hagain, ha]

/-- When no alarm goes off, all entries come up again. -/
theorem turns_quiet (h : Waits w rt.core) {dues rest : List (UInt64 × TimerId)}
    (hquiet : (comingUp dues).find? (w.goesOff nowMs.toNat) = none)
    (hentries : (Agenda.entries rt.timers).Perm (dues ++ rest)) :
    Waits w (turns nowMs rt dues).core ∧
      (∃ new, (Agenda.entries (turns nowMs rt dues).timers).Perm (rest ++ new) ∧
        ∀ e ∈ new, Again w nowMs.toNat e) ∧
      ∀ k, (∀ due ∈ dues, due.1 ≠ k) →
        (Agenda.slot (turns nowMs rt dues).timers k).filterMap alarm =
          ((comingUp dues).filter fun a => UInt64.ofNat (w.again nowMs.toNat a) = k).foldl
            Agenda.join ((Agenda.slot rt.timers k).filterMap alarm) := by
  induction dues generalizing rt rest with
  | nil => exact ⟨h, ⟨[], by simpa [turns] using hentries, by simp⟩, fun _ _ => rfl⟩
  | cons due dues ih =>
    rw [comingUp_cons, List.find?_append, Option.or_eq_none_iff] at hquiet
    obtain ⟨hnow, hlater⟩ := hquiet
    rw [List.cons_append] at hentries
    obtain ⟨new, hperm, hnew⟩ := h.fire_entries nowMs hnow hentries
    rw [List.append_assoc] at hperm
    obtain ⟨hwaits, ⟨new', hperm', hnew'⟩, hslots⟩ := ih (h.fire nowMs hnow).1 hlater hperm
    refine ⟨hwaits, ⟨new ++ new', ?_, List.forall_mem_append.mpr ⟨hnew, hnew'⟩⟩, fun k hk => ?_⟩
    · rwa [List.append_assoc] at hperm'
    · obtain ⟨hdue, hdues⟩ := List.forall_mem_cons.mp hk
      rw [comingUp_cons, List.filter_append, List.foldl_append, ← h.fire_slot nowMs hnow hdue]
      exact hslots k hdues

end Turns

/-! ### Rings -/

section Ring
variable {timers : TimerMap} {t k : ℕ}

theorem alarms_ordered (timers : TimerMap) :
    (alarms timers).Pairwise fun e e' => (compare e.1 e'.1).isLE :=
  Agenda.picked_pairwise (R := fun k k' => (compare k k').isLE) (Agenda.entries_ordered timers)

theorem alarms_le (timers : TimerMap) :
    (alarms timers).Pairwise fun e e' => e.1.toNat ≤ e'.1.toNat :=
  (alarms_ordered timers).imp fun h => UInt64.le_iff_toNat_le.mp (Std.isLE_compare.mp h)

theorem filter_alarms (timers : TimerMap) (k : UInt64) : (alarms timers).filter (·.1 = k) =
    ((Agenda.slot timers k).filterMap alarm).map (k, ·) := by
  rw [alarms, Agenda.filter_picked (fun k' => k' = k), Agenda.filter_entries, Agenda.picked_map]

theorem alarms_slot (timers : TimerMap) (k : UInt64) :
    ((alarms timers).filter (·.1 = k)).map (·.2) = (Agenda.slot timers k).filterMap alarm := by
  rw [filter_alarms, List.map_map]
  exact List.map_id _

theorem mem_alarms {key : UInt64} {a : Alarm} :
    (key, a) ∈ alarms timers ↔ ∃ id, id ∈ Agenda.slot timers key ∧ alarm id = some a := by
  simp only [alarms, Agenda.mem_picked, Agenda.mem_entries]

theorem mem_ring {a : Alarm} :
    a ∈ ring timers t k ↔ ∃ e ∈ alarms timers, max e.1.toNat (t + 1) = k ∧ e.2 = a := by
  simp only [ring, List.mem_map, List.mem_filter, decide_eq_true_eq, and_assoc]

/-- What is due already, and then the slot of the instant. -/
theorem ring_eq (hk : t < k) (hlt : k < 2 ^ 64) : ring timers t k =
    (if k = t + 1 then ((alarms timers).filter (·.1.toNat ≤ t)).map (·.2) else []) ++
      (Agenda.slot timers (.ofNat k)).filterMap alarm := by
  have hkey : ∀ e : UInt64 × Alarm, e.1.toNat = k ↔ e.1 = .ofNat k := by
    intro e
    rw [← UInt64.toNat_inj, UInt64.toNat_ofNat', Nat.mod_eq_of_lt hlt]
  rw [← alarms_slot, ring]
  split_ifs with hnext
  · subst hnext
    have hor : ((alarms timers).filter fun e => max e.1.toNat (t + 1) = t + 1) =
        (alarms timers).filter fun e => (e.1.toNat ≤ t : Bool) || (e.1 = .ofNat (t + 1) : Bool) := by
      refine List.filter_congr fun e _ => ?_
      rw [← Bool.decide_or, decide_eq_decide, ← hkey e]
      omega
    rw [hor, Agenda.filter_or, List.map_append]
    · refine (alarms_le timers).imp fun {e e'} hle hnow => ?_
      rw [decide_eq_true_eq, ← hkey e] at hnow
      rw [decide_eq_true_eq]
      omega
    · intro e _ hpast
      rw [decide_eq_true_eq] at hpast ⊢
      rw [← hkey e]
      omega
  · rw [List.nil_append]
    congr 1
    refine List.filter_congr fun e _ => ?_
    rw [decide_eq_decide, ← hkey e]
    omega

theorem ring_next (timers : TimerMap) {nowMs : UInt64} (ht : nowMs.toNat = t + 1) :
    ring timers t (t + 1) = comingUp ((Agenda.entries timers).filter (Agenda.due nowMs)) := by
  have hdue : (fun e : UInt64 × Alarm => decide (max e.1.toNat (t + 1) = t + 1)) =
      fun e => decide (e.1 ≤ nowMs) := by
    funext e
    rw [decide_eq_decide, UInt64.le_iff_toNat_le]
    omega
  rw [ring, hdue, alarms, Agenda.filter_picked fun k => decide (k ≤ nowMs), Agenda.picked_snd]
  refine congrArg comingUp (List.filter_congr fun e _ => ?_)
  rw [Bool.eq_iff_iff, decide_eq_true_eq, Agenda.due, Std.isLE_compare]

/-- The first `Disconnect` entry is the one that comes up first. -/
theorem nextGuard_first (h : 1 ≤ running timers .disconnect) (t : ℕ) :
    FirstGuard (ring timers t) t (nextGuard timers t) := by
  obtain ⟨⟨key, id⟩, hin, hid⟩ := List.countP_pos_iff.mp h
  obtain rfl : id = .disconnect := of_decide_eq_true hid
  have hsome : ((alarms timers).find? (·.2 = .guard)).isSome :=
    List.find?_isSome.mpr ⟨(key, .guard), Agenda.mem_picked.mpr ⟨_, hin, rfl⟩, by simp⟩
  obtain ⟨e, hfind⟩ := Option.isSome_iff_exists.mp hsome
  obtain ⟨hguard, front, back, hsplit, hfront⟩ := List.find?_eq_some_iff_append.mp hfind
  have hnext : nextGuard timers t = max e.1.toNat (t + 1) := by
    rw [nextGuard, hfind]
    rfl
  rw [hnext]
  refine ⟨by omega, mem_ring.mpr ⟨e, List.mem_of_find?_eq_some hfind, rfl,
    of_decide_eq_true hguard⟩, fun k _ hk hmem => ?_⟩
  obtain ⟨e', he', rfl, hguard'⟩ := mem_ring.mp hmem
  have hordered := alarms_le timers
  rw [hsplit, List.pairwise_append, List.pairwise_cons] at hordered
  rw [hsplit, List.mem_append, List.mem_cons] at he'
  obtain hin | rfl | hin := he'
  · simpa [hguard'] using hfront e' hin
  · omega
  · have hle := hordered.2.1.1 e' hin
    omega

/-- Other timers do not change the ring. -/
theorem alarms_congr {timers' : TimerMap}
    (h : ∀ k, (Agenda.slot timers' k).filterMap alarm = (Agenda.slot timers k).filterMap alarm) :
    alarms timers' = alarms timers :=
  Agenda.ordered_ext (alarms_ordered timers') (alarms_ordered timers) fun k => by
    rw [filter_alarms, filter_alarms, h k]

theorem ring_congr {timers' : TimerMap} (h : alarms timers' = alarms timers) (t : ℕ) :
    ring timers' t = ring timers t := by
  unfold ring
  rw [h]

end Ring
/-! ### Polls -/

/-- Which comes first among events, a probe or the end of the session. -/
def reported (es : List ClientRuntimeEvent) : Option Alarm :=
  es.findSome? fun | .core e => sign e

theorem reported_append (es es' : List ClientRuntimeEvent) :
    reported (es ++ es') = (reported es).or (reported es') := List.findSome?_append

section Poll
variable {w : Watch} {rt : ClientRuntime} {nowMs : UInt64} {limit t : ℕ}

theorem pollTimers_ok (rt : ClientRuntime) (nowMs : UInt64)
    (hlimit : (Agenda.entries rt.timers).length ≤ limit) :
    ∃ out, rt.pollTimers nowMs limit =
        (turns nowMs rt ((Agenda.entries rt.timers).filter (Agenda.due nowMs)), .ok out) ∧
      reported out.events = (turnEvents nowMs rt
        ((Agenda.entries rt.timers).filter (Agenda.due nowMs))).findSome? sign := by
  obtain ⟨out, hall, hevents⟩ := fireAll_ok nowMs
    ((Agenda.entries rt.timers).filter (Agenda.due nowMs)) rt {}
  refine ⟨out, ?_, ?_⟩
  · rw [ClientRuntime.pollTimers, collectDue_eq_collect, Agenda.collect_all hlimit, hall]
  · rw [hevents, List.nil_append, reported, List.findSome?_map]
    rfl

/-- The poll at `t + 1` reports the alarm of the ring that goes off. -/
theorem poll_reports (h : Waits w rt.core) (ht : nowMs.toNat = t + 1)
    (hlimit : (Agenda.entries rt.timers).length ≤ limit) :
    ∃ rt' out, rt.pollTimers nowMs limit = (rt', .ok out) ∧
      reported out.events = w.off (ring rt.timers t) (t + 1) := by
  obtain ⟨out, hpoll, hreported⟩ := pollTimers_ok rt nowMs hlimit
  refine ⟨_, out, hpoll, ?_⟩
  rw [hreported, turnEvents_sign nowMs h, Watch.off, ring_next _ ht, ht]

/-- An entry that comes up again is still ahead, unless it is a probe whose next tick is not
a later instant. -/
theorem Again.ahead (h : Waits w rt.core) {e : UInt64 × TimerId} {a : Alarm}
    (he : Again w nowMs.toNat e) (ha : alarm e.2 = some a) (hle : e.1 ≤ nowMs) :
    a = .probe ∧ ¬ (0 < w.period ∧ nowMs.toNat + w.period < 2 ^ 64) := by
  obtain ⟨b, hb, hquiet, hkey⟩ := he
  obtain rfl : a = b := Option.some.inj (ha.symm.trans hb)
  rw [hkey, UInt64.le_iff_toNat_le, UInt64.toNat_ofNat'] at hle
  cases a with
  | probe =>
    rw [Watch.again_probe] at hle
    refine ⟨rfl, fun hroom => ?_⟩
    rw [Nat.mod_eq_of_lt hroom.2] at hle
    omega
  | guard =>
    have hdeadline : w.deadline < 2 ^ 64 :=
      h.watch ▸ (rt.core.disconnectDeadlineMs.getD 0).toNat_lt
    rw [Watch.again_guard, Nat.mod_eq_of_lt hdeadline] at hle
    exact absurd (by simpa [Watch.goesOff] using hle) hquiet

/-- A poll in which no alarm goes off leaves the ring that is expected, or one with probes in
front where the next tick of the probe is not a later instant. -/
theorem poll_ring (h : Waits w rt.core) (ht : nowMs.toNat = t + 1)
    (hlimit : (Agenda.entries rt.timers).length ≤ limit)
    (hoff : w.off (ring rt.timers t) (t + 1) = none) :
    Waits w (rt.pollTimers nowMs limit).1.core ∧
      ∀ k, t + 1 < k → k < 2 ^ 64 → ∃ s : List Alarm, (∀ a ∈ s, a = .probe) ∧
        (0 < w.period → t + 1 + w.period < 2 ^ 64 → s = []) ∧
        ring (rt.pollTimers nowMs limit).1.timers (t + 1) k =
          s ++ w.after (ring rt.timers t) (t + 1) k := by
  obtain ⟨out, hpoll, -⟩ := pollTimers_ok rt nowMs hlimit
  rw [hpoll]
  have hsplit : (Agenda.entries rt.timers).Perm
      ((Agenda.entries rt.timers).filter (Agenda.due nowMs) ++
        (Agenda.entries rt.timers).filter fun e => !Agenda.due nowMs e) :=
    (List.filter_append_perm _ _).symm
  rw [Watch.off, ring_next _ ht, ← ht] at hoff
  obtain ⟨hwaits, ⟨new, hperm, hnew⟩, hslots⟩ := turns_quiet nowMs h hoff hsplit
  have hdue : ∀ e : UInt64 × TimerId, Agenda.due nowMs e = true ↔ e.1 ≤ nowMs := fun e =>
    Std.isLE_compare
  generalize turns nowMs rt ((Agenda.entries rt.timers).filter (Agenda.due nowMs)) = rt' at *
  have hstale : ∀ e ∈ alarms rt'.timers, e.1.toNat ≤ t + 1 →
      e.2 = .probe ∧ ¬ (0 < w.period ∧ t + 1 + w.period < 2 ^ 64) := by
    rintro ⟨key, a⟩ he hle
    obtain ⟨id, hin, ha⟩ := Agenda.mem_picked.mp he
    rw [← ht, ← UInt64.le_iff_toNat_le] at hle
    obtain hrest | hagain := List.mem_append.mp (hperm.mem_iff.mp hin)
    · have hlate := (List.mem_filter.mp hrest).2
      rw [(hdue (key, id)).mpr hle] at hlate
      simp at hlate
    · rw [← ht]
      exact (hnew _ hagain).ahead h ha hle
  refine ⟨hwaits, fun k hk hlt => ?_⟩
  have hkey : (UInt64.ofNat k).toNat = k := by
    rw [UInt64.toNat_ofNat', Nat.mod_eq_of_lt hlt]
  have hlater : nowMs < UInt64.ofNat k := by
    rw [UInt64.lt_iff_toNat_lt, hkey]
    omega
  have hslot := hslots (.ofNat k) fun due hmem heq => by
    have hle := (hdue due).mp (List.mem_filter.mp hmem).2
    rw [heq] at hle
    exact absurd hlater (UInt64.not_lt.mpr hle)
  simp only [h.again_lt hlater, hkey] at hslot
  rw [ring_eq hk hlt, hslot, Watch.after, ring_next _ ht,
    ring_eq (Nat.lt_of_succ_lt hk) hlt, if_neg (Nat.ne_of_gt hk), List.nil_append, ← ht]
  refine ⟨_, fun a ha => ?_, fun hperiod hroom => ?_, rfl⟩
  · split_ifs at ha
    · obtain ⟨e, he, rfl⟩ := List.mem_map.mp ha
      obtain ⟨hin, hle⟩ := List.mem_filter.mp he
      exact (hstale e hin (by simpa [ht] using hle)).1
    · simp at ha
  · split_ifs
    · rw [List.map_eq_nil_iff, List.filter_eq_nil_iff]
      intro e he hle
      exact (hstale e he (by simpa [ht] using hle)).2 ⟨hperiod, by omega⟩
    · rfl

/-- A poll in which no alarm goes off leaves the race as it is. -/
theorem poll_race {e : ℕ} (h : Waits w rt.core) (ht : nowMs.toNat = t + 1)
    (hlimit : (Agenda.entries rt.timers).length ≤ limit) (hfirst : FirstGuard (ring rt.timers t) t e)
    (hend : w.ends e < 2 ^ 64) (hoff : w.off (ring rt.timers t) (t + 1) = none) :
    ∃ e', Waits w (rt.pollTimers nowMs limit).1.core ∧
      FirstGuard (ring (rt.pollTimers nowMs limit).1.timers (t + 1)) (t + 1) e' ∧
      w.ends e' = w.ends e ∧
      (w.Wins (ring rt.timers t) t e →
        w.Wins (ring (rt.pollTimers nowMs limit).1.timers (t + 1)) (t + 1) e') ∧
      (0 < w.period → w.ends e + w.period < 2 ^ 64 →
        w.Wins (ring (rt.pollTimers nowMs limit).1.timers (t + 1)) (t + 1) e' →
        w.Wins (ring rt.timers t) t e) := by
  obtain ⟨hwaits, hslots⟩ := poll_ring h ht hlimit hoff
  obtain ⟨e', hfirst', hends, hiff⟩ := wins_after hfirst hoff
  have hfront : w.Fronts (w.after (ring rt.timers t) (t + 1))
      (ring (rt.pollTimers nowMs limit).1.timers (t + 1)) (t + 1) e' := by
    intro k hk hle
    obtain ⟨s, hs, -, heq⟩ := hslots k hk (by omega)
    exact ⟨s, hs, heq⟩
  refine ⟨e', hwaits, hfirst'.fronts hfront, hends,
    fun hwins => wins_fronts hfirst' hfront (hiff.mpr hwins), fun hperiod hroom hwins => ?_⟩
  refine hiff.mp (wins_fronts (hfirst'.fronts hfront) (fun k hk hle => ⟨[], by simp, ?_⟩) hwins)
  obtain ⟨s, -, hnil, heq⟩ := hslots k hk (by omega)
  rw [heq, hnil hperiod (by omega)]
  rfl

end Poll
/-! ### Other calls -/

/-- The calls that neither hear the server nor end the session. -/
def Op.quiet : Op → Bool
  | .beginHandshake _ | .sendMessage _ | .proposeTimers _ _ | .pathChanged _ => true
  | .datagram _ _ _ | .closeSession | .pollTimers _ _ => false

def emitted : RuntimeResult → List ClientRuntimeEvent
  | .ok out => out.events
  | .error _ => []

section Quiet
variable {w : Watch} {m : CoreMachine} {rt rt' : ClientRuntime} {op : Op} {res : RuntimeResult}

theorem Waits.call (h : Waits w m) {k : Call} (hop : op.quiet) (hk : op.core = some (.call k)) :
    Waits w (m.next k) ∧ (m.tells k).findSome? sign = none ∧
      ∀ a ∈ m.schedules k, ∃ d, a = .schedule .renegotiationTimeout d := by
  cases op with
  | beginHandshake nowMs =>
    obtain rfl := Op.call.inj (Option.some.inj hk)
    exact ⟨h, by simp [CoreMachine.tells, h.role, sign], by simp [CoreMachine.schedules]⟩
  | sendMessage payload =>
    obtain rfl := Op.call.inj (Option.some.inj hk)
    refine ⟨⟨h.role, h.up, h.deadline, h.watch⟩, ?_, by simp [CoreMachine.schedules]⟩
    rw [CoreMachine.tells]
    split_ifs <;> rfl
  | proposeTimers nowMs p =>
    obtain rfl := Op.call.inj (Option.some.inj hk)
    rw [CoreMachine.next, CoreMachine.tells, CoreMachine.schedules]
    split_ifs
    · exact ⟨⟨h.role, h.up, h.deadline, h.watch⟩, rfl, by simp⟩
    · exact ⟨h, rfl, by simp⟩
  | pathChanged pathId =>
    obtain rfl := Op.call.inj (Option.some.inj hk)
    exact ⟨⟨h.role, h.up, h.deadline, h.watch⟩, rfl, by simp [CoreMachine.schedules]⟩
  | datagram | closeSession | pollTimers => simp [Op.quiet] at hop

theorem alarms_ingests {as : List TimerAction}
    (h : ∀ a ∈ as, ∃ d, a = .schedule .renegotiationTimeout d) (timers : TimerMap) :
    alarms (as.foldl ingestTimer timers) = alarms timers := by
  induction as generalizing timers with
  | nil => rfl
  | cons a as ih =>
    obtain ⟨⟨d, rfl⟩, hrest⟩ := List.forall_mem_cons.mp h
    rw [List.foldl_cons, ih hrest]
    refine alarms_congr fun k => ?_
    rw [ingestTimer_eq_pushNew, Agenda.slot_pushNew, List.filterMap_append]
    split_ifs <;> simp [alarm]

theorem drive_reported (rt : ClientRuntime) (called : CoreMachine × CallResult) :
    reported (emitted (rt.drive called).2) = called.2.output.events.findSome? sign := by
  obtain ⟨m, cres⟩ := called
  cases cres with
  | error e => rfl
  | ok out => exact List.findSome?_map

theorem step_quiet (h : Waits w rt.core) (hop : op.quiet) (hs : rt.step op = some (rt', res)) :
    Waits w rt'.core ∧ reported (emitted res) = none ∧ alarms rt'.timers = alarms rt.timers := by
  obtain ⟨k, hk⟩ : ∃ k, op.core = some (.call k) := by
    cases op with
    | datagram | closeSession | pollTimers => simp [Op.quiet] at hop
    | _ => exact ⟨_, rfl⟩
  obtain ⟨hwaits, hnone, hschedules⟩ := h.call hop hk
  rw [step_drive rt hk, Option.map_eq_some_iff] at hs
  obtain ⟨⟨m', cres⟩, hcall, hdrive⟩ := hs
  have hanswers := apply_answers rt.core hcall
  have hactions : cres.output.timerActions = rt.core.schedules k := apply_schedules hcall
  have hrt : (rt.drive (m', cres)).1 = rt' := congrArg Prod.fst hdrive
  have hres : (rt.drive (m', cres)).2 = res := congrArg Prod.snd hdrive
  refine ⟨?_, ?_, ?_⟩
  · rwa [← hrt, drive_core, hanswers.next]
  · rwa [← hres, drive_reported, hanswers.events]
  · rw [← hrt, drive_timers, hactions]
    exact alarms_ingests hschedules rt.timers

end Quiet

/-! ### Runs -/

/-- From `t` to `t'` a client hears nothing and is polled at every millisecond with room for
all its timers, and its application does not close the session; `es` is what it reports. -/
inductive Watched : ClientRuntime → UInt64 → List ClientRuntimeEvent → UInt64 → Prop
  | done (rt : ClientRuntime) (t : UInt64) : Watched rt t [] t
  | called {rt rt' : ClientRuntime} {t t' : UInt64} {op : Op} {res : RuntimeResult}
      {es : List ClientRuntimeEvent} (hop : op.quiet) (hs : rt.step op = some (rt', res))
      (hrest : Watched rt' t es t') : Watched rt t (emitted res ++ es) t'
  | polled {rt : ClientRuntime} {t t' : UInt64} {limit : Nat} {es : List ClientRuntimeEvent}
      (hlater : t < t + 1) (hlimit : (Agenda.entries rt.timers).length ≤ limit)
      (hrest : Watched (rt.pollTimers (t + 1) limit).1 (t + 1) es t') :
      Watched rt t (emitted (rt.pollTimers (t + 1) limit).2 ++ es) t'

/-- The first of the two events is the one for the alarm that wins. -/
theorem watched_reports {w : Watch} {rt : ClientRuntime} {t t' : UInt64}
    {es : List ClientRuntimeEvent} {e : ℕ} (h : Watched rt t es t') (hwaits : Waits w rt.core)
    (hfirst : FirstGuard (ring rt.timers t.toNat) t.toNat e) (hlong : w.ends e ≤ t'.toNat) :
    ∃ a, reported es = some a ∧
      (w.Wins (ring rt.timers t.toNat) t.toNat e → a = .probe) ∧
      (0 < w.period → w.ends e + w.period < 2 ^ 64 → a = .probe →
        w.Wins (ring rt.timers t.toNat) t.toNat e) := by
  induction h generalizing e with
  | done rt t =>
    have hlater := hfirst.later
    have hle : e ≤ w.ends e := Nat.le_max_left _ _
    omega
  | @called rt rt' t t' op res es hop hs hrest ih =>
    obtain ⟨hwaits', hnone, halarms⟩ := step_quiet hwaits hop hs
    have hring := ring_congr halarms t.toNat
    rw [reported_append, hnone, Option.none_or, ← hring]
    exact ih hwaits' (hring ▸ hfirst) hlong
  | @polled rt t t' limit es hlater hlimit hrest ih =>
    have ht : (t + 1).toNat = t.toNat + 1 := by
      rw [UInt64.lt_iff_toNat_lt, UInt64.toNat_add] at hlater
      rw [UInt64.toNat_add]
      simp only [UInt64.reduceToNat] at hlater ⊢
      omega
    have hbound := t'.toNat_lt
    have hle : t.toNat + 1 ≤ w.ends e := Nat.le_trans hfirst.later (Nat.le_max_left _ _)
    obtain ⟨rt', out, hpoll, hreported⟩ := poll_reports hwaits ht hlimit
    rw [reported_append]
    have hemitted : reported (emitted (rt.pollTimers (t + 1) limit).2) =
        w.off (ring rt.timers t.toNat) (t.toNat + 1) := by
      rw [hpoll]
      exact hreported
    rw [hemitted]
    cases hoff : w.off (ring rt.timers t.toNat) (t.toNat + 1) with
    | some a =>
      refine ⟨a, rfl, ?_⟩
      obtain heq | hlt := Nat.eq_or_lt_of_le hle
      · obtain ⟨b, hb, hiff⟩ := off_last hfirst heq.symm
        obtain rfl : a = b := Option.some.inj (hoff.symm.trans hb)
        exact ⟨hiff.mpr, fun _ _ => hiff.mp⟩
      · obtain ⟨rfl, hwins⟩ := off_early hfirst hlt hoff
        exact ⟨fun _ => rfl, fun _ _ _ => hwins⟩
    | none =>
      obtain ⟨e', hwaits', hfirst', hends, hkeeps, hback⟩ :=
        poll_race hwaits ht hlimit hfirst (by omega) hoff
      rw [← ht] at hfirst' hkeeps hback
      obtain ⟨a, hreports, hprobe, hwins⟩ := ih hwaits' hfirst' (by omega)
      exact ⟨a, hreports, fun h => hprobe (hkeeps h), fun hperiod hroom ha =>
        hback hperiod hroom (hwins hperiod (by omega) ha)⟩

/-- A probe is reported before the end of the session. -/
def ProbedFirst (es : List ClientRuntimeEvent) : Prop := reported es = some .probe

section Established
variable {cid : UInt64} {cfg : CoreConfig} {h : ClientHistory} {rt : ClientRuntime}

theorem Chained.waits (h : Chained rt) (hup : rt.core.state = .established) (t : ℕ) :
    Waits (watch rt.core) rt.core ∧
      FirstGuard (ring rt.timers t) t (nextGuard rt.timers t) := by
  obtain ⟨-, hguard, hsome⟩ := h.after (.inl hup)
  exact ⟨⟨h.role, .inl hup, hsome, rfl⟩, nextGuard_first hguard t⟩

/-- A client that hears nothing any more probes its server before it gives the session up if a
tick later than the miss window comes up first. While the times stay inside 64 bits, it does so
only then. -/
theorem probed_first {t t' : UInt64} {es : List ClientRuntimeEvent}
    (hrun : Run ClientRuntime.step (ClientRuntime.new cid cfg) h rt)
    (hup : rt.core.state = .established) (hwatch : Watched rt t es t')
    (hlong : givesUpAt rt t.toNat ≤ t'.toNat) :
    (TicksFirst rt t.toNat → ProbedFirst es) ∧
      (0 < rt.core.cfg.msrIntervalMs.toNat →
        givesUpAt rt t.toNat + rt.core.cfg.msrIntervalMs.toNat < 2 ^ 64 →
        ProbedFirst es → TicksFirst rt t.toNat) := by
  obtain ⟨hwaits, hfirst⟩ := (chained_of_run hrun).waits hup t.toNat
  obtain ⟨a, hreports, hprobe, hwins⟩ := watched_reports hwatch hwaits hfirst hlong
  refine ⟨fun hticks => by rw [ProbedFirst, hreports, hprobe hticks], fun hpos hroom hprobed => ?_⟩
  exact hwins hpos hroom (Option.some.inj (hreports.symm.trans hprobed))

end Established

theorem exists_watched (rt : ClientRuntime) {t t' : UInt64} (h : t ≤ t') :
    ∃ es, Watched rt t es t' := by
  rw [UInt64.le_iff_toNat_le] at h
  obtain ⟨n, hn⟩ := Nat.exists_eq_add_of_le h
  induction n generalizing rt t with
  | zero =>
    obtain rfl : t' = t := UInt64.toNat_inj.mp hn
    exact ⟨[], .done rt t'⟩
  | succ n ih =>
    have hbound := t'.toNat_lt
    have ht : (t + 1).toNat = t.toNat + 1 := add_toNat (by simp only [UInt64.reduceToNat]; omega)
    have hlater : t < t + 1 := UInt64.lt_iff_toNat_lt.mpr (by omega)
    obtain ⟨es, hes⟩ := ih (t := t + 1)
      (rt.pollTimers (t + 1) (Agenda.entries rt.timers).length).1 (by omega) (by omega)
    exact ⟨_, .polled hlater (Nat.le_refl _) hes⟩

/-- A `ServerHello` reaches a client in its handshake. -/
structure Opens (rt : ClientRuntime) (bytes : Bytes) : Prop where
  chained : Chained rt
  before : rt.core.state = .preHandshake
  hello : ∃ frame, ownFrame rt.core bytes = some frame ∧ frame.messageType = .serverHello

section Opened
variable {rt : ClientRuntime} {bytes : Bytes}

theorem Opens.watch (h : Opens rt bytes) (t : UInt64) (src : UInt32) :
    watch (rt.onDatagram t src bytes).1.core = ⟨rt.core.cfg.msrIntervalMs.toNat,
      t.toNat + rt.core.cfg.msrIntervalMs.toNat * rt.core.cfg.missWindowCount.toNat,
      (t + rt.core.cfg.disconnectWindowMs).toNat⟩ := by
  obtain ⟨frame, hown, hhello⟩ := h.hello
  have hup : (Core.onDatagram rt.core t src bytes).1.state = .established := by
    simpa [hhello] using onDatagram_handshake t src hown h.chained.role h.before
  have hcfg : (Core.onDatagram rt.core t src bytes).1.cfg = rt.core.cfg := by
    have htimers := onDatagram_timers rt.core t src bytes
    rw [hown, Option.elim_some, timersRead_other (by simp [hhello]), List.foldl_nil] at htimers
    exact congrArg Timers.cfg htimers
  rw [ClientRuntime.onDatagram, drive_core, Client.watch, hcfg,
    onDatagram_stamp t src hown h.chained.role hup, onDatagram_deadline t src hown]
  rfl

theorem Opens.timers (h : Opens rt bytes) (t : UInt64) (src : UInt32) :
    (rt.onDatagram t src bytes).1.timers =
      [.schedule .clientProbe (t + rt.core.cfg.msrIntervalMs),
        .schedule .disconnect (t + rt.core.cfg.disconnectWindowMs)].foldl ingestTimer rt.timers := by
  obtain ⟨frame, hown, hhello⟩ := h.hello
  have hopens : rt.core.opens frame.messageType := by
    simp [CoreMachine.opens, hhello, h.chained.role, h.before]
  rw [datagram_timers, CoreMachine.schedulesOn]
  simp only [hown, opening_eq, if_pos hopens, h.chained.role]
  rfl

/-- Nothing else is in the ring when the session comes up. -/
theorem Opens.mem_alarms (h : Opens rt bytes) (t : UInt64) (src : UInt32) (k : UInt64) (a : Alarm) :
    (k, a) ∈ alarms (rt.onDatagram t src bytes).1.timers ↔
      a = .probe ∧ k = t + rt.core.cfg.msrIntervalMs ∨
        a = .guard ∧ k = t + rt.core.cfg.disconnectWindowMs := by
  obtain ⟨hnoP, hnoD⟩ := h.chained.before h.before
  have hfree : ∀ id, alarm id = some a → id ∉ Agenda.slot rt.timers k := by
    intro id ha hin
    have hpos := running_of_mem hin
    cases id <;> simp [alarm] at ha <;> omega
  have hslot : ∀ id, id ∈ Agenda.slot (rt.onDatagram t src bytes).1.timers k ↔
      id ∈ Agenda.slot rt.timers k ∨ (k, id) ∈ [(t + rt.core.cfg.msrIntervalMs, .clientProbe),
        (t + rt.core.cfg.disconnectWindowMs, .disconnect)] := by
    intro id
    have hjoin := Agenda.slot_pushNews [(t + rt.core.cfg.msrIntervalMs, .clientProbe),
      (t + rt.core.cfg.disconnectWindowMs, .disconnect)] rt.timers k
    rw [h.timers t src]
    refine (congrArg (id ∈ ·) hjoin).to_iff.trans (Agenda.mem_joins.trans (or_congr_right ?_))
    simp [eq_comm]
  rw [Client.mem_alarms]
  constructor
  · rintro ⟨id, hin, ha⟩
    have hnew := ((hslot id).mp hin).resolve_left (hfree id ha)
    simp only [List.mem_cons, Prod.mk.injEq, List.not_mem_nil, or_false] at hnew
    obtain ⟨hk, rfl⟩ | ⟨hk, rfl⟩ := hnew
    · exact .inl ⟨(Option.some.inj ha).symm, hk⟩
    · exact .inr ⟨(Option.some.inj ha).symm, hk⟩
  · rintro (⟨rfl, rfl⟩ | ⟨rfl, rfl⟩)
    · exact ⟨.clientProbe, (hslot _).mpr (.inr (by simp)), rfl⟩
    · exact ⟨.disconnect, (hslot _).mpr (.inr (by simp)), rfl⟩

theorem Opens.mem_ring (h : Opens rt bytes) {t : UInt64} (src : UInt32)
    (hinterval : 0 < rt.core.cfg.msrIntervalMs.toNat)
    (hprobe : t.toNat + rt.core.cfg.msrIntervalMs.toNat < 2 ^ 64)
    (hdisconnect : t.toNat + rt.core.cfg.disconnectWindowMs.toNat < 2 ^ 64) (n : ℕ) (a : Alarm) :
    a ∈ ring (rt.onDatagram t src bytes).1.timers t.toNat n ↔
      a = .probe ∧ n = t.toNat + rt.core.cfg.msrIntervalMs.toNat ∨
        a = .guard ∧ n = max (t.toNat + rt.core.cfg.disconnectWindowMs.toNat) (t.toNat + 1) := by
  have hP := add_toNat hprobe
  have hD := add_toNat hdisconnect
  rw [Client.mem_ring]
  constructor
  · rintro ⟨⟨k, b⟩, he, hn, rfl⟩
    dsimp only at hn ⊢
    obtain ⟨hb, rfl⟩ | ⟨hb, rfl⟩ := (h.mem_alarms t src k b).mp he
    · exact .inl ⟨hb, by omega⟩
    · exact .inr ⟨hb, by omega⟩
  · rintro (⟨rfl, hn⟩ | ⟨rfl, hn⟩)
    · exact ⟨_, (h.mem_alarms t src _ _).mpr (.inl ⟨rfl, rfl⟩), by dsimp only; omega, rfl⟩
    · exact ⟨_, (h.mem_alarms t src _ _).mpr (.inr ⟨rfl, rfl⟩), by dsimp only; omega, rfl⟩

/-- In a session that has just come up the first tick after the probe window has to come before
the end of the disconnect window. -/
theorem Opens.ticksFirst_iff (h : Opens rt bytes) {t : UInt64} (src : UInt32)
    (hinterval : 0 < rt.core.cfg.msrIntervalMs.toNat)
    (hcount : 0 < rt.core.cfg.missWindowCount.toNat)
    (hprobe : t.toNat + rt.core.cfg.msrIntervalMs.toNat < 2 ^ 64)
    (hdisconnect : t.toNat + rt.core.cfg.disconnectWindowMs.toNat < 2 ^ 64) :
    TicksFirst (rt.onDatagram t src bytes).1 t.toNat ↔
      (rt.core.cfg.missWindowCount.toNat + 1) * rt.core.cfg.msrIntervalMs.toNat <
        rt.core.cfg.disconnectWindowMs.toNat := by
  have hring := h.mem_ring src hinterval hprobe hdisconnect
  have hnext : nextGuard (rt.onDatagram t src bytes).1.timers t.toNat =
      max (t.toNat + rt.core.cfg.disconnectWindowMs.toNat) (t.toNat + 1) := by
    obtain ⟨id, hin, hid⟩ :=
      Client.mem_alarms.mp ((h.mem_alarms t src _ _).mpr (.inr ⟨rfl, rfl⟩))
    obtain rfl : id = .disconnect := alarm_injective hid rfl
    have hmem := (nextGuard_first (running_of_mem hin) t.toNat).mem
    simpa using (hring _ _).mp hmem
  have hends : ∀ w : Watch, w.deadline = (t + rt.core.cfg.disconnectWindowMs).toNat →
      w.ends (max (t.toNat + rt.core.cfg.disconnectWindowMs.toNat) (t.toNat + 1)) =
        max (t.toNat + rt.core.cfg.disconnectWindowMs.toNat) (t.toNat + 1) := by
    intro w hw
    rw [Watch.ends, hw, add_toNat hdisconnect]
    omega
  have hwindow := Nat.le_mul_of_pos_left rt.core.cfg.msrIntervalMs.toNat hcount
  rw [TicksFirst, h.watch t src, hnext, Watch.Wins, hends _ rfl, Nat.succ_mul]
  constructor
  · rintro ⟨x, ⟨q, j, -, hmem, rfl⟩, hlate, hend⟩
    obtain rfl : q = t.toNat + rt.core.cfg.msrIntervalMs.toNat := by
      simpa using (hring q .probe).mp hmem
    have hj : rt.core.cfg.missWindowCount.toNat < j + 1 := by
      refine Nat.lt_of_mul_lt_mul_right (a := rt.core.cfg.msrIntervalMs.toNat) ?_
      rw [Nat.succ_mul, Nat.mul_comm]
      dsimp only at hlate
      omega
    have hticks := Nat.mul_le_mul_right rt.core.cfg.msrIntervalMs.toNat (Nat.le_of_lt_succ hj)
    dsimp only at hend
    obtain hbefore | ⟨hlast, hleads⟩ := hend
    · omega
    · have hguard := (hring _ .guard).mpr (.inr ⟨rfl, rfl⟩)
      rw [Watch.Leads, hends _ rfl] at hleads
      obtain hfirst | ⟨hfree, -⟩ := hleads
      · have hsame := (hring _ .probe).mp (List.mem_of_mem_head? hfirst)
        simp only [true_and, reduceCtorEq, false_and, or_false] at hsame
        omega
      · rw [hfree] at hguard
        simp at hguard
  · intro hlt
    have hmem := (hring _ .probe).mpr (.inl ⟨rfl, rfl⟩)
    refine ⟨_, ⟨_, rt.core.cfg.missWindowCount.toNat, by omega, hmem, rfl⟩, ?_, .inl ?_⟩
    · rw [Nat.mul_comm]
      dsimp only
      omega
    · dsimp only
      omega

end Opened

/-- A session that comes up and is silent from then on. -/
def silentFromStart : List Op :=
  [.beginHandshake 0, .datagram 0 1 ((Packet.control .serverHello).bytes 7)]

/-- With the default timers the tick at 60000 ms is in time. -/
theorem silentFromStart_probed :
    ∃ h rt es, Run ClientRuntime.step (ClientRuntime.new 7 .default) h rt ∧
      h.map Taken.input = silentFromStart ∧ Watched rt 0 es 180000 ∧ ProbedFirst es := by
  have hsome : (exec ClientRuntime.step (ClientRuntime.new 7 .default) silentFromStart).any fun x =>
      x.2.core.state = .established ∧ alarms x.2.timers = [(15000, .probe), (180000, .guard)] ∧
        watch x.2.core = ⟨15000, 45000, 180000⟩ := by
    decide +kernel
  obtain ⟨⟨h, rt⟩, hexec, hall⟩ := (Option.any_eq_true _ _).mp hsome
  obtain ⟨hup, halarms, hw⟩ := of_decide_eq_true hall
  obtain ⟨es, hes⟩ := exists_watched rt (show (0 : UInt64) ≤ 180000 by decide)
  have hnext : nextGuard rt.timers 0 = 180000 := by
    rw [nextGuard, halarms]
    decide
  have hprobe : .probe ∈ ring rt.timers 0 15000 :=
    mem_ring.mpr ⟨(15000, .probe), by simp [halarms], by decide, rfl⟩
  refine ⟨h, rt, es, Run.of_exec hexec, exec_inputs hexec, hes, ?_⟩
  refine (probed_first (Run.of_exec hexec) hup hes ?_).1 ?_
  · simp [givesUpAt, Watch.ends, hw, hnext]
  · exact ⟨60000, ⟨15000, 3, by decide, hprobe, by simp [hw]⟩, by simp [hw],
      .inl (by simp [Watch.ends, hw, hnext])⟩

/-- Timers whose disconnect window is just the probe window. -/
def tightWindow : TimerProposal := ⟨1000, 5, 5000⟩

theorem tightWindow_unprobed :
    ¬ ∀ (p : TimerProposal), (validateTimerProposal .default p).isOk →
      ∀ (cid : UInt64) (h : ClientHistory) (rt : ClientRuntime),
        Run ClientRuntime.step (ClientRuntime.new cid p.toConfig) h rt →
        rt.core.state = .established → ∀ (t t' : UInt64) (es : List ClientRuntimeEvent),
          Watched rt t es t' → .core .disconnected ∈ es → ProbedFirst es := by
  intro hclaim
  have hsome : (exec ClientRuntime.step (ClientRuntime.new 7 tightWindow.toConfig)
      silentFromStart).any fun x => x.2.core.state = .established ∧
        alarms x.2.timers = [(1000, .probe), (5000, .guard)] ∧
        watch x.2.core = ⟨1000, 5000, 5000⟩ := by
    decide +kernel
  obtain ⟨⟨h, rt⟩, hexec, hall⟩ := (Option.any_eq_true _ _).mp hsome
  obtain ⟨hup, halarms, hw⟩ := of_decide_eq_true hall
  obtain ⟨es, hes⟩ := exists_watched rt (show (0 : UInt64) ≤ 5000 by decide)
  have hnext : nextGuard rt.timers 0 = 5000 := by
    rw [nextGuard, halarms]
    decide
  obtain ⟨hwaits, hfirst⟩ := (chained_of_run (Run.of_exec hexec)).waits hup 0
  obtain ⟨a, hreports, -, hwins⟩ := watched_reports hes hwaits hfirst
    (by simp [Watch.ends, hw, hnext])
  have hguard : a = .guard := by
    cases a with
    | guard => rfl
    | probe =>
      have hlimit := (hwins (by simp [hw]) (by simp [Watch.ends, hw, hnext]) rfl).limit_lt
      simp [Watch.ends, hw, hnext] at hlimit
  subst hguard
  have hgone : .core .disconnected ∈ es := by
    obtain ⟨⟨event⟩, hin, hsign⟩ := List.exists_of_findSome?_eq_some hreports
    cases event with
    | disconnected => exact hin
    | _ => simp [sign] at hsign
  have hprobed := hclaim tightWindow (by decide) 7 h rt (Run.of_exec hexec) hup 0 5000 es hes hgone
  rw [ProbedFirst, hreports] at hprobed
  simp at hprobed

end Todero.Client
