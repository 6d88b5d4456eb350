import Todero.Silence

/-! The deadlines that a machine stores and schedules, against the time of the call: the
sums behind them, and the one deadline that is scheduled again as it stands. -/
namespace Todero.Core
open Todero.Wire Transition

section Machine
variable (m : CoreMachine)

/-- The timers an operation schedules. -/
def CoreMachine.schedulesOn : Op → List TimerAction
  | .call k => m.schedules k
  | .datagram nowMs _ bytes =>
    match ownFrame m bytes with
    | none => []
    | some frame => m.opening nowMs frame.messageType

/-- A hello of the given type opens the session. -/
def CoreMachine.opens : MessageType → Prop
  | .clientHello | .helloAck => m.role = .server ∧ m.state = .preHandshake
  | .serverHello => m.role = .client ∧ (m.state = .preHandshake ∨ m.state = .reactivating)
  | _ => False

instance (t : MessageType) : Decidable (m.opens t) := by
  unfold CoreMachine.opens
  split <;> infer_instance

/-- The lengths that `on_datagram` and `on_timer` add to the time, with an addition that
does not saturate, in the order of the code. -/
def CoreMachine.addends : Op → List UInt64
  | .datagram _ _ bytes =>
    match ownFrame m bytes with
    | none => []
    | some frame =>
      m.cfg.disconnectWindowMs ::
        if m.opens frame.messageType then
          [m.cfg.disconnectWindowMs, m.cfg.msrIntervalMs, m.cfg.disconnectWindowMs]
        else []
  | .call (.timer _ .serverMsr) =>
    if m.role = .server ∧ m.state = .established ∧ ¬ m.unanswered then
      [m.cfg.disconnectWindowMs, m.cfg.msrIntervalMs, m.cfg.disconnectWindowMs]
    else []
  | .call (.timer _ .clientProbe) =>
    if m.role = .client ∧ (m.state = .established ∨ m.state = .reactivating) then
      [m.cfg.msrIntervalMs]
    else []
  | .call _ => []

/-- The disconnect timer of an ended session, from its deadline on. -/
def CoreMachine.lingers (op : Op) : Prop :=
  ∃ nowMs, op = .call (.timer nowMs .disconnect) ∧ m.state = .lost ∧ m.pastDeadline nowMs

end Machine

section Step
variable {m m' : CoreMachine} {op : Op} {res : CallResult}

theorem step_schedules (hs : m.step op = some (m', res)) :
    res.output.timerActions = m.schedulesOn op := by
  cases op with
  | call k => exact apply_schedules hs
  | datagram nowMs src bytes =>
    have heq : onDatagram m nowMs src bytes = (m', res) := Option.some.inj hs
    have hres : res = (onDatagram m nowMs src bytes).2 := by rw [heq]
    rw [hres, CoreMachine.schedulesOn]
    cases hown : ownFrame m bytes with
    | none =>
      unfold ownFrame at hown
      cases hd : WireFrame.decode bytes with
      | error e => simp [onDatagram, hd]
      | ok frame =>
        simp only [hd] at hown
        split_ifs at hown with hf
        simp [onDatagram, hd, CoreMachine.call, onFrame_run, hf]
    | some frame => exact (onDatagram_emission hown nowMs src).1.scheduled

theorem opening_eq (m : CoreMachine) (nowMs : UInt64) (t : MessageType) :
    m.opening nowMs t =
      if m.opens t then
        [.schedule (if m.role = .server then .serverMsr else .clientProbe)
            (nowMs + m.cfg.msrIntervalMs),
          .schedule .disconnect (nowMs + m.cfg.disconnectWindowMs)]
      else [] := by
  by_cases h : m.opens t
  · rw [if_pos h]
    cases t with
    | clientHello | helloAck =>
      have hserver : m.role = .server ∧ m.state = .preHandshake := h
      rw [CoreMachine.opening, if_pos hserver, if_pos hserver.1]
    | serverHello =>
      have hclient : m.role = .client ∧ (m.state = .preHandshake ∨ m.state = .reactivating) := h
      rw [CoreMachine.opening, if_pos hclient, if_neg (by simp [hclient.1])]
    | msr | requestRange | data | fragment | close | error => exact h.elim
  · rw [if_neg h]
    cases t with
    | clientHello | helloAck | serverHello => exact if_neg h
    | msr | requestRange | data | fragment | close | error => rfl

/-- A deadline that is scheduled is one of the sums, the expiry of a proposal, or the
stored deadline of a disconnect timer that does not end the session. -/
inductive Scheduled (m : CoreMachine) (op : Op) (deadline : UInt64) : Prop
  | sum {nowMs len : UInt64} : op.nowMs = some nowMs → len ∈ m.addends op →
      deadline = nowMs + len → Scheduled m op deadline
  | expiry {nowMs : UInt64} : op.nowMs = some nowMs →
      deadline = saturatingAdd nowMs (saturatingMul m.cfg.msrIntervalMs 2) →
      Scheduled m op deadline
  | stored {nowMs : UInt64} : op = .call (.timer nowMs .disconnect) →
      m.disconnectDeadlineMs = some deadline → (deadline ≤ nowMs → m.state = .lost) →
      Scheduled m op deadline

theorem scheduled_cases {id : TimerId} {deadline : UInt64}
    (h : .schedule id deadline ∈ m.schedulesOn op) : Scheduled m op deadline := by
  cases op with
  | datagram nowMs src bytes =>
    simp only [CoreMachine.schedulesOn] at h
    cases hown : ownFrame m bytes with
    | none => simp [hown] at h
    | some frame =>
      simp only [hown, opening_eq] at h
      by_cases hopens : m.opens frame.messageType
      · rw [if_pos hopens] at h
        simp only [List.mem_cons, TimerAction.schedule.injEq, List.not_mem_nil, or_false] at h
        obtain ⟨-, rfl⟩ | ⟨-, rfl⟩ := h
        · exact .sum rfl (by simp [CoreMachine.addends, hown, hopens]) rfl
        · exact .sum rfl (by simp [CoreMachine.addends, hown]) rfl
      · simp [hopens] at h
  | call k =>
    simp only [CoreMachine.schedulesOn] at h
    cases k with
    | timer nowMs t =>
      cases t with
      | serverMsr =>
        simp only [CoreMachine.schedules] at h
        split_ifs at h with hticks
        · simp only [List.mem_cons, TimerAction.schedule.injEq, List.not_mem_nil, or_false] at h
          obtain ⟨-, rfl⟩ | ⟨-, rfl⟩ := h
          · exact .sum rfl (by simp [CoreMachine.addends, hticks]) rfl
          · exact .sum rfl (by simp [CoreMachine.addends, hticks]) rfl
        · simp at h
      | clientProbe =>
        simp only [CoreMachine.schedules] at h
        split_ifs at h with hprobes
        · simp only [List.mem_singleton, TimerAction.schedule.injEq] at h
          exact .sum rfl (by simp [CoreMachine.addends, hprobes]) h.2
        · simp at h
      | disconnect =>
        simp only [CoreMachine.schedules] at h
        cases hset : m.disconnectDeadlineMs with
        | none => simp [hset] at h
        | some d =>
          simp only [hset] at h
          split_ifs at h with hends
          · simp at h
          · simp only [List.mem_singleton, TimerAction.schedule.injEq] at h
            obtain ⟨-, rfl⟩ := h
            exact .stored rfl hset fun hle => not_not.mp fun hup => hends ⟨hle, hup⟩
      | renegotiationTimeout => simp [CoreMachine.schedules] at h
    | proposeTimers nowMs p =>
      simp only [CoreMachine.schedules] at h
      split_ifs at h
      · simp only [List.mem_singleton, TimerAction.schedule.injEq] at h
        exact .expiry rfl h.2
      · simp at h
    | beginHandshake | send | close | pathChanged => simp [CoreMachine.schedules] at h

end Step

/-! ### Timers ahead of the time -/

/-- Every timer that the call schedules is due after it. -/
def ScheduledAhead (t : Taken CoreMachine Op CallResult) : Prop :=
  ∀ nowMs ∈ t.input.nowMs, ∀ id deadline,
    .schedule id deadline ∈ t.output.output.timerActions → nowMs < deadline

theorem lt_add {nowMs len : UInt64} (hpos : 0 < len)
    (hroom : nowMs.toNat + len.toNat < 2 ^ 64) : nowMs < nowMs + len := by
  have hlen : 0 < len.toNat := UInt64.lt_iff_toNat_lt.mp hpos
  rw [UInt64.lt_iff_toNat_lt, add_toNat hroom]
  omega

theorem le_saturatingAdd (a b : UInt64) : a ≤ saturatingAdd a b := by
  have ha := a.toNat_lt
  rw [UInt64.le_iff_toNat_le, saturatingAdd_toNat, u64Max]
  omega

theorem lt_saturatingAdd {a b : UInt64} (hpos : 0 < b.toNat) (hroom : a.toNat + 1 < 2 ^ 64) :
    a < saturatingAdd a b := by
  rw [UInt64.lt_iff_toNat_lt, saturatingAdd_toNat, u64Max]
  omega

theorem addends_cfg {m : CoreMachine} {op : Op} {len : UInt64} (h : len ∈ m.addends op) :
    len = m.cfg.msrIntervalMs ∨ len = m.cfg.disconnectWindowMs := by
  unfold CoreMachine.addends at h
  split at h
  · split at h
    · simp at h
    · split_ifs at h
      · simp only [List.mem_cons, List.not_mem_nil, or_false] at h
        tauto
      · exact .inr (List.mem_singleton.mp h)
  · split_ifs at h
    · simp only [List.mem_cons, List.not_mem_nil, or_false] at h
      tauto
    · simp at h
  · split_ifs at h
    · exact .inl (List.mem_singleton.mp h)
    · simp at h
  · simp at h

/-- The disconnect timer of an ended session comes back with the deadline that is stored. -/
theorem schedules_ended {m : CoreMachine} {nowMs deadline : UInt64} (hlost : m.state = .lost)
    (hset : m.disconnectDeadlineMs = some deadline) :
    m.schedulesOn (.call (.timer nowMs .disconnect)) = [.schedule .disconnect deadline] := by
  simp [CoreMachine.schedulesOn, CoreMachine.schedules, hset, hlost]

theorem scheduledAhead_iff {t : Taken CoreMachine Op CallResult}
    (hs : t.pre.step t.input = some (t.post, t.output))
    (hinterval : 0 < t.pre.cfg.msrIntervalMs) (hwindow : 0 < t.pre.cfg.disconnectWindowMs)
    (hroom : ∀ nowMs ∈ t.input.nowMs, nowMs.toNat + t.pre.cfg.msrIntervalMs.toNat < 2 ^ 64 ∧
      nowMs.toNat + t.pre.cfg.disconnectWindowMs.toNat < 2 ^ 64) :
    ScheduledAhead t ↔ ¬ t.pre.lingers t.input := by
  rw [ScheduledAhead, step_schedules hs]
  constructor
  · rintro hahead ⟨nowMs, hin, hlost, hpast⟩
    obtain ⟨deadline, hset, hle⟩ := (Option.any_eq_true _ _).mp hpast
    rw [hin, schedules_ended hlost hset] at hahead
    have hlt := hahead nowMs rfl .disconnect deadline (List.mem_singleton_self _)
    exact absurd hlt (UInt64.not_lt.mpr (of_decide_eq_true hle))
  · intro hlives nowMs hnow id deadline hmem
    have hpos : 0 < t.pre.cfg.msrIntervalMs.toNat := UInt64.lt_iff_toNat_lt.mp hinterval
    cases scheduled_cases hmem with
    | sum hnow' hlen hsum =>
      rw [hnow, Option.some.injEq] at hnow'
      subst hnow' hsum
      obtain rfl | rfl := addends_cfg hlen
      · exact lt_add hinterval (hroom nowMs hnow).1
      · exact lt_add hwindow (hroom nowMs hnow).2
    | expiry hnow' hexpiry =>
      rw [hnow, Option.some.injEq] at hnow'
      subst hnow' hexpiry
      have hroom' := (hroom nowMs hnow).1
      refine lt_saturatingAdd ?_ (by omega)
      have htwo : (2 : UInt64).toNat = 2 := rfl
      rw [saturatingMul_toNat, htwo, u64Max]
      omega
    | stored hin hset hended =>
      rw [hin] at hnow
      cases Option.some.inj hnow
      by_contra hnot
      have hle := UInt64.not_lt.mp hnot
      exact hlives ⟨_, hin, hended hle, by simpa [CoreMachine.pastDeadline, hset] using hle⟩

/-- Over a run with positive lengths and room for them, every timer is scheduled ahead of the
time exactly if no disconnect timer comes to an ended session after its deadline. -/
theorem scheduled_ahead_iff {role : Role} {cid : UInt64} {cfg : CoreConfig} {h : History}
    {m : CoreMachine} (hrun : Run CoreMachine.step (CoreMachine.new role cid cfg) h m)
    (hinterval : 0 < cfg.msrIntervalMs) (hwindow : 0 < cfg.disconnectWindowMs)
    (hroom : RoomFor CoreConfig.msrIntervalMs h)
    (hroom' : RoomFor CoreConfig.disconnectWindowMs h) :
    (∀ t ∈ h, ScheduledAhead t) ↔ ∀ t ∈ h, ¬ t.pre.lingers t.input := by
  have hall : ∀ t ∈ h, (ScheduledAhead t ↔ ¬ t.pre.lingers t.input) := by
    intro t ht
    obtain ⟨h₀, h₁, -, hpre, hs⟩ := hrun.before ht
    have hpos : 0 < t.pre.cfg.msrIntervalMs ∧ 0 < t.pre.cfg.disconnectWindowMs := by
      obtain hsame | hbounded := (timers_in_bounds hpre).1
      · rw [hsame]
        exact ⟨hinterval, hwindow⟩
      · have hlong := hbounded.interval.1
        have hlong' := hbounded.disconnect.1
        simp only [UInt64.lt_iff_toNat_lt, UInt64.toNat_zero]
        omega
    exact scheduledAhead_iff hs hpos.1 hpos.2 fun nowMs hnow =>
      ⟨hroom t ht nowMs hnow, hroom' t ht nowMs hnow⟩
  constructor
  · intro hahead t ht
    exact (hall t ht).mp (hahead t ht)
  · intro hlives t ht
    exact (hall t ht).mpr (hlives t ht)

theorem silentWindow_ahead :
    ∃ h m, exec CoreMachine.step (CoreMachine.new .client 7 .default) silentWindow = some (h, m) ∧
      ((∀ t ∈ h, ScheduledAhead t) ↔ ∀ t ∈ h, ¬ t.pre.lingers t.input) := by
  have hsome : (exec CoreMachine.step (CoreMachine.new .client 7 .default) silentWindow).any
      (fun x => RoomFor CoreConfig.msrIntervalMs x.1 ∧
        RoomFor CoreConfig.disconnectWindowMs x.1) = true := by
    decide +kernel
  obtain ⟨⟨h, m⟩, hexec, hx⟩ := (Option.any_eq_true _ _).mp hsome
  obtain ⟨hroom, hroom'⟩ := of_decide_eq_true hx
  exact ⟨h, m, hexec, scheduled_ahead_iff (Run.of_exec hexec) (by decide) (by decide) hroom hroom'⟩

/-- A session is closed, and its disconnect timer fires when it is due. -/
def closedWindow : List Op :=
  [.datagram 0 0 ((Packet.control .serverHello).bytes 7), .call .close,
    .call (.timer 180000 .disconnect)]

theorem closedWindow_due_again :
    ¬ ∀ (role : Role) (cid : UInt64) (cfg : CoreConfig) (h : History) (m : CoreMachine),
      Run CoreMachine.step (CoreMachine.new role cid cfg) h m →
        0 < cfg.msrIntervalMs → 0 < cfg.disconnectWindowMs → Ordered h →
          RoomFor CoreConfig.msrIntervalMs h → RoomFor CoreConfig.disconnectWindowMs h →
            ∀ t ∈ h, ScheduledAhead t := by
  intro hclaim
  have hsome : (exec CoreMachine.step (CoreMachine.new .client 7 .default) closedWindow).any
      (fun x => Ordered x.1 ∧ RoomFor CoreConfig.msrIntervalMs x.1 ∧
        RoomFor CoreConfig.disconnectWindowMs x.1 ∧
        ∃ t ∈ x.1, t.input.nowMs = some 180000 ∧
          .schedule .disconnect 180000 ∈ t.output.output.timerActions) = true := by
    decide +kernel
  obtain ⟨⟨h, m⟩, hexec, hx⟩ := (Option.any_eq_true _ _).mp hsome
  obtain ⟨ho, hroom, hroom', t, ht, hnow, hagain⟩ := of_decide_eq_true hx
  have hahead := hclaim .client 7 .default h m (Run.of_exec hexec) (by decide) (by decide) ho hroom
    hroom' t ht
  exact absurd (hahead 180000 hnow .disconnect 180000 hagain) (by decide)

/-! ### The sums -/

/-- The operation adds the interval to the time: a hello that opens the session, a tick of
the server, or a probe timer of the client that goes on. -/
def CoreMachine.paces (m : CoreMachine) : Op → Prop
  | .datagram _ _ bytes => ∃ frame, ownFrame m bytes = some frame ∧ m.opens frame.messageType
  | .call (.timer _ .serverMsr) => m.role = .server ∧ m.state = .established ∧ ¬ m.unanswered
  | .call (.timer _ .clientProbe) =>
    m.role = .client ∧ (m.state = .established ∨ m.state = .reactivating)
  | .call _ => False

/-- No addition of the call leaves 64 bits, and no deadline that it schedules or stores is
before its time. -/
structure ExactDeadlines (t : Taken CoreMachine Op CallResult) : Prop where
  sums : ∀ nowMs ∈ t.input.nowMs, ∀ len ∈ t.pre.addends t.input,
    nowMs.toNat + len.toNat < 2 ^ 64
  scheduled : ∀ nowMs ∈ t.input.nowMs, ∀ id deadline,
    .schedule id deadline ∈ t.output.output.timerActions → nowMs ≤ deadline
  stored : renews t → ∀ nowMs ∈ t.input.nowMs, ∀ deadline ∈ t.post.disconnectDeadlineMs,
    nowMs ≤ deadline

/-- There is room for the lengths that the call adds, and no disconnect timer comes to an
ended session after its deadline. -/
structure HasRoom (t : Taken CoreMachine Op CallResult) : Prop where
  window : renews t → ∀ nowMs ∈ t.input.nowMs,
    nowMs.toNat + t.pre.cfg.disconnectWindowMs.toNat < 2 ^ 64
  interval : t.pre.paces t.input → ∀ nowMs ∈ t.input.nowMs,
    nowMs.toNat + t.pre.cfg.msrIntervalMs.toNat < 2 ^ 64
  ended : ∀ nowMs, t.input = .call (.timer nowMs .disconnect) → t.pre.state = .lost →
    ∀ deadline ∈ t.pre.disconnectDeadlineMs, nowMs ≤ deadline

section Sums
variable {t : Taken CoreMachine Op CallResult}

theorem mem_addends_iff {len : UInt64} : len ∈ t.pre.addends t.input ↔
    renews t ∧ len = t.pre.cfg.disconnectWindowMs ∨
      t.pre.paces t.input ∧ len = t.pre.cfg.msrIntervalMs := by
  obtain ⟨m, op, res, m'⟩ := t
  cases op with
  | datagram nowMs src bytes =>
    cases hown : ownFrame m bytes with
    | none => simp [CoreMachine.addends, CoreMachine.paces, renews, heardAt, CoreMachine.ticks, hown]
    | some frame =>
      by_cases hopens : m.opens frame.messageType
      · simp [CoreMachine.addends, CoreMachine.paces, renews, heardAt, hown, hopens]
        tauto
      · simp [CoreMachine.addends, CoreMachine.paces, renews, heardAt, hown, hopens]
  | call k =>
    cases k with
    | timer nowMs id =>
      cases id with
      | serverMsr =>
        by_cases hticks : m.role = .server ∧ m.state = .established ∧ ¬ m.unanswered
        · simp [CoreMachine.addends, CoreMachine.paces, renews, heardAt, CoreMachine.ticks, hticks]
          tauto
        · simp [CoreMachine.addends, CoreMachine.paces, renews, heardAt, CoreMachine.ticks, hticks]
      | clientProbe =>
        by_cases hprobes : m.role = .client ∧
            (m.state = .established ∨ m.state = .reactivating) <;>
          simp [CoreMachine.addends, CoreMachine.paces, renews, heardAt, CoreMachine.ticks,
            hprobes]
      | disconnect | renegotiationTimeout =>
        simp [CoreMachine.addends, CoreMachine.paces, renews, heardAt, CoreMachine.ticks]
    | beginHandshake | send | close | proposeTimers | pathChanged =>
      simp [CoreMachine.addends, CoreMachine.paces, renews, heardAt, CoreMachine.ticks]

/-- A step that sets the deadline adds the window to its time. -/
theorem renews_deadline (hs : t.pre.step t.input = some (t.post, t.output)) (ht : renews t)
    {nowMs : UInt64} (hnow : t.input.nowMs = some nowMs) :
    t.post.disconnectDeadlineMs = some (nowMs + t.pre.cfg.disconnectWindowMs) := by
  obtain ⟨m, op, res, m'⟩ := t
  cases op with
  | datagram now src bytes =>
    obtain rfl := Option.some.inj hnow
    have heq : onDatagram m now src bytes = (m', res) := Option.some.inj hs
    cases hown : ownFrame m bytes with
    | none => simp [renews, heardAt, CoreMachine.ticks, hown] at ht
    | some frame =>
      have hdeadline := onDatagram_deadline now src hown
      rw [heq] at hdeadline
      exact hdeadline
  | call k =>
    have hnext := (apply_answers m hs).next
    have hticks : (m.ticks (.call k)).isSome := ht.resolve_left (by simp [heardAt])
    obtain ⟨now, htick⟩ := Option.isSome_iff_exists.mp hticks
    obtain ⟨rfl, -⟩ := ticks_call htick
    obtain rfl : now = nowMs := Option.some.inj hnow
    have hdeadline := next_deadline m (.timer now .serverMsr)
    rw [← hnext, htick] at hdeadline
    exact hdeadline

theorem le_add {nowMs len : UInt64} (hroom : nowMs.toNat + len.toNat < 2 ^ 64) :
    nowMs ≤ nowMs + len := by
  rw [UInt64.le_iff_toNat_le, add_toNat hroom]
  omega

theorem exactDeadlines_iff (hs : t.pre.step t.input = some (t.post, t.output)) :
    ExactDeadlines t ↔ HasRoom t := by
  constructor
  · intro hexact
    refine ⟨fun ht nowMs hnow => ?_, fun hpaces nowMs hnow => ?_, ?_⟩
    · exact hexact.sums nowMs hnow _ (mem_addends_iff.mpr (.inl ⟨ht, rfl⟩))
    · exact hexact.sums nowMs hnow _ (mem_addends_iff.mpr (.inr ⟨hpaces, rfl⟩))
    · intro nowMs hin hlost deadline hset
      refine hexact.scheduled nowMs (by rw [hin]; rfl) .disconnect deadline ?_
      rw [step_schedules hs, hin, schedules_ended hlost hset]
      exact List.mem_singleton_self _
  · intro hroom
    have hsums : ∀ nowMs ∈ t.input.nowMs, ∀ len ∈ t.pre.addends t.input,
        nowMs.toNat + len.toNat < 2 ^ 64 := by
      intro nowMs hnow len hlen
      obtain ⟨ht, rfl⟩ | ⟨hpaces, rfl⟩ := mem_addends_iff.mp hlen
      · exact hroom.window ht nowMs hnow
      · exact hroom.interval hpaces nowMs hnow
    refine ⟨hsums, fun nowMs hnow id deadline hmem => ?_, fun ht nowMs hnow deadline hset => ?_⟩
    · rw [step_schedules hs] at hmem
      cases scheduled_cases hmem with
      | sum hnow' hlen hsum =>
        rw [hnow, Option.some.injEq] at hnow'
        subst hnow' hsum
        exact le_add (hsums nowMs hnow _ hlen)
      | expiry hnow' hexpiry =>
        rw [hnow, Option.some.injEq] at hnow'
        subst hnow' hexpiry
        exact le_saturatingAdd _ _
      | stored hin hset hended =>
        have hlives := hroom.ended _ hin
        rw [hin] at hnow
        cases Option.some.inj hnow
        by_contra hlate
        exact hlate (hlives (hended (UInt64.le_of_lt (UInt64.not_le.mp hlate))) deadline hset)
    · rw [renews_deadline hs ht hnow] at hset
      obtain rfl := Option.some.inj hset
      exact le_add (hroom.window ht nowMs hnow)

end Sums

/-- Over every run, whatever lengths the machine was built with, the sums are exact and the
deadlines not in the past exactly if there is room for the lengths. -/
theorem exact_deadlines_iff {role : Role} {cid : UInt64} {cfg : CoreConfig} {h : History}
    {m : CoreMachine} (hrun : Run CoreMachine.step (CoreMachine.new role cid cfg) h m) :
    (∀ t ∈ h, ExactDeadlines t) ↔ ∀ t ∈ h, HasRoom t := by
  have hall : ∀ t ∈ h, (ExactDeadlines t ↔ HasRoom t) := by
    intro t ht
    obtain ⟨h₀, h₁, -, -, hs⟩ := hrun.before ht
    exact exactDeadlines_iff hs
  constructor
  · intro hexact t ht
    exact (hall t ht).mp (hexact t ht)
  · intro hroom t ht
    exact (hall t ht).mpr (hroom t ht)

theorem silentWindow_exact :
    ∃ h m, exec CoreMachine.step (CoreMachine.new .client 7 .default) silentWindow = some (h, m) ∧
      ((∀ t ∈ h, ExactDeadlines t) ↔ ∀ t ∈ h, HasRoom t) := by
  have hsome : (exec CoreMachine.step (CoreMachine.new .client 7 .default) silentWindow).isSome := by
    decide +kernel
  obtain ⟨⟨h, m⟩, hexec⟩ := Option.isSome_iff_exists.mp hsome
  exact ⟨h, m, hexec, exact_deadlines_iff (Run.of_exec hexec)⟩

/-- Timers that never end a session for its silence. -/
def endlessWindow : CoreConfig := ⟨15000, 3, 0xFFFFFFFFFFFFFFFF⟩

/-- The deadline of a server that is greeted at 1 wraps around to 0. -/
theorem endlessWindow_wraps :
    ¬ ∀ (role : Role) (cid : UInt64) (cfg : CoreConfig) (h : History) (m : CoreMachine),
      Run CoreMachine.step (CoreMachine.new role cid cfg) h m → ∀ t ∈ h, ExactDeadlines t := by
  intro hclaim
  have hsome : (exec CoreMachine.step (CoreMachine.new .server 7 endlessWindow)
      [.datagram 1 0 ((Packet.control .clientHello).bytes 7)]).any (fun x =>
        ∃ t ∈ x.1, t.input.nowMs = some 1 ∧
          .schedule .disconnect 0 ∈ t.output.output.timerActions) = true := by
    decide +kernel
  obtain ⟨⟨h, m⟩, hexec, hx⟩ := (Option.any_eq_true _ _).mp hsome
  obtain ⟨t, ht, hnow, hwrapped⟩ := of_decide_eq_true hx
  have hexact := hclaim .server 7 endlessWindow h m (Run.of_exec hexec) t ht
  exact absurd (hexact.scheduled 1 hnow .disconnect 0 hwrapped) (by decide)

end Todero.Core
