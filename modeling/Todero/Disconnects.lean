import Todero.Polling
import Todero.Reaping

/-! What `metrics.disconnected` counts, over all runs. A session that ends is counted where
its core announces it, and again where it is removed. -/
namespace Todero.Server
open Todero.Wire Todero.Core Todero.Store Transition

/-! ### The counter -/

theorem bump_toNat (n : UInt64) : (bump n).toNat = min (n.toNat + 1) u64Max :=
  saturatingAdd_toNat n 1

theorem observed_disconnected (events : List Event) (m : ServerRuntimeMetrics) :
    (events.foldl observeCoreEvent m).disconnected.toNat =
      min (m.disconnected.toNat + events.count .disconnected) u64Max := by
  induction events generalizing m with
  | nil =>
    have h := m.disconnected.toNat_lt
    simp only [List.foldl_nil, List.count_nil, u64Max]
    omega
  | cons e events ih =>
    rw [List.foldl_cons, ih]
    cases e with
    | disconnected =>
      simp only [observeCoreEvent, bump_toNat, List.count_cons_self]
      omega
    | _ => simp [observeCoreEvent]

section Calls
variable {σ : Type}

theorem observeDatagram_disconnected (cid : UInt64) (rt : ServerRuntime σ) (d : OutboundDatagram) :
    (rt.observeDatagram cid d).metrics.disconnected = rt.metrics.disconnected := by
  unfold ServerRuntime.observeDatagram
  split
  · rfl
  · split
    · rfl
    · dsimp only
      split_ifs
      · split
        · rfl
        · split_ifs <;> rfl
      · rfl
    · rfl

theorem observeDatagrams_disconnected (cid : UInt64) (ds : List OutboundDatagram)
    (rt : ServerRuntime σ) :
    (rt.observeDatagrams cid ds).metrics.disconnected = rt.metrics.disconnected := by
  induction ds generalizing rt with
  | nil => rfl
  | cons d ds ih => exact (ih _).trans (observeDatagram_disconnected cid rt d)

variable [SessionStore σ]

theorem ensureSessionLoaded_disconnected (rt : ServerRuntime σ) (cid : UInt64) (src : UInt32)
    (nowMs : UInt64) :
    (rt.ensureSessionLoaded cid src nowMs).1.metrics.disconnected = rt.metrics.disconnected := by
  unfold ServerRuntime.ensureSessionLoaded
  split_ifs
  · rfl
  · dsimp only
    split
    · rfl
    · unfold ServerRuntime.updatePeakSessionsMetric
      split_ifs <;> rfl

theorem persist_disconnected {rt : ServerRuntime σ} {cid : UInt64} {s : SessionRuntime}
    (hs : rt.sessions[cid]? = some s) (nowMs : UInt64) (hok : (rt.persist cid nowMs).2.isOk) :
    (rt.persist cid nowMs).1.metrics.disconnected =
      if s.core.state = .lost then bump rt.metrics.disconnected else rt.metrics.disconnected := by
  unfold ServerRuntime.persist at hok ⊢
  simp only [hs] at hok ⊢
  split_ifs with hlost
  · simp only [hlost, if_true] at hok
    cases hdel : (SessionStore.delete rt.store cid).2 with
    | error e => simp [hdel, Except.isOk, Except.toBool] at hok
    | ok u => rfl
  · split <;> rfl

variable [Base64]

/-- A call of a core advances the counter by the announcements of the core, and once more
when it takes the session with it. -/
theorem drive_disconnected (rt : ServerRuntime σ) (cid : UInt64) (s : SessionRuntime)
    (src : UInt32) (nowMs : UInt64) (called : CoreMachine × CallResult)
    (hok : ∀ e, (rt.drive cid s src nowMs called).2 ≠ .error (.store e)) :
    (rt.drive cid s src nowMs called).1.metrics.disconnected.toNat =
      min (rt.metrics.disconnected.toNat + called.2.output.disconnects +
        if called.2.isOk ∧ called.1.state = .lost then 1 else 0) u64Max := by
  obtain ⟨core, res⟩ := called
  cases res with
  | error e =>
    have h := rt.metrics.disconnected.toNat_lt
    have hnone : ¬ ((Except.error e : CallResult).isOk ∧ core.state = .lost) := by
      simp [Except.isOk, Except.toBool]
    rw [if_neg hnone]
    simp only [ServerRuntime.drive, CallResult.output, CoreOutput.disconnects, List.count_nil, u64Max]
    omega
  | ok out =>
    -- the runtime once the events have been observed and the timers taken in
    let rt₁ := ({ rt with
      sessions := rt.sessions.insert cid { s with core := core }
      metrics := out.events.foldl observeCoreEvent rt.metrics } : ServerRuntime σ).ingestTimers cid
        out.timerActions
    let datagrams := out.outboundDatagrams.map (ServerRuntime.redirect src)
    have hobs := observeDatagrams_observed cid datagrams rt₁
    obtain ⟨ids, hs⟩ : ∃ ids, (rt₁.observeDatagrams cid datagrams).sessions[cid]? =
        some { s with core := core, sentDataIds := ids } :=
      hobs.session { s with core := core } (by simp [rt₁, ServerRuntime.ingestTimers])
    have hpersist : ((rt₁.observeDatagrams cid datagrams).persist cid nowMs).2.isOk := by
      cases hres : ((rt₁.observeDatagrams cid datagrams).persist cid nowMs).2 with
      | ok u => rfl
      | error e =>
        refine absurd ?_ (hok e)
        simp only [rt₁, datagrams] at hres
        simp only [ServerRuntime.drive, ServerRuntime.applyCoreOutput, hres]
    have hcount := persist_disconnected hs nowMs hpersist
    rw [observeDatagrams_disconnected] at hcount
    have hseen : rt₁.metrics.disconnected.toNat =
        min (rt.metrics.disconnected.toNat + out.disconnects) u64Max :=
      observed_disconnected out.events rt.metrics
    change ((rt₁.observeDatagrams cid datagrams).persist cid nowMs).1.metrics.disconnected.toNat = _
    rw [hcount]
    by_cases hlost : core.state = .lost
    · rw [if_pos hlost, bump_toNat, hseen, if_pos ⟨rfl, hlost⟩, CallResult.output]
      omega
    · rw [if_neg hlost, hseen, if_neg fun h => hlost h.2, CallResult.output, Nat.add_zero]

end Calls

/-! ### Endings -/

/-- A timer that ends the session when it fires: the peer has been silent for too long. -/
def expires (m : CoreMachine) (nowMs : UInt64) : TimerId → Prop
  | .serverMsr => m.role = .server ∧ m.state = .established ∧ m.unanswered
  | .disconnect => m.pastDeadline nowMs
  | .clientProbe | .renegotiationTimeout => False

theorem onTimer_lost {m : CoreMachine} (hlive : m.state ≠ .lost) (nowMs : UInt64) (id : TimerId) :
    (onTimer m nowMs id).1.state = .lost ↔ expires m nowMs id := by
  rw [onTimer_next]
  cases id with
  | serverMsr =>
    by_cases h : m.role = .server ∧ m.state = .established
    · by_cases hu : m.unanswered <;>
        simp [CoreMachine.next, CoreMachine.onServerMsrTimer, expires, h, hu]
    · have hnone : ¬ (m.role = .server ∧ m.state = .established ∧ m.unanswered) := by tauto
      simp only [CoreMachine.next, if_neg h, expires, hnone, iff_false]
      exact hlive
  | clientProbe =>
    simp only [CoreMachine.next, expires, iff_false]
    split_ifs <;> simp [hlive]
  | disconnect => by_cases h : m.pastDeadline nowMs <;> simp [CoreMachine.next, expires, h, hlive]
  | renegotiationTimeout =>
    simp only [CoreMachine.next, expires, iff_false]
    split_ifs <;> exact hlive

/-- A call that leaves the core lost announces it once. -/
def AnnouncedOnce (called : CoreMachine × CallResult) : Prop :=
  called.2.output.disconnects = if called.1.state = .lost then 1 else 0

theorem AnnouncedOnce.isOk {called : CoreMachine × CallResult} (h : AnnouncedOnce called)
    (hlost : called.1.state = .lost) : called.2.isOk :=
  isOk_of_disconnects (by rw [h, if_pos hlost]; exact Nat.one_ne_zero)

theorem apply_announced {m m' : CoreMachine} (hlive : m.state ≠ .lost) {k : Call}
    {res : CallResult} (h : m.apply k = some (m', res)) : AnnouncedOnce (m', res) := by
  have hans := apply_answers m h
  rw [AnnouncedOnce, CoreOutput.disconnects, hans.events, tells_disconnects, hans.next]
  simp [hlive]

theorem onDatagram_announced {m : CoreMachine} (hlive : m.state ≠ .lost) (nowMs : UInt64)
    (src : UInt32) (bytes : Bytes) : AnnouncedOnce (Core.onDatagram m nowMs src bytes) := by
  obtain ⟨-, -, -, hlost, hdis⟩ := onDatagram_effect m nowMs src bytes
  rw [AnnouncedOnce, hdis]
  by_cases hc : closes m bytes <;> simp [hlost, hlive, hc]

/-! ### Removals -/

section Removals
variable {σ : Type}

def ServerRuntime.NoneLost (rt : ServerRuntime σ) : Prop :=
  ∀ (cid : UInt64) (s : SessionRuntime), rt.sessions[cid]? = some s → s.core.state ≠ .lost

/-- Whether the session of `cid` goes from `rt` to `rt'`. -/
def dropped (cid : UInt64) (rt rt' : ServerRuntime σ) : Nat :=
  if (rt.sessions[cid]?).isSome ∧ rt'.sessions[cid]? = none then 1 else 0

theorem dropped_eq {cid : UInt64} {rt rt' : ServerRuntime σ} {s : SessionRuntime}
    (hs : rt.sessions[cid]? = some s) :
    dropped cid rt rt' = if rt'.sessions[cid]? = none then 1 else 0 := by
  simp only [dropped, hs, Option.isSome_some, true_and]

theorem dropped_of_absent {cid : UInt64} {rt rt' : ServerRuntime σ}
    (hs : rt.sessions[cid]? = none) : dropped cid rt rt' = 0 := by
  rw [dropped, if_neg (by simp only [hs, Option.isSome_none, Bool.false_eq_true, false_and,
    not_false_eq_true])]

variable [SessionStore σ] [Base64] {rt rt' : ServerRuntime σ} {cid : UInt64} {s : SessionRuntime}
  {src : UInt32} {nowMs : UInt64} {called : CoreMachine × CallResult} {res : RuntimeResult}

theorem Driven.noneLost (hd : Driven rt cid s src nowMs called rt' res)
    (hcalled : AnnouncedOnce called)
    (hothers : ∀ (other : UInt64) (s : SessionRuntime), other ≠ cid →
      rt.sessions[other]? = some s → s.core.state ≠ .lost) : rt'.NoneLost := by
  intro other s' hs' hlost
  by_cases hne : other = cid
  · subst hne
    rw [hd.core hs'] at hlost
    simp [hd.gone (hcalled.isOk hlost) hlost] at hs'
  · rw [hd.others other hne] at hs'
    exact hothers other s' hne hs' hlost

/-- A session goes in a call of its core exactly when the core is lost in it. -/
theorem Driven.dropped (hd : Driven rt cid s src nowMs called rt' res)
    (hcalled : AnnouncedOnce called) {rt₀ : ServerRuntime σ} {s₀ : SessionRuntime}
    (hs₀ : rt₀.sessions[cid]? = some s₀) :
    Server.dropped cid rt₀ rt' = if called.1.state = .lost then 1 else 0 := by
  rw [dropped_eq hs₀]
  by_cases hlost : called.1.state = .lost
  · rw [if_pos hlost, if_pos (hd.gone (hcalled.isOk hlost) hlost)]
  · obtain ⟨s', hs', -⟩ := hd.stays hlost
    rw [if_neg hlost, if_neg (by simp [hs'])]

/-- The counter moves by two for every session that goes. -/
def CountsTwice (rt rt' : ServerRuntime σ) (n : Nat) : Prop :=
  rt'.metrics.disconnected.toNat = min (rt.metrics.disconnected.toNat + 2 * n) u64Max

omit [SessionStore σ] [Base64] in
theorem countsTwice_zero (h : rt'.metrics.disconnected = rt.metrics.disconnected) :
    CountsTwice rt rt' 0 := by
  have hlt := rt.metrics.disconnected.toNat_lt
  rw [CountsTwice, h, u64Max]
  omega

omit [SessionStore σ] [Base64] in
theorem CountsTwice.trans {rt'' : ServerRuntime σ} {n n' : Nat} (h : CountsTwice rt rt' n)
    (h' : CountsTwice rt' rt'' n') : CountsTwice rt rt'' (n + n') := by
  rw [CountsTwice] at *
  omega

theorem drive_counts (hcalled : AnnouncedOnce called) {rt₀ : ServerRuntime σ}
    {s₀ : SessionRuntime} (hs₀ : rt₀.sessions[cid]? = some s₀)
    (hmetrics : rt.metrics.disconnected = rt₀.metrics.disconnected)
    (hok : ∀ e, (rt.drive cid s src nowMs called).2 ≠ .error (.store e)) :
    CountsTwice rt₀ (rt.drive cid s src nowMs called).1
      (dropped cid rt₀ (rt.drive cid s src nowMs called).1) := by
  have hdropped := (drive_driven rt cid s src nowMs called).dropped hcalled hs₀
  have hcount := drive_disconnected rt cid s src nowMs called hok
  rw [hcalled, hmetrics] at hcount
  rw [CountsTwice, hdropped, hcount]
  by_cases hlost : called.1.state = .lost
  · simp [hlost, hcalled.isOk hlost]
  · simp [hlost]

/-- The timer of an entry ends the session that it finds. -/
def endsAt (nowMs : UInt64) (x : ServerRuntime σ × DueTimer) : Prop :=
  ∃ m, x.1.core x.2.cid = some m ∧ expires m nowMs x.2.timerId

def droppedAt (nowMs : UInt64) (x : ServerRuntime σ × DueTimer) : Nat :=
  dropped x.2.cid x.1 (x.1.fire nowMs x.2).1

theorem fire_counts (nowMs : UInt64) (hlive : rt.NoneLost) (due : DueTimer)
    (hok : ∀ e, (rt.fire nowMs due).2 ≠ .error (.store e)) :
    CountsTwice rt (rt.fire nowMs due).1 (droppedAt nowMs (rt, due)) ∧
      (droppedAt nowMs (rt, due) = 0 ↔ ¬ endsAt nowMs (rt, due)) ∧
      (rt.fire nowMs due).1.NoneLost := by
  cases hs : rt.sessions[due.cid]? with
  | none =>
    have hfire : rt.fire nowMs due =
        ({ rt with timers := dropTimer rt.timers due.deadline (due.cid, due.timerId) }, .ok {}) := by
      simp only [ServerRuntime.fire, hs]
    have hnone : droppedAt nowMs (rt, due) = 0 := dropped_of_absent hs
    rw [hnone, hfire]
    refine ⟨countsTwice_zero rfl, iff_of_true rfl ?_, hlive⟩
    rintro ⟨m, hm, -⟩
    simp [ServerRuntime.core, hs] at hm
  | some s =>
    have hfire : rt.fire nowMs due = ServerRuntime.drive
        { rt with timers := dropTimer rt.timers due.deadline (due.cid, due.timerId) } due.cid s 0
        nowMs (onTimer s.core nowMs due.timerId) := by
      simp only [ServerRuntime.fire, hs]
    have honce : AnnouncedOnce (onTimer s.core nowMs due.timerId) :=
      apply_announced (hlive _ _ hs) (k := .timer nowMs due.timerId) rfl
    have hdrive := drive_driven
      { rt with timers := dropTimer rt.timers due.deadline (due.cid, due.timerId) } due.cid s 0
      nowMs (onTimer s.core nowMs due.timerId)
    rw [hfire] at hok
    rw [droppedAt, hfire]
    refine ⟨drive_counts honce hs rfl hok, ?_,
      hdrive.noneLost honce fun other s' _ hs' => hlive other s' hs'⟩
    rw [hdrive.dropped honce hs, endsAt, ServerRuntime.core, hs]
    have hends := onTimer_lost (hlive _ _ hs) nowMs due.timerId
    by_cases hlost : (onTimer s.core nowMs due.timerId).1.state = .lost
    · simp [hlost, hends.mp hlost]
    · simp [hlost, mt hends.mpr hlost]

theorem fireAll_counts {dues : List DueTimer} (hlive : rt.NoneLost) {output : ServerRuntimeOutput}
    (hok : ∀ e, (ServerRuntime.fireAll nowMs rt dues output).2 ≠ .error (.store e)) :
    CountsTwice rt (ServerRuntime.fireAll nowMs rt dues output).1
        ((rt.fired nowMs dues).map (droppedAt nowMs)).sum ∧
      (((rt.fired nowMs dues).map (droppedAt nowMs)).sum = 0 ↔
        ¬ ∃ x ∈ rt.fired nowMs dues, endsAt nowMs x) ∧
      (ServerRuntime.fireAll nowMs rt dues output).1.NoneLost := by
  induction dues generalizing rt output with
  | nil => exact ⟨countsTwice_zero rfl, by simp [ServerRuntime.fired], hlive⟩
  | cons due rest ih =>
    rw [ServerRuntime.fireAll] at hok ⊢
    rw [ServerRuntime.fired, List.map_cons, List.sum_cons]
    have hfire := fire_counts nowMs hlive due
    cases hf : rt.fire nowMs due with
    | mk rt' res =>
      rw [hf] at hok hfire
      cases res with
      | error e =>
        obtain ⟨hcount, hzero, hlive'⟩ := hfire hok
        simpa using ⟨hcount, hzero, hlive'⟩
      | ok partOut =>
        obtain ⟨hcount, hzero, hlive'⟩ := hfire (by simp)
        obtain ⟨hcounts, hzeros, hlives⟩ := ih hlive' hok
        refine ⟨hcount.trans hcounts, ?_, hlives⟩
        rw [Nat.add_eq_zero_iff, hzero, hzeros]
        simp

/-! ### Runs -/

/-- How many sessions go in a call; a datagram may first have one made. -/
def removals (rt : ServerRuntime σ) (op : Op) (rt' : ServerRuntime σ) : Nat :=
  match op with
  | .datagram nowMs src bytes =>
    match WireFrame.decode bytes with
    | .error _ => 0
    | .ok frame => dropped frame.cid (rt.ensureSessionLoaded frame.cid src nowMs).1 rt'
  | .pollTimers nowMs limit => ((rt.polled nowMs limit).map (droppedAt nowMs)).sum
  | .sendMessage cid _ _ => dropped cid rt rt'

def removed (h : ServerHistory σ) : Nat := (h.map fun t => removals t.pre t.input t.post).sum

/-- A closing frame arrives, or a timer fires that ends its session. -/
def ends (rt : ServerRuntime σ) : Op → Prop
  | .datagram _ _ bytes => ∃ frame, WireFrame.decode bytes = .ok frame ∧ closing frame
  | .pollTimers nowMs limit => ∃ x ∈ rt.polled nowMs limit, endsAt nowMs x
  | .sendMessage _ _ _ => False

omit [Base64] in
theorem Enters.live {rt₁ : ServerRuntime σ} (hlive : rt.NoneLost)
    (henter : Enters rt cid src nowMs s rt₁) : s.core.state ≠ .lost := by
  cases henter with
  | present hs => exact hlive _ _ hs
  | @fresh loaded _ _ _ _ _ _ _ =>
    obtain ⟨cfg', hcore⟩ := freshSession_core rt.cfg cid src loaded
    rw [hcore]
    exact fun h => LifecycleState.noConfusion h

theorem onDatagram_counts (hhost : rt.Hosting) (hlive : rt.NoneLost) {bytes : Bytes}
    (hok : ∀ e, (rt.onDatagram nowMs src bytes).2 ≠ .error (.store e)) :
    CountsTwice rt (rt.onDatagram nowMs src bytes).1
        (removals rt (.datagram nowMs src bytes) (rt.onDatagram nowMs src bytes).1) ∧
      (removals rt (.datagram nowMs src bytes) (rt.onDatagram nowMs src bytes).1 = 0 ↔
        ¬ ends rt (.datagram nowMs src bytes)) ∧
      (rt.onDatagram nowMs src bytes).1.NoneLost := by
  cases hdec : WireFrame.decode bytes with
  | error e =>
    simp only [ServerRuntime.onDatagram, removals, ends, hdec]
    exact ⟨countsTwice_zero rfl, by simp, hlive⟩
  | ok frame =>
    have hensure := ensureSessionLoaded_disconnected rt frame.cid src nowMs
    obtain ⟨e, rt₁, heq, -⟩ | ⟨s, rt₁, heq, hs, henter⟩ :=
      ensureSessionLoaded_cases rt frame.cid src nowMs
    · refine absurd ?_ (hok e)
      simp only [ServerRuntime.onDatagram, hdec, heq]
    · rw [heq] at hensure
      have hstate := henter.live hlive
      have honce := onDatagram_announced hstate nowMs src bytes
      have hdrive := drive_driven rt₁ frame.cid s src nowMs (Core.onDatagram s.core nowMs src bytes)
      have hcall : (rt.onDatagram nowMs src bytes).1 =
          (rt₁.drive frame.cid s src nowMs (Core.onDatagram s.core nowMs src bytes)).1 := by
        simp only [ServerRuntime.onDatagram, hdec, heq, hs]
      have hfails : ∀ e, (rt₁.drive frame.cid s src nowMs
          (Core.onDatagram s.core nowMs src bytes)).2 ≠ .error (.store e) := by
        intro e he
        refine hok e ?_
        simp only [ServerRuntime.onDatagram, hdec, heq, hs, he]
        rfl
      have hcount := drive_counts honce hs rfl hfails
      have hlost := (onDatagram_effect s.core nowMs src bytes).2.2.2.1
      rw [closes_eq (ownFrame_of_cid hdec (henter.named hhost))] at hlost
      rw [hcall]
      simp only [removals, ends, hdec, heq]
      refine ⟨?_, ?_, hdrive.noneLost honce fun other s' hne hs' => ?_⟩
      · rw [CountsTwice] at hcount ⊢
        rw [hcount, hensure]
      · rw [hdrive.dropped honce hs]
        by_cases hclose : closing frame <;> simp [hlost, hclose, hstate]
      · rw [henter.others hne] at hs'
        exact hlive other s' hs'

theorem step_counts {op : Op} (hhost : rt.Hosting) (hlive : rt.NoneLost)
    (h : rt.step op = some (rt', res)) (hok : ∀ e, res ≠ .error (.store e)) :
    CountsTwice rt rt' (removals rt op rt') ∧ (removals rt op rt' = 0 ↔ ¬ ends rt op) ∧
      rt'.NoneLost := by
  cases op with
  | datagram nowMs src bytes =>
    obtain ⟨rfl, rfl⟩ := Prod.mk.inj (Option.some.inj h)
    exact onDatagram_counts hhost hlive hok
  | pollTimers nowMs limit =>
    obtain ⟨rfl, rfl⟩ := Prod.mk.inj (Option.some.inj h)
    exact fireAll_counts hlive hok
  | sendMessage cid payload nowMs =>
    have hsend : rt.sendMessage cid payload nowMs = some (rt', res) := h
    unfold ServerRuntime.sendMessage at hsend
    cases hs : rt.sessions[cid]? with
    | none =>
      simp only [hs, Option.some.injEq, Prod.mk.injEq] at hsend
      obtain ⟨rfl, -⟩ := hsend
      simp only [removals, dropped_of_absent hs, ends]
      exact ⟨countsTwice_zero rfl, by simp, hlive⟩
    | some s =>
      simp only [hs, Option.map_eq_some_iff] at hsend
      obtain ⟨called, hcall, heq⟩ := hsend
      have hcall' : s.core.apply (.send payload) = some (called.1, called.2) := hcall
      have honce : AnnouncedOnce called := apply_announced (hlive _ _ hs) hcall'
      have hstate : called.1.state ≠ .lost := by
        rw [(apply_answers _ hcall').next]
        exact hlive _ _ hs
      have hdrive := drive_driven rt cid s 0 nowMs called
      have hstored : ∀ e, (rt.drive cid s 0 nowMs called).2 ≠ .error (.store e) := by rwa [heq]
      have hcount := drive_counts honce hs rfl hstored
      rw [heq] at hdrive hcount
      refine ⟨hcount, ?_, hdrive.noneLost honce fun other s' _ hs' => hlive other s' hs'⟩
      simp only [removals, ends, hdrive.dropped honce hs, if_neg hstate, not_false_eq_true]

/-- Over a run whose store calls all succeed every session that goes is counted twice. -/
theorem disconnected_of_run {cfg : CoreConfig} {store : σ} {h : ServerHistory σ}
    (hrun : Run ServerRuntime.step (ServerRuntime.new cfg store) h rt)
    (hstore : ∀ t ∈ h, ∀ e, t.output ≠ .error (.store e)) :
    rt.metrics.disconnected.toNat = min (2 * removed h) u64Max ∧
      (removed h = 0 ↔ ∀ t ∈ h, ¬ ends t.pre t.input) := by
  have hall : (rt.metrics.disconnected.toNat = min (2 * removed h) u64Max ∧
      (removed h = 0 ↔ ∀ t ∈ h, ¬ ends t.pre t.input)) ∧ rt.NoneLost := by
    induction hrun with
    | nil =>
      refine ⟨⟨by simp [removed, ServerRuntime.new], by simp [removed]⟩, fun cid s hs => ?_⟩
      simp [ServerRuntime.new] at hs
    | @snoc h rt rt' op res hr hs ih =>
      obtain ⟨hold, hnew⟩ := List.forall_mem_append.mp hstore
      obtain ⟨⟨hcount, hzero⟩, hlive⟩ := ih hold
      obtain ⟨hstep, hnone, hlive'⟩ :=
        step_counts (hosting_of_run hr) hlive hs (hnew _ (List.mem_singleton.mpr rfl))
      have hsum : removed (h ++ [⟨rt, op, res, rt'⟩]) = removed h + removals rt op rt' := by
        simp [removed]
      refine ⟨⟨?_, ?_⟩, hlive'⟩
      · rw [CountsTwice] at hstep
        rw [hstep, hcount, hsum]
        omega
      · rw [hsum, Nat.add_eq_zero_iff, hzero, hnone, List.forall_mem_append]
        simp
  exact hall.1

/-- The counter is the number of sessions that went in exactly the runs that end none, as long
as it can count at all. -/
theorem disconnected_counted_once_iff {cfg : CoreConfig} {store : σ} {h : ServerHistory σ}
    (hrun : Run ServerRuntime.step (ServerRuntime.new cfg store) h rt)
    (hstore : ∀ t ∈ h, ∀ e, t.output ≠ .error (.store e)) :
    rt.metrics.disconnected.toNat = removed h ↔
      (∀ t ∈ h, ¬ ends t.pre t.input) ∨ removed h = u64Max := by
  obtain ⟨hcount, hnone⟩ := disconnected_of_run hrun hstore
  rw [← hnone, hcount, u64Max]
  omega

end Removals

/-! ### One session -/

/-- A client says hello and closes. -/
def helloAndClose : List Op :=
  [.datagram 0 1 ((Packet.control .clientHello).bytes 7),
    .datagram 1 1 ((Packet.control .close).bytes 7)]

theorem exec_helloAndClose :
    ∃ h rt, exec ServerRuntime.step defaultServer helloAndClose = some (h, rt) ∧
      (∀ t ∈ h, t.output.isOk) ∧ removed h = 1 ∧ rt.metrics.disconnected = 2 := by
  have hsome : (exec ServerRuntime.step defaultServer helloAndClose).any fun x =>
      x.1.all (fun t => t.output.isOk) && removed x.1 == 1 && x.2.metrics.disconnected == 2 := by
    decide +kernel
  obtain ⟨⟨h, rt⟩, hexec, hall⟩ := (Option.any_eq_true _ _).mp hsome
  simp only [Bool.and_eq_true, List.all_eq_true, beq_iff_eq] at hall
  exact ⟨h, rt, hexec, hall.1.1, hall.1.2, hall.2⟩

theorem closed_session_counted_twice :
    ¬ ∀ (h : ServerHistory InMemorySessionStore) (rt : ServerRuntime InMemorySessionStore),
      Run ServerRuntime.step defaultServer h rt → (∀ t ∈ h, t.output.isOk) →
        rt.metrics.disconnected.toNat = removed h := by
  intro hclaim
  obtain ⟨h, rt, hexec, hok, hremoved, hcount⟩ := exec_helloAndClose
  have heq := hclaim h rt (Run.of_exec hexec) hok
  rw [hremoved, hcount] at heq
  exact absurd heq (by decide)

theorem closed_session_ends :
    ∃ (h : ServerHistory InMemorySessionStore) (rt : ServerRuntime InMemorySessionStore),
      Run ServerRuntime.step defaultServer h rt ∧ removed h = 1 ∧
        ¬ ∀ t ∈ h, ¬ ends t.pre t.input := by
  obtain ⟨h, rt, hexec, hok, hremoved, hcount⟩ := exec_helloAndClose
  have hstore : ∀ t ∈ h, ∀ e, t.output ≠ .error (.store e) := by
    intro t ht e he
    have hres := hok t ht
    rw [he] at hres
    exact Bool.noConfusion hres
  have hiff := disconnected_counted_once_iff (Run.of_exec hexec) hstore
  rw [hremoved, hcount] at hiff
  exact ⟨h, rt, Run.of_exec hexec, hremoved, fun hnone => absurd (hiff.mpr (.inl hnone)) (by decide)⟩

end Todero.Server
