import Todero.ServerRuntime
import Todero.Emissions
import Todero.Lib.Agenda

/-! One call of the server runtime in closed form: what it leaves of the sessions, the
pending timer entries and the store. -/
namespace Todero.Server
open Todero.Wire Todero.Core Todero.Store

/-! ### Timer entries -/

def pending (timers : TimerMap) (deadline : UInt64) : List (UInt64 × TimerId) :=
  (timers[deadline]?).getD []

theorem pending_push (cid : UInt64) (timers : TimerMap) (id : TimerId) (d deadline : UInt64) :
    pending (pushTimer cid timers (.schedule id d)) deadline =
      pending timers deadline ++ if deadline = d then [(cid, id)] else [] :=
  Agenda.slot_push timers d deadline (cid, id)

theorem dropTimer_eq_take (timers : TimerMap) (d : UInt64) (entry : UInt64 × TimerId) :
    dropTimer timers d entry = Agenda.take timers d entry := by
  unfold dropTimer Agenda.take
  cases timers[d]? with
  | none => rfl
  | some entries => rfl

theorem pending_drop (timers : TimerMap) (d : UInt64) (entry : UInt64 × TimerId)
    (deadline : UInt64) :
    pending (dropTimer timers d entry) deadline =
      if deadline = d then (pending timers deadline).erase entry else pending timers deadline := by
  rw [dropTimer_eq_take]
  exact Agenda.slot_take timers d deadline entry

/-- The entries that actions of a core of `cid` add to a deadline. -/
def scheduledAt (cid deadline : UInt64) (as : List TimerAction) : List (UInt64 × TimerId) :=
  as.filterMap fun (.schedule id d) => if deadline = d then some (cid, id) else none

theorem pending_pushes (cid : UInt64) (as : List TimerAction) (timers : TimerMap)
    (deadline : UInt64) :
    pending (as.foldl (pushTimer cid) timers) deadline =
      pending timers deadline ++ scheduledAt cid deadline as := by
  induction as generalizing timers with
  | nil => simp [scheduledAt]
  | cons a as ih =>
    obtain ⟨id, d⟩ := a
    rw [List.foldl_cons, ih, pending_push, List.append_assoc]
    by_cases h : deadline = d <;> simp [scheduledAt, h]

theorem mem_scheduledAt {cid deadline : UInt64} {as : List TimerAction} {e : UInt64 × TimerId} :
    e ∈ scheduledAt cid deadline as ↔ e.1 = cid ∧ .schedule e.2 deadline ∈ as := by
  obtain ⟨c, id⟩ := e
  simp only [scheduledAt, List.mem_filterMap]
  constructor
  · rintro ⟨⟨id', d⟩, hmem, h⟩
    split_ifs at h with hd
    obtain ⟨rfl, rfl⟩ := Prod.mk.inj (Option.some.inj h)
    exact ⟨rfl, hd ▸ hmem⟩
  · rintro ⟨rfl, hmem⟩
    exact ⟨_, hmem, by simp⟩

def dueTimer (e : UInt64 × UInt64 × TimerId) : DueTimer := ⟨e.1, e.2.1, e.2.2⟩

theorem dueTimer_injective : Function.Injective dueTimer := by
  rintro ⟨d, cid, id⟩ ⟨d', cid', id'⟩ h
  simpa [dueTimer] using h

/-- The pending entries in the order of their deadlines, and of one deadline as pushed. -/
def queue (timers : TimerMap) : List DueTimer := (Agenda.entries timers).map dueTimer

theorem count_queue (timers : TimerMap) (due : DueTimer) :
    (queue timers).count due = (pending timers due.deadline).count (due.cid, due.timerId) :=
  (List.count_map_of_injective _ _ dueTimer_injective (due.deadline, due.cid, due.timerId)).trans
    (Agenda.count_entries timers due.deadline (due.cid, due.timerId))

theorem collectDue_eq_collect (nowMs : UInt64) (limit : Nat)
    (l : List (UInt64 × List (UInt64 × TimerId))) (acc : List (UInt64 × UInt64 × TimerId)) :
    collectDue nowMs limit l (acc.map dueTimer) =
      (Agenda.collect nowMs limit l acc).map dueTimer := by
  induction l generalizing acc with
  | nil => rfl
  | cons s l ih =>
    obtain ⟨deadline, entries⟩ := s
    rw [collectDue, Agenda.collect, List.length_map]
    have hlate : deadline > nowMs ↔ compare deadline nowMs = .gt := Std.compare_eq_gt.symm
    simp only [hlate]
    split_ifs
    · rfl
    · rw [← ih, List.map_append, List.map_map]
      rfl

/-- The due entries are the first ones of the queue, as many as the limit lets through. -/
theorem collectDue_eq (timers : TimerMap) (nowMs : UInt64) (limit : Nat) :
    collectDue nowMs limit timers.toList [] = (queue timers).take
      (min limit ((queue timers).countP fun due => due.deadline ≤ nowMs)) := by
  have hcount : (queue timers).countP (fun due => due.deadline ≤ nowMs) =
      (Agenda.entries timers).countP (Agenda.due nowMs) := by
    rw [queue, List.countP_map]
    refine List.countP_congr fun e _ => ?_
    rw [Agenda.due, Std.isLE_compare]
    exact decide_eq_true_iff
  rw [hcount, queue, ← List.map_take, ← Agenda.collect_entries]
  exact collectDue_eq_collect nowMs limit timers.toList []

/-! ### The sessions after a call -/

section Session
variable {σ : Type}

/-- From `rt` to `rt'` at most the sent ids of the session of `cid` have changed. -/
structure Observed (cid : UInt64) (rt rt' : ServerRuntime σ) : Prop where
  cfg : rt'.cfg = rt.cfg
  store : rt'.store = rt.store
  timers : rt'.timers = rt.timers
  others : ∀ other, other ≠ cid → rt'.sessions[other]? = rt.sessions[other]?
  session : ∀ s, rt.sessions[cid]? = some s →
    ∃ ids, rt'.sessions[cid]? = some { s with sentDataIds := ids }

theorem Observed.metrics (cid : UInt64) (rt : ServerRuntime σ) (m : ServerRuntimeMetrics) :
    Observed cid rt { rt with metrics := m } :=
  ⟨rfl, rfl, rfl, fun _ _ => rfl, fun s hs => ⟨s.sentDataIds, hs⟩⟩

theorem Observed.trans {cid : UInt64} {rt rt' rt'' : ServerRuntime σ} (h : Observed cid rt rt')
    (h' : Observed cid rt' rt'') : Observed cid rt rt'' where
  cfg := h'.cfg.trans h.cfg
  store := h'.store.trans h.store
  timers := h'.timers.trans h.timers
  others := fun other hne => (h'.others other hne).trans (h.others other hne)
  session := fun s hs => by
    obtain ⟨ids, hs'⟩ := h.session s hs
    exact h'.session { s with sentDataIds := ids } hs'

theorem Observed.sent {cid : UInt64} {rt : ServerRuntime σ} {s : SessionRuntime}
    (hs : rt.sessions[cid]? = some s) (ids : Std.TreeSet Nat) :
    Observed cid rt { rt with sessions := rt.sessions.insert cid { s with sentDataIds := ids } } where
  cfg := rfl
  store := rfl
  timers := rfl
  others := fun other hne => by
    simp [Std.TreeMap.getElem?_insert, hne.symm]
  session := fun s' hs' => by
    rw [hs, Option.some.injEq] at hs'
    subst hs'
    exact ⟨ids, by simp⟩

theorem observeDatagram_observed (cid : UInt64) (rt : ServerRuntime σ) (d : OutboundDatagram) :
    Observed cid rt (rt.observeDatagram cid d) := by
  unfold ServerRuntime.observeDatagram
  split
  · exact .metrics cid rt rt.metrics
  · split
    · exact .metrics cid rt _
    · split_ifs
      · dsimp only
        split
        · exact .metrics cid rt _
        · rename_i session hs
          split_ifs
          · exact (Observed.metrics cid rt _).trans (.metrics cid _ _)
          · exact (Observed.sent hs _).trans (.metrics cid _ _)
      · exact .metrics cid rt _
    · exact .metrics cid rt rt.metrics

theorem observeDatagrams_observed (cid : UInt64) (ds : List OutboundDatagram)
    (rt : ServerRuntime σ) : Observed cid rt (rt.observeDatagrams cid ds) := by
  induction ds generalizing rt with
  | nil => exact .metrics cid rt rt.metrics
  | cons d ds ih => exact (observeDatagram_observed cid rt d).trans (ih _)

variable [SessionStore σ]

/-- What the store is asked for once a session has been called. -/
def ServerRuntime.written (rt : ServerRuntime σ) (cid nowMs : UInt64) (session : SessionRuntime) :
    σ × Except StoreError Unit :=
  if session.core.state = .lost then SessionStore.delete rt.store cid
  else
    let (store, written) := SessionStore.upsert rt.store cid (rt.recordOf cid session)
      rt.cfg.disconnectWindowMs nowMs
    (store, written.map fun _ => ())

/-- The closed form of `persist`. -/
structure Persisted (rt : ServerRuntime σ) (cid nowMs : UInt64) (session : SessionRuntime)
    (rt' : ServerRuntime σ) (res : Except StoreError Unit) : Prop where
  cfg : rt'.cfg = rt.cfg
  timers : rt'.timers = rt.timers
  others : ∀ other, other ≠ cid → rt'.sessions[other]? = rt.sessions[other]?
  kept : rt'.sessions[cid]? = if session.core.state = .lost then none else some session
  store : rt'.store = (rt.written cid nowMs session).1
  result : res = (rt.written cid nowMs session).2

theorem persist_persisted {rt : ServerRuntime σ} {cid : UInt64} {session : SessionRuntime}
    (hs : rt.sessions[cid]? = some session) (nowMs : UInt64) :
    Persisted rt cid nowMs session (rt.persist cid nowMs).1 (rt.persist cid nowMs).2 := by
  by_cases hlost : session.core.state = .lost
  · have herase : ∀ other, other ≠ cid → (rt.sessions.erase cid)[other]? = rt.sessions[other]? := by
      intro other hne
      rw [Std.TreeMap.getElem?_erase, if_neg (by simpa using hne.symm)]
    have hgone : (rt.sessions.erase cid)[cid]? = none := by simp
    simp only [ServerRuntime.persist, hs, hlost, if_true]
    cases hdel : SessionStore.delete rt.store cid with
    | mk store deleted =>
      cases deleted with
      | error e =>
        exact ⟨rfl, rfl, herase, by rw [if_pos hlost]; exact hgone,
          by simp [ServerRuntime.written, hlost, hdel], by simp [ServerRuntime.written, hlost, hdel]⟩
      | ok u =>
        exact ⟨rfl, rfl, herase, by rw [if_pos hlost]; exact hgone,
          by simp [ServerRuntime.written, hlost, hdel], by simp [ServerRuntime.written, hlost, hdel]⟩
  · simp only [ServerRuntime.persist, hs, hlost, if_false]
    have hrec : ∀ m : ServerRuntimeMetrics,
        ({ rt with metrics := m } : ServerRuntime σ).recordOf cid session =
          rt.recordOf cid session := fun _ => rfl
    rw [hrec]
    cases hup : SessionStore.upsert rt.store cid (rt.recordOf cid session)
        rt.cfg.disconnectWindowMs nowMs with
    | mk store written =>
      cases written with
      | error e =>
        exact ⟨rfl, rfl, fun _ _ => rfl, by rw [if_neg hlost]; exact hs,
          by simp [ServerRuntime.written, hlost, hup],
          by simp [ServerRuntime.written, hlost, hup, Except.map]⟩
      | ok v =>
        exact ⟨rfl, rfl, fun _ _ => rfl, by rw [if_neg hlost]; exact hs,
          by simp [ServerRuntime.written, hlost, hup],
          by simp [ServerRuntime.written, hlost, hup, Except.map]⟩

variable [Base64]

/-- The closed form of `drive`: the core has been called, and unless that failed its timers
are taken in and the store written. -/
structure Driven (rt : ServerRuntime σ) (cid : UInt64) (session : SessionRuntime)
    (src : UInt32) (nowMs : UInt64) (called : CoreMachine × CallResult)
    (rt' : ServerRuntime σ) (res : RuntimeResult) : Prop where
  cfg : rt'.cfg = rt.cfg
  timers : rt'.timers = called.2.output.timerActions.foldl (pushTimer cid) rt.timers
  others : ∀ other, other ≠ cid → rt'.sessions[other]? = rt.sessions[other]?
  kept : ∃ ids, rt'.sessions[cid]? =
    if called.2.isOk ∧ called.1.state = .lost then none
    else some { session with core := called.1, sentDataIds := ids }
  store : rt'.store = if called.2.isOk then
      (rt.written cid nowMs { session with core := called.1 }).1 else rt.store
  result : res = match called.2 with
    | .error e => .error (.core e)
    | .ok out => match (rt.written cid nowMs { session with core := called.1 }).2 with
      | .error e => .error (.store e)
      | .ok () => .ok ⟨out.outboundDatagrams.map (ServerRuntime.redirect src),
          ServerRuntime.runtimeEvents cid out.events⟩

theorem drive_driven (rt : ServerRuntime σ) (cid : UInt64) (session : SessionRuntime)
    (src : UInt32) (nowMs : UInt64) (called : CoreMachine × CallResult) :
    Driven rt cid session src nowMs called (rt.drive cid session src nowMs called).1
      (rt.drive cid session src nowMs called).2 := by
  obtain ⟨core, res⟩ := called
  have hset : ∀ other, other ≠ cid →
      (rt.sessions.insert cid { session with core := core })[other]? = rt.sessions[other]? := by
    intro other hne
    rw [Std.TreeMap.getElem?_insert, if_neg (by simpa using hne.symm)]
  have hself : (rt.sessions.insert cid { session with core := core })[cid]? =
      some { session with core := core } := by simp
  cases res with
  | error e =>
    refine ⟨rfl, rfl, hset, ⟨session.sentDataIds, hself.trans (if_neg ?_).symm⟩, rfl, rfl⟩
    simp [Except.isOk, Except.toBool]
  | ok out =>
    -- the runtime once the datagrams have been observed
    let rt₁ := ({ rt with
      sessions := rt.sessions.insert cid { session with core := core }
      metrics := out.events.foldl observeCoreEvent rt.metrics } : ServerRuntime σ).ingestTimers cid
        out.timerActions
    have hobs := observeDatagrams_observed cid
      (out.outboundDatagrams.map (ServerRuntime.redirect src)) rt₁
    obtain ⟨ids, hs⟩ : ∃ ids, (rt₁.observeDatagrams cid (out.outboundDatagrams.map
        (ServerRuntime.redirect src))).sessions[cid]? =
          some { session with core := core, sentDataIds := ids } := hobs.session _ hself
    have hper := persist_persisted hs nowMs
    have hwritten : (rt₁.observeDatagrams cid
          (out.outboundDatagrams.map (ServerRuntime.redirect src))).written cid nowMs
            { session with core := core, sentDataIds := ids } =
        rt.written cid nowMs { session with core := core } := by
      simp only [ServerRuntime.written, ServerRuntime.recordOf, hobs.store, hobs.cfg]
      rfl
    refine ⟨hper.cfg.trans hobs.cfg, hper.timers.trans hobs.timers, ?_, ⟨ids, ?_⟩,
      hper.store.trans (congrArg Prod.fst hwritten), ?_⟩
    · intro other hne
      exact (hper.others other hne).trans ((hobs.others other hne).trans (hset other hne))
    · exact hper.kept.trans (by simp [Except.isOk, Except.toBool])
    · change (match ((rt₁.observeDatagrams cid (out.outboundDatagrams.map
          (ServerRuntime.redirect src))).persist cid nowMs).2 with
        | .error e => .error (.store e)
        | .ok () => .ok ⟨out.outboundDatagrams.map (ServerRuntime.redirect src),
            ServerRuntime.runtimeEvents cid out.events⟩ : RuntimeResult) = _
      rw [hper.result, hwritten]

/-! ### One call -/

omit [SessionStore σ] [Base64] in
theorem updatePeak_fields (rt : ServerRuntime σ) :
    rt.updatePeakSessionsMetric.cfg = rt.cfg ∧ rt.updatePeakSessionsMetric.store = rt.store ∧
      rt.updatePeakSessionsMetric.sessions = rt.sessions ∧
      rt.updatePeakSessionsMetric.timers = rt.timers := by
  unfold ServerRuntime.updatePeakSessionsMetric
  split_ifs <;> exact ⟨rfl, rfl, rfl, rfl⟩

/-- The session made for a cid without one, from the record the store has for it. -/
def freshSession (cfg : CoreConfig) (cid : UInt64) (src : UInt32) :
    Option VersionedRecord → SessionRuntime
  | some versioned =>
    ⟨(onPathEvent (CoreMachine.new .server cid ⟨versioned.record.negotiatedMsrIntervalMs,
      cfg.missWindowCount, versioned.record.disconnectWindowMs⟩) src).1,
      versioned.record.peerId, none, none, ∅⟩
  | none => ⟨(onPathEvent (CoreMachine.new .server cid cfg) src).1, s!"path:{src}", none, none, ∅⟩

/-- `ensureSessionLoaded` has found or made the session `s`, and left `rt'`. -/
inductive Enters (rt : ServerRuntime σ) (cid : UInt64) (src : UInt32) (nowMs : UInt64) :
    SessionRuntime → ServerRuntime σ → Prop
  | present {s : SessionRuntime} (hs : rt.sessions[cid]? = some s) : Enters rt cid src nowMs s rt
  | fresh {loaded : Option VersionedRecord} {rt' : ServerRuntime σ}
      (habsent : rt.sessions[cid]? = none)
      (hload : (SessionStore.load rt.store cid nowMs).2 = .ok loaded) (hcfg : rt'.cfg = rt.cfg)
      (hstore : rt'.store = (SessionStore.load rt.store cid nowMs).1)
      (hsessions : rt'.sessions = rt.sessions.insert cid (freshSession rt.cfg cid src loaded))
      (htimers : rt'.timers = rt.timers) :
      Enters rt cid src nowMs (freshSession rt.cfg cid src loaded) rt'

namespace Enters
variable {rt rt' : ServerRuntime σ} {cid : UInt64} {src : UInt32} {nowMs : UInt64}
  {s : SessionRuntime}

omit [Base64] in
theorem cfg (h : Enters rt cid src nowMs s rt') : rt'.cfg = rt.cfg := by
  cases h with
  | present => rfl
  | fresh _ _ hcfg => exact hcfg

omit [Base64] in
theorem timers (h : Enters rt cid src nowMs s rt') : rt'.timers = rt.timers := by
  cases h with
  | present => rfl
  | fresh _ _ _ _ _ htimers => exact htimers

omit [Base64] in
theorem others (h : Enters rt cid src nowMs s rt') {other : UInt64} (hne : other ≠ cid) :
    rt'.sessions[other]? = rt.sessions[other]? := by
  cases h with
  | present => rfl
  | fresh _ _ _ _ hsessions =>
    rw [hsessions, Std.TreeMap.getElem?_insert, if_neg (by simpa using hne.symm)]

end Enters

omit [Base64] in
theorem ensureSessionLoaded_cases (rt : ServerRuntime σ) (cid : UInt64) (src : UInt32)
    (nowMs : UInt64) :
    (∃ e rt', rt.ensureSessionLoaded cid src nowMs = (rt', .error (.store e)) ∧
      rt.sessions[cid]? = none ∧ (SessionStore.load rt.store cid nowMs).2 = .error e ∧
      rt'.cfg = rt.cfg ∧ rt'.store = (SessionStore.load rt.store cid nowMs).1 ∧
      rt'.sessions = rt.sessions ∧ rt'.timers = rt.timers) ∨
    ∃ s rt', rt.ensureSessionLoaded cid src nowMs = (rt', .ok ()) ∧
      rt'.sessions[cid]? = some s ∧ Enters rt cid src nowMs s rt' := by
  unfold ServerRuntime.ensureSessionLoaded
  by_cases hin : rt.sessions.contains cid
  · obtain ⟨s, hs⟩ : ∃ s, rt.sessions[cid]? = some s := by
      rw [← Option.isSome_iff_exists, ← Std.TreeMap.contains_eq_isSome_getElem?]
      exact hin
    exact .inr ⟨s, rt, if_pos hin, hs, .present hs⟩
  · have habsent : rt.sessions[cid]? = none := by
      rw [← Option.not_isSome_iff_eq_none, ← Std.TreeMap.contains_eq_isSome_getElem?]
      exact hin
    rw [if_neg hin]
    dsimp only
    cases hload : (SessionStore.load rt.store cid nowMs).2 with
    | error e => exact .inl ⟨e, _, rfl, habsent, rfl, rfl, rfl, rfl, rfl⟩
    | ok loaded =>
      have hfresh : ∀ rt' : ServerRuntime σ, rt'.cfg = rt.cfg →
          rt'.store = (SessionStore.load rt.store cid nowMs).1 → rt'.timers = rt.timers →
          rt'.sessions = rt.sessions.insert cid (freshSession rt.cfg cid src loaded) →
          ∃ s rt'', (rt'.updatePeakSessionsMetric, (.ok () : Except ServerRuntimeError Unit)) =
            (rt'', .ok ()) ∧ rt''.sessions[cid]? = some s ∧ Enters rt cid src nowMs s rt'' := by
        intro rt' hcfg hstore htimers hsessions
        obtain ⟨hc, hst, hse, ht⟩ := updatePeak_fields rt'
        refine ⟨_, _, rfl, ?_, .fresh habsent hload (hc.trans hcfg) (hst.trans hstore)
          (hse.trans hsessions) (ht.trans htimers)⟩
        rw [hse, hsessions]
        simp
      right
      cases loaded with
      | none => exact hfresh _ rfl rfl rfl rfl
      | some versioned => exact hfresh _ rfl rfl rfl rfl

/-- What a datagram can come to. -/
inductive Received (rt : ServerRuntime σ) (nowMs : UInt64) (src : UInt32) (bytes : Bytes) :
    ServerRuntime σ → RuntimeResult → Prop
  | undecodable {e : WireError} {m : ServerRuntimeMetrics} (hd : WireFrame.decode bytes = .error e) :
      Received rt nowMs src bytes { rt with metrics := m } (.ok { events := [.parseError] })
  | unloaded {frame : WireFrame} {e : StoreError} {rt' : ServerRuntime σ}
      (hd : WireFrame.decode bytes = .ok frame) (habsent : rt.sessions[frame.cid]? = none)
      (hload : (SessionStore.load rt.store frame.cid nowMs).2 = .error e)
      (hcfg : rt'.cfg = rt.cfg)
      (hstore : rt'.store = (SessionStore.load rt.store frame.cid nowMs).1)
      (hsessions : rt'.sessions = rt.sessions) (htimers : rt'.timers = rt.timers) :
      Received rt nowMs src bytes rt' (.error (.store e))
  | visited {frame : WireFrame} {s : SessionRuntime} {rt₁ rt' : ServerRuntime σ}
      {res : RuntimeResult} (hd : WireFrame.decode bytes = .ok frame)
      (henter : Enters rt frame.cid src nowMs s rt₁)
      (hdrive : Driven rt₁ frame.cid s src nowMs (onDatagram s.core nowMs src bytes) rt' res) :
      Received rt nowMs src bytes rt' (res.map fun out =>
        { out with events := s.pathBound frame.cid src ++ out.events })

theorem onDatagram_received (rt : ServerRuntime σ) (nowMs : UInt64) (src : UInt32)
    (bytes : Bytes) :
    Received rt nowMs src bytes (rt.onDatagram nowMs src bytes).1
      (rt.onDatagram nowMs src bytes).2 := by
  unfold ServerRuntime.onDatagram
  cases hd : WireFrame.decode bytes with
  | error e => exact .undecodable hd
  | ok frame =>
    dsimp only
    obtain ⟨e, rt', heq, habsent, hload, hcfg, hstore, hsessions, htimers⟩ |
      ⟨s, rt', heq, hs, henter⟩ := ensureSessionLoaded_cases rt frame.cid src nowMs
    · rw [heq]
      exact .unloaded hd habsent hload hcfg hstore hsessions htimers
    · rw [heq]
      dsimp only
      rw [hs]
      exact .visited hd henter (drive_driven rt' frame.cid s src nowMs _)

/-- What an entry that is taken out of the timers can come to. -/
inductive Fired (rt : ServerRuntime σ) (nowMs : UInt64) (due : DueTimer) :
    ServerRuntime σ → RuntimeResult → Prop
  | skipped (habsent : rt.sessions[due.cid]? = none) :
      Fired rt nowMs due
        { rt with timers := dropTimer rt.timers due.deadline (due.cid, due.timerId) } (.ok {})
  | visited {s : SessionRuntime} {rt' : ServerRuntime σ} {res : RuntimeResult}
      (hs : rt.sessions[due.cid]? = some s)
      (hdrive : Driven
        { rt with timers := dropTimer rt.timers due.deadline (due.cid, due.timerId) } due.cid s 0
        nowMs (onTimer s.core nowMs due.timerId) rt' res) :
      Fired rt nowMs due rt' res

theorem fire_fired (nowMs : UInt64) (rt : ServerRuntime σ) (due : DueTimer) :
    Fired rt nowMs due (rt.fire nowMs due).1 (rt.fire nowMs due).2 := by
  unfold ServerRuntime.fire
  dsimp only
  cases hs : rt.sessions[due.cid]? with
  | none => exact .skipped hs
  | some s => exact .visited hs (drive_driven _ due.cid s 0 nowMs _)

/-- What sending a message can come to. -/
inductive Sent (rt : ServerRuntime σ) (cid : UInt64) (payload : Bytes) (nowMs : UInt64) :
    ServerRuntime σ → RuntimeResult → Prop
  | skipped (habsent : rt.sessions[cid]? = none) : Sent rt cid payload nowMs rt (.ok {})
  | visited {s : SessionRuntime} {called : CoreMachine × CallResult} {rt' : ServerRuntime σ}
      {res : RuntimeResult} (hs : rt.sessions[cid]? = some s)
      (hcall : onApiSend s.core payload = some called)
      (hdrive : Driven rt cid s 0 nowMs called rt' res) : Sent rt cid payload nowMs rt' res

theorem sendMessage_sent {rt rt' : ServerRuntime σ} {cid : UInt64} {payload : Bytes}
    {nowMs : UInt64} {res : RuntimeResult}
    (h : rt.sendMessage cid payload nowMs = some (rt', res)) :
    Sent rt cid payload nowMs rt' res := by
  unfold ServerRuntime.sendMessage at h
  cases hs : rt.sessions[cid]? with
  | none =>
    simp only [hs, Option.some.injEq, Prod.mk.injEq] at h
    obtain ⟨rfl, rfl⟩ := h
    exact .skipped hs
  | some s =>
    simp only [hs, Option.map_eq_some_iff] at h
    obtain ⟨called, hcall, heq⟩ := h
    have hdrive := drive_driven rt cid s 0 nowMs called
    rw [heq] at hdrive
    exact .visited hs hcall hdrive

theorem step_received {rt rt' : ServerRuntime σ} {nowMs : UInt64} {src : UInt32} {bytes : Bytes}
    {res : RuntimeResult} (h : rt.step (.datagram nowMs src bytes) = some (rt', res)) :
    Received rt nowMs src bytes rt' res := by
  obtain ⟨rfl, rfl⟩ := Prod.mk.inj (Option.some.inj h)
  exact onDatagram_received rt nowMs src bytes

theorem step_polled {rt rt' : ServerRuntime σ} {nowMs : UInt64} {limit : Nat}
    {res : RuntimeResult} (h : rt.step (.pollTimers nowMs limit) = some (rt', res)) :
    rt' = (rt.pollTimers nowMs limit).1 ∧ res = (rt.pollTimers nowMs limit).2 := by
  obtain ⟨rfl, rfl⟩ := Prod.mk.inj (Option.some.inj h)
  exact ⟨rfl, rfl⟩

end Session

end Todero.Server
