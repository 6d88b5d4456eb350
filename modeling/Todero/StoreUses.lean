import Todero.ServerTallies

/-! The calls that the server runtime makes of its store, as a store tells them that keeps a
log. For each cid they are a load, writes and one delete, over and over, and the counters of
the runtime count just them. -/
namespace Todero.Server
open Todero.Wire Todero.Core Todero.Store Transition

/-! ### A store with a log -/

/-- A call of the store, and whether it succeeded. -/
inductive StoreUse where
  | load (ok : Bool)
  | upsert (ok : Bool)
  | delete (ok : Bool)
  deriving DecidableEq, Repr

structure LoggedStore (σ : Type) where
  store : σ
  uses : List (UInt64 × StoreUse)

instance {σ : Type} [SessionStore σ] : SessionStore (LoggedStore σ) where
  load s cid nowMs :=
    let answer := SessionStore.load s.store cid nowMs
    (⟨answer.1, s.uses ++ [(cid, .load answer.2.isOk)]⟩, answer.2)
  upsert s cid record ttlMs nowMs :=
    let answer := SessionStore.upsert s.store cid record ttlMs nowMs
    (⟨answer.1, s.uses ++ [(cid, .upsert answer.2.isOk)]⟩, answer.2)
  delete s cid :=
    let answer := SessionStore.delete s.store cid
    (⟨answer.1, s.uses ++ [(cid, .delete answer.2.isOk)]⟩, answer.2)

/-- Whether a session is open after a call, where the call is in its place. -/
def StoreUse.next : Bool → StoreUse → Option Bool
  | false, .load ok => some ok
  | true, .upsert _ => some true
  | true, .delete _ => some false
  | _, _ => none

def usesFor (cid : UInt64) (uses : List (UInt64 × StoreUse)) : List StoreUse :=
  uses.filterMap fun u => if u.1 = cid then some u.2 else none

inductive StoreCounter where
  | loadCalls
  | loadFailures
  | upsertCalls
  | upsertFailures
  | deleteCalls
  | deleteFailures
  deriving DecidableEq, Repr

def StoreCounter.counts : StoreCounter → StoreUse → Bool
  | .loadCalls, .load _ => true
  | .loadFailures, .load ok => !ok
  | .upsertCalls, .upsert _ => true
  | .upsertFailures, .upsert ok => !ok
  | .deleteCalls, .delete _ => true
  | .deleteFailures, .delete ok => !ok
  | _, _ => false

def ServerRuntimeMetrics.storeCount (m : ServerRuntimeMetrics) : StoreCounter → UInt64
  | .loadCalls => m.storeLoadCalls
  | .loadFailures => m.storeLoadFailures
  | .upsertCalls => m.storeUpsertCalls
  | .upsertFailures => m.storeUpsertFailures
  | .deleteCalls => m.storeDeleteCalls
  | .deleteFailures => m.storeDeleteFailures

section Books
variable {σ : Type} {rt rt' : ServerRuntime (LoggedStore σ)} {cid : UInt64} {use : StoreUse}

def ServerRuntime.hosts (rt : ServerRuntime σ) (cid : UInt64) : Bool := (rt.sessions[cid]?).isSome

/-- The log of the store agrees with the sessions and the counters of the runtime. -/
structure Booked (rt : ServerRuntime (LoggedStore σ)) : Prop where
  open_iff : ∀ cid, (usesFor cid rt.store.uses).foldlM StoreUse.next false = some (rt.hosts cid)
  counted : ∀ c : StoreCounter, (rt.metrics.storeCount c).toNat =
    min (rt.store.uses.countP fun u => c.counts u.2) u64Max

/-- What neither the store nor its counters nor the sessions' cids are changed by. -/
structure Unbooked (rt rt' : ServerRuntime (LoggedStore σ)) : Prop where
  store : rt'.store = rt.store
  hosts : ∀ cid, rt'.hosts cid = rt.hosts cid
  counts : ∀ c, rt'.metrics.storeCount c = rt.metrics.storeCount c

theorem Unbooked.trans {rt'' : ServerRuntime (LoggedStore σ)} (h : Unbooked rt rt')
    (h' : Unbooked rt' rt'') : Unbooked rt rt'' where
  store := h'.store.trans h.store
  hosts := fun cid => (h'.hosts cid).trans (h.hosts cid)
  counts := fun c => (h'.counts c).trans (h.counts c)

theorem Booked.unbooked (h : Booked rt) (hsame : Unbooked rt rt') : Booked rt' where
  open_iff := fun cid => by rw [hsame.store, hsame.hosts]; exact h.open_iff cid
  counted := fun c => by rw [hsame.store, hsame.counts]; exact h.counted c

/-- One call of the store for `cid`, in its place and counted. -/
structure Books (cid : UInt64) (use : StoreUse) (rt rt' : ServerRuntime (LoggedStore σ)) : Prop where
  uses : rt'.store.uses = rt.store.uses ++ [(cid, use)]
  next : use.next (rt.hosts cid) = some (rt'.hosts cid)
  others : ∀ other, other ≠ cid → rt'.hosts other = rt.hosts other
  counts : ∀ c : StoreCounter, rt'.metrics.storeCount c =
    if c.counts use then bump (rt.metrics.storeCount c) else rt.metrics.storeCount c

theorem Booked.books (h : Booked rt) (hbooks : Books cid use rt rt') : Booked rt' where
  open_iff := fun other => by
    have hbefore := h.open_iff other
    rw [hbooks.uses, usesFor, List.filterMap_append]
    by_cases hother : cid = other
    · subst hother
      rw [usesFor] at hbefore
      simp [hbefore, hbooks.next]
    · rw [hbooks.others other (Ne.symm hother)]
      simpa [hother, usesFor] using hbefore
  counted := fun c => by
    rw [hbooks.uses, List.countP_append, hbooks.counts]
    have hbefore := h.counted c
    by_cases hc : c.counts use
    · rw [if_pos hc, bump_toNat, hbefore]
      simp only [List.countP_singleton, hc, if_true]
      omega
    · rw [if_neg hc, hbefore]
      simp [hc]

end Books

/-! ### One call -/

section Calls
variable {σ : Type} {rt rt' : ServerRuntime (LoggedStore σ)} {cid : UInt64} {s : SessionRuntime}

theorem hosts_insert (h : (rt.hosts cid) = true) (s : SessionRuntime) :
    Unbooked rt { rt with sessions := rt.sessions.insert cid s } where
  store := rfl
  hosts := fun other => by
    rw [ServerRuntime.hosts, Std.TreeMap.getElem?_insert]
    split_ifs with heq
    · rw [← Std.LawfulEqCmp.eq_of_compare heq, h]
      rfl
    · rfl
  counts := fun _ => rfl

theorem observeCoreEvent_storeCount (m : ServerRuntimeMetrics) (event : Event)
    (c : StoreCounter) : (observeCoreEvent m event).storeCount c = m.storeCount c := by
  cases event <;> cases c <;> rfl

theorem observed_storeCount (events : List Event) (m : ServerRuntimeMetrics) (c : StoreCounter) :
    (events.foldl observeCoreEvent m).storeCount c = m.storeCount c := by
  induction events generalizing m with
  | nil => rfl
  | cons event events ih => rw [List.foldl_cons, ih, observeCoreEvent_storeCount]

theorem observeDatagram_storeCount (cid : UInt64) (rt : ServerRuntime σ) (d : OutboundDatagram)
    (c : StoreCounter) :
    (rt.observeDatagram cid d).metrics.storeCount c = rt.metrics.storeCount c := by
  unfold ServerRuntime.observeDatagram
  split
  · rfl
  · split
    · cases c <;> rfl
    · split_ifs
      · dsimp only
        split
        · cases c <;> rfl
        · split_ifs <;> cases c <;> rfl
      · cases c <;> rfl
    · rfl

theorem observeDatagrams_storeCount (cid : UInt64) (ds : List OutboundDatagram)
    (rt : ServerRuntime σ) (c : StoreCounter) :
    (rt.observeDatagrams cid ds).metrics.storeCount c = rt.metrics.storeCount c := by
  induction ds generalizing rt with
  | nil => rfl
  | cons d ds ih => exact (ih _).trans (observeDatagram_storeCount cid rt d c)

/-- What `apply_core_output` does before it asks the store. -/
def ServerRuntime.takeIn (rt : ServerRuntime σ) (cid : UInt64) (src : UInt32)
    (out : CoreOutput) : ServerRuntime σ :=
  (({ rt with metrics := out.events.foldl observeCoreEvent rt.metrics } :
    ServerRuntime σ).ingestTimers cid out.timerActions).observeDatagrams cid
      (out.outboundDatagrams.map (ServerRuntime.redirect src))

theorem observeDatagrams_unbooked (hs : rt.hosts cid = true) (ds : List OutboundDatagram) :
    Unbooked rt (rt.observeDatagrams cid ds) where
  store := (observeDatagrams_observed cid ds rt).store
  hosts := fun other => by
    have hobserved := observeDatagrams_observed cid ds rt
    by_cases hother : other = cid
    · subst hother
      obtain ⟨s, hsome⟩ := Option.isSome_iff_exists.mp hs
      obtain ⟨ids, hids⟩ := hobserved.session s hsome
      rw [ServerRuntime.hosts, hids, hs]
      rfl
    · rw [ServerRuntime.hosts, hobserved.others other hother, ServerRuntime.hosts]
  counts := observeDatagrams_storeCount cid ds rt

theorem takeIn_unbooked (hs : rt.hosts cid = true) (src : UInt32) (out : CoreOutput) :
    Unbooked rt (rt.takeIn cid src out) := by
  let rt₁ := ({ rt with metrics := out.events.foldl observeCoreEvent rt.metrics } :
    ServerRuntime (LoggedStore σ)).ingestTimers cid out.timerActions
  have hcounted : Unbooked rt rt₁ :=
    ⟨rfl, fun _ => rfl, observed_storeCount out.events rt.metrics⟩
  exact hcounted.trans (observeDatagrams_unbooked ((hcounted.hosts cid).trans hs) _)

variable [SessionStore σ]

theorem ensureSessionLoaded_storeCount (rt : ServerRuntime σ) (hnone : rt.sessions[cid]? = none)
    (src : UInt32) (nowMs : UInt64) (c : StoreCounter) :
    (rt.ensureSessionLoaded cid src nowMs).1.metrics.storeCount c =
      if c.counts (.load (SessionStore.load rt.store cid nowMs).2.isOk)
      then bump (rt.metrics.storeCount c) else rt.metrics.storeCount c := by
  have hin : rt.sessions.contains cid = false := by
    rw [Std.TreeMap.contains_eq_isSome_getElem?, hnone]
    rfl
  simp only [ServerRuntime.ensureSessionLoaded, hin, Bool.false_eq_true, if_false]
  cases hload : (SessionStore.load rt.store cid nowMs).2 with
  | error e => cases c <;> rfl
  | ok loaded =>
    dsimp only
    unfold ServerRuntime.updatePeakSessionsMetric
    split_ifs <;> cases c <;> first | rfl | contradiction

/-- What the store is asked for once a session has been called. -/
def useOf (rt : ServerRuntime σ) (cid nowMs : UInt64) (s : SessionRuntime) : StoreUse :=
  if s.core.state = .lost then .delete (rt.written cid nowMs s).2.isOk
  else .upsert (rt.written cid nowMs s).2.isOk

theorem persist_storeCount {rt : ServerRuntime σ} (hs : rt.sessions[cid]? = some s)
    (nowMs : UInt64) (c : StoreCounter) :
    (rt.persist cid nowMs).1.metrics.storeCount c =
      if c.counts (useOf rt cid nowMs s) then bump (rt.metrics.storeCount c)
      else rt.metrics.storeCount c := by
  by_cases hlost : s.core.state = .lost
  · simp only [ServerRuntime.persist, hs, useOf, hlost, if_true, ServerRuntime.written]
    cases hdel : SessionStore.delete rt.store cid with
    | mk store deleted => cases deleted <;> cases c <;> rfl
  · simp only [ServerRuntime.persist, hs, useOf, hlost, if_false, ServerRuntime.written]
    have hrec : ∀ m : ServerRuntimeMetrics,
        ({ rt with metrics := m } : ServerRuntime σ).recordOf cid s = rt.recordOf cid s :=
      fun _ => rfl
    rw [hrec]
    cases hup : SessionStore.upsert rt.store cid (rt.recordOf cid s) rt.cfg.disconnectWindowMs
        nowMs with
    | mk store written => cases written <;> cases c <;> rfl

theorem ensureSessionLoaded_booked (h : Booked rt) (cid : UInt64) (src : UInt32)
    (nowMs : UInt64) : Booked (rt.ensureSessionLoaded cid src nowMs).1 := by
  obtain ⟨e, rt₁, heq, hnone, hload, -, hstore, hsessions, -⟩ | ⟨s, rt₁, heq, -, henter⟩ :=
    ensureSessionLoaded_cases rt cid src nowMs
  · have hcount := ensureSessionLoaded_storeCount rt hnone src nowMs
    rw [heq] at hcount ⊢
    suffices hbooks : Books cid (.load (SessionStore.load rt.store cid nowMs).2.isOk) rt rt₁ from
      h.books hbooks
    refine ⟨?_, ?_, fun other _ => ?_, hcount⟩
    · rw [hstore]
      rfl
    · rw [hload, ServerRuntime.hosts, ServerRuntime.hosts, hsessions, hnone]
      rfl
    · rw [ServerRuntime.hosts, hsessions, ServerRuntime.hosts]
  · rw [heq]
    cases henter with
    | present => exact h
    | @fresh loaded _ hnone hload _ hstore hsessions _ =>
      have hcount := ensureSessionLoaded_storeCount rt hnone src nowMs
      rw [heq] at hcount
      suffices hbooks : Books cid (.load (SessionStore.load rt.store cid nowMs).2.isOk) rt rt₁ from
        h.books hbooks
      refine ⟨?_, ?_, fun other hne => ?_, hcount⟩
      · rw [hstore]
        rfl
      · rw [hload, ServerRuntime.hosts, ServerRuntime.hosts, hsessions, hnone]
        simp [StoreUse.next, Except.isOk, Except.toBool]
      · rw [ServerRuntime.hosts, hsessions, Std.TreeMap.getElem?_insert,
          if_neg (by simpa using Ne.symm hne), ServerRuntime.hosts]

theorem persist_booked (h : Booked rt) (hs : rt.sessions[cid]? = some s) (nowMs : UInt64) :
    Booked (rt.persist cid nowMs).1 := by
  have hpersisted := persist_persisted hs nowMs
  let answer := SessionStore.upsert rt.store.store cid (rt.recordOf cid s)
    rt.cfg.disconnectWindowMs nowMs
  suffices hbooks : Books cid (useOf rt cid nowMs s) rt _ from h.books hbooks
  refine ⟨?_, ?_, fun other hne => ?_, persist_storeCount hs nowMs⟩
  · rw [hpersisted.store, useOf]
    unfold ServerRuntime.written
    split_ifs
    · rfl
    · have hlog : SessionStore.upsert rt.store cid (rt.recordOf cid s) rt.cfg.disconnectWindowMs
          nowMs = (⟨answer.1, rt.store.uses ++ [(cid, .upsert answer.2.isOk)]⟩, answer.2) := rfl
      rw [hlog]
      cases answer.2 <;> rfl
  · rw [ServerRuntime.hosts, ServerRuntime.hosts, hpersisted.kept, hs, useOf]
    split_ifs <;> rfl
  · rw [ServerRuntime.hosts, hpersisted.others other hne, ServerRuntime.hosts]

variable [Base64] {src : UInt32} {nowMs : UInt64} {res : RuntimeResult}

theorem drive_booked (h : Booked rt) (hs : rt.sessions[cid]? = some s) (src : UInt32)
    (nowMs : UInt64) (called : CoreMachine × CallResult) :
    Booked (rt.drive cid s src nowMs called).1 := by
  obtain ⟨core, res⟩ := called
  have hhosts : rt.hosts cid = true := by rw [ServerRuntime.hosts, hs]; rfl
  have hinsert := hosts_insert hhosts { s with core := core }
  cases res with
  | error e => exact h.unbooked hinsert
  | ok out =>
    have htaken := hinsert.trans (takeIn_unbooked ((hinsert.hosts cid).trans hhosts) src out)
    obtain ⟨s₁, hs₁⟩ := Option.isSome_iff_exists.mp ((htaken.hosts cid).trans hhosts)
    exact persist_booked (h.unbooked htaken) hs₁ nowMs

theorem fire_booked (h : Booked rt) (nowMs : UInt64) (due : DueTimer) :
    Booked (rt.fire nowMs due).1 := by
  have htimers : Booked { rt with
      timers := dropTimer rt.timers due.deadline (due.cid, due.timerId) } :=
    h.unbooked ⟨rfl, fun _ => rfl, fun _ => rfl⟩
  unfold ServerRuntime.fire
  dsimp only
  cases hs : rt.sessions[due.cid]? with
  | none => exact htimers
  | some s => exact drive_booked htimers hs 0 nowMs _

theorem onDatagram_booked (h : Booked rt) (nowMs : UInt64) (src : UInt32) (bytes : Bytes) :
    Booked (rt.onDatagram nowMs src bytes).1 := by
  cases hdec : WireFrame.decode bytes with
  | error e =>
    simp only [ServerRuntime.onDatagram, hdec]
    exact h.unbooked ⟨rfl, fun _ => rfl, fun c => by cases c <;> rfl⟩
  | ok frame =>
    have hensure := ensureSessionLoaded_booked h frame.cid src nowMs
    obtain ⟨e, rt₁, heq, -⟩ | ⟨s, rt₁, heq, hs, -⟩ :=
      ensureSessionLoaded_cases rt frame.cid src nowMs
    · rw [heq] at hensure
      simp only [ServerRuntime.onDatagram, hdec, heq]
      exact hensure
    · rw [heq] at hensure
      simp only [ServerRuntime.onDatagram, hdec, heq, hs]
      exact drive_booked hensure hs src nowMs _

theorem step_booked {op : Op} (h : Booked rt) (hstep : rt.step op = some (rt', res)) :
    Booked rt' := by
  cases op with
  | datagram nowMs src bytes =>
    obtain ⟨rfl, -⟩ := Prod.mk.inj (Option.some.inj hstep)
    exact onDatagram_booked h nowMs src bytes
  | pollTimers nowMs limit =>
    obtain ⟨rfl, -⟩ := step_polled hstep
    exact poll_invariant h fun x _ hx => fire_booked hx nowMs x.2
  | sendMessage cid payload nowMs =>
    have hsend : rt.sendMessage cid payload nowMs = some (rt', res) := hstep
    unfold ServerRuntime.sendMessage at hsend
    cases hs : rt.sessions[cid]? with
    | none =>
      simp only [hs, Option.some.injEq, Prod.mk.injEq] at hsend
      obtain ⟨rfl, -⟩ := hsend
      exact h
    | some s =>
      simp only [hs, Option.map_eq_some_iff] at hsend
      obtain ⟨called, -, heq⟩ := hsend
      have hdrive := drive_booked h hs 0 nowMs called
      rwa [heq] at hdrive

theorem booked_of_run {cfg : CoreConfig} {store : σ} {h : ServerHistory (LoggedStore σ)}
    (hrun : Run ServerRuntime.step (ServerRuntime.new cfg ⟨store, []⟩) h rt) : Booked rt := by
  induction hrun with
  | nil =>
    refine ⟨fun cid => ?_, fun c => ?_⟩
    · simp [ServerRuntime.new, usesFor, ServerRuntime.hosts]
    · cases c <;> rfl
  | snoc _ hstep ih => exact step_booked ih hstep

end Calls

/-! ### The log changes nothing -/

section Plain
variable {σ : Type}

/-- The runtime over the store without the log. -/
def ServerRuntime.plain (rt : ServerRuntime (LoggedStore σ)) : ServerRuntime σ :=
  ⟨rt.cfg, rt.store.store, rt.sessions, rt.timers, rt.metrics⟩

theorem plain_observeDatagram (cid : UInt64) (rt : ServerRuntime (LoggedStore σ))
    (d : OutboundDatagram) :
    rt.plain.observeDatagram cid d = (rt.observeDatagram cid d).plain := by
  unfold ServerRuntime.observeDatagram
  cases hdec : WireFrame.decode d.bytes with
  | error e => rfl
  | ok frame =>
    dsimp only
    cases frame.messageType with
    | data =>
      dsimp only [ServerRuntime.plain]
      split_ifs
      · cases rt.sessions[cid]? with
        | none => rfl
        | some s =>
          dsimp only
          split_ifs <;> rfl
      · rfl
    | _ => rfl

theorem plain_observeDatagrams (cid : UInt64) (ds : List OutboundDatagram)
    (rt : ServerRuntime (LoggedStore σ)) :
    rt.plain.observeDatagrams cid ds = (rt.observeDatagrams cid ds).plain := by
  induction ds generalizing rt with
  | nil => rfl
  | cons d ds ih =>
    have hfirst := plain_observeDatagram cid rt d
    exact (congrArg (ServerRuntime.observeDatagrams · cid ds) hfirst).trans (ih _)

variable [SessionStore σ]

omit [SessionStore σ] in
theorem updatePeak_plain (rt : ServerRuntime (LoggedStore σ)) :
    rt.plain.updatePeakSessionsMetric = rt.updatePeakSessionsMetric.plain := by
  rw [ServerRuntime.updatePeakSessionsMetric, ServerRuntime.updatePeakSessionsMetric]
  by_cases hmore : UInt64.ofNat rt.sessions.size > rt.metrics.peakSessions
  · have hmore' : UInt64.ofNat rt.plain.sessions.size > rt.plain.metrics.peakSessions := hmore
    rw [if_pos hmore', if_pos hmore]
    rfl
  · have hmore' : ¬ UInt64.ofNat rt.plain.sessions.size > rt.plain.metrics.peakSessions := hmore
    rw [if_neg hmore', if_neg hmore]

theorem plain_ensureSessionLoaded (rt : ServerRuntime (LoggedStore σ)) (cid : UInt64)
    (src : UInt32) (nowMs : UInt64) :
    rt.plain.ensureSessionLoaded cid src nowMs =
      ((rt.ensureSessionLoaded cid src nowMs).1.plain,
        (rt.ensureSessionLoaded cid src nowMs).2) := by
  by_cases hin : rt.sessions.contains cid
  · have hin' : rt.plain.sessions.contains cid := hin
    rw [ServerRuntime.ensureSessionLoaded, ServerRuntime.ensureSessionLoaded, if_pos hin',
      if_pos hin]
  · have hin' : ¬ rt.plain.sessions.contains cid := hin
    rw [ServerRuntime.ensureSessionLoaded, ServerRuntime.ensureSessionLoaded, if_neg hin',
      if_neg hin]
    cases hload : SessionStore.load rt.store.store cid nowMs with
    | mk store loaded =>
      have hplain : SessionStore.load rt.plain.store cid nowMs = (store, loaded) := hload
      have hlog : SessionStore.load rt.store cid nowMs =
          (⟨store, rt.store.uses ++ [(cid, .load loaded.isOk)]⟩, loaded) := by
        change (_, (SessionStore.load rt.store.store cid nowMs).2) = _
        rw [hload]
      simp only [hplain, hlog]
      cases loaded with
      | error e => rfl
      | ok loaded =>
        dsimp only
        rw [← updatePeak_plain]
        rfl

theorem plain_persist (rt : ServerRuntime (LoggedStore σ)) (cid nowMs : UInt64) :
    rt.plain.persist cid nowMs =
      ((rt.persist cid nowMs).1.plain, (rt.persist cid nowMs).2) := by
  cases hs : rt.sessions[cid]? with
  | none =>
    have hs' : rt.plain.sessions[cid]? = none := hs
    simp only [ServerRuntime.persist, hs, hs']
  | some s =>
    have hs' : rt.plain.sessions[cid]? = some s := hs
    by_cases hlost : s.core.state = .lost
    · simp only [ServerRuntime.persist, hs, hs', hlost, if_true]
      cases hdel : SessionStore.delete rt.store.store cid with
      | mk store deleted =>
        have hplain : SessionStore.delete rt.plain.store cid = (store, deleted) := hdel
        have hlog : SessionStore.delete rt.store cid =
            (⟨store, rt.store.uses ++ [(cid, .delete deleted.isOk)]⟩, deleted) := by
          change (_, (SessionStore.delete rt.store.store cid).2) = _
          rw [hdel]
        rw [hplain, hlog]
        cases deleted <;> rfl
    · simp only [ServerRuntime.persist, hs, hs', hlost, if_false]
      cases hup : SessionStore.upsert rt.store.store cid (rt.recordOf cid s)
          rt.cfg.disconnectWindowMs nowMs with
      | mk store written =>
        have hplain : ∀ m : ServerRuntimeMetrics, SessionStore.upsert rt.plain.store cid
            (({ rt.plain with metrics := m } : ServerRuntime σ).recordOf cid s)
            rt.plain.cfg.disconnectWindowMs nowMs = (store, written) := fun _ => hup
        have hlog : ∀ m : ServerRuntimeMetrics, SessionStore.upsert rt.store cid
            (({ rt with metrics := m } : ServerRuntime (LoggedStore σ)).recordOf cid s)
            rt.cfg.disconnectWindowMs nowMs =
              (⟨store, rt.store.uses ++ [(cid, .upsert written.isOk)]⟩, written) := by
          have hsame : ∀ m : ServerRuntimeMetrics, SessionStore.upsert rt.store.store cid
              (({ rt with metrics := m } : ServerRuntime (LoggedStore σ)).recordOf cid s)
              rt.cfg.disconnectWindowMs nowMs = (store, written) := fun _ => hup
          intro m
          change (_, (SessionStore.upsert rt.store.store cid
            (({ rt with metrics := m } : ServerRuntime (LoggedStore σ)).recordOf cid s)
            rt.cfg.disconnectWindowMs nowMs).2) = _
          rw [hsame]
        rw [hplain, hlog]
        cases written <;> rfl

variable [Base64]

theorem applyCoreOutput_eq (rt : ServerRuntime σ) (cid : UInt64) (src : UInt32) (nowMs : UInt64)
    (out : CoreOutput) :
    rt.applyCoreOutput cid src nowMs out = Prod.map id
      (fun res => (res.mapError .store).map fun _ =>
        ⟨out.outboundDatagrams.map (ServerRuntime.redirect src),
          ServerRuntime.runtimeEvents cid out.events⟩)
      ((rt.takeIn cid src out).persist cid nowMs) := by
  cases hres : (rt.takeIn cid src out).persist cid nowMs with
  | mk rt' res =>
    rw [ServerRuntime.takeIn] at hres
    simp only [ServerRuntime.applyCoreOutput, hres]
    cases res <;> rfl

omit [SessionStore σ] [Base64] in
theorem plain_takeIn (rt : ServerRuntime (LoggedStore σ)) (cid : UInt64) (src : UInt32)
    (out : CoreOutput) : rt.plain.takeIn cid src out = (rt.takeIn cid src out).plain :=
  plain_observeDatagrams cid (out.outboundDatagrams.map (ServerRuntime.redirect src))
    (({ rt with metrics := out.events.foldl observeCoreEvent rt.metrics } :
      ServerRuntime (LoggedStore σ)).ingestTimers cid out.timerActions)

theorem plain_drive (rt : ServerRuntime (LoggedStore σ)) (cid : UInt64) (s : SessionRuntime)
    (src : UInt32) (nowMs : UInt64) (called : CoreMachine × CallResult) :
    rt.plain.drive cid s src nowMs called =
      ((rt.drive cid s src nowMs called).1.plain, (rt.drive cid s src nowMs called).2) := by
  obtain ⟨core, res⟩ := called
  cases res with
  | error e => rfl
  | ok out =>
    let rt₁ : ServerRuntime (LoggedStore σ) :=
      { rt with sessions := rt.sessions.insert cid { s with core := core } }
    change rt₁.plain.applyCoreOutput cid src nowMs out =
      ((rt₁.applyCoreOutput cid src nowMs out).1.plain,
        (rt₁.applyCoreOutput cid src nowMs out).2)
    rw [applyCoreOutput_eq, applyCoreOutput_eq, plain_takeIn, plain_persist]
    rfl

theorem plain_fire (nowMs : UInt64) (rt : ServerRuntime (LoggedStore σ)) (due : DueTimer) :
    rt.plain.fire nowMs due = ((rt.fire nowMs due).1.plain, (rt.fire nowMs due).2) := by
  cases hs : rt.sessions[due.cid]? with
  | none =>
    have hs' : rt.plain.sessions[due.cid]? = none := hs
    simp only [ServerRuntime.fire, hs, hs']
    rfl
  | some s =>
    have hs' : rt.plain.sessions[due.cid]? = some s := hs
    simp only [ServerRuntime.fire, hs, hs']
    exact plain_drive { rt with timers := dropTimer rt.timers due.deadline (due.cid, due.timerId) }
      due.cid s 0 nowMs (onTimer s.core nowMs due.timerId)

theorem plain_fireAll (nowMs : UInt64) (dues : List DueTimer)
    (rt : ServerRuntime (LoggedStore σ)) (output : ServerRuntimeOutput) :
    ServerRuntime.fireAll nowMs rt.plain dues output =
      ((ServerRuntime.fireAll nowMs rt dues output).1.plain,
        (ServerRuntime.fireAll nowMs rt dues output).2) := by
  induction dues generalizing rt output with
  | nil => rfl
  | cons due dues ih =>
    rw [ServerRuntime.fireAll, ServerRuntime.fireAll, plain_fire]
    cases rt.fire nowMs due with
    | mk rt₁ res =>
      cases res with
      | error e => rfl
      | ok part => exact ih _ _

theorem plain_onDatagram (rt : ServerRuntime (LoggedStore σ)) (nowMs : UInt64) (src : UInt32)
    (bytes : Bytes) :
    rt.plain.onDatagram nowMs src bytes =
      ((rt.onDatagram nowMs src bytes).1.plain, (rt.onDatagram nowMs src bytes).2) := by
  cases hdec : WireFrame.decode bytes with
  | error e =>
    simp only [ServerRuntime.onDatagram, hdec]
    rfl
  | ok frame =>
    simp only [ServerRuntime.onDatagram, hdec, plain_ensureSessionLoaded]
    cases rt.ensureSessionLoaded frame.cid src nowMs with
    | mk rt₁ res =>
      cases res with
      | error e => rfl
      | ok u =>
        dsimp only
        cases hs : rt₁.sessions[frame.cid]? with
        | none =>
          have hs' : rt₁.plain.sessions[frame.cid]? = none := hs
          simp only [hs']
        | some s =>
          have hs' : rt₁.plain.sessions[frame.cid]? = some s := hs
          simp only [hs', plain_drive]

/-- A call makes the same of the runtime with and without the log, and returns the same. -/
theorem plain_step (rt : ServerRuntime (LoggedStore σ)) (op : Op) :
    rt.plain.step op = (rt.step op).map fun r => (r.1.plain, r.2) := by
  cases op with
  | datagram nowMs src bytes => exact congrArg some (plain_onDatagram rt nowMs src bytes)
  | pollTimers nowMs limit => exact congrArg some (plain_fireAll nowMs _ rt {})
  | sendMessage cid payload nowMs =>
    cases hs : rt.sessions[cid]? with
    | none =>
      have hs' : rt.plain.sessions[cid]? = none := hs
      simp only [ServerRuntime.step, ServerRuntime.sendMessage, hs, hs', Option.map_some]
    | some s =>
      have hs' : rt.plain.sessions[cid]? = some s := hs
      simp only [ServerRuntime.step, ServerRuntime.sendMessage, hs, hs', Option.map_map]
      exact congrArg (Option.map · (onApiSend s.core payload))
        (funext fun called => plain_drive rt cid s 0 nowMs called)

/-- A run over a store is a run over the store with a log. -/
theorem logged_run {cfg : CoreConfig} {store : σ} {h : ServerHistory σ} {rt : ServerRuntime σ}
    (hrun : Run ServerRuntime.step (ServerRuntime.new cfg store) h rt) :
    ∃ (logged : ServerHistory (LoggedStore σ)) (rt' : ServerRuntime (LoggedStore σ)),
      Run ServerRuntime.step (ServerRuntime.new cfg ⟨store, []⟩) logged rt' ∧ rt'.plain = rt ∧
        logged.map (fun t => (t.input, t.output)) = h.map fun t => (t.input, t.output) := by
  induction hrun with
  | nil => exact ⟨[], _, .nil, rfl, rfl⟩
  | @snoc h rt rt₁ op res _ hstep ih =>
    obtain ⟨logged, rt', hlogged, rfl, hsame⟩ := ih
    rw [plain_step, Option.map_eq_some_iff] at hstep
    obtain ⟨⟨rt₁', res'⟩, hstep', heq⟩ := hstep
    obtain ⟨rfl, rfl⟩ := Prod.mk.inj heq
    exact ⟨_, rt₁', hlogged.snoc hstep', rfl, by simp [hsame]⟩

/-- In any run, whatever the store answers, the calls made of it for a cid are loads until one
succeeds, then writes, then a delete, and so on again; a cid has a session just where it is
between such a load and the delete; and the six counters count the calls and the failures, as
far as they can. -/
theorem store_calls_in_turn {cfg : CoreConfig} {store : σ} {h : ServerHistory σ}
    {rt : ServerRuntime σ}
    (hrun : Run ServerRuntime.step (ServerRuntime.new cfg store) h rt) :
    ∃ (logged : ServerHistory (LoggedStore σ)) (rt' : ServerRuntime (LoggedStore σ)),
      Run ServerRuntime.step (ServerRuntime.new cfg ⟨store, []⟩) logged rt' ∧ rt'.plain = rt ∧
      logged.map (fun t => (t.input, t.output)) = h.map (fun t => (t.input, t.output)) ∧
      (∀ cid, (usesFor cid rt'.store.uses).foldlM StoreUse.next false = some (rt.hosts cid)) ∧
      ∀ c : StoreCounter, (rt.metrics.storeCount c).toNat =
        min (rt'.store.uses.countP fun u => c.counts u.2) u64Max := by
  obtain ⟨logged, rt', hlogged, rfl, hsame⟩ := logged_run hrun
  have hbooked := booked_of_run hlogged
  exact ⟨logged, rt', hlogged, rfl, hsame, hbooked.open_iff, hbooked.counted⟩

end Plain

/-- A session is closed by its client and opened again. -/
def reopenedSession : List Op :=
  [.datagram 0 1 ((Packet.control .clientHello).bytes 7),
    .datagram 1 1 ((Packet.control .close).bytes 7),
    .datagram 2 1 ((Packet.control .clientHello).bytes 7)]

theorem reopenedSession_in_turn :
    ∃ h rt, exec ServerRuntime.step defaultServer reopenedSession = some (h, rt) ∧
      rt.hosts 7 = true ∧ rt.metrics.storeLoadCalls = 2 ∧
      ∃ (logged : ServerHistory (LoggedStore InMemorySessionStore))
        (rt' : ServerRuntime (LoggedStore InMemorySessionStore)),
        Run ServerRuntime.step (ServerRuntime.new .default ⟨.withDefaultShards, []⟩) logged rt' ∧
        rt'.plain = rt ∧
        logged.map (fun t => (t.input, t.output)) = h.map (fun t => (t.input, t.output)) ∧
        (∀ cid, (usesFor cid rt'.store.uses).foldlM StoreUse.next false = some (rt.hosts cid)) ∧
        ∀ c : StoreCounter, (rt.metrics.storeCount c).toNat =
          min (rt'.store.uses.countP fun u => c.counts u.2) u64Max := by
  have hsome : (exec ServerRuntime.step defaultServer reopenedSession).any (fun x =>
      x.2.hosts 7 = true ∧ x.2.metrics.storeLoadCalls = 2) = true := by decide +kernel
  obtain ⟨⟨h, rt⟩, hexec, hx⟩ := (Option.any_eq_true _ _).mp hsome
  obtain ⟨hhosts, hloads⟩ := of_decide_eq_true hx
  exact ⟨h, rt, hexec, hhosts, hloads, store_calls_in_turn (Run.of_exec hexec)⟩

end Todero.Server
