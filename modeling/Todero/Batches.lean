import Todero.Deadlines
import Todero.Disconnects

/-! Polls in batches. What a poll fires schedules nothing that is due at the same time, so
several polls at one time come to one poll with the sum of their limits. -/
namespace Todero.Server
open Todero.Wire Todero.Core Todero.Store Transition

/-! ### The due entries -/

/-- The entries that are due, in the order a poll works them off. -/
def dueQueue (timers : TimerMap) (nowMs : UInt64) : List DueTimer :=
  (Agenda.dueEntries timers nowMs).map dueTimer

section Queue
variable {timers : TimerMap} {nowMs : UInt64}

theorem collectDue_dueQueue (timers : TimerMap) (nowMs : UInt64) (limit : Nat) :
    collectDue nowMs limit timers.toList [] = (dueQueue timers nowMs).take limit := by
  rw [dueQueue, ← List.map_take, ← Agenda.collect_dueEntries]
  exact collectDue_eq_collect nowMs limit timers.toList []

theorem dueQueue_drop {due : DueTimer} {rest : List DueTimer}
    (h : dueQueue timers nowMs = due :: rest) :
    dueQueue (dropTimer timers due.deadline (due.cid, due.timerId)) nowMs = rest := by
  obtain ⟨e, l, hentries, rfl, rfl⟩ := List.map_eq_cons_iff.mp h
  rw [dropTimer_eq_take, dueQueue]
  exact congrArg (List.map dueTimer) (Agenda.dueEntries_take hentries)

/-- What is scheduled for later is not due. -/
theorem dueQueue_pushes {as : List TimerAction}
    (hlate : ∀ id deadline, .schedule id deadline ∈ as → nowMs < deadline) (cid : UInt64)
    (timers : TimerMap) :
    dueQueue (as.foldl (pushTimer cid) timers) nowMs = dueQueue timers nowMs := by
  induction as generalizing timers with
  | nil => rfl
  | cons a as ih =>
    obtain ⟨id, deadline⟩ := a
    have hfirst : nowMs < deadline := hlate id deadline List.mem_cons_self
    have hnot : ¬ (compare deadline nowMs).isLE := by
      rw [Std.isLE_compare]
      exact UInt64.not_le.mpr hfirst
    have hrest : ∀ id deadline, .schedule id deadline ∈ as → nowMs < deadline :=
      fun id deadline hmem => hlate id deadline (List.mem_cons_of_mem _ hmem)
    rw [List.foldl_cons, ih hrest]
    exact congrArg (List.map dueTimer) (Agenda.dueEntries_push hnot (cid, id))

end Queue

/-! ### What fires schedules ahead -/

/-- The two lengths of a session are positive, and there is room for them after `nowMs`. -/
def RunsAhead (nowMs : UInt64) (cfg : CoreConfig) : Prop :=
  (0 < cfg.msrIntervalMs ∧ 0 < cfg.disconnectWindowMs) ∧
    nowMs.toNat + cfg.msrIntervalMs.toNat < 2 ^ 64 ∧
      nowMs.toNat + cfg.disconnectWindowMs.toNat < 2 ^ 64

instance (nowMs : UInt64) (cfg : CoreConfig) : Decidable (RunsAhead nowMs cfg) :=
  inferInstanceAs (Decidable (_ ∧ _))

theorem onTimer_ahead {m : CoreMachine} {nowMs : UInt64} (hahead : RunsAhead nowMs m.cfg)
    (hlive : m.state ≠ .lost) (id : TimerId) :
    ∀ id' deadline, .schedule id' deadline ∈ (onTimer m nowMs id).2.output.timerActions →
      nowMs < deadline := by
  have hs : m.step (.call (.timer nowMs id)) = some (onTimer m nowMs id) := rfl
  obtain ⟨⟨hinterval, hwindow⟩, hroom⟩ := hahead
  have hiff := scheduledAhead_iff (t := ⟨m, .call (.timer nowMs id), _, _⟩) hs hinterval hwindow
    fun nowMs' hnow => by
      obtain rfl := Option.some.inj hnow
      exact hroom
  refine hiff.mpr ?_ nowMs rfl
  rintro ⟨_, -, hlost, -⟩
  exact hlive hlost

/-! ### Polls one after the other -/

section Polls
variable {σ : Type} [SessionStore σ] [Base64] {rt rt' : ServerRuntime σ} {cid : UInt64}
  {s : SessionRuntime} {src : UInt32} {nowMs : UInt64} {res : RuntimeResult}

/-- Polls at one time, each with its own limit, up to the first that fails. -/
def ServerRuntime.polls (nowMs : UInt64) :
    ServerRuntime σ → List Nat → ServerRuntimeOutput → ServerRuntime σ × RuntimeResult
  | rt, [], output => (rt, .ok output)
  | rt, limit :: rest, output =>
    match rt.pollTimers nowMs limit with
    | (rt, .error e) => (rt, .error e)
    | (rt, .ok part) => polls nowMs rt rest
        ⟨output.outboundDatagrams ++ part.outboundDatagrams, output.events ++ part.events⟩

/-- No session is lost, and every session can schedule ahead of `nowMs`. -/
structure ServerRuntime.Ahead (rt : ServerRuntime σ) (nowMs : UInt64) : Prop where
  live : rt.NoneLost
  ahead : ∀ (cid : UInt64) (s : SessionRuntime), rt.sessions[cid]? = some s →
    RunsAhead nowMs s.core.cfg

theorem Fired.noneLost {due : DueTimer} (h : Fired rt nowMs due rt' res) (hlive : rt.NoneLost) :
    rt'.NoneLost := by
  cases h with
  | skipped => exact hlive
  | visited hs hdrive =>
    have honce := apply_announced (hlive _ _ hs) (k := .timer nowMs due.timerId) rfl
    exact hdrive.noneLost honce fun other s' _ hs' => hlive other s' hs'

theorem Received.noneLost {bytes : Bytes} (h : Received rt nowMs src bytes rt' res)
    (hlive : rt.NoneLost) : rt'.NoneLost := by
  cases h with
  | undecodable => exact hlive
  | unloaded _ _ _ _ _ hsessions =>
    intro cid s hs
    rw [hsessions] at hs
    exact hlive cid s hs
  | visited _ henter hdrive =>
    refine hdrive.noneLost (onDatagram_announced (henter.live hlive) nowMs src bytes) ?_
    intro other s hne hs
    rw [henter.others hne] at hs
    exact hlive other s hs

theorem Sent.noneLost {payload : Bytes} (h : Sent rt cid payload nowMs rt' res)
    (hlive : rt.NoneLost) : rt'.NoneLost := by
  cases h with
  | skipped => exact hlive
  | @visited s called _ _ hs hcall hdrive =>
    have honce : AnnouncedOnce called := apply_announced (hlive _ _ hs) (k := .send payload) hcall
    exact hdrive.noneLost honce fun other s' _ hs' => hlive other s' hs'

theorem noneLost_of_run {cfg : CoreConfig} {store : σ} {h : ServerHistory σ}
    (hrun : Run ServerRuntime.step (ServerRuntime.new cfg store) h rt) : rt.NoneLost := by
  induction hrun with
  | nil =>
    intro cid s hs
    simp [ServerRuntime.new] at hs
  | @snoc h rt rt' op res _ hs ih =>
    cases op with
    | datagram nowMs src bytes => exact (step_received hs).noneLost ih
    | pollTimers nowMs limit =>
      obtain ⟨rfl, -⟩ := step_polled hs
      exact poll_invariant ih fun x _ hx => (fire_fired nowMs x.1 x.2).noneLost hx
    | sendMessage cid payload nowMs => exact (sendMessage_sent hs).noneLost ih

theorem Fired.ahead {due : DueTimer} (h : Fired rt nowMs due rt' res) (hrt : rt.Ahead nowMs) :
    rt'.Ahead nowMs := by
  refine ⟨h.noneLost hrt.live, fun cid s' hs' => ?_⟩
  have hcfg : ∀ (m : CoreMachine) k, (m.next k).cfg = m.cfg :=
    fun m k => congrArg Lasting.cfg (next_lasting m k)
  obtain ⟨s, hs, heq⟩ := h.keeps hcfg hs'
  rw [heq]
  exact hrt.ahead cid s hs

/-- An entry that fires leaves the due entries after it, and adds none. -/
theorem Fired.dueQueue {due : DueTimer} {rest : List DueTimer} (h : Fired rt nowMs due rt' res)
    (hrt : rt.Ahead nowMs) (hqueue : Server.dueQueue rt.timers nowMs = due :: rest) :
    Server.dueQueue rt'.timers nowMs = rest := by
  cases h with
  | skipped => exact dueQueue_drop hqueue
  | @visited s _ _ hs hdrive =>
    have hlate := onTimer_ahead (hrt.ahead _ s hs) (hrt.live _ s hs) due.timerId
    rw [hdrive.timers, dueQueue_pushes hlate]
    exact dueQueue_drop hqueue

theorem fireAll_dueQueue {dues rest : List DueTimer} {output out : ServerRuntimeOutput}
    (hrt : rt.Ahead nowMs) (hqueue : dueQueue rt.timers nowMs = dues ++ rest)
    (h : ServerRuntime.fireAll nowMs rt dues output = (rt', .ok out)) :
    rt'.Ahead nowMs ∧ dueQueue rt'.timers nowMs = rest := by
  induction dues generalizing rt output with
  | nil =>
    obtain ⟨rfl, -⟩ := Prod.mk.inj h
    exact ⟨hrt, hqueue⟩
  | cons due dues ih =>
    have hfired := fire_fired nowMs rt due
    rw [ServerRuntime.fireAll] at h
    cases hf : rt.fire nowMs due with
    | mk rt₁ res =>
      rw [hf] at h hfired
      cases res with
      | error e => simp at h
      | ok part => exact ih (hfired.ahead hrt) (hfired.dueQueue hrt hqueue) h

theorem fireAll_append_ok {dues : List DueTimer} {output out : ServerRuntimeOutput}
    (h : ServerRuntime.fireAll nowMs rt dues output = (rt', .ok out)) (rest : List DueTimer) :
    ServerRuntime.fireAll nowMs rt (dues ++ rest) output =
      ServerRuntime.fireAll nowMs rt' rest out := by
  induction dues generalizing rt output with
  | nil =>
    obtain ⟨rfl, hout⟩ := Prod.mk.inj h
    rw [List.nil_append, Except.ok.inj hout]
  | cons due dues ih =>
    rw [List.cons_append]
    rw [ServerRuntime.fireAll] at h ⊢
    cases hf : rt.fire nowMs due with
    | mk rt₁ res =>
      rw [hf] at h
      cases res with
      | error e => simp at h
      | ok part => exact ih h

theorem fireAll_append_error {dues : List DueTimer} {output : ServerRuntimeOutput}
    {e : ServerRuntimeError} (h : ServerRuntime.fireAll nowMs rt dues output = (rt', .error e))
    (rest : List DueTimer) :
    ServerRuntime.fireAll nowMs rt (dues ++ rest) output = (rt', .error e) := by
  induction dues generalizing rt output with
  | nil => simp [ServerRuntime.fireAll] at h
  | cons due dues ih =>
    rw [List.cons_append]
    rw [ServerRuntime.fireAll] at h ⊢
    cases hf : rt.fire nowMs due with
    | mk rt₁ res =>
      rw [hf] at h
      cases res with
      | error e => exact h
      | ok part => exact ih h

/-- What stands in the output already stays in front. -/
theorem fireAll_output (nowMs : UInt64) (output part : ServerRuntimeOutput)
    (dues : List DueTimer) (rt : ServerRuntime σ) :
    ServerRuntime.fireAll nowMs rt dues
        ⟨output.outboundDatagrams ++ part.outboundDatagrams, output.events ++ part.events⟩ =
      ((ServerRuntime.fireAll nowMs rt dues part).1,
        (ServerRuntime.fireAll nowMs rt dues part).2.map fun out =>
          ⟨output.outboundDatagrams ++ out.outboundDatagrams, output.events ++ out.events⟩) := by
  induction dues generalizing rt part with
  | nil => rfl
  | cons due dues ih =>
    rw [ServerRuntime.fireAll, ServerRuntime.fireAll]
    cases hf : rt.fire nowMs due with
    | mk rt₁ res =>
      cases res with
      | error e => rfl
      | ok fired =>
        have hnext := ih ⟨part.outboundDatagrams ++ fired.outboundDatagrams,
          part.events ++ fired.events⟩ rt₁
        simp only [List.append_assoc] at hnext ⊢
        exact hnext

theorem polls_fireAll (limits : List Nat) {output : ServerRuntimeOutput}
    (hrt : rt.Ahead nowMs) : rt.polls nowMs limits output =
      ServerRuntime.fireAll nowMs rt ((dueQueue rt.timers nowMs).take limits.sum) output := by
  induction limits generalizing rt output with
  | nil => rfl
  | cons limit limits ih =>
    have hsplit : (dueQueue rt.timers nowMs).take (limit :: limits).sum =
        (dueQueue rt.timers nowMs).take limit ++
          ((dueQueue rt.timers nowMs).drop limit).take limits.sum := by
      rw [List.sum_cons, List.take_add]
    have hpoll : rt.pollTimers nowMs limit =
        ServerRuntime.fireAll nowMs rt ((dueQueue rt.timers nowMs).take limit) {} := by
      rw [ServerRuntime.pollTimers, collectDue_dueQueue]
    have houtput := fireAll_output nowMs output {} ((dueQueue rt.timers nowMs).take limit) rt
    rw [hsplit, ServerRuntime.polls, hpoll]
    cases hf : ServerRuntime.fireAll nowMs rt ((dueQueue rt.timers nowMs).take limit) {} with
    | mk rt₁ res =>
      simp only [hf, List.append_nil] at houtput
      cases res with
      | error e => exact (fireAll_append_error houtput _).symm
      | ok part =>
        obtain ⟨hrt₁, hqueue⟩ := fireAll_dueQueue hrt (List.take_append_drop limit _).symm hf
        rw [fireAll_append_ok houtput, ← hqueue]
        exact ih hrt₁

/-- However the limit is shared out over polls at one time, they do what one poll with all of
it does, and leave due what it did not reach. -/
theorem polls_eq_poll {cfg : CoreConfig} {store : σ} {h : ServerHistory σ}
    (hrun : Run ServerRuntime.step (ServerRuntime.new cfg store) h rt)
    (hahead : ∀ (cid : UInt64) (s : SessionRuntime), rt.sessions[cid]? = some s →
      RunsAhead nowMs s.core.cfg) (limits : List Nat) :
    rt.polls nowMs limits {} = rt.pollTimers nowMs limits.sum ∧
      ∀ rt' out, rt.polls nowMs limits {} = (rt', .ok out) →
        dueQueue rt'.timers nowMs = (dueQueue rt.timers nowMs).drop limits.sum := by
  have hrt : rt.Ahead nowMs := ⟨noneLost_of_run hrun, hahead⟩
  have hpolls : rt.polls nowMs limits {} = _ := polls_fireAll limits hrt
  refine ⟨?_, fun rt' out hok => ?_⟩
  · rw [hpolls, ServerRuntime.pollTimers, collectDue_dueQueue]
  · rw [hpolls] at hok
    exact (fireAll_dueQueue hrt (List.take_append_drop limits.sum _).symm hok).2

end Polls

/-- Two clients say hello. -/
def hellosInTurn : List Op :=
  [.datagram 0 1 ((Packet.control .clientHello).bytes 7),
    .datagram 5 2 ((Packet.control .clientHello).bytes 8)]

/-- One entry a poll, and then a poll that finds nothing left. -/
theorem hellosInTurn_batched :
    ∃ h rt, exec ServerRuntime.step defaultServer hellosInTurn = some (h, rt) ∧
      dueQueue rt.timers 15005 = [⟨15000, 7, .serverMsr⟩, ⟨15005, 8, .serverMsr⟩] ∧
      rt.polls 15005 [1, 1, 3] {} = rt.pollTimers 15005 5 ∧
      ∀ rt' out, rt.polls 15005 [1, 1, 3] {} = (rt', .ok out) →
        dueQueue rt'.timers 15005 = (dueQueue rt.timers 15005).drop 5 := by
  have hsome : (exec ServerRuntime.step defaultServer hellosInTurn).any (fun x =>
      dueQueue x.2.timers 15005 = [⟨15000, 7, .serverMsr⟩, ⟨15005, 8, .serverMsr⟩] ∧
        ∀ y ∈ x.2.sessions.toList, RunsAhead 15005 y.2.core.cfg) = true := by
    decide +kernel
  obtain ⟨⟨h, rt⟩, hexec, hx⟩ := (Option.any_eq_true _ _).mp hsome
  obtain ⟨hdue, hall⟩ := of_decide_eq_true hx
  have hahead : ∀ (cid : UInt64) (s : SessionRuntime), rt.sessions[cid]? = some s →
      RunsAhead 15005 s.core.cfg := fun cid s hs =>
    hall (cid, s) (Std.TreeMap.mem_toList_iff_getElem?_eq_some.mpr hs)
  exact ⟨h, rt, hexec, hdue, polls_eq_poll (Run.of_exec hexec) hahead [1, 1, 3]⟩

end Todero.Server
