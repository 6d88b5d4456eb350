import Todero.Hosted

/-! A poll of the server runtime: the entries it takes out, the timers it fires for them
and the entries it leaves. -/
namespace Todero.Server
open Todero.Wire Todero.Core Todero.Store Transition

/-! ### The queue -/

theorem queue_drop {timers : TimerMap} {due : DueTimer} {rest : List DueTimer}
    (h : (queue timers).Perm (due :: rest)) :
    (queue (dropTimer timers due.deadline (due.cid, due.timerId))).Perm rest := by
  let entryOf : DueTimer → UInt64 × UInt64 × TimerId := fun e => (e.deadline, e.cid, e.timerId)
  have hback : ∀ l : List DueTimer, (l.map entryOf).map dueTimer = l := by
    intro l
    rw [List.map_map]
    exact List.map_id l
  have hentries : (Agenda.entries timers).Perm (entryOf due :: rest.map entryOf) := by
    have hmap := h.map entryOf
    rw [queue, List.map_map] at hmap
    rwa [show entryOf ∘ dueTimer = id from rfl, List.map_id] at hmap
  rw [dropTimer_eq_take, queue, ← hback rest]
  exact (Agenda.entries_take hentries).map dueTimer

/-- The entry that an action of a core of `cid` adds. -/
def entryOf (cid : UInt64) : TimerAction → DueTimer
  | .schedule id deadlineMs => ⟨deadlineMs, cid, id⟩

theorem queue_pushes (cid : UInt64) (as : List TimerAction) (timers : TimerMap) :
    (queue (as.foldl (pushTimer cid) timers)).Perm (queue timers ++ as.map (entryOf cid)) := by
  induction as generalizing timers with
  | nil => simp
  | cons a as ih =>
    obtain ⟨id, d⟩ := a
    have hpush : (queue (pushTimer cid timers (.schedule id d))).Perm
        (queue timers ++ [⟨d, cid, id⟩]) := by
      have h := (Agenda.entries_push timers d (cid, id)).map dueTimer
      rwa [List.map_append] at h
    have h := (ih (pushTimer cid timers (.schedule id d))).trans (hpush.append_right _)
    rwa [List.append_assoc] at h

/-! ### Turns -/

section Turns
variable {σ : Type} [SessionStore σ] [Base64]

/-- The turn of one entry of the batch; one that fails ends the poll. -/
def ServerRuntime.turn (nowMs : UInt64) (rt : ServerRuntime σ) (due : DueTimer) :
    Option (ServerRuntime σ × ServerRuntimeOutput) :=
  match rt.fire nowMs due with
  | (_, .error _) => none
  | (rt', .ok out) => some (rt', out)

/-- What the core of a session is after one of its timers has fired; a lost one is gone. -/
def ticked (nowMs : UInt64) (id : TimerId) (m : CoreMachine) : Option CoreMachine :=
  if (onTimer m nowMs id).1.state = .lost then none else some (onTimer m nowMs id).1

def ServerRuntime.core (rt : ServerRuntime σ) (cid : UInt64) : Option CoreMachine :=
  (rt.sessions[cid]?).map SessionRuntime.core

/-- What the timer of an entry schedules, if its session is still there. -/
def ServerRuntime.schedules (nowMs : UInt64) (rt : ServerRuntime σ) (due : DueTimer) :
    List DueTimer :=
  match rt.core due.cid with
  | none => []
  | some m => (m.schedules (.timer nowMs due.timerId)).map (entryOf due.cid)

variable {rt rt' : ServerRuntime σ} {nowMs : UInt64} {due : DueTimer} {out : ServerRuntimeOutput}

omit [SessionStore σ] in
theorem called_ok [SessionStore σ] {cid : UInt64} {s : SessionRuntime} {src : UInt32}
    {called : CoreMachine × CallResult} (h : Driven rt cid s src nowMs called rt' (.ok out)) :
    called.2.isOk := by
  have hres := h.result
  cases hcalled : called.2 with
  | error e => simp [hcalled] at hres
  | ok out => rfl

theorem turn_fired (h : rt.turn nowMs due = some (rt', out)) :
    Fired rt nowMs due rt' (.ok out) := by
  have hfired := fire_fired nowMs rt due
  unfold ServerRuntime.turn at h
  cases hf : rt.fire nowMs due with
  | mk rt₁ res =>
    rw [hf] at h hfired
    cases res with
    | error e => simp at h
    | ok out₁ =>
      obtain ⟨rfl, rfl⟩ := Prod.mk.inj (Option.some.inj h)
      exact hfired

theorem turn_queue {rest : List DueTimer} (h : rt.turn nowMs due = some (rt', out))
    (hqueue : (queue rt.timers).Perm (due :: rest)) :
    (queue rt'.timers).Perm (rest ++ rt.schedules nowMs due) := by
  have hdrop := queue_drop hqueue
  cases turn_fired h with
  | skipped habsent =>
    simpa [ServerRuntime.schedules, ServerRuntime.core, habsent] using hdrop
  | @visited s _ _ hs hdrive =>
    have hpushed := queue_pushes due.cid (s.core.schedules (.timer nowMs due.timerId))
      (dropTimer rt.timers due.deadline (due.cid, due.timerId))
    rw [hdrive.timers, onTimer_schedules]
    simp only [ServerRuntime.schedules, ServerRuntime.core, hs, Option.map_some]
    exact hpushed.trans (hdrop.append_right _)

/-- The turn of an entry calls the one core that it names, and once. -/
theorem turn_core (h : rt.turn nowMs due = some (rt', out)) (cid : UInt64) :
    rt'.core cid =
      if due.cid = cid then (rt.core cid).bind (ticked nowMs due.timerId) else rt.core cid := by
  cases turn_fired h with
  | skipped habsent =>
    split_ifs with heq
    · simp [ServerRuntime.core, ← heq, habsent]
    · rfl
  | @visited s _ _ hs hdrive =>
    split_ifs with heq
    · subst heq
      by_cases hlost : (onTimer s.core nowMs due.timerId).1.state = .lost
      · have hgone := hdrive.gone (called_ok hdrive) hlost
        simp [ServerRuntime.core, hs, hgone, ticked, hlost]
      · obtain ⟨s', hs', hcore⟩ := hdrive.stays hlost
        simp [ServerRuntime.core, hs, hs', hcore, ticked, hlost]
    · rw [ServerRuntime.core, hdrive.others cid (Ne.symm heq)]
      rfl

/-! ### Polls -/

theorem fireAll_turns {dues : List DueTimer} {output : ServerRuntimeOutput}
    (h : ServerRuntime.fireAll nowMs rt dues output = (rt', .ok out)) :
    ∃ hist, exec (ServerRuntime.turn nowMs) rt dues = some (hist, rt') := by
  induction dues generalizing rt output with
  | nil =>
    obtain ⟨rfl, -⟩ := Prod.mk.inj h
    exact ⟨[], rfl⟩
  | cons due rest ih =>
    rw [ServerRuntime.fireAll] at h
    rw [exec, ServerRuntime.turn]
    cases hf : rt.fire nowMs due with
    | mk rt₁ res =>
      rw [hf] at h
      cases res with
      | error e => simp at h
      | ok partOut =>
        obtain ⟨hist, hexec⟩ := ih h
        exact ⟨⟨rt, due, partOut, rt₁⟩ :: hist, by simp [hexec]⟩

theorem exec_queue {dues rest : List DueTimer}
    {hist : List (Taken (ServerRuntime σ) DueTimer ServerRuntimeOutput)}
    (h : exec (ServerRuntime.turn nowMs) rt dues = some (hist, rt'))
    (hqueue : (queue rt.timers).Perm (dues ++ rest)) :
    (queue rt'.timers).Perm
      (rest ++ hist.flatMap fun t => t.pre.schedules nowMs t.input) := by
  induction dues generalizing rt rest hist with
  | nil =>
    obtain ⟨rfl, rfl⟩ := Prod.mk.inj (Option.some.inj h)
    simpa using hqueue
  | cons due dues ih =>
    rw [exec] at h
    cases hturn : rt.turn nowMs due with
    | none => simp [hturn] at h
    | some r =>
      obtain ⟨rt₁, out₁⟩ := r
      simp only [hturn, Option.map_eq_some_iff, Prod.mk.injEq] at h
      obtain ⟨⟨hist₁, rt₂⟩, hexec, rfl, rfl⟩ := h
      rw [List.cons_append] at hqueue
      have hnext := turn_queue hturn hqueue
      rw [List.append_assoc] at hnext
      have hlast := ih hexec hnext
      rwa [List.append_assoc] at hlast

theorem exec_core {dues : List DueTimer}
    {hist : List (Taken (ServerRuntime σ) DueTimer ServerRuntimeOutput)}
    (h : exec (ServerRuntime.turn nowMs) rt dues = some (hist, rt')) (cid : UInt64) :
    rt'.core cid = (dues.filter (·.cid = cid)).foldl
      (fun m due => m.bind (ticked nowMs due.timerId)) (rt.core cid) := by
  induction dues generalizing rt hist with
  | nil =>
    obtain ⟨rfl, rfl⟩ := Prod.mk.inj (Option.some.inj h)
    rfl
  | cons due dues ih =>
    rw [exec] at h
    cases hturn : rt.turn nowMs due with
    | none => simp [hturn] at h
    | some r =>
      obtain ⟨rt₁, out₁⟩ := r
      simp only [hturn, Option.map_eq_some_iff, Prod.mk.injEq] at h
      obtain ⟨⟨hist₁, rt₂⟩, hexec, rfl, rfl⟩ := h
      rw [ih hexec, turn_core hturn cid]
      by_cases heq : due.cid = cid
      · simp [heq]
      · simp [heq]

/-- The due entries that the limit lets through. -/
def ServerRuntime.batch (rt : ServerRuntime σ) (nowMs : UInt64) (limit : Nat) : List DueTimer :=
  (queue rt.timers).take
    (min limit ((queue rt.timers).countP fun due => due.deadline ≤ nowMs))

/-- A poll takes out the due entries in order. Each has one turn, in which the timer of its
session fires if the session is still there, and what those timers schedule is added. -/
theorem poll_fires_due (rt : ServerRuntime σ) (nowMs : UInt64) (limit : Nat)
    {out : ServerRuntimeOutput} (hok : (rt.pollTimers nowMs limit).2 = .ok out) :
    ∃ hist : List (Taken (ServerRuntime σ) DueTimer ServerRuntimeOutput),
      Run (ServerRuntime.turn nowMs) rt hist (rt.pollTimers nowMs limit).1 ∧
      hist.map Taken.input = rt.batch nowMs limit ∧
      (∀ t ∈ hist, Fired t.pre nowMs t.input t.post (.ok t.output)) ∧
      (∀ cid, (rt.pollTimers nowMs limit).1.core cid =
        ((rt.batch nowMs limit).filter (·.cid = cid)).foldl
          (fun m due => m.bind (ticked nowMs due.timerId)) (rt.core cid)) ∧
      (queue (rt.pollTimers nowMs limit).1.timers).Perm
        ((queue rt.timers).drop (rt.batch nowMs limit).length ++
          hist.flatMap fun t => t.pre.schedules nowMs t.input) := by
  have hpoll : ServerRuntime.fireAll nowMs rt (rt.batch nowMs limit) {} =
      ((rt.pollTimers nowMs limit).1, .ok out) := by
    rw [← hok, ServerRuntime.batch, ← collectDue_eq]
    rfl
  obtain ⟨hist, hexec⟩ := fireAll_turns hpoll
  have hsplit : queue rt.timers = rt.batch nowMs limit ++
      (queue rt.timers).drop (rt.batch nowMs limit).length :=
    (List.prefix_iff_eq_append.mp (List.take_prefix _ _)).symm
  refine ⟨hist, Run.of_exec hexec, exec_inputs hexec, fun t ht => ?_, exec_core hexec,
    exec_queue hexec (.of_eq hsplit)⟩
  obtain ⟨_, _, _, _, hstep⟩ := (Run.of_exec hexec).before ht
  exact turn_fired hstep

end Turns

/-- A server that has heard a client hello. -/
def helloServer : ServerRuntime InMemorySessionStore :=
  (defaultServer.onDatagram 0 1 ((Packet.control .clientHello).bytes 7)).1

/-- The first MSR tick, with the `Disconnect` entry not due yet. -/
theorem helloServer_fires :
    helloServer.batch 15000 16 = [⟨15000, 7, .serverMsr⟩] ∧
      ∃ hist : List (Taken (ServerRuntime InMemorySessionStore) DueTimer ServerRuntimeOutput),
        hist.map Taken.input = [⟨15000, 7, .serverMsr⟩] ∧
        (queue (helloServer.pollTimers 15000 16).1.timers).Perm
          ((queue helloServer.timers).drop 1 ++
            hist.flatMap fun t => t.pre.schedules 15000 t.input) := by
  have hbatch : helloServer.batch 15000 16 = [⟨15000, 7, .serverMsr⟩] := by decide +kernel
  have hsome : (helloServer.pollTimers 15000 16).2.isOk := by decide +kernel
  obtain ⟨out, hok⟩ : ∃ out, (helloServer.pollTimers 15000 16).2 = .ok out := by
    cases hres : (helloServer.pollTimers 15000 16).2 with
    | error e => simp [hres, Except.isOk, Except.toBool] at hsome
    | ok out => exact ⟨out, rfl⟩
  obtain ⟨hist, -, hinputs, -, -, hqueue⟩ := poll_fires_due helloServer 15000 16 hok
  rw [hbatch] at hinputs hqueue
  exact ⟨hbatch, hist, hinputs, hqueue⟩

end Todero.Server
