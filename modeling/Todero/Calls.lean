import Todero.Views
import Todero.Lib.Transition

/-! The operations of a machine as one step function, and closed forms of those that
the application and the timers call: the machine they leave, what they send and
what they announce. -/
namespace Todero.Core
open Todero.Wire

inductive Call where
  | beginHandshake (nowMs : UInt64)
  | timer (nowMs : UInt64) (timerId : TimerId)
  | send (payload : Bytes)
  | close
  | proposeTimers (nowMs : UInt64) (proposal : TimerProposal)
  | pathChanged (pathId : UInt32)

/-- `none` only where `onApiSend` is. -/
def CoreMachine.apply (m : CoreMachine) : Call → Option (CoreMachine × CallResult)
  | .beginHandshake nowMs => some (Core.beginHandshake m nowMs)
  | .timer nowMs timerId => some (onTimer m nowMs timerId)
  | .send payload => onApiSend m payload
  | .close => some (onApiClose m)
  | .proposeTimers nowMs proposal => some (onApiProposeTimers m nowMs proposal)
  | .pathChanged pathId => some (onPathEvent m pathId)

inductive Op where
  | call (k : Call)
  | datagram (nowMs : UInt64) (srcPathId : UInt32) (bytes : Bytes)

def CoreMachine.step (m : CoreMachine) : Op → Option (CoreMachine × CallResult)
  | .call k => m.apply k
  | .datagram nowMs srcPathId bytes => some (onDatagram m nowMs srcPathId bytes)

section Spec
variable (m : CoreMachine)

/-- The server's MSR timer finds the client silent for too long. -/
def CoreMachine.unanswered : Prop :=
  saturatingAdd32 m.serverConsecutiveMsrWithoutClientMsr 1 >
    serverMaxConsecutiveServerMsrWithoutClientMsr

def CoreMachine.misses (nowMs : UInt64) : Prop :=
  saturatingSub nowMs (m.lastServerMsrAtMs.getD 0) >
    saturatingMul m.cfg.msrIntervalMs m.cfg.missWindowCount

instance : Decidable m.unanswered := by
  unfold CoreMachine.unanswered
  infer_instance

instance (nowMs : UInt64) : Decidable (m.misses nowMs) := by
  unfold CoreMachine.misses
  infer_instance

def CoreMachine.pastDeadline (nowMs : UInt64) : Bool :=
  m.disconnectDeadlineMs.any fun deadline => nowMs ≥ deadline

def CoreMachine.pastExpiry (nowMs : UInt64) : Bool :=
  m.pendingLocalProposal.any fun pending => nowMs ≥ pending.expiresAtMs

def CoreMachine.canPropose (p : TimerProposal) : Prop :=
  m.state = .established ∧ (validateTimerProposal m.cfg p).isOk

instance (p : TimerProposal) : Decidable (m.canPropose p) := by
  unfold CoreMachine.canPropose
  infer_instance

def CoreMachine.onServerMsrTimer (nowMs : UInt64) : CoreMachine :=
  let n := saturatingAdd32 m.serverConsecutiveMsrWithoutClientMsr 1
  if m.unanswered then { m with serverConsecutiveMsrWithoutClientMsr := n, state := .lost }
  else { m with
    serverConsecutiveMsrWithoutClientMsr := n
    disconnectDeadlineMs := some (nowMs + m.cfg.disconnectWindowMs) }

def CoreMachine.enqueue (payload : Bytes) : CoreMachine :=
  { m with
    nextOutboundId := m.nextOutboundId + 1
    outboundMessages := m.outboundMessages.insert m.nextOutboundId payload }

def CoreMachine.propose (nowMs : UInt64) (p : TimerProposal) : CoreMachine :=
  { m with
    nextProposalId := UInt32.ofNat (saturatingAdd32 m.nextProposalId.toNat 1)
    pendingLocalProposal := some ⟨m.nextProposalId, p,
      saturatingAdd nowMs (saturatingMul m.cfg.msrIntervalMs 2)⟩ }

/-- The machine a call leaves. -/
def CoreMachine.next : Call → CoreMachine
  | .beginHandshake _ => m
  | .timer nowMs .serverMsr =>
    if m.role = .server ∧ m.state = .established then m.onServerMsrTimer nowMs else m
  | .timer nowMs .clientProbe =>
    if m.role = .client ∧ (m.state = .established ∨ m.state = .reactivating) ∧ m.misses nowMs then
      { m with state := .reactivating }
    else m
  | .timer nowMs .disconnect => if m.pastDeadline nowMs then { m with state := .lost } else m
  | .timer nowMs .renegotiationTimeout =>
    if m.pastExpiry nowMs then { m with pendingLocalProposal := none } else m
  | .send payload => m.enqueue payload
  | .close => { m with state := .lost }
  | .proposeTimers nowMs p => if m.canPropose p then m.propose nowMs p else m
  | .pathChanged pathId => { m with currentPathId := pathId }

/-- What a call sends, always on the machine's current path. -/
def CoreMachine.utters : Call → List Packet
  | .beginHandshake _ => if m.role = .client then [.control .clientHello] else []
  | .timer _ .serverMsr =>
    if m.role = .server ∧ m.state = .established ∧ ¬ m.unanswered then
      [.msr m.lastOrderedRx 0 none]
    else []
  | .timer nowMs .clientProbe =>
    if m.role = .client ∧ (m.state = .established ∨ m.state = .reactivating) ∧ m.misses nowMs then
      [.msr 0 m.maxPendingId none]
    else []
  | .timer _ .disconnect | .timer _ .renegotiationTimeout => []
  | .send payload =>
    if m.state = .established then
      [.msr (if m.role = .client then 0 else m.lastOrderedRx) (m.enqueue payload).maxPendingId none]
    else []
  | .close => if m.state = .lost then [] else [.control .close]
  | .proposeTimers _ p =>
    if m.canPropose p then [.msr 0 m.maxPendingId (some (.proposal m.nextProposalId p))] else []
  | .pathChanged _ => []

/-- What a call announces to the application. -/
def CoreMachine.tells : Call → List Event
  | .beginHandshake _ => if m.role = .client then [.handshakeStarted] else []
  | .timer _ .serverMsr =>
    if m.role = .server ∧ m.state = .established ∧ m.unanswered then [.disconnected] else []
  | .timer nowMs .clientProbe =>
    if m.role = .client ∧ (m.state = .established ∨ m.state = .reactivating) ∧ m.misses nowMs then
      [.reactivationProbeSent]
    else []
  | .timer nowMs .disconnect =>
    if m.pastDeadline nowMs ∧ m.state ≠ .lost then [.disconnected] else []
  | .timer nowMs .renegotiationTimeout =>
    if m.pastExpiry nowMs then
      m.pendingLocalProposal.toList.map fun p => .timerRenegotiationRolledBack p.proposalId
    else []
  | .send payload =>
    if m.state = .established ∧ m.role = .client then
      [.queueAdvertised (m.enqueue payload).maxPendingId]
    else []
  | .close => if m.state = .lost then [] else [.disconnected]
  | .proposeTimers _ p =>
    if m.canPropose p then [.timerRenegotiationProposed m.nextProposalId] else []
  | .pathChanged _ => []

end Spec

/-- The closed form of `m.apply k = some (m', res)`. -/
structure Answers (m : CoreMachine) (k : Call) (m' : CoreMachine) (res : CallResult) : Prop where
  next : m' = m.next k
  datagrams : res.output.outboundDatagrams =
    (m.utters k).map fun p => ⟨m.currentPathId, p.bytes m.cid⟩
  events : res.output.events = m.tells k

/-- A call that ran to its end in `c`. -/
theorem Answers.of_run {m : CoreMachine} {k : Call} {body : CoreM Unit} {c : Ctx}
    (hrun : body ⟨m, {}⟩ = .ok () c) (hnext : c.self = m.next k)
    (hsaid : c.out.outboundDatagrams = (m.utters k).map fun p => ⟨m.currentPathId, p.bytes m.cid⟩)
    (htold : c.out.events = m.tells k) : Answers m k (m.call body).1 (m.call body).2 := by
  rw [CoreMachine.call, hrun]
  exact ⟨hnext, hsaid, htold⟩

section Run
variable (m : CoreMachine) (nowMs : UInt64)

theorem beginHandshake_answers :
    Answers m (.beginHandshake nowMs) (beginHandshake m nowMs).1 (beginHandshake m nowMs).2 := by
  by_cases h : m.role = .client
  · refine .of_run (c := ((⟨m, {}⟩ : Ctx).send m.currentPathId (.control .clientHello)).tell
      .handshakeStarted) ?_ rfl ?_ ?_
    · simp only [h, if_true, bind_run, pushControl_run, pushEvent_run]
    · simp [CoreMachine.utters, h]
      rfl
    · simp [CoreMachine.tells, h]
      rfl
  · refine .of_run (c := ⟨m, {}⟩) ?_ rfl ?_ ?_
    · simp only [h, if_false, pure_run]
    · simp [CoreMachine.utters, h]
    · simp [CoreMachine.tells, h]

theorem serverMsrTimer_answers :
    Answers m (.timer nowMs .serverMsr) (onTimer m nowMs .serverMsr).1
      (onTimer m nowMs .serverMsr).2 := by
  by_cases h : m.role = .server ∧ m.state = .established
  · by_cases hu : m.unanswered
    · have hu' := hu
      unfold CoreMachine.unanswered at hu'
      refine .of_run (c := (⟨m.onServerMsrTimer nowMs, {}⟩ : Ctx).tell .disconnected) ?_ ?_ ?_ ?_
      · simp only [h, and_self, if_true, onServerMsr, bind_run, modifySelf_run, getSelf_run, ite_run,
          hu', pushEvent_run, CoreMachine.onServerMsrTimer, hu]
      · simp [CoreMachine.next, h]
      · simp [CoreMachine.utters, h, hu, Ctx.tell]
      · simp [CoreMachine.tells, h, hu, Ctx.tell]
    · have hu' := hu
      unfold CoreMachine.unanswered at hu'
      refine .of_run (c := ((((⟨m.onServerMsrTimer nowMs, {}⟩ : Ctx).send m.currentPathId
        (.msr m.lastOrderedRx 0 none)).schedule .serverMsr (nowMs + m.cfg.msrIntervalMs)).schedule
        .disconnect (nowMs + m.cfg.disconnectWindowMs))) ?_ ?_ ?_ ?_
      · simp only [h, and_self, if_true, onServerMsr, bind_run, modifySelf_run, getSelf_run, ite_run,
          hu', if_false, pushMsr_run, touchDisconnectDeadline_run, pushSchedule_run,
          CoreMachine.onServerMsrTimer, hu]
        rfl
      · simp [CoreMachine.next, h]
      · simp [CoreMachine.utters, h, hu, Ctx.send, Ctx.schedule, CoreMachine.onServerMsrTimer]
      · simp [CoreMachine.tells, h, hu, Ctx.send, Ctx.schedule]
  · refine .of_run (c := ⟨m, {}⟩) ?_ ?_ ?_ ?_
    · simp only [h, if_false, pure_run]
    · simp [CoreMachine.next, h]
    · have : ¬ (m.role = .server ∧ m.state = .established ∧ ¬ m.unanswered) := by tauto
      simp [CoreMachine.utters, this]
    · have : ¬ (m.role = .server ∧ m.state = .established ∧ m.unanswered) := by tauto
      simp [CoreMachine.tells, this]

theorem clientProbe_answers :
    Answers m (.timer nowMs .clientProbe) (onTimer m nowMs .clientProbe).1
      (onTimer m nowMs .clientProbe).2 := by
  by_cases h : m.role = .client ∧ (m.state = .established ∨ m.state = .reactivating)
  · by_cases hm : m.misses nowMs
    · have hall : m.role = .client ∧ (m.state = .established ∨ m.state = .reactivating) ∧
          m.misses nowMs := ⟨h.1, h.2, hm⟩
      have hm' := hm
      unfold CoreMachine.misses at hm'
      refine .of_run (c := (((⟨{ m with state := .reactivating }, {}⟩ : Ctx).send m.currentPathId
        (.msr 0 m.maxPendingId none)).tell .reactivationProbeSent).schedule .clientProbe
        (nowMs + m.cfg.msrIntervalMs)) ?_ ?_ ?_ ?_
      · simp only [ite_run]
        rw [if_pos h]
        simp only [onClientProbe, bind_run, getSelf_run, ite_run, hm', if_true, modifySelf_run,
          pushMsr_run, pushEvent_run, pushSchedule_run]
      · rw [CoreMachine.next, if_pos hall]
        rfl
      · rw [CoreMachine.utters, if_pos hall]
        rfl
      · rw [CoreMachine.tells, if_pos hall]
        rfl
    · have hnone : ¬ (m.role = .client ∧ (m.state = .established ∨ m.state = .reactivating) ∧
          m.misses nowMs) := by tauto
      have hm' := hm
      unfold CoreMachine.misses at hm'
      refine .of_run (c := (⟨m, {}⟩ : Ctx).schedule .clientProbe
        (nowMs + m.cfg.msrIntervalMs)) ?_ ?_ ?_ ?_
      · simp only [ite_run]
        rw [if_pos h]
        simp only [onClientProbe, bind_run, getSelf_run, ite_run, hm', if_false,
          pushSchedule_run]
      · rw [CoreMachine.next, if_neg hnone]
        rfl
      · rw [CoreMachine.utters, if_neg hnone]
        rfl
      · rw [CoreMachine.tells, if_neg hnone]
        rfl
  · have hnone : ¬ (m.role = .client ∧ (m.state = .established ∨ m.state = .reactivating) ∧
        m.misses nowMs) := by tauto
    refine .of_run (c := ⟨m, {}⟩) ?_ ?_ ?_ ?_
    · simp only [ite_run]
      rw [if_neg h, pure_run]
    · rw [CoreMachine.next, if_neg hnone]
    · rw [CoreMachine.utters, if_neg hnone]
      rfl
    · rw [CoreMachine.tells, if_neg hnone]

theorem disconnectTimer_answers :
    Answers m (.timer nowMs .disconnect) (onTimer m nowMs .disconnect).1
      (onTimer m nowMs .disconnect).2 := by
  cases hd : m.disconnectDeadlineMs with
  | none =>
    refine .of_run (c := ⟨m, {}⟩) ?_ ?_ rfl ?_
    · simp only [hd, pure_run]
    · simp [CoreMachine.next, CoreMachine.pastDeadline, hd]
    · simp [CoreMachine.tells, CoreMachine.pastDeadline, hd]
  | some deadline =>
    by_cases h : nowMs ≥ deadline ∧ m.state ≠ .lost
    · refine .of_run (c := (⟨{ m with state := .lost }, {}⟩ : Ctx).tell .disconnected) ?_ ?_ rfl ?_
      · simp only [hd, ite_run]
        rw [if_pos h]
        simp only [bind_run, modifySelf_run, pushEvent_run]
        rw [hd]
      · simp [CoreMachine.next, CoreMachine.pastDeadline, hd, h.1]
      · simp [CoreMachine.tells, CoreMachine.pastDeadline, hd, h.1, h.2, Ctx.tell]
    · refine .of_run (c := (⟨m, {}⟩ : Ctx).schedule .disconnect deadline) ?_ ?_ rfl ?_
      · simp only [hd, ite_run]
        rw [if_neg h, pushSchedule_run]
      · by_cases hpast : nowMs ≥ deadline
        · have hlost : m.state = .lost := by tauto
          simp only [Ctx.schedule_self, CoreMachine.next, CoreMachine.pastDeadline, hd,
            Option.any_some, hpast, decide_true, if_true, ← hlost]
          rw [← hd]
        · simp [CoreMachine.next, CoreMachine.pastDeadline, hd, hpast]
      · have hnone : ¬ (m.pastDeadline nowMs ∧ m.state ≠ .lost) := by
          simpa [CoreMachine.pastDeadline, hd] using h
        rw [CoreMachine.tells, if_neg hnone]
        rfl

theorem renegotiationTimer_answers :
    Answers m (.timer nowMs .renegotiationTimeout) (onTimer m nowMs .renegotiationTimeout).1
      (onTimer m nowMs .renegotiationTimeout).2 := by
  cases hp : m.pendingLocalProposal with
  | none =>
    refine .of_run (c := ⟨m, {}⟩) ?_ ?_ rfl ?_
    · simp only [hp, pure_run]
    · simp [CoreMachine.next, CoreMachine.pastExpiry, hp]
    · simp [CoreMachine.tells, CoreMachine.pastExpiry, hp]
  | some pending =>
    by_cases h : nowMs ≥ pending.expiresAtMs
    · refine .of_run (c := (⟨{ m with pendingLocalProposal := none }, {}⟩ : Ctx).tell
        (.timerRenegotiationRolledBack pending.proposalId)) ?_ ?_ rfl ?_
      · simp only [hp, ite_run, h, if_true, bind_run, modifySelf_run, pushEvent_run]
      · simp [CoreMachine.next, CoreMachine.pastExpiry, hp, h]
      · simp [CoreMachine.tells, CoreMachine.pastExpiry, hp, h, Ctx.tell]
    · refine .of_run (c := ⟨m, {}⟩) ?_ ?_ rfl ?_
      · simp only [hp, ite_run, h, if_false, pure_run]
      · simp [CoreMachine.next, CoreMachine.pastExpiry, hp, h]
      · simp [CoreMachine.tells, CoreMachine.pastExpiry, hp, h]

theorem onApiSend_answers (payload : Bytes) {m' : CoreMachine} {res : CallResult}
    (h : onApiSend m payload = some (m', res)) :
    m.nextOutboundId < u64Max ∧ Answers m (.send payload) m' res := by
  unfold onApiSend at h
  split_ifs at h with hfull
  refine ⟨by omega, ?_⟩
  rw [Option.some.injEq] at h
  obtain ⟨rfl, rfl⟩ := Prod.mk.inj h
  by_cases hest : m.state = .established
  · cases hrole : m.role with
    | client =>
      refine .of_run (c := ((⟨m.enqueue payload, {}⟩ : Ctx).send m.currentPathId
        (.msr 0 (m.enqueue payload).maxPendingId none)).tell
        (.queueAdvertised (m.enqueue payload).maxPendingId)) ?_ rfl ?_ ?_
      · simp only [bind_run, modifySelf_run, getSelf_run, hest, if_true, hrole, pushMsr_run,
          pushEvent_run, CoreMachine.enqueue]
      · simp [CoreMachine.utters, hest, hrole, Ctx.send, Ctx.tell, CoreMachine.enqueue]
      · simp [CoreMachine.tells, hest, hrole, Ctx.send, Ctx.tell]
    | server =>
      refine .of_run (c := (⟨m.enqueue payload, {}⟩ : Ctx).send m.currentPathId
        (.msr m.lastOrderedRx (m.enqueue payload).maxPendingId none)) ?_ rfl ?_ ?_
      · simp only [bind_run, modifySelf_run, getSelf_run, hest, if_true, hrole, pushMsr_run,
          CoreMachine.enqueue]
      · simp [CoreMachine.utters, hest, hrole, Ctx.send, CoreMachine.enqueue]
      · simp [CoreMachine.tells, hest, hrole, Ctx.send]
  · refine .of_run (c := ⟨m.enqueue payload, {}⟩) ?_ rfl ?_ ?_
    · simp only [bind_run, modifySelf_run, getSelf_run, hest, if_false, pure_run,
        CoreMachine.enqueue]
    · simp [CoreMachine.utters, hest]
    · simp [CoreMachine.tells, hest]

theorem onApiClose_answers : Answers m .close (onApiClose m).1 (onApiClose m).2 := by
  by_cases h : m.state = .lost
  · refine .of_run (c := ⟨m, {}⟩) ?_ ?_ ?_ ?_
    · simp only [h, if_true, pure_run]
    · simp only [CoreMachine.next, ← h]
    · simp [CoreMachine.utters, h]
    · simp [CoreMachine.tells, h]
  · refine .of_run (c := (({ (⟨m, {}⟩ : Ctx).send m.currentPathId (.control .close) with
        self := { m with state := .lost } } : Ctx).tell .disconnected)) ?_ rfl ?_ ?_
    · simp only [h, if_false, bind_run, pushControl_run, modifySelf_run, pushEvent_run]
      rfl
    · simp [CoreMachine.utters, h, Ctx.send, Ctx.tell]
    · simp [CoreMachine.tells, h, Ctx.send, Ctx.tell]

theorem onApiProposeTimers_answers (p : TimerProposal) :
    Answers m (.proposeTimers nowMs p) (onApiProposeTimers m nowMs p).1
      (onApiProposeTimers m nowMs p).2 := by
  by_cases hest : m.state = .established
  · cases hv : validateTimerProposal m.cfg p with
    | error e =>
      have hnot : ¬ m.canPropose p := by simp [CoreMachine.canPropose, hv, Except.isOk, Except.toBool]
      have hrun : onApiProposeTimers m nowMs p = (m, .error e) := by
        simp only [onApiProposeTimers, CoreMachine.call, hest, ne_eq, not_true_eq_false, if_false,
          hv, throw_run]
      rw [hrun]
      exact ⟨by simp [CoreMachine.next, hnot], by simp [CoreMachine.utters, hnot],
        by simp [CoreMachine.tells, hnot]⟩
    | ok u =>
      have hcan : m.canPropose p := ⟨hest, by simp [hv, Except.isOk, Except.toBool]⟩
      refine .of_run (c := (((⟨m.propose nowMs p, {}⟩ : Ctx).send m.currentPathId
        (.msr 0 m.maxPendingId (some (.proposal m.nextProposalId p)))).tell
        (.timerRenegotiationProposed m.nextProposalId)).schedule .renegotiationTimeout
        (saturatingAdd nowMs (saturatingMul m.cfg.msrIntervalMs 2))) ?_ ?_ ?_ ?_
      · simp only [hest, ne_eq, not_true_eq_false, if_false, hv, bind_run, modifySelf_run,
          pushProposal_run, pushEvent_run, pushSchedule_run, CoreMachine.propose]
      · simp [CoreMachine.next, hcan]
      · simp [CoreMachine.utters, hcan, Ctx.send, Ctx.tell, Ctx.schedule, CoreMachine.propose]
      · simp [CoreMachine.tells, hcan, Ctx.send, Ctx.tell, Ctx.schedule]
  · have hnot : ¬ m.canPropose p := fun h => hest h.1
    have hrun : onApiProposeTimers m nowMs p = (m, .error .invalidStateForRenegotiation) := by
      simp only [onApiProposeTimers, CoreMachine.call, hest, ne_eq, not_false_eq_true, if_true,
        bind_run, throw_run]
    rw [hrun]
    exact ⟨by simp [CoreMachine.next, hnot], by simp [CoreMachine.utters, hnot],
      by simp [CoreMachine.tells, hnot]⟩

theorem apply_answers {k : Call} {m' : CoreMachine} {res : CallResult}
    (h : m.apply k = some (m', res)) : Answers m k m' res := by
  cases k with
  | beginHandshake nowMs =>
    obtain ⟨rfl, rfl⟩ := Prod.mk.inj (Option.some.inj h)
    exact beginHandshake_answers m nowMs
  | timer nowMs timerId =>
    obtain ⟨rfl, rfl⟩ := Prod.mk.inj (Option.some.inj h)
    cases timerId with
    | serverMsr => exact serverMsrTimer_answers m nowMs
    | clientProbe => exact clientProbe_answers m nowMs
    | disconnect => exact disconnectTimer_answers m nowMs
    | renegotiationTimeout => exact renegotiationTimer_answers m nowMs
  | send payload => exact (onApiSend_answers m payload h).2
  | close =>
    obtain ⟨rfl, rfl⟩ := Prod.mk.inj (Option.some.inj h)
    exact onApiClose_answers m
  | proposeTimers nowMs p =>
    obtain ⟨rfl, rfl⟩ := Prod.mk.inj (Option.some.inj h)
    exact onApiProposeTimers_answers m nowMs p
  | pathChanged pathId =>
    obtain ⟨rfl, rfl⟩ := Prod.mk.inj (Option.some.inj h)
    exact ⟨rfl, rfl, rfl⟩

end Run

/-! ### What a call leaves alone -/

/-- What a call can make of a machine. -/
inductive Moved (m : CoreMachine) : Call → CoreMachine → Prop
  | same {k : Call} : Moved m k m
  | abandoned {nowMs : UInt64} (hserver : m.role = .server ∧ m.state = .established)
      (hunanswered : m.unanswered) : Moved m (.timer nowMs .serverMsr)
        { m with
          serverConsecutiveMsrWithoutClientMsr :=
            saturatingAdd32 m.serverConsecutiveMsrWithoutClientMsr 1
          state := .lost }
  | announced {nowMs : UInt64} (hserver : m.role = .server ∧ m.state = .established)
      (hanswered : ¬ m.unanswered) : Moved m (.timer nowMs .serverMsr)
        { m with
          serverConsecutiveMsrWithoutClientMsr :=
            saturatingAdd32 m.serverConsecutiveMsrWithoutClientMsr 1
          disconnectDeadlineMs := some (nowMs + m.cfg.disconnectWindowMs) }
  | doubted {nowMs : UInt64} (hclient : m.role = .client)
      (hup : m.state = .established ∨ m.state = .reactivating) (hmisses : m.misses nowMs) :
      Moved m (.timer nowMs .clientProbe) { m with state := .reactivating }
  | timedOut {nowMs : UInt64} (hpast : m.pastDeadline nowMs) :
      Moved m (.timer nowMs .disconnect) { m with state := .lost }
  | rolledBack {nowMs : UInt64} (hpast : m.pastExpiry nowMs) :
      Moved m (.timer nowMs .renegotiationTimeout) { m with pendingLocalProposal := none }
  | queued {payload : Bytes} : Moved m (.send payload) (m.enqueue payload)
  | closed : Moved m .close { m with state := .lost }
  | proposed {nowMs : UInt64} {p : TimerProposal} (hcan : m.canPropose p) :
      Moved m (.proposeTimers nowMs p) (m.propose nowMs p)
  | switched {pathId : UInt32} : Moved m (.pathChanged pathId) { m with currentPathId := pathId }

theorem next_moved (m : CoreMachine) (k : Call) : Moved m k (m.next k) := by
  cases k with
  | timer nowMs timerId =>
    cases timerId with
    | serverMsr =>
      rw [CoreMachine.next, CoreMachine.onServerMsrTimer]
      split_ifs with hserver hu
      · exact .abandoned hserver hu
      · exact .announced hserver hu
      · exact .same
    | clientProbe =>
      rw [CoreMachine.next]
      split_ifs with h
      · exact .doubted h.1 h.2.1 h.2.2
      · exact .same
    | disconnect =>
      rw [CoreMachine.next]
      split_ifs with hpast
      · exact .timedOut hpast
      · exact .same
    | renegotiationTimeout =>
      rw [CoreMachine.next]
      split_ifs with hpast
      · exact .rolledBack hpast
      · exact .same
  | proposeTimers nowMs p =>
    rw [CoreMachine.next]
    split_ifs with hcan
    · exact .proposed hcan
    · exact .same
  | beginHandshake nowMs => exact .same
  | send payload => exact .queued
  | close => exact .closed
  | pathChanged pathId => exact .switched

/-- The part of a machine that only a datagram can change. -/
structure Lasting where
  role : Role
  cid : UInt64
  cfg : CoreConfig
  rx : Rx
  cursor : Nat
  clientCount : Nat

def CoreMachine.lasting (m : CoreMachine) : Lasting :=
  ⟨m.role, m.cid, m.cfg, m.rx, m.lastRequestedEnd, m.clientServerMsrRxSinceLastKeepalive⟩

theorem Moved.lasting {m m' : CoreMachine} {k : Call} (h : Moved m k m') :
    m'.lasting = m.lasting := by
  cases h <;> rfl

theorem Moved.lost {m m' : CoreMachine} {k : Call} (h : Moved m k m') (hlost : m.state = .lost) :
    m'.state = .lost := by
  cases h with
  | doubted _ hup _ => simp [hlost] at hup
  | same | announced | rolledBack | queued | proposed | switched => exact hlost
  | abandoned | timedOut | closed => rfl

section Next
variable (m : CoreMachine) (k : Call)

theorem next_lasting : (m.next k).lasting = m.lasting := (next_moved m k).lasting

theorem next_rx : (m.next k).rx = m.rx := congrArg Lasting.rx (next_lasting m k)

theorem tells_deliveries : (m.tells k).filter Event.isDelivery = [] := by
  cases k with
  | timer nowMs timerId =>
    cases timerId <;> simp only [CoreMachine.tells] <;> split_ifs <;>
      simp [Event.isDelivery]
  | beginHandshake | send | close | proposeTimers =>
    simp only [CoreMachine.tells]
    split_ifs <;> simp [Event.isDelivery]
  | pathChanged => rfl

theorem next_lost (h : m.state = .lost) : (m.next k).state = .lost := (next_moved m k).lost h

/-- A call announces the end of the session exactly when it brings it about. -/
theorem tells_disconnects : (m.tells k).count .disconnected =
    if m.state ≠ .lost ∧ (m.next k).state = .lost then 1 else 0 := by
  cases k with
  | timer nowMs timerId =>
    cases timerId with
    | serverMsr =>
      by_cases h : m.role = .server ∧ m.state = .established
      · by_cases hu : m.unanswered <;>
          simp [CoreMachine.tells, CoreMachine.next, CoreMachine.onServerMsrTimer, h, hu]
      · have hnone : ¬ (m.role = .server ∧ m.state = .established ∧ m.unanswered) := by tauto
        rw [CoreMachine.tells, if_neg hnone, CoreMachine.next, if_neg h]
        simp
    | clientProbe =>
      by_cases h : m.role = .client ∧ (m.state = .established ∨ m.state = .reactivating) ∧
        m.misses nowMs
      · rw [CoreMachine.tells, if_pos h, CoreMachine.next, if_pos h]
        simp
      · rw [CoreMachine.tells, if_neg h, CoreMachine.next, if_neg h]
        simp
    | disconnect =>
      by_cases hpast : m.pastDeadline nowMs <;> by_cases hlost : m.state = .lost <;>
        simp [CoreMachine.tells, CoreMachine.next, hpast, hlost]
    | renegotiationTimeout =>
      by_cases hpast : m.pastExpiry nowMs <;> simp [CoreMachine.tells, CoreMachine.next, hpast]
      cases m.pendingLocalProposal <;> simp
  | beginHandshake nowMs => by_cases h : m.role = .client <;> simp [CoreMachine.tells, CoreMachine.next, h]
  | send payload =>
    by_cases h : m.state = .established ∧ m.role = .client
    · simp [CoreMachine.tells, CoreMachine.next, CoreMachine.enqueue, h]
    · rw [CoreMachine.tells, if_neg h]
      simp [CoreMachine.next, CoreMachine.enqueue]
  | close => by_cases h : m.state = .lost <;> simp [CoreMachine.tells, CoreMachine.next, h]
  | proposeTimers nowMs p =>
    by_cases h : m.canPropose p <;>
      simp [CoreMachine.tells, CoreMachine.next, CoreMachine.propose, h]
  | pathChanged pathId => simp [CoreMachine.tells, CoreMachine.next]

end Next

end Todero.Core
