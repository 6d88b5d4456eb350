import Todero.TimerAgreement

/-! What a late copy of an old proposal does to the machine that has accepted a newer one. -/
namespace Todero.Core
open Todero.Wire Transition Duplex

/-! ### What a proposal must be, whatever it is to replace -/

/-- The bounds of `validate_timer_proposal` that do not depend on the timers in force. -/
structure TimerProposal.InBounds (p : TimerProposal) : Prop where
  interval : minMsrIntervalMs ≤ p.msrIntervalMs ∧ p.msrIntervalMs ≤ maxMsrIntervalMs
  missWindow : minMissWindowCount ≤ p.missWindowCount ∧ p.missWindowCount ≤ 64
  disconnect : minDisconnectWindowMs ≤ p.disconnectWindowMs ∧
    p.disconnectWindowMs ≤ maxDisconnectWindowMs
  probe : saturatingMul p.msrIntervalMs p.missWindowCount ≤ p.disconnectWindowMs

theorem validateTimerProposal_isOk_iff (c : CoreConfig) (p : TimerProposal) :
    (validateTimerProposal c p).isOk ↔
      p.InBounds ∧ p.missWindowCount.toNat ≤ c.missWindowCount.toNat + 2 := by
  have hstep : p.missWindowCount ≤ 64 →
      (¬ p.missWindowCount > saturatingAdd c.missWindowCount maxMissWindowStep ↔
        p.missWindowCount.toNat ≤ c.missWindowCount.toNat + 2) := by
    intro hmax
    have hmax' : p.missWindowCount.toNat ≤ 64 := hmax
    have htwo : maxMissWindowStep.toNat = 2 := rfl
    rw [gt_iff_lt, UInt64.not_lt, UInt64.le_iff_toNat_le, saturatingAdd_toNat, htwo, u64Max]
    omega
  have hall : (validateTimerProposal c p).isOk ↔
      (minMsrIntervalMs ≤ p.msrIntervalMs ∧ p.msrIntervalMs ≤ maxMsrIntervalMs) ∧
        (minMissWindowCount ≤ p.missWindowCount ∧ p.missWindowCount ≤ 64) ∧
        ¬ p.missWindowCount > saturatingAdd c.missWindowCount maxMissWindowStep ∧
        (minDisconnectWindowMs ≤ p.disconnectWindowMs ∧
          p.disconnectWindowMs ≤ maxDisconnectWindowMs) ∧
        ¬ p.disconnectWindowMs < saturatingMul p.msrIntervalMs p.missWindowCount := by
    unfold validateTimerProposal
    split_ifs <;> simp_all [Except.isOk, Except.toBool, bind, Except.bind, throw, throwThe,
      MonadExceptOf.throw, pure, Except.pure]
  rw [hall]
  constructor
  · rintro ⟨hmsr, hmiss, hle, hdisc, hprobe⟩
    exact ⟨⟨hmsr, hmiss, hdisc, UInt64.not_lt.mp hprobe⟩, (hstep hmiss.2).mp hle⟩
  · rintro ⟨⟨hmsr, hmiss, hdisc, hprobe⟩, hle⟩
    exact ⟨hmsr, hmiss, (hstep hmiss.2).mpr hle, hdisc, UInt64.not_lt.mpr hprobe⟩

/-- Every proposal in flight was checked where it was made. -/
def Renegotiation.Checked (v : Renegotiation) : Prop :=
  ∀ r id p, .proposal id p ∈ v.inbox r → p.InBounds

theorem Talk.Turn.checked {w : Talk} {a : Move} {v : Renegotiation} (hturn : w.Turn a v)
    (h : w.renegotiation.Checked) : v.Checked := by
  intro r id p hp
  cases hturn with
  | same => exact h r id p hp
  | propose q nowMs p' _ hcan =>
    rcases (Net.mem_commit _ _ _ _ _ _ _).mp hp with hold | ⟨-, hnew⟩
    · exact h r id p hold
    · simp only [List.mem_singleton, TimerTlv.proposal.injEq] at hnew
      rw [hnew.2]
      exact ((validateTimerProposal_isOk_iff _ _).mp hcan.2).1
  | expire q nowMs =>
    rcases (Net.mem_commit _ _ _ _ _ _ _).mp hp with hold | ⟨-, hnew⟩
    · exact h r id p hold
    · simp at hnew
  | recv q i j x p' tlv =>
    rcases (Net.mem_commit _ _ _ _ _ _ _).mp hp with hold | ⟨-, hnew⟩
    · exact h r id p (Net.mem_of_remove hold)
    · obtain ⟨_, _, -, hack⟩ := mem_answers hnew
      cases hack
  | drop q i j => exact h r id p (Net.mem_of_remove hp)
  | duplicate q i j tlv _ htlv =>
    rcases (Net.mem_add _ _ _ _ _).mp hp with hold | ⟨rfl, hnew⟩
    · exact h r id p hold
    · rw [← List.mem_singleton.mp hnew] at htlv
      exact h r id p (List.mem_of_getElem? htlv)

theorem checked_of_run {cid : UInt64} {cfg : Role → CoreConfig} {h : WorldHistory} {w : World}
    (hrun : Run World.step (World.start cid cfg) h w) :
    ∃ v : Talk, v.Clean cid ∧ w = v.toWorld cid ∧ v.renegotiation.Checked :=
  World.talk_invariant (Talk.start_clean cid cfg) (fun _ _ _ hp => absurd hp List.not_mem_nil)
    (fun _ _ _ _ _ hv hs hchecked => (hv.turn hs).checked hchecked) hrun

/-! ### The late copy -/

/-- After the run `h`, in which only the machine at `r` has made proposals, each after the
one before it was acknowledged, and both machines have committed number `k`, the step `t`
brings its peer a copy of an earlier one, `p`. -/
structure StaleCopy (r : Role) (h : WorldHistory) (t : Taken World Move (Option CallResult))
    (k id : UInt32) (p : TimerProposal) : Prop where
  sole : ∀ u ∈ h, proposedAt r.peer u = none
  inTurn : ∀ u ∈ h, proposedAt r u ≠ none → (u.pre.core r).pendingLocalProposal = none
  kept : ∀ u ∈ h, rolledBackAt r u = none
  proposer : ∃ u ∈ h, ∃ pending, pending.proposalId = k ∧ CommitsOwn r u pending
  acceptor : ∃ u ∈ h, ∃ q, Accepts r.peer u k q
  older : id < k
  copy : Reads r.peer t (.proposal id p)

/-- A late copy of an older proposal leaves the acceptor's timers alone exactly when it asks
for those in force, or widens their miss window by more than a step. -/
theorem stale_copy_inert_iff {cid : UInt64} {cfg : Role → CoreConfig} {h : WorldHistory}
    {w w' : World} (hrun : Run World.step (World.start cid cfg) h w) {a : Move}
    {o : Option CallResult} (hs : w.step a = some (w', o)) {r : Role} {k id : UInt32}
    {p : TimerProposal} (hstale : StaleCopy r h ⟨w, a, o, w'⟩ k id p) :
    (w'.core r.peer).cfg = (w.core r.peer).cfg ↔ p.toConfig = (w.core r.peer).cfg ∨
      (w.core r.peer).cfg.missWindowCount.toNat + 2 < p.missWindowCount.toNat := by
  obtain ⟨v, hv, rfl, hchecked⟩ := checked_of_run hrun
  obtain ⟨v', hstep, -, rfl⟩ := hv.world_step hs
  obtain ⟨i, x, packet, ha, hpacket, htimer⟩ := (hv.reads_iff rfl).mp hstale.copy
  have hbounds : p.InBounds := hchecked r.peer id p
    (List.mem_filterMap.mpr ⟨packet, List.mem_of_getElem? hpacket, htimer⟩)
  have hcfg : (v'.core r.peer).cfg = ((v.core r.peer).timers.on (.proposal id p)).cfg :=
    congrArg Timers.cfg (hv.reads_timers hstep hstale.copy)
  have hok := validateTimerProposal_isOk_iff (v.core r.peer).timers.cfg p
  show (v'.core r.peer).cfg = (v.core r.peer).timers.cfg ↔ p.toConfig = (v.core r.peer).timers.cfg ∨
    (v.core r.peer).timers.cfg.missWindowCount.toNat + 2 < p.missWindowCount.toNat
  rw [hcfg, Timers.on]
  split_ifs with hacc
  · have hle := (hok.mp hacc).2
    exact ⟨.inl, fun h => h.resolve_right (by omega)⟩
  · have hgt : (v.core r.peer).timers.cfg.missWindowCount.toNat + 2 < p.missWindowCount.toNat := by
      by_contra hle
      exact hacc (hok.mpr ⟨hbounds, by omega⟩)
    exact iff_of_true rfl (.inr hgt)

/-- The timer TLVs worked off at `r` in a step. -/
def readAt (r : Role) (t : Taken World Move (Option CallResult)) : List TimerTlv :=
  match t.input with
  | .deliver q i _ =>
    if q = r then (t.pre.inbox q)[i]?.elim [] (t.pre.core q).timerTlvs else []
  | _ => []

theorem reads_of_mem {r : Role} {t : Taken World Move (Option CallResult)} {tlv : TimerTlv}
    (h : tlv ∈ readAt r t) : Reads r t tlv := by
  unfold readAt at h
  split at h
  · rename_i q i x ha
    split_ifs at h with hq
    · subst hq
      cases hd : (t.pre.inbox q)[i]? with
      | none => simp [hd] at h
      | some bytes => exact ⟨i, x, bytes, ha, hd, by simpa [hd] using h⟩
    · simp at h
  · simp at h

/-- What `StaleCopy` asks for of a run and the step after it, as it can be computed; `q` is
the newer proposal. -/
def staleIn (h : WorldHistory) (t : Taken World Move (Option CallResult)) (p q : TimerProposal) :
    Bool :=
  (h.all fun u => (proposedAt .server u).isNone && (rolledBackAt .client u).isNone &&
    ((proposedAt .client u).isNone || (u.pre.core .client).pendingLocalProposal.isNone)) &&
  (h.any fun u => (u.pre.core .client).pendingLocalProposal.any fun pending =>
    pending.proposalId = 2 && decide (.ack 2 true ∈ readAt .client u)) &&
  (h.any fun u => decide (.proposal 2 q ∈ readAt .server u ∧
    (validateTimerProposal (u.pre.core .server).cfg q).isOk ∧
    (u.post.core .server).cfg = q.toConfig)) &&
  decide (.proposal 1 p ∈ readAt .server t)

theorem staleIn_copy {h : WorldHistory} {t : Taken World Move (Option CallResult)}
    {p q : TimerProposal} (hin : staleIn h t p q) : StaleCopy .client h t 2 1 p := by
  simp only [staleIn, Bool.and_eq_true, List.all_eq_true, List.any_eq_true,
    Option.isNone_iff_eq_none, Bool.or_eq_true, decide_eq_true_eq, Option.any_eq_true] at hin
  obtain ⟨⟨⟨hall, u, hu, pending, hpending, hid, hack⟩, u', hu', hprop, hok, hcfg⟩, hcopy⟩ := hin
  refine ⟨fun u hu => (hall u hu).1.1, fun u hu hne => (hall u hu).2.resolve_left hne,
    fun u hu => (hall u hu).1.2, ⟨u, hu, pending, hid, hpending, ?_⟩,
    ⟨u', hu', q, reads_of_mem hprop, hok, hcfg⟩, by decide, reads_of_mem hcopy⟩
  rw [hid]
  exact reads_of_mem hack

/-- The client proposes `p`, of which a copy is left behind, and then `q`. -/
def leavingCopy (p q : TimerProposal) : List Move :=
  shakeHands ++ [.call .client (.proposeTimers 10 p), .duplicate .server 0,
    .deliver .server 0 ⟨11, 0⟩, .deliver .client 0 ⟨12, 0⟩, .call .client (.proposeTimers 20 q),
    .deliver .server 1 ⟨21, 0⟩, .deliver .client 0 ⟨22, 0⟩]

def widerWindow : TimerProposal := ⟨1000, 5, 10000⟩
def narrowerWindow : TimerProposal := ⟨1000, 1, 10000⟩

/-- The copy asks for more than a step from the window in force. -/
theorem widerCopy_inert :
    ∃ h w w' o, exec World.step (World.start 7 fun _ => .default)
        (leavingCopy widerWindow narrowerWindow) = some (h, w) ∧
      w.step (.deliver .server 0 ⟨30, 0⟩) = some (w', o) ∧
      StaleCopy .client h ⟨w, .deliver .server 0 ⟨30, 0⟩, o, w'⟩ 2 1 widerWindow ∧
      (w'.core .server).cfg = (w.core .server).cfg := by
  have hexec : (exec World.step (World.start 7 fun _ => .default)
      (leavingCopy widerWindow narrowerWindow)).any (fun x =>
        (x.2.step (.deliver .server 0 ⟨30, 0⟩)).any fun y =>
          staleIn x.1 ⟨x.2, .deliver .server 0 ⟨30, 0⟩, y.2, y.1⟩ widerWindow narrowerWindow &&
          decide ((x.2.core .server).cfg.missWindowCount = 1)) = true := by decide +kernel
  obtain ⟨⟨h, w⟩, hexec, hx⟩ := (Option.any_eq_true _ _).mp hexec
  obtain ⟨⟨w', o⟩, hs, hy⟩ := (Option.any_eq_true _ _).mp hx
  obtain ⟨hstale, hwindow⟩ := Bool.and_eq_true_iff.mp hy
  have hstale := staleIn_copy hstale
  refine ⟨h, w, w', o, hexec, hs, hstale, ?_⟩
  refine (stale_copy_inert_iff (Run.of_exec hexec) hs hstale).mpr (.inr ?_)
  rw [Role.peer, of_decide_eq_true hwindow]
  decide

/-- The copy takes the acceptor back to the timers of the older proposal. -/
theorem olderCopy_accepted :
    ¬ ∀ (cid : UInt64) (cfg : Role → CoreConfig) (h : WorldHistory) (w w' : World) (a : Move)
      (o : Option CallResult) (r : Role) (k id : UInt32) (p : TimerProposal),
      Run World.step (World.start cid cfg) h w → w.step a = some (w', o) →
        StaleCopy r h ⟨w, a, o, w'⟩ k id p → (w'.core r.peer).cfg = (w.core r.peer).cfg := by
  intro hclaim
  have hexec : (exec World.step (World.start 7 fun _ => .default)
      (leavingCopy fasterTimers slowerTimers)).any (fun x =>
        (x.2.step (.deliver .server 0 ⟨30, 0⟩)).any fun y =>
          staleIn x.1 ⟨x.2, .deliver .server 0 ⟨30, 0⟩, y.2, y.1⟩ fasterTimers slowerTimers &&
          decide ((y.1.core .server).cfg ≠ (x.2.core .server).cfg)) = true := by decide +kernel
  obtain ⟨⟨h, w⟩, hexec, hx⟩ := (Option.any_eq_true _ _).mp hexec
  obtain ⟨⟨w', o⟩, hs, hy⟩ := (Option.any_eq_true _ _).mp hx
  obtain ⟨hstale, hne⟩ := Bool.and_eq_true_iff.mp hy
  exact of_decide_eq_true hne (hclaim 7 _ h w w' _ o .client 2 1 _ (Run.of_exec hexec) hs
    (staleIn_copy hstale))

end Todero.Core
