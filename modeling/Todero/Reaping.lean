import Todero.Isolation

/-! Whether an idle session is ever reaped: its `Disconnect` entry among the timers, over
all runs. -/
namespace Todero.Server
open Todero.Wire Todero.Core Todero.Store Transition

/-- Some pending entry will look at the disconnect deadline of `cid`. -/
def Guarded (timers : TimerMap) (cid : UInt64) : Prop :=
  ∃ deadline, (cid, TimerId.disconnect) ∈ pending timers deadline

theorem Guarded.pushes {cid : UInt64} {timers : TimerMap} (h : Guarded timers cid)
    (other : UInt64) (as : List TimerAction) :
    Guarded (as.foldl (pushTimer other) timers) cid := by
  obtain ⟨deadline, hmem⟩ := h
  exact ⟨deadline, by rw [pending_pushes]; exact List.mem_append_left _ hmem⟩

theorem guarded_of_schedule {cid deadline : UInt64} {as : List TimerAction}
    (h : .schedule .disconnect deadline ∈ as) (timers : TimerMap) :
    Guarded (as.foldl (pushTimer cid) timers) cid := by
  refine ⟨deadline, ?_⟩
  rw [pending_pushes]
  exact List.mem_append_right _ (mem_scheduledAt.mpr ⟨rfl, h⟩)

theorem Guarded.drop {cid : UInt64} {timers : TimerMap} (h : Guarded timers cid) (d : UInt64)
    {entry : UInt64 × TimerId} (hne : (cid, .disconnect) ≠ entry) :
    Guarded (dropTimer timers d entry) cid := by
  obtain ⟨deadline, hmem⟩ := h
  refine ⟨deadline, ?_⟩
  rw [pending_drop]
  split_ifs
  · exact (List.mem_erase_of_ne hne).mpr hmem
  · exact hmem

section Reaped
variable {σ : Type}

/-- Every session has a pending `Disconnect` entry. -/
def ServerRuntime.Reaped (rt : ServerRuntime σ) : Prop :=
  ∀ (cid : UInt64) (s : SessionRuntime), rt.sessions[cid]? = some s → Guarded rt.timers cid

/-- The frames that leave a new session before its handshake, and schedule nothing. -/
def unscheduled : MessageType → Bool
  | .serverHello | .msr | .requestRange | .data | .fragment => true
  | .clientHello | .helloAck | .close | .error => false

theorem opening_of_unscheduled {m : CoreMachine} (hrole : m.role = .server) {t : MessageType}
    (h : unscheduled t) (nowMs : UInt64) : m.opening nowMs t = [] := by
  cases t <;> simp_all [unscheduled, CoreMachine.opening]

variable [SessionStore σ]

/-- A frame that schedules nothing arrives for a cid that has neither a session nor a
`Disconnect` entry left over from one, and the store can be read. -/
def immortalizes (rt : ServerRuntime σ) : Op → Prop
  | .datagram nowMs _ bytes =>
    ∃ frame loaded, WireFrame.decode bytes = .ok frame ∧ rt.sessions[frame.cid]? = none ∧
      (SessionStore.load rt.store frame.cid nowMs).2 = .ok loaded ∧
      unscheduled frame.messageType ∧ ¬ Guarded rt.timers frame.cid
  | .pollTimers _ _ | .sendMessage _ _ _ => False

variable [Base64] {rt rt₁ rt' : ServerRuntime σ} {cid : UInt64} {s : SessionRuntime}
  {src : UInt32} {nowMs : UInt64} {called : CoreMachine × CallResult} {res : RuntimeResult}

theorem Driven.guarded (hd : Driven rt cid s src nowMs called rt' res) {other : UInt64}
    (h : Guarded rt.timers other) : Guarded rt'.timers other := by
  rw [hd.timers]
  exact h.pushes cid _

omit [Base64] in
theorem isOk_of_disconnects {res : CallResult} (h : res.output.disconnects ≠ 0) : res.isOk := by
  cases res with
  | ok out => rfl
  | error e => simp [CoreOutput.disconnects] at h

omit [Base64] in
theorem closes_eq {m : CoreMachine} {bytes : Bytes} {frame : WireFrame}
    (h : ownFrame m bytes = some frame) : closes m bytes = decide (closing frame) := by
  obtain ⟨hd, hf⟩ := ownFrame_eq_some.mp h
  simp [closes, hd, hf]

/-- What a frame does to a session that was just made: it opens it, ends it, or leaves it
with nothing scheduled. -/
theorem fresh_guarded_iff {bytes : Bytes} {frame : WireFrame}
    (hdec : WireFrame.decode bytes = .ok frame) (hcid : s.core.cid = frame.cid)
    (hrole : s.core.role = .server) (hstate : s.core.state = .preHandshake)
    (hd : Driven rt frame.cid s src nowMs (Core.onDatagram s.core nowMs src bytes) rt' res) :
    (∀ s', rt'.sessions[frame.cid]? = some s' → Guarded rt'.timers frame.cid) ↔
      ¬ (unscheduled frame.messageType ∧ ¬ Guarded rt.timers frame.cid) := by
  have hown := ownFrame_of_cid hdec hcid
  have hsched := (onDatagram_emission hown nowMs src).1.scheduled
  obtain ⟨-, -, -, hlost, hdis⟩ := onDatagram_effect s.core nowMs src bytes
  rw [closes_eq hown] at hlost hdis
  by_cases hg : Guarded rt.timers frame.cid
  · exact iff_of_true (fun _ _ => hd.guarded hg) fun h => h.2 hg
  by_cases hu : unscheduled frame.messageType
  · refine iff_of_false ?_ fun h => h ⟨hu, hg⟩
    have hclose : ¬ closing frame := by
      intro h
      cases hm : frame.messageType <;> simp_all [unscheduled, closing]
    have hlive : (Core.onDatagram s.core nowMs src bytes).1.state ≠ .lost := by
      intro h
      simpa [hstate, hclose] using hlost.mp h
    obtain ⟨s', hs', -⟩ := hd.stays hlive
    intro h
    have hguard := h s' hs'
    rw [hd.timers, hsched, opening_of_unscheduled hrole hu] at hguard
    exact hg hguard
  · refine iff_of_true (fun s' hs' => ?_) fun h => hu h.1
    by_cases hclose : closing frame
    · have hnone := hd.gone (isOk_of_disconnects (by simp [hdis, hclose]))
        (hlost.mpr (.inr (by simpa using hclose)))
      simp [hnone] at hs'
    · have hopen : frame.messageType = .clientHello ∨ frame.messageType = .helloAck := by
        cases hm : frame.messageType <;> simp_all [unscheduled, closing]
      rw [hd.timers, hsched]
      have hmem : .schedule .disconnect (nowMs + s.core.cfg.disconnectWindowMs) ∈
          s.core.opening nowMs frame.messageType := by
        obtain hm | hm := hopen <;> simp [hm, CoreMachine.opening, hrole, hstate]
      exact guarded_of_schedule hmem rt.timers

omit [Base64] in
theorem Enters.guarded (henter : Enters rt cid src nowMs s rt₁) (hrt : rt.Reaped)
    {other : UInt64} {s' : SessionRuntime} (hne : other ≠ cid)
    (hs' : rt₁.sessions[other]? = some s') : Guarded rt₁.timers other := by
  rw [henter.others hne] at hs'
  rw [henter.timers]
  exact hrt other s' hs'

theorem Received.reaped_iff {bytes : Bytes} (h : Received rt nowMs src bytes rt' res)
    (hrt : rt.Reaped) :
    rt'.Reaped ↔ ¬ immortalizes rt (.datagram nowMs src bytes) := by
  cases h with
  | undecodable herr => exact iff_of_true hrt fun ⟨_, _, hd, _⟩ => by simp [herr] at hd
  | @unloaded frame e _ hdec _ hload _ _ hsessions htimers =>
    refine iff_of_true (fun cid s hs => ?_) ?_
    · rw [hsessions] at hs
      rw [htimers]
      exact hrt cid s hs
    · rintro ⟨frame', loaded, hdec', -, hload', -⟩
      obtain rfl : frame = frame' := Except.ok.inj (hdec.symm.trans hdec')
      simp [hload] at hload'
  | @visited frame s rt₁ _ res hdec henter hdrive =>
    have hothers : ∀ (other : UInt64) (s' : SessionRuntime), other ≠ frame.cid →
        rt'.sessions[other]? = some s' → Guarded rt'.timers other := by
      intro other s' hne hs'
      rw [hdrive.others other hne] at hs'
      exact hdrive.guarded (henter.guarded hrt hne hs')
    cases henter with
    | present hs =>
      refine iff_of_true (fun cid s' hs' => ?_) ?_
      · by_cases hne : cid = frame.cid
        · exact hne ▸ hdrive.guarded (hrt _ _ hs)
        · exact hothers cid s' hne hs'
      · rintro ⟨frame', loaded, hdec', habsent, -⟩
        obtain rfl : frame = frame' := Except.ok.inj (hdec.symm.trans hdec')
        simp [hs] at habsent
    | @fresh loaded _ habsent hload _ _ _ htimers =>
      obtain ⟨cfg', hcore⟩ := freshSession_core rt.cfg frame.cid src loaded
      have hiff := fresh_guarded_iff hdec (by rw [hcore]; rfl) (by rw [hcore]; rfl)
        (by rw [hcore]; rfl) hdrive
      rw [htimers] at hiff
      constructor
      · rintro hreaped ⟨frame', loaded', hdec', -, -, hu, hg⟩
        obtain rfl : frame = frame' := Except.ok.inj (hdec.symm.trans hdec')
        exact hiff.mp (fun s' hs' => hreaped _ s' hs') ⟨hu, hg⟩
      · intro hnot cid s' hs'
        by_cases hne : cid = frame.cid
        · subst hne
          exact hiff.mpr (fun hu => hnot ⟨frame, loaded, hdec, habsent, hload, hu⟩) s' hs'
        · exact hothers cid s' hne hs'

/-- The entry that fires is itself the guard only when it is the `Disconnect` entry, and
then it ends the session or is scheduled again. -/
theorem Fired.reaped {due : DueTimer} (h : Fired rt nowMs due rt' res) (hhost : rt.Hosting)
    (hrt : rt.Reaped) : rt'.Reaped := by
  have hdrop : ∀ (cid : UInt64) (s : SessionRuntime), rt.sessions[cid]? = some s →
      (cid, .disconnect) ≠ (due.cid, due.timerId) →
      Guarded (dropTimer rt.timers due.deadline (due.cid, due.timerId)) cid :=
    fun cid s hs hne => (hrt cid s hs).drop due.deadline hne
  cases h with
  | skipped habsent =>
    intro cid s hs
    refine hdrop cid s hs fun heq => ?_
    obtain rfl : cid = due.cid := congrArg Prod.fst heq
    simp [habsent] at hs
  | @visited s _ _ hs hdrive =>
    intro cid s' hs'
    by_cases hne : (cid, TimerId.disconnect) = (due.cid, due.timerId)
    · obtain ⟨rfl, hid⟩ := Prod.mk.inj hne
      have hans := disconnectTimer_answers s.core nowMs
      have hsched := onTimer_schedules s.core nowMs .disconnect
      rw [← hid] at hdrive
      obtain ⟨deadline, hdeadline⟩ := Option.isSome_iff_exists.mp (hhost _ _ hs).touched
      by_cases hover : nowMs ≥ deadline ∧ s.core.state ≠ .lost
      · have hpast : s.core.pastDeadline nowMs := by
          simp [CoreMachine.pastDeadline, hdeadline, hover.1]
        have hok : (onTimer s.core nowMs .disconnect).2.isOk := by
          refine isOk_of_disconnects ?_
          rw [CoreOutput.disconnects, hans.events, CoreMachine.tells, if_pos ⟨hpast, hover.2⟩]
          simp
        have hlost : (onTimer s.core nowMs .disconnect).1.state = .lost := by
          rw [hans.next, CoreMachine.next, if_pos hpast]
        simp [hdrive.gone hok hlost] at hs'
      · have hagain : s.core.schedules (.timer nowMs .disconnect) =
            [.schedule .disconnect deadline] := by
          simp only [CoreMachine.schedules, hdeadline]
          exact if_neg hover
        rw [hdrive.timers, hsched, hagain]
        exact guarded_of_schedule (List.mem_singleton.mpr rfl) _
    · refine hdrive.guarded ?_
      by_cases hc : cid = due.cid
      · exact hdrop cid s (hc ▸ hs) hne
      · rw [hdrive.others cid hc] at hs'
        exact hdrop cid s' hs' hne

theorem Sent.reaped {payload : Bytes} (h : Sent rt cid payload nowMs rt' res) (hrt : rt.Reaped) :
    rt'.Reaped := by
  cases h with
  | skipped => exact hrt
  | visited hs _ hdrive =>
    intro other s' hs'
    by_cases hne : other = cid
    · exact hne ▸ hdrive.guarded (hrt _ _ hs)
    · rw [hdrive.others other hne] at hs'
      exact hdrive.guarded (hrt other s' hs')

theorem step_reaped_iff {op : Op} (hhost : rt.Hosting) (hrt : rt.Reaped)
    (h : rt.step op = some (rt', res)) : rt'.Reaped ↔ ¬ immortalizes rt op := by
  cases op with
  | datagram nowMs src bytes =>
    exact (step_received h).reaped_iff hrt
  | pollTimers nowMs limit =>
    obtain ⟨rfl, -⟩ := step_polled h
    refine iff_of_true ?_ id
    exact (poll_invariant (P := fun rt => rt.Hosting ∧ rt.Reaped) ⟨hhost, hrt⟩ fun x _ hx =>
      have hfired := fire_fired nowMs x.1 x.2
      ⟨hfired.hosting hx.1, hfired.reaped hx.1 hx.2⟩).2
  | sendMessage cid payload nowMs => exact iff_of_true ((sendMessage_sent h).reaped hrt) id

/-- Every session can be reaped in every state a runtime comes through, exactly when no
session is made by a frame that schedules nothing. -/
theorem sessions_reaped_iff {cfg : CoreConfig} {store : σ} {h : ServerHistory σ}
    (hrun : Run ServerRuntime.step (ServerRuntime.new cfg store) h rt) :
    (∀ t ∈ h, t.post.Reaped) ↔ ∀ t ∈ h, ¬ immortalizes t.pre t.input := by
  have hboth : ((∀ t ∈ h, t.post.Reaped) ↔ ∀ t ∈ h, ¬ immortalizes t.pre t.input) ∧
      ((∀ t ∈ h, t.post.Reaped) → rt.Reaped) := by
    induction hrun with
    | nil => exact ⟨by simp, fun _ cid s hs => by simp [ServerRuntime.new] at hs⟩
    | snoc hr hs ih =>
      obtain ⟨hiff, hlast⟩ := ih
      simp only [List.forall_mem_append, List.mem_singleton, forall_eq]
      refine ⟨?_, fun h => h.2⟩
      rw [← hiff]
      exact and_congr_right fun hall =>
        step_reaped_iff (hosting_of_run hr) (hlast hall) hs
  exact hboth.1

end Reaped

/-- A stray data frame for a cid the server has never heard of. -/
def strayData : List Op := [.datagram 0 1 ((Packet.data 1 [10] 0 1).bytes 7)]

theorem twoHellos_reaped :
    ∃ h rt, exec ServerRuntime.step defaultServer twoHellos = some (h, rt) ∧
      ((∀ t ∈ h, t.post.Reaped) ↔ ∀ t ∈ h, ¬ immortalizes t.pre t.input) := by
  have hsome : (exec ServerRuntime.step defaultServer twoHellos).isSome := by
    decide +kernel
  obtain ⟨⟨h, rt⟩, hexec⟩ := Option.isSome_iff_exists.mp hsome
  exact ⟨h, rt, hexec, sessions_reaped_iff (Run.of_exec hexec)⟩

theorem strayData_immortal :
    ∃ h rt, Run ServerRuntime.step defaultServer h rt ∧
      ∃ s, rt.sessions[(7 : UInt64)]? = some s ∧ ¬ Guarded rt.timers 7 := by
  have hsome : (exec ServerRuntime.step defaultServer strayData).any
        fun x => x.2.sessions[(7 : UInt64)]?.isSome && x.2.timers.isEmpty := by
    decide +kernel
  obtain ⟨⟨h, rt⟩, hexec, hboth⟩ := (Option.any_eq_true _ _).mp hsome
  obtain ⟨hin, hempty⟩ := Bool.and_eq_true_iff.mp hboth
  obtain ⟨s, hs⟩ := Option.isSome_iff_exists.mp hin
  refine ⟨h, rt, Run.of_exec hexec, s, hs, ?_⟩
  rintro ⟨deadline, hmem⟩
  have hnone : rt.timers[deadline]? = none :=
    Std.TreeMap.getElem?_of_isEmpty hempty
  simp [pending, hnone] at hmem

end Todero.Server
