import Todero.Reaping

/-! Whether timer entries pile up: how often one cid and timer are pending, over all runs. -/
namespace Todero.Server
open Todero.Wire Todero.Core Todero.Store Transition

/-! ### Entries -/

def Absent (timers : TimerMap) (e : UInt64 × TimerId) : Prop :=
  ∀ deadline, e ∉ pending timers deadline

/-- At most one entry for this cid and timer is pending, over all deadlines. -/
structure Single (timers : TimerMap) (e : UInt64 × TimerId) : Prop where
  once : ∀ deadline, (pending timers deadline).count e ≤ 1
  one : ∀ d d', e ∈ pending timers d → e ∈ pending timers d' → d = d'

theorem not_guarded_iff {timers : TimerMap} {cid : UInt64} :
    ¬ Guarded timers cid ↔ Absent timers (cid, .disconnect) := by
  rw [Guarded, not_exists]
  rfl

theorem Absent.single {timers : TimerMap} {e : UInt64 × TimerId} (h : Absent timers e) :
    Single timers e where
  once := fun deadline => by simp [List.count_eq_zero_of_not_mem (h deadline)]
  one := fun d d' hd _ => absurd hd (h d)

theorem Absent.drop {timers : TimerMap} {e : UInt64 × TimerId} (h : Absent timers e) (d : UInt64)
    (e' : UInt64 × TimerId) : Absent (dropTimer timers d e') e := by
  intro deadline hmem
  rw [pending_drop] at hmem
  split_ifs at hmem
  · exact h deadline (List.mem_of_mem_erase hmem)
  · exact h deadline hmem

theorem Single.drop {timers : TimerMap} {e : UInt64 × TimerId} (h : Single timers e) (d : UInt64)
    (e' : UInt64 × TimerId) : Single (dropTimer timers d e') e := by
  have hsub : ∀ deadline, (pending (dropTimer timers d e') deadline).Sublist
      (pending timers deadline) := by
    intro deadline
    rw [pending_drop]
    split_ifs
    · exact List.erase_sublist
    · exact List.Sublist.refl _
  exact ⟨fun deadline => ((hsub deadline).count_le e).trans (h.once deadline),
    fun d d' hd hd' => h.one d d' ((hsub d).subset hd) ((hsub d').subset hd')⟩

/-- The only pending entry is gone once it is taken out. -/
theorem Single.drop_absent {timers : TimerMap} {e : UInt64 × TimerId} (h : Single timers e)
    {d : UInt64} (hmem : e ∈ pending timers d) : Absent (dropTimer timers d e) e := by
  intro deadline hin
  rw [pending_drop] at hin
  split_ifs at hin with hd
  · subst hd
    have hcount := List.count_pos_iff.mpr hin
    have honce := h.once deadline
    rw [List.count_erase_self] at hcount
    omega
  · exact hd (h.one deadline d hin hmem)

theorem pending_push_of_ne {cid : UInt64} {timers : TimerMap} {id : TimerId}
    {e : UInt64 × TimerId} (hne : e ≠ (cid, id)) (d deadline : UInt64) :
    e ∈ pending (pushTimer cid timers (.schedule id d)) deadline ↔ e ∈ pending timers deadline := by
  rw [pending_push, List.mem_append]
  split_ifs <;> simp [hne]

theorem Single.push {cid : UInt64} {timers : TimerMap} {id : TimerId}
    (habsent : Absent timers (cid, id)) (d : UInt64) {e : UInt64 × TimerId}
    (h : Single timers e) : Single (pushTimer cid timers (.schedule id d)) e := by
  by_cases he : e = (cid, id)
  · subst he
    have hin : ∀ deadline, (cid, id) ∈ pending (pushTimer cid timers (.schedule id d)) deadline →
        deadline = d := by
      intro deadline hmem
      by_contra hne
      rw [pending_push, if_neg hne, List.append_nil] at hmem
      exact habsent deadline hmem
    constructor
    · intro deadline
      rw [pending_push, List.count_append,
        List.count_eq_zero_of_not_mem (habsent deadline), Nat.zero_add]
      split_ifs <;> simp
    · intro d₁ d₂ h₁ h₂
      rw [hin d₁ h₁, hin d₂ h₂]
  · constructor
    · intro deadline
      have hzero : (if deadline = d then [(cid, id)] else []).count e = 0 :=
        List.count_eq_zero_of_not_mem (by split_ifs <;> simp [he])
      rw [pending_push, List.count_append, hzero]
      exact h.once deadline
    · intro d₁ d₂ h₁ h₂
      exact h.one d₁ d₂ ((pending_push_of_ne he d d₁).mp h₁) ((pending_push_of_ne he d d₂).mp h₂)

def timerOf : TimerAction → TimerId
  | .schedule id _ => id

theorem schedules_nodup (m : CoreMachine) (nowMs : UInt64) (id : TimerId) :
    ((m.schedules (.timer nowMs id)).map timerOf).Nodup := by
  cases id with
  | serverMsr | clientProbe =>
    simp only [CoreMachine.schedules]
    split_ifs <;> simp [timerOf]
  | disconnect =>
    simp only [CoreMachine.schedules]
    split
    · simp
    · split_ifs <;> simp [timerOf]
  | renegotiationTimeout => simp [CoreMachine.schedules]

/-- Actions for different timers, none of which is pending, pile nothing up. -/
theorem single_pushes {cid : UInt64} {as : List TimerAction}
    (hnodup : (as.map timerOf).Nodup) {timers : TimerMap}
    (habsent : ∀ a ∈ as, Absent timers (cid, timerOf a))
    (h : ∀ e, Single timers e) (e : UInt64 × TimerId) :
    Single (as.foldl (pushTimer cid) timers) e := by
  induction as generalizing timers with
  | nil => exact h e
  | cons a as ih =>
    obtain ⟨id, d⟩ := a
    obtain ⟨hhead, htail⟩ := List.forall_mem_cons.mp habsent
    obtain ⟨hfresh, hrest⟩ := List.nodup_cons.mp hnodup
    refine ih hrest (fun a ha deadline hmem => ?_) (fun e => (h e).push hhead d)
    have hne : timerOf a ≠ id := fun heq =>
      hfresh (List.mem_map.mpr ⟨a, ha, heq⟩)
    exact htail a ha deadline ((pending_push_of_ne (by simpa using hne) d deadline).mp hmem)

/-! ### Due entries -/

/-- No entry is due more often than it is pending. -/
theorem count_due_le (timers : TimerMap) (nowMs : UInt64) (limit : Nat) (due : DueTimer) :
    (collectDue nowMs limit timers.toList []).count due ≤
      (pending timers due.deadline).count (due.cid, due.timerId) := by
  rw [collectDue_eq, ← count_queue]
  exact (List.take_sublist _ _).count_le due

section Run
variable {σ : Type} [SessionStore σ]

/-- A hello finds the session of its cid before the handshake, or has one made. -/
def ServerRuntime.unopened (rt : ServerRuntime σ) (cid nowMs : UInt64) : Prop :=
  match rt.sessions[cid]? with
  | none => (SessionStore.load rt.store cid nowMs).2.isOk
  | some s => s.core.state = .preHandshake

def hello : MessageType → Bool
  | .clientHello | .helloAck => true
  | _ => false

omit [SessionStore σ] in
theorem opening_server {m : CoreMachine} (hrole : m.role = .server) (nowMs : UInt64)
    (t : MessageType) : m.opening nowMs t = if hello t ∧ m.state = .preHandshake then
      [.schedule .serverMsr (nowMs + m.cfg.msrIntervalMs),
        .schedule .disconnect (nowMs + m.cfg.disconnectWindowMs)]
    else [] := by
  cases t <;> simp [CoreMachine.opening, hello, hrole]

variable [Base64]

/-- A hello opens a session for a cid with entries left over from an earlier one, or an
MSR timer ticks for a session that has its `Disconnect` entry. -/
def leaks (rt : ServerRuntime σ) : Op → Prop
  | .datagram nowMs _ bytes =>
    ∃ frame, WireFrame.decode bytes = .ok frame ∧ hello frame.messageType ∧
      rt.unopened frame.cid nowMs ∧
      ¬ (Absent rt.timers (frame.cid, .serverMsr) ∧ Absent rt.timers (frame.cid, .disconnect))
  | .pollTimers nowMs limit =>
    ∃ x ∈ rt.polled nowMs limit, x.2.timerId = .serverMsr ∧ Guarded x.1.timers x.2.cid ∧
      ∃ s, x.1.sessions[x.2.cid]? = some s ∧ s.core.state = .established ∧ ¬ s.core.unanswered
  | .sendMessage _ _ _ => False

variable {rt rt₁ rt' : ServerRuntime σ} {cid : UInt64} {s : SessionRuntime} {src : UInt32}
  {nowMs : UInt64} {res : RuntimeResult}

omit [Base64] in
theorem Enters.unopened (henter : Enters rt cid src nowMs s rt₁)
    (h : s.core.state = .preHandshake) : rt.unopened cid nowMs := by
  cases henter with
  | present hs => simpa [ServerRuntime.unopened, hs] using h
  | fresh habsent hload => simp [ServerRuntime.unopened, habsent, hload, Except.isOk, Except.toBool]

theorem Fired.timers {due : DueTimer} (h : Fired rt nowMs due rt' res) :
    ∃ as : List TimerAction, rt'.timers =
      as.foldl (pushTimer due.cid) (dropTimer rt.timers due.deadline (due.cid, due.timerId)) := by
  cases h with
  | skipped => exact ⟨[], rfl⟩
  | visited _ hdrive => exact ⟨_, hdrive.timers⟩

/-- Every entry a poll works off is still pending when its turn comes. -/
theorem fired_pending {dues : List DueTimer}
    (h : ∀ due, dues.count due ≤ (pending rt.timers due.deadline).count (due.cid, due.timerId)) :
    ∀ x ∈ rt.fired nowMs dues, (x.2.cid, x.2.timerId) ∈ pending x.1.timers x.2.deadline := by
  induction dues generalizing rt with
  | nil => simp [ServerRuntime.fired]
  | cons due rest ih =>
    rw [ServerRuntime.fired]
    refine List.forall_mem_cons.mpr ⟨?_, ?_⟩
    · refine List.count_pos_iff.mp ((List.count_pos_iff.mpr ?_).trans_le (h due))
      exact List.mem_cons_self
    · have hfired := fire_fired nowMs rt due
      cases hf : rt.fire nowMs due with
      | mk rt' res =>
        rw [hf] at hfired
        cases res with
        | error e => simp
        | ok out =>
          refine ih fun other => ?_
          obtain ⟨as, htimers⟩ := hfired.timers
          have hother := h other
          rw [htimers, pending_pushes, List.count_append, pending_drop]
          rw [List.count_cons] at hother
          by_cases heq : due = other
          · subst heq
            rw [if_pos rfl, List.count_erase_self]
            simp only [beq_self_eq_true, if_true] at hother
            omega
          · have hne : (due == other) = false := by simpa using heq
            simp only [hne, Bool.false_eq_true, if_false, Nat.add_zero] at hother
            split_ifs with hd
            · have hpair : (other.cid, other.timerId) ≠ (due.cid, due.timerId) := by
                intro hp
                obtain ⟨hc, hi⟩ := Prod.mk.inj hp
                exact heq (by cases due; cases other; simp_all)
              rw [List.count_erase_of_ne hpair]
              omega
            · omega

theorem polled_pending (rt : ServerRuntime σ) (nowMs : UInt64) (limit : Nat) :
    ∀ x ∈ rt.polled nowMs limit, (x.2.cid, x.2.timerId) ∈ pending x.1.timers x.2.deadline :=
  fired_pending fun due => count_due_le rt.timers nowMs limit due

/-! ### Steps -/

theorem Fired.single {due : DueTimer} (h : Fired rt nowMs due rt' res) (hhost : rt.Hosting)
    (hrt : ∀ e, Single rt.timers e)
    (hmem : (due.cid, due.timerId) ∈ pending rt.timers due.deadline)
    (htick : ¬ (due.timerId = .serverMsr ∧ Guarded rt.timers due.cid ∧
      ∃ s, rt.sessions[due.cid]? = some s ∧ s.core.state = .established ∧ ¬ s.core.unanswered)) :
    ∀ e, Single rt'.timers e := by
  have hdrop : ∀ e, Single (dropTimer rt.timers due.deadline (due.cid, due.timerId)) e :=
    fun e => (hrt e).drop _ _
  have hgone := (hrt (due.cid, due.timerId)).drop_absent hmem
  cases h with
  | skipped => exact hdrop
  | @visited s _ _ hs hdrive =>
    have htimers := hdrive.timers
    rw [onTimer_schedules] at htimers
    rw [htimers]
    refine single_pushes (schedules_nodup _ _ _) ?_ hdrop
    cases hid : due.timerId with
    | serverMsr =>
      rw [hid] at hgone
      simp only [CoreMachine.schedules]
      split_ifs with hlive
      · have hnone : Absent rt.timers (due.cid, .disconnect) :=
          not_guarded_iff.mp fun hg => htick ⟨hid, hg, s, hs, hlive.2⟩
        simpa [timerOf] using ⟨hgone, hnone.drop _ _⟩
      · simp
    | clientProbe =>
      have hrole := (hhost _ _ hs).role
      simp [CoreMachine.schedules, hrole]
    | disconnect =>
      rw [hid] at hgone
      simp only [CoreMachine.schedules]
      split
      · simp
      · split_ifs
        · simp
        · simpa [timerOf] using hgone
    | renegotiationTimeout => simp [CoreMachine.schedules]

theorem Received.single {bytes : Bytes} (h : Received rt nowMs src bytes rt' res)
    (hhost : rt.Hosting) (hrt : ∀ e, Single rt.timers e)
    (hleak : ¬ leaks rt (.datagram nowMs src bytes)) : ∀ e, Single rt'.timers e := by
  cases h with
  | undecodable => exact hrt
  | unloaded _ _ _ _ _ _ htimers =>
    rw [htimers]
    exact hrt
  | @visited frame s rt₁ _ res hdec henter hdrive =>
    have hown := ownFrame_of_cid hdec (henter.named hhost)
    have htimers := hdrive.timers
    rw [(onDatagram_emission hown nowMs src).1.scheduled, henter.timers,
      opening_server (henter.role hhost)] at htimers
    rw [htimers]
    split_ifs with hopens
    · have hboth : Absent rt.timers (frame.cid, .serverMsr) ∧
          Absent rt.timers (frame.cid, .disconnect) := by
        by_contra hleft
        exact hleak ⟨frame, hdec, hopens.1, henter.unopened hopens.2, hleft⟩
      exact single_pushes (by simp [timerOf]) (by simpa [timerOf] using hboth) hrt
    · exact hrt

/-- No entry is pending twice in a run without such a step. -/
theorem single_of_run {cfg : CoreConfig} {store : σ} {h : ServerHistory σ}
    (hrun : Run ServerRuntime.step (ServerRuntime.new cfg store) h rt)
    (hall : ∀ t ∈ h, ¬ leaks t.pre t.input) : ∀ e, Single rt.timers e := by
  induction hrun with
  | nil => exact fun e => Absent.single fun deadline => by simp [pending, ServerRuntime.new]
  | @snoc h rt rt' op res hr hs ih =>
    obtain ⟨hold, hnew⟩ := List.forall_mem_append.mp hall
    have hrt := ih hold
    have hhost := hosting_of_run hr
    have hleak : ¬ leaks rt op := hnew _ (List.mem_singleton.mpr rfl)
    cases op with
    | datagram nowMs src bytes =>
      exact (step_received hs).single hhost hrt hleak
    | pollTimers nowMs limit =>
      obtain ⟨rfl, -⟩ := step_polled hs
      refine (poll_invariant (P := fun rt => rt.Hosting ∧ ∀ e, Single rt.timers e) ⟨hhost, hrt⟩
        fun x hx hkeep => ?_).2
      have hfired := fire_fired nowMs x.1 x.2
      exact ⟨hfired.hosting hkeep.1, hfired.single hkeep.1 hkeep.2
        (polled_pending rt nowMs limit x hx) fun h => hleak ⟨x, hx, h⟩⟩
    | sendMessage cid payload nowMs =>
      have hsent := sendMessage_sent hs
      cases hsent with
      | skipped => exact hrt
      | visited hs' hcall hdrive =>
        have hcall' : CoreMachine.apply _ (.send payload) = some _ := hcall
        have htimers := hdrive.timers
        rw [apply_schedules hcall'] at htimers
        rw [htimers]
        exact hrt

end Run

theorem firstHello_single :
    ∃ rt res, Run ServerRuntime.step defaultServer
        [⟨defaultServer, .datagram 0 1 ((Packet.control .clientHello).bytes 7), res, rt⟩] rt ∧
      ∀ e, Single rt.timers e := by
  have hrun : Run ServerRuntime.step defaultServer _ _ :=
    Run.nil.snoc (i := .datagram 0 1 ((Packet.control .clientHello).bytes 7)) rfl
  refine ⟨_, _, hrun, single_of_run hrun ?_⟩
  simp only [List.nil_append, List.mem_singleton, forall_eq]
  rintro ⟨frame, -, -, -, hleft⟩
  exact hleft ⟨fun deadline => by simp [pending, ServerRuntime.new],
    fun deadline => by simp [pending, ServerRuntime.new]⟩

/-- The first MSR tick of a session, long before its `Disconnect` entry is due. -/
def firstTick : List Op :=
  [.datagram 0 1 ((Packet.control .clientHello).bytes 7), .pollTimers 15000 16]

theorem firstTick_twice :
    ∃ h rt, Run ServerRuntime.step defaultServer h rt ∧ ¬ Single rt.timers (7, .disconnect) := by
  have hsome : (exec ServerRuntime.step defaultServer firstTick).any fun x =>
      (pending x.2.timers 180000).contains ((7 : UInt64), TimerId.disconnect) &&
        (pending x.2.timers 195000).contains ((7 : UInt64), TimerId.disconnect) := by
    decide +kernel
  obtain ⟨⟨h, rt⟩, hexec, hboth⟩ := (Option.any_eq_true _ _).mp hsome
  obtain ⟨hold, hnew⟩ := Bool.and_eq_true_iff.mp hboth
  refine ⟨h, rt, Run.of_exec hexec, fun hsingle => ?_⟩
  have heq := hsingle.one 180000 195000 (List.contains_iff_mem.mp hold) (List.contains_iff_mem.mp hnew)
  exact absurd heq (by decide)

end Todero.Server
