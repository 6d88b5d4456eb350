import Todero.ClientRuntime
import Todero.Deadlines
import Todero.Lib.Agenda

/-! The timer chains of a client: each `ClientProbe` and each `Disconnect` entry puts the
next one of its kind among the timers when it fires, so what is there twice stays there
twice. -/
namespace Todero.Client
open Todero.Wire Todero.Core Transition

/-! ### One call -/

theorem dropTimer_eq_take (timers : TimerMap) (d : UInt64) (id : TimerId) :
    dropTimer timers d id = Agenda.take timers d id := by
  unfold dropTimer Agenda.take
  cases timers[d]? with
  | none => rfl
  | some list => rfl

theorem ingestTimer_eq_pushNew (timers : TimerMap) (id : TimerId) (d : UInt64) :
    ingestTimer timers (.schedule id d) = Agenda.pushNew timers d id := rfl

theorem collectDue_eq_collect (nowMs : UInt64) (limit : Nat) (l : List (UInt64 × List TimerId))
    (acc : List (UInt64 × TimerId)) :
    collectDue nowMs limit l acc = Agenda.collect nowMs limit l acc := by
  induction l generalizing acc with
  | nil => rfl
  | cons s l ih =>
    obtain ⟨deadline, ids⟩ := s
    rw [collectDue, Agenda.collect, ← ih]
    have hlate : deadline > nowMs ↔ compare deadline nowMs = .gt := Std.compare_eq_gt.symm
    simp only [hlate]

section Drive
variable (rt : ClientRuntime) (called : CoreMachine × CallResult)

@[simp] theorem drive_core : (rt.drive called).1.core = called.1 := by
  obtain ⟨m, res⟩ := called
  cases res with
  | error e => rfl
  | ok out => rfl

@[simp] theorem drive_timers : (rt.drive called).1.timers =
    called.2.output.timerActions.foldl ingestTimer rt.timers := by
  obtain ⟨m, res⟩ := called
  cases res with
  | error e => rfl
  | ok out => rfl

end Drive

/-- The call of the core that a call of the runtime makes; a poll may make several. -/
def Op.core : Op → Option Core.Op
  | .beginHandshake nowMs => some (.call (.beginHandshake nowMs))
  | .datagram nowMs srcPathId bytes => some (.datagram nowMs srcPathId bytes)
  | .sendMessage payload => some (.call (.send payload))
  | .closeSession => some (.call .close)
  | .proposeTimers nowMs proposal => some (.call (.proposeTimers nowMs proposal))
  | .pathChanged pathId => some (.call (.pathChanged pathId))
  | .pollTimers _ _ => none

theorem step_drive (rt : ClientRuntime) {op : Op} {c : Core.Op} (hc : op.core = some c) :
    rt.step op = (rt.core.step c).map rt.drive := by
  cases op with
  | pollTimers => simp [Op.core] at hc
  | _ =>
    obtain rfl := Option.some.inj hc
    rfl

theorem datagram_timers (rt : ClientRuntime) (nowMs : UInt64) (src : UInt32) (bytes : Bytes) :
    (rt.onDatagram nowMs src bytes).1.timers =
      (rt.core.schedulesOn (.datagram nowMs src bytes)).foldl ingestTimer rt.timers := by
  have hactions : (Core.onDatagram rt.core nowMs src bytes).2.output.timerActions =
    rt.core.schedulesOn (.datagram nowMs src bytes) := step_schedules (m := rt.core) rfl
  rw [ClientRuntime.onDatagram, drive_timers, hactions]

/-! ### Entries -/

/-- How many entries of a timer are pending, over all deadlines. -/
def running (timers : TimerMap) (id : TimerId) : Nat :=
  (Agenda.entries timers).countP (·.2 = id)

theorem running_of_mem {timers : TimerMap} {id : TimerId} {d : UInt64}
    (h : id ∈ Agenda.slot timers d) : 1 ≤ running timers id := by
  refine List.countP_pos_iff.mpr ⟨(d, id), Agenda.mem_entries.mpr h, ?_⟩
  simp

theorem running_drop {timers : TimerMap} {id : TimerId} {d : UInt64}
    (h : id ∈ Agenda.slot timers d) (other : TimerId) :
    running timers other = running (dropTimer timers d id) other + if id = other then 1 else 0 := by
  have hperm := List.perm_cons_erase (Agenda.mem_entries.mpr h)
  have hrest := Agenda.entries_take hperm
  rw [dropTimer_eq_take, running, running, hperm.countP_eq, hrest.countP_eq, List.countP_cons]
  simp

theorem running_ingest (timers : TimerMap) (id : TimerId) (d : UInt64) (other : TimerId) :
    running (ingestTimer timers (.schedule id d)) other =
      running timers other + if id = other ∧ id ∉ Agenda.slot timers d then 1 else 0 := by
  rw [ingestTimer_eq_pushNew, running, running, (Agenda.entries_pushNew timers d id).countP_eq,
    List.countP_append]
  by_cases hid : id = other
  · subst hid
    by_cases hmem : id ∈ Agenda.slot timers d <;> simp [hmem]
  · have hnot : ¬ (id = other ∧ id ∉ Agenda.slot timers d) := fun h => hid h.1
    rw [if_neg hnot, Nat.add_left_cancel_iff, List.countP_eq_zero]
    split_ifs <;> simp [hid]

/-- What actions schedule is pending afterwards, and nothing is pending any less. -/
theorem running_ingests_le (as : List TimerAction) (timers : TimerMap) (id : TimerId) :
    running timers id ≤ running (as.foldl ingestTimer timers) id := by
  induction as generalizing timers with
  | nil => exact Nat.le_refl _
  | cons a as ih =>
    obtain ⟨id', d⟩ := a
    refine Nat.le_trans ?_ (ih (ingestTimer timers (.schedule id' d)))
    rw [running_ingest]
    exact Nat.le_add_right _ _

theorem running_ingests_pos {as : List TimerAction} {id : TimerId} {d : UInt64}
    (h : .schedule id d ∈ as) (timers : TimerMap) :
    1 ≤ running (as.foldl ingestTimer timers) id := by
  induction as generalizing timers with
  | nil => simp at h
  | cons a as ih =>
    obtain rfl | hrest := List.mem_cons.mp h
    · refine Nat.le_trans ?_ (running_ingests_le as _ id)
      rw [running_ingest]
      by_cases hmem : id ∈ Agenda.slot timers d
      · exact (running_of_mem hmem).trans (Nat.le_add_right _ _)
      · simp [hmem]
    · exact ih hrest _

def schedules (id : TimerId) : TimerAction → Bool
  | .schedule id' _ => id' = id

theorem running_ingests_le_add (as : List TimerAction) (timers : TimerMap) (id : TimerId) :
    running (as.foldl ingestTimer timers) id ≤ running timers id + as.countP (schedules id) := by
  induction as generalizing timers with
  | nil => exact Nat.le_refl _
  | cons a as ih =>
    obtain ⟨id', d⟩ := a
    have hrest := ih (ingestTimer timers (.schedule id' d))
    rw [running_ingest] at hrest
    rw [List.foldl_cons, List.countP_cons]
    have hone : (if id' = id ∧ id' ∉ Agenda.slot timers d then 1 else 0) ≤
        if schedules id (.schedule id' d) = true then 1 else 0 := by
      by_cases hid : id' = id
      · simp only [schedules, hid, decide_true, if_true]
        split_ifs <;> omega
      · simp [hid]
    omega

/-! ### Turns -/

variable {rt rt' : ClientRuntime} {nowMs : UInt64}

/-- The entries left when one has had its turn: the others, and what its timer schedules. -/
theorem fire_entries (nowMs : UInt64) {due : UInt64 × TimerId} {rest : List (UInt64 × TimerId)}
    (h : (Agenda.entries rt.timers).Perm (due :: rest)) :
    ∃ new, (Agenda.entries (rt.fire nowMs due).1.timers).Perm (rest ++ new) ∧
      ∀ e ∈ new, .schedule e.2 e.1 ∈ rt.core.schedules (.timer nowMs due.2) := by
  have hpushes : ∀ (as : List TimerAction) (timers : TimerMap),
      ∃ new, (Agenda.entries (as.foldl ingestTimer timers)).Perm (Agenda.entries timers ++ new) ∧
        ∀ e ∈ new, .schedule e.2 e.1 ∈ as := by
    intro as
    induction as with
    | nil => exact fun timers => ⟨[], by simp, by simp⟩
    | cons a as ih =>
      intro timers
      obtain ⟨id, d⟩ := a
      obtain ⟨new, hperm, hnew⟩ := ih (ingestTimer timers (.schedule id d))
      have hone := (Agenda.entries_pushNew timers d id).append_right new
      refine ⟨_, hperm.trans (hone.trans (.of_eq (List.append_assoc ..))), fun e he => ?_⟩
      obtain hhead | htail := List.mem_append.mp he
      · split_ifs at hhead
        · simp at hhead
        · rw [List.mem_singleton.mp hhead]
          exact List.mem_cons_self
      · exact List.mem_cons_of_mem _ (hnew e htail)
  obtain ⟨new, hperm, hnew⟩ := hpushes (rt.core.schedules (.timer nowMs due.2))
    (dropTimer rt.timers due.1 due.2)
  refine ⟨new, ?_, hnew⟩
  rw [ClientRuntime.fire, drive_timers, onTimer_schedules]
  refine hperm.trans (List.Perm.append_right new ?_)
  rw [dropTimer_eq_take]
  exact Agenda.entries_take h

/-- What every entry keeps that has its turn while it is pending, the poll keeps. -/
theorem poll_invariant {P : ClientRuntime → Prop} {limit : Nat} (h : P rt)
    (hfire : ∀ (rt : ClientRuntime) (due : UInt64 × TimerId), P rt →
      due.2 ∈ Agenda.slot rt.timers due.1 → P (rt.fire nowMs due).1) :
    P (rt.pollTimers nowMs limit).1 := by
  have hall : ∀ (dues rest : List (UInt64 × TimerId)) (rt : ClientRuntime)
      (output : ClientRuntimeOutput), P rt → (Agenda.entries rt.timers).Perm (dues ++ rest) →
      P (ClientRuntime.fireAll nowMs rt dues output).1 := by
    intro dues
    induction dues with
    | nil => exact fun _ _ _ hP _ => hP
    | cons due dues ih =>
      intro rest rt output hP hperm
      rw [List.cons_append] at hperm
      have hmem : due.2 ∈ Agenda.slot rt.timers due.1 :=
        Agenda.mem_entries.mp (hperm.mem_iff.mpr List.mem_cons_self)
      have hnext := hfire rt due hP hmem
      obtain ⟨new, hrest, -⟩ := fire_entries nowMs hperm
      rw [ClientRuntime.fireAll]
      cases hf : rt.fire nowMs due with
      | mk rt₁ res =>
        rw [hf] at hnext hrest
        cases res with
        | error e => exact hnext
        | ok partOut => exact ih (rest ++ new) rt₁ _ hnext (by rwa [List.append_assoc] at hrest)
  have hdue : collectDue nowMs limit rt.timers.toList [] = (Agenda.entries rt.timers).take
      (min limit ((Agenda.entries rt.timers).countP (Agenda.due nowMs))) := by
    rw [collectDue_eq_collect, Agenda.collect_entries]
  refine hall _ ((Agenda.entries rt.timers).drop
    (min limit ((Agenda.entries rt.timers).countP (Agenda.due nowMs)))) rt {} h (.of_eq ?_)
  rw [hdue]
  exact (List.take_append_drop _ _).symm

/-! ### Chains -/

def live (m : CoreMachine) : Prop := m.state = .established ∨ m.state = .reactivating

/-- A client has no entry of the two timers before its handshake, and of either at least one
while its session is up. -/
structure Chained (rt : ClientRuntime) : Prop where
  role : rt.core.role = .client
  before : rt.core.state = .preHandshake →
    running rt.timers .clientProbe = 0 ∧ running rt.timers .disconnect = 0
  after : live rt.core → 1 ≤ running rt.timers .clientProbe ∧
    1 ≤ running rt.timers .disconnect ∧ rt.core.disconnectDeadlineMs.isSome

/-- At most one `ClientProbe` and one `Disconnect` entry is pending. -/
def OneChain (timers : TimerMap) : Prop :=
  running timers .clientProbe ≤ 1 ∧ running timers .disconnect ≤ 1

theorem next_timer {m : CoreMachine} (hrole : m.role = .client) (nowMs : UInt64) (id : TimerId) :
    (m.next (.timer nowMs id)).role = .client ∧
      (m.next (.timer nowMs id)).disconnectDeadlineMs = m.disconnectDeadlineMs ∧
      (live (m.next (.timer nowMs id)) → live m) ∧
      ((m.next (.timer nowMs id)).state = .preHandshake → m.state = .preHandshake) := by
  have hmoved := next_moved m (.timer nowMs id)
  generalize m.next (.timer nowMs id) = m' at hmoved ⊢
  cases hmoved with
  | same | rolledBack => exact ⟨hrole, rfl, fun hlive => hlive, fun hpre => hpre⟩
  | abandoned hserver | announced hserver => simp [hrole] at hserver
  | doubted _ hup => exact ⟨hrole, rfl, fun _ => hup, fun hpre => by simp at hpre⟩
  | timedOut => exact ⟨hrole, rfl, fun hlive => by simp [live] at hlive, fun hpre => by simp at hpre⟩

/-- The timers a client schedules when one fires: only the same one again, and while its
session is up always that. -/
theorem timer_schedules {m : CoreMachine} (hrole : m.role = .client) (nowMs : UInt64)
    (id : TimerId) :
    (∀ other, (m.schedules (.timer nowMs id)).countP (schedules other) ≤
        if id = other then 1 else 0) ∧
      (live (m.next (.timer nowMs id)) → m.disconnectDeadlineMs.isSome →
        id = .clientProbe ∨ id = .disconnect → ∃ d, .schedule id d ∈ m.schedules (.timer nowMs id)) := by
  cases id with
  | serverMsr =>
    rw [CoreMachine.schedules, if_neg (by simp [hrole])]
    simp
  | clientProbe =>
    have hback := (next_timer hrole nowMs .clientProbe).2.2.1
    rw [CoreMachine.schedules]
    split_ifs with h
    · exact ⟨fun other => by simp [schedules, List.countP_cons], fun _ _ _ => ⟨_, List.mem_cons_self⟩⟩
    · exact ⟨by simp, fun hlive => absurd ⟨hrole, hback hlive⟩ h⟩
  | disconnect =>
    rw [CoreMachine.schedules]
    cases hd : m.disconnectDeadlineMs with
    | none => simp
    | some deadline =>
      dsimp only
      split_ifs with h
      · refine ⟨by simp, fun hlive => absurd hlive ?_⟩
        have hpast : m.pastDeadline nowMs := by simpa [CoreMachine.pastDeadline, hd] using h.1
        rw [CoreMachine.next, if_pos hpast]
        simp [live]
      · exact ⟨fun other => by simp [schedules, List.countP_cons],
          fun _ _ _ => ⟨_, List.mem_cons_self⟩⟩
  | renegotiationTimeout => simp [CoreMachine.schedules]

/-- What the turn of a `ClientProbe` or `Disconnect` entry takes out it puts back, unless the
session has ended; other entries leave these alone. -/
theorem fire_chained (h : Chained rt) {due : UInt64 × TimerId}
    (hmem : due.2 ∈ Agenda.slot rt.timers due.1) :
    Chained (rt.fire nowMs due).1 ∧
      (OneChain rt.timers → OneChain (rt.fire nowMs due).1.timers) := by
  obtain ⟨d, id⟩ := due
  have hmem : id ∈ Agenda.slot rt.timers d := hmem
  obtain ⟨hrole, hbefore, hafter⟩ := h
  obtain ⟨hrole', hdeadline, hlive, hpre⟩ := next_timer hrole nowMs id
  obtain ⟨hcount, hagain⟩ := timer_schedules hrole nowMs id
  have hcore : (rt.fire nowMs (d, id)).1.core = rt.core.next (.timer nowMs id) := by
    rw [ClientRuntime.fire, drive_core, onTimer_next]
  have htimers : (rt.fire nowMs (d, id)).1.timers =
      (rt.core.schedules (.timer nowMs id)).foldl ingestTimer (dropTimer rt.timers d id) := by
    rw [ClientRuntime.fire, drive_timers, onTimer_schedules]
  have hno_more : ∀ other, running (rt.fire nowMs (d, id)).1.timers other ≤ running rt.timers other := by
    intro other
    have hdrop := running_drop hmem other
    have hadd := running_ingests_le_add (rt.core.schedules (.timer nowMs id))
      (dropTimer rt.timers d id) other
    have hone := hcount other
    rw [htimers]
    omega
  have hstill : ∀ other, (other = .clientProbe ∨ other = .disconnect) →
      live (rt.core.next (.timer nowMs id)) → rt.core.disconnectDeadlineMs.isSome →
      1 ≤ running rt.timers other → 1 ≤ running (rt.fire nowMs (d, id)).1.timers other := by
    intro other hother hup hsome hin
    rw [htimers]
    by_cases hid : id = other
    · subst hid
      obtain ⟨d', hmem'⟩ := hagain hup hsome hother
      exact running_ingests_pos hmem' _
    · have hdrop := running_drop hmem other
      rw [if_neg hid, Nat.add_zero] at hdrop
      exact (hdrop ▸ hin).trans (running_ingests_le _ _ other)
  refine ⟨⟨by rw [hcore]; exact hrole', fun hnew => ?_, fun hup => ?_⟩, fun hone => ?_⟩
  · rw [hcore] at hnew
    obtain ⟨hP, hD⟩ := hbefore (hpre hnew)
    exact ⟨Nat.le_zero.mp (hP ▸ hno_more .clientProbe), Nat.le_zero.mp (hD ▸ hno_more .disconnect)⟩
  · rw [hcore] at hup ⊢
    obtain ⟨hP, hD, hsome⟩ := hafter (hlive hup)
    exact ⟨hstill _ (.inl rfl) hup hsome hP, hstill _ (.inr rfl) hup hsome hD, hdeadline ▸ hsome⟩
  · exact ⟨(hno_more _).trans hone.1, (hno_more _).trans hone.2⟩

theorem next_call {m : CoreMachine} {k : Call} (hk : ∀ nowMs id, k ≠ .timer nowMs id) :
    (m.next k).role = m.role ∧ (m.next k).disconnectDeadlineMs = m.disconnectDeadlineMs ∧
      ((m.next k).state = m.state ∨ (m.next k).state = .lost) ∧
      ∀ id, id = .clientProbe ∨ id = .disconnect → (m.schedules k).countP (schedules id) = 0 := by
  cases k with
  | timer nowMs id => exact absurd rfl (hk nowMs id)
  | proposeTimers nowMs p =>
    rw [CoreMachine.next, CoreMachine.schedules]
    split_ifs
    · refine ⟨rfl, rfl, .inl rfl, ?_⟩
      rintro id (rfl | rfl) <;> rfl
    · exact ⟨rfl, rfl, .inl rfl, fun _ _ => rfl⟩
  | close => exact ⟨rfl, rfl, .inr rfl, fun _ _ => rfl⟩
  | beginHandshake | send | pathChanged => exact ⟨rfl, rfl, .inl rfl, fun _ _ => rfl⟩

/-- A `ServerHello` that wakes the session finds no entries where it schedules its own. -/
def doubles (rt : ClientRuntime) : Op → Prop
  | .datagram nowMs _ bytes =>
    rt.core.state = .reactivating ∧
      (∃ frame, ownFrame rt.core bytes = some frame ∧ frame.messageType = .serverHello) ∧
      ¬ (.clientProbe ∈ Agenda.slot rt.timers (nowMs + rt.core.cfg.msrIntervalMs) ∧
        .disconnect ∈ Agenda.slot rt.timers (nowMs + rt.core.cfg.disconnectWindowMs))
  | _ => False

/-- Nothing changes in the chains while the lifecycle goes on without new entries. -/
theorem Chained.of_quiet (h : Chained rt) (hrole : rt'.core.role = .client)
    (hstate : rt'.core.state = .preHandshake → rt.core.state = .preHandshake)
    (hlive : live rt'.core → live rt.core ∧ rt'.core.disconnectDeadlineMs.isSome)
    (hrunning : ∀ id, id = .clientProbe ∨ id = .disconnect →
      running rt'.timers id = running rt.timers id) :
    Chained rt' ∧ (OneChain rt'.timers ↔ OneChain rt.timers) := by
  have hP := hrunning .clientProbe (.inl rfl)
  have hD := hrunning .disconnect (.inr rfl)
  refine ⟨⟨hrole, fun hpre => ?_, fun hup => ?_⟩, by rw [OneChain, OneChain, hP, hD]⟩
  · rw [hP, hD]
    exact h.before (hstate hpre)
  · obtain ⟨hbefore, hsome⟩ := hlive hup
    obtain ⟨hprobe, hend, -⟩ := h.after hbefore
    rw [hP, hD]
    exact ⟨hprobe, hend, hsome⟩

theorem running_opening (timers : TimerMap) (d e : UInt64) :
    running ([.schedule .clientProbe d, .schedule .disconnect e].foldl ingestTimer timers)
        .clientProbe =
      running timers .clientProbe + (if .clientProbe ∈ Agenda.slot timers d then 0 else 1) ∧
    running ([.schedule .clientProbe d, .schedule .disconnect e].foldl ingestTimer timers)
        .disconnect =
      running timers .disconnect + if .disconnect ∈ Agenda.slot timers e then 0 else 1 := by
  have hslot : .disconnect ∈ Agenda.slot (ingestTimer timers (.schedule .clientProbe d)) e ↔
      .disconnect ∈ Agenda.slot timers e := by
    rw [ingestTimer_eq_pushNew, Agenda.slot_pushNew, List.mem_append]
    split_ifs <;> simp
  simp only [List.foldl_cons, List.foldl_nil, running_ingest, hslot]
  by_cases hP : .clientProbe ∈ Agenda.slot timers d <;>
    by_cases hD : .disconnect ∈ Agenda.slot timers e <;> simp [hP, hD]

/-- A `ServerHello` that opens or wakes the session adds the entries it does not find. -/
theorem opened_chained (h : Chained rt) {frame : WireFrame} {bytes : Bytes} (src : UInt32)
    (hown : ownFrame rt.core bytes = some frame) (hopens : rt.core.opens frame.messageType)
    (hcore : rt'.core = (Core.onDatagram rt.core nowMs src bytes).1)
    (htimers : rt'.timers = [.schedule .clientProbe (nowMs + rt.core.cfg.msrIntervalMs),
      .schedule .disconnect (nowMs + rt.core.cfg.disconnectWindowMs)].foldl ingestTimer rt.timers)
    (hrole : rt'.core.role = .client) :
    Chained rt' ∧
      (OneChain rt.timers → (OneChain rt'.timers ↔ ¬ doubles rt (.datagram nowMs src bytes))) := by
  obtain ⟨hm, hstate⟩ : frame.messageType = .serverHello ∧
      (rt.core.state = .preHandshake ∨ rt.core.state = .reactivating) := by
    cases hm : frame.messageType <;> simp_all [CoreMachine.opens, h.role]
  obtain ⟨hP, hD⟩ := running_opening rt.timers (nowMs + rt.core.cfg.msrIntervalMs)
    (nowMs + rt.core.cfg.disconnectWindowMs)
  rw [← htimers] at hP hD
  have hsome : rt'.core.disconnectDeadlineMs.isSome := by
    rw [hcore, onDatagram_deadline nowMs src hown]
    rfl
  obtain hpre | hasleep := hstate
  · have hest : rt'.core.state = .established := by
      rw [hcore]
      simpa [hm] using onDatagram_handshake nowMs src hown h.role hpre
    obtain ⟨hnoP, hnoD⟩ := h.before hpre
    have hone : running rt'.timers .clientProbe = 1 ∧ running rt'.timers .disconnect = 1 := by
      have hfreeP : .clientProbe ∉ Agenda.slot rt.timers (nowMs + rt.core.cfg.msrIntervalMs) :=
        fun hmem => absurd (running_of_mem hmem) (by omega)
      have hfreeD : .disconnect ∉ Agenda.slot rt.timers (nowMs + rt.core.cfg.disconnectWindowMs) :=
        fun hmem => absurd (running_of_mem hmem) (by omega)
      rw [hP, hD, if_neg hfreeP, if_neg hfreeD, hnoP, hnoD]
      exact ⟨rfl, rfl⟩
    refine ⟨⟨hrole, fun hnew => by simp [hest] at hnew, fun _ => ⟨hone.1.ge, hone.2.ge, hsome⟩⟩,
      fun _ => iff_of_true ⟨hone.1.le, hone.2.le⟩ ?_⟩
    rintro ⟨hold, -⟩
    simp [hpre] at hold
  · obtain ⟨hinP, hinD, -⟩ := h.after (.inr hasleep)
    have hnew : rt'.core.state ≠ .preHandshake := by
      rw [hcore]
      obtain hc | hc | hc := onDatagram_lifecycle nowMs src hown <;> simp [hc, hasleep]
    refine ⟨⟨hrole, fun hpre => absurd hpre hnew, fun _ => ⟨by omega, by omega, hsome⟩⟩, ?_⟩
    rintro ⟨hoP, hoD⟩
    rw [OneChain, hP, hD, doubles]
    by_cases hslotP :
        .clientProbe ∈ Agenda.slot rt.timers (nowMs + rt.core.cfg.msrIntervalMs) <;>
      by_cases hslotD :
        .disconnect ∈ Agenda.slot rt.timers (nowMs + rt.core.cfg.disconnectWindowMs) <;>
      simp [hslotP, hslotD, hasleep, hown, hm] <;> omega

theorem datagram_chained (h : Chained rt) (nowMs : UInt64) (src : UInt32) (bytes : Bytes) :
    Chained (rt.onDatagram nowMs src bytes).1 ∧
      (OneChain rt.timers → (OneChain (rt.onDatagram nowMs src bytes).1.timers ↔
        ¬ doubles rt (.datagram nowMs src bytes))) := by
  have hcore : (rt.onDatagram nowMs src bytes).1.core = (Core.onDatagram rt.core nowMs src bytes).1 :=
    drive_core _ _
  have htimers := datagram_timers rt nowMs src bytes
  have hrole : (rt.onDatagram nowMs src bytes).1.core.role = .client := by
    rw [hcore]
    exact (congrArg Fixed.role (onDatagram_fixed rt.core nowMs src bytes)).trans h.role
  rw [CoreMachine.schedulesOn] at htimers
  cases hown : ownFrame rt.core bytes with
  | none =>
    simp only [hown, List.foldl_nil] at htimers
    rw [(onDatagram_of_no_frame hown nowMs src).1] at hcore
    have hquiet : ¬ doubles rt (.datagram nowMs src bytes) := by
      rintro ⟨-, ⟨frame, hframe, -⟩, -⟩
      simp [hown] at hframe
    obtain ⟨hchained, hiff⟩ := h.of_quiet hrole (by rw [hcore]; exact id)
      (by rw [hcore]; exact fun hup => ⟨hup, (h.after hup).2.2⟩) (fun id _ => by rw [htimers])
    exact ⟨hchained, fun hone => iff_of_true (hiff.mpr hone) hquiet⟩
  | some frame =>
    simp only [hown, opening_eq] at htimers
    have hcycle := onDatagram_lifecycle nowMs src hown
    by_cases hopens : rt.core.opens frame.messageType
    · rw [if_pos hopens, h.role] at htimers
      exact opened_chained h src hown hopens hcore htimers hrole
    · rw [if_neg hopens, List.foldl_nil] at htimers
      have hquiet : ¬ doubles rt (.datagram nowMs src bytes) := by
        rintro ⟨hasleep, ⟨frame', hframe, hm⟩, -⟩
        obtain rfl := Option.some.inj (hown.symm.trans hframe)
        exact hopens (by simp [CoreMachine.opens, hm, h.role, hasleep])
      have hup : live (rt.onDatagram nowMs src bytes).1.core → live rt.core ∧
          (rt.onDatagram nowMs src bytes).1.core.disconnectDeadlineMs.isSome := by
        rw [hcore, onDatagram_deadline nowMs src hown]
        refine fun hnew => ⟨?_, rfl⟩
        cases hstate : rt.core.state with
        | established => exact .inl hstate
        | reactivating => exact .inr hstate
        | lost =>
          have hgone := (onDatagram_effect rt.core nowMs src bytes).2.2.2.1.mpr (.inl hstate)
          simp [live, hgone] at hnew
        | preHandshake =>
          have hm : frame.messageType ≠ .serverHello := fun hm =>
            hopens (by simp [CoreMachine.opens, hm, h.role, hstate])
          have hstill := onDatagram_handshake nowMs src hown h.role hstate
          rw [if_neg hm] at hstill
          obtain hpre | hgone := hstill
          · simp [live, hpre] at hnew
          · simp [live, hgone] at hnew
      obtain ⟨hchained, hiff⟩ := h.of_quiet hrole
        (by rw [hcore]; intro hpre; obtain hc | hc | hc := hcycle <;> simp_all) hup
        (fun id _ => by rw [htimers])
      exact ⟨hchained, fun hone => iff_of_true (hiff.mpr hone) hquiet⟩

theorem call_chained (h : Chained rt) {k : Call} (hk : ∀ nowMs id, k ≠ .timer nowMs id)
    {m : CoreMachine} {cres : CallResult} (hcall : rt.core.apply k = some (m, cres)) :
    Chained (rt.drive (m, cres)).1 ∧
      (OneChain (rt.drive (m, cres)).1.timers ↔ OneChain rt.timers) := by
  obtain ⟨hrole, hdeadline, hstate, hnone⟩ := next_call (m := rt.core) hk
  rw [← (apply_answers rt.core hcall).next] at hrole hdeadline hstate
  have hcore := drive_core rt (m, cres)
  have htimers : (rt.drive (m, cres)).1.timers =
      (rt.core.schedules k).foldl ingestTimer rt.timers := by
    have hactions : cres.output.timerActions = rt.core.schedules k := apply_schedules hcall
    rw [drive_timers, hactions]
  refine h.of_quiet (by rw [hcore, hrole]; exact h.role) ?_ ?_ fun id hid => ?_
  · rw [hcore]
    intro hpre
    obtain hsame | hlost := hstate
    · exact hsame ▸ hpre
    · simp [hlost] at hpre
  · rw [hcore, hdeadline]
    intro hup
    have hbefore : live rt.core := by
      obtain hsame | hlost := hstate
      · rwa [live, hsame] at hup
      · simp [live, hlost] at hup
    exact ⟨hbefore, (h.after hbefore).2.2⟩
  · have hle := running_ingests_le (rt.core.schedules k) rt.timers id
    have hadd := running_ingests_le_add (rt.core.schedules k) rt.timers id
    rw [hnone id hid] at hadd
    rw [htimers]
    omega

theorem step_chained (h : Chained rt) {op : Op} {res : RuntimeResult}
    (hs : rt.step op = some (rt', res)) :
    Chained rt' ∧ (OneChain rt.timers → (OneChain rt'.timers ↔ ¬ doubles rt op)) := by
  have hcall : ∀ k : Call, op.core = some (.call k) → (∀ nowMs id, k ≠ .timer nowMs id) →
      Chained rt' ∧ (OneChain rt.timers → (OneChain rt'.timers ↔ ¬ doubles rt op)) := by
    intro k hop hk
    rw [step_drive rt hop, Option.map_eq_some_iff] at hs
    obtain ⟨⟨m, cres⟩, hcs, heq⟩ := hs
    obtain ⟨rfl, -⟩ := Prod.mk.inj heq
    obtain ⟨hchained, hiff⟩ := call_chained h hk hcs
    refine ⟨hchained, fun hone => iff_of_true (hiff.mpr hone) ?_⟩
    cases op <;> simp_all [doubles, Op.core]
  cases op with
  | beginHandshake nowMs => exact hcall _ rfl (by simp)
  | sendMessage payload => exact hcall _ rfl (by simp)
  | closeSession => exact hcall _ rfl (by simp)
  | proposeTimers nowMs p => exact hcall _ rfl (by simp)
  | pathChanged pathId => exact hcall _ rfl (by simp)
  | datagram nowMs src bytes =>
    obtain ⟨rfl, -⟩ := Prod.mk.inj (Option.some.inj hs)
    exact datagram_chained h nowMs src bytes
  | pollTimers nowMs limit =>
    obtain ⟨rfl, -⟩ := Prod.mk.inj (Option.some.inj hs)
    obtain ⟨hchained, hone⟩ : Chained (rt.pollTimers nowMs limit).1 ∧
        (OneChain rt.timers → OneChain (rt.pollTimers nowMs limit).1.timers) := poll_invariant
      (P := fun r => Chained r ∧ (OneChain rt.timers → OneChain r.timers)) ⟨h, id⟩
      fun r due hr hmem => ⟨(fire_chained hr.1 hmem).1,
        fun hone => (fire_chained hr.1 hmem).2 (hr.2 hone)⟩
    exact ⟨hchained, fun hbefore => iff_of_true (hone hbefore) id⟩

/-! ### Runs -/

abbrev ClientHistory := List (Taken ClientRuntime Op RuntimeResult)

theorem entries_new : Agenda.entries (∅ : TimerMap) = [] := rfl

theorem chained_of_run {cid : UInt64} {cfg : CoreConfig} {h : ClientHistory}
    (hrun : Run ClientRuntime.step (ClientRuntime.new cid cfg) h rt) : Chained rt := by
  induction hrun with
  | nil =>
    refine ⟨rfl, fun _ => ?_, fun hup => ?_⟩
    · simp [running, ClientRuntime.new, entries_new]
    · simp [live, ClientRuntime.new, CoreMachine.new] at hup
  | snoc _ hs ih => exact (step_chained ih hs).1

/-- A client never has two entries of a chain in exactly the runs in which every `ServerHello`
that wakes it finds the entries where it would put them. -/
theorem one_chain_iff {cid : UInt64} {cfg : CoreConfig} {h : ClientHistory}
    (hrun : Run ClientRuntime.step (ClientRuntime.new cid cfg) h rt) :
    (∀ t ∈ h, OneChain t.post.timers) ↔ ∀ t ∈ h, ¬ doubles t.pre t.input := by
  have hboth : ((∀ t ∈ h, OneChain t.post.timers) ↔ ∀ t ∈ h, ¬ doubles t.pre t.input) ∧
      ((∀ t ∈ h, OneChain t.post.timers) → OneChain rt.timers) := by
    induction hrun with
    | nil => exact ⟨by simp, fun _ => by simp [OneChain, running, ClientRuntime.new, entries_new]⟩
    | @snoc h rt rt' op res hr hs ih =>
      obtain ⟨hiff, hlast⟩ := ih
      simp only [List.forall_mem_append, List.mem_singleton, forall_eq]
      refine ⟨?_, fun h => h.2⟩
      rw [← hiff]
      exact and_congr_right fun hall => (step_chained (chained_of_run hr) hs).2 (hlast hall)
  exact hboth.1

/-- A client whose session comes up, and one tick of its probe timer. -/
def firstProbeTick : List Op :=
  [.beginHandshake 0, .datagram 0 1 ((Packet.control .serverHello).bytes 7), .pollTimers 15000 16]

theorem firstProbeTick_one_chain :
    ∃ h rt, Run ClientRuntime.step (ClientRuntime.new 7 .default) h rt ∧
      h.map Taken.input = firstProbeTick ∧ ∀ t ∈ h, OneChain t.post.timers := by
  have hsome : (exec ClientRuntime.step (ClientRuntime.new 7 .default) firstProbeTick).any fun x =>
      x.1.all fun t => t.pre.core.state ≠ .reactivating := by
    decide +kernel
  obtain ⟨⟨h, rt⟩, hexec, hall⟩ := (Option.any_eq_true _ _).mp hsome
  refine ⟨h, rt, Run.of_exec hexec, exec_inputs hexec, ?_⟩
  refine (one_chain_iff (Run.of_exec hexec)).mpr fun t ht hdoubles => ?_
  have hawake := of_decide_eq_true (List.all_eq_true.mp hall t ht)
  cases hop : t.input with
  | datagram nowMs src bytes =>
    rw [hop] at hdoubles
    exact hawake hdoubles.1
  | _ => simp [hop, doubles] at hdoubles

/-- The time a call is given. -/
def Op.calledAt : Op → Option UInt64
  | .beginHandshake nowMs | .datagram nowMs _ _ | .proposeTimers nowMs _
  | .pollTimers nowMs _ => some nowMs
  | .sendMessage _ | .closeSession | .pathChanged _ => none

/-- The server is silent for too long, and says hello again after the probe. -/
def helloAfterProbe : List Op :=
  [.beginHandshake 0, .datagram 0 1 ((Packet.control .serverHello).bytes 7),
    .pollTimers 46000 16, .datagram 46001 1 ((Packet.control .serverHello).bytes 7)]

theorem helloAfterProbe_two_chains :
    ¬ ∀ (cid : UInt64) (cfg : CoreConfig) (h : ClientHistory) (rt : ClientRuntime),
      Run ClientRuntime.step (ClientRuntime.new cid cfg) h rt →
        (h.filterMap fun t => t.input.calledAt).Pairwise (· ≤ ·) → OneChain rt.timers := by
  intro hclaim
  have hsome : (exec ClientRuntime.step (ClientRuntime.new 7 .default) helloAfterProbe).any fun x =>
      running x.2.timers .clientProbe == 2 := by
    decide +kernel
  obtain ⟨⟨h, rt⟩, hexec, htwo⟩ := (Option.any_eq_true _ _).mp hsome
  have htimes : (h.filterMap fun t => t.input.calledAt).Pairwise (· ≤ ·) := by
    have hmap : h.filterMap (fun t => t.input.calledAt) = helloAfterProbe.filterMap Op.calledAt := by
      rw [← exec_inputs hexec, List.filterMap_map]
      rfl
    rw [hmap]
    decide
  obtain ⟨hone, -⟩ := hclaim 7 .default h rt (Run.of_exec hexec) htimes
  rw [beq_iff_eq.mp htwo] at hone
  omega

end Todero.Client
