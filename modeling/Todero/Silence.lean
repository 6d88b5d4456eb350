import Todero.Counters
import Todero.Reactivation
import Todero.TimerBounds

/-! What a machine makes of a silent peer: the client's probe and the disconnect timer,
against the time since the last datagram of the machine's own cid. -/
namespace Todero.Core
open Todero.Wire Transition

/-- The time of a datagram that the machine takes for its own; one of cid 0 takes any. -/
def heardAt (t : Taken CoreMachine Op CallResult) : Option UInt64 :=
  match t.input with
  | .call _ => none
  | .datagram nowMs _ bytes => if (ownFrame t.pre bytes).isSome then some nowMs else none

/-- The last such datagram came at a time with `q`. -/
def LastHeard (q : UInt64 → Prop) (h : History) : Prop :=
  LastHas (fun t => (heardAt t).isSome) (fun t => ∃ nowMs, heardAt t = some nowMs ∧ q nowMs) h

section Heard
variable {q : UInt64 → Prop} {h : History} {m m' : CoreMachine} {res : CallResult}
  {nowMs : UInt64} {src : UInt32} {bytes : Bytes}

theorem lastHeard_snoc {t : Taken CoreMachine Op CallResult} (ht : heardAt t = none) :
    LastHeard q (h ++ [t]) ↔ LastHeard q h :=
  lastHas_snoc_of_not (by simp [ht])

theorem lastHeard_own (hown : (ownFrame m bytes).isSome) :
    LastHeard q (h ++ [⟨m, .datagram nowMs src bytes, res, m'⟩]) ↔ q nowMs := by
  have hheard : heardAt ⟨m, .datagram nowMs src bytes, res, m'⟩ = some nowMs := if_pos hown
  rw [LastHeard, lastHas_snoc_of (by simp [hheard]), hheard]
  simp

theorem heardAt_other (hother : ownFrame m bytes = none) :
    heardAt ⟨m, .datagram nowMs src bytes, res, m'⟩ = none := by
  simp [heardAt, hother]

end Heard

theorem step_unheard {m m' : CoreMachine} {nowMs : UInt64} {src : UInt32} {bytes : Bytes}
    {res : CallResult} (hs : m.step (.datagram nowMs src bytes) = some (m', res))
    (hown : ownFrame m bytes = none) : m' = m := by
  have heq : onDatagram m nowMs src bytes = (m', res) := Option.some.inj hs
  have hsame := (onDatagram_of_no_frame hown nowMs src).1
  rwa [heq] at hsame

/-! ### The probe of the client -/

/-- A client in the session has the time of the last datagram that it has heard. -/
structure Stamped (h : History) (m : CoreMachine) : Prop where
  client : m.role = .client
  stamp : m.state = .established →
    ∃ last, m.lastServerMsrAtMs = some last ∧ LastHeard (· = last) h

theorem next_stamp (m : CoreMachine) (k : Call) :
    (m.next k).lastServerMsrAtMs = m.lastServerMsrAtMs := by
  have hmoved := next_moved m k
  generalize m.next k = m' at hmoved ⊢
  cases hmoved <;> rfl

theorem Stamped.step {h : History} {m m' : CoreMachine} {op : Op} {res : CallResult}
    (hm : Stamped h m) (hs : m.step op = some (m', res)) :
    Stamped (h ++ [⟨m, op, res, m'⟩]) m' := by
  cases op with
  | call k =>
    have hnext := (apply_answers m hs).next
    refine ⟨?_, fun hup => ?_⟩
    · rw [hnext]
      exact (congrArg Lasting.role (next_lasting m k)).trans hm.client
    · rw [hnext] at hup
      obtain ⟨last, hlast, hheard⟩ := hm.stamp (next_up hup)
      refine ⟨last, ?_, (lastHeard_snoc rfl).mpr hheard⟩
      rw [hnext, next_stamp, hlast]
  | datagram nowMs src bytes =>
    have heq : onDatagram m nowMs src bytes = (m', res) := Option.some.inj hs
    have hrole := congrArg Fixed.role (onDatagram_effect m nowMs src bytes).1
    rw [heq] at hrole
    refine ⟨hrole.trans hm.client, fun hup => ?_⟩
    cases hown : ownFrame m bytes with
    | none =>
      obtain rfl := step_unheard hs hown
      obtain ⟨last, hlast, hheard⟩ := hm.stamp hup
      exact ⟨last, hlast, (lastHeard_snoc (heardAt_other hown)).mpr hheard⟩
    | some frame =>
      have hstamp := onDatagram_stamp nowMs src hown hm.client
      rw [heq] at hstamp
      exact ⟨nowMs, hstamp hup, (lastHeard_own (by simp [hown])).mpr rfl⟩

theorem stamped_of_run {cid : UInt64} {cfg : CoreConfig} {h : History} {m : CoreMachine}
    (hrun : Run CoreMachine.step (CoreMachine.new .client cid cfg) h m) : Stamped h m := by
  induction hrun with
  | nil => exact ⟨rfl, fun hup => by cases hup⟩
  | snoc _ hs ih => exact ih.step hs

/-- A time that is later by more than a product cut off at 64 bits is later by more than
the product. -/
theorem CoreMachine.misses.exact {m : CoreMachine} {nowMs last : UInt64} (h : m.misses nowMs)
    (hlast : m.lastServerMsrAtMs = some last) :
    last.toNat + m.cfg.msrIntervalMs.toNat * m.cfg.missWindowCount.toNat < nowMs.toNat := by
  have hgt := UInt64.lt_iff_toNat_lt.mp h
  rw [saturatingSub_toNat, saturatingMul_toNat, hlast, Option.getD_some] at hgt
  have hnow := nowMs.toNat_lt
  simp only [u64Max] at hgt
  omega

/-- Only the probe timer makes a client doubt its session. -/
theorem step_doubts {m m' : CoreMachine} {op : Op} {res : CallResult}
    (hs : m.step op = some (m', res)) (hup : m.state = .established)
    (hdoubt : m'.state = .reactivating) :
    ∃ nowMs, op = .call (.timer nowMs .clientProbe) ∧ m.misses nowMs := by
  cases op with
  | call k =>
    have hmoved := next_moved m k
    rw [← (apply_answers m hs).next] at hmoved
    cases hmoved with
    | doubted _ _ hmisses => exact ⟨_, rfl, hmisses⟩
    | abandoned | timedOut | closed => simp at hdoubt
    | same | announced | rolledBack | queued | proposed | switched =>
      have hstate : m.state = .reactivating := hdoubt
      simp [hup] at hstate
  | datagram nowMs src bytes =>
    have heq : onDatagram m nowMs src bytes = (m', res) := Option.some.inj hs
    cases hown : ownFrame m bytes with
    | none =>
      obtain rfl := step_unheard hs hown
      simp [hup] at hdoubt
    | some frame =>
      have hmoves := onDatagram_lifecycle nowMs src hown
      rw [heq] at hmoves
      simp [hdoubt, hup] at hmoves

/-- A client probes its server only after a silence of more than the miss window, as it
stands when the probe timer fires: the exact product of the interval and the count. -/
theorem probed_after_silence {cid : UInt64} {cfg : CoreConfig} {h : History} {m : CoreMachine}
    (hrun : Run CoreMachine.step (CoreMachine.new .client cid cfg) h m) :
    ∀ h₀ t h₁, h = h₀ ++ t :: h₁ → t.pre.state = .established → t.post.state = .reactivating →
      ∃ nowMs, t.input = .call (.timer nowMs .clientProbe) ∧
        LastHeard (fun last => last.toNat +
          t.pre.cfg.msrIntervalMs.toNat * t.pre.cfg.missWindowCount.toNat < nowMs.toNat) h₀ := by
  intro h₀ t h₁ hsplit hup hdoubt
  subst hsplit
  obtain ⟨hpre, hs⟩ := hrun.split
  obtain ⟨nowMs, hop, hmisses⟩ := step_doubts hs hup hdoubt
  obtain ⟨last, hlast, hheard⟩ := (stamped_of_run hpre).stamp hup
  refine ⟨nowMs, hop, hheard.imp fun t ht => ?_⟩
  obtain ⟨τ, hτ, rfl⟩ := ht
  exact ⟨τ, hτ, hmisses.exact hlast⟩

/-- The server is silent for 45001 ms, against a window of three times 15000 ms. -/
theorem silentServer_probed :
    ∃ h m, exec CoreMachine.step (CoreMachine.new .client 7 .default) silentServer = some (h, m) ∧
      ∀ h₀ t h₁, h = h₀ ++ t :: h₁ → t.pre.state = .established → t.post.state = .reactivating →
        ∃ nowMs, t.input = .call (.timer nowMs .clientProbe) ∧
          LastHeard (fun last => last.toNat +
            t.pre.cfg.msrIntervalMs.toNat * t.pre.cfg.missWindowCount.toNat < nowMs.toNat) h₀ := by
  have hsome : (exec CoreMachine.step (CoreMachine.new .client 7 .default) silentServer).isSome := by
    decide +kernel
  obtain ⟨⟨h, m⟩, hexec⟩ := Option.isSome_iff_exists.mp hsome
  exact ⟨h, m, hexec, probed_after_silence (Run.of_exec hexec)⟩


/-! ### The disconnect timer -/

/-- The time that an operation is called with. -/
def Op.nowMs : Op → Option UInt64
  | .datagram nowMs _ _ | .call (.beginHandshake nowMs) | .call (.timer nowMs _)
  | .call (.proposeTimers nowMs _) => some nowMs
  | .call (.send _) | .call .close | .call (.pathChanged _) => none

/-- No operation has an earlier time than one before it. -/
def Ordered (h : History) : Prop := (h.filterMap fun t => t.input.nowMs).Pairwise (· ≤ ·)

instance (h : History) : Decidable (Ordered h) := by
  unfold Ordered
  infer_instance

/-- No time leaves 64 bits when the length in force is added to it. -/
def RoomFor (len : CoreConfig → UInt64) (h : History) : Prop :=
  ∀ t ∈ h, ∀ nowMs ∈ t.input.nowMs, nowMs.toNat + (len t.pre.cfg).toNat < 2 ^ 64

instance (len : CoreConfig → UInt64) (h : History) : Decidable (RoomFor len h) :=
  decidable_of_iff
    (∀ t ∈ h, t.input.nowMs.all fun nowMs => nowMs.toNat + (len t.pre.cfg).toNat < 2 ^ 64)
    (by simp [RoomFor, Option.all_eq_true])

/-- The `ServerMsr` timer of a server in the session fires, and the client is not given up. -/
def CoreMachine.ticks (m : CoreMachine) : Op → Option UInt64
  | .call (.timer nowMs .serverMsr) =>
    if m.role = .server ∧ m.state = .established ∧ ¬ m.unanswered then some nowMs else none
  | _ => none

/-- The step sets the disconnect deadline. -/
def renews (t : Taken CoreMachine Op CallResult) : Prop :=
  (heardAt t).isSome ∨ (t.pre.ticks t.input).isSome

/-- The disconnect timer fires inside the window that the last frame has lengthened, but
after the one that it found, and nothing else has moved the deadline since. -/
def Premature (h : History) (t : Taken CoreMachine Op CallResult) : Prop :=
  ∃ nowMs, t.input = .call (.timer nowMs .disconnect) ∧ t.pre.state ≠ .lost ∧
    LastHas renews (fun u => ∃ last, heardAt u = some last ∧
      last.toNat + u.pre.cfg.disconnectWindowMs.toNat ≤ nowMs.toNat ∧
      nowMs.toNat < last.toNat + u.post.cfg.disconnectWindowMs.toNat) h

/-- The silence that the disconnect timer needs. -/
def Overdue (h : History) (t : Taken CoreMachine Op CallResult) : Prop :=
  ∀ nowMs, t.input = .call (.timer nowMs .disconnect) → t.pre.state ≠ .lost →
    t.post.state = .lost →
      LastHeard (fun last =>
        last.toNat + t.pre.cfg.disconnectWindowMs.toNat ≤ nowMs.toNat) h

theorem next_deadline (m : CoreMachine) (k : Call) :
    (m.next k).disconnectDeadlineMs =
      match m.ticks (.call k) with
      | some nowMs => some (nowMs + m.cfg.disconnectWindowMs)
      | none => m.disconnectDeadlineMs := by
  cases k with
  | timer nowMs id =>
    cases id with
    | serverMsr =>
      by_cases h : m.role = .server ∧ m.state = .established
      · by_cases hu : m.unanswered <;>
          simp [CoreMachine.next, CoreMachine.ticks, CoreMachine.onServerMsrTimer, h, hu]
      · have hnone : ¬ (m.role = .server ∧ m.state = .established ∧ ¬ m.unanswered) := by tauto
        simp only [CoreMachine.next, CoreMachine.ticks, if_neg h, if_neg hnone]
    | clientProbe | disconnect | renegotiationTimeout =>
      simp only [CoreMachine.next, CoreMachine.ticks]
      split_ifs <;> rfl
  | proposeTimers nowMs p =>
    simp only [CoreMachine.next, CoreMachine.ticks]
    split_ifs <;> rfl
  | beginHandshake | send | close | pathChanged => rfl

section Deadline
variable {h : History} {m m' : CoreMachine} {op : Op} {res : CallResult}

/-- Where the disconnect deadline of a machine comes from: the last frame, with the window
that it found, or a tick of the server since, with the window that is in force. -/
inductive Kept (h : History) (m : CoreMachine) (deadline : UInt64) : Prop
  | frame (h₁ h₂ : History) (u : Taken CoreMachine Op CallResult) (last : UInt64) :
      h = h₁ ++ u :: h₂ → heardAt u = some last → (∀ t ∈ h₂, ¬ renews t) →
      deadline.toNat = last.toNat + u.pre.cfg.disconnectWindowMs.toNat → u.post.cfg = m.cfg →
      Kept h m deadline
  | tick (h₁ h₂ : History) (u : Taken CoreMachine Op CallResult) :
      h = h₁ ++ u :: h₂ → renews u → heardAt u = none → (∀ t ∈ h₂, ¬ renews t) →
      LastHeard (fun last => last.toNat + m.cfg.disconnectWindowMs.toNat ≤ deadline.toNat) h →
      Kept h m deadline

theorem heardAt_of_not_renews {t : Taken CoreMachine Op CallResult} (ht : ¬ renews t) :
    heardAt t = none :=
  Option.not_isSome_iff_eq_none.mp fun hheard => ht (.inl hheard)

theorem Kept.heard {deadline : UInt64} (hk : Kept h m deadline) : LastHeard (fun _ => True) h := by
  cases hk with
  | frame h₁ h₂ u last hsplit hlast hrest =>
    exact ⟨h₁, u, h₂, hsplit, by simp [hlast], ⟨last, hlast, trivial⟩,
      fun t ht => by simp [heardAt_of_not_renews (hrest t ht)]⟩
  | tick _ _ _ _ _ _ _ hheard => exact hheard.imp fun t ht => ht.imp fun _ hτ => ⟨hτ.1, trivial⟩

theorem mem_of_renews {t u : Taken CoreMachine Op CallResult} (ht : ¬ renews t)
    (hu : u ∈ h ++ [t]) (hrenews : renews u) : u ∈ h := by
  obtain hold | hnew := List.mem_append.mp hu
  · exact hold
  · rw [List.mem_singleton.mp hnew] at hrenews
    exact absurd hrenews ht

/-- A step that does not set the deadline leaves it as it was kept. -/
theorem Kept.snoc {deadline : UInt64} {t : Taken CoreMachine Op CallResult}
    (hk : Kept h m deadline) (ht : ¬ renews t) (hcfg : m'.cfg = m.cfg) :
    Kept (h ++ [t]) m' deadline := by
  have hlast : ∀ h₂ : History, (∀ u ∈ h₂, ¬ renews u) → ∀ u ∈ h₂ ++ [t], ¬ renews u := by
    intro h₂ hrest u hu
    obtain hold | hnew := List.mem_append.mp hu
    · exact hrest u hold
    · rwa [List.mem_singleton.mp hnew]
  cases hk with
  | frame h₁ h₂ u last hsplit hheard hrest hdeadline hafter =>
    exact .frame h₁ (h₂ ++ [t]) u last (by simp [hsplit]) hheard (hlast h₂ hrest) hdeadline (hafter.trans hcfg.symm)
  | tick h₁ h₂ u hsplit hu hnone hrest hheard =>
    refine .tick h₁ (h₂ ++ [t]) u (by simp [hsplit]) hu hnone (hlast h₂ hrest) ?_
    rw [hcfg]
    exact (lastHeard_snoc (heardAt_of_not_renews ht)).mpr hheard

theorem Ordered.left {h' : History} (ho : Ordered (h ++ h')) : Ordered h := by
  unfold Ordered at ho
  rw [List.filterMap_append, List.pairwise_append] at ho
  exact ho.1

theorem Ordered.le {u t : Taken CoreMachine Op CallResult} (ho : Ordered (h ++ [t])) (hu : u ∈ h)
    {τ nowMs : UInt64} (hτ : u.input.nowMs = some τ) (hnow : t.input.nowMs = some nowMs) :
    τ ≤ nowMs := by
  unfold Ordered at ho
  rw [List.filterMap_append, List.pairwise_append] at ho
  exact ho.2.2 τ (List.mem_filterMap.mpr ⟨u, hu, hτ⟩) nowMs (by simp [hnow])

theorem heardAt_nowMs {t : Taken CoreMachine Op CallResult} {τ : UInt64}
    (h : heardAt t = some τ) : t.input.nowMs = some τ := by
  unfold heardAt at h
  split at h
  · cases h
  · rename_i nowMs src bytes hinput
    split_ifs at h
    rw [hinput]
    exact h

/-- What was heard before a step was heard no later. -/
theorem Ordered.heard {t : Taken CoreMachine Op CallResult} {nowMs : UInt64}
    (ho : Ordered (h ++ [t])) (hnow : t.input.nowMs = some nowMs)
    (hheard : LastHeard (fun _ => True) h) : LastHeard (fun last => last ≤ nowMs) h := by
  obtain ⟨h₁, u, h₂, rfl, hu, ⟨τ, hτ, -⟩, hrest⟩ := hheard
  exact ⟨h₁, u, h₂, rfl, hu, ⟨τ, hτ, ho.le (by simp) (heardAt_nowMs hτ) hnow⟩, hrest⟩

/-- A machine in the session has a deadline, and a deadline is kept. -/
structure Dated (h : History) (m : CoreMachine) : Prop where
  up : m.state = .established → m.disconnectDeadlineMs.isSome
  set : ∀ t ∈ h, renews t → m.disconnectDeadlineMs.isSome
  kept : ∀ deadline, m.disconnectDeadlineMs = some deadline → Kept h m deadline

theorem add_toNat {a b : UInt64} (h : a.toNat + b.toNat < 2 ^ 64) :
    (a + b).toNat = a.toNat + b.toNat := by
  rw [UInt64.toNat_add, Nat.mod_eq_of_lt h]

theorem Dated.quiet (hd : Dated h m) (hquiet : ¬ renews ⟨m, op, res, m'⟩) (hcfg : m'.cfg = m.cfg)
    (hdeadline : m'.disconnectDeadlineMs = m.disconnectDeadlineMs)
    (hup : m'.state = .established → m.state = .established) :
    Dated (h ++ [⟨m, op, res, m'⟩]) m' := by
  refine ⟨fun hnew => ?_, fun t ht hrenews => ?_, fun deadline hset => ?_⟩
  · rw [hdeadline]
    exact hd.up (hup hnew)
  · rw [hdeadline]
    exact hd.set t (mem_of_renews hquiet ht hrenews) hrenews
  · rw [hdeadline] at hset
    exact (hd.kept deadline hset).snoc hquiet hcfg

theorem Dated.of_kept {deadline : UInt64} (hset : m.disconnectDeadlineMs = some deadline)
    (hk : Kept h m deadline) : Dated h m := by
  refine ⟨fun _ => by rw [hset]; rfl, fun _ _ _ => by rw [hset]; rfl, fun other hother => ?_⟩
  obtain rfl := Option.some.inj (hset.symm.trans hother)
  exact hk

theorem ticks_call {k : Call} {nowMs : UInt64} (h : m.ticks (.call k) = some nowMs) :
    k = .timer nowMs .serverMsr ∧ m.state = .established := by
  unfold CoreMachine.ticks at h
  split at h
  · split_ifs at h with hall
    rename_i hk
    rw [Op.call.injEq] at hk
    exact ⟨by rw [hk, Option.some.inj h], hall.2.1⟩
  · cases h

theorem Dated.step (hd : Dated h m) (hs : m.step op = some (m', res))
    (ho : Ordered (h ++ [⟨m, op, res, m'⟩]))
    (hroom : ∀ nowMs ∈ op.nowMs, nowMs.toNat + m.cfg.disconnectWindowMs.toNat < 2 ^ 64) :
    Dated (h ++ [⟨m, op, res, m'⟩]) m' := by
  cases op with
  | call k =>
    have hnext := (apply_answers m hs).next
    have hcfg : m'.cfg = m.cfg := by
      rw [hnext]
      exact congrArg Lasting.cfg (next_lasting m k)
    have hdeadline := next_deadline m k
    rw [← hnext] at hdeadline
    cases htick : m.ticks (.call k) with
    | none =>
      rw [htick] at hdeadline
      have hquiet : ¬ renews ⟨m, .call k, res, m'⟩ := by simp [renews, heardAt, htick]
      exact hd.quiet hquiet hcfg hdeadline fun hup => next_up (hnext ▸ hup)
    | some nowMs =>
      rw [htick] at hdeadline
      obtain ⟨rfl, hup⟩ := ticks_call htick
      obtain ⟨old, hold⟩ := Option.isSome_iff_exists.mp (hd.up hup)
      have hheard := ho.heard (show _ = some nowMs from rfl) (hd.kept old hold).heard
      refine .of_kept hdeadline (.tick h [] _ rfl (.inr (by simp [htick])) rfl (by simp) ?_)
      refine (lastHeard_snoc rfl).mpr (hheard.imp fun u hu => hu.imp fun τ hτ => ⟨hτ.1, ?_⟩)
      have hle := UInt64.le_iff_toNat_le.mp hτ.2
      rw [add_toNat (hroom nowMs rfl), hcfg]
      omega
  | datagram nowMs src bytes =>
    cases hown : ownFrame m bytes with
    | none =>
      obtain rfl := step_unheard hs hown
      have hquiet : ¬ renews ⟨m', .datagram nowMs src bytes, res, m'⟩ := by
        simp [renews, heardAt, hown, CoreMachine.ticks]
      exact hd.quiet hquiet rfl rfl id
    | some frame =>
      have heq : onDatagram m nowMs src bytes = (m', res) := Option.some.inj hs
      have hdeadline := onDatagram_deadline nowMs src hown
      rw [heq] at hdeadline
      exact .of_kept hdeadline (.frame h [] _ nowMs rfl (if_pos (by simp [hown])) (by simp)
        (add_toNat (hroom nowMs rfl)) rfl)

theorem dated_of_run {role : Role} {cid : UInt64} {cfg : CoreConfig}
    (hrun : Run CoreMachine.step (CoreMachine.new role cid cfg) h m) (ho : Ordered h)
    (hroom : RoomFor CoreConfig.disconnectWindowMs h) : Dated h m := by
  induction hrun with
  | nil => exact ⟨fun hup => (by cases hup), by simp, fun deadline hset => (by cases hset)⟩
  | snoc _ hs ih =>
    have hpre := ih ho.left fun t ht => hroom t (List.mem_append_left _ ht)
    exact hpre.step hs ho (hroom _ (List.mem_append_right _ (List.mem_singleton_self _)))

theorem step_loses {nowMs : UInt64} (hs : m.step (.call (.timer nowMs .disconnect)) = some (m', res))
    (hup : m.state ≠ .lost) : m'.state = .lost ↔ m.pastDeadline nowMs := by
  have happly : m.apply (.timer nowMs .disconnect) = some (m', res) := hs
  have hnext := (apply_answers m happly).next
  rw [hnext]
  by_cases hpast : m.pastDeadline nowMs <;> simp [CoreMachine.next, hpast, hup]

/-- At one firing of the timer. -/
theorem Dated.overdue_iff {t : Taken CoreMachine Op CallResult} (hd : Dated h t.pre)
    (hs : t.pre.step t.input = some (t.post, t.output)) : Overdue h t ↔ ¬ Premature h t := by
  have hloses : ∀ nowMs, t.input = .call (.timer nowMs .disconnect) → t.pre.state ≠ .lost →
      (t.post.state = .lost ↔ t.pre.pastDeadline nowMs) := by
    intro nowMs hin hup
    rw [hin] at hs
    exact step_loses hs hup
  cases hset : t.pre.disconnectDeadlineMs with
  | none =>
    refine iff_of_true (fun nowMs hin hup hlost => ?_) fun hpremature => ?_
    · have hpast := (hloses nowMs hin hup).mp hlost
      simp [CoreMachine.pastDeadline, hset] at hpast
    · obtain ⟨nowMs, -, -, h₁, u, h₂, hsplit, hrenews, -⟩ := hpremature
      have hsome := hd.set u (by simp [hsplit]) hrenews
      simp [hset] at hsome
  | some deadline =>
    have hpast : ∀ nowMs, t.pre.pastDeadline nowMs ↔ deadline.toNat ≤ nowMs.toNat := by
      simp [CoreMachine.pastDeadline, hset, UInt64.le_iff_toNat_le]
    cases hd.kept deadline hset with
    | frame h₁ h₂ u last hsplit hheard hrest hdeadline hcfg =>
      have hlast : ∀ q, LastHeard q h ↔ q last := by
        intro q
        rw [LastHeard, hsplit, lastHas_split (by simp [hheard]) fun v hv => by
          simp [heardAt_of_not_renews (hrest v hv)]]
        simp [hheard]
      have hrenewed : ∀ q, LastHas renews q h ↔ q u := by
        intro q
        rw [hsplit, lastHas_split (.inl (by simp [hheard])) hrest]
      simp only [Overdue, Premature, hlast, hrenewed, hheard, hcfg, Option.some.injEq,
        exists_eq_left']
      constructor
      · rintro hover ⟨nowMs, hin, hup, hle, hlt⟩
        have hlost := (hloses nowMs hin hup).mpr ((hpast nowMs).mpr (by omega))
        have hwindow := hover nowMs hin hup hlost
        omega
      · intro hprem nowMs hin hup hlost
        have hle := (hpast nowMs).mp ((hloses nowMs hin hup).mp hlost)
        by_contra hshort
        exact hprem ⟨nowMs, hin, hup, by omega, by omega⟩
    | tick h₁ h₂ u hsplit hu hnone hrest hheard =>
      refine iff_of_true (fun nowMs hin hup hlost => ?_) fun hprem => ?_
      · have hle := (hpast nowMs).mp ((hloses nowMs hin hup).mp hlost)
        exact hheard.imp fun v hv => hv.imp fun τ hτ => ⟨hτ.1, hτ.2.trans hle⟩
      · obtain ⟨nowMs, -, -, hframe⟩ := hprem
        rw [hsplit, lastHas_split hu hrest, hnone] at hframe
        simp at hframe

end Deadline

/-- Over a run at times in order, with room for the window, the disconnect timer loses no
session before its time exactly if it never fires inside a window just made longer. -/
theorem lost_overdue_iff {role : Role} {cid : UInt64} {cfg : CoreConfig} {h : History}
    {m : CoreMachine} (hrun : Run CoreMachine.step (CoreMachine.new role cid cfg) h m)
    (ho : Ordered h) (hroom : RoomFor CoreConfig.disconnectWindowMs h) :
    (∀ h₀ t h₁, h = h₀ ++ t :: h₁ → Overdue h₀ t) ↔
      ∀ h₀ t h₁, h = h₀ ++ t :: h₁ → ¬ Premature h₀ t := by
  have hall : ∀ h₀ t h₁, h = h₀ ++ t :: h₁ → (Overdue h₀ t ↔ ¬ Premature h₀ t) := by
    intro h₀ t h₁ hsplit
    subst hsplit
    obtain ⟨hpre, hs⟩ := hrun.split
    exact (dated_of_run hpre ho.left fun u hu => hroom u (by simp [hu])).overdue_iff hs
  constructor
  · intro hover h₀ t h₁ hsplit
    exact (hall h₀ t h₁ hsplit).mp (hover h₀ t h₁ hsplit)
  · intro hprem h₀ t h₁ hsplit
    exact (hall h₀ t h₁ hsplit).mpr (hprem h₀ t h₁ hsplit)

/-- The server is silent for a whole window. -/
def silentWindow : List Op := silentServer ++ [.call (.timer 180000 .disconnect)]

theorem silentWindow_overdue :
    ∃ h m, exec CoreMachine.step (CoreMachine.new .client 7 .default) silentWindow = some (h, m) ∧
      ((∀ h₀ t h₁, h = h₀ ++ t :: h₁ → Overdue h₀ t) ↔
        ∀ h₀ t h₁, h = h₀ ++ t :: h₁ → ¬ Premature h₀ t) := by
  have hsome : (exec CoreMachine.step (CoreMachine.new .client 7 .default) silentWindow).any
      (fun x => Ordered x.1 ∧ RoomFor CoreConfig.disconnectWindowMs x.1) = true := by
    decide +kernel
  obtain ⟨⟨h, m⟩, hexec, hx⟩ := (Option.any_eq_true _ _).mp hsome
  obtain ⟨ho, hroom⟩ := of_decide_eq_true hx
  exact ⟨h, m, hexec, lost_overdue_iff (Run.of_exec hexec) ho hroom⟩

/-- A client takes over the longest window of its server, and its disconnect timer fires
when the old one is over. -/
def lengthenedWindow : List Op :=
  [.datagram 0 0 ((Packet.control .serverHello).bytes 7),
    .datagram 1 0 ((Packet.msr 0 0 (some (.proposal 1 ⟨15000, 3, 900000⟩))).bytes 7),
    .call (.timer 180001 .disconnect)]

theorem lengthenedWindow_lost_early :
    ¬ ∀ (role : Role) (cid : UInt64) (cfg : CoreConfig) (h : History) (m : CoreMachine),
      Run CoreMachine.step (CoreMachine.new role cid cfg) h m → Ordered h →
        RoomFor CoreConfig.disconnectWindowMs h →
          ∀ h₀ t h₁, h = h₀ ++ t :: h₁ → Overdue h₀ t := by
  intro hclaim
  have hsome : (exec CoreMachine.step (CoreMachine.new .client 7 .default) lengthenedWindow).any
      (fun x => Ordered x.1 ∧ RoomFor CoreConfig.disconnectWindowMs x.1 ∧
        x.1.map heardAt = [some 0, some 1, none] ∧
        x.1.map (fun t => (t.pre.state, t.post.state)) =
          [(.preHandshake, .established), (.established, .established), (.established, .lost)] ∧
        x.1.map (fun t => t.pre.cfg.disconnectWindowMs) = [180000, 180000, 900000]) = true := by
    decide +kernel
  obtain ⟨⟨h, m⟩, hexec, hx⟩ := (Option.any_eq_true _ _).mp hsome
  obtain ⟨ho, hroom, hheard, hstates, hwindows⟩ := of_decide_eq_true hx
  have hinputs := exec_inputs hexec
  obtain ⟨t, u, v, rfl⟩ := List.length_eq_three.mp ((List.length_map heardAt).symm.trans
    (congrArg List.length hheard))
  simp only [lengthenedWindow, List.map_cons, List.map_nil, List.cons.injEq, and_true,
    Prod.mk.injEq] at hinputs hheard hstates hwindows
  have hover := hclaim .client 7 .default _ m (Run.of_exec hexec) ho hroom [t, u] v [] rfl 180001
    hinputs.2.2 (by simp [hstates]) hstates.2.2.2
  have hlast : LastHeard _ ([t] ++ u :: []) := hover
  rw [LastHeard, lastHas_split (by simp [hheard]) (by simp), hheard.2.1, hwindows.2.2] at hlast
  obtain ⟨last, hlast, hle⟩ := hlast
  rw [← Option.some.inj hlast] at hle
  exact absurd hle (by decide)

end Todero.Core
