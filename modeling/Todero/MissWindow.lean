import Todero.TimerBounds

/-! The miss window from one configuration to the next: a proposal is checked against the
configuration in force when it is made and when it is accepted, and is committed by its
proposer whatever is in force by then. -/
namespace Todero.Core
open Todero.Wire Transition

/-- The timer TLVs, each with the timers that it finds. -/
def Timers.passes (s : Timers) : List TimerTlv → List (Timers × TimerTlv)
  | [] => []
  | u :: us => (s, u) :: (s.on u).passes us

/-- The passes of an operation: only a datagram replaces the configuration. -/
def CoreMachine.passes (m : CoreMachine) : Op → List (Timers × TimerTlv)
  | .call _ => []
  | .datagram _ _ bytes => m.timers.passes ((ownFrame m bytes).elim [] timersRead)

/-- The configuration in force after the passes is that of the last one. -/
theorem passes_timers (s : Timers) (us : List TimerTlv) :
    us.foldl Timers.on s = ((s.passes us).getLast?.map fun p => p.1.on p.2).getD s := by
  induction us generalizing s with
  | nil => rfl
  | cons u us ih =>
    rw [List.foldl_cons, ih, Timers.passes]
    cases us with
    | nil => rfl
    | cons v vs => simp [Timers.passes, List.getLast?_cons]

/-- The passes are all that a step does to the configuration. -/
theorem step_passes {m m' : CoreMachine} {op : Op} {res : CallResult}
    (hs : m.step op = some (m', res)) :
    m'.cfg = ((m.passes op).getLast?.map fun p => (p.1.on p.2).cfg).getD m.cfg := by
  cases op with
  | call k =>
    rw [(apply_answers m hs).next]
    exact congrArg Lasting.cfg (next_lasting m k)
  | datagram nowMs src bytes =>
    have heq : onDatagram m nowMs src bytes = (m', res) := Option.some.inj hs
    have htimers := onDatagram_timers m nowMs src bytes
    rw [heq, passes_timers] at htimers
    have hcfg : m'.cfg = _ := congrArg Timers.cfg htimers
    rw [hcfg, CoreMachine.passes]
    cases (m.timers.passes ((ownFrame m bytes).elim [] timersRead)).getLast? <;> rfl

/-- The new miss window is at most two above the one it replaces. -/
def Gentle (p : Timers × TimerTlv) : Prop :=
  (p.1.on p.2).cfg.missWindowCount.toNat ≤ p.1.cfg.missWindowCount.toNat + 2

/-- An accepting ack of the pending proposal finds it acceptable still. -/
def Current (p : Timers × TimerTlv) : Prop :=
  ∀ id pending, p.2 = .ack id true → p.1.pending = some pending → pending.proposalId = id →
    (validateTimerProposal p.1.cfg pending.proposal).isOk

theorem CoreConfig.Bounded.inBounds {p : TimerProposal} (h : p.toConfig.Bounded) : p.InBounds := by
  have hprobe : p.msrIntervalMs.toNat * p.missWindowCount.toNat ≤ p.disconnectWindowMs.toNat :=
    h.probe
  refine ⟨h.interval, h.missWindow, h.disconnect, ?_⟩
  rw [UInt64.le_iff_toNat_le, saturatingMul_toNat]
  exact (Nat.min_le_left _ _).trans hprobe

theorem gentle_iff {cfg : CoreConfig} {p : Timers × TimerTlv} (h : p.1.Checked cfg) :
    Gentle p ↔ Current p := by
  obtain ⟨s, u⟩ := p
  cases u with
  | proposal id q =>
    refine iff_of_true ?_ fun id pending hack => by cases hack
    simp only [Gentle, Timers.on]
    split_ifs with hok
    · exact ((validateTimerProposal_isOk_iff s.cfg q).mp hok).2
    · exact Nat.le_add_right _ 2
  | ack id accepted =>
    cases hp : s.pending with
    | none =>
      refine iff_of_true ?_ fun id pending _ hpending => by simp [hp] at hpending
      simp [Gentle, Timers.on, hp]
    | some pending =>
      have hcurrent : Current (s, .ack id accepted) ↔ (accepted = true → pending.proposalId = id →
          pending.proposal.missWindowCount.toNat ≤ s.cfg.missWindowCount.toNat + 2) := by
        have hvalid := validateTimerProposal_isOk_iff s.cfg pending.proposal
        rw [and_iff_right (h.pending pending hp).inBounds] at hvalid
        rw [← hvalid]
        constructor
        · intro hall hacc hid
          exact hall id pending (by rw [hacc]) hp hid
        · intro hone id' pending' hack hpending hid
          obtain ⟨rfl, rfl⟩ := TimerTlv.ack.inj hack
          obtain rfl := Option.some.inj (hp.symm.trans hpending)
          exact hone rfl hid
      rw [hcurrent, Gentle]
      by_cases hid : pending.proposalId = id
      · cases accepted <;> simp [Timers.on, hp, hid, TimerProposal.toConfig]
      · simp [Timers.on, hp, hid]

theorem Timers.passes_checked {cfg : CoreConfig} {s : Timers} (h : s.Checked cfg)
    (us : List TimerTlv) : ∀ p ∈ s.passes us, p.1.Checked cfg := by
  induction us generalizing s with
  | nil => simp [Timers.passes]
  | cons u us ih =>
    rw [Timers.passes, List.forall_mem_cons]
    exact ⟨h, ih (h.on u)⟩

/-- Over every run each configuration has at most two more in its miss window than the one it
replaces, exactly if every accepting ack finds the pending proposal acceptable still. -/
theorem miss_window_gentle_iff {role : Role} {cid : UInt64} {cfg : CoreConfig} {h : History}
    {m : CoreMachine} (hrun : Run CoreMachine.step (CoreMachine.new role cid cfg) h m) :
    (∀ t ∈ h, ∀ p ∈ t.pre.passes t.input, Gentle p) ↔
      ∀ t ∈ h, ∀ p ∈ t.pre.passes t.input, Current p := by
  have hall : ∀ t ∈ h, ∀ p ∈ t.pre.passes t.input, (Gentle p ↔ Current p) := by
    intro t ht p hp
    obtain ⟨h₀, h₁, -, hpre, -⟩ := hrun.before ht
    obtain ⟨hcfg, hpending⟩ := timers_in_bounds hpre
    have hchecked : t.pre.timers.Checked cfg := ⟨hcfg, hpending⟩
    cases hin : t.input with
    | call k => simp [hin, CoreMachine.passes] at hp
    | datagram nowMs src bytes =>
      rw [hin] at hp
      exact gentle_iff (Timers.passes_checked hchecked _ p hp)
  constructor
  · intro hgentle t ht p hp
    exact (hall t ht p hp).mp (hgentle t ht p hp)
  · intro hcurrent t ht p hp
    exact (hall t ht p hp).mpr (hcurrent t ht p hp)

/-- A server proposes a wider miss window, and its client accepts. -/
def widened : List Op :=
  [.datagram 0 0 ((Packet.control .clientHello).bytes 7),
    .call (.proposeTimers 1 ⟨15000, 5, 180000⟩),
    .datagram 3 0 ((Packet.msr 0 0 (some (.ack 1 true))).bytes 7)]

theorem widened_gentle :
    ∃ h m, exec CoreMachine.step (CoreMachine.new .server 7 .default) widened = some (h, m) ∧
      ((∀ t ∈ h, ∀ p ∈ t.pre.passes t.input, Gentle p) ↔
        ∀ t ∈ h, ∀ p ∈ t.pre.passes t.input, Current p) := by
  have hsome : (exec CoreMachine.step (CoreMachine.new .server 7 .default) widened).isSome := by
    decide +kernel
  obtain ⟨⟨h, m⟩, hexec⟩ := Option.isSome_iff_exists.mp hsome
  exact ⟨h, m, hexec, miss_window_gentle_iff (Run.of_exec hexec)⟩

/-- Before the ack, a proposal of the client for a narrow window is accepted. -/
def crossedWindows : List Op :=
  [.datagram 0 0 ((Packet.control .clientHello).bytes 7),
    .call (.proposeTimers 1 ⟨15000, 5, 180000⟩),
    .datagram 2 0 ((Packet.msr 0 0 (some (.proposal 1 ⟨15000, 1, 180000⟩))).bytes 7),
    .datagram 3 0 ((Packet.msr 0 0 (some (.ack 1 true))).bytes 7)]

instance (p : Timers × TimerTlv) : Decidable (Gentle p) := by
  unfold Gentle
  infer_instance

/-- The miss window goes from one to five. -/
theorem crossedWindows_jump :
    ¬ ∀ (role : Role) (cid : UInt64) (cfg : CoreConfig) (h : History) (m : CoreMachine),
      Run CoreMachine.step (CoreMachine.new role cid cfg) h m →
        ∀ t ∈ h, ∀ p ∈ t.pre.passes t.input, Gentle p := by
  intro hclaim
  have hsome : (exec CoreMachine.step (CoreMachine.new .server 7 .default) crossedWindows).any
      (fun x => ∃ t ∈ x.1, ∃ p ∈ t.pre.passes t.input, ¬ Gentle p) = true := by
    decide +kernel
  obtain ⟨⟨h, m⟩, hexec, hx⟩ := (Option.any_eq_true _ _).mp hsome
  obtain ⟨t, ht, p, hp, hjump⟩ := of_decide_eq_true hx
  exact hjump (hclaim .server 7 .default h m (Run.of_exec hexec) t ht p hp)

end Todero.Core
