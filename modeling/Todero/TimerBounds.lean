import Todero.StaleProposals

/-! The timers in force over every run of one machine: the ones it was built with, or
ones inside the bounds of a proposal. -/
namespace Todero.Core
open Todero.Wire Transition

/-- The bounds of a proposal, with the probe window as the exact product. -/
structure CoreConfig.Bounded (cfg : CoreConfig) : Prop where
  interval : 1000 ≤ cfg.msrIntervalMs.toNat ∧ cfg.msrIntervalMs.toNat ≤ 120000
  missWindow : 1 ≤ cfg.missWindowCount.toNat ∧ cfg.missWindowCount.toNat ≤ 64
  disconnect : 5000 ≤ cfg.disconnectWindowMs.toNat ∧ cfg.disconnectWindowMs.toNat ≤ 900000
  probe : cfg.msrIntervalMs.toNat * cfg.missWindowCount.toNat ≤ cfg.disconnectWindowMs.toNat

/-- A window of at most 900000 ms is no smaller than a product that has saturated. -/
theorem TimerProposal.InBounds.bounded {p : TimerProposal} (h : p.InBounds) :
    p.toConfig.Bounded := by
  have hmax : p.disconnectWindowMs.toNat ≤ 900000 := h.disconnect.2
  have hprobe : (saturatingMul p.msrIntervalMs p.missWindowCount).toNat ≤
    p.disconnectWindowMs.toNat := h.probe
  rw [saturatingMul_toNat, u64Max] at hprobe
  refine ⟨h.interval, h.missWindow, h.disconnect, ?_⟩
  show p.msrIntervalMs.toNat * p.missWindowCount.toNat ≤ p.disconnectWindowMs.toNat
  omega

theorem bounded_of_validated {cfg : CoreConfig} {p : TimerProposal}
    (h : (validateTimerProposal cfg p).isOk) : p.toConfig.Bounded :=
  ((validateTimerProposal_isOk_iff cfg p).mp h).1.bounded

/-- The timers of a machine that was built with `cfg`. -/
structure Timers.Checked (cfg : CoreConfig) (t : Timers) : Prop where
  cfg : t.cfg = cfg ∨ t.cfg.Bounded
  pending : ∀ p, t.pending = some p → p.proposal.toConfig.Bounded

section Checked
variable {cfg : CoreConfig} {m : CoreMachine}

theorem Timers.Checked.on {t : Timers} (h : t.Checked cfg) (u : TimerTlv) :
    (t.on u).Checked cfg := by
  cases u with
  | proposal id p =>
    simp only [Timers.on]
    split_ifs with hok
    · exact ⟨.inr (bounded_of_validated hok), h.pending⟩
    · exact h
  | ack id accepted =>
    cases hp : t.pending with
    | none => simpa only [Timers.on, hp] using h
    | some pending =>
      simp only [Timers.on, hp]
      split_ifs
      · exact ⟨.inr (h.pending pending hp), by simp⟩
      · exact ⟨h.cfg, by simp⟩
      · exact h

theorem Timers.Checked.foldl {t : Timers} (h : t.Checked cfg) (us : List TimerTlv) :
    (us.foldl Timers.on t).Checked cfg := by
  induction us generalizing t with
  | nil => exact h
  | cons u us ih => exact ih (h.on u)

theorem next_checked (h : m.timers.Checked cfg) (k : Call) : (m.next k).timers.Checked cfg := by
  have hmoved := next_moved m k
  generalize m.next k = m' at hmoved ⊢
  cases hmoved with
  | rolledBack => exact ⟨h.cfg, by simp [CoreMachine.timers]⟩
  | proposed hcan =>
    refine ⟨h.cfg, fun q hq => ?_⟩
    simp only [CoreMachine.timers, CoreMachine.propose, Option.some.injEq] at hq
    rw [← hq]
    exact bounded_of_validated hcan.2
  | same | abandoned | announced | doubted | timedOut | queued | closed | switched => exact h

/-- The timer TLVs that a datagram has worked off, whatever its bytes are. -/
theorem onDatagram_timers (m : CoreMachine) (nowMs : UInt64) (src : UInt32) (bytes : Bytes) :
    (onDatagram m nowMs src bytes).1.timers =
      ((ownFrame m bytes).elim [] timersRead).foldl Timers.on m.timers := by
  cases hown : ownFrame m bytes with
  | none => rw [(onDatagram_of_no_frame hown nowMs src).1]; rfl
  | some frame => exact (onDatagram_emission hown nowMs src).1.timers

theorem step_checked (h : m.timers.Checked cfg) {m' : CoreMachine} {op : Op} {res : CallResult}
    (hs : m.step op = some (m', res)) : m'.timers.Checked cfg := by
  cases op with
  | call k =>
    rw [(apply_answers m hs).next]
    exact next_checked h k
  | datagram nowMs src bytes =>
    have heq : onDatagram m nowMs src bytes = (m', res) := Option.some.inj hs
    have htimers := onDatagram_timers m nowMs src bytes
    rw [heq] at htimers
    rw [htimers]
    exact h.foldl _

end Checked

/-- Over every run the timers in force are those the machine was built with or are inside
the bounds, and so is the pending proposal. -/
theorem timers_in_bounds {role : Role} {cid : UInt64} {cfg : CoreConfig} {h : History}
    {m : CoreMachine} (hrun : Run CoreMachine.step (CoreMachine.new role cid cfg) h m) :
    (m.cfg = cfg ∨ m.cfg.Bounded) ∧
      ∀ p, m.pendingLocalProposal = some p → p.proposal.toConfig.Bounded := by
  have hchecked : m.timers.Checked cfg := by
    induction hrun with
    | nil => exact ⟨.inl rfl, by simp [CoreMachine.new, CoreMachine.timers]⟩
    | snoc _ hs ih => exact step_checked ih hs
  exact ⟨hchecked.cfg, hchecked.pending⟩

theorem proposedTimers_in_bounds :
    ∃ h m, exec CoreMachine.step (CoreMachine.new .server 7 .default)
        [.datagram 0 0 ((Packet.control .clientHello).bytes 7),
          .call (.proposeTimers 1 fasterTimers)] = some (h, m) ∧
      (m.cfg = .default ∨ m.cfg.Bounded) ∧
        ∀ p, m.pendingLocalProposal = some p → p.proposal.toConfig.Bounded := by
  have hsome : (exec CoreMachine.step (CoreMachine.new .server 7 .default)
      [.datagram 0 0 ((Packet.control .clientHello).bytes 7),
        .call (.proposeTimers 1 fasterTimers)]).isSome := by decide +kernel
  obtain ⟨⟨h, m⟩, hexec⟩ := Option.isSome_iff_exists.mp hsome
  exact ⟨h, m, hexec, timers_in_bounds (Run.of_exec hexec)⟩

end Todero.Core
