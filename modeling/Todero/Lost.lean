import Todero.Delivery

/-! `Lost` over every run of a machine: it is final, and how often it is announced. -/
namespace Todero.Core
open Todero.Wire Transition

/-- The `Disconnected` events returned over a run. -/
def disconnects (h : History) : Nat := (h.map fun t => t.output.output.disconnects).sum

/-- A `Close` or `Error` frame of the machine's own cid reaches a machine that is
already lost. `on_api_close` and the disconnect timer look at the state first,
`on_datagram` does not. -/
def closedAgain (t : Taken CoreMachine Op CallResult) : Bool :=
  t.pre.state = .lost && match t.input with
    | .call _ => false
    | .datagram _ _ bytes => closes t.pre bytes

theorem step_lost {m m' : CoreMachine} {op : Op} {res : CallResult}
    (hs : m.step op = some (m', res)) :
    (m.state = .lost → m'.state = .lost) ∧
      res.output.disconnects + (if m.state = .lost then 1 else 0) =
        (if m'.state = .lost then 1 else 0) +
          if closedAgain ⟨m, op, res, m'⟩ then 1 else 0 := by
  cases op with
  | call k =>
    have hans := apply_answers m hs
    refine ⟨fun h => hans.next ▸ next_lost m k h, ?_⟩
    rw [CoreOutput.disconnects, hans.events, tells_disconnects, hans.next]
    have hkeep := next_lost m k
    by_cases h : m.state = .lost
    · simp [h, hkeep h, closedAgain]
    · by_cases h' : (m.next k).state = .lost <;> simp [h, h', closedAgain]
  | datagram nowMs src bytes =>
    have heq : onDatagram m nowMs src bytes = (m', res) := Option.some.inj hs
    obtain ⟨-, -, -, hlost, hdis⟩ := onDatagram_effect m nowMs src bytes
    rw [heq] at hlost hdis
    refine ⟨fun h => hlost.mpr (.inl h), ?_⟩
    rw [hdis]
    by_cases h : m.state = .lost <;> by_cases hc : closes m bytes <;>
      simp [h, hc, hlost, closedAgain]

/-- Over a run the loss of the session is announced once for the loss, and once more
for every closing frame after it. -/
theorem disconnects_of_run {role : Role} {cid : UInt64} {cfg : CoreConfig} {h : History}
    {m : CoreMachine} (hrun : Run CoreMachine.step (CoreMachine.new role cid cfg) h m) :
    (∀ t ∈ h, t.pre.state = .lost → t.post.state = .lost) ∧
      disconnects h = (if m.state = .lost then 1 else 0) + h.countP closedAgain := by
  induction hrun with
  | nil => exact ⟨by simp, by simp [disconnects, CoreMachine.new]⟩
  | @snoc h m m' op res _ hs ih =>
    obtain ⟨hkeep, hsum⟩ := step_lost hs
    obtain ⟨hall, hcount⟩ := ih
    constructor
    · intro t ht
      rcases List.mem_append.mp ht with hold | hnew
      · exact hall t hold
      · rw [List.mem_singleton.mp hnew]
        exact hkeep
    · rw [disconnects, List.map_append, List.sum_append, ← disconnects, hcount,
        List.countP_append, List.countP_singleton]
      simp only [List.map_cons, List.map_nil, List.sum_cons, List.sum_nil]
      omega

/-- A lost machine stays lost and was announced exactly once, unless it has been sent
another closing frame. -/
theorem lost_announced_once_iff {role : Role} {cid : UInt64} {cfg : CoreConfig} {h : History}
    {m : CoreMachine} (hrun : Run CoreMachine.step (CoreMachine.new role cid cfg) h m) :
    ((∀ t ∈ h, t.pre.state = .lost → t.post.state = .lost) ∧ disconnects h ≤ 1 ∧
      (disconnects h = 1 ↔ m.state = .lost)) ↔ ∀ t ∈ h, closedAgain t = false := by
  obtain ⟨hall, hcount⟩ := disconnects_of_run hrun
  have hnone : (∀ t ∈ h, closedAgain t = false) ↔ h.countP closedAgain = 0 := by
    simp [List.countP_eq_zero]
  rw [hnone]
  by_cases hm : m.state = .lost
  · simp only [hm, if_true] at hcount
    constructor
    · rintro ⟨-, hle, -⟩
      omega
    · intro hz
      exact ⟨hall, by omega, iff_of_true (by omega) hm⟩
  · simp only [hm, if_false] at hcount
    constructor
    · rintro ⟨-, hle, hiff⟩
      have : disconnects h ≠ 1 := fun h => hm (hiff.mp h)
      omega
    · intro hz
      exact ⟨hall, by omega, iff_of_false (by omega) hm⟩

/-- The application closes, and the peer's own `Close` arrives after that. -/
def crossedCloses : List Op := [.call .close, .datagram 1 0 ((Packet.control .close).bytes 7)]

theorem closed_announced_once :
    ∃ h m, exec CoreMachine.step (CoreMachine.new .client 7 .default) [.call .close] =
        some (h, m) ∧
      (((∀ t ∈ h, t.pre.state = .lost → t.post.state = .lost) ∧ disconnects h ≤ 1 ∧
        (disconnects h = 1 ↔ m.state = .lost)) ↔ ∀ t ∈ h, closedAgain t = false) := by
  have hsome : (exec CoreMachine.step (CoreMachine.new .client 7 .default)
      [.call .close]).isSome := by decide +kernel
  obtain ⟨⟨h, m⟩, hexec⟩ := Option.isSome_iff_exists.mp hsome
  exact ⟨h, m, hexec, lost_announced_once_iff (Run.of_exec hexec)⟩

theorem crossedCloses_announced_twice :
    ¬ ∀ (role : Role) (cid : UInt64) (cfg : CoreConfig) (h : History) (m : CoreMachine),
      Run CoreMachine.step (CoreMachine.new role cid cfg) h m →
        (∀ t ∈ h, t.pre.state = .lost → t.post.state = .lost) ∧ disconnects h ≤ 1 ∧
          (disconnects h = 1 ↔ m.state = .lost) := by
  intro hclaim
  have htwice : (exec CoreMachine.step (CoreMachine.new .client 7 .default) crossedCloses).map
      (fun x => disconnects x.1) = some 2 := by decide +kernel
  obtain ⟨⟨h, m⟩, hexec, hdis⟩ := Option.map_eq_some_iff.mp htwice
  obtain ⟨-, hle, -⟩ := hclaim .client 7 .default h m (Run.of_exec hexec)
  simp only at hdis
  omega

end Todero.Core
