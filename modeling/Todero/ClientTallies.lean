import Todero.ClientSpec
import Todero.Lib.Tally

/-! A client runtime over a whole run: its core, what its caller gets, and its counters, which
nothing but what the caller gets makes go up. -/
namespace Todero.Client
open Todero.Wire Todero.Core Transition Tally

inductive ClientCounter where
  | handshakeStarted
  | handshakeEstablished
  | reactivationProbeSent
  | reactivated
  | disconnected
  | msrSent
  deriving DecidableEq, Repr

def ClientRuntimeMetrics.read (m : ClientRuntimeMetrics) : ClientCounter → UInt64
  | .handshakeStarted => m.handshakeStarted
  | .handshakeEstablished => m.handshakeEstablished
  | .reactivationProbeSent => m.reactivationProbeSent
  | .reactivated => m.reactivated
  | .disconnected => m.disconnected
  | .msrSent => m.msrSent

namespace ClientCounter
variable (c : ClientCounter)

def ofEvent (event : Event) : Nat :=
  match c, event with
  | .handshakeStarted, .handshakeStarted => 1
  | .handshakeEstablished, .handshakeEstablished => 1
  | .reactivationProbeSent, .reactivationProbeSent => 1
  | .reactivated, .reactivated => 1
  | .disconnected, .disconnected => 1
  | _, _ => 0

def ofDatagram (bytes : Bytes) : Nat :=
  match WireFrame.decode bytes with
  | .error _ => 0
  | .ok frame => if c = .msrSent ∧ frame.messageType = .msr then 1 else 0

/-- What a call has returned of the counter's kind. -/
def ofResult (res : RuntimeResult) : Nat :=
  ((datagramsOf res).map c.ofDatagram).sum + ((eventsOf res).map c.ofEvent).sum

def inRun (h : List (Taken ClientRuntime Op RuntimeResult)) : Nat :=
  (h.map fun t => c.ofResult t.output).sum

end ClientCounter

/-- A counter has gone up by `k`, as far as it can. -/
abbrev Counts (c : ClientCounter) (m m' : ClientRuntimeMetrics) (k : Nat) : Prop :=
  Moved u64Max True (m.read c).toNat k (m'.read c).toNat

section Calls
variable {rt rt' : ClientRuntime} {c : ClientCounter} {res : RuntimeResult}

theorem read_le (m : ClientRuntimeMetrics) (c : ClientCounter) : (m.read c).toNat ≤ u64Max :=
  Nat.le_of_lt_succ (m.read c).toNat_lt

theorem added_moved (n : UInt64) : Moved u64Max True n.toNat 1 (saturatingAdd n 1).toNat := by
  rw [saturatingAdd_toNat]
  exact .bumped 1

theorem observeCoreEvent_counts (c : ClientCounter) (m : ClientRuntimeMetrics) (event : Event) :
    Counts c m (observeCoreEvent m event) (c.ofEvent event) := by
  cases event <;> cases c <;> first | exact .still (read_le _ _) | exact added_moved _

theorem observeDatagram_counts (c : ClientCounter) (m : ClientRuntimeMetrics)
    (d : OutboundDatagram) : Counts c m (observeDatagram m d) (c.ofDatagram d.bytes) := by
  unfold observeDatagram ClientCounter.ofDatagram
  cases WireFrame.decode d.bytes with
  | error e => exact .still (read_le _ _)
  | ok frame =>
    dsimp only
    by_cases htype : frame.messageType = .msr
    · rw [if_pos htype]
      cases c <;> simp only [htype, and_true, reduceCtorEq, if_false, if_true] <;>
        first | exact .still (read_le _ _) | exact added_moved _
    · rw [if_neg htype, if_neg fun h => htype h.2]
      exact .still (read_le _ _)

/-- A call of the core counts what it returns. -/
theorem drive_counts (c : ClientCounter) (rt : ClientRuntime) (called : CoreMachine × CallResult) :
    Counts c rt.metrics (rt.drive called).1.metrics (c.ofResult (rt.drive called).2) := by
  obtain ⟨core, res⟩ := called
  cases res with
  | error e => exact .still (read_le _ _)
  | ok out =>
    have hdatagrams : Counts c rt.metrics (out.outboundDatagrams.foldl observeDatagram rt.metrics)
        (out.outboundDatagrams.map fun d => c.ofDatagram d.bytes).sum :=
      foldl_moved (fun m : ClientRuntimeMetrics => (m.read c).toNat) (fun _ => read_le _ _)
        (observeDatagram_counts c) _ _
    have hevents := foldl_moved (fun m : ClientRuntimeMetrics => (m.read c).toNat)
      (fun _ => read_le _ _) (observeCoreEvent_counts c) out.events
      (out.outboundDatagrams.foldl observeDatagram rt.metrics)
    have hsum : c.ofResult ((rt.drive (core, .ok out)).2) =
        (out.outboundDatagrams.map fun d => c.ofDatagram d.bytes).sum +
          (out.events.map c.ofEvent).sum := by
      have hback : eventsOf (rt.drive (core, .ok out)).2 = out.events := map_coreEvent out.events
      have hbytes : datagramsOf (rt.drive (core, .ok out)).2 =
        out.outboundDatagrams.map OutboundDatagram.bytes := rfl
      rw [ClientCounter.ofResult, hback, hbytes, List.map_map]
      rfl
    rw [hsum]
    exact hdatagrams.trans hevents

theorem ofResult_append (c : ClientCounter) (out out' : ClientRuntimeOutput) :
    c.ofResult (.ok ⟨out.outboundDatagrams ++ out'.outboundDatagrams, out.events ++ out'.events⟩) =
      c.ofResult (.ok out) + c.ofResult (.ok out') := by
  simp only [ClientCounter.ofResult, datagramsOf, eventsOf, List.map_append, List.sum_append]
  omega

/-- The timers of a poll add up in what it returns; none of them fails. -/
theorem fireAll_counts (c : ClientCounter) (nowMs : UInt64) (dues : List (UInt64 × TimerId))
    {rt : ClientRuntime} {n : UInt64} {output : ClientRuntimeOutput}
    (hstart : Moved u64Max True n.toNat (c.ofResult (.ok output)) (rt.metrics.read c).toNat) :
    Moved u64Max True n.toNat (c.ofResult (ClientRuntime.fireAll nowMs rt dues output).2)
      ((ClientRuntime.fireAll nowMs rt dues output).1.metrics.read c).toNat := by
  induction dues generalizing rt output with
  | nil => exact hstart
  | cons due dues ih =>
    obtain ⟨partOut, hok⟩ := fire_ok_exists nowMs rt due
    have hfire : Counts c rt.metrics (rt.fire nowMs due).1.metrics
        (c.ofResult (rt.fire nowMs due).2) :=
      drive_counts c { rt with timers := dropTimer rt.timers due.1 due.2 }
        (onTimer rt.core nowMs due.2)
    rw [ClientRuntime.fireAll]
    cases hf : rt.fire nowMs due with
    | mk rt₁ res =>
      rw [hf] at hok hfire
      dsimp only at hok
      subst hok
      refine ih ?_
      rw [ofResult_append]
      exact hstart.trans hfire

theorem step_counts (c : ClientCounter) {op : Op} (hstep : rt.step op = some (rt', res)) :
    Counts c rt.metrics rt'.metrics (c.ofResult res) := by
  cases op with
  | pollTimers nowMs limit =>
    obtain ⟨rfl, rfl⟩ := Prod.mk.inj (Option.some.inj hstep)
    exact fireAll_counts c nowMs _ (.still (read_le _ _))
  | sendMessage payload =>
    obtain ⟨called, -, heq⟩ := Option.map_eq_some_iff.mp hstep
    have hdrive := drive_counts c rt called
    rwa [heq] at hdrive
  | pathChanged pathId =>
    obtain ⟨rfl, rfl⟩ := Prod.mk.inj (Option.some.inj hstep)
    exact drive_counts c rt (onPathEvent rt.core pathId)
  | beginHandshake | datagram | closeSession | proposeTimers =>
    obtain ⟨rfl, rfl⟩ := Prod.mk.inj (Option.some.inj hstep)
    exact drive_counts c rt _

/-- Over any run the caller gets all that the core puts out in the calls that the run comes to,
in order, and each counter is the number of events or datagrams of its kind among that, as far
as it can count. -/
theorem client_returns_all {cid : UInt64} {cfg : CoreConfig}
    {h : List (Taken ClientRuntime Op RuntimeResult)}
    (hrun : Run ClientRuntime.step (.new cid cfg) h rt) :
    (∃ hc, exec CoreMachine.step (.new .client cid cfg) (callsOf h) = some (hc, rt.core) ∧
      (h.flatMap fun t => eventsOf t.output) = told hc ∧
      (h.flatMap fun t => datagramsOf t.output) = said hc) ∧
    ∀ c : ClientCounter, (rt.metrics.read c).toNat = min (c.inRun h) u64Max := by
  refine ⟨follows_of_run hrun, fun c => ?_⟩
  have hmoved : Moved u64Max True 0 (c.inRun h) (rt.metrics.read c).toNat := by
    induction hrun with
    | nil => cases c <;> exact .still (Nat.zero_le _)
    | @snoc h rt rt' op res _ hstep ih =>
      have hsum : c.inRun (h ++ [⟨rt, op, res, rt'⟩]) = c.inRun h + c.ofResult res := by
        simp [ClientCounter.inRun]
      rw [hsum]
      exact ih.trans (step_counts c hstep)
  simpa using hmoved.exactly trivial

end Calls

/-- A client whose server stops answering. -/
def deafServer : List Op :=
  [.beginHandshake 0, .datagram 0 1 ((Packet.control .serverHello).bytes 7), .sendMessage [5],
    .datagram 1 1 [], .pollTimers 60000 8, .closeSession]

theorem deafServer_returned :
    ∃ h rt, exec ClientRuntime.step (.new 7 .default) deafServer = some (h, rt) ∧
      ClientCounter.reactivationProbeSent.inRun h = 1 ∧
      (∃ hc, exec CoreMachine.step (.new .client 7 .default) (callsOf h) = some (hc, rt.core) ∧
        (h.flatMap fun t => eventsOf t.output) = told hc ∧
        (h.flatMap fun t => datagramsOf t.output) = said hc) ∧
      ∀ c : ClientCounter, (rt.metrics.read c).toNat = min (c.inRun h) u64Max := by
  have hsome : (exec ClientRuntime.step (.new 7 .default) deafServer).any (fun x =>
      ClientCounter.reactivationProbeSent.inRun x.1 = 1) = true := by decide +kernel
  obtain ⟨⟨h, rt⟩, hexec, hprobes⟩ := (Option.any_eq_true _ _).mp hsome
  exact ⟨h, rt, hexec, of_decide_eq_true hprobes, client_returns_all (Run.of_exec hexec)⟩

end Todero.Client
