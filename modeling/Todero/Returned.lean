import Todero.Hosted

/-! The messages a call of the runtime returns to its caller: those the core has delivered
in it, unless the call fails. -/
namespace Todero.Server
open Todero.Wire Todero.Core Todero.Store Transition

/-! ### Events -/

def receivedId : Event → Option Nat
  | .messageReceived msgId _ => some msgId
  | _ => none

/-- The ids of the messages in a core's output. -/
def receivedIds (events : List Event) : List Nat := events.filterMap receivedId

def returnedId (cid : UInt64) : RuntimeEvent → Option Nat
  | .messageReceived other msgId _ => if other = cid then some msgId else none
  | _ => none

/-- The ids of the messages of `cid` that the caller gets. -/
def returned (cid : UInt64) : RuntimeResult → List Nat
  | .ok out => out.events.filterMap (returnedId cid)
  | .error _ => []

theorem receivedIds_filter (events : List Event) :
    receivedIds (events.filter Event.isDelivery) = receivedIds events := by
  rw [receivedIds, List.filterMap_filter, receivedIds]
  congr 1
  funext e
  cases e <;> rfl

theorem receivedIds_deliveryEvents (k : Nat) (ps : List Bytes) :
    receivedIds (deliveryEvents k ps) = List.range' k ps.length := by
  induction ps generalizing k with
  | nil => rfl
  | cons p ps ih =>
    have hcons : receivedIds (deliveryEvents k (p :: ps)) =
        k :: receivedIds (deliveryEvents (k + 1) ps) := rfl
    rw [hcons, ih, List.length_cons, List.range'_succ]

theorem receivedIds_of_deliveries {out : CoreOutput} {k : Nat} {ps : List Bytes}
    (h : out.deliveries = deliveryEvents k ps) :
    receivedIds out.events = List.range' k ps.length := by
  rw [← receivedIds_filter, ← CoreOutput.deliveries, h, receivedIds_deliveryEvents]

section Base
variable [Base64]

theorem returnedId_runtimeEvents (cid other : UInt64) (events : List Event) :
    (ServerRuntime.runtimeEvents cid events).filterMap (returnedId other) =
      if cid = other then receivedIds events else [] := by
  have hone : ∀ e : Event, (ServerRuntime.runtimeEvents cid [e]).filterMap (returnedId other) =
      if cid = other then receivedIds [e] else [] := by
    intro e
    by_cases h : cid = other <;> cases e <;>
      simp [ServerRuntime.runtimeEvents, receivedIds, receivedId, returnedId, h,
        List.filterMap_cons]
  induction events with
  | nil => simp [ServerRuntime.runtimeEvents, receivedIds]
  | cons e events ih =>
    have hcons : ServerRuntime.runtimeEvents cid (e :: events) =
        ServerRuntime.runtimeEvents cid [e] ++ ServerRuntime.runtimeEvents cid events := by
      simp [ServerRuntime.runtimeEvents]
    have hids : receivedIds (e :: events) = receivedIds [e] ++ receivedIds events :=
      List.filterMap_append (l := [e])
    rw [hcons, List.filterMap_append, ih, hone, hids]
    split_ifs <;> rfl

omit [Base64] in
theorem returnedId_pathBound (s : SessionRuntime) (cid other : UInt64) (src : UInt32) :
    (s.pathBound cid src).filterMap (returnedId other) = [] := by
  unfold SessionRuntime.pathBound
  split
  · split_ifs <;> rfl
  · rfl

/-! ### Calls -/

variable {σ : Type} [SessionStore σ] {rt rt₁ rt' : ServerRuntime σ} {cid other : UInt64}
  {s : SessionRuntime} {src : UInt32} {nowMs : UInt64} {called : CoreMachine × CallResult}
  {res : RuntimeResult}

theorem Driven.returned (hd : Driven rt cid s src nowMs called rt' res) :
    returned other res = if cid = other ∧ res.isOk then receivedIds called.2.output.events else [] := by
  obtain ⟨core, cres⟩ := called
  have hres := hd.result
  cases res with
  | error e => simp [returned, Except.isOk, Except.toBool]
  | ok out =>
    cases cres with
    | error e => simp at hres
    | ok o =>
      dsimp only at hres
      split at hres
      · simp at hres
      · rw [Except.ok.injEq] at hres
        subst hres
        simp [returned, returnedId_runtimeEvents, Except.isOk, Except.toBool]

/-- A core that has been called without a delivery returns nothing. -/
theorem Driven.returns_nothing (hd : Driven rt cid s src nowMs called rt' res)
    (h : called.2.output.deliveries = []) : Server.returned other res = [] := by
  have hnone : receivedIds called.2.output.events = [] :=
    receivedIds_of_deliveries (show _ = deliveryEvents 0 [] from h)
  rw [hd.returned, hnone, ite_self]

omit [Base64] in
theorem call_deliveries {m m' : CoreMachine} {k : Call} {cres : CallResult}
    (h : m.apply k = some (m', cres)) : cres.output.deliveries = [] := by
  rw [CoreOutput.deliveries, (apply_answers m h).events, tells_deliveries]

theorem Fired.returned {due : DueTimer} (h : Fired rt nowMs due rt' res) :
    Server.returned cid res = [] := by
  cases h with
  | skipped => rfl
  | @visited s _ _ hs hdrive =>
    have hcall : s.core.apply (.timer nowMs due.timerId) =
      some ((onTimer s.core nowMs due.timerId).1, (onTimer s.core nowMs due.timerId).2) := rfl
    exact hdrive.returns_nothing (call_deliveries hcall)

theorem fireAll_returned (dues : List DueTimer) {rt : ServerRuntime σ}
    {output : ServerRuntimeOutput} (h : returned cid (.ok output) = []) :
    returned cid (ServerRuntime.fireAll nowMs rt dues output).2 = [] := by
  induction dues generalizing rt output with
  | nil => exact h
  | cons due rest ih =>
    have hpart : returned cid (rt.fire nowMs due).2 = [] := (fire_fired nowMs rt due).returned
    rw [ServerRuntime.fireAll]
    cases hf : rt.fire nowMs due with
    | mk rt' res =>
      rw [hf] at hpart
      cases res with
      | error e => rfl
      | ok partOut =>
        refine ih ?_
        rw [returned, List.filterMap_append]
        exact List.append_eq_nil_iff.mpr ⟨h, hpart⟩

theorem poll_returned (rt : ServerRuntime σ) (nowMs : UInt64) (limit : Nat) :
    returned cid (rt.pollTimers nowMs limit).2 = [] :=
  fireAll_returned _ rfl

theorem Sent.returned {payload : Bytes} (h : Sent rt other payload nowMs rt' res) :
    Server.returned cid res = [] := by
  cases h with
  | skipped => rfl
  | @visited s called _ _ hs hcall hdrive =>
    have hcall' : s.core.apply (.send payload) = some (called.1, called.2) := hcall
    exact hdrive.returns_nothing (call_deliveries hcall')

omit [Base64] in
theorem returned_map (s : SessionRuntime) (frame : WireFrame) (src : UInt32) (res : RuntimeResult) :
    returned cid (res.map fun out => { out with
      events := s.pathBound frame.cid src ++ out.events }) = returned cid res := by
  cases res with
  | error e => rfl
  | ok out =>
    show ((s.pathBound frame.cid src ++ out.events).filterMap (returnedId cid)) = _
    rw [List.filterMap_append, returnedId_pathBound, List.nil_append]
    rfl

end Base

end Todero.Server
