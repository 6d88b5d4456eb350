import Todero.ClientRuntime
import Todero.Datagrams
import Todero.Delivery

/-! A client runtime is its core machine: the calls of the core that each call of the
runtime comes to, and that the caller gets all that the core puts out in them. -/
namespace Todero.Client
open Todero.Wire Todero.Core Transition

def coreOps (rt : ClientRuntime) : Op → List Core.Op
  | .beginHandshake nowMs => [.call (.beginHandshake nowMs)]
  | .datagram nowMs srcPathId bytes => [.datagram nowMs srcPathId bytes]
  | .sendMessage payload => [.call (.send payload)]
  | .closeSession => [.call .close]
  | .proposeTimers nowMs proposal => [.call (.proposeTimers nowMs proposal)]
  | .pathChanged pathId => [.call (.pathChanged pathId)]
  | .pollTimers nowMs limit =>
    (collectDue nowMs limit rt.timers.toList []).map fun due => .call (.timer nowMs due.2)

def coreEvent : ClientRuntimeEvent → Event
  | .core event => event

def eventsOf : RuntimeResult → List Event
  | .ok out => out.events.map coreEvent
  | .error _ => []

def datagramsOf : RuntimeResult → List Bytes
  | .ok out => out.outboundDatagrams.map OutboundDatagram.bytes
  | .error _ => []

/-- From `m` to `m'` the core has been called as `ops` say, and `res` is all it put out. -/
structure Follows (ops : List Core.Op) (res : RuntimeResult) (m m' : CoreMachine) (seg : History) :
    Prop where
  calls : exec CoreMachine.step m ops = some (seg, m')
  events : eventsOf res = told seg
  datagrams : datagramsOf res = said seg

theorem map_coreEvent (events : List Event) :
    (events.map ClientRuntimeEvent.core).map coreEvent = events := by
  rw [List.map_map]
  exact List.map_id events

theorem drive_follows (rt : ClientRuntime) (op : Core.Op) {called : CoreMachine × CallResult}
    (h : rt.core.step op = some called) :
    ∃ seg, Follows [op] (rt.drive called).2 rt.core (rt.drive called).1.core seg := by
  obtain ⟨core, cres⟩ := called
  cases cres with
  | error e => exact ⟨_, exec_single op h, rfl, rfl⟩
  | ok out =>
    refine ⟨_, exec_single op h, ?_, ?_⟩
    · exact (map_coreEvent out.events).trans (List.append_nil _).symm
    · exact (List.append_nil _).symm

theorem fire_ok_exists (nowMs : UInt64) (rt : ClientRuntime) (due : UInt64 × TimerId) :
    ∃ out, (rt.fire nowMs due).2 = .ok out := by
  unfold ClientRuntime.fire ClientRuntime.drive
  dsimp only
  cases hres : (onTimer rt.core nowMs due.2).2 with
  | error e => exact absurd hres (onTimer_not_error _ _ _ _)
  | ok out => exact ⟨_, rfl⟩

theorem fireAll_follows (nowMs : UInt64) (dues : List (UInt64 × TimerId)) (rt : ClientRuntime)
    (output : ClientRuntimeOutput) :
    ∃ seg, exec CoreMachine.step rt.core (dues.map fun due => .call (.timer nowMs due.2)) =
        some (seg, (ClientRuntime.fireAll nowMs rt dues output).1.core) ∧
      eventsOf (ClientRuntime.fireAll nowMs rt dues output).2 =
        eventsOf (.ok output) ++ told seg ∧
      datagramsOf (ClientRuntime.fireAll nowMs rt dues output).2 =
        datagramsOf (.ok output) ++ said seg := by
  induction dues generalizing rt output with
  | nil => exact ⟨[], rfl, (List.append_nil _).symm, (List.append_nil _).symm⟩
  | cons due dues ih =>
    obtain ⟨partOut, hok⟩ := fire_ok_exists nowMs rt due
    obtain ⟨seg, hcalls, hevents, hdatagrams⟩ :
        ∃ seg, Follows [.call (.timer nowMs due.2)] (rt.fire nowMs due).2 rt.core
          (rt.fire nowMs due).1.core seg := drive_follows _ (.call (.timer nowMs due.2)) rfl
    rw [ClientRuntime.fireAll]
    cases hf : rt.fire nowMs due with
    | mk rt₁ res =>
      rw [hf] at hok hcalls hevents hdatagrams
      dsimp only at hok
      subst hok
      obtain ⟨seg', hcalls', hevents', hdatagrams'⟩ := ih rt₁
        ⟨output.outboundDatagrams ++ partOut.outboundDatagrams, output.events ++ partOut.events⟩
      refine ⟨seg ++ seg', exec_append hcalls hcalls', hevents'.trans ?_, hdatagrams'.trans ?_⟩
      · rw [told_append, ← hevents, ← List.append_assoc]
        exact congrArg (· ++ told seg') List.map_append
      · rw [said_append, ← hdatagrams, ← List.append_assoc]
        exact congrArg (· ++ said seg') List.map_append

theorem step_follows {rt rt' : ClientRuntime} {op : Op} {res : RuntimeResult}
    (h : rt.step op = some (rt', res)) :
    ∃ seg, Follows (coreOps rt op) res rt.core rt'.core seg := by
  cases op with
  | sendMessage payload =>
    obtain ⟨called, hcall, heq⟩ := Option.map_eq_some_iff.mp h
    have hfollows := drive_follows _ (.call (.send payload)) hcall
    rwa [heq] at hfollows
  | pollTimers nowMs limit =>
    obtain ⟨rfl, rfl⟩ := Prod.mk.inj (Option.some.inj h)
    obtain ⟨seg, hcalls, hevents, hdatagrams⟩ :=
      fireAll_follows nowMs (collectDue nowMs limit rt.timers.toList []) rt {}
    exact ⟨seg, hcalls, hevents, hdatagrams⟩
  | beginHandshake nowMs =>
    obtain ⟨rfl, rfl⟩ := Prod.mk.inj (Option.some.inj h)
    exact drive_follows _ (.call (.beginHandshake nowMs)) rfl
  | datagram nowMs src bytes =>
    obtain ⟨rfl, rfl⟩ := Prod.mk.inj (Option.some.inj h)
    exact drive_follows _ (.datagram nowMs src bytes) rfl
  | closeSession =>
    obtain ⟨rfl, rfl⟩ := Prod.mk.inj (Option.some.inj h)
    exact drive_follows _ (.call .close) rfl
  | proposeTimers nowMs p =>
    obtain ⟨rfl, rfl⟩ := Prod.mk.inj (Option.some.inj h)
    exact drive_follows _ (.call (.proposeTimers nowMs p)) rfl
  | pathChanged pathId =>
    obtain ⟨rfl, rfl⟩ := Prod.mk.inj (Option.some.inj h)
    exact drive_follows _ (.call (.pathChanged pathId)) rfl

/-- All the calls of the core over a run of the runtime. -/
def callsOf (h : List (Taken ClientRuntime Op RuntimeResult)) : List Core.Op :=
  h.flatMap fun t => coreOps t.pre t.input

/-- Over a run the core is a machine that takes the runtime's calls one after the other, and
the caller gets its events and its datagrams, all of them and in order. -/
theorem follows_of_run {start rt : ClientRuntime} {h : List (Taken ClientRuntime Op RuntimeResult)}
    (hrun : Run ClientRuntime.step start h rt) :
    ∃ hc, exec CoreMachine.step start.core (callsOf h) = some (hc, rt.core) ∧
      (h.flatMap fun t => eventsOf t.output) = told hc ∧
      (h.flatMap fun t => datagramsOf t.output) = said hc := by
  induction hrun with
  | nil => exact ⟨[], rfl, rfl, rfl⟩
  | @snoc h rt rt' op res _ hs ih =>
    obtain ⟨hc, hcalls, hevents, hdatagrams⟩ := ih
    obtain ⟨seg, hcalls', hevents', hdatagrams'⟩ := step_follows hs
    refine ⟨hc ++ seg, ?_, ?_, ?_⟩
    · rw [callsOf, List.flatMap_append, List.flatMap_singleton]
      exact exec_append hcalls hcalls'
    · rw [List.flatMap_append, List.flatMap_singleton, hevents, hevents', told_append]
    · rw [List.flatMap_append, List.flatMap_singleton, hdatagrams, hdatagrams', said_append]

end Todero.Client
