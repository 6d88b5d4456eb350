import Todero.Datagrams
import Todero.Isolation
import Todero.Losses
import Todero.StoredTimers

/-! Every live session runs as a core machine of its own would: it has taken the calls that
were meant for its cid since it was made and no others, and what the caller is given for the
cid is what that machine puts out. -/
namespace Todero.Server
open Todero.Wire Todero.Core Todero.Store Transition

/-! ### What concerns one cid -/

/-- The core event of `cid` in an event of the runtime. -/
def eventOf (cid : UInt64) : RuntimeEvent → Option Event
  | .coreEvent other event => if other = cid then some event else none
  | _ => none

def eventsOf (cid : UInt64) : RuntimeResult → List Event
  | .ok out => out.events.filterMap (eventOf cid)
  | .error _ => []

/-- A datagram whose frame is of `cid`. -/
def carries (cid : UInt64) (bytes : Bytes) : Bool :=
  match WireFrame.decode bytes with
  | .ok frame => frame.cid = cid
  | .error _ => false

def datagramsOf (cid : UInt64) : RuntimeResult → List Bytes
  | .ok out => (out.outboundDatagrams.map OutboundDatagram.bytes).filter (carries cid)
  | .error _ => []

def storeFailed : RuntimeResult → Prop
  | .error (.store _) => True
  | _ => False

section Base
variable [Base64]

theorem eventOf_runtimeEvents (cid other : UInt64) (events : List Event) :
    (ServerRuntime.runtimeEvents cid events).filterMap (eventOf other) =
      if cid = other then events else [] := by
  induction events with
  | nil => simp [ServerRuntime.runtimeEvents]
  | cons e events ih =>
    have hcons : ServerRuntime.runtimeEvents cid (e :: events) =
        ServerRuntime.runtimeEvents cid [e] ++ ServerRuntime.runtimeEvents cid events := by
      simp [ServerRuntime.runtimeEvents]
    have hone : (ServerRuntime.runtimeEvents cid [e]).filterMap (eventOf other) =
        if cid = other then [e] else [] := by
      by_cases h : cid = other <;> cases e <;>
        simp [ServerRuntime.runtimeEvents, eventOf, h, List.filterMap_cons]
    rw [hcons, List.filterMap_append, ih, hone]
    split_ifs <;> rfl

omit [Base64] in
theorem eventOf_pathBound (s : SessionRuntime) (cid other : UInt64) (src : UInt32) :
    (s.pathBound cid src).filterMap (eventOf other) = [] := by
  unfold SessionRuntime.pathBound
  split
  · split_ifs <;> rfl
  · rfl

omit [Base64] in
theorem AllOf.carried {cid : UInt64} {ds : List OutboundDatagram} (h : AllOf cid ds)
    (other : UInt64) :
    (ds.map OutboundDatagram.bytes).filter (carries other) =
      if cid = other then ds.map OutboundDatagram.bytes else [] := by
  have hone : ∀ bytes ∈ ds.map OutboundDatagram.bytes, carries other bytes = decide (cid = other) := by
    intro bytes hmem
    obtain ⟨d, hd, rfl⟩ := List.mem_map.mp hmem
    obtain ⟨frame, hdec, rfl⟩ := h d hd
    simp [carries, hdec]
  rw [List.filter_congr hone]
  split_ifs with heq <;> simp [heq]

omit [Base64] in
theorem apply_allOf {m m' : CoreMachine} {k : Call} {res : CallResult}
    (h : m.apply k = some (m', res)) : AllOf m.cid res.output.outboundDatagrams := by
  intro d hmem
  rw [(apply_answers m h).datagrams, List.mem_map] at hmem
  obtain ⟨p, hp, rfl⟩ := hmem
  exact ⟨p.frame m.cid, Packet.decode_bytes (utters_small m k p hp) m.cid, rfl⟩

/-! ### One call -/

variable {σ : Type} [SessionStore σ] {rt rt₁ rt' : ServerRuntime σ} {cid other : UInt64}
  {s s' : SessionRuntime} {src : UInt32} {nowMs : UInt64} {called : CoreMachine × CallResult}
  {res : RuntimeResult}

/-- Unless the store has failed, a result tells and sends for `cid` what `es` and `ds` are. -/
structure Gives (cid : UInt64) (res : RuntimeResult) (es : List Event) (ds : List Bytes) : Prop where
  events : ¬ storeFailed res → eventsOf cid res = es
  datagrams : ¬ storeFailed res → datagramsOf cid res = ds

omit [SessionStore σ] [Base64] in
theorem Gives.sublist {es : List Event} {ds : List Bytes} (h : Gives cid res es ds) :
    (eventsOf cid res).Sublist es ∧ (datagramsOf cid res).Sublist ds := by
  by_cases hfail : storeFailed res
  · cases res with
    | ok out => exact hfail.elim
    | error e => exact ⟨List.nil_sublist _, List.nil_sublist _⟩
  · rw [h.events hfail, h.datagrams hfail]
    exact ⟨List.Sublist.refl _, List.Sublist.refl _⟩

/-- What is returned of a call of a core is its own output, and nothing for other cids. -/
theorem Driven.gives (hd : Driven rt cid s src nowMs called rt' res)
    (hall : AllOf cid called.2.output.outboundDatagrams) (other : UInt64) :
    Gives other res (if cid = other then called.2.output.events else [])
      (if cid = other then called.2.output.outboundDatagrams.map OutboundDatagram.bytes else []) := by
  obtain ⟨core, cres⟩ := called
  have hres := hd.result
  cases cres with
  | error e =>
    dsimp only at hres
    subst hres
    constructor <;> intro _ <;> split_ifs <;> rfl
  | ok out =>
    dsimp only at hres hall
    split at hres
    · subst hres
      exact ⟨fun h => absurd trivial h, fun h => absurd trivial h⟩
    · subst hres
      have hbytes : (out.outboundDatagrams.map (ServerRuntime.redirect src)).map
          OutboundDatagram.bytes = out.outboundDatagrams.map OutboundDatagram.bytes := by
        rw [List.map_map]
        rfl
      exact ⟨fun _ => eventOf_runtimeEvents cid other out.events,
        fun _ => (congrArg (List.filter (carries other)) hbytes).trans (hall.carried other)⟩

omit [SessionStore σ] [Base64] in
theorem Gives.pathBound {es : List Event} {ds : List Bytes} (h : Gives cid res es ds)
    (s : SessionRuntime) (frame : WireFrame) (src : UInt32) :
    Gives cid (res.map fun out => { out with
      events := s.pathBound frame.cid src ++ out.events }) es ds := by
  cases res with
  | error e => exact h
  | ok out =>
    refine ⟨fun _ => ?_, h.datagrams⟩
    rw [← h.events id]
    show (s.pathBound frame.cid src ++ out.events).filterMap (eventOf cid) = _
    rw [List.filterMap_append, eventOf_pathBound, List.nil_append]
    rfl

/-- The timer of a due entry, as a call of the core of `cid`. -/
def timerCall (cid nowMs : UInt64) (x : ServerRuntime σ × DueTimer) : Option Core.Op :=
  if x.2.cid = cid then some (.call (.timer nowMs x.2.timerId)) else none

/-- The calls of its core that a call of the runtime means for the session of `cid`. -/
def coreOps (cid : UInt64) (rt : ServerRuntime σ) : Op → List Core.Op
  | .datagram nowMs src bytes => if carries cid bytes then [.datagram nowMs src bytes] else []
  | .pollTimers nowMs limit =>
    (rt.polled nowMs limit).filterMap (timerCall cid nowMs)
  | .sendMessage other payload _ => if other = cid then [.call (.send payload)] else []

/-- From `m` to `m'` a core has been called as `ops` say, and the result is what it put out. -/
structure Follows (cid : UInt64) (ops : List Core.Op) (res : RuntimeResult) (m m' : CoreMachine)
    (seg : History) : Prop where
  calls : exec CoreMachine.step m ops = some (seg, m')
  gives : Gives cid res (told seg) (said seg)

theorem Driven.follows (hd : Driven rt cid s src nowMs called rt' res) (op : Core.Op)
    (hop : s.core.step op = some called) (hall : AllOf cid called.2.output.outboundDatagrams)
    (hs' : rt'.sessions[cid]? = some s') :
    ∃ seg, Follows cid [op] res s.core s'.core seg := by
  refine ⟨_, ⟨by rw [hd.core hs']; exact exec_single op hop, ?_⟩⟩
  have hgives := hd.gives hall cid
  rw [if_pos rfl, if_pos rfl] at hgives
  simpa [told, said] using hgives

theorem Driven.passes (hd : Driven rt cid s src nowMs called rt' res)
    (hall : AllOf cid called.2.output.outboundDatagrams) (hne : other ≠ cid) (m : CoreMachine) :
    Follows other [] res m m [] := by
  have hgives := hd.gives hall other
  rw [if_neg hne.symm, if_neg hne.symm] at hgives
  exact ⟨rfl, hgives⟩

/-- A session that is there after a datagram was there before, or has just been made. -/
theorem Received.follows {bytes : Bytes} (h : Received rt nowMs src bytes rt' res)
    (hrt : rt.Hosting) (hs' : rt'.sessions[cid]? = some s') :
    (∃ s seg, rt.sessions[cid]? = some s ∧
      Follows cid (coreOps cid rt (.datagram nowMs src bytes)) res s.core s'.core seg) ∨
    ∃ loaded seg, rt.sessions[cid]? = none ∧
      Follows cid (coreOps cid rt (.datagram nowMs src bytes)) res
        (freshSession rt.cfg cid src loaded).core s'.core seg := by
  cases h with
  | undecodable hd =>
    have hnot : carries cid bytes = false := by simp [carries, hd]
    refine .inl ⟨s', [], hs', ?_⟩
    rw [coreOps, hnot]
    exact ⟨rfl, fun _ => rfl, fun _ => rfl⟩
  | unloaded hd habsent _ _ _ hsessions _ =>
    rw [hsessions] at hs'
    have hnot : carries cid bytes = false := by
      simp only [carries, hd, decide_eq_false_iff_not]
      rintro rfl
      simp [habsent] at hs'
    refine .inl ⟨s', [], hs', ?_⟩
    rw [coreOps, hnot]
    exact ⟨rfl, fun h => absurd trivial h, fun h => absurd trivial h⟩
  | @visited frame s rt₁ _ res' hd henter hdrive =>
    have hall := onDatagram_allOf hd (henter.named hrt) nowMs src
    by_cases hcid : frame.cid = cid
    · subst hcid
      have hcarries : carries frame.cid bytes = true := by simp [carries, hd]
      rw [coreOps, hcarries, if_pos rfl]
      obtain ⟨seg, hcalls, hgives⟩ := hdrive.follows (.datagram nowMs src bytes) rfl hall hs'
      have hfollows := Follows.mk hcalls (hgives.pathBound s frame src)
      cases henter with
      | present hs => exact .inl ⟨s, seg, hs, hfollows⟩
      | @fresh loaded _ habsent _ _ _ _ _ => exact .inr ⟨loaded, seg, habsent, hfollows⟩
    · have hne := Ne.symm hcid
      have hnot : carries cid bytes = false := by simp [carries, hd, hcid]
      rw [hdrive.others cid hne, henter.others hne] at hs'
      obtain ⟨hcalls, hgives⟩ := hdrive.passes hall hne s'.core
      refine .inl ⟨s', [], hs', ?_⟩
      rw [coreOps, hnot]
      exact ⟨hcalls, hgives.pathBound s frame src⟩

theorem Fired.follows {due : DueTimer} (h : Fired rt nowMs due rt' res) (hrt : rt.Hosting)
    (hs' : rt'.sessions[cid]? = some s') :
    ∃ s seg, rt.sessions[cid]? = some s ∧
      Follows cid (if due.cid = cid then [.call (.timer nowMs due.timerId)] else []) res
        s.core s'.core seg := by
  cases h with
  | skipped habsent =>
    have hne : due.cid ≠ cid := by
      rintro rfl
      simp [habsent] at hs'
    rw [if_neg hne]
    exact ⟨s', [], hs', rfl, fun _ => rfl, fun _ => rfl⟩
  | @visited s _ _ hs hdrive =>
    have hcall : s.core.step (.call (.timer nowMs due.timerId)) =
      some (onTimer s.core nowMs due.timerId) := rfl
    have hall : AllOf due.cid (onTimer s.core nowMs due.timerId).2.output.outboundDatagrams := by
      rw [← (hrt _ _ hs).named]
      exact apply_allOf (k := .timer nowMs due.timerId) rfl
    by_cases hcid : due.cid = cid
    · subst hcid
      rw [if_pos rfl]
      obtain ⟨seg, hfollows⟩ := hdrive.follows _ hcall hall hs'
      exact ⟨s, seg, hs, hfollows⟩
    · have hne := Ne.symm hcid
      have hold : rt.sessions[cid]? = some s' := (hdrive.others cid hne).symm.trans hs'
      rw [if_neg hcid]
      exact ⟨s', [], hold, hdrive.passes hall hne s'.core⟩

/-- A timer can only fail in the store. -/
theorem Fired.error_store {due : DueTimer} {e : ServerRuntimeError}
    (h : Fired rt nowMs due rt' (.error e)) : storeFailed (.error e) := by
  cases h with
  | @visited s _ _ _ hdrive =>
    have hres := hdrive.result
    cases hcall : (onTimer s.core nowMs due.timerId).2 with
    | error ce => exact absurd hcall (onTimer_not_error s.core nowMs due.timerId ce)
    | ok out =>
      rw [hcall] at hres
      dsimp only at hres
      split at hres
      · rw [Except.error.inj hres]
        trivial
      · cases hres

omit [Base64] [SessionStore σ] in
theorem timerCalls_cons (x : ServerRuntime σ × DueTimer) (xs : List (ServerRuntime σ × DueTimer)) :
    (x :: xs).filterMap (timerCall cid nowMs) =
      (if x.2.cid = cid then [.call (.timer nowMs x.2.timerId)] else []) ++
        xs.filterMap (timerCall cid nowMs) := by
  rw [List.filterMap_cons, timerCall]
  split_ifs <;> rfl

/-- The induction is on the entries: what is given out for an entry comes after what was
given out for those before it. -/
theorem fireAll_follows (dues : List DueTimer) {rt : ServerRuntime σ} (hrt : rt.Hosting)
    {output : ServerRuntimeOutput}
    (hs' : (ServerRuntime.fireAll nowMs rt dues output).1.sessions[cid]? = some s') :
    ∃ s seg, rt.sessions[cid]? = some s ∧
      exec CoreMachine.step s.core ((rt.fired nowMs dues).filterMap (timerCall cid nowMs)) =
        some (seg, s'.core) ∧
      Gives cid (ServerRuntime.fireAll nowMs rt dues output).2
        (eventsOf cid (.ok output) ++ told seg) (datagramsOf cid (.ok output) ++ said seg) := by
  induction dues generalizing rt output with
  | nil =>
    refine ⟨s', [], hs', rfl, fun _ => ?_, fun _ => ?_⟩ <;>
      exact (List.append_nil _).symm
  | cons due rest ih =>
    have hfired := fire_fired nowMs rt due
    rw [ServerRuntime.fireAll] at hs' ⊢
    rw [ServerRuntime.fired, timerCalls_cons]
    cases hf : rt.fire nowMs due with
    | mk rt₁ res₁ =>
      rw [hf] at hfired hs'
      cases res₁ with
      | error e =>
        obtain ⟨s, seg, hs, hcalls, -⟩ := hfired.follows hrt hs'
        have hfail := hfired.error_store
        refine ⟨s, seg, hs, ?_, fun h => absurd hfail h, fun h => absurd hfail h⟩
        rw [List.filterMap_nil, List.append_nil]
        exact hcalls
      | ok partOut =>
        obtain ⟨s₁, seg₁, hs₁, hcalls₁, hgives₁⟩ := ih (hfired.hosting hrt) hs'
        obtain ⟨s, seg, hs, hcalls, hgives⟩ := hfired.follows hrt hs₁
        refine ⟨s, seg ++ seg₁, hs, exec_append hcalls hcalls₁, fun hok => ?_, fun hok => ?_⟩
        · rw [hgives₁.events hok, told_append, ← hgives.events id, ← List.append_assoc]
          exact congrArg (· ++ _) (List.filterMap_append ..)
        · rw [hgives₁.datagrams hok, said_append, ← hgives.datagrams id, ← List.append_assoc]
          refine congrArg (· ++ _) ?_
          simp only [datagramsOf, List.map_append, List.filter_append]

/-- A session that is there after a call was there before, or the call has made it. -/
theorem step_follows {op : Op} (hrt : rt.Hosting) (h : rt.step op = some (rt', res))
    (hs' : rt'.sessions[cid]? = some s') :
    (∃ s seg, rt.sessions[cid]? = some s ∧
      Follows cid (coreOps cid rt op) res s.core s'.core seg) ∨
    ∃ src loaded seg, rt.sessions[cid]? = none ∧
      Follows cid (coreOps cid rt op) res (freshSession rt.cfg cid src loaded).core s'.core seg := by
  cases op with
  | datagram nowMs src bytes =>
    obtain hpresent | ⟨loaded, seg, hfresh⟩ := (step_received h).follows hrt hs'
    · exact .inl hpresent
    · exact .inr ⟨src, loaded, seg, hfresh⟩
  | pollTimers nowMs limit =>
    obtain ⟨rfl, rfl⟩ := step_polled h
    obtain ⟨s, seg, hs, hcalls, hgives⟩ := fireAll_follows _ hrt hs'
    exact .inl ⟨s, seg, hs, hcalls, hgives⟩
  | sendMessage other payload nowMs =>
    left
    cases sendMessage_sent h with
    | skipped habsent =>
      have hne : other ≠ cid := by
        rintro rfl
        simp [habsent] at hs'
      rw [coreOps, if_neg hne]
      exact ⟨s', [], hs', rfl, fun _ => rfl, fun _ => rfl⟩
    | @visited s called _ _ hs hcall hdrive =>
      have hstep : s.core.step (.call (.send payload)) = some called := hcall
      have hall : AllOf other called.2.output.outboundDatagrams := by
        rw [← (hrt _ _ hs).named]
        exact apply_allOf (k := .send payload) hcall
      by_cases hcid : other = cid
      · subst hcid
        rw [coreOps, if_pos rfl]
        obtain ⟨seg, hfollows⟩ := hdrive.follows _ hstep hall hs'
        exact ⟨s, seg, hs, hfollows⟩
      · have hne := Ne.symm hcid
        have hold : rt.sessions[cid]? = some s' := (hdrive.others cid hne).symm.trans hs'
        rw [coreOps, if_neg hcid]
        exact ⟨s', [], hold, hdrive.passes hall hne s'.core⟩

/-! ### Runs -/

/-- All the calls of the core of `cid` over the given steps. -/
def callsOf (cid : UInt64) (life : ServerHistory σ) : List Core.Op :=
  life.flatMap fun t => coreOps cid t.pre t.input

/-- A machine that started as `m₀` has taken the calls of `cid` in `life` and become `m`, and
the caller has been given what it put out, but for the calls in which the store failed. -/
structure RunsAlone (cid : UInt64) (life : ServerHistory σ) (m₀ m : CoreMachine) (hc : History) :
    Prop where
  calls : exec CoreMachine.step m₀ (callsOf cid life) = some (hc, m)
  events : (life.flatMap fun t => eventsOf cid t.output).Sublist (told hc)
  datagrams : (life.flatMap fun t => datagramsOf cid t.output).Sublist (said hc)
  allEvents : (∀ t ∈ life, ¬ storeFailed t.output) →
    (life.flatMap fun t => eventsOf cid t.output) = told hc
  allDatagrams : (∀ t ∈ life, ¬ storeFailed t.output) →
    (life.flatMap fun t => datagramsOf cid t.output) = said hc

namespace RunsAlone
variable {life : ServerHistory σ} {m₀ m m' : CoreMachine} {hc seg : History}
  {t : Taken (ServerRuntime σ) Op RuntimeResult}

theorem made (h : Follows cid (coreOps cid t.pre t.input) t.output m₀ m seg) :
    RunsAlone cid [t] m₀ m seg where
  calls := by simpa [callsOf] using h.calls
  events := by simpa using h.gives.sublist.1
  datagrams := by simpa using h.gives.sublist.2
  allEvents := fun hok => by simpa using h.gives.events (hok t (by simp))
  allDatagrams := fun hok => by simpa using h.gives.datagrams (hok t (by simp))

theorem snoc (hr : RunsAlone cid life m₀ m hc)
    (h : Follows cid (coreOps cid t.pre t.input) t.output m m' seg) :
    RunsAlone cid (life ++ [t]) m₀ m' (hc ++ seg) := by
  have hold : (∀ t' ∈ life ++ [t], ¬ storeFailed t'.output) → ∀ t' ∈ life, ¬ storeFailed t'.output :=
    fun hok t' ht' => hok t' (List.mem_append_left _ ht')
  refine ⟨?_, ?_, ?_, fun hok => ?_, fun hok => ?_⟩
  · rw [callsOf, List.flatMap_append, List.flatMap_singleton]
    exact exec_append hr.calls h.calls
  · rw [List.flatMap_append, List.flatMap_singleton, told_append]
    exact hr.events.append h.gives.sublist.1
  · rw [List.flatMap_append, List.flatMap_singleton, said_append]
    exact hr.datagrams.append h.gives.sublist.2
  · rw [List.flatMap_append, List.flatMap_singleton, told_append,
      hr.allEvents (hold hok), h.gives.events (hok t (by simp))]
  · rw [List.flatMap_append, List.flatMap_singleton, said_append,
      hr.allDatagrams (hold hok), h.gives.datagrams (hok t (by simp))]

end RunsAlone

end Base

/-- Two clients, a message of the first, and a poll at which the timers of both are due. -/
def mixedCalls : List Op :=
  [.datagram 0 1 ((Packet.control .clientHello).bytes 7),
    .datagram 1 2 ((Packet.control .clientHello).bytes 8),
    .datagram 2 1 ((Packet.data 1 [10] 0 2).bytes 7), .sendMessage 8 [20] 3,
    .pollTimers 9000 16]

end Todero.Server
