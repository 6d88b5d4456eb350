import Todero.Alone
import Todero.Disconnects
import Todero.Lib.Tally

/-! What the counters of the server runtime say about what it has returned. They count when
the core has been called, before the store is written, so they never fall short, and are
exact where the store does not fail. -/
namespace Todero.Server
open Todero.Wire Todero.Core Todero.Store Transition Tally

/-- The counters of events and datagrams. -/
inductive Counter where
  | parseErrors
  | handshakeStarted
  | handshakeEstablished
  | reactivated
  | msrProbeSent
  | msrMissedInferred
  | requestRangeSent
  | msrSent
  | dataSent
  deriving DecidableEq, Repr

def ServerRuntimeMetrics.read (m : ServerRuntimeMetrics) : Counter → UInt64
  | .parseErrors => m.parseErrors
  | .handshakeStarted => m.handshakeStarted
  | .handshakeEstablished => m.handshakeEstablished
  | .reactivated => m.reactivated
  | .msrProbeSent => m.msrProbeSent
  | .msrMissedInferred => m.msrMissedInferred
  | .requestRangeSent => m.requestRangeSent
  | .msrSent => m.msrSent
  | .dataSent => m.dataSent

namespace Counter
variable (c : Counter)

def ofEvent (event : Event) : Nat :=
  match c, event with
  | .handshakeStarted, .handshakeStarted => 1
  | .handshakeEstablished, .handshakeEstablished => 1
  | .reactivated, .reactivated => 1
  | .msrProbeSent, .reactivationProbeSent => 1
  | .msrMissedInferred, .reactivationProbeSent => 1
  | .requestRangeSent, .requestRangeSent _ _ => 1
  | _, _ => 0

def ofType (messageType : MessageType) : Nat :=
  match c, messageType with
  | .msrSent, .msr => 1
  | .dataSent, .data => 1
  | _, _ => 0

def ofRuntimeEvent : RuntimeEvent → Nat
  | .parseError => if c = .parseErrors then 1 else 0
  | .coreEvent _ event => c.ofEvent event
  | .vhostPathBound _ _ _ | .messageReceived _ _ _ => 0

def ofDatagram (d : OutboundDatagram) : Nat :=
  match WireFrame.decode d.bytes with
  | .error _ => 0
  | .ok frame => c.ofType frame.messageType

/-- What a call has returned of the counter's kind. -/
def ofResult : RuntimeResult → Nat
  | .error _ => 0
  | .ok out => (out.events.map c.ofRuntimeEvent).sum + (out.outboundDatagrams.map c.ofDatagram).sum

end Counter

/-- From `rt` to `rt'` a counter has gone up by `k`, or more where the store has failed. -/
abbrev Counts (c : Counter) (exact : Prop) (rt rt' : ServerRuntimeMetrics) (k : Nat) : Prop :=
  Moved u64Max exact (rt.read c).toNat k (rt'.read c).toNat

/-! ### One call -/

theorem not_failed_of_isOk {res : RuntimeResult} (hok : res.isOk) : ¬ storeFailed res := by
  cases res with
  | ok out => exact fun hfail => hfail
  | error e => cases hok

section Calls
variable {σ : Type} {c : Counter} {p : Prop} {rt rt' : ServerRuntime σ} {cid : UInt64}
  {src : UInt32} {nowMs : UInt64} {res : RuntimeResult}

theorem read_le (m : ServerRuntimeMetrics) (c : Counter) : (m.read c).toNat ≤ u64Max :=
  Nat.le_of_lt_succ (m.read c).toNat_lt

theorem bump_moved (n : UInt64) : Moved u64Max p n.toNat 1 (bump n).toNat := by
  rw [bump_toNat]
  exact .bumped 1

theorem observeCoreEvent_counts (c : Counter) (m : ServerRuntimeMetrics) (event : Event) :
    Counts c p m (observeCoreEvent m event) (c.ofEvent event) := by
  cases event <;> cases c <;> first | exact .still (read_le _ _) | exact bump_moved _

/-- Retransmissions are not among these counters. -/
theorem read_retransmit (m : ServerRuntimeMetrics) (n : UInt64) (c : Counter) :
    ({ m with dataRetransmitInferred := n } : ServerRuntimeMetrics).read c = m.read c := by
  cases c <;> rfl

theorem observeDatagram_counts (c : Counter) (cid : UInt64) (rt : ServerRuntime σ)
    (d : OutboundDatagram) :
    Counts c p rt.metrics (rt.observeDatagram cid d).metrics (c.ofDatagram d) := by
  unfold ServerRuntime.observeDatagram Counter.ofDatagram
  cases hdec : WireFrame.decode d.bytes with
  | error e => exact .still (read_le _ _)
  | ok frame =>
    dsimp only
    cases htype : frame.messageType with
    | msr => cases c <;> first | exact .still (read_le _ _) | exact bump_moved _
    | data =>
      have hsent : Counts c p rt.metrics
          { rt.metrics with dataSent := bump rt.metrics.dataSent } (c.ofType .data) := by
        cases c <;> first | exact .still (read_le _ _) | exact bump_moved _
      dsimp only
      split_ifs
      · split
        · exact hsent
        · split_ifs
          · rw [Counts, read_retransmit]
            exact hsent
          · exact hsent
      · exact hsent
    | _ => cases c <;> exact .still (read_le _ _)

theorem observeDatagrams_counts (c : Counter) (cid : UInt64) (ds : List OutboundDatagram)
    (rt : ServerRuntime σ) :
    Counts c p rt.metrics (rt.observeDatagrams cid ds).metrics (ds.map c.ofDatagram).sum :=
  foldl_moved (fun rt : ServerRuntime σ => (rt.metrics.read c).toNat) (fun _ => read_le _ _)
    (observeDatagram_counts c cid) ds rt

theorem observed_counts (c : Counter) (events : List Event) (m : ServerRuntimeMetrics) :
    Counts c p m (events.foldl observeCoreEvent m) (events.map c.ofEvent).sum :=
  foldl_moved (fun m : ServerRuntimeMetrics => (m.read c).toNat) (fun _ => read_le _ _)
    (observeCoreEvent_counts c) events m

variable [SessionStore σ]

theorem ensureSessionLoaded_read (rt : ServerRuntime σ) (cid : UInt64) (src : UInt32)
    (nowMs : UInt64) (c : Counter) :
    (rt.ensureSessionLoaded cid src nowMs).1.metrics.read c = rt.metrics.read c := by
  unfold ServerRuntime.ensureSessionLoaded
  split_ifs
  · rfl
  · dsimp only
    split
    · cases c <;> rfl
    · unfold ServerRuntime.updatePeakSessionsMetric
      split_ifs <;> cases c <;> rfl

theorem persist_read (rt : ServerRuntime σ) (cid nowMs : UInt64) (c : Counter) :
    (rt.persist cid nowMs).1.metrics.read c = rt.metrics.read c := by
  unfold ServerRuntime.persist
  split
  · rfl
  · split_ifs
    · dsimp only
      split <;> cases c <;> rfl
    · dsimp only
      split <;> cases c <;> rfl

variable [Base64]

omit [SessionStore σ] in
theorem runtimeEvents_counts (c : Counter) (cid : UInt64) (events : List Event) :
    ((ServerRuntime.runtimeEvents cid events).map c.ofRuntimeEvent).sum =
      (events.map c.ofEvent).sum := by
  induction events with
  | nil => rfl
  | cons event events ih =>
    have hcons : ServerRuntime.runtimeEvents cid (event :: events) =
        ServerRuntime.runtimeEvents cid [event] ++ ServerRuntime.runtimeEvents cid events := by
      simp [ServerRuntime.runtimeEvents]
    rw [hcons, List.map_append, List.sum_append, ih, List.map_cons, List.sum_cons]
    congr 1
    cases event <;> simp [ServerRuntime.runtimeEvents, Counter.ofRuntimeEvent]

/-- A call of a core counts what the core has put out, and returns it unless the store
fails. -/
theorem drive_counts_returned (c : Counter) (rt : ServerRuntime σ) (cid : UInt64)
    (s : SessionRuntime) (src : UInt32) (nowMs : UInt64) (called : CoreMachine × CallResult) :
    Counts c (¬ storeFailed (rt.drive cid s src nowMs called).2) rt.metrics
      (rt.drive cid s src nowMs called).1.metrics
      (c.ofResult (rt.drive cid s src nowMs called).2) := by
  obtain ⟨core, res⟩ := called
  cases res with
  | error e => exact .still (read_le _ _)
  | ok out =>
    -- the runtime once the events have been observed and the timers taken in
    let rt₁ := ({ rt with
      sessions := rt.sessions.insert cid { s with core := core }
      metrics := out.events.foldl observeCoreEvent rt.metrics } : ServerRuntime σ).ingestTimers cid
        out.timerActions
    let datagrams := out.outboundDatagrams.map (ServerRuntime.redirect src)
    have hevents : Counts c True rt.metrics rt₁.metrics (out.events.map c.ofEvent).sum :=
      observed_counts c out.events rt.metrics
    have hboth := hevents.trans (observeDatagrams_counts c cid datagrams rt₁)
    rw [← persist_read (rt₁.observeDatagrams cid datagrams) cid nowMs c] at hboth
    cases hres : ((rt₁.observeDatagrams cid datagrams).persist cid nowMs).2 with
    | error e =>
      have hfail : (rt.drive cid s src nowMs (core, .ok out)).2 = .error (.store e) := by
        simp only [rt₁, datagrams] at hres
        simp only [ServerRuntime.drive, ServerRuntime.applyCoreOutput, hres]
      rw [hfail]
      exact hboth.unsaid fun hstored => hstored trivial
    | ok u =>
      have hdone : (rt.drive cid s src nowMs (core, .ok out)).2 =
          .ok ⟨datagrams, ServerRuntime.runtimeEvents cid out.events⟩ := by
        simp only [rt₁, datagrams] at hres
        simp only [ServerRuntime.drive, ServerRuntime.applyCoreOutput, hres, datagrams]
      rw [hdone, Counter.ofResult, runtimeEvents_counts]
      exact hboth.imp fun _ => trivial

theorem fire_counts_returned (c : Counter) (nowMs : UInt64) (rt : ServerRuntime σ)
    (due : DueTimer) :
    Counts c (¬ storeFailed (rt.fire nowMs due).2) rt.metrics (rt.fire nowMs due).1.metrics
      (c.ofResult (rt.fire nowMs due).2) := by
  unfold ServerRuntime.fire
  dsimp only
  split
  · exact .still (read_le _ _)
  · exact drive_counts_returned c _ _ _ _ _ _

omit [SessionStore σ] [Base64] in
theorem ofResult_append (c : Counter) (out out' : ServerRuntimeOutput) :
    c.ofResult (.ok ⟨out.outboundDatagrams ++ out'.outboundDatagrams, out.events ++ out'.events⟩) =
      c.ofResult (.ok out) + c.ofResult (.ok out') := by
  simp only [Counter.ofResult, List.map_append, List.sum_append]
  omega

/-- The entries of a poll add up in what it returns. -/
theorem fireAll_counts_returned (c : Counter) (nowMs : UInt64) (dues : List DueTimer)
    {rt : ServerRuntime σ} {n : UInt64} {output : ServerRuntimeOutput}
    (hstart : Moved u64Max True n.toNat (c.ofResult (.ok output)) (rt.metrics.read c).toNat) :
    Moved u64Max (¬ storeFailed (ServerRuntime.fireAll nowMs rt dues output).2) n.toNat
      (c.ofResult (ServerRuntime.fireAll nowMs rt dues output).2)
      ((ServerRuntime.fireAll nowMs rt dues output).1.metrics.read c).toNat := by
  induction dues generalizing rt output with
  | nil => exact hstart.imp fun _ => trivial
  | cons due rest ih =>
    have hfire := fire_counts_returned c nowMs rt due
    have hfired := fire_fired nowMs rt due
    rw [ServerRuntime.fireAll]
    cases hf : rt.fire nowMs due with
    | mk rt₁ res₁ =>
      rw [hf] at hfire hfired
      cases res₁ with
      | error e =>
        have hfail : ¬ ¬ storeFailed (.error e) := not_not.mpr hfired.error_store
        exact (hstart.unsaid hfail).trans hfire
      | ok partOut =>
        refine ih ?_
        rw [ofResult_append]
        exact hstart.trans (hfire.imp fun _ hfail => hfail)

omit [SessionStore σ] [Base64] in
theorem storeFailed_map (res : RuntimeResult) (f : ServerRuntimeOutput → ServerRuntimeOutput) :
    storeFailed (res.map f) ↔ storeFailed res := by
  cases res <;> exact Iff.rfl

omit [SessionStore σ] [Base64] in
/-- A bound path is told of without being counted. -/
theorem ofResult_pathBound (c : Counter) (s : SessionRuntime) (cid : UInt64) (src : UInt32)
    (res : RuntimeResult) :
    c.ofResult (res.map fun out => { out with events := s.pathBound cid src ++ out.events }) =
      c.ofResult res := by
  have hbound : ((s.pathBound cid src).map c.ofRuntimeEvent).sum = 0 := by
    unfold SessionRuntime.pathBound
    split
    · split_ifs <;> rfl
    · rfl
  cases res with
  | error e => rfl
  | ok out =>
    simp only [Except.map, Counter.ofResult, List.map_append, List.sum_append, hbound, Nat.zero_add]

theorem onDatagram_counts_returned (c : Counter) (rt : ServerRuntime σ) (nowMs : UInt64)
    (src : UInt32) (bytes : Bytes) :
    Counts c (¬ storeFailed (rt.onDatagram nowMs src bytes).2) rt.metrics
      (rt.onDatagram nowMs src bytes).1.metrics (c.ofResult (rt.onDatagram nowMs src bytes).2) := by
  cases hdec : WireFrame.decode bytes with
  | error e =>
    simp only [ServerRuntime.onDatagram, hdec]
    cases c <;> first | exact .still (read_le _ _) | exact bump_moved _
  | ok frame =>
    have hensure := ensureSessionLoaded_read rt frame.cid src nowMs c
    obtain ⟨e, rt₁, heq, -⟩ | ⟨s, rt₁, heq, hs, -⟩ :=
      ensureSessionLoaded_cases rt frame.cid src nowMs
    · have hcall : rt.onDatagram nowMs src bytes = (rt₁, .error (.store e)) := by
        simp only [ServerRuntime.onDatagram, hdec, heq]
      rw [heq] at hensure
      rw [hcall, Counts, hensure]
      exact .still (read_le _ _)
    · have hcall : rt.onDatagram nowMs src bytes =
          ((rt₁.drive frame.cid s src nowMs (Core.onDatagram s.core nowMs src bytes)).1,
            (rt₁.drive frame.cid s src nowMs (Core.onDatagram s.core nowMs src bytes)).2.map
              fun out => { out with events := s.pathBound frame.cid src ++ out.events }) := by
        simp only [ServerRuntime.onDatagram, hdec, heq, hs]
      have hdrive := drive_counts_returned c rt₁ frame.cid s src nowMs
        (Core.onDatagram s.core nowMs src bytes)
      rw [heq] at hensure
      rw [Counts, hensure] at hdrive
      rw [hcall, ofResult_pathBound]
      exact hdrive.imp fun hok hfail => hok ((storeFailed_map _ _).mpr hfail)

theorem step_counts_returned (c : Counter) {op : Op} (hstep : rt.step op = some (rt', res)) :
    Counts c (¬ storeFailed res) rt.metrics rt'.metrics (c.ofResult res) := by
  cases op with
  | datagram nowMs src bytes =>
    obtain ⟨rfl, rfl⟩ := Prod.mk.inj (Option.some.inj hstep)
    exact onDatagram_counts_returned c rt nowMs src bytes
  | pollTimers nowMs limit =>
    obtain ⟨rfl, rfl⟩ := Prod.mk.inj (Option.some.inj hstep)
    exact fireAll_counts_returned c nowMs _ (.still (read_le _ _))
  | sendMessage cid payload nowMs =>
    have hsend : rt.sendMessage cid payload nowMs = some (rt', res) := hstep
    unfold ServerRuntime.sendMessage at hsend
    cases hs : rt.sessions[cid]? with
    | none =>
      simp only [hs, Option.some.injEq, Prod.mk.injEq] at hsend
      obtain ⟨rfl, rfl⟩ := hsend
      exact .still (read_le _ _)
    | some s =>
      simp only [hs, Option.map_eq_some_iff] at hsend
      obtain ⟨called, -, heq⟩ := hsend
      have hdrive := drive_counts_returned c rt cid s 0 nowMs called
      rwa [heq] at hdrive

/-- What a run has returned of the counter's kind. -/
def Counter.inRun (c : Counter) (h : ServerHistory σ) : Nat :=
  (h.map fun t => c.ofResult t.output).sum

theorem run_counts_returned (c : Counter) {cfg : CoreConfig} {store : σ} {h : ServerHistory σ}
    (hrun : Run ServerRuntime.step (ServerRuntime.new cfg store) h rt) :
    Moved u64Max (∀ t ∈ h, ¬ storeFailed t.output) 0 (c.inRun h) (rt.metrics.read c).toNat := by
  induction hrun with
  | nil =>
    have hzero : ((ServerRuntime.new cfg store).metrics.read c).toNat = 0 := by cases c <;> rfl
    rw [hzero]
    exact .still (Nat.zero_le _)
  | @snoc h rt rt' op res _ hstep ih =>
    have hmore := step_counts_returned c hstep
    have hsum : c.inRun (h ++ [⟨rt, op, res, rt'⟩]) = c.inRun h + c.ofResult res := by
      simp [Counter.inRun]
    rw [hsum]
    refine (ih.imp fun hall t ht => hall t (List.mem_append_left _ ht)).trans
      (hmore.imp fun hall => ?_)
    exact hall ⟨rt, op, res, rt'⟩ (by simp)

/-- Over any run each counter is at least the number of events or datagrams of its kind that
the caller was given, as far as it can count, and just that where the store never failed. -/
theorem counters_match_returned {cfg : CoreConfig} {store : σ} {h : ServerHistory σ}
    (hrun : Run ServerRuntime.step (ServerRuntime.new cfg store) h rt) (c : Counter) :
    min (c.inRun h) u64Max ≤ (rt.metrics.read c).toNat ∧
      ((∀ t ∈ h, ¬ storeFailed t.output) →
        (rt.metrics.read c).toNat = min (c.inRun h) u64Max) := by
  have hmoved := run_counts_returned c hrun
  exact ⟨by simpa using hmoved.atLeast, fun hall => by simpa using hmoved.exactly hall⟩

end Calls

/-- A client says hello and pulls one message. -/
def pulledMessage : List Op :=
  [.datagram 0 1 ((Packet.control .clientHello).bytes 7), .sendMessage 7 [5] 1,
    .datagram 2 1 ((Packet.requestRange 1 1 0 0).bytes 7), .datagram 3 1 []]

theorem pulledMessage_counted :
    ∃ h rt, exec ServerRuntime.step defaultServer pulledMessage = some (h, rt) ∧
      Counter.dataSent.inRun h = 1 ∧ Counter.parseErrors.inRun h = 1 ∧
      (rt.metrics.read .dataSent).toNat = min (Counter.dataSent.inRun h) u64Max ∧
      (rt.metrics.read .parseErrors).toNat = min (Counter.parseErrors.inRun h) u64Max := by
  have hsome : (exec ServerRuntime.step defaultServer pulledMessage).any fun x =>
      x.1.all (fun t => t.output.isOk) && Counter.dataSent.inRun x.1 == 1 &&
        Counter.parseErrors.inRun x.1 == 1 := by decide +kernel
  obtain ⟨⟨h, rt⟩, hexec, hall⟩ := (Option.any_eq_true _ _).mp hsome
  simp only [Bool.and_eq_true, List.all_eq_true, beq_iff_eq] at hall
  obtain ⟨⟨hok, hsent⟩, herrors⟩ := hall
  have hstore : ∀ t ∈ h, ¬ storeFailed t.output := fun t ht => not_failed_of_isOk (hok t ht)
  exact ⟨h, rt, hexec, hsent, herrors, (counters_match_returned (Run.of_exec hexec) _).2 hstore,
    (counters_match_returned (Run.of_exec hexec) _).2 hstore⟩

end Todero.Server
