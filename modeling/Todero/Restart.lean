import Todero.Records
import Todero.Returned

/-! A restart: a new runtime on the store an old one has left, and where the sessions it
makes begin to count. -/
namespace Todero.Server
open Todero.Wire Todero.Core Todero.Store Transition

section Restart
variable {σ : Type} [SessionStore σ] [Base64] {rt rt' rt'' : ServerRuntime σ} {cid : UInt64}
  {s : SessionRuntime} {src : UInt32} {nowMs : UInt64}

/-- After a call that succeeds the record of a session has got as far as the session. -/
theorem stored_position [LawfulSessionStore σ] {op : Op} {res : RuntimeResult}
    (h : rt.step op = some (rt', res)) (hok : res.isOk) (htouch : touches cid ⟨rt, op, res, rt'⟩)
    (hs : rt'.sessions[cid]? = some s) :
    (LawfulSessionStore.stored rt'.store cid).map SessionRecord.lastOrderedRx =
      some s.core.lastOrderedRx := by
  rw [step_recorded h hok htouch s hs]
  rfl

omit [Base64] in
theorem ensureSessionLoaded_new {cfg : CoreConfig} {store : σ} {loaded : Option VersionedRecord}
    (hload : (SessionStore.load store cid nowMs).2 = .ok loaded) :
    ((ServerRuntime.new cfg store).ensureSessionLoaded cid src nowMs).1.sessions[cid]? =
      some (freshSession cfg cid src loaded) := by
  obtain ⟨e, rt', -, -, herr, -⟩ | ⟨s, rt', heq, hs, henter⟩ :=
    ensureSessionLoaded_cases (ServerRuntime.new cfg store) cid src nowMs
  · have hload' : (SessionStore.load (ServerRuntime.new cfg store).store cid nowMs).2 =
      .ok loaded := hload
    simp [hload'] at herr
  · rw [heq]
    cases henter with
    | present hs₀ => simp [ServerRuntime.new] at hs₀
    | @fresh loaded' _ _ hload' =>
      obtain rfl : loaded = loaded' := Except.ok.inj (hload.symm.trans hload')
      exact hs

/-! ### The client starts over -/

/-- Nothing is waiting for an earlier message. -/
structure CaughtUp (r : Rx) : Prop where
  ok : r.Ok
  empty : ∀ k : Nat, r.buffer[k]? = none

omit [SessionStore σ] [Base64] in
/-- The next message in order is handed out at once. -/
theorem CaughtUp.next {r : Rx} (h : CaughtUp r) (p : Bytes) :
    CaughtUp (r.arrive (.data (r.last + 1) p)).1 ∧ (r.arrive (.data (r.last + 1) p)).2 = [p] ∧
      (r.arrive (.data (r.last + 1) p)).1.last = r.last + 1 := by
  have hnew : r.last + 1 ∉ r.ids := by
    rw [h.ok.ids_iff, mem_iff_getElem?]
    simp [h.empty]
  have harr := h.ok.arrives (a := .data (r.last + 1) p) trivial
  generalize r.arrive (.data (r.last + 1) p) = out at harr ⊢
  cases harr with
  | known hin => exact absurd hin hnew
  | @data _ _ r' ps _ htakes =>
    have hone : ps = [p] := by
      cases ps with
      | nil =>
        have hstuck := htakes.ok.stuck
        rw [htakes.last, htakes.buffer] at hstuck
        simp at hstuck
      | cons q qs =>
        have hq := htakes.freed 0 q rfl
        cases qs with
        | nil => simpa using hq.symm
        | cons q' qs =>
          have hq' := htakes.freed 1 q' rfl
          simp [h.empty] at hq'
    subst hone
    refine ⟨⟨htakes.ok, fun k => ?_⟩, rfl, htakes.last⟩
    rw [htakes.buffer, h.empty]
    split_ifs with hle hk
    · rfl
    · simp only [List.length_singleton] at hle
      omega
    · rfl

/-- The session of `cid` is open and has handed out the first `n` messages. -/
def Ready (cid : UInt64) (n : Nat) (rt : ServerRuntime σ) : Prop :=
  ∃ s, rt.sessions[cid]? = some s ∧ s.core.cid = cid ∧ s.core.state = .established ∧
    s.core.lastOrderedRx = n ∧ CaughtUp s.core.rx

theorem Received.opened {cfg : CoreConfig} {store : σ} {res : RuntimeResult}
    (h : Received (ServerRuntime.new cfg store) nowMs src
      ((Packet.control .clientHello).bytes cid) rt' res)
    (hok : res.isOk) : Ready cid 0 rt' ∧ returned cid res = [] := by
  have hdec : WireFrame.decode ((Packet.control .clientHello).bytes cid) =
      .ok ((Packet.control .clientHello).frame cid) := Packet.decode_bytes (Nat.zero_le _) cid
  cases h with
  | undecodable herr => simp [hdec] at herr
  | unloaded => simp [Except.isOk, Except.toBool] at hok
  | @visited frame s rt₁ _ res' hd henter hdrive =>
    obtain rfl : _ = frame := Except.ok.inj (hdec.symm.trans hd)
    have hcid : ((Packet.control .clientHello).frame cid).cid = cid := rfl
    rw [hcid] at henter hdrive
    rw [returned_map]
    cases henter with
    | present hs => simp [ServerRuntime.new] at hs
    | @fresh loaded _ _ _ _ _ _ _ =>
      obtain ⟨cfg', hcore⟩ := freshSession_core (ServerRuntime.new cfg store).cfg cid src loaded
      generalize freshSession (ServerRuntime.new cfg store).cfg cid src loaded = s at hdrive hcore
      have hname : s.core.cid = cid := by rw [hcore]; rfl
      have hrole : s.core.role = .server := by rw [hcore]; rfl
      have hstate : s.core.state = .preHandshake := by rw [hcore]; rfl
      have hrx : s.core.rx = Rx.empty := by rw [hcore]; rfl
      have hreact := packet_reaction s.core nowMs src (p := .control .clientHello) (Nat.zero_le _)
      have harr := packet_arrival s.core (p := .control .clientHello) (Nat.zero_le _)
      rw [hname] at hreact harr
      obtain ⟨hfixed, hrx', hdel, -, -⟩ := onDatagram_effect s.core nowMs src
        ((Packet.control .clientHello).bytes cid)
      rw [harr, if_neg (by simp [hstate])] at hrx' hdel
      have hopen : (Core.onDatagram s.core nowMs src
          ((Packet.control .clientHello).bytes cid)).1.state = .established := by
        rw [hreact.state, CoreMachine.stateOn, if_pos ⟨hrole, hstate⟩]
      obtain ⟨s', hs', hcore'⟩ := hdrive.stays (by simp [hopen])
      refine ⟨⟨s', hs', ?_, ?_, ?_, ?_⟩, hdrive.returns_nothing hdel⟩
      · rw [hcore']
        exact (congrArg Fixed.cid hfixed).trans hname
      · rw [hcore', hopen]
      · rw [hcore']
        exact (congrArg Rx.last hrx').trans (congrArg Rx.last hrx)
      · rw [hcore', hrx']
        exact ⟨hrx ▸ Rx.empty_ok, by simp [Rx.arriveOpt, hrx, Rx.empty]⟩

theorem Received.next {n : Nat} {p : Bytes} {res : RuntimeResult} (hready : Ready cid n rt)
    (hn : n + 1 < 2 ^ 64) (hp : (Packet.data (n + 1) p 0 0).Small)
    (h : Received rt nowMs src ((Packet.data (n + 1) p 0 0).bytes cid) rt' res)
    (hok : res.isOk) : Ready cid (n + 1) rt' ∧ returned cid res = [n + 1] := by
  have hdec : WireFrame.decode ((Packet.data (n + 1) p 0 0).bytes cid) =
      .ok ((Packet.data (n + 1) p 0 0).frame cid) := Packet.decode_bytes hp cid
  obtain ⟨s, hs, hname, hest, hlast, hcaught⟩ := hready
  cases h with
  | undecodable herr => simp [hdec] at herr
  | unloaded => simp [Except.isOk, Except.toBool] at hok
  | @visited frame s₀ rt₁ _ res' hd henter hdrive =>
    obtain rfl : _ = frame := Except.ok.inj (hdec.symm.trans hd)
    have hcid : ((Packet.data (n + 1) p 0 0).frame cid).cid = cid := rfl
    rw [hcid] at henter hdrive
    have hok' : res'.isOk := by
      cases res' with
      | error e => simp [Except.isOk, Except.toBool, Except.map] at hok
      | ok out => rfl
    rw [returned_map]
    cases henter with
    | fresh habsent => simp [hs] at habsent
    | present hs₀ =>
      obtain rfl : s = s₀ := Option.some.inj (hs.symm.trans hs₀)
      have hreact := packet_reaction s.core nowMs src hp
      have harr := packet_arrival s.core hp
      have hid : (Packet.data (n + 1) p 0 0).arrival = some (.data (n + 1) p) := by
        rw [Packet.arrival, Nat.mod_eq_of_lt hn]
      rw [hname] at hreact harr
      rw [if_pos hest, hid] at harr
      obtain ⟨hfixed, hrx', hdel, -, -⟩ := onDatagram_effect s.core nowMs src
        ((Packet.data (n + 1) p 0 0).bytes cid)
      obtain ⟨hnext, hout, hlast'⟩ := hcaught.next p
      have hrxlast : s.core.rx.last = n := hlast
      rw [hrxlast] at hnext hout hlast'
      rw [harr, Rx.arriveOpt, hout, hlast] at hdel
      rw [harr, Rx.arriveOpt] at hrx'
      have hopen : (Core.onDatagram s.core nowMs src
          ((Packet.data (n + 1) p 0 0).bytes cid)).1.state = .established := by
        rw [hreact.state, CoreMachine.stateOn, wokenState_of_established _ hest]
      obtain ⟨s', hs', hcore'⟩ := hdrive.stays (by simp [hopen])
      refine ⟨⟨s', hs', ?_, ?_, ?_, ?_⟩, ?_⟩
      · rw [hcore']
        exact (congrArg Fixed.cid hfixed).trans hname
      · rw [hcore', hopen]
      · rw [hcore']
        exact (congrArg Rx.last hrx').trans hlast'
      · rw [hcore', hrx']
        exact hnext
      · rw [hdrive.returned, if_pos ⟨rfl, hok'⟩, receivedIds_of_deliveries hdel]
        rfl

/-- The client's messages from `id` on, in order. -/
def messages (cid : UInt64) (src : UInt32) (nowMs : UInt64) : Nat → List Bytes → List Op
  | _, [] => []
  | id, p :: ps =>
    .datagram nowMs src ((Packet.data id p 0 0).bytes cid) :: messages cid src nowMs (id + 1) ps

/-- The client shakes hands and is pulled from the start. -/
def conversation (cid : UInt64) (src : UInt32) (nowMs : UInt64) (ps : List Bytes) : List Op :=
  .datagram nowMs src ((Packet.control .clientHello).bytes cid) :: messages cid src nowMs 1 ps

theorem exec_cons {op : Op} {ops : List Op} {h : ServerHistory σ}
    (hexec : exec ServerRuntime.step rt (op :: ops) = some (h, rt'')) :
    ∃ rt' res h', rt.step op = some (rt', res) ∧
      exec ServerRuntime.step rt' ops = some (h', rt'') ∧ h = ⟨rt, op, res, rt'⟩ :: h' := by
  cases hs : rt.step op with
  | none => simp [exec, hs] at hexec
  | some x =>
    obtain ⟨rt', res⟩ := x
    simp only [exec, hs, Option.map_eq_some_iff, Prod.mk.injEq] at hexec
    obtain ⟨⟨h', rt₂⟩, htail, rfl, rfl⟩ := hexec
    exact ⟨rt', res, h', rfl, htail, rfl⟩

theorem messages_returned {n : Nat} {ps : List Bytes} {h : ServerHistory σ}
    (hready : Ready cid n rt) (hn : n + ps.length < 2 ^ 64)
    (hsmall : ∀ p ∈ ps, 8 + p.length ≤ maxDataPayloadPerFrame)
    (hexec : exec ServerRuntime.step rt (messages cid src nowMs (n + 1) ps) = some (h, rt'))
    (hok : ∀ t ∈ h, t.output.isOk) :
    (h.flatMap fun t => returned cid t.output) = List.range' (n + 1) ps.length := by
  induction ps generalizing n rt h with
  | nil =>
    obtain ⟨rfl, -⟩ := Prod.mk.inj (Option.some.inj hexec)
    rfl
  | cons p ps ih =>
    obtain ⟨rt₁, res, h', hs, htail, rfl⟩ := exec_cons hexec
    obtain ⟨hp, hps⟩ := List.forall_mem_cons.mp hsmall
    obtain ⟨hfirst, hrest⟩ := List.forall_mem_cons.mp hok
    rw [List.length_cons] at hn
    have hpacket : (Packet.data (n + 1) p 0 0).Small := by
      simpa [Packet.Small, Packet.payload] using hp
    have heq : rt.onDatagram nowMs src ((Packet.data (n + 1) p 0 0).bytes cid) = (rt₁, res) :=
      Option.some.inj hs
    have hreceived := onDatagram_received rt nowMs src ((Packet.data (n + 1) p 0 0).bytes cid)
    rw [heq] at hreceived
    obtain ⟨hnext, hret⟩ := hreceived.next hready (by omega) hpacket hfirst
    rw [List.flatMap_cons, hret, ih hnext (by omega) hps htail hrest, List.length_cons,
      List.range'_succ]
    rfl

/-- Where a session of a new runtime begins to count, whatever the old runtime has put into
the store: at the record's position only if that is the start. And the client's messages
from the start on are given out, as often as the runtime is made anew. -/
theorem restart_position_iff {cfg : CoreConfig} {store : σ} {v : VersionedRecord}
    (hlive : (SessionStore.load store cid nowMs).2 = .ok (some v)) (src : UInt32) :
    ((∃ s, ((ServerRuntime.new cfg store).ensureSessionLoaded cid src nowMs).1.sessions[cid]? =
        some s ∧ s.core.lastOrderedRx = v.record.lastOrderedRx) ↔ v.record.lastOrderedRx = 0) ∧
    ∀ (ps : List Bytes) (h : ServerHistory σ) (rt : ServerRuntime σ),
      ps.length < 2 ^ 64 → (∀ p ∈ ps, 8 + p.length ≤ maxDataPayloadPerFrame) →
      exec ServerRuntime.step (ServerRuntime.new cfg store) (conversation cid src nowMs ps) =
        some (h, rt) → (∀ t ∈ h, t.output.isOk) →
      (h.flatMap fun t => returned cid t.output) = List.range' 1 ps.length := by
  constructor
  · rw [ensureSessionLoaded_new hlive]
    simp only [Option.some.injEq, exists_eq_left']
    exact eq_comm
  · intro ps h rt hlen hsmall hexec hok
    obtain ⟨rt₁, res, h', hs, htail, rfl⟩ := exec_cons hexec
    obtain ⟨hfirst, hrest⟩ := List.forall_mem_cons.mp hok
    have heq : (ServerRuntime.new cfg store).onDatagram nowMs src
        ((Packet.control .clientHello).bytes cid) = (rt₁, res) := Option.some.inj hs
    have hreceived := onDatagram_received (ServerRuntime.new cfg store) nowMs src
      ((Packet.control .clientHello).bytes cid)
    rw [heq] at hreceived
    obtain ⟨hready, hret⟩ := hreceived.opened hfirst
    rw [List.flatMap_cons, hret, List.nil_append]
    exact messages_returned hready (by omega) hsmall htail hrest

end Restart

/-- The store has a live record of `cid` that has got up to `position`. -/
def recordAt {σ : Type} [SessionStore σ] (store : σ) (cid nowMs : UInt64) (position : Nat) :
    Bool :=
  match (SessionStore.load store cid nowMs).2 with
  | .ok (some v) => v.record.lastOrderedRx = position
  | _ => false

theorem exists_record {σ : Type} [SessionStore σ] {store : σ} {cid nowMs : UInt64} {position : Nat}
    (h : recordAt store cid nowMs position) :
    ∃ v, (SessionStore.load store cid nowMs).2 = .ok (some v) ∧
      v.record.lastOrderedRx = position := by
  unfold recordAt at h
  split at h
  · exact ⟨_, by assumption, of_decide_eq_true h⟩
  · simp at h

theorem firstHello_restarted :
    ∃ h rt v, exec ServerRuntime.step defaultServer (conversation 7 1 0 []) = some (h, rt) ∧
      (SessionStore.load rt.store 7 1).2 = .ok (some v) ∧
      ∃ s, ((ServerRuntime.new .default rt.store).ensureSessionLoaded 7 1 1).1.sessions[
        (7 : UInt64)]? = some s ∧ s.core.lastOrderedRx = v.record.lastOrderedRx := by
  have hsome : (exec ServerRuntime.step defaultServer (conversation 7 1 0 [])).any fun x =>
      recordAt x.2.store 7 1 0 := by
    decide +kernel
  obtain ⟨⟨h, rt⟩, hexec, hload⟩ := (Option.any_eq_true _ _).mp hsome
  obtain ⟨v, hlive, hzero⟩ := exists_record hload
  exact ⟨h, rt, v, hexec, hlive, (restart_position_iff hlive 1).1.mpr hzero⟩

/-- A client sends one message, and after a restart starts over. -/
theorem oneMessage_twice :
    ∃ h rt v, Run ServerRuntime.step defaultServer h rt ∧
      (SessionStore.load rt.store 7 1).2 = .ok (some v) ∧
      (¬ ∃ s, ((ServerRuntime.new .default rt.store).ensureSessionLoaded 7 1 1).1.sessions[
        (7 : UInt64)]? = some s ∧ s.core.lastOrderedRx = v.record.lastOrderedRx) ∧
      1 ∈ (h.flatMap fun t => returned 7 t.output) ∧
      ∃ h' rt', Run ServerRuntime.step (ServerRuntime.new .default rt.store) h' rt' ∧
        1 ∈ h'.flatMap fun t => returned 7 t.output := by
  have hsome : (exec ServerRuntime.step defaultServer (conversation 7 1 0 [[10]])).any fun x =>
      recordAt x.2.store 7 1 1 && (x.1.flatMap fun t => returned 7 t.output).contains 1 &&
      (exec ServerRuntime.step (ServerRuntime.new .default x.2.store)
        (conversation 7 1 1 [[10]])).any fun y =>
          (y.1.flatMap fun t => returned 7 t.output).contains 1 := by
    decide +kernel
  obtain ⟨⟨h, rt⟩, hexec, hall⟩ := (Option.any_eq_true _ _).mp hsome
  simp only [Bool.and_eq_true] at hall
  obtain ⟨⟨hload, hfirst⟩, hagain⟩ := hall
  obtain ⟨⟨h', rt'⟩, hexec', hsecond⟩ := (Option.any_eq_true _ _).mp hagain
  obtain ⟨v, hlive, hone⟩ := exists_record hload
  refine ⟨h, rt, v, Run.of_exec hexec, hlive, ?_, List.contains_iff_mem.mp hfirst, h', rt',
    Run.of_exec hexec', List.contains_iff_mem.mp hsecond⟩
  rw [ensureSessionLoaded_new hlive, hone]
  rintro ⟨s, hs, hlast⟩
  rw [← Option.some.inj hs] at hlast
  exact Nat.zero_ne_one hlast

end Todero.Server
