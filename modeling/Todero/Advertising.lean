import Todero.Emissions
import Todero.Outgoing

/-! What the MSR signals of a machine say about its outbox. -/
namespace Todero.Core
open Todero.Wire Transition

/-- The `next_pending` of the MSR signal a frame carries: in the payload of an `Msr` frame,
in a TLV of any other. -/
def advertised (frame : WireFrame) : Option Nat :=
  if frame.messageType = .msr then (decodeMsrPayload frame.payload).map Prod.snd
  else (findMsrSignalTlv frame.tlvs).map Prod.snd

/-- Every signal in the output advertises `n`. -/
def CoreOutput.Advertises (n : Nat) (out : CoreOutput) : Prop :=
  ∀ d ∈ out.outboundDatagrams, ∀ frame, WireFrame.decode d.bytes = .ok frame →
    ∀ next, advertised frame = some next → next = n

def Packet.Advertises (n : Nat) (p : Packet) : Prop :=
  ∀ next source, p.signal = some (next, source) → next = n % 2 ^ 64

theorem advertised_frame (p : Packet) (cid : UInt64) :
    advertised (p.frame cid) = p.signal.map Prod.fst := by
  by_cases h : p.messageType = .msr
  · have htype : (p.frame cid).messageType = .msr := h
    rw [advertised, if_pos htype]
    cases p with
    | control t => rfl
    | msr acked next timer =>
      show (decodeMsrPayload (encodeMsrPayload acked next)).map Prod.snd = _
      rw [decodeMsrPayload_encode]
      rfl
    | requestRange | data | fragment => cases h
  · have htype : ¬ (p.frame cid).messageType = .msr := h
    rw [advertised, if_neg htype]
    refine (Packet.find_signal h).trans ?_
    cases p <;> first | rfl | exact absurd rfl h

/-- The output, seen as the packets it is. -/
theorem CoreOutput.advertises_iff {cid : UInt64} {out : CoreOutput} {ps : List Packet}
    (h : out.outboundDatagrams.map OutboundDatagram.bytes = ps.map (Packet.bytes cid))
    (hsmall : ∀ p ∈ ps, p.Small) {n : Nat} (hn : n < 2 ^ 64) :
    out.Advertises n ↔ ∀ p ∈ ps, p.Advertises n := by
  have hbytes : out.Advertises n ↔ ∀ b ∈ out.outboundDatagrams.map OutboundDatagram.bytes,
      ∀ frame, WireFrame.decode b = .ok frame → ∀ next, advertised frame = some next → next = n := by
    simp [CoreOutput.Advertises]
  rw [hbytes, h, List.forall_mem_map]
  refine forall₂_congr fun p hp => ?_
  simp only [Packet.decode_bytes (hsmall p hp), Except.ok.injEq, forall_eq', advertised_frame,
    Option.map_eq_some_iff, Prod.exists, exists_and_right, exists_eq_right, Packet.Advertises,
    Nat.mod_eq_of_lt hn, forall_exists_index]

/-! ### A datagram -/

theorem control_answer {m : CoreMachine} {t : MessageType} {p : Packet}
    (hp : p ∈ m.answers (.control t)) : p.Small ∧ ∀ n, p.Advertises n := by
  cases answer_of_mem hp with
  | serverHello | helloAck => exact ⟨Nat.zero_le _, fun n => nofun⟩

theorem acksFor_advertises {m : CoreMachine} {ts : List TimerTlv} :
    ∀ p ∈ m.acksFor ts, p.Small ∧ p.Advertises m.maxPendingId := by
  induction ts generalizing m with
  | nil => simp [CoreMachine.acksFor]
  | cons t ts ih =>
    intro p hp
    rcases List.mem_append.mp hp with hone | hrest
    · refine ⟨answers_small m _ p hone, fun next source hs => ?_⟩
      cases answer_of_mem hone
      simp only [Packet.signal, Option.some.injEq, Prod.mk.injEq] at hs
      exact hs.1.symm
    · exact ih (m := m.withTimers (m.timers.on t)) p hrest

theorem signalPackets_advertises {m : CoreMachine} {last next : Nat} {source : MsrSource} :
    ∀ p ∈ m.signalPackets last next source, p.Small ∧ p.Advertises m.maxPendingId := by
  intro p hp
  refine ⟨(signalPackets_timer hp).2, fun n s hs => ?_⟩
  rcases mem_signalPackets.mp hp with ⟨-, -, rfl⟩ | ⟨-, rfl⟩ <;>
    simp only [Packet.signal, Option.some.injEq, Prod.mk.injEq] at hs <;> exact hs.1.symm

theorem repliesTo_advertises {m : CoreMachine} {ids : List Nat} {ps : List Packet}
    (h : repliesTo m ids = some ps) : ∀ p ∈ ps, p.Small ∧ p.Advertises m.maxPendingId := by
  intro p hp
  refine ⟨repliesTo_small h p hp, fun next source hs => ?_⟩
  obtain ⟨id, -, qs, hqs, hmem⟩ := (mem_repliesTo h p).mp hp
  obtain ⟨msg, -, ⟨-, rfl⟩ | ⟨-, -, idx, -, rfl⟩⟩ := (mem_replyPackets hqs p).mp hmem <;>
    simp only [Packet.signal, Option.some.injEq, Prod.mk.injEq] at hs <;> exact hs.1.symm

/-- From `c` to `c'` only packets that advertise the outbox of `c` were sent. -/
def Ctx.Announces (c c' : Ctx) : Prop :=
  ∃ ps : List Packet, (∀ p ∈ ps, p.Small ∧ p.Advertises c.self.maxPendingId) ∧
    c'.said = c.said ++ ps.map (Packet.bytes c.self.cid)

namespace Ctx.Announces
variable {c c' c'' : Ctx}

theorem of_said (h : c'.said = c.said) : Announces c c' := ⟨[], by simp, by simp [h]⟩

theorem of_moves {ps : List Packet} {s : LifecycleState} {n : Nat} {t : Timers}
    (h : c.Moves ps s n t c') (hps : ∀ p ∈ ps, p.Small ∧ p.Advertises c.self.maxPendingId) :
    Announces c c' := ⟨ps, hps, h.said⟩

theorem trans (h : Announces c c') (h' : Announces c' c'') (hfixed : c'.self.fixed = c.self.fixed) :
    Announces c c'' := by
  obtain ⟨ps, hps, hsaid⟩ := h
  obtain ⟨qs, hqs, hsaid'⟩ := h'
  have hcid : c'.self.cid = c.self.cid := congrArg Fixed.cid hfixed
  have hmsgs : c'.self.outboundMessages = c.self.outboundMessages :=
    congrArg Fixed.outboundMessages hfixed
  have hmax : c'.self.maxPendingId = c.self.maxPendingId := by
    rw [CoreMachine.maxPendingId, hmsgs, CoreMachine.maxPendingId]
  rw [hmax] at hqs
  refine ⟨ps ++ qs, List.forall_mem_append.mpr ⟨hps, hqs⟩, ?_⟩
  rw [hsaid', hsaid, hcid, List.map_append, List.append_assoc]

variable (nowMs : UInt64) (src : UInt32)

theorem signalled (next : Nat) (source : MsrSource) (c : Ctx) :
    Announces c (c.signalled nowMs src next source) :=
  of_moves (c.signalled_moves nowMs src next source) signalPackets_advertises

theorem piggybacked (frame : WireFrame) (c : Ctx) :
    Announces c (c.piggybacked nowMs src frame) := by
  unfold Ctx.piggybacked
  split_ifs
  · split
    · exact of_said rfl
    · exact signalled nowMs src _ _ c
  · exact of_said rfl

/-- The handler of any frame, when it succeeds. -/
theorem dispatched {frame : WireFrame} (h : dispatch nowMs src frame c = .ok () c') :
    Announces c c' := by
  cases hm : frame.messageType with
  | clientHello =>
    rw [dispatch_clientHello nowMs src c hm] at h
    cases h
    exact of_moves (c.clientHello_moves nowMs src) fun p hp =>
      ⟨(control_answer hp).1, (control_answer hp).2 _⟩
  | serverHello =>
    rw [dispatch_serverHello nowMs src c hm] at h
    cases h
    exact of_moves (c.serverHello_moves nowMs src) fun p hp =>
      ⟨(control_answer hp).1, (control_answer hp).2 _⟩
  | helloAck =>
    rw [dispatch_helloAck nowMs src c hm] at h
    cases h
    exact of_moves (c.helloAck_moves nowMs) (by simp)
  | msr =>
    rw [dispatch_msr nowMs src c hm] at h
    cases hdec : decodeMsrPayload frame.payload with
    | none => simp [handleMsr, hdec, throw_run] at h
    | some d =>
      simp only [handleMsr, hdec, bind_run, handleTimerTlvs_read] at h
      cases hbad : (readTimerTlvs frame.tlvs).2 with
      | some e => simp [hbad] at h
      | none =>
        simp only [hbad, handleMsrSignal_run] at h
        cases h
        have htimed : Announces c (c.timedAll src (readTimerTlvs frame.tlvs).1) :=
          ⟨_, acksFor_advertises, c.timedAll_said src _⟩
        refine htimed.trans (signalled nowMs src _ _ _) ?_
        rw [Ctx.timedAll_self]
        rfl
  | requestRange =>
    rw [dispatch_requestRange nowMs src c hm] at h
    split_ifs at h
    · obtain ⟨-, hrun⟩ | ⟨ps, hrun⟩ | ⟨d, ps, -, hps, hrun⟩ :=
        handleRequestRange_run src frame.payload c <;> rw [hrun] at h <;> cases h
      exact ⟨ps, repliesTo_advertises hps, c.said_sendAll src ps⟩
    · cases h
      exact of_said rfl
  | data =>
    have hrun := dispatch_data nowMs src c hm
    rw [h] at hrun
    split_ifs at hrun with hest
    · by_cases hlen : 8 ≤ frame.payload.length
      · rw [handleData_run c hlen] at hrun
        cases hrun
        exact of_said rfl
      · have hshort : frame.payload.length < 8 := by omega
        simp [handleData, bind_run, hshort, throw_run] at hrun
    · cases hrun
      exact of_said rfl
  | fragment =>
    have hrun := dispatch_fragment nowMs src c hm
    rw [h] at hrun
    split_ifs at hrun with hest
    · by_cases hlen : 12 ≤ frame.payload.length
      · rw [handleFragment_run c hlen] at hrun
        split at hrun <;> split_ifs at hrun <;> cases hrun <;> exact of_said rfl
      · have hshort : frame.payload.length < fragmentHeaderLen := by
          simp only [fragmentHeaderLen]
          omega
        simp [handleFragment, bind_run, hshort, throw_run] at hrun
    · cases hrun
      exact of_said rfl
  | close =>
    rw [dispatch_close nowMs src c (.inl hm)] at h
    cases h
    exact of_moves c.closed_moves (by simp)
  | error =>
    rw [dispatch_close nowMs src c (.inr hm)] at h
    cases h
    exact of_moves c.closed_moves (by simp)

end Ctx.Announces

/-- Whatever a datagram is, every signal sent for it advertises the whole outbox. -/
theorem datagram_advertises (m : CoreMachine) (nowMs : UInt64) (src : UInt32) (bytes : Bytes) :
    ∃ ps : List Packet, (∀ p ∈ ps, p.Small ∧ p.Advertises m.maxPendingId) ∧
      (onDatagram m nowMs src bytes).2.output.outboundDatagrams.map OutboundDatagram.bytes =
        ps.map (Packet.bytes m.cid) := by
  cases hown : ownFrame m bytes with
  | none =>
    obtain ⟨-, hnone⟩ := onDatagram_of_no_frame hown nowMs src
    exact ⟨[], by simp, by simp [hnone]⟩
  | some frame =>
    obtain ⟨hd, hf⟩ := ownFrame_eq_some.mp hown
    rw [onDatagram_run hd hf]
    have heff := dispatch_effect nowMs src frame (Ctx.received nowMs src ⟨m, {}⟩)
    cases hr : dispatch nowMs src frame (Ctx.received nowMs src ⟨m, {}⟩) with
    | error e c => exact ⟨[], by simp, rfl⟩
    | ok a c =>
      rw [hr] at heff
      exact (Ctx.Announces.dispatched nowMs src hr).trans (.piggybacked nowMs src frame c) heff.fixed

/-! ### Every operation -/

/-- A tick of an established server that has messages in its outbox: the MSR it sends says
0, where every other signal says `max_pending_id`. -/
def Op.hidesOutbox (m : CoreMachine) : Op → Bool
  | .call (.timer _ .serverMsr) =>
    m.role = .server && m.state = .established && !m.unanswered && m.maxPendingId ≠ 0
  | _ => false

theorem next_maxPendingId {m : CoreMachine} {k : Call} (h : ∀ payload, k ≠ .send payload) :
    (m.next k).maxPendingId = m.maxPendingId := by
  have hmsgs : (m.next k).outboundMessages = m.outboundMessages :=
    congrArg Fixed.outboundMessages (next_fixed m k h)
  rw [CoreMachine.maxPendingId, hmsgs, CoreMachine.maxPendingId]

theorem utters_advertises {m : CoreMachine} (hlt : m.maxPendingId < 2 ^ 64) (k : Call) :
    (∀ p ∈ m.utters k, p.Advertises (m.next k).maxPendingId) ↔
      (Op.call k).hidesOutbox m = false := by
  have hmsr : ∀ acked n timer, (Packet.msr acked n timer).Advertises n := by
    intro acked n timer next source hs
    simp only [Packet.signal, Option.some.injEq, Prod.mk.injEq] at hs
    exact hs.1.symm
  have hcontrol : ∀ t n, (Packet.control t).Advertises n := by
    intro t n next source hs
    cases hs
  cases k with
  | timer nowMs timerId =>
    rw [next_maxPendingId (by simp)]
    cases timerId with
    | serverMsr =>
      simp only [CoreMachine.utters, Op.hidesOutbox]
      split_ifs with h
      · have hzero : (Packet.msr m.lastOrderedRx 0 none).Advertises m.maxPendingId ↔
            m.maxPendingId = 0 := by
          constructor
          · intro hall
            have hmod := hall 0 .controlMsrFrame rfl
            rw [Nat.mod_eq_of_lt hlt] at hmod
            exact hmod.symm
          · intro hempty
            rw [hempty]
            exact hmsr _ _ _
        simp [h, hzero]
      · simp only [List.not_mem_nil, false_imp_iff, implies_true, true_iff]
        rw [← Bool.not_eq_true]
        simp only [Bool.and_eq_true, decide_eq_true_eq, Bool.not_eq_true', decide_eq_false_iff_not,
          not_and]
        intro hall
        exact absurd ⟨hall.1.1, hall.1.2, hall.2⟩ h
    | clientProbe =>
      refine iff_of_true (fun p hp => ?_) rfl
      simp only [CoreMachine.utters] at hp
      split_ifs at hp <;> simp only [List.mem_singleton, List.not_mem_nil] at hp
      exact hp ▸ hmsr _ _ _
    | disconnect | renegotiationTimeout => simp [CoreMachine.utters, Op.hidesOutbox]
  | send payload =>
    refine iff_of_true (fun p hp => ?_) rfl
    simp only [CoreMachine.utters] at hp
    split_ifs at hp <;> simp only [List.mem_singleton, List.not_mem_nil] at hp <;>
      exact hp ▸ hmsr _ _ _
  | proposeTimers nowMs prop =>
    rw [next_maxPendingId (by simp)]
    refine iff_of_true (fun p hp => ?_) rfl
    simp only [CoreMachine.utters] at hp
    split_ifs at hp <;> simp only [List.mem_singleton, List.not_mem_nil] at hp
    exact hp ▸ hmsr _ _ _
  | beginHandshake | close =>
    refine iff_of_true (fun p hp => ?_) rfl
    simp only [CoreMachine.utters] at hp
    split_ifs at hp <;> simp only [List.mem_singleton, List.not_mem_nil] at hp
    exact hp ▸ hcontrol _ _
  | pathChanged pathId => simp [CoreMachine.utters, Op.hidesOutbox]

theorem Stocked.advertises {ps : List Bytes} {m m' : CoreMachine} (h : Stocked ps m) {op : Op}
    {res : CallResult} (hs : m.step op = some (m', res)) :
    res.output.Advertises (ps ++ op.payload.toList).length ↔ op.hidesOutbox m = false := by
  have hpost := h.step hs
  have hlt := h.length_lt
  rw [← h.maxPendingId] at hlt
  have hlt' := hpost.length_lt
  cases op with
  | call k =>
    have hans := apply_answers m hs
    have hsaid : res.output.outboundDatagrams.map OutboundDatagram.bytes =
        (m.utters k).map (Packet.bytes m.cid) := by
      rw [hans.datagrams, List.map_map]
      rfl
    rw [CoreOutput.advertises_iff hsaid (utters_small m k) hlt', ← hpost.maxPendingId, hans.next]
    exact utters_advertises hlt k
  | datagram nowMs src bytes =>
    have heq : onDatagram m nowMs src bytes = (m', res) := Option.some.inj hs
    obtain ⟨qs, hqs, hsaid⟩ := datagram_advertises m nowMs src bytes
    rw [heq] at hsaid
    rw [CoreOutput.advertises_iff hsaid (fun p hp => (hqs p hp).1) hlt']
    refine iff_of_true (fun p hp => ?_) rfl
    have hsame : (ps ++ (Op.datagram nowMs src bytes).payload.toList).length = m.maxPendingId := by
      simp [Op.payload, h.maxPendingId]
    rw [hsame]
    exact (hqs p hp).2

/-- In every reachable state an operation advertises the highest id enqueued so far in all
it sends, exactly if it is not such a tick. -/
theorem advertised_iff {role : Role} {cid : UInt64} {cfg : CoreConfig} {h : History}
    {m m' : CoreMachine} (hrun : Run CoreMachine.step (CoreMachine.new role cid cfg) h m) {op : Op}
    {res : CallResult} (hs : m.step op = some (m', res)) :
    res.output.Advertises (accepted (h ++ [⟨m, op, res, m'⟩])).length ↔
      op.hidesOutbox m = false := by
  rw [accepted_snoc]
  exact (stocked_of_run hrun).advertises hs

/-- A message is enqueued before the handshake, and the server's timer fires after it. -/
def queuedTick : List Op := [.call (.send [10])] ++ greeted

theorem firstSend_advertised :
    ∃ h m m' res, exec CoreMachine.step (CoreMachine.new .server 7 .default) greeted =
        some (h, m) ∧ m.step (.call (.send [10])) = some (m', res) ∧
      (res.output.Advertises (accepted (h ++ [⟨m, .call (.send [10]), res, m'⟩])).length ↔
        (Op.call (.send [10])).hidesOutbox m = false) := by
  have hsome : ((exec CoreMachine.step (CoreMachine.new .server 7 .default) greeted).any fun x =>
      (x.2.step (.call (.send [10]))).isSome) = true := by decide +kernel
  obtain ⟨⟨h, m⟩, hexec, hx⟩ := (Option.any_eq_true _ _).mp hsome
  obtain ⟨⟨m', res⟩, hs⟩ := Option.isSome_iff_exists.mp hx
  exact ⟨h, m, m', res, hexec, hs, advertised_iff (Run.of_exec hexec) hs⟩

theorem queuedTick_hides :
    ¬ ∀ (role : Role) (cid : UInt64) (cfg : CoreConfig) (h : History) (m m' : CoreMachine)
        (op : Op) (res : CallResult), Run CoreMachine.step (CoreMachine.new role cid cfg) h m →
      m.step op = some (m', res) →
        res.output.Advertises (accepted (h ++ [⟨m, op, res, m'⟩])).length := by
  intro hclaim
  have hsome : ((exec CoreMachine.step (CoreMachine.new .server 7 .default) queuedTick).any fun x =>
      (Op.call (.timer 1 .serverMsr)).hidesOutbox x.2) = true := by decide +kernel
  obtain ⟨⟨h, m⟩, hexec, hx⟩ := (Option.any_eq_true _ _).mp hsome
  have hrun := Run.of_exec hexec
  have hs : m.step (.call (.timer 1 .serverMsr)) = some (onTimer m 1 .serverMsr) := rfl
  have hgot := hclaim .server 7 .default h m _ _ _ hrun hs
  rw [accepted_snoc, (stocked_of_run hrun).advertises hs] at hgot
  rw [hgot] at hx
  cases hx

end Todero.Core
