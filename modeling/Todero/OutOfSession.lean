import Todero.Reactions
import Todero.Lost

/-! What a datagram does to a machine outside a session, before the handshake or after
the end. `on_datagram` dispatches an MSR in every lifecycle state, so its timer TLVs are
worked off there too, and an ended client still counts MSRs and sends keepalives. -/
namespace Todero.Core
open Todero.Wire Transition

/-! ### Timer TLVs of any frame -/

/-- One pass of the loop of `handle_msr`, as far as the TLV decides it. -/
def readTimerTlv (tlv : Tlv) : Except CoreError (Option TimerTlv) :=
  if tlv.kind = tlvTimerProposal then
    match decodeTimerProposalTlv tlv with
    | none => .error .malformedTimerProposal
    | some (id, p) => .ok (some (.proposal id p))
  else if tlv.kind = tlvTimerAck then
    match decodeTimerAckTlv tlv with
    | none => .error .malformedTimerAck
    | some (id, accepted) => .ok (some (.ack id accepted))
  else .ok none

/-- The timer TLVs before the first malformed one, and the error of that one. -/
def readTimerTlvs : List Tlv → List TimerTlv × Option CoreError
  | [] => ([], none)
  | tlv :: tlvs =>
    match readTimerTlv tlv with
    | .error e => ([], some e)
    | .ok t => (t.toList ++ (readTimerTlvs tlvs).1, (readTimerTlvs tlvs).2)

def Ctx.timedAll (src : UInt32) (ts : List TimerTlv) (c : Ctx) : Ctx :=
  ts.foldl (fun c t => c.timed src t) c

theorem Ctx.timedAll_append (src : UInt32) (ts us : List TimerTlv) (c : Ctx) :
    c.timedAll src (ts ++ us) = (c.timedAll src ts).timedAll src us :=
  List.foldl_append

theorem handleTimerTlv_read (src : UInt32) (tlv : Tlv) (c : Ctx) :
    handleTimerTlv src tlv c = match readTimerTlv tlv with
      | .error e => .error e c
      | .ok t => .ok () (c.timedAll src t.toList) := by
  by_cases hprop : tlv.kind = tlvTimerProposal
  · rw [handleTimerTlv, if_pos hprop, handleTimerProposal_run, readTimerTlv, if_pos hprop]
    cases decodeTimerProposalTlv tlv <;> rfl
  · rw [handleTimerTlv, if_neg hprop, readTimerTlv, if_neg hprop]
    by_cases hack : tlv.kind = tlvTimerAck
    · rw [if_pos hack, if_pos hack, handleTimerAck_run]
      cases decodeTimerAckTlv tlv <;> rfl
    · rw [if_neg hack, if_neg hack]
      rfl

theorem handleTimerTlvs_read (src : UInt32) (tlvs : List Tlv) (c : Ctx) :
    handleTimerTlvs src tlvs c = match (readTimerTlvs tlvs).2 with
      | some e => .error e (c.timedAll src (readTimerTlvs tlvs).1)
      | none => .ok () (c.timedAll src (readTimerTlvs tlvs).1) := by
  induction tlvs generalizing c with
  | nil => rfl
  | cons tlv tlvs ih =>
    rw [handleTimerTlvs, bind_run, handleTimerTlv_read, readTimerTlvs]
    cases readTimerTlv tlv with
    | error e => rfl
    | ok t =>
      simp only [Ctx.timedAll_append]
      exact ih _

/-- The acks a list of timer TLVs is answered with. -/
def CoreMachine.acksFor (m : CoreMachine) : List TimerTlv → List Packet
  | [] => []
  | t :: ts => m.answers (.msr 0 0 (some t)) ++ (m.withTimers (m.timers.on t)).acksFor ts

theorem Ctx.timedAll_self (src : UInt32) (ts : List TimerTlv) (c : Ctx) :
    (c.timedAll src ts).self = c.self.withTimers (ts.foldl Timers.on c.self.timers) := by
  induction ts generalizing c with
  | nil => rfl
  | cons t ts ih =>
    rw [List.foldl_cons, Ctx.timedAll, List.foldl_cons, ← Ctx.timedAll, ih, Ctx.timed_self]
    rfl

theorem Ctx.timedAll_said (src : UInt32) (ts : List TimerTlv) (c : Ctx) :
    (c.timedAll src ts).said = c.said ++ (c.self.acksFor ts).map (Packet.bytes c.self.cid) := by
  induction ts generalizing c with
  | nil => simp [Ctx.timedAll, CoreMachine.acksFor]
  | cons t ts ih =>
    rw [Ctx.timedAll, List.foldl_cons, ← Ctx.timedAll, ih, Ctx.timed_said src c t 0 0,
      Ctx.timed_self, CoreMachine.acksFor, List.map_append, List.append_assoc]
    rfl

def TimerTlv.isProposal : TimerTlv → Bool
  | .proposal _ _ => true
  | .ack _ _ => false

theorem mem_acksFor {m : CoreMachine} {ts : List TimerTlv} {p : Packet} (hp : p ∈ m.acksFor ts) :
    ∃ id accepted, p.timer = some (.ack id accepted) ∧ p.Small := by
  induction ts generalizing m with
  | nil => simp [CoreMachine.acksFor] at hp
  | cons t ts ih =>
    rcases List.mem_append.mp hp with hone | hrest
    · cases t with
      | proposal id prop =>
        rw [List.mem_singleton.mp hone]
        exact ⟨_, _, rfl, by simp [Packet.Small, Packet.payload, maxDataPayloadPerFrame]⟩
      | ack id accepted => simp [CoreMachine.answers] at hone
    · exact ih hrest

theorem acksFor_eq_nil {m : CoreMachine} {ts : List TimerTlv} :
    m.acksFor ts = [] ↔ ∀ t ∈ ts, t.isProposal = false := by
  induction ts generalizing m with
  | nil => simp [CoreMachine.acksFor]
  | cons t ts ih =>
    rw [CoreMachine.acksFor, List.append_eq_nil_iff, ih, List.forall_mem_cons]
    cases t <;> simp [CoreMachine.answers, TimerTlv.isProposal]

theorem acksFor_congr {m m' : CoreMachine} (hlast : m.lastOrderedRx = m'.lastOrderedRx)
    (hout : m.outboundMessages = m'.outboundMessages) (htimers : m.timers = m'.timers)
    (ts : List TimerTlv) : m.acksFor ts = m'.acksFor ts := by
  induction ts generalizing m m' with
  | nil => rfl
  | cons t ts ih =>
    have hcfg : m.cfg = m'.cfg := congrArg Timers.cfg htimers
    have hone : m.answers (.msr 0 0 (some t)) = m'.answers (.msr 0 0 (some t)) := by
      cases t <;> simp only [CoreMachine.answers, CoreMachine.maxPendingId, hlast, hout, hcfg]
    rw [CoreMachine.acksFor, CoreMachine.acksFor, hone]
    congr 1
    exact ih hlast hout (by simp only [CoreMachine.timers_withTimers, htimers])

/-! ### One datagram -/

/-- The frame, when it decodes and is the machine's own. -/
def ownFrame (m : CoreMachine) (bytes : Bytes) : Option WireFrame :=
  match WireFrame.decode bytes with
  | .error _ => none
  | .ok frame => if foreign m frame then none else some frame

theorem ownFrame_eq_some {m : CoreMachine} {bytes : Bytes} {frame : WireFrame} :
    ownFrame m bytes = some frame ↔ WireFrame.decode bytes = .ok frame ∧ ¬ foreign m frame := by
  unfold ownFrame
  cases WireFrame.decode bytes with
  | error e => simp
  | ok f =>
    by_cases hf : foreign m f
    · simp only [hf, if_true, reduceCtorEq, Except.ok.injEq, false_iff, not_and, not_not]
      rintro rfl
      exact hf
    · simp only [hf, if_false, Option.some.injEq, Except.ok.injEq]
      exact ⟨by rintro rfl; exact ⟨rfl, hf⟩, fun h => h.1⟩

theorem onDatagram_of_no_frame {m : CoreMachine} {bytes : Bytes} (h : ownFrame m bytes = none)
    (nowMs : UInt64) (src : UInt32) :
    (onDatagram m nowMs src bytes).1 = m ∧
      (onDatagram m nowMs src bytes).2.output.outboundDatagrams = [] := by
  unfold ownFrame at h
  cases hd : WireFrame.decode bytes with
  | error e => simp [onDatagram, hd]
  | ok frame =>
    simp only [hd] at h
    split_ifs at h with hf
    simp [onDatagram, hd, CoreMachine.call, onFrame_run, hf]

/-- The TLVs of an MSR of the machine's own cid whose payload is long enough: the ones
`handle_msr` works off, in every lifecycle state. -/
def msrTlvs (m : CoreMachine) (bytes : Bytes) : Option (List Tlv) :=
  (ownFrame m bytes).bind fun frame =>
    if frame.messageType = .msr ∧ 16 ≤ frame.payload.length then some frame.tlvs else none

theorem decodeMsrPayload_isSome {payload : Bytes} :
    (decodeMsrPayload payload).isSome ↔ 16 ≤ payload.length := by
  unfold decodeMsrPayload
  split_ifs with h
  · simp only [Option.isSome_none, Bool.false_eq_true, false_iff]
    omega
  · simp only [Option.isSome_some, true_iff]
    omega

theorem decodeMsrPayload_short {payload : Bytes} (h : decodeMsrPayload payload = none) :
    ¬ 16 ≤ payload.length := by
  rw [← decodeMsrPayload_isSome, h]
  simp

theorem decodeMsrPayload_long {payload : Bytes} {d : Nat × Nat}
    (h : decodeMsrPayload payload = some d) : 16 ≤ payload.length := by
  rw [← decodeMsrPayload_isSome, h]
  rfl

section Datagram
variable {m : CoreMachine} (nowMs : UInt64) (src : UInt32) {bytes : Bytes}

/-- An MSR works off its timer TLVs, and says what it has to say if none is malformed. -/
theorem onDatagram_msr {tlvs : List Tlv} (h : msrTlvs m bytes = some tlvs) :
    (onDatagram m nowMs src bytes).1.timers =
        (readTimerTlvs tlvs).1.foldl Timers.on m.timers ∧
      ∃ next, (onDatagram m nowMs src bytes).2.output.outboundDatagrams.map
          OutboundDatagram.bytes =
        (match (readTimerTlvs tlvs).2 with
          | some _ => []
          | none => m.acksFor (readTimerTlvs tlvs).1 ++
              m.signalPackets m.lastOrderedRx next .controlMsrFrame).map (Packet.bytes m.cid) := by
  obtain ⟨frame, hown, hmsr⟩ := Option.bind_eq_some_iff.mp h
  obtain ⟨hd, hf⟩ := ownFrame_eq_some.mp hown
  split_ifs at hmsr with hlong
  rw [Option.some.injEq] at hmsr
  subst hmsr
  obtain ⟨⟨acked, next⟩, hdec⟩ := Option.isSome_iff_exists.mp (decodeMsrPayload_isSome.mpr hlong.2)
  rw [onDatagram_run hd hf, dispatch_msr nowMs src _ hlong.1]
  simp only [handleMsr, hdec, bind_run, handleTimerTlvs_read]
  cases (readTimerTlvs frame.tlvs).2 with
  | some e =>
    refine ⟨?_, next, by simp⟩
    simp only [Ctx.timedAll_self]
    rfl
  | none =>
    have hquiet : ∀ c : Ctx, c.piggybacked nowMs src frame = c := by
      intro c
      rw [Ctx.piggybacked, if_neg (not_not.mpr hlong.1)]
    have hsig := Ctx.signalled_moves nowMs src next .controlMsrFrame
      ((Ctx.received nowMs src ⟨m, {}⟩).timedAll src (readTimerTlvs frame.tlvs).1)
    simp only [handleMsrSignal_run, hquiet]
    refine ⟨?_, next, ?_⟩
    · rw [hsig.timers, Ctx.timedAll_self]
      rfl
    · have hsaid := hsig.said
      rw [Ctx.timedAll_said, Ctx.timedAll_self,
        @acksFor_congr (Ctx.received nowMs src ⟨m, {}⟩).self m rfl rfl rfl] at hsaid
      rw [List.map_append]
      exact hsaid

/-- Outside a session every other frame is a hello, a closing frame or dropped. -/
theorem dispatch_outside {frame : WireFrame} {c : Ctx}
    (hout : c.self.state = .preHandshake ∨ c.self.state = .lost) (hm : frame.messageType ≠ .msr) :
    ∃ c', dispatch nowMs src frame c = .ok () c' ∧
      c.Moves (c.self.answers (.control frame.messageType))
        (c.self.stateOn (.control frame.messageType)) c.self.lastRequestedEnd c.self.timers c' ∧
      c'.self.cid = c.self.cid := by
  have hest : ¬ c.self.state = .established := by rcases hout with h | h <;> simp [h]
  cases ht : frame.messageType with
  | msr => exact absurd ht hm
  | clientHello =>
    refine ⟨_, dispatch_clientHello nowMs src c ht, Ctx.clientHello_moves nowMs src c, ?_⟩
    exact congrArg Fixed.cid (Ctx.Frame.clientHello nowMs src c).fixed
  | serverHello =>
    refine ⟨_, dispatch_serverHello nowMs src c ht, Ctx.serverHello_moves nowMs src c, ?_⟩
    exact congrArg Fixed.cid (Ctx.Frame.serverHello nowMs src c).fixed
  | helloAck =>
    refine ⟨_, dispatch_helloAck nowMs src c ht, Ctx.helloAck_moves nowMs c, ?_⟩
    exact congrArg Fixed.cid (Ctx.Frame.helloAck nowMs c).fixed
  | requestRange =>
    exact ⟨c, by rw [dispatch_requestRange nowMs src c ht, if_neg hest], .refl c, rfl⟩
  | data => exact ⟨c, by rw [dispatch_data nowMs src c ht, if_neg hest], .refl c, rfl⟩
  | fragment => exact ⟨c, by rw [dispatch_fragment nowMs src c ht, if_neg hest], .refl c, rfl⟩
  | close => exact ⟨_, dispatch_close nowMs src c (.inl ht), Ctx.closed_moves c, rfl⟩
  | error => exact ⟨_, dispatch_close nowMs src c (.inr ht), Ctx.closed_moves c, rfl⟩

theorem control_answer_timer {t : MessageType} {p : Packet} (hp : p ∈ m.answers (.control t)) :
    p.timer = none ∧ p.Small := by
  cases t <;> simp only [CoreMachine.answers] at hp <;> (try split_ifs at hp) <;>
    simp only [List.mem_singleton, List.not_mem_nil] at hp <;> subst hp <;>
    exact ⟨rfl, Nat.zero_le _⟩

theorem signalPackets_timer {last next : Nat} {source : MsrSource} {p : Packet}
    (hp : p ∈ m.signalPackets last next source) : p.timer = none ∧ p.Small := by
  unfold CoreMachine.signalPackets at hp
  rcases List.mem_append.mp hp with h | h <;> split_ifs at h <;>
    simp only [List.mem_singleton, List.not_mem_nil] at h <;> subst h <;>
    exact ⟨rfl, by simp [Packet.Small, Packet.payload, maxDataPayloadPerFrame]⟩

/-- Outside a session a datagram that is not such an MSR leaves the timers as they are,
and what it is answered with carries no timer TLV; an ended machine does not answer it. -/
theorem onDatagram_other (hout : m.state = .preHandshake ∨ m.state = .lost)
    (h : msrTlvs m bytes = none) :
    (onDatagram m nowMs src bytes).1.timers = m.timers ∧
      ∃ ps : List Packet, (onDatagram m nowMs src bytes).2.output.outboundDatagrams.map
          OutboundDatagram.bytes = ps.map (Packet.bytes m.cid) ∧
        (∀ p ∈ ps, p.timer = none ∧ p.Small) ∧ (m.state = .lost → ps = []) := by
  cases hown : ownFrame m bytes with
  | none =>
    obtain ⟨hself, hsaid⟩ := onDatagram_of_no_frame hown nowMs src
    exact ⟨by rw [hself], [], by rw [hsaid]; rfl, by simp, fun _ => rfl⟩
  | some frame =>
    obtain ⟨hd, hf⟩ := ownFrame_eq_some.mp hown
    rw [onDatagram_run hd hf]
    by_cases hm : frame.messageType = .msr
    · have hshort : ¬ 16 ≤ frame.payload.length := by
        intro hlong
        simp [msrTlvs, hown, hm, hlong] at h
      have hnone : decodeMsrPayload frame.payload = none := by
        rw [← Option.not_isSome_iff_eq_none, decodeMsrPayload_isSome]
        exact hshort
      rw [dispatch_msr nowMs src _ hm]
      simp only [handleMsr, hnone, throw_run]
      exact ⟨rfl, [], rfl, by simp, fun _ => rfl⟩
    · obtain ⟨c, hrun, hmoves, hcid⟩ := dispatch_outside nowMs src
        (c := Ctx.received nowMs src ⟨m, {}⟩) hout hm
      have hcid' : c.self.cid = m.cid := hcid
      have hans : m.state = .lost →
          (Ctx.received nowMs src ⟨m, {}⟩).self.answers (.control frame.messageType) = [] := by
        intro hlost
        have hlost' : (Ctx.received nowMs src ⟨m, {}⟩).self.state = .lost := hlost
        cases frame.messageType <;> simp [CoreMachine.answers, hlost']
      have hdone : c.piggybacked nowMs src frame = c ∨ ∃ next,
          c.piggybacked nowMs src frame = c.signalled nowMs src next .piggybackTlv := by
        rw [Ctx.piggybacked, if_pos hm]
        cases findMsrSignalTlv frame.tlvs with
        | none => exact .inl rfl
        | some s => exact .inr ⟨s.2, rfl⟩
      rw [hrun]
      dsimp only
      rcases hdone with heq | ⟨next, heq⟩
      · rw [heq]
        exact ⟨hmoves.timers, _, hmoves.said, fun p hp => control_answer_timer hp, hans⟩
      · have hall := hmoves.trans (Ctx.signalled_moves nowMs src next .piggybackTlv c) hcid
        rw [heq]
        refine ⟨hall.timers.trans hmoves.timers, _, hall.said, ?_, ?_⟩
        · intro p hp
          rcases List.mem_append.mp hp with hp | hp
          · exact control_answer_timer hp
          · exact signalPackets_timer hp
        · intro hlost
          have hstate : c.self.state = .lost := by
            rw [hmoves.state]
            have : (Ctx.received nowMs src ⟨m, {}⟩).self.state = .lost := hlost
            cases frame.messageType <;> simp [CoreMachine.stateOn, this]
          have hquiet : c.self.signalPackets c.self.lastOrderedRx next .piggybackTlv = [] := by
            simp [CoreMachine.signalPackets, keepaliveDue, CoreMachine.asksUpTo,
              CoreMachine.wokenState, hstate]
          rw [hquiet, List.append_nil]
          exact hans hlost

end Datagram

/-! ### A lost machine -/

/-- What makes a lost machine speak: an MSR without a malformed timer TLV that proposes
timers, or with which a client's keepalive falls due. -/
def provokes (m : CoreMachine) (bytes : Bytes) : Bool :=
  match msrTlvs m bytes with
  | none => false
  | some tlvs => (readTimerTlvs tlvs).2.isNone &&
      ((readTimerTlvs tlvs).1.any TimerTlv.isProposal ||
        (m.role = .client && keepaliveDue .controlMsrFrame m))

theorem onDatagram_lost {m : CoreMachine} (hlost : m.state = .lost) (nowMs : UInt64) (src : UInt32)
    (bytes : Bytes) :
    (onDatagram m nowMs src bytes).2.output.outboundDatagrams = [] ↔ provokes m bytes = false := by
  cases h : msrTlvs m bytes with
  | none =>
    obtain ⟨-, ps, hsaid, -, hnil⟩ := onDatagram_other nowMs src (.inr hlost) h
    rw [hnil hlost, List.map_nil, List.map_eq_nil_iff] at hsaid
    simp [provokes, h, hsaid]
  | some tlvs =>
    obtain ⟨-, next, hsaid⟩ := onDatagram_msr nowMs src h
    have hsignal : m.signalPackets m.lastOrderedRx next .controlMsrFrame = [] ↔
        ¬ (m.role = .client ∧ keepaliveDue .controlMsrFrame m) := by
      by_cases hk : m.role = .client ∧ keepaliveDue .controlMsrFrame m <;>
        simp [CoreMachine.signalPackets, CoreMachine.asksUpTo, CoreMachine.wokenState, hlost, hk]
    have hprop : m.acksFor (readTimerTlvs tlvs).1 = [] ↔
        (readTimerTlvs tlvs).1.any TimerTlv.isProposal = false := by
      rw [acksFor_eq_nil, List.any_eq_false]
      simp
    rw [← List.map_eq_nil_iff, hsaid, List.map_eq_nil_iff]
    cases he : (readTimerTlvs tlvs).2 with
    | some e => simp [provokes, h, he]
    | none =>
      simp only [List.append_eq_nil_iff, hprop, hsignal, provokes, h, he, Option.isNone_none,
        Bool.true_and, Bool.or_eq_false_iff, Bool.and_eq_false_imp, decide_eq_true_eq,
        decide_eq_false_iff_not, not_and]

/-- What reaches a machine without the application: a datagram, or one of its timers. -/
def Op.inbound : Op → Bool
  | .datagram _ _ _ | .call (.timer _ _) => true
  | .call _ => false

def Op.provokes (m : CoreMachine) : Op → Bool
  | .datagram _ _ bytes => Core.provokes m bytes
  | .call _ => false

/-- The timers look at the state first. -/
theorem utters_lost {m : CoreMachine} (hlost : m.state = .lost) (nowMs : UInt64) (id : TimerId) :
    m.utters (.timer nowMs id) = [] := by
  cases id <;> simp [CoreMachine.utters, hlost]

theorem step_silent {m m' : CoreMachine} {op : Op} {res : CallResult} (hlost : m.state = .lost)
    (hin : op.inbound = true) (hs : m.step op = some (m', res)) :
    res.output.outboundDatagrams = [] ↔ op.provokes m = false := by
  cases op with
  | datagram nowMs src bytes =>
    have heq : onDatagram m nowMs src bytes = (m', res) := Option.some.inj hs
    have h := onDatagram_lost hlost nowMs src bytes
    rwa [heq] at h
  | call k =>
    cases k with
    | timer nowMs id =>
      have happly : m.apply (.timer nowMs id) = some (m', res) := hs
      rw [(apply_answers m happly).datagrams, utters_lost hlost]
      exact iff_of_true rfl rfl
    | beginHandshake | send | close | proposeTimers | pathChanged => simp [Op.inbound] at hin

/-- A lost machine says nothing to any further datagrams and timers exactly if none of the
datagrams is an MSR that proposes timers or that a keepalive falls due with. -/
theorem lost_silent_iff {m : CoreMachine} (hlost : m.state = .lost) {h : History}
    {m' : CoreMachine} (hrun : Run CoreMachine.step m h m')
    (hin : ∀ t ∈ h, t.input.inbound = true) :
    (∀ t ∈ h, t.output.output.outboundDatagrams = []) ↔
      ∀ t ∈ h, t.input.provokes t.pre = false := by
  have hpre : ∀ t ∈ h, t.pre.state = .lost := by
    intro t ht
    obtain ⟨h₀, -, -, hrun₀, -⟩ := hrun.before ht
    refine hrun₀.invariant (A := fun _ => True) (I := fun _ m => m.state = .lost) hlost ?_
      fun _ _ => trivial
    intro _ _ _ _ _ hl hs _
    exact (step_lost hs).1 hl
  refine forall₂_congr fun t ht => ?_
  obtain ⟨-, -, -, -, hs⟩ := hrun.before ht
  exact step_silent (hpre t ht) (hin t ht) hs

/-- A client that the application has closed. -/
def closedClient : List Op :=
  [.datagram 0 0 ((Packet.control .serverHello).bytes 7), .call .close]

/-- Control MSRs of the server, one for each of its ticks. -/
def serverTicks (n : Nat) : List Op :=
  (List.range n).map fun i => .datagram (UInt64.ofNat i) 0 ((Packet.msr 0 0 none).bytes 7)

theorem closedClient_silent :
    ∃ h₀ m h m', exec CoreMachine.step (CoreMachine.new .client 7 .default) closedClient =
        some (h₀, m) ∧ exec CoreMachine.step m (serverTicks 3) = some (h, m') ∧
      ((∀ t ∈ h, t.output.output.outboundDatagrams = []) ↔
        ∀ t ∈ h, t.input.provokes t.pre = false) := by
  have hsome : ((exec CoreMachine.step (CoreMachine.new .client 7 .default) closedClient).any
      fun x => x.2.state = .lost ∧ (exec CoreMachine.step x.2 (serverTicks 3)).any fun y =>
        ∀ t ∈ y.1, t.input.inbound = true) = true := by decide +kernel
  obtain ⟨⟨h₀, m⟩, hclose, hx⟩ := (Option.any_eq_true _ _).mp hsome
  obtain ⟨hlost, hticks⟩ := of_decide_eq_true hx
  obtain ⟨⟨h, m'⟩, hexec, hin⟩ := (Option.any_eq_true _ _).mp hticks
  exact ⟨h₀, m, h, m', hclose, hexec,
    lost_silent_iff hlost (Run.of_exec hexec) (of_decide_eq_true hin)⟩

/-- The fourth MSR after the close is answered with a keepalive. -/
theorem closedClient_keeps_alive :
    ¬ ∀ (role : Role) (cid : UInt64) (cfg : CoreConfig) (h₀ : History) (m : CoreMachine),
      Run CoreMachine.step (CoreMachine.new role cid cfg) h₀ m → m.state = .lost →
        ∀ (h : History) (m' : CoreMachine), Run CoreMachine.step m h m' →
          (∀ t ∈ h, t.input.inbound = true) →
            ∀ t ∈ h, t.output.output.outboundDatagrams = [] := by
  intro hclaim
  have hsome : ((exec CoreMachine.step (CoreMachine.new .client 7 .default) closedClient).any
      fun x => x.2.state = .lost ∧ (exec CoreMachine.step x.2 (serverTicks 4)).any fun y =>
        (∀ t ∈ y.1, t.input.inbound = true) ∧
          ∃ t ∈ y.1, t.output.output.outboundDatagrams ≠ []) = true := by decide +kernel
  obtain ⟨⟨h₀, m⟩, hclose, hx⟩ := (Option.any_eq_true _ _).mp hsome
  obtain ⟨hlost, hticks⟩ := of_decide_eq_true hx
  obtain ⟨⟨h, m'⟩, hexec, hy⟩ := (Option.any_eq_true _ _).mp hticks
  obtain ⟨hin, t, ht, hspoke⟩ := of_decide_eq_true hy
  exact hspoke (hclaim .client 7 .default h₀ m (Run.of_exec hclose) hlost h m'
    (Run.of_exec hexec) hin t ht)

/-! ### Renegotiation outside a session -/

/-- The datagram carries an answer to a timer proposal. -/
def carriesAck (bytes : Bytes) : Bool :=
  match WireFrame.decode bytes with
  | .error _ => false
  | .ok frame => frame.tlvs.any fun tlv => tlv.kind = tlvTimerAck

/-- A call has left the timers alone and has not answered a proposal. -/
def Undisturbed (m m' : CoreMachine) (res : CallResult) : Prop :=
  m'.cfg = m.cfg ∧ m'.pendingLocalProposal = m.pendingLocalProposal ∧
    ∀ d ∈ res.output.outboundDatagrams, carriesAck d.bytes = false

theorem carriesAck_bytes {p : Packet} (hp : p.Small) (cid : UInt64) :
    carriesAck (p.bytes cid) = p.timer.any fun t => !t.isProposal := by
  rw [carriesAck, Packet.decode_bytes hp]
  cases p with
  | msr acked next timer =>
    cases timer with
    | none => rfl
    | some t => cases t <;> rfl
  | control | requestRange | data | fragment => rfl

/-- An ack of the pending proposal. -/
def TimerTlv.settles (pending : Option PendingRenegotiation) : TimerTlv → Bool
  | .proposal _ _ => false
  | .ack id _ => pending.any fun p => p.proposalId = id

/-- The configuration after a proposal has been validated against `cfg`. -/
def CoreConfig.offered (cfg : CoreConfig) : TimerTlv → CoreConfig
  | .proposal _ p => if (validateTimerProposal cfg p).isOk then p.toConfig else cfg
  | .ack _ _ => cfg

/-- What makes such an MSR harmless: no ack of the pending proposal, accepted proposals
that lead back to the configuration there was, and either no proposal at all or a malformed
timer TLV, whose error takes the acks with it. -/
def inert (m : CoreMachine) (bytes : Bytes) : Bool :=
  match msrTlvs m bytes with
  | none => true
  | some tlvs =>
    (readTimerTlvs tlvs).1.all (fun t => !t.settles m.pendingLocalProposal) &&
      ((readTimerTlvs tlvs).1.foldl CoreConfig.offered m.cfg = m.cfg &&
        ((readTimerTlvs tlvs).2.isSome ||
          (readTimerTlvs tlvs).1.all fun t => !t.isProposal))

theorem Timers.on_pending (t : Timers) (u : TimerTlv) :
    (t.on u).pending = if u.settles t.pending then none else t.pending := by
  cases u with
  | proposal id p =>
    simp only [Timers.on, TimerTlv.settles, Bool.false_eq_true, if_false]
    split_ifs <;> rfl
  | ack id accepted =>
    cases hp : t.pending with
    | none => simp [Timers.on, TimerTlv.settles, hp]
    | some pending =>
      by_cases hid : pending.proposalId = id <;> simp [Timers.on, TimerTlv.settles, hp, hid]

theorem Timers.on_cfg {t : Timers} {u : TimerTlv} (h : u.settles t.pending = false) :
    (t.on u).cfg = t.cfg.offered u := by
  cases u with
  | proposal id p =>
    simp only [Timers.on, CoreConfig.offered]
    split_ifs <;> rfl
  | ack id accepted =>
    cases hp : t.pending with
    | none => simp [Timers.on, CoreConfig.offered, hp]
    | some pending =>
      have hid : ¬ pending.proposalId = id := by simpa [TimerTlv.settles, hp] using h
      simp [Timers.on, CoreConfig.offered, hp, hid]

/-- A pending proposal that has been acked does not come back. -/
theorem Timers.foldl_on_none {t : Timers} (h : t.pending = none) (us : List TimerTlv) :
    (us.foldl Timers.on t).pending = none := by
  induction us generalizing t with
  | nil => exact h
  | cons u us ih =>
    refine ih ?_
    rw [Timers.on_pending, h, ite_self]

theorem Timers.foldl_on_eq_iff (us : List TimerTlv) (t : Timers) :
    (us.foldl Timers.on t).pending = t.pending ↔ ∀ u ∈ us, u.settles t.pending = false := by
  induction us generalizing t with
  | nil => simp
  | cons u us ih =>
    rw [List.foldl_cons, List.forall_mem_cons]
    cases hu : u.settles t.pending with
    | true =>
      have hnone : (t.on u).pending = none := by rw [Timers.on_pending, hu, if_pos rfl]
      have hsome : t.pending ≠ none := by
        rintro h
        rw [h] at hu
        cases u <;> simp [TimerTlv.settles] at hu
      rw [Timers.foldl_on_none hnone]
      exact iff_of_false (fun h => hsome h.symm) (by simp)
    | false =>
      have hkeep : (t.on u).pending = t.pending := by rw [Timers.on_pending, hu]; rfl
      have h := ih (t.on u)
      rw [hkeep] at h
      rw [h]
      simp

theorem Timers.foldl_on_cfg {us : List TimerTlv} {t : Timers}
    (h : ∀ u ∈ us, u.settles t.pending = false) :
    (us.foldl Timers.on t).cfg = us.foldl CoreConfig.offered t.cfg := by
  induction us generalizing t with
  | nil => rfl
  | cons u us ih =>
    obtain ⟨hu, hus⟩ := List.forall_mem_cons.mp h
    have hkeep : (t.on u).pending = t.pending := by rw [Timers.on_pending, hu]; rfl
    rw [List.foldl_cons, List.foldl_cons, ← Timers.on_cfg hu]
    exact ih fun v hv => by rw [hkeep]; exact hus v hv

/-- The datagrams of a call, seen as the packets they are. -/
theorem forall_carriesAck {cid : UInt64} {ds : List OutboundDatagram} {ps : List Packet}
    (h : ds.map OutboundDatagram.bytes = ps.map (Packet.bytes cid)) (hsmall : ∀ p ∈ ps, p.Small) :
    (∀ d ∈ ds, carriesAck d.bytes = false) ↔
      ∀ p ∈ ps, (p.timer.any fun t => !t.isProposal) = false := by
  have hbytes : (∀ d ∈ ds, carriesAck d.bytes = false) ↔
      ∀ b ∈ ds.map OutboundDatagram.bytes, carriesAck b = false := by simp
  rw [hbytes, h, List.forall_mem_map]
  exact forall₂_congr fun p hp => by rw [carriesAck_bytes (hsmall p hp)]

theorem onDatagram_undisturbed_iff {m : CoreMachine}
    (hout : m.state = .preHandshake ∨ m.state = .lost) (nowMs : UInt64) (src : UInt32)
    (bytes : Bytes) :
    Undisturbed m (onDatagram m nowMs src bytes).1 (onDatagram m nowMs src bytes).2 ↔
      inert m bytes = true := by
  cases h : msrTlvs m bytes with
  | none =>
    obtain ⟨htimers, ps, hsaid, hps, -⟩ := onDatagram_other nowMs src hout h
    have hacks := (forall_carriesAck hsaid fun p hp => (hps p hp).2).mpr fun p hp => by
      rw [(hps p hp).1]
      rfl
    simp only [inert, h, iff_true]
    exact ⟨congrArg Timers.cfg htimers, congrArg Timers.pending htimers, hacks⟩
  | some tlvs =>
    obtain ⟨htimers, next, hsaid⟩ := onDatagram_msr nowMs src h
    have hcfg : (onDatagram m nowMs src bytes).1.cfg =
        ((readTimerTlvs tlvs).1.foldl Timers.on m.timers).cfg := congrArg Timers.cfg htimers
    have hpending : (onDatagram m nowMs src bytes).1.pendingLocalProposal =
        ((readTimerTlvs tlvs).1.foldl Timers.on m.timers).pending := congrArg Timers.pending htimers
    have hacks : (∀ d ∈ (onDatagram m nowMs src bytes).2.output.outboundDatagrams,
          carriesAck d.bytes = false) ↔
        (readTimerTlvs tlvs).2.isSome ∨ ∀ t ∈ (readTimerTlvs tlvs).1, t.isProposal = false := by
      cases he : (readTimerTlvs tlvs).2 with
      | some e =>
        rw [he] at hsaid
        rw [forall_carriesAck hsaid (by simp)]
        simp
      | none =>
        rw [he] at hsaid
        rw [forall_carriesAck hsaid, ← acksFor_eq_nil (m := m)]
        · simp only [Option.isSome_none, Bool.false_eq_true, false_or, List.forall_mem_append]
          constructor
          · rintro ⟨hacks, -⟩
            refine List.eq_nil_iff_forall_not_mem.mpr fun p hp => ?_
            obtain ⟨id, accepted, ht, -⟩ := mem_acksFor hp
            simpa [ht, TimerTlv.isProposal] using hacks p hp
          · intro hnil
            refine ⟨by simp [hnil], fun p hp => ?_⟩
            rw [(signalPackets_timer hp).1]
            rfl
        · intro p hp
          rcases List.mem_append.mp hp with hp | hp
          · obtain ⟨-, -, -, hsmall⟩ := mem_acksFor hp
            exact hsmall
          · exact (signalPackets_timer hp).2
    have hsettle := Timers.foldl_on_eq_iff (readTimerTlvs tlvs).1 m.timers
    have hfold := @Timers.foldl_on_cfg (readTimerTlvs tlvs).1 m.timers
    simp only [Undisturbed, hcfg, hpending, hacks, inert, h, Bool.and_eq_true, List.all_eq_true,
      Bool.not_eq_true', decide_eq_true_eq, Bool.or_eq_true]
    change _ ∧ _ = m.timers.pending ∧ _ ↔
      (∀ u ∈ (readTimerTlvs tlvs).1, TimerTlv.settles m.timers.pending u = false) ∧ _
    rw [hsettle]
    constructor
    · rintro ⟨hc, hs, ha⟩
      exact ⟨hs, (hfold hs).symm.trans hc, ha⟩
    · rintro ⟨hs, hc, ha⟩
      exact ⟨(hfold hs).trans hc, hs, ha⟩

/-- A datagram that reaches a machine before the handshake or after the end. -/
def Op.outside (m : CoreMachine) : Op → Bool
  | .datagram _ _ _ => m.state = .preHandshake || m.state = .lost
  | .call _ => false

def Op.inert (m : CoreMachine) : Op → Bool
  | .datagram _ _ bytes => Core.inert m bytes
  | .call _ => true

/-- Over a run the timers are renegotiated only inside a session exactly if every datagram
from outside one is inert. -/
theorem renegotiated_inside_iff {role : Role} {cid : UInt64} {cfg : CoreConfig} {h : History}
    {m : CoreMachine} (hrun : Run CoreMachine.step (CoreMachine.new role cid cfg) h m) :
    (∀ t ∈ h, t.input.outside t.pre = true → Undisturbed t.pre t.post t.output) ↔
      ∀ t ∈ h, t.input.outside t.pre = true → t.input.inert t.pre = true := by
  refine forall₃_congr fun t ht hout => ?_
  obtain ⟨-, -, -, -, hs⟩ := hrun.before ht
  cases hop : t.input with
  | call k => simp [hop, Op.outside] at hout
  | datagram nowMs src bytes =>
    have hstate : t.pre.state = .preHandshake ∨ t.pre.state = .lost := by
      simpa [hop, Op.outside] using hout
    rw [hop] at hs
    have heq : onDatagram t.pre nowMs src bytes = (t.post, t.output) := Option.some.inj hs
    have hiff := onDatagram_undisturbed_iff hstate nowMs src bytes
    rwa [heq] at hiff

/-- The first packet a server gets proposes timers to it. -/
def uninvitedProposal : List Op :=
  [.datagram 0 0 ((Packet.msr 0 0 (some (.proposal 1 ⟨1000, 1, 5000⟩))).bytes 7)]

theorem handshake_undisturbed :
    ∃ h m, exec CoreMachine.step (CoreMachine.new .server 7 .default)
        [.datagram 0 0 ((Packet.control .clientHello).bytes 7)] = some (h, m) ∧
      ((∀ t ∈ h, t.input.outside t.pre = true → Undisturbed t.pre t.post t.output) ↔
        ∀ t ∈ h, t.input.outside t.pre = true → t.input.inert t.pre = true) := by
  have hsome : (exec CoreMachine.step (CoreMachine.new .server 7 .default)
      [.datagram 0 0 ((Packet.control .clientHello).bytes 7)]).isSome := by decide +kernel
  obtain ⟨⟨h, m⟩, hexec⟩ := Option.isSome_iff_exists.mp hsome
  exact ⟨h, m, hexec, renegotiated_inside_iff (Run.of_exec hexec)⟩

theorem uninvitedProposal_accepted :
    ¬ ∀ (role : Role) (cid : UInt64) (cfg : CoreConfig) (h : History) (m : CoreMachine),
      Run CoreMachine.step (CoreMachine.new role cid cfg) h m →
        ∀ t ∈ h, t.input.outside t.pre = true → Undisturbed t.pre t.post t.output := by
  intro hclaim
  have hsome : ((exec CoreMachine.step (CoreMachine.new .server 7 .default)
      uninvitedProposal).any fun x => ∃ t ∈ x.1, t.input.outside t.pre = true ∧
        t.post.cfg ≠ t.pre.cfg) = true := by decide +kernel
  obtain ⟨⟨h, m⟩, hexec, hx⟩ := (Option.any_eq_true _ _).mp hsome
  obtain ⟨t, ht, hout, hcfg⟩ := of_decide_eq_true hx
  exact hcfg (hclaim .server 7 .default h m (Run.of_exec hexec) t ht hout).1

end Todero.Core
