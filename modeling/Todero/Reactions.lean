import Todero.Calls

/-! What a machine does on a datagram of its peer: the packets it sends back and where
the lifecycle, the request cursor and the timers go. -/
namespace Todero.Core
open Todero.Wire

/-- The signal beside a packet, and the kind of frame that carries it. -/
def Packet.signal : Packet → Option (Nat × MsrSource)
  | .control _ => none
  | .msr _ next _ => some (next % 2 ^ 64, .controlMsrFrame)
  | .requestRange _ _ _ next | .data _ _ _ next | .fragment _ _ _ _ _ next =>
    some (next % 2 ^ 64, .piggybackTlv)

/-- The message part of a packet, as it is read. -/
def Packet.arrival : Packet → Option Arrival
  | .data id msg _ _ => some (.data (id % 2 ^ 64) msg)
  | .fragment id idx total chunk _ _ =>
    if total % 2 ^ 16 = 0 ∨ idx % 2 ^ 16 ≥ total % 2 ^ 16 then none
    else some (.fragment (id % 2 ^ 64) (idx % 2 ^ 16) (total % 2 ^ 16) chunk)
  | _ => none

/-- The ids a request names, as they are read. -/
def requestedIds (start stop : Nat) : List Nat :=
  List.range' (start % 2 ^ 64) (stop % 2 ^ 64 + 1 - start % 2 ^ 64)

section Reactions
variable (m : CoreMachine)

/-- An MSR signal takes the client out of `Reactivating`. -/
def CoreMachine.wokenState : LifecycleState :=
  if m.role = .client ∧ m.state = .reactivating then .established else m.state

def CoreMachine.asksUpTo (next : Nat) : Prop :=
  m.wokenState = .established ∧ next > m.lastRequestedEnd

instance (next : Nat) : Decidable (m.asksUpTo next) := by
  unfold CoreMachine.asksUpTo
  infer_instance

/-- A keepalive, and a request for what is advertised past the cursor. -/
def CoreMachine.signalPackets (last next : Nat) (source : MsrSource) : List Packet :=
  (if m.role = .client ∧ keepaliveDue source m then [.msr last m.maxPendingId none] else []) ++
    if m.asksUpTo next then
      [.requestRange (m.lastRequestedEnd + 1) next last m.maxPendingId]
    else []

def CoreMachine.rxOn (p : Packet) : Rx × List Bytes :=
  m.rx.arriveOpt (if m.state = .established then p.arrival else none)

/-- The handler of the packet fails: a request for a message too large to be sent, or a
fragment that is refused. -/
def CoreMachine.fails : Packet → Bool
  | .requestRange start stop _ _ =>
    m.state = .established && (repliesTo m (requestedIds start stop)).isNone
  | .fragment id idx total chunk acked next =>
    m.state = .established && match (Packet.fragment id idx total chunk acked next).arrival with
      | none => !m.receivedIds.contains (id % 2 ^ 64)
      | some a => m.rx.rejects a
  | _ => false

/-- What the handler of the packet itself sends. -/
def CoreMachine.answers : Packet → List Packet
  | .control .clientHello =>
    if m.role = .server ∧ m.state = .preHandshake then [.control .serverHello] else []
  | .control .serverHello =>
    if m.role = .client ∧ (m.state = .preHandshake ∨ m.state = .reactivating) then
      [.control .helloAck]
    else []
  | .msr _ _ (some (.proposal id p)) =>
    [.msr m.lastOrderedRx m.maxPendingId
      (some (.ack id (validateTimerProposal m.cfg p).isOk))]
  | .requestRange start stop _ _ =>
    if m.state = .established then (repliesTo m (requestedIds start stop)).getD [] else []
  | _ => []

def CoreMachine.signalled (p : Packet) : List Packet :=
  match p.signal with
  | none => []
  | some (next, source) => m.signalPackets (m.rxOn p).1.last next source

/-- Everything sent back for a packet; a handler that fails takes it all with it. -/
def CoreMachine.replies (p : Packet) : List Packet :=
  if m.fails p then [] else m.answers p ++ m.signalled p

def CoreMachine.stateOn : Packet → LifecycleState
  | .control .clientHello | .control .helloAck =>
    if m.role = .server ∧ m.state = .preHandshake then .established else m.state
  | .control .serverHello =>
    if m.role = .client ∧ (m.state = .preHandshake ∨ m.state = .reactivating) then .established
    else m.state
  | .control .close | .control .error => .lost
  | .control _ => m.state
  | .msr .. | .requestRange .. | .data .. | .fragment .. => m.wokenState

def CoreMachine.cursorOn (p : Packet) : Nat :=
  match p.signal with
  | none => m.lastRequestedEnd
  | some (next, _) =>
    if ¬ m.fails p ∧ m.asksUpTo next then next else m.lastRequestedEnd

/-- The part of a machine that a renegotiation changes. -/
structure Timers where
  cfg : CoreConfig
  nextProposalId : UInt32
  pending : Option PendingRenegotiation

def CoreMachine.timers (m : CoreMachine) : Timers :=
  ⟨m.cfg, m.nextProposalId, m.pendingLocalProposal⟩

def CoreMachine.withTimers (m : CoreMachine) (t : Timers) : CoreMachine :=
  { m with cfg := t.cfg, nextProposalId := t.nextProposalId, pendingLocalProposal := t.pending }

@[simp] theorem CoreMachine.withTimers_timers (m : CoreMachine) : m.withTimers m.timers = m := rfl
@[simp] theorem CoreMachine.timers_withTimers (m : CoreMachine) (t : Timers) :
    (m.withTimers t).timers = t := rfl

/-- What one timer TLV does to the timers. -/
def Timers.on (t : Timers) : TimerTlv → Timers
  | .proposal _ p => if (validateTimerProposal t.cfg p).isOk then { t with cfg := p.toConfig } else t
  | .ack id accepted =>
    match t.pending with
    | none => t
    | some pending =>
      if pending.proposalId = id then
        { t with cfg := if accepted then pending.proposal.toConfig else t.cfg, pending := none }
      else t

def Packet.timer : Packet → Option TimerTlv
  | .msr _ _ timer => timer
  | _ => none

def CoreMachine.timersOn (p : Packet) : Timers :=
  match p.timer with
  | none => m.timers
  | some t => m.timers.on t

end Reactions

/-! ### The signal -/

def Ctx.said (c : Ctx) : List Bytes := c.out.outboundDatagrams.map OutboundDatagram.bytes

section Said
variable (c : Ctx)

@[simp] theorem Ctx.said_tell (e : Event) : (c.tell e).said = c.said := rfl
@[simp] theorem Ctx.said_schedule (id : TimerId) (d : UInt64) :
    (c.schedule id d).said = c.said := rfl

@[simp] theorem Ctx.said_send (src : UInt32) (p : Packet) :
    (c.send src p).said = c.said ++ [p.bytes c.self.cid] := by
  simp [Ctx.said, Ctx.send]

@[simp] theorem Ctx.said_sendAll (src : UInt32) (ps : List Packet) :
    (c.sendAll src ps).said = c.said ++ ps.map (Packet.bytes c.self.cid) := by
  induction ps generalizing c with
  | nil => simp [Ctx.sendAll]
  | cons p ps ih =>
    have h := ih (c.send src p)
    simp only [Ctx.said_send, Ctx.send_self, List.append_assoc] at h
    exact h

end Said

/-- What a handler, or the signal after it, has sent and where it has moved the machine. -/
structure Ctx.Moves (c : Ctx) (ps : List Packet) (state : LifecycleState) (cursor : Nat)
    (timers : Timers) (c' : Ctx) : Prop where
  said : c'.said = c.said ++ ps.map (Packet.bytes c.self.cid)
  state : c'.self.state = state
  cursor : c'.self.lastRequestedEnd = cursor
  timers : c'.self.timers = timers

theorem Ctx.noted_moves (nowMs : UInt64) (src : UInt32) (source : MsrSource) (c : Ctx) :
    c.Moves (if keepaliveDue source c.self then
        [.msr c.self.lastOrderedRx c.self.maxPendingId none] else [])
      (if c.self.state = .reactivating then .established else c.self.state)
      c.self.lastRequestedEnd c.self.timers (c.noted nowMs src source) := by
  by_cases hk : keepaliveDue source c.self <;> by_cases hr : c.self.state = .reactivating <;>
    constructor <;> simp [Ctx.noted, Ctx.sendIf, Ctx.tellIf, hk, hr, afterServerMsr] <;> rfl

theorem Ctx.requested_moves (src : UInt32) (next : Nat) (c : Ctx) :
    c.Moves (if c.self.state = .established ∧ next > c.self.lastRequestedEnd then
        [.requestRange (c.self.lastRequestedEnd + 1) next c.self.lastOrderedRx
          c.self.maxPendingId] else [])
      c.self.state
      (if c.self.state = .established ∧ next > c.self.lastRequestedEnd then next
        else c.self.lastRequestedEnd)
      c.self.timers (c.requested src next) := by
  by_cases h : c.self.state = .established ∧ next > c.self.lastRequestedEnd
  · simp only [Ctx.requested, if_pos h]
    exact ⟨by simp; rfl, rfl, rfl, rfl⟩
  · simp only [Ctx.requested, if_neg h]
    exact ⟨by simp, rfl, rfl, rfl⟩

theorem Ctx.noted_self (nowMs : UInt64) (src : UInt32) (source : MsrSource) (c : Ctx) :
    (c.noted nowMs src source).self = afterServerMsr nowMs source c.self := by
  simp only [Ctx.noted, Ctx.tellIf, Ctx.sendIf]
  split_ifs <;> rfl

theorem Ctx.Moves.trans {c c' c'' : Ctx} {ps qs : List Packet} {s s' : LifecycleState}
    {n n' : Nat} {t t' : Timers} (h : c.Moves ps s n t c') (h' : c'.Moves qs s' n' t' c'')
    (hcid : c'.self.cid = c.self.cid) : c.Moves (ps ++ qs) s' n' t' c'' where
  said := by rw [h'.said, h.said, hcid, List.map_append, List.append_assoc]
  state := h'.state
  cursor := h'.cursor
  timers := h'.timers

theorem Ctx.signalled_moves (nowMs : UInt64) (src : UInt32) (next : Nat) (source : MsrSource)
    (c : Ctx) :
    c.Moves (c.self.signalPackets c.self.lastOrderedRx next source) c.self.wokenState
      (if c.self.asksUpTo next then next else c.self.lastRequestedEnd) c.self.timers
      (c.signalled nowMs src next source) := by
  cases hrole : c.self.role with
  | client =>
    have hwoken : c.self.wokenState =
        if c.self.state = .reactivating then .established else c.self.state := by
      simp [CoreMachine.wokenState, hrole]
    have h := (c.noted_moves nowMs src source).trans
      (Ctx.requested_moves src next (c.noted nowMs src source)) (by rw [Ctx.noted_self]; rfl)
    simp only [Ctx.noted_self, afterServerMsr] at h
    simp only [Ctx.signalled, hrole, CoreMachine.signalPackets, true_and, CoreMachine.asksUpTo,
      hwoken]
    exact h
  | server =>
    have hwoken : c.self.wokenState = c.self.state := by simp [CoreMachine.wokenState, hrole]
    have h := Ctx.requested_moves src next c.heard
    simp only [Ctx.signalled, CoreMachine.signalPackets, hrole, reduceCtorEq, false_and, if_false,
      List.nil_append, CoreMachine.asksUpTo, hwoken]
    exact ⟨h.said, h.state, h.cursor, h.timers⟩

/-! ### The handlers -/

section Handlers
variable (nowMs : UInt64) (src : UInt32) (c : Ctx)

theorem Ctx.Moves.refl : c.Moves [] c.self.state c.self.lastRequestedEnd c.self.timers c :=
  ⟨by simp, rfl, rfl, rfl⟩

theorem Ctx.clientHello_moves :
    c.Moves (c.self.answers (.control .clientHello)) (c.self.stateOn (.control .clientHello))
      c.self.lastRequestedEnd c.self.timers (c.clientHello nowMs src) := by
  by_cases h : c.self.role = .server ∧ c.self.state = .preHandshake
  · rw [Ctx.clientHello, if_pos h, CoreMachine.answers, if_pos h, CoreMachine.stateOn, if_pos h]
    exact ⟨Ctx.said_send _ src (.control .serverHello), rfl, rfl, rfl⟩
  · rw [Ctx.clientHello, if_neg h, CoreMachine.answers, if_neg h, CoreMachine.stateOn, if_neg h]
    exact .refl c

theorem Ctx.serverHello_moves :
    c.Moves (c.self.answers (.control .serverHello)) (c.self.stateOn (.control .serverHello))
      c.self.lastRequestedEnd c.self.timers (c.serverHello nowMs src) := by
  by_cases h : c.self.role = .client ∧
    (c.self.state = .preHandshake ∨ c.self.state = .reactivating)
  · rw [Ctx.serverHello, if_pos h, CoreMachine.answers, if_pos h, CoreMachine.stateOn, if_pos h]
    exact ⟨Ctx.said_send _ src (.control .helloAck), rfl, rfl, rfl⟩
  · rw [Ctx.serverHello, if_neg h, CoreMachine.answers, if_neg h, CoreMachine.stateOn, if_neg h]
    exact .refl c

theorem Ctx.helloAck_moves :
    c.Moves [] (c.self.stateOn (.control .helloAck)) c.self.lastRequestedEnd c.self.timers
      (c.helloAck nowMs) := by
  by_cases h : c.self.role = .server ∧ c.self.state = .preHandshake
  · rw [Ctx.helloAck, if_pos h, CoreMachine.stateOn, if_pos h]
    exact ⟨by simp; rfl, rfl, rfl, rfl⟩
  · rw [Ctx.helloAck, if_neg h, CoreMachine.stateOn, if_neg h]
    exact .refl c

theorem Ctx.closed_moves : c.Moves [] .lost c.self.lastRequestedEnd c.self.timers c.closed :=
  ⟨by simp; rfl, rfl, rfl, rfl⟩

/-- A timer TLV changes the timers of the machine and nothing else in it. -/
def Ctx.timed : TimerTlv → Ctx → Ctx
  | .proposal id p => fun c => c.answered src id p
  | .ack id accepted => fun c => c.acked id accepted

theorem Ctx.timed_self (t : TimerTlv) :
    (c.timed src t).self = c.self.withTimers (c.self.timers.on t) := by
  cases t with
  | proposal id p =>
    cases h : (validateTimerProposal c.self.cfg p).isOk <;>
      simp [Ctx.timed, Ctx.answered, h, Timers.on, CoreMachine.timers, Ctx.setCfg] <;> rfl
  | ack id accepted =>
    cases hp : c.self.pendingLocalProposal with
    | none =>
      have ht : c.self.timers.on (.ack id accepted) = c.self.timers := by
        simp [Timers.on, CoreMachine.timers, hp]
      rw [ht, CoreMachine.withTimers_timers]
      simp only [Ctx.timed, Ctx.acked, hp]
    | some pending =>
      by_cases hid : pending.proposalId = id
      · cases accepted <;>
          simp [Ctx.timed, Ctx.acked, Timers.on, CoreMachine.timers, hp, hid, Ctx.setCfg,
            Ctx.resolved] <;> rfl
      · have ht : c.self.timers.on (.ack id accepted) = c.self.timers := by
          simp [Timers.on, CoreMachine.timers, hp, hid]
        rw [ht, CoreMachine.withTimers_timers]
        simp only [Ctx.timed, Ctx.acked, hp, hid, if_false]

theorem Ctx.timed_said (t : TimerTlv) (acked next : Nat) :
    (c.timed src t).said =
      c.said ++ (c.self.answers (.msr acked next (some t))).map (Packet.bytes c.self.cid) := by
  cases t with
  | proposal id p =>
    cases h : (validateTimerProposal c.self.cfg p).isOk <;>
      simp only [Ctx.timed, Ctx.answered, h, if_true, if_false, Bool.false_eq_true,
        CoreMachine.answers] <;>
      exact Ctx.said_send c src _
  | ack id accepted =>
    simp only [CoreMachine.answers, List.map_nil, List.append_nil, Ctx.timed, Ctx.acked]
    split
    · rfl
    · split_ifs <;> rfl

theorem handleTimerTlv_run (t : TimerTlv) :
    handleTimerTlv src t.encode c = .ok () (c.timed src t) := by
  cases t with
  | proposal id p =>
    have hkind : (TimerTlv.proposal id p).encode.kind = tlvTimerProposal := rfl
    rw [handleTimerTlv, if_pos hkind, TimerTlv.encode, handleTimerProposal_run,
      decodeTimerProposalTlv_encode]
    rfl
  | ack id accepted =>
    have hkind : (TimerTlv.ack id accepted).encode.kind = tlvTimerAck := rfl
    have hother : ¬ (TimerTlv.ack id accepted).encode.kind = tlvTimerProposal := by
      rw [hkind]
      decide
    rw [handleTimerTlv, if_neg hother, if_pos hkind, TimerTlv.encode, handleTimerAck_run,
      decodeTimerAckTlv_encode]
    rfl

/-- The timer part of an MSR. -/
def Ctx.timedOpt : Option TimerTlv → Ctx → Ctx
  | none => fun c => c
  | some t => fun c => c.timed src t

theorem handleTimerTlvs_run (t : Option TimerTlv) :
    handleTimerTlvs src (t.toList.map TimerTlv.encode) c = .ok () (c.timedOpt src t) := by
  cases t with
  | none => rfl
  | some t =>
    simp only [Option.toList, List.map_cons, List.map_nil, handleTimerTlvs, bind_run,
      handleTimerTlv_run]
    rfl

end Handlers

/-! ### A whole packet -/

/-- What a datagram that is the packet `p` does to `m`. -/
structure Reaction (m : CoreMachine) (p : Packet) (m' : CoreMachine) (res : CallResult) :
    Prop where
  said : res.output.outboundDatagrams.map OutboundDatagram.bytes =
    (m.replies p).map (Packet.bytes m.cid)
  state : m'.state = m.stateOn p
  cursor : m'.lastRequestedEnd = m.cursorOn p
  timers : m'.timers = m.timersOn p

section Packet
variable (m : CoreMachine) (nowMs : UInt64) (src : UInt32)

theorem piggybacked_packet {p : Packet} (h : p.messageType ≠ .msr) (c : Ctx) :
    c.piggybacked nowMs src (p.frame m.cid) = match p.signal with
      | none => c
      | some (next, _) => c.signalled nowMs src next .piggybackTlv := by
  have hm : (p.frame m.cid).messageType ≠ .msr := h
  rw [Ctx.piggybacked, if_pos hm]
  cases p with
  | control t => rfl
  | msr => exact absurd rfl h
  | requestRange | data | fragment =>
    simp [Packet.frame, WireFrame.new, Packet.tlvs, findMsrSignalTlv, encodeMsrSignalTlv,
      decodeMsrPayload_encode, Packet.signal]

theorem not_foreign (p : Packet) : ¬ foreign m (p.frame m.cid) := fun h => h.2 rfl

/-- A handler that fails has not moved the machine. -/
theorem Reaction.of_error {m : CoreMachine} {p : Packet} {bytes : Bytes} {frame : WireFrame}
    {e : CoreError} {c : Ctx} (hd : WireFrame.decode bytes = .ok frame) (hf : ¬ foreign m frame)
    (hrun : dispatch nowMs src frame (Ctx.received nowMs src ⟨m, {}⟩) = .error e c)
    (hreplies : m.replies p = []) (hstate : c.self.state = m.stateOn p)
    (hcursor : c.self.lastRequestedEnd = m.cursorOn p) (htimers : c.self.timers = m.timersOn p) :
    Reaction m p (onDatagram m nowMs src bytes).1 (onDatagram m nowMs src bytes).2 := by
  rw [onDatagram_run hd hf, hrun]
  exact ⟨by simp [hreplies], hstate, hcursor, htimers⟩

/-- A handler that has run, and the signal it carried after it. -/
theorem Reaction.of_ok {m : CoreMachine} {p : Packet} {bytes : Bytes} {frame : WireFrame}
    {c c' : Ctx} (hd : WireFrame.decode bytes = .ok frame) (hf : ¬ foreign m frame)
    (hrun : dispatch nowMs src frame (Ctx.received nowMs src ⟨m, {}⟩) = .ok () c)
    (hc' : c.piggybacked nowMs src frame = c')
    (hmoves : (Ctx.received nowMs src ⟨m, {}⟩).Moves (m.replies p) (m.stateOn p) (m.cursorOn p)
      (m.timersOn p) c') :
    Reaction m p (onDatagram m nowMs src bytes).1 (onDatagram m nowMs src bytes).2 := by
  rw [onDatagram_run hd hf, hrun]
  simp only [hc']
  exact ⟨hmoves.said, hmoves.state, hmoves.cursor, hmoves.timers⟩

theorem rxOn_of_none {p : Packet} (h : p.arrival = none) : m.rxOn p = (m.rx, []) := by
  rw [CoreMachine.rxOn, h, ite_self]
  rfl

theorem replies_of_ok {p : Packet} (h : m.fails p = false) {next : Nat} {source : MsrSource}
    (hs : p.signal = some (next, source)) :
    m.replies p = m.answers p ++ m.signalPackets (m.rxOn p).1.last next source := by
  simp [CoreMachine.replies, h, CoreMachine.signalled, hs]

theorem cursorOn_of_ok {p : Packet} (h : m.fails p = false) {next : Nat} {source : MsrSource}
    (hs : p.signal = some (next, source)) :
    m.cursorOn p = if m.asksUpTo next then next else m.lastRequestedEnd := by
  simp [CoreMachine.cursorOn, h, hs]

theorem replies_control (t : MessageType) :
    m.replies (.control t) = m.answers (.control t) := by
  simp [CoreMachine.replies, CoreMachine.fails, CoreMachine.signalled, Packet.signal]

theorem control_reaction (t : MessageType) :
    Reaction m (.control t) (onDatagram m nowMs src ((Packet.control t).bytes m.cid)).1
      (onDatagram m nowMs src ((Packet.control t).bytes m.cid)).2 := by
  have hd := Packet.decode_bytes (p := .control t) (Nat.zero_le _) m.cid
  have hf := not_foreign m (.control t)
  have hok : ∀ c, t ≠ .msr → dispatch nowMs src ((Packet.control t).frame m.cid)
      (Ctx.received nowMs src ⟨m, {}⟩) = .ok () c →
      (Ctx.received nowMs src ⟨m, {}⟩).Moves (m.answers (.control t)) (m.stateOn (.control t))
        m.lastRequestedEnd m.timers c →
      Reaction m (.control t) (onDatagram m nowMs src ((Packet.control t).bytes m.cid)).1
        (onDatagram m nowMs src ((Packet.control t).bytes m.cid)).2 := by
    intro c ht hrun hmoves
    refine .of_ok nowMs src hd hf hrun (piggybacked_packet m nowMs src (p := .control t) ht c) ?_
    rw [replies_control]
    exact hmoves
  have hquiet : (Ctx.received nowMs src ⟨m, {}⟩).Moves [] m.state m.lastRequestedEnd m.timers
      (Ctx.received nowMs src ⟨m, {}⟩) := .refl _
  cases t with
  | clientHello =>
    exact hok _ (by simp) (dispatch_clientHello nowMs src _ rfl) (Ctx.clientHello_moves nowMs src _)
  | serverHello =>
    exact hok _ (by simp) (dispatch_serverHello nowMs src _ rfl) (Ctx.serverHello_moves nowMs src _)
  | helloAck =>
    exact hok _ (by simp) (dispatch_helloAck nowMs src _ rfl) (Ctx.helloAck_moves nowMs _)
  | close => exact hok _ (by simp) (dispatch_close nowMs src _ (.inl rfl)) (Ctx.closed_moves _)
  | error => exact hok _ (by simp) (dispatch_close nowMs src _ (.inr rfl)) (Ctx.closed_moves _)
  | msr =>
    refine .of_error nowMs src hd hf (c := Ctx.received nowMs src ⟨m, {}⟩) (e := .malformedMsr) ?_
      (replies_control m .msr) rfl rfl rfl
    rw [dispatch_msr nowMs src _ rfl]
    rfl
  | requestRange =>
    by_cases hest : (Ctx.received nowMs src ⟨m, {}⟩).self.state = .established
    · refine .of_error nowMs src hd hf (c := Ctx.received nowMs src ⟨m, {}⟩) (e := .malformedRequestRange) ?_
        (replies_control m .requestRange) rfl rfl rfl
      rw [dispatch_requestRange nowMs src _ rfl, if_pos hest]
      rfl
    · refine hok _ (by simp) ?_ hquiet
      rw [dispatch_requestRange nowMs src _ rfl, if_neg hest]
  | data =>
    by_cases hest : (Ctx.received nowMs src ⟨m, {}⟩).self.state = .established
    · refine .of_error nowMs src hd hf (c := Ctx.received nowMs src ⟨m, {}⟩) (e := .malformedData) ?_
        (replies_control m .data) rfl rfl rfl
      rw [dispatch_data nowMs src _ rfl, if_pos hest]
      rfl
    · refine hok _ (by simp) ?_ hquiet
      rw [dispatch_data nowMs src _ rfl, if_neg hest]
  | fragment =>
    by_cases hest : (Ctx.received nowMs src ⟨m, {}⟩).self.state = .established
    · refine .of_error nowMs src hd hf (c := Ctx.received nowMs src ⟨m, {}⟩) (e := .malformedData) ?_
        (replies_control m .fragment) rfl rfl rfl
      rw [dispatch_fragment nowMs src _ rfl, if_pos hest]
      rfl
    · refine hok _ (by simp) ?_ hquiet
      rw [dispatch_fragment nowMs src _ rfl, if_neg hest]

theorem msr_reaction (acked next : Nat) (timer : Option TimerTlv) :
    Reaction m (.msr acked next timer)
      (onDatagram m nowMs src ((Packet.msr acked next timer).bytes m.cid)).1
      (onDatagram m nowMs src ((Packet.msr acked next timer).bytes m.cid)).2 := by
  have hsmall : (Packet.msr acked next timer).Small := by
    simp [Packet.Small, Packet.payload, maxDataPayloadPerFrame]
  have hd := Packet.decode_bytes hsmall m.cid
  have htimed : (Ctx.received nowMs src ⟨m, {}⟩).Moves (m.answers (.msr acked next timer)) m.state
      m.lastRequestedEnd (m.timersOn (.msr acked next timer))
      ((Ctx.received nowMs src ⟨m, {}⟩).timedOpt src timer) := by
    cases timer with
    | none => exact .refl _
    | some t =>
      have hsaid : ((Ctx.received nowMs src ⟨m, {}⟩).timed src t).said =
          (Ctx.received nowMs src ⟨m, {}⟩).said ++
            (m.answers (.msr acked next (some t))).map (Packet.bytes m.cid) := by
        rw [Ctx.timed_said src _ t acked next]
        cases t <;> rfl
      exact ⟨hsaid, by rw [Ctx.timedOpt, Ctx.timed_self]; rfl,
        by rw [Ctx.timedOpt, Ctx.timed_self]; rfl, by rw [Ctx.timedOpt, Ctx.timed_self]; rfl⟩
  have hself : ∃ t, ((Ctx.received nowMs src ⟨m, {}⟩).timedOpt src timer).self =
      (Ctx.received nowMs src ⟨m, {}⟩).self.withTimers t := by
    cases timer with
    | none => exact ⟨m.timers, rfl⟩
    | some t => exact ⟨_, Ctx.timed_self src _ t⟩
  obtain ⟨t, ht⟩ := hself
  have hsignal := Ctx.signalled_moves nowMs src (next % 2 ^ 64) .controlMsrFrame
    ((Ctx.received nowMs src ⟨m, {}⟩).timedOpt src timer)
  have hall := htimed.trans hsignal (by rw [ht]; rfl)
  refine .of_ok nowMs src hd (not_foreign m _)
    (c := ((Ctx.received nowMs src ⟨m, {}⟩).timedOpt src timer).signalled nowMs src (next % 2 ^ 64)
      .controlMsrFrame) ?_ (if_neg (by simp [Packet.frame, WireFrame.new, Packet.messageType])) ?_
  · rw [dispatch_msr nowMs src _ rfl]
    simp only [handleMsr, Packet.frame, WireFrame.new, Packet.payload, decodeMsrPayload_encode,
      bind_run, Packet.tlvs, handleTimerTlvs_run, handleMsrSignal_run]
  · rw [htimed.timers] at hall
    rw [ht] at hall
    rw [replies_of_ok m rfl rfl, cursorOn_of_ok m rfl rfl, rxOn_of_none m rfl]
    exact hall

theorem repliesTo_congr {m m' : CoreMachine} (hout : m.outboundMessages = m'.outboundMessages)
    (hlast : m.lastOrderedRx = m'.lastOrderedRx) (ids : List Nat) :
    repliesTo m ids = repliesTo m' ids := by
  have hone : ∀ id, replyPackets m id = replyPackets m' id := by
    intro id
    simp only [replyPackets, CoreMachine.maxPendingId, hout, hlast]
  induction ids with
  | nil => rfl
  | cons id ids ih => rw [repliesTo, repliesTo, hone, ih]

theorem wokenState_of_established (h : m.state = .established) : m.wokenState = .established := by
  simp [CoreMachine.wokenState, h]

/-- What is left to do after a handler that has run: the signal beside the packet. -/
theorem Reaction.of_handled {m : CoreMachine} {p : Packet} (hp : p.Small)
    (hm : p.messageType ≠ .msr) {next : Nat} (hs : p.signal = some (next, .piggybackTlv))
    (hok : m.fails p = false) {c : Ctx}
    (hrun : dispatch nowMs src (p.frame m.cid) (Ctx.received nowMs src ⟨m, {}⟩) = .ok () c)
    (hsaid : c.said = (m.answers p).map (Packet.bytes m.cid))
    (hself : c.self = (Ctx.received nowMs src ⟨m, {}⟩).self.withRx (m.rxOn p).1)
    (hstate : m.stateOn p = m.wokenState) (htimers : m.timersOn p = m.timers) :
    Reaction m p (onDatagram m nowMs src (p.bytes m.cid)).1
      (onDatagram m nowMs src (p.bytes m.cid)).2 := by
  have hsignal := Ctx.signalled_moves nowMs src next .piggybackTlv c
  have hpiggy := piggybacked_packet m nowMs src hm c
  rw [hs] at hpiggy
  refine .of_ok nowMs src (Packet.decode_bytes hp m.cid) (not_foreign m p) hrun hpiggy ?_
  rw [replies_of_ok m hok hs, cursorOn_of_ok m hok hs, hstate, htimers]
  rw [hself] at hsignal
  refine ⟨?_, hsignal.state, hsignal.cursor, hsignal.timers⟩
  rw [hsignal.said, hsaid, hself, List.map_append]
  rfl

theorem requestRange_reaction (start stop acked next : Nat) :
    Reaction m (.requestRange start stop acked next)
      (onDatagram m nowMs src ((Packet.requestRange start stop acked next).bytes m.cid)).1
      (onDatagram m nowMs src ((Packet.requestRange start stop acked next).bytes m.cid)).2 := by
  have hsmall : (Packet.requestRange start stop acked next).Small := by
    simp [Packet.Small, Packet.payload, maxDataPayloadPerFrame]
  have hdec : decodeRange ((Packet.requestRange start stop acked next).frame m.cid).payload =
      some (start % 2 ^ 64, stop % 2 ^ 64) := decodeRange_encode start stop
  have hrx := rxOn_of_none m (p := .requestRange start stop acked next) rfl
  by_cases hest : (Ctx.received nowMs src ⟨m, {}⟩).self.state = .established
  · have hest' : m.state = .established := hest
    have hall := replyAll_run src (requestedIds start stop) (Ctx.received nowMs src ⟨m, {}⟩)
    rw [@repliesTo_congr (Ctx.received nowMs src ⟨m, {}⟩).self m rfl rfl] at hall
    have hrun := @dispatch_requestRange nowMs src
      ((Packet.requestRange start stop acked next).frame m.cid) (Ctx.received nowMs src ⟨m, {}⟩) rfl
    rw [if_pos hest] at hrun
    simp only [handleRequestRange, hdec] at hrun
    cases hps : repliesTo m (requestedIds start stop) with
    | some ps =>
      simp only [hps] at hall
      refine .of_handled nowMs src hsmall (by simp [Packet.messageType]) rfl
        (by simp [CoreMachine.fails, hps]) (hrun.trans hall) ?_ ?_ rfl rfl
      · rw [Ctx.said_sendAll]
        simp [CoreMachine.answers, hest', hps]
        rfl
      · rw [Ctx.sendAll_self, hrx]
        rfl
    | none =>
      simp only [hps] at hall
      obtain ⟨ps, hps'⟩ := hall
      have hfails : m.fails (.requestRange start stop acked next) = true := by
        simp [CoreMachine.fails, hest', hps]
      refine .of_error nowMs src (Packet.decode_bytes hsmall m.cid) (not_foreign m _)
        (hrun.trans hps') ?_ ?_ ?_ ?_
      · simp [CoreMachine.replies, hfails]
      · rw [Ctx.sendAll_self]
        exact hest'.trans (wokenState_of_established m hest').symm
      · rw [Ctx.sendAll_self]
        simp [CoreMachine.cursorOn, Packet.signal, hfails]
        rfl
      · rw [Ctx.sendAll_self]
        rfl
  · have hest' : ¬ m.state = .established := hest
    refine .of_handled nowMs src hsmall (by simp [Packet.messageType]) rfl
      (by simp [CoreMachine.fails, hest']) (c := Ctx.received nowMs src ⟨m, {}⟩) ?_ ?_ ?_ rfl rfl
    · rw [dispatch_requestRange nowMs src _ rfl, if_neg hest]
    · simp [CoreMachine.answers, hest', Ctx.said]
      rfl
    · rw [hrx]
      rfl

theorem dataArrival_encode (id : Nat) (msg : Bytes) :
    dataArrival (BigEndian.write 8 id ++ msg) = .data (id % 2 ^ 64) msg := by
  simp only [dataArrival, BigEndian.take_write_append]
  norm_num

theorem fragmentArrival_encode (id idx total : Nat) (chunk : Bytes) (acked next : Nat) :
    fragmentArrival (fragmentPayload id idx total chunk) =
      (Packet.fragment id idx total chunk acked next).arrival := by
  simp only [fragmentArrival, fragmentPayload, List.append_assoc, BigEndian.take_write_append,
    Packet.arrival]
  norm_num

theorem data_reaction {id : Nat} {msg : Bytes} {acked next : Nat}
    (hp : (Packet.data id msg acked next).Small) :
    Reaction m (.data id msg acked next)
      (onDatagram m nowMs src ((Packet.data id msg acked next).bytes m.cid)).1
      (onDatagram m nowMs src ((Packet.data id msg acked next).bytes m.cid)).2 := by
  by_cases hest : (Ctx.received nowMs src ⟨m, {}⟩).self.state = .established
  · have hest' : m.state = .established := hest
    have hlen : 8 ≤ ((Packet.data id msg acked next).frame m.cid).payload.length := by
      simp [Packet.frame, WireFrame.new, Packet.payload]
    have harr : dataArrival ((Packet.data id msg acked next).frame m.cid).payload =
        .data (id % 2 ^ 64) msg := dataArrival_encode id msg
    refine .of_handled nowMs src hp (by simp [Packet.messageType]) rfl rfl
      (c := (Ctx.received nowMs src ⟨m, {}⟩).arrive (.data (id % 2 ^ 64) msg)) ?_ ?_ ?_ rfl rfl
    · rw [dispatch_data nowMs src _ rfl, if_pos hest, handleData_run _ hlen, harr]
    · rfl
    · rw [CoreMachine.rxOn, if_pos hest']
      rfl
  · have hest' : ¬ m.state = .established := hest
    refine .of_handled nowMs src hp (by simp [Packet.messageType]) rfl rfl
      (c := Ctx.received nowMs src ⟨m, {}⟩) ?_ rfl ?_ rfl rfl
    · rw [dispatch_data nowMs src _ rfl, if_neg hest]
    · rw [CoreMachine.rxOn, if_neg hest']
      rfl

theorem fragment_reaction {id idx total : Nat} {chunk : Bytes} {acked next : Nat}
    (hp : (Packet.fragment id idx total chunk acked next).Small) :
    Reaction m (.fragment id idx total chunk acked next)
      (onDatagram m nowMs src ((Packet.fragment id idx total chunk acked next).bytes m.cid)).1
      (onDatagram m nowMs src ((Packet.fragment id idx total chunk acked next).bytes m.cid)).2 := by
  generalize hq : Packet.fragment id idx total chunk acked next = p at hp ⊢
  by_cases hest : (Ctx.received nowMs src ⟨m, {}⟩).self.state = .established
  · have hest' : m.state = .established := hest
    have hpay : (p.frame m.cid).payload = fragmentPayload id idx total chunk := by
      subst hq
      rfl
    have hlen : 12 ≤ (p.frame m.cid).payload.length := by
      rw [hpay]
      simp
    have harr : fragmentArrival (p.frame m.cid).payload = p.arrival := by
      rw [hpay, ← hq]
      exact fragmentArrival_encode id idx total chunk acked next
    have hid : (BigEndian.take 8 (p.frame m.cid).payload).1 = id % 2 ^ 64 := by
      rw [hpay, fragmentPayload, List.append_assoc, List.append_assoc,
        BigEndian.take_write_append]
      norm_num
    have hrun := @dispatch_fragment nowMs src (p.frame m.cid) (Ctx.received nowMs src ⟨m, {}⟩)
      (by subst hq; rfl)
    rw [if_pos hest, handleFragment_run _ hlen, harr, hid] at hrun
    have hfail : ∀ {e c}, m.fails p = true →
        dispatch nowMs src (p.frame m.cid) (Ctx.received nowMs src ⟨m, {}⟩) = .error e c →
        c.self.state = m.state → c.self.lastRequestedEnd = m.lastRequestedEnd →
        c.self.timers = m.timers → Reaction m p (onDatagram m nowMs src (p.bytes m.cid)).1
          (onDatagram m nowMs src (p.bytes m.cid)).2 := by
      intro e c hf hr hstate hcursor htimers
      refine .of_error nowMs src (Packet.decode_bytes hp m.cid) (not_foreign m p) hr
        (by simp [CoreMachine.replies, hf]) ?_ ?_ ?_
      · subst hq
        exact (hstate.trans hest').trans (wokenState_of_established m hest').symm
      · subst hq
        simp [CoreMachine.cursorOn, Packet.signal, hf, hcursor]
      · subst hq
        exact htimers
    have hdone : ∀ {c}, m.fails p = false →
        dispatch nowMs src (p.frame m.cid) (Ctx.received nowMs src ⟨m, {}⟩) = .ok () c →
        c.said = [] → c.self = (Ctx.received nowMs src ⟨m, {}⟩).self.withRx (m.rxOn p).1 →
        Reaction m p (onDatagram m nowMs src (p.bytes m.cid)).1
          (onDatagram m nowMs src (p.bytes m.cid)).2 := by
      intro c hf hr hsaid hself
      subst hq
      exact .of_handled nowMs src hp (by simp [Packet.messageType]) rfl hf hr hsaid hself rfl rfl
    cases ha : p.arrival with
    | none =>
      have hrx := rxOn_of_none m ha
      simp only [ha] at hrun
      by_cases hin : m.receivedIds.contains (id % 2 ^ 64)
      · refine hdone ?_ (hrun.trans (if_pos hin)) rfl (by rw [hrx]; rfl)
        subst hq
        simp only [CoreMachine.fails, ha, hin]
        simp
      · refine hfail ?_ (hrun.trans (if_neg hin)) rfl rfl rfl
        subst hq
        simp only [CoreMachine.fails, ha, hin, hest']
        simp
    | some a =>
      have hrx : m.rxOn p = m.rx.arrive a := by rw [CoreMachine.rxOn, if_pos hest', ha]; rfl
      simp only [ha] at hrun
      by_cases hrej : m.rx.rejects a
      · refine hfail ?_ (hrun.trans (if_pos hrej)) rfl rfl rfl
        subst hq
        simp only [CoreMachine.fails, ha, hrej, hest']
        simp
      · refine hdone ?_ (hrun.trans (if_neg hrej)) rfl (by rw [hrx]; rfl)
        subst hq
        simp only [CoreMachine.fails, ha, hrej]
        simp
  · have hest' : ¬ m.state = .established := hest
    subst hq
    refine .of_handled nowMs src hp (by simp [Packet.messageType]) rfl
      (by simp [CoreMachine.fails, hest']) (c := Ctx.received nowMs src ⟨m, {}⟩) ?_ rfl ?_ rfl rfl
    · rw [dispatch_fragment nowMs src _ rfl, if_neg hest]
    · rw [CoreMachine.rxOn, if_neg hest']
      rfl

/-- What any packet of the peer does. -/
theorem packet_reaction {p : Packet} (hp : p.Small) :
    Reaction m p (onDatagram m nowMs src (p.bytes m.cid)).1
      (onDatagram m nowMs src (p.bytes m.cid)).2 := by
  cases p with
  | control t => exact control_reaction m nowMs src t
  | msr acked next timer => exact msr_reaction m nowMs src acked next timer
  | requestRange start stop acked next => exact requestRange_reaction m nowMs src start stop acked next
  | data => exact data_reaction m nowMs src hp
  | fragment => exact fragment_reaction m nowMs src hp

theorem packet_arrival {p : Packet} (hp : p.Small) :
    arrivalOf m (p.bytes m.cid) = if m.state = .established then p.arrival else none := by
  have harr : frameArrival (p.frame m.cid) = p.arrival := by
    cases p with
    | control t => cases t <;> rfl
    | msr | requestRange => rfl
    | data id msg acked next =>
      have hlen : 8 ≤ ((Packet.data id msg acked next).frame m.cid).payload.length := by
        simp [Packet.frame, WireFrame.new, Packet.payload]
      have htype : ((Packet.data id msg acked next).frame m.cid).messageType = .data := rfl
      simp only [frameArrival, htype, hlen, if_true]
      exact congrArg some (dataArrival_encode id msg)
    | fragment id idx total chunk acked next =>
      have hlen : 12 ≤ ((Packet.fragment id idx total chunk acked next).frame m.cid).payload.length := by
        simp [Packet.frame, WireFrame.new, Packet.payload]
      have htype : ((Packet.fragment id idx total chunk acked next).frame m.cid).messageType =
        .fragment := rfl
      simp only [frameArrival, htype, hlen, if_true]
      exact fragmentArrival_encode id idx total chunk acked next
  simp only [arrivalOf, Packet.decode_bytes hp m.cid, not_foreign m p, if_false, arrivalIn, harr]

end Packet

end Todero.Core
