import Todero.Packets

/-! Closed forms of the calls of the core: what each handler leaves in the machine
and in the output. No frame the core builds is too large for the encoder, so the
handlers below fail only where they throw an error of their own. -/
namespace Todero.Core
open Todero.Wire

theorem bind_run {α β : Type} (x : CoreM α) (f : α → CoreM β) (c : Ctx) :
    (x >>= f) c = match x c with
      | .ok a c' => f a c'
      | .error e c' => .error e c' := by
  cases h : x c <;> simp [bind, EStateM.bind, h]

theorem pure_run {α : Type} (a : α) (c : Ctx) : (pure a : CoreM α) c = .ok a c := rfl
theorem throw_run {α : Type} (e : CoreError) (c : Ctx) : (throw e : CoreM α) c = .error e c := rfl
theorem getSelf_run (c : Ctx) : getSelf c = .ok c.self c := rfl
theorem modifySelf_run (f : CoreMachine → CoreMachine) (c : Ctx) :
    modifySelf f c = .ok () { c with self := f c.self } := rfl

def Ctx.tell (c : Ctx) (e : Event) : Ctx :=
  { c with out := { c.out with events := c.out.events ++ [e] } }

def Ctx.schedule (c : Ctx) (id : TimerId) (deadlineMs : UInt64) : Ctx :=
  { c with out := { c.out with timerActions := c.out.timerActions ++ [.schedule id deadlineMs] } }

def Ctx.send (c : Ctx) (pathId : UInt32) (p : Packet) : Ctx :=
  { c with out := { c.out with
      outboundDatagrams := c.out.outboundDatagrams ++ [⟨pathId, p.bytes c.self.cid⟩] } }

theorem pushEvent_run (e : Event) (c : Ctx) : pushEvent e c = .ok () (c.tell e) := rfl
theorem pushSchedule_run (id : TimerId) (d : UInt64) (c : Ctx) :
    pushSchedule id d c = .ok () (c.schedule id d) := rfl

theorem ite_run {α : Type} (p : Prop) [Decidable p] (x y : CoreM α) (c : Ctx) :
    (if p then x else y) c = if p then x c else y c := by
  split_ifs <;> rfl

section Push
variable (pathId : UInt32) (c : Ctx)

theorem pushFrame_run {p : Packet} (h : p.Small) :
    pushFrame pathId p.messageType p.payload p.tlvs c = .ok () (c.send pathId p) := by
  simp only [pushFrame, bind_run, getSelf_run, Packet.encode_frame h]
  rfl

theorem pushControl_run (t : MessageType) :
    pushFrame pathId t [] [] c = .ok () (c.send pathId (.control t)) :=
  pushFrame_run pathId c (p := .control t) (Nat.zero_le _)

theorem pushMsr_run (acked next : Nat) :
    pushFrame pathId .msr (encodeMsrPayload acked next) [] c =
      .ok () (c.send pathId (.msr acked next none)) :=
  pushFrame_run pathId c (p := .msr acked next none)
    (by simp [Packet.Small, Packet.payload, maxDataPayloadPerFrame])

theorem pushProposal_run (acked next : Nat) (id : UInt32) (p : TimerProposal) :
    pushFrame pathId .msr (encodeMsrPayload acked next) [encodeTimerProposalTlv id p] c =
      .ok () (c.send pathId (.msr acked next (some (.proposal id p)))) :=
  pushFrame_run pathId c (p := .msr acked next (some (.proposal id p)))
    (by simp [Packet.Small, Packet.payload, maxDataPayloadPerFrame])

theorem pushAck_run (acked next : Nat) (id : UInt32) (accepted : Bool) :
    pushFrame pathId .msr (encodeMsrPayload acked next) [encodeTimerAckTlv id accepted] c =
      .ok () (c.send pathId (.msr acked next (some (.ack id accepted)))) :=
  pushFrame_run pathId c (p := .msr acked next (some (.ack id accepted)))
    (by simp [Packet.Small, Packet.payload, maxDataPayloadPerFrame])

theorem pushRequest_run (start stop acked next : Nat) :
    pushFrame pathId .requestRange (encodeRange start stop) [encodeMsrSignalTlv acked next] c =
      .ok () (c.send pathId (.requestRange start stop acked next)) :=
  pushFrame_run pathId c (p := .requestRange start stop acked next)
    (by simp [Packet.Small, Packet.payload, maxDataPayloadPerFrame])

theorem pushData_run {id : Nat} {msg : Bytes} (h : 8 + msg.length ≤ maxDataPayloadPerFrame)
    (acked next : Nat) :
    pushFrame pathId .data (BigEndian.write 8 id ++ msg) [encodeMsrSignalTlv acked next] c =
      .ok () (c.send pathId (.data id msg acked next)) :=
  pushFrame_run pathId c (p := .data id msg acked next)
    (by simpa [Packet.Small, Packet.payload] using h)

theorem pushFragment_run {id idx total : Nat} {chunk : Bytes}
    (h : 12 + chunk.length ≤ maxDataPayloadPerFrame) (acked next : Nat) :
    pushFrame pathId .fragment (fragmentPayload id idx total chunk)
        [encodeMsrSignalTlv acked next] c =
      .ok () (c.send pathId (.fragment id idx total chunk acked next)) :=
  pushFrame_run pathId c (p := .fragment id idx total chunk acked next)
    (by simpa [Packet.Small, Packet.payload] using h)

end Push

@[simp] theorem Ctx.tell_self (c : Ctx) (e : Event) : (c.tell e).self = c.self := rfl
@[simp] theorem Ctx.schedule_self (c : Ctx) (id : TimerId) (d : UInt64) :
    (c.schedule id d).self = c.self := rfl
@[simp] theorem Ctx.send_self (c : Ctx) (pathId : UInt32) (p : Packet) :
    (c.send pathId p).self = c.self := rfl

/-! ### The MSR signal -/

def keepaliveDue (source : MsrSource) (m : CoreMachine) : Prop :=
  source = .controlMsrFrame ∧
    saturatingAdd32 m.clientServerMsrRxSinceLastKeepalive 1 ≥ clientKeepaliveEveryServerMsr

instance (source : MsrSource) (m : CoreMachine) : Decidable (keepaliveDue source m) := by
  unfold keepaliveDue
  infer_instance

/-- The client's machine after a server MSR. -/
def afterServerMsr (nowMs : UInt64) (source : MsrSource) (m : CoreMachine) : CoreMachine :=
  { m with
    lastServerMsrAtMs := some nowMs
    clientServerMsrRxSinceLastKeepalive :=
      if keepaliveDue source m then 0
      else if source = .controlMsrFrame then
        saturatingAdd32 m.clientServerMsrRxSinceLastKeepalive 1
      else m.clientServerMsrRxSinceLastKeepalive
    state := if m.state = .reactivating then .established else m.state }

def Ctx.sendIf (c : Ctx) (p : Prop) [Decidable p] (pathId : UInt32) (packet : Packet) : Ctx :=
  if p then c.send pathId packet else c

def Ctx.tellIf (c : Ctx) (p : Prop) [Decidable p] (e : Event) : Ctx :=
  if p then c.tell e else c

def Ctx.noted (nowMs : UInt64) (src : UInt32) (source : MsrSource) (c : Ctx) : Ctx :=
  (({ c with self := afterServerMsr nowMs source c.self } : Ctx).sendIf
    (keepaliveDue source c.self) src (.msr c.self.lastOrderedRx c.self.maxPendingId none)).tellIf
    (c.self.state = .reactivating) .reactivated

theorem noteServerMsr_run (nowMs : UInt64) (src : UInt32) (source : MsrSource) (c : Ctx) :
    noteServerMsr nowMs src source c = .ok () (c.noted nowMs src source) := by
  by_cases hs : source = .controlMsrFrame <;>
    by_cases hn : saturatingAdd32 c.self.clientServerMsrRxSinceLastKeepalive 1 ≥
      clientKeepaliveEveryServerMsr <;>
    by_cases hr : c.self.state = .reactivating
  all_goals
    simp only [noteServerMsr, bind_run, modifySelf_run, getSelf_run, ite_run, pure_run,
      keepaliveDue, hs, hn, hr, if_true, if_false, pushMsr_run, pushEvent_run, true_and,
      false_and, and_self, Ctx.noted, Ctx.sendIf, Ctx.tellIf, afterServerMsr, Ctx.send_self] <;>
    rfl

/-- The request cursor jumps to an advertised id past it. -/
def Ctx.requested (src : UInt32) (next : Nat) (c : Ctx) : Ctx :=
  if c.self.state = .established ∧ next > c.self.lastRequestedEnd then
    (({ c with self := { c.self with lastRequestedEnd := next } } : Ctx).send src
      (.requestRange (c.self.lastRequestedEnd + 1) next c.self.lastOrderedRx
        c.self.maxPendingId)).tell (.requestRangeSent (c.self.lastRequestedEnd + 1) next)
  else c

theorem requestPending_run (src : UInt32) (next : Nat) (c : Ctx) :
    requestPending src next c = .ok () (c.requested src next) := by
  by_cases h : c.self.state = .established ∧ next > c.self.lastRequestedEnd <;>
    simp only [requestPending, bind_run, getSelf_run, ite_run, h, and_self, if_true, if_false,
      modifySelf_run, pushRequest_run, pushEvent_run, pure_run, Ctx.requested]

/-- The server's part of `handle_msr_signal`. -/
def Ctx.heard (c : Ctx) : Ctx :=
  { c with self := { c.self with serverConsecutiveMsrWithoutClientMsr := 0 } }

def Ctx.signalled (nowMs : UInt64) (src : UInt32) (next : Nat) (source : MsrSource)
    (c : Ctx) : Ctx :=
  (match c.self.role with
    | .client => c.noted nowMs src source
    | .server => c.heard).requested src next

theorem handleMsrSignal_run (nowMs : UInt64) (src : UInt32) (next : Nat) (source : MsrSource)
    (c : Ctx) :
    handleMsrSignal nowMs src next source c = .ok () (c.signalled nowMs src next source) := by
  cases h : c.self.role <;>
    simp only [handleMsrSignal, bind_run, getSelf_run, h, noteServerMsr_run, modifySelf_run,
      requestPending_run, Ctx.signalled, Ctx.heard]

/-! ### Timers -/

def Ctx.touched (nowMs : UInt64) (c : Ctx) : Ctx :=
  { c with self :=
    { c.self with disconnectDeadlineMs := some (nowMs + c.self.cfg.disconnectWindowMs) } }

theorem touchDisconnectDeadline_run (nowMs : UInt64) (c : Ctx) :
    touchDisconnectDeadline nowMs c = .ok () (c.touched nowMs) := rfl

def Ctx.serverTimers (nowMs : UInt64) (c : Ctx) : Ctx :=
  ((c.touched nowMs).schedule .serverMsr (nowMs + c.self.cfg.msrIntervalMs)).schedule
    .disconnect (nowMs + c.self.cfg.disconnectWindowMs)

theorem scheduleServerTimers_run (nowMs : UInt64) (c : Ctx) :
    scheduleServerTimers nowMs c = .ok () (c.serverTimers nowMs) := rfl

def Ctx.clientTimers (nowMs : UInt64) (c : Ctx) : Ctx :=
  ((({ c with self := { c.self with
        lastServerMsrAtMs := some nowMs
        clientServerMsrRxSinceLastKeepalive := 0 } } : Ctx).touched nowMs).schedule
    .clientProbe (nowMs + c.self.cfg.msrIntervalMs)).schedule
    .disconnect (nowMs + c.self.cfg.disconnectWindowMs)

theorem scheduleClientTimers_run (nowMs : UInt64) (c : Ctx) :
    scheduleClientTimers nowMs c = .ok () (c.clientTimers nowMs) := rfl

/-! ### Timer TLVs -/

def Ctx.setCfg (cfg : CoreConfig) (c : Ctx) : Ctx := { c with self := { c.self with cfg := cfg } }

/-- The acceptor's answer to a proposal. -/
def Ctx.answered (src : UInt32) (id : UInt32) (p : TimerProposal) (c : Ctx) : Ctx :=
  let accepted := (validateTimerProposal c.self.cfg p).isOk
  let c' := c.send src (.msr c.self.lastOrderedRx c.self.maxPendingId (some (.ack id accepted)))
  if accepted then (c'.setCfg p.toConfig).tell (.timerRenegotiationCommitted id)
  else c'.tell (.timerRenegotiationRejected id)

theorem handleTimerProposal_run (src : UInt32) (tlv : Tlv) (c : Ctx) :
    handleTimerProposal src tlv c = match decodeTimerProposalTlv tlv with
      | none => .error .malformedTimerProposal c
      | some (id, p) => .ok () (c.answered src id p) := by
  cases hd : decodeTimerProposalTlv tlv with
  | none => simp only [handleTimerProposal, hd, throw_run]
  | some d =>
    obtain ⟨id, p⟩ := d
    cases hv : (validateTimerProposal c.self.cfg p).isOk <;>
      simp only [handleTimerProposal, hd, bind_run, getSelf_run, pushAck_run, modifySelf_run,
        pushEvent_run, hv, if_true, if_false, Bool.false_eq_true, Ctx.answered, Ctx.setCfg]

def Ctx.resolved (c : Ctx) : Ctx :=
  { c with self := { c.self with pendingLocalProposal := none } }

/-- The proposer's side of an ack: nothing, unless it names the pending proposal. -/
def Ctx.acked (id : UInt32) (accepted : Bool) (c : Ctx) : Ctx :=
  match c.self.pendingLocalProposal with
  | none => c
  | some pending =>
    if pending.proposalId = id then
      (if accepted then
        (c.setCfg pending.proposal.toConfig).tell (.timerRenegotiationCommitted id)
      else c.tell (.timerRenegotiationRejected id)).resolved
    else c

theorem handleTimerAck_run (tlv : Tlv) (c : Ctx) :
    handleTimerAck tlv c = match decodeTimerAckTlv tlv with
      | none => .error .malformedTimerAck c
      | some (id, accepted) => .ok () (c.acked id accepted) := by
  cases hd : decodeTimerAckTlv tlv with
  | none => simp only [handleTimerAck, hd, throw_run]
  | some d =>
    obtain ⟨id, accepted⟩ := d
    cases hp : c.self.pendingLocalProposal with
    | none => simp only [handleTimerAck, hd, bind_run, getSelf_run, hp, pure_run, Ctx.acked]
    | some pending =>
      by_cases hid : pending.proposalId = id <;> cases accepted <;>
        simp only [handleTimerAck, hd, bind_run, getSelf_run, hp, ite_run, modifySelf_run,
          pushEvent_run, pure_run, hid, if_true, if_false, Bool.false_eq_true, Ctx.acked,
          Ctx.setCfg, Ctx.resolved]

/-! ### Range requests -/

def Ctx.sendAll (src : UInt32) (ps : List Packet) (c : Ctx) : Ctx :=
  ps.foldl (fun c p => c.send src p) c

@[simp] theorem Ctx.sendAll_self (src : UInt32) (ps : List Packet) (c : Ctx) :
    (c.sendAll src ps).self = c.self := by
  induction ps generalizing c with
  | nil => rfl
  | cons p ps ih => exact ih (c.send src p)

theorem Ctx.sendAll_append (src : UInt32) (ps qs : List Packet) (c : Ctx) :
    c.sendAll src (ps ++ qs) = (c.sendAll src ps).sendAll src qs :=
  List.foldl_append

/-- Bytes of message in a full `Fragment`. -/
def chunkSize : Nat := maxDataPayloadPerFrame - fragmentHeaderLen

def fragmentCount (msg : Bytes) : Nat := msg.length ⌈/⌉ chunkSize

/-- The frames that answer a request for one id; `none` for a message of more
fragments than a 16-bit count can say. -/
def replyPackets (m : CoreMachine) (id : Nat) : Option (List Packet) :=
  match m.outboundMessages[id]? with
  | none => some []
  | some msg =>
    if 8 + msg.length ≤ maxDataPayloadPerFrame then
      some [.data id msg m.lastOrderedRx m.maxPendingId]
    else if fragmentCount msg > 65535 then none
    else some ((chunks chunkSize msg).zipIdx.map fun (chunk, idx) =>
      .fragment id idx (fragmentCount msg) chunk m.lastOrderedRx m.maxPendingId)

theorem mem_chunks_zipIdx {size idx : Nat} {msg chunk : Bytes} :
    (chunk, idx) ∈ (chunks size msg).zipIdx ↔
      idx < msg.length ⌈/⌉ size ∧ chunk = (msg.drop (idx * size)).take size := by
  rw [List.mem_zipIdx_iff_getElem?]
  by_cases h : idx < msg.length ⌈/⌉ size <;> simp [chunks, h, eq_comm]

theorem pushFragments_run (src : UInt32) (id total : Nat) (l : List (Bytes × Nat)) (c : Ctx)
    (hl : ∀ x ∈ l, x.1.length ≤ chunkSize ∧ x.2 ≤ 65535) :
    pushFragments src id total l c = .ok () (c.sendAll src (l.map fun (chunk, idx) =>
      .fragment id idx total chunk c.self.lastOrderedRx c.self.maxPendingId)) := by
  induction l generalizing c with
  | nil => rfl
  | cons x l ih =>
    obtain ⟨chunk, idx⟩ := x
    have hx := hl (chunk, idx) (by simp)
    have hchunk : 12 + chunk.length ≤ maxDataPayloadPerFrame := by
      have : chunk.length ≤ 988 := hx.1
      simp only [maxDataPayloadPerFrame]
      omega
    have hidx : ¬ idx > 65535 := by
      have : idx ≤ 65535 := hx.2
      omega
    simp only [pushFragments, bind_run, hidx, if_false, getSelf_run,
      pushFragment_run src c hchunk]
    rw [ih _ fun y hy => hl y (List.mem_cons_of_mem _ hy)]
    rfl

theorem replyWith_run (src : UInt32) (id : Nat) (c : Ctx) :
    replyWith src id c = match replyPackets c.self id with
      | some ps => .ok () (c.sendAll src ps)
      | none => .error .malformedData c := by
  cases hm : c.self.outboundMessages[id]? with
  | none => simp only [replyWith, bind_run, getSelf_run, hm, replyPackets]; rfl
  | some msg =>
    by_cases hsmall : 8 + msg.length ≤ maxDataPayloadPerFrame
    · simp only [replyWith, bind_run, getSelf_run, hm, replyPackets, hsmall, if_true, ite_run,
        pushData_run src c hsmall]
      rfl
    · have hsize : ¬ maxDataPayloadPerFrame - fragmentHeaderLen = 0 := by decide
      by_cases hbig : fragmentCount msg > 65535
      · have hbig' : msg.length ⌈/⌉ (maxDataPayloadPerFrame - fragmentHeaderLen) > 65535 := hbig
        simp only [replyWith, bind_run, getSelf_run, hm, replyPackets, hsmall, if_false, ite_run,
          hsize, hbig, hbig', if_true, throw_run]
      · have hbig' : ¬ msg.length ⌈/⌉ (maxDataPayloadPerFrame - fragmentHeaderLen) > 65535 := hbig
        simp only [replyWith, bind_run, getSelf_run, hm, replyPackets, hsmall, if_false, ite_run,
          hsize, hbig, hbig']
        apply pushFragments_run
        rintro ⟨chunk, idx⟩ hx
        obtain ⟨hidx, rfl⟩ := mem_chunks_zipIdx.mp hx
        refine ⟨by simp [chunkSize], ?_⟩
        change idx < fragmentCount msg at hidx
        change idx ≤ 65535
        omega

/-- All the frames that answer a request, in order. -/
def repliesTo (m : CoreMachine) : List Nat → Option (List Packet)
  | [] => some []
  | id :: ids => (replyPackets m id).bind fun ps => (repliesTo m ids).map fun qs => ps ++ qs

/-- The frames already pushed when a message too large stops the loop go with the
rest of the output. -/
theorem replyAll_run (src : UInt32) (ids : List Nat) (c : Ctx) :
    match repliesTo c.self ids with
    | some ps => replyAll src ids c = .ok () (c.sendAll src ps)
    | none => ∃ ps, replyAll src ids c = .error .malformedData (c.sendAll src ps) := by
  induction ids generalizing c with
  | nil => rfl
  | cons id ids ih =>
    have hrun := replyWith_run src id c
    cases hp : replyPackets c.self id with
    | none =>
      simp only [hp] at hrun
      simp only [repliesTo, hp, Option.bind_none, replyAll, bind_run, hrun]
      exact ⟨[], rfl⟩
    | some ps =>
      simp only [hp] at hrun
      have htail := ih (c.sendAll src ps)
      rw [Ctx.sendAll_self] at htail
      simp only [repliesTo, hp, Option.bind_some, replyAll, bind_run, hrun]
      cases hq : repliesTo c.self ids with
      | none =>
        simp only [hq] at htail
        obtain ⟨qs, hqs⟩ := htail
        exact ⟨ps ++ qs, by rw [hqs, Ctx.sendAll_append]⟩
      | some qs =>
        simp only [hq] at htail
        simp only [Option.map_some]
        rw [htail, Ctx.sendAll_append]

/-- A request is answered in full, or refused, and then what was sent goes with the output. -/
theorem handleRequestRange_run (src : UInt32) (payload : Bytes) (c : Ctx) :
    decodeRange payload = none ∧
        handleRequestRange src payload c = .error .malformedRequestRange c ∨
      (∃ ps, handleRequestRange src payload c = .error .malformedData (c.sendAll src ps)) ∨
      ∃ d ps, decodeRange payload = some d ∧
        repliesTo c.self (List.range' d.1 (d.2 + 1 - d.1)) = some ps ∧
        handleRequestRange src payload c = .ok () (c.sendAll src ps) := by
  cases hd : decodeRange payload with
  | none =>
    refine .inl ⟨rfl, ?_⟩
    simp only [handleRequestRange, hd, throw_run]
  | some d =>
    have hall := replyAll_run src (List.range' d.1 (d.2 + 1 - d.1)) c
    simp only [handleRequestRange, hd]
    cases hps : repliesTo c.self (List.range' d.1 (d.2 + 1 - d.1)) with
    | none =>
      simp only [hps] at hall
      exact .inr (.inl hall)
    | some ps =>
      simp only [hps] at hall
      exact .inr (.inr ⟨d, ps, rfl, hps, hall⟩)

/-! ### One datagram -/

def Ctx.validated (nowMs : UInt64) (c : Ctx) : Ctx :=
  { c with self := { c.self with
      lastServerMsrAtMs :=
        if c.self.state = .established ∧ c.self.role = .client then some nowMs
        else c.self.lastServerMsrAtMs
      serverConsecutiveMsrWithoutClientMsr :=
        if c.self.state = .established ∧ c.self.role = .server then 0
        else c.self.serverConsecutiveMsrWithoutClientMsr } }

theorem onValidPeerDatagram_run (nowMs : UInt64) (c : Ctx) :
    onValidPeerDatagram nowMs c = .ok () (c.validated nowMs) := by
  simp only [onValidPeerDatagram, modifySelf_run, Ctx.validated]
  by_cases hest : c.self.state = .established
  · rw [if_neg (not_not.mpr hest)]
    split
    · rename_i hrole
      simp only [hest, hrole, and_self, if_true, reduceCtorEq, and_false, if_false]
    · rename_i hrole
      simp only [hest, hrole, and_self, if_true, reduceCtorEq, and_false, if_false]
  · simp only [hest, ne_eq, not_false_eq_true, if_true, false_and, if_false]

/-- What every frame of the machine's own cid does before it is looked at. -/
def Ctx.received (nowMs : UInt64) (src : UInt32) (c : Ctx) : Ctx :=
  (({ c with self := { c.self with currentPathId := src } } : Ctx).touched nowMs).validated nowMs

def foreign (m : CoreMachine) (frame : WireFrame) : Prop := m.cid ≠ 0 ∧ frame.cid ≠ m.cid

instance (m : CoreMachine) (frame : WireFrame) : Decidable (foreign m frame) := by
  unfold foreign
  infer_instance

theorem onFrame_run (nowMs : UInt64) (src : UInt32) (frame : WireFrame) (c : Ctx) :
    onFrame nowMs src frame c =
      if foreign c.self frame then .error (.cidMismatch c.self.cid frame.cid) c
      else (dispatch nowMs src frame >>= fun _ => piggyback nowMs src frame)
        (c.received nowMs src) := by
  by_cases h : c.self.cid ≠ 0 ∧ frame.cid ≠ c.self.cid
  · simp only [onFrame, bind_run, getSelf_run, foreign, h, not_false_eq_true, and_self,
      if_true, throw_run, ne_eq]
  · simp only [onFrame, bind_run, getSelf_run, foreign, h, if_false, modifySelf_run,
      touchDisconnectDeadline_run, onValidPeerDatagram_run]
    rfl

def Ctx.piggybacked (nowMs : UInt64) (src : UInt32) (frame : WireFrame) (c : Ctx) : Ctx :=
  if frame.messageType ≠ .msr then
    match findMsrSignalTlv frame.tlvs with
    | none => c
    | some (_, next) => c.signalled nowMs src next .piggybackTlv
  else c

theorem piggyback_run (nowMs : UInt64) (src : UInt32) (frame : WireFrame) (c : Ctx) :
    piggyback nowMs src frame c = .ok () (c.piggybacked nowMs src frame) := by
  by_cases h : frame.messageType ≠ .msr
  · cases hf : findMsrSignalTlv frame.tlvs with
    | none => simp only [piggyback, h, if_true, hf, pure_run, Ctx.piggybacked, ne_eq,
        not_false_eq_true]
    | some s => simp only [piggyback, h, if_true, hf, handleMsrSignal_run, Ctx.piggybacked, ne_eq,
        not_false_eq_true]
  · simp only [piggyback, h, if_false, pure_run, Ctx.piggybacked]

/-- `on_datagram` of a frame of the machine's own cid. -/
theorem onDatagram_run {m : CoreMachine} {bytes : Bytes} {frame : WireFrame}
    (hd : WireFrame.decode bytes = .ok frame) (hf : ¬ foreign m frame) (nowMs : UInt64)
    (src : UInt32) :
    onDatagram m nowMs src bytes =
      match dispatch nowMs src frame (Ctx.received nowMs src ⟨m, {}⟩) with
      | .ok _ c => ((c.piggybacked nowMs src frame).self, .ok (c.piggybacked nowMs src frame).out)
      | .error e c => (c.self, .error e) := by
  simp only [onDatagram, hd, CoreMachine.call, onFrame_run, hf, if_false, bind_run]
  cases dispatch nowMs src frame (Ctx.received nowMs src ⟨m, {}⟩) with
  | ok a c => simp only [piggyback_run]
  | error e c => rfl

def Ctx.enter (state : LifecycleState) (c : Ctx) : Ctx :=
  { c with self := { c.self with state := state } }

def Ctx.clientHello (nowMs : UInt64) (src : UInt32) (c : Ctx) : Ctx :=
  if c.self.role = .server ∧ c.self.state = .preHandshake then
    (((c.enter .established).tell .handshakeEstablished).send src
      (.control .serverHello)).serverTimers nowMs
  else c

def Ctx.serverHello (nowMs : UInt64) (src : UInt32) (c : Ctx) : Ctx :=
  if c.self.role = .client ∧ (c.self.state = .preHandshake ∨ c.self.state = .reactivating) then
    (((c.enter .established).send src (.control .helloAck)).tell
      (if c.self.state = .reactivating then .reactivated else .handshakeEstablished)).clientTimers
        nowMs
  else c

def Ctx.helloAck (nowMs : UInt64) (c : Ctx) : Ctx :=
  if c.self.role = .server ∧ c.self.state = .preHandshake then
    ((c.enter .established).tell .handshakeEstablished).serverTimers nowMs
  else c

def Ctx.closed (c : Ctx) : Ctx := (c.enter .lost).tell .disconnected

section Dispatch
variable (nowMs : UInt64) (src : UInt32) {frame : WireFrame} (c : Ctx)

theorem dispatch_clientHello (h : frame.messageType = .clientHello) :
    dispatch nowMs src frame c = .ok () (c.clientHello nowMs src) := by
  simp only [dispatch, bind_run, getSelf_run, h, ite_run]
  by_cases hc : c.self.role = .server ∧ c.self.state = .preHandshake
  · rw [if_pos hc, Ctx.clientHello, if_pos hc]
    simp only [modifySelf_run, pushEvent_run, pushControl_run, scheduleServerTimers_run]
    rfl
  · rw [if_neg hc, Ctx.clientHello, if_neg hc, pure_run]

theorem dispatch_serverHello (h : frame.messageType = .serverHello) :
    dispatch nowMs src frame c = .ok () (c.serverHello nowMs src) := by
  simp only [dispatch, bind_run, getSelf_run, h, ite_run]
  by_cases hc : c.self.role = .client ∧
      (c.self.state = .preHandshake ∨ c.self.state = .reactivating)
  · rw [if_pos hc, Ctx.serverHello, if_pos hc]
    simp only [modifySelf_run, pushControl_run, pushEvent_run, scheduleClientTimers_run]
    rfl
  · rw [if_neg hc, Ctx.serverHello, if_neg hc, pure_run]

theorem dispatch_helloAck (h : frame.messageType = .helloAck) :
    dispatch nowMs src frame c = .ok () (c.helloAck nowMs) := by
  simp only [dispatch, bind_run, getSelf_run, h, ite_run]
  by_cases hc : c.self.role = .server ∧ c.self.state = .preHandshake
  · rw [if_pos hc, Ctx.helloAck, if_pos hc]
    simp only [modifySelf_run, pushEvent_run, scheduleServerTimers_run]
    rfl
  · rw [if_neg hc, Ctx.helloAck, if_neg hc, pure_run]

theorem dispatch_msr (h : frame.messageType = .msr) :
    dispatch nowMs src frame c = handleMsr nowMs src frame c := by
  simp only [dispatch, bind_run, getSelf_run, h]

theorem dispatch_requestRange (h : frame.messageType = .requestRange) :
    dispatch nowMs src frame c =
      if c.self.state = .established then handleRequestRange src frame.payload c
      else .ok () c := by
  simp only [dispatch, bind_run, getSelf_run, h, ite_run, pure_run]

theorem dispatch_data (h : frame.messageType = .data) :
    dispatch nowMs src frame c =
      if c.self.state = .established then handleData frame.payload c else .ok () c := by
  simp only [dispatch, bind_run, getSelf_run, h, ite_run, pure_run]

theorem dispatch_fragment (h : frame.messageType = .fragment) :
    dispatch nowMs src frame c =
      if c.self.state = .established then handleFragment frame.payload c else .ok () c := by
  simp only [dispatch, bind_run, getSelf_run, h, ite_run, pure_run]

theorem dispatch_close (h : frame.messageType = .close ∨ frame.messageType = .error) :
    dispatch nowMs src frame c = .ok () c.closed := by
  rcases h with h | h <;>
    simp only [dispatch, bind_run, getSelf_run, h, modifySelf_run, pushEvent_run] <;> rfl

end Dispatch

end Todero.Core
