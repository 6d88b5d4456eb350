import Todero.OutOfSession
import Todero.World

/-! What any call of a machine puts out, whatever it is given: packets of its own cid, the
timers it schedules, and the timer TLVs it has worked off. -/
namespace Todero.Core
open Todero.Wire

/-- From `c` to `c'` the timer TLVs `ts` were worked off, the timers `as` scheduled, and
only packets of the machine's own cid sent. -/
structure Ctx.Emits (ts : List TimerTlv) (as : List TimerAction) (c c' : Ctx) : Prop where
  cid : c'.self.cid = c.self.cid
  timers : c'.self.timers = ts.foldl Timers.on c.self.timers
  deadline : c.self.disconnectDeadlineMs.isSome → c'.self.disconnectDeadlineMs.isSome
  scheduled : c'.out.timerActions = c.out.timerActions ++ as
  said : ∃ ps : List Packet, (∀ p ∈ ps, p.Small) ∧
    c'.said = c.said ++ ps.map (Packet.bytes c.self.cid)

namespace Ctx.Emits
variable {ts us : List TimerTlv} {as bs : List TimerAction} {c c' c'' : Ctx}

theorem refl (c : Ctx) : Emits [] [] c c :=
  ⟨rfl, rfl, id, by simp, [], by simp, by simp⟩

/-- The earlier move second, as the contexts are nested. -/
theorem after (h' : Emits us bs c' c'') (h : Emits ts as c c') :
    Emits (ts ++ us) (as ++ bs) c c'' where
  cid := h'.cid.trans h.cid
  timers := by rw [h'.timers, h.timers, List.foldl_append]
  deadline := fun hd => h'.deadline (h.deadline hd)
  scheduled := by rw [h'.scheduled, h.scheduled, List.append_assoc]
  said := by
    obtain ⟨ps, hps, hsaid⟩ := h.said
    obtain ⟨qs, hqs, hsaid'⟩ := h'.said
    refine ⟨ps ++ qs, List.forall_mem_append.mpr ⟨hps, hqs⟩, ?_⟩
    rw [hsaid', hsaid, h.cid, List.map_append, List.append_assoc]

theorem self {m : CoreMachine} (hcid : m.cid = c.self.cid) (htimers : m.timers = c.self.timers)
    (hdeadline : c.self.disconnectDeadlineMs.isSome → m.disconnectDeadlineMs.isSome) :
    Emits [] [] c { c with self := m } :=
  ⟨hcid, htimers, hdeadline, by simp, [], by simp, by simp [Ctx.said]⟩

theorem tell (c : Ctx) (e : Event) : Emits [] [] c (c.tell e) :=
  ⟨rfl, rfl, id, by simp [Ctx.tell], [], by simp, by simp⟩

theorem schedule (c : Ctx) (id : TimerId) (d : UInt64) :
    Emits [] [.schedule id d] c (c.schedule id d) :=
  ⟨rfl, rfl, fun h => h, rfl, [], by simp, by simp⟩

theorem send (c : Ctx) (pathId : UInt32) {p : Packet} (hp : p.Small) :
    Emits [] [] c (c.send pathId p) :=
  ⟨rfl, rfl, id, by simp [Ctx.send], [p], by simpa using hp, by simp⟩

theorem sendAll (src : UInt32) {ps : List Packet} (hps : ∀ p ∈ ps, p.Small) (c : Ctx) :
    Emits [] [] c (c.sendAll src ps) := by
  induction ps generalizing c with
  | nil => exact refl c
  | cons p ps ih =>
    have hp := List.forall_mem_cons.mp hps
    exact (ih hp.2 _).after (send c src hp.1)

theorem touched (nowMs : UInt64) (c : Ctx) : Emits [] [] c (c.touched nowMs) :=
  self rfl rfl fun _ => rfl

theorem validated (nowMs : UInt64) (c : Ctx) : Emits [] [] c (c.validated nowMs) :=
  self rfl rfl id

theorem received (nowMs : UInt64) (src : UInt32) (c : Ctx) :
    Emits [] [] c (c.received nowMs src) := by
  have hpath : Emits [] [] c { c with self := { c.self with currentPathId := src } } :=
    self rfl rfl id
  exact (validated nowMs _).after ((touched nowMs _).after hpath)

theorem sendIf (c : Ctx) (p : Prop) [Decidable p] (pathId : UInt32) {packet : Packet}
    (h : packet.Small) : Emits [] [] c (c.sendIf p pathId packet) := by
  unfold Ctx.sendIf
  split_ifs
  · exact send c pathId h
  · exact refl c

theorem tellIf (c : Ctx) (p : Prop) [Decidable p] (e : Event) :
    Emits [] [] c (c.tellIf p e) := by
  unfold Ctx.tellIf
  split_ifs
  · exact tell c e
  · exact refl c

theorem noted (nowMs : UInt64) (src : UInt32) (source : MsrSource) (c : Ctx) :
    Emits [] [] c (c.noted nowMs src source) := by
  have hself : Emits [] [] c { c with self := afterServerMsr nowMs source c.self } :=
    self rfl rfl id
  have hsmall : (Packet.msr c.self.lastOrderedRx c.self.maxPendingId none).Small :=
    small_of_short (by simp [Packet.payload])
  exact (tellIf _ _ _).after ((sendIf _ _ _ hsmall).after hself)

theorem requested (src : UInt32) (next : Nat) (c : Ctx) :
    Emits [] [] c (c.requested src next) := by
  unfold Ctx.requested
  split_ifs
  · have hself : Emits [] [] c { c with self := { c.self with lastRequestedEnd := next } } :=
      self rfl rfl id
    have hsmall : (Packet.requestRange (c.self.lastRequestedEnd + 1) next c.self.lastOrderedRx
        c.self.maxPendingId).Small := small_of_short (by simp [Packet.payload])
    exact (tell _ _).after ((send _ _ hsmall).after hself)
  · exact refl c

theorem heard (c : Ctx) : Emits [] [] c c.heard := self rfl rfl id

theorem signalled (nowMs : UInt64) (src : UInt32) (next : Nat) (source : MsrSource) (c : Ctx) :
    Emits [] [] c (c.signalled nowMs src next source) := by
  unfold Ctx.signalled
  split
  · exact (requested src next _).after (noted nowMs src source c)
  · exact (requested src next _).after (heard c)

theorem piggybacked (nowMs : UInt64) (src : UInt32) (frame : WireFrame) (c : Ctx) :
    Emits [] [] c (c.piggybacked nowMs src frame) := by
  unfold Ctx.piggybacked
  split_ifs
  · split
    · exact refl c
    · exact signalled nowMs src _ _ c
  · exact refl c

theorem serverTimers (nowMs : UInt64) (c : Ctx) :
    Emits [] [.schedule .serverMsr (nowMs + c.self.cfg.msrIntervalMs),
      .schedule .disconnect (nowMs + c.self.cfg.disconnectWindowMs)] c (c.serverTimers nowMs) :=
  (schedule _ _ _).after ((schedule _ _ _).after (touched nowMs c))

theorem clientTimers (nowMs : UInt64) (c : Ctx) :
    Emits [] [.schedule .clientProbe (nowMs + c.self.cfg.msrIntervalMs),
      .schedule .disconnect (nowMs + c.self.cfg.disconnectWindowMs)] c (c.clientTimers nowMs) := by
  have hself : Emits [] [] c { c with self := { c.self with
      lastServerMsrAtMs := some nowMs
      clientServerMsrRxSinceLastKeepalive := 0 } } := self rfl rfl id
  exact (schedule _ _ _).after ((schedule _ _ _).after ((touched nowMs _).after hself))

theorem enter (state : LifecycleState) (c : Ctx) : Emits [] [] c (c.enter state) :=
  self rfl rfl id

theorem arrive (a : Arrival) (c : Ctx) : Emits [] [] c (c.arrive a) :=
  ⟨rfl, rfl, id, by simp [Ctx.arrive, Ctx.tellAll], [], by simp, by simp [Ctx.arrive, Ctx.tellAll,
    Ctx.said]⟩

theorem timed (src : UInt32) (t : TimerTlv) (c : Ctx) : Emits [t] [] c (c.timed src t) where
  cid := by rw [Ctx.timed_self]; rfl
  timers := by rw [Ctx.timed_self]; rfl
  deadline := by rw [Ctx.timed_self]; exact id
  scheduled := by
    cases t with
    | proposal id p =>
      simp only [Ctx.timed, Ctx.answered, List.append_nil]
      split_ifs <;> rfl
    | ack id accepted =>
      simp only [Ctx.timed, Ctx.acked, List.append_nil]
      split
      · rfl
      · split_ifs <;> rfl
  said := by
    refine ⟨_, ?_, Ctx.timed_said src c t 0 0⟩
    exact answers_small c.self _

theorem timedAll (src : UInt32) (ts : List TimerTlv) (c : Ctx) :
    Emits ts [] c (c.timedAll src ts) := by
  induction ts generalizing c with
  | nil => exact refl c
  | cons t ts ih => exact (ih _).after (timed src t c)

end Ctx.Emits

/-- The timers a frame of the given type opens a session with. -/
def CoreMachine.opening (m : CoreMachine) (nowMs : UInt64) : MessageType → List TimerAction
  | .clientHello | .helloAck =>
    if m.role = .server ∧ m.state = .preHandshake then
      [.schedule .serverMsr (nowMs + m.cfg.msrIntervalMs),
        .schedule .disconnect (nowMs + m.cfg.disconnectWindowMs)]
    else []
  | .serverHello =>
    if m.role = .client ∧ (m.state = .preHandshake ∨ m.state = .reactivating) then
      [.schedule .clientProbe (nowMs + m.cfg.msrIntervalMs),
        .schedule .disconnect (nowMs + m.cfg.disconnectWindowMs)]
    else []
  | _ => []

section Dispatch
variable (nowMs : UInt64) (src : UInt32) (frame : WireFrame) (c : Ctx)

/-- The timer TLVs of the frame that are worked off. -/
def timersRead (frame : WireFrame) : List TimerTlv :=
  if frame.messageType = .msr ∧ 16 ≤ frame.payload.length then (readTimerTlvs frame.tlvs).1
  else []

theorem timersRead_other {frame : WireFrame} (h : frame.messageType ≠ .msr) :
    timersRead frame = [] :=
  if_neg fun hm => h hm.1

theorem Ctx.clientHello_emits :
    c.Emits [] (c.self.opening nowMs .clientHello) (c.clientHello nowMs src) := by
  by_cases h : c.self.role = .server ∧ c.self.state = .preHandshake
  · rw [Ctx.clientHello, if_pos h, CoreMachine.opening, if_pos h]
    exact (Emits.serverTimers nowMs _).after
      ((Emits.send (p := .control .serverHello) _ src (Nat.zero_le _)).after
        ((Emits.tell (c.enter .established) .handshakeEstablished).after (Emits.enter _ c)))
  · rw [Ctx.clientHello, if_neg h, CoreMachine.opening, if_neg h]
    exact .refl c

theorem Ctx.serverHello_emits :
    c.Emits [] (c.self.opening nowMs .serverHello) (c.serverHello nowMs src) := by
  by_cases h : c.self.role = .client ∧
    (c.self.state = .preHandshake ∨ c.self.state = .reactivating)
  · rw [Ctx.serverHello, if_pos h, CoreMachine.opening, if_pos h]
    exact (Emits.clientTimers nowMs _).after ((Emits.tell _ _).after
      ((Emits.send (p := .control .helloAck) (c.enter .established) src (Nat.zero_le _)).after
        (Emits.enter _ c)))
  · rw [Ctx.serverHello, if_neg h, CoreMachine.opening, if_neg h]
    exact .refl c

theorem Ctx.helloAck_emits :
    c.Emits [] (c.self.opening nowMs .helloAck) (c.helloAck nowMs) := by
  by_cases h : c.self.role = .server ∧ c.self.state = .preHandshake
  · rw [Ctx.helloAck, if_pos h, CoreMachine.opening, if_pos h]
    exact (Emits.serverTimers nowMs _).after
      ((Emits.tell (c.enter .established) .handshakeEstablished).after (Emits.enter _ c))
  · rw [Ctx.helloAck, if_neg h, CoreMachine.opening, if_neg h]
    exact .refl c

theorem repliesTo_small {m : CoreMachine} {ids : List Nat} {ps : List Packet}
    (h : repliesTo m ids = some ps) : ∀ p ∈ ps, p.Small := by
  intro p hp
  obtain ⟨id, -, qs, hqs, hmem⟩ := (mem_repliesTo h p).mp hp
  obtain ⟨msg, -, ⟨hsmall, rfl⟩ | ⟨-, -, idx, -, rfl⟩⟩ := (mem_replyPackets hqs p).mp hmem
  · simpa [Packet.Small, Packet.payload] using hsmall
  · have hlen : ((msg.drop (idx * chunkSize)).take chunkSize).length ≤ 988 :=
      List.length_take_le chunkSize _
    simp only [Packet.Small, Packet.payload, fragmentPayload_length, maxDataPayloadPerFrame]
    omega

/-- A handler that fails has sent what is dropped with the output, and scheduled nothing. -/
theorem handleRequestRange_emits {payload : Bytes} :
    match handleRequestRange src payload c with
    | .ok _ c' => c.Emits [] [] c'
    | .error _ c' => c'.self.cid = c.self.cid ∧ c'.self.timers = c.self.timers ∧
        (c.self.disconnectDeadlineMs.isSome → c'.self.disconnectDeadlineMs.isSome) := by
  obtain ⟨-, hrun⟩ | ⟨ps, hrun⟩ | ⟨d, ps, -, hps, hrun⟩ := handleRequestRange_run src payload c
  · rw [hrun]
    exact ⟨rfl, rfl, id⟩
  · rw [hrun]
    dsimp only
    rw [Ctx.sendAll_self]
    exact ⟨rfl, rfl, id⟩
  · rw [hrun]
    exact .sendAll src (repliesTo_small hps) c

theorem handleMsr_emits (hm : frame.messageType = .msr) :
    match handleMsr nowMs src frame c with
    | .ok _ c' => c.Emits (timersRead frame) [] c'
    | .error _ c' => c'.self.cid = c.self.cid ∧
        c'.self.timers = (timersRead frame).foldl Timers.on c.self.timers ∧
        (c.self.disconnectDeadlineMs.isSome → c'.self.disconnectDeadlineMs.isSome) := by
  cases hdec : decodeMsrPayload frame.payload with
  | none =>
    have hshort := decodeMsrPayload_short hdec
    have hrun : handleMsr nowMs src frame c = .error .malformedMsr c := by
      simp only [handleMsr, hdec, throw_run]
    rw [hrun, timersRead, if_neg fun h => hshort h.2]
    exact ⟨rfl, rfl, id⟩
  | some d =>
    have hlong := decodeMsrPayload_long hdec
    have hread : timersRead frame = (readTimerTlvs frame.tlvs).1 := if_pos ⟨hm, hlong⟩
    have htlvs := Ctx.Emits.timedAll src (readTimerTlvs frame.tlvs).1 c
    simp only [handleMsr, hdec, bind_run, handleTimerTlvs_read, hread]
    cases (readTimerTlvs frame.tlvs).2 with
    | some e => exact ⟨htlvs.cid, htlvs.timers, htlvs.deadline⟩
    | none =>
      have hall := (Ctx.Emits.signalled nowMs src d.2 .controlMsrFrame _).after htlvs
      rw [List.append_nil] at hall
      simp only [handleMsrSignal_run]
      exact hall

theorem handleData_emits {payload : Bytes} :
    match handleData payload c with
    | .ok _ c' => c.Emits [] [] c'
    | .error _ c' => c'.self.cid = c.self.cid ∧ c'.self.timers = c.self.timers ∧
        (c.self.disconnectDeadlineMs.isSome → c'.self.disconnectDeadlineMs.isSome) := by
  by_cases hlen : 8 ≤ payload.length
  · rw [handleData_run c hlen]
    exact .arrive _ c
  · have hshort : payload.length < 8 := by omega
    have hrun : handleData payload c = .error .malformedData c := by
      simp only [handleData, bind_run, hshort, if_true, throw_run]
    rw [hrun]
    exact ⟨rfl, rfl, id⟩

theorem handleFragment_emits {payload : Bytes} :
    match handleFragment payload c with
    | .ok _ c' => c.Emits [] [] c'
    | .error _ c' => c'.self.cid = c.self.cid ∧ c'.self.timers = c.self.timers ∧
        (c.self.disconnectDeadlineMs.isSome → c'.self.disconnectDeadlineMs.isSome) := by
  by_cases hlen : 12 ≤ payload.length
  · rw [handleFragment_run c hlen]
    cases fragmentArrival payload with
    | none =>
      dsimp only
      split_ifs
      · exact .refl c
      · exact ⟨rfl, rfl, id⟩
    | some a =>
      dsimp only
      split_ifs
      · exact ⟨rfl, rfl, id⟩
      · exact .arrive a c
  · have hshort : payload.length < fragmentHeaderLen := by
      simp only [fragmentHeaderLen]
      omega
    have hrun : handleFragment payload c = .error .malformedData c := by
      simp only [handleFragment, bind_run, hshort, if_true, throw_run]
    rw [hrun]
    exact ⟨rfl, rfl, id⟩

/-- What a handler leaves; of one that fails, what is left in the machine. -/
theorem dispatch_emits :
    match dispatch nowMs src frame c with
    | .ok _ c' => c.Emits (timersRead frame) (c.self.opening nowMs frame.messageType) c'
    | .error _ c' => c'.self.cid = c.self.cid ∧
        c'.self.timers = (timersRead frame).foldl Timers.on c.self.timers ∧
        (c.self.disconnectDeadlineMs.isSome → c'.self.disconnectDeadlineMs.isSome) ∧
        c.self.opening nowMs frame.messageType = [] := by
  -- a handler of any message but an MSR works no timer TLV off, and schedules nothing
  have hhandled : ∀ res : EStateM.Result CoreError Ctx Unit,
      (match res with
        | .ok _ c' => c.Emits [] [] c'
        | .error _ c' => c'.self.cid = c.self.cid ∧ c'.self.timers = c.self.timers ∧
          (c.self.disconnectDeadlineMs.isSome → c'.self.disconnectDeadlineMs.isSome)) →
      match res with
        | .ok _ c' => c.Emits [] [] c'
        | .error _ c' => c'.self.cid = c.self.cid ∧ c'.self.timers = c.self.timers ∧
          (c.self.disconnectDeadlineMs.isSome → c'.self.disconnectDeadlineMs.isSome) ∧
          ([] : List TimerAction) = [] := by
    intro res h
    cases res with
    | ok a c' => exact h
    | error e c' => exact ⟨h.1, h.2.1, h.2.2, rfl⟩
  cases hm : frame.messageType with
  | clientHello =>
    rw [dispatch_clientHello nowMs src c hm, timersRead_other (by simp [hm])]
    exact Ctx.clientHello_emits nowMs src c
  | serverHello =>
    rw [dispatch_serverHello nowMs src c hm, timersRead_other (by simp [hm])]
    exact Ctx.serverHello_emits nowMs src c
  | helloAck =>
    rw [dispatch_helloAck nowMs src c hm, timersRead_other (by simp [hm])]
    exact Ctx.helloAck_emits nowMs c
  | msr =>
    rw [dispatch_msr nowMs src c hm]
    have h := handleMsr_emits nowMs src frame c hm
    cases hr : handleMsr nowMs src frame c with
    | ok a c' =>
      simp only [hr] at h
      exact h
    | error e c' =>
      simp only [hr] at h
      exact ⟨h.1, h.2.1, h.2.2, rfl⟩
  | requestRange =>
    rw [dispatch_requestRange nowMs src c hm, timersRead_other (by simp [hm])]
    split_ifs
    · exact hhandled _ (@handleRequestRange_emits src c frame.payload)
    · exact .refl c
  | data =>
    rw [dispatch_data nowMs src c hm, timersRead_other (by simp [hm])]
    split_ifs
    · exact hhandled _ (@handleData_emits c frame.payload)
    · exact .refl c
  | fragment =>
    rw [dispatch_fragment nowMs src c hm, timersRead_other (by simp [hm])]
    split_ifs
    · exact hhandled _ (@handleFragment_emits c frame.payload)
    · exact .refl c
  | close =>
    rw [dispatch_close nowMs src c (.inl hm), timersRead_other (by simp [hm])]
    exact (Ctx.Emits.tell _ _).after (.enter _ _)
  | error =>
    rw [dispatch_close nowMs src c (.inr hm), timersRead_other (by simp [hm])]
    exact (Ctx.Emits.tell _ _).after (.enter _ _)

end Dispatch

/-! ### Whole calls -/

/-- What an operation has left in the machine and put out. -/
structure Emission (m : CoreMachine) (ts : List TimerTlv) (as : List TimerAction)
    (m' : CoreMachine) (res : CallResult) : Prop where
  cid : m'.cid = m.cid
  timers : m'.timers = ts.foldl Timers.on m.timers
  scheduled : res.output.timerActions = as
  said : ∃ ps : List Packet, (∀ p ∈ ps, p.Small) ∧
    res.output.outboundDatagrams.map OutboundDatagram.bytes = ps.map (Packet.bytes m.cid)

/-- A frame of the machine's own cid sets the disconnect deadline first. -/
theorem onDatagram_emission {m : CoreMachine} {bytes : Bytes} {frame : WireFrame}
    (h : ownFrame m bytes = some frame) (nowMs : UInt64) (src : UInt32) :
    Emission m (timersRead frame) (m.opening nowMs frame.messageType)
        (onDatagram m nowMs src bytes).1 (onDatagram m nowMs src bytes).2 ∧
      (onDatagram m nowMs src bytes).1.disconnectDeadlineMs.isSome := by
  obtain ⟨hd, hf⟩ := ownFrame_eq_some.mp h
  have hin := Ctx.Emits.received nowMs src ⟨m, {}⟩
  have hset : (Ctx.received nowMs src ⟨m, {}⟩).self.disconnectDeadlineMs.isSome := rfl
  have hopening : (Ctx.received nowMs src ⟨m, {}⟩).self.opening nowMs frame.messageType =
      m.opening nowMs frame.messageType := by
    cases frame.messageType <;> rfl
  have hdis := dispatch_emits nowMs src frame (Ctx.received nowMs src ⟨m, {}⟩)
  rw [hopening] at hdis
  rw [onDatagram_run hd hf]
  cases hr : dispatch nowMs src frame (Ctx.received nowMs src ⟨m, {}⟩) with
  | ok a c =>
    simp only [hr] at hdis
    have hall := ((Ctx.Emits.piggybacked nowMs src frame c).after hdis).after hin
    simp only [List.append_nil, List.nil_append] at hall
    obtain ⟨ps, hps, hsaid⟩ := hall.said
    exact ⟨⟨hall.cid, hall.timers, hall.scheduled, ps, hps, hsaid⟩,
      (Ctx.Emits.piggybacked nowMs src frame c).deadline (hdis.deadline hset)⟩
  | error e c =>
    simp only [hr] at hdis
    obtain ⟨hcid, htimers, hdeadline, hnone⟩ := hdis
    exact ⟨⟨hcid, htimers, hnone.symm, [], by simp, rfl⟩, hdeadline hset⟩

/-- The timers a call schedules. -/
def CoreMachine.schedules (m : CoreMachine) : Call → List TimerAction
  | .timer nowMs .serverMsr =>
    if m.role = .server ∧ m.state = .established ∧ ¬ m.unanswered then
      [.schedule .serverMsr (nowMs + m.cfg.msrIntervalMs),
        .schedule .disconnect (nowMs + m.cfg.disconnectWindowMs)]
    else []
  | .timer nowMs .clientProbe =>
    if m.role = .client ∧ (m.state = .established ∨ m.state = .reactivating) then
      [.schedule .clientProbe (nowMs + m.cfg.msrIntervalMs)]
    else []
  | .timer nowMs .disconnect =>
    match m.disconnectDeadlineMs with
    | none => []
    | some deadline =>
      if nowMs ≥ deadline ∧ m.state ≠ .lost then [] else [.schedule .disconnect deadline]
  | .proposeTimers nowMs p =>
    if m.canPropose p then
      [.schedule .renegotiationTimeout
        (saturatingAdd nowMs (saturatingMul m.cfg.msrIntervalMs 2))]
    else []
  | .beginHandshake _ | .timer _ .renegotiationTimeout | .send _ | .close | .pathChanged _ => []

theorem call_schedules {m : CoreMachine} {body : CoreM Unit} {c : Ctx}
    (hrun : body ⟨m, {}⟩ = .ok () c) :
    (m.call body).2.output.timerActions = c.out.timerActions := by
  rw [CoreMachine.call, hrun]
  rfl

theorem onTimer_next (m : CoreMachine) (nowMs : UInt64) (id : TimerId) :
    (onTimer m nowMs id).1 = m.next (.timer nowMs id) := by
  have hcall : m.apply (.timer nowMs id) =
      some ((onTimer m nowMs id).1, (onTimer m nowMs id).2) := rfl
  exact (apply_answers m hcall).next

theorem onTimer_schedules (m : CoreMachine) (nowMs : UInt64) (id : TimerId) :
    (onTimer m nowMs id).2.output.timerActions = m.schedules (.timer nowMs id) := by
  cases id with
  | serverMsr =>
    by_cases h : m.role = .server ∧ m.state = .established
    · by_cases hu : m.unanswered
      · have hnone : ¬ (m.role = .server ∧ m.state = .established ∧ ¬ m.unanswered) := by tauto
        rw [CoreMachine.schedules, if_neg hnone]
        unfold CoreMachine.unanswered at hu
        simp only [onTimer, CoreMachine.call, h, and_self, if_true, onServerMsr, bind_run,
          modifySelf_run, getSelf_run, ite_run, hu, pushEvent_run]
        rfl
      · have hall : m.role = .server ∧ m.state = .established ∧ ¬ m.unanswered :=
          ⟨h.1, h.2, hu⟩
        rw [CoreMachine.schedules, if_pos hall]
        unfold CoreMachine.unanswered at hu
        simp only [onTimer, CoreMachine.call, h, and_self, if_true, onServerMsr, bind_run,
          modifySelf_run, getSelf_run, ite_run, hu, if_false, pushMsr_run,
          touchDisconnectDeadline_run, pushSchedule_run]
        rfl
    · have hnone : ¬ (m.role = .server ∧ m.state = .established ∧ ¬ m.unanswered) := by tauto
      rw [CoreMachine.schedules, if_neg hnone]
      simp only [onTimer, CoreMachine.call, h, if_false, pure_run]
      rfl
  | clientProbe =>
    by_cases h : m.role = .client ∧ (m.state = .established ∨ m.state = .reactivating)
    · rw [CoreMachine.schedules, if_pos h, onTimer]
      by_cases hm : saturatingSub nowMs (m.lastServerMsrAtMs.getD 0) >
          saturatingMul m.cfg.msrIntervalMs m.cfg.missWindowCount
      · refine call_schedules (c := (((⟨{ m with state := .reactivating }, {}⟩ : Ctx).send
          m.currentPathId (.msr 0 m.maxPendingId none)).tell .reactivationProbeSent).schedule
          .clientProbe (nowMs + m.cfg.msrIntervalMs)) ?_
        simp only [ite_run]
        rw [if_pos h]
        simp only [onClientProbe, bind_run, getSelf_run, ite_run, hm, if_true, modifySelf_run,
          pushMsr_run, pushEvent_run, pushSchedule_run]
      · refine call_schedules (c := (⟨m, {}⟩ : Ctx).schedule .clientProbe
          (nowMs + m.cfg.msrIntervalMs)) ?_
        simp only [ite_run]
        rw [if_pos h]
        simp only [onClientProbe, bind_run, getSelf_run, ite_run, hm, if_false, pushSchedule_run]
    · rw [CoreMachine.schedules, if_neg h, onTimer]
      refine call_schedules (c := ⟨m, {}⟩) ?_
      simp only [ite_run]
      rw [if_neg h, pure_run]
  | disconnect =>
    cases hd : m.disconnectDeadlineMs with
    | none => simp [onTimer, CoreMachine.call, hd, CoreMachine.schedules, pure_run]
    | some deadline =>
      by_cases h : nowMs ≥ deadline ∧ m.state ≠ .lost
      · simp only [onTimer, CoreMachine.call, hd, ite_run, h, CoreMachine.schedules, if_true,
          bind_run, modifySelf_run, pushEvent_run, ne_eq, not_false_eq_true, and_self]
        rfl
      · simp only [onTimer, CoreMachine.call, hd, ite_run, CoreMachine.schedules]
        rw [if_neg h, if_neg h, pushSchedule_run]
        rfl
  | renegotiationTimeout =>
    cases hp : m.pendingLocalProposal with
    | none => simp [onTimer, CoreMachine.call, hp, CoreMachine.schedules, pure_run]
    | some pending =>
      by_cases h : nowMs ≥ pending.expiresAtMs <;>
        simp only [onTimer, CoreMachine.call, hp, ite_run, h, if_true, if_false, bind_run,
          modifySelf_run, pushEvent_run, pure_run, CoreMachine.schedules] <;> rfl

theorem apply_schedules {m m' : CoreMachine} {k : Call} {res : CallResult}
    (h : m.apply k = some (m', res)) : res.output.timerActions = m.schedules k := by
  cases k with
  | timer nowMs id =>
    obtain ⟨rfl, rfl⟩ := Prod.mk.inj (Option.some.inj h)
    exact onTimer_schedules m nowMs id
  | pathChanged pathId =>
    obtain ⟨rfl, rfl⟩ := Prod.mk.inj (Option.some.inj h)
    rfl
  | beginHandshake nowMs =>
    obtain ⟨rfl, rfl⟩ := Prod.mk.inj (Option.some.inj h)
    by_cases hrole : m.role = .client <;>
      simp only [hrole, if_true, if_false, bind_run, pushControl_run, pushEvent_run,
        pure_run] <;> rfl
  | close =>
    obtain ⟨rfl, rfl⟩ := Prod.mk.inj (Option.some.inj h)
    by_cases hlost : m.state = .lost <;>
      simp only [hlost, if_true, if_false, bind_run, pushControl_run, modifySelf_run,
        pushEvent_run, pure_run] <;> rfl
  | send payload =>
    simp only [CoreMachine.apply, onApiSend] at h
    split_ifs at h
    obtain ⟨rfl, rfl⟩ := Prod.mk.inj (Option.some.inj h)
    by_cases hest : m.state = .established
    · cases hrole : m.role <;>
        simp only [bind_run, modifySelf_run, getSelf_run, hest, if_true, hrole, pushMsr_run,
          pushEvent_run] <;> rfl
    · simp only [bind_run, modifySelf_run, getSelf_run, hest, if_false, pure_run]
      rfl
  | proposeTimers nowMs p =>
    obtain ⟨rfl, rfl⟩ := Prod.mk.inj (Option.some.inj h)
    by_cases hest : m.state = .established
    · cases hv : validateTimerProposal m.cfg p with
      | error e =>
        have hnot : ¬ m.canPropose p := by
          simp [CoreMachine.canPropose, hv, Except.isOk, Except.toBool]
        rw [CoreMachine.schedules, if_neg hnot]
        simp only [hest, ne_eq, not_true_eq_false, if_false, throw_run]
        rfl
      | ok u =>
        have hcan : m.canPropose p := ⟨hest, by simp [hv, Except.isOk, Except.toBool]⟩
        rw [CoreMachine.schedules, if_pos hcan]
        simp only [hest, ne_eq, not_true_eq_false, if_false, bind_run, modifySelf_run,
          pushProposal_run, pushEvent_run, pushSchedule_run]
        rfl
    · have hnot : ¬ m.canPropose p := fun h => hest h.1
      rw [CoreMachine.schedules, if_neg hnot]
      simp only [hest, ne_eq, not_false_eq_true, if_true, bind_run, throw_run]
      rfl

end Todero.Core
