import Todero.Emissions

/-! What a frame of the machine's own cid can do, said once: one move of its handler, and
after it at most the signal beside the message. -/
namespace Todero.Core
open Todero.Wire

/-- What the handler of a frame leaves, whether it fails or not. -/
inductive Handled (nowMs : UInt64) (src : UInt32) (frame : WireFrame) (c : Ctx) : Ctx → Prop
  | same : frame.messageType ≠ .serverHello → Handled nowMs src frame c c
  | clientHello : frame.messageType = .clientHello →
      Handled nowMs src frame c (c.clientHello nowMs src)
  | serverHello : frame.messageType = .serverHello →
      Handled nowMs src frame c (c.serverHello nowMs src)
  | helloAck : frame.messageType = .helloAck → Handled nowMs src frame c (c.helloAck nowMs)
  | timed : frame.messageType = .msr → Handled nowMs src frame c (c.timedAll src (timersRead frame))
  | signalled (next : Nat) : frame.messageType = .msr →
      Handled nowMs src frame c
        ((c.timedAll src (timersRead frame)).signalled nowMs src next .controlMsrFrame)
  | sent (ps : List Packet) : frame.messageType = .requestRange →
      Handled nowMs src frame c (c.sendAll src ps)
  | arrived (a : Arrival) : frame.messageType = .data ∨ frame.messageType = .fragment →
      Handled nowMs src frame c (c.arrive a)
  | closed : closing frame → Handled nowMs src frame c c.closed

section Dispatch
variable (nowMs : UInt64) (src : UInt32) {frame : WireFrame} (c : Ctx)

theorem handleMsr_handled (hm : frame.messageType = .msr) :
    Handled nowMs src frame c (reached (handleMsr nowMs src frame c)) := by
  cases hdec : decodeMsrPayload frame.payload with
  | none =>
    simp only [handleMsr, hdec, throw_run]
    exact .same (by simp [hm])
  | some d =>
    have hlong := decodeMsrPayload_long hdec
    have hread : timersRead frame = (readTimerTlvs frame.tlvs).1 := if_pos ⟨hm, hlong⟩
    simp only [handleMsr, hdec, bind_run, handleTimerTlvs_read, ← hread]
    cases (readTimerTlvs frame.tlvs).2 with
    | some e => exact .timed hm
    | none =>
      simp only [handleMsrSignal_run]
      exact .signalled d.2 hm

theorem handleRequestRange_handled (hm : frame.messageType = .requestRange) :
    Handled nowMs src frame c (reached (handleRequestRange src frame.payload c)) := by
  obtain ⟨-, hrun⟩ | ⟨ps, hrun⟩ | ⟨d, ps, -, -, hrun⟩ :=
    handleRequestRange_run src frame.payload c
  · rw [hrun]
    exact .same (by simp [hm])
  · rw [hrun]
    exact .sent ps hm
  · rw [hrun]
    exact .sent ps hm

theorem handleData_handled (hm : frame.messageType = .data) :
    Handled nowMs src frame c (reached (handleData frame.payload c)) := by
  by_cases hlen : 8 ≤ frame.payload.length
  · rw [handleData_run c hlen]
    exact .arrived _ (.inl hm)
  · have hshort : frame.payload.length < 8 := by omega
    simp only [handleData, bind_run, hshort, if_true, throw_run]
    exact .same (by simp [hm])

theorem handleFragment_handled (hm : frame.messageType = .fragment) :
    Handled nowMs src frame c (reached (handleFragment frame.payload c)) := by
  by_cases hlen : 12 ≤ frame.payload.length
  · rw [handleFragment_run c hlen]
    cases fragmentArrival frame.payload with
    | none =>
      dsimp only
      split_ifs <;> exact .same (by simp [hm])
    | some a =>
      dsimp only
      split_ifs <;> exact .arrived a (.inr hm)
  · have hshort : frame.payload.length < fragmentHeaderLen := by
      simp only [fragmentHeaderLen]
      omega
    simp only [handleFragment, bind_run, hshort, if_true, throw_run]
    exact .same (by simp [hm])

theorem dispatch_handled (frame : WireFrame) :
    Handled nowMs src frame c (reached (dispatch nowMs src frame c)) := by
  cases hm : frame.messageType with
  | clientHello =>
    rw [dispatch_clientHello nowMs src c hm]
    exact .clientHello hm
  | serverHello =>
    rw [dispatch_serverHello nowMs src c hm]
    exact .serverHello hm
  | helloAck =>
    rw [dispatch_helloAck nowMs src c hm]
    exact .helloAck hm
  | msr =>
    rw [dispatch_msr nowMs src c hm]
    exact handleMsr_handled nowMs src c hm
  | requestRange =>
    rw [dispatch_requestRange nowMs src c hm]
    split_ifs
    · exact handleRequestRange_handled nowMs src c hm
    · exact .same (by simp [hm])
  | data =>
    rw [dispatch_data nowMs src c hm]
    split_ifs
    · exact handleData_handled nowMs src c hm
    · exact .same (by simp [hm])
  | fragment =>
    rw [dispatch_fragment nowMs src c hm]
    split_ifs
    · exact handleFragment_handled nowMs src c hm
    · exact .same (by simp [hm])
  | close =>
    rw [dispatch_close nowMs src c (.inl hm)]
    exact .closed (.inl hm)
  | error =>
    rw [dispatch_close nowMs src c (.inr hm)]
    exact .closed (.inr hm)

end Dispatch

/-- What the handlers and the signal beside a message keep holds after the frame. -/
theorem onDatagram_keeps {m : CoreMachine} {bytes : Bytes} {frame : WireFrame}
    (hown : ownFrame m bytes = some frame) {nowMs : UInt64} {src : UInt32}
    {P : CoreMachine → Prop}
    (hhandled : ∀ c, Handled nowMs src frame (Ctx.received nowMs src ⟨m, {}⟩) c → P c.self)
    (hsignal : ∀ (c : Ctx) (next : Nat), frame.messageType ≠ .msr → P c.self →
      P (c.signalled nowMs src next .piggybackTlv).self) :
    P (onDatagram m nowMs src bytes).1 := by
  obtain ⟨hd, hf⟩ := ownFrame_eq_some.mp hown
  have hdis := hhandled _ (dispatch_handled nowMs src (Ctx.received nowMs src ⟨m, {}⟩) frame)
  rw [onDatagram_run hd hf]
  cases hr : dispatch nowMs src frame (Ctx.received nowMs src ⟨m, {}⟩) with
  | ok a c =>
    rw [hr] at hdis
    show P (c.piggybacked nowMs src frame).self
    unfold Ctx.piggybacked
    split_ifs with hm
    · split
      · exact hdis
      · exact hsignal c _ hm hdis
    · exact hdis
  | error e c =>
    rw [hr] at hdis
    exact hdis

/-! ### What a frame leaves in the clocks and the lifecycle -/

section Signalled
variable (nowMs : UInt64) (src : UInt32) (next : Nat) (source : MsrSource) (c : Ctx)

theorem Ctx.requested_self :
    ∃ stop, (c.requested src next).self = { c.self with lastRequestedEnd := stop } := by
  unfold Ctx.requested
  split_ifs
  · exact ⟨next, rfl⟩
  · exact ⟨c.self.lastRequestedEnd, rfl⟩

theorem Ctx.signalled_deadline :
    (c.signalled nowMs src next source).self.disconnectDeadlineMs =
      c.self.disconnectDeadlineMs := by
  unfold Ctx.signalled
  split
  · obtain ⟨stop, hself⟩ := (c.noted nowMs src source).requested_self src next
    rw [hself, Ctx.noted_self]
    rfl
  · obtain ⟨stop, hself⟩ := c.heard.requested_self src next
    rw [hself]
    rfl

theorem Ctx.signalled_role : (c.signalled nowMs src next source).self.role = c.self.role :=
  congrArg Fixed.role (Ctx.Frame.signalled nowMs src next source c).fixed

theorem Ctx.signalled_stamp (hrole : c.self.role = .client) :
    (c.signalled nowMs src next source).self.lastServerMsrAtMs = some nowMs := by
  simp only [Ctx.signalled, hrole]
  obtain ⟨stop, hself⟩ := (c.noted nowMs src source).requested_self src next
  rw [hself, Ctx.noted_self]
  rfl

theorem Ctx.signalled_state : (c.signalled nowMs src next source).self.state = c.self.wokenState :=
  (c.signalled_moves nowMs src next source).state

end Signalled

section Hello
variable (nowMs : UInt64) (src : UInt32) {c : Ctx}

theorem Ctx.clientHello_client (h : c.self.role = .client) : c.clientHello nowMs src = c :=
  if_neg fun hserver => by simp [h] at hserver

theorem Ctx.helloAck_client (h : c.self.role = .client) : c.helloAck nowMs = c :=
  if_neg fun hserver => by simp [h] at hserver

/-- A `ServerHello` is passed over, or it opens the session and starts its clocks. -/
theorem Ctx.serverHello_cases (c : Ctx) :
    c.serverHello nowMs src = c ∨
      (c.serverHello nowMs src).self = { c.self with
        state := .established
        lastServerMsrAtMs := some nowMs
        clientServerMsrRxSinceLastKeepalive := 0
        disconnectDeadlineMs := some (nowMs + c.self.cfg.disconnectWindowMs) } := by
  by_cases h : c.self.role = .client ∧
    (c.self.state = .preHandshake ∨ c.self.state = .reactivating)
  · rw [Ctx.serverHello, if_pos h]
    exact .inr rfl
  · exact .inl (if_neg h)

end Hello

section Clocks
variable {m : CoreMachine} {bytes : Bytes} {frame : WireFrame} (nowMs : UInt64) (src : UInt32)

/-- The window that sets the deadline is the one before the frame's own timers. -/
theorem onDatagram_deadline (hown : ownFrame m bytes = some frame) :
    (onDatagram m nowMs src bytes).1.disconnectDeadlineMs =
      some (nowMs + m.cfg.disconnectWindowMs) := by
  refine onDatagram_keeps (P := fun m' => m'.disconnectDeadlineMs =
    some (nowMs + m.cfg.disconnectWindowMs)) hown ?_ ?_
  · intro c hc
    cases hc with
    | same => rfl
    | clientHello =>
      unfold Ctx.clientHello
      split_ifs <;> rfl
    | serverHello =>
      obtain hsame | hopen := Ctx.serverHello_cases nowMs src (Ctx.received nowMs src ⟨m, {}⟩)
      · rw [hsame]
        rfl
      · rw [hopen]
        rfl
    | helloAck =>
      unfold Ctx.helloAck
      split_ifs <;> rfl
    | timed =>
      rw [Ctx.timedAll_self]
      rfl
    | signalled next =>
      rw [Ctx.signalled_deadline, Ctx.timedAll_self]
      rfl
    | sent ps =>
      rw [Ctx.sendAll_self]
      rfl
    | arrived a => rfl
    | closed => rfl
  · intro c next _ hdeadline
    rw [Ctx.signalled_deadline, hdeadline]

/-- A client is never left in the session without the stamp of the frame. -/
theorem onDatagram_stamp (hown : ownFrame m bytes = some frame) (hrole : m.role = .client)
    (hup : (onDatagram m nowMs src bytes).1.state = .established) :
    (onDatagram m nowMs src bytes).1.lastServerMsrAtMs = some nowMs := by
  have hkeeps : (onDatagram m nowMs src bytes).1.role = .client ∧
      ((onDatagram m nowMs src bytes).1.state = .established →
        (onDatagram m nowMs src bytes).1.lastServerMsrAtMs = some nowMs) := by
    have hin : m.state = .established →
        (Ctx.received nowMs src ⟨m, {}⟩).self.lastServerMsrAtMs = some nowMs :=
      fun hest => if_pos ⟨hest, hrole⟩
    refine onDatagram_keeps (P := fun m' => m'.role = .client ∧
      (m'.state = .established → m'.lastServerMsrAtMs = some nowMs)) hown ?_ ?_
    · intro c hc
      cases hc with
      | same => exact ⟨hrole, hin⟩
      | clientHello =>
        rw [Ctx.clientHello_client nowMs src hrole]
        exact ⟨hrole, hin⟩
      | serverHello =>
        obtain hsame | hopen := Ctx.serverHello_cases nowMs src (Ctx.received nowMs src ⟨m, {}⟩)
        · rw [hsame]
          exact ⟨hrole, hin⟩
        · rw [hopen]
          exact ⟨hrole, fun _ => rfl⟩
      | helloAck =>
        rw [Ctx.helloAck_client nowMs hrole]
        exact ⟨hrole, hin⟩
      | timed =>
        rw [Ctx.timedAll_self]
        exact ⟨hrole, hin⟩
      | signalled next =>
        have hclient : ((Ctx.received nowMs src ⟨m, {}⟩).timedAll src (timersRead frame)).self.role =
            .client := by
          rw [Ctx.timedAll_self]
          exact hrole
        rw [Ctx.signalled_role]
        exact ⟨hclient, fun _ => Ctx.signalled_stamp _ _ _ _ _ hclient⟩
      | sent ps =>
        rw [Ctx.sendAll_self]
        exact ⟨hrole, hin⟩
      | arrived a => exact ⟨hrole, hin⟩
      | closed => exact ⟨hrole, fun hlost => by cases hlost⟩
    · intro c next _ hc
      rw [Ctx.signalled_role]
      exact ⟨hc.1, fun _ => Ctx.signalled_stamp _ _ _ _ _ hc.1⟩
  exact hkeeps.2 hup

/-- A frame opens or wakes the session, ends it, or leaves the lifecycle alone. -/
theorem onDatagram_lifecycle (hown : ownFrame m bytes = some frame) :
    (onDatagram m nowMs src bytes).1.state = m.state ∨
      (onDatagram m nowMs src bytes).1.state = .established ∨
      (onDatagram m nowMs src bytes).1.state = .lost := by
  refine onDatagram_keeps (P := fun m' => m'.state = m.state ∨ m'.state = .established ∨
    m'.state = .lost) hown ?_ ?_
  · intro c hc
    cases hc with
    | same => exact .inl rfl
    | clientHello =>
      unfold Ctx.clientHello
      split_ifs
      · exact .inr (.inl rfl)
      · exact .inl rfl
    | serverHello =>
      obtain hsame | hopen := Ctx.serverHello_cases nowMs src (Ctx.received nowMs src ⟨m, {}⟩)
      · exact .inl (congrArg (fun c => c.self.state) hsame)
      · exact .inr (.inl (congrArg CoreMachine.state hopen))
    | helloAck =>
      unfold Ctx.helloAck
      split_ifs
      · exact .inr (.inl rfl)
      · exact .inl rfl
    | timed =>
      rw [Ctx.timedAll_self]
      exact .inl rfl
    | signalled next =>
      rw [Ctx.signalled_state, Ctx.timedAll_self]
      unfold CoreMachine.wokenState
      split_ifs
      · exact .inr (.inl rfl)
      · exact .inl rfl
    | sent ps =>
      rw [Ctx.sendAll_self]
      exact .inl rfl
    | arrived a => exact .inl rfl
    | closed => exact .inr (.inr rfl)
  · intro c next _ hc
    rw [Ctx.signalled_state]
    unfold CoreMachine.wokenState
    split_ifs
    · exact .inr (.inl rfl)
    · exact hc

/-- The handshake of a client ends with a `ServerHello`, and with nothing else. -/
theorem onDatagram_handshake (hown : ownFrame m bytes = some frame) (hrole : m.role = .client)
    (hpre : m.state = .preHandshake) :
    if frame.messageType = .serverHello then (onDatagram m nowMs src bytes).1.state = .established
    else (onDatagram m nowMs src bytes).1.state = .preHandshake ∨
      (onDatagram m nowMs src bytes).1.state = .lost := by
  by_cases hm : frame.messageType = .serverHello
  · rw [if_pos hm]
    refine onDatagram_keeps (P := fun m' => m'.state = .established) hown ?_ ?_
    · intro c hc
      cases hc with
      | same hother => exact absurd hm hother
      | clientHello h | helloAck h | timed h | signalled _ h | sent _ h => simp [hm] at h
      | serverHello =>
        rw [Ctx.serverHello, if_pos ⟨hrole, .inl hpre⟩]
        rfl
      | arrived a h => simp [hm] at h
      | closed h => simp [closing, hm] at h
    · intro c next _ hc
      rw [Ctx.signalled_state, CoreMachine.wokenState, if_neg (by simp [hc])]
      exact hc
  · rw [if_neg hm]
    refine onDatagram_keeps (P := fun m' => m'.state = .preHandshake ∨ m'.state = .lost) hown ?_ ?_
    · intro c hc
      cases hc with
      | same | arrived => exact .inl hpre
      | clientHello =>
        rw [Ctx.clientHello_client nowMs src hrole]
        exact .inl hpre
      | serverHello h => exact absurd h hm
      | helloAck =>
        rw [Ctx.helloAck_client nowMs hrole]
        exact .inl hpre
      | timed =>
        rw [Ctx.timedAll_self]
        exact .inl hpre
      | signalled next =>
        have hsleep : ¬ ((Ctx.received nowMs src ⟨m, {}⟩).self.role = .client ∧
            (Ctx.received nowMs src ⟨m, {}⟩).self.state = .reactivating) := by
          intro h
          exact absurd (h.2.symm.trans hpre) (by simp)
        rw [Ctx.signalled_state, Ctx.timedAll_self]
        exact .inl ((if_neg hsleep).trans hpre)
      | sent ps =>
        rw [Ctx.sendAll_self]
        exact .inl hpre
      | closed => exact .inr rfl
    · intro c next _ hc
      have hsleep : ¬ (c.self.role = .client ∧ c.self.state = .reactivating) := by
        intro h
        obtain hc | hc := hc <;> simp [hc] at h
      rw [Ctx.signalled_state, CoreMachine.wokenState, if_neg hsleep]
      exact hc

end Clocks

end Todero.Core
