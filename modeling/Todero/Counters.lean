import Todero.Handled

/-! The two counters of the keepalive: the MSRs a client has counted since its last
keepalive, and the ticks of a server since it has last heard from its client. -/
namespace Todero.Core
open Todero.Wire

/-- From `c` to `c'` the client has counted nothing, and the server at most its client's
sign of life. -/
structure Ctx.Steady (c c' : Ctx) : Prop where
  client : c'.self.clientServerMsrRxSinceLastKeepalive = c.self.clientServerMsrRxSinceLastKeepalive
  server : c'.self.serverConsecutiveMsrWithoutClientMsr =
      c.self.serverConsecutiveMsrWithoutClientMsr ∨
    c'.self.serverConsecutiveMsrWithoutClientMsr = 0

namespace Ctx.Steady
variable {c c' c'' : Ctx}

theorem refl (c : Ctx) : Steady c c := ⟨rfl, .inl rfl⟩

theorem trans (h : Steady c c') (h' : Steady c' c'') : Steady c c'' := by
  refine ⟨h'.client.trans h.client, ?_⟩
  obtain hsame | hzero := h'.server
  · rw [hsame]
    exact h.server
  · exact .inr hzero

theorem of_self {m : CoreMachine} (hself : c'.self = m)
    (hclient : m.clientServerMsrRxSinceLastKeepalive =
      c.self.clientServerMsrRxSinceLastKeepalive)
    (hserver : m.serverConsecutiveMsrWithoutClientMsr =
      c.self.serverConsecutiveMsrWithoutClientMsr) : Steady c c' := by
  subst hself
  exact ⟨hclient, .inl hserver⟩

variable (nowMs : UInt64) (src : UInt32)

theorem sendAll (ps : List Packet) (c : Ctx) : Steady c (c.sendAll src ps) :=
  of_self (Ctx.sendAll_self src ps c) rfl rfl

theorem timedAll (ts : List TimerTlv) (c : Ctx) : Steady c (c.timedAll src ts) :=
  of_self (Ctx.timedAll_self src ts c) rfl rfl

theorem requested (next : Nat) (c : Ctx) : Steady c (c.requested src next) := by
  unfold Ctx.requested
  split_ifs
  · exact ⟨rfl, .inl rfl⟩
  · exact refl c

theorem noted (c : Ctx) : Steady c (c.noted nowMs src .piggybackTlv) := by
  refine of_self (Ctx.noted_self nowMs src .piggybackTlv c) ?_ rfl
  simp [afterServerMsr, keepaliveDue]

/-- A signal that is not a control MSR, or one that a server gets. -/
theorem signalled {source : MsrSource} (next : Nat)
    (h : c.self.role = .server ∨ source = .piggybackTlv) :
    Steady c (c.signalled nowMs src next source) := by
  cases hrole : c.self.role with
  | client =>
    obtain rfl : source = .piggybackTlv := h.resolve_left (by simp [hrole])
    simp only [Ctx.signalled, hrole]
    exact (noted nowMs src c).trans (requested src next _)
  | server =>
    simp only [Ctx.signalled, hrole]
    have hheard : Steady c c.heard := ⟨rfl, .inr rfl⟩
    exact hheard.trans (requested src next _)

theorem piggybacked (frame : WireFrame) (c : Ctx) :
    Steady c (c.piggybacked nowMs src frame) := by
  unfold Ctx.piggybacked
  split_ifs
  · split
    · exact refl c
    · exact signalled nowMs src _ (.inr rfl)
  · exact refl c

end Ctx.Steady

section Datagram
variable (nowMs : UInt64) (src : UInt32) {frame : WireFrame} {c : Ctx}

/-- Only a client counts, a control MSR, or starts again, with a `ServerHello`. -/
theorem dispatch_steady
    (h : c.self.role = .server ∨
      frame.messageType ≠ .msr ∧ frame.messageType ≠ .serverHello) :
    c.Steady (reached (dispatch nowMs src frame c)) := by
  have hhandled := dispatch_handled nowMs src c frame
  generalize reached (dispatch nowMs src frame c) = c' at hhandled
  cases hhandled with
  | same => exact .refl c
  | clientHello =>
    unfold Ctx.clientHello
    split_ifs
    · exact ⟨rfl, .inl rfl⟩
    · exact .refl c
  | serverHello hm =>
    have hrole : c.self.role = .server := h.resolve_right fun hboth => hboth.2 hm
    simp only [Ctx.serverHello, hrole]
    exact .refl c
  | helloAck =>
    unfold Ctx.helloAck
    split_ifs
    · exact ⟨rfl, .inl rfl⟩
    · exact .refl c
  | timed => exact .timedAll src _ c
  | signalled next hm =>
    have hrole : (c.timedAll src (timersRead frame)).self.role = .server := by
      rw [Ctx.timedAll_self]
      exact h.resolve_right fun hboth => hboth.1 hm
    exact (Ctx.Steady.timedAll src _ c).trans (.signalled nowMs src next (.inl hrole))
  | sent ps => exact .sendAll src ps c
  | arrived a => exact ⟨rfl, .inl rfl⟩
  | closed => exact ⟨rfl, .inl rfl⟩

variable {m : CoreMachine} {bytes : Bytes}

theorem onDatagram_steady (hown : ownFrame m bytes = some frame)
    (h : m.role = .server ∨ frame.messageType ≠ .msr ∧ frame.messageType ≠ .serverHello) :
    (Ctx.received nowMs src ⟨m, {}⟩).Steady ⟨(onDatagram m nowMs src bytes).1, {}⟩ := by
  obtain ⟨hd, hf⟩ := ownFrame_eq_some.mp hown
  have hdis : (Ctx.received nowMs src ⟨m, {}⟩).Steady
      (reached (dispatch nowMs src frame (Ctx.received nowMs src ⟨m, {}⟩))) :=
    dispatch_steady nowMs src h
  rw [onDatagram_run hd hf]
  cases hr : dispatch nowMs src frame (Ctx.received nowMs src ⟨m, {}⟩) with
  | ok a c =>
    rw [hr] at hdis
    have hall := hdis.trans (.piggybacked nowMs src frame c)
    exact ⟨hall.client, hall.server⟩
  | error e c =>
    rw [hr] at hdis
    exact ⟨hdis.client, hdis.server⟩

/-- An established server that gets any frame of its own has heard from its client. -/
theorem onDatagram_heard (hown : ownFrame m bytes = some frame) (hrole : m.role = .server)
    (hup : m.state = .established) :
    (onDatagram m nowMs src bytes).1.serverConsecutiveMsrWithoutClientMsr = 0 := by
  have hzero : (Ctx.received nowMs src ⟨m, {}⟩).self.serverConsecutiveMsrWithoutClientMsr = 0 :=
    if_pos ⟨hup, hrole⟩
  obtain hsame | hheard := (onDatagram_steady nowMs src hown (.inl hrole)).server
  · exact hsame.trans hzero
  · exact hheard

/-- Every other frame but a hello leaves the client's count alone. -/
theorem onDatagram_uncounted (hown : ownFrame m bytes = some frame)
    (hmsr : frame.messageType ≠ .msr) (hhello : frame.messageType ≠ .serverHello) :
    (onDatagram m nowMs src bytes).1.clientServerMsrRxSinceLastKeepalive =
      m.clientServerMsrRxSinceLastKeepalive :=
  (onDatagram_steady nowMs src hown (.inr ⟨hmsr, hhello⟩)).client

/-- The client counts an MSR that it can read to the end. -/
theorem onDatagram_counted (hrole : m.role = .client) {tlvs : List Tlv}
    (htlvs : msrTlvs m bytes = some tlvs) (hgood : (readTimerTlvs tlvs).2 = none) :
    (onDatagram m nowMs src bytes).1.clientServerMsrRxSinceLastKeepalive =
      if keepaliveDue .controlMsrFrame m then 0
      else saturatingAdd32 m.clientServerMsrRxSinceLastKeepalive 1 := by
  obtain ⟨frame, hown, hmsr⟩ := Option.bind_eq_some_iff.mp htlvs
  obtain ⟨hd, hf⟩ := ownFrame_eq_some.mp hown
  split_ifs at hmsr with hlong
  rw [Option.some.injEq] at hmsr
  subst hmsr
  obtain ⟨d, hdec⟩ := Option.isSome_iff_exists.mp (decodeMsrPayload_isSome.mpr hlong.2)
  have hquiet : ∀ c : Ctx, c.piggybacked nowMs src frame = c :=
    fun c => if_neg (not_not.mpr hlong.1)
  rw [onDatagram_run hd hf, dispatch_msr nowMs src _ hlong.1]
  simp only [handleMsr, hdec, bind_run, handleTimerTlvs_read, hgood, handleMsrSignal_run, hquiet]
  have hself := Ctx.timedAll_self src (readTimerTlvs frame.tlvs).1 (Ctx.received nowMs src ⟨m, {}⟩)
  generalize (Ctx.received nowMs src ⟨m, {}⟩).timedAll src (readTimerTlvs frame.tlvs).1 = c
    at hself ⊢
  have hclient : c.self.role = .client := by
    rw [hself]
    exact hrole
  have hcount : c.self.clientServerMsrRxSinceLastKeepalive =
      m.clientServerMsrRxSinceLastKeepalive := by
    rw [hself]
    rfl
  simp only [Ctx.signalled, hclient]
  rw [(Ctx.Steady.requested src d.2 (c.noted nowMs src .controlMsrFrame)).client, Ctx.noted_self]
  simp only [afterServerMsr, keepaliveDue, hcount, if_true]

end Datagram

/-! ### Calls -/

theorem next_clientCount (m : CoreMachine) (k : Call) :
    (m.next k).clientServerMsrRxSinceLastKeepalive = m.clientServerMsrRxSinceLastKeepalive :=
  congrArg Lasting.clientCount (next_lasting m k)

theorem next_serverCount {m : CoreMachine} {k : Call}
    (h : ∀ nowMs, k ≠ .timer nowMs .serverMsr) :
    (m.next k).serverConsecutiveMsrWithoutClientMsr =
      m.serverConsecutiveMsrWithoutClientMsr := by
  have hmoved := next_moved m k
  generalize m.next k = m' at hmoved ⊢
  cases hmoved with
  | abandoned | announced => exact absurd rfl (h _)
  | _ => rfl

/-- No call takes a machine into a session. -/
theorem next_up {m : CoreMachine} {k : Call} (h : (m.next k).state = .established) :
    m.state = .established := by
  have hmoved := next_moved m k
  generalize m.next k = m' at hmoved h
  cases hmoved with
  | same | announced | rolledBack | queued | proposed | switched => exact h
  | abandoned | doubted | timedOut | closed => simp at h

end Todero.Core
