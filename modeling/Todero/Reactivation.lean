import Todero.Outgoing

/-! A `Data` frame that arrives while the machine waits to be reactivated. The message arm
of `on_datagram` looks at the lifecycle state before the signal beside the message can
change it. -/
namespace Todero.Core
open Todero.Wire Transition

/-- The id in the payload of a `Data` frame. -/
def dataId (payload : Bytes) : Nat := (BigEndian.take 8 payload).1

/-- A frame whose signal reactivates the client, with a message it has not got. -/
def wakesUnread (m : CoreMachine) (frame : WireFrame) : Bool :=
  m.role = .client && m.state = .reactivating && (findMsrSignalTlv frame.tlvs).isSome &&
    !m.receivedIds.contains (dataId frame.payload)

/-- Only a complete message changes the ids, by its own. -/
theorem Rx.arrive_data_ids (r : Rx) (id : Nat) (p : Bytes) :
    id ∈ (r.arrive (.data id p)).1.ids := by
  unfold Rx.arrive
  split_ifs with hin
  · exact hin
  · obtain ⟨hids, -⟩ := Rx.flush_spec (r.buffer.insert id p).size
      { r with ids := r.ids.insert id, buffer := r.buffer.insert id p,
               fragments := r.fragments.erase id }
    show id ∈ (r.accept id p).1.ids
    rw [Rx.accept, hids]
    simp

/-- The signal beside a message is all that can wake the client. -/
theorem Ctx.piggybacked_state (nowMs : UInt64) (src : UInt32) {frame : WireFrame}
    (hm : frame.messageType ≠ .msr) (c : Ctx) :
    (c.piggybacked nowMs src frame).self.state =
      if (findMsrSignalTlv frame.tlvs).isSome then c.self.wokenState else c.self.state := by
  rw [Ctx.piggybacked, if_pos hm]
  cases findMsrSignalTlv frame.tlvs with
  | none => rfl
  | some s => exact (Ctx.signalled_moves nowMs src s.2 .piggybackTlv c).state

section Data
variable {m : CoreMachine} {bytes : Bytes} {frame : WireFrame}

theorem onDatagram_data (hown : ownFrame m bytes = some frame) (htype : frame.messageType = .data)
    (hlen : 8 ≤ frame.payload.length) (nowMs : UInt64) (src : UInt32) :
    (∃ out, (onDatagram m nowMs src bytes).2 = .ok out) ∧
      (onDatagram m nowMs src bytes).1.state =
        (if (findMsrSignalTlv frame.tlvs).isSome then m.wokenState else m.state) ∧
      (onDatagram m nowMs src bytes).1.rx =
        if m.state = .established then (m.rx.arrive (dataArrival frame.payload)).1 else m.rx := by
  obtain ⟨hd, hf⟩ := ownFrame_eq_some.mp hown
  have hrx : (onDatagram m nowMs src bytes).1.rx =
      if m.state = .established then (m.rx.arrive (dataArrival frame.payload)).1 else m.rx := by
    have harr : arrivalOf m bytes =
        if m.state = .established then some (dataArrival frame.payload) else none := by
      simp [arrivalOf, hd, hf, arrivalIn, frameArrival, htype, hlen]
    rw [(onDatagram_effect m nowMs src bytes).2.1, harr]
    split_ifs <;> rfl
  have hdata : ∃ c, dispatch nowMs src frame (Ctx.received nowMs src ⟨m, {}⟩) = .ok () c ∧
      c.self.role = m.role ∧ c.self.state = m.state := by
    rw [dispatch_data nowMs src _ htype]
    split_ifs
    · exact ⟨_, handleData_run _ hlen, rfl, rfl⟩
    · exact ⟨_, rfl, rfl, rfl⟩
  obtain ⟨c, hrun, hrole, hstate⟩ := hdata
  have hwoken : c.self.wokenState = m.wokenState := by
    rw [CoreMachine.wokenState, CoreMachine.wokenState, hrole, hstate]
  have hafter : (c.piggybacked nowMs src frame).self.state =
      if (findMsrSignalTlv frame.tlvs).isSome then c.self.wokenState else c.self.state :=
    c.piggybacked_state nowMs src (by simp [htype])
  rw [hwoken, hstate] at hafter
  refine ⟨?_, ?_, hrx⟩ <;> rw [onDatagram_run hd hf, hrun]
  · exact ⟨_, rfl⟩
  · exact hafter

/-- A message whose frame leaves the machine established has been taken, exactly if the
frame did not reactivate the machine and bring a new message at once. -/
theorem data_taken_iff (hown : ownFrame m bytes = some frame) (htype : frame.messageType = .data)
    (hlen : 8 ≤ frame.payload.length) (nowMs : UInt64) (src : UInt32) :
    ((∃ out, (onDatagram m nowMs src bytes).2 = .ok out) →
        (onDatagram m nowMs src bytes).1.state = .established →
          dataId frame.payload ∈ (onDatagram m nowMs src bytes).1.receivedIds) ↔
      wakesUnread m frame = false := by
  obtain ⟨hok, hstate, hrx⟩ := onDatagram_data hown htype hlen nowMs src
  have hids : (onDatagram m nowMs src bytes).1.receivedIds =
      (onDatagram m nowMs src bytes).1.rx.ids := rfl
  rw [imp_iff_right hok, hstate, hids, hrx]
  by_cases hest : m.state = .established
  · have hin : dataId frame.payload ∈ (m.rx.arrive (dataArrival frame.payload)).1.ids :=
      m.rx.arrive_data_ids _ _
    rw [if_pos hest]
    exact iff_of_true (fun _ => hin) (by simp [wakesUnread, hest])
  · rw [if_neg hest]
    have hcontains : m.receivedIds.contains (dataId frame.payload) = true ↔
        dataId frame.payload ∈ m.rx.ids := Iff.rfl
    by_cases hwakes : m.role = .client ∧ m.state = .reactivating ∧
        (findMsrSignalTlv frame.tlvs).isSome
    · obtain ⟨hclient, hwaits, hsignal⟩ := hwakes
      have hwoken : m.wokenState = .established := by
        rw [CoreMachine.wokenState, if_pos ⟨hclient, hwaits⟩]
      rw [if_pos hsignal, hwoken, imp_iff_right rfl, ← hcontains]
      simp [wakesUnread, hclient, hwaits, hsignal]
    · have hstays : ¬ (if (findMsrSignalTlv frame.tlvs).isSome then m.wokenState else m.state) =
          .established := by
        intro hup
        unfold CoreMachine.wokenState at hup
        split_ifs at hup with hsignal hboth
        · exact hwakes ⟨hboth.1, hboth.2, hsignal⟩
        · exact hest hup
        · exact hest hup
      refine iff_of_true (fun hup => absurd hup hstays) ?_
      rw [← Bool.not_eq_true, wakesUnread]
      simp only [Bool.and_eq_true, decide_eq_true_eq]
      exact fun hall => hwakes ⟨hall.1.1.1, hall.1.1.2, hall.1.2⟩

end Data

/-- The first message of the server, with its signal. -/
def firstData : Packet := .data 1 [10] 0 1

theorem firstData_small : firstData.Small :=
  small_of_short (by simp [firstData, Packet.payload])

theorem firstData_long (cid : UInt64) : 8 ≤ (firstData.frame cid).payload.length := by
  simp [firstData, Packet.frame, WireFrame.new, Packet.payload]

/-- A client that has missed the MSRs of the server for too long. -/
def silentServer : List Op :=
  [.datagram 0 0 ((Packet.control .serverHello).bytes 7), .call (.timer 45001 .clientProbe)]

theorem firstData_taken :
    ∃ h m, exec CoreMachine.step (CoreMachine.new .server 7 .default) greeted = some (h, m) ∧
      (((∃ out, (onDatagram m 1 0 (firstData.bytes m.cid)).2 = .ok out) →
          (onDatagram m 1 0 (firstData.bytes m.cid)).1.state = .established →
            dataId (firstData.frame m.cid).payload ∈
              (onDatagram m 1 0 (firstData.bytes m.cid)).1.receivedIds) ↔
        wakesUnread m (firstData.frame m.cid) = false) := by
  have hsome : (exec CoreMachine.step (CoreMachine.new .server 7 .default) greeted).isSome := by
    decide +kernel
  obtain ⟨⟨h, m⟩, hexec⟩ := Option.isSome_iff_exists.mp hsome
  exact ⟨h, m, hexec, data_taken_iff (ownFrame_packet firstData_small) rfl
    (firstData_long m.cid) 1 0⟩

/-- The client is back in the session, and the message it was woken with is gone. -/
theorem firstData_dropped :
    ¬ ∀ (role : Role) (cid : UInt64) (cfg : CoreConfig) (h : History) (m : CoreMachine),
      Run CoreMachine.step (CoreMachine.new role cid cfg) h m →
        ∀ (bytes : Bytes) (frame : WireFrame), WireFrame.decode bytes = .ok frame →
          frame.cid = m.cid → frame.messageType = .data → 8 ≤ frame.payload.length →
            ∀ (nowMs : UInt64) (src : UInt32), (∃ out, (onDatagram m nowMs src bytes).2 = .ok out) →
              (onDatagram m nowMs src bytes).1.state = .established →
                dataId frame.payload ∈ (onDatagram m nowMs src bytes).1.receivedIds := by
  intro hclaim
  have hsome : ((exec CoreMachine.step (CoreMachine.new .client 7 .default) silentServer).any
      fun x => x.2.cid = 7 ∧ (onDatagram x.2 45002 0 (firstData.bytes 7)).2.toOption.isSome ∧
        (onDatagram x.2 45002 0 (firstData.bytes 7)).1.state = .established ∧
        1 ∉ (onDatagram x.2 45002 0 (firstData.bytes 7)).1.receivedIds) = true := by
    decide +kernel
  obtain ⟨⟨h, m⟩, hexec, hx⟩ := (Option.any_eq_true _ _).mp hsome
  obtain ⟨hcid, hok, hup, hgone⟩ := of_decide_eq_true hx
  have hdone : ∃ out, (onDatagram m 45002 0 (firstData.bytes 7)).2 = .ok out := by
    cases hres : (onDatagram m 45002 0 (firstData.bytes 7)).2 with
    | ok out => exact ⟨out, rfl⟩
    | error e => simp [hres, Except.toOption] at hok
  exact hgone (hclaim .client 7 .default h m (Run.of_exec hexec) _ (firstData.frame 7)
    (Packet.decode_bytes firstData_small 7) hcid.symm rfl (firstData_long 7) 45002 0 hdone hup)

end Todero.Core
