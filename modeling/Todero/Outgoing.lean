import Todero.OutOfSession
import Todero.Recovery

/-! What one machine has been given to send, whatever else it is sent, and what a range
request gets out of it. -/
namespace Todero.Core
open Todero.Wire Transition

def Op.payload : Op → Option Bytes
  | .call (.send payload) => some payload
  | _ => none

/-- Every payload passed to `on_api_send`, in order. -/
def accepted (h : History) : List Bytes := h.filterMap fun t => t.input.payload

/-- The outbox numbers the payloads from 1 on. -/
structure Stocked (ps : List Bytes) (m : CoreMachine) : Prop where
  outbox : Outbox (fun _ => True) m
  next : m.nextOutboundId = ps.length + 1
  messages : ∀ i : Nat, m.outboundMessages[i + 1]? = ps[i]?

section Stocked
variable {ps : List Bytes} {m m' : CoreMachine} {op : Op} {res : CallResult}

/-- Only a send changes the outbox. -/
theorem step_fixed (hs : m.step op = some (m', res)) :
    match op.payload with
      | none => m'.fixed = m.fixed
      | some payload => m' = m.enqueue payload ∧ m.nextOutboundId < u64Max := by
  cases op with
  | call k =>
    have hnext := (apply_answers m hs).next
    by_cases hsend : ∃ payload, k = .send payload
    · obtain ⟨payload, rfl⟩ := hsend
      exact ⟨hnext, (onApiSend_answers m payload hs).1⟩
    · rw [hnext]
      cases k with
      | send payload => exact absurd ⟨payload, rfl⟩ hsend
      | beginHandshake | timer | close | proposeTimers | pathChanged =>
        exact next_fixed m _ (by simp)
  | datagram nowMs src bytes =>
    have heq : onDatagram m nowMs src bytes = (m', res) := Option.some.inj hs
    have hfixed := onDatagram_fixed m nowMs src bytes
    rw [heq] at hfixed
    exact hfixed

theorem Stocked.step (h : Stocked ps m) (hs : m.step op = some (m', res)) :
    Stocked (ps ++ op.payload.toList) m' := by
  have hfixed := step_fixed hs
  cases hp : op.payload with
  | none =>
    simp only [hp] at hfixed
    have hnext : m'.nextOutboundId = m.nextOutboundId := congrArg Fixed.nextOutboundId hfixed
    have hmsgs : m'.outboundMessages = m.outboundMessages := congrArg Fixed.outboundMessages hfixed
    refine ⟨h.outbox.of_fixed hfixed, ?_, ?_⟩
    · rw [hnext, h.next]
      simp
    · simpa [hmsgs] using h.messages
  | some payload =>
    simp only [hp] at hfixed
    obtain ⟨rfl, hroom⟩ := hfixed
    refine ⟨h.outbox.enqueue trivial hroom, ?_, fun i => ?_⟩
    · simp [CoreMachine.enqueue, h.next]
    · simp only [CoreMachine.enqueue, Std.TreeMap.getElem?_insert,
        Std.LawfulEqCmp.compare_eq_iff_eq, h.next, Nat.add_right_cancel_iff, Option.toList]
      split_ifs with hi
      · rw [← hi]
        simp
      · rw [h.messages, List.getElem?_append]
        split_ifs with hlt
        · rfl
        · rw [List.getElem?_eq_none (by omega), List.getElem?_eq_none (by simp; omega)]

theorem stocked_new (role : Role) (cid : UInt64) (cfg : CoreConfig) :
    Stocked [] (CoreMachine.new role cid cfg) where
  outbox := by
    refine ⟨by simp [CoreMachine.new]; omega, le_rfl, ?_, by simp [CoreMachine.new]⟩
    show 1 ≤ u64Max
    decide
  next := rfl
  messages := by simp [CoreMachine.new]

theorem accepted_snoc (h : History) (t : Taken CoreMachine Op CallResult) :
    accepted (h ++ [t]) = accepted h ++ t.input.payload.toList := by
  rw [accepted, List.filterMap_append, ← accepted]
  cases hp : t.input.payload <;> simp [hp]

theorem Stocked.of_run {start : CoreMachine} (h₀ : Stocked ps start) {h : History}
    (hrun : Run CoreMachine.step start h m) : Stocked (ps ++ accepted h) m := by
  induction hrun with
  | nil => simpa [accepted] using h₀
  | @snoc h m m' op res _ hs ih =>
    rw [accepted_snoc, ← List.append_assoc]
    exact ih.step hs

theorem stocked_of_run {role : Role} {cid : UInt64} {cfg : CoreConfig} {h : History}
    (hrun : Run CoreMachine.step (CoreMachine.new role cid cfg) h m) : Stocked (accepted h) m :=
  (stocked_new role cid cfg).of_run hrun

theorem Stocked.maxPendingId (h : Stocked ps m) : m.maxPendingId = ps.length := by
  rw [h.outbox.maxPendingId, h.next, Nat.add_sub_cancel]

theorem Stocked.length_lt (h : Stocked ps m) : ps.length < 2 ^ 64 := by
  have hbound := h.outbox.bound
  rw [h.next, u64Max] at hbound
  omega

theorem Stocked.message (h : Stocked ps m) {id : Nat} (hid : 1 ≤ id) :
    m.outboundMessages[id]? = ps[id - 1]? := by
  have hmsg := h.messages (id - 1)
  rwa [Nat.sub_add_cancel hid] at hmsg

end Stocked

/-! ### A range request -/

theorem fragmentCount_le_iff (msg : Bytes) : fragmentCount msg ≤ 65535 ↔ Sendable msg := by
  refine ⟨fun h => ?_, Sendable.fragmentCount_le⟩
  calc msg.length ≤ fragmentCount msg * chunkSize := length_le_fragmentCount msg
    _ ≤ 65535 * chunkSize := Nat.mul_le_mul_right _ h
    _ = 988 * 65535 := Nat.mul_comm _ _

/-- A request is answered unless a message of the range is too large. -/
theorem repliesTo_isSome_iff {m : CoreMachine} {ids : List Nat} :
    (repliesTo m ids).isSome ↔
      ∀ id ∈ ids, ∀ msg, m.outboundMessages[id]? = some msg → Sendable msg := by
  have hone : ∀ id, (replyPackets m id).isSome ↔
      ∀ msg, m.outboundMessages[id]? = some msg → Sendable msg := by
    intro id
    cases hmsg : m.outboundMessages[id]? with
    | none => simp [replyPackets, hmsg]
    | some msg =>
      simp only [replyPackets, hmsg, Option.some.injEq, forall_eq', ← fragmentCount_le_iff]
      split_ifs with hsmall hbig
      · have hle : msg.length ≤ 988 * 65535 := by
          simp only [maxDataPayloadPerFrame] at hsmall
          omega
        exact iff_of_true rfl ((fragmentCount_le_iff msg).mpr hle)
      · exact iff_of_false (by simp) (by omega)
      · exact iff_of_true rfl (by omega)
  induction ids with
  | nil => simp [repliesTo]
  | cons id ids ih =>
    rw [List.forall_mem_cons, ← hone]
    refine Iff.trans ?_ (and_congr_right fun _ => ih)
    rw [repliesTo]
    cases replyPackets m id <;> cases repliesTo m ids <;> simp

/-- The signal beside a packet asks for what it advertises, and sends nothing else. -/
theorem piggybacked_said (nowMs : UInt64) (src : UInt32) (frame : WireFrame) (c : Ctx) :
    ∃ qs : List Packet, (∀ q ∈ qs, q.Small ∧ q.isRequest) ∧
      (c.piggybacked nowMs src frame).said = c.said ++ qs.map (Packet.bytes c.self.cid) := by
  unfold Ctx.piggybacked
  split_ifs
  · split
    · exact ⟨[], by simp, by simp⟩
    · rename_i next _
      refine ⟨_, fun q hq => ?_, (Ctx.signalled_moves nowMs src next .piggybackTlv c).said⟩
      rcases mem_signalPackets.mp hq with ⟨-, hdue, -⟩ | ⟨-, rfl⟩
      · exact absurd hdue.1 (by simp)
      · exact ⟨small_of_short (by simp [Packet.payload]), rfl⟩
  · exact ⟨[], by simp, by simp⟩

/-- What the handler of a request sends, and the request of its own that a piggybacked
signal adds; all of it is dropped when one message is too large. -/
theorem onDatagram_range {m : CoreMachine} (hest : m.state = .established) {bytes : Bytes}
    {frame : WireFrame} (hown : ownFrame m bytes = some frame)
    (htype : frame.messageType = .requestRange) {start stop : Nat}
    (hrange : decodeRange frame.payload = some (start, stop)) (nowMs : UInt64) (src : UInt32) :
    match repliesTo m (List.range' start (stop + 1 - start)) with
      | none => (onDatagram m nowMs src bytes).2 = .error .malformedData
      | some ps => ∃ out qs, (onDatagram m nowMs src bytes).2 = .ok out ∧
          out.outboundDatagrams.map OutboundDatagram.bytes = (ps ++ qs).map (Packet.bytes m.cid) ∧
          ∀ q ∈ qs, q.Small ∧ q.isRequest := by
  obtain ⟨hd, hf⟩ := ownFrame_eq_some.mp hown
  have hall := replyAll_run src (List.range' start (stop + 1 - start)) (Ctx.received nowMs src ⟨m, {}⟩)
  have hest' : (Ctx.received nowMs src ⟨m, {}⟩).self.state = .established := hest
  rw [@repliesTo_congr (Ctx.received nowMs src ⟨m, {}⟩).self m rfl rfl] at hall
  rw [onDatagram_run hd hf, dispatch_requestRange nowMs src _ htype, if_pos hest']
  simp only [handleRequestRange, hrange]
  cases hps : repliesTo m (List.range' start (stop + 1 - start)) with
  | none =>
    simp only [hps] at hall
    obtain ⟨qs, hrun⟩ := hall
    rw [hrun]
  | some ps =>
    simp only [hps] at hall
    rw [hall]
    obtain ⟨qs, hqs, hsaid⟩ := piggybacked_said nowMs src frame
      ((Ctx.received nowMs src ⟨m, {}⟩).sendAll src ps)
    refine ⟨_, qs, rfl, ?_, hqs⟩
    show (Ctx.piggybacked nowMs src frame _).said = _
    rw [hsaid, Ctx.said_sendAll, Ctx.sendAll_self, List.map_append]
    rfl

/-- The output holds message `id`: in one `Data` frame, or in all its `Fragment` frames. -/
def CoreOutput.Holds (cid : UInt64) (out : CoreOutput) (id : Nat) (msg : Bytes) : Prop :=
  (∃ acked next, (Packet.data id msg acked next).bytes cid ∈
      out.outboundDatagrams.map OutboundDatagram.bytes) ∨
    ∃ pieces : List Bytes, pieces.flatten = msg ∧ pieces.length ≤ 65535 ∧ pieces ≠ [] ∧
      ∀ (idx : Nat) (chunk : Bytes), pieces[idx]? = some chunk → ∃ acked next,
        (Packet.fragment id idx pieces.length chunk acked next).bytes cid ∈
          out.outboundDatagrams.map OutboundDatagram.bytes

theorem holds_of_reply {m : CoreMachine} {ids : List Nat} {ps : List Packet}
    (hps : repliesTo m ids = some ps) {out : CoreOutput}
    (hout : ∀ p ∈ ps, p.bytes m.cid ∈ out.outboundDatagrams.map OutboundDatagram.bytes)
    {id : Nat} (hid : id ∈ ids) {msg : Bytes} (hmsg : m.outboundMessages[id]? = some msg) :
    out.Holds m.cid id msg := by
  obtain hwhole | ⟨hcount, hle, hpieces⟩ := repliesTo_parts hps hid hmsg
  · exact .inl ⟨_, _, hout _ hwhole⟩
  · refine .inr ⟨(List.range (fragmentCount msg)).map (piece msg), ?_, by simpa using hle, ?_, ?_⟩
    · rw [← List.flatMap_def, pieces_all]
    · intro hnil
      have hzero : fragmentCount msg = 0 := by simpa using hnil
      omega
    · intro idx chunk hchunk
      obtain ⟨hidx, rfl⟩ : idx < fragmentCount msg ∧ piece msg idx = chunk := by
        simpa [List.getElem?_map, Option.map_eq_some_iff, List.getElem?_eq_some_iff] using hchunk
      simp only [List.length_map, List.length_range]
      exact ⟨_, _, hout _ (hpieces idx hidx)⟩

/-- The request succeeds and every message of the range is in the output. -/
def RangeSent (cid : UInt64) (ps : List Bytes) (start stop : Nat) (res : CallResult) : Prop :=
  ∃ out, res = .ok out ∧ ∀ id, start ≤ id → id ≤ stop →
    ∃ msg, ps[id - 1]? = some msg ∧ out.Holds cid id msg

theorem Stocked.range_sent {ps : List Bytes} {m : CoreMachine} (hstock : Stocked ps m)
    (hest : m.state = .established) {bytes : Bytes} {frame : WireFrame}
    (hown : ownFrame m bytes = some frame) (htype : frame.messageType = .requestRange)
    {start stop : Nat} (hrange : decodeRange frame.payload = some (start, stop))
    (hstart : 1 ≤ start) (hstop : stop ≤ ps.length) (nowMs : UInt64) (src : UInt32) :
    RangeSent m.cid ps start stop (onDatagram m nowMs src bytes).2 ↔
      ∀ id msg, start ≤ id → id ≤ stop → ps[id - 1]? = some msg → Sendable msg := by
  have hids : ∀ id, id ∈ List.range' start (stop + 1 - start) ↔ start ≤ id ∧ id ≤ stop := by
    intro id
    rw [List.mem_range'_1]
    omega
  have hcall := onDatagram_range hest hown htype hrange nowMs src
  have hsome := @repliesTo_isSome_iff m (List.range' start (stop + 1 - start))
  have hsend : (∀ id ∈ List.range' start (stop + 1 - start), ∀ msg,
        m.outboundMessages[id]? = some msg → Sendable msg) ↔
      ∀ id msg, start ≤ id → id ≤ stop → ps[id - 1]? = some msg → Sendable msg := by
    constructor
    · intro hall id msg h₁ h₂ hmsg
      exact hall id ((hids id).mpr ⟨h₁, h₂⟩) msg ((hstock.message (by omega)).trans hmsg)
    · intro hall id hid msg hmsg
      obtain ⟨h₁, h₂⟩ := (hids id).mp hid
      exact hall id msg h₁ h₂ ((hstock.message (by omega)).symm.trans hmsg)
  rw [← hsend, ← hsome]
  cases hps : repliesTo m (List.range' start (stop + 1 - start)) with
  | none =>
    simp only [hps] at hcall
    refine iff_of_false ?_ (by simp)
    rintro ⟨out, hok, -⟩
    rw [hcall] at hok
    cases hok
  | some packets =>
    simp only [hps] at hcall
    obtain ⟨out, qs, hok, hsaid, -⟩ := hcall
    refine iff_of_true ⟨out, hok, fun id h₁ h₂ => ?_⟩ rfl
    have hget := List.getElem?_eq_getElem (l := ps) (i := id - 1) (by omega)
    refine ⟨_, hget, holds_of_reply hps (fun p hp => ?_) ((hids id).mpr ⟨h₁, h₂⟩)
      ((hstock.message (by omega)).trans hget)⟩
    rw [hsaid]
    exact List.mem_map_of_mem (List.mem_append_left _ hp)

/-- A range of accepted messages is sent exactly if each of them fits into 65535 fragments. -/
theorem range_sent_iff {role : Role} {cid : UInt64} {cfg : CoreConfig} {h : History}
    {m : CoreMachine} (hrun : Run CoreMachine.step (CoreMachine.new role cid cfg) h m)
    (hest : m.state = .established) {bytes : Bytes} {frame : WireFrame}
    (hown : ownFrame m bytes = some frame) (htype : frame.messageType = .requestRange)
    {start stop : Nat} (hrange : decodeRange frame.payload = some (start, stop))
    (hstart : 1 ≤ start) (hstop : stop ≤ (accepted h).length)
    (nowMs : UInt64) (src : UInt32) :
    RangeSent m.cid (accepted h) start stop (onDatagram m nowMs src bytes).2 ↔
      ∀ id msg, start ≤ id → id ≤ stop → (accepted h)[id - 1]? = some msg → Sendable msg :=
  (stocked_of_run hrun).range_sent hest hown htype hrange hstart hstop nowMs src

/-- A server whose client has said hello, and the request for its first message. -/
def greeted : List Op := [.datagram 0 0 ((Packet.control .clientHello).bytes 7)]
def firstRequest : Packet := .requestRange 1 1 0 0

theorem firstRequest_range (cid : UInt64) :
    decodeRange (firstRequest.frame cid).payload = some (1, 1) :=
  decodeRange_encode 1 1

theorem firstRequest_small : firstRequest.Small :=
  small_of_short (by simp [firstRequest, Packet.payload])

theorem ownFrame_packet {m : CoreMachine} {p : Packet} (hp : p.Small) :
    ownFrame m (p.bytes m.cid) = some (p.frame m.cid) :=
  ownFrame_eq_some.mpr ⟨Packet.decode_bytes hp m.cid, not_foreign m p⟩

theorem shortMessage_sent :
    ∃ h m, exec CoreMachine.step (CoreMachine.new .server 7 .default)
        (greeted ++ [.call (.send [10])]) = some (h, m) ∧
      (RangeSent m.cid (accepted h) 1 1 (onDatagram m 2 0 (firstRequest.bytes m.cid)).2 ↔
        ∀ id msg, 1 ≤ id → id ≤ 1 → (accepted h)[id - 1]? = some msg → Sendable msg) := by
  have hsome : ((exec CoreMachine.step (CoreMachine.new .server 7 .default)
      (greeted ++ [.call (.send [10])])).any fun x =>
        x.2.state = .established ∧ (accepted x.1).length = 1) = true := by decide +kernel
  obtain ⟨⟨h, m⟩, hexec, hx⟩ := (Option.any_eq_true _ _).mp hsome
  obtain ⟨hest, hlen⟩ := of_decide_eq_true hx
  exact ⟨h, m, hexec, range_sent_iff (Run.of_exec hexec) hest
    (ownFrame_packet firstRequest_small) rfl (firstRequest_range m.cid) le_rfl hlen.ge 2 0⟩

/-- One byte more than 65535 fragments hold. -/
def hugeMessage : Bytes := List.replicate (988 * 65535 + 1) 0

theorem hugeMessage_not_sent :
    ¬ ∀ (role : Role) (cid : UInt64) (cfg : CoreConfig) (h : History) (m : CoreMachine),
      Run CoreMachine.step (CoreMachine.new role cid cfg) h m → m.state = .established →
        ∀ (bytes : Bytes) (frame : WireFrame) (start stop : Nat), ownFrame m bytes = some frame →
          frame.messageType = .requestRange → decodeRange frame.payload = some (start, stop) →
            1 ≤ start → start ≤ stop → stop ≤ (accepted h).length → ∀ nowMs src,
              RangeSent m.cid (accepted h) start stop (onDatagram m nowMs src bytes).2 := by
  intro hclaim
  have hsome : ((exec CoreMachine.step (CoreMachine.new .server 7 .default) greeted).any fun x =>
      x.2.state = .established ∧ accepted x.1 = []) = true := by decide +kernel
  obtain ⟨⟨h₀, m₀⟩, hexec, hx⟩ := (Option.any_eq_true _ _).mp hsome
  obtain ⟨hest, hnone⟩ := of_decide_eq_true hx
  have hrun₀ := Run.of_exec hexec
  have hnext : m₀.nextOutboundId = 1 := by
    rw [(stocked_of_run hrun₀).next, hnone]
    rfl
  obtain ⟨m, res, hs⟩ : ∃ m res, m₀.step (.call (.send hugeMessage)) = some (m, res) := by
    have hroom : ¬ m₀.nextOutboundId + 1 > u64Max := by
      rw [hnext]
      decide
    exact ⟨_, _, if_neg hroom⟩
  have hrun := hrun₀.snoc hs
  have hstock := stocked_of_run hrun
  have hsent : accepted (h₀ ++ [⟨m₀, .call (.send hugeMessage), res, m⟩]) = [hugeMessage] := by
    rw [accepted_snoc, hnone]
    rfl
  have hup : m.state = .established := by
    have happ : m₀.apply (.send hugeMessage) = some (m, res) := hs
    rw [(apply_answers m₀ happ).next]
    exact hest
  have hone : 1 ≤ (accepted (h₀ ++ [⟨m₀, .call (.send hugeMessage), res, m⟩])).length := by
    rw [hsent]
    exact le_rfl
  have hown : ownFrame m (firstRequest.bytes m.cid) = some (firstRequest.frame m.cid) :=
    ownFrame_packet firstRequest_small
  have hgot := hclaim .server 7 .default _ m hrun hup _ _ 1 1 hown rfl (firstRequest_range m.cid)
    le_rfl le_rfl hone 2 0
  rw [hstock.range_sent hup hown rfl (firstRequest_range m.cid) le_rfl hone, hsent] at hgot
  have hfits : hugeMessage.length ≤ 988 * 65535 := hgot 1 hugeMessage le_rfl le_rfl rfl
  rw [hugeMessage, List.length_replicate] at hfits
  omega

end Todero.Core
