import Todero.Stream

/-! The range requests between a client and a server: each one asks for messages that the
other end has, and has kept as they were enqueued. -/
namespace Todero.Core
open Todero.Wire Transition Duplex

/-- A range of the messages `ps`, which `m` has under their ids. -/
structure ExactRange (ps : List Bytes) (m : CoreMachine) (start stop : Nat) : Prop where
  start_pos : 1 ≤ start
  start_le : start ≤ stop
  stop_le : stop ≤ ps.length
  found : ∀ id, start ≤ id → id ≤ stop →
    ∃ p, ps[id - 1]? = some p ∧ m.outboundMessages[id]? = some p

/-- Every `RequestRange` frame is a request for such a range. -/
def RequestsExactly (ps : List Bytes) (m : CoreMachine) (bytes : Bytes) : Prop :=
  ∀ frame, WireFrame.decode bytes = .ok frame → frame.messageType = .requestRange →
    ∃ start stop, decodeRange frame.payload = some (start, stop) ∧ ExactRange ps m start stop

section Streamed
variable {cid : UInt64} {fits : Bytes → Prop} {h : List (Taken Talk Move (Option CallResult))}
  {w : Talk} {r : Role} {ps : List Bytes}

/-- The cursor of the peer is at most at the last message. -/
theorem Streamed.cursor_le (hd : Streamed h w r ps) (hw : w.Honest cid fits) :
    (w.core r.peer).lastRequestedEnd ≤ (enqueued r h).length := by
  have hcursor := (hw.ends r.peer).cursor
  rw [Role.peer_peer, hd.next] at hcursor
  omega

theorem Streamed.exactRange (hd : Streamed h w r ps) {start stop : Nat} (hpos : 1 ≤ start)
    (hle : start ≤ stop) (hstop : stop ≤ (enqueued r h).length) :
    ExactRange (enqueued r h) (w.core r) start stop := by
  refine ⟨hpos, hle, hstop, fun id h₁ h₂ => ?_⟩
  have hget := List.getElem?_eq_getElem (l := enqueued r h) (i := id - 1) (by omega)
  have hout := hd.outbox (id - 1)
  rw [Nat.sub_add_cancel (by omega)] at hout
  exact ⟨_, hget, hout.trans hget⟩

/-- Whatever is in flight to `r` asks for no more than it has. -/
theorem Streamed.requests (hd : Streamed h w r ps) (hw : w.Honest cid fits) {p : Packet}
    (hp : p ∈ w.inbox r) : RequestsExactly (enqueued r h) (w.core r) (p.bytes cid) := by
  obtain ⟨hsmall, hhonest⟩ := hw.flight r p hp
  intro frame hdec htype
  rw [Packet.decode_bytes hsmall] at hdec
  obtain rfl := Except.ok.inj hdec
  cases p with
  | control t =>
    have ht : t = .requestRange := htype
    subst ht
    exact absurd hhonest (by simp [Core.Honest])
  | msr | data | fragment => cases htype
  | requestRange start stop acked next =>
    obtain ⟨hpos, hle, hcursor, -, -⟩ := hhonest
    have hstop := hcursor.trans (hd.cursor_le hw)
    have hlt : (enqueued r h).length < 2 ^ 64 := by
      have hbound := (hw.ends r).outbox.bound
      rw [hd.next, u64Max] at hbound
      omega
    refine ⟨start, stop, ?_, hd.exactRange hpos hle hstop⟩
    show decodeRange (encodeRange start stop) = _
    rw [decodeRange_encode, Nat.mod_eq_of_lt (by omega), Nat.mod_eq_of_lt (by omega)]

end Streamed

/-- Over every run of the two machines and the network between them, every range request
in flight asks the other end for messages it has, and no cursor is past the last one. -/
theorem requests_exact {cid : UInt64} {cfg : Role → CoreConfig} {h : WorldHistory} {w : World}
    (hrun : Run World.step (World.start cid cfg) h w) (r : Role) :
    (w.core r.peer).lastRequestedEnd ≤ (enqueued r h).length ∧
      ∀ bytes ∈ w.inbox r, RequestsExactly (enqueued r h) (w.core r) bytes := by
  obtain ⟨h', v, hrun', -, rfl, rfl⟩ := World.run_of_talk (Talk.start_clean cid cfg) hrun
  obtain ⟨hw, ps, hd⟩ := streamed_of_run hrun' r
  have hsent : enqueued r (h'.map (Taken.map (Talk.toWorld cid))) = enqueued r h' := by
    rw [enqueued, List.filterMap_map]
    rfl
  rw [hsent]
  refine ⟨hd.cursor_le hw, fun bytes hbytes => ?_⟩
  obtain ⟨p, hp, rfl⟩ := List.mem_map.mp hbytes
  exact hd.requests hw hp

theorem overtaking_exact :
    ∃ h w, exec World.step (World.start 7 fun _ => .default) overtaking = some (h, w) ∧
      (w.core .server).lastRequestedEnd ≤ (enqueued .client h).length ∧
        ∀ bytes ∈ w.inbox .client, RequestsExactly (enqueued .client h) (w.core .client) bytes := by
  have hsome : (exec World.step (World.start 7 fun _ => .default) overtaking).isSome := by
    decide +kernel
  obtain ⟨⟨h, w⟩, hexec⟩ := Option.isSome_iff_exists.mp hsome
  exact ⟨h, w, hexec, requests_exact (Run.of_exec hexec) .client⟩

end Todero.Core
