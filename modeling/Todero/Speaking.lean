import Todero.Delivery
import Todero.Stream

/-! One machine at a time: what a machine that is given readable frames says of its outbox,
and what a machine that is given honest frames of another one holds of that one's. -/
namespace Todero.Core
open Todero.Wire Transition Duplex

/-! ### What a core machine says of its outbox -/

section Speaker
variable {fits : Bytes → Prop} {cid : UInt64} {m m' : CoreMachine} {res : CallResult}

/-- A machine that is given nothing but readable frames of its own cid. -/
def Readable (cid : UInt64) : Op → Prop
  | .call _ => True
  | .datagram _ _ bytes => ∃ p : Packet, p.Small ∧ bytes = p.bytes cid

/-- What such a machine does to what it has said before, and what it says now. -/
structure Speaks (cid : UInt64) (m m' : CoreMachine) (ds : List Bytes) : Prop where
  named : m'.cid = cid
  outbox : Outbox (fun _ => True) m'
  grows : Grows m m'
  honest : ∀ bytes ∈ ds, ∃ p : Packet, p.Small ∧ Honest m' p ∧ bytes = p.bytes cid

theorem step_speaks {op : Op} (hcid : m.cid = cid) (hout : Outbox (fun _ => True) m)
    (hop : Readable cid op) (h : m.step op = some (m', res)) :
    Speaks cid m m' (res.output.outboundDatagrams.map OutboundDatagram.bytes) := by
  cases op with
  | call k =>
    have hans := apply_answers m h
    obtain rfl : m' = m.next k := hans.next
    have hout' : Outbox (fun _ => True) (m.next k) := by
      by_cases hsend : ∃ payload, k = .send payload
      · obtain ⟨payload, rfl⟩ := hsend
        exact hout.enqueue trivial (onApiSend_answers m payload h).1
      · exact hout.of_fixed (next_fixed m k (not_exists.mp hsend))
    refine ⟨(apply_cid h).trans hcid, hout', next_grows hout k, fun bytes hmem => ?_⟩
    rw [hans.datagrams, List.map_map, List.mem_map] at hmem
    obtain ⟨p, hp, rfl⟩ := hmem
    exact ⟨p, utters_small m k p hp, utters_honest hout hout' p hp, by rw [← hcid]; rfl⟩
  | datagram nowMs src bytes =>
    obtain ⟨p, hp, rfl⟩ := hop
    subst hcid
    have hears := hears m nowMs src hp
    have heq : onDatagram m nowMs src (p.bytes m.cid) = (m', res) := Option.some.inj h
    rw [heq] at hears
    refine ⟨congrArg Fixed.cid hears.fixed, hout.of_fixed hears.fixed, hears.grows,
      fun bytes hmem => ?_⟩
    rw [hears.said, List.mem_map] at hmem
    obtain ⟨q, hq, rfl⟩ := hmem
    exact ⟨q, replies_small m p q hq, replies_honest hout hears q hq, rfl⟩

theorem Grows.refl (m : CoreMachine) : Grows m m := ⟨rfl, fun _ _ h => h, le_rfl, le_rfl, id, id⟩

theorem Grows.trans {m'' : CoreMachine} (h : Grows m m') (h' : Grows m' m'') : Grows m m'' where
  role := h'.role.trans h.role
  outbox := fun id msg hmsg => h'.outbox id msg (h.outbox id msg hmsg)
  next := h.next.trans h'.next
  cursor := h.cursor.trans h'.cursor
  begun := fun hb => h'.begun (h.begun hb)
  lost := fun hl => h'.lost (h.lost hl)

theorem exec_speaks {ops : List Op} {seg : History} (hcid : m.cid = cid)
    (hout : Outbox (fun _ => True) m) (hops : ∀ op ∈ ops, Readable cid op)
    (h : exec CoreMachine.step m ops = some (seg, m')) : Speaks cid m m' (said seg) := by
  induction ops generalizing m seg with
  | nil =>
    obtain ⟨rfl, rfl⟩ := Prod.mk.inj (Option.some.inj h)
    exact ⟨hcid, hout, .refl m, by simp [said]⟩
  | cons op ops ih =>
    cases hs : m.step op with
    | none => simp [exec, hs] at h
    | some called =>
      obtain ⟨m₁, res⟩ := called
      simp only [exec, hs, Option.map_eq_some_iff, Prod.mk.injEq] at h
      obtain ⟨⟨seg₁, m₂⟩, htail, rfl, rfl⟩ := h
      have hone := step_speaks hcid hout (hops op (by simp)) hs
      have hrest := ih hone.named hone.outbox (fun op' hop' => hops op' (by simp [hop'])) htail
      refine ⟨hrest.named, hrest.outbox, hone.grows.trans hrest.grows, fun bytes hmem => ?_⟩
      have hsplit : said (⟨m, op, res, m₁⟩ :: seg₁) =
        res.output.outboundDatagrams.map OutboundDatagram.bytes ++ said seg₁ := rfl
      rw [hsplit, List.mem_append] at hmem
      rcases hmem with hfirst | hlater
      · obtain ⟨p, hp, hhonest, rfl⟩ := hone.honest bytes hfirst
        exact ⟨p, hp, hhonest.mono hrest.grows, rfl⟩
      · exact hrest.honest bytes hlater

/-- The outbox of a machine that has been sent `sent`. -/
structure Posted (sent : List Bytes) (m : CoreMachine) : Prop where
  next : m.nextOutboundId = sent.length + 1
  outbox : ∀ i : Nat, m.outboundMessages[i + 1]? = sent[i]?

theorem Posted.of_fixed {sent : List Bytes} (h : Posted sent m) (hf : m'.fixed = m.fixed) :
    Posted sent m' := by
  have hnext : m'.nextOutboundId = m.nextOutboundId := congrArg Fixed.nextOutboundId hf
  have hout : m'.outboundMessages = m.outboundMessages := congrArg Fixed.outboundMessages hf
  exact ⟨hnext.trans h.next, fun i => by rw [hout, h.outbox]⟩

theorem Posted.enqueue {sent : List Bytes} (h : Posted sent m) (payload : Bytes) :
    Posted (sent ++ [payload]) (m.enqueue payload) where
  next := by
    rw [List.length_append]
    exact congrArg (· + 1) h.next
  outbox i := by
    rw [CoreMachine.enqueue]
    simp only [Std.TreeMap.getElem?_insert, Std.LawfulEqCmp.compare_eq_iff_eq, h.next, h.outbox]
    by_cases hi : i = sent.length
    · simp [hi]
    · have hne : ¬ sent.length + 1 = i + 1 := by omega
      rw [if_neg hne]
      by_cases hlt : i < sent.length
      · rw [List.getElem?_append_left hlt]
      · rw [List.getElem?_eq_none (by omega), List.getElem?_eq_none (by simp; omega)]

/-- Anything but a message of the application. -/
def Op.silent : Op → Prop
  | .call (.send _) => False
  | _ => True

theorem exec_fixed {ops : List Op} {seg : History} (hops : ∀ op ∈ ops, op.silent)
    (h : exec CoreMachine.step m ops = some (seg, m')) : m'.fixed = m.fixed := by
  induction ops generalizing m seg with
  | nil =>
    obtain ⟨-, rfl⟩ := Prod.mk.inj (Option.some.inj h)
    rfl
  | cons op ops ih =>
    cases hs : m.step op with
    | none => simp [exec, hs] at h
    | some called =>
      obtain ⟨m₁, res⟩ := called
      simp only [exec, hs, Option.map_eq_some_iff, Prod.mk.injEq] at h
      obtain ⟨⟨seg₁, m₂⟩, htail, -, rfl⟩ := h
      rw [ih (fun op' hop' => hops op' (by simp [hop'])) htail]
      have hsilent := hops op (by simp)
      cases op with
      | call k =>
        have hsend : ∀ payload, k ≠ .send payload := by
          rintro payload rfl
          exact hsilent
        rw [(apply_answers m hs).next, next_fixed m k hsend]
      | datagram nowMs src bytes =>
        have heq : onDatagram m nowMs src bytes = (m₁, res) := Option.some.inj hs
        have hfixed := onDatagram_fixed m nowMs src bytes
        rwa [heq] at hfixed

end Speaker

/-! ### What a session's core holds of it -/

/-- The receive buffers hold messages of `out` only. -/
structure Tracks (out : Std.TreeMap Nat Bytes) (m : CoreMachine) : Prop where
  ok : m.rx.Ok
  agrees : m.rx.Agrees out

section Listener
variable {fits : Bytes → Prop} {cid : UInt64} {t m m' : CoreMachine} {res : CallResult}

theorem Tracks.mono {out out' : Std.TreeMap Nat Bytes}
    (h : ∀ (id : Nat) (p : Bytes), out[id]? = some p → out'[id]? = some p) (hm : Tracks out m) :
    Tracks out' m :=
  ⟨hm.ok, hm.agrees.mono h⟩

theorem mem_numbered {k id : Nat} {q : Bytes} {ps : List Bytes} :
    (id, q) ∈ numbered k ps ↔ ∃ i : Nat, ps[i]? = some q ∧ id = k + i := by
  induction ps generalizing k with
  | nil => simp [numbered]
  | cons p ps ih =>
    have hcons : numbered k (p :: ps) = (k, p) :: numbered (k + 1) ps := by
      simp [numbered, List.range'_succ]
    rw [hcons, List.mem_cons, ih]
    constructor
    · rintro (heq | ⟨i, hi, rfl⟩)
      · obtain ⟨rfl, rfl⟩ := Prod.mk.inj heq
        exact ⟨0, rfl, rfl⟩
      · exact ⟨i + 1, hi, by omega⟩
    · rintro ⟨i, hi, rfl⟩
      cases i with
      | zero => exact .inl (by simpa using hi.symm)
      | succ i => exact .inr ⟨i, hi, by omega⟩

/-- An honest frame of `t`, at a machine that holds messages of `t`. -/
theorem Tracks.hears (hm : Tracks t.outboundMessages m) (hout : Outbox fits t) {p : Packet}
    (hp : Honest t p) (h : Hears m p m' res) :
    Tracks t.outboundMessages m' ∧
      ∀ x ∈ res.messages, t.outboundMessages[x.1]? = some x.2 := by
  have hall : (m.rxOn p).1.Ok ∧ (m.rxOn p).1.Agrees t.outboundMessages ∧
      ∀ (i : Nat) (q : Bytes), (m.rxOn p).2[i]? = some q →
        t.outboundMessages[m.lastOrderedRx + 1 + i]? = some q := by
    have hnone : (m.rx.arriveOpt none).1.Ok ∧ (m.rx.arriveOpt none).1.Agrees t.outboundMessages ∧
        ∀ (i : Nat) (q : Bytes), (m.rx.arriveOpt none).2[i]? = some q →
          t.outboundMessages[m.lastOrderedRx + 1 + i]? = some q :=
      ⟨hm.ok, hm.agrees, fun i q hq => by simp [Rx.arriveOpt] at hq⟩
    rw [CoreMachine.rxOn]
    by_cases hest : m.state = .established
    · rw [if_pos hest]
      cases ha : p.arrival with
      | none => exact hnone
      | some a =>
        have hfrom := hp.arrival_from hout ha
        exact ⟨hm.ok.arrive hfrom.sane, hm.agrees.arrive hm.ok hfrom⟩
    · rw [if_neg hest]
      exact hnone
  obtain ⟨hok, hagrees, hfreed⟩ := hall
  refine ⟨⟨by rw [h.rx]; exact hok, by rw [h.rx]; exact hagrees⟩, fun x hx => ?_⟩
  obtain ⟨id, q⟩ := x
  rw [messages_eq, h.deliveries, deliveryEvents_messages, mem_numbered] at hx
  obtain ⟨i, hi, rfl⟩ := hx
  exact hfreed i q hi

/-- A datagram that is an honest frame of `t`; calls are of no matter to what is received. -/
def FromPeer (cid : UInt64) (t : CoreMachine) : Op → Prop
  | .call _ => True
  | .datagram _ _ bytes => ∃ p : Packet, p.Small ∧ Honest t p ∧ bytes = p.bytes cid

theorem step_tracks {op : Op} (hcid : m.cid = cid) (hm : Tracks t.outboundMessages m)
    (hout : Outbox fits t) (hop : FromPeer cid t op) (h : m.step op = some (m', res)) :
    m'.cid = cid ∧ Tracks t.outboundMessages m' := by
  cases op with
  | call k =>
    refine ⟨(apply_cid h).trans hcid, ?_⟩
    have hrx : m'.rx = m.rx := by rw [(apply_answers m h).next, next_rx]
    exact ⟨hrx ▸ hm.ok, hrx ▸ hm.agrees⟩
  | datagram nowMs src bytes =>
    obtain ⟨p, hp, hhonest, rfl⟩ := hop
    subst hcid
    have hhears := Core.hears m nowMs src hp
    have heq : onDatagram m nowMs src (p.bytes m.cid) = (m', res) := Option.some.inj h
    rw [heq] at hhears
    exact ⟨congrArg Fixed.cid hhears.fixed, (hm.hears hout hhonest hhears).1⟩

theorem exec_tracks {ops : List Op} {seg : History} (hcid : m.cid = cid)
    (hm : Tracks t.outboundMessages m) (hout : Outbox fits t) (hops : ∀ op ∈ ops, FromPeer cid t op)
    (h : exec CoreMachine.step m ops = some (seg, m')) : Tracks t.outboundMessages m' := by
  induction ops generalizing m seg with
  | nil =>
    obtain ⟨-, rfl⟩ := Prod.mk.inj (Option.some.inj h)
    exact hm
  | cons op ops ih =>
    cases hs : m.step op with
    | none => simp [exec, hs] at h
    | some called =>
      obtain ⟨m₁, res⟩ := called
      simp only [exec, hs, Option.map_eq_some_iff, Prod.mk.injEq] at h
      obtain ⟨⟨seg₁, m₂⟩, htail, -, rfl⟩ := h
      obtain ⟨hcid₁, hm₁⟩ := step_tracks hcid hm hout (hops op (by simp)) hs
      exact ih hcid₁ hm₁ (fun op' hop' => hops op' (by simp [hop'])) htail

end Listener

end Todero.Core
