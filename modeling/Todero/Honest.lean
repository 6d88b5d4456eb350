import Todero.Agreement

/-! The invariant of a client and a server that are sent only what the other one emits:
how the two machines are related, and what every packet in flight says about its
sender. -/
namespace Todero.Core
open Todero.Wire Transition Duplex

/-- The outbox holds the ids below `next_outbound_id`, and each payload satisfies `fits`. -/
structure Outbox (fits : Bytes → Prop) (m : CoreMachine) : Prop where
  keys : ∀ id : Nat, id ∈ m.outboundMessages ↔ 1 ≤ id ∧ id < m.nextOutboundId
  pos : 1 ≤ m.nextOutboundId
  bound : m.nextOutboundId ≤ u64Max
  fits : ∀ (id : Nat) (msg : Bytes), m.outboundMessages[id]? = some msg → fits msg

theorem maxPendingId_of_keys {m : CoreMachine} (hpos : 1 ≤ m.nextOutboundId)
    (h : ∀ id : Nat, id ∈ m.outboundMessages ↔ 1 ≤ id ∧ id < m.nextOutboundId) :
    m.maxPendingId = m.nextOutboundId - 1 := by
  rw [CoreMachine.maxPendingId, ← Std.TreeMap.maxKey?_eq_getLast?_keys]
  by_cases hone : m.nextOutboundId = 1
  · have hempty : m.outboundMessages.maxKey? = none := by
      rw [Std.TreeMap.maxKey?_eq_none_iff, Std.TreeMap.isEmpty_iff_forall_not_mem]
      intro k hk
      have := (h k).mp hk
      omega
    rw [hempty, hone]
    rfl
  · have hmax : m.outboundMessages.maxKey? = some (m.nextOutboundId - 1) := by
      rw [Std.TreeMap.maxKey?_eq_some_iff_mem_and_forall]
      refine ⟨(h _).mpr (by omega), fun k hk => ?_⟩
      have := (h k).mp hk
      rw [Nat.isLE_compare]
      omega
    rw [hmax]
    rfl

section Outbox
variable {fits : Bytes → Prop} {m : CoreMachine}

theorem Outbox.maxPendingId (h : Outbox fits m) : m.maxPendingId = m.nextOutboundId - 1 :=
  maxPendingId_of_keys h.pos h.keys

theorem Outbox.enqueue (h : Outbox fits m) {payload : Bytes} (hfits : fits payload)
    (hroom : m.nextOutboundId < u64Max) : Outbox fits (m.enqueue payload) where
  keys id := by
    rw [CoreMachine.enqueue, Std.TreeMap.mem_insert, Std.LawfulEqCmp.compare_eq_iff_eq, h.keys]
    have := h.pos
    show _ ↔ 1 ≤ id ∧ id < m.nextOutboundId + 1
    omega
  pos := Nat.le_add_left 1 _
  bound := hroom
  fits id msg hmsg := by
    simp only [CoreMachine.enqueue, Std.TreeMap.getElem?_insert,
      Std.LawfulEqCmp.compare_eq_iff_eq] at hmsg
    split_ifs at hmsg
    · rw [Option.some.injEq] at hmsg
      exact hmsg ▸ hfits
    · exact h.fits id msg hmsg

theorem Outbox.of_fixed {m' : CoreMachine} (h : Outbox fits m) (hf : m'.fixed = m.fixed) :
    Outbox fits m' := by
  have hnext : m'.nextOutboundId = m.nextOutboundId := congrArg Fixed.nextOutboundId hf
  have hout : m'.outboundMessages = m.outboundMessages := congrArg Fixed.outboundMessages hf
  exact ⟨by rw [hout, hnext]; exact h.keys, by rw [hnext]; exact h.pos,
    by rw [hnext]; exact h.bound, by rw [hout]; exact h.fits⟩

end Outbox

/-- A move of a machine that takes back nothing it has said. -/
structure Grows (s s' : CoreMachine) : Prop where
  role : s'.role = s.role
  outbox : ∀ (id : Nat) (msg : Bytes), s.outboundMessages[id]? = some msg →
    s'.outboundMessages[id]? = some msg
  next : s.nextOutboundId ≤ s'.nextOutboundId
  cursor : s.lastRequestedEnd ≤ s'.lastRequestedEnd
  begun : s.state ≠ .preHandshake → s'.state ≠ .preHandshake
  lost : s.state = .lost → s'.state = .lost

/-- What an honest machine puts on the wire. -/
def Honest (s : CoreMachine) : Packet → Prop
  | .control .clientHello => s.role = .client
  | .control .serverHello => s.role = .server ∧ s.state ≠ .preHandshake
  | .control .helloAck => s.role = .client ∧ s.state ≠ .preHandshake
  | .control .close => s.state = .lost
  | .control _ => False
  | .msr _ next timer => next < s.nextOutboundId ∧
      ∀ id p, timer = some (.proposal id p) → s.state ≠ .preHandshake
  | .requestRange start stop _ next => 1 ≤ start ∧ start ≤ stop ∧ stop ≤ s.lastRequestedEnd ∧
      next < s.nextOutboundId ∧ s.state ≠ .preHandshake
  | .data id msg _ next => s.outboundMessages[id]? = some msg ∧
      8 + msg.length ≤ maxDataPayloadPerFrame ∧ next < s.nextOutboundId ∧ s.state ≠ .preHandshake
  | .fragment id idx total chunk _ next => (∃ msg, s.outboundMessages[id]? = some msg ∧
      total = fragmentCount msg ∧ total ≤ 65535 ∧ idx < total ∧ chunk = piece msg idx) ∧
      next < s.nextOutboundId ∧ s.state ≠ .preHandshake

theorem Honest.mono {s s' : CoreMachine} (h : Grows s s') {p : Packet} (hp : Honest s p) :
    Honest s' p := by
  cases p with
  | control t =>
    cases t with
    | clientHello => exact h.role.trans hp
    | serverHello => exact ⟨h.role.trans hp.1, h.begun hp.2⟩
    | helloAck => exact ⟨h.role.trans hp.1, h.begun hp.2⟩
    | close => exact h.lost hp
    | msr | requestRange | data | fragment | error => exact hp
  | msr acked next timer =>
    exact ⟨hp.1.trans_le h.next, fun id p ht => h.begun (hp.2 id p ht)⟩
  | requestRange start stop acked next =>
    obtain ⟨h₁, h₂, h₃, h₄, h₅⟩ := hp
    exact ⟨h₁, h₂, h₃.trans h.cursor, h₄.trans_le h.next, h.begun h₅⟩
  | data id msg acked next =>
    obtain ⟨h₁, h₂, h₃, h₄⟩ := hp
    exact ⟨h.outbox id msg h₁, h₂, h₃.trans_le h.next, h.begun h₄⟩
  | fragment id idx total chunk acked next =>
    obtain ⟨⟨msg, h₁, hrest⟩, h₃, h₄⟩ := hp
    exact ⟨⟨msg, h.outbox id msg h₁, hrest⟩, h₃.trans_le h.next, h.begun h₄⟩

/-- One machine as its peer `t` knows it. -/
structure Linked (cid : UInt64) (fits : Bytes → Prop) (s t : CoreMachine) : Prop where
  cid : s.cid = cid
  role : t.role = s.role.peer
  outbox : Outbox fits s
  rxOk : s.rx.Ok
  agrees : s.rx.Agrees t.outboundMessages
  cursor : s.lastRequestedEnd < t.nextOutboundId

/-- Both ends linked, and everything in flight honest. -/
abbrev Talk.Honest (cid : UInt64) (fits : Bytes → Prop) (w : Talk) : Prop :=
  w.Holds Role.peer (Linked cid fits) (fun s p => p.Small ∧ Core.Honest s p)

/-! ### A call at one end -/

section Call
variable (m : CoreMachine) (k : Call)

theorem next_cursor : (m.next k).lastRequestedEnd = m.lastRequestedEnd :=
  congrArg Lasting.cursor (next_lasting m k)

theorem next_fixed (h : ∀ payload, k ≠ .send payload) : (m.next k).fixed = m.fixed := by
  have hmoved := next_moved m k
  generalize m.next k = m' at hmoved ⊢
  cases hmoved with
  | queued => exact absurd rfl (h _)
  | _ => rfl

theorem next_role : (m.next k).role = m.role := congrArg Lasting.role (next_lasting m k)

/-- No call takes a machine back before its handshake. -/
theorem next_begun (h : m.state ≠ .preHandshake) : (m.next k).state ≠ .preHandshake := by
  have hmoved := next_moved m k
  generalize m.next k = m' at hmoved ⊢
  cases hmoved with
  | same | announced | rolledBack | queued | proposed | switched => exact h
  | abandoned | doubted | timedOut | closed => simp

end Call

theorem next_grows {fits : Bytes → Prop} {m : CoreMachine} (hout : Outbox fits m) (k : Call) :
    Grows m (m.next k) := by
  have hcursor := (next_cursor m k).ge
  by_cases hsend : ∃ payload, k = .send payload
  · obtain ⟨payload, rfl⟩ := hsend
    refine ⟨rfl, fun id msg h => ?_, Nat.le_succ _, hcursor, next_begun m _, next_lost m _⟩
    have hlt := (hout.keys id).mp (mem_iff_getElem?.mpr ⟨msg, h⟩)
    have hne : ¬ m.nextOutboundId = id := by omega
    simpa [CoreMachine.next, CoreMachine.enqueue, Std.TreeMap.getElem?_insert, hne] using h
  · have hf := next_fixed m k (not_exists.mp hsend)
    have hmsgs : (m.next k).outboundMessages = m.outboundMessages :=
      congrArg Fixed.outboundMessages hf
    exact ⟨congrArg Fixed.role hf, fun id msg h => by rwa [hmsgs],
      (congrArg Fixed.nextOutboundId hf).ge, hcursor, next_begun m k, next_lost m k⟩

/-- What a call says is honest about the machine it leaves. -/
theorem utters_honest {fits : Bytes → Prop} {m : CoreMachine} (hout : Outbox fits m) {k : Call}
    (hout' : Outbox fits (m.next k)) : ∀ p ∈ m.utters k, Honest (m.next k) p := by
  have hpending := hout.maxPendingId
  have hpos := hout.pos
  intro p hp
  cases k with
  | beginHandshake nowMs =>
    simp only [CoreMachine.utters] at hp
    split_ifs at hp with h <;> simp only [List.mem_singleton, List.not_mem_nil] at hp
    subst hp
    exact h
  | timer nowMs timerId =>
    cases timerId with
    | serverMsr =>
      simp only [CoreMachine.utters] at hp
      split_ifs at hp <;> simp only [List.mem_singleton, List.not_mem_nil] at hp
      subst hp
      exact ⟨hout'.pos, by simp⟩
    | clientProbe =>
      simp only [CoreMachine.utters] at hp
      split_ifs at hp with h <;> simp only [List.mem_singleton, List.not_mem_nil] at hp
      subst hp
      have hnext := congrArg Fixed.nextOutboundId
        (next_fixed m (.timer nowMs .clientProbe) (by simp))
      refine ⟨?_, by simp⟩
      show m.maxPendingId < (m.next _).fixed.nextOutboundId
      rw [hnext]
      show m.maxPendingId < m.nextOutboundId
      omega
    | disconnect | renegotiationTimeout => simp [CoreMachine.utters] at hp
  | send payload =>
    simp only [CoreMachine.utters] at hp
    split_ifs at hp <;> simp only [List.mem_singleton, List.not_mem_nil] at hp <;> subst hp <;>
      refine ⟨?_, by simp⟩ <;>
      have hnew : (m.enqueue payload).maxPendingId = (m.enqueue payload).nextOutboundId - 1 :=
        hout'.maxPendingId
    all_goals
      have hpos' := hout'.pos
      simp only [CoreMachine.next] at hpos' ⊢
      omega
  | close =>
    simp only [CoreMachine.utters] at hp
    split_ifs at hp <;> simp only [List.mem_singleton, List.not_mem_nil] at hp
    subst hp
    rfl
  | proposeTimers nowMs prop =>
    simp only [CoreMachine.utters] at hp
    split_ifs at hp with h <;> simp only [List.mem_singleton, List.not_mem_nil] at hp
    subst hp
    have hest : m.state = .established := h.1
    simp only [CoreMachine.next, h, if_true]
    refine ⟨?_, fun _ _ _ => ?_⟩
    · show m.maxPendingId < m.nextOutboundId
      omega
    · show m.state ≠ _
      simp [hest]
  | pathChanged pathId => simp [CoreMachine.utters] at hp

/-- A call of the application or of a timer keeps the two ends linked. -/
theorem call_good {cid : UInt64} {fits : Bytes → Prop} {s t m' : CoreMachine} {k : Call}
    {res : CallResult} (hk : ∀ payload, k = .send payload → fits payload)
    (hst : Linked cid fits s t) (hts : Linked cid fits t s) (happ : s.apply k = some (m', res)) :
    Good (Linked cid fits) (fun s p => p.Small ∧ Honest s p) s t m' (s.utters k) := by
  have hnext : m' = s.next k := (apply_answers s happ).next
  subst hnext
  have hgrows := next_grows hst.outbox k
  have hout : Outbox fits (s.next k) := by
    by_cases hsend : ∃ payload, k = .send payload
    · obtain ⟨payload, rfl⟩ := hsend
      exact hst.outbox.enqueue (hk payload rfl) (onApiSend_answers s payload happ).1
    · exact hst.outbox.of_fixed (next_fixed s k (not_exists.mp hsend))
  refine ⟨⟨?_, ?_, hout, ?_, ?_, ?_⟩, ⟨hts.cid, ?_, hts.outbox, hts.rxOk, ?_, ?_⟩, ?_, ?_⟩
  · exact (apply_cid happ).trans hst.cid
  · rw [hgrows.role]
    exact hst.role
  · rw [next_rx]
    exact hst.rxOk
  · rw [next_rx]
    exact hst.agrees
  · rw [next_cursor]
    exact hst.cursor
  · rw [hgrows.role]
    exact hts.role
  · exact hts.agrees.mono hgrows.outbox
  · exact hts.cursor.trans_le hgrows.next
  · exact fun p hp => ⟨hp.1, hp.2.mono hgrows⟩
  · exact fun p hp => ⟨utters_small s k p hp, utters_honest hst.outbox hout p hp⟩

/-! ### A packet at one end -/

/-- Everything the proofs about two machines use of the machine that `p` leaves. -/
structure Hears (m : CoreMachine) (p : Packet) (m' : CoreMachine) (res : CallResult) : Prop
    extends Reaction m p m' res where
  fixed : m'.fixed = m.fixed
  rx : m'.rx = (m.rxOn p).1
  deliveries : res.output.deliveries = deliveryEvents (m.lastOrderedRx + 1) (m.rxOn p).2

theorem hears (m : CoreMachine) (nowMs : UInt64) (src : UInt32) {p : Packet} (hp : p.Small) :
    Hears m p (onDatagram m nowMs src (p.bytes m.cid)).1
      (onDatagram m nowMs src (p.bytes m.cid)).2 := by
  obtain ⟨hfixed, hrx, hdel, -, -⟩ := onDatagram_effect m nowMs src (p.bytes m.cid)
  rw [packet_arrival m hp] at hrx hdel
  exact ⟨packet_reaction m nowMs src hp, hfixed, hrx, hdel⟩

theorem stateOn_begun {m : CoreMachine} (p : Packet) (h : m.state ≠ .preHandshake) :
    m.stateOn p ≠ .preHandshake := by
  have hwoken : m.wokenState ≠ .preHandshake := by
    unfold CoreMachine.wokenState
    split_ifs
    · simp
    · exact h
  cases p with
  | control t =>
    cases t <;> simp only [CoreMachine.stateOn] <;> (try split_ifs) <;> first | exact h | simp
  | msr | requestRange | data | fragment => exact hwoken

theorem stateOn_lost {m : CoreMachine} (p : Packet) (h : m.state = .lost) :
    m.stateOn p = .lost := by
  have hwoken : m.wokenState = .lost := by simp [CoreMachine.wokenState, h]
  cases p with
  | control t => cases t <;> simp [CoreMachine.stateOn, h]
  | msr | requestRange | data | fragment => exact hwoken

theorem cursorOn_ge (m : CoreMachine) (p : Packet) : m.lastRequestedEnd ≤ m.cursorOn p := by
  unfold CoreMachine.cursorOn
  split
  · exact le_rfl
  · split_ifs with h
    · exact h.2.2.le
    · exact le_rfl

theorem Hears.grows {m m' : CoreMachine} {p : Packet} {res : CallResult} (h : Hears m p m' res) :
    Grows m m' where
  role := congrArg Fixed.role h.fixed
  outbox id msg hmsg := by
    have hmsgs : m'.outboundMessages = m.outboundMessages :=
      congrArg Fixed.outboundMessages h.fixed
    rwa [hmsgs]
  next := (congrArg Fixed.nextOutboundId h.fixed).ge
  cursor := h.cursor ▸ cursorOn_ge m p
  begun hb := h.state ▸ stateOn_begun p hb
  lost hl := h.state ▸ stateOn_lost p hl

/-- The number a packet advertises is one of an honest sender's. -/
theorem Honest.signal_lt {t : CoreMachine} {p : Packet} (hp : Honest t p) {next : Nat}
    {source : MsrSource} (hs : p.signal = some (next, source)) : next < t.nextOutboundId := by
  have hmod : ∀ n, n < t.nextOutboundId → n % 2 ^ 64 < t.nextOutboundId := by
    intro n hn
    exact (Nat.mod_le _ _).trans_lt hn
  cases p with
  | control t => simp [Packet.signal] at hs
  | msr acked n timer =>
    simp only [Packet.signal, Option.some.injEq, Prod.mk.injEq] at hs
    exact hs.1 ▸ hmod n hp.1
  | requestRange start stop acked n =>
    simp only [Packet.signal, Option.some.injEq, Prod.mk.injEq] at hs
    exact hs.1 ▸ hmod n hp.2.2.2.1
  | data id msg acked n =>
    simp only [Packet.signal, Option.some.injEq, Prod.mk.injEq] at hs
    exact hs.1 ▸ hmod n hp.2.2.1
  | fragment id idx total chunk acked n =>
    simp only [Packet.signal, Option.some.injEq, Prod.mk.injEq] at hs
    exact hs.1 ▸ hmod n hp.2.1

section Recv
variable {cid : UInt64} {fits : Bytes → Prop} {s t : CoreMachine} {p : Packet}

theorem Outbox.id_mod (hout : Outbox fits t) {id : Nat} {msg : Bytes}
    (h : t.outboundMessages[id]? = some msg) : id % 2 ^ 64 = id := by
  have hlt := (hout.keys id).mp (mem_iff_getElem?.mpr ⟨msg, h⟩)
  have hbound := hout.bound
  simp only [u64Max] at hbound
  exact Nat.mod_eq_of_lt (by omega)

theorem Honest.data_arrival (hout : Outbox fits t) {id acked next : Nat} {msg : Bytes}
    (hp : Honest t (.data id msg acked next)) :
    (Packet.data id msg acked next).arrival = some (.data id msg) := by
  rw [Packet.arrival, hout.id_mod hp.1]

theorem Honest.fragment_arrival (hout : Outbox fits t) {id idx total acked next : Nat}
    {chunk : Bytes} (hp : Honest t (.fragment id idx total chunk acked next)) :
    (Packet.fragment id idx total chunk acked next).arrival =
      some (.fragment id idx total chunk) := by
  obtain ⟨⟨msg, hmsg, -, hle, hidx, -⟩, -⟩ := hp
  have h₁ : total % 2 ^ 16 = total := Nat.mod_eq_of_lt (by omega)
  have h₂ : idx % 2 ^ 16 = idx := Nat.mod_eq_of_lt (by omega)
  have hsane : ¬ (total = 0 ∨ idx ≥ total) := by omega
  simp only [Packet.arrival, h₁, h₂, hout.id_mod hmsg, hsane, if_false]

/-- The message part of an honest packet is a part of a message of its sender. -/
theorem Honest.arrival_from (hout : Outbox fits t) (hp : Honest t p) {a : Arrival}
    (ha : p.arrival = some a) : a.From t.outboundMessages := by
  cases p with
  | data id msg acked next =>
    rw [hp.data_arrival hout, Option.some.injEq] at ha
    exact ha ▸ hp.1
  | fragment id idx total chunk acked next =>
    rw [hp.fragment_arrival hout, Option.some.injEq] at ha
    obtain ⟨⟨msg, hmsg, htotal, -, hidx, hchunk⟩, -⟩ := hp
    exact ha ▸ ⟨msg, hmsg, htotal, hidx, hchunk⟩
  | control | msr | requestRange => simp [Packet.arrival] at ha

/-- The buffers after an honest packet. -/
theorem Linked.arriveOpt (h : Linked cid fits s t) (hout : Outbox fits t) (hp : Honest t p) :
    (s.rxOn p).1.Ok ∧ (s.rxOn p).1.Agrees t.outboundMessages ∧
      ∀ (i : Nat) (q : Bytes), (s.rxOn p).2[i]? = some q →
        t.outboundMessages[s.lastOrderedRx + 1 + i]? = some q := by
  have hnone : (s.rx.arriveOpt none).1.Ok ∧ (s.rx.arriveOpt none).1.Agrees t.outboundMessages ∧
      ∀ (i : Nat) (q : Bytes), (s.rx.arriveOpt none).2[i]? = some q →
        t.outboundMessages[s.lastOrderedRx + 1 + i]? = some q :=
    ⟨h.rxOk, h.agrees, fun i q hq => by simp [Rx.arriveOpt] at hq⟩
  by_cases hest : s.state = .established
  · cases ha : p.arrival with
    | none => rwa [CoreMachine.rxOn, if_pos hest, ha]
    | some a =>
      have hfrom := hp.arrival_from hout ha
      rw [CoreMachine.rxOn, if_pos hest, ha]
      exact ⟨h.rxOk.arrive hfrom.sane, h.agrees.arrive h.rxOk hfrom⟩
  · rwa [CoreMachine.rxOn, if_neg hest]

theorem stateOn_signal {next : Nat} {source : MsrSource} (h : p.signal = some (next, source)) :
    s.stateOn p = s.wokenState := by
  cases p with
  | control t => simp [Packet.signal] at h
  | msr | requestRange | data | fragment => rfl

theorem replies_honest (hout : Outbox fits s) {m' : CoreMachine} {res : CallResult}
    (h : Hears s p m' res) : ∀ q ∈ s.replies p, Honest m' q := by
  have hrole : m'.role = s.role := congrArg Fixed.role h.fixed
  have hmsgs : m'.outboundMessages = s.outboundMessages :=
    congrArg Fixed.outboundMessages h.fixed
  have hpending : s.maxPendingId < m'.nextOutboundId := by
    have hnext : m'.nextOutboundId = s.nextOutboundId := congrArg Fixed.nextOutboundId h.fixed
    have hpos := hout.pos
    rw [hnext, hout.maxPendingId]
    omega
  intro q hq
  obtain ⟨hok, hans | ⟨next, source, hsig, hq⟩⟩ := mem_replies hq
  · cases answer_of_mem hans with
    | serverHello hr hpre =>
      refine ⟨hrole.trans hr, ?_⟩
      rw [h.state, CoreMachine.stateOn, if_pos ⟨hr, hpre⟩]
      simp
    | helloAck hr hpre =>
      refine ⟨hrole.trans hr, ?_⟩
      rw [h.state, CoreMachine.stateOn, if_pos ⟨hr, hpre⟩]
      simp
    | timerAck => exact ⟨hpending, by simp⟩
    | data _ _ _ _ id msg hest _ hmsg hsmall =>
      exact ⟨hmsgs ▸ hmsg, hsmall, hpending, h.grows.begun (by simp [hest])⟩
    | fragment _ _ _ _ id msg idx hest _ hmsg hle hidx =>
      exact ⟨⟨msg, hmsgs ▸ hmsg, rfl, hle, hidx, rfl⟩, hpending, h.grows.begun (by simp [hest])⟩
  · rcases mem_signalPackets.mp hq with ⟨-, -, rfl⟩ | ⟨hask, rfl⟩
    · exact ⟨hpending, by simp⟩
    · have hstate : m'.state = .established := by
        rw [h.state, stateOn_signal hsig]
        exact hask.1
      have hcursor : m'.lastRequestedEnd = next := by
        rw [h.cursor]
        simp only [CoreMachine.cursorOn, hsig, hok, hask, Bool.false_eq_true, not_false_eq_true,
          and_self, if_true]
      refine ⟨Nat.le_add_left 1 _, hask.2, hcursor.ge, hpending, ?_⟩
      simp [hstate]

/-- The cursor never passes what the peer has advertised. -/
theorem Linked.cursorOn_lt (h : Linked cid fits s t) (hp : Honest t p) :
    s.cursorOn p < t.nextOutboundId := by
  unfold CoreMachine.cursorOn
  split
  · exact h.cursor
  · rename_i next source hsig
    split_ifs
    · exact hp.signal_lt hsig
    · exact h.cursor

/-- A packet of the peer keeps the two ends linked. -/
theorem recv_good (hst : Linked cid fits s t) (hts : Linked cid fits t s) (hp : Honest t p)
    {m' : CoreMachine} {res : CallResult} (h : Hears s p m' res) :
    Good (Linked cid fits) (fun s p => p.Small ∧ Honest s p) s t m' (s.replies p) := by
  obtain ⟨hok, hagrees, -⟩ := hst.arriveOpt hts.outbox hp
  have hgrows := h.grows
  refine ⟨⟨?_, ?_, hst.outbox.of_fixed h.fixed, ?_, ?_, ?_⟩,
    ⟨hts.cid, ?_, hts.outbox, hts.rxOk, ?_, ?_⟩, ?_, ?_⟩
  · exact (congrArg Fixed.cid h.fixed).trans hst.cid
  · rw [hgrows.role]
    exact hst.role
  · rwa [h.rx]
  · rwa [h.rx]
  · rw [h.cursor]
    exact hst.cursorOn_lt hp
  · rw [hgrows.role]
    exact hts.role
  · exact hts.agrees.mono hgrows.outbox
  · exact hts.cursor.trans_le hgrows.next
  · exact fun q hq => ⟨hq.1, hq.2.mono hgrows⟩
  · exact fun q hq => ⟨replies_small s p q hq, replies_honest hst.outbox h q hq⟩

end Recv

/-! ### The two machines together -/

theorem Talk.start_honest (cid : UInt64) (fits : Bytes → Prop) (cfg : Role → CoreConfig) :
    (Talk.start cid cfg).Honest cid fits := by
  have hout : ∀ r, Outbox fits (CoreMachine.new r cid (cfg r)) := fun r =>
    { keys := fun id => by simp [CoreMachine.new]; omega
      pos := le_rfl
      bound := show 1 ≤ u64Max by decide
      fits := by simp [CoreMachine.new] }
  refine ⟨fun r => ⟨rfl, rfl, hout r, Rx.empty_ok, ?_, Nat.one_pos⟩, fun _ _ h => ?_⟩
  · exact Rx.empty_agrees _
  · simp [Talk.start] at h

/-- A move at which only messages that satisfy `fits` are sent. -/
def Fitting (fits : Bytes → Prop) (a : Move) : Prop :=
  ∀ r payload, a = .call r (.send payload) → fits payload

theorem Talk.Honest.step {cid : UInt64} {fits : Bytes → Prop} {w w' : Talk}
    (hw : w.Honest cid fits) {a : Move} (ha : Fitting fits a) {o : Option CallResult}
    (hs : w.step a = some (w', o)) : w'.Honest cid fits := by
  refine Net.Holds.step Role.peer_peer Role.peer_ne
    (fun k => ∀ payload, k = .send payload → fits payload) ?_ ?_ hw ?_ hs
  · intro s t k s' ds o hk hst hts hc
    simp only [talker, Option.map_eq_some_iff, Prod.mk.injEq] at hc
    obtain ⟨⟨m', res⟩, happ, rfl, rfl, -⟩ := hc
    exact call_good hk hst hts happ
  · intro s t x p hst hts hp
    exact recv_good hst hts hp.2 (hears s x.nowMs x.srcPathId hp.1)
  · rintro r k rfl payload rfl
    exact ha r payload rfl

theorem Talk.Honest.clean {cid : UInt64} {fits : Bytes → Prop} {w : Talk}
    (hw : w.Honest cid fits) : w.Clean cid :=
  ⟨fun r => (hw.ends r).cid, fun r p hp => (hw.flight r p hp).1⟩

/-- What a step is for one of the two ends: nothing, a call, or a packet on its way there. -/
inductive Talk.Moves (w : Talk) (r : Role) (a : Move) (m' : CoreMachine) (o : Option CallResult) :
    Prop
  | idle (hactor : a.actor ≠ some r) (hsame : m' = w.core r)
  | call (k : Call) (res : CallResult) (ha : a = .call r k) (ho : o = some res)
      (happ : (w.core r).apply k = some (m', res))
  | recv (i : Nat) (x : Receipt) (p : Packet) (res : CallResult) (ha : a = .deliver r i x)
      (ho : o = some res) (hp : (w.inbox r)[i]? = some p) (hears : Hears (w.core r) p m' res)

theorem Talk.Clean.moves {cid : UInt64} {w w' : Talk} (hw : w.Clean cid) {a : Move}
    {o : Option CallResult} (hs : w.step a = some (w', o)) (r : Role) :
    w.Moves r a (w'.core r) o := by
  cases a with
  | call q k =>
    simp only [Talk.step, Net.step, talker, Option.map_eq_some_iff, Prod.mk.injEq] at hs
    obtain ⟨_, ⟨⟨m', res⟩, happ, rfl⟩, rfl, rfl⟩ := hs
    by_cases hq : q = r
    · subst hq
      rw [Net.commit_core, Function.update_self]
      exact .call k res rfl rfl happ
    · rw [Net.commit_core, Function.update_of_ne (Ne.symm hq)]
      exact .idle (by simpa [Action.actor] using hq) rfl
  | deliver q i x =>
    simp only [Talk.step, Net.step, talker, Option.map_eq_some_iff, Prod.mk.injEq] at hs
    obtain ⟨p, hp, rfl, rfl⟩ := hs
    by_cases hq : q = r
    · subst hq
      rw [Net.commit_core, Function.update_self]
      exact .recv i x p _ rfl rfl hp
        (hears _ x.nowMs x.srcPathId (hw.flight q p (List.mem_of_getElem? hp)))
    · rw [Net.commit_core, Function.update_of_ne (Ne.symm hq)]
      exact .idle (by simpa [Action.actor] using hq) rfl
  | drop q i =>
    simp only [Talk.step, Net.step, Option.map_eq_some_iff, Prod.mk.injEq] at hs
    obtain ⟨p, -, rfl, -⟩ := hs
    exact .idle (by simp [Action.actor]) rfl
  | duplicate q i =>
    simp only [Talk.step, Net.step, Option.map_eq_some_iff, Prod.mk.injEq] at hs
    obtain ⟨p, -, rfl, -⟩ := hs
    exact .idle (by simp [Action.actor]) rfl

end Todero.Core
