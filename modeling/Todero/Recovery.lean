import Todero.Handshake
import Todero.Stream

/-! Whether the messages whose packets were lost are received once the sender has
something new to announce. -/
namespace Todero.Core
open Todero.Wire Transition Duplex

/-- A message that fits into the 65535 fragments of a fragment set. -/
def Sendable (msg : Bytes) : Prop := msg.length ≤ 988 * 65535

theorem Sendable.fragmentCount_le {msg : Bytes} (h : Sendable msg) :
    fragmentCount msg ≤ 65535 := by
  have hle : msg.length ≤ 988 * 65535 := h
  rw [fragmentCount, Nat.ceilDiv_eq_add_pred_div]
  simp only [chunkSize, maxDataPayloadPerFrame, fragmentHeaderLen]
  omega

/-! ### What an arrival keeps and adds -/

section Arrival
variable {out : Std.TreeMap Nat Bytes} {r : Rx} {a : Arrival}

/-- An id is received from now on when it was before, or when this is its last part. -/
theorem Rx.Ok.arrive_ids (hr : r.Ok) (ha : a.Sane) {id : Nat} :
    (id ∈ r.ids → id ∈ (r.arrive a).1.ids) ∧
      (id ∈ (r.arrive a).1.ids → id ∈ r.ids ∨ a.id = id) := by
  have h := hr.arrives ha
  generalize r.arrive a = res at h ⊢
  have htaken : ∀ {k : Nat} {p : Bytes} {r' : Rx} {ps : List Bytes}, r.Takes k p r' ps →
      (id ∈ r.ids → id ∈ r'.ids) ∧ (id ∈ r'.ids → id ∈ r.ids ∨ k = id) := by
    intro k p r' ps ht
    rw [ht.ids, Std.TreeSet.mem_insert, Std.LawfulEqCmp.compare_eq_iff_eq]
    exact ⟨.inr, Or.symm⟩
  cases h with
  | known | conflict | stored => exact ⟨fun h => h, .inl⟩
  | data _ ht => exact htaken ht
  | completed _ _ _ _ _ _ ht => exact htaken ht

/-- The piece `idx` of message `id` is in its accumulator. -/
def Rx.Stored (r : Rx) (id idx : Nat) : Prop :=
  ∃ acc, r.fragments[id]? = some acc ∧ idx ∈ acc.chunks

/-- A whole copy is received for good. -/
theorem Rx.Ok.arrive_data (hr : r.Ok) {id : Nat} {p : Bytes} :
    id ∈ (r.arrive (.data id p)).1.ids := by
  have h := hr.arrives (a := .data id p) trivial
  generalize r.arrive (.data id p) = res at h ⊢
  cases h with
  | known hin => exact hin
  | data _ ht =>
    rw [ht.ids, Std.TreeSet.mem_insert]
    exact .inl Std.compare_self

/-- Until message `id` is received, its pieces are kept and the one that arrives is added. -/
theorem Rx.Agrees.arrive_stored (hok : r.Ok) (hr : r.Agrees out) (ha : a.From out) {id : Nat}
    (hid : id ∉ (r.arrive a).1.ids) :
    (∀ idx, r.Stored id idx → (r.arrive a).1.Stored id idx) ∧
      ∀ idx total chunk, a = .fragment id idx total chunk → (r.arrive a).1.Stored id idx := by
  have h := hok.arrives ha.sane
  generalize r.arrive a = res at h hid ⊢
  have htaken : ∀ {k : Nat} {p : Bytes} {r' : Rx} {ps : List Bytes}, r.Takes k p r' ps →
      id ∉ r'.ids → k ≠ id ∧ ∀ idx, r.Stored id idx → r'.Stored id idx := by
    intro k p r' ps ht hnot
    have hk : k ≠ id := by
      rintro rfl
      rw [ht.ids, Std.TreeSet.mem_insert] at hnot
      exact hnot (.inl Std.compare_self)
    refine ⟨hk, fun idx ⟨acc, hacc, hmem⟩ => ⟨acc, ?_, hmem⟩⟩
    rw [ht.fragments, if_neg hk, hacc]
  cases h with
  | known hin =>
    refine ⟨fun _ h => h, ?_⟩
    rintro idx total chunk rfl
    exact absurd hin hid
  | data _ ht => exact ⟨(htaken ht hid).2, by simp⟩
  | @conflict k idx total chunk _ htot =>
    obtain ⟨msg, hmsg, rfl, hidx, -⟩ := ha
    exact absurd (hr.added hmsg hidx).1 htot
  | @stored k idx total chunk acc _ hacc _ _ =>
    constructor
    · rintro idx' ⟨acc', hacc', hmem⟩
      by_cases hk : k = id
      · subst hk
        refine ⟨acc, by simp, ?_⟩
        have hpos : acc'.total ≠ 0 := by
          have hmissing := (hok.unfinished k acc' hacc').2.missing
          omega
        have hsame : r.accFor k total = acc' := by simp [Rx.accFor, hacc', hpos]
        rw [hacc, hsame, FragmentAccumulator.add, Std.TreeMap.mem_insertIfNew]
        exact .inr hmem
      · exact ⟨acc', by simp [Std.TreeMap.getElem?_insert, hk, hacc'], hmem⟩
    · intro idx' total' chunk' heq
      simp only [Arrival.fragment.injEq] at heq
      obtain ⟨rfl, rfl, -, -⟩ := heq
      refine ⟨acc, by simp, ?_⟩
      rw [hacc, FragmentAccumulator.add, Std.TreeMap.mem_insertIfNew]
      exact .inl Std.compare_self
  | @completed k idx total chunk _ _ _ _ _ _ _ _ ht =>
    obtain ⟨hk, hkept⟩ := htaken ht hid
    refine ⟨hkept, fun idx' total' chunk' heq => ?_⟩
    exact absurd (Arrival.fragment.inj heq).1 hk

/-- A message all whose pieces have been taken in has been received. -/
theorem Rx.Agrees.complete (hok : r.Ok) (hr : r.Agrees out) {id : Nat} {msg : Bytes}
    (hmsg : out[id]? = some msg) (hpos : 0 < fragmentCount msg)
    (hall : ∀ idx < fragmentCount msg, id ∈ r.ids ∨ r.Stored id idx) : id ∈ r.ids := by
  by_contra hid
  have hstored : ∀ idx < fragmentCount msg, r.Stored id idx :=
    fun idx hidx => (hall idx hidx).resolve_left hid
  obtain ⟨acc, hacc, -⟩ := hstored 0 hpos
  obtain ⟨msg', hmsg', htotal, -⟩ := hr.fragments id acc hacc
  obtain rfl : msg' = msg := Option.some.inj (hmsg'.symm.trans hmsg)
  have hopen := (hok.unfinished id acc hacc).2
  -- an accumulator that holds every piece would have been joined
  have hfull : acc.chunks.size = acc.total := hopen.below.full_iff.mpr fun k hk => by
    obtain ⟨acc', hacc', hmem⟩ := hstored k (htotal ▸ hk)
    rw [hacc, Option.some.injEq] at hacc'
    exact hacc' ▸ hmem
  have hmissing := hopen.missing
  omega

/-- Buffers that hold the ids 1, 2, ..., `n` and no others have handed them all out. -/
theorem Rx.Ok.last_eq (hok : r.Ok) {n : Nat} (hids : ∀ id, id ∈ r.ids ↔ 1 ≤ id ∧ id ≤ n) :
    r.last = n := by
  have hle : r.last ≤ n := by
    by_contra hlt
    have hin := (hids r.last).mp ((hok.ids_iff r.last).mpr (.inl ⟨by omega, le_rfl⟩))
    omega
  by_contra hne
  have hnext := (hids (r.last + 1)).mpr ⟨by omega, by omega⟩
  obtain ⟨-, hle'⟩ | hwaits := (hok.ids_iff _).mp hnext
  · omega
  · obtain ⟨p, hp⟩ := mem_iff_getElem?.mp hwaits
    simp [hok.stuck] at hp

end Arrival

/-! ### No handler fails -/

section Fails
variable {cid : UInt64} {s t : CoreMachine} {p : Packet}

theorem Outbox.repliesTo_isSome (hout : Outbox Sendable s) (ids : List Nat) :
    (repliesTo s ids).isSome := by
  have hone : ∀ id, ∃ ps, replyPackets s id = some ps := by
    intro id
    cases hmsg : s.outboundMessages[id]? with
    | none => exact ⟨[], by simp [replyPackets, hmsg]⟩
    | some msg =>
      have hle := (hout.fits id msg hmsg).fragmentCount_le
      have hnot : ¬ fragmentCount msg > 65535 := by omega
      simp only [replyPackets, hmsg, hnot, if_false]
      split_ifs <;> exact ⟨_, rfl⟩
  induction ids with
  | nil => rfl
  | cons id ids ih =>
    obtain ⟨ps, hps⟩ := hone id
    obtain ⟨qs, hqs⟩ := Option.isSome_iff_exists.mp ih
    simp [repliesTo, hps, hqs]

/-- Between machines that send only what fits, every packet is handled. -/
theorem Linked.fails_false (hst : Linked cid Sendable s t) (hts : Linked cid Sendable t s)
    (hp : Honest t p) : s.fails p = false := by
  cases p with
  | control | msr | data => rfl
  | requestRange start stop acked next =>
    obtain ⟨ps, hps⟩ := Option.isSome_iff_exists.mp
      (hst.outbox.repliesTo_isSome (requestedIds start stop))
    simp [CoreMachine.fails, hps]
  | fragment id idx total chunk acked next =>
    have ha := hp.fragment_arrival hts.outbox
    have hfrom := hp.arrival_from hts.outbox ha
    have hrej : s.rx.rejects (.fragment id idx total chunk) = false := by
      by_contra hne
      obtain ⟨k, i, n, c, heq, htot⟩ := hst.rxOk.rejects hfrom.sane (by simpa using hne)
      cases heq
      obtain ⟨msg, hmsg, rfl, hi, -⟩ := hfrom
      exact htot (hst.agrees.added hmsg hi).1
    simp only [CoreMachine.fails, ha, hrej, Bool.and_false]

end Fails

theorem mem_requestedIds {start stop id : Nat} (hle : start ≤ stop) (hstop : stop < 2 ^ 64) :
    id ∈ requestedIds start stop ↔ start ≤ id ∧ id ≤ stop := by
  have hstart : start % 2 ^ 64 = start := Nat.mod_eq_of_lt (by omega)
  rw [requestedIds, List.mem_range', hstart, Nat.mod_eq_of_lt hstop]
  constructor
  · rintro ⟨i, hi, rfl⟩
    omega
  · rintro ⟨h₁, h₂⟩
    exact ⟨id - start, by omega, by omega⟩

theorem replyPackets_of_repliesTo {m : CoreMachine} {ids : List Nat} {rs : List Packet}
    (hrs : repliesTo m ids = some rs) {id : Nat} (hid : id ∈ ids) :
    ∃ ps, replyPackets m id = some ps := by
  induction ids generalizing rs with
  | nil => simp at hid
  | cons k ids ih =>
    simp only [repliesTo, Option.bind_eq_some_iff, Option.map_eq_some_iff] at hrs
    obtain ⟨ps, hps, rest, hrest, -⟩ := hrs
    obtain rfl | hlater := List.mem_cons.mp hid
    · exact ⟨ps, hps⟩
    · exact ih hrest hlater

/-- An answer has the whole message in it, or every piece of it. -/
theorem repliesTo_parts {m : CoreMachine} {ids : List Nat} {rs : List Packet}
    (hrs : repliesTo m ids = some rs) {id : Nat} (hid : id ∈ ids) {msg : Bytes}
    (hmsg : m.outboundMessages[id]? = some msg) :
    .data id msg m.lastOrderedRx m.maxPendingId ∈ rs ∨
      0 < fragmentCount msg ∧ fragmentCount msg ≤ 65535 ∧ ∀ idx < fragmentCount msg,
        .fragment id idx (fragmentCount msg) (piece msg idx) m.lastOrderedRx m.maxPendingId ∈
          rs := by
  obtain ⟨ps, hps⟩ := replyPackets_of_repliesTo hrs hid
  have hmem : ∀ q ∈ ps, q ∈ rs := fun q hq => (mem_repliesTo hrs q).mpr ⟨id, hid, ps, hps, hq⟩
  by_cases hsmall : 8 + msg.length ≤ maxDataPayloadPerFrame
  · exact .inl (hmem _ ((mem_replyPackets hps _).mpr ⟨msg, hmsg, .inl ⟨hsmall, rfl⟩⟩))
  · have hcount : 0 < fragmentCount msg := by
      have hlen := length_le_fragmentCount msg
      simp only [maxDataPayloadPerFrame] at hsmall
      by_contra hzero
      rw [Nat.eq_zero_of_not_pos hzero] at hlen
      omega
    have hle : fragmentCount msg ≤ 65535 := by
      by_contra hbig
      simp [replyPackets, hmsg, hsmall, not_le.mp hbig] at hps
    exact .inr ⟨hcount, hle, fun idx hidx => hmem _ ((mem_replyPackets hps _).mpr
      ⟨msg, hmsg, .inr ⟨hsmall, hle, idx, hidx, rfl⟩⟩)⟩

/-! ### What is under way to the receiver `r` -/

/-- Message `id` has been received, or everything `r` still misses of it is under way. -/
inductive Talk.Covered (w : Talk) (r : Role) (id : Nat) : Prop
  | received (h : id ∈ (w.core r).receivedIds)
  | asked (start stop acked next : Nat) (h : .requestRange start stop acked next ∈ w.inbox r.peer)
      (hstart : start ≤ id) (hstop : id ≤ stop)
  | sent (msg : Bytes) (acked next : Nat) (h : .data id msg acked next ∈ w.inbox r)
  | inPieces (msg : Bytes) (hmsg : (w.core r.peer).outboundMessages[id]? = some msg)
      (hpos : 0 < fragmentCount msg)
      (h : ∀ idx < fragmentCount msg, (w.core r).rx.Stored id idx ∨
        ∃ total chunk acked next, .fragment id idx total chunk acked next ∈ w.inbox r)

section Delivered
variable {cid : UInt64} {w w' : Talk} {r : Role} {p : Packet}

theorem Talk.Delivered.rx (hd : w.Delivered w' r p) : (w'.core r).rx = ((w.core r).rxOn p).1 :=
  hd.hears.choose_spec.rx

theorem Talk.Delivered.fixed (hd : w.Delivered w' r p) : (w'.core r).fixed = (w.core r).fixed :=
  hd.hears.choose_spec.fixed

theorem Talk.Delivered.cursor (hd : w.Delivered w' r p) :
    (w'.core r).lastRequestedEnd = (w.core r).cursorOn p := hd.hears.choose_spec.cursor

theorem Talk.Delivered.outbox (hd : w.Delivered w' r p) (s : Role) :
    (w'.core s).nextOutboundId = (w.core s).nextOutboundId ∧
      (w'.core s).outboundMessages = (w.core s).outboundMessages := by
  have hs : (w'.core s).fixed = (w.core s).fixed := by
    by_cases h : s = r
    · exact h ▸ hd.fixed
    · have hpeer : s = r.peer := by cases s <;> cases r <;> simp [Role.peer] at h ⊢
      rw [hpeer, hd.other]
  exact ⟨congrArg Fixed.nextOutboundId hs, congrArg Fixed.outboundMessages hs⟩

/-- What a machine and its peer know of each other. -/
theorem Talk.Paired.ends (hw : w.Paired cid Sendable) (r : Role) :
    Linked cid Sendable (w.core r) (w.core r.peer) ∧
      Linked cid Sendable (w.core r.peer) (w.core r) := by
  have h := hw.honest.ends r.peer
  rw [Role.peer_peer] at h
  exact ⟨hw.honest.ends r, h⟩

theorem Talk.Delivered.honest (hd : w.Delivered w' r p) (hw : w.Paired cid Sendable) :
    Core.Honest (w.core r.peer) p := (hw.honest.flight r p hd.mem).2

theorem Talk.Delivered.handled (hd : w.Delivered w' r p) (hw : w.Paired cid Sendable) :
    (w.core r).fails p = false :=
  (hw.ends r).1.fails_false (hw.ends r).2 (hd.honest hw)

/-- A request that reaches the sender is answered in full. -/
theorem Talk.Paired.answered (hw : w.Paired cid Sendable) {start stop acked next : Nat}
    (hd : w.Delivered w' r.peer (.requestRange start stop acked next))
    (hup : (w.core r.peer).state = .established) {id : Nat} (hstart : start ≤ id)
    (hstop : id ≤ stop) : w'.Covered r id := by
  have hhonest := hd.honest hw
  rw [Role.peer_peer] at hhonest
  obtain ⟨hpos, hle, hend, -, -⟩ := hhonest
  obtain ⟨hts, hst⟩ := hw.ends r
  have hcursor := hts.cursor
  have hbound := hst.outbox.bound
  simp only [u64Max] at hbound
  obtain ⟨msg, hmsg⟩ := mem_iff_getElem?.mp ((hst.outbox.keys id).mpr ⟨by omega, by omega⟩)
  obtain ⟨qs, hqs⟩ := Option.isSome_iff_exists.mp
    (hst.outbox.repliesTo_isSome (requestedIds start stop))
  have hid : id ∈ requestedIds start stop :=
    (mem_requestedIds hle (by omega)).mpr ⟨hstart, hstop⟩
  have hsent : ∀ q ∈ qs, q ∈ w'.inbox r := by
    intro q hq
    have hmem := hd.sent q (by
      rw [replies_of_ok _ (hd.handled hw) rfl, CoreMachine.answers, if_pos hup, hqs]
      exact List.mem_append_left _ hq)
    rwa [Role.peer_peer] at hmem
  obtain hwhole | ⟨hcount, -, hpieces⟩ := repliesTo_parts hqs hid hmsg
  · exact .sent msg _ _ (hsent _ hwhole)
  · refine .inPieces msg ((hd.outbox r.peer).2 ▸ hmsg) hcount fun idx hidx => .inr ?_
    exact ⟨_, _, _, _, hsent _ (hpieces idx hidx)⟩

theorem Talk.Delivered.at_peer (hd : w.Delivered w' r.peer p) : w'.core r = w.core r := by
  have h := hd.other
  rwa [Role.peer_peer] at h

/-- The arrival a packet is for an established machine, and where it comes from. -/
theorem Talk.Paired.arrived (hw : w.Paired cid Sendable) (hd : w.Delivered w' r p)
    (hup : (w.core r).state = .established) :
    (p.arrival = none ∧ (w'.core r).rx = (w.core r).rx) ∨
      ∃ a, p.arrival = some a ∧ a.From (w.core r.peer).outboundMessages ∧
        (w'.core r).rx = ((w.core r).rx.arrive a).1 := by
  have hrx := hd.rx
  rw [CoreMachine.rxOn, if_pos hup] at hrx
  cases ha : p.arrival with
  | none => exact .inl ⟨rfl, by rw [hrx, ha]; rfl⟩
  | some a =>
    exact .inr ⟨a, rfl, (hd.honest hw).arrival_from (hw.ends r).2.outbox ha, by rw [hrx, ha]; rfl⟩

/-- No delivery takes back what is under way. -/
theorem Talk.Covered.delivered {q : Role} {id : Nat} (hc : w.Covered r id)
    (hw : w.Paired cid Sendable) (hup : ∀ r, (w.core r).state = .established)
    (hd : w.Delivered w' q p) : w'.Covered r id := by
  have hout := (hd.outbox r.peer).2
  by_cases hq : q = r
  · subst hq
    have hok := (hw.ends q).1.rxOk
    have hids : id ∈ (w.core q).receivedIds → id ∈ (w'.core q).rx.ids := by
      intro h
      rcases hw.arrived hd (hup q) with ⟨-, hrx⟩ | ⟨a, -, hfrom, hrx⟩
      · rwa [hrx]
      · rw [hrx]
        exact (hok.arrive_ids hfrom.sane).1 h
    cases hc with
    | received h => exact .received (hids h)
    | asked start stop acked next h hstart hstop =>
      exact .asked start stop acked next (hd.kept _ _ h fun heq => absurd heq q.peer_ne) hstart hstop
    | sent msg acked next h =>
      by_cases hp : .data id msg acked next = p
      · subst hp
        have harr := (hd.honest hw).data_arrival (hw.ends q).2.outbox
        rcases hw.arrived hd (hup q) with ⟨hnone, -⟩ | ⟨a, ha, -, hrx⟩
        · simp [harr] at hnone
        · rw [harr, Option.some.injEq] at ha
          subst ha
          refine .received ?_
          show id ∈ (w'.core q).rx.ids
          rw [hrx]
          exact hok.arrive_data
      · exact .sent msg acked next (hd.kept _ _ h fun _ => hp)
    | inPieces msg hmsg hcount h =>
      by_cases hid : id ∈ (w'.core q).rx.ids
      · exact .received hid
      · refine .inPieces msg (hout ▸ hmsg) hcount fun idx hidx => ?_
        have hstored : (w.core q).rx.Stored id idx → (w'.core q).rx.Stored id idx := by
          intro hst
          rcases hw.arrived hd (hup q) with ⟨-, hrx⟩ | ⟨a, -, hfrom, hrx⟩
          · rwa [hrx]
          · rw [hrx] at hid ⊢
            exact ((hw.ends q).1.agrees.arrive_stored hok hfrom hid).1 idx hst
        rcases h idx hidx with hst | ⟨total, chunk, acked, next, hfly⟩
        · exact .inl (hstored hst)
        · by_cases hp : .fragment id idx total chunk acked next = p
          · subst hp
            have harr := (hd.honest hw).fragment_arrival (hw.ends q).2.outbox
            rcases hw.arrived hd (hup q) with ⟨hnone, -⟩ | ⟨a, ha, hfrom, hrx⟩
            · simp [harr] at hnone
            · rw [harr, Option.some.injEq] at ha
              rw [hrx] at hid ⊢
              exact .inl (((hw.ends q).1.agrees.arrive_stored hok hfrom hid).2 idx total chunk
                ha.symm)
          · exact .inr ⟨total, chunk, acked, next, hd.kept _ _ hfly fun _ => hp⟩
  · have hq' : q = r.peer := by cases q <;> cases r <;> simp [Role.peer] at hq ⊢
    subst hq'
    have hcore := hd.at_peer
    cases hc with
    | received h => exact .received (hcore ▸ h)
    | asked start stop acked next h hstart hstop =>
      by_cases hp : .requestRange start stop acked next = p
      · subst hp
        exact hw.answered hd (hup r.peer) hstart hstop
      · exact .asked start stop acked next (hd.kept _ _ h fun _ => hp) hstart hstop
    | sent msg acked next h =>
      exact .sent msg acked next (hd.kept _ _ h fun heq => absurd heq.symm r.peer_ne)
    | inPieces msg hmsg hcount h =>
      refine .inPieces msg (hout ▸ hmsg) hcount fun idx hidx => ?_
      rcases h idx hidx with hst | ⟨total, chunk, acked, next, hfly⟩
      · exact .inl (hcore ▸ hst)
      · exact .inr ⟨total, chunk, acked, next,
          hd.kept _ _ hfly fun heq => absurd heq.symm r.peer_ne⟩

end Delivered

/-! ### A pull flow that catches up -/

/-- `r` is going to be told of the last message and to get all it has asked for. -/
structure Talk.Recovering (w : Talk) (r : Role) : Prop where
  up : ∀ r, (w.core r).state = .established
  covered : ∀ id, 1 ≤ id → id ≤ (w.core r).lastRequestedEnd → w.Covered r id
  advertised : (w.core r).lastRequestedEnd + 1 = (w.core r.peer).nextOutboundId ∨
    ∃ p ∈ w.inbox r, ∃ next source, p.signal = some (next, source) ∧
      next + 1 = (w.core r.peer).nextOutboundId

section Recovering
variable {cid : UInt64} {w w' : Talk} {r : Role}

theorem Talk.Delivered.up {q : Role} {p : Packet} (hd : w.Delivered w' q p)
    (hw : w.Paired cid Sendable) (hup : ∀ r, (w.core r).state = .established) :
    ∀ r, (w'.core r).state = .established := by
  obtain ⟨hclose, herror⟩ := hd.not_closing hw (by simp [hup])
  intro r
  by_cases hr : r = q
  · rw [hr, hd.state, stateOn_established (hup q) hclose herror]
  · have hpeer : r = q.peer := by cases r <;> cases q <;> simp [Role.peer] at hr ⊢
    rw [hpeer, hd.other, hup]

/-- The ids the cursor moves over are asked for. -/
theorem Talk.Delivered.asks {p : Packet} (hd : w.Delivered w' r p) (hw : w.Paired cid Sendable)
    {id : Nat} (hold : (w.core r).lastRequestedEnd < id)
    (hnew : id ≤ (w'.core r).lastRequestedEnd) : w'.Covered r id := by
  rw [hd.cursor] at hnew
  cases hs : p.signal with
  | none =>
    simp only [CoreMachine.cursorOn, hs] at hnew
    omega
  | some signal =>
    obtain ⟨next, source⟩ := signal
    have hok := hd.handled hw
    rw [cursorOn_of_ok _ hok hs] at hnew
    split_ifs at hnew with hask
    · have hmem : .requestRange ((w.core r).lastRequestedEnd + 1) next
          ((w.core r).rxOn p).1.last (w.core r).maxPendingId ∈ (w.core r).replies p := by
        rw [replies_of_ok _ hok hs]
        exact List.mem_append_right _ (mem_signalPackets.mpr (.inr ⟨hask, rfl⟩))
      exact .asked _ next _ _ (hd.sent _ hmem) hold hnew
    · omega

theorem Talk.Recovering.delivered {q : Role} {p : Packet} (hr : w.Recovering r)
    (hw : w.Paired cid Sendable) (hd : w.Delivered w' q p) : w'.Recovering r := by
  refine ⟨hd.up hw hr.up, fun id hpos hle => ?_, ?_⟩
  · by_cases hold : id ≤ (w.core r).lastRequestedEnd
    · exact (hr.covered id hpos hold).delivered hw hr.up hd
    · by_cases hq : q = r
      · subst hq
        exact hd.asks hw (by omega) hle
      · have hpeer : q = r.peer := by cases q <;> cases r <;> simp [Role.peer] at hq ⊢
        subst hpeer
        rw [hd.at_peer] at hle
        exact absurd hle hold
  · rw [(hd.outbox r.peer).1]
    by_cases hq : q = r
    · subst hq
      have hlt := (hw.ends q).1.cursorOn_lt (hd.honest hw)
      have hge := cursorOn_ge (w.core q) p
      rw [← hd.cursor] at hlt hge
      rcases hr.advertised with hlast | ⟨p', hmem, next, source, hs, hnext⟩
      · exact .inl (by omega)
      · by_cases hp : p' = p
        · subst hp
          have hmoved := hd.cursor
          rw [cursorOn_of_ok _ (hd.handled hw) hs] at hmoved
          have hwoken := wokenState_of_established _ (hr.up q)
          split_ifs at hmoved with hask
          · exact .inl (by omega)
          · have hnot : ¬ next > (w.core q).lastRequestedEnd := fun h => hask ⟨hwoken, h⟩
            exact .inl (by omega)
        · exact .inr ⟨p', hd.kept _ _ hmem fun _ => hp, next, source, hs, hnext⟩
    · have hpeer : q = r.peer := by cases q <;> cases r <;> simp [Role.peer] at hq ⊢
      subst hpeer
      rw [hd.at_peer]
      refine hr.advertised.imp_right ?_
      rintro ⟨p', hmem, hrest⟩
      exact ⟨p', hd.kept _ _ hmem fun heq => absurd heq.symm r.peer_ne, hrest⟩

/-- The last message `r` has delivered is the last one its peer has enqueued. -/
def CaughtUp {D : Type} (r : Role) (w : Net Role CoreMachine D) : Prop :=
  (w.core r).lastOrderedRx + 1 = (w.core r.peer).nextOutboundId

/-- Nothing is missing once every id has been received. -/
theorem Linked.caughtUp_iff {s t : CoreMachine} (hst : Linked cid Sendable s t)
    (hts : Linked cid Sendable t s) :
    s.lastOrderedRx + 1 = t.nextOutboundId ↔
      ∀ id, 1 ≤ id → id < t.nextOutboundId → id ∈ s.rx.ids := by
  have hpos := hts.outbox.pos
  have hlast : s.lastOrderedRx = s.rx.last := rfl
  rw [hlast]
  constructor
  · intro heq id hone hlt
    exact (hst.rxOk.ids_iff id).mpr (.inl ⟨hone, by omega⟩)
  · intro hall
    have hids : ∀ id, id ∈ s.rx.ids ↔ 1 ≤ id ∧ id ≤ t.nextOutboundId - 1 := by
      refine fun id => ⟨fun hin => ?_, fun hrange => hall id hrange.1 (by omega)⟩
      have hkey := (hts.outbox.keys id).mp (hst.agrees.known id hin)
      omega
    rw [hst.rxOk.last_eq hids]
    omega

theorem Talk.Recovering.caughtUp (hr : w.Recovering r) (hw : w.Paired cid Sendable)
    (hquiet : w.Quiet) : CaughtUp r w := by
  obtain ⟨hst, hts⟩ := hw.ends r
  have hlast : (w.core r).lastRequestedEnd + 1 = (w.core r.peer).nextOutboundId := by
    refine hr.advertised.resolve_right ?_
    rintro ⟨p, hp, -⟩
    simp [hquiet r] at hp
  have hall : ∀ id, 1 ≤ id → id < (w.core r.peer).nextOutboundId → id ∈ (w.core r).rx.ids := by
    intro id hpos hlt
    cases hr.covered id hpos (by omega) with
    | received h => exact h
    | asked _ _ _ _ h => simp [hquiet _] at h
    | sent _ _ _ h => simp [hquiet _] at h
    | inPieces msg hmsg hcount h =>
      refine hst.agrees.complete hst.rxOk hmsg hcount fun idx hidx => .inr ?_
      refine (h idx hidx).resolve_right ?_
      rintro ⟨_, _, _, _, hfly⟩
      simp [hquiet r] at hfly
  exact (hst.caughtUp_iff hts).mpr hall

end Recovering

/-! ### A message that is never asked for again -/

theorem requestRange_mem_replies {m : CoreMachine} {p : Packet} {start stop acked next : Nat}
    (h : .requestRange start stop acked next ∈ m.replies p) : start = m.lastRequestedEnd + 1 := by
  obtain ⟨-, hans | ⟨_, _, -, hsig⟩⟩ := mem_replies h
  · cases answer_of_mem hans
  · rcases mem_signalPackets.mp hsig with ⟨-, -, heq⟩ | ⟨-, heq⟩ <;> cases heq
    rfl

/-- Message parts are only sent for what a request names. -/
theorem arrival_mem_replies {m : CoreMachine} {p q : Packet} (h : q ∈ m.replies p) {a : Arrival}
    (ha : q.arrival = some a) : ∃ start stop acked next, p = .requestRange start stop acked next ∧
      ∃ id ∈ requestedIds start stop, a.id = id % 2 ^ 64 := by
  obtain ⟨-, hans | ⟨_, _, -, hsig⟩⟩ := mem_replies h
  · cases answer_of_mem hans with
    | serverHello | helloAck | timerAck => simp [Packet.arrival] at ha
    | data start stop acked next id msg _ hid =>
      simp only [Packet.arrival, Option.some.injEq] at ha
      exact ⟨start, stop, acked, next, rfl, id, hid, ha ▸ rfl⟩
    | fragment start stop acked next id msg idx _ hid =>
      simp only [Packet.arrival] at ha
      split_ifs at ha
      rw [Option.some.injEq] at ha
      exact ⟨start, stop, acked, next, rfl, id, hid, ha ▸ rfl⟩
  · rcases mem_signalPackets.mp hsig with ⟨-, -, rfl⟩ | ⟨-, rfl⟩ <;> simp [Packet.arrival] at ha

/-- `r` has asked for message `id`, does not have it, and nothing of it is under way. -/
structure Talk.Missing (w : Talk) (r : Role) (id : Nat) : Prop where
  up : ∀ r, (w.core r).state = .established
  pos : 1 ≤ id
  requested : id ≤ (w.core r).lastRequestedEnd
  absent : id ∉ (w.core r).rx.ids
  unasked : ∀ start stop acked next, .requestRange start stop acked next ∈ w.inbox r.peer →
    id < start ∨ stop < id
  unsent : ∀ p ∈ w.inbox r, ∀ a, p.arrival = some a → a.id ≠ id

section Missing
variable {cid : UInt64} {w w' : Talk} {r : Role} {id : Nat}

theorem Talk.Missing.delivered {q : Role} {p : Packet} (hm : w.Missing r id)
    (hw : w.Paired cid Sendable) (hd : w.Delivered w' q p) : w'.Missing r id := by
  have hup := hd.up hw hm.up
  by_cases hq : q = r
  · subst hq
    have hge := cursorOn_ge (w.core q) p
    rw [← hd.cursor] at hge
    refine ⟨hup, hm.pos, hm.requested.trans hge, ?_, ?_, ?_⟩
    · rcases hw.arrived hd (hm.up q) with ⟨-, hrx⟩ | ⟨a, ha, hfrom, hrx⟩
      · rw [hrx]
        exact hm.absent
      · rw [hrx]
        intro hin
        rcases ((hw.ends q).1.rxOk.arrive_ids hfrom.sane).2 hin with hold | heq
        · exact hm.absent hold
        · exact hm.unsent p hd.mem a ha heq
    · intro start stop acked next hmem
      rcases hd.inbox _ _ hmem with hold | ⟨-, hnew⟩
      · exact hm.unasked start stop acked next hold
      · have hstart := requestRange_mem_replies hnew
        have hrequested := hm.requested
        exact .inl (by omega)
    · intro p' hmem
      rcases hd.inbox _ _ hmem with hold | ⟨heq, -⟩
      · exact hm.unsent p' hold
      · exact absurd heq.symm q.peer_ne
  · have hpeer : q = r.peer := by cases q <;> cases r <;> simp [Role.peer] at hq ⊢
    subst hpeer
    have hcore := hd.at_peer
    refine ⟨hup, hm.pos, hcore ▸ hm.requested, hcore ▸ hm.absent, ?_, ?_⟩
    · intro start stop acked next hmem
      rcases hd.inbox _ _ hmem with hold | ⟨heq, -⟩
      · exact hm.unasked start stop acked next hold
      · exact absurd heq.symm r.peer.peer_ne
    · intro p' hmem a ha hid
      rcases hd.inbox _ _ hmem with hold | ⟨-, hnew⟩
      · exact hm.unsent p' hold a ha hid
      · obtain ⟨start, stop, acked, next, rfl, k, hk, hak⟩ := arrival_mem_replies hnew ha
        -- the request stays within what the receiver has been told of, so nothing wraps
        have hhonest := hd.honest hw
        rw [Role.peer_peer] at hhonest
        obtain ⟨-, hle, hend, -, -⟩ := hhonest
        have hcursor := (hw.ends r).1.cursor
        have hbound := (hw.ends r).2.outbox.bound
        simp only [u64Max] at hbound
        rw [mem_requestedIds hle (by omega)] at hk
        have hkid : k = id := by
          rw [← hid, hak, Nat.mod_eq_of_lt (by omega)]
        have hnot := hm.unasked start stop acked next hd.mem
        omega

theorem Talk.Missing.not_caughtUp (hm : w.Missing r id) (hw : w.Paired cid Sendable) :
    ¬ CaughtUp r w := by
  intro heq
  obtain ⟨hst, hts⟩ := hw.ends r
  have hcursor := hst.cursor
  have hrequested := hm.requested
  exact hm.absent ((hst.caughtUp_iff hts).mp heq id hm.pos (by omega))

end Missing

section Send
variable {cid : UInt64} {w w' : Talk} {r : Role} {payload : Bytes} {o : Option CallResult}

/-- What the send of one more message does to a quiet network. -/
structure Talk.Announced (w w' : Talk) (r : Role) : Prop where
  receiver : w'.core r = w.core r
  up : (w'.core r.peer).state = .established
  announced : ∃ p ∈ w'.inbox r, ∃ next source, p.signal = some (next, source) ∧
    next + 1 = (w'.core r.peer).nextOutboundId
  asked : w'.inbox r.peer = []
  sent : ∀ p ∈ w'.inbox r, p.arrival = none

theorem Talk.Paired.announces (hup : (w.core r.peer).state = .established) (hquiet : w.Quiet)
    (hs : w.step (.call r.peer (.send payload)) = some (w', o)) (hw' : w'.Paired cid Sendable) :
    w.Announced w' r := by
  obtain ⟨hsender, hreceiver, hinbox⟩ := Talk.step_call hs
  rw [Role.peer_peer] at hreceiver
  have hout := (hw'.ends r).2.outbox
  rw [hsender] at hout
  have hpending := hout.maxPendingId
  have hpos := hout.pos
  have hbound := hout.bound
  simp only [CoreMachine.next, u64Max] at hpending hpos hbound
  obtain ⟨acked, hsays⟩ : ∃ acked, (w.core r.peer).utters (.send payload) =
      [.msr acked ((w.core r.peer).enqueue payload).maxPendingId none] := by
    rw [CoreMachine.utters, if_pos hup]
    exact ⟨_, rfl⟩
  have hall : ∀ s p, p ∈ w'.inbox s ↔ s = r ∧
      p = .msr acked ((w.core r.peer).enqueue payload).maxPendingId none := by
    intro s p
    rw [hinbox, hsays, Role.peer_peer, hquiet s, List.mem_singleton]
    simp
  refine ⟨hreceiver, by rw [hsender]; exact hup, ⟨_, (hall r _).mpr ⟨rfl, rfl⟩, _, _, rfl, ?_⟩,
    ?_, fun p hp => ?_⟩
  · rw [hsender, CoreMachine.next, Nat.mod_eq_of_lt (by omega)]
    omega
  · exact List.eq_nil_iff_forall_not_mem.mpr fun p hp => r.peer_ne ((hall _ p).mp hp).1
  · rw [((hall r p).mp hp).2]
    rfl

end Send

/-- With the send of one more message `r` catches up exactly when it has received all that
it has asked for before: an id that was asked for in vain is never asked for again. -/
theorem Talk.Paired.caughtUp_iff {cid : UInt64} {w w' : Talk} {r : Role} {payload : Bytes}
    {o : Option CallResult} (hw : w.Paired cid Sendable)
    (hup : ∀ r, (w.core r).state = .established) (hquiet : w.Quiet) (hfits : Sendable payload)
    (hs : w.step (.call r.peer (.send payload)) = some (w', o)) :
    Settles Talk.Delivers (CaughtUp r) w' ↔
      ∀ id, 1 ≤ id → id ≤ (w.core r).lastRequestedEnd → id ∈ (w.core r).receivedIds := by
  have hw' : w'.Paired cid Sendable := by
    refine hw.step ?_ hs
    intro q msg heq
    cases heq
    exact hfits
  have ha := Talk.Paired.announces (hup _) hquiet hs hw'
  have hup' : ∀ q, (w'.core q).state = .established := by
    intro q
    by_cases hq : q = r
    · rw [hq, ha.receiver, hup]
    · have hpeer : q = r.peer := by cases q <;> cases r <;> simp [Role.peer] at hq ⊢
      rw [hpeer, ha.up]
  constructor
  · intro hsettles id hpos hle
    by_contra hid
    have hmissing : w'.Missing r id := by
      refine ⟨hup', hpos, ha.receiver ▸ hle, ha.receiver ▸ hid, ?_, fun p hp a harr => ?_⟩
      · simp [ha.asked]
      · simp [ha.sent p hp] at harr
    refine not_settles (I := fun v => Talk.Paired cid Sendable v ∧ v.Missing r id)
      ⟨hw', hmissing⟩ ?_ ?_ hsettles
    · rintro v v' ⟨hv, hm⟩ hdel
      obtain ⟨q, p, hd⟩ := hv.honest.clean.delivered hdel
      exact ⟨hv.delivers hdel, hm.delivered hv hd⟩
    · rintro v ⟨hv, hm⟩ -
      exact hm.not_caughtUp hv
  · intro hall
    have hrecovering : w'.Recovering r := by
      refine ⟨hup', fun id hpos hle => .received ?_, .inr ha.announced⟩
      rw [ha.receiver] at hle ⊢
      exact hall id hpos hle
    refine hw'.settles (I := fun v => v.Recovering r) hrecovering ?_ fun v hv hr hquiet => hr.caughtUp hv hquiet
    intro v v' hv hr hdel
    obtain ⟨q, p, hd⟩ := hv.honest.clean.delivered hdel
    exact hr.delivered hv hd

/-- Two established machines with nothing in flight recover what was lost with the next
message exactly when every id the receiver has asked for has been received. -/
theorem loss_recovered_iff {cid : UInt64} {cfg : Role → CoreConfig} {h : WorldHistory} {w : World}
    (hrun : Run World.step (World.start cid cfg) h w) (hfit : ∀ t ∈ h, Fitting Sendable t.input)
    (hup : ∀ r, (w.core r).state = .established) (hquiet : w.Quiet) {r : Role} {payload : Bytes}
    (hfits : Sendable payload) {w' : World} {o : Option CallResult}
    (hsend : w.step (.call r.peer (.send payload)) = some (w', o)) :
    Settles World.Delivers (CaughtUp r) w' ↔
      ∀ id, 1 ≤ id → id ≤ (w.core r).lastRequestedEnd → id ∈ (w.core r).receivedIds := by
  obtain ⟨v, hv, rfl⟩ := World.paired_of_run hrun hfit
  obtain ⟨v', hs, rfl⟩ := World.step_of_talk hv hsend
  have hv' : v'.Paired cid Sendable := by
    refine hv.step ?_ hs
    intro q msg heq
    cases heq
    exact hfits
  rw [World.settles_iff hv'.honest.clean (P := CaughtUp r) fun _ => Iff.rfl]
  exact hv.caughtUp_iff hup ((Net.map_quiet _ v).mp hquiet) hfits hs

/-- The request for the client's first message is lost on the way. -/
def lostRequest : List Move :=
  shakeHands ++ [.call .client (.send [10]), .deliver .server 0 ⟨4, 0⟩, .drop .client 0]

/-- The advertisement of the client's first message is lost on the way. -/
def lostAdvertisement : List Move :=
  shakeHands ++ [.call .client (.send [10]), .drop .server 0]

/-- The runs above send one short message. -/
theorem fitting_of_sends {moves : List Move} (h : ∀ a ∈ moves, Fitting Sendable a) {s s' : World}
    {hist : WorldHistory} (hexec : exec World.step s moves = some (hist, s')) :
    ∀ t ∈ hist, Fitting Sendable t.input := by
  intro t ht
  have hinputs := exec_inputs hexec
  exact h _ (hinputs ▸ List.mem_map_of_mem ht)

theorem lostAdvertisement_recovered :
    ∃ h w w' o, exec World.step (World.start 7 fun _ => .default) lostAdvertisement = some (h, w) ∧
      w.step (.call .client (.send [20])) = some (w', o) ∧
      (Settles World.Delivers (CaughtUp .server) w' ↔
        ∀ id, 1 ≤ id → id ≤ (w.core .server).lastRequestedEnd →
          id ∈ (w.core .server).receivedIds) := by
  have hexec : (exec World.step (World.start 7 fun _ => .default) lostAdvertisement).any
      fun x => (x.2.core .client).state = .established ∧ (x.2.core .server).state = .established ∧
        x.2.inbox .client = [] ∧ x.2.inbox .server = [] ∧
        (x.2.step (.call .client (.send [20]))).isSome := by decide +kernel
  obtain ⟨⟨h, w⟩, hexec, hx⟩ := (Option.any_eq_true _ _).mp hexec
  obtain ⟨hclient, hserver, hin, hin', hstep⟩ := of_decide_eq_true hx
  obtain ⟨⟨w', o⟩, hsend⟩ := Option.isSome_iff_exists.mp hstep
  have hfit := fitting_of_sends (by
    simp [lostAdvertisement, shakeHands, Fitting, Sendable]) hexec
  exact ⟨h, w, w', o, hexec, hsend, loss_recovered_iff (Run.of_exec hexec) hfit
    (fun r => by cases r; exacts [hclient, hserver]) (fun r => by cases r; exacts [hin, hin'])
    (by simp [Sendable]) hsend⟩

theorem lostRequest_not_recovered :
    ¬ ∀ (cid : UInt64) (cfg : Role → CoreConfig) (h : WorldHistory) (w : World),
      Run World.step (World.start cid cfg) h w → (∀ t ∈ h, Fitting Sendable t.input) →
        (∀ r, (w.core r).state = .established) → w.Quiet →
          ∀ (r : Role), ¬ CaughtUp r w → ∀ (payload : Bytes),
            8 + payload.length ≤ maxDataPayloadPerFrame → ∀ (w' : World) (o : Option CallResult),
              w.step (.call r.peer (.send payload)) = some (w', o) →
                Settles World.Delivers (CaughtUp r) w' := by
  intro hclaim
  have hexec : (exec World.step (World.start 7 fun _ => .default) lostRequest).any
      fun x => (x.2.core .client).state = .established ∧ (x.2.core .server).state = .established ∧
        x.2.inbox .client = [] ∧ x.2.inbox .server = [] ∧ (x.2.core .server).lastOrderedRx = 0 ∧
        (x.2.core .client).nextOutboundId = 2 ∧ (x.2.core .server).lastRequestedEnd = 1 ∧
        (x.2.core .server).receivedIds.contains 1 = false ∧
        (x.2.step (.call .client (.send [20]))).isSome := by decide +kernel
  obtain ⟨⟨h, w⟩, hexec, hx⟩ := (Option.any_eq_true _ _).mp hexec
  obtain ⟨hclient, hserver, hin, hin', hlast, hnext, hcursor, hreceived, hstep⟩ :=
    of_decide_eq_true hx
  obtain ⟨⟨w', o⟩, hsend⟩ := Option.isSome_iff_exists.mp hstep
  have hrun := Run.of_exec hexec
  have hfit := fitting_of_sends (by simp [lostRequest, shakeHands, Fitting, Sendable]) hexec
  have hup : ∀ r, (w.core r).state = .established := by
    intro r
    cases r
    exacts [hclient, hserver]
  have hquiet : w.Quiet := by
    intro r
    cases r
    exacts [hin, hin']
  have hbehind : ¬ CaughtUp .server w := by
    simp only at hlast hnext
    show ¬ (w.core .server).lastOrderedRx + 1 = (w.core .client).nextOutboundId
    omega
  have hsettles := hclaim 7 _ h w hrun hfit hup hquiet .server hbehind [20] (by decide) w' o hsend
  obtain ⟨v, hv, rfl⟩ := World.paired_of_run hrun hfit
  obtain ⟨v', hs, rfl⟩ := World.step_of_talk hv hsend
  have hv' : v'.Paired 7 Sendable := by
    refine hv.step ?_ hs
    intro q msg heq
    cases heq
    simp [Sendable]
  rw [World.settles_iff hv'.honest.clean (P := CaughtUp .server) fun _ => Iff.rfl] at hsettles
  have hall := (hv.caughtUp_iff hup ((Net.map_quiet _ v).mp hquiet) (r := .server)
    (show Sendable [20] by simp [Sendable]) hs).mp hsettles 1 le_rfl hcursor.ge
  have hnot : ¬ 1 ∈ (v.core .server).receivedIds := Bool.eq_false_iff.mp hreceived
  exact hnot hall

end Todero.Core
