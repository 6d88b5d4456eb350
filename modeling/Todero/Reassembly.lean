import Todero.Emissions
import Todero.Outgoing

/-! The answer to a request for all messages of a sender, delivered to a fresh receiver in
any order and with any repetitions: every message comes out once and in order. -/
namespace Todero.Core
open Todero.Wire Transition

/-- Every message a run hands to the application, in order. -/
def messages (h : History) : List (Nat × Bytes) := h.flatMap fun t => t.output.messages

/-- The datagram is a message, or a part of one. -/
def bearsMessage (bytes : Bytes) : Bool :=
  match WireFrame.decode bytes with
  | .error _ => false
  | .ok frame => frame.messageType = .data || frame.messageType = .fragment

/-- The run in which datagrams of `bs` arrive, and nothing else: in any order, any number of
times, and those that bear a message at least once. -/
structure Scrambles (bs : List Bytes) (h : History) : Prop where
  only : ∀ t ∈ h, ∃ nowMs src, ∃ b ∈ bs, t.input = .datagram nowMs src b
  all : ∀ b ∈ bs, bearsMessage b = true → ∃ t ∈ h, ∃ nowMs src, t.input = .datagram nowMs src b

/-- An established end that has not received anything. -/
structure FreshReceiver (cid : UInt64) (m : CoreMachine) : Prop where
  up : m.state = .established
  cid : m.cid = cid
  rx : m.rx = Rx.empty

/-! ### What an arrival leaves in the buffers -/

/-- The arrival has been taken in, as part of a set or with its message. -/
def Rx.Holds (r : Rx) : Arrival → Prop
  | .data id _ => id ∈ r.ids
  | .fragment id idx _ _ => id ∈ r.ids ∨ r.Stored id idx

section Arrival
variable {out : Std.TreeMap Nat Bytes} {r : Rx} {a : Arrival}

theorem Rx.Agrees.arrive_holds (hok : r.Ok) (hr : r.Agrees out) (ha : a.From out) :
    (r.arrive a).1.Holds a := by
  cases a with
  | data id p => exact hok.arrive_data
  | fragment id idx total chunk =>
    by_cases hid : id ∈ (r.arrive (.fragment id idx total chunk)).1.ids
    · exact .inl hid
    · exact .inr ((hr.arrive_stored hok ha hid).2 idx total chunk rfl)

/-- What has been taken in stays. -/
theorem Rx.Agrees.keeps_holding (hok : r.Ok) (hr : r.Agrees out) (ha : a.From out) {b : Arrival}
    (hb : r.Holds b) : (r.arrive a).1.Holds b := by
  cases b with
  | data id p => exact (hok.arrive_ids ha.sane).1 hb
  | fragment id idx total chunk =>
    by_cases hid : id ∈ (r.arrive a).1.ids
    · exact .inl hid
    · have hstored : r.Stored id idx := hb.resolve_left fun hin => hid ((hok.arrive_ids ha.sane).1 hin)
      exact .inr ((hr.arrive_stored hok ha hid).1 idx hstored)

end Arrival

/-! ### The receiver along its run -/

/-- A packet of the answer: a part of a message of `out`, or no message at all. -/
structure Packet.Bears (out : Std.TreeMap Nat Bytes) (p : Packet) : Prop where
  small : p.Small
  signal : p.signal.isSome
  arrival : ∀ a, p.arrival = some a → a.From out

/-- `qs` has been handed out, and everything that has arrived is held. -/
structure Reassembling (cid : UInt64) (out : Std.TreeMap Nat Bytes) (h : History)
    (m : CoreMachine) (qs : List Bytes) : Prop where
  up : m.state = .established
  cid : m.cid = cid
  ok : m.rx.Ok
  agrees : m.rx.Agrees out
  got : messages h = numbered 1 qs
  last : m.lastOrderedRx = qs.length
  copies : ∀ (i : Nat) (q : Bytes), qs[i]? = some q → out[i + 1]? = some q
  held : ∀ a ∈ arrivals h, m.rx.Holds a

section Run
variable {cid : UInt64} {out : Std.TreeMap Nat Bytes} {h : History} {m m' : CoreMachine}
  {qs : List Bytes}

theorem reassembling_fresh (hm : FreshReceiver cid m) : Reassembling cid out [] m [] where
  up := hm.up
  cid := hm.cid
  ok := hm.rx ▸ Rx.empty_ok
  agrees := hm.rx ▸ Rx.empty_agrees out
  got := rfl
  last := congrArg Rx.last hm.rx
  copies := by simp
  held := by simp [arrivals]

theorem Reassembling.step (hr : Reassembling cid out h m qs) {p : Packet} (hp : p.Bears out)
    {nowMs : UInt64} {src : UInt32} {res : CallResult}
    (hs : m.step (.datagram nowMs src (p.bytes cid)) = some (m', res)) :
    ∃ qs', Reassembling cid out
      (h ++ [⟨m, .datagram nowMs src (p.bytes cid), res, m'⟩]) m' qs' := by
  have hcid := hr.cid
  subst hcid
  have heq : onDatagram m nowMs src (p.bytes m.cid) = (m', res) := Option.some.inj hs
  have hears := hears m nowMs src hp.small
  rw [heq] at hears
  obtain ⟨⟨next, source⟩, hsignal⟩ := Option.isSome_iff_exists.mp hp.signal
  have hup : m'.state = .established := by
    rw [hears.state, stateOn_signal hsignal, wokenState_of_established m hr.up]
  have hrx : m.rxOn p = m.rx.arriveOpt p.arrival := by rw [CoreMachine.rxOn, if_pos hr.up]
  have hrx' : m'.rx = (m.rx.arriveOpt p.arrival).1 := hears.rx.trans (congrArg Prod.fst hrx)
  have harr : (Op.datagram nowMs src (p.bytes m.cid)).arrival m = p.arrival := by
    rw [Op.arrival, packet_arrival m hp.small, if_pos hr.up]
  have hmsgs : res.messages = numbered (qs.length + 1) (m.rx.arriveOpt p.arrival).2 := by
    rw [messages_eq, hears.deliveries, deliveryEvents_messages, hrx, hr.last]
  have hgot : messages (h ++ [⟨m, .datagram nowMs src (p.bytes m.cid), res, m'⟩]) =
      numbered 1 (qs ++ (m.rx.arriveOpt p.arrival).2) := by
    rw [messages, List.flatMap_append, ← messages, hr.got, List.flatMap_singleton, hmsgs,
      numbered_append, Nat.add_comm]
  have hcid : m'.cid = m.cid := congrArg Fixed.cid hears.fixed
  cases ha : p.arrival with
  | none =>
    rw [ha] at hrx' hgot harr
    have hsame : m'.rx = m.rx := hrx'
    refine ⟨qs ++ [], hup, hcid, hsame ▸ hr.ok, hsame ▸ hr.agrees, hgot, ?_, ?_, ?_⟩
    · rw [List.append_nil, ← hr.last]
      exact congrArg Rx.last hsame
    · simpa using hr.copies
    · rw [hsame]
      simpa [arrivals, harr] using hr.held
  | some a =>
    have hfrom := hp.arrival a ha
    obtain ⟨hagrees, hfreed⟩ := hr.agrees.arrive hr.ok hfrom
    rw [ha] at hrx' hgot harr
    have hsame : m'.rx = (m.rx.arrive a).1 := hrx'
    have hlast : m.rx.last = qs.length := hr.last
    refine ⟨qs ++ (m.rx.arrive a).2, hup, hcid, hsame ▸ hr.ok.arrive hfrom.sane,
      hsame ▸ hagrees, hgot, ?_, ?_, ?_⟩
    · have hsum := hr.ok.arrive_last hfrom.sane
      rw [← hsame, hlast] at hsum
      rw [List.length_append, ← hsum]
      rfl
    · intro i q hq
      by_cases hi : i < qs.length
      · rw [List.getElem?_append_left hi] at hq
        exact hr.copies i q hq
      · rw [List.getElem?_append_right (by omega)] at hq
        have hout := hfreed _ q hq
        rwa [hlast, show qs.length + 1 + (i - qs.length) = i + 1 by omega] at hout
    · intro b hb
      rw [hsame]
      have hsnoc : arrivals (h ++ [⟨m, .datagram nowMs src (p.bytes m.cid), res, m'⟩]) =
          arrivals h ++ [a] := by simp [arrivals, harr]
      rw [hsnoc, List.mem_append, List.mem_singleton] at hb
      obtain hold | rfl := hb
      · exact hr.agrees.keeps_holding hr.ok hfrom (hr.held b hold)
      · exact hr.agrees.arrive_holds hr.ok hfrom

/-- A fresh receiver that is sent only packets of the answer. -/
theorem reassembling_of_run (hm : FreshReceiver cid m) (hrun : Run CoreMachine.step m h m')
    (honly : ∀ t ∈ h, ∃ nowMs src, ∃ p : Packet, p.Bears out ∧
      t.input = .datagram nowMs src (p.bytes cid)) : ∃ qs, Reassembling cid out h m' qs := by
  refine hrun.invariant (I := fun h m => ∃ qs, Reassembling cid out h m qs)
    ⟨[], reassembling_fresh hm⟩ ?_ honly
  rintro h m op m' res ⟨qs, hr⟩ hs ⟨nowMs, src, p, hp, hop⟩
  obtain rfl : op = .datagram nowMs src (p.bytes cid) := hop
  exact hr.step hp hs

/-- What arrives at some point of such a run is held at its end. -/
theorem held_of_run (hm : FreshReceiver cid m) (hrun : Run CoreMachine.step m h m')
    (honly : ∀ t ∈ h, ∃ nowMs src, ∃ p : Packet, p.Bears out ∧
      t.input = .datagram nowMs src (p.bytes cid)) {t : Taken CoreMachine Op CallResult}
    (ht : t ∈ h) {nowMs : UInt64} {src : UInt32} {p : Packet} (hp : p.Small)
    (hin : t.input = .datagram nowMs src (p.bytes cid)) {a : Arrival} (ha : p.arrival = some a) :
    m'.rx.Holds a := by
  obtain ⟨qs, hr⟩ := reassembling_of_run hm hrun honly
  obtain ⟨h₀, h₁, rfl, hrun₀, -⟩ := hrun.before ht
  obtain ⟨_, hpre⟩ := reassembling_of_run hm hrun₀ fun t ht => honly t (List.mem_append_left _ ht)
  refine hr.held a (List.mem_filterMap.mpr ⟨t, ht, ?_⟩)
  have hcid := hpre.cid
  subst hcid
  rw [hin, Op.arrival, packet_arrival _ hp, if_pos hpre.up, ha]

end Run

/-! ### The answer -/

section Answer
variable {s : CoreMachine} {ids : List Nat} {rs : List Packet} {p : Packet} {ps : List Bytes}

theorem bears_of_reply (hstock : Stocked ps s) (hup : s.state = .established)
    (hrs : repliesTo s ids = some rs) (hp : p ∈ rs) : p.Bears s.outboundMessages := by
  have hpending : s.maxPendingId < s.nextOutboundId := by
    rw [hstock.maxPendingId, hstock.next]
    omega
  have hbegun : s.state ≠ .preHandshake := by simp [hup]
  obtain ⟨id, -, qs, hqs, hmem⟩ := (mem_repliesTo hrs p).mp hp
  obtain ⟨msg, hmsg, ⟨hsmall, rfl⟩ | ⟨-, hle, idx, hidx, rfl⟩⟩ := (mem_replyPackets hqs p).mp hmem
  · have hhonest : Honest s (.data id msg s.lastOrderedRx s.maxPendingId) :=
      ⟨hmsg, hsmall, hpending, hbegun⟩
    exact ⟨repliesTo_small hrs _ hp, rfl, fun a ha => hhonest.arrival_from hstock.outbox ha⟩
  · have hhonest : Honest s (.fragment id idx (fragmentCount msg)
        ((msg.drop (idx * chunkSize)).take chunkSize) s.lastOrderedRx s.maxPendingId) :=
      ⟨⟨msg, hmsg, rfl, hle, hidx, rfl⟩, hpending, hbegun⟩
    exact ⟨repliesTo_small hrs _ hp, rfl, fun a ha => hhonest.arrival_from hstock.outbox ha⟩

theorem bears_of_request {out : Std.TreeMap Nat Bytes} (hsmall : p.Small)
    (hp : p.isRequest = true) : p.Bears out := by
  cases p with
  | requestRange => exact ⟨hsmall, rfl, by simp [Packet.arrival]⟩
  | control | msr | data | fragment => simp [Packet.isRequest] at hp

/-- The parts of a message of the range, each of them in the answer and on its way. -/
theorem reply_parts (hstock : Stocked ps s) (hrs : repliesTo s ids = some rs) {id : Nat}
    (hid : id ∈ ids) {msg : Bytes} (hmsg : s.outboundMessages[id]? = some msg) :
    (∃ p ∈ rs, p.arrival = some (.data id msg) ∧ p.messageType = .data) ∨
      0 < fragmentCount msg ∧ ∀ idx < fragmentCount msg, ∃ p ∈ rs,
        p.arrival = some (.fragment id idx (fragmentCount msg) (piece msg idx)) ∧
          p.messageType = .fragment := by
  have hmod := hstock.outbox.id_mod hmsg
  obtain hwhole | ⟨hcount, hle, hpieces⟩ := repliesTo_parts hrs hid hmsg
  · refine .inl ⟨_, hwhole, ?_, rfl⟩
    rw [Packet.arrival, hmod]
  · refine .inr ⟨hcount, fun idx hidx => ⟨_, hpieces idx hidx, ?_, rfl⟩⟩
    have h₁ : fragmentCount msg % 2 ^ 16 = fragmentCount msg := Nat.mod_eq_of_lt (by omega)
    have h₂ : idx % 2 ^ 16 = idx := Nat.mod_eq_of_lt (by omega)
    have hsane : ¬ (fragmentCount msg = 0 ∨ idx ≥ fragmentCount msg) := by omega
    simp only [Packet.arrival, h₁, h₂, hmod, hsane, if_false]

end Answer

theorem bearsMessage_bytes {p : Packet} (hp : p.Small) (cid : UInt64)
    (htype : p.messageType = .data ∨ p.messageType = .fragment) :
    bearsMessage (p.bytes cid) = true := by
  have hframe : (p.frame cid).messageType = p.messageType := rfl
  simp only [bearsMessage, Packet.decode_bytes hp, hframe]
  simpa using htype

/-- A sender answers a request for all its messages, and a fresh receiver that gets the
answer in any order and with any repetitions is handed them all, in order and once. -/
theorem reassembled {role : Role} {cid : UInt64} {cfg : CoreConfig} {h₀ : History}
    {s : CoreMachine} (hsender : Run CoreMachine.step (CoreMachine.new role cid cfg) h₀ s)
    (hup : s.state = .established) (hfits : ∀ p ∈ accepted h₀, p.length ≤ 988 * 65535)
    {bytes : Bytes} {frame : WireFrame} (hown : ownFrame s bytes = some frame)
    (htype : frame.messageType = .requestRange)
    (hrange : decodeRange frame.payload = some (1, (accepted h₀).length))
    (nowMs : UInt64) (src : UInt32) :
    ∃ out, (onDatagram s nowMs src bytes).2 = .ok out ∧
      ∀ m h m', FreshReceiver s.cid m → Run CoreMachine.step m h m' →
        Scrambles (out.outboundDatagrams.map OutboundDatagram.bytes) h →
          messages h = numbered 1 (accepted h₀) ∧ m'.lastOrderedRx = (accepted h₀).length := by
  have hstock := stocked_of_run hsender
  generalize accepted h₀ = ps at hfits hrange hstock ⊢
  have hsome : (repliesTo s (List.range' 1 (ps.length + 1 - 1))).isSome := by
    rw [repliesTo_isSome_iff]
    intro id hid msg hmsg
    rw [hstock.message (List.mem_range'_1.mp hid).1] at hmsg
    exact hfits msg (List.mem_of_getElem? hmsg)
  obtain ⟨rs, hrs⟩ := Option.isSome_iff_exists.mp hsome
  have hcall := onDatagram_range hup hown htype hrange nowMs src
  simp only [hrs] at hcall
  obtain ⟨out, qs, hok, hsaid, hqs⟩ := hcall
  refine ⟨out, hok, fun m h m' hm hrun hscr => ?_⟩
  rw [hsaid] at hscr
  have honly : ∀ t ∈ h, ∃ nowMs src, ∃ p : Packet, p.Bears s.outboundMessages ∧
      t.input = .datagram nowMs src (p.bytes s.cid) := by
    intro t ht
    obtain ⟨nowMs, src, b, hb, hin⟩ := hscr.only t ht
    obtain ⟨p, hp, rfl⟩ := List.mem_map.mp hb
    refine ⟨nowMs, src, p, ?_, hin⟩
    obtain hreply | hreq := List.mem_append.mp hp
    · exact bears_of_reply hstock hup hrs hreply
    · exact bears_of_request (hqs p hreq).1 (hqs p hreq).2
  obtain ⟨got, hr⟩ := reassembling_of_run hm hrun honly
  have hheld : ∀ p ∈ rs, p.messageType = .data ∨ p.messageType = .fragment →
      ∀ a, p.arrival = some a → m'.rx.Holds a := by
    intro p hp hmsg a ha
    have hsmall := (bears_of_reply hstock hup hrs hp).small
    obtain ⟨t, ht, nowMs, src, hin⟩ := hscr.all _
      (List.mem_map_of_mem (List.mem_append_left _ hp)) (bearsMessage_bytes hsmall s.cid hmsg)
    exact held_of_run hm hrun honly ht hsmall hin ha
  have hids : ∀ id, id ∈ m'.rx.ids ↔ 1 ≤ id ∧ id ≤ ps.length := by
    intro id
    constructor
    · intro hin
      have hkey := (hstock.outbox.keys id).mp (hr.agrees.known id hin)
      rw [hstock.next] at hkey
      omega
    · rintro ⟨hpos, hle⟩
      have hget := List.getElem?_eq_getElem (l := ps) (i := id - 1) (by omega)
      have hmsg := (hstock.message hpos).trans hget
      have hmem : id ∈ List.range' 1 (ps.length + 1 - 1) := List.mem_range'_1.mpr ⟨hpos, by omega⟩
      obtain ⟨p, hp, ha, ht⟩ | ⟨hcount, hpieces⟩ := reply_parts hstock hrs hmem hmsg
      · exact hheld p hp (.inl ht) _ ha
      · refine hr.agrees.complete hr.ok hmsg hcount fun idx hidx => ?_
        obtain ⟨p, hp, ha, ht⟩ := hpieces idx hidx
        exact hheld p hp (.inr ht) _ ha
  have hlast : m'.rx.last = ps.length := hr.ok.last_eq hids
  have hgot : got = ps := by
    have hlen : got.length = ps.length := hr.last.symm.trans hlast
    refine List.ext_getElem? fun i => ?_
    by_cases hi : i < got.length
    · have hcopy := hr.copies i _ (List.getElem?_eq_getElem hi)
      rw [hstock.messages] at hcopy
      rw [hcopy, List.getElem?_eq_getElem hi]
    · rw [List.getElem?_eq_none (by omega), List.getElem?_eq_none (by omega)]
  exact ⟨hgot ▸ hr.got, hlast⟩

/-- A short message and one of three fragments, and the request for both. -/
def twoMessages : List Op :=
  greeted ++ [.call (.send [10]), .call (.send (List.replicate 2000 0))]
def bothRequested : Packet := .requestRange 1 2 0 0

theorem twoMessages_reassembled :
    ∃ h₀ s, exec CoreMachine.step (CoreMachine.new .server 7 .default) twoMessages =
        some (h₀, s) ∧
      ∃ out, (onDatagram s 2 0 (bothRequested.bytes s.cid)).2 = .ok out ∧
        ∀ m h m', FreshReceiver s.cid m → Run CoreMachine.step m h m' →
          Scrambles (out.outboundDatagrams.map OutboundDatagram.bytes) h →
            messages h = numbered 1 (accepted h₀) ∧
              m'.lastOrderedRx = (accepted h₀).length := by
  have hsome : ((exec CoreMachine.step (CoreMachine.new .server 7 .default) twoMessages).any
      fun x => x.2.state = .established ∧ (accepted x.1).length = 2 ∧
        ∀ p ∈ accepted x.1, p.length ≤ 988 * 65535) = true := by decide +kernel
  obtain ⟨⟨h₀, s⟩, hexec, hx⟩ := (Option.any_eq_true _ _).mp hsome
  obtain ⟨hup, hlen, hfits⟩ := of_decide_eq_true hx
  have hsmall : bothRequested.Small := small_of_short (by simp [bothRequested, Packet.payload])
  have hrange : decodeRange (bothRequested.frame s.cid).payload =
      some (1, (accepted h₀).length) := by
    rw [hlen]
    exact decodeRange_encode 1 2
  exact ⟨h₀, s, hexec, reassembled (Run.of_exec hexec) hup hfits (ownFrame_packet hsmall) rfl
    hrange 2 0⟩

end Todero.Core
