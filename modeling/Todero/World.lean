import Todero.Lib.Duplex
import Todero.Reactions

/-! A client and a server machine and the datagrams between them, first as bytes and
then as packets, and that the two take the same steps. -/
namespace Todero.Core
open Todero.Wire Transition Duplex

def Role.peer : Role → Role
  | .client => .server
  | .server => .client

@[simp] theorem Role.peer_peer (r : Role) : r.peer.peer = r := by cases r <;> rfl
theorem Role.peer_ne (r : Role) : r.peer ≠ r := by cases r <;> decide

/-- When a datagram arrives, and over which path. -/
structure Receipt where
  nowMs : UInt64
  srcPathId : UInt32

instance : Nonempty Receipt := ⟨⟨0, 0⟩⟩

def CallResult.datagrams (res : CallResult) : List Bytes :=
  res.output.outboundDatagrams.map OutboundDatagram.bytes

/-- One end, over bytes: the operations of a machine. -/
def endpoint : Party CoreMachine Call Receipt Bytes CallResult where
  call m k := (m.apply k).map fun (m', res) => (m', res.datagrams, res)
  recv m r bytes :=
    let (m', res) := onDatagram m r.nowMs r.srcPathId bytes
    (m', res.datagrams, res)

abbrev World := Net Role CoreMachine Bytes
abbrev Move := Action Role Call Receipt
abbrev WorldHistory := List (Taken World Move (Option CallResult))

def World.step (w : World) (a : Move) : Option (World × Option CallResult) :=
  Net.step Role.peer endpoint w a

/-- One datagram in flight is delivered. -/
def World.Delivers (w w' : World) : Prop := Net.Delivers Role.peer endpoint w w'

def World.start (cid : UInt64) (cfg : Role → CoreConfig) : World :=
  ⟨fun r => CoreMachine.new r cid (cfg r), fun _ => []⟩

/-- One end, over packets: the same machine, with what it sends in closed form. -/
def talker : Party CoreMachine Call Receipt Packet CallResult where
  call m k := (m.apply k).map fun (m', res) => (m', m.utters k, res)
  recv m r p :=
    let (m', res) := onDatagram m r.nowMs r.srcPathId (p.bytes m.cid)
    (m', m.replies p, res)

abbrev Talk := Net Role CoreMachine Packet

def Talk.step (w : Talk) (a : Move) : Option (Talk × Option CallResult) :=
  Net.step Role.peer talker w a

def Talk.Delivers (w w' : Talk) : Prop := Net.Delivers Role.peer talker w w'

def Talk.start (cid : UInt64) (cfg : Role → CoreConfig) : Talk :=
  ⟨fun r => CoreMachine.new r cid (cfg r), fun _ => []⟩

/-! ### No packet is too large to be read back -/

theorem small_of_short {p : Packet} (h : p.payload.length ≤ 16) : p.Small :=
  h.trans (by decide)

theorem utters_small (m : CoreMachine) (k : Call) : ∀ p ∈ m.utters k, p.Small := by
  have hmsr : ∀ acked next timer, (Packet.msr acked next timer).Small := fun _ _ _ =>
    small_of_short (by simp [Packet.payload])
  have hcontrol : ∀ t, (Packet.control t).Small := fun t => Nat.zero_le _
  intro p hp
  cases k with
  | timer nowMs timerId =>
    cases timerId <;> simp only [CoreMachine.utters] at hp <;> (try split_ifs at hp) <;>
      simp only [List.mem_singleton, List.not_mem_nil] at hp <;> subst hp <;> exact hmsr _ _ _
  | beginHandshake | close =>
    simp only [CoreMachine.utters] at hp
    split_ifs at hp <;> simp only [List.mem_singleton, List.not_mem_nil] at hp
    subst hp
    exact hcontrol _
  | send | proposeTimers =>
    simp only [CoreMachine.utters] at hp
    split_ifs at hp <;> simp only [List.mem_singleton, List.not_mem_nil] at hp <;> subst hp <;>
      exact hmsr _ _ _
  | pathChanged => simp [CoreMachine.utters] at hp

/-- The frames of a reply: the whole message, or its pieces. -/
theorem mem_replyPackets {m : CoreMachine} {id : Nat} {ps : List Packet}
    (h : replyPackets m id = some ps) (p : Packet) :
    p ∈ ps ↔ ∃ msg, m.outboundMessages[id]? = some msg ∧
      (8 + msg.length ≤ maxDataPayloadPerFrame ∧
          p = .data id msg m.lastOrderedRx m.maxPendingId ∨
        ¬ 8 + msg.length ≤ maxDataPayloadPerFrame ∧ fragmentCount msg ≤ 65535 ∧
          ∃ idx < fragmentCount msg, p = .fragment id idx (fragmentCount msg)
            ((msg.drop (idx * chunkSize)).take chunkSize) m.lastOrderedRx m.maxPendingId) := by
  unfold replyPackets at h
  cases hm : m.outboundMessages[id]? with
  | none =>
    simp only [hm, Option.some.injEq] at h
    simp [← h]
  | some msg =>
    simp only [hm] at h
    split_ifs at h with hsmall hbig
    · rw [Option.some.injEq] at h
      simp [← h, hsmall]
    · rw [Option.some.injEq] at h
      have hle : fragmentCount msg ≤ 65535 := by omega
      simp only [← h, List.mem_map, Prod.exists, mem_chunks_zipIdx, Option.some.injEq,
        exists_eq_left', hsmall, false_and, not_false_eq_true, true_and, false_or, hle]
      constructor
      · rintro ⟨chunk, idx, ⟨hidx, rfl⟩, rfl⟩
        exact ⟨idx, hidx, rfl⟩
      · rintro ⟨idx, hidx, rfl⟩
        exact ⟨_, idx, ⟨hidx, rfl⟩, rfl⟩

theorem mem_repliesTo {m : CoreMachine} {ids : List Nat} {qs : List Packet}
    (h : repliesTo m ids = some qs) (p : Packet) :
    p ∈ qs ↔ ∃ id ∈ ids, ∃ ps, replyPackets m id = some ps ∧ p ∈ ps := by
  induction ids generalizing qs with
  | nil =>
    simp only [repliesTo, Option.some.injEq] at h
    simp [← h]
  | cons id ids ih =>
    simp only [repliesTo, Option.bind_eq_some_iff, Option.map_eq_some_iff] at h
    obtain ⟨ps, hps, rest, hrest, rfl⟩ := h
    simp [ih hrest, hps]

/-- Everything a handler answers a packet with. -/
inductive CoreMachine.Answer (m : CoreMachine) : Packet → Packet → Prop
  | serverHello : m.role = .server → m.state = .preHandshake →
      m.Answer (.control .clientHello) (.control .serverHello)
  | helloAck : m.role = .client → (m.state = .preHandshake ∨ m.state = .reactivating) →
      m.Answer (.control .serverHello) (.control .helloAck)
  | timerAck (acked next : Nat) (id : UInt32) (p : TimerProposal) :
      m.Answer (.msr acked next (some (.proposal id p)))
        (.msr m.lastOrderedRx m.maxPendingId
          (some (.ack id (validateTimerProposal m.cfg p).isOk)))
  | data (start stop acked next : Nat) (id : Nat) (msg : Bytes) : m.state = .established →
      id ∈ requestedIds start stop → m.outboundMessages[id]? = some msg →
      8 + msg.length ≤ maxDataPayloadPerFrame →
      m.Answer (.requestRange start stop acked next) (.data id msg m.lastOrderedRx m.maxPendingId)
  | fragment (start stop acked next : Nat) (id : Nat) (msg : Bytes) (idx : Nat) :
      m.state = .established → id ∈ requestedIds start stop →
      m.outboundMessages[id]? = some msg → fragmentCount msg ≤ 65535 →
      idx < fragmentCount msg →
      m.Answer (.requestRange start stop acked next) (.fragment id idx (fragmentCount msg)
        ((msg.drop (idx * chunkSize)).take chunkSize) m.lastOrderedRx m.maxPendingId)

theorem answer_of_mem {m : CoreMachine} {q p : Packet} (h : p ∈ m.answers q) : m.Answer q p := by
  cases q with
  | control t =>
    cases t <;> simp only [CoreMachine.answers] at h <;> (try split_ifs at h with hc) <;>
      simp only [List.mem_singleton, List.not_mem_nil] at h
    · exact h ▸ .serverHello hc.1 hc.2
    · exact h ▸ .helloAck hc.1 hc.2
  | msr acked next timer =>
    cases timer with
    | none => simp [CoreMachine.answers] at h
    | some t =>
      cases t with
      | proposal id prop =>
        simp only [CoreMachine.answers, List.mem_singleton] at h
        exact h ▸ .timerAck acked next id prop
      | ack id accepted => simp [CoreMachine.answers] at h
  | requestRange start stop acked next =>
    simp only [CoreMachine.answers] at h
    split_ifs at h with hest
    · cases hps : repliesTo m (requestedIds start stop) with
      | none => simp [hps] at h
      | some ps =>
        rw [hps, Option.getD_some] at h
        obtain ⟨id, hid, ps', hps', hmem⟩ := (mem_repliesTo hps p).mp h
        obtain ⟨msg, hmsg, ⟨hsmall, rfl⟩ | ⟨-, hle, idx, hidx, rfl⟩⟩ :=
          (mem_replyPackets hps' p).mp hmem
        · exact .data start stop acked next id msg hest hid hmsg hsmall
        · exact .fragment start stop acked next id msg idx hest hid hmsg hle hidx
    · simp at h
  | data | fragment => simp [CoreMachine.answers] at h

theorem answers_small (m : CoreMachine) (q : Packet) : ∀ p ∈ m.answers q, p.Small := by
  intro p hp
  cases answer_of_mem hp with
  | serverHello | helloAck => exact Nat.zero_le _
  | timerAck => exact small_of_short (by simp [Packet.payload])
  | data _ _ _ _ id msg _ _ _ hsmall => simpa [Packet.Small, Packet.payload] using hsmall
  | fragment _ _ _ _ id msg idx =>
    have hlen : ((msg.drop (idx * chunkSize)).take chunkSize).length ≤ 988 :=
      List.length_take_le chunkSize _
    simp only [Packet.Small, Packet.payload, fragmentPayload_length, maxDataPayloadPerFrame]
    omega

theorem mem_signalPackets {m : CoreMachine} {last next : Nat} {source : MsrSource} {p : Packet} :
    p ∈ m.signalPackets last next source ↔
      (m.role = .client ∧ keepaliveDue source m ∧ p = .msr last m.maxPendingId none) ∨
        (m.asksUpTo next ∧
          p = .requestRange (m.lastRequestedEnd + 1) next last m.maxPendingId) := by
  unfold CoreMachine.signalPackets
  rw [List.mem_append]
  split_ifs <;> simp_all

/-- What a machine sends back is an answer of the handler, a keepalive or a request. -/
theorem mem_replies {m : CoreMachine} {q p : Packet} (h : p ∈ m.replies q) :
    m.fails q = false ∧ (p ∈ m.answers q ∨ ∃ next source, q.signal = some (next, source) ∧
      p ∈ m.signalPackets (m.rxOn q).1.last next source) := by
  unfold CoreMachine.replies at h
  split_ifs at h with hf
  · simp at h
  · refine ⟨by simpa using hf, ?_⟩
    rcases List.mem_append.mp h with hans | hsig
    · exact .inl hans
    · unfold CoreMachine.signalled at hsig
      split at hsig
      · simp at hsig
      · rename_i next source hs
        exact .inr ⟨next, source, hs, hsig⟩

theorem replies_small (m : CoreMachine) (q : Packet) : ∀ p ∈ m.replies q, p.Small := by
  intro p hp
  obtain ⟨-, hans | ⟨next, source, -, hsig⟩⟩ := mem_replies hp
  · exact answers_small m q p hans
  · rcases mem_signalPackets.mp hsig with ⟨-, -, rfl⟩ | ⟨-, rfl⟩ <;>
      exact small_of_short (by simp [Packet.payload])

/-! ### Bytes and packets -/

/-- Both ends have the same cid, and what is in flight can be read back. -/
abbrev Talk.Clean (cid : UInt64) (w : Talk) : Prop :=
  w.Holds Role.peer (fun s _ => s.cid = cid) (fun _ p => p.Small)

def Talk.toWorld (cid : UInt64) (w : Talk) : World := w.map (Packet.bytes cid)

theorem apply_cid {m m' : CoreMachine} {k : Call} {res : CallResult}
    (h : m.apply k = some (m', res)) : m'.cid = m.cid := by
  rw [(apply_answers m h).next]
  exact congrArg Lasting.cid (next_lasting m k)

theorem onDatagram_fixed (m : CoreMachine) (nowMs : UInt64) (src : UInt32) (bytes : Bytes) :
    (onDatagram m nowMs src bytes).1.fixed = m.fixed :=
  (onDatagram_effect m nowMs src bytes).1

theorem Talk.Clean.step {cid : UInt64} {w w' : Talk} (hw : w.Clean cid) {a : Move}
    {o : Option CallResult} (hs : w.step a = some (w', o)) : w'.Clean cid := by
  refine Net.Holds.step Role.peer_peer Role.peer_ne (fun _ => True) ?_ ?_ hw
    (fun _ _ _ => trivial) hs
  · intro s t k s' ds o _ hcid htcid hc
    simp only [talker, Option.map_eq_some_iff, Prod.mk.injEq] at hc
    obtain ⟨⟨m', res⟩, happ, rfl, rfl, -⟩ := hc
    exact ⟨(apply_cid happ).trans hcid, htcid, fun _ h => h, utters_small s k⟩
  · intro s t x d hcid htcid hd
    refine ⟨?_, htcid, fun _ h => h, replies_small s d⟩
    exact (congrArg Fixed.cid (onDatagram_fixed s x.nowMs x.srcPathId (d.bytes s.cid))).trans hcid

/-- The two worlds take the same steps. -/
theorem Talk.step_toWorld {cid : UInt64} {w : Talk} (hw : w.Clean cid) (a : Move) :
    World.step (w.toWorld cid) a = (w.step a).map fun (w', o) => (w'.toWorld cid, o) := by
  refine Net.step_map (Packet.bytes cid) w (A := talker) (B := endpoint) ?_ ?_ a
  · intro r k
    simp only [endpoint, talker, Option.map_map]
    cases happ : (w.core r).apply k with
    | none => rfl
    | some x =>
      obtain ⟨m', res⟩ := x
      have hans := apply_answers _ happ
      simp only [Option.map_some, Function.comp_apply, Option.some.injEq, Prod.mk.injEq,
        CallResult.datagrams, hans.datagrams, List.map_map, true_and, and_true]
      rw [← hw.ends r]
      rfl
  · intro r x p hp
    have hsmall := hw.flight r p hp
    have hsaid := (packet_reaction (w.core r) x.nowMs x.srcPathId hsmall).said
    have hcid := hw.ends r
    simp only [endpoint, talker, hcid, Prod.mk.injEq, true_and, and_true]
    rw [hcid] at hsaid
    exact hsaid

theorem Talk.start_clean (cid : UInt64) (cfg : Role → CoreConfig) :
    (Talk.start cid cfg).Clean cid :=
  ⟨fun _ => rfl, fun _ _ h => by simp [Talk.start] at h⟩

/-- Every run over bytes is the image of a run over packets. -/
theorem World.run_of_talk {cid : UInt64} {w₀ : Talk} (h₀ : w₀.Clean cid) {h : WorldHistory}
    {w : World} (hrun : Run World.step (w₀.toWorld cid) h w) :
    ∃ h' w', Run Talk.step w₀ h' w' ∧ w'.Clean cid ∧
      h = h'.map (Taken.map (Talk.toWorld cid)) ∧ w = w'.toWorld cid :=
  Run.of_map (I := Talk.Clean cid) (fun _ a hI => Talk.step_toWorld hI a)
    (fun _ _ _ _ hI hs => hI.step hs) h₀ hrun

theorem Talk.Clean.world_step {cid : UInt64} {v : Talk} (hv : v.Clean cid) {a : Move} {w : World}
    {o : Option CallResult} (hs : World.step (v.toWorld cid) a = some (w, o)) :
    ∃ v', v.step a = some (v', o) ∧ v'.Clean cid ∧ w = v'.toWorld cid := by
  rw [Talk.step_toWorld hv, Option.map_eq_some_iff] at hs
  obtain ⟨⟨v', o'⟩, hs, heq⟩ := hs
  obtain ⟨rfl, rfl⟩ := Prod.mk.inj heq
  exact ⟨v', hs, hv.step hs, rfl⟩

/-- What holds at the start and survives every step over packets holds after every run
over bytes. -/
theorem World.talk_invariant {cid : UInt64} {v₀ : Talk} (h₀ : v₀.Clean cid)
    {I : WorldHistory → Talk → Prop} (hstart : I [] v₀)
    (hstep : ∀ h v a v' o, v.Clean cid → v.step a = some (v', o) → I h v →
      I (h ++ [⟨v.toWorld cid, a, o, v'.toWorld cid⟩]) v')
    {h : WorldHistory} {w : World} (hrun : Run World.step (v₀.toWorld cid) h w) :
    ∃ v : Talk, v.Clean cid ∧ w = v.toWorld cid ∧ I h v := by
  induction hrun with
  | nil => exact ⟨v₀, h₀, rfl, hstart⟩
  | @snoc h w w' a o _ hs ih =>
    obtain ⟨v, hv, rfl, hI⟩ := ih
    obtain ⟨v', hs', hv', rfl⟩ := hv.world_step hs
    exact ⟨v', hv', rfl, hstep h v a v' o hv hs' hI⟩

theorem World.delivers_iff {cid : UInt64} {w : Talk} (hw : w.Clean cid) (v : World) :
    World.Delivers (w.toWorld cid) v ↔ ∃ w', w.Delivers w' ∧ v = w'.toWorld cid := by
  constructor
  · rintro ⟨r, i, x, o, hs⟩
    change World.step (w.toWorld cid) (.deliver r i x) = _ at hs
    rw [Talk.step_toWorld hw, Option.map_eq_some_iff] at hs
    obtain ⟨⟨w', o'⟩, hs', heq⟩ := hs
    exact ⟨w', ⟨r, i, x, o', hs'⟩, (Prod.mk.inj heq).1.symm⟩
  · rintro ⟨w', ⟨r, i, x, o, hs⟩, rfl⟩
    refine ⟨r, i, x, o, ?_⟩
    change World.step (w.toWorld cid) (.deliver r i x) = _
    rw [Talk.step_toWorld hw]
    change w.step (.deliver r i x) = _ at hs
    rw [hs]
    rfl

theorem Talk.Clean.delivers {cid : UInt64} {w w' : Talk} (hw : w.Clean cid)
    (h : w.Delivers w') : w'.Clean cid := by
  obtain ⟨r, i, x, o, hs⟩ := h
  exact hw.step hs

/-- What settles over packets settles over bytes. -/
theorem World.settles_iff {cid : UInt64} {w : Talk} (hw : w.Clean cid) {Q : World → Prop}
    {P : Talk → Prop} (hQ : ∀ w : Talk, Q (w.toWorld cid) ↔ P w) :
    Settles World.Delivers Q (w.toWorld cid) ↔ Settles Talk.Delivers P w :=
  settles_map (I := Talk.Clean cid) hw (fun _ v hI => World.delivers_iff hI v)
    (fun _ _ hI h => hI.delivers h) hQ

end Todero.Core
