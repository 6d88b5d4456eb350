import Todero.Honest
import Todero.Lib.Drain

/-! However the datagrams in flight between two honest machines are delivered, they come
to an end. -/
namespace Todero.Core
open Todero.Wire Transition Duplex

instance : Fintype Role := ⟨{.client, .server}, fun r => by cases r <;> simp⟩

/-- Only a client is ever `Reactivating`. -/
theorem next_awake {m : CoreMachine} (hrole : m.role = .server) (h : m.state ≠ .reactivating)
    (k : Call) : (m.next k).state ≠ .reactivating := by
  have hmoved := next_moved m k
  generalize m.next k = m' at hmoved ⊢
  cases hmoved with
  | doubted hclient => simp [hrole] at hclient
  | same | announced | rolledBack | queued | proposed | switched => exact h
  | abandoned | timedOut | closed => simp

theorem stateOn_awake {m : CoreMachine} (h : m.state ≠ .reactivating) (p : Packet) :
    m.stateOn p ≠ .reactivating := by
  have hwoken : m.wokenState ≠ .reactivating := by simp [CoreMachine.wokenState, h]
  cases p with
  | control t =>
    cases t <;> simp only [CoreMachine.stateOn] <;> (try split_ifs) <;> first | exact h | simp
  | msr | requestRange | data | fragment => exact hwoken

/-- Two honest machines, each at its own end. -/
structure Talk.Paired (cid : UInt64) (fits : Bytes → Prop) (w : Talk) : Prop where
  honest : w.Honest cid fits
  role : ∀ r, (w.core r).role = r
  awake : (w.core .server).state ≠ .reactivating

section Paired
variable {cid : UInt64} {fits : Bytes → Prop} {w w' : Talk}

theorem Talk.Paired.step (hw : w.Paired cid fits) {a : Move} (ha : Fitting fits a)
    {o : Option CallResult} (hs : w.step a = some (w', o)) : w'.Paired cid fits := by
  refine ⟨hw.honest.step ha hs, fun r => ?_, ?_⟩
  · cases hw.honest.clean.moves hs r with
    | idle _ hsame => rw [hsame, hw.role]
    | call k _ _ _ happ => rw [(apply_answers _ happ).next, next_role, hw.role]
    | recv _ _ _ _ _ _ _ hears => rw [hears.grows.role, hw.role]
  · cases hw.honest.clean.moves hs .server with
    | idle _ hsame =>
      rw [hsame]
      exact hw.awake
    | call k _ _ _ happ =>
      rw [(apply_answers _ happ).next]
      exact next_awake (hw.role .server) hw.awake k
    | recv _ _ p _ _ _ _ hears =>
      rw [hears.state]
      exact stateOn_awake hw.awake p

theorem Talk.Paired.of_run {cfg : Role → CoreConfig}
    {h : List (Taken Talk Move (Option CallResult))}
    (hrun : Run Talk.step (Talk.start cid cfg) h w) (hfit : ∀ t ∈ h, Fitting fits t.input) :
    w.Paired cid fits :=
  hrun.invariant (A := fun t => Fitting fits t.input) (I := fun _ w => w.Paired cid fits)
    ⟨Talk.start_honest cid fits cfg, fun _ => rfl, nofun⟩ (fun _ _ _ _ _ hw hs ha => hw.step ha hs) hfit

/-- A call at one end, and what the network gets from it. -/
theorem Talk.step_call {r : Role} {k : Call} {o : Option CallResult}
    (hs : w.step (.call r k) = some (w', o)) :
    w'.core r = (w.core r).next k ∧ w'.core r.peer = w.core r.peer ∧
      ∀ s p, p ∈ w'.inbox s ↔ p ∈ w.inbox s ∨ s = r.peer ∧ p ∈ (w.core r).utters k := by
  simp only [Talk.step, Net.step, talker, Option.map_eq_some_iff, Prod.mk.injEq] at hs
  obtain ⟨_, ⟨⟨m', res⟩, happ, rfl⟩, rfl, -⟩ := hs
  refine ⟨?_, ?_, fun s p => Net.mem_commit _ _ _ _ _ _ _⟩
  · rw [Net.commit_core, Function.update_self, (apply_answers _ happ).next]
  · rw [Net.commit_core, Function.update_of_ne r.peer_ne]

/-- Packet `p` has been delivered at `r`. -/
structure Talk.Delivered (w w' : Talk) (r : Role) (p : Packet) : Prop where
  mem : p ∈ w.inbox r
  hears : ∃ res, Hears (w.core r) p (w'.core r) res
  other : w'.core r.peer = w.core r.peer
  kept : ∀ s, ∀ q ∈ w.inbox s, (s = r → q ≠ p) → q ∈ w'.inbox s
  sent : ∀ q ∈ (w.core r).replies p, q ∈ w'.inbox r.peer
  inbox : ∀ s, ∀ q ∈ w'.inbox s, q ∈ w.inbox s ∨ s = r.peer ∧ q ∈ (w.core r).replies p

theorem Talk.Clean.delivered (hw : w.Clean cid) (h : w.Delivers w') :
    ∃ r p, w.Delivered w' r p := by
  obtain ⟨r, i, x, o, hs⟩ := h
  simp only [Net.step, talker, Option.map_eq_some_iff, Prod.mk.injEq] at hs
  obtain ⟨p, hp, rfl, -⟩ := hs
  have hmem := List.mem_of_getElem? hp
  have hhears := hears (w.core r) x.nowMs x.srcPathId (hw.flight r p hmem)
  refine ⟨r, p, hmem, ⟨(onDatagram (w.core r) x.nowMs x.srcPathId (p.bytes (w.core r).cid)).2, ?_⟩,
    ?_, ?_, ?_, ?_⟩
  · rw [Net.commit_core, Function.update_self]
    exact hhears
  · rw [Net.commit_core, Function.update_of_ne r.peer_ne]
    rfl
  · intro s q hq hne
    exact (Net.mem_commit _ _ _ _ _ _ _).mpr (.inl (Net.mem_remove hp hq hne))
  · intro q hq
    exact (Net.mem_commit _ _ _ _ _ _ _).mpr (.inr ⟨rfl, hq⟩)
  · intro s q hq
    exact ((Net.mem_commit _ _ _ _ _ _ _).mp hq).imp_left Net.mem_of_remove

theorem Talk.Paired.delivers (hw : w.Paired cid fits) (h : w.Delivers w') :
    w'.Paired cid fits := by
  obtain ⟨r, i, x, o, hs⟩ := h
  exact hw.step (a := .deliver r i x) (fun _ _ => nofun) hs

end Paired

/-- The packets behind a run over bytes, and behind a step after it. -/
theorem World.paired_of_run {cid : UInt64} {cfg : Role → CoreConfig} {F : Bytes → Prop}
    {h : WorldHistory} {w : World} (hrun : Run World.step (World.start cid cfg) h w)
    (hfit : ∀ t ∈ h, Fitting F t.input) :
    ∃ v : Talk, v.Paired cid F ∧ w = v.toWorld cid := by
  obtain ⟨h', v, hrun', -, rfl, rfl⟩ := World.run_of_talk (Talk.start_clean cid cfg) hrun
  refine ⟨v, Talk.Paired.of_run hrun' fun t ht => ?_, rfl⟩
  exact hfit _ (List.mem_map_of_mem ht)

theorem World.step_of_talk {cid : UInt64} {fits : Bytes → Prop} {v : Talk}
    (hv : v.Paired cid fits) {a : Move} {w' : World} {o : Option CallResult}
    (hs : World.step (v.toWorld cid) a = some (w', o)) :
    ∃ v', v.step a = some (v', o) ∧ w' = v'.toWorld cid := by
  obtain ⟨v', hs, -, heq⟩ := hv.honest.clean.world_step hs
  exact ⟨v', hs, heq⟩

/-! ### What a packet weighs at the end it is on its way to -/

def Packet.isRequest : Packet → Bool
  | .requestRange .. => true
  | _ => false

/-- Enough to pay for the answer, where that is not made of messages. -/
def Packet.cost (r : Role) : Packet → ℕ
  | .requestRange .. => 0
  | .data .. | .fragment .. => 1
  | .control .clientHello => 3
  | .control .serverHello => 2
  | .control _ => 1
  | .msr _ _ (some (.proposal _ _)) => 3
  | .msr _ _ _ => if r = .client then 2 else 1

/-- The requests count first. -/
def Packet.weight (r : Role) (p : Packet) : ℕ ×ₗ ℕ :=
  toLex (if p.isRequest then 1 else 0, p.cost r)

/-- What the two ends can still ask for. -/
def Talk.slack (w : Talk) : ℕ :=
  ∑ r, ((w.core r.peer).nextOutboundId - (w.core r).lastRequestedEnd)

theorem Talk.slack_eq (w : Talk) (r : Role) :
    w.slack = ((w.core r.peer).nextOutboundId - (w.core r).lastRequestedEnd) +
      ((w.core r).nextOutboundId - (w.core r.peer).lastRequestedEnd) := by
  have hsum : w.slack = ((w.core .server).nextOutboundId - (w.core .client).lastRequestedEnd) +
      ((w.core .client).nextOutboundId - (w.core .server).lastRequestedEnd) :=
    Finset.sum_pair (by decide)
  cases r with
  | client => exact hsum
  | server => rw [hsum, Nat.add_comm]; rfl

theorem sum_weight {r : Role} {ps : List Packet} (h : ∀ p ∈ ps, p.isRequest = false) :
    (ps.map (Packet.weight r)).sum = toLex (0, (ps.map (Packet.cost r)).sum) := by
  induction ps with
  | nil => rfl
  | cons p ps ih =>
    have hp : p.weight r = toLex (0, p.cost r) := by rw [Packet.weight, h p (by simp)]; rfl
    rw [List.map_cons, List.sum_cons, hp, ih fun q hq => h q (List.mem_cons_of_mem p hq)]
    rfl

section Weight
variable {m : CoreMachine} {p : Packet}

/-- When the cursor stays, the signal has not led to a request. -/
theorem signalPackets_quiet (hok : m.fails p = false) {next : Nat} {source : MsrSource}
    (hs : p.signal = some (next, source)) (hstay : m.cursorOn p = m.lastRequestedEnd) (last : Nat) :
    m.signalPackets last next source =
      if m.role = .client ∧ keepaliveDue source m then [.msr last m.maxPendingId none] else [] := by
  have hask : ¬ m.asksUpTo next := by
    intro hask
    rw [cursorOn_of_ok m hok hs, if_pos hask] at hstay
    have hgt := hask.2
    omega
  rw [CoreMachine.signalPackets, if_neg hask, List.append_nil]

theorem replies_of_request {start stop acked next : Nat}
    (hp : p = .requestRange start stop acked next) (hstay : m.cursorOn p = m.lastRequestedEnd) :
    ∀ q ∈ m.replies p, q.isRequest = false := by
  subst hp
  intro q hq
  obtain ⟨hok, hans | ⟨next', source, hs, hsig⟩⟩ := mem_replies hq
  · cases answer_of_mem hans <;> rfl
  · rw [signalPackets_quiet hok hs hstay] at hsig
    split_ifs at hsig
    · rw [List.mem_singleton.mp hsig]
      rfl
    · simp at hsig

/-- What is sent back for anything but a request, without asking for more. -/
theorem replies_of_other (hreq : p.isRequest = false)
    (hstay : m.cursorOn p = m.lastRequestedEnd) :
    (∀ q ∈ m.replies p, q.isRequest = false) ∧
      ((m.replies p).map (Packet.cost m.role.peer)).sum < p.cost m.role := by
  cases hf : m.fails p with
  | true =>
    have hnil : m.replies p = [] := by rw [CoreMachine.replies, if_pos hf]
    rw [hnil]
    cases p with
    | fragment => exact ⟨by simp, Nat.one_pos⟩
    | control | msr | data | requestRange => simp_all [CoreMachine.fails, Packet.isRequest]
  | false =>
    have hsome : ∀ {next source}, p.signal = some (next, source) → m.replies p = m.answers p ++
        if m.role = .client ∧ keepaliveDue source m then
          [.msr (m.rxOn p).1.last m.maxPendingId none] else [] := by
      intro next source hs
      rw [replies_of_ok m hf hs, signalPackets_quiet hf hs hstay]
    cases p with
    | control t =>
      rw [replies_control]
      cases t <;> simp only [CoreMachine.answers] <;> (try split_ifs) <;>
        simp [Packet.isRequest, Packet.cost]
    | msr acked next timer =>
      rw [hsome rfl]
      by_cases hk : keepaliveDue .controlMsrFrame m <;> cases hrole : m.role <;> cases timer with
      | none => simp [CoreMachine.answers, hk, Packet.isRequest, Packet.cost, Role.peer]
      | some t =>
        cases t <;> simp [CoreMachine.answers, hk, Packet.isRequest, Packet.cost, Role.peer]
    | requestRange => simp [Packet.isRequest] at hreq
    | data | fragment =>
      rw [hsome rfl]
      simp [keepaliveDue, CoreMachine.answers, Packet.cost]

/-- What is sent back without asking for anything weighs less than what was received. -/
theorem replies_weight (hstay : m.cursorOn p = m.lastRequestedEnd) :
    ((m.replies p).map (Packet.weight m.role.peer)).sum < p.weight m.role := by
  cases hreq : p.isRequest with
  | true =>
    obtain ⟨start, stop, acked, next, rfl⟩ :
        ∃ start stop acked next, p = .requestRange start stop acked next := by
      cases p with
      | requestRange => exact ⟨_, _, _, _, rfl⟩
      | control | msr | data | fragment => simp [Packet.isRequest] at hreq
    rw [sum_weight (replies_of_request rfl hstay)]
    exact Prod.Lex.toLex_lt_toLex.mpr (.inl Nat.one_pos)
  | false =>
    obtain ⟨hnone, hcost⟩ := replies_of_other hreq hstay
    rw [sum_weight hnone, Packet.weight, hreq]
    exact Prod.Lex.toLex_lt_toLex.mpr (.inr ⟨rfl, hcost⟩)

end Weight

/-- Whatever the deliveries keep holds where they end, and they end. -/
theorem Talk.Paired.settles {cid : UInt64} {fits : Bytes → Prop} {I Q : Talk → Prop} {w : Talk}
    (hw : w.Paired cid fits) (hI : I w)
    (hinv : ∀ w w' : Talk, w.Paired cid fits → I w → w.Delivers w' → I w')
    (hend : ∀ w : Talk, w.Paired cid fits → I w → w.Quiet → Q w) :
    Settles Talk.Delivers Q w := by
  refine Net.settles_of_load (I := fun w => Talk.Paired cid fits w ∧ I w) Talk.slack
    Packet.weight ⟨hw, hI⟩ (fun w w' h hs => ⟨h.1.delivers hs, hinv w w' h.1 h.2 hs⟩) ?_
    fun w h hterm => hend w h.1 h.2 ((Net.terminal_iff Role.peer talker w).mp hterm)
  intro w r x i p h hp
  have hhonest := h.1.honest.flight r p (List.mem_of_getElem? hp)
  have hlt := (h.1.honest.ends r).cursorOn_lt hhonest.2
  have hge := cursorOn_ge (w.core r) p
  have hears := hears (w.core r) x.nowMs x.srcPathId hhonest.1
  simp only [talker]
  generalize (onDatagram (w.core r) x.nowMs x.srcPathId (p.bytes (w.core r).cid)).1 = m' at hears ⊢
  have hnext : m'.nextOutboundId = (w.core r).nextOutboundId :=
    congrArg Fixed.nextOutboundId hears.fixed
  rw [Talk.slack_eq _ r, Talk.slack_eq w r, Net.commit_core, Net.remove_core,
    Function.update_self, Function.update_of_ne r.peer_ne, hears.cursor, hnext]
  by_cases hstay : (w.core r).cursorOn p = (w.core r).lastRequestedEnd
  · refine .inr ⟨by rw [hstay], ?_⟩
    have hweight := replies_weight hstay
    rwa [h.1.role] at hweight
  · refine .inl ?_
    omega

end Todero.Core
