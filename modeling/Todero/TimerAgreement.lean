import Todero.Commitment

/-! Two established machines joined by reliable FIFO channels: when both end up with the
same timers, with one proposer and with two. -/
namespace Todero.Core
open Todero.Wire Transition Duplex

/-- Nothing is lost, doubled or overtaken on the way. -/
def Fifo : Move → Prop
  | .call .. => True
  | .deliver _ i _ => i = 0
  | .drop .. | .duplicate .. => False

/-- Two established machines with equal timers and nothing between them. -/
structure World.Joined (cid : UInt64) (w : World) : Prop where
  cid : ∀ r, (w.core r).cid = cid
  role : ∀ r, (w.core r).role = r
  state : ∀ r, (w.core r).state = .established
  cfg : (w.core .client).cfg = (w.core .server).cfg
  pending : ∀ r, (w.core r).pendingLocalProposal = none
  quiet : w.Quiet

section Events
variable (r : Role) (t : Taken World Move (Option CallResult))

/-- The proposal the machine at `r` takes back at a step, when its renegotiation times out. -/
def rolledBackAt : Option PendingRenegotiation :=
  match t.input with
  | .call q (.timer nowMs .renegotiationTimeout) =>
    if q = r ∧ (t.pre.core q).pastExpiry nowMs then (t.pre.core q).pendingLocalProposal else none
  | _ => none

def TimerTlv.proposed : TimerTlv → Option TimerProposal
  | .proposal _ p => some p
  | .ack .. => none

/-- The proposals on their way to the machine at `r` at a step. -/
def offeredAt : List TimerProposal :=
  ((t.pre.inbox r).flatMap (t.pre.core r).timerTlvs).filterMap TimerTlv.proposed

end Events

section Events
variable {r : Role} {t : Taken World Move (Option CallResult)} {nowMs : UInt64}

theorem proposedAt_call {p : TimerProposal} (ha : t.input = .call r (.proposeTimers nowMs p))
    (hcan : (t.pre.core r).canPropose p) : proposedAt r t = some p := by
  simp [proposedAt, ha, hcan]

theorem rolledBackAt_call (ha : t.input = .call r (.timer nowMs .renegotiationTimeout))
    (hpast : (t.pre.core r).pastExpiry nowMs) :
    rolledBackAt r t = (t.pre.core r).pendingLocalProposal := by
  simp [rolledBackAt, ha, hpast]

end Events

/-! ### What holds of one end, what is on its way to it, its peer, and what is on its way there -/

section Sides
variable {Φ : Role → Timers → List TimerTlv → Timers → List TimerTlv → Prop}

def Renegotiation.Sides (Φ : Role → Timers → List TimerTlv → Timers → List TimerTlv → Prop)
    (v : Renegotiation) (r : Role) : Prop :=
  Φ r (v.core r) (v.inbox r) (v.core r.peer) (v.inbox r.peer)

theorem Renegotiation.Sides.all
    (hsymm : ∀ r s ins t outs, Φ r s ins t outs → Φ r.peer t outs s ins) {v : Renegotiation}
    {q : Role} (h : v.Sides Φ q) (r : Role) : v.Sides Φ r := by
  by_cases hr : r = q
  · exact hr ▸ h
  · have hpeer : r = q.peer := by cases q <;> cases r <;> simp_all [Role.peer]
    subst hpeer
    have h' := hsymm q _ _ _ _ h
    rwa [Renegotiation.Sides, Role.peer_peer]

theorem Renegotiation.Sides.commit {v : Renegotiation} {q : Role} {s : Timers}
    {ds : List TimerTlv} (h : Φ q s (v.inbox q) (v.core q.peer) (v.inbox q.peer ++ ds)) :
    Renegotiation.Sides Φ (v.commit Role.peer q s ds) q := by
  have hne := q.peer_ne
  simpa [Renegotiation.Sides, Net.commit, Net.enter, Net.add, hne, hne.symm] using h

/-- Over FIFO channels a step is a proposal, the end of one, or the arrival of the first
timer TLV on its way to one end. -/
theorem Talk.Turn.keeps {w : Talk} {a : Move} {v : Renegotiation} (hturn : w.Turn a v)
    (hfifo : Fifo a) (hsymm : ∀ r s ins t outs, Φ r s ins t outs → Φ r.peer t outs s ins)
    (hpropose : ∀ r nowMs p ins t outs, a = .call r (.proposeTimers nowMs p) →
      (w.core r).canPropose p → w.renegotiation.inbox r = ins → Φ r (w.core r).timers ins t outs →
      Φ r ((w.core r).timers.propose nowMs p) ins t
        (outs ++ [.proposal (w.core r).nextProposalId p]))
    (hexpire : ∀ r nowMs ins t outs, a = .call r (.timer nowMs .renegotiationTimeout) →
      (w.core r).pastExpiry nowMs → Φ r (w.core r).timers ins t outs →
      Φ r (w.core r).timers.rollBack ins t outs)
    (hrecv : ∀ r s tlv ins t outs, Φ r s (tlv :: ins) t outs →
      Φ r (s.on tlv) ins t (outs ++ s.answers tlv))
    (h : ∀ r, w.renegotiation.Sides Φ r) (r : Role) : v.Sides Φ r := by
  cases hturn with
  | same => exact h r
  | propose q nowMs p ha hcan =>
    exact .all hsymm (.commit (hpropose q nowMs p _ _ _ ha hcan rfl (h q))) r
  | expire q nowMs ha hpast =>
    refine .all hsymm (q := q) (.commit ?_) r
    rw [List.append_nil]
    exact hexpire q nowMs _ _ _ ha hpast (h q)
  | recv q i j x p tlv ha hp ht hj htlv =>
    have hi : i = 0 := by
      subst ha
      exact hfifo
    have hj : j = 0 := by omega
    subst hj
    obtain ⟨rest, hrest⟩ : ∃ rest, w.renegotiation.inbox q = tlv :: rest := by
      cases hl : w.renegotiation.inbox q with
      | nil => simp [hl] at htlv
      | cons u rest =>
        rw [hl, List.getElem?_cons_zero, Option.some.injEq] at htlv
        exact ⟨rest, by rw [htlv]⟩
    have hq := h q
    rw [Renegotiation.Sides, hrest] at hq
    have hnew : Φ q ((w.core q).timers.on tlv) rest (w.renegotiation.core q.peer)
        (w.renegotiation.inbox q.peer ++ (w.core q).timers.answers tlv) :=
      hrecv q _ tlv rest _ _ hq
    refine .all hsymm (q := q) (.commit ?_) r
    have hne := q.peer_ne
    simpa [Net.remove, hrest, hne] using hnew
  | drop q i j ha =>
    subst ha
    exact absurd hfifo id
  | duplicate q i j tlv ha =>
    subst ha
    exact absurd hfifo id

end Sides

/-- A run over FIFO channels from two joined machines keeps what the steps of the
renegotiation keep. -/
theorem World.Joined.invariant
    {Φ : Role → Timers → List TimerTlv → Timers → List TimerTlv → Prop} {cid : UInt64}
    {w₀ w : World} {h : WorldHistory} (hjoined : w₀.Joined cid)
    (hrun : Run World.step w₀ h w) (hfifo : ∀ t ∈ h, Fifo t.input)
    (hsymm : ∀ r s ins t outs, Φ r s ins t outs → Φ r.peer t outs s ins)
    (hstart : ∀ r (s t : Timers), s.cfg = t.cfg → s.pending = none → t.pending = none →
      Φ r s [] t [])
    (hpropose : ∀ t ∈ h, ∀ r nowMs p (v : Talk) u outs, t.pre = v.toWorld cid → v.Clean cid →
      t.input = .call r (.proposeTimers nowMs p) → (v.core r).canPropose p →
      Φ r (v.core r).timers (v.renegotiation.inbox r) u outs →
      Φ r ((v.core r).timers.propose nowMs p) (v.renegotiation.inbox r) u
        (outs ++ [.proposal (v.core r).nextProposalId p]))
    (hexpire : ∀ t ∈ h, ∀ r nowMs (v : Talk) ins u outs, t.pre = v.toWorld cid →
      t.input = .call r (.timer nowMs .renegotiationTimeout) → (v.core r).pastExpiry nowMs →
      Φ r (v.core r).timers ins u outs → Φ r (v.core r).timers.rollBack ins u outs)
    (hrecv : ∀ r s tlv ins t outs, Φ r s (tlv :: ins) t outs →
      Φ r (s.on tlv) ins t (outs ++ s.answers tlv)) :
    ∃ v : Talk, v.Clean cid ∧ w = v.toWorld cid ∧ ∀ r, v.renegotiation.Sides Φ r := by
  have hnil : ∀ r, w₀.inbox r = [] := hjoined.quiet
  have hw₀ : w₀ = Talk.toWorld cid ⟨w₀.core, fun _ => []⟩ :=
    Net.ext rfl (funext fun r => by rw [hnil]; rfl)
  have hclean : Talk.Clean cid ⟨w₀.core, fun _ => []⟩ :=
    ⟨hjoined.cid, fun _ _ hp => absurd hp List.not_mem_nil⟩
  rw [hw₀] at hrun
  have hinv := World.talk_invariant hclean
    (I := fun g v => (∀ t ∈ g, t ∈ h) → ∀ r, v.renegotiation.Sides Φ r) ?_ ?_ hrun
  · obtain ⟨v, hv, hw, hsides⟩ := hinv
    exact ⟨v, hv, hw, hsides fun _ ht => ht⟩
  · refine fun _ => Renegotiation.Sides.all hsymm (q := .client) ?_
    exact hstart .client _ _ hjoined.cfg (hjoined.pending .client) (hjoined.pending .server)
  · intro g v a v' o hv hs ih hsub
    have hlast := hsub ⟨v.toWorld cid, a, o, v'.toWorld cid⟩ (by simp)
    have hsides := ih fun t ht => hsub t (List.mem_append_left _ ht)
    refine (hv.turn hs).keeps (hfifo _ hlast) hsymm ?_ ?_ hrecv hsides
    · rintro r nowMs p ins t outs ha hcan rfl hΦ
      exact hpropose _ hlast r nowMs p v t outs rfl hv ha hcan hΦ
    · intro r nowMs ins t outs ha hpast hΦ
      exact hexpire _ hlast r nowMs v ins t outs rfl ha hpast hΦ

theorem Talk.renegotiation_quiet {cid : UInt64} {v : Talk} (hquiet : (v.toWorld cid).Quiet)
    (r : Role) : v.renegotiation.inbox r = [] := by
  have hnil := hquiet r
  simp only [Talk.toWorld, Net.map, List.map_eq_nil_iff] at hnil
  simp [Talk.renegotiation, hnil]

/-! ### One proposer -/

/-- Proposals that are accepted one after the other, from `cfg` to `cfg'`. -/
inductive Offers : CoreConfig → List TimerTlv → CoreConfig → Prop
  | nil (cfg : CoreConfig) : Offers cfg [] cfg
  | cons {cfg cfg' : CoreConfig} {tlvs : List TimerTlv} (id : UInt32) {p : TimerProposal}
      (hok : (validateTimerProposal cfg p).isOk) (hrest : Offers p.toConfig tlvs cfg') :
      Offers cfg (.proposal id p :: tlvs) cfg'

theorem Offers.snoc {cfg cfg' : CoreConfig} {tlvs : List TimerTlv} (h : Offers cfg tlvs cfg')
    (id : UInt32) {p : TimerProposal} (hok : (validateTimerProposal cfg' p).isOk) :
    Offers cfg (tlvs ++ [.proposal id p]) p.toConfig := by
  induction h with
  | nil cfg => exact .cons id hok (.nil _)
  | cons id' hok' _ ih => exact .cons id' hok' (ih hok)

theorem Offers.eq_of_nil {cfg cfg' : CoreConfig} (h : Offers cfg [] cfg') : cfg = cfg' := by
  cases h
  rfl

/-- The timers an end comes to when its pending proposal is accepted. -/
def Timers.goal (t : Timers) : CoreConfig :=
  t.pending.elim t.cfg fun pending => pending.proposal.toConfig

/-- `s` proposes and `t` accepts: every ack on its way to `s` accepts, and the proposals on
their way to `t` lead it where `s` is going. -/
structure Courting (s : Timers) (ins : List TimerTlv) (t : Timers) (outs : List TimerTlv) :
    Prop where
  acks : ∀ tlv ∈ ins, ∃ id, tlv = .ack id true
  none : t.pending = none
  offers : Offers t.cfg outs s.goal

section Courting
variable {s t : Timers} {ins outs : List TimerTlv} {tlv : TimerTlv}

theorem Courting.propose (h : Courting s ins t outs) (hnone : s.pending = .none) (nowMs : UInt64)
    {p : TimerProposal} (hok : (validateTimerProposal s.cfg p).isOk) (id : UInt32) :
    Courting (s.propose nowMs p) ins t (outs ++ [.proposal id p]) := by
  have hgoal : s.goal = s.cfg := by rw [Timers.goal, hnone, Option.elim_none]
  have hoffers := h.offers
  rw [hgoal] at hoffers
  exact ⟨h.acks, h.none, hoffers.snoc id hok⟩

/-- An ack brings the proposer to its goal, or is of no concern to it. -/
theorem Courting.acked (h : Courting s (tlv :: ins) t outs) :
    Courting (s.on tlv) ins t (outs ++ s.answers tlv) := by
  obtain ⟨id, rfl⟩ := h.acks tlv List.mem_cons_self
  have hnone : s.answers (.ack id true) = [] := rfl
  have hgoal : (s.on (.ack id true)).goal = s.goal := by
    unfold Timers.on
    cases hp : s.pending with
    | none => rfl
    | some pending =>
      by_cases hid : pending.proposalId = id
      · simp [hid, Timers.goal, hp]
      · simp [hid]
  rw [hnone, List.append_nil]
  exact ⟨fun u hu => h.acks u (List.mem_cons_of_mem _ hu), h.none, by rw [hgoal]; exact h.offers⟩

theorem Courting.offered (h : Courting s ins t (tlv :: outs)) :
    Courting s (ins ++ t.answers tlv) (t.on tlv) outs := by
  obtain ⟨hacks, hnone, hoffers⟩ := h
  cases hoffers with
  | @cons cfg cfg' tlvs id p hok hrest =>
    have hon : t.on (.proposal id p) = { t with cfg := p.toConfig } := by rw [Timers.on, if_pos hok]
    have hans : t.answers (.proposal id p) = [.ack id true] := by rw [Timers.answers, hok]
    rw [hon, hans]
    refine ⟨fun u hu => ?_, hnone, hrest⟩
    rcases List.mem_append.mp hu with hold | hnew
    · exact hacks u hold
    · exact ⟨id, List.mem_singleton.mp hnew⟩

end Courting

/-- The same, whichever of the two ends it is told of. -/
def Courted : Role → Timers → List TimerTlv → Timers → List TimerTlv → Prop
  | .client, s, ins, t, outs => Courting s ins t outs
  | .server, t, outs, s, ins => Courting s ins t outs

/-- With one proposer, the two ends have the same timers whenever nothing is in flight and
nothing pending, over every run in which no proposal is taken back that would have changed
the proposer's timers. -/
theorem single_proposer_agrees {cid : UInt64} {w₀ w : World} {h : WorldHistory}
    (hjoined : w₀.Joined cid) (hrun : Run World.step w₀ h w) (hfifo : ∀ t ∈ h, Fifo t.input)
    (hsole : ∀ t ∈ h, proposedAt .server t = none)
    (hone : ∀ t ∈ h, proposedAt .client t ≠ none →
      (t.pre.core .client).pendingLocalProposal = none)
    (hkept : ∀ t ∈ h, ∀ pending ∈ rolledBackAt .client t,
      pending.proposal.toConfig = (t.pre.core .client).cfg)
    (hquiet : w.Quiet) (hnone : ∀ r, (w.core r).pendingLocalProposal = none) :
    (w.core .client).cfg = (w.core .server).cfg := by
  have hinv : ∃ v : Talk, v.Clean cid ∧ w = v.toWorld cid ∧
      ∀ r, v.renegotiation.Sides Courted r := by
    refine hjoined.invariant hrun hfifo ?_ ?_ ?_ ?_ ?_
    · intro r s ins t outs h
      cases r <;> exact h
    · intro r s t hcfg hs ht
      cases r with
      | client => exact ⟨by simp, ht, by simp [Timers.goal, hs, hcfg, Offers.nil]⟩
      | server => exact ⟨by simp, hs, by simp [Timers.goal, ht, hcfg, Offers.nil]⟩
    · intro t ht r nowMs p v u outs hpre _ ha hcan hΦ
      have hcore : t.pre.core r = v.core r := by rw [hpre]; rfl
      have hproposed : proposedAt r t = some p := proposedAt_call ha (hcore ▸ hcan)
      cases r with
      | client =>
        have hpending := hone t ht (by simp [hproposed])
        rw [hcore] at hpending
        exact Courting.propose hΦ hpending nowMs hcan.2 _
      | server => simp [hsole t ht] at hproposed
    · intro t ht r nowMs v ins u outs hpre ha hpast hΦ
      have hcore : t.pre.core r = v.core r := by rw [hpre]; rfl
      obtain ⟨pending, hpending, -⟩ := (Option.any_eq_true _ _).mp hpast
      cases r with
      | client =>
        have hrolled := rolledBackAt_call ha (hcore ▸ hpast)
        rw [hcore] at hrolled
        have hsame := hkept t ht pending (hrolled.trans hpending)
        rw [hcore] at hsame
        have hp : (v.core .client).timers.pending = some pending := hpending
        have hgoal : (v.core .client).timers.goal = (v.core .client).timers.rollBack.goal := by
          rw [Timers.goal, hp, Option.elim_some, hsame]
          rfl
        have hc : Courting (v.core .client).timers ins u outs := hΦ
        exact ⟨hc.acks, hc.none, hgoal ▸ hc.offers⟩
      | server =>
        have hc : Courting u outs (v.core .server).timers ins := hΦ
        have hp : (v.core .server).pendingLocalProposal = none := hc.none
        simp [hp] at hpending
    · intro r s tlv ins t outs hΦ
      cases r with
      | client => exact Courting.acked hΦ
      | server => exact Courting.offered hΦ
  obtain ⟨v, -, rfl, hsides⟩ := hinv
  have h : Courting (v.core .client).timers (v.renegotiation.inbox .client)
      (v.core .server).timers (v.renegotiation.inbox .server) := hsides .client
  have hgoal : (v.core .client).timers.goal = (v.core .client).cfg := by
    have hp : (v.core .client).timers.pending = none := hnone .client
    rw [Timers.goal, hp, Option.elim_none]
    rfl
  have hoffers := h.offers
  rw [Talk.renegotiation_quiet hquiet, hgoal] at hoffers
  exact hoffers.eq_of_nil.symm

def afterHandshake : World :=
  ((exec World.step (World.start 7 fun _ => .default) shakeHands).map Prod.snd).getD
    (World.start 7 fun _ => .default)

theorem afterHandshake_joined : afterHandshake.Joined 7 := by
  have hall : ∀ r, (afterHandshake.core r).cid = 7 ∧ (afterHandshake.core r).role = r ∧
      (afterHandshake.core r).state = .established ∧ (afterHandshake.core r).cfg = .default ∧
      (afterHandshake.core r).pendingLocalProposal = none ∧ afterHandshake.inbox r = [] := by
    intro r
    cases r <;> decide +kernel
  exact ⟨fun r => (hall r).1, fun r => (hall r).2.1, fun r => (hall r).2.2.1,
    (hall .client).2.2.2.1.trans (hall .server).2.2.2.1.symm, fun r => (hall r).2.2.2.2.1,
    fun r => (hall r).2.2.2.2.2⟩

/-- Nothing in flight and nothing pending, as it can be computed. -/
def World.idle (w : World) : Bool :=
  (w.inbox .client).isEmpty && (w.inbox .server).isEmpty &&
    (w.core .client).pendingLocalProposal.isNone && (w.core .server).pendingLocalProposal.isNone

theorem World.idle_iff {w : World} :
    w.idle ↔ w.Quiet ∧ ∀ r, (w.core r).pendingLocalProposal = none := by
  simp only [World.idle, Bool.and_eq_true, List.isEmpty_iff, Option.isNone_iff_eq_none]
  constructor
  · rintro ⟨⟨⟨hc, hs⟩, hc'⟩, hs'⟩
    exact ⟨fun r => by cases r <;> assumption, fun r => by cases r <;> assumption⟩
  · rintro ⟨hquiet, hnone⟩
    exact ⟨⟨⟨hquiet .client, hquiet .server⟩, hnone .client⟩, hnone .server⟩

def unchangedTimers : TimerProposal := ⟨15000, 3, 180000⟩
def slowerTimers : TimerProposal := ⟨30000, 3, 180000⟩

/-- The client takes a proposal back that asks for what it has, and makes another. -/
def renewing : List Move :=
  [.call .client (.proposeTimers 10 unchangedTimers),
    .call .client (.timer 30010 .renegotiationTimeout),
    .call .client (.proposeTimers 30010 fasterTimers), .deliver .server 0 ⟨30011, 0⟩,
    .deliver .client 0 ⟨30012, 0⟩, .deliver .server 0 ⟨30013, 0⟩, .deliver .client 0 ⟨30014, 0⟩]

/-- The ack comes after the client has taken its proposal back. -/
def lateAck : List Move :=
  [.call .client (.proposeTimers 10 fasterTimers),
    .call .client (.timer 30010 .renegotiationTimeout), .deliver .server 0 ⟨30011, 0⟩,
    .deliver .client 0 ⟨30012, 0⟩]

theorem fifo_of_exec {w₀ w : World} {as : List Move} {h : WorldHistory}
    (hexec : exec World.step w₀ as = some (h, w)) (has : ∀ a ∈ as, Fifo a) :
    ∀ t ∈ h, Fifo t.input := by
  intro t ht
  refine has _ ?_
  rw [← exec_inputs hexec]
  exact List.mem_map_of_mem ht

theorem renewing_agrees :
    ∃ h w, exec World.step afterHandshake renewing = some (h, w) ∧
      (∃ t ∈ h, rolledBackAt .client t ≠ none) ∧ w.idle ∧
      (w.core .client).cfg = (w.core .server).cfg := by
  have hexec : (exec World.step afterHandshake renewing).any (fun x =>
      decide ((∃ t ∈ x.1, rolledBackAt .client t ≠ none) ∧
        (∀ t ∈ x.1, proposedAt .server t = none ∧
          (proposedAt .client t ≠ none → (t.pre.core .client).pendingLocalProposal = none) ∧
          ∀ pending ∈ rolledBackAt .client t,
            pending.proposal.toConfig = (t.pre.core .client).cfg) ∧ x.2.idle)) = true := by
    decide +kernel
  obtain ⟨⟨h, w⟩, hexec, hx⟩ := (Option.any_eq_true _ _).mp hexec
  obtain ⟨hrolled, hall, hidle⟩ := of_decide_eq_true hx
  have hfifo := fifo_of_exec hexec (by simp [renewing, Fifo])
  exact ⟨h, w, hexec, hrolled, hidle, single_proposer_agrees afterHandshake_joined
    (Run.of_exec hexec) hfifo (fun t ht => (hall t ht).1) (fun t ht => (hall t ht).2.1)
    (fun t ht => (hall t ht).2.2) (World.idle_iff.mp hidle).1 (World.idle_iff.mp hidle).2⟩

theorem lateAck_disagrees :
    ¬ ∀ (cid : UInt64) (w₀ w : World) (h : WorldHistory), w₀.Joined cid →
      Run World.step w₀ h w → (∀ t ∈ h, Fifo t.input) → (∀ t ∈ h, proposedAt .server t = none) →
        (∀ t ∈ h, proposedAt .client t ≠ none →
          (t.pre.core .client).pendingLocalProposal = none) →
        w.Quiet → (∀ r, (w.core r).pendingLocalProposal = none) →
          (w.core .client).cfg = (w.core .server).cfg := by
  intro hclaim
  have hexec : (exec World.step afterHandshake lateAck).any (fun x =>
      decide ((∀ t ∈ x.1, proposedAt .server t = none ∧
          (proposedAt .client t ≠ none → (t.pre.core .client).pendingLocalProposal = none)) ∧
        x.2.idle ∧ (x.2.core .client).cfg ≠ (x.2.core .server).cfg)) = true := by
    decide +kernel
  obtain ⟨⟨h, w⟩, hexec, hx⟩ := (Option.any_eq_true _ _).mp hexec
  obtain ⟨hall, hidle, hne⟩ := of_decide_eq_true hx
  have hfifo := fifo_of_exec hexec (by simp [lateAck, Fifo])
  exact hne (hclaim 7 _ w h afterHandshake_joined (Run.of_exec hexec) hfifo
    (fun t ht => (hall t ht).1) (fun t ht => (hall t ht).2) (World.idle_iff.mp hidle).1
    (World.idle_iff.mp hidle).2)

/-! ### Two proposers -/

/-- How far a renegotiation has come between two ends whose proposals do not cross, unless
they ask for the same timers. `n` and `m` are the ids of their next proposals, `a` and `b`
their pending proposals. -/
inductive Phase : Timers → List TimerTlv → Timers → List TimerTlv → Prop
  | calm (cfg : CoreConfig) (n m : UInt32) : Phase ⟨cfg, n, none⟩ [] ⟨cfg, m, none⟩ []
  | asked (cfg : CoreConfig) (n m : UInt32) (a : PendingRenegotiation)
      (hok : (validateTimerProposal cfg a.proposal).isOk) :
      Phase ⟨cfg, n, some a⟩ [] ⟨cfg, m, none⟩ [.proposal a.proposalId a.proposal]
  | answered (cfg : CoreConfig) (n m : UInt32) (a : PendingRenegotiation) :
      Phase ⟨cfg, n, some a⟩ [.ack a.proposalId true] ⟨a.proposal.toConfig, m, none⟩ []
  | relayed (cfg : CoreConfig) (n m : UInt32) (a b : PendingRenegotiation)
      (hok : (validateTimerProposal a.proposal.toConfig b.proposal).isOk) :
      Phase ⟨cfg, n, some a⟩ [.ack a.proposalId true, .proposal b.proposalId b.proposal]
        ⟨a.proposal.toConfig, m, some b⟩ []
  | crossed (cfg : CoreConfig) (n m : UInt32) (a b : PendingRenegotiation)
      (hsame : a.proposal = b.proposal) (hok : (validateTimerProposal cfg b.proposal).isOk) :
      Phase ⟨cfg, n, some a⟩ [.proposal b.proposalId b.proposal]
        ⟨cfg, m, some b⟩ [.proposal a.proposalId a.proposal]
  | halfway (cfg : CoreConfig) (n m : UInt32) (a b : PendingRenegotiation)
      (hsame : a.proposal = b.proposal) (hok : (validateTimerProposal cfg b.proposal).isOk) :
      Phase ⟨cfg, n, some a⟩ [.proposal b.proposalId b.proposal, .ack a.proposalId true]
        ⟨a.proposal.toConfig, m, some b⟩ []
  | met (n m : UInt32) (a b : PendingRenegotiation) (hsame : a.proposal = b.proposal) :
      Phase ⟨b.proposal.toConfig, n, some a⟩ [.ack a.proposalId true]
        ⟨a.proposal.toConfig, m, some b⟩ [.ack b.proposalId true]

/-- A phase, told of either end. -/
def Phased (_ : Role) (s : Timers) (ins : List TimerTlv) (t : Timers) (outs : List TimerTlv) :
    Prop :=
  Phase s ins t outs ∨ Phase t outs s ins

section Phased
variable {r : Role} {s t : Timers} {ins outs : List TimerTlv} {tlv : TimerTlv}

theorem Timers.on_accepted (s : Timers) {p : TimerProposal}
    (hok : (validateTimerProposal s.cfg p).isOk) (id : UInt32) : s.on (.proposal id p) = { s with cfg := p.toConfig } := by
  rw [Timers.on, if_pos hok]

theorem Timers.answers_accepted (s : Timers) {p : TimerProposal}
    (hok : (validateTimerProposal s.cfg p).isOk) (id : UInt32) : s.answers (.proposal id p) = [.ack id true] := by
  rw [Timers.answers, hok]

theorem Timers.on_acked {a : PendingRenegotiation} (h : s.pending = some a) :
    s.on (.ack a.proposalId true) = { s with cfg := a.proposal.toConfig, pending := none } := by
  simp [Timers.on, h]

theorem Phased.hear (h : Phased r s (tlv :: ins) t outs) :
    Phased r (s.on tlv) ins t (outs ++ s.answers tlv) := by
  rcases h with h | h
  · cases h with
    | answered cfg n m a =>
      rw [Timers.on_acked rfl]
      exact .inl (.calm _ n m)
    | relayed cfg n m a b hok =>
      rw [Timers.on_acked rfl]
      exact .inr (.asked _ m n b hok)
    | crossed cfg n m a b hsame hok =>
      rw [Timers.on_accepted ⟨cfg, n, some a⟩ hok, Timers.answers_accepted ⟨cfg, n, some a⟩ hok]
      exact .inr (.halfway cfg m n b a hsame.symm (hsame ▸ hok))
    | halfway cfg n m a b hsame hok =>
      rw [Timers.on_accepted ⟨cfg, n, some a⟩ hok, Timers.answers_accepted ⟨cfg, n, some a⟩ hok]
      exact .inl (.met n m a b hsame)
    | met n m a b hsame =>
      rw [Timers.on_acked rfl, hsame]
      exact .inr (.answered _ m n b)
  · cases h with
    | asked cfg n m a hok =>
      rw [Timers.on_accepted ⟨cfg, m, none⟩ hok, Timers.answers_accepted ⟨cfg, m, none⟩ hok]
      exact .inr (.answered cfg n m a)
    | crossed cfg n m a b hsame hok =>
      have hok' : (validateTimerProposal cfg a.proposal).isOk := hsame ▸ hok
      rw [Timers.on_accepted ⟨cfg, m, some b⟩ hok', Timers.answers_accepted ⟨cfg, m, some b⟩ hok']
      exact .inr (.halfway cfg n m a b hsame hok)
    | met n m a b hsame =>
      rw [Timers.on_acked rfl, ← hsame]
      exact .inr (.answered _ n m a)

/-- A proposal starts a phase, relays the one before it, or crosses one for the same timers. -/
theorem Phased.propose (h : Phased r s ins t outs) (hnone : s.pending = none) (nowMs : UInt64)
    {p : TimerProposal} (hok : (validateTimerProposal s.cfg p).isOk)
    (hcross : ∀ id q, .proposal id q ∈ ins → q = p) :
    Phased r (s.propose nowMs p) ins t (outs ++ [.proposal s.nextProposalId p]) := by
  rcases h with h | h
  · cases h with
    | calm cfg n m => exact .inl (.asked cfg _ m ⟨n, p, _⟩ hok)
    | asked | answered | relayed | crossed | halfway | met => simp at hnone
  · cases h with
    | calm cfg n m => exact .inl (.asked cfg _ n ⟨m, p, _⟩ hok)
    | asked cfg n m a hok' =>
      have hsame : a.proposal = p := hcross a.proposalId a.proposal List.mem_cons_self
      exact .inr (.crossed cfg n _ a ⟨m, p, _⟩ hsame hok)
    | answered cfg n m a => exact .inr (.relayed cfg n _ a ⟨m, p, _⟩ hok)
    | relayed | crossed | halfway | met => simp at hnone

theorem Phased.agree (h : Phased r s [] t []) (hs : s.pending = none) : s.cfg = t.cfg := by
  rcases h with h | h
  · cases h with
    | calm => rfl
  · cases h with
    | calm => rfl

end Phased

/-- With two proposers, neither of which takes a proposal back, the two ends have the same
timers whenever nothing is in flight and nothing pending, over every run in which a machine
proposes only what its peer's proposals on their way to it ask for too. -/
theorem two_proposers_agree {cid : UInt64} {w₀ w : World} {h : WorldHistory}
    (hjoined : w₀.Joined cid) (hrun : Run World.step w₀ h w) (hfifo : ∀ t ∈ h, Fifo t.input)
    (hone : ∀ t ∈ h, ∀ r, proposedAt r t ≠ none → (t.pre.core r).pendingLocalProposal = none)
    (hkept : ∀ t ∈ h, ∀ r, rolledBackAt r t = none)
    (hcross : ∀ t ∈ h, ∀ r, ∀ p ∈ proposedAt r t, ∀ q ∈ offeredAt r t, q = p)
    (hquiet : w.Quiet) (hnone : ∀ r, (w.core r).pendingLocalProposal = none) :
    (w.core .client).cfg = (w.core .server).cfg := by
  have hinv : ∃ v : Talk, v.Clean cid ∧ w = v.toWorld cid ∧
      ∀ r, v.renegotiation.Sides Phased r := by
    refine hjoined.invariant hrun hfifo ?_ ?_ ?_ ?_ ?_
    · exact fun r s ins t outs h => h.symm
    · rintro r ⟨cfg, n, pending⟩ ⟨cfg', m, pending'⟩ rfl rfl rfl
      exact .inl (.calm cfg n m)
    · intro t ht r nowMs p v u outs hpre hv ha hcan hΦ
      have hcore : t.pre.core r = v.core r := by rw [hpre]; rfl
      have hproposed : proposedAt r t = some p := proposedAt_call ha (hcore ▸ hcan)
      have hpending := hone t ht r (by simp [hproposed])
      rw [hcore] at hpending
      refine Phased.propose hΦ hpending nowMs hcan.2 fun id q hq => ?_
      obtain ⟨packet, hpacket, htimer⟩ := List.mem_filterMap.mp hq
      have hread := timerTlvs_bytes (v.core r) (hv.flight r packet hpacket)
      rw [hv.ends r, htimer] at hread
      refine hcross t ht r p hproposed q (List.mem_filterMap.mpr ⟨.proposal id q, ?_, rfl⟩)
      refine List.mem_flatMap.mpr ⟨packet.bytes cid, ?_, ?_⟩
      · rw [hpre]
        exact List.mem_map_of_mem hpacket
      · rw [hcore, hread]
        simp
    · intro t ht r nowMs v ins u outs hpre ha hpast hΦ
      have hcore : t.pre.core r = v.core r := by rw [hpre]; rfl
      have hrolled := rolledBackAt_call ha (hcore ▸ hpast)
      rw [hkept t ht r, hcore] at hrolled
      simp [CoreMachine.pastExpiry, ← hrolled] at hpast
    · exact fun r s tlv ins t outs hΦ => Phased.hear hΦ
  obtain ⟨v, -, rfl, hsides⟩ := hinv
  have h : Phased .client (v.core .client).timers (v.renegotiation.inbox .client)
      (v.core .server).timers (v.renegotiation.inbox .server) := hsides .client
  rw [Talk.renegotiation_quiet hquiet, Talk.renegotiation_quiet hquiet] at h
  exact h.agree (hnone .client)

theorem Role.mem_both (r : Role) : r ∈ [Role.client, Role.server] := by
  cases r <;> simp

/-- Both propose before they have heard of each other. -/
def crossing (p q : TimerProposal) : List Move :=
  [.call .client (.proposeTimers 10 p), .call .server (.proposeTimers 10 q),
    .deliver .server 0 ⟨11, 0⟩, .deliver .client 0 ⟨11, 0⟩, .deliver .client 0 ⟨12, 0⟩,
    .deliver .server 0 ⟨12, 0⟩]

theorem crossing_fifo (p q : TimerProposal) : ∀ a ∈ crossing p q, Fifo a := by
  simp [crossing, Fifo]

theorem alikeCrossing_agrees :
    ∃ h w, exec World.step afterHandshake (crossing fasterTimers fasterTimers) = some (h, w) ∧
      (∃ t ∈ h, ∃ p ∈ proposedAt .server t, p ∈ offeredAt .server t) ∧ w.idle ∧
      (w.core .client).cfg = (w.core .server).cfg := by
  have hexec : (exec World.step afterHandshake (crossing fasterTimers fasterTimers)).any (fun x =>
      decide ((∃ t ∈ x.1, fasterTimers ∈ proposedAt .server t ∧
          fasterTimers ∈ offeredAt .server t) ∧
        (∀ t ∈ x.1, ∀ r ∈ [Role.client, Role.server],
          (proposedAt r t ≠ none → (t.pre.core r).pendingLocalProposal = none) ∧
          rolledBackAt r t = none ∧ ∀ p ∈ proposedAt r t, ∀ q ∈ offeredAt r t, q = p) ∧
        x.2.idle)) = true := by
    decide +kernel
  obtain ⟨⟨h, w⟩, hexec, hx⟩ := (Option.any_eq_true _ _).mp hexec
  obtain ⟨⟨t, ht, hp, hoffered⟩, hall, hidle⟩ := of_decide_eq_true hx
  exact ⟨h, w, hexec, ⟨t, ht, _, hp, hoffered⟩, hidle, two_proposers_agree afterHandshake_joined
    (Run.of_exec hexec) (fifo_of_exec hexec (crossing_fifo _ _))
    (fun t ht r => (hall t ht r r.mem_both).1) (fun t ht r => (hall t ht r r.mem_both).2.1)
    (fun t ht r => (hall t ht r r.mem_both).2.2) (World.idle_iff.mp hidle).1
    (World.idle_iff.mp hidle).2⟩

theorem crossing_disagrees :
    ¬ ∀ (cid : UInt64) (w₀ w : World) (h : WorldHistory), w₀.Joined cid →
      Run World.step w₀ h w → (∀ t ∈ h, Fifo t.input) →
        (∀ t ∈ h, ∀ r, proposedAt r t ≠ none → (t.pre.core r).pendingLocalProposal = none) →
        (∀ t ∈ h, ∀ r, rolledBackAt r t = none) →
        w.Quiet → (∀ r, (w.core r).pendingLocalProposal = none) →
          (w.core .client).cfg = (w.core .server).cfg := by
  intro hclaim
  have hexec : (exec World.step afterHandshake (crossing fasterTimers slowerTimers)).any (fun x =>
      decide ((∀ t ∈ x.1, ∀ r ∈ [Role.client, Role.server],
          (proposedAt r t ≠ none → (t.pre.core r).pendingLocalProposal = none) ∧
          rolledBackAt r t = none) ∧
        x.2.idle ∧ (x.2.core .client).cfg ≠ (x.2.core .server).cfg)) = true := by
    decide +kernel
  obtain ⟨⟨h, w⟩, hexec, hx⟩ := (Option.any_eq_true _ _).mp hexec
  obtain ⟨hall, hidle, hne⟩ := of_decide_eq_true hx
  exact hne (hclaim 7 _ w h afterHandshake_joined (Run.of_exec hexec)
    (fifo_of_exec hexec (crossing_fifo _ _)) (fun t ht r => (hall t ht r r.mem_both).1)
    (fun t ht r => (hall t ht r r.mem_both).2) (World.idle_iff.mp hidle).1
    (World.idle_iff.mp hidle).2)

end Todero.Core
