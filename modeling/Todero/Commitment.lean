import Todero.Renegotiation
import Todero.Stream

/-! Two machines over a network that may do anything with their datagrams: a machine
commits a proposal of its own only after its peer has taken the same timers over. -/
namespace Todero.Core
open Todero.Wire Transition Duplex

/-! ### A run over bytes, seen over packets -/

theorem Talk.Clean.reads_iff {cid : UInt64} {v : Talk} (hv : v.Clean cid)
    {t : Taken World Move (Option CallResult)} (ht : t.pre = v.toWorld cid) {r : Role}
    {tlv : TimerTlv} :
    Reads r t tlv ↔ ∃ i x p, t.input = .deliver r i x ∧ (v.inbox r)[i]? = some p ∧
      p.timer = some tlv := by
  have hread : ∀ p ∈ v.inbox r, (v.core r).timerTlvs (p.bytes cid) = p.timer.toList := by
    intro p hp
    have h := timerTlvs_bytes (v.core r) (hv.flight r p hp)
    rwa [hv.ends r] at h
  have hinbox : ∀ i : Nat, ((v.toWorld cid).inbox r)[i]? = (v.inbox r)[i]?.map (Packet.bytes cid) :=
    fun i => List.getElem?_map
  unfold Reads
  rw [ht]
  constructor
  · rintro ⟨i, x, bytes, ha, hbytes, hmem⟩
    rw [hinbox, Option.map_eq_some_iff] at hbytes
    obtain ⟨p, hp, rfl⟩ := hbytes
    have hmem' : tlv ∈ (v.core r).timerTlvs (p.bytes cid) := hmem
    rw [hread p (List.mem_of_getElem? hp), Option.mem_toList] at hmem'
    exact ⟨i, x, p, ha, hp, hmem'⟩
  · rintro ⟨i, x, p, ha, hp, htimer⟩
    refine ⟨i, x, p.bytes cid, ha, by rw [hinbox, hp]; rfl, ?_⟩
    show tlv ∈ (v.core r).timerTlvs (p.bytes cid)
    rw [hread p (List.mem_of_getElem? hp), Option.mem_toList]
    exact htimer

/-- A timer TLV that is worked off does to the timers what it says. -/
theorem Talk.Clean.reads_timers {cid : UInt64} {v v' : Talk} (hv : v.Clean cid) {a : Move}
    {o : Option CallResult} (hs : v.step a = some (v', o)) {r : Role} {tlv : TimerTlv}
    (hread : Reads r ⟨v.toWorld cid, a, o, v'.toWorld cid⟩ tlv) :
    (v'.core r).timers = (v.core r).timers.on tlv := by
  obtain ⟨i, x, p, ha, hp, ht⟩ := (hv.reads_iff rfl).mp hread
  have ha' : a = .deliver r i x := ha
  subst ha'
  cases hv.moves hs r with
  | idle hactor => exact absurd rfl hactor
  | call k res ha => exact absurd ha (by simp)
  | recv i' x' p' res ha _ hp' hears =>
    simp only [Action.deliver.injEq, true_and] at ha
    obtain ⟨rfl, rfl⟩ := ha
    obtain rfl := Option.some.inj (hp.symm.trans hp')
    rw [hears.timers, CoreMachine.timersOn, ht]

/-! ### Numbers of proposals -/

/-- `p` is number `id` of the proposals `ps`, which are numbered from 1. -/
def Numbered (ps : List TimerProposal) (id : UInt32) (p : TimerProposal) : Prop :=
  ∃ i, id.toNat = i + 1 ∧ ps[i]? = some p

theorem Numbered.unique {ps : List TimerProposal} {id : UInt32} {p q : TimerProposal}
    (hp : Numbered ps id p) (hq : Numbered ps id q) : p = q := by
  obtain ⟨i, hi, hp⟩ := hp
  obtain ⟨j, hj, hq⟩ := hq
  have hij : i = j := by omega
  subst hij
  exact Option.some.inj (hp.symm.trans hq)

theorem Numbered.append {ps : List TimerProposal} {id : UInt32} {p : TimerProposal}
    (h : Numbered ps id p) (qs : List TimerProposal) : Numbered (ps ++ qs) id p := by
  obtain ⟨i, hi, hp⟩ := h
  have hlt : i < ps.length := (List.getElem?_eq_some_iff.mp hp).1
  exact ⟨i, hi, by rw [List.getElem?_append_left hlt, hp]⟩

theorem Numbered.last {ps : List TimerProposal} {id : UInt32} {p : TimerProposal}
    (h : id.toNat = ps.length + 1) : Numbered (ps ++ [p]) id p :=
  ⟨ps.length, h, by simp⟩

section Timers
variable (t : Timers) (tlv : TimerTlv)

theorem Timers.on_next : (t.on tlv).nextProposalId = t.nextProposalId := by
  cases tlv with
  | proposal id p =>
    simp only [Timers.on]
    split_ifs <;> rfl
  | ack id accepted =>
    simp only [Timers.on]
    split
    · rfl
    · split_ifs <;> rfl

theorem Timers.pending_of_on {pending : PendingRenegotiation}
    (h : (t.on tlv).pending = some pending) : t.pending = some pending := by
  rw [Timers.on_pending] at h
  split_ifs at h
  exact h

end Timers

theorem mem_answers {t : Timers} {tlv a : TimerTlv} (h : a ∈ t.answers tlv) :
    ∃ id p, tlv = .proposal id p ∧ a = .ack id (validateTimerProposal t.cfg p).isOk := by
  cases tlv with
  | proposal id p => exact ⟨id, p, rfl, List.mem_singleton.mp h⟩
  | ack id accepted => simp [Timers.answers] at h

/-! ### What is in flight is tied to what has been proposed and accepted -/

/-- Everything in a renegotiation that goes back to a proposal of `r`. -/
structure Tied (h : WorldHistory) (v : Renegotiation) (r : Role) : Prop where
  next : (v.core r).nextProposalId.toNat = (proposed r h).length + 1
  pending : ∀ pending, (v.core r).pending = some pending →
    Numbered (proposed r h) pending.proposalId pending.proposal
  asked : ∀ id p, .proposal id p ∈ v.inbox r.peer → Numbered (proposed r h) id p
  answered : ∀ id, .ack id true ∈ v.inbox r →
    ∃ p, Numbered (proposed r h) id p ∧ ∃ t ∈ h, Accepts r.peer t id p

theorem proposed_snoc (r : Role) (h : WorldHistory) (t : Taken World Move (Option CallResult)) :
    proposed r (h ++ [t]) = proposed r h ++ (proposedAt r t).toList := by
  simp only [proposed, List.filterMap_append, List.filterMap_cons, List.filterMap_nil]
  cases proposedAt r t <;> rfl

section Tied
variable {h : WorldHistory} {v v' : Renegotiation} {r q : Role}
  {t : Taken World Move (Option CallResult)}

/-- A step that proposes nothing at `r` changes nothing that has been tied. -/
theorem Tied.later (hv : Tied h v r) (hnone : proposedAt r t = none) : Tied (h ++ [t]) v r := by
  have hsame : proposed r (h ++ [t]) = proposed r h := by
    rw [proposed_snoc, hnone, Option.toList_none, List.append_nil]
  refine ⟨by rw [hsame, hv.next], fun pending hp => ?_, fun id p hp => ?_, fun id hid => ?_⟩
  · rw [hsame]
    exact hv.pending pending hp
  · rw [hsame]
    exact hv.asked id p hp
  · obtain ⟨p, hnum, t', ht', hacc⟩ := hv.answered id hid
    exact ⟨p, hsame ▸ hnum, t', List.mem_append_left _ ht', hacc⟩

/-- Nor does the loss of a datagram, or a copy of one. -/
theorem Tied.sub (hv : Tied h v r) (hcore : v'.core = v.core)
    (hinbox : ∀ q, ∀ tlv ∈ v'.inbox q, tlv ∈ v.inbox q) : Tied h v' r := by
  refine ⟨by rw [hcore, hv.next], ?_, fun id p hp => hv.asked id p (hinbox _ _ hp),
    fun id hid => hv.answered id (hinbox _ _ hid)⟩
  rw [hcore]
  exact hv.pending

/-- A move of one end that makes no proposal of `r` new: what it accepts must be one. -/
theorem Tied.commit (hv : Tied h v r) {s : Timers} {ds : List TimerTlv}
    (hself : q = r → s.nextProposalId = (v.core q).nextProposalId ∧
      (∀ pending, s.pending = some pending → (v.core q).pending = some pending) ∧
      ∀ id p, .proposal id p ∉ ds)
    (hack : r = q.peer → ∀ id, .ack id true ∈ ds →
      ∃ p, Numbered (proposed r h) id p ∧ ∃ t ∈ h, Accepts q t id p) :
    Tied h (v.commit Role.peer q s ds) r := by
  have hcore : q ≠ r → (v.commit Role.peer q s ds).core r = v.core r := by
    intro hq
    rw [Net.commit_core, Function.update_of_ne (Ne.symm hq)]
  refine ⟨?_, fun pending hp => ?_, fun id p hp => ?_, fun id hid => ?_⟩
  · by_cases hq : q = r
    · subst hq
      rw [Net.commit_core, Function.update_self, (hself rfl).1, hv.next]
    · rw [hcore hq, hv.next]
  · by_cases hq : q = r
    · subst hq
      rw [Net.commit_core, Function.update_self] at hp
      exact hv.pending pending ((hself rfl).2.1 pending hp)
    · rw [hcore hq] at hp
      exact hv.pending pending hp
  · rcases (Net.mem_commit _ _ _ _ _ _ _).mp hp with hold | ⟨hpeer, hnew⟩
    · exact hv.asked id p hold
    · have hq : q = r := by rw [← q.peer_peer, ← hpeer, r.peer_peer]
      exact absurd hnew ((hself hq).2.2 id p)
  · rcases (Net.mem_commit _ _ _ _ _ _ _).mp hid with hold | ⟨hr, hnew⟩
    · exact hv.answered id hold
    · obtain ⟨p, hnum, t, ht, hacc⟩ := hack hr id hnew
      have hq : q = r.peer := by rw [hr, q.peer_peer]
      exact ⟨p, hnum, t, ht, hq ▸ hacc⟩

end Tied

theorem proposedAt_none {r : Role} {t : Taken World Move (Option CallResult)}
    (h : ∀ nowMs p, t.input ≠ .call r (.proposeTimers nowMs p)) : proposedAt r t = none := by
  unfold proposedAt
  split
  · rename_i q nowMs p ha
    by_cases hq : q = r
    · subst hq
      exact absurd ha (h nowMs p)
    · simp [hq]
  · rfl

section Step
variable {cid : UInt64} {h : WorldHistory} {v v' : Talk} {a : Move} {o : Option CallResult}

/-- An id that is still below the last one is the number of the next proposal. -/
theorem Tied.propose {u : Renegotiation} {r : Role} (hv : Tied h u r)
    {t : Taken World Move (Option CallResult)} {nowMs : UInt64} {p : TimerProposal}
    (hp : proposedAt r t = some p) (hfew : (proposed r (h ++ [t])).length < 2 ^ 32 - 1) :
    Tied (h ++ [t]) (u.commit Role.peer r ((u.core r).propose nowMs p)
      [.proposal (u.core r).nextProposalId p]) r := by
  have hsnoc : proposed r (h ++ [t]) = proposed r h ++ [p] := by
    rw [proposed_snoc, hp, Option.toList_some]
  rw [hsnoc, List.length_append, List.length_singleton] at hfew
  have hlast : Numbered (proposed r h ++ [p]) (u.core r).nextProposalId p := .last hv.next
  refine ⟨?_, fun pending hpending => ?_, fun id q hq => ?_, fun id hid => ?_⟩
  · have hnext := hv.next
    rw [Net.commit_core, Function.update_self, hsnoc]
    simp only [Timers.propose, saturatingAdd32, u32Max, List.length_append,
      List.length_singleton, UInt32.toNat_ofNat']
    omega
  · rw [Net.commit_core, Function.update_self] at hpending
    obtain rfl := Option.some.inj hpending
    rw [hsnoc]
    exact hlast
  · rw [hsnoc]
    rcases (Net.mem_commit _ _ _ _ _ _ _).mp hq with hold | ⟨-, hnew⟩
    · exact (hv.asked id q hold).append [p]
    · simp only [List.mem_singleton, TimerTlv.proposal.injEq] at hnew
      obtain ⟨rfl, rfl⟩ := hnew
      exact hlast
  · rcases (Net.mem_commit _ _ _ _ _ _ _).mp hid with hold | ⟨hr, -⟩
    · obtain ⟨q, hnum, t', ht', hacc⟩ := hv.answered id hold
      exact ⟨q, hsnoc ▸ hnum.append [p], t', List.mem_append_left _ ht', hacc⟩
    · exact absurd hr.symm r.peer_ne

theorem Tied.step (hv : v.Clean cid) (hs : v.step a = some (v', o))
    (htied : ∀ r, Tied h v.renegotiation r)
    (hfew : ∀ r, (proposed r (h ++ [⟨v.toWorld cid, a, o, v'.toWorld cid⟩])).length < 2 ^ 32 - 1)
    (r : Role) : Tied (h ++ [⟨v.toWorld cid, a, o, v'.toWorld cid⟩]) v'.renegotiation r := by
  have hturn := hv.turn hs
  have hreads := @Talk.Clean.reads_iff cid v hv ⟨v.toWorld cid, a, o, v'.toWorld cid⟩ rfl
  have htimers := @Talk.Clean.reads_timers cid v v' hv a o hs
  generalize ht : (⟨v.toWorld cid, a, o, v'.toWorld cid⟩ : Taken World Move (Option CallResult)) = t
    at hfew hreads htimers ⊢
  have hinput : t.input = a := by rw [← ht]
  have hpre : t.pre.core = v.core := by rw [← ht]; rfl
  have hpost : t.post.core = v'.core := by rw [← ht]; rfl
  generalize v'.renegotiation = u at hturn ⊢
  cases hturn with
  | same hnone =>
    refine (htied r).later ?_
    unfold proposedAt
    rw [hinput]
    split
    · rename_i q nowMs p
      rw [hpre, if_neg fun hc => hnone q nowMs p rfl hc.2]
    · rfl
  | propose q nowMs p ha hcan =>
    by_cases hq : q = r
    · subst hq
      refine (htied q).propose ?_ (hfew q)
      rw [proposedAt, hinput, ha]
      simp [hpre, hcan]
    · have hnone : proposedAt r t = none := proposedAt_none (by rw [hinput, ha]; simp [hq])
      exact ((htied r).later hnone).commit (fun h => absurd h hq) (by simp)
  | expire q nowMs ha hpast =>
    have hnone : proposedAt r t = none := proposedAt_none (by rw [hinput, ha]; simp)
    exact ((htied r).later hnone).commit (fun _ => ⟨rfl, by simp [Timers.rollBack], by simp⟩)
      (by simp)
  | recv q i j x p tlv ha hp hp' hj htlv =>
    have hnone : proposedAt r t = none := proposedAt_none (by rw [hinput, ha]; simp)
    have hlater := (htied r).later hnone
    have hremoved : Tied (h ++ [t]) (v.renegotiation.remove q j) r :=
      hlater.sub rfl fun _ _ hmem => Net.mem_of_remove hmem
    refine hremoved.commit ?_ ?_
    · refine fun _ => ⟨Timers.on_next _ tlv, fun _ => Timers.pending_of_on _ tlv, ?_⟩
      intro id p hmem
      obtain ⟨_, _, -, hack⟩ := mem_answers hmem
      cases hack
    · rintro rfl id hmem
      obtain ⟨id', p', rfl, hack⟩ := mem_answers hmem
      simp only [TimerTlv.ack.injEq] at hack
      obtain ⟨rfl, hok⟩ := hack
      have hread : Reads q t (.proposal id p') := hreads.mpr ⟨i, x, p, hinput.trans ha, hp, hp'⟩
      have hcfg : (v'.core q).cfg = ((v.core q).timers.on (.proposal id p')).cfg :=
        congrArg Timers.cfg (htimers hread)
      rw [Timers.on, if_pos hok.symm] at hcfg
      refine ⟨p', hlater.asked id p' ?_, t, by simp, hread, by rw [hpre]; exact hok.symm,
        by rw [hpost]; exact hcfg⟩
      rw [Role.peer_peer]
      exact List.mem_of_getElem? htlv
  | drop q i j ha =>
    have hnone : proposedAt r t = none := proposedAt_none (by rw [hinput, ha]; simp)
    exact ((htied r).later hnone).sub rfl fun _ _ hmem => Net.mem_of_remove hmem
  | duplicate q i j tlv ha htlv =>
    have hnone : proposedAt r t = none := proposedAt_none (by rw [hinput, ha]; simp)
    refine ((htied r).later hnone).sub rfl fun s u hmem => ?_
    rcases (Net.mem_add _ _ _ _ _).mp hmem with hold | ⟨rfl, hnew⟩
    · exact hold
    · rw [List.mem_singleton.mp hnew]
      exact List.mem_of_getElem? htlv

end Step

theorem Talk.start_tied (cid : UInt64) (cfg : Role → CoreConfig) (r : Role) :
    Tied [] (Talk.start cid cfg).renegotiation r :=
  ⟨rfl, by simp [Talk.renegotiation, Talk.start, CoreMachine.new, CoreMachine.timers],
    fun _ _ h => absurd h List.not_mem_nil, fun _ h => absurd h List.not_mem_nil⟩

theorem tied_of_run {cid : UInt64} {cfg : Role → CoreConfig} {h : WorldHistory} {w : World}
    (hrun : Run World.step (World.start cid cfg) h w)
    (hfew : ∀ r, (proposed r h).length < 2 ^ 32 - 1) :
    ∃ v : Talk, v.Clean cid ∧ w = v.toWorld cid ∧ ∀ r, Tied h v.renegotiation r := by
  have hinv := World.talk_invariant (Talk.start_clean cid cfg)
    (I := fun h v => (∀ r, (proposed r h).length < 2 ^ 32 - 1) → ∀ r, Tied h v.renegotiation r)
    (fun _ => Talk.start_tied cid cfg) ?_ hrun
  · obtain ⟨v, hv, hw, htied⟩ := hinv
    exact ⟨v, hv, hw, htied hfew⟩
  · intro h v a v' o hv hs ih hfew
    have hfew' : ∀ r, (proposed r h).length < 2 ^ 32 - 1 := by
      intro r
      have hle := hfew r
      rw [proposed_snoc, List.length_append] at hle
      omega
    exact Tied.step hv hs (ih hfew') hfew

/-- Over every run in which neither machine runs out of proposal ids, a machine that
commits its own pending proposal on an ack takes timers over that its peer has accepted,
and set its configuration to, at an earlier step. -/
theorem commit_sound {cid : UInt64} {cfg : Role → CoreConfig} {h₀ h₁ : WorldHistory}
    {t : Taken World Move (Option CallResult)} {w : World}
    (hrun : Run World.step (World.start cid cfg) (h₀ ++ t :: h₁) w)
    (hfew : ∀ r, (proposed r (h₀ ++ t :: h₁)).length < 2 ^ 32 - 1) {r : Role}
    {pending : PendingRenegotiation} (hcommit : CommitsOwn r t pending) :
    (t.post.core r).cfg = pending.proposal.toConfig ∧
      ∃ t' ∈ h₀, Accepts r.peer t' pending.proposalId pending.proposal := by
  obtain ⟨hrun₀, hs⟩ := hrun.split
  have hfew₀ : ∀ r, (proposed r h₀).length < 2 ^ 32 - 1 := by
    intro r
    have hle := hfew r
    rw [proposed, List.filterMap_append, List.length_append] at hle
    rw [proposed]
    omega
  obtain ⟨v, hv, hpre, htied⟩ := tied_of_run hrun₀ hfew₀
  obtain ⟨hpend, hread⟩ := hcommit
  obtain ⟨pre, a, o, post⟩ := t
  subst hpre
  obtain ⟨v', hstep, -, hpost⟩ := hv.world_step hs
  subst hpost
  constructor
  · have hcfg : (v'.core r).cfg = ((v.core r).timers.on (.ack pending.proposalId true)).cfg :=
      congrArg Timers.cfg (hv.reads_timers hstep hread)
    have hp : (v.core r).timers.pending = some pending := hpend
    show (v'.core r).cfg = _
    rw [hcfg, Timers.on, hp]
    simp
  · obtain ⟨i, x, p, ha, hp, ht⟩ := (hv.reads_iff rfl).mp hread
    have hmem : .ack pending.proposalId true ∈ v.renegotiation.inbox r :=
      List.mem_filterMap.mpr ⟨p, List.mem_of_getElem? hp, ht⟩
    obtain ⟨q, hnum, t', ht', hacc⟩ := (htied r).answered _ hmem
    have hq : q = pending.proposal := hnum.unique ((htied r).pending pending hpend)
    exact ⟨t', ht', hq ▸ hacc⟩

def fasterTimers : TimerProposal := ⟨1000, 3, 10000⟩

/-- The client proposes, and the server accepts. -/
def renegotiating : List Move :=
  shakeHands ++ [.call .client (.proposeTimers 10 fasterTimers), .deliver .server 0 ⟨11, 0⟩]

theorem renegotiating_commits :
    ∃ h w w' o, exec World.step (World.start 7 fun _ => .default) renegotiating = some (h, w) ∧
      w.step (.deliver .client 0 ⟨12, 0⟩) = some (w', o) ∧
      (w.core .client).pendingLocalProposal = some ⟨1, fasterTimers, 30010⟩ ∧
      (w'.core .client).cfg = fasterTimers.toConfig ∧
      ∃ t ∈ h, Accepts .server t 1 fasterTimers := by
  have hexec : (exec World.step (World.start 7 fun _ => .default) renegotiating).any (fun x =>
      decide ((x.2.core .client).pendingLocalProposal = some ⟨1, fasterTimers, 30010⟩) &&
      (x.2.inbox .client)[0]?.any (fun bytes =>
        decide (.ack 1 true ∈ (x.2.core .client).timerTlvs bytes))) = true := by decide +kernel
  obtain ⟨⟨h, w⟩, hexec, hx⟩ := (Option.any_eq_true _ _).mp hexec
  obtain ⟨hpending, hack⟩ := Bool.and_eq_true_iff.mp hx
  have hpending := of_decide_eq_true hpending
  obtain ⟨bytes, hbytes, hack⟩ := (Option.any_eq_true _ _).mp hack
  obtain ⟨⟨w', o⟩, hs⟩ : ∃ x, w.step (.deliver .client 0 ⟨12, 0⟩) = some x := by
    simp [World.step, Net.step, hbytes]
  have hfew : ∀ r, (proposed r (h ++ [⟨w, .deliver .client 0 ⟨12, 0⟩, o, w'⟩])).length <
      2 ^ 32 - 1 := by
    intro r
    have hle := List.length_filterMap_le (proposedAt r)
      (h ++ [⟨w, .deliver .client 0 ⟨12, 0⟩, o, w'⟩])
    have hlen := congrArg List.length (exec_inputs hexec)
    rw [List.length_map] at hlen
    rw [List.length_append, hlen, List.length_singleton] at hle
    exact hle.trans_lt (by decide)
  obtain ⟨hcfg, t, ht, hacc⟩ := commit_sound ((Run.of_exec hexec).snoc hs) hfew (r := .client)
    ⟨hpending, 0, ⟨12, 0⟩, bytes, rfl, hbytes, of_decide_eq_true hack⟩
  exact ⟨h, w, w', o, hexec, hs, hpending, hcfg, t, ht, hacc⟩

end Todero.Core
