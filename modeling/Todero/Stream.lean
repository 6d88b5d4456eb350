import Todero.Honest

/-! What the application at one end receives over a run is the beginning of what the
application at the other end has sent. -/
namespace Todero.Core
open Todero.Wire Transition Duplex

def Event.message : Event → Option (Nat × Bytes)
  | .messageReceived id payload => some (id, payload)
  | _ => none

/-- The messages one operation hands to the application. -/
def CallResult.messages (res : CallResult) : List (Nat × Bytes) :=
  res.output.events.filterMap Event.message

/-- The messages an application is handed at `r` by a step. -/
def handedOver {σ : Type} (r : Role) (t : Taken σ Move (Option CallResult)) :
    List (Nat × Bytes) :=
  if t.input.actor = some r then t.output.elim [] CallResult.messages else []

def sends (r : Role) : Move → Option Bytes
  | .call q (.send payload) => if q = r then some payload else none
  | _ => none

section History
variable {σ : Type} (r : Role) (h : List (Taken σ Move (Option CallResult)))

/-- Every `MessageReceived` returned at `r`, in order. -/
def received : List (Nat × Bytes) := h.flatMap (handedOver r)

/-- Every payload passed to `on_api_send` at `r`, in order. -/
def enqueued : List Bytes := h.filterMap fun t => sends r t.input

end History

/-- The messages `k`, `k + 1`, ... with the given payloads. -/
def numbered (k : Nat) (ps : List Bytes) : List (Nat × Bytes) := (List.range' k ps.length).zip ps

theorem deliveryEvents_messages (k : Nat) (ps : List Bytes) :
    (deliveryEvents k ps).filterMap Event.message = numbered k ps := by
  induction ps generalizing k with
  | nil => rfl
  | cons p ps ih =>
    simp only [deliveryEvents, List.filterMap_cons, Event.message, ih, numbered, List.length_cons,
      List.range'_succ, List.zip_cons_cons]

theorem numbered_append (k : Nat) (ps qs : List Bytes) :
    numbered k (ps ++ qs) = numbered k ps ++ numbered (k + ps.length) qs := by
  induction ps generalizing k with
  | nil => rfl
  | cons p ps ih =>
    have h := ih (k + 1)
    simp only [numbered, List.cons_append, List.length_cons, List.range'_succ,
      List.zip_cons_cons] at h ⊢
    rw [h, Nat.add_assoc, Nat.add_comm 1]

theorem messages_eq (res : CallResult) :
    res.messages = res.output.deliveries.filterMap Event.message := by
  have hmsg : ∀ e : Event, (if e.isDelivery then Event.message e else none) = e.message := by
    intro e
    cases e <;> rfl
  simp only [CallResult.messages, CoreOutput.deliveries, List.filterMap_filter, hmsg]

section Step
variable {cid : UInt64} {fits : Bytes → Prop} {w w' : Talk} {a : Move} {o : Option CallResult}

/-- What a step does to the outbox of one end. -/
theorem Talk.Clean.step_outbox (hw : w.Clean cid) (hs : w.step a = some (w', o)) (r : Role) :
    (w'.core r).fixed = match sends r a with
      | none => (w.core r).fixed
      | some payload => ((w.core r).enqueue payload).fixed := by
  cases hw.moves hs r with
  | idle hactor hsame =>
    rw [hsame]
    cases a with
    | call q k =>
      have hq : q ≠ r := by simpa [Action.actor] using hactor
      cases k <;> simp [sends, hq]
    | deliver | drop | duplicate => rfl
  | call k res ha ho happ =>
    rw [(apply_answers _ happ).next, ha]
    by_cases hsend : ∃ payload, k = .send payload
    · obtain ⟨payload, rfl⟩ := hsend
      simp only [sends, if_true]
      rfl
    · rw [next_fixed _ k (not_exists.mp hsend)]
      cases k with
      | send payload => exact absurd ⟨payload, rfl⟩ hsend
      | beginHandshake | timer | close | proposeTimers | pathChanged => rfl
  | recv i x p res ha ho hp hears =>
    rw [hears.fixed, ha]
    rfl

/-- What a step hands over at one end is what its peer has under the next ids. -/
theorem Talk.Honest.step_received (hw : w.Honest cid fits) (hs : w.step a = some (w', o))
    (r : Role) : ∃ ps, handedOver r ⟨w, a, o, w'⟩ = numbered ((w.core r).lastOrderedRx + 1) ps ∧
      (w'.core r).lastOrderedRx = (w.core r).lastOrderedRx + ps.length ∧
      ∀ (i : Nat) (p : Bytes), ps[i]? = some p →
        (w.core r.peer).outboundMessages[(w.core r).lastOrderedRx + 1 + i]? = some p := by
  cases hw.clean.moves hs r with
  | idle hactor hsame =>
    refine ⟨[], ?_, by rw [hsame]; rfl, by simp⟩
    simp [handedOver, hactor, numbered]
  | call k res ha ho happ =>
    have hans := apply_answers _ happ
    have hlast : (w'.core r).rx.last = (w.core r).rx.last := by rw [hans.next, next_rx]
    refine ⟨[], ?_, hlast, by simp⟩
    have hnone : res.output.deliveries = [] := by
      rw [CoreOutput.deliveries, hans.events, tells_deliveries]
    simp [handedOver, ha, ho, Action.actor, messages_eq, hnone, numbered]
  | recv i x p res ha ho hp hears =>
    have hhonest := (hw.flight r p (List.mem_of_getElem? hp)).2
    obtain ⟨-, -, hfrom⟩ := (hw.ends r).arriveOpt (hw.ends r.peer).outbox hhonest
    refine ⟨((w.core r).rxOn p).2, ?_, ?_, hfrom⟩
    · simp only [handedOver, ha, ho, Action.actor, if_true, Option.elim_some, messages_eq,
        hears.deliveries, deliveryEvents_messages]
    · have hlast : ((w.core r).rxOn p).1.last = (w.core r).rx.last + ((w.core r).rxOn p).2.length := by
        unfold CoreMachine.rxOn
        split_ifs
        · cases harr : p.arrival with
          | none => rfl
          | some a =>
            have hsane := (hhonest.arrival_from (hw.ends r.peer).outbox harr).sane
            exact (hw.ends r).rxOk.arrive_last hsane
        · rfl
      rw [← hears.rx] at hlast
      exact hlast

end Step

/-- The state of a run, at one end `r` and the outbox of its peer: `ps` has been handed over. -/
structure Streamed (h : List (Taken Talk Move (Option CallResult))) (w : Talk) (r : Role)
    (ps : List Bytes) : Prop where
  next : (w.core r).nextOutboundId = (enqueued r h).length + 1
  outbox : ∀ i : Nat, (w.core r).outboundMessages[i + 1]? = (enqueued r h)[i]?
  got : received r h = numbered 1 ps
  last : (w.core r).lastOrderedRx = ps.length
  copies : ∀ (i : Nat) (p : Bytes), ps[i]? = some p →
    (w.core r.peer).outboundMessages[i + 1]? = some p

theorem Streamed.step {cid : UInt64} {fits : Bytes → Prop}
    {h : List (Taken Talk Move (Option CallResult))} {w w' : Talk} {r : Role} {ps : List Bytes}
    (hd : Streamed h w r ps) (hw : w.Honest cid fits) {a : Move} {o : Option CallResult}
    (hs : w.step a = some (w', o)) :
    ∃ ps', Streamed (h ++ [⟨w, a, o, w'⟩]) w' r ps' := by
  obtain ⟨qs, hgot, hlast, hcopies⟩ := hw.step_received hs r
  have hfixed := hw.clean.step_outbox hs
  have hkept : ∀ (q : Role) (id : Nat) (p : Bytes),
      (w.core q).outboundMessages[id]? = some p → (w'.core q).outboundMessages[id]? = some p := by
    intro q id p hp
    have hmsgs : (w'.core q).outboundMessages = (w'.core q).fixed.outboundMessages := rfl
    rw [hmsgs, hfixed q]
    cases sends q a with
    | none => exact hp
    | some payload =>
      exact (next_grows (hw.ends q).outbox (.send payload)).outbox id p hp
  have hsent : enqueued r (h ++ [⟨w, a, o, w'⟩]) = enqueued r h ++ (sends r a).toList := by
    simp only [enqueued, List.filterMap_append, List.filterMap_cons, List.filterMap_nil]
    cases sends r a <;> rfl
  refine ⟨ps ++ qs, ?_, ?_, ?_, ?_, ?_⟩
  · have hnext : (w'.core r).nextOutboundId = (w'.core r).fixed.nextOutboundId := rfl
    rw [hsent, hnext, hfixed r, List.length_append]
    cases sends r a with
    | none => exact hd.next
    | some payload =>
      show (w.core r).nextOutboundId + 1 = _
      rw [hd.next]
      rfl
  · intro i
    have hmsgs : (w'.core r).outboundMessages = (w'.core r).fixed.outboundMessages := rfl
    rw [hsent, hmsgs, hfixed r]
    cases sends r a with
    | none =>
      rw [Option.toList_none, List.append_nil]
      exact hd.outbox i
    | some payload =>
      show ((w.core r).outboundMessages.insert (w.core r).nextOutboundId payload)[i + 1]? = _
      simp only [Std.TreeMap.getElem?_insert, Std.LawfulEqCmp.compare_eq_iff_eq, hd.next, hd.outbox]
      by_cases hi : i = (enqueued r h).length
      · simp [hi]
      · have hne : ¬ (enqueued r h).length + 1 = i + 1 := by omega
        rw [if_neg hne]
        by_cases hlt : i < (enqueued r h).length
        · rw [List.getElem?_append_left hlt]
        · simp only [Option.toList_some]
          rw [List.getElem?_eq_none (by omega), List.getElem?_eq_none (by simp; omega)]
  · rw [received, List.flatMap_append, ← received, hd.got, numbered_append, List.flatMap_singleton,
      hgot, hd.last, Nat.add_comm]
  · rw [hlast, hd.last, List.length_append]
  · intro i p hp
    by_cases hi : i < ps.length
    · rw [List.getElem?_append_left hi] at hp
      exact hkept r.peer _ p (hd.copies i p hp)
    · rw [List.getElem?_append_right (by omega)] at hp
      have hp' := hcopies _ p hp
      rw [hd.last, show ps.length + 1 + (i - ps.length) = i + 1 by omega] at hp'
      exact hkept r.peer _ p hp'

theorem streamed_of_run {cid : UInt64} {cfg : Role → CoreConfig}
    {h : List (Taken Talk Move (Option CallResult))} {w : Talk}
    (hrun : Run Talk.step (Talk.start cid cfg) h w) (r : Role) :
    w.Honest cid (fun _ => True) ∧ ∃ ps, Streamed h w r ps := by
  induction hrun with
  | nil =>
    exact ⟨Talk.start_honest cid _ cfg, [], rfl, fun i => by simp [Talk.start, CoreMachine.new, enqueued],
      rfl, rfl, by simp⟩
  | snoc _ hs ih =>
    obtain ⟨hw, ps, hd⟩ := ih
    exact ⟨hw.step (fun _ _ _ => trivial) hs, hd.step hw hs⟩

/-- Over every run of the two machines and the network between them, the application at
`r` is handed the messages 1, 2, 3, ... and their payloads are those its peer has sent,
in the order in which it sent them. -/
theorem received_prefix_enqueued {cid : UInt64} {cfg : Role → CoreConfig} {h : WorldHistory}
    {w : World} (hrun : Run World.step (World.start cid cfg) h w) (r : Role) :
    (received r h).map Prod.fst = List.range' 1 (received r h).length ∧
      (received r h).map Prod.snd <+: enqueued r.peer h := by
  obtain ⟨h', w', hrun', -, rfl, -⟩ := World.run_of_talk (Talk.start_clean cid cfg) hrun
  obtain ⟨-, ps, hd⟩ := streamed_of_run hrun' r
  obtain ⟨-, _, hpeer⟩ := streamed_of_run hrun' r.peer
  have hgot : received r (h'.map (Taken.map (Talk.toWorld cid))) = numbered 1 ps := by
    rw [← hd.got, received, List.flatMap_map]
    rfl
  have hsent : enqueued r.peer (h'.map (Taken.map (Talk.toWorld cid))) = enqueued r.peer h' := by
    rw [enqueued, List.filterMap_map]
    rfl
  rw [hgot, hsent]
  have hlen : (List.range' 1 ps.length).length = ps.length := List.length_range'
  refine ⟨?_, ?_⟩
  · rw [numbered, List.map_fst_zip hlen.le, List.length_zip, hlen, min_self]
  · rw [numbered, List.map_snd_zip hlen.ge, List.prefix_iff_getElem?]
    intro i hi
    rw [← hpeer.outbox i, hd.copies i ps[i] (List.getElem?_eq_getElem hi)]

def shakeHands : List Move :=
  [.call .client (.beginHandshake 0), .deliver .server 0 ⟨1, 0⟩, .deliver .client 0 ⟨2, 0⟩,
    .deliver .server 0 ⟨3, 0⟩]

/-- The client sends two messages, whose `Data` frames overtake each other, one of them twice. -/
def overtaking : List Move :=
  shakeHands ++ [.call .client (.send [10]), .call .client (.send [20, 21]),
    .deliver .server 0 ⟨4, 0⟩, .deliver .server 0 ⟨4, 0⟩, .deliver .client 1 ⟨5, 0⟩,
    .deliver .client 0 ⟨5, 0⟩, .duplicate .server 0, .deliver .server 0 ⟨6, 0⟩,
    .deliver .server 0 ⟨7, 0⟩, .deliver .server 0 ⟨8, 0⟩]

theorem overtaking_received :
    ∃ h w, exec World.step (World.start 7 fun _ => .default) overtaking = some (h, w) ∧
      (received .server h).length = 2 ∧
      (received .server h).map Prod.fst = List.range' 1 (received .server h).length ∧
      (received .server h).map Prod.snd <+: enqueued .client h := by
  have htwo : (exec World.step (World.start 7 fun _ => .default) overtaking).map
      (fun x => (received .server x.1).length) = some 2 := by decide +kernel
  obtain ⟨⟨h, w⟩, hexec, hlen⟩ := Option.map_eq_some_iff.mp htwo
  exact ⟨h, w, hexec, hlen, received_prefix_enqueued (Run.of_exec hexec) .server⟩

end Todero.Core
