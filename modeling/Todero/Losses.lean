import Todero.Returned

/-! Messages and store failures: which messages of a session the caller has been given,
over all runs with a store that may fail in any call. -/
namespace Todero.Server
open Todero.Wire Todero.Core Todero.Store Transition

section Step
variable {σ : Type} [SessionStore σ]

/-- The store takes the record of a session that has got up to `lastOrderedRx`. -/
def ServerRuntime.saves (rt : ServerRuntime σ) (cid nowMs : UInt64) (s : SessionRuntime)
    (lastOrderedRx : Nat) : Bool :=
  (SessionStore.upsert rt.store cid { rt.recordOf cid s with lastOrderedRx := lastOrderedRx }
    rt.cfg.disconnectWindowMs nowMs).2.isOk

/-- A datagram completes the next messages of `cid`, and the store fails to take the record. -/
def loses (cid : UInt64) (rt : ServerRuntime σ) : Op → Prop
  | .datagram nowMs _ bytes =>
    ∃ frame s, WireFrame.decode bytes = .ok frame ∧ frame.cid = cid ∧
      rt.sessions[cid]? = some s ∧ (s.core.rx.arriveOpt (arrivalOf s.core bytes)).2 ≠ [] ∧
      ¬ rt.saves cid nowMs s (s.core.rx.arriveOpt (arrivalOf s.core bytes)).1.last
  | .pollTimers _ _ | .sendMessage _ _ _ => False

omit [SessionStore σ] in
theorem deliveryEvents_eq_nil {k : Nat} {ps : List Bytes} : deliveryEvents k ps = [] ↔ ps = [] := by
  cases ps <;> simp [deliveryEvents]

omit [SessionStore σ] in
theorem Hosted.arrive_last {cid : UInt64} {m : CoreMachine} (hm : Hosted cid m) (bytes : Bytes) :
    (m.rx.arriveOpt (arrivalOf m bytes)).1.last =
      m.lastOrderedRx + (m.rx.arriveOpt (arrivalOf m bytes)).2.length := by
  obtain ⟨cfg, h, hrun⟩ := hm.lived
  obtain ⟨ps, hd⟩ := delivered_of_run hrun
  cases ha : arrivalOf m bytes with
  | none => rfl
  | some a => exact hd.ok.arrive_last (arrivalOf_sane ha)

omit [SessionStore σ] in
/-- A message frame does not end the session. -/
theorem live_of_arrival {m : CoreMachine} {bytes : Bytes} (nowMs : UInt64) (src : UInt32)
    (h : (m.rx.arriveOpt (arrivalOf m bytes)).2 ≠ []) :
    (Core.onDatagram m nowMs src bytes).1.state ≠ .lost := by
  intro hlost
  have hclosed := (onDatagram_effect m nowMs src bytes).2.2.2.1.mp hlost
  apply h
  have hnone : arrivalOf m bytes = none := by
    unfold arrivalOf
    cases hd : WireFrame.decode bytes with
    | error e => rfl
    | ok frame =>
      dsimp only
      split_ifs with hf
      · rfl
      · unfold arrivalIn
        split_ifs with hest
        · have hclosing : closing frame := by
            simpa [hest, closes, hd, hf] using hclosed
          obtain hm | hm := hclosing <;> simp [frameArrival, hm]
        · rfl
  rw [hnone]
  rfl

variable [Base64] {rt rt₁ rt' : ServerRuntime σ} {cid : UInt64} {s s' : SessionRuntime}
  {src : UInt32} {nowMs : UInt64} {res : RuntimeResult}

/-- What a call adds to the messages of a session: the caller gets them all, or the store
has failed and it gets none of them. -/
structure Advances (cid : UInt64) (rt : ServerRuntime σ) (op : Op) (res : RuntimeResult)
    (m m' : CoreMachine) (n : Nat) : Prop where
  last : m'.lastOrderedRx = m.lastOrderedRx + n
  kept : ¬ loses cid rt op → returned cid res = List.range' (m.lastOrderedRx + 1) n
  lost : loses cid rt op → n ≠ 0 ∧ returned cid res = []

omit [Base64] in
theorem Advances.idle {op : Op} {m m' : CoreMachine} (hrx : m'.rx = m.rx)
    (hret : returned cid res = []) (hnot : ¬ loses cid rt op) : Advances cid rt op res m m' 0 :=
  ⟨congrArg Rx.last hrx, fun _ => hret, fun h => absurd h hnot⟩

theorem Driven.advances {bytes : Bytes} {frame : WireFrame}
    (hd : WireFrame.decode bytes = .ok frame) (hm : Hosted frame.cid s.core)
    (hs : rt.sessions[frame.cid]? = some s) (hs' : rt'.sessions[frame.cid]? = some s')
    (hdrive : Driven rt frame.cid s src nowMs (Core.onDatagram s.core nowMs src bytes) rt' res) :
    Advances frame.cid rt (.datagram nowMs src bytes) res s.core s'.core
      (s.core.rx.arriveOpt (arrivalOf s.core bytes)).2.length := by
  obtain ⟨-, hrx, hdel, -, -⟩ := onDatagram_effect s.core nowMs src bytes
  have hlive := @live_of_arrival s.core bytes nowMs src
  have hlast := hm.arrive_last bytes
  have hids := receivedIds_of_deliveries hdel
  have hret : Server.returned frame.cid res = _ := hdrive.returned
  have hcore := hdrive.core hs'
  have hres := hdrive.result
  have hloses : loses frame.cid rt (.datagram nowMs src bytes) ↔
      (s.core.rx.arriveOpt (arrivalOf s.core bytes)).2 ≠ [] ∧
        ¬ rt.saves frame.cid nowMs s (s.core.rx.arriveOpt (arrivalOf s.core bytes)).1.last := by
    constructor
    · rintro ⟨frame', s₁, -, -, hs₁, hboth⟩
      obtain rfl : s = s₁ := Option.some.inj (hs.symm.trans hs₁)
      exact hboth
    · exact fun hboth => ⟨frame, s, hd, rfl, hs, hboth⟩
  rw [← hrx] at hloses hlast
  generalize (s.core.rx.arriveOpt (arrivalOf s.core bytes)).2 = ps at hdel hlive hlast hids hloses ⊢
  generalize Core.onDatagram s.core nowMs src bytes = called at *
  obtain ⟨core, cres⟩ := called
  have hok : ps ≠ [] → (res.isOk ↔ rt.saves frame.cid nowMs s core.rx.last) := by
    intro hps
    cases cres with
    | error e => exact absurd (deliveryEvents_eq_nil.mp hdel.symm) hps
    | ok out =>
      have hrec : rt.recordOf frame.cid { s with core := core } =
          { rt.recordOf frame.cid s with lastOrderedRx := core.rx.last } := rfl
      simp only [ServerRuntime.written, if_neg (hlive hps), hrec] at hres
      rw [hres, ServerRuntime.saves]
      cases (SessionStore.upsert rt.store frame.cid
        { rt.recordOf frame.cid s with lastOrderedRx := core.rx.last } rt.cfg.disconnectWindowMs
          nowMs).2 <;> simp [Except.map, Except.isOk, Except.toBool]
  refine ⟨by rw [hcore]; exact hlast, fun hnot => ?_, fun hlost => ?_⟩
  · rw [hret, hids]
    by_cases hps : ps = []
    · simp [hps]
    · have hsaved : rt.saves frame.cid nowMs s core.rx.last := by
        by_contra hfail
        exact hnot (hloses.mpr ⟨hps, hfail⟩)
      rw [if_pos ⟨rfl, (hok hps).mpr hsaved⟩]
  · obtain ⟨hps, hfail⟩ := hloses.mp hlost
    refine ⟨fun hzero => hps (List.length_eq_zero_iff.mp hzero), ?_⟩
    rw [hret, if_neg fun h => hfail ((hok hps).mp h.2)]

theorem Received.advances {bytes : Bytes} (h : Received rt nowMs src bytes rt' res)
    (hrt : rt.Hosting) (hs : rt.sessions[cid]? = some s) (hs' : rt'.sessions[cid]? = some s') :
    ∃ n, Advances cid rt (.datagram nowMs src bytes) res s.core s'.core n := by
  have hsame : s'.core = s.core → returned cid res = [] →
      ¬ loses cid rt (.datagram nowMs src bytes) →
      ∃ n, Advances cid rt (.datagram nowMs src bytes) res s.core s'.core n :=
    fun hcore hret hnot => ⟨0, .idle (by rw [hcore]) hret hnot⟩
  cases h with
  | undecodable herr =>
    refine hsame (by rw [Option.some.inj (hs.symm.trans hs')]) rfl ?_
    rintro ⟨frame, s₁, hd, -⟩
    simp [herr] at hd
  | @unloaded frame e _ hd habsent _ _ _ hsessions _ =>
    rw [hsessions] at hs'
    refine hsame (by rw [Option.some.inj (hs.symm.trans hs')]) rfl ?_
    rintro ⟨frame', s₁, hd', rfl, hs₁, -⟩
    obtain rfl : frame = frame' := Except.ok.inj (hd.symm.trans hd')
    simp [habsent] at hs₁
  | @visited frame s₀ rt₁ _ res' hd henter hdrive =>
    rw [returned_map] at hsame
    by_cases hcid : frame.cid = cid
    · subst hcid
      cases henter with
      | present hs₀ =>
        obtain rfl : s = s₀ := Option.some.inj (hs.symm.trans hs₀)
        obtain ⟨hlast, hkept, hlost⟩ := hdrive.advances hd (hrt _ _ hs) hs hs'
        refine ⟨_, hlast, ?_, ?_⟩
        · rw [returned_map]
          exact hkept
        · rw [returned_map]
          exact hlost
      | fresh habsent => simp [hs] at habsent
    · rw [hdrive.others cid (Ne.symm hcid), henter.others (Ne.symm hcid)] at hs'
      refine hsame (by rw [Option.some.inj (hs.symm.trans hs')]) ?_ ?_
      · rw [hdrive.returned, if_neg fun h => hcid h.1]
      · rintro ⟨frame', s₁, hd', hcid', -⟩
        obtain rfl : frame = frame' := Except.ok.inj (hd.symm.trans hd')
        exact hcid hcid'

theorem step_advances {op : Op} (hrt : rt.Hosting) (h : rt.step op = some (rt', res))
    (hs : rt.sessions[cid]? = some s) (hs' : rt'.sessions[cid]? = some s') :
    ∃ n, Advances cid rt op res s.core s'.core n := by
  cases op with
  | datagram nowMs src bytes =>
    exact (step_received h).advances hrt hs hs'
  | pollTimers nowMs limit =>
    obtain ⟨rfl, rfl⟩ := step_polled h
    obtain ⟨s₀, hs₀, hrx⟩ := poll_keeps (f := CoreMachine.rx) next_rx hs'
    obtain rfl : s = s₀ := Option.some.inj (hs.symm.trans hs₀)
    exact ⟨0, .idle hrx (poll_returned rt nowMs limit) id⟩
  | sendMessage other payload nowMs =>
    have hsent := sendMessage_sent h
    obtain ⟨s₀, hs₀, hrx⟩ := hsent.keeps (f := CoreMachine.rx) next_rx hs'
    obtain rfl : s = s₀ := Option.some.inj (hs.symm.trans hs₀)
    exact ⟨0, .idle hrx hsent.returned id⟩

/-- A session that was just made has got nowhere. -/
theorem Received.made {bytes : Bytes} (h : Received rt nowMs src bytes rt' res)
    (habsent : rt.sessions[cid]? = none) (hs' : rt'.sessions[cid]? = some s') :
    s'.core.lastOrderedRx = 0 ∧ returned cid res = [] := by
  cases h with
  | undecodable => simp [habsent] at hs'
  | unloaded _ _ _ _ _ hsessions => simp [hsessions, habsent] at hs'
  | @visited frame s₀ rt₁ _ res' hd henter hdrive =>
    rw [returned_map]
    by_cases hcid : frame.cid = cid
    · subst hcid
      cases henter with
      | present hs₀ => simp [habsent] at hs₀
      | @fresh loaded _ _ _ _ _ _ _ =>
        obtain ⟨cfg', hcore⟩ := freshSession_core rt.cfg frame.cid src loaded
        have hnone : arrivalOf (freshSession rt.cfg frame.cid src loaded).core bytes = none := by
          rw [hcore]
          unfold arrivalOf
          cases WireFrame.decode bytes with
          | error e => rfl
          | ok f =>
            dsimp only
            split_ifs <;> rfl
        obtain ⟨-, hrx, hdel, -, -⟩ := onDatagram_effect
          (freshSession rt.cfg frame.cid src loaded).core nowMs src bytes
        rw [hnone] at hrx hdel
        have hlast : s'.core.lastOrderedRx =
            (freshSession rt.cfg frame.cid src loaded).core.lastOrderedRx := by
          rw [hdrive.core hs']
          exact congrArg Rx.last hrx
        refine ⟨?_, hdrive.returns_nothing hdel⟩
        rw [hlast, hcore]
        rfl
    · rw [hdrive.others cid (Ne.symm hcid), henter.others (Ne.symm hcid)] at hs'
      simp [habsent] at hs'

theorem step_made {op : Op} (h : rt.step op = some (rt', res))
    (habsent : rt.sessions[cid]? = none) (hs' : rt'.sessions[cid]? = some s') :
    s'.core.lastOrderedRx = 0 ∧ returned cid res = [] := by
  cases op with
  | datagram nowMs src bytes =>
    exact (step_received h).made habsent hs'
  | pollTimers nowMs limit =>
    obtain ⟨rfl, -⟩ := step_polled h
    obtain ⟨s₀, hs₀, -⟩ := poll_keeps (f := CoreMachine.rx) next_rx hs'
    simp [habsent] at hs₀
  | sendMessage other payload nowMs =>
    obtain ⟨s₀, hs₀, -⟩ := (sendMessage_sent h).keeps (f := CoreMachine.rx) next_rx hs'
    simp [habsent] at hs₀

/-! ### Runs -/

/-- The steps since the session of `cid` was made. -/
def lifetime (cid : UInt64) (h : ServerHistory σ) : ServerHistory σ :=
  h.foldl (fun life t => if t.pre.sessions[cid]?.isSome then life ++ [t] else [t]) []

/-- The ids of the messages the caller has been given over a session's lifetime. -/
def given (cid : UInt64) (h : ServerHistory σ) : List Nat :=
  (lifetime cid h).flatMap fun t => returned cid t.output

/-- No step of the lifetime has lost a message. -/
def Lossless (cid : UInt64) (life : ServerHistory σ) : Prop :=
  ∀ t ∈ life, ¬ loses cid t.pre t.input

section Snoc
variable {h : ServerHistory σ} {t : Taken (ServerRuntime σ) Op RuntimeResult}

omit [SessionStore σ] [Base64] in
theorem lifetime_snoc : lifetime cid (h ++ [t]) =
    if t.pre.sessions[cid]?.isSome then lifetime cid h ++ [t] else [t] := by
  rw [lifetime, List.foldl_append]
  rfl

omit [Base64] in
theorem lossless_snoc (hs : t.pre.sessions[cid]? = some s) :
    Lossless cid (lifetime cid (h ++ [t])) ↔
      Lossless cid (lifetime cid h) ∧ ¬ loses cid t.pre t.input := by
  rw [lifetime_snoc, hs, Option.isSome_some, if_pos rfl, Lossless, List.forall_mem_append]
  simp [Lossless]

omit [SessionStore σ] [Base64] in
theorem given_snoc (hs : t.pre.sessions[cid]? = some s) :
    given cid (h ++ [t]) = given cid h ++ returned cid t.output := by
  rw [given, lifetime_snoc, hs, Option.isSome_some, if_pos rfl, List.flatMap_append, given]
  simp

omit [SessionStore σ] [Base64] in
theorem given_made (habsent : t.pre.sessions[cid]? = none) :
    given cid (h ++ [t]) = returned cid t.output := by
  rw [given, lifetime_snoc, habsent]
  simp

omit [Base64] in
theorem lossless_made (habsent : t.pre.sessions[cid]? = none) :
    Lossless cid (lifetime cid (h ++ [t])) := by
  rw [lifetime_snoc, habsent]
  intro t' ht'
  obtain rfl : t' = t := by simpa using ht'
  cases hop : t'.input with
  | datagram nowMs src bytes =>
    rintro ⟨frame, s, -, -, hs, -⟩
    simp [habsent] at hs
  | pollTimers | sendMessage => exact id

end Snoc

/-- A session's messages so far: all have been given out in order, or some step has lost
some and fewer have been given out than the session has counted. -/
theorem given_of_run {cfg : CoreConfig} {store : σ} {h : ServerHistory σ}
    (hrun : Run ServerRuntime.step (ServerRuntime.new cfg store) h rt) :
    ∀ s, rt.sessions[cid]? = some s →
      (Lossless cid (lifetime cid h) → given cid h = List.range' 1 s.core.lastOrderedRx) ∧
      (¬ Lossless cid (lifetime cid h) → (given cid h).length < s.core.lastOrderedRx) := by
  induction hrun with
  | nil =>
    intro s hs
    simp [ServerRuntime.new] at hs
  | @snoc h rt rt' op res hr hs ih =>
    intro s' hs'
    cases hpre : rt.sessions[cid]? with
    | none =>
      obtain ⟨hzero, hret⟩ := step_made hs hpre hs'
      refine ⟨fun _ => ?_, fun hnot => absurd (lossless_made hpre) hnot⟩
      rw [given_made hpre, hret, hzero]
      rfl
    | some s =>
      obtain ⟨hgiven, hlost⟩ := ih s hpre
      obtain ⟨n, hlast, hkept, hgone⟩ := step_advances (hosting_of_run hr) hs hpre hs'
      have hle : (given cid h).length ≤ s.core.lastOrderedRx := by
        by_cases hall : Lossless cid (lifetime cid h)
        · simp [hgiven hall]
        · exact (hlost hall).le
      rw [lossless_snoc hpre, given_snoc hpre, hlast]
      refine ⟨fun hboth => ?_, fun hsome => ?_⟩
      · rw [hgiven hboth.1, hkept hboth.2, Nat.add_comm s.core.lastOrderedRx 1, List.range'_append_1]
      · rw [List.length_append]
        by_cases hl : loses cid rt op
        · obtain ⟨hn, hnil⟩ := hgone hl
          rw [hnil, List.length_nil]
          omega
        · have hold := hlost fun hall => hsome ⟨hall, hl⟩
          rw [hkept hl, List.length_range']
          omega

/-- The caller has been given all the messages a live session has counted, 1, 2, 3, ...,
exactly when no record of newly completed messages has failed to be written since the
session was made. -/
theorem given_in_order_iff {cfg : CoreConfig} {store : σ} {h : ServerHistory σ}
    (hrun : Run ServerRuntime.step (ServerRuntime.new cfg store) h rt)
    (hs : rt.sessions[cid]? = some s) :
    given cid h = List.range' 1 s.core.lastOrderedRx ↔
      ∀ t ∈ lifetime cid h, ¬ loses cid t.pre t.input := by
  obtain ⟨hgiven, hlost⟩ := given_of_run hrun s hs
  refine ⟨fun hall => ?_, hgiven⟩
  by_contra hnot
  have hshort := hlost hnot
  rw [hall, List.length_range'] at hshort
  exact lt_irrefl _ hshort

end Step

/-! ### A store that fails once -/

/-- A store in memory that fails in an `upsert` when the next of `failures` is set. -/
structure FlakyStore where
  inner : InMemorySessionStore
  failures : List Bool

def FlakyStore.upsert (s : FlakyStore) (cid : UInt64) (record : SessionRecord)
    (ttlMs nowMs : UInt64) : FlakyStore × Except StoreError VersionedRecord :=
  if s.failures.headD false then (⟨s.inner, s.failures.tail⟩, .error (.io "unavailable"))
  else
    let (inner, written) := s.inner.upsert cid record ttlMs nowMs
    (⟨inner, s.failures.tail⟩, written)

instance : SessionStore FlakyStore where
  load s cid nowMs :=
    let (inner, loaded) := s.inner.load cid nowMs
    (⟨inner, s.failures⟩, loaded)
  upsert := FlakyStore.upsert
  delete s cid :=
    let (inner, deleted) := s.inner.delete cid
    (⟨inner, s.failures⟩, deleted)

def flakyServer : ServerRuntime FlakyStore :=
  .new .default ⟨.withDefaultShards, [false, true]⟩

/-- The client sends message 1 again when the call has failed, and then message 2. -/
def resentMessage : List Op :=
  [.datagram 0 1 ((Packet.control .clientHello).bytes 7),
    .datagram 1 1 ((Packet.data 1 [10] 0 2).bytes 7),
    .datagram 2 1 ((Packet.data 1 [10] 0 2).bytes 7),
    .datagram 3 1 ((Packet.data 2 [20] 0 2).bytes 7)]

theorem resentMessage_given :
    ∃ h rt s, exec ServerRuntime.step flakyServer resentMessage = some (h, rt) ∧
      rt.sessions[(7 : UInt64)]? = some s ∧
      (given 7 h = List.range' 1 s.core.lastOrderedRx ↔
        ∀ t ∈ lifetime 7 h, ¬ loses 7 t.pre t.input) := by
  have hsome : (exec ServerRuntime.step flakyServer resentMessage).any fun x =>
      x.2.sessions[(7 : UInt64)]?.isSome := by
    decide +kernel
  obtain ⟨⟨h, rt⟩, hexec, hin⟩ := (Option.any_eq_true _ _).mp hsome
  obtain ⟨s, hs⟩ := Option.isSome_iff_exists.mp hin
  exact ⟨h, rt, s, hexec, hs, given_in_order_iff (Run.of_exec hexec) hs⟩

theorem resentMessage_lost :
    ∃ h rt, Run ServerRuntime.step flakyServer h rt ∧
      (∃ s, rt.sessions[(7 : UInt64)]? = some s) ∧ ¬ ∃ n, given 7 h = List.range' 1 n := by
  have hsome : (exec ServerRuntime.step flakyServer resentMessage).any fun x =>
      x.2.sessions[(7 : UInt64)]?.isSome && given 7 x.1 = [2] := by
    decide +kernel
  obtain ⟨⟨h, rt⟩, hexec, hboth⟩ := (Option.any_eq_true _ _).mp hsome
  obtain ⟨hin, hgiven⟩ := Bool.and_eq_true_iff.mp hboth
  refine ⟨h, rt, Run.of_exec hexec, Option.isSome_iff_exists.mp hin, ?_⟩
  rintro ⟨n, hn⟩
  rw [of_decide_eq_true hgiven] at hn
  cases n with
  | zero => simp at hn
  | succ n => simp [List.range'_succ] at hn

end Todero.Server
