import Todero.ServerTallies

/-! Which Data datagrams the server runtime takes for retransmissions: those whose message the
same session has sent before. A session that ends takes its memory with it. -/
namespace Todero.Server
open Todero.Wire Todero.Core Todero.Store Transition Tally

/-- The session and the message of a Data datagram. -/
def dataIdOf (d : OutboundDatagram) : Option (UInt64 × Nat) :=
  match WireFrame.decode d.bytes with
  | .error _ => none
  | .ok frame =>
    if frame.messageType = .data ∧ 8 ≤ frame.payload.length then
      some (frame.cid, (BigEndian.take 8 frame.payload).1)
    else none

def dataIds : RuntimeResult → List (UInt64 × Nat)
  | .ok out => out.outboundDatagrams.filterMap dataIdOf
  | .error _ => []

section Histories
variable {σ : Type}

/-- What the sessions that are left after a call have been sent for. -/
def sentAfter (seen : List (UInt64 × Nat)) (t : Taken (ServerRuntime σ) Op RuntimeResult) :
    List (UInt64 × Nat) :=
  (seen ++ dataIds t.output).filter fun x => t.post.sessions.contains x.1

/-- The messages sent by the sessions that are there, and how many datagrams of the run
repeated one of their session. -/
def sendings (h : ServerHistory σ) : List (UInt64 × Nat) × Nat :=
  h.foldl (fun x t => (sentAfter x.1 t, x.2 + repeats x.1 (dataIds t.output))) ([], 0)

/-- The session that is there has sent the message: it did so in some call, and has stayed
since. -/
def SentBefore (h : ServerHistory σ) (x : UInt64 × Nat) : Prop :=
  After (fun _ => True) (fun t => x ∈ dataIds t.output ∧ t.post.sessions.contains x.1)
    (fun t => t.post.sessions.contains x.1) h

theorem sendings_snoc (h : ServerHistory σ) (t : Taken (ServerRuntime σ) Op RuntimeResult) :
    sendings (h ++ [t]) = (sentAfter (sendings h).1 t,
      (sendings h).2 + repeats (sendings h).1 (dataIds t.output)) := by
  rw [sendings, List.foldl_append]
  rfl

theorem mem_sendings (h : ServerHistory σ) (x : UInt64 × Nat) :
    x ∈ (sendings h).1 ↔ SentBefore h x := by
  induction h using List.reverseRecOn with
  | nil => exact iff_of_false (by simp [sendings]) not_after_nil
  | append_singleton h t ih =>
    rw [SentBefore, after_snoc, ← SentBefore, ← ih, sendings_snoc]
    simp only [sentAfter, List.mem_filter, List.mem_append]
    tauto

/-- What the live sessions remember is in `seen`, and the rest of `seen` is of none. -/
def ServerRuntime.Remembers (rt : ServerRuntime σ) (seen : List (UInt64 × Nat)) : Prop :=
  ∀ cid s, rt.sessions[cid]? = some s → ∀ id, s.sentDataIds.contains id ↔ (cid, id) ∈ seen

/-- The runtime remembers `more` as well, and has counted what it remembered already. -/
structure ServerRuntime.Recalls (rt : ServerRuntime σ) (seen more : List (UInt64 × Nat))
    (rt' : ServerRuntime σ) : Prop where
  remembers : rt'.Remembers (seen ++ more)
  counted : Moved u64Max True rt.metrics.dataRetransmitInferred.toNat (repeats seen more)
    rt'.metrics.dataRetransmitInferred.toNat

variable {rt rt' rt'' : ServerRuntime σ} {seen more : List (UInt64 × Nat)} {cid : UInt64}
  {s : SessionRuntime}

theorem retransmit_le (m : ServerRuntimeMetrics) : m.dataRetransmitInferred.toNat ≤ u64Max :=
  Nat.le_of_lt_succ m.dataRetransmitInferred.toNat_lt

theorem contains_insert_iff (ids : Std.TreeSet Nat) (a b : Nat) :
    (ids.insert a).contains b ↔ ids.contains b ∨ b = a := by
  rw [Std.TreeSet.contains_insert, Bool.or_eq_true, beq_iff_eq, compare_eq_iff_eq, or_comm]
  exact or_congr_right eq_comm

theorem bump_retransmits (n : UInt64) : Moved u64Max True n.toNat (1 + 0) (bump n).toNat := by
  rw [bump_toNat]
  exact .bumped 1

theorem ServerRuntime.Recalls.same (hrem : rt.Remembers seen)
    (hsessions : rt'.sessions = rt.sessions)
    (hcount : rt'.metrics.dataRetransmitInferred = rt.metrics.dataRetransmitInferred) :
    rt.Recalls seen [] rt' := by
  refine ⟨fun cid s hs => ?_, ?_⟩
  · rw [hsessions] at hs
    simpa using hrem cid s hs
  · rw [hcount]
    exact .still (retransmit_le _)

theorem ServerRuntime.Recalls.trans {later : List (UInt64 × Nat)} (h : rt.Recalls seen more rt')
    (h' : rt'.Recalls (seen ++ more) later rt'') : rt.Recalls seen (more ++ later) rt'' := by
  refine ⟨by rw [← List.append_assoc]; exact h'.remembers, ?_⟩
  rw [repeats_append]
  exact h.counted.trans h'.counted

/-- A session put in place of one that remembers the same. -/
theorem ServerRuntime.Remembers.insert (hrem : rt.Remembers seen) (s' : SessionRuntime)
    (hs' : ∀ id, s'.sentDataIds.contains id ↔ (cid, id) ∈ seen) :
    ({ rt with sessions := rt.sessions.insert cid s' } : ServerRuntime σ).Remembers seen := by
  intro other s hs id
  have hs : (rt.sessions.insert cid s')[other]? = some s := hs
  by_cases hne : cid = other
  · subst hne
    obtain rfl : s' = s := by simpa using hs
    exact hs' id
  · rw [Std.TreeMap.getElem?_insert, if_neg (by simpa using hne)] at hs
    exact hrem other s hs id

/-- One datagram of a session is observed. -/
theorem observeDatagram_recalls (hrem : rt.Remembers seen) (hs : rt.sessions[cid]? = some s)
    {d : OutboundDatagram} (hd : ∃ frame, WireFrame.decode d.bytes = .ok frame ∧ frame.cid = cid) :
    rt.Recalls seen (dataIdOf d).toList (rt.observeDatagram cid d) := by
  obtain ⟨frame, hdec, rfl⟩ := hd
  unfold ServerRuntime.observeDatagram dataIdOf
  simp only [hdec]
  cases htype : frame.messageType with
  | data =>
    dsimp only
    simp only [hs, true_and]
    split_ifs with hlong hseen
    · -- sent before: the session stays as it is
      have hold := (hrem _ s hs _).mp hseen
      refine ⟨fun other s' hs' id => ?_, ?_⟩
      · rw [hrem other s' hs' id, Option.toList_some, List.mem_append, List.mem_singleton]
        exact ⟨.inl, fun hmem => hmem.elim (fun h => h) fun heq => heq ▸ hold⟩
      · rw [Option.toList_some, repeats, if_pos hold]
        exact bump_retransmits _
    · -- new: the session remembers it from now on
      have hnew := mt (hrem _ s hs _).mpr hseen
      refine ⟨?_, ?_⟩
      · intro other s' hs' id
        rw [Option.toList_some, List.mem_append, List.mem_singleton]
        by_cases hne : frame.cid = other
        · subst hne
          obtain rfl : _ = s' := by simpa using hs'
          rw [contains_insert_iff, hrem _ s hs id, Prod.mk.injEq]
          tauto
        · have hs' : (rt.sessions.insert frame.cid _)[other]? = some s' := hs'
          rw [Std.TreeMap.getElem?_insert, if_neg (by simpa using hne)] at hs'
          rw [hrem other s' hs' id, Prod.mk.injEq]
          tauto
      · rw [Option.toList_some, repeats, if_neg hnew]
        exact .still (retransmit_le _)
    · exact .same hrem rfl rfl
  | _ => exact .same hrem rfl rfl

theorem observeDatagrams_recalls {ds : List OutboundDatagram} (hall : AllOf cid ds)
    (hrem : rt.Remembers seen) (hs : rt.sessions[cid]? = some s) :
    rt.Recalls seen (ds.filterMap dataIdOf) (rt.observeDatagrams cid ds) := by
  induction ds generalizing rt seen s with
  | nil => exact .same hrem rfl rfl
  | cons d ds ih =>
    have hone := observeDatagram_recalls hrem hs (hall d List.mem_cons_self)
    obtain ⟨ids, hs'⟩ := (observeDatagram_observed cid rt d).session s hs
    have hrest := ih (fun d' hd' => hall d' (List.mem_cons_of_mem d hd')) hone.remembers hs'
    have hcons : (d :: ds).filterMap dataIdOf = (dataIdOf d).toList ++ ds.filterMap dataIdOf := by
      cases hd : dataIdOf d <;> simp [hd]
    rw [hcons]
    exact hone.trans hrest

theorem observed_retransmits (events : List Event) (m : ServerRuntimeMetrics) :
    (events.foldl observeCoreEvent m).dataRetransmitInferred = m.dataRetransmitInferred := by
  induction events generalizing m with
  | nil => rfl
  | cons event events ih =>
    rw [List.foldl_cons, ih]
    cases event <;> rfl

variable [SessionStore σ]

theorem ensureSessionLoaded_retransmits (rt : ServerRuntime σ) (cid : UInt64) (src : UInt32)
    (nowMs : UInt64) :
    (rt.ensureSessionLoaded cid src nowMs).1.metrics.dataRetransmitInferred =
      rt.metrics.dataRetransmitInferred := by
  unfold ServerRuntime.ensureSessionLoaded
  split_ifs
  · rfl
  · dsimp only
    split
    · rfl
    · unfold ServerRuntime.updatePeakSessionsMetric
      split_ifs <;> rfl

theorem persist_retransmits (rt : ServerRuntime σ) (cid nowMs : UInt64) :
    (rt.persist cid nowMs).1.metrics.dataRetransmitInferred =
      rt.metrics.dataRetransmitInferred := by
  unfold ServerRuntime.persist
  split
  · rfl
  · split_ifs
    · dsimp only
      split <;> rfl
    · dsimp only
      split <;> rfl

/-- What is left in place remembers what it did. -/
theorem persist_remembers (hrem : rt.Remembers seen) (hs : rt.sessions[cid]? = some s)
    (nowMs : UInt64) : (rt.persist cid nowMs).1.Remembers seen := by
  have hper := persist_persisted hs nowMs
  intro other s' hs' id
  by_cases hne : other = cid
  · subst hne
    rw [hper.kept] at hs'
    split_ifs at hs'
    obtain rfl := Option.some.inj hs'
    exact hrem other s hs id
  · rw [hper.others other hne] at hs'
    exact hrem other s' hs' id

variable [Base64] {src : UInt32} {nowMs : UInt64} {res : RuntimeResult}

omit [SessionStore σ] [Base64] in
theorem AllOf.redirect {ds : List OutboundDatagram} (h : AllOf cid ds) (src : UInt32) :
    AllOf cid (ds.map (ServerRuntime.redirect src)) := by
  intro d hd
  obtain ⟨d', hd', rfl⟩ := List.mem_map.mp hd
  exact h d' hd'

theorem drive_recalls {called : CoreMachine × CallResult} (hrem : rt.Remembers seen)
    (hs : rt.sessions[cid]? = some s) (hall : AllOf cid called.2.output.outboundDatagrams)
    (hok : ¬ storeFailed (rt.drive cid s src nowMs called).2) :
    rt.Recalls seen (dataIds (rt.drive cid s src nowMs called).2)
      (rt.drive cid s src nowMs called).1 := by
  obtain ⟨core, res⟩ := called
  cases res with
  | error e =>
    have hkept := hrem.insert { s with core := core } (hrem cid s hs)
    exact ⟨by simpa [dataIds, ServerRuntime.drive] using hkept, .still (retransmit_le _)⟩
  | ok out =>
    -- the runtime once the events have been observed and the timers taken in
    let rt₁ := ({ rt with
      sessions := rt.sessions.insert cid { s with core := core }
      metrics := out.events.foldl observeCoreEvent rt.metrics } : ServerRuntime σ).ingestTimers cid
        out.timerActions
    let datagrams := out.outboundDatagrams.map (ServerRuntime.redirect src)
    have hs₁ : rt₁.sessions[cid]? = some { s with core := core } := by
      simp [rt₁, ServerRuntime.ingestTimers]
    have hrem₁ : rt₁.Remembers seen :=
      hrem.insert { s with core := core } (hrem cid s hs)
    obtain ⟨hremembers, hcounted⟩ := observeDatagrams_recalls (AllOf.redirect hall src) hrem₁ hs₁
    obtain ⟨ids, hs₂⟩ := (observeDatagrams_observed cid datagrams rt₁).session _ hs₁
    have hmoved : Moved u64Max True rt.metrics.dataRetransmitInferred.toNat
        (repeats seen (datagrams.filterMap dataIdOf))
        ((rt₁.observeDatagrams cid datagrams).persist cid
          nowMs).1.metrics.dataRetransmitInferred.toNat := by
      rw [persist_retransmits, ← observed_retransmits out.events rt.metrics]
      exact hcounted
    have hres : (rt.drive cid s src nowMs (core, .ok out)).2 =
        .ok ⟨datagrams, ServerRuntime.runtimeEvents cid out.events⟩ := by
      cases hper : ((rt₁.observeDatagrams cid datagrams).persist cid nowMs).2 with
      | ok u =>
        simp only [rt₁, datagrams] at hper
        simp only [ServerRuntime.drive, ServerRuntime.applyCoreOutput, hper, datagrams]
      | error e =>
        refine absurd ?_ hok
        simp only [rt₁, datagrams] at hper
        simp only [ServerRuntime.drive, ServerRuntime.applyCoreOutput, hper, storeFailed]
    rw [hres]
    exact ⟨persist_remembers hremembers hs₂ nowMs, hmoved⟩

theorem fire_recalls (hrt : rt.Hosting) (hrem : rt.Remembers seen) (nowMs : UInt64) (due : DueTimer)
    (hok : ¬ storeFailed (rt.fire nowMs due).2) :
    rt.Recalls seen (dataIds (rt.fire nowMs due).2) (rt.fire nowMs due).1 := by
  unfold ServerRuntime.fire at hok ⊢
  dsimp only at hok ⊢
  cases hs : rt.sessions[due.cid]? with
  | none => exact .same hrem rfl rfl
  | some s =>
    simp only [hs] at hok
    have hall := apply_allOf (m := s.core) (k := .timer nowMs due.timerId) rfl
    rw [(hrt _ _ hs).named] at hall
    have hrem' : ServerRuntime.Remembers { rt with
        timers := dropTimer rt.timers due.deadline (due.cid, due.timerId) } seen := hrem
    have hrecalls := drive_recalls hrem' hs hall hok
    exact ⟨hrecalls.remembers, hrecalls.counted⟩

omit [SessionStore σ] [Base64] in
theorem dataIds_append (out out' : ServerRuntimeOutput) :
    dataIds (.ok ⟨out.outboundDatagrams ++ out'.outboundDatagrams, out.events ++ out'.events⟩) =
      dataIds (.ok out) ++ dataIds (.ok out') :=
  List.filterMap_append

omit [SessionStore σ] [Base64] in
theorem dataIds_map (res : RuntimeResult) (f : ServerRuntimeOutput → List RuntimeEvent) :
    dataIds (res.map fun out => { out with events := f out }) = dataIds res := by
  cases res <;> rfl

theorem fireAll_recalls (dues : List DueTimer) {rt₀ rt : ServerRuntime σ} (hrt : rt.Hosting)
    {output : ServerRuntimeOutput} (hstart : rt₀.Recalls seen (dataIds (.ok output)) rt)
    (hok : ¬ storeFailed (ServerRuntime.fireAll nowMs rt dues output).2) :
    rt₀.Recalls seen (dataIds (ServerRuntime.fireAll nowMs rt dues output).2)
      (ServerRuntime.fireAll nowMs rt dues output).1 := by
  induction dues generalizing rt output with
  | nil => exact hstart
  | cons due rest ih =>
    have hfired := fire_fired nowMs rt due
    have hfire := fire_recalls hrt hstart.remembers nowMs due
    rw [ServerRuntime.fireAll] at hok ⊢
    cases hf : rt.fire nowMs due with
    | mk rt₁ res₁ =>
      rw [hf] at hok hfired hfire
      cases res₁ with
      | error e => exact absurd hfired.error_store hok
      | ok partOut =>
        refine ih (hfired.hosting hrt) ?_ hok
        rw [dataIds_append]
        exact hstart.trans (hfire fun hfail => hfail)

/-- Nothing of a session that is not there is in the memory. -/
def ServerRuntime.Holds (rt : ServerRuntime σ) (seen : List (UInt64 × Nat)) : Prop :=
  ∀ x ∈ seen, rt.sessions.contains x.1

omit [Base64] in
theorem Enters.remembers (henter : Enters rt cid src nowMs s rt') (hrem : rt.Remembers seen)
    (hholds : rt.Holds seen) : rt'.Remembers seen := by
  cases henter with
  | present => exact hrem
  | @fresh loaded _ habsent _ _ _ hsessions _ =>
    intro other s' hs' id
    rw [hsessions] at hs'
    by_cases hne : cid = other
    · subst hne
      obtain rfl : freshSession rt.cfg cid src loaded = s' := by simpa using hs'
      have hids : (freshSession rt.cfg cid src loaded).sentDataIds = ∅ := by cases loaded <;> rfl
      rw [hids]
      refine iff_of_false (by simp) fun hmem => ?_
      have hin := hholds _ hmem
      rw [Std.TreeMap.contains_eq_isSome_getElem?, habsent] at hin
      cases hin
    · rw [Std.TreeMap.getElem?_insert, if_neg (by simpa using hne)] at hs'
      exact hrem other s' hs' id

theorem onDatagram_recalls (hrt : rt.Hosting) (hrem : rt.Remembers seen) (hholds : rt.Holds seen)
    {bytes : Bytes} (hok : ¬ storeFailed (rt.onDatagram nowMs src bytes).2) :
    rt.Recalls seen (dataIds (rt.onDatagram nowMs src bytes).2)
      (rt.onDatagram nowMs src bytes).1 := by
  cases hdec : WireFrame.decode bytes with
  | error e =>
    simp only [ServerRuntime.onDatagram, hdec]
    exact .same hrem rfl rfl
  | ok frame =>
    have hensure := ensureSessionLoaded_retransmits rt frame.cid src nowMs
    obtain ⟨e, rt₁, heq, -⟩ | ⟨s, rt₁, heq, hs, henter⟩ :=
      ensureSessionLoaded_cases rt frame.cid src nowMs
    · have hcall : rt.onDatagram nowMs src bytes = (rt₁, .error (.store e)) := by
        simp only [ServerRuntime.onDatagram, hdec, heq]
      rw [hcall] at hok
      exact absurd trivial hok
    · have hcall : rt.onDatagram nowMs src bytes =
          ((rt₁.drive frame.cid s src nowMs (Core.onDatagram s.core nowMs src bytes)).1,
            (rt₁.drive frame.cid s src nowMs (Core.onDatagram s.core nowMs src bytes)).2.map
              fun out => { out with events := s.pathBound frame.cid src ++ out.events }) := by
        simp only [ServerRuntime.onDatagram, hdec, heq, hs]
      rw [hcall] at hok ⊢
      have hrecalls := drive_recalls (henter.remembers hrem hholds) hs
        (onDatagram_allOf hdec (henter.named hrt) nowMs src)
        (fun hfail => hok ((storeFailed_map _ _).mpr hfail))
      rw [heq] at hensure
      rw [dataIds_map]
      refine ⟨hrecalls.remembers, ?_⟩
      rw [← hensure]
      exact hrecalls.counted

/-- A call of the runtime: what it returns is remembered, and its repetitions are counted. -/
theorem step_recalls {op : Op} (hrt : rt.Hosting) (hrem : rt.Remembers seen)
    (hholds : rt.Holds seen) (hstep : rt.step op = some (rt', res)) (hok : ¬ storeFailed res) :
    rt.Recalls seen (dataIds res) rt' := by
  cases op with
  | datagram nowMs src bytes =>
    obtain ⟨rfl, rfl⟩ := Prod.mk.inj (Option.some.inj hstep)
    exact onDatagram_recalls hrt hrem hholds hok
  | pollTimers nowMs limit =>
    obtain ⟨rfl, rfl⟩ := Prod.mk.inj (Option.some.inj hstep)
    exact fireAll_recalls _ hrt (.same hrem rfl rfl) hok
  | sendMessage cid payload nowMs =>
    have hsend : rt.sendMessage cid payload nowMs = some (rt', res) := hstep
    unfold ServerRuntime.sendMessage at hsend
    cases hs : rt.sessions[cid]? with
    | none =>
      simp only [hs, Option.some.injEq, Prod.mk.injEq] at hsend
      obtain ⟨rfl, rfl⟩ := hsend
      exact .same hrem rfl rfl
    | some s =>
      simp only [hs, Option.map_eq_some_iff] at hsend
      obtain ⟨called, hcall, heq⟩ := hsend
      have hall : AllOf cid called.2.output.outboundDatagrams := by
        rw [← (hrt _ _ hs).named]
        exact apply_allOf (k := .send payload) hcall
      have hok' : ¬ storeFailed (rt.drive cid s 0 nowMs called).2 := by rwa [heq]
      have hrecalls := drive_recalls hrem hs hall hok'
      rwa [heq] at hrecalls

theorem recalls_of_run {cfg : CoreConfig} {store : σ} {h : ServerHistory σ}
    (hrun : Run ServerRuntime.step (ServerRuntime.new cfg store) h rt)
    (hstore : ∀ t ∈ h, ¬ storeFailed t.output) :
    rt.Remembers (sendings h).1 ∧ rt.Holds (sendings h).1 ∧
      rt.metrics.dataRetransmitInferred.toNat = min (sendings h).2 u64Max := by
  induction hrun with
  | nil =>
    refine ⟨fun cid s hs => ?_, by simp [sendings, ServerRuntime.Holds], rfl⟩
    simp [ServerRuntime.new] at hs
  | @snoc h rt rt' op res hr hstep ih =>
    obtain ⟨hold, hnew⟩ := List.forall_mem_append.mp hstore
    obtain ⟨hrem, hholds, hcount⟩ := ih hold
    have hok : ¬ storeFailed res := hnew _ (List.mem_singleton.mpr rfl)
    obtain ⟨hrem', hcounted⟩ := step_recalls (hosting_of_run hr) hrem hholds hstep hok
    rw [sendings_snoc]
    refine ⟨fun cid s hs id => ?_, fun x hx => (List.mem_filter.mp hx).2, ?_⟩
    · have hin : rt'.sessions.contains cid := by
        rw [Std.TreeMap.contains_eq_isSome_getElem?, hs]
        rfl
      rw [hrem' cid s hs id, sentAfter, List.mem_filter]
      exact ⟨fun hmem => ⟨hmem, hin⟩, And.left⟩
    · have hmoved := hcounted.exactly trivial
      rw [hmoved, hcount]
      dsimp only
      omega

/-- Where the store never fails, the counter of retransmissions is the number of returned Data
datagrams whose message the session of their cid had sent before, since it was made; and what
every live session remembers is just what it has sent. -/
theorem retransmissions_counted {cfg : CoreConfig} {store : σ} {h : ServerHistory σ}
    (hrun : Run ServerRuntime.step (ServerRuntime.new cfg store) h rt)
    (hstore : ∀ t ∈ h, ¬ storeFailed t.output) :
    rt.metrics.dataRetransmitInferred.toNat = min (sendings h).2 u64Max ∧
      (∀ x, x ∈ (sendings h).1 ↔ SentBefore h x) ∧
      ∀ cid s, rt.sessions[cid]? = some s →
        ∀ id, s.sentDataIds.contains id ↔ SentBefore h (cid, id) := by
  obtain ⟨hrem, -, hcount⟩ := recalls_of_run hrun hstore
  refine ⟨hcount, mem_sendings h, fun cid s hs id => ?_⟩
  rw [hrem cid s hs id, mem_sendings]

end Histories

/-- A client has a message sent twice, closes, and starts again: the new session numbers its
own messages. -/
def askedTwice : List Op :=
  [.datagram 0 1 ((Packet.control .clientHello).bytes 7), .sendMessage 7 [5] 1,
    .datagram 2 1 ((Packet.requestRange 1 1 0 0).bytes 7),
    .datagram 3 1 ((Packet.requestRange 1 1 0 0).bytes 7),
    .datagram 4 1 ((Packet.control .close).bytes 7),
    .datagram 5 1 ((Packet.control .clientHello).bytes 7), .sendMessage 7 [6] 6,
    .datagram 7 1 ((Packet.requestRange 1 1 0 0).bytes 7)]

theorem askedTwice_counted :
    ∃ h rt, exec ServerRuntime.step defaultServer askedTwice = some (h, rt) ∧
      rt.metrics.dataSent = 3 ∧ (sendings h).2 = 1 ∧
      rt.metrics.dataRetransmitInferred.toNat = min (sendings h).2 u64Max ∧
      (∀ x, x ∈ (sendings h).1 ↔ SentBefore h x) ∧
      ∀ cid s, rt.sessions[cid]? = some s →
        ∀ id, s.sentDataIds.contains id ↔ SentBefore h (cid, id) := by
  have hsome : (exec ServerRuntime.step defaultServer askedTwice).any fun x =>
      x.1.all (fun t => t.output.isOk) && x.2.metrics.dataSent == 3 && (sendings x.1).2 == 1 := by
    decide +kernel
  obtain ⟨⟨h, rt⟩, hexec, hall⟩ := (Option.any_eq_true _ _).mp hsome
  simp only [Bool.and_eq_true, List.all_eq_true, beq_iff_eq] at hall
  obtain ⟨⟨hok, hsent⟩, hrepeated⟩ := hall
  have hstore : ∀ t ∈ h, ¬ storeFailed t.output := fun t ht => not_failed_of_isOk (hok t ht)
  exact ⟨h, rt, hexec, hsent, hrepeated, retransmissions_counted (Run.of_exec hexec) hstore⟩

end Todero.Server
