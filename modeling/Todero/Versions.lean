import Todero.StoreCalls
import Todero.Lib.Transition

/-! What the version of a record tells a caller: as long as the record stays, each write
gives it a higher one, and once it is absent the versions start again. -/
namespace Todero.Store
open Todero.Core Transition

/-- The cid that a call is about. -/
def StoreOp.cid : StoreOp → Option UInt64
  | .load cid | .compareAndSwap cid _ _ _ | .upsert cid _ _ | .delete cid => some cid
  | .scanExpired _ _ _ => none

/-- The version that a reply reports, be it of a load, a write or a conflict. -/
def reportedVersion : Reply → Option UInt64
  | .ok (.loaded found) => found.map VersionedRecord.version
  | .ok (.written v) => some v.version
  | .error (.casConflict _ actual) => actual
  | _ => none

def InMemorySessionStore.step (s : InMemorySessionStore) (c : StoreCall) :
    Option (InMemorySessionStore × Reply) := some (s.call c)

abbrev StoreTaken := Taken InMemorySessionStore StoreCall Reply

namespace StoreTaken
variable (cid : UInt64) (t : StoreTaken)

/-- The caller has been told that `cid` is at version `v`. -/
def Tells (v : UInt64) : Prop :=
  t.input.op.cid = some cid ∧ reportedVersion t.output = some v

/-- A write to `cid` that succeeded. -/
def Writes : Prop := t.input.op.cid = some cid ∧ ∃ v, t.output = .ok (.written v)

def Deletes : Prop := t.input.op = .delete cid

/-- The call comes when there is no record of `cid`, or an expired one. -/
def Absent : Prop := liveAt t.pre.entry cid t.input.nowMs = none

end StoreTaken

theorem StoreTaken.served {t : StoreTaken}
    (hstep : InMemorySessionStore.step t.pre t.input = some (t.post, t.output)) :
    Served t.input t.pre.entry t.output t.post.entry := by
  obtain ⟨hpost, hreply⟩ := Prod.mk.inj (Option.some.inj hstep)
  rw [← hpost, ← hreply]
  exact t.pre.served t.input

@[simp] theorem reportedVersion_withoutCids (r : Reply) :
    reportedVersion (withoutCids r) = reportedVersion r := by
  rcases r with e | a
  · rfl
  · cases a <;> rfl

theorem withoutCids_ok (a : Answer) : ∃ a', withoutCids (.ok a) = .ok a' := by
  cases a <;> exact ⟨_, rfl⟩

/-! ### One call -/

/-- A call deletes the entry of a cid, or puts the next one in its place, or leaves it. -/
theorem serve_entry (look : Look) (c : StoreCall) (cid : UInt64) :
    c.op = .delete cid ∧ (serve look c).1 cid = none ∨
      (∃ r ttlMs, (serve look c).1 cid =
        some (nextEntry (liveAt look cid c.nowMs) r ttlMs c.nowMs)) ∨
      c.op ≠ .delete cid ∧ (c.op.cid = some cid → ∀ v, (serve look c).2 ≠ .ok (.written v)) ∧
        (serve look c).1 cid = look cid := by
  obtain ⟨nowMs, op⟩ := c
  cases op with
  | load key => simp [serve]
  | compareAndSwap key expectedVersion newRecord ttlMs =>
    by_cases hc : (liveAt look key nowMs).map Entry.version = expectedVersion
    · by_cases hk : key = cid
      · subst hk
        refine .inr (.inl ⟨newRecord.1, ttlMs, ?_⟩)
        simp [serve, hc]
      · simp [serve, hc, hk, StoreOp.cid, Function.update_of_ne (Ne.symm hk)]
    · simp [serve, hc]
  | upsert key newRecord ttlMs =>
    by_cases hk : key = cid
    · subst hk
      refine .inr (.inl ⟨newRecord.1, ttlMs, ?_⟩)
      simp [serve]
    · simp [serve, hk, StoreOp.cid, Function.update_of_ne (Ne.symm hk)]
  | delete key =>
    by_cases hk : key = cid
    · subst hk
      exact .inl ⟨rfl, Function.update_self ..⟩
    · simp [serve, hk, Function.update_of_ne (Ne.symm hk)]
  | scanExpired limit shards disk => simp [serve]

/-- The version in a reply is that of the entry that `serve` leaves. -/
theorem serve_reported {look : Look} {c : StoreCall} {cid v : UInt64} (hcid : c.op.cid = some cid)
    (hv : reportedVersion (serve look c).2 = some v) :
    ∃ e, (serve look c).1 cid = some e ∧ e.version = v := by
  obtain ⟨nowMs, op⟩ := c
  have hlive : ∀ e, liveAt look cid nowMs = some e → look cid = some e := fun e he =>
    (Option.filter_eq_some_iff.mp he).1
  cases op with
  | load key =>
    obtain rfl : key = cid := Option.some.inj hcid
    simp only [serve, reportedVersion, Option.map_map, Option.map_eq_some_iff] at hv
    obtain ⟨e, he, rfl⟩ := hv
    exact ⟨e, hlive e he, rfl⟩
  | compareAndSwap key expectedVersion newRecord ttlMs =>
    obtain rfl : key = cid := Option.some.inj hcid
    by_cases hc : (liveAt look key nowMs).map Entry.version = expectedVersion
    · simp only [serve, hc, ne_eq, not_true, if_false, reportedVersion, Option.some.injEq] at hv
      exact ⟨_, by simp only [serve, hc, ne_eq, not_true, if_false, Function.update_self], hv⟩
    · simp only [serve, hc, ne_eq, not_false_iff, if_true, reportedVersion,
        Option.map_eq_some_iff] at hv
      obtain ⟨e, he, rfl⟩ := hv
      refine ⟨e, ?_, rfl⟩
      simp only [serve, hc, ne_eq, not_false_iff, if_true, hlive e he]
  | upsert key newRecord ttlMs =>
    obtain rfl : key = cid := Option.some.inj hcid
    exact ⟨_, Function.update_self .., Option.some.inj hv⟩
  | delete key => simp [serve, reportedVersion] at hv
  | scanExpired limit shards disk => simp [StoreOp.cid] at hcid

/-- A successful swap finds a live record at the version it expects. -/
theorem serve_swapped {look : Look} {c : StoreCall} {cid v : UInt64} {newRecord : Record}
    {ttlMs : UInt64} {a : Answer} (hop : c.op = .compareAndSwap cid (some v) newRecord ttlMs)
    (hok : (serve look c).2 = .ok a) : ∃ e, liveAt look cid c.nowMs = some e ∧ e.version = v := by
  simp only [serve, hop] at hok
  split_ifs at hok with hc
  simpa only [ne_eq, not_not, Option.map_eq_some_iff] using hc

/-- Versions grow with every write, up to the largest. -/
theorem saturatingAdd_one_lt {v w : UInt64} (hv : v.toNat < u64Max) (hw : v ≤ w) :
    v < saturatingAdd w 1 := by
  rw [UInt64.lt_iff_toNat_lt, saturatingAdd_toNat]
  rw [UInt64.le_iff_toNat_le] at hw
  have hone : (1 : UInt64).toNat = 1 := rfl
  omega

/-! ### The calls after a version was reported -/

section After
variable {cid v : UInt64} {e : Entry} {h : List StoreTaken} {s s' : InMemorySessionStore}

/-- Nothing has happened to the entry of `cid` since, or there is none, or one of a later
version. -/
def Since (cid v : UInt64) (e : Entry) (h : List StoreTaken) (s : InMemorySessionStore) : Prop :=
  (s.entry cid = some e ∧ ∀ t ∈ h, ¬ t.Writes cid ∧ ¬ t.Deletes cid) ∨
    s.entry cid = none ∨ ∃ later, s.entry cid = some later ∧ v < later.version

/-- A call that finds the record live leaves things as they are, or leaves a later version
or none. -/
theorem Since.step (hv : v.toNat < u64Max) (he : e.version = v) (hsince : Since cid v e h s)
    {c : StoreCall} (hlive : ¬ StoreTaken.Absent cid ⟨s, c, (s.call c).2, (s.call c).1⟩) :
    Since cid v e (h ++ [⟨s, c, (s.call c).2, (s.call c).1⟩]) (s.call c).1 := by
  have hserved := s.served c
  obtain ⟨found, hfound⟩ := Option.ne_none_iff_exists'.mp hlive
  have hentry : s.entry cid = some found := (Option.filter_eq_some_iff.mp hfound).1
  rcases hserved.fades cid with hpost | ⟨hgone, -⟩
  swap
  · exact .inr (.inl hgone)
  rcases serve_entry s.entry c cid with ⟨-, hdel⟩ | ⟨r, ttlMs, hnext⟩ | ⟨hnodel, hnowrite, hsame⟩
  · exact .inr (.inl (hpost.trans hdel))
  · -- the version found is the reported one or a later one, and is raised
    have hversion : v ≤ found.version := by
      rcases hsince with ⟨hold, -⟩ | hnone | ⟨later, hold, hlt⟩
      · rw [hentry, Option.some.injEq] at hold
        rw [hold, he]
        exact UInt64.le_rfl
      · rw [hentry] at hnone
        cases hnone
      · rw [hentry, Option.some.injEq] at hold
        rw [hold]
        exact UInt64.le_of_lt hlt
    refine .inr (.inr ⟨_, hpost.trans hnext, ?_⟩)
    simpa [nextEntry, hfound] using saturatingAdd_one_lt hv hversion
  · rcases hsince with ⟨hold, hquiet⟩ | hnone | ⟨later, hold, hlt⟩
    · refine .inl ⟨hpost.trans (hsame.trans hold), fun t ht => ?_⟩
      rcases List.mem_append.mp ht with hpast | hlast
      · exact hquiet t hpast
      · obtain rfl := List.mem_singleton.mp hlast
        refine ⟨fun ⟨hcid, w, hw⟩ => hnowrite hcid w ?_, hnodel⟩
        have hreply : (s.call c).2 = .ok (.written w) := hw
        rw [← hserved.reply_eq, hreply]
        rfl
    · exact .inr (.inl (hpost.trans (hsame.trans hnone)))
    · exact .inr (.inr ⟨later, hpost.trans (hsame.trans hold), hlt⟩)

/-- However the run goes on, as long as no call finds the record absent. -/
theorem Since.run (hv : v.toNat < u64Max) (he : e.version = v) {start : InMemorySessionStore}
    (hstart : Since cid v e [] start) (hrun : Run InMemorySessionStore.step start h s)
    (hlive : ∀ t ∈ h, ¬ t.Absent cid) : Since cid v e h s := by
  refine hrun.invariant hstart (fun h s c s' o hsince hstep hlive => ?_) hlive
  obtain ⟨rfl, rfl⟩ := Prod.mk.inj (Option.some.inj hstep)
  exact hsince.step hv he hlive

theorem Since.of_told {told : StoreTaken}
    (hstep : InMemorySessionStore.step told.pre told.input = some (told.post, told.output))
    (htold : told.Tells cid v) : ∃ e : Entry, e.version = v ∧ Since cid v e [] told.post := by
  obtain ⟨hcid, hreport⟩ := htold
  have hserved := StoreTaken.served hstep
  rw [← reportedVersion_withoutCids, hserved.reply_eq] at hreport
  obtain ⟨e, hleft, hversion⟩ := serve_reported hcid hreport
  refine ⟨e, hversion, ?_⟩
  rcases hserved.fades cid with hpost | ⟨hgone, -⟩
  · exact .inl ⟨hpost.trans hleft, by simp⟩
  · exact .inr (.inl hgone)

/-- If a caller has been told that `cid` is at version `v` and a later swap from `v`
succeeds, then between the two the record was absent in some call, or it was neither
written nor deleted. -/
theorem swap_after_report {start : InMemorySessionStore} {before between : List StoreTaken}
    {told swap : StoreTaken} {newRecord : Record} {ttlMs : UInt64} {a : Answer}
    (hrun : Run InMemorySessionStore.step start (before ++ told :: between ++ [swap]) s)
    (htold : told.Tells cid v) (hmax : v.toNat < u64Max)
    (hop : swap.input.op = .compareAndSwap cid (some v) newRecord ttlMs)
    (hok : swap.output = .ok a) :
    (∃ t ∈ between, t.Absent cid) ∨
      ∀ t ∈ between, ¬ t.Writes cid ∧ ¬ t.Deletes cid ∧ ¬ t.Absent cid := by
  by_cases habsent : ∃ t ∈ between, t.Absent cid
  · exact .inl habsent
  right
  have hlive : ∀ t ∈ between, ¬ t.Absent cid := fun t ht h => habsent ⟨t, ht, h⟩
  obtain ⟨hbefore, hswap⟩ := hrun.split
  obtain ⟨e, hversion, hstart⟩ := Since.of_told hbefore.split.2 htold
  have hsince := hstart.run hmax hversion hbefore.continued hlive
  obtain ⟨found, hfound, hat⟩ : ∃ e, liveAt swap.pre.entry cid swap.input.nowMs = some e ∧
      e.version = v := by
    have hreply := (StoreTaken.served hswap).reply_eq
    obtain ⟨a', ha'⟩ := withoutCids_ok a
    rw [hok, ha'] at hreply
    exact serve_swapped hop hreply.symm
  have hentry : swap.pre.entry cid = some found := (Option.filter_eq_some_iff.mp hfound).1
  rcases hsince with ⟨-, hquiet⟩ | hnone | ⟨later, hlater, hlt⟩
  · exact fun t ht => ⟨(hquiet t ht).1, (hquiet t ht).2, hlive t ht⟩
  · rw [hentry] at hnone
    cases hnone
  · rw [hentry, Option.some.injEq] at hlater
    rw [← hlater, hat] at hlt
    exact absurd hlt (UInt64.lt_irrefl v)

end After

/-- A caller loads a record, others delete it and write another, and both get version 1. -/
def replacedRecord : List StoreCall :=
  [⟨100, .upsert 7 (sampleRecord 7 "a") 5000⟩, ⟨100, .load 7⟩, ⟨100, .delete 7⟩,
    ⟨100, .upsert 7 (sampleRecord 7 "b") 5000⟩,
    ⟨101, .compareAndSwap 7 (some 1) (sampleRecord 7 "c") 5000⟩]

theorem replacedRecord_run :
    ∃ (created told deleted written swap : StoreTaken) (s : InMemorySessionStore),
      Run InMemorySessionStore.step .withDefaultShards
        ([created] ++ told :: [deleted, written] ++ [swap]) s ∧
      [created, told, deleted, written, swap].map Taken.input = replacedRecord ∧
      told.Tells 7 1 ∧ deleted.Deletes 7 ∧ written.Writes 7 ∧
      swap.input.op = .compareAndSwap 7 (some 1) (sampleRecord 7 "c") 5000 ∧
      swap.output = .ok (.written ⟨2, (sampleRecord 7 "c").1, 5101⟩) := by
  have hexec : exec InMemorySessionStore.step .withDefaultShards replacedRecord =
    some ([⟨_, _, _, _⟩, ⟨_, _, _, _⟩, ⟨_, _, _, _⟩, ⟨_, _, _, _⟩, ⟨_, _, _, _⟩], _) := rfl
  exact ⟨_, _, _, _, _, _, Run.of_exec hexec, rfl, ⟨rfl, by decide⟩, rfl,
    ⟨rfl, ⟨1, (sampleRecord 7 "b").1, 5100⟩, by decide⟩, rfl, by decide⟩

theorem swap_over_unseen_record :
    ¬ ∀ (shardCount : Nat) (start : InMemorySessionStore),
      InMemorySessionStore.new shardCount = .ok start →
      ∀ (before between : List StoreTaken) (told swap : StoreTaken) (s : InMemorySessionStore)
        (cid v : UInt64) (newRecord : Record) (ttlMs : UInt64) (a : Answer),
        Run InMemorySessionStore.step start (before ++ told :: between ++ [swap]) s →
        ((before ++ told :: between ++ [swap]).Pairwise fun t u => t.input.nowMs ≤ u.input.nowMs) →
        told.Tells cid v → swap.input.op = .compareAndSwap cid (some v) newRecord ttlMs →
        swap.output = .ok a →
        ∀ t ∈ between, ¬ t.Writes cid ∧ ¬ t.Deletes cid ∧ ¬ t.Absent cid := by
  intro hclaim
  obtain ⟨created, told, deleted, written, swap, s, hrun, hinputs, htold, hdeleted, -, hop, hswap⟩ :=
    replacedRecord_run
  have htimes : ([created] ++ told :: [deleted, written] ++ [swap]).Pairwise
      fun t u => t.input.nowMs ≤ u.input.nowMs := by
    have hcalls : replacedRecord.Pairwise fun c d => c.nowMs ≤ d.nowMs := by decide
    rw [← hinputs, List.pairwise_map] at hcalls
    exact hcalls
  have hquiet := hclaim 32 .withDefaultShards rfl [created] [deleted, written] told swap s 7 1 _ _ _
    hrun htimes htold hop hswap deleted List.mem_cons_self
  exact hquiet.2.1 hdeleted

/-- There the second write finds the record absent. -/
theorem replacedRecord_absent :
    ∃ (created told deleted written swap : StoreTaken) (s : InMemorySessionStore),
      Run InMemorySessionStore.step .withDefaultShards
        ([created] ++ told :: [deleted, written] ++ [swap]) s ∧
      [created, told, deleted, written, swap].map Taken.input = replacedRecord ∧
      ∃ t ∈ [deleted, written], t.Absent 7 := by
  obtain ⟨created, told, deleted, written, swap, s, hrun, hinputs, htold, hdeleted, -, hop, hswap⟩ :=
    replacedRecord_run
  refine ⟨created, told, deleted, written, swap, s, hrun, hinputs, ?_⟩
  rcases swap_after_report hrun htold (by decide) hop hswap with h | hquiet
  · exact h
  · exact absurd hdeleted (hquiet deleted List.mem_cons_self).2.1

end Todero.Store
