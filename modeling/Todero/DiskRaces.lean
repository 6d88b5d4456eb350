import Todero.DiskThreads

/-! Which interleavings of the threads leave the files behind the map: two writes of one cid
whose appends come in the other order, and writes between the copy of a compaction and the
end of it. -/
namespace Todero.Store
open Todero.Wire Journal Transition

section Harm
variable [SerdeJson] {w : SharedStore} {thread : Nat} {op : DiskOp}

omit [SerdeJson] in
theorem appends_of_task {ops : List DiskOp} {result : Reply}
    (h : w.tasks thread = .appending (op :: ops) result) :
    w.appends (.go thread) = some op := by
  simp [SharedStore.appends, h, Task.ops]

theorem harmful_append_iff {ops : List DiskOp} {result : Reply}
    (h : w.tasks thread = .appending (op :: ops) result) :
    w.Harmful (.go thread) ↔ ¬ w.Safe op.change.key op.change.after := by
  constructor
  · intro hharm
    cases hharm with
    | append ht hsafe =>
      rw [h] at ht
      injection ht with hops
      injection hops with hop
      rwa [hop]
    | rename ht _ _ _ => rw [h] at ht; cases ht
    | truncate ht _ => rw [h] at ht; cases ht
  · exact .append h

theorem harmful_rename_iff {payload : Bytes} (h : w.tasks thread = .renamingTmp)
    (htmp : w.store.files.tmp = some payload) :
    w.Harmful (.go thread) ↔
      ∃ cid, ¬ w.store.files.Logs cid ∧ ¬ w.Safe cid (snapshotLook (some payload) cid) := by
  constructor
  · intro hharm
    cases hharm with
    | append ht _ => rw [h] at ht; cases ht
    | rename ht hp hlogs hsafe =>
      rw [htmp] at hp
      obtain rfl := Option.some.inj hp
      exact ⟨_, hlogs, hsafe⟩
    | truncate ht _ => rw [h] at ht; cases ht
  · rintro ⟨cid, hlogs, hsafe⟩
    exact .rename h htmp hlogs hsafe

theorem harmful_truncate_iff (h : w.tasks thread = .truncatingLog) :
    w.Harmful (.go thread) ↔ ∃ cid, ¬ w.Safe cid (snapshotLook w.store.files.snapshot cid) := by
  constructor
  · intro hharm
    cases hharm with
    | append ht _ => rw [h] at ht; cases ht
    | rename ht _ _ _ => rw [h] at ht; cases ht
    | truncate ht hsafe => exact ⟨_, hsafe⟩
  · rintro ⟨cid, hsafe⟩
    exact .truncate h hsafe

end Harm

section Races
variable [SerdeJson] [DefaultHasher] {s : DiskSessionStore} {w w' : SharedStore} {m : Move}
  {h : List (Taken SharedStore Move Returned)}

/-- The files show the map, but for what is still to be appended. -/
def SharedStore.Covered (w : SharedStore) : Prop :=
  Journal.Covered (held w.store.entries) w.store.files.look w.pending

/-- A step that appends to the log what the map holds no more. -/
def StaleAppend (cid : UInt64) (t : Taken SharedStore Move Returned) : Prop :=
  ∃ op, t.pre.appends t.input = some op ∧ op.change.after ≠ held t.pre.store.entries cid

def AppendsOf (cid : UInt64) (t : Taken SharedStore Move Returned) : Prop :=
  ∃ op, t.pre.appends t.input = some op ∧ op.change.key = cid

/-- The last append of `cid` in a run was stale. -/
abbrev EndsStale (cid : UInt64) (h : List (Taken SharedStore Move Returned)) : Prop :=
  LastHas (AppendsOf cid) (StaleAppend cid) h

/-- The moves of `upsert`, `compare_and_swap` and `delete`. -/
def Move.Writes : Move → Prop
  | .call _ c => match c.op with
    | .upsert _ _ _ | .compareAndSwap _ _ _ _ | .delete _ => True
    | _ => False
  | .compact _ _ => False
  | .go _ => True

/-- No thread is in a compaction. -/
def SharedStore.OnlyAppends (w : SharedStore) : Prop :=
  ∀ thread, w.tasks thread = .idle ∨ ∃ ops result, w.tasks thread = .appending ops result

/-- From a state in which the files show the map, the harmful steps are those after which
they do not. -/
theorem SharedStore.Moved.covered_iff (h : w.Moved w' m) (hc : w.Covered) :
    w'.Covered ↔ ¬ w.Harmful m := by
  have hsafe : ∀ cid e, w.Safe cid e ↔ e = held w.store.entries cid ∨
      ⟨cid, held w.store.entries cid⟩ ∈ w.pending := fun _ _ => Iff.rfl
  cases h with
  | unseen hharmless _ hmem hlook hpending =>
    rw [Covered, hmem, hlook, hpending]
    exact iff_of_true hc hharmless
  | staged cs hmem hlook hpending =>
    rw [Covered, hmem, hlook, hpending]
    exact iff_of_true ((hc.mono Set.subset_union_left).writes fun c hc => .inr hc) nofun
  | loaded cs _ hmem hlook hpending =>
    rw [Covered, hmem, hlook, hpending]
    exact iff_of_true (hc.replay cs) nofun
  | appended htask hmem hlook hsub hrest =>
    rw [harmful_append_iff htask, not_not, hsafe, Covered, hmem, hlook]
    exact covered_append_iff hc hsub hrest
  | renamed base cs htask htmp hmem hlook hlogs hlook' hpending =>
    rw [Covered, hlook] at hc
    rw [harmful_rename_iff htask htmp, Covered, hmem, hlook', hpending, covered_rebase_iff hc]
    simp [hlogs, hsafe, or_iff_not_imp_left]
  | truncated htask hmem hlook hpending =>
    rw [harmful_truncate_iff htask, Covered, hmem, hlook, hpending]
    simp [hsafe, Journal.Covered, or_iff_not_imp_left]

variable [LawfulSerdeJson]

/-- The threads start on a store whose files show its map. -/
theorem DiskSessionStore.Synced.shared (h : s.Synced) :
    (SharedStore.start s).Sound ∧ s.files.look = held s.entries := by
  obtain ⟨base, ops, hfiles, hheld⟩ := h.saved
  refine ⟨⟨h.fits, ⟨base, ops, hfiles⟩, ?_, nofun, nofun⟩, ?_⟩
  · intro thread op hop
    simp [SharedStore.start, Task.ops] at hop
  · rw [hfiles.look_eq, hheld]

/-- The files can be opened, and show what `look` says. -/
theorem SharedStore.Sound.opens (h : w.Sound) :
    ∃ s', (DiskSessionStore.new Io.fine w.store.files).2 = .ok s' ∧
      held s'.entries = w.store.files.look := by
  obtain ⟨base, ops, hfiles⟩ := h.files
  obtain ⟨s', hs', -, hheld⟩ := hfiles.opens
  exact ⟨s', hs', by rw [hheld, hfiles.look_eq]⟩

/-- Without harmful steps the files go on showing the map. -/
theorem covered_of_run (hs : s.Reached) (hrun : Run SharedStore.step (.start s) h w)
    (hsafe : ∀ t ∈ h, ¬ t.pre.Harmful t.input) : w.Sound ∧ w.Covered := by
  obtain ⟨hsound, hlook⟩ := hs.synced.shared
  refine hrun.invariant (A := fun t => ¬ t.pre.Harmful t.input) (I := fun _ w => w.Sound ∧ w.Covered)
    ⟨hsound, .of_eq hlook⟩ ?_ hsafe
  rintro h w m w' r ⟨hsound, hc⟩ hstep hharm
  obtain ⟨hsound', hmoved⟩ := SharedStore.step_moved hsound hstep
  exact ⟨hsound', (hmoved.covered_iff hc).mpr hharm⟩

/-! ### Runs without compactions -/

omit [LawfulSerdeJson] in
theorem Task.step_appending {files files' : Files} {ops : List DiskOp} {result : Reply}
    {task : Task} {r : Returned}
    (hstep : (Task.appending ops result).step files = some (files', task, r)) :
    task = .idle ∨ ∃ ops result, task = .appending ops result := by
  cases ops with
  | nil =>
    simp only [Task.step, Option.some.injEq, Prod.mk.injEq] at hstep
    exact .inl hstep.2.1.symm
  | cons op ops =>
    simp only [Task.step] at hstep
    split at hstep
    · simp only [Option.some.injEq, Prod.mk.injEq] at hstep
      exact .inl hstep.2.1.symm
    · simp only [Option.some.injEq, Prod.mk.injEq] at hstep
      exact .inr ⟨ops, result, hstep.2.1.symm⟩

omit [SerdeJson] [DefaultHasher] [LawfulSerdeJson] in
theorem SharedStore.OnlyAppends.update (ho : w.OnlyAppends) {task : Task}
    (htask : task = .idle ∨ ∃ ops result, task = .appending ops result)
    (store : DiskSessionStore) (thread : Nat) :
    SharedStore.OnlyAppends ⟨store, Function.update w.tasks thread task⟩ := by
  intro other
  by_cases h : other = thread
  · subst h
    simpa using htask
  · simpa [Function.update_of_ne h] using ho other

omit [LawfulSerdeJson] in
theorem SharedStore.OnlyAppends.step (ho : w.OnlyAppends) (hm : m.Writes) {r : Returned}
    (hstep : w.step m = some (w', r)) : w'.OnlyAppends := by
  cases m with
  | call thread c =>
    simp only [SharedStore.step] at hstep
    split at hstep
    · obtain ⟨rfl, -⟩ := Prod.mk.inj (Option.some.inj hstep)
      unfold SharedStore.begin
      split
      · exact ho.update (.inr ⟨_, _, rfl⟩) _ _
      · exact ho.update (.inr ⟨_, _, rfl⟩) _ _
    · cases hstep
  | compact thread order => cases hm
  | go thread =>
    simp only [SharedStore.step, Option.map_eq_some_iff] at hstep
    obtain ⟨⟨files, task, returned⟩, hgo, heq⟩ := hstep
    obtain ⟨rfl, -⟩ := Prod.mk.inj heq
    refine ho.update ?_ _ _
    rcases ho thread with hidle | ⟨ops, result, htask⟩
    · rw [hidle] at hgo
      cases hgo
    · rw [htask] at hgo
      exact Task.step_appending hgo

/-- Unless a change of `cid` is still to be appended, the files show what the map holds for it
exactly if its last append was not stale. -/
def ShownUnlessStale (cid : UInt64) (h : List (Taken SharedStore Move Returned))
    (w : SharedStore) : Prop :=
  (∃ c ∈ w.pending, c.key = cid) ∨
    (w.store.files.look cid = held w.store.entries cid ↔ ¬ EndsStale cid h)

omit [LawfulSerdeJson] in
theorem SharedStore.Moved.shown {cid : UInt64} {h : List (Taken SharedStore Move Returned)}
    {r : Returned} (hmoved : w.Moved w' m) (ho : w.OnlyAppends) (hm : m.Writes)
    (hshown : ShownUnlessStale cid h w) : ShownUnlessStale cid (h ++ [⟨w, m, r, w'⟩]) w' := by
  have hnone : w.appends m = none → ¬ AppendsOf cid ⟨w, m, r, w'⟩ := by
    rintro hnone ⟨op, hop, -⟩
    simp [hnone] at hop
  cases hmoved with
  | unseen _ happends hmem hlook hpending =>
    rwa [ShownUnlessStale, hmem, hlook, hpending, EndsStale, lastHas_snoc_of_not (hnone happends)]
  | staged cs hmem hlook hpending =>
    rw [ShownUnlessStale, hmem, hlook, hpending, EndsStale, lastHas_snoc_of_not (hnone rfl)]
    by_cases htouched : ∃ c ∈ cs, c.key = cid
    · obtain ⟨c, hc, hkey⟩ := htouched
      exact .inl ⟨c, .inr hc, hkey⟩
    · rw [replay_of_untouched fun c hc hkey => htouched ⟨c, hc, hkey⟩]
      exact hshown.imp (fun ⟨c, hc, hkey⟩ => ⟨c, .inl hc, hkey⟩) id
  | loaded cs hload hmem hlook hpending =>
    obtain ⟨key, hop⟩ := hload
    simp [Move.Writes, hop] at hm
  | @appended thread op ops result htask hmem hlook hsub hrest =>
    have happends := appends_of_task htask
    by_cases hkey : op.change.key = cid
    · right
      have hp : AppendsOf cid ⟨w, .go thread, r, w'⟩ := ⟨op, happends, hkey⟩
      rw [EndsStale, lastHas_snoc_of hp, hmem, hlook, ← hkey, apply_same]
      simp [StaleAppend, happends]
    · have hp : ¬ AppendsOf cid ⟨w, .go thread, r, w'⟩ := by
        rintro ⟨op', hop', hkey'⟩
        rw [happends] at hop'
        exact hkey (Option.some.inj hop' ▸ hkey')
      rw [ShownUnlessStale, hmem, hlook, EndsStale, lastHas_snoc_of_not hp,
        apply_other (Ne.symm hkey)]
      refine hshown.imp (fun ⟨c, hc, hc'⟩ => ⟨c, (hrest c hc).resolve_left ?_, hc'⟩) id
      rintro rfl
      exact hkey hc'
  | @renamed thread _ _ _ htask =>
    rcases ho thread with h | ⟨_, _, h⟩ <;> simp [htask] at h
  | @truncated thread htask =>
    rcases ho thread with h | ⟨_, _, h⟩ <;> simp [htask] at h

theorem shown_of_run (hs : s.Reached) (hrun : Run SharedStore.step (.start s) h w)
    (hwrites : ∀ t ∈ h, t.input.Writes) :
    (w.Sound ∧ w.OnlyAppends) ∧ ∀ cid, ShownUnlessStale cid h w := by
  obtain ⟨hsound, hlook⟩ := hs.synced.shared
  refine hrun.invariant (A := fun t => t.input.Writes)
    (I := fun h w => (w.Sound ∧ w.OnlyAppends) ∧ ∀ cid, ShownUnlessStale cid h w)
    ⟨⟨hsound, fun _ => .inl rfl⟩, fun cid => .inr ?_⟩ ?_ hwrites
  · exact iff_of_true (congrFun hlook cid) lastHas_nil
  · rintro h w m w' r ⟨⟨hsound, ho⟩, hshown⟩ hstep hm
    obtain ⟨hsound', hmoved⟩ := SharedStore.step_moved hsound hstep
    exact ⟨⟨hsound', ho.step hm hstep⟩, fun cid => hmoved.shown ho hm (hshown cid)⟩

theorem reopened_iff (hs : s.Reached) (hrun : Run SharedStore.step (.start s) h w)
    (hwrites : ∀ t ∈ h, t.input.Writes) (hquiet : w.Quiet) :
    ∃ s', (DiskSessionStore.new Io.fine w.store.files).2 = .ok s' ∧
      ∀ cid : UInt64, s'.entries[cid]? = w.store.entries[cid]? ↔ ¬ EndsStale cid h := by
  obtain ⟨⟨hsound, -⟩, hshown⟩ := shown_of_run hs hrun hwrites
  obtain ⟨s', hs', hheld⟩ := hsound.opens
  refine ⟨s', hs', fun cid => ?_⟩
  have hcid := (hshown cid).resolve_left (by simp [hquiet.pending_eq])
  rw [← hheld] at hcid
  exact hcid

end Races

/-- Once all writes have returned, opening the files recovers the map if and only if no cid's
last append was stale. -/
theorem writes_persist_iff [SerdeJson] [DefaultHasher] [LawfulSerdeJson] {s : DiskSessionStore}
    {w : SharedStore} {h : List (Taken SharedStore Move Returned)} (hs : s.Reached)
    (hrun : Run SharedStore.step (.start s) h w) (hwrites : ∀ t ∈ h, t.input.Writes)
    (hquiet : w.Quiet) :
    ∃ s', (DiskSessionStore.new Io.fine w.store.files).2 = .ok s' ∧
      ((∀ cid : UInt64, s'.entries[cid]? = w.store.entries[cid]?) ↔
        ∀ cid, ¬ EndsStale cid h) := by
  obtain ⟨s', hs', hiff⟩ := reopened_iff hs hrun hwrites hquiet
  exact ⟨s', hs', forall_congr' hiff⟩

/-- Two threads write one cid, and the second one appends first. -/
def racingWrites : List Move :=
  [.call 0 ⟨100, .upsert 1 (sampleRecord 1 "a") 5000⟩,
    .call 1 ⟨100, .upsert 1 (sampleRecord 1 "b") 5000⟩, .go 1, .go 1, .go 0, .go 0]

/-- If it has returned, it has returned `Ok`. -/
def Succeeded : Returned → Prop
  | some (.inl r) => r.isOk
  | some (.inr r) => r.isOk
  | none => True

theorem racingWrites_run :
    ∃ (t₁ t₂ t₃ t₄ t₅ t₆ : Taken SharedStore Move Returned) (w : SharedStore),
      Run SharedStore.step (.start ⟨∅, { log := some [] }⟩) [t₁, t₂, t₃, t₄, t₅, t₆] w ∧
      [t₁, t₂, t₃, t₄, t₅, t₆].map Taken.input = racingWrites ∧
      [t₁, t₂, t₃, t₄, t₅, t₆].map Taken.output =
        [none, none, none, some (.inl (.ok (.written ⟨2, (sampleRecord 1 "b").1, 5100⟩))),
          none, some (.inl (.ok (.written ⟨1, (sampleRecord 1 "a").1, 5100⟩)))] ∧
      w.Quiet ∧ AppendsOf 1 t₅ ∧ StaleAppend 1 t₅ ∧ ¬ AppendsOf 1 t₆ := by
  have hexec : exec SharedStore.step (.start ⟨∅, { log := some [] }⟩) racingWrites =
    some ([⟨_, _, _, _⟩, ⟨_, _, _, _⟩, ⟨_, _, _, _⟩, ⟨_, _, _, _⟩, ⟨_, _, _, _⟩, ⟨_, _, _, _⟩], _) :=
      rfl
  refine ⟨_, _, _, _, _, _, _, Run.of_exec hexec, rfl, rfl, ?_, ⟨_, rfl, rfl⟩, ⟨_, rfl, ?_⟩, ?_⟩
  · exact fun thread => match thread with
      | 0 | 1 | _ + 2 => rfl
  · -- the first write made version 1, and the map holds version 2
    intro hsame
    have hversion := congrArg (Option.map Entry.version) hsame
    change Option.map Entry.version (DiskOp.change (.upsert 1 1 5100 _)).after = some 2 at hversion
    simp only [DiskOp.change, Option.map_map, Option.map_eq_some_iff] at hversion
    obtain ⟨r, -, hr⟩ := hversion
    exact absurd (show (1 : UInt64) = 2 from hr) (by decide)
  · rintro ⟨op, hop, -⟩
    cases hop

theorem racingWrites_writes {h : List (Taken SharedStore Move Returned)}
    (hinputs : h.map Taken.input = racingWrites) : ∀ t ∈ h, t.input.Writes := by
  rw [← List.forall_mem_map, hinputs]
  simp [racingWrites, Move.Writes]

/-- The entry of the first write is recovered, and the map has the second. -/
theorem racingWrites_forgotten :
    ∃ h w s', Run SharedStore.step (.start ⟨∅, { log := some [] }⟩) h w ∧
      h.map Taken.input = racingWrites ∧ w.Quiet ∧
      (DiskSessionStore.new Io.fine w.store.files).2 = .ok s' ∧
      ¬ ∀ cid : UInt64, s'.entries[cid]? = w.store.entries[cid]? := by
  obtain ⟨t₁, t₂, t₃, t₄, t₅, t₆, w, hrun, hinputs, -, hquiet, hof, hstale, hlast⟩ :=
    racingWrites_run
  obtain ⟨s', hs', hiff⟩ := writes_persist_iff firstStore_reached hrun
    (racingWrites_writes hinputs) hquiet
  refine ⟨_, w, s', hrun, hinputs, hquiet, hs', fun hall => hiff.mp hall 1 ?_⟩
  exact ⟨[t₁, t₂, t₃, t₄], t₅, [t₆], rfl, hof, hstale, by simpa using hlast⟩

theorem writes_forgotten :
    ¬ ∀ (s : DiskSessionStore) (h : List (Taken SharedStore Move Returned)) (w : SharedStore),
      s.Reached → Run SharedStore.step (.start s) h w → (∀ t ∈ h, t.input.Writes) → w.Quiet →
      (∀ t ∈ h, Succeeded t.output) →
      ∃ s', (DiskSessionStore.new Io.fine w.store.files).2 = .ok s' ∧
        ∀ cid : UInt64, s'.entries[cid]? = w.store.entries[cid]? := by
  intro hclaim
  obtain ⟨t₁, t₂, t₃, t₄, t₅, t₆, w, hrun, hinputs, houtputs, hquiet, hof, hstale, hlast⟩ :=
    racingWrites_run
  have hwrites := racingWrites_writes hinputs
  have hsucceeded : ∀ t ∈ [t₁, t₂, t₃, t₄, t₅, t₆], Succeeded t.output := by
    rw [← List.forall_mem_map, houtputs]
    simp [Succeeded, Except.isOk, Except.toBool]
  obtain ⟨s', hs', hsame⟩ := hclaim _ _ _ firstStore_reached hrun hwrites hquiet hsucceeded
  obtain ⟨s'', hs'', hiff⟩ := reopened_iff firstStore_reached hrun hwrites hquiet
  rw [hs'] at hs''
  obtain rfl := Except.ok.inj hs''
  refine (hiff 1).mp (hsame 1) ?_
  exact ⟨[t₁, t₂, t₃, t₄], t₅, [t₆], rfl, hof, hstale, by simpa using hlast⟩

/-! ### Compactions -/

theorem emptySnapshot_saved : ∃ payload, toVec (DiskSnapshot.doc ⟨sessionSchemaVersion, []⟩) =
    .ok payload ∧ Snapshotted (some payload) fun _ => none := by
  have hfit : AllFit (held ∅) := fun cid e he => by simp at he
  obtain ⟨items, payload, hcopy, hwrite, hsaved⟩ := copyEntries_saved hfit .byCid
  obtain rfl : [] = items := Except.ok.inj hcopy
  exact ⟨payload, hwrite, held_empty ▸ hsaved⟩

/-- A write whose map change comes before the snapshot is put in place, and whose append comes
after the truncation. -/
def keptWrite : List Move :=
  [.compact 0 .byCid, .call 1 ⟨100, .upsert 1 (sampleRecord 1 "a") 5000⟩, .go 0, .go 0, .go 0,
    .go 1, .go 1]

/-- The write is in the map and its append is still to come. -/
structure Unwritten (data : Bytes) (result : Reply) (w : SharedStore) : Prop where
  task : w.tasks 1 = .appending [.upsert 1 1 5100 data] result
  entries : w.store.entries = (∅ : Shard).insert 1 ⟨1, (sampleRecord 1 "a").1, 5100⟩

theorem keptWrite_run :
    ∃ (t₁ t₂ t₃ t₄ t₅ t₆ t₇ : Taken SharedStore Move Returned) (w : SharedStore) (data : Bytes)
      (result : Reply),
      Run SharedStore.step (.start ⟨∅, { log := some [] }⟩) [t₁, t₂, t₃, t₄, t₅, t₆, t₇] w ∧
      [t₁, t₂, t₃, t₄, t₅, t₆, t₇].map Taken.input = keptWrite ∧ w.Quiet ∧
      encodeSessionRecord (sampleRecord 1 "a").1 = .ok data ∧
      t₃.pre.tasks 0 = .writingTmp [] ∧ t₄.pre.tasks 0 = .renamingTmp ∧
      t₅.pre.tasks 0 = .truncatingLog ∧ Unwritten data result t₄.pre ∧
      Unwritten data result t₅.pre ∧ Unwritten data result t₆.pre ∧
      t₇.pre.tasks 1 = .appending [] result ∧
      ∀ payload, toVec (DiskSnapshot.doc ⟨sessionSchemaVersion, []⟩) = .ok payload →
        t₄.pre.store.files.tmp = some payload ∧ t₅.pre.store.files.snapshot = some payload := by
  have hexec : exec SharedStore.step (.start ⟨∅, { log := some [] }⟩) keptWrite =
    some ([⟨_, _, _, _⟩, ⟨_, _, _, _⟩, ⟨_, _, _, _⟩, ⟨_, _, _, _⟩, ⟨_, _, _, _⟩, ⟨_, _, _, _⟩,
      ⟨_, _, _, _⟩], _) := rfl
  refine ⟨_, _, _, _, _, _, _, _, _, _, Run.of_exec hexec, rfl, ?_, rfl, rfl, rfl, rfl,
    ⟨rfl, rfl⟩, ⟨rfl, rfl⟩, ⟨rfl, rfl⟩, rfl, ?_⟩
  · exact fun thread => match thread with
      | 0 | 1 | _ + 2 => rfl
  · intro payload hpayload
    obtain rfl := Except.ok.inj hpayload
    exact ⟨rfl, rfl⟩

theorem change_of_encode {cid version expiresAtMs : UInt64} {r : Record} {data : Bytes}
    (h : encodeSessionRecord r.1 = .ok data) :
    (DiskOp.upsert cid version expiresAtMs data).change = ⟨cid, some ⟨version, r.1, expiresAtMs⟩⟩ := by
  obtain ⟨data', hencode, -, hdecode⟩ := encodeSessionRecord_decodes r.2
  rw [h] at hencode
  obtain rfl := Except.ok.inj hencode
  simp [DiskOp.change, hdecode, Except.toOption]

/-- Neither what the empty snapshot shows nor the append is harmful then. -/
theorem Unwritten.safe {data : Bytes} {result : Reply} {w : SharedStore}
    (h : Unwritten data result w) (hdata : encodeSessionRecord (sampleRecord 1 "a").1 = .ok data)
    (cid : UInt64) : w.Safe cid none := by
  by_cases hcid : cid = 1
  · subst hcid
    refine .inr ⟨1, .upsert 1 1 5100 data, by simp [h.task, Task.ops], ?_⟩
    rw [change_of_encode hdata, h.entries, held_insert, Function.update_self]
  · left
    rw [h.entries, held_insert, Function.update_of_ne hcid, held_empty]

/-- A write between the copy of the map and the truncation of the log. -/
def lostWrite : List Move :=
  [.compact 0 .byCid, .call 1 ⟨100, .upsert 1 (sampleRecord 1 "a") 5000⟩, .go 1, .go 1, .go 0,
    .go 0, .go 0]

theorem lostWrite_run :
    ∃ (h : List (Taken SharedStore Move Returned)) (w : SharedStore),
      Run SharedStore.step (.start ⟨∅, { log := some [] }⟩) h w ∧ h.map Taken.input = lostWrite ∧
      h.map Taken.output =
        [none, none, none, some (.inl (.ok (.written ⟨1, (sampleRecord 1 "a").1, 5100⟩))), none,
          none, some (.inr (.ok ()))] ∧
      w.Quiet ∧ w.store.files.log = some [] ∧
      (∀ payload, toVec (DiskSnapshot.doc ⟨sessionSchemaVersion, []⟩) = .ok payload →
        w.store.files.snapshot = some payload) ∧
      w.store.entries[(1 : UInt64)]? = some ⟨1, (sampleRecord 1 "a").1, 5100⟩ := by
  have hexec : exec SharedStore.step (.start ⟨∅, { log := some [] }⟩) lostWrite =
    some ([⟨_, _, _, _⟩, ⟨_, _, _, _⟩, ⟨_, _, _, _⟩, ⟨_, _, _, _⟩, ⟨_, _, _, _⟩, ⟨_, _, _, _⟩,
      ⟨_, _, _, _⟩], _) := rfl
  refine ⟨_, _, Run.of_exec hexec, rfl, rfl, ?_, rfl, ?_, rfl⟩
  · exact fun thread => match thread with
      | 0 | 1 | _ + 2 => rfl
  · intro payload hpayload
    obtain rfl := Except.ok.inj hpayload
    rfl

end Todero.Store
