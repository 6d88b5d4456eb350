import Todero.DiskLog

/-! Reopening the store on disk: after any sequential run, after a compaction cut short, and
after an append cut short. -/
namespace Todero.Store
open Todero.Wire Journal

section Recovery
variable [SerdeJson] [DefaultHasher]

/-- The stores that a sequential run reaches from an empty directory, without I/O errors and
with openings in between. -/
inductive DiskSessionStore.Reached : DiskSessionStore → Prop
  | opened {s : DiskSessionStore} : (DiskSessionStore.new Io.fine {}).2 = .ok s → Reached s
  | called {s : DiskSessionStore} (c : StoreCall) : Reached s → Reached (s.call Io.fine c).1
  | compacted {s s' : DiskSessionStore} (order : IterOrder) : Reached s →
      s.compact Io.fine order = (s', .ok ()) → Reached s'
  | reopened {s s' : DiskSessionStore} : Reached s →
      (DiskSessionStore.new Io.fine s.files).2 = .ok s' → Reached s'

/-- The files hold the map. -/
structure DiskSessionStore.Synced (s : DiskSessionStore) : Prop where
  fits : AllFit (held s.entries)
  saved : ∃ base ops, s.files.Holds base ops ∧
    held s.entries = replay base (ops.map DiskOp.change)

variable {s s' : DiskSessionStore} {base : Look} {ops : List DiskOp}

/-- The log replayed on top of a snapshot that contains it already. -/
theorem DiskSessionStore.Synced.renamed (h : s.Synced) {payload : Bytes}
    (hsaved : Snapshotted (some payload) (held s.entries)) :
    Synced ⟨s.entries, { s.files with snapshot := some payload, tmp := none }⟩ := by
  obtain ⟨base, ops, hfiles, hheld⟩ := h.saved
  refine ⟨h.fits, held s.entries, ops, ⟨hsaved, hfiles.log⟩, ?_⟩
  rw [hheld, replay_replay]

theorem DiskSessionStore.Synced.truncated (h : s.Synced) {payload : Bytes}
    (hsaved : Snapshotted (some payload) (held s.entries)) :
    Synced ⟨s.entries, { log := some [], snapshot := some payload }⟩ :=
  ⟨h.fits, held s.entries, [], ⟨hsaved, .nil⟩, rfl⟩

omit [SerdeJson] [DefaultHasher] in
/-- Truncating the log empties it or fails. -/
theorem truncateLog_files (io : Option Fault) (files : Files) :
    (truncateLog io files).1 = files ∨ (truncateLog io files).1 = { files with log := some [] } := by
  unfold truncateLog writeFile
  cases io with
  | none => exact .inr rfl
  | some fault =>
    cases hwritten : fault.written with
    | none => exact .inl (by simp [hwritten])
    | some n => exact .inr (by simp [hwritten])

variable [LawfulSerdeJson]

namespace DiskSessionStore.Synced

theorem empty (h : (DiskSessionStore.new Io.fine {}).2 = .ok s) : s.Synced := by
  obtain ⟨s', hs', hfiles, hheld⟩ := Files.Holds.empty.opens
  rw [h] at hs'
  obtain rfl := Except.ok.inj hs'
  refine ⟨fun cid e he => ?_, _, _, ?_, hheld⟩
  · rw [hheld] at he
    cases he
  · rw [hfiles]
    exact Files.Holds.empty.reopened

theorem reopens (h : s.Synced) :
    ∃ s', (DiskSessionStore.new Io.fine s.files).2 = .ok s' ∧ s'.Synced ∧
      held s'.entries = held s.entries := by
  obtain ⟨base, ops, hfiles, hheld⟩ := h.saved
  obtain ⟨s', hs', hfiles', hheld'⟩ := hfiles.opens
  refine ⟨s', hs', ⟨?_, base, ops, ?_, hheld'⟩, hheld'.trans hheld.symm⟩
  · rw [hheld', ← hheld]
    exact h.fits
  · rw [hfiles']
    exact hfiles.reopened

theorem called (h : s.Synced) (c : StoreCall) : (s.call Io.fine c).1.Synced := by
  obtain ⟨hchange, hsound⟩ := stage_changes s.entries c
  obtain ⟨base, ops, hfiles, hheld⟩ := h.saved
  rw [DiskSessionStore.call_eq, DiskSessionStore.finish_fine]
  refine ⟨?_, base, ops ++ (stage s.entries c).appends, hfiles.appendAll hsound 0, ?_⟩
  · rw [hchange]
    exact h.fits.replay hsound
  · rw [hchange, hheld, List.map_append, replay_append]

/-- Wherever a compaction ends, the files hold the map. -/
theorem compacted (h : s.Synced) (io : Io) (order : IterOrder) :
    (s.compact io order).1.Synced ∧ (s.compact io order).1.entries = s.entries := by
  obtain ⟨items, payload, hcopy, hwrite, hsaved⟩ := copyEntries_saved h.fits order
  have htmp : ∀ tmp, Synced ⟨s.entries, { s.files with tmp := tmp }⟩ := fun tmp => by
    obtain ⟨base, ops, hfiles, hheld⟩ := h.saved
    exact ⟨h.fits, base, ops, ⟨hfiles.snapshot, hfiles.log⟩, hheld⟩
  simp only [compact, hcopy, writeTmp, hwrite]
  cases hio₀ : io 0 with
  | some fault => exact ⟨htmp _, rfl⟩
  | none =>
    simp only [writeFile, renameTmp]
    cases hio₁ : io 1 with
    | some fault => exact ⟨htmp _, rfl⟩
    | none =>
      refine ⟨?_, rfl⟩
      show Synced ⟨s.entries, (truncateLog (io 2) { s.files with
        snapshot := some payload, tmp := none }).1⟩
      rcases truncateLog_files (io 2) { s.files with snapshot := some payload, tmp := none } with
        hkept | hempty
      · rw [hkept]
        exact h.renamed hsaved
      · rw [hempty]
        exact h.truncated hsaved

end DiskSessionStore.Synced

theorem DiskSessionStore.Reached.synced (h : s.Reached) : s.Synced := by
  induction h with
  | opened hnew => exact .empty hnew
  | called c _ ih => exact ih.called c
  | @compacted s s' order _ hcompact ih =>
    have hsynced := (ih.compacted Io.fine order).1
    rwa [hcompact] at hsynced
  | @reopened s s' _ hnew ih =>
    obtain ⟨s'', hs'', hsynced, -⟩ := ih.reopens
    rw [hnew] at hs''
    rwa [Except.ok.inj hs'']

/-! ### An append cut short -/

/-- The `k`th append of a call leaves only `n` bytes of its line. -/
def Io.tornAt (k n : Nat) : Io := fun i => if i = k then some ⟨"", some n⟩ else none

omit [LawfulSerdeJson] in
theorem DiskSessionStore.finish_files {α : Type} (io : Io) (s : DiskSessionStore)
    (staged : Staged α) :
    (s.finish io staged).1.files = (appendOps io 0 s.files staged.appends).1 := by
  unfold finish
  cases appendOps io 0 s.files staged.appends with
  | mk files r => cases r <;> rfl

omit [LawfulSerdeJson] in
theorem appendOp_fault (fault : Fault) (files : Files) (op : DiskOp) :
    ∃ e, (appendOp (some fault) files op).2 = .error e := by
  unfold appendOp
  cases logLine op with
  | error e => exact ⟨e, rfl⟩
  | ok line => exact ⟨_, rfl⟩

/-- The operations before the torn one are appended, and those after it are not. -/
theorem appendOps_torn (m n : Nat) (files : Files) (done rest : List DiskOp) (op : DiskOp) :
    (appendOps (Io.tornAt (m + done.length) n) m files (done ++ op :: rest)).1 =
      (appendOp (some ⟨"", some n⟩) (appendOps Io.fine m files done).1 op).1 := by
  induction done generalizing m files with
  | nil =>
    obtain ⟨e, he⟩ := appendOp_fault ⟨"", some n⟩ files op
    simp only [List.nil_append, appendOps, Io.tornAt, List.length_nil, Nat.add_zero, if_true]
    cases hr : appendOp (some ⟨"", some n⟩) files op with
    | mk files' r =>
      rw [hr] at he
      obtain rfl : r = .error e := he
      rfl
  | cons first done ih =>
    obtain ⟨line, hline⟩ := logLine_ok first
    have hnext : m + (done.length + 1) = m + 1 + done.length := by omega
    have hio : Io.tornAt (m + 1 + done.length) n m = none := if_neg (by omega)
    simp only [List.cons_append, appendOps, List.length_cons, hnext, hio]
    simp only [appendOp, hline, appendFile, Io.fine]
    simpa only [appendOp, appendFile] using ih (m + 1) _

/-- Part of a line is not read as an entry of the log. -/
theorem replayLine_cut {op : DiskOp} {line : Bytes} (hline : logLine op = .ok line) {n : Nat}
    (hpos : 0 < n) (hn : n < line.length) (entries : Shard) :
    ∃ e, replayLine entries (line.take n) = .error e := by
  obtain ⟨opBytes, hop, hwrite, -⟩ := logLine_entry hline
  obtain ⟨inner, hbraces⟩ := logLine_braces hline
  obtain ⟨rest, hpiece⟩ : ∃ rest, line.take n = 123 :: rest := by
    obtain ⟨k, rfl⟩ := Nat.exists_eq_succ_of_ne_zero hpos.ne'
    exact ⟨_, by rw [hbraces, List.take_succ_cons]⟩
  unfold replayLine
  cases hdecode : Utf8.decode (line.take n) with
  | none => exact ⟨_, rfl⟩
  | some s =>
    have hblank : s.toList.all isWhitespace = false := by
      rw [hpiece] at hdecode
      exact not_blank hdecode
    have hshort : line.take n ≠ line := fun h => by
      have hlength := congrArg List.length h
      rw [List.length_take] at hlength
      omega
    obtain ⟨e, he⟩ := LawfulSerdeJson.cut_short _ _ _ hwrite (List.take_prefix n line) hshort
    exact ⟨.corruptLogEntry, by simp [hblank, fromSlice, he]⟩

section Torn
variable {c : StoreCall} {done rest : List DiskOp} {op : DiskOp} {line : Bytes} {n : Nat}

/-- Opening after the crash reads what is left of the line, with everything before it
replayed. -/
theorem torn_opens (h : s.Reached) (hops : (stage s.entries c).appends = done ++ op :: rest)
    (hline : logLine op = .ok line) (hn : n ≤ line.length) :
    ∃ entries, held entries = replay (held s.entries) (done.map DiskOp.change) ∧
      (DiskSessionStore.new Io.fine (s.call (Io.tornAt done.length n) c).1.files).2 =
        (replayLog (line.take n) entries).map fun entries =>
          ⟨entries, (s.call (Io.tornAt done.length n) c).1.files.opened⟩ := by
  obtain ⟨-, hsound⟩ := stage_changes s.entries c
  rw [hops] at hsound
  obtain ⟨base, ops, hfiles, hheld⟩ := h.synced.saved
  have hdone := hfiles.appendAll (fun op' hop' => hsound op' (List.mem_append_left _ hop')) 0
  obtain ⟨entries, hrecover, hentries⟩ := hdone.recoverEntries
  rw [List.map_append, replay_append, ← hheld] at hentries
  refine ⟨entries, hentries, ?_⟩
  have htorn := appendOps_torn 0 n s.files done rest op
  rw [Nat.zero_add] at htorn
  rw [DiskSessionStore.new_eq, ← hrecover (line.take n), DiskSessionStore.call_eq,
    DiskSessionStore.finish_files, hops, htorn]
  simp only [appendOp, hline, appendFile, List.take_append_of_le_length hn]
  rfl

theorem replayLog_piece (hline : logLine op = .ok line) (hpos : 0 < n) (hn : n ≤ line.length)
    (entries : Shard) : replayLog (line.take n) entries = replayLine entries (line.take n) := by
  have hpiece : line.take n ≠ [] := by
    intro hnil
    have hlength := congrArg List.length hnil
    rw [List.length_take, List.length_nil] at hlength
    omega
  rw [replayLog, linesFrom_tail fun b hb => logLine_unbroken hline b (List.mem_of_mem_take hb),
    if_neg hpiece, List.foldlM_cons]
  cases replayLine entries (line.take n) <;> rfl

theorem torn_refused (h : s.Reached) (hops : (stage s.entries c).appends = done ++ op :: rest)
    (hline : logLine op = .ok line) (hpos : 0 < n) (hn : n < line.length) :
    ∃ e, (DiskSessionStore.new Io.fine (s.call (Io.tornAt done.length n) c).1.files).2 =
      .error e := by
  obtain ⟨entries, -, hnew⟩ := torn_opens h hops hline hn.le
  obtain ⟨e, he⟩ := replayLine_cut hline hpos hn entries
  exact ⟨e, by rw [hnew, replayLog_piece hline hpos hn.le, he]; rfl⟩

end Torn

end Recovery

/-! ### After a crash -/

theorem firstStore_reached : DiskSessionStore.Reached ⟨∅, { log := some [] }⟩ := .opened rfl

/-- One record written. -/
def writtenStore : DiskSessionStore :=
  (DiskSessionStore.call Io.fine ⟨∅, { log := some [] }⟩
    ⟨100, .upsert 7 (sampleRecord 7 "a") 5000⟩).1

theorem writtenStore_reached : writtenStore.Reached := firstStore_reached.called _

theorem writtenStore_entry :
    writtenStore.entries[(7 : UInt64)]? = some ⟨1, (sampleRecord 7 "a").1, 5100⟩ := rfl

/-- Opening the files of a store recovers its map, entry by entry. -/
theorem reopening_recovers [SerdeJson] [DefaultHasher] [LawfulSerdeJson] {s : DiskSessionStore}
    (h : s.Reached) :
    ∃ s', (DiskSessionStore.new Io.fine s.files).2 = .ok s' ∧
      ∀ cid : UInt64, s'.entries[cid]? = s.entries[cid]? := by
  obtain ⟨s', hs', -, hheld⟩ := h.synced.reopens
  exact ⟨s', hs', fun cid => congrFun hheld cid⟩

theorem writtenStore_reopened :
    ∃ s', (DiskSessionStore.new Io.fine writtenStore.files).2 = .ok s' ∧
      s'.entries[(7 : UInt64)]? = some ⟨1, (sampleRecord 7 "a").1, 5100⟩ := by
  obtain ⟨s', hs', hentries⟩ := reopening_recovers writtenStore_reached
  exact ⟨s', hs', (hentries 7).trans writtenStore_entry⟩

/-- Wherever a compaction is cut short, opening the files it leaves recovers the map from
before. A file call that the compaction does not get to, or not through, is a fault of `io`. -/
theorem compaction_crash_safe [SerdeJson] [DefaultHasher] [LawfulSerdeJson] {s : DiskSessionStore}
    (h : s.Reached) (io : Io) (order : IterOrder) :
    ∃ s', (DiskSessionStore.new Io.fine (s.compact io order).1.files).2 = .ok s' ∧
      ∀ cid : UInt64, s'.entries[cid]? = s.entries[cid]? := by
  obtain ⟨hsynced, hentries⟩ := h.synced.compacted io order
  obtain ⟨s', hs', -, hheld⟩ := hsynced.reopens
  rw [hentries] at hheld
  exact ⟨s', hs', fun cid => congrFun hheld cid⟩

/-- The crash comes between the rename and the truncation. -/
theorem writtenStore_renamed :
    ∃ s', (DiskSessionStore.new Io.fine (writtenStore.compact
        (fun i => if i = 2 then some ⟨"", none⟩ else none) .byCid).1.files).2 = .ok s' ∧
      s'.entries[(7 : UInt64)]? = some ⟨1, (sampleRecord 7 "a").1, 5100⟩ := by
  obtain ⟨s', hs', hentries⟩ := compaction_crash_safe writtenStore_reached
    (fun i => if i = 2 then some ⟨"", none⟩ else none) .byCid
  exact ⟨s', hs', (hentries 7).trans writtenStore_entry⟩

/-- If the crash leaves none of the line, or all of it but the line break, opening recovers
the map without or with the interrupted operation; if it leaves part of it, opening fails. -/
theorem torn_append [SerdeJson] [DefaultHasher] [LawfulSerdeJson] {s : DiskSessionStore}
    {c : StoreCall} {done rest : List DiskOp} {op : DiskOp} {line : Bytes} {n : Nat}
    (h : s.Reached) (hops : (stage s.entries c).appends = done ++ op :: rest)
    (hline : logLine op = .ok line) (hn : n ≤ line.length) :
    let reopened := (DiskSessionStore.new Io.fine (s.call (Io.tornAt done.length n) c).1.files).2
    (n = 0 → ∃ s', reopened = .ok s' ∧
        held s'.entries = replay (held s.entries) (done.map DiskOp.change)) ∧
      (n = line.length → ∃ s', reopened = .ok s' ∧
        held s'.entries = replay (held s.entries) ((done ++ [op]).map DiskOp.change)) ∧
      (0 < n → n < line.length → ∃ e, reopened = .error e) := by
  obtain ⟨entries, hentries, hnew⟩ := torn_opens h hops hline hn
  refine ⟨?_, ?_, torn_refused h hops hline⟩
  · rintro rfl
    exact ⟨_, hnew, hentries⟩
  · rintro rfl
    have hsound : op.Sound := (stage_changes s.entries c).2 op (by simp [hops])
    obtain ⟨entries', happly, hheld⟩ := hsound.applyOp entries
    have hpos : 0 < line.length := by
      obtain ⟨inner, hbraces⟩ := logLine_braces hline
      simp [hbraces]
    rw [replayLog_piece hline hpos le_rfl, List.take_length, replayLine_logLine hline,
      happly] at hnew
    refine ⟨_, hnew, ?_⟩
    rw [List.map_append, replay_append, ← hentries]
    exact hheld

/-- A write to an empty store whose line is cut short. -/
theorem firstWrite_line : ∃ op line, (stage ∅ ⟨100, .upsert 7 (sampleRecord 7 "a") 5000⟩).appends =
    [] ++ op :: [] ∧ logLine op = .ok line ∧ 1 < line.length := by
  obtain ⟨data, -, hwrite⟩ := stageWrite_eq ∅ 7 none (sampleRecord 7 "a") 5000 100
  obtain ⟨line, hline⟩ := logLine_ok (.upsert 7 1 5100 data)
  obtain ⟨inner, hbraces⟩ := logLine_braces hline
  exact ⟨_, line, congrArg Staged.appends hwrite, hline, by simp [hbraces]⟩

theorem firstWrite_torn :
    ∃ e, (DiskSessionStore.new Io.fine (DiskSessionStore.call (Io.tornAt 0 1)
        ⟨∅, { log := some [] }⟩ ⟨100, .upsert 7 (sampleRecord 7 "a") 5000⟩).1.files).2 =
      .error e := by
  obtain ⟨op, line, hops, hline, hlong⟩ := firstWrite_line
  exact (torn_append firstStore_reached hops hline hlong.le).2.2 Nat.one_pos hlong

theorem firstWrite_lost :
    ¬ ∀ (s : DiskSessionStore) (c : StoreCall) (done rest : List DiskOp) (op : DiskOp)
      (line : Bytes) (n : Nat), s.Reached → (stage s.entries c).appends = done ++ op :: rest →
      logLine op = .ok line → n ≤ line.length →
      ∃ s', (DiskSessionStore.new Io.fine (s.call (Io.tornAt done.length n) c).1.files).2 = .ok s' ∧
        (held s'.entries = replay (held s.entries) (done.map DiskOp.change) ∨
          held s'.entries = replay (held s.entries) ((done ++ [op]).map DiskOp.change)) := by
  intro hclaim
  obtain ⟨op, line, hops, hline, hlong⟩ := firstWrite_line
  obtain ⟨s', hs', -⟩ := hclaim _ _ [] [] op line 1 firstStore_reached hops hline hlong.le
  obtain ⟨e, he⟩ := torn_refused firstStore_reached hops hline Nat.one_pos hlong
  rw [he] at hs'
  cases hs'

end Todero.Store
