import Todero.StoreCalls
import Todero.Lib.Journal

/-! The files of the store on disk as a journal of changes: a line of the log read back is
the change it was written for, and a snapshot read back is the map it was copied from. -/
namespace Todero.Store
open Todero.Wire Journal

abbrev SessionChange := Change UInt64 Entry

/-- All records have 64-bit positions. -/
def AllFit (look : Look) : Prop := ∀ cid e, look cid = some e → e.record.Fits

section Changes
variable [SerdeJson]

/-- What replaying an operation does to the entries. -/
def DiskOp.change : DiskOp → SessionChange
  | .upsert cid version expiresAtMs data =>
    ⟨cid, (decodeSessionRecordMigrating data).toOption.map fun record =>
      ⟨version, record, expiresAtMs⟩⟩
  | .delete cid => ⟨cid, none⟩

/-- The record in an operation can be read. -/
def DiskOp.Sound : DiskOp → Prop
  | .upsert _ _ _ data => ∃ record, decodeSessionRecordMigrating data = .ok record ∧ record.Fits
  | .delete _ => True

theorem DiskOp.Sound.applyOp {op : DiskOp} (h : op.Sound) (entries : Shard) :
    ∃ entries', applyOp entries op = .ok entries' ∧
      held entries' = op.change.apply (held entries) := by
  cases op with
  | upsert cid version expiresAtMs data =>
    obtain ⟨record, hdecode, -⟩ := h
    refine ⟨entries.insert cid ⟨version, record, expiresAtMs⟩, by simp [Store.applyOp, hdecode], ?_⟩
    simp [change, Change.apply, hdecode, Except.toOption]
  | delete cid => exact ⟨entries.erase cid, rfl, held_erase entries cid⟩

theorem DiskOp.Sound.fits {op : DiskOp} (h : op.Sound) {e : Entry} (he : op.change.after = some e) :
    e.record.Fits := by
  cases op with
  | upsert cid version expiresAtMs data =>
    obtain ⟨record, hdecode, hfits⟩ := h
    simp only [change, hdecode, Except.toOption, Option.map_some, Option.some.injEq] at he
    rwa [← he]
  | delete cid => simp [change] at he

theorem AllFit.replay {look : Look} {ops : List DiskOp} (h : AllFit look)
    (hops : ∀ op ∈ ops, op.Sound) : AllFit (replay look (ops.map DiskOp.change)) := by
  induction ops generalizing look with
  | nil => exact h
  | cons op ops ih =>
    refine ih (fun cid e he => ?_) fun op' hop' => hops op' (List.mem_cons_of_mem op hop')
    by_cases hc : cid = op.change.key
    · subst hc
      rw [apply_same] at he
      exact (hops op List.mem_cons_self).fits he
    · rw [apply_other hc] at he
      exact h cid e he

/-- Erasing cids is replaying their deletions. -/
theorem held_eraseAll (map : Shard) (cids : List UInt64) :
    held (cids.foldl (fun map cid => map.erase cid) map) =
      replay (held map) ((cids.map DiskOp.delete).map DiskOp.change) := by
  induction cids generalizing map with
  | nil => rfl
  | cons cid cids ih =>
    rw [List.foldl_cons, ih, held_erase]
    rfl

variable [LawfulSerdeJson]

theorem stageWrite_changes (entries : Shard) (cid nowMs ttlMs : UInt64) (current : Option Entry)
    (newRecord : Record) :
    let staged := stageWrite entries cid (current.map Entry.version) newRecord.1 ttlMs nowMs
    held staged.entries = replay (held entries) (staged.appends.map DiskOp.change) ∧
      ∀ op ∈ staged.appends, op.Sound := by
  obtain ⟨data, hdecode, hwrite⟩ := stageWrite_eq entries cid current newRecord ttlMs nowMs
  simp only [hwrite, List.mem_singleton, forall_eq]
  refine ⟨?_, newRecord.1, hdecode, newRecord.2⟩
  simp [DiskOp.change, hdecode, Except.toOption, Change.apply, nextEntry]

/-- Under its lock a call changes the map as the operations it then appends to the log say. -/
theorem stage_changes (entries : Shard) (c : StoreCall) :
    held (stage entries c).entries =
        replay (held entries) ((stage entries c).appends.map DiskOp.change) ∧
      ∀ op ∈ (stage entries c).appends, op.Sound := by
  obtain ⟨nowMs, op⟩ := c
  cases op with
  | load cid =>
    simp only [stage, Staged.map, stageLoad]
    split
    · split_ifs with hlive
      · simp
      · simp [DiskOp.change, DiskOp.Sound, Change.apply]
    · simp
  | compareAndSwap cid expectedVersion newRecord ttlMs =>
    simp only [stage, Staged.map, stageCompareAndSwap]
    split_ifs with hc
    · simp
    · exact stageWrite_changes entries cid nowMs ttlMs (liveEntry entries cid nowMs) newRecord
  | upsert cid newRecord ttlMs =>
    exact stageWrite_changes entries cid nowMs ttlMs (liveEntry entries cid nowMs) newRecord
  | delete cid => simp [stage, Staged.map, stageDelete, DiskOp.change, DiskOp.Sound, Change.apply]
  | scanExpired limit shards disk =>
    simp only [stage, Staged.map, stageScanExpired]
    split_ifs with hlimit
    · simp
    · refine ⟨held_eraseAll entries _, fun op hop => ?_⟩
      obtain ⟨cid, -, rfl⟩ := List.mem_map.mp hop
      trivial

end Changes

/-! ### Lines -/

/-- What is read up to a line break does not depend on what comes after it. -/
theorem linesFrom_break (acc bytes rest : Bytes) :
    linesFrom acc (bytes ++ 10 :: rest) = linesFrom acc (bytes ++ [10]) ++ linesFrom [] rest := by
  induction bytes generalizing acc with
  | nil => simp [linesFrom]
  | cons b bytes ih =>
    by_cases hb : b = 10
    · simp only [List.cons_append, linesFrom, if_pos hb, ih]
    · simp only [List.cons_append, linesFrom, if_neg hb, ih]

/-- A piece without line breaks is read on. -/
theorem linesFrom_piece {piece : Bytes} (h : ∀ b ∈ piece, b ≠ 10) (acc rest : Bytes) :
    linesFrom acc (piece ++ rest) = linesFrom (acc ++ piece) rest := by
  induction piece generalizing acc with
  | nil => simp
  | cons b piece ih =>
    have hb := h b List.mem_cons_self
    simp only [List.cons_append, linesFrom, if_neg hb]
    rw [ih fun d hd => h d (List.mem_cons_of_mem b hd)]
    simp

theorem linesFrom_tail {tail : Bytes} (h : ∀ b ∈ tail, b ≠ 10) :
    linesFrom [] tail = if tail = [] then [] else [tail] := by
  simpa [linesFrom] using linesFrom_piece h [] []

section Log
variable [SerdeJson] [DefaultHasher] [LawfulSerdeJson]

/-- A line of the log is the text of an object, which is read back as it was. -/
theorem logLine_entry {op : DiskOp} {line : Bytes} (h : logLine op = .ok line) :
    ∃ opBytes, toVec op.doc = .ok opBytes ∧
      SerdeJson.toVec (DiskLogEntry.doc ⟨op, calcChecksum opBytes⟩) = .ok line ∧
      fromSlice DiskLogEntry.ofDoc line = .ok ⟨op, calcChecksum opBytes⟩ := by
  obtain ⟨opBytes, hop, -⟩ := toVec_plain op.plain op.ofDoc_doc
  obtain ⟨text, hwrite, hread⟩ := toVec_plain (DiskLogEntry.plain ⟨op, calcChecksum opBytes⟩)
    (DiskLogEntry.ofDoc_doc _)
  simp only [logLine, hop, hwrite] at h
  obtain rfl := Except.ok.inj h
  exact ⟨opBytes, hop, toVec_eq_ok.mp hwrite, hread⟩

theorem logLine_print {op : DiskOp} {line : Bytes} (h : logLine op = .ok line) :
    ∀ b ∈ line, 32 ≤ b.toNat := by
  obtain ⟨opBytes, -, hwrite, -⟩ := logLine_entry h
  exact (LawfulSerdeJson.one_line _ _ hwrite).2

theorem logLine_unbroken {op : DiskOp} {line : Bytes} (h : logLine op = .ok line) :
    ∀ b ∈ line, b ≠ 10 := by
  rintro b hb rfl
  exact absurd (logLine_print h 10 hb) (by decide)

theorem logLine_braces {op : DiskOp} {line : Bytes} (h : logLine op = .ok line) :
    ∃ inner, line = 123 :: (inner ++ [125]) := by
  obtain ⟨opBytes, -, hwrite, -⟩ := logLine_entry h
  exact LawfulSerdeJson.braces _ _ hwrite

omit [SerdeJson] [DefaultHasher] [LawfulSerdeJson] in
/-- A text that starts with a brace is not blank. -/
theorem not_blank {rest : Bytes} {s : String} (h : Utf8.decode (123 :: rest) = some s) :
    s.toList.all isWhitespace = false := by
  have hmem : (123 : UInt8) ∈ Utf8.encode s := by
    rw [Utf8.encode_of_decode h]
    exact List.mem_cons_self
  obtain ⟨c, hc, hcode⟩ := Utf8.ascii_mem_encode (by decide) hmem
  rw [List.all_eq_false]
  exact ⟨c, hc, by simp [isWhitespace, hcode]⟩

/-- A line read back is replayed as the operation it was written for. -/
theorem replayLine_logLine {op : DiskOp} {line : Bytes} (h : logLine op = .ok line)
    (entries : Shard) : replayLine entries line = applyOp entries op := by
  obtain ⟨opBytes, hop, hwrite, hread⟩ := logLine_entry h
  obtain ⟨s, hs⟩ := Option.isSome_iff_exists.mp (LawfulSerdeJson.one_line _ _ hwrite).1
  obtain ⟨inner, hline⟩ := logLine_braces h
  have hblank : s.toList.all isWhitespace = false := by
    rw [hline] at hs
    exact not_blank hs
  simp [replayLine, hs, hblank, hread, hop]

theorem linesFrom_logLine {op : DiskOp} {line : Bytes} (h : logLine op = .ok line) :
    linesFrom [] (line ++ [10]) = [line] := by
  have hcr : stripCr line = line := by
    obtain ⟨inner, hline⟩ := logLine_braces h
    have hlast : line.getLast? = some 125 := by
      rw [hline, ← List.cons_append, List.getLast?_concat]
    simp [stripCr, hlast]
  rw [linesFrom_piece (logLine_unbroken h)]
  simp [linesFrom, hcr]

/-- The log after these operations have been appended to an empty one. -/
inductive Logged : List DiskOp → Bytes → Prop
  | nil : Logged [] []
  | snoc {ops : List DiskOp} {log line : Bytes} {op : DiskOp} : Logged ops log → op.Sound →
      logLine op = .ok line → Logged (ops ++ [op]) (log ++ (line ++ [10]))

omit [LawfulSerdeJson] in
/-- The log ends with a line break. -/
theorem Logged.linesFrom_append {ops : List DiskOp} {log : Bytes} (h : Logged ops log)
    (rest : Bytes) : linesFrom [] (log ++ rest) = linesFrom [] log ++ linesFrom [] rest := by
  cases h with
  | nil => rfl
  | @snoc ops log line op hlog hsound hline =>
    have hbreak := linesFrom_break [] (log ++ line) rest
    simpa using hbreak

omit [LawfulSerdeJson] in
theorem replayLog_append {ops : List DiskOp} {log : Bytes} (h : Logged ops log) (rest : Bytes)
    (entries : Shard) :
    replayLog (log ++ rest) entries = (replayLog log entries).bind (replayLog rest) := by
  rw [replayLog, h.linesFrom_append, List.foldlM_append]
  rfl

/-- A log read back is the replay of the changes it was written for. -/
theorem Logged.replayed {ops : List DiskOp} {log : Bytes} (h : Logged ops log) (entries : Shard) :
    ∃ entries', replayLog log entries = .ok entries' ∧
      held entries' = replay (held entries) (ops.map DiskOp.change) := by
  induction h with
  | nil => exact ⟨entries, rfl, rfl⟩
  | @snoc ops log line op hlog hsound hline ih =>
    obtain ⟨before, hbefore, hheld⟩ := ih
    obtain ⟨after, hafter, hchange⟩ := hsound.applyOp before
    refine ⟨after, ?_, ?_⟩
    · rw [replayLog_append hlog, hbefore]
      simp [Except.bind, replayLog, linesFrom_logLine hline, replayLine_logLine hline, hafter]
    · rw [hchange, hheld, List.map_append, replay_append]
      rfl

end Log

/-! ### Snapshots -/

section Snapshot
variable [SerdeJson]

/-- What the snapshot holds; without a snapshot it is nothing. -/
def Snapshotted (snapshot : Option Bytes) (look : Look) : Prop :=
  match snapshot with
  | none => look = fun _ => none
  | some bytes => ∃ entries, loadSnapshot bytes ∅ = .ok entries ∧ held entries = look

variable [LawfulSerdeJson]

/-- Copied entries, read back one after the other. -/
theorem copied_items (list : List (UInt64 × Entry)) (hfit : ∀ item ∈ list, item.2.record.Fits) :
    ∃ items, list.mapM copyItem = .ok items ∧
      ∀ entries, ∃ entries', items.foldlM loadItem entries = .ok entries' ∧
        held entries' = replay (held entries) (list.map fun item => ⟨item.1, some item.2⟩) := by
  induction list with
  | nil => exact ⟨[], rfl, fun entries => ⟨entries, rfl, rfl⟩⟩
  | cons head rest ih =>
    obtain ⟨cid, entry⟩ := head
    obtain ⟨data, hencode, hdecode, -⟩ := encodeSessionRecord_decodes (hfit _ List.mem_cons_self)
    obtain ⟨items, hitems, hload⟩ := ih fun item h => hfit item (List.mem_cons_of_mem _ h)
    have hcopy : copyItem (cid, entry) = .ok ⟨cid, entry.version, entry.expiresAtMs, data⟩ := by
      simp only [copyItem, hencode]
    refine ⟨⟨cid, entry.version, entry.expiresAtMs, data⟩ :: items, ?_, fun entries => ?_⟩
    · rw [List.mapM_cons, hcopy, hitems]
      rfl
    · obtain ⟨entries', hentries', hheld⟩ := hload (entries.insert cid entry)
      have hfirst : loadItem entries ⟨cid, entry.version, entry.expiresAtMs, data⟩ =
          .ok (entries.insert cid entry) := by
        simp only [loadItem, hdecode]
      refine ⟨entries', ?_, ?_⟩
      · rw [List.foldlM_cons, hfirst]
        exact hentries'
      · rw [hheld, held_insert]
        rfl

/-- The copy of a map, written and read back, is the map. -/
theorem copyEntries_saved {entries : Shard} (hfit : AllFit (held entries)) (order : IterOrder) :
    ∃ items payload, copyEntries order entries = .ok items ∧
      toVec (DiskSnapshot.doc ⟨sessionSchemaVersion, items⟩) = .ok payload ∧
      Snapshotted (some payload) (held entries) := by
  obtain ⟨items, hitems, hload⟩ := copied_items (order.list entries) fun item h =>
    hfit item.1 item.2 (mem_order.mp h)
  obtain ⟨entries', hentries', hheld⟩ := hload ∅
  obtain ⟨payload, hwrite, hread⟩ := toVec_plain (DiskSnapshot.plain ⟨sessionSchemaVersion, items⟩)
    (DiskSnapshot.ofDoc_doc _)
  obtain ⟨inner, hpayload⟩ := LawfulSerdeJson.braces _ _ (toVec_eq_ok.mp hwrite)
  refine ⟨items, payload, hitems, hwrite, entries', ?_, ?_⟩
  · rw [loadSnapshot, if_neg (by simp [hpayload]), hread]
    simpa using hentries'
  · rw [hheld, held_empty]
    funext cid
    refine replay_eq_of_agree (fun c hc => ?_) fun huntouched => ?_
    · obtain ⟨item, hitem, rfl⟩ := List.mem_map.mp hc
      exact (mem_order.mp hitem).symm
    · cases he : held entries cid with
      | none => rfl
      | some e =>
        exact absurd rfl (huntouched ⟨cid, some e⟩
          (List.mem_map.mpr ⟨(cid, e), mem_order.mpr he, rfl⟩))

end Snapshot

/-! ### The files -/

section Files
variable [SerdeJson] [DefaultHasher]

/-- A snapshot of `base` and the log of `ops`. -/
structure Files.Holds (files : Files) (base : Look) (ops : List DiskOp) : Prop where
  snapshot : Snapshotted files.snapshot base
  log : Logged ops (files.log.getD [])

variable {files : Files} {base : Look} {ops : List DiskOp}

/-- The log as it is found on opening. -/
def Files.opened (files : Files) : Files := { files with log := some (files.log.getD []) }

theorem Files.Holds.reopened (h : files.Holds base ops) : files.opened.Holds base ops :=
  ⟨h.snapshot, h.log⟩

theorem Files.Holds.empty : Files.Holds {} (fun _ => none) [] := ⟨rfl, .nil⟩

theorem DiskSessionStore.new_eq (files : Files) :
    (DiskSessionStore.new Io.fine files).2 =
      (recoverEntries Io.fine files.opened).map fun entries => ⟨entries, files.opened⟩ := by
  have hlog : (if files.log.isSome = true then none else Io.fine 1) = none := ite_self _
  rw [new, hlog, Files.opened]
  dsimp only
  cases recoverEntries Io.fine { files with log := some (files.log.getD []) } <;> rfl

variable [LawfulSerdeJson]

/-- Opening recovers what the files hold, before anything that follows in the log. -/
theorem Files.Holds.recoverEntries (h : files.Holds base ops) :
    ∃ entries, (∀ tail, recoverEntries Io.fine { files with log := some (files.log.getD [] ++ tail) } =
        replayLog tail entries) ∧
      held entries = replay base (ops.map DiskOp.change) := by
  obtain ⟨loaded, hloaded, hbase⟩ : ∃ loaded, (match files.snapshot with
      | none => Except.ok ∅
      | some bytes => loadSnapshot bytes ∅) = .ok loaded ∧ held loaded = base := by
    have hsnapshot := h.snapshot
    unfold Snapshotted at hsnapshot
    split at hsnapshot
    · exact ⟨∅, rfl, held_empty.trans hsnapshot.symm⟩
    · exact hsnapshot
  obtain ⟨entries, hentries, hheld⟩ := h.log.replayed loaded
  refine ⟨entries, fun tail => ?_, by rw [hheld, hbase]⟩
  have happend := replayLog_append h.log tail loaded
  rw [hentries] at happend
  unfold Store.recoverEntries
  cases hs : files.snapshot with
  | none =>
    simp only [hs, Except.ok.injEq] at hloaded
    subst hloaded
    simpa [Io.fine, Except.bind] using happend
  | some bytes =>
    simp only [hs] at hloaded
    simpa [Io.fine, hloaded, Except.bind] using happend

theorem Files.Holds.opens (h : files.Holds base ops) :
    ∃ s, (DiskSessionStore.new Io.fine files).2 = .ok s ∧ s.files = files.opened ∧
      held s.entries = replay base (ops.map DiskOp.change) := by
  obtain ⟨entries, hrecover, hheld⟩ := h.recoverEntries
  have hnone := hrecover []
  rw [List.append_nil] at hnone
  refine ⟨⟨entries, files.opened⟩, ?_, rfl, hheld⟩
  rw [DiskSessionStore.new_eq, opened, hnone]
  rfl

/-- An operation appended. -/
theorem Files.Holds.append (h : files.Holds base ops) {op : DiskOp} (hsound : op.Sound) :
    ∃ log, appendOp none files op = ({ files with log := some log }, .ok ()) ∧
      Files.Holds { files with log := some log } base (ops ++ [op]) := by
  obtain ⟨line, hline⟩ := logLine_ok op
  refine ⟨files.log.getD [] ++ (line ++ [10]), ?_, h.snapshot, h.log.snoc hsound hline⟩
  simp only [appendOp, hline, appendFile]

theorem Files.Holds.appendAll (h : files.Holds base ops) {more : List DiskOp}
    (hsound : ∀ op ∈ more, op.Sound) (n : Nat) :
    (appendOps Io.fine n files more).1.Holds base (ops ++ more) := by
  induction more generalizing n files ops with
  | nil => simpa [appendOps] using h
  | cons op more ih =>
    obtain ⟨log, happend, hnext⟩ := h.append (hsound op List.mem_cons_self)
    have hrest := ih hnext (fun op' hop' => hsound op' (List.mem_cons_of_mem op hop')) (n + 1)
    rw [List.append_assoc] at hrest
    have hfirst : appendOp (Io.fine n) files op = _ := happend
    rw [appendOps, hfirst]
    exact hrest

end Files

end Todero.Store
