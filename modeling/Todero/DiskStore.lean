import Todero.StoreCodec

/-! The session store on disk of v3-store: a map in memory, the log that every change of it
is appended to, and the snapshot that compaction puts in the place of the log. What a call
does under the lock and what it appends afterwards are kept apart. -/
namespace Todero.Store
open Todero.Wire Todero.Core

/-- A file call that fails, and how much it has written by then; `none` if it has not touched
the file. -/
structure Fault where
  message : String
  written : Option Nat := none
  deriving DecidableEq, Repr

/-- How the file calls of one operation end, in their order; `none` is success. -/
abbrev Io := Nat → Option Fault

def Io.fine : Io := fun _ => none

/-- The directory: `sessions.log`, `sessions.snapshot.json` and `sessions.snapshot.tmp`. -/
structure Files where
  log : Option Bytes := none
  snapshot : Option Bytes := none
  tmp : Option Bytes := none
  deriving DecidableEq, Repr

/-- `fs::write`: what is in the file afterwards. -/
def writeFile (io : Option Fault) (old : Option Bytes) (bytes : Bytes) :
    Option Bytes × Except StoreError Unit :=
  match io with
  | none => (some bytes, .ok ())
  | some fault =>
    (match fault.written with
      | none => old
      | some n => some (bytes.take n), .error (.io fault.message))

/-- `write_all` to a file opened for appending. -/
def appendFile (io : Option Fault) (old : Option Bytes) (bytes : Bytes) :
    Option Bytes × Except StoreError Unit :=
  match io with
  | none => (some (old.getD [] ++ bytes), .ok ())
  | some fault =>
    (match fault.written with
      | none => old
      | some n => some (old.getD [] ++ bytes.take n), .error (.io fault.message))

structure DiskSessionStore where
  entries : Shard
  files : Files

/-! ### Reading the files -/

/-- A carriage return before the line break goes with it. -/
def stripCr (line : Bytes) : Bytes := if line.getLast? = some 13 then line.dropLast else line

/-- `BufRead::lines`, in the middle of a line. -/
def linesFrom (line : Bytes) : Bytes → List Bytes
  | [] => if line = [] then [] else [line]
  | b :: rest => if b = 10 then stripCr line :: linesFrom [] rest else linesFrom (line ++ [b]) rest

/-- `char::is_whitespace`. -/
def isWhitespace (c : Char) : Bool :=
  let n := c.toNat
  (9 ≤ n && n ≤ 13) || n = 0x20 || n = 0x85 || n = 0xA0 || n = 0x1680 ||
    (0x2000 ≤ n && n ≤ 0x200A) || n = 0x2028 || n = 0x2029 || n = 0x202F || n = 0x205F ||
    n = 0x3000

section Store
variable [SerdeJson] [DefaultHasher]

def applyOp (entries : Shard) : DiskOp → Except StoreError Shard
  | .upsert cid version expiresAtMs data =>
    match decodeSessionRecordMigrating data with
    | .error e => .error e
    | .ok record => .ok (entries.insert cid ⟨version, record, expiresAtMs⟩)
  | .delete cid => .ok (entries.erase cid)

/-- One pass of the loop of `replay_log`. -/
def replayLine (entries : Shard) (line : Bytes) : Except StoreError Shard :=
  match Utf8.decode line with
  | none => .error (.io "stream did not contain valid UTF-8")
  | some s =>
    if s.toList.all isWhitespace then .ok entries
    else
      match fromSlice DiskLogEntry.ofDoc line with
      | .error _ => .error .corruptLogEntry
      | .ok entry =>
        match toVec entry.op.doc with
        | .error e => .error e
        | .ok opBytes =>
          if calcChecksum opBytes ≠ entry.checksum then .error .checksumMismatch
          else applyOp entries entry.op

def replayLog (log : Bytes) (entries : Shard) : Except StoreError Shard :=
  (linesFrom [] log).foldlM replayLine entries

/-- One pass of the loop of `load_snapshot`. -/
def loadItem (entries : Shard) (item : DiskSnapshotEntry) : Except StoreError Shard :=
  match decodeSessionRecord item.data with
  | .error e => .error e
  | .ok record => .ok (entries.insert item.cid ⟨item.version, record, item.expiresAtMs⟩)

def loadSnapshot (bytes : Bytes) (entries : Shard) : Except StoreError Shard :=
  if bytes = [] then .ok entries
  else
    match fromSlice DiskSnapshot.ofDoc bytes with
    | .error e => .error (.serialization e)
    | .ok snap =>
      if snap.schemaVersion ≠ sessionSchemaVersion then
        .error (.unsupportedSchemaVersion snap.schemaVersion)
      else snap.entries.foldlM loadItem entries

/-- The snapshot, if there is one, and the log replayed on top of it. -/
def recoverEntries (io : Io) (files : Files) : Except StoreError Shard :=
  let loaded : Except StoreError Shard := match files.snapshot, io 2 with
    | none, _ => .ok ∅
    | some _, some fault => .error (.io fault.message)
    | some bytes, none => loadSnapshot bytes ∅
  match loaded with
  | .error e => .error e
  | .ok entries =>
    match io 3 with
    | some fault => .error (.io fault.message)
    | none => replayLog (files.log.getD []) entries

/-- The log is created where it is missing. -/
def DiskSessionStore.new (io : Io) (files : Files) : Files × Except StoreError DiskSessionStore :=
  match io 0 with
  | some fault => (files, .error (.io fault.message))
  | none =>
    match (if files.log.isSome then none else io 1) with
    | some fault => (files, .error (.io fault.message))
    | none =>
      let files := { files with log := some (files.log.getD []) }
      (files, match recoverEntries io files with
        | .error e => .error e
        | .ok entries => .ok ⟨entries, files⟩)

/-! ### Appending to the log -/

/-- The line of an operation, up to the line break. -/
def logLine (op : DiskOp) : Except StoreError Bytes :=
  match toVec op.doc with
  | .error e => .error e
  | .ok opBytes => toVec (DiskLogEntry.doc ⟨op, calcChecksum opBytes⟩)

def appendOp (io : Option Fault) (files : Files) (op : DiskOp) : Files × Except StoreError Unit :=
  match logLine op with
  | .error e => (files, .error e)
  | .ok line =>
    let (log, written) := appendFile io files.log (line ++ [10])
    ({ files with log := log }, written)

/-- Append one operation after the other, up to the first that fails. -/
def appendOps (io : Io) : Nat → Files → List DiskOp → Files × Except StoreError Unit
  | _, files, [] => (files, .ok ())
  | n, files, op :: ops =>
    match appendOp (io n) files op with
    | (files, .error e) => (files, .error e)
    | (files, .ok ()) => appendOps io (n + 1) files ops

/-! ### The calls -/

/-- What a call has done when it lets go of the lock: the map, what is still to be appended
to the log, and what the call returns once that has succeeded. -/
structure Staged (α : Type) where
  entries : Shard
  appends : List DiskOp := []
  result : Except StoreError α

/-- The entry is left where it is when it has expired. -/
def liveEntry (entries : Shard) (cid nowMs : UInt64) : Option Entry :=
  entries[cid]?.filter (·.expiresAtMs > nowMs)

def stageLoad (entries : Shard) (cid nowMs : UInt64) : Staged (Option VersionedRecord) :=
  match entries[cid]? with
  | some entry =>
    if entry.expiresAtMs > nowMs then
      { entries, result := .ok (some ⟨entry.version, entry.record, entry.expiresAtMs⟩) }
    else { entries := entries.erase cid, appends := [.delete cid], result := .ok none }
  | none => { entries, result := .ok none }

/-- The end of `compare_and_swap` and of `upsert`. -/
def stageWrite (entries : Shard) (cid : UInt64) (currentVersion : Option UInt64)
    (newRecord : SessionRecord) (ttlMs nowMs : UInt64) : Staged VersionedRecord :=
  let nextVersion := saturatingAdd (currentVersion.getD 0) 1
  let expiresAtMs := saturatingAdd nowMs ttlMs
  match encodeSessionRecord newRecord with
  | .error e => { entries, result := .error e }
  | .ok encoded =>
    { entries := entries.insert cid ⟨nextVersion, newRecord, expiresAtMs⟩
      appends := [.upsert cid nextVersion expiresAtMs encoded]
      result := .ok ⟨nextVersion, newRecord, expiresAtMs⟩ }

def stageCompareAndSwap (entries : Shard) (cid : UInt64) (expectedVersion : Option UInt64)
    (newRecord : SessionRecord) (ttlMs nowMs : UInt64) : Staged VersionedRecord :=
  let currentVersion := (liveEntry entries cid nowMs).map Entry.version
  if currentVersion ≠ expectedVersion then
    { entries, result := .error (.casConflict expectedVersion currentVersion) }
  else stageWrite entries cid currentVersion newRecord ttlMs nowMs

def stageUpsert (entries : Shard) (cid : UInt64) (newRecord : SessionRecord)
    (ttlMs nowMs : UInt64) : Staged VersionedRecord :=
  stageWrite entries cid ((liveEntry entries cid nowMs).map Entry.version) newRecord ttlMs nowMs

def stageDelete (entries : Shard) (cid : UInt64) : Staged Unit :=
  { entries := entries.erase cid, appends := [.delete cid], result := .ok () }

def stageScanExpired (order : IterOrder) (entries : Shard) (nowMs : UInt64) (limit : Nat) :
    Staged (List UInt64) :=
  if limit = 0 then { entries, result := .ok [] }
  else
    let expired := collectExpired nowMs limit 0 (order.list entries) []
    { entries := expired.foldl (fun map cid => map.erase cid) entries
      appends := expired.map .delete
      result := .ok expired }

namespace DiskSessionStore
variable (io : Io) (s : DiskSessionStore)

/-- Only the appends of `load` are made before the lock is let go. -/
def finish {α : Type} (staged : Staged α) : DiskSessionStore × Except StoreError α :=
  match appendOps io 0 s.files staged.appends with
  | (files, .error e) => (⟨staged.entries, files⟩, .error e)
  | (files, .ok ()) => (⟨staged.entries, files⟩, staged.result)

def load (cid nowMs : UInt64) : DiskSessionStore × Except StoreError (Option VersionedRecord) :=
  s.finish io (stageLoad s.entries cid nowMs)

def compareAndSwap (cid : UInt64) (expectedVersion : Option UInt64) (newRecord : SessionRecord)
    (ttlMs nowMs : UInt64) : DiskSessionStore × Except StoreError VersionedRecord :=
  s.finish io (stageCompareAndSwap s.entries cid expectedVersion newRecord ttlMs nowMs)

def upsert (cid : UInt64) (newRecord : SessionRecord) (ttlMs nowMs : UInt64) :
    DiskSessionStore × Except StoreError VersionedRecord :=
  s.finish io (stageUpsert s.entries cid newRecord ttlMs nowMs)

def delete (cid : UInt64) : DiskSessionStore × Except StoreError Unit :=
  s.finish io (stageDelete s.entries cid)

def scanExpired (order : IterOrder) (nowMs : UInt64) (limit : Nat) :
    DiskSessionStore × Except StoreError (List UInt64) :=
  s.finish io (stageScanExpired order s.entries nowMs limit)

end DiskSessionStore

/-! ### Compaction, step by step -/

def copyItem : UInt64 × Entry → Except StoreError DiskSnapshotEntry
  | (cid, entry) =>
    match encodeSessionRecord entry.record with
    | .error e => .error e
    | .ok data => .ok ⟨cid, entry.version, entry.expiresAtMs, data⟩

/-- The copy made under the lock. -/
def copyEntries (order : IterOrder) (entries : Shard) :
    Except StoreError (List DiskSnapshotEntry) :=
  (order.list entries).mapM copyItem

def writeTmp (io : Option Fault) (files : Files) (entries : List DiskSnapshotEntry) :
    Files × Except StoreError Unit :=
  match toVec (DiskSnapshot.doc ⟨sessionSchemaVersion, entries⟩) with
  | .error e => (files, .error e)
  | .ok payload =>
    let (tmp, written) := writeFile io files.tmp payload
    ({ files with tmp := tmp }, written)

def renameTmp (io : Option Fault) (files : Files) : Files × Except StoreError Unit :=
  match io, files.tmp with
  | some fault, _ => (files, .error (.io fault.message))
  | none, none => (files, .error (.io "No such file or directory (os error 2)"))
  | none, some payload => ({ files with snapshot := some payload, tmp := none }, .ok ())

def truncateLog (io : Option Fault) (files : Files) : Files × Except StoreError Unit :=
  let (log, written) := writeFile io files.log []
  ({ files with log := log }, written)

def DiskSessionStore.compact (io : Io) (order : IterOrder) (s : DiskSessionStore) :
    DiskSessionStore × Except StoreError Unit :=
  match copyEntries order s.entries with
  | .error e => (s, .error e)
  | .ok entries =>
    match writeTmp (io 0) s.files entries with
    | (files, .error e) => (⟨s.entries, files⟩, .error e)
    | (files, .ok ()) =>
      match renameTmp (io 1) files with
      | (files, .error e) => (⟨s.entries, files⟩, .error e)
      | (files, .ok ()) =>
        let (files, written) := truncateLog (io 2) files
        (⟨s.entries, files⟩, written)

end Store

end Todero.Store
