import Mathlib.Data.List.Basic
import Todero.CoreTypes

/-! The session store of v3-store: the trait as far as the server runtime calls it, and
the store in memory, a vector of shards. -/
namespace Todero.Store
open Todero.Core

structure SessionRecord where
  cid : UInt64
  peerId : String
  negotiatedMsrIntervalMs : UInt64
  disconnectWindowMs : UInt64
  lastOrderedRx : Nat
  lastOrderedTx : Nat
  deriving DecidableEq, Repr

structure VersionedRecord where
  version : UInt64
  record : SessionRecord
  expiresAtMs : UInt64
  deriving DecidableEq, Repr

inductive StoreError where
  | casConflict (expected actual : Option UInt64)
  | invalidShardCount
  | serialization (message : String)
  | unsupportedSchemaVersion (version : UInt16)
  | backend (message : String)
  | io (message : String)
  | corruptLogEntry
  | checksumMismatch
  deriving DecidableEq, Repr

/-- A store may fail in any call, and may have changed when it does. -/
class SessionStore (σ : Type) where
  load : σ → (cid nowMs : UInt64) → σ × Except StoreError (Option VersionedRecord)
  upsert : σ → (cid : UInt64) → SessionRecord → (ttlMs nowMs : UInt64) →
    σ × Except StoreError VersionedRecord
  delete : σ → (cid : UInt64) → σ × Except StoreError Unit

/-- The record a store holds for a cid, expired or not: a successful `upsert` sets it, and
no call touches the record of another cid. -/
class LawfulSessionStore (σ : Type) [SessionStore σ] where
  stored : σ → UInt64 → Option SessionRecord
  stored_upsert : ∀ (s : σ) (cid : UInt64) (r : SessionRecord) (ttlMs nowMs : UInt64)
    (v : VersionedRecord), (SessionStore.upsert s cid r ttlMs nowMs).2 = .ok v →
      stored (SessionStore.upsert s cid r ttlMs nowMs).1 cid = some r
  load_other : ∀ (s : σ) (cid nowMs other : UInt64), other ≠ cid →
    stored (SessionStore.load s cid nowMs).1 other = stored s other
  upsert_other : ∀ (s : σ) (cid : UInt64) (r : SessionRecord) (ttlMs nowMs other : UInt64),
    other ≠ cid → stored (SessionStore.upsert s cid r ttlMs nowMs).1 other = stored s other
  delete_other : ∀ (s : σ) (cid other : UInt64), other ≠ cid →
    stored (SessionStore.delete s cid).1 other = stored s other

/-! ### The store in memory -/

structure Entry where
  version : UInt64
  record : SessionRecord
  expiresAtMs : UInt64
  deriving DecidableEq, Repr

abbrev Shard := Std.TreeMap UInt64 Entry

/-- One iteration over a hash map: every entry once, in no particular order. -/
structure IterOrder where
  list : Shard → List (UInt64 × Entry)
  perm : ∀ map, (list map).Perm map.toList

/-- The loop that looks for expired entries, after `removed` of them elsewhere. -/
def collectExpired (nowMs : UInt64) (limit removed : Nat) :
    List (UInt64 × Entry) → List UInt64 → List UInt64
  | [], expired => expired
  | (cid, entry) :: rest, expired =>
    if entry.expiresAtMs ≤ nowMs then
      if removed + (expired ++ [cid]).length ≥ limit then expired ++ [cid]
      else collectExpired nowMs limit removed rest (expired ++ [cid])
    else collectExpired nowMs limit removed rest expired

structure InMemorySessionStore where
  shardCount : Nat
  shards : Vector Shard shardCount
  count_pos : 0 < shardCount

def InMemorySessionStore.new (shardCount : Nat) : Except StoreError InMemorySessionStore :=
  if h : shardCount = 0 then .error .invalidShardCount
  else .ok ⟨shardCount, Vector.replicate shardCount ∅, Nat.pos_of_ne_zero h⟩

def InMemorySessionStore.withDefaultShards : InMemorySessionStore :=
  ⟨32, Vector.replicate 32 ∅, by decide⟩

namespace InMemorySessionStore
variable (s : InMemorySessionStore)

def shardIndex (cid : UInt64) : Fin s.shardCount :=
  ⟨cid.toNat % s.shardCount, Nat.mod_lt _ s.count_pos⟩

/-- The entry of `cid`, dropped if it has expired. -/
def effectiveEntry (map : Shard) (cid nowMs : UInt64) : Shard × Option Entry :=
  match map[cid]? with
  | some entry => if entry.expiresAtMs > nowMs then (map, some entry) else (map.erase cid, none)
  | none => (map, none)

/-- Work on the shard of `cid` under its lock. -/
def withShard {α : Type} (cid : UInt64) (f : Shard → Shard × α) : InMemorySessionStore × α :=
  let (map, a) := f (s.shards.get (s.shardIndex cid))
  (⟨s.shardCount, s.shards.set (s.shardIndex cid) map, s.count_pos⟩, a)

def load (cid nowMs : UInt64) :
    InMemorySessionStore × Except StoreError (Option VersionedRecord) :=
  s.withShard cid fun map =>
    let (map, entry) := effectiveEntry map cid nowMs
    (map, .ok (entry.map fun e => ⟨e.version, e.record, e.expiresAtMs⟩))

def upsert (cid : UInt64) (newRecord : SessionRecord) (ttlMs nowMs : UInt64) :
    InMemorySessionStore × Except StoreError VersionedRecord :=
  s.withShard cid fun map =>
    let (map, current) := effectiveEntry map cid nowMs
    let nextVersion := saturatingAdd ((current.map Entry.version).getD 0) 1
    let expiresAtMs := saturatingAdd nowMs ttlMs
    (map.insert cid ⟨nextVersion, newRecord, expiresAtMs⟩,
      .ok ⟨nextVersion, newRecord, expiresAtMs⟩)

def compareAndSwap (cid : UInt64) (expectedVersion : Option UInt64) (newRecord : SessionRecord)
    (ttlMs nowMs : UInt64) : InMemorySessionStore × Except StoreError VersionedRecord :=
  s.withShard cid fun map =>
    let (map, current) := effectiveEntry map cid nowMs
    let currentVersion := current.map Entry.version
    if currentVersion ≠ expectedVersion then
      (map, .error (.casConflict expectedVersion currentVersion))
    else
      let nextVersion := saturatingAdd (currentVersion.getD 0) 1
      let expiresAtMs := saturatingAdd nowMs ttlMs
      (map.insert cid ⟨nextVersion, newRecord, expiresAtMs⟩,
        .ok ⟨nextVersion, newRecord, expiresAtMs⟩)

def delete (cid : UInt64) : InMemorySessionStore × Except StoreError Unit :=
  s.withShard cid fun map => (map.erase cid, .ok ())

/-- The loop that takes the expired keys out of a shard. -/
def removeExpired (limit : Nat) : Shard → List UInt64 → List UInt64 → Shard × List UInt64
  | map, [], removed => (map, removed)
  | map, cid :: rest, removed =>
    if (removed ++ [cid]).length ≥ limit then (map.erase cid, removed ++ [cid])
    else removeExpired limit (map.erase cid) rest (removed ++ [cid])

def scanShards {n : Nat} (orders : Nat → IterOrder) (nowMs : UInt64) (limit : Nat) :
    List (Fin n) → Vector Shard n → List UInt64 → Vector Shard n × List UInt64
  | [], shards, removed => (shards, removed)
  | i :: rest, shards, removed =>
    if removed.length ≥ limit then (shards, removed)
    else
      let map := shards.get i
      let expiredKeys := collectExpired nowMs limit removed.length ((orders i).list map) []
      let (map, removed) := removeExpired limit map expiredKeys removed
      scanShards orders nowMs limit rest (shards.set i map) removed

/-- `orders i` is how the map of shard `i` happens to be iterated. -/
def scanExpired (orders : Nat → IterOrder) (nowMs : UInt64) (limit : Nat) :
    InMemorySessionStore × Except StoreError (List UInt64) :=
  if limit = 0 then (s, .ok [])
  else
    let (shards, removed) :=
      scanShards orders nowMs limit (List.finRange s.shardCount) s.shards []
    (⟨s.shardCount, shards, s.count_pos⟩, .ok removed)

instance : SessionStore InMemorySessionStore := ⟨load, upsert, delete⟩

/-- What the shards hold for a cid. -/
def entry (cid : UInt64) : Option Entry := (s.shards.get (s.shardIndex cid))[cid]?

variable {s} {α : Type} {cid other nowMs : UInt64}

theorem withShard_same {f : Shard → Shard × α} :
    (s.withShard cid f).1.entry cid = (f (s.shards.get (s.shardIndex cid))).1[cid]? := by
  have hget : (s.shards.set (s.shardIndex cid) (f (s.shards.get (s.shardIndex cid))).1).get
      (s.shardIndex cid) = (f (s.shards.get (s.shardIndex cid))).1 := by
    simp [Vector.get_eq_getElem]
  exact congrArg (fun map : Shard => map[cid]?) hget

/-- What leaves the other cids of its shard alone leaves all other cids alone. -/
theorem withShard_other {f : Shard → Shard × α}
    (hf : ∀ map, (f map).1[other]? = map[other]?) :
    (s.withShard cid f).1.entry other = s.entry other := by
  show ((s.shards.set (s.shardIndex cid) _).get (s.shardIndex other))[other]? = _
  by_cases hi : s.shardIndex other = s.shardIndex cid
  · have hget : (s.shards.set (s.shardIndex cid) (f (s.shards.get (s.shardIndex cid))).1).get
        (s.shardIndex other) = (f (s.shards.get (s.shardIndex cid))).1 := by
      rw [hi]
      simp [Vector.get_eq_getElem]
    rw [hget, hf, entry, hi]
  · have hne : (s.shardIndex cid).val ≠ (s.shardIndex other).val := fun h => hi (Fin.ext h.symm)
    have hget : (s.shards.set (s.shardIndex cid) (f (s.shards.get (s.shardIndex cid))).1).get
        (s.shardIndex other) = s.shards.get (s.shardIndex other) := by
      simp [Vector.get_eq_getElem, Vector.getElem_set_ne _ _ hne]
    rw [hget, entry]

theorem effectiveEntry_other (h : other ≠ cid) (map : Shard) :
    (effectiveEntry map cid nowMs).1[other]? = map[other]? := by
  unfold effectiveEntry
  split
  · split_ifs
    · rfl
    · rw [Std.TreeMap.getElem?_erase, if_neg (by simpa using h.symm)]
  · rfl

theorem load_other (h : other ≠ cid) : (s.load cid nowMs).1.entry other = s.entry other :=
  withShard_other fun map => effectiveEntry_other h map

theorem upsert_other (h : other ≠ cid) (r : SessionRecord) (ttlMs : UInt64) :
    (s.upsert cid r ttlMs nowMs).1.entry other = s.entry other :=
  withShard_other fun map => by
    rw [Std.TreeMap.getElem?_insert, if_neg (by simpa using h.symm), effectiveEntry_other h]

theorem delete_other (h : other ≠ cid) : (s.delete cid).1.entry other = s.entry other :=
  withShard_other fun map => by
    rw [Std.TreeMap.getElem?_erase, if_neg (by simpa using h.symm)]

theorem upsert_same (r : SessionRecord) (ttlMs : UInt64) :
    ((s.upsert cid r ttlMs nowMs).1.entry cid).map Entry.record = some r := by
  rw [upsert, withShard_same]
  simp

instance : LawfulSessionStore InMemorySessionStore where
  stored s cid := (s.entry cid).map Entry.record
  stored_upsert _ _ r ttlMs _ _ _ := upsert_same r ttlMs
  load_other _ _ _ _ h := congrArg (Option.map Entry.record) (load_other h)
  upsert_other _ _ r ttlMs _ _ h := congrArg (Option.map Entry.record) (upsert_other h r ttlMs)
  delete_other _ _ _ h := congrArg (Option.map Entry.record) (delete_other h)

end InMemorySessionStore

end Todero.Store
