import Todero.DiskStore

/-! The calls of the trait, the answers of the two stores to them, and what every call does
in terms of the entries alone. -/
namespace Todero.Store
open Todero.Core

/-- A record whose positions are 64-bit numbers. -/
abbrev Record := { r : SessionRecord // r.Fits }

def sampleRecord (cid : UInt64) (peer : String) : Record :=
  ⟨⟨cid, peer, 15000, 90000, 10, 12⟩, (by decide : 10 < 2 ^ 64), (by decide : 12 < 2 ^ 64)⟩

/-- The iteration in the order of the cids. -/
def IterOrder.byCid : IterOrder := ⟨fun map => map.toList, fun _ => .refl _⟩

/-- A scan comes with the orders in which the maps happen to be iterated. -/
inductive StoreOp where
  | load (cid : UInt64)
  | compareAndSwap (cid : UInt64) (expectedVersion : Option UInt64) (newRecord : Record)
      (ttlMs : UInt64)
  | upsert (cid : UInt64) (newRecord : Record) (ttlMs : UInt64)
  | delete (cid : UInt64)
  | scanExpired (limit : Nat) (shards : Nat → IterOrder) (disk : IterOrder)

/-- `delete` does not look at the time. -/
structure StoreCall where
  nowMs : UInt64
  op : StoreOp

inductive Answer where
  | loaded (found : Option VersionedRecord)
  | written (record : VersionedRecord)
  | deleted
  | scanned (removed : List UInt64)
  deriving DecidableEq, Repr

abbrev Reply := Except StoreError Answer

def InMemorySessionStore.call (s : InMemorySessionStore) (c : StoreCall) :
    InMemorySessionStore × Reply :=
  match c.op with
  | .load cid =>
    let (s, r) := s.load cid c.nowMs
    (s, r.map .loaded)
  | .compareAndSwap cid expectedVersion newRecord ttlMs =>
    let (s, r) := s.compareAndSwap cid expectedVersion newRecord.1 ttlMs c.nowMs
    (s, r.map .written)
  | .upsert cid newRecord ttlMs =>
    let (s, r) := s.upsert cid newRecord.1 ttlMs c.nowMs
    (s, r.map .written)
  | .delete cid =>
    let (s, r) := s.delete cid
    (s, r.map fun _ => .deleted)
  | .scanExpired limit shards _ =>
    let (s, r) := s.scanExpired shards c.nowMs limit
    (s, r.map .scanned)

def DiskSessionStore.call [SerdeJson] [DefaultHasher] (io : Io) (s : DiskSessionStore)
    (c : StoreCall) : DiskSessionStore × Reply :=
  match c.op with
  | .load cid =>
    let (s, r) := s.load io cid c.nowMs
    (s, r.map .loaded)
  | .compareAndSwap cid expectedVersion newRecord ttlMs =>
    let (s, r) := s.compareAndSwap io cid expectedVersion newRecord.1 ttlMs c.nowMs
    (s, r.map .written)
  | .upsert cid newRecord ttlMs =>
    let (s, r) := s.upsert io cid newRecord.1 ttlMs c.nowMs
    (s, r.map .written)
  | .delete cid =>
    let (s, r) := s.delete io cid
    (s, r.map fun _ => .deleted)
  | .scanExpired limit _ disk =>
    let (s, r) := s.scanExpired io disk c.nowMs limit
    (s, r.map .scanned)

section Runs
variable {σ : Type} (step : σ → StoreCall → σ × Reply)

/-- The store after some calls. -/
def after (s : σ) (calls : List StoreCall) : σ := calls.foldl (fun s c => (step s c).1) s

/-- The replies to some calls. -/
def replies (s : σ) : List StoreCall → List Reply
  | [] => []
  | c :: calls => (step s c).2 :: replies (step s c).1 calls

end Runs

/-! ### What a call does to the entries -/

/-- What is stored for every cid, expired or not. -/
abbrev Look := UInt64 → Option Entry

def held (map : Shard) : Look := fun cid => map[cid]?

def liveAt (look : Look) (cid nowMs : UInt64) : Option Entry :=
  (look cid).filter (·.expiresAtMs > nowMs)

def Entry.versioned (e : Entry) : VersionedRecord := ⟨e.version, e.record, e.expiresAtMs⟩

def nextEntry (current : Option Entry) (newRecord : SessionRecord) (ttlMs nowMs : UInt64) : Entry :=
  ⟨saturatingAdd ((current.map Entry.version).getD 0) 1, newRecord, saturatingAdd nowMs ttlMs⟩

/-- The calls without shards, locks and files. What has expired stays where it is. -/
def serve (look : Look) (c : StoreCall) : Look × Reply :=
  match c.op with
  | .load cid => (look, .ok (.loaded ((liveAt look cid c.nowMs).map Entry.versioned)))
  | .compareAndSwap cid expectedVersion newRecord ttlMs =>
    let current := liveAt look cid c.nowMs
    if current.map Entry.version ≠ expectedVersion then
      (look, .error (.casConflict expectedVersion (current.map Entry.version)))
    else
      let entry := nextEntry current newRecord.1 ttlMs c.nowMs
      (Function.update look cid (some entry), .ok (.written entry.versioned))
  | .upsert cid newRecord ttlMs =>
    let entry := nextEntry (liveAt look cid c.nowMs) newRecord.1 ttlMs c.nowMs
    (Function.update look cid (some entry), .ok (.written entry.versioned))
  | .delete cid => (Function.update look cid none, .ok .deleted)
  | .scanExpired _ _ _ => (look, .ok (.scanned []))

/-- A reply but for the cids that a scan has removed: which ones it finds first is left to
the iteration. -/
def withoutCids : Reply → Reply
  | .ok (.scanned _) => .ok (.scanned [])
  | r => r

/-- Some of what has expired is gone. -/
def Fades (nowMs : UInt64) (look look' : Look) : Prop :=
  ∀ cid, look' cid = look cid ∨ look' cid = none ∧ liveAt look cid nowMs = none

/-- A store that held `look` has served `c`: it replies as `serve` does, and holds what
`serve` leaves, except that something expired may be gone. -/
structure Served (c : StoreCall) (look : Look) (reply : Reply) (look' : Look) : Prop where
  reply_eq : withoutCids reply = (serve look c).2
  fades : Fades c.nowMs (serve look c).1 look'

@[simp] theorem held_empty : held ∅ = fun _ => none := by
  funext cid
  simp [held]

@[simp] theorem held_insert (map : Shard) (cid : UInt64) (e : Entry) :
    held (map.insert cid e) = Function.update (held map) cid (some e) := by
  funext other
  by_cases h : other = cid
  · subst h
    simp [held]
  · simp [held, Std.TreeMap.getElem?_insert, Function.update_of_ne h, Ne.symm h]

@[simp] theorem held_erase (map : Shard) (cid : UInt64) :
    held (map.erase cid) = Function.update (held map) cid none := by
  funext other
  by_cases h : other = cid
  · subst h
    simp [held]
  · simp [held, Std.TreeMap.getElem?_erase, Function.update_of_ne h, Ne.symm h]

theorem Fades.refl (nowMs : UInt64) (look : Look) : Fades nowMs look look := fun _ => .inl rfl

theorem Fades.trans {nowMs : UInt64} {look look' look'' : Look} (h : Fades nowMs look look')
    (h' : Fades nowMs look' look'') : Fades nowMs look look'' := by
  intro cid
  rcases h cid with heq | ⟨hgone, hdead⟩
  · simpa only [liveAt, heq] using h' cid
  · right
    refine ⟨?_, hdead⟩
    rcases h' cid with heq | ⟨hgone', -⟩
    · rw [heq, hgone]
    · exact hgone'

/-- What is live now or later is the same. -/
theorem Fades.liveAt_eq {nowMs laterMs : UInt64} {look look' : Look} (h : Fades nowMs look look')
    (hlater : nowMs ≤ laterMs) (cid : UInt64) : liveAt look' cid laterMs = liveAt look cid laterMs := by
  rcases h cid with heq | ⟨hgone, hdead⟩
  · rw [liveAt, heq, liveAt]
  · rw [liveAt, hgone, Option.filter_none, eq_comm, liveAt, Option.filter_eq_none_iff]
    intro e he hlive
    rw [liveAt, Option.filter_eq_none_iff] at hdead
    have hnow := hdead e he
    simp only [gt_iff_lt, decide_eq_true_eq, UInt64.not_lt] at hnow hlive
    exact absurd (UInt64.le_trans hnow hlater) (UInt64.not_le.mpr hlive)

theorem Fades.dead {nowMs : UInt64} {look look' : Look} (h : Fades nowMs look look')
    {cid : UInt64} (hdead : liveAt look cid nowMs = none) : liveAt look' cid nowMs = none := by
  rw [h.liveAt_eq UInt64.le_rfl, hdead]

/-- An expired entry taken out. -/
theorem fades_erase {nowMs : UInt64} {look : Look} {cid : UInt64}
    (hdead : liveAt look cid nowMs = none) : Fades nowMs look (Function.update look cid none) := by
  intro other
  by_cases h : other = cid
  · subst h
    exact .inr ⟨Function.update_self .., hdead⟩
  · exact .inl (Function.update_of_ne h ..)

/-- The entry left in place, unless it has expired. -/
theorem fades_purge (nowMs : UInt64) (look : Look) (cid : UInt64) :
    Fades nowMs look (Function.update look cid (liveAt look cid nowMs)) := by
  cases hl : liveAt look cid nowMs with
  | none => exact fades_erase hl
  | some e =>
    have he : look cid = some e := (Option.filter_eq_some_iff.mp hl).1
    rw [← he, Function.update_eq_self]
    exact Fades.refl nowMs look

/-! ### The store in memory -/

theorem mem_order {order : IterOrder} {map : Shard} {cid : UInt64} {e : Entry} :
    (cid, e) ∈ order.list map ↔ held map cid = some e := by
  rw [(order.perm map).mem_iff, Std.TreeMap.mem_toList_iff_getElem?_eq_some, held]

/-- The loop finds expired entries only. -/
theorem mem_collectExpired {nowMs : UInt64} {limit removed : Nat} {cid : UInt64}
    {entries : List (UInt64 × Entry)} {acc : List UInt64}
    (h : cid ∈ collectExpired nowMs limit removed entries acc) :
    cid ∈ acc ∨ ∃ e, (cid, e) ∈ entries ∧ e.expiresAtMs ≤ nowMs := by
  induction entries generalizing acc with
  | nil => exact .inl h
  | cons item rest ih =>
    obtain ⟨other, e⟩ := item
    have hrest : ∀ acc', cid ∈ collectExpired nowMs limit removed rest acc' →
        cid ∈ acc' ∨ ∃ e', (cid, e') ∈ (other, e) :: rest ∧ e'.expiresAtMs ≤ nowMs := fun acc' h' =>
      (ih h').imp id fun ⟨e', hmem, hdead⟩ => ⟨e', List.mem_cons_of_mem _ hmem, hdead⟩
    have hadded : e.expiresAtMs ≤ nowMs → cid ∈ acc ++ [other] →
        cid ∈ acc ∨ ∃ e', (cid, e') ∈ (other, e) :: rest ∧ e'.expiresAtMs ≤ nowMs := by
      intro hdead hmem
      rcases List.mem_append.mp hmem with hold | hnew
      · exact .inl hold
      · rw [List.mem_singleton.mp hnew]
        exact .inr ⟨e, List.mem_cons_self, hdead⟩
    rw [collectExpired] at h
    split_ifs at h with hdead hfull
    · exact hadded hdead h
    · rcases hrest _ h with hmem | hfound
      · exact hadded hdead hmem
      · exact .inr hfound
    · exact hrest _ h

theorem liveAt_of_expired {look : Look} {cid nowMs : UInt64} {e : Entry} (he : look cid = some e)
    (hdead : e.expiresAtMs ≤ nowMs) : liveAt look cid nowMs = none := by
  simp [liveAt, he, hdead]

/-- What a scan of a map collects has expired. -/
theorem collectExpired_expired {order : IterOrder} {map : Shard} {nowMs : UInt64}
    {limit removed : Nat} {cid : UInt64}
    (h : cid ∈ collectExpired nowMs limit removed (order.list map) []) :
    liveAt (held map) cid nowMs = none := by
  obtain ⟨e, hmem, hdead⟩ := (mem_collectExpired h).resolve_left List.not_mem_nil
  exact liveAt_of_expired (mem_order.mp hmem) hdead

namespace InMemorySessionStore
variable {s : InMemorySessionStore} {cid nowMs ttlMs : UInt64}

theorem effectiveEntry_live (map : Shard) (cid nowMs : UInt64) :
    (effectiveEntry map cid nowMs).2 = map[cid]?.filter (·.expiresAtMs > nowMs) ∧
      (effectiveEntry map cid nowMs).1[cid]? = map[cid]?.filter (·.expiresAtMs > nowMs) := by
  unfold effectiveEntry
  cases hm : map[cid]? with
  | none => exact ⟨rfl, hm⟩
  | some e =>
    by_cases hlive : e.expiresAtMs > nowMs <;> simp [Option.filter_some, hlive, hm]

theorem withShard_entry {α : Type} {f : Shard → Shard × α}
    (hf : ∀ other, other ≠ cid → ∀ map, (f map).1[other]? = map[other]?) :
    (s.withShard cid f).1.entry =
      Function.update s.entry cid (f (s.shards.get (s.shardIndex cid))).1[cid]? := by
  funext other
  by_cases h : other = cid
  · subst h
    rw [withShard_same, Function.update_self]
  · rw [withShard_other (hf other h), Function.update_of_ne h]

theorem load_served (s : InMemorySessionStore) (cid nowMs : UInt64) :
    (s.load cid nowMs).2 = .ok ((liveAt s.entry cid nowMs).map Entry.versioned) ∧
      Fades nowMs s.entry (s.load cid nowMs).1.entry := by
  obtain ⟨hentry, hmap⟩ := effectiveEntry_live (s.shards.get (s.shardIndex cid)) cid nowMs
  constructor
  · show Except.ok ((effectiveEntry _ cid nowMs).2.map Entry.versioned) = _
    rw [hentry]
    rfl
  · rw [load, withShard_entry]
    · simp only [hmap]
      exact fades_purge nowMs s.entry cid
    · exact fun other h map => effectiveEntry_other h map

theorem upsert_served (s : InMemorySessionStore) (cid : UInt64) (newRecord : SessionRecord)
    (ttlMs nowMs : UInt64) :
    let entry := nextEntry (liveAt s.entry cid nowMs) newRecord ttlMs nowMs
    (s.upsert cid newRecord ttlMs nowMs).2 = .ok entry.versioned ∧
      (s.upsert cid newRecord ttlMs nowMs).1.entry = Function.update s.entry cid (some entry) := by
  have hentry := (effectiveEntry_live (s.shards.get (s.shardIndex cid)) cid nowMs).1
  have hnext : nextEntry (effectiveEntry (s.shards.get (s.shardIndex cid)) cid nowMs).2 newRecord
      ttlMs nowMs = nextEntry (liveAt s.entry cid nowMs) newRecord ttlMs nowMs := by
    rw [hentry]
    rfl
  refine ⟨congrArg (fun e => Except.ok (Entry.versioned e)) hnext, ?_⟩
  rw [upsert, withShard_entry]
  · simp only [Std.TreeMap.getElem?_insert_self]
    exact congrArg (fun e => Function.update s.entry cid (some e)) hnext
  · intro other h map
    rw [Std.TreeMap.getElem?_insert, if_neg (by simpa using h.symm), effectiveEntry_other h]

theorem delete_served (s : InMemorySessionStore) (cid : UInt64) :
    (s.delete cid).2 = .ok () ∧
      (s.delete cid).1.entry = Function.update s.entry cid none := by
  refine ⟨rfl, ?_⟩
  rw [delete, withShard_entry]
  · simp
  · intro other h map
    rw [Std.TreeMap.getElem?_erase, if_neg (by simpa using h.symm)]

/-- A conflict drops an expired entry as `load` does; otherwise it is an upsert. -/
theorem compareAndSwap_eq (s : InMemorySessionStore) (cid : UInt64)
    (expectedVersion : Option UInt64) (newRecord : SessionRecord) (ttlMs nowMs : UInt64) :
    s.compareAndSwap cid expectedVersion newRecord ttlMs nowMs =
      if (liveAt s.entry cid nowMs).map Entry.version ≠ expectedVersion then
        ((s.load cid nowMs).1, .error (.casConflict expectedVersion
          ((liveAt s.entry cid nowMs).map Entry.version)))
      else s.upsert cid newRecord ttlMs nowMs := by
  have hentry := (effectiveEntry_live (s.shards.get (s.shardIndex cid)) cid nowMs).1
  have hlive : (effectiveEntry (s.shards.get (s.shardIndex cid)) cid nowMs).2 =
      liveAt s.entry cid nowMs := hentry
  split_ifs with h
  · simp only [compareAndSwap, load, withShard, hlive, if_pos h]
  · simp only [compareAndSwap, upsert, withShard, hlive, if_neg h]

theorem removeExpired_fades {limit : Nat} {map : Shard} {keys removed : List UInt64}
    (hkeys : ∀ cid ∈ keys, liveAt (held map) cid nowMs = none) :
    Fades nowMs (held map) (held (removeExpired limit map keys removed).1) := by
  induction keys generalizing map removed with
  | nil => exact Fades.refl nowMs _
  | cons key rest ih =>
    have herase : Fades nowMs (held map) (held (map.erase key)) := by
      rw [held_erase]
      exact fades_erase (hkeys key List.mem_cons_self)
    rw [removeExpired]
    split_ifs with hfull
    · exact herase
    · exact herase.trans (ih fun cid hcid => herase.dead (hkeys cid (List.mem_cons_of_mem key hcid)))

theorem scanShards_fades {n : Nat} {orders : Nat → IterOrder} {limit : Nat} {is : List (Fin n)}
    {shards : Vector Shard n} {removed : List UInt64} (j : Fin n) :
    Fades nowMs (held (shards.get j))
      (held ((scanShards orders nowMs limit is shards removed).1.get j)) := by
  induction is generalizing shards removed with
  | nil => exact Fades.refl nowMs _
  | cons i rest ih =>
    rw [scanShards]
    split_ifs with hfull
    · exact Fades.refl nowMs _
    · refine Fades.trans ?_ ih
      by_cases h : i = j
      · subst h
        simpa [Vector.get_eq_getElem] using
          removeExpired_fades fun cid hcid => collectExpired_expired hcid
      · have hne : i.val ≠ j.val := fun hval => h (Fin.ext hval)
        simpa [Vector.get_eq_getElem, Vector.getElem_set_ne _ _ hne] using Fades.refl nowMs _

theorem scanExpired_served (s : InMemorySessionStore) (orders : Nat → IterOrder) (nowMs : UInt64)
    (limit : Nat) : (∃ removed, (s.scanExpired orders nowMs limit).2 = .ok removed) ∧
      Fades nowMs s.entry (s.scanExpired orders nowMs limit).1.entry := by
  unfold scanExpired
  split_ifs with hlimit
  · exact ⟨⟨[], rfl⟩, Fades.refl nowMs _⟩
  · exact ⟨⟨_, rfl⟩, fun cid => scanShards_fades (s.shardIndex cid) cid⟩

/-- Every call of the store in memory does what `serve` does. -/
theorem served (s : InMemorySessionStore) (c : StoreCall) :
    Served c s.entry (s.call c).2 (s.call c).1.entry := by
  obtain ⟨nowMs, op⟩ := c
  cases op with
  | load cid =>
    obtain ⟨hreply, hfades⟩ := s.load_served cid nowMs
    exact ⟨by simp [call, serve, hreply, Except.map, withoutCids], hfades⟩
  | compareAndSwap cid expectedVersion newRecord ttlMs =>
    simp only [call, s.compareAndSwap_eq]
    split_ifs with h
    · refine ⟨by simp [serve, h, Except.map, withoutCids], ?_⟩
      simpa [serve, h] using (s.load_served cid nowMs).2
    · obtain ⟨hreply, hentry⟩ := s.upsert_served cid newRecord.1 ttlMs nowMs
      refine ⟨by simp [serve, h, hreply, Except.map, withoutCids], ?_⟩
      simp only [serve, h, if_false, hentry]
      exact Fades.refl nowMs _
  | upsert cid newRecord ttlMs =>
    obtain ⟨hreply, hentry⟩ := s.upsert_served cid newRecord.1 ttlMs nowMs
    refine ⟨by simp [call, serve, hreply, Except.map, withoutCids], ?_⟩
    simp only [serve, call, hentry]
    exact Fades.refl nowMs _
  | delete cid =>
    obtain ⟨hreply, hentry⟩ := s.delete_served cid
    refine ⟨by simp [call, serve, hreply, Except.map, withoutCids], ?_⟩
    simp only [serve, call, hentry]
    exact Fades.refl nowMs _
  | scanExpired limit shards disk =>
    obtain ⟨⟨removed, hreply⟩, hfades⟩ := s.scanExpired_served shards nowMs limit
    exact ⟨by simp [call, serve, hreply, Except.map, withoutCids], hfades⟩

end InMemorySessionStore

/-! ### The store on disk -/

theorem liveEntry_eq (entries : Shard) (cid nowMs : UInt64) :
    liveEntry entries cid nowMs = liveAt (held entries) cid nowMs := rfl

theorem stageLoad_served (entries : Shard) (cid nowMs : UInt64) :
    (stageLoad entries cid nowMs).result =
        .ok ((liveAt (held entries) cid nowMs).map Entry.versioned) ∧
      Fades nowMs (held entries) (held (stageLoad entries cid nowMs).entries) := by
  unfold stageLoad liveAt
  cases he : held entries cid with
  | none =>
    have hnone : entries[cid]? = none := he
    simp [hnone, Fades.refl]
  | some e =>
    have hsome : entries[cid]? = some e := he
    by_cases hlive : e.expiresAtMs > nowMs
    · simp [hsome, hlive, Option.filter_some, Entry.versioned, Fades.refl]
    · have hdead : liveAt (held entries) cid nowMs = none :=
        liveAt_of_expired he (UInt64.not_lt.mp hlive)
      simp [hsome, hlive, Option.filter_some, fades_erase hdead]

theorem held_foldl_erase (map : Shard) (keys : List UInt64) (cid : UInt64) :
    held (keys.foldl (fun map cid => map.erase cid) map) cid =
      if cid ∈ keys then none else held map cid := by
  induction keys generalizing map with
  | nil => rfl
  | cons key keys ih =>
    rw [List.foldl_cons, ih, held_erase]
    by_cases hkey : cid = key
    · subst hkey
      simp
    · rw [Function.update_of_ne hkey]
      simp [hkey]

/-- Erasing what a scan has collected. -/
theorem eraseAll_fades {nowMs : UInt64} {map : Shard} {keys : List UInt64}
    (hkeys : ∀ cid ∈ keys, liveAt (held map) cid nowMs = none) :
    Fades nowMs (held map) (held (keys.foldl (fun map cid => map.erase cid) map)) := by
  intro cid
  rw [held_foldl_erase]
  split_ifs with hmem
  · exact .inr ⟨rfl, hkeys cid hmem⟩
  · exact .inl rfl

theorem stageScanExpired_served (order : IterOrder) (entries : Shard) (nowMs : UInt64)
    (limit : Nat) : (∃ expired, (stageScanExpired order entries nowMs limit).result = .ok expired) ∧
      Fades nowMs (held entries) (held (stageScanExpired order entries nowMs limit).entries) := by
  unfold stageScanExpired
  split_ifs with hlimit
  · exact ⟨⟨[], rfl⟩, Fades.refl nowMs _⟩
  · exact ⟨⟨_, rfl⟩, eraseAll_fades fun cid hcid => collectExpired_expired hcid⟩

def Staged.map {α β : Type} (f : α → β) (staged : Staged α) : Staged β :=
  ⟨staged.entries, staged.appends, staged.result.map f⟩

section Disk
variable [SerdeJson]

/-- What a call does under the lock. -/
def stage (entries : Shard) (c : StoreCall) : Staged Answer :=
  match c.op with
  | .load cid => (stageLoad entries cid c.nowMs).map .loaded
  | .compareAndSwap cid expectedVersion newRecord ttlMs =>
    (stageCompareAndSwap entries cid expectedVersion newRecord.1 ttlMs c.nowMs).map .written
  | .upsert cid newRecord ttlMs => (stageUpsert entries cid newRecord.1 ttlMs c.nowMs).map .written
  | .delete cid => (stageDelete entries cid).map fun _ => .deleted
  | .scanExpired limit _ disk => (stageScanExpired disk entries c.nowMs limit).map .scanned

section Lawful
variable [LawfulSerdeJson]

/-- A write stages the next entry and the log entry for it. -/
theorem stageWrite_eq (entries : Shard) (cid : UInt64) (current : Option Entry)
    (newRecord : Record) (ttlMs nowMs : UInt64) :
    let entry := nextEntry current newRecord.1 ttlMs nowMs
    ∃ data, decodeSessionRecordMigrating data = .ok newRecord.1 ∧
      stageWrite entries cid (current.map Entry.version) newRecord.1 ttlMs nowMs =
        ⟨entries.insert cid entry, [.upsert cid entry.version entry.expiresAtMs data],
          .ok entry.versioned⟩ := by
  obtain ⟨data, hencode, -, hdecode⟩ := encodeSessionRecord_decodes newRecord.2
  refine ⟨data, hdecode, ?_⟩
  simp only [stageWrite, hencode]
  rfl

/-- Every call of the store on disk does under its lock what `serve` does. -/
theorem stage_served (entries : Shard) (c : StoreCall) :
    Served c (held entries) (stage entries c).result (held (stage entries c).entries) := by
  obtain ⟨nowMs, op⟩ := c
  cases op with
  | load cid =>
    obtain ⟨hreply, hfades⟩ := stageLoad_served entries cid nowMs
    exact ⟨by simp [stage, Staged.map, serve, hreply, Except.map, withoutCids], hfades⟩
  | compareAndSwap cid expectedVersion newRecord ttlMs =>
    by_cases h : (liveAt (held entries) cid nowMs).map Entry.version = expectedVersion
    · obtain ⟨data, -, hwrite⟩ := stageWrite_eq entries cid (liveAt (held entries) cid nowMs)
        newRecord ttlMs nowMs
      have hstage : stageCompareAndSwap entries cid expectedVersion newRecord.1 ttlMs nowMs = _ :=
        (if_neg (not_not.mpr h)).trans hwrite
      simp only [stage, hstage]
      refine ⟨by simp [Staged.map, serve, h, Except.map, withoutCids], ?_⟩
      simpa [Staged.map, serve, h] using Fades.refl nowMs _
    · have hstage : stageCompareAndSwap entries cid expectedVersion newRecord.1 ttlMs nowMs = _ :=
        if_pos h
      simp only [stage, hstage, liveEntry_eq]
      refine ⟨by simp [Staged.map, serve, h, Except.map, withoutCids], ?_⟩
      simpa [Staged.map, serve, h] using Fades.refl nowMs _
  | upsert cid newRecord ttlMs =>
    obtain ⟨data, -, hwrite⟩ := stageWrite_eq entries cid (liveAt (held entries) cid nowMs)
      newRecord ttlMs nowMs
    simp only [stage, stageUpsert, liveEntry_eq, hwrite]
    refine ⟨by simp [Staged.map, serve, Except.map, withoutCids], ?_⟩
    simpa [Staged.map, serve] using Fades.refl nowMs _
  | delete cid =>
    refine ⟨by simp [stage, stageDelete, Staged.map, serve, Except.map, withoutCids], ?_⟩
    simpa [stage, stageDelete, Staged.map, serve] using Fades.refl nowMs _
  | scanExpired limit shards disk =>
    obtain ⟨⟨expired, hreply⟩, hfades⟩ := stageScanExpired_served disk entries nowMs limit
    exact ⟨by simp [stage, Staged.map, serve, hreply, Except.map, withoutCids], hfades⟩

end Lawful

variable [DefaultHasher]

theorem DiskSessionStore.finish_map {α β : Type} (f : α → β) (io : Io) (s : DiskSessionStore)
    (staged : Staged α) : s.finish io (staged.map f) =
      ((s.finish io staged).1, (s.finish io staged).2.map f) := by
  unfold finish Staged.map
  cases appendOps io 0 s.files staged.appends with
  | mk files r => cases r <;> rfl

/-- A call stages its work, and appends to the log what is to be appended. -/
theorem DiskSessionStore.call_eq (io : Io) (s : DiskSessionStore) (c : StoreCall) :
    s.call io c = s.finish io (stage s.entries c) := by
  obtain ⟨nowMs, op⟩ := c
  cases op <;> simp only [call, stage, finish_map] <;> rfl

variable [LawfulSerdeJson]

theorem logLine_ok (op : DiskOp) : ∃ line, logLine op = .ok line := by
  obtain ⟨opBytes, hop, -⟩ := toVec_plain op.plain op.ofDoc_doc
  obtain ⟨line, hline, -⟩ := toVec_plain (DiskLogEntry.plain ⟨op, calcChecksum opBytes⟩)
    (DiskLogEntry.ofDoc_doc _)
  exact ⟨line, by simp only [logLine, hop, hline]⟩

/-- Without faults everything gets appended. -/
theorem appendOps_fine (n : Nat) (files : Files) (ops : List DiskOp) :
    (appendOps Io.fine n files ops).2 = .ok () := by
  induction ops generalizing n files with
  | nil => rfl
  | cons op ops ih =>
    obtain ⟨line, hline⟩ := logLine_ok op
    simpa [appendOps, appendOp, hline, Io.fine, appendFile] using ih (n + 1) _

theorem DiskSessionStore.finish_fine {α : Type} (s : DiskSessionStore) (staged : Staged α) :
    s.finish Io.fine staged =
      (⟨staged.entries, (appendOps Io.fine 0 s.files staged.appends).1⟩, staged.result) := by
  have hok := appendOps_fine 0 s.files staged.appends
  unfold finish
  cases hr : appendOps Io.fine 0 s.files staged.appends with
  | mk files r =>
    rw [hr] at hok
    obtain rfl : r = .ok () := hok
    rfl

theorem DiskSessionStore.served (s : DiskSessionStore) (c : StoreCall) :
    Served c (held s.entries) (s.call Io.fine c).2 (held (s.call Io.fine c).1.entries) := by
  rw [call_eq, finish_fine]
  exact stage_served s.entries c

end Disk

end Todero.Store
