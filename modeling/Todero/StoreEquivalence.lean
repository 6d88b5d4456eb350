import Todero.StoreCalls

/-! Both stores answer like one abstract map, in which a record is live until its time is
over and its version counts the writes since it last was absent. -/
namespace Todero.Store
open Todero.Core

/-- A record, when and for how long it was written, and the writes since it last was absent. -/
structure Written where
  record : SessionRecord
  writtenAtMs : UInt64
  ttlMs : UInt64
  writes : Nat

namespace Written
variable (w : Written)

/-- The sum stops at the largest time there is. -/
def expiry : Nat := min (w.writtenAtMs.toNat + w.ttlMs.toNat) u64Max

def Live (nowMs : UInt64) : Prop := nowMs.toNat < w.expiry

instance (nowMs : UInt64) : Decidable (w.Live nowMs) := inferInstanceAs (Decidable (_ < _))

/-- The count stops at the largest version there is. -/
def version : UInt64 := UInt64.ofNat (min w.writes u64Max)

def versioned : VersionedRecord := ⟨w.version, w.record, UInt64.ofNat w.expiry⟩

end Written

abbrev SessionMap := UInt64 → Option Written

namespace SessionMap
variable (m : SessionMap) (c : StoreCall)

def live (cid nowMs : UInt64) : Option Written := (m cid).filter (·.Live nowMs)

/-- A write at `nowMs` over what is live then. -/
def next (cid : UInt64) (newRecord : SessionRecord) (ttlMs nowMs : UInt64) : Written :=
  ⟨newRecord, nowMs, ttlMs, ((m.live cid nowMs).map Written.writes).getD 0 + 1⟩

def call : SessionMap × Reply :=
  match c.op with
  | .load cid => (m, .ok (.loaded ((m.live cid c.nowMs).map Written.versioned)))
  | .compareAndSwap cid expectedVersion newRecord ttlMs =>
    let current := (m.live cid c.nowMs).map Written.version
    if current ≠ expectedVersion then (m, .error (.casConflict expectedVersion current))
    else
      let w := m.next cid newRecord.1 ttlMs c.nowMs
      (Function.update m cid (some w), .ok (.written w.versioned))
  | .upsert cid newRecord ttlMs =>
    let w := m.next cid newRecord.1 ttlMs c.nowMs
    (Function.update m cid (some w), .ok (.written w.versioned))
  | .delete cid => (Function.update m cid none, .ok .deleted)
  | .scanExpired _ _ _ => (m, .ok (.scanned []))

end SessionMap

/-- From `nowMs` on the entries and the abstract map show the same records as live. -/
def Shows (nowMs : UInt64) (look : Look) (m : SessionMap) : Prop :=
  ∀ laterMs, nowMs ≤ laterMs → ∀ cid,
    (liveAt look cid laterMs).map Entry.versioned = (m.live cid laterMs).map Written.versioned

section Steps
variable {nowMs laterMs : UInt64} {look look' : Look} {m : SessionMap} {cid : UInt64}

theorem Shows.later (h : Shows nowMs look m) (hlater : nowMs ≤ laterMs) : Shows laterMs look m :=
  fun t ht => h t (UInt64.le_trans hlater ht)

theorem Shows.fades (h : Shows nowMs look m) (hfades : Fades nowMs look look') :
    Shows nowMs look' m := by
  intro t ht cid
  rw [hfades.liveAt_eq ht]
  exact h t ht cid

theorem Shows.delete (h : Shows nowMs look m) :
    Shows nowMs (Function.update look cid none) (Function.update m cid none) := by
  intro t ht other
  by_cases hc : other = cid
  · subst hc
    simp [liveAt, SessionMap.live]
  · simpa [liveAt, SessionMap.live, Function.update_of_ne hc] using h t ht other

/-- An entry and a record of the abstract map that are live at the same times. -/
theorem live_iff {e : Entry} {w : Written} (h : e.versioned = w.versioned) :
    e.expiresAtMs > laterMs ↔ w.Live laterMs := by
  have hexpiry : e.expiresAtMs = UInt64.ofNat w.expiry := congrArg VersionedRecord.expiresAtMs h
  have hlt : w.expiry < 2 ^ 64 := (Nat.min_le_right _ _).trans_lt (by decide)
  rw [gt_iff_lt, UInt64.lt_iff_toNat_lt, hexpiry, UInt64.toNat_ofNat_of_lt' hlt]
  rfl

theorem Shows.put {e : Entry} {w : Written} (h : Shows nowMs look m)
    (hew : e.versioned = w.versioned) :
    Shows nowMs (Function.update look cid (some e)) (Function.update m cid (some w)) := by
  intro t ht other
  by_cases hc : other = cid
  · subst hc
    by_cases hlive : w.Live t
    · simp [liveAt, SessionMap.live, Option.filter_some, (live_iff hew).mpr hlive, hlive, hew]
    · simp [liveAt, SessionMap.live, Option.filter_some, mt (live_iff hew).mp hlive, hlive]
  · simpa [liveAt, SessionMap.live, Function.update_of_ne hc] using h t ht other

theorem Shows.version (h : Shows nowMs look m) (cid : UInt64) :
    (liveAt look cid nowMs).map Entry.version = (m.live cid nowMs).map Written.version := by
  have hversion := congrArg (Option.map VersionedRecord.version) (h nowMs UInt64.le_rfl cid)
  rwa [Option.map_map, Option.map_map] at hversion

/-- The next version counts one write more. -/
theorem saturatingAdd_writes (writes : Nat) :
    saturatingAdd (UInt64.ofNat (min writes u64Max)) 1 = UInt64.ofNat (min (writes + 1) u64Max) := by
  have hlt : min writes u64Max < 2 ^ 64 := (Nat.min_le_right _ _).trans_lt (by decide)
  have hone : (1 : UInt64).toNat = 1 := rfl
  rw [saturatingAdd, UInt64.toNat_ofNat_of_lt' hlt, hone]
  congr 1
  omega

theorem Shows.next (h : Shows nowMs look m) (cid : UInt64) (newRecord : SessionRecord)
    (ttlMs : UInt64) : (nextEntry (liveAt look cid nowMs) newRecord ttlMs nowMs).versioned =
      (m.next cid newRecord ttlMs nowMs).versioned := by
  have hversion : saturatingAdd (((liveAt look cid nowMs).map Entry.version).getD 0) 1 =
      (m.next cid newRecord ttlMs nowMs).version := by
    rw [h.version]
    cases hw : m.live cid nowMs with
    | none => simp [SessionMap.next, Written.version, hw, saturatingAdd, u64Max]
    | some w => simpa [SessionMap.next, Written.version, hw] using saturatingAdd_writes w.writes
  simp only [nextEntry, Entry.versioned, Written.versioned, hversion]
  rfl

/-- `serve` and the abstract map reply the same, and go on showing the same records. -/
theorem serve_shows {c : StoreCall} (h : Shows c.nowMs look m) :
    (serve look c).2 = (m.call c).2 ∧ Shows c.nowMs (serve look c).1 (m.call c).1 := by
  obtain ⟨nowMs, op⟩ := c
  cases op with
  | load cid =>
    refine ⟨?_, h⟩
    rw [serve, SessionMap.call]
    simp only [h nowMs UInt64.le_rfl cid]
  | compareAndSwap cid expectedVersion newRecord ttlMs =>
    have hversion := h.version cid
    have hnext := h.next cid newRecord.1 ttlMs
    simp only [serve, SessionMap.call, hversion, hnext]
    split_ifs with hc
    · exact ⟨rfl, h⟩
    · exact ⟨rfl, h.put hnext⟩
  | upsert cid newRecord ttlMs =>
    have hnext := h.next cid newRecord.1 ttlMs
    refine ⟨?_, h.put hnext⟩
    simp only [serve, SessionMap.call, hnext]
  | delete cid => exact ⟨rfl, h.delete⟩
  | scanExpired limit shards disk => exact ⟨rfl, h⟩

theorem Served.shows {c : StoreCall} {reply : Reply} (hserved : Served c look reply look')
    (h : Shows c.nowMs look m) :
    withoutCids reply = (m.call c).2 ∧ Shows c.nowMs look' (m.call c).1 := by
  obtain ⟨hreply, hshows⟩ := serve_shows h
  exact ⟨hserved.reply_eq.trans hreply, hshows.fades hserved.fades⟩

/-- A store whose calls do what `serve` does answers a run as the abstract map does. -/
theorem replies_eq {σ : Type} {step : σ → StoreCall → σ × Reply} {look : σ → Look}
    (hserved : ∀ s c, Served c (look s) (step s c).2 (look (step s c).1)) (startMs : UInt64)
    {s : σ} {calls : List StoreCall} (h : Shows startMs (look s) m)
    (htimes : ∀ c ∈ calls, startMs ≤ c.nowMs)
    (horder : calls.Pairwise fun c d => c.nowMs ≤ d.nowMs) :
    (replies step s calls).map withoutCids = replies SessionMap.call m calls := by
  induction calls generalizing startMs s m with
  | nil => rfl
  | cons c calls ih =>
    obtain ⟨hlater, horder⟩ := List.pairwise_cons.mp horder
    obtain ⟨hreply, hshows⟩ := (hserved s c).shows (h.later (htimes c List.mem_cons_self))
    rw [replies, List.map_cons, hreply, ih c.nowMs hshows hlater horder, replies]

theorem shows_empty : Shows nowMs (fun _ => none) fun _ => none := fun _ _ _ => rfl

end Steps

theorem InMemorySessionStore.new_entry {shardCount : Nat} {memory : InMemorySessionStore}
    (h : new shardCount = .ok memory) : memory.entry = fun _ => none := by
  unfold new at h
  split_ifs at h with hzero
  obtain rfl := Except.ok.inj h
  funext cid
  simp [entry, Vector.get_eq_getElem]

theorem DiskSessionStore.new_empty [SerdeJson] [DefaultHasher] :
    (DiskSessionStore.new Io.fine {}).2 = .ok ⟨∅, { log := some [] }⟩ := rfl

/-- The two stores, opened empty, answer every run of calls at nondecreasing times as the
abstract map does. -/
theorem stores_answer_alike [SerdeJson] [DefaultHasher] [LawfulSerdeJson] {shardCount : Nat}
    (hcount : 1 ≤ shardCount) :
    ∃ memory disk, InMemorySessionStore.new shardCount = .ok memory ∧
      (DiskSessionStore.new Io.fine {}).2 = .ok disk ∧
      ∀ calls : List StoreCall, (calls.Pairwise fun c d => c.nowMs ≤ d.nowMs) →
        (replies InMemorySessionStore.call memory calls).map withoutCids =
            replies SessionMap.call (fun _ => none) calls ∧
          (replies (DiskSessionStore.call Io.fine) disk calls).map withoutCids =
            replies SessionMap.call (fun _ => none) calls := by
  have hpos : shardCount ≠ 0 := Nat.one_le_iff_ne_zero.mp hcount
  have hnew : InMemorySessionStore.new shardCount = .ok ⟨shardCount, _, _⟩ := dif_neg hpos
  refine ⟨_, _, hnew, DiskSessionStore.new_empty, fun calls horder => ⟨?_, ?_⟩⟩
  · refine replies_eq InMemorySessionStore.served 0 ?_ (fun c _ => UInt64.zero_le) horder
    rw [InMemorySessionStore.new_entry hnew]
    exact shows_empty
  · refine replies_eq DiskSessionStore.served 0 ?_ (fun c _ => UInt64.zero_le) horder
    rw [held_empty]
    exact shows_empty

/-- A record is written, found and replaced, expires, and starts again at version 1. -/
theorem stores_answer_alike_for_one_shard :
    ∃ memory disk, InMemorySessionStore.new 1 = .ok memory ∧
      (DiskSessionStore.new Io.fine {}).2 = .ok disk ∧
      let calls : List StoreCall := [⟨10, .upsert 7 (sampleRecord 7 "a") 5⟩, ⟨12, .load 7⟩,
        ⟨12, .compareAndSwap 7 (some 1) (sampleRecord 7 "b") 5⟩, ⟨17, .load 7⟩,
        ⟨17, .upsert 7 (sampleRecord 7 "c") 5⟩]
      let expected : List Reply := [.ok (.written ⟨1, (sampleRecord 7 "a").1, 15⟩),
        .ok (.loaded (some ⟨1, (sampleRecord 7 "a").1, 15⟩)),
        .ok (.written ⟨2, (sampleRecord 7 "b").1, 17⟩), .ok (.loaded none),
        .ok (.written ⟨1, (sampleRecord 7 "c").1, 22⟩)]
      (replies InMemorySessionStore.call memory calls).map withoutCids = expected ∧
        (replies (DiskSessionStore.call Io.fine) disk calls).map withoutCids = expected := by
  obtain ⟨memory, disk, hmemory, hdisk, hall⟩ := stores_answer_alike (Nat.le_refl 1)
  exact ⟨memory, disk, hmemory, hdisk, hall _ (by decide)⟩

end Todero.Store
