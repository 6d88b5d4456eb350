import Todero.ExpiryScan
import Todero.StoreEquivalence

/-! Several threads on one store in memory. A call holds the lock of one shard; a scan takes
the locks of the shards one after the other, and other threads come in between. -/
namespace Todero.Store
open Transition

/-- A scan between two shards. -/
structure Scan where
  nowMs : UInt64
  limit : Nat
  orders : Nat → IterOrder
  nextShard : Nat
  removed : List UInt64

structure SharedMemory where
  store : InMemorySessionStore
  scans : Nat → Option Scan

inductive MemoryMove where
  | call (thread : Nat) (c : StoreCall)
  | go (thread : Nat)

def MemoryMove.thread : MemoryMove → Nat
  | .call thread _ => thread
  | .go thread => thread

/-- What a scan does with one shard under its lock. -/
def InMemorySessionStore.scanShard (s : InMemorySessionStore) (scan : Scan)
    (i : Fin s.shardCount) : InMemorySessionStore × List UInt64 :=
  let map := s.shards.get i
  let expiredKeys :=
    collectExpired scan.nowMs scan.limit scan.removed.length ((scan.orders i).list map) []
  let taken := InMemorySessionStore.removeExpired scan.limit map expiredKeys scan.removed
  (⟨s.shardCount, s.shards.set i taken.1, s.count_pos⟩, taken.2)

namespace SharedMemory
variable (w : SharedMemory)

def setScan (thread : Nat) (scan : Option Scan) : SharedMemory :=
  ⟨w.store, Function.update w.scans thread scan⟩

def begin (thread : Nat) (c : StoreCall) : SharedMemory × Option Reply :=
  match c.op with
  | .scanExpired limit orders _ =>
    if limit = 0 then (w, some (.ok (.scanned [])))
    else (w.setScan thread (some ⟨c.nowMs, limit, orders, 0, []⟩), none)
  | _ =>
    let (store, reply) := w.store.call c
    (⟨store, w.scans⟩, some reply)

/-- The next pass of the loop over the shards, or the return. -/
def go (thread : Nat) (scan : Scan) : SharedMemory × Option Reply :=
  if h : scan.nextShard < w.store.shardCount then
    if scan.removed.length ≥ scan.limit then
      (w.setScan thread none, some (.ok (.scanned scan.removed)))
    else
      let (store, removed) := w.store.scanShard scan ⟨scan.nextShard, h⟩
      (⟨store, Function.update w.scans thread
        (some { scan with nextShard := scan.nextShard + 1, removed })⟩, none)
  else (w.setScan thread none, some (.ok (.scanned scan.removed)))

def step : MemoryMove → Option (SharedMemory × Option Reply)
  | .call thread c => if (w.scans thread).isNone then some (w.begin thread c) else none
  | .go thread => (w.scans thread).map (w.go thread)

/-- No thread is in a scan. -/
def start (s : InMemorySessionStore) : SharedMemory := ⟨s, fun _ => none⟩

end SharedMemory

/-! ### One step -/

/-- The cids that a scan takes out of the next shard: they belong there and have expired, and
if they leave room to the limit, nothing else of the shard has. -/
structure SharedMemory.Visited (w : SharedMemory) (scan : Scan) (keys : List UInt64) : Prop where
  here : ∀ cid ∈ keys, (w.store.shardIndex cid).val = scan.nextShard
  due : ∀ cid ∈ keys, ∃ e, w.store.entry cid = some e ∧ e.expiresAtMs ≤ scan.nowMs
  nodup : keys.Nodup
  room : scan.removed.length + keys.length ≤ scan.limit
  rest : scan.removed.length + keys.length < scan.limit → ∀ cid,
    (w.store.shardIndex cid).val = scan.nextShard → cid ∉ keys →
      ∀ e, w.store.entry cid = some e → scan.nowMs < e.expiresAtMs

/-- What a step does to the entries and to the scans. -/
inductive SharedMemory.Stepped (w w' : SharedMemory) : MemoryMove → Option Reply → Prop
  | served {thread : Nat} {c : StoreCall} {cid : UInt64} {reply : Reply} :
      c.op.cid = some cid → Served c w.store.entry reply w'.store.entry →
      w'.scans = w.scans → Stepped w w' (.call thread c) (some reply)
  | refused {thread : Nat} {c : StoreCall} : c.op.cid = none → w' = w →
      Stepped w w' (.call thread c) (some (.ok (.scanned [])))
  | begun {thread : Nat} {c : StoreCall} {scan : Scan} : w.scans thread = none →
      scan.nowMs = c.nowMs → scan.nextShard = 0 → scan.removed = [] →
      (∃ orders disk, c.op = .scanExpired scan.limit orders disk) →
      w' = w.setScan thread (some scan) → Stepped w w' (.call thread c) none
  | visited {thread : Nat} {scan : Scan} {keys : List UInt64} :
      w.scans thread = some scan → scan.nextShard < w.store.shardCount → w.Visited scan keys →
      (∀ cid, w'.store.entry cid = if cid ∈ keys then none else w.store.entry cid) →
      w'.scans = Function.update w.scans thread (some
        { scan with nextShard := scan.nextShard + 1, removed := scan.removed ++ keys }) →
      Stepped w w' (.go thread) none
  | returned {thread : Nat} {scan : Scan} : w.scans thread = some scan →
      (scan.removed.length < scan.limit → w.store.shardCount ≤ scan.nextShard) →
      w' = w.setScan thread none → Stepped w w' (.go thread) (some (.ok (.scanned scan.removed)))

namespace InMemorySessionStore
variable {s : InMemorySessionStore}

theorem call_shardCount (c : StoreCall) (hcid : c.op.cid ≠ none) :
    (s.call c).1.shardCount = s.shardCount := by
  obtain ⟨nowMs, op⟩ := c
  cases op with
  | load cid => rfl
  | compareAndSwap cid expectedVersion newRecord ttlMs => rfl
  | upsert cid newRecord ttlMs => rfl
  | delete cid => rfl
  | scanExpired limit shards disk => exact absurd rfl hcid

theorem shardIndex_val (cid : UInt64) : (s.shardIndex cid).val = cid.toNat % s.shardCount := rfl

/-- Under the lock of a shard a scan takes the first expired cids of the shard. -/
theorem scanShard_eq (hs : s.Placed) {scan : Scan} {i : Fin s.shardCount} {keys : List UInt64}
    (hroom : scan.removed.length < scan.limit)
    (hkeys : keys = (expiredKeys (scan.orders i) scan.nowMs (s.shards.get i)).take
      (scan.limit - scan.removed.length)) :
    (s.scanShard scan i).2 = scan.removed ++ keys ∧ (s.scanShard scan i).1.Placed ∧
      ∀ cid, (s.scanShard scan i).1.entry cid = if cid ∈ keys then none else s.entry cid := by
  have hlen : scan.removed.length + keys.length ≤ scan.limit := by
    rw [hkeys, List.length_take]
    omega
  have hcollect : collectExpired scan.nowMs scan.limit scan.removed.length
      ((scan.orders i).list (s.shards.get i)) [] = keys := by
    rw [collectExpired_eq (by simpa using hroom), hkeys]
    rfl
  have hheld : ∀ cid ∈ keys, held (s.shards.get i) cid ≠ none := by
    intro cid hmem
    rw [hkeys] at hmem
    obtain ⟨e, he, -⟩ := mem_expiredKeys.mp (List.mem_of_mem_take hmem)
    simp [he]
  have hleft := take_keys_held hs hheld
  have heq : s.scanShard scan i = (⟨s.shardCount, s.shards.set i
      (keys.foldl (fun map cid => map.erase cid) (s.shards.get i)) i.isLt, s.count_pos⟩,
        scan.removed ++ keys) := by
    simp only [scanShard, hcollect, removeExpired_eq hlen]
  rw [heq]
  refine ⟨rfl, ?_, fun cid => hleft (s.shardIndex cid) cid⟩
  intro j cid hsome
  have hsome' : held ((s.shards.set i
      (keys.foldl (fun map cid => map.erase cid) (s.shards.get i)) i.isLt).get j) cid ≠ none :=
    hsome
  rw [hleft] at hsome'
  split_ifs at hsome' with hmem
  · exact absurd rfl hsome'
  · exact hs j cid hsome'

end InMemorySessionStore

namespace SharedMemory
variable {w w' : SharedMemory} {m : MemoryMove} {r : Option Reply}

theorem begin_stepped {thread : Nat} (hidle : w.scans thread = none) (c : StoreCall) :
    w.Stepped (w.begin thread c).1 (.call thread c) (w.begin thread c).2 ∧
      (w.begin thread c).1.store.shardCount = w.store.shardCount ∧
      (w.store.Placed → (w.begin thread c).1.store.Placed) := by
  have hcall : ∀ cid, c.op.cid = some cid →
      w.begin thread c = (⟨(w.store.call c).1, w.scans⟩, some (w.store.call c).2) →
      w.Stepped (w.begin thread c).1 (.call thread c) (w.begin thread c).2 ∧
        (w.begin thread c).1.store.shardCount = w.store.shardCount ∧
        (w.store.Placed → (w.begin thread c).1.store.Placed) := by
    intro cid hcid heq
    rw [heq]
    exact ⟨.served hcid (w.store.served c) rfl,
      InMemorySessionStore.call_shardCount c (by simp [hcid]),
      fun hs => InMemorySessionStore.call_placed hs c⟩
  obtain ⟨nowMs, op⟩ := c
  cases op with
  | load cid => exact hcall cid rfl rfl
  | compareAndSwap cid expectedVersion newRecord ttlMs => exact hcall cid rfl rfl
  | upsert cid newRecord ttlMs => exact hcall cid rfl rfl
  | delete cid => exact hcall cid rfl rfl
  | scanExpired limit orders disk =>
    by_cases hlimit : limit = 0
    · have heq : w.begin thread ⟨nowMs, .scanExpired limit orders disk⟩ =
          (w, some (.ok (.scanned []))) := if_pos hlimit
      rw [heq]
      exact ⟨.refused rfl rfl, rfl, id⟩
    · have heq : w.begin thread ⟨nowMs, .scanExpired limit orders disk⟩ =
          (w.setScan thread (some ⟨nowMs, limit, orders, 0, []⟩), none) := if_neg hlimit
      rw [heq]
      exact ⟨.begun hidle rfl rfl rfl ⟨orders, disk, rfl⟩ rfl, rfl, id⟩

theorem go_stepped (hs : w.store.Placed) {thread : Nat} {scan : Scan}
    (hscan : w.scans thread = some scan) :
    w.Stepped (w.go thread scan).1 (.go thread) (w.go thread scan).2 ∧
      (w.go thread scan).1.store.shardCount = w.store.shardCount ∧
      (w.go thread scan).1.store.Placed := by
  by_cases hnext : scan.nextShard < w.store.shardCount
  · by_cases hfull : scan.removed.length ≥ scan.limit
    · have heq : w.go thread scan = (w.setScan thread none, some (.ok (.scanned scan.removed))) := by
        rw [go, dif_pos hnext, if_pos hfull]
      rw [heq]
      exact ⟨.returned hscan (fun hlt => absurd hlt (by omega)) rfl, rfl, hs⟩
    · obtain ⟨keys, hkeys⟩ : ∃ keys, keys = (expiredKeys (scan.orders scan.nextShard) scan.nowMs
          (w.store.shards.get ⟨scan.nextShard, hnext⟩)).take
            (scan.limit - scan.removed.length) := ⟨_, rfl⟩
      obtain ⟨hremoved, hplaced, hleft⟩ := InMemorySessionStore.scanShard_eq hs
        (i := ⟨scan.nextShard, hnext⟩) (Nat.lt_of_not_ge hfull) hkeys
      have heq : w.go thread scan = (⟨(w.store.scanShard scan ⟨scan.nextShard, hnext⟩).1,
          Function.update w.scans thread (some { scan with
            nextShard := scan.nextShard + 1, removed := scan.removed ++ keys })⟩, none) := by
        rw [go, dif_pos hnext, if_neg hfull, ← hremoved]
      rw [heq]
      refine ⟨.visited hscan hnext ?_ hleft rfl, rfl, hplaced⟩
      have hmem : ∀ cid ∈ keys, ∃ e,
          held (w.store.shards.get ⟨scan.nextShard, hnext⟩) cid = some e ∧
            e.expiresAtMs ≤ scan.nowMs := by
        intro cid hcid
        rw [hkeys] at hcid
        exact mem_expiredKeys.mp (List.mem_of_mem_take hcid)
      have hplace : ∀ cid ∈ keys, w.store.shardIndex cid = ⟨scan.nextShard, hnext⟩ := by
        intro cid hcid
        obtain ⟨e, he, -⟩ := hmem cid hcid
        exact (hs _ cid (by simp [he])).symm
      have hlen : keys.length ≤ scan.limit - scan.removed.length := by
        rw [hkeys]
        exact List.length_take_le _ _
      constructor
      · exact fun cid hcid => congrArg Fin.val (hplace cid hcid)
      · intro cid hcid
        obtain ⟨e, he, hdead⟩ := hmem cid hcid
        refine ⟨e, ?_, hdead⟩
        rw [InMemorySessionStore.entry, hplace cid hcid]
        exact he
      · rw [hkeys]
        exact expiredKeys_nodup.sublist (List.take_sublist _ _)
      · omega
      · intro hroom cid hhere hnot e he
        by_contra hdead
        have hindex : w.store.shardIndex cid = ⟨scan.nextShard, hnext⟩ := Fin.ext hhere
        have hin : cid ∈ expiredKeys (scan.orders scan.nextShard) scan.nowMs
            (w.store.shards.get ⟨scan.nextShard, hnext⟩) := by
          refine mem_expiredKeys.mpr ⟨e, ?_, UInt64.not_lt.mp hdead⟩
          rw [InMemorySessionStore.entry, hindex] at he
          exact he
        -- with room left over, the keys are all that has expired
        have hall : (expiredKeys (scan.orders scan.nextShard) scan.nowMs
            (w.store.shards.get ⟨scan.nextShard, hnext⟩)).length ≤
              scan.limit - scan.removed.length := by
          have hshort := congrArg List.length hkeys
          rw [List.length_take] at hshort
          omega
        rw [List.take_of_length_le hall] at hkeys
        exact hnot (hkeys ▸ hin)
  · have heq : w.go thread scan = (w.setScan thread none, some (.ok (.scanned scan.removed))) := by
      rw [go, dif_neg hnext]
    rw [heq]
    exact ⟨.returned hscan (fun _ => Nat.le_of_not_lt hnext) rfl, rfl, hs⟩

theorem step_stepped (hs : w.store.Placed) (hstep : w.step m = some (w', r)) :
    w.Stepped w' m r ∧ w'.store.shardCount = w.store.shardCount ∧ w'.store.Placed := by
  cases m with
  | call thread c =>
    rw [step] at hstep
    split_ifs at hstep with hidle
    obtain ⟨hstepped, hcount, hplaced⟩ := begin_stepped (Option.isNone_iff_eq_none.mp hidle) c
    rw [Option.some.inj hstep] at hstepped hcount hplaced
    exact ⟨hstepped, hcount, hplaced hs⟩
  | go thread =>
    obtain ⟨scan, hscan, hgo⟩ := Option.map_eq_some_iff.mp hstep
    have hboth := go_stepped hs hscan
    rwa [hgo] at hboth

theorem setScan_other (w : SharedMemory) {thread other : Nat} (hother : other ≠ thread)
    (scan : Option Scan) : (w.setScan thread scan).scans other = w.scans other :=
  Function.update_of_ne hother ..

/-- A thread that is in a scan goes on with it. -/
theorem step_busy {scan : Scan} (hbusy : w.scans m.thread = some scan)
    (hstep : w.step m = some (w', r)) : m = .go m.thread := by
  cases m with
  | call thread c =>
    rw [step] at hstep
    split_ifs at hstep with hidle
    exact absurd (hbusy.symm.trans (Option.isNone_iff_eq_none.mp hidle)) (by simp)
  | go thread => rfl

end SharedMemory

/-! ### One scan among the other threads -/

abbrev MemoryTaken := Taken SharedMemory MemoryMove (Option Reply)

namespace MemoryTaken
variable (cid : UInt64) (t : MemoryTaken)

/-- A write to `cid` that succeeded. -/
def writes : Bool :=
  match t.input, t.output with
  | .call _ c, some (.ok (.written _)) => c.op.cid = some cid
  | _, _ => false

/-- A scan of the thread takes the entry of `cid`, which has expired, out of the store. -/
def Takes (thread : Nat) (nowMs : UInt64) : Prop :=
  t.input = .go thread ∧ (∃ e, t.pre.store.entry cid = some e ∧ e.expiresAtMs ≤ nowMs) ∧
    t.post.store.entry cid = none

end MemoryTaken

theorem eq_of_withoutCids {reply reply' : Reply} (h : withoutCids reply = reply')
    (hne : reply' ≠ .ok (.scanned [])) : reply = reply' := by
  rcases reply with e | a
  · exact h
  · cases a with
    | scanned removed => exact absurd h.symm hne
    | loaded found => exact h
    | written record => exact h
    | deleted => exact h

/-- Only a write to a cid gives it an entry. -/
theorem Served.entry_cases {c : StoreCall} {look look' : Look} {reply : Reply}
    (hserved : Served c look reply look') (cid : UInt64) :
    look' cid = look cid ∨ look' cid = none ∨
      c.op.cid = some cid ∧ ∃ v, reply = .ok (.written v) := by
  have hwritten : (serve look c).1 cid = look cid ∨ (serve look c).1 cid = none ∨
      c.op.cid = some cid ∧ ∃ v, (serve look c).2 = .ok (.written v) := by
    obtain ⟨nowMs, op⟩ := c
    cases op with
    | load key => exact .inl rfl
    | compareAndSwap key expectedVersion newRecord ttlMs =>
      by_cases hc : (liveAt look key nowMs).map Entry.version = expectedVersion
      · by_cases hk : cid = key
        · subst hk
          exact .inr (.inr ⟨rfl, by simp [serve, hc]⟩)
        · exact .inl (by simp [serve, hc, Function.update_of_ne hk])
      · exact .inl (by simp [serve, hc])
    | upsert key newRecord ttlMs =>
      by_cases hk : cid = key
      · subst hk
        exact .inr (.inr ⟨rfl, by simp [serve]⟩)
      · exact .inl (Function.update_of_ne hk ..)
    | delete key =>
      by_cases hk : cid = key
      · subst hk
        exact .inr (.inl (Function.update_self ..))
      · exact .inl (Function.update_of_ne hk ..)
    | scanExpired limit shards disk => exact .inl rfl
  rcases hserved.fades cid with hsame | ⟨hgone, -⟩
  · rw [hsame]
    rcases hwritten with hkept | hnone | ⟨hcid, v, hv⟩
    · exact .inl hkept
    · exact .inr (.inl hnone)
    · exact .inr (.inr ⟨hcid, v, eq_of_withoutCids (hserved.reply_eq.trans hv) (by simp)⟩)
  · exact .inr (.inl hgone)

theorem MemoryTaken.entry_cases {t : MemoryTaken} (ht : t.pre.Stepped t.post t.input t.output)
    (cid : UInt64) : t.post.store.entry cid = t.pre.store.entry cid ∨
      t.post.store.entry cid = none ∨ t.writes cid := by
  obtain ⟨w, m, r, w'⟩ := t
  cases ht with
  | @served thread c key reply hkey hserved hscans =>
    rcases hserved.entry_cases cid with hsame | hnone | ⟨hcid, v, hv⟩
    · exact .inl hsame
    · exact .inr (.inl hnone)
    · refine .inr (.inr ?_)
      subst hv
      exact decide_eq_true hcid
  | refused hcid hw => exact .inl (by rw [hw])
  | begun hidle hnow hnext hremoved hop hw => exact .inl (by rw [hw]; rfl)
  | @visited thread scan keys hscan hnext hvisited hleft hscans =>
    show w'.store.entry cid = w.store.entry cid ∨ w'.store.entry cid = none ∨ _
    rw [hleft]
    split_ifs with hmem
    · exact .inr (.inl rfl)
    · exact .inl rfl
  | returned hscan hdone hw => exact .inl (by rw [hw]; rfl)

/-- A scan of the thread has come this far since it began. -/
structure Scanning (thread : Nat) (nowMs : UInt64) (limit : Nat) (h : List MemoryTaken)
    (w : SharedMemory) (scan : Scan) : Prop where
  scanning : w.scans thread = some scan
  now : scan.nowMs = nowMs
  limited : scan.limit = limit
  bound : scan.removed.length ≤ limit
  nodup : scan.removed.Nodup
  passes : h.countP (fun t => t.input.thread = thread) = scan.nextShard
  next_le : scan.nextShard ≤ w.store.shardCount
  passed : ∀ cid ∈ scan.removed, (w.store.shardIndex cid).val < scan.nextShard
  took : ∀ cid ∈ scan.removed, ∃ t ∈ h, t.Takes cid thread nowMs
  only : ∀ t ∈ h, t.input.thread = thread → ∀ cid, cid ∉ scan.removed →
    t.post.store.entry cid = t.pre.store.entry cid
  rest : scan.removed.length < limit → ∀ cid,
    (w.store.shardIndex cid).val < scan.nextShard → (∀ t ∈ h, ¬ t.writes cid) →
      ∀ e, w.store.entry cid = some e → nowMs < e.expiresAtMs

section Scanning
variable {thread : Nat} {nowMs : UInt64} {limit : Nat} {h : List MemoryTaken} {w : SharedMemory}
  {scan : Scan} {t : MemoryTaken}

/-- A step of another thread leaves the scan where it is. -/
theorem Scanning.other (hscan : Scanning thread nowMs limit h t.pre scan)
    (ht : t.pre.Stepped t.post t.input t.output)
    (hcount : t.post.store.shardCount = t.pre.store.shardCount)
    (hother : t.input.thread ≠ thread) (hsame : t.post.scans thread = t.pre.scans thread) :
    Scanning thread nowMs limit (h ++ [t]) t.post scan where
  scanning := hsame.trans hscan.scanning
  now := hscan.now
  limited := hscan.limited
  bound := hscan.bound
  nodup := hscan.nodup
  passes := by
    rw [List.countP_append, hscan.passes]
    simp [hother]
  next_le := by
    rw [hcount]
    exact hscan.next_le
  passed := fun cid hcid => by
    rw [InMemorySessionStore.shardIndex_val, hcount]
    exact hscan.passed cid hcid
  took := fun cid hcid => by
    obtain ⟨u, hu, htakes⟩ := hscan.took cid hcid
    exact ⟨u, List.mem_append_left _ hu, htakes⟩
  only := fun u hu hgo cid hcid => by
    rcases List.mem_append.mp hu with hold | hnew
    · exact hscan.only u hold hgo cid hcid
    · rw [List.mem_singleton.mp hnew] at hgo
      exact absurd hgo hother
  rest := fun hroom cid hpast hquiet e he => by
    rw [InMemorySessionStore.shardIndex_val, hcount] at hpast
    have hbefore := hscan.rest hroom cid hpast (fun u hu => hquiet u (List.mem_append_left _ hu)) e
    rcases MemoryTaken.entry_cases ht cid with hkept | hnone | hwrites
    · exact hbefore (hkept ▸ he)
    · simp [hnone] at he
    · exact absurd hwrites (hquiet t (by simp))

/-- A pass of the scan itself. -/
theorem Scanning.visit (hscan : Scanning thread nowMs limit h t.pre scan) {keys : List UInt64}
    (hcount : t.post.store.shardCount = t.pre.store.shardCount) (hinput : t.input = .go thread)
    (hnext : scan.nextShard < t.pre.store.shardCount) (hvisited : t.pre.Visited scan keys)
    (hleft : ∀ cid, t.post.store.entry cid =
      if cid ∈ keys then none else t.pre.store.entry cid)
    (hscans : t.post.scans thread = some
      { scan with nextShard := scan.nextShard + 1, removed := scan.removed ++ keys }) :
    Scanning thread nowMs limit (h ++ [t]) t.post
      { scan with nextShard := scan.nextShard + 1, removed := scan.removed ++ keys } where
  scanning := hscans
  now := hscan.now
  limited := hscan.limited
  bound := by
    have hroom := hvisited.room
    rw [hscan.limited] at hroom
    simpa using hroom
  nodup := by
    refine List.Nodup.append hscan.nodup hvisited.nodup fun cid hold hnew => ?_
    have hpast := hscan.passed cid hold
    have hhere := hvisited.here cid hnew
    omega
  passes := by
    rw [List.countP_append, hscan.passes]
    simp [hinput, MemoryMove.thread]
  next_le := by
    rw [hcount]
    exact hnext
  passed := fun cid hcid => by
    rw [InMemorySessionStore.shardIndex_val, hcount]
    rcases List.mem_append.mp hcid with hold | hnew
    · exact (hscan.passed cid hold).trans (Nat.lt_succ_self _)
    · have hhere := hvisited.here cid hnew
      rw [InMemorySessionStore.shardIndex_val] at hhere
      exact Nat.lt_succ_of_le hhere.le
  took := fun cid hcid => by
    rcases List.mem_append.mp hcid with hold | hnew
    · obtain ⟨u, hu, htakes⟩ := hscan.took cid hold
      exact ⟨u, List.mem_append_left _ hu, htakes⟩
    · obtain ⟨e, he, hdead⟩ := hvisited.due cid hnew
      refine ⟨t, by simp, hinput, ⟨e, he, hscan.now ▸ hdead⟩, ?_⟩
      rw [hleft, if_pos hnew]
  only := fun u hu hgo cid hcid => by
    have hboth := mt List.mem_append.mpr hcid
    rcases List.mem_append.mp hu with hold | hnew
    · exact hscan.only u hold hgo cid fun hmem => hboth (.inl hmem)
    · rw [List.mem_singleton.mp hnew, hleft, if_neg fun hmem => hboth (.inr hmem)]
  rest := fun hroom cid hpast hquiet e he => by
    rw [InMemorySessionStore.shardIndex_val, hcount] at hpast
    rw [hleft] at he
    split_ifs at he with hmem
    rw [List.length_append] at hroom
    rcases Nat.lt_succ_iff_lt_or_eq.mp hpast with hbefore | hhere
    · exact hscan.rest (by omega) cid hbefore
        (fun u hu => hquiet u (List.mem_append_left _ hu)) e he
    · have hroom' : scan.removed.length + keys.length < scan.limit := by
        rw [hscan.limited]
        exact hroom
      rw [← hscan.now]
      exact hvisited.rest hroom' cid hhere hmem e he

theorem Scanning.step (hscan : Scanning thread nowMs limit h t.pre scan)
    (hs : t.pre.store.Placed) (hstep : t.pre.step t.input = some (t.post, t.output))
    (hopen : t.input.thread = thread → t.output = none) :
    ∃ scan', Scanning thread nowMs limit (h ++ [t]) t.post scan' := by
  obtain ⟨hstepped, hcount, -⟩ := SharedMemory.step_stepped hs hstep
  obtain ⟨w, m, r, w'⟩ := t
  by_cases hthread : m.thread = thread
  · obtain rfl := hthread
    obtain rfl : r = none := hopen rfl
    cases hstepped with
    | begun hidle _ _ _ _ _ => exact absurd (hidle.symm.trans hscan.scanning) (by simp)
    | @visited other scan' keys hother hnext hvisited hleft hscans =>
      obtain rfl : scan' = scan := Option.some.inj (hother.symm.trans hscan.scanning)
      refine ⟨_, hscan.visit hcount rfl hnext hvisited hleft ?_⟩
      rw [hscans]
      exact Function.update_self ..
  · refine ⟨scan, hscan.other hstepped hcount hthread ?_⟩
    cases hstepped with
    | served _ _ hscans => exact congrFun hscans thread
    | refused _ hw => rw [hw]
    | begun _ _ _ _ _ hw =>
      rw [hw]
      exact w.setScan_other (Ne.symm hthread) _
    | visited _ _ _ _ hscans =>
      rw [hscans]
      exact Function.update_of_ne (Ne.symm hthread) ..
    | returned _ _ hw =>
      rw [hw]
      exact w.setScan_other (Ne.symm hthread) _

end Scanning

theorem shared_placed {shardCount : Nat} {s : InMemorySessionStore} {h : List MemoryTaken}
    {w : SharedMemory} (hnew : InMemorySessionStore.new shardCount = .ok s)
    (hrun : Run SharedMemory.step (.start s) h w) :
    w.store.Placed ∧ w.store.shardCount = shardCount := by
  have hstart : s.Placed := InMemorySessionStore.run_placed hnew .nil
  have hcount : s.shardCount = shardCount := by
    unfold InMemorySessionStore.new at hnew
    split_ifs at hnew with hzero
    obtain rfl := Except.ok.inj hnew
    rfl
  refine hrun.invariant (A := fun _ => True)
    (I := fun _ w => w.store.Placed ∧ w.store.shardCount = shardCount) ⟨hstart, hcount⟩ ?_
    fun _ _ => trivial
  rintro _ w m w' r ⟨hs, hn⟩ hstep -
  obtain ⟨-, hsame, hplaced⟩ := SharedMemory.step_stepped hs hstep
  exact ⟨hplaced, hsame.trans hn⟩

/-- A scan that any calls and scans of other threads come in between, from its call to its
return, on a store that was opened empty. It makes at most one pass a shard and returns at most
`limit` cids, each once. It has found each of them with an expired entry and has taken that
out, has touched no other cid, and if it returns fewer than `limit`, whatever has expired by
its time has been written since it began. -/
theorem scan_among_threads {shardCount : Nat} {s : InMemorySessionStore} {w : SharedMemory}
    {before during later : List MemoryTaken} {begun returned : MemoryTaken}
    (hnew : InMemorySessionStore.new shardCount = .ok s)
    (hrun : Run SharedMemory.step (.start s) (before ++ begun :: (during ++ returned :: later)) w)
    {thread limit : Nat} {nowMs : UInt64} {orders : Nat → IterOrder} {disk : IterOrder}
    (hbegun : begun.input = .call thread ⟨nowMs, .scanExpired limit orders disk⟩)
    (hopen : begun.output = none)
    (hduring : ∀ t ∈ during, t.input.thread = thread → t.output = none) {reply : Reply}
    (hreturned : returned.input.thread = thread) (hreply : returned.output = some reply) :
    ∃ removed, reply = .ok (.scanned removed) ∧
      during.countP (fun t => t.input.thread = thread) ≤ shardCount ∧
      removed.length ≤ limit ∧ removed.Nodup ∧
      (∀ cid ∈ removed, ∃ t ∈ during, t.Takes cid thread nowMs) ∧
      (∀ t ∈ during, t.input.thread = thread → ∀ cid, cid ∉ removed →
        t.post.store.entry cid = t.pre.store.entry cid) ∧
      (removed.length < limit → ∀ cid, (∀ t ∈ during, ¬ t.writes cid) →
        ∀ e, returned.pre.store.entry cid = some e → nowMs < e.expiresAtMs) := by
  obtain ⟨hbefore, hbegin⟩ := hrun.split
  obtain ⟨hs, hn⟩ := shared_placed hnew hbefore
  obtain ⟨hbegins, hcount, hplaced⟩ := SharedMemory.step_stepped hs hbegin
  obtain ⟨hduringRun, hreturn⟩ := hrun.continued.split
  have hscanning : ∃ scan, Scanning thread nowMs limit [] begun.post scan := by
    rw [hbegun, hopen] at hbegins
    cases hbegins with
    | @begun _ _ scan hidle hnow hnext hremoved hop hw =>
      obtain ⟨orders', disk', hop⟩ := hop
      injection hop with hlimit horders hdisk
      refine ⟨scan, ?_, hnow, hlimit.symm, ?_, ?_, ?_, ?_, ?_, ?_, ?_, ?_⟩
      · rw [hw]
        exact Function.update_self ..
      all_goals simp [hnext, hremoved]
  obtain ⟨hreached, hsize, scan, hscan⟩ : returned.pre.store.Placed ∧
      returned.pre.store.shardCount = shardCount ∧
      ∃ scan, Scanning thread nowMs limit during returned.pre scan := by
    refine hduringRun.invariant (A := fun t => t.input.thread = thread → t.output = none)
      (I := fun h w => w.store.Placed ∧ w.store.shardCount = shardCount ∧
        ∃ scan, Scanning thread nowMs limit h w scan)
      ⟨hplaced, hcount.trans hn, hscanning⟩ ?_ hduring
    rintro h w m w' r ⟨hplaced, hn, scan, hscan⟩ hstep hA
    obtain ⟨-, hsame, hplaced'⟩ := SharedMemory.step_stepped hplaced hstep
    exact ⟨hplaced', hsame.trans hn, hscan.step (t := ⟨w, m, r, w'⟩) hplaced hstep hA⟩
  obtain ⟨hreturns, -, -⟩ := SharedMemory.step_stepped hreached hreturn
  obtain hgo := SharedMemory.step_busy (hreturned ▸ hscan.scanning) hreturn
  rw [hgo, hreturned, hreply] at hreturns
  cases hreturns with
  | @returned _ scan' hother hdone hw =>
    obtain rfl : scan' = scan := Option.some.inj (hother.symm.trans hscan.scanning)
    refine ⟨scan'.removed, rfl, ?_, hscan.bound, hscan.nodup, hscan.took, hscan.only, ?_⟩
    · rw [hscan.passes, ← hsize]
      exact hscan.next_le
    · intro hfew cid hquiet
      have hall := hdone (hscan.limited.symm ▸ hfew)
      refine hscan.rest hfew cid (lt_of_lt_of_le ?_ hall) hquiet
      exact (returned.pre.store.shardIndex cid).isLt

/-- A scan of two shards, and before it gets to the second one, another thread deletes one of
the two entries that have expired there and writes what the scan has taken. -/
def overlappingMoves : List MemoryMove :=
  [.call 0 ⟨1000, .upsert 2 (sampleRecord 2 "a") 5⟩,
    .call 0 ⟨1000, .upsert 1 (sampleRecord 1 "b") 5⟩,
    .call 0 ⟨1000, .upsert 3 (sampleRecord 3 "c") 5⟩,
    .call 1 ⟨1010, .scanExpired 9 (fun _ => .byCid) .byCid⟩, .go 1,
    .call 0 ⟨1010, .delete 3⟩, .call 0 ⟨1010, .upsert 2 (sampleRecord 2 "d") 5⟩, .go 1, .go 1]

theorem overlappingMoves_run :
    ∃ (s : InMemorySessionStore) (w : SharedMemory)
      (t₀ t₁ t₂ begun t₃ t₄ t₅ t₆ returned : MemoryTaken), InMemorySessionStore.new 2 = .ok s ∧
      exec SharedMemory.step (.start s) overlappingMoves =
        some ([t₀, t₁, t₂] ++ begun :: ([t₃, t₄, t₅, t₆] ++ returned :: []), w) := by
  have hnew : InMemorySessionStore.new 2 = .ok ⟨2, Vector.replicate 2 ∅, by decide⟩ := rfl
  have hexec : exec SharedMemory.step (.start ⟨2, Vector.replicate 2 ∅, by decide⟩)
      overlappingMoves =
        some ([⟨_, _, _, _⟩, ⟨_, _, _, _⟩, ⟨_, _, _, _⟩] ++ ⟨_, _, _, _⟩ ::
          ([⟨_, _, _, _⟩, ⟨_, _, _, _⟩, ⟨_, _, _, _⟩, ⟨_, _, _, _⟩] ++ ⟨_, _, _, _⟩ :: []), _) :=
    rfl
  exact ⟨_, _, _, _, _, _, _, _, _, _, _, hnew, hexec⟩

theorem overlappingMoves_scanned :
    ∃ (s : InMemorySessionStore) (w : SharedMemory) (before during : List MemoryTaken)
      (begun returned : MemoryTaken), InMemorySessionStore.new 2 = .ok s ∧
      exec SharedMemory.step (.start s) overlappingMoves =
        some (before ++ begun :: (during ++ returned :: []), w) ∧
      returned.output = some (.ok (.scanned [2, 1])) ∧
      (∀ cid ∈ [2, 1], ∃ t ∈ during, t.Takes cid 1 1010) ∧
      ∀ e, returned.pre.store.entry 3 = some e → 1010 < e.expiresAtMs := by
  have houtputs : (InMemorySessionStore.new 2).toOption.bind (fun s =>
      (exec SharedMemory.step (.start s) overlappingMoves).map fun r => r.1.map Taken.output) =
        some [some (.ok (.written ⟨1, (sampleRecord 2 "a").1, 1005⟩)),
          some (.ok (.written ⟨1, (sampleRecord 1 "b").1, 1005⟩)),
          some (.ok (.written ⟨1, (sampleRecord 3 "c").1, 1005⟩)), none, none,
          some (.ok .deleted), some (.ok (.written ⟨1, (sampleRecord 2 "d").1, 1015⟩)), none,
          some (.ok (.scanned [2, 1]))] := by decide +kernel
  obtain ⟨s, w, t₀, t₁, t₂, begun, t₃, t₄, t₅, t₆, returned, hnew, hexec⟩ := overlappingMoves_run
  have hinputs := exec_inputs hexec
  simp only [hnew, hexec, Except.toOption, Option.bind_some, Option.map_some, List.map_cons,
    List.map_nil, List.cons_append, List.nil_append, Option.some.injEq, List.cons.injEq,
    and_true] at houtputs
  simp only [List.map_cons, List.map_nil, List.cons_append, List.nil_append, List.cons.injEq,
    and_true, overlappingMoves] at hinputs
  obtain ⟨-, -, -, hopen, ho₃, ho₄, ho₅, ho₆, hreply⟩ := houtputs
  obtain ⟨-, -, -, hbegun, hi₃, hi₄, hi₅, hi₆, hgo⟩ := hinputs
  refine ⟨s, w, [t₀, t₁, t₂], [t₃, t₄, t₅, t₆], begun, returned, hnew, hexec, hreply, ?_⟩
  obtain ⟨removed, hremoved, -, -, -, htakes, -, hrest⟩ :=
    scan_among_threads hnew (Run.of_exec hexec) hbegun hopen
      (by simp [hi₃, hi₄, hi₅, hi₆, ho₃, ho₆, MemoryMove.thread]) (congrArg MemoryMove.thread hgo)
      hreply
  obtain rfl : [2, 1] = removed := Answer.scanned.inj (Except.ok.inj hremoved)
  refine ⟨htakes, hrest (by decide) 3 ?_⟩
  simp [MemoryTaken.writes, hi₃, hi₄, hi₅, hi₆, ho₃, ho₄, ho₅, ho₆, StoreOp.cid]

end Todero.Store
