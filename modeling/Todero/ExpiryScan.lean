import Mathlib.Data.List.Nodup
import Todero.Versions

/-! The expiry scan of the store in memory: the loops over shards and entries, with their four
ways out, take the first expired cids there are, up to the limit. -/
namespace Todero.Store
open InMemorySessionStore (removeExpired scanShards effectiveEntry)
open Transition

/-- The expired cids of a map, in the order of an iteration. -/
def expiredKeys (order : IterOrder) (nowMs : UInt64) (map : Shard) : List UInt64 :=
  ((order.list map).filter fun item => item.2.expiresAtMs ≤ nowMs).map Prod.fst

section Shard
variable {order : IterOrder} {nowMs : UInt64} {limit : Nat} {map : Shard}

theorem mem_expiredKeys {cid : UInt64} :
    cid ∈ expiredKeys order nowMs map ↔
      ∃ e, held map cid = some e ∧ e.expiresAtMs ≤ nowMs := by
  simp only [expiredKeys, List.mem_map, List.mem_filter, decide_eq_true_eq, Prod.exists,
    exists_and_right, exists_eq_right, mem_order]

theorem expiredKeys_nodup : (expiredKeys order nowMs map).Nodup := by
  have hkeys : ((order.list map).map Prod.fst).Nodup := by
    rw [((order.perm map).map Prod.fst).nodup_iff, Std.TreeMap.map_fst_toList_eq_keys]
    exact Std.TreeMap.nodup_keys
  exact hkeys.sublist (List.filter_sublist.map Prod.fst)

/-- The search stops with the last cid that fits. -/
theorem collectExpired_eq {entries : List (UInt64 × Entry)} {removed : Nat} {acc : List UInt64}
    (hroom : removed + acc.length < limit) :
    collectExpired nowMs limit removed entries acc =
      acc ++ ((entries.filter fun item => item.2.expiresAtMs ≤ nowMs).map Prod.fst).take
        (limit - (removed + acc.length)) := by
  induction entries generalizing acc with
  | nil => simp [collectExpired]
  | cons item rest ih =>
    obtain ⟨cid, e⟩ := item
    rw [collectExpired]
    by_cases hdead : e.expiresAtMs ≤ nowMs
    · rw [if_pos hdead, List.filter_cons_of_pos (by simpa using hdead), List.map_cons]
      have hlen : (acc ++ [cid]).length = acc.length + 1 := by simp
      split_ifs with hfull
      · have hlast : limit - (removed + acc.length) = 1 := by omega
        simp [hlast]
      · have hmore : limit - (removed + acc.length) =
            limit - (removed + (acc ++ [cid]).length) + 1 := by omega
        rw [ih (by omega), hmore, List.take_succ_cons, List.append_assoc]
        rfl
    · rw [if_neg hdead, List.filter_cons_of_neg (by simpa using hdead), ih hroom]

/-- No more than fits is taken out, so the inner exit never comes early. -/
theorem removeExpired_eq {keys removed : List UInt64}
    (hroom : removed.length + keys.length ≤ limit) :
    removeExpired limit map keys removed =
      (keys.foldl (fun map cid => map.erase cid) map, removed ++ keys) := by
  induction keys generalizing map removed with
  | nil => simp [removeExpired]
  | cons cid rest ih =>
    have hlen : (removed ++ [cid]).length = removed.length + 1 := by simp
    rw [List.length_cons] at hroom
    rw [removeExpired]
    split_ifs with hfull
    · obtain rfl : rest = [] := List.eq_nil_of_length_eq_zero (by omega)
      rfl
    · rw [ih (by omega), List.append_assoc]
      rfl

end Shard

/-! ### All shards -/

section Shards
variable {n : Nat} {orders : Nat → IterOrder} {nowMs : UInt64} {limit : Nat}

/-- What a shard holds belongs there. -/
def PlacedAt (place : UInt64 → Fin n) (shards : Vector Shard n) : Prop :=
  ∀ i cid, held (shards.get i) cid ≠ none → i = place cid

/-- The expired cids of some shards, one shard after the other. -/
def expiredIn (orders : Nat → IterOrder) (nowMs : UInt64) (shards : Vector Shard n)
    (is : List (Fin n)) : List UInt64 :=
  is.flatMap fun i : Fin n => expiredKeys (orders i) nowMs (shards.get i)

theorem mem_expiredIn {shards : Vector Shard n} {is : List (Fin n)} {cid : UInt64} :
    cid ∈ expiredIn orders nowMs shards is ↔
      ∃ i ∈ is, ∃ e, held (shards.get i) cid = some e ∧ e.expiresAtMs ≤ nowMs := by
  simp only [expiredIn, List.mem_flatMap, mem_expiredKeys]

theorem expiredIn_nodup {place : UInt64 → Fin n} {shards : Vector Shard n} {is : List (Fin n)}
    (hplaced : PlacedAt place shards) (his : is.Nodup) :
    (expiredIn orders nowMs shards is).Nodup := by
  refine List.nodup_flatMap.mpr ⟨fun _ _ => expiredKeys_nodup, ?_⟩
  refine his.imp fun {i j} hne => List.disjoint_left.mpr fun cid hi hj => hne ?_
  obtain ⟨e, he, -⟩ := mem_expiredKeys.mp hi
  obtain ⟨e', he', -⟩ := mem_expiredKeys.mp hj
  exact (hplaced i cid (by simp [he])).trans (hplaced j cid (by simp [he'])).symm

theorem get_set {shards : Vector Shard n} {i j : Fin n} {map : Shard} :
    (shards.set i map i.isLt).get j = if j = i then map else shards.get j := by
  split_ifs with h
  · subst h
    simp [Vector.get_eq_getElem]
  · have hne : i.val ≠ j.val := fun hval => h (Fin.ext hval).symm
    simp [Vector.get_eq_getElem, Vector.getElem_set_ne _ _ hne]

theorem PlacedAt.set {place : UInt64 → Fin n} {shards : Vector Shard n} {i : Fin n} {map : Shard}
    (hplaced : PlacedAt place shards) (hmap : ∀ cid, held map cid ≠ none → i = place cid) :
    PlacedAt place (shards.set i map i.isLt) := by
  intro j cid hsome
  rw [get_set] at hsome
  split_ifs at hsome with hj
  · rw [hj]
    exact hmap cid hsome
  · exact hplaced j cid hsome

/-- A pass of the outer loop takes as much of one shard as still fits. -/
theorem scanShards_cons {i : Fin n} {rest : List (Fin n)} {shards : Vector Shard n}
    {removed keys : List UInt64} (hroom : removed.length < limit)
    (hkeys : keys = (expiredKeys (orders i) nowMs (shards.get i)).take (limit - removed.length)) :
    scanShards orders nowMs limit (i :: rest) shards removed =
      scanShards orders nowMs limit rest
        (shards.set i (keys.foldl (fun map cid => map.erase cid) (shards.get i)))
        (removed ++ keys) := by
  have hlen : removed.length + keys.length ≤ limit := by
    rw [hkeys, List.length_take]
    omega
  have hcollect : collectExpired nowMs limit removed.length ((orders i).list (shards.get i)) [] =
      keys := by
    rw [collectExpired_eq (by simpa using hroom), hkeys]
    rfl
  rw [scanShards, if_neg (by omega)]
  simp only [hcollect, removeExpired_eq hlen]

/-- What is taken out of one shard is in no other. -/
theorem take_keys_held {place : UInt64 → Fin n} {shards : Vector Shard n}
    (hplaced : PlacedAt place shards) {i : Fin n} {keys : List UInt64}
    (hkeys : ∀ cid ∈ keys, held (shards.get i) cid ≠ none) (j : Fin n) (cid : UInt64) :
    held ((shards.set i (keys.foldl (fun map cid => map.erase cid) (shards.get i)) i.isLt).get j)
        cid = if cid ∈ keys then none else held (shards.get j) cid := by
  rw [get_set]
  split_ifs with hj hmem hmem
  · rw [held_foldl_erase, if_pos hmem]
  · rw [held_foldl_erase, if_neg hmem, hj]
  · by_contra hsome
    exact hj ((hplaced j cid hsome).trans (hplaced i cid (hkeys cid hmem)).symm)
  · rfl

/-- The scan takes the due keys of one shard first, as far as the limit goes. -/
theorem expiredIn_take {orders : Nat → IterOrder} {nowMs : UInt64} {shards shards' : Vector Shard n}
    {i : Fin n} {rest : List (Fin n)} (hrest : ∀ j ∈ rest, shards'.get j = shards.get j)
    (room : Nat) :
    (expiredIn orders nowMs shards (i :: rest)).take room =
      (expiredKeys (orders i) nowMs (shards.get i)).take room ++
        (expiredIn orders nowMs shards' rest).take
          (room - ((expiredKeys (orders i) nowMs (shards.get i)).take room).length) := by
  have hsame : expiredIn orders nowMs shards' rest = expiredIn orders nowMs shards rest :=
    List.flatMap_congr fun j hj => by rw [hrest j hj]
  rw [hsame, expiredIn, List.flatMap_cons, List.take_append, ← expiredIn]
  congr 2
  rw [List.length_take]
  omega

/-- The outer loop takes the first expired cids of the shards it visits, as many as are left
to the limit, and takes them out of the shards. -/
theorem scanShards_eq (orders : Nat → IterOrder) (nowMs : UInt64) (limit : Nat)
    {place : UInt64 → Fin n} {is : List (Fin n)} {shards : Vector Shard n}
    (removed : List UInt64) (hplaced : PlacedAt place shards) (his : is.Nodup) :
    let taken := (expiredIn orders nowMs shards is).take (limit - removed.length)
    (scanShards orders nowMs limit is shards removed).2 = removed ++ taken ∧
      ∀ j cid, held ((scanShards orders nowMs limit is shards removed).1.get j) cid =
        if cid ∈ taken then none else held (shards.get j) cid := by
  induction is generalizing shards removed with
  | nil => simp [scanShards, expiredIn]
  | cons i rest ih =>
    obtain ⟨hi, hrest⟩ := List.nodup_cons.mp his
    rcases Nat.lt_or_ge removed.length limit with hroom | hfull
    · obtain ⟨keys, hkeys⟩ : ∃ keys, keys =
          (expiredKeys (orders i) nowMs (shards.get i)).take (limit - removed.length) := ⟨_, rfl⟩
      rw [scanShards_cons hroom hkeys]
      have hkept : ∀ cid ∈ keys, held (shards.get i) cid ≠ none := by
        intro cid hmem
        rw [hkeys] at hmem
        obtain ⟨e, he, -⟩ := mem_expiredKeys.mp (List.mem_of_mem_take hmem)
        simp [he]
      have hheld := take_keys_held hplaced hkept
      have hget : ∀ j ∈ rest, (shards.set i (keys.foldl (fun map cid => map.erase cid)
          (shards.get i))).get j = shards.get j := by
        intro j hj
        rw [get_set, if_neg]
        rintro rfl
        exact hi hj
      generalize shards.set i (keys.foldl (fun map cid => map.erase cid) (shards.get i)) =
        shards' at hheld hget ⊢
      have hplaced' : PlacedAt place shards' := by
        intro j cid hsome
        rw [hheld] at hsome
        split_ifs at hsome with hmem
        · exact absurd rfl hsome
        · exact hplaced j cid hsome
      have htaken : (expiredIn orders nowMs shards (i :: rest)).take (limit - removed.length) =
          keys ++ (expiredIn orders nowMs shards' rest).take
            (limit - (removed ++ keys).length) := by
        rw [expiredIn_take hget, ← hkeys, List.length_append, Nat.sub_add_eq]
      obtain ⟨hremoved, hleft⟩ := ih (removed ++ keys) hplaced' hrest
      rw [htaken]
      refine ⟨hremoved.trans (List.append_assoc _ _ _), fun j cid => ?_⟩
      rw [hleft, hheld]
      by_cases hmem : cid ∈ keys
      · simp [hmem]
      · simp [hmem]
    · have hnone : limit - removed.length = 0 := by omega
      simp [scanShards, hnone, hfull]

end Shards

namespace InMemorySessionStore
variable {s : InMemorySessionStore} {cid nowMs : UInt64}

/-- Some shard holds the entry for the cid. -/
def Holds (s : InMemorySessionStore) (cid : UInt64) (e : Entry) : Prop :=
  ∃ i, held (s.shards.get i) cid = some e

/-- Every cid is in the shard that `shard_index` names. -/
def Placed (s : InMemorySessionStore) : Prop := PlacedAt s.shardIndex s.shards

theorem withShard_placed {α : Type} {f : Shard → Shard × α} (hs : s.Placed)
    (hf : ∀ other, other ≠ cid → ∀ map, (f map).1[other]? = map[other]?) :
    (s.withShard cid f).1.Placed := by
  have hset : PlacedAt s.shardIndex
      (s.shards.set (s.shardIndex cid) (f (s.shards.get (s.shardIndex cid))).1) := by
    refine PlacedAt.set hs fun other hsome => ?_
    by_cases hcid : other = cid
    · rw [hcid]
    · have hsame : held (f (s.shards.get (s.shardIndex cid))).1 other =
          held (s.shards.get (s.shardIndex cid)) other := hf other hcid _
      rw [hsame] at hsome
      exact hs _ other hsome
  exact hset

theorem load_placed (hs : s.Placed) : (s.load cid nowMs).1.Placed :=
  withShard_placed hs fun _ h map => effectiveEntry_other h map

theorem upsert_placed (hs : s.Placed) (r : SessionRecord) (ttlMs : UInt64) :
    (s.upsert cid r ttlMs nowMs).1.Placed :=
  withShard_placed hs fun other h map => by
    rw [Std.TreeMap.getElem?_insert, if_neg (by simpa using h.symm), effectiveEntry_other h]

theorem delete_placed (hs : s.Placed) : (s.delete cid).1.Placed :=
  withShard_placed hs fun other h map => by
    rw [Std.TreeMap.getElem?_erase, if_neg (by simpa using h.symm)]

/-- A scan takes the first expired cids out of all shards, up to the limit. -/
theorem scanExpired_eq (hs : s.Placed) (orders : Nat → IterOrder) (nowMs : UInt64) (limit : Nat) :
    let taken := (expiredIn orders nowMs s.shards (List.finRange s.shardCount)).take limit
    (s.scanExpired orders nowMs limit).2 = .ok taken ∧
      (s.scanExpired orders nowMs limit).1.Placed ∧
      ∀ cid e, (s.scanExpired orders nowMs limit).1.Holds cid e ↔ cid ∉ taken ∧ s.Holds cid e := by
  unfold scanExpired
  split_ifs with hlimit
  · rw [hlimit]
    exact ⟨rfl, hs, by simp⟩
  · obtain ⟨hremoved, hleft⟩ :=
      scanShards_eq orders nowMs limit [] hs (List.nodup_finRange s.shardCount)
    generalize scanShards orders nowMs limit (List.finRange s.shardCount) s.shards [] = scanned
      at hremoved hleft ⊢
    obtain ⟨shards, removed⟩ := scanned
    dsimp only [List.nil_append] at hremoved hleft ⊢
    refine ⟨congrArg Except.ok hremoved, ?_, fun cid e => ?_⟩
    · have hplaced : PlacedAt s.shardIndex shards := by
        intro i cid hsome
        rw [hleft] at hsome
        split_ifs at hsome with hmem
        · exact absurd rfl hsome
        · exact hs i cid hsome
      exact hplaced
    · show (∃ i, held (shards.get i) cid = some e) ↔ _
      simp only [hleft]
      by_cases hmem : cid ∈ (expiredIn orders nowMs s.shards
          (List.finRange s.shardCount)).take limit
      · simp [hmem]
      · simp [hmem, Holds]

theorem call_placed (hs : s.Placed) (c : StoreCall) : (s.call c).1.Placed := by
  unfold call
  cases c.op with
  | load cid => exact load_placed hs
  | upsert cid newRecord ttlMs => exact upsert_placed hs newRecord.1 ttlMs
  | delete cid => exact delete_placed hs
  | scanExpired limit shards disk => exact (scanExpired_eq hs shards c.nowMs limit).2.1
  | compareAndSwap cid expectedVersion newRecord ttlMs =>
    show (s.compareAndSwap cid expectedVersion newRecord.1 ttlMs c.nowMs).1.Placed
    rw [compareAndSwap_eq]
    split_ifs with hconflict
    · exact load_placed hs
    · exact upsert_placed hs newRecord.1 ttlMs

theorem run_placed {shardCount : Nat} {start : InMemorySessionStore} {h : List StoreTaken}
    (hnew : new shardCount = .ok start) (hrun : Run step start h s) : s.Placed := by
  have hstart : start.Placed := by
    unfold new at hnew
    split_ifs at hnew with hzero
    obtain rfl := Except.ok.inj hnew
    intro i cid hsome
    refine absurd ?_ hsome
    simp [held, Vector.get_eq_getElem]
  exact hrun.invariant (A := fun _ => True) (I := fun _ s => s.Placed) hstart
    (fun _ s c s' r hs hstep _ => by
      have hcall := call_placed hs c
      rwa [Option.some.inj hstep] at hcall) fun _ _ => trivial

/-- A scan of any store that was opened empty, whatever was called on it before and in
whichever order its maps are iterated: it returns at most `limit` cids, each once, each with
an expired entry that no shard holds any more; all other entries stay; and if it returns fewer
than `limit`, nothing expired is left in any shard. -/
theorem scanExpired_exact {shardCount : Nat} {start : InMemorySessionStore} {h : List StoreTaken}
    (hnew : new shardCount = .ok start) (hrun : Run step start h s)
    (orders : Nat → IterOrder) (nowMs : UInt64) (limit : Nat) :
    ∃ removed, (s.scanExpired orders nowMs limit).2 = .ok removed ∧
      removed.length ≤ limit ∧ removed.Nodup ∧
      (∀ cid ∈ removed, (∃ e, s.Holds cid e ∧ e.expiresAtMs ≤ nowMs) ∧
        ∀ e, ¬ (s.scanExpired orders nowMs limit).1.Holds cid e) ∧
      (∀ cid, cid ∉ removed →
        ∀ e, (s.scanExpired orders nowMs limit).1.Holds cid e ↔ s.Holds cid e) ∧
      (removed.length < limit →
        ∀ cid e, (s.scanExpired orders nowMs limit).1.Holds cid e → nowMs < e.expiresAtMs) := by
  have hs := run_placed hnew hrun
  obtain ⟨hremoved, -, hleft⟩ := scanExpired_eq hs orders nowMs limit
  refine ⟨_, hremoved, List.length_take_le _ _, ?_, ?_, ?_, ?_⟩
  · exact (expiredIn_nodup hs (List.nodup_finRange s.shardCount)).sublist (List.take_sublist _ _)
  · intro cid hcid
    refine ⟨?_, fun e he => ((hleft cid e).mp he).1 hcid⟩
    obtain ⟨i, -, e, he, hdead⟩ := mem_expiredIn.mp (List.mem_of_mem_take hcid)
    exact ⟨e, ⟨i, he⟩, hdead⟩
  · intro cid hcid e
    rw [hleft]
    exact and_iff_right hcid
  · intro hfew cid e he
    obtain ⟨hcid, i, hi⟩ := (hleft cid e).mp he
    by_contra hdead
    have hall : (expiredIn orders nowMs s.shards (List.finRange s.shardCount)).length ≤ limit := by
      rw [List.length_take] at hfew
      omega
    rw [List.take_of_length_le hall] at hcid
    exact hcid (mem_expiredIn.mpr ⟨i, List.mem_finRange i, e, hi, UInt64.not_lt.mp hdead⟩)

/-- Four entries expired by the time of the scan and one that is not, in two shards. -/
def expiringCalls : List StoreCall :=
  [⟨1000, .upsert 1 (sampleRecord 1 "a") 5⟩, ⟨1000, .upsert 2 (sampleRecord 2 "b") 5⟩,
    ⟨1000, .upsert 3 (sampleRecord 3 "c") 5⟩, ⟨1000, .upsert 4 (sampleRecord 4 "d") 10⟩,
    ⟨1000, .upsert 6 (sampleRecord 6 "e") 11⟩]

/-- The limit is reached in the middle of the second shard. -/
theorem scanExpired_two_shards : ∃ start h s, InMemorySessionStore.new 2 = .ok start ∧
    exec step start expiringCalls = some (h, s) ∧
    ∃ removed, (s.scanExpired (fun _ => .byCid) 1010 3).2 = .ok removed ∧
      removed = [2, 4, 1] ∧ removed.length ≤ 3 ∧ removed.Nodup ∧
      (∀ cid ∈ removed, (∃ e, s.Holds cid e ∧ e.expiresAtMs ≤ 1010) ∧
        ∀ e, ¬ (s.scanExpired (fun _ => .byCid) 1010 3).1.Holds cid e) := by
  have hnew : InMemorySessionStore.new 2 = .ok ⟨2, Vector.replicate 2 ∅, by decide⟩ := rfl
  have hexec : (exec step ⟨2, Vector.replicate 2 ∅, by decide⟩ expiringCalls).map
      (fun r => (r.2.scanExpired (fun _ => .byCid) 1010 3).2) = some (.ok [2, 4, 1]) := by
    decide +kernel
  obtain ⟨⟨h, s⟩, hexec, hscan⟩ := Option.map_eq_some_iff.mp hexec
  obtain ⟨removed, hremoved, hlen, hnodup, hgone, -, -⟩ :=
    scanExpired_exact hnew (Run.of_exec hexec) (fun _ => .byCid) 1010 3
  have heq : removed = [2, 4, 1] := Except.ok.inj (hremoved.symm.trans hscan)
  exact ⟨_, h, s, hnew, hexec, removed, hremoved, heq, hlen, hnodup, hgone⟩

end InMemorySessionStore

end Todero.Store
