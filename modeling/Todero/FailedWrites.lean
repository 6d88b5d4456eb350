import Todero.DiskRecovery

/-! Calls of the store on disk whose append fails. The map has been changed under the lock by
then, and it is not changed back. -/
namespace Todero.Store
open Todero.Core

/-- The map has already what the call leaves in it. -/
def AlreadyThere (entries : Shard) (c : StoreCall) : Prop :=
  match c.op with
  | .compareAndSwap cid _ newRecord ttlMs | .upsert cid newRecord ttlMs =>
    entries[cid]? = some (nextEntry (liveEntry entries cid c.nowMs) newRecord.1 ttlMs c.nowMs)
  | .delete cid => entries[cid]? = none
  | .load _ | .scanExpired _ _ _ => False

/-- A scan appends for what it has found and taken out. -/
theorem stageScanExpired_changed {order : IterOrder} {entries : Shard} {nowMs : UInt64} {limit : Nat}
    (happends : (stageScanExpired order entries nowMs limit).appends ≠ []) :
    held (stageScanExpired order entries nowMs limit).entries ≠ held entries := by
  unfold stageScanExpired at happends ⊢
  split_ifs at happends ⊢ with hlimit
  · simp at happends
  · have hfound : collectExpired nowMs limit 0 (order.list entries) [] ≠ [] :=
      fun hnil => happends (by simp [hnil])
    obtain ⟨cid, hcid⟩ := List.exists_mem_of_ne_nil _ hfound
    obtain ⟨e, hmem, -⟩ := (mem_collectExpired hcid).resolve_left List.not_mem_nil
    intro hsame
    have hgone := congrFun hsame cid
    dsimp only at hgone
    rw [held_foldl_erase, if_pos hcid, mem_order.mp hmem] at hgone
    cases hgone

section Disk
variable [SerdeJson] {io : Io} {s : DiskSessionStore} {c : StoreCall}

theorem stageWrite_unchanged_iff {entries : Shard} {cid ttlMs nowMs : UInt64}
    {current : Option Entry} {newRecord : SessionRecord}
    (happends : (stageWrite entries cid (current.map Entry.version) newRecord ttlMs nowMs).appends ≠ []) :
    held (stageWrite entries cid (current.map Entry.version) newRecord ttlMs nowMs).entries =
        held entries ↔
      entries[cid]? = some (nextEntry current newRecord ttlMs nowMs) := by
  unfold stageWrite at happends ⊢
  cases henc : encodeSessionRecord newRecord with
  | error e => simp [henc] at happends
  | ok encoded =>
    simp only [held_insert]
    exact Function.update_eq_self_iff.trans eq_comm

theorem stage_unchanged_iff {entries : Shard} (happends : (stage entries c).appends ≠ []) :
    held (stage entries c).entries = held entries ↔ AlreadyThere entries c := by
  obtain ⟨nowMs, op⟩ := c
  cases op with
  | load cid =>
    refine iff_of_false ?_ id
    simp only [stage, Staged.map, stageLoad] at happends ⊢
    cases he : entries[cid]? with
    | none => simp [he] at happends
    | some e =>
      by_cases hlive : e.expiresAtMs > nowMs
      · simp [he, hlive] at happends
      · simp [hlive, held, he]
  | compareAndSwap cid expectedVersion newRecord ttlMs =>
    simp only [stage, Staged.map, stageCompareAndSwap] at happends ⊢
    split_ifs at happends ⊢
    · simp at happends
    · exact stageWrite_unchanged_iff happends
  | upsert cid newRecord ttlMs => exact stageWrite_unchanged_iff happends
  | delete cid =>
    simp only [stage, Staged.map, stageDelete, held_erase]
    exact Function.update_eq_self_iff.trans eq_comm
  | scanExpired limit shards disk => exact iff_of_false (stageScanExpired_changed happends) id

variable [DefaultHasher]

/-- The call gets to its appends, and one of them fails. -/
def AppendFails (io : Io) (s : DiskSessionStore) (c : StoreCall) : Prop :=
  ∃ e, (appendOps io 0 s.files (stage s.entries c).appends).2 = .error e

/-- The call reports the failure, and leaves the map as it was left under the lock. -/
theorem AppendFails.reports (h : AppendFails io s c) :
    (∃ e, (s.call io c).2 = .error e) ∧
      (s.call io c).1.entries = (stage s.entries c).entries := by
  obtain ⟨e, he⟩ := h
  rw [DiskSessionStore.call_eq, DiskSessionStore.finish]
  cases hr : appendOps io 0 s.files (stage s.entries c).appends with
  | mk files r =>
    rw [hr] at he
    obtain rfl : r = .error e := he
    exact ⟨⟨e, rfl⟩, rfl⟩

/-- A call whose append fails reports it, and leaves the map as it was exactly if there was
nothing to change. -/
theorem failed_append_unchanged_iff (h : AppendFails io s c) :
    ((∃ e, (s.call io c).2 = .error e) ∧
        ∀ cid : UInt64, (s.call io c).1.entries[cid]? = s.entries[cid]?) ↔
      AlreadyThere s.entries c := by
  have happends : (stage s.entries c).appends ≠ [] := by
    obtain ⟨e, he⟩ := h
    intro hnil
    rw [hnil] at he
    cases he
  obtain ⟨hreply, hentries⟩ := h.reports
  rw [and_iff_right hreply, hentries, ← stage_unchanged_iff happends]
  exact funext_iff.symm

theorem appendFails_of_fault {op : DiskOp} {rest : List DiskOp} {fault : Fault}
    (hops : (stage s.entries c).appends = op :: rest) (hio : io 0 = some fault) :
    AppendFails io s c := by
  obtain ⟨e, he⟩ := appendOp_fault fault s.files op
  refine ⟨e, ?_⟩
  rw [hops, appendOps, hio]
  cases hr : appendOp (some fault) s.files op with
  | mk files r =>
    rw [hr] at he
    obtain rfl : r = .error e := he
    rfl

end Disk

/-- The disk is full. -/
def Io.full : Io := fun _ => some ⟨"No space left on device (os error 28)", none⟩

/-- What is deleted was not there. -/
theorem firstDelete_unchanged :
    (∃ e, (DiskSessionStore.call Io.full ⟨∅, { log := some [] }⟩ ⟨100, .delete 7⟩).2 = .error e) ∧
      ∀ cid : UInt64, (DiskSessionStore.call Io.full ⟨∅, { log := some [] }⟩
        ⟨100, .delete 7⟩).1.entries[cid]? = (∅ : Shard)[cid]? := by
  have hfails : AppendFails Io.full ⟨∅, { log := some [] }⟩ ⟨100, .delete 7⟩ :=
    appendFails_of_fault rfl rfl
  exact (failed_append_unchanged_iff hfails).mpr rfl

/-- The record that could not be written is in the map. -/
theorem firstWrite_shown :
    ¬ ∀ (io : Io) (s : DiskSessionStore) (c : StoreCall), AppendFails io s c →
      ∀ cid : UInt64, (s.call io c).1.entries[cid]? = s.entries[cid]? := by
  intro hclaim
  obtain ⟨op, line, hops, -, -⟩ := firstWrite_line
  have hfails : AppendFails Io.full ⟨∅, { log := some [] }⟩
      ⟨100, .upsert 7 (sampleRecord 7 "a") 5000⟩ := appendFails_of_fault hops rfl
  have hsame := hclaim Io.full ⟨∅, { log := some [] }⟩ ⟨100, .upsert 7 (sampleRecord 7 "a") 5000⟩
    hfails
  rw [hfails.reports.2] at hsame
  have hthere := (stage_unchanged_iff (by simp [hops])).mp (funext hsame)
  have hnone : (∅ : Shard)[(7 : UInt64)]? = none := rfl
  cases hnone.symm.trans hthere

end Todero.Store
