import Todero.DiskRecovery
import Todero.Lib.Transition

/-! Several threads on one store on disk. A call changes the map under the lock and appends
to the log afterwards, and a compaction copies the map under the lock and then goes through
its files, one step of a thread at a time. -/
namespace Todero.Store
open Todero.Wire Journal Transition

/-- What a thread has still to do after it has let go of the lock. -/
inductive Task where
  | idle
  | appending (ops : List DiskOp) (result : Reply)
  | writingTmp (entries : List DiskSnapshotEntry)
  | renamingTmp
  | truncatingLog

/-- The operations that are still to be appended. -/
def Task.ops : Task → List DiskOp
  | .appending ops _ => ops
  | _ => []

/-- What a call or a compaction returns, when it does. -/
abbrev Returned := Option (Reply ⊕ Except StoreError Unit)

structure SharedStore where
  store : DiskSessionStore
  tasks : Nat → Task

inductive Move where
  | call (thread : Nat) (c : StoreCall)
  | compact (thread : Nat) (order : IterOrder)
  | go (thread : Nat)

section Steps
variable [SerdeJson] [DefaultHasher]

/-- The next thing that a thread does to the files, or its return. -/
def Task.step (files : Files) : Task → Option (Files × Task × Returned)
  | .idle => none
  | .appending [] result => some (files, .idle, some (.inl result))
  | .appending (op :: ops) result =>
    match appendOp none files op with
    | (files, .error e) => some (files, .idle, some (.inl (.error e)))
    | (files, .ok ()) => some (files, .appending ops result, none)
  | .writingTmp entries =>
    match writeTmp none files entries with
    | (files, .error e) => some (files, .idle, some (.inr (.error e)))
    | (files, .ok ()) => some (files, .renamingTmp, none)
  | .renamingTmp =>
    match renameTmp none files with
    | (files, .error e) => some (files, .idle, some (.inr (.error e)))
    | (files, .ok ()) => some (files, .truncatingLog, none)
  | .truncatingLog =>
    let (files, result) := truncateLog none files
    some (files, .idle, some (.inr result))

/-- `load` makes its append before it lets go of the lock. -/
def SharedStore.begin (w : SharedStore) (thread : Nat) (c : StoreCall) : SharedStore :=
  match c.op with
  | .load _ =>
    let (store, result) := w.store.call Io.fine c
    ⟨store, Function.update w.tasks thread (.appending [] result)⟩
  | _ =>
    let staged := stage w.store.entries c
    ⟨⟨staged.entries, w.store.files⟩,
      Function.update w.tasks thread (.appending staged.appends staged.result)⟩

def SharedStore.step (w : SharedStore) : Move → Option (SharedStore × Returned)
  | .call thread c =>
    match w.tasks thread with
    | .idle => some (w.begin thread c, none)
    | _ => none
  | .compact thread order =>
    match w.tasks thread with
    | .idle =>
      match copyEntries order w.store.entries with
      | .error e => some (w, some (.inr (.error e)))
      | .ok entries => some (⟨w.store, Function.update w.tasks thread (.writingTmp entries)⟩, none)
    | _ => none
  | .go thread =>
    (w.tasks thread).step w.store.files |>.map fun (files, task, returned) =>
      (⟨⟨w.store.entries, files⟩, Function.update w.tasks thread task⟩, returned)

/-- All calls and compactions have returned. -/
def SharedStore.Quiet (w : SharedStore) : Prop := ∀ thread, w.tasks thread = .idle

/-- Every thread is still to start. -/
def SharedStore.start (s : DiskSessionStore) : SharedStore := ⟨s, fun _ => .idle⟩

/-- The changes that are still to be appended. -/
def SharedStore.pending (w : SharedStore) : Set SessionChange :=
  {c | ∃ thread, ∃ op ∈ (w.tasks thread).ops, op.change = c}

/-- What opening the files would recover. -/
def Files.look (files : Files) : Look :=
  match recoverEntries Io.fine files.opened with
  | .ok entries => held entries
  | .error _ => fun _ => none

def snapshotLook (snapshot : Option Bytes) : Look :=
  match snapshot with
  | none => fun _ => none
  | some bytes =>
    match loadSnapshot bytes ∅ with
    | .ok entries => held entries
    | .error _ => fun _ => none

/-- The log has a line for `cid`. -/
def Files.Logs (files : Files) (cid : UInt64) : Prop :=
  ∃ line ∈ linesFrom [] (files.log.getD []), ∃ entry,
    fromSlice DiskLogEntry.ofDoc line = .ok entry ∧ entry.op.change.key = cid

/-- What the threads rely on: the files can be read, the records can be written, and what the
threads are about to write can be read again. -/
structure SharedStore.Sound (w : SharedStore) : Prop where
  fits : AllFit (held w.store.entries)
  files : ∃ base ops, w.store.files.Holds base ops
  ops : ∀ thread, ∀ op ∈ (w.tasks thread).ops, op.Sound
  saving : ∀ thread entries, w.tasks thread = .writingTmp entries →
    ∃ payload look, toVec (DiskSnapshot.doc ⟨sessionSchemaVersion, entries⟩) = .ok payload ∧
      Snapshotted (some payload) look
  tmp : ∀ thread, w.tasks thread = .renamingTmp → ∀ payload, w.store.files.tmp = some payload →
    ∃ look, Snapshotted (some payload) look

/-- The map has `e` for `cid`, or its entry is about to be appended to the log. -/
def SharedStore.Safe (w : SharedStore) (cid : UInt64) (e : Option Entry) : Prop :=
  e = held w.store.entries cid ∨ ⟨cid, held w.store.entries cid⟩ ∈ w.pending

/-- The steps that leave the files behind the map: appending what the map does not hold any
more, and putting a snapshot of what it does not hold any more in the place of what the files
had, with nothing to come that would make up for it. -/
inductive SharedStore.Harmful (w : SharedStore) : Move → Prop
  | append {thread : Nat} {op : DiskOp} {ops : List DiskOp} {result : Reply} :
      w.tasks thread = .appending (op :: ops) result →
      ¬ w.Safe op.change.key op.change.after → Harmful w (.go thread)
  | rename {thread : Nat} {payload : Bytes} {cid : UInt64} : w.tasks thread = .renamingTmp →
      w.store.files.tmp = some payload → ¬ w.store.files.Logs cid →
      ¬ w.Safe cid (snapshotLook (some payload) cid) → Harmful w (.go thread)
  | truncate {thread : Nat} {cid : UInt64} : w.tasks thread = .truncatingLog →
      ¬ w.Safe cid (snapshotLook w.store.files.snapshot cid) → Harmful w (.go thread)

/-- The operation that a step appends to the log. -/
def SharedStore.appends (w : SharedStore) : Move → Option DiskOp
  | .go thread => (w.tasks thread).ops.head?
  | _ => none

/-- What a step does to the map, to what opening the files would recover, and to the changes
that are still to be appended. -/
inductive SharedStore.Moved (w w' : SharedStore) : Move → Prop
  | unseen {m : Move} : ¬ w.Harmful m → w.appends m = none →
      held w'.store.entries = held w.store.entries →
      w'.store.files.look = w.store.files.look → w'.pending = w.pending → Moved w w' m
  | staged {thread : Nat} {c : StoreCall} (cs : List SessionChange) :
      held w'.store.entries = replay (held w.store.entries) cs →
      w'.store.files.look = w.store.files.look →
      w'.pending = w.pending ∪ {c | c ∈ cs} → Moved w w' (.call thread c)
  | loaded {thread : Nat} {c : StoreCall} (cs : List SessionChange) :
      (∃ cid, c.op = .load cid) → held w'.store.entries = replay (held w.store.entries) cs →
      w'.store.files.look = replay w.store.files.look cs →
      w'.pending = w.pending → Moved w w' (.call thread c)
  | appended {thread : Nat} {op : DiskOp} {ops : List DiskOp} {result : Reply} :
      w.tasks thread = .appending (op :: ops) result →
      held w'.store.entries = held w.store.entries →
      w'.store.files.look = op.change.apply w.store.files.look → w'.pending ⊆ w.pending →
      (∀ d ∈ w.pending, d = op.change ∨ d ∈ w'.pending) → Moved w w' (.go thread)
  | renamed {thread : Nat} {payload : Bytes} (base : Look) (cs : List SessionChange) :
      w.tasks thread = .renamingTmp → w.store.files.tmp = some payload →
      held w'.store.entries = held w.store.entries → w.store.files.look = replay base cs →
      (∀ cid, w.store.files.Logs cid ↔ ∃ c ∈ cs, c.key = cid) →
      w'.store.files.look = replay (snapshotLook (some payload)) cs →
      w'.pending = w.pending → Moved w w' (.go thread)
  | truncated {thread : Nat} : w.tasks thread = .truncatingLog →
      held w'.store.entries = held w.store.entries →
      w'.store.files.look = snapshotLook w.store.files.snapshot →
      w'.pending = w.pending → Moved w w' (.go thread)

omit [DefaultHasher] in
theorem Snapshotted.look_eq {snapshot : Option Bytes} {look : Look}
    (h : Snapshotted snapshot look) : snapshotLook snapshot = look := by
  cases snapshot with
  | none => exact h.symm
  | some bytes =>
    obtain ⟨entries, hload, hheld⟩ := h
    simp [snapshotLook, hload, hheld]

end Steps

/-! ### Pending changes -/

section Pending
variable [SerdeJson] {w : SharedStore} {thread : Nat} {task : Task}

theorem mem_pending_update (store : DiskSessionStore) {c : SessionChange} :
    c ∈ SharedStore.pending ⟨store, Function.update w.tasks thread task⟩ ↔
      (∃ op ∈ task.ops, op.change = c) ∨
        ∃ other ≠ thread, ∃ op ∈ (w.tasks other).ops, op.change = c := by
  constructor
  · rintro ⟨other, op, hop, hc⟩
    by_cases h : other = thread
    · subst h
      exact .inl ⟨op, by simpa using hop, hc⟩
    · exact .inr ⟨other, h, op, by simpa [Function.update_of_ne h] using hop, hc⟩
  · rintro (⟨op, hop, hc⟩ | ⟨other, h, op, hop, hc⟩)
    · exact ⟨thread, op, by simpa using hop, hc⟩
    · exact ⟨other, op, by simpa [Function.update_of_ne h] using hop, hc⟩

theorem mem_pending_iff (thread : Nat) {c : SessionChange} :
    c ∈ w.pending ↔ (∃ op ∈ (w.tasks thread).ops, op.change = c) ∨
      ∃ other ≠ thread, ∃ op ∈ (w.tasks other).ops, op.change = c := by
  rw [← mem_pending_update w.store, Function.update_eq_self]

/-- A task with the same operations left. -/
theorem pending_update_same (store : DiskSessionStore) (h : task.ops = (w.tasks thread).ops) :
    SharedStore.pending ⟨store, Function.update w.tasks thread task⟩ = w.pending := by
  ext c
  rw [mem_pending_update, mem_pending_iff thread, h]

theorem SharedStore.Quiet.pending_eq (h : w.Quiet) : w.pending = ∅ := by
  ext c
  simp [SharedStore.pending, h _, Task.ops]

end Pending

/-! ### One step -/

section Moves
variable [SerdeJson] [DefaultHasher] {w w' : SharedStore} {thread : Nat} {task : Task}
  {store : DiskSessionStore} {files : Files} {base : Look} {ops : List DiskOp}

/-- The step of one thread keeps what the others rely on. -/
theorem SharedStore.Sound.update (h : w.Sound) (hfits : AllFit (held store.entries))
    (hfiles : ∃ base ops, store.files.Holds base ops) (hops : ∀ op ∈ task.ops, op.Sound)
    (hsaving : ∀ entries, task = .writingTmp entries →
      ∃ payload look, toVec (DiskSnapshot.doc ⟨sessionSchemaVersion, entries⟩) = .ok payload ∧
        Snapshotted (some payload) look)
    (htmp : ∀ payload, store.files.tmp = some payload →
      (task ≠ .renamingTmp ∧ w.store.files.tmp = some payload) ∨
        ∃ look, Snapshotted (some payload) look) :
    SharedStore.Sound ⟨store, Function.update w.tasks thread task⟩ := by
  refine ⟨hfits, hfiles, fun other op hop => ?_, fun other entries ht => ?_,
    fun other ht payload hpayload => ?_⟩
  · by_cases ho : other = thread
    · subst ho
      exact hops op (by simpa using hop)
    · exact h.ops other op (by simpa [Function.update_of_ne ho] using hop)
  · by_cases ho : other = thread
    · subst ho
      exact hsaving entries (by simpa using ht)
    · exact h.saving other entries (by simpa [Function.update_of_ne ho] using ht)
  · rcases htmp payload hpayload with ⟨hne, hold⟩ | hlook
    · by_cases ho : other = thread
      · subst ho
        exact absurd (by simpa using ht) hne
      · exact h.tmp other (by simpa [Function.update_of_ne ho] using ht) payload hold
    · exact hlook

theorem appendOp_tmp (io : Option Fault) (files : Files) (op : DiskOp) :
    (appendOp io files op).1.tmp = files.tmp := by
  unfold appendOp
  cases logLine op <;> rfl

theorem appendOps_tmp (io : Io) (n : Nat) (files : Files) (ops : List DiskOp) :
    (appendOps io n files ops).1.tmp = files.tmp := by
  induction ops generalizing n files with
  | nil => rfl
  | cons op ops ih =>
    have hfirst := appendOp_tmp (io n) files op
    rw [appendOps]
    cases happend : appendOp (io n) files op with
    | mk files' r =>
      rw [happend] at hfirst
      cases r with
      | error e => exact hfirst
      | ok _ => exact (ih (n + 1) files').trans hfirst

variable [LawfulSerdeJson]

theorem Files.Holds.look_eq (h : files.Holds base ops) :
    files.look = replay base (ops.map DiskOp.change) := by
  obtain ⟨entries, hrecover, hheld⟩ := h.recoverEntries
  have hnone := hrecover []
  rw [List.append_nil] at hnone
  rw [look, opened, hnone]
  exact hheld

/-- The lines of the log are those of its operations. -/
theorem Logged.mem_lines {log line : Bytes} (h : Logged ops log) :
    line ∈ linesFrom [] log ↔ ∃ op ∈ ops, logLine op = .ok line := by
  induction h with
  | nil => simp [linesFrom]
  | @snoc ops log last op hlog _ hline ih =>
    rw [hlog.linesFrom_append, linesFrom_logLine hline, List.mem_append, ih]
    simp [or_and_right, exists_or, hline, eq_comm]

theorem Files.Holds.logs_iff (h : files.Holds base ops) (cid : UInt64) :
    files.Logs cid ↔ ∃ c ∈ ops.map DiskOp.change, c.key = cid := by
  constructor
  · rintro ⟨line, hmem, entry, hread, hkey⟩
    obtain ⟨op, hop, hline⟩ := h.log.mem_lines.mp hmem
    obtain ⟨opBytes, -, -, hread'⟩ := logLine_entry hline
    rw [hread'] at hread
    obtain rfl := Except.ok.inj hread
    exact ⟨op.change, List.mem_map_of_mem hop, hkey⟩
  · rintro ⟨c, hc, hkey⟩
    obtain ⟨op, hop, rfl⟩ := List.mem_map.mp hc
    obtain ⟨line, hline⟩ := logLine_ok op
    obtain ⟨opBytes, -, -, hread⟩ := logLine_entry hline
    exact ⟨line, h.log.mem_lines.mpr ⟨op, hop, hline⟩, _, hread, hkey⟩

theorem SharedStore.begin_moved (h : w.Sound) (c : StoreCall) (hidle : w.tasks thread = .idle) :
    (w.begin thread c).Sound ∧ w.Moved (w.begin thread c) (.call thread c) := by
  obtain ⟨hchange, hsound⟩ := stage_changes w.store.entries c
  have hfits : AllFit (held (stage w.store.entries c).entries) := by
    rw [hchange]
    exact h.fits.replay hsound
  by_cases hload : ∃ cid, c.op = .load cid
  · obtain ⟨base, ops, hfiles⟩ := h.files
    have happend := hfiles.appendAll hsound 0
    have hbegin : w.begin thread c = ⟨⟨(stage w.store.entries c).entries,
          (appendOps Io.fine 0 w.store.files (stage w.store.entries c).appends).1⟩,
        Function.update w.tasks thread (.appending [] (stage w.store.entries c).result)⟩ := by
      obtain ⟨cid, hop⟩ := hload
      simp only [begin, hop, DiskSessionStore.call_eq, DiskSessionStore.finish_fine]
    rw [hbegin]
    constructor
    · refine h.update hfits ⟨base, _, happend⟩ (by simp [Task.ops]) (by simp) fun payload hp => ?_
      exact .inl ⟨by simp, by rwa [appendOps_tmp] at hp⟩
    · refine .loaded _ hload hchange ?_ (pending_update_same _ (by simp [Task.ops, hidle]))
      rw [happend.look_eq, hfiles.look_eq, List.map_append, replay_append]
  · have hbegin : w.begin thread c = ⟨⟨(stage w.store.entries c).entries, w.store.files⟩,
        Function.update w.tasks thread
          (.appending (stage w.store.entries c).appends (stage w.store.entries c).result)⟩ := by
      unfold begin
      split
      · rename_i cid hop
        exact absurd ⟨cid, hop⟩ hload
      · rfl
    rw [hbegin]
    constructor
    · exact h.update hfits h.files hsound (by simp) fun payload hp => .inl ⟨by simp, hp⟩
    · refine .staged _ hchange rfl ?_
      ext d
      rw [mem_pending_update, Set.mem_union, mem_pending_iff thread]
      simp [Task.ops, hidle, or_comm]

theorem SharedStore.compact_moved (h : w.Sound) {order : IterOrder} {r : Returned}
    (hstep : w.step (.compact thread order) = some (w', r)) :
    w'.Sound ∧ w.Moved w' (.compact thread order) := by
  obtain ⟨items, payload, hcopy, hwrite, hsaved⟩ := copyEntries_saved h.fits order
  have hharmless : ¬ w.Harmful (.compact thread order) := nofun
  simp only [step, hcopy] at hstep
  split at hstep
  · rename_i hidle
    obtain ⟨rfl, -⟩ := Prod.mk.inj (Option.some.inj hstep)
    constructor
    · refine h.update h.fits h.files (by simp [Task.ops]) ?_ fun payload hp => .inl ⟨by simp, hp⟩
      rintro _ ⟨⟩
      exact ⟨payload, _, hwrite, hsaved⟩
    · exact .unseen hharmless rfl rfl rfl (pending_update_same _ (by simp [Task.ops, hidle]))
  · cases hstep

omit [DefaultHasher] [LawfulSerdeJson] in
theorem SharedStore.not_harmful (happend : ∀ op ∈ (w.tasks thread).ops, False)
    (hrename : w.tasks thread = .renamingTmp → w.store.files.tmp = none)
    (htruncate : w.tasks thread ≠ .truncatingLog) : ¬ w.Harmful (.go thread) := by
  intro hharm
  cases hharm with
  | @append _ op ops result ht _ =>
    rw [ht] at happend
    exact happend op List.mem_cons_self
  | rename ht hp _ _ =>
    rw [hrename ht] at hp
    cases hp
  | truncate ht _ => exact htruncate ht

theorem SharedStore.go_moved (h : w.Sound) {r : Returned}
    (hstep : w.step (.go thread) = some (w', r)) : w'.Sound ∧ w.Moved w' (.go thread) := by
  obtain ⟨base, ops, hfiles⟩ := h.files
  simp only [step, Option.map_eq_some_iff] at hstep
  obtain ⟨⟨files, task, returned⟩, hgo, heq⟩ := hstep
  obtain ⟨rfl, -⟩ := Prod.mk.inj heq
  cases htask : w.tasks thread with
  | idle => simp [Task.step, htask] at hgo
  | appending left result =>
    cases left with
    | nil =>
      simp only [Task.step, htask, Option.some.injEq, Prod.mk.injEq] at hgo
      obtain ⟨rfl, rfl, -⟩ := hgo
      constructor
      · exact h.update h.fits h.files (by simp [Task.ops]) (by simp) fun payload hp =>
          .inl ⟨by simp, hp⟩
      · exact .unseen (not_harmful (by simp [htask, Task.ops]) (by simp [htask]) (by simp [htask]))
          (by simp [appends, htask, Task.ops]) rfl rfl (pending_update_same _ (by simp [Task.ops, htask]))
    | cons op left =>
      have hsound : ∀ op' ∈ op :: left, op'.Sound := fun op' hop' =>
        h.ops thread op' (by simpa [htask, Task.ops] using hop')
      obtain ⟨log, happend, hnext⟩ := hfiles.append (hsound op List.mem_cons_self)
      simp only [Task.step, htask, happend, Option.some.injEq, Prod.mk.injEq] at hgo
      obtain ⟨rfl, rfl, -⟩ := hgo
      constructor
      · exact h.update h.fits ⟨base, _, hnext⟩
          (fun op' hop' => hsound op' (List.mem_cons_of_mem op hop')) (by simp)
          fun payload hp => .inl ⟨by simp, hp⟩
      · refine .appended htask rfl ?_ ?_ ?_
        · rw [hnext.look_eq, hfiles.look_eq, List.map_append, replay_append]
          rfl
        · intro d hd
          rw [mem_pending_update] at hd
          rw [mem_pending_iff thread, htask]
          exact hd.imp (fun ⟨op', hop', hd⟩ => ⟨op', List.mem_cons_of_mem op hop', hd⟩) id
        · intro d hd
          rw [mem_pending_iff thread, htask] at hd
          rw [mem_pending_update]
          simpa [Task.ops, or_assoc, eq_comm] using hd
  | writingTmp entries =>
    obtain ⟨payload, look, hwrite, hsaved⟩ := h.saving thread entries htask
    simp only [Task.step, htask, writeTmp, hwrite, writeFile, Option.some.injEq,
      Prod.mk.injEq] at hgo
    obtain ⟨rfl, rfl, -⟩ := hgo
    have hnext : Files.Holds { w.store.files with tmp := some payload } base ops :=
      ⟨hfiles.snapshot, hfiles.log⟩
    constructor
    · refine h.update h.fits ⟨base, ops, hnext⟩ (by simp [Task.ops]) (by simp) fun payload' hp => ?_
      obtain rfl := Option.some.inj hp
      exact .inr ⟨look, hsaved⟩
    · exact .unseen (not_harmful (by simp [htask, Task.ops]) (by simp [htask]) (by simp [htask]))
        (by simp [appends, htask, Task.ops]) rfl (hnext.look_eq.trans hfiles.look_eq.symm)
        (pending_update_same _ (by simp [Task.ops, htask]))
  | renamingTmp =>
    cases htmp : w.store.files.tmp with
    | none =>
      simp only [Task.step, htask, renameTmp, htmp, Option.some.injEq, Prod.mk.injEq] at hgo
      obtain ⟨rfl, rfl, -⟩ := hgo
      constructor
      · exact h.update h.fits h.files (by simp [Task.ops]) (by simp) fun payload hp =>
          .inl ⟨by simp, hp⟩
      · exact .unseen (not_harmful (by simp [htask, Task.ops]) (fun _ => htmp) (by simp [htask]))
          (by simp [appends, htask, Task.ops]) rfl rfl (pending_update_same _ (by simp [Task.ops, htask]))
    | some payload =>
      simp only [Task.step, htask, renameTmp, htmp, Option.some.injEq, Prod.mk.injEq] at hgo
      obtain ⟨rfl, rfl, -⟩ := hgo
      obtain ⟨look, hsaved⟩ := h.tmp thread htask payload htmp
      have hnext : Files.Holds { w.store.files with snapshot := some payload, tmp := none } look
          ops := ⟨hsaved, hfiles.log⟩
      constructor
      · exact h.update h.fits ⟨look, ops, hnext⟩ (by simp [Task.ops]) (by simp) (by simp)
      · refine .renamed base (ops.map DiskOp.change) htask htmp rfl hfiles.look_eq hfiles.logs_iff ?_
          (pending_update_same _ (by simp [Task.ops, htask]))
        rw [hsaved.look_eq]
        exact hnext.look_eq
  | truncatingLog =>
    simp only [Task.step, htask, truncateLog, writeFile, Option.some.injEq, Prod.mk.injEq] at hgo
    obtain ⟨rfl, rfl, -⟩ := hgo
    have hnext : Files.Holds { w.store.files with log := some [] } base [] :=
      ⟨hfiles.snapshot, .nil⟩
    constructor
    · exact h.update h.fits ⟨base, [], hnext⟩ (by simp [Task.ops]) (by simp) fun payload hp =>
        .inl ⟨by simp, hp⟩
    · refine .truncated htask rfl ?_ (pending_update_same _ (by simp [Task.ops, htask]))
      rw [hfiles.snapshot.look_eq]
      exact hnext.look_eq

/-- Every step keeps what the threads rely on, and is one of the moves. -/
theorem SharedStore.step_moved (h : w.Sound) {m : Move} {r : Returned}
    (hstep : w.step m = some (w', r)) : w'.Sound ∧ w.Moved w' m := by
  cases m with
  | call thread c =>
    simp only [step] at hstep
    split at hstep
    · rename_i hidle
      obtain ⟨rfl, -⟩ := Prod.mk.inj (Option.some.inj hstep)
      exact begin_moved h c hidle
    · cases hstep
  | compact thread order => exact compact_moved h hstep
  | go thread => exact go_moved h hstep

end Moves

end Todero.Store
