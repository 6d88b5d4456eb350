import Mathlib.Algebra.BigOperators.Group.Finset.Basic
import Todero.SharedMemory

/-! What the threads on a store in memory are told, over a whole run: the answers of one
abstract map that is called in the order of the locks, and every entry at most once by a
scan. -/
namespace Todero.Store
open Transition

namespace MemoryTaken
variable (t : MemoryTaken)

/-- The call that a step answers at once. A scan is answered by a later step. -/
def answered : Option (StoreCall × Reply) :=
  match t.input, t.output with
  | .call _ c, some reply => some (c, reply)
  | _, _ => none

/-- The time that a call or a scan comes with. -/
def calledMs : Option UInt64 :=
  match t.input with
  | .call _ c => some c.nowMs
  | .go _ => none

/-- The cids that a scan returns in this step. -/
def reported : List UInt64 :=
  match t.output with
  | some (.ok (.scanned removed)) => removed
  | _ => []

end MemoryTaken

section Serial
variable {σ : Type} {step : σ → StoreCall → σ × Reply}

theorem after_append (s : σ) (cs ds : List StoreCall) :
    after step s (cs ++ ds) = after step (after step s cs) ds := List.foldl_append

theorem replies_append (s : σ) (cs ds : List StoreCall) :
    replies step s (cs ++ ds) = replies step s cs ++ replies step (after step s cs) ds := by
  induction cs generalizing s with
  | nil => rfl
  | cons c cs ih =>
    rw [List.cons_append, replies, ih]
    rfl

end Serial

theorem Served.not_scanned {c : StoreCall} {look look' : Look} {reply : Reply}
    (hserved : Served c look reply look') (hcid : c.op.cid ≠ none) (removed : List UInt64) :
    reply ≠ .ok (.scanned removed) := by
  rintro rfl
  have hreply : (serve look c).2 = .ok (.scanned []) := hserved.reply_eq.symm
  obtain ⟨nowMs, op⟩ := c
  cases op with
  | load cid => simp [serve] at hreply
  | compareAndSwap cid expectedVersion newRecord ttlMs =>
    by_cases hc : (liveAt look cid nowMs).map Entry.version = expectedVersion
    · simp [serve, hc] at hreply
    · simp [serve, hc] at hreply
  | upsert cid newRecord ttlMs => simp [serve] at hreply
  | delete cid => simp [serve] at hreply
  | scanExpired limit shards disk => exact hcid rfl

theorem Served.exact {c : StoreCall} {look look' : Look} {reply : Reply}
    (hserved : Served c look reply look') (hcid : c.op.cid ≠ none) :
    withoutCids reply = reply := by
  rcases reply with e | a
  · rfl
  · cases a with
    | scanned removed => exact absurd rfl (hserved.not_scanned hcid removed)
    | loaded found => rfl
    | written record => rfl
    | deleted => rfl

/-- A scan may take nothing. -/
theorem serves_nothing {c : StoreCall} (hcid : c.op.cid = none) (look : Look) :
    Served c look (.ok (.scanned [])) look := by
  obtain ⟨nowMs, op⟩ := c
  cases op with
  | scanExpired limit shards disk => exact ⟨rfl, Fades.refl nowMs look⟩
  | load cid => simp [StoreOp.cid] at hcid
  | compareAndSwap cid expectedVersion newRecord ttlMs => simp [StoreOp.cid] at hcid
  | upsert cid newRecord ttlMs => simp [StoreOp.cid] at hcid
  | delete cid => simp [StoreOp.cid] at hcid

/-- The abstract map has been called like the store, and the scans that are under way came
with times that have been. -/
structure Serialized (h : List MemoryTaken) (w : SharedMemory) : Prop where
  answers : (h.filterMap MemoryTaken.answered).map Prod.snd =
    replies SessionMap.call (fun _ => none) ((h.filterMap MemoryTaken.answered).map Prod.fst)
  shows : ∀ nowMs, (∀ t ∈ h.filterMap MemoryTaken.calledMs, t ≤ nowMs) →
    Shows nowMs w.store.entry (after SessionMap.call (fun _ => none)
      ((h.filterMap MemoryTaken.answered).map Prod.fst))
  times : ∀ thread scan, w.scans thread = some scan →
    scan.nowMs ∈ h.filterMap MemoryTaken.calledMs

section Serialized
variable {h : List MemoryTaken} {t : MemoryTaken}

/-- A step that answers no call at once. -/
theorem Serialized.silent (hser : Serialized h t.pre) (hanswer : t.answered = none)
    (hfades : ∀ nowMs, (∀ u ∈ (h ++ [t]).filterMap MemoryTaken.calledMs, u ≤ nowMs) →
      Fades nowMs t.pre.store.entry t.post.store.entry)
    (htimes : ∀ thread scan, t.post.scans thread = some scan →
      scan.nowMs ∈ (h ++ [t]).filterMap MemoryTaken.calledMs) :
    Serialized (h ++ [t]) t.post := by
  have hsame : (h ++ [t]).filterMap MemoryTaken.answered = h.filterMap MemoryTaken.answered := by
    simp [hanswer]
  refine ⟨?_, fun nowMs hlast => ?_, htimes⟩
  · rw [hsame]
    exact hser.answers
  · rw [hsame]
    refine (hser.shows nowMs fun u hu => hlast u ?_).fades (hfades nowMs hlast)
    rw [List.filterMap_append]
    exact List.mem_append_left _ hu

/-- A call that is answered at once. -/
theorem Serialized.answer (hser : Serialized h t.pre) {c : StoreCall} {reply : Reply}
    (hanswer : t.answered = some (c, reply)) (hcalled : t.calledMs = some c.nowMs)
    (hpast : ∀ u ∈ h.filterMap MemoryTaken.calledMs, u ≤ c.nowMs)
    (hserved : Served c t.pre.store.entry reply t.post.store.entry)
    (hexact : withoutCids reply = reply) (hscans : t.post.scans = t.pre.scans) :
    Serialized (h ++ [t]) t.post := by
  have hmore : (h ++ [t]).filterMap MemoryTaken.answered =
      h.filterMap MemoryTaken.answered ++ [(c, reply)] := by
    simp [hanswer]
  obtain ⟨hreply, hshows⟩ := hserved.shows (hser.shows c.nowMs hpast)
  refine ⟨?_, fun nowMs hlast => ?_, fun thread scan hscan => ?_⟩
  · rw [hmore, List.map_append, List.map_append, hser.answers, replies_append]
    simp [replies, ← hreply, hexact]
  · rw [hmore, List.map_append, after_append]
    refine hshows.later (hlast c.nowMs ?_)
    simp [hcalled]
  · rw [hscans] at hscan
    rw [List.filterMap_append]
    exact List.mem_append_left _ (hser.times thread scan hscan)

/-- A step that leaves the entries alone and starts no scan. -/
theorem Serialized.quiet (hser : Serialized h t.pre) (hanswer : t.answered = none)
    (hsame : t.post.store = t.pre.store)
    (hscans : ∀ thread scan, t.post.scans thread = some scan → t.pre.scans thread = some scan) :
    Serialized (h ++ [t]) t.post := by
  refine hser.silent hanswer (fun nowMs _ => ?_) fun thread scan hscan => ?_
  · rw [hsame]
    exact Fades.refl nowMs _
  · rw [List.filterMap_append]
    exact List.mem_append_left _ (hser.times thread scan (hscans thread scan hscan))

theorem Serialized.step (hser : Serialized h t.pre)
    (hstepped : t.pre.Stepped t.post t.input t.output)
    (htimes : ((h ++ [t]).filterMap MemoryTaken.calledMs).Pairwise (· ≤ ·)) :
    Serialized (h ++ [t]) t.post := by
  rw [List.filterMap_append] at htimes
  obtain ⟨-, -, hlast⟩ := List.pairwise_append.mp htimes
  have hpast : ∀ nowMs, t.calledMs = some nowMs →
      ∀ u ∈ h.filterMap MemoryTaken.calledMs, u ≤ nowMs := by
    intro nowMs hcalled u hu
    exact hlast u hu nowMs (by simp [hcalled])
  obtain ⟨w, m, r, w'⟩ := t
  cases hstepped with
  | @served thread c cid reply hcid hserved hscans =>
    exact hser.answer (t := ⟨w, .call thread c, some reply, w'⟩) rfl rfl (hpast c.nowMs rfl)
      hserved (hserved.exact (by simp [hcid])) hscans
  | @refused thread c hcid hw =>
    obtain rfl : w' = w := hw
    exact hser.answer (t := ⟨w', .call thread c, some (.ok (.scanned [])), w'⟩) rfl rfl
      (hpast c.nowMs rfl) (serves_nothing hcid w'.store.entry) rfl rfl
  | @begun thread c scan hidle hnow hnext hremoved hop hw =>
    obtain rfl : w' = w.setScan thread (some scan) := hw
    refine hser.silent (t := ⟨w, .call thread c, none, w.setScan thread (some scan)⟩) rfl
      (fun nowMs _ => Fades.refl nowMs _) fun other scan' hscan => ?_
    rw [List.filterMap_append]
    by_cases hthread : other = thread
    · subst hthread
      have hscan' : scan = scan' := by simpa [SharedMemory.setScan] using hscan
      exact List.mem_append_right _ (by simp [MemoryTaken.calledMs, ← hscan', hnow])
    · have hscan' : w.scans other = some scan' := by
        simpa [SharedMemory.setScan, Function.update_of_ne hthread] using hscan
      exact List.mem_append_left _ (hser.times other scan' hscan')
  | @visited thread scan keys hscan hnext hvisited hleft hscans =>
    refine hser.silent (t := ⟨w, .go thread, none, w'⟩) rfl (fun nowMs hall cid => ?_)
      fun other scan' hscan' => ?_
    · -- what the scan takes out had expired by a time that has been
      show w'.store.entry cid = w.store.entry cid ∨ w'.store.entry cid = none ∧ _
      rw [hleft]
      split_ifs with hmem
      · obtain ⟨e, he, hdead⟩ := hvisited.due cid hmem
        refine .inr ⟨rfl, liveAt_of_expired he (UInt64.le_trans hdead (hall _ ?_))⟩
        rw [List.filterMap_append]
        exact List.mem_append_left _ (hser.times thread scan hscan)
      · exact .inl rfl
    · rw [List.filterMap_append]
      have hscan'' : Function.update w.scans thread (some { scan with
          nextShard := scan.nextShard + 1, removed := scan.removed ++ keys }) other =
            some scan' := hscans ▸ hscan'
      refine List.mem_append_left _ ?_
      by_cases hthread : other = thread
      · subst hthread
        rw [Function.update_self] at hscan''
        rw [← Option.some.inj hscan'']
        exact hser.times other scan hscan
      · rw [Function.update_of_ne hthread] at hscan''
        exact hser.times other scan' hscan''
  | @returned thread scan hscan hdone hw =>
    obtain rfl : w' = w.setScan thread none := hw
    refine hser.quiet (t := ⟨w, .go thread, _, w.setScan thread none⟩) rfl rfl
      fun other scan' hscan' => ?_
    by_cases hthread : other = thread
    · subst hthread
      simp [SharedMemory.setScan] at hscan'
    · simpa [w.setScan_other hthread] using hscan'

end Serialized

/-- Whatever the threads call and however their scans interleave: as long as the times of the
calls do not go back, in the order in which they get the locks, every call is answered as one
abstract map answers it, called in that order and never scanned. -/
theorem answers_serialize {shardCount : Nat} {s : InMemorySessionStore} {h : List MemoryTaken}
    {w : SharedMemory} (hnew : InMemorySessionStore.new shardCount = .ok s)
    (hrun : Run SharedMemory.step (.start s) h w)
    (htimes : (h.filterMap MemoryTaken.calledMs).Pairwise (· ≤ ·)) :
    (h.filterMap MemoryTaken.answered).map Prod.snd =
      replies SessionMap.call (fun _ => none)
        ((h.filterMap MemoryTaken.answered).map Prod.fst) := by
  have hser : Serialized h w := by
    induction hrun with
    | nil =>
      refine ⟨rfl, fun nowMs _ => ?_, fun thread scan hscan => by simp [SharedMemory.start] at hscan⟩
      have hempty : (SharedMemory.start s).store.entry = fun _ => none :=
        InMemorySessionStore.new_entry hnew
      rw [hempty]
      exact shows_empty
    | @snoc h w w' m r hbefore hstep ih =>
      have hpre := htimes
      rw [List.filterMap_append] at hpre
      obtain ⟨hs, -⟩ := shared_placed hnew hbefore
      obtain ⟨hstepped, -, -⟩ := SharedMemory.step_stepped hs hstep
      exact (ih (List.pairwise_append.mp hpre).1).step (t := ⟨w, m, r, w'⟩) hstepped htimes
  exact hser.answers

theorem overlappingMoves_answers :
    ∃ (s : InMemorySessionStore) (h : List MemoryTaken) (w : SharedMemory),
      InMemorySessionStore.new 2 = .ok s ∧
      exec SharedMemory.step (.start s) overlappingMoves = some (h, w) ∧
      (h.filterMap MemoryTaken.answered).map Prod.snd =
        replies SessionMap.call (fun _ => none)
          ((h.filterMap MemoryTaken.answered).map Prod.fst) := by
  obtain ⟨s, w, t₀, t₁, t₂, begun, t₃, t₄, t₅, t₆, returned, hnew, hexec⟩ := overlappingMoves_run
  have hcalled := congrArg (List.filterMap fun m : MemoryMove =>
    match m with | .call _ c => some c.nowMs | .go _ => none) (exec_inputs hexec)
  rw [List.filterMap_map] at hcalled
  have htimes : ([t₀, t₁, t₂] ++ begun :: ([t₃, t₄, t₅, t₆] ++ returned :: [])).filterMap
      MemoryTaken.calledMs = [1000, 1000, 1000, 1010, 1010, 1010] := hcalled
  exact ⟨s, _, w, hnew, hexec, answers_serialize hnew (Run.of_exec hexec) (by
    rw [htimes]
    decide)⟩

/-! ### Every entry at most once -/

/-- How often a scan under way in the thread has taken the cid. -/
def SharedMemory.carried (w : SharedMemory) (cid : UInt64) (thread : Nat) : Nat :=
  ((w.scans thread).elim [] Scan.removed).count cid

def SharedMemory.holding (w : SharedMemory) (cid : UInt64) : Nat :=
  if (w.store.entry cid).isSome then 1 else 0

section Accounts
variable {t : MemoryTaken} {cid : UInt64} {threads : Finset Nat}

theorem holding_le (cid : UInt64) (hstepped : t.pre.Stepped t.post t.input t.output) :
    t.post.holding cid ≤ t.pre.holding cid + if t.writes cid then 1 else 0 := by
  unfold SharedMemory.holding
  rcases t.entry_cases hstepped cid with hsame | hnone | hwrites
  · rw [hsame]
    exact Nat.le_add_right _ _
  · simp [hnone]
  · rw [if_pos hwrites]
    split_ifs <;> omega

theorem sum_carried_update (cid : UInt64) {w w' : SharedMemory} {thread : Nat}
    (hin : thread ∈ threads)
    (hsame : ∀ other, other ≠ thread → w'.scans other = w.scans other) :
    ∑ other ∈ threads, w'.carried cid other + w.carried cid thread =
      ∑ other ∈ threads, w.carried cid other + w'.carried cid thread := by
  rw [← Finset.add_sum_erase threads (w.carried cid) hin,
    ← Finset.add_sum_erase threads (w'.carried cid) hin]
  have hrest : ∑ other ∈ threads.erase thread, w'.carried cid other =
      ∑ other ∈ threads.erase thread, w.carried cid other :=
    Finset.sum_congr rfl fun other hother => by
      rw [SharedMemory.carried, SharedMemory.carried, hsame other (Finset.ne_of_mem_erase hother)]
  omega

/-- What a step reports, carries on and leaves is no more than what was carried and left
before, and what the step has written. -/
theorem account_step (cid : UInt64) (hin : t.input.thread ∈ threads)
    (hstepped : t.pre.Stepped t.post t.input t.output) :
    t.reported.count cid + ∑ thread ∈ threads, t.post.carried cid thread + t.post.holding cid ≤
      ∑ thread ∈ threads, t.pre.carried cid thread + t.pre.holding cid +
        if t.writes cid then 1 else 0 := by
  have hholding := holding_le cid hstepped
  obtain ⟨w, m, r, w'⟩ := t
  dsimp only at hin hstepped hholding ⊢
  cases hstepped with
  | @served thread c key reply hkey hserved hscans =>
    have hreported : MemoryTaken.reported ⟨w, .call thread c, some reply, w'⟩ = [] := by
      unfold MemoryTaken.reported
      split
      · rename_i removed heq
        exact absurd (Option.some.inj heq) (hserved.not_scanned (by simp [hkey]) removed)
      · rfl
    have hcarried : w'.carried cid = w.carried cid := by
      funext other
      exact congrArg (fun scan => (Option.elim scan [] Scan.removed).count cid)
        (congrFun hscans other)
    rw [hreported]
    simp only [List.count_nil, hcarried]
    omega
  | refused hcid hw =>
    obtain rfl : w' = w := hw
    simp [MemoryTaken.reported]
  | @begun thread c scan hidle hnow hnext hremoved hop hw =>
    obtain rfl : w' = w.setScan thread (some scan) := hw
    have hthread : thread ∈ threads := hin
    have hsum := sum_carried_update cid (w := w) hthread
      fun other hother => w.setScan_other hother (some scan)
    have hbefore : w.carried cid thread = 0 := by
      simp [SharedMemory.carried, show w.scans thread = none from hidle]
    have hafter : (w.setScan thread (some scan)).carried cid thread = 0 := by
      simp [SharedMemory.carried, SharedMemory.setScan, hremoved]
    simp only [MemoryTaken.reported, List.count_nil] at hholding ⊢
    omega
  | @visited thread scan keys hscan hnext hvisited hleft hscans =>
    have hthread : thread ∈ threads := hin
    have hsum := sum_carried_update cid (w := w) hthread fun other hother => by
      rw [show w'.scans = _ from hscans]
      exact Function.update_of_ne hother ..
    have hbefore : w.carried cid thread = scan.removed.count cid := by
      simp [SharedMemory.carried, show w.scans thread = some scan from hscan]
    have hafter : w'.carried cid thread = scan.removed.count cid + keys.count cid := by
      simp [SharedMemory.carried, show w'.scans = _ from hscans]
    have hmoved : keys.count cid + w'.holding cid ≤ w.holding cid := by
      by_cases hmem : cid ∈ keys
      · obtain ⟨e, he, -⟩ := hvisited.due cid hmem
        have hgone : w'.store.entry cid = none := by
          rw [show w'.store.entry cid = _ from hleft cid, if_pos hmem]
        rw [List.count_eq_one_of_mem hvisited.nodup hmem]
        simp [SharedMemory.holding, hgone, show w.store.entry cid = some e from he]
      · have hkept : w'.store.entry cid = w.store.entry cid := by
          rw [show w'.store.entry cid = _ from hleft cid, if_neg hmem]
        simp [SharedMemory.holding, hkept, List.count_eq_zero_of_not_mem hmem]
    simp only [MemoryTaken.reported, List.count_nil] at hholding ⊢
    omega
  | @returned thread scan hscan hdone hw =>
    obtain rfl : w' = w.setScan thread none := hw
    have hthread : thread ∈ threads := hin
    have hsum := sum_carried_update cid (w := w) hthread
      fun other hother => w.setScan_other hother none
    have hbefore : w.carried cid thread = scan.removed.count cid := by
      simp [SharedMemory.carried, show w.scans thread = some scan from hscan]
    have hafter : (w.setScan thread none).carried cid thread = 0 := by
      simp [SharedMemory.carried, SharedMemory.setScan]
    simp only [MemoryTaken.reported] at hholding ⊢
    omega

end Accounts

/-- Over a whole run of any threads, scans report a cid no more often than it was written, and
once less while it has an entry: no two scans report the same one. -/
theorem entries_reported_once {shardCount : Nat} {s : InMemorySessionStore} {h : List MemoryTaken}
    {w : SharedMemory} (hnew : InMemorySessionStore.new shardCount = .ok s)
    (hrun : Run SharedMemory.step (.start s) h w) (cid : UInt64) :
    (h.flatMap MemoryTaken.reported).count cid + w.holding cid ≤
      h.countP (MemoryTaken.writes cid) := by
  have haccount : ∀ threads : Finset Nat, (∀ t ∈ h, t.input.thread ∈ threads) →
      (h.flatMap MemoryTaken.reported).count cid +
        ∑ thread ∈ threads, w.carried cid thread + w.holding cid ≤
          h.countP (MemoryTaken.writes cid) := by
    intro threads
    induction hrun with
    | nil =>
      intro _
      simp [SharedMemory.carried, SharedMemory.holding, SharedMemory.start,
        InMemorySessionStore.new_entry hnew]
    | @snoc h w w' m r hbefore hstep ih =>
      intro hin
      obtain ⟨hs, -⟩ := shared_placed hnew hbefore
      obtain ⟨hstepped, -, -⟩ := SharedMemory.step_stepped hs hstep
      have hpre := ih fun t ht => hin t (List.mem_append_left _ ht)
      have hlast := account_step (t := ⟨w, m, r, w'⟩) cid (hin _ (by simp)) hstepped
      rw [List.flatMap_append, List.count_append, List.countP_append, List.countP_singleton]
      simp only [List.flatMap_singleton]
      simp only at hlast
      omega
  have hall := haccount (h.map fun t => t.input.thread).toFinset fun t ht => by
    rw [List.mem_toFinset]
    exact List.mem_map_of_mem ht
  omega

/-- Both entries of a cid that is written twice are accounted for: one scan has reported the
first, and the store holds the second. -/
theorem overlappingMoves_reported :
    ∃ (s : InMemorySessionStore) (h : List MemoryTaken) (w : SharedMemory),
      InMemorySessionStore.new 2 = .ok s ∧
      exec SharedMemory.step (.start s) overlappingMoves = some (h, w) ∧
      (h.flatMap MemoryTaken.reported).count 2 + w.holding 2 ≤
        h.countP (MemoryTaken.writes 2) := by
  obtain ⟨s, w, t₀, t₁, t₂, begun, t₃, t₄, t₅, t₆, returned, hnew, hexec⟩ := overlappingMoves_run
  exact ⟨s, _, w, hnew, hexec, entries_reported_once hnew (Run.of_exec hexec) 2⟩

end Todero.Store
