import Todero.Hosted

/-! What the store holds of a session after a call that succeeded: the record is written
last, with the delivery position of the session and the timers of the runtime. -/
namespace Todero.Server
open Todero.Wire Todero.Core Todero.Store Transition
variable {σ : Type} [SessionStore σ] [Base64]

/-- The step calls the core of `cid`, if there is one. -/
def touches (cid : UInt64) (t : Taken (ServerRuntime σ) Op RuntimeResult) : Prop :=
  match t.input with
  | .datagram _ _ bytes => ∃ frame, WireFrame.decode bytes = .ok frame ∧ frame.cid = cid
  | .pollTimers nowMs limit => ∃ x ∈ t.pre.polled nowMs limit, x.2.cid = cid
  | .sendMessage other _ _ => other = cid

section Record
variable [LawfulSessionStore σ]

/-- The store has the session of `cid` as it is now. -/
def ServerRuntime.Recorded (rt : ServerRuntime σ) (cid : UInt64) : Prop :=
  ∀ s, rt.sessions[cid]? = some s →
    LawfulSessionStore.stored rt.store cid = some (rt.recordOf cid s)

variable {rt rt₁ rt' : ServerRuntime σ} {cid : UInt64} {s : SessionRuntime} {src : UInt32}
  {nowMs : UInt64} {called : CoreMachine × CallResult} {res : RuntimeResult}

omit [Base64] in
theorem written_other {other : UInt64} (hne : other ≠ cid) :
    LawfulSessionStore.stored (rt.written cid nowMs s).1 other =
      LawfulSessionStore.stored rt.store other := by
  unfold ServerRuntime.written
  split_ifs
  · exact LawfulSessionStore.delete_other _ _ _ hne
  · exact LawfulSessionStore.upsert_other _ _ _ _ _ _ hne

omit [Base64] in
theorem written_same (hlive : s.core.state ≠ .lost)
    (hok : (rt.written cid nowMs s).2 = .ok ()) :
    LawfulSessionStore.stored (rt.written cid nowMs s).1 cid = some (rt.recordOf cid s) := by
  simp only [ServerRuntime.written, if_neg hlive] at hok ⊢
  cases hup : (SessionStore.upsert rt.store cid (rt.recordOf cid s) rt.cfg.disconnectWindowMs
    nowMs).2 with
  | error e => simp [hup, Except.map] at hok
  | ok v => exact LawfulSessionStore.stored_upsert _ _ _ _ _ v hup

/-- A call that succeeds has written the session as it leaves it. -/
theorem Driven.recorded {out : ServerRuntimeOutput}
    (hd : Driven rt cid s src nowMs called rt' (.ok out)) : rt'.Recorded cid := by
  intro s' hs'
  obtain ⟨core, cres⟩ := called
  have hres := hd.result
  cases cres with
  | error e => simp at hres
  | ok o =>
    have hok : (rt.written cid nowMs { s with core := core }).2 = .ok () := by
      cases hw : (rt.written cid nowMs { s with core := core }).2 with
      | error e => simp [hw] at hres
      | ok u => rfl
    obtain ⟨ids, hkept⟩ := hd.kept
    rw [hs'] at hkept
    split_ifs at hkept with hgone
    rw [Option.some.injEq] at hkept
    have hlive : core.state ≠ .lost := fun h => hgone ⟨rfl, h⟩
    have hstore : rt'.store = (rt.written cid nowMs { s with core := core }).1 :=
      hd.store.trans (if_pos rfl)
    rw [hstore, written_same hlive hok, hkept]
    simp only [ServerRuntime.recordOf, hd.cfg]

theorem Driven.recorded_other (hd : Driven rt cid s src nowMs called rt' res) {other : UInt64}
    (hne : other ≠ cid) (h : rt.Recorded other) : rt'.Recorded other := by
  intro s' hs'
  rw [hd.others other hne] at hs'
  have hstored : LawfulSessionStore.stored rt'.store other =
      LawfulSessionStore.stored rt.store other := by
    rw [hd.store]
    split_ifs
    · exact written_other hne
    · rfl
  rw [hstored, h s' hs']
  simp only [ServerRuntime.recordOf, hd.cfg]

theorem Fired.recorded {due : DueTimer} (h : Fired rt nowMs due rt' res) (hok : res.isOk)
    (hcid : due.cid = cid ∨ rt.Recorded cid) : rt'.Recorded cid := by
  by_cases heq : due.cid = cid
  · subst heq
    cases h with
    | skipped habsent =>
      intro s hs
      simp [habsent] at hs
    | visited _ hdrive =>
      cases res with
      | error e => simp [Except.isOk, Except.toBool] at hok
      | ok out => exact hdrive.recorded
  · have hrec := hcid.resolve_left heq
    cases h with
    | skipped => exact hrec
    | visited _ hdrive => exact hdrive.recorded_other (Ne.symm heq) hrec

/-- A poll that succeeds has written the cids it has worked off. -/
theorem fireAll_recorded {dues : List DueTimer} {output : ServerRuntimeOutput}
    (hok : (ServerRuntime.fireAll nowMs rt dues output).2.isOk)
    (h : (∃ x ∈ rt.fired nowMs dues, x.2.cid = cid) ∨ rt.Recorded cid) :
    (ServerRuntime.fireAll nowMs rt dues output).1.Recorded cid := by
  induction dues generalizing rt output with
  | nil => exact h.resolve_left (by simp [ServerRuntime.fired])
  | cons due rest ih =>
    have hfired := fire_fired nowMs rt due
    rw [ServerRuntime.fireAll] at hok ⊢
    rw [ServerRuntime.fired] at h
    cases hf : rt.fire nowMs due with
    | mk rt' res =>
      rw [hf] at hok h hfired
      cases res with
      | error e => simp [Except.isOk, Except.toBool] at hok
      | ok out =>
        refine ih hok ?_
        obtain ⟨x, hx, hcid⟩ | hrec := h
        · obtain rfl | htail := List.mem_cons.mp hx
          · exact .inr (hfired.recorded rfl (.inl hcid))
          · exact .inl ⟨x, htail, hcid⟩
        · exact .inr (hfired.recorded rfl (.inr hrec))

theorem step_recorded {op : Op} (h : rt.step op = some (rt', res)) (hok : res.isOk)
    (htouch : touches cid ⟨rt, op, res, rt'⟩) : rt'.Recorded cid := by
  cases op with
  | datagram nowMs src bytes =>
    obtain ⟨frame, hd, rfl⟩ := htouch
    have hreceived := step_received h
    cases hreceived with
    | undecodable herr => simp [hd] at herr
    | unloaded => simp [Except.isOk, Except.toBool] at hok
    | @visited frame' s rt₁ _ res' hd' henter hdrive =>
      obtain rfl : frame = frame' := Except.ok.inj (hd.symm.trans hd')
      cases res' with
      | error e => simp [Except.map, Except.isOk, Except.toBool] at hok
      | ok out => exact hdrive.recorded
  | pollTimers nowMs limit =>
    obtain ⟨rfl, rfl⟩ := step_polled h
    exact fireAll_recorded hok (.inl htouch)
  | sendMessage other payload nowMs =>
    obtain rfl : other = cid := htouch
    have hsent := sendMessage_sent h
    cases hsent with
    | skipped habsent =>
      intro s hs
      simp [habsent] at hs
    | visited _ _ hdrive =>
      cases res with
      | error e => simp [Except.isOk, Except.toBool] at hok
      | ok out => exact hdrive.recorded

end Record

end Todero.Server
