import Todero.ServerSpec

/-! Runs of a server runtime: what the core of every session keeps, and the entries a
poll works off one by one. -/
namespace Todero.Server
open Todero.Wire Todero.Core Todero.Store Transition

/-! ### Cores -/

/-- What the core of the session of `cid` keeps once a datagram has reached it. -/
structure Hosted (cid : UInt64) (m : CoreMachine) : Prop where
  named : m.cid = cid
  role : m.role = .server
  unproposed : m.pendingLocalProposal = none
  touched : m.disconnectDeadlineMs.isSome
  lived : ∃ (cfg : CoreConfig) (h : History), Run CoreMachine.step (.new .server cid cfg) h m

theorem ownFrame_of_cid {m : CoreMachine} {bytes : Bytes} {frame : WireFrame}
    (hd : WireFrame.decode bytes = .ok frame) (hcid : m.cid = frame.cid) :
    ownFrame m bytes = some frame :=
  ownFrame_eq_some.mpr ⟨hd, fun h => h.2 hcid.symm⟩

theorem Hosted.of_datagram {m : CoreMachine} {cfg : CoreConfig} {h : History} {bytes : Bytes}
    {frame : WireFrame} (hd : WireFrame.decode bytes = .ok frame) (hcid : m.cid = frame.cid)
    (hrole : m.role = .server) (hnone : m.pendingLocalProposal = none)
    (hrun : Run CoreMachine.step (.new .server frame.cid cfg) h m) (nowMs : UInt64)
    (src : UInt32) : Hosted frame.cid (Core.onDatagram m nowMs src bytes).1 := by
  obtain ⟨hemits, htouched⟩ := onDatagram_emission (ownFrame_of_cid hd hcid) nowMs src
  have hfixed := onDatagram_fixed m nowMs src bytes
  refine ⟨hemits.cid.trans hcid, (congrArg Fixed.role hfixed).trans hrole, ?_, htouched,
    cfg, _, hrun.snoc (i := .datagram nowMs src bytes) rfl⟩
  have hpending := Timers.foldl_on_none (t := m.timers) hnone (timersRead frame)
  rwa [← hemits.timers] at hpending

theorem Hosted.datagram {m : CoreMachine} {bytes : Bytes} {frame : WireFrame}
    (hd : WireFrame.decode bytes = .ok frame) (hm : Hosted frame.cid m) (nowMs : UInt64)
    (src : UInt32) : Hosted frame.cid (Core.onDatagram m nowMs src bytes).1 := by
  obtain ⟨cfg, h, hrun⟩ := hm.lived
  exact .of_datagram hd hm.named hm.role hm.unproposed hrun nowMs src

/-- The calls the runtime makes of a core. -/
def hostedCall : Call → Bool
  | .timer _ _ | .send _ => true
  | .beginHandshake _ | .close | .proposeTimers _ _ | .pathChanged _ => false

/-- A core that proposes nothing has nothing pending after such a call either. -/
theorem next_hosted {m : CoreMachine} {k : Call} (hk : hostedCall k) :
    (m.next k).role = m.role ∧
      (m.pendingLocalProposal = none → (m.next k).pendingLocalProposal = none) ∧
      (m.disconnectDeadlineMs.isSome → (m.next k).disconnectDeadlineMs.isSome) := by
  have hmoved := next_moved m k
  generalize m.next k = m' at hmoved ⊢
  cases hmoved with
  | announced => exact ⟨rfl, id, fun _ => rfl⟩
  | rolledBack => exact ⟨rfl, fun _ => rfl, id⟩
  | same | abandoned | doubted | timedOut | queued => exact ⟨rfl, id, id⟩
  | closed | proposed | switched => simp [hostedCall] at hk

theorem Hosted.call {cid : UInt64} {m m' : CoreMachine} {k : Call} {res : CallResult}
    (hm : Hosted cid m) (hk : hostedCall k) (h : m.apply k = some (m', res)) :
    Hosted cid m' := by
  obtain ⟨cfg, hist, hrun⟩ := hm.lived
  have hstep : m.step (.call k) = some (m', res) := h
  obtain ⟨hrole, hnone, htouched⟩ := next_hosted (m := m) hk
  rw [← (apply_answers m h).next] at hrole hnone htouched
  exact ⟨(apply_cid h).trans hm.named, hrole.trans hm.role, hnone hm.unproposed,
    htouched hm.touched, cfg, _, hrun.snoc hstep⟩

variable {σ : Type} [SessionStore σ] [Base64]

abbrev ServerHistory (σ : Type) := List (Taken (ServerRuntime σ) Op RuntimeResult)

/-! ### Polls -/

/-- The entries of a poll that are worked off, up to the first that fails, each with the
runtime it finds. -/
def ServerRuntime.fired (nowMs : UInt64) :
    ServerRuntime σ → List DueTimer → List (ServerRuntime σ × DueTimer)
  | _, [] => []
  | rt, due :: rest =>
    (rt, due) :: match rt.fire nowMs due with
      | (_, .error _) => []
      | (rt', .ok _) => ServerRuntime.fired nowMs rt' rest

/-- The entries that a poll of `rt` works off. -/
def ServerRuntime.polled (rt : ServerRuntime σ) (nowMs : UInt64) (limit : Nat) :
    List (ServerRuntime σ × DueTimer) :=
  rt.fired nowMs (collectDue nowMs limit rt.timers.toList [])

/-- What every entry worked off keeps, the poll keeps. -/
theorem fireAll_invariant {P : ServerRuntime σ → Prop} {nowMs : UInt64} {dues : List DueTimer}
    {rt : ServerRuntime σ} (h : P rt)
    (hfire : ∀ x ∈ rt.fired nowMs dues, P x.1 → P (x.1.fire nowMs x.2).1)
    (output : ServerRuntimeOutput) : P (ServerRuntime.fireAll nowMs rt dues output).1 := by
  induction dues generalizing rt output with
  | nil => exact h
  | cons due rest ih =>
    have hhead := hfire (rt, due) (by simp [ServerRuntime.fired]) h
    rw [ServerRuntime.fireAll]
    rw [ServerRuntime.fired] at hfire
    cases hf : rt.fire nowMs due with
    | mk rt' res =>
      rw [hf] at hhead hfire
      cases res with
      | error e => exact hhead
      | ok partOut =>
        exact ih hhead (fun x hx => hfire x (List.mem_cons_of_mem _ hx)) _

theorem poll_invariant {P : ServerRuntime σ → Prop} {nowMs : UInt64} {limit : Nat}
    {rt : ServerRuntime σ} (h : P rt)
    (hfire : ∀ x ∈ rt.polled nowMs limit, P x.1 → P (x.1.fire nowMs x.2).1) :
    P (rt.pollTimers nowMs limit).1 :=
  fireAll_invariant h hfire {}

/-! ### Sessions -/

/-- Every session's core is hosted under the session's cid. -/
def ServerRuntime.Hosting (rt : ServerRuntime σ) : Prop :=
  ∀ (cid : UInt64) (s : SessionRuntime), rt.sessions[cid]? = some s → Hosted cid s.core

section Step
variable {rt rt₁ rt' : ServerRuntime σ} {cid : UInt64} {s : SessionRuntime} {src : UInt32}
  {nowMs : UInt64} {called : CoreMachine × CallResult} {res : RuntimeResult}

/-- What holds of all sessions but that of `cid`, and of its core after the call. -/
theorem Driven.sessions {P : UInt64 → CoreMachine → Prop}
    (hd : Driven rt cid s src nowMs called rt' res)
    (hothers : ∀ (other : UInt64) (s : SessionRuntime), other ≠ cid →
      rt.sessions[other]? = some s → P other s.core)
    (hcalled : P cid called.1) (other : UInt64) (s' : SessionRuntime)
    (hs' : rt'.sessions[other]? = some s') : P other s'.core := by
  by_cases hne : other = cid
  · subst hne
    obtain ⟨ids, hkept⟩ := hd.kept
    rw [hs'] at hkept
    split_ifs at hkept
    rw [Option.some.injEq] at hkept
    subst hkept
    exact hcalled
  · rw [hd.others other hne] at hs'
    exact hothers other s' hne hs'

omit [SessionStore σ] [Base64] in
theorem freshSession_core (cfg : CoreConfig) (cid : UInt64) (src : UInt32)
    (loaded : Option VersionedRecord) :
    ∃ cfg', (freshSession cfg cid src loaded).core =
      (onPathEvent (CoreMachine.new .server cid cfg') src).1 := by
  cases loaded with
  | none => exact ⟨_, rfl⟩
  | some versioned => exact ⟨_, rfl⟩

omit [Base64] in
theorem Enters.named (hrt : rt.Hosting) (henter : Enters rt cid src nowMs s rt₁) :
    s.core.cid = cid := by
  cases henter with
  | present hs => exact (hrt _ _ hs).named
  | @fresh loaded _ _ _ _ _ _ _ =>
    obtain ⟨cfg', hcore⟩ := freshSession_core rt.cfg cid src loaded
    rw [hcore]
    rfl

omit [Base64] in
theorem Enters.role (hrt : rt.Hosting) (henter : Enters rt cid src nowMs s rt₁) :
    s.core.role = .server := by
  cases henter with
  | present hs => exact (hrt _ _ hs).role
  | @fresh loaded _ _ _ _ _ _ _ =>
    obtain ⟨cfg', hcore⟩ := freshSession_core rt.cfg cid src loaded
    rw [hcore]
    rfl

omit [Base64] in
theorem Enters.hosted {bytes : Bytes} {frame : WireFrame} (hrt : rt.Hosting)
    (hd : WireFrame.decode bytes = .ok frame) (henter : Enters rt frame.cid src nowMs s rt₁) :
    Hosted frame.cid (Core.onDatagram s.core nowMs src bytes).1 := by
  cases henter with
  | present hs => exact (hrt _ _ hs).datagram hd nowMs src
  | @fresh loaded _ _ _ _ _ _ _ =>
    obtain ⟨cfg', hcore⟩ := freshSession_core rt.cfg frame.cid src loaded
    rw [hcore]
    have hrun : Run CoreMachine.step (.new .server frame.cid cfg') _
        (onPathEvent (CoreMachine.new .server frame.cid cfg') src).1 :=
      Run.nil.snoc (i := .call (.pathChanged src)) rfl
    exact .of_datagram hd rfl rfl rfl hrun nowMs src

theorem Received.hosting {bytes : Bytes} (h : Received rt nowMs src bytes rt' res)
    (hrt : rt.Hosting) : rt'.Hosting := by
  cases h with
  | undecodable => exact hrt
  | unloaded _ _ _ _ _ hsessions =>
    intro cid s hs
    rw [hsessions] at hs
    exact hrt cid s hs
  | visited hd henter hdrive =>
    refine hdrive.sessions ?_ (henter.hosted hrt hd)
    intro other s hne hs
    rw [henter.others hne] at hs
    exact hrt other s hs

theorem Fired.hosting {due : DueTimer} (h : Fired rt nowMs due rt' res) (hrt : rt.Hosting) :
    rt'.Hosting := by
  cases h with
  | skipped => exact hrt
  | visited hs hdrive =>
    exact hdrive.sessions (fun other s _ => hrt other s)
      ((hrt _ _ hs).call (k := .timer nowMs due.timerId) rfl rfl)

theorem Sent.hosting {payload : Bytes} (h : Sent rt cid payload nowMs rt' res)
    (hrt : rt.Hosting) : rt'.Hosting := by
  cases h with
  | skipped => exact hrt
  | @visited s called _ _ hs hcall hdrive =>
    exact hdrive.sessions (fun other s _ => hrt other s)
      ((hrt _ _ hs).call (k := .send payload) rfl hcall)

theorem Driven.core (hd : Driven rt cid s src nowMs called rt' res) {s' : SessionRuntime}
    (hs' : rt'.sessions[cid]? = some s') : s'.core = called.1 := by
  obtain ⟨ids, hkept⟩ := hd.kept
  rw [hs'] at hkept
  split_ifs at hkept
  rw [Option.some.inj hkept]

/-- A core that was lost in a call that succeeded leaves no session. -/
theorem Driven.gone (hd : Driven rt cid s src nowMs called rt' res) (hok : called.2.isOk)
    (hlost : called.1.state = .lost) : rt'.sessions[cid]? = none := by
  obtain ⟨ids, hkept⟩ := hd.kept
  rw [hkept, if_pos ⟨hok, hlost⟩]

theorem Driven.stays (hd : Driven rt cid s src nowMs called rt' res)
    (hlive : called.1.state ≠ .lost) :
    ∃ s', rt'.sessions[cid]? = some s' ∧ s'.core = called.1 := by
  obtain ⟨ids, hkept⟩ := hd.kept
  rw [if_neg fun h => hlive h.2] at hkept
  exact ⟨_, hkept, rfl⟩

section Keeps
variable {α : Type} {f : CoreMachine → α} (hf : ∀ m k, f (m.next k) = f m)
include hf

/-- What no call changes in a core, an entry that fires changes in no session; and it
makes none. -/
theorem Fired.keeps {due : DueTimer} (h : Fired rt nowMs due rt' res) {s' : SessionRuntime}
    (hs' : rt'.sessions[cid]? = some s') :
    ∃ s, rt.sessions[cid]? = some s ∧ f s'.core = f s.core := by
  cases h with
  | skipped => exact ⟨s', hs', rfl⟩
  | @visited s _ _ hs hdrive =>
    by_cases hne : cid = due.cid
    · subst hne
      exact ⟨s, hs, by rw [hdrive.core hs', onTimer_next, hf]⟩
    · rw [hdrive.others cid hne] at hs'
      exact ⟨s', hs', rfl⟩

theorem poll_keeps {limit : Nat} {s' : SessionRuntime}
    (hs' : (rt.pollTimers nowMs limit).1.sessions[cid]? = some s') :
    ∃ s, rt.sessions[cid]? = some s ∧ f s'.core = f s.core := by
  refine poll_invariant (P := fun rt' => ∀ s', rt'.sessions[cid]? = some s' →
    ∃ s, rt.sessions[cid]? = some s ∧ f s'.core = f s.core) (fun s' hs' => ⟨s', hs', rfl⟩)
    (fun x _ hx s'' hs'' => ?_) s' hs'
  obtain ⟨s', hs', heq⟩ := (fire_fired nowMs x.1 x.2).keeps hf hs''
  obtain ⟨s, hs, heq'⟩ := hx s' hs'
  exact ⟨s, hs, heq.trans heq'⟩

theorem Sent.keeps {other : UInt64} {payload : Bytes} (h : Sent rt other payload nowMs rt' res)
    {s' : SessionRuntime} (hs' : rt'.sessions[cid]? = some s') :
    ∃ s, rt.sessions[cid]? = some s ∧ f s'.core = f s.core := by
  cases h with
  | skipped => exact ⟨s', hs', rfl⟩
  | @visited s called _ _ hs hcall hdrive =>
    by_cases hne : cid = other
    · subst hne
      have hcall' : s.core.apply (.send payload) = some (called.1, called.2) := hcall
      exact ⟨s, hs, by rw [hdrive.core hs', (apply_answers _ hcall').next, hf]⟩
    · rw [hdrive.others cid hne] at hs'
      exact ⟨s', hs', rfl⟩

end Keeps

theorem poll_hosting (hrt : rt.Hosting) (limit : Nat) : (rt.pollTimers nowMs limit).1.Hosting :=
  poll_invariant hrt fun x _ h => (fire_fired nowMs x.1 x.2).hosting h

theorem step_hosting {op : Op} (hrt : rt.Hosting) (h : rt.step op = some (rt', res)) :
    rt'.Hosting := by
  cases op with
  | datagram nowMs src bytes =>
    exact (step_received h).hosting hrt
  | pollTimers nowMs limit =>
    obtain ⟨rfl, -⟩ := step_polled h
    exact poll_hosting hrt limit
  | sendMessage cid payload nowMs => exact (sendMessage_sent h).hosting hrt

end Step

theorem hosting_of_run {cfg : CoreConfig} {store : σ} {h : ServerHistory σ} {rt : ServerRuntime σ}
    (hrun : Run ServerRuntime.step (ServerRuntime.new cfg store) h rt) : rt.Hosting := by
  induction hrun with
  | nil =>
    intro cid s hs
    simp [ServerRuntime.new] at hs
  | snoc _ hs ih => exact step_hosting ih hs

/-- A server with an empty store in memory. -/
abbrev defaultServer : ServerRuntime InMemorySessionStore :=
  .new .default .withDefaultShards

end Todero.Server
