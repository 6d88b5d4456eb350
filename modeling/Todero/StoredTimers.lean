import Todero.Records

/-! The timers a session runs on and the timers in its record, over all runs. -/
namespace Todero.Server
open Todero.Wire Todero.Core Todero.Store Transition

theorem next_cfg (m : CoreMachine) (k : Call) : (m.next k).cfg = m.cfg :=
  congrArg Lasting.cfg (next_lasting m k)

section Session
variable {σ : Type} [SessionStore σ]

/-- The timers of the session of `cid`, of the one its record makes, or the runtime's. -/
def ServerRuntime.startCfg (rt : ServerRuntime σ) (cid nowMs : UInt64) : CoreConfig :=
  match rt.sessions[cid]? with
  | some s => s.core.cfg
  | none => match (SessionStore.load rt.store cid nowMs).2 with
    | .ok (some versioned) => ⟨versioned.record.negotiatedMsrIntervalMs, rt.cfg.missWindowCount,
        versioned.record.disconnectWindowMs⟩
    | .ok none | .error _ => rt.cfg

/-- The timers after the proposals the call brings have been looked at. -/
def ServerRuntime.agreedCfg (rt : ServerRuntime σ) (cid : UInt64) : Op → CoreConfig
  | .datagram nowMs _ bytes =>
    match WireFrame.decode bytes with
    | .error _ => rt.startCfg cid nowMs
    | .ok frame => (timersRead frame).foldl CoreConfig.offered (rt.startCfg cid nowMs)
  | .pollTimers nowMs _ | .sendMessage _ _ nowMs => rt.startCfg cid nowMs

/-- The two values of a configuration that a record has. -/
def keptTimers (cfg : CoreConfig) : UInt64 × UInt64 := (cfg.msrIntervalMs, cfg.disconnectWindowMs)

variable {rt rt₁ rt' : ServerRuntime σ} {cid : UInt64} {s : SessionRuntime} {src : UInt32}
  {nowMs : UInt64}

theorem startCfg_present (hs : rt.sessions[cid]? = some s) : rt.startCfg cid nowMs = s.core.cfg := by
  simp only [ServerRuntime.startCfg, hs]

theorem Enters.startCfg (henter : Enters rt cid src nowMs s rt₁) :
    s.core.cfg = rt.startCfg cid nowMs := by
  cases henter with
  | present hs => exact (startCfg_present hs).symm
  | @fresh loaded _ habsent hload _ _ _ _ =>
    simp only [ServerRuntime.startCfg, habsent, hload]
    cases loaded with
    | none => rfl
    | some versioned => rfl

theorem Enters.unproposed (hrt : rt.Hosting) (henter : Enters rt cid src nowMs s rt₁) :
    s.core.pendingLocalProposal = none := by
  cases henter with
  | present hs => exact (hrt _ _ hs).unproposed
  | @fresh loaded _ _ _ _ _ _ _ =>
    obtain ⟨cfg', hcore⟩ := freshSession_core rt.cfg cid src loaded
    rw [hcore]
    rfl

/-- A core that has proposed nothing takes over what it accepts, and nothing else. -/
theorem onDatagram_cfg {m : CoreMachine} {bytes : Bytes} {frame : WireFrame}
    (hown : ownFrame m bytes = some frame) (hnone : m.pendingLocalProposal = none)
    (nowMs : UInt64) (src : UInt32) :
    (Core.onDatagram m nowMs src bytes).1.cfg =
      (timersRead frame).foldl CoreConfig.offered m.cfg := by
  have htimers := (onDatagram_emission hown nowMs src).1.timers
  have hpending : m.timers.pending = none := hnone
  refine (congrArg Timers.cfg htimers).trans (Timers.foldl_on_cfg fun u _ => ?_)
  rw [hpending]
  cases u <;> rfl

variable [Base64] {called : CoreMachine × CallResult} {res : RuntimeResult}

theorem Received.agreed {bytes : Bytes} {frame : WireFrame} {s' : SessionRuntime}
    (h : Received rt nowMs src bytes rt' res) (hrt : rt.Hosting)
    (hd : WireFrame.decode bytes = .ok frame) (hs' : rt'.sessions[frame.cid]? = some s') :
    s'.core.cfg = rt.agreedCfg frame.cid (.datagram nowMs src bytes) := by
  cases h with
  | undecodable herr => simp [hd] at herr
  | @unloaded frame' _ _ hd' habsent _ _ _ hsessions _ =>
    obtain rfl : frame = frame' := Except.ok.inj (hd.symm.trans hd')
    simp [hsessions, habsent] at hs'
  | @visited frame' s rt₁ _ res' hd' henter hdrive =>
    obtain rfl : frame = frame' := Except.ok.inj (hd.symm.trans hd')
    have hown := ownFrame_of_cid hd (henter.named hrt)
    simp only [ServerRuntime.agreedCfg, hd]
    rw [hdrive.core hs', onDatagram_cfg hown (henter.unproposed hrt), henter.startCfg]

theorem step_agreed {op : Op} (hhost : rt.Hosting) (h : rt.step op = some (rt', res))
    (htouch : touches cid ⟨rt, op, res, rt'⟩) (hs : rt'.sessions[cid]? = some s) :
    s.core.cfg = rt.agreedCfg cid op := by
  cases op with
  | datagram nowMs src bytes =>
    obtain ⟨frame, hd, rfl⟩ := htouch
    exact (step_received h).agreed hhost hd hs
  | pollTimers nowMs limit =>
    obtain ⟨rfl, -⟩ := step_polled h
    obtain ⟨s₀, hs₀, hcfg⟩ := poll_keeps next_cfg hs
    exact hcfg.trans (startCfg_present hs₀).symm
  | sendMessage other payload nowMs =>
    obtain rfl : other = cid := htouch
    have hsent := sendMessage_sent h
    obtain ⟨s₀, hs₀, hcfg⟩ := hsent.keeps next_cfg hs
    exact hcfg.trans (startCfg_present hs₀).symm

theorem Fired.cfg {due : DueTimer} (h : Fired rt nowMs due rt' res) : rt'.cfg = rt.cfg := by
  cases h with
  | skipped => rfl
  | visited _ hdrive => exact hdrive.cfg

theorem step_runtimeCfg {op : Op} (h : rt.step op = some (rt', res)) :
    rt'.cfg = rt.cfg := by
  cases op with
  | datagram nowMs src bytes =>
    have hreceived := step_received h
    cases hreceived with
    | undecodable => rfl
    | unloaded _ _ _ hcfg => exact hcfg
    | visited _ henter hdrive => exact hdrive.cfg.trans henter.cfg
  | pollTimers nowMs limit =>
    obtain ⟨rfl, -⟩ := step_polled h
    exact poll_invariant (P := fun rt' => rt'.cfg = rt.cfg) rfl fun x _ hx =>
      (fire_fired nowMs x.1 x.2).cfg.trans hx
  | sendMessage other payload nowMs =>
    have hsent := sendMessage_sent h
    cases hsent with
    | skipped => rfl
    | visited _ _ hdrive => exact hdrive.cfg

theorem runtimeCfg_of_run {cfg : CoreConfig} {store : σ} {h : ServerHistory σ}
    (hrun : Run ServerRuntime.step (ServerRuntime.new cfg store) h rt) : rt.cfg = cfg := by
  induction hrun with
  | nil => rfl
  | snoc _ hs ih => exact (step_runtimeCfg hs).trans ih

/-- After a call that succeeds, the record of a session it has touched has the session's
timers exactly when what has been agreed on by then are the runtime's own. -/
theorem stored_timers_iff [LawfulSessionStore σ] {cfg : CoreConfig} {store : σ}
    {h : ServerHistory σ} (hrun : Run ServerRuntime.step (ServerRuntime.new cfg store) h rt)
    {t : Taken (ServerRuntime σ) Op RuntimeResult} (ht : t ∈ h) (hok : t.output.isOk)
    (htouch : touches cid t) (hs : t.post.sessions[cid]? = some s) :
    (∃ r, LawfulSessionStore.stored t.post.store cid = some r ∧
      r.negotiatedMsrIntervalMs = s.core.cfg.msrIntervalMs ∧
      r.disconnectWindowMs = s.core.cfg.disconnectWindowMs) ↔
    keptTimers (t.pre.agreedCfg cid t.input) = keptTimers cfg := by
  obtain ⟨h₀, h₁, -, hpre, hstep⟩ := hrun.before ht
  have hrec := step_recorded hstep hok htouch s hs
  have hcfg : t.post.cfg = cfg := (step_runtimeCfg hstep).trans (runtimeCfg_of_run hpre)
  rw [← step_agreed (hosting_of_run hpre) hstep htouch hs, hrec]
  simp only [Option.some.injEq, exists_eq_left', ServerRuntime.recordOf, hcfg, keptTimers,
    Prod.mk.injEq]
  exact and_congr eq_comm eq_comm

end Session

/-- A client that shakes hands and then proposes faster timers. -/
def fasterProposal : Packet := .msr 0 0 (some (.proposal 1 ⟨5000, 3, 60000⟩))

def fasterTimers : List Op :=
  [.datagram 0 1 ((Packet.control .clientHello).bytes 7), .datagram 1 1 (fasterProposal.bytes 7)]

theorem firstHello_stored :
    ∃ rt res, (ServerRuntime.step defaultServer
        (.datagram 0 1 ((Packet.control .clientHello).bytes 7))) = some (rt, res) ∧
      ∃ s, rt.sessions[(7 : UInt64)]? = some s ∧
        ((∃ r, LawfulSessionStore.stored rt.store 7 = some r ∧
          r.negotiatedMsrIntervalMs = s.core.cfg.msrIntervalMs ∧
          r.disconnectWindowMs = s.core.cfg.disconnectWindowMs) ↔
        keptTimers (defaultServer.agreedCfg 7
          (.datagram 0 1 ((Packet.control .clientHello).bytes 7))) = keptTimers .default) := by
  have hsome : (ServerRuntime.step defaultServer
      (.datagram 0 1 ((Packet.control .clientHello).bytes 7))).any fun x =>
        x.2.isOk && x.1.sessions[(7 : UInt64)]?.isSome := by
    decide +kernel
  obtain ⟨⟨rt, res⟩, hstep, hboth⟩ := (Option.any_eq_true _ _).mp hsome
  obtain ⟨hok, hin⟩ := Bool.and_eq_true_iff.mp hboth
  obtain ⟨s, hs⟩ := Option.isSome_iff_exists.mp hin
  have hd : WireFrame.decode ((Packet.control .clientHello).bytes 7) = .ok _ :=
    Packet.decode_bytes (Nat.zero_le _) 7
  exact ⟨rt, res, hstep, s, hs, stored_timers_iff (Run.nil.snoc hstep)
    (List.mem_singleton.mpr rfl) hok ⟨_, hd, rfl⟩ hs⟩

theorem fasterTimers_forgotten :
    ∃ h rt, Run ServerRuntime.step defaultServer h rt ∧
      ∃ t ∈ h, t.output.isOk ∧ touches 7 t ∧ ∃ s, t.post.sessions[(7 : UInt64)]? = some s ∧
        ¬ ∃ r, LawfulSessionStore.stored t.post.store 7 = some r ∧
          r.negotiatedMsrIntervalMs = s.core.cfg.msrIntervalMs ∧
          r.disconnectWindowMs = s.core.cfg.disconnectWindowMs := by
  have hsome : (exec ServerRuntime.step defaultServer fasterTimers).any fun x =>
      x.1.any fun t => t.output.isOk &&
        (match t.input with
          | .datagram _ _ bytes => bytes = fasterProposal.bytes 7
          | _ => false) &&
        t.post.sessions[(7 : UInt64)]?.any fun s => s.core.cfg.msrIntervalMs = 5000 &&
          (t.post.store.entry 7).any fun e => e.record.negotiatedMsrIntervalMs = 15000 := by
    decide +kernel
  obtain ⟨⟨h, rt⟩, hexec, hany⟩ := (Option.any_eq_true _ _).mp hsome
  obtain ⟨t, ht, hall⟩ := List.any_eq_true.mp hany
  simp only [Bool.and_eq_true, Option.any_eq_true, decide_eq_true_eq] at hall
  obtain ⟨⟨hok, hinput⟩, s, hs, hcfg, e, he, hrecord⟩ := hall
  refine ⟨h, rt, Run.of_exec hexec, t, ht, hok, ?_, s, hs, ?_⟩
  · unfold touches
    split at hinput
    · rename_i bytes hin
      rw [hin]
      have hd : WireFrame.decode (fasterProposal.bytes 7) = .ok _ :=
        Packet.decode_bytes (small_of_short (by decide)) 7
      exact ⟨_, (of_decide_eq_true hinput) ▸ hd, rfl⟩
    · simp at hinput
  · rintro ⟨r, hr, hmsr, -⟩
    have hstored : some e.record = some r :=
      (congrArg (Option.map Entry.record) he).symm.trans hr
    rw [← Option.some.inj hstored, hrecord, hcfg] at hmsr
    exact absurd hmsr (by decide)

end Todero.Server
