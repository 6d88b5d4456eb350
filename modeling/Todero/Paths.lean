import Todero.Alone
import Todero.Handled

/-! Where the server's datagrams go: a session answers on the path on which its client was
last heard, whatever other clients and timers do. -/
namespace Todero.Core
open Todero.Wire

/-- The machine is on the path, and has sent on it only. -/
structure Ctx.OnPath (src : UInt32) (c : Ctx) : Prop where
  current : c.self.currentPathId = src
  sent : ∀ d ∈ c.out.outboundDatagrams, d.pathId = src

namespace Ctx.OnPath
variable {src : UInt32} {c c' : Ctx} (nowMs : UInt64)

theorem of_same (h : c.OnPath src) (hself : c'.self.currentPathId = c.self.currentPathId)
    (hout : c'.out.outboundDatagrams = c.out.outboundDatagrams) : c'.OnPath src :=
  ⟨hself.trans h.current, hout ▸ h.sent⟩

theorem send (h : c.OnPath src) (p : Packet) : (c.send src p).OnPath src := by
  refine ⟨h.current, fun d hd => ?_⟩
  rcases List.mem_append.mp hd with hold | hnew
  · exact h.sent d hold
  · rw [List.mem_singleton.mp hnew]

theorem sendAll (h : c.OnPath src) (ps : List Packet) : (c.sendAll src ps).OnPath src := by
  induction ps generalizing c with
  | nil => exact h
  | cons p ps ih => exact ih (h.send p)

theorem clientHello (h : c.OnPath src) : (c.clientHello nowMs src).OnPath src := by
  unfold Ctx.clientHello
  split_ifs
  · have hopen : ((c.enter .established).tell .handshakeEstablished).OnPath src := h.of_same rfl rfl
    exact (hopen.send _).of_same rfl rfl
  · exact h

theorem serverHello (h : c.OnPath src) : (c.serverHello nowMs src).OnPath src := by
  by_cases hnew : c.self.role = .client ∧
      (c.self.state = .preHandshake ∨ c.self.state = .reactivating)
  · rw [Ctx.serverHello, if_pos hnew]
    have hopen : (c.enter .established).OnPath src := h.of_same rfl rfl
    exact (hopen.send _).of_same rfl rfl
  · rw [Ctx.serverHello, if_neg hnew]
    exact h

theorem helloAck (h : c.OnPath src) : (c.helloAck nowMs).OnPath src := by
  unfold Ctx.helloAck
  split_ifs
  · exact h.of_same rfl rfl
  · exact h

theorem timed (h : c.OnPath src) (t : TimerTlv) : (c.timed src t).OnPath src := by
  cases t with
  | proposal id p =>
    simp only [Ctx.timed, Ctx.answered]
    split_ifs
    · exact (h.send _).of_same rfl rfl
    · exact (h.send _).of_same rfl rfl
  | ack id accepted =>
    refine h.of_same ?_ ?_
    · rw [Ctx.timed_self]
      rfl
    · simp only [Ctx.timed, Ctx.acked]
      split
      · rfl
      · split_ifs <;> rfl

theorem requested (h : c.OnPath src) (next : Nat) : (c.requested src next).OnPath src := by
  unfold Ctx.requested
  split_ifs
  · have hopen : Ctx.OnPath src { c with self := { c.self with lastRequestedEnd := next } } :=
      h.of_same rfl rfl
    exact (hopen.send _).of_same rfl rfl
  · exact h

theorem noted (h : c.OnPath src) (source : MsrSource) : (c.noted nowMs src source).OnPath src := by
  have hafter : Ctx.OnPath src { c with self := afterServerMsr nowMs source c.self } :=
    h.of_same rfl rfl
  unfold Ctx.noted Ctx.sendIf Ctx.tellIf
  split_ifs
  · exact (hafter.send _).of_same rfl rfl
  · exact hafter.of_same rfl rfl
  · exact hafter.send _
  · exact hafter

theorem signalled (h : c.OnPath src) (next : Nat) (source : MsrSource) :
    (c.signalled nowMs src next source).OnPath src := by
  unfold Ctx.signalled
  cases c.self.role with
  | client => exact (h.noted nowMs source).requested next
  | server =>
    have hheard : c.heard.OnPath src := h.of_same rfl rfl
    exact hheard.requested next

theorem timedAll (h : c.OnPath src) (ts : List TimerTlv) : (c.timedAll src ts).OnPath src := by
  induction ts generalizing c with
  | nil => exact h
  | cons t ts ih => exact ih (h.timed t)

theorem handled {frame : WireFrame} (h : c.OnPath src) (hc : Handled nowMs src frame c c') :
    c'.OnPath src := by
  cases hc with
  | same => exact h
  | clientHello => exact h.clientHello nowMs
  | serverHello => exact h.serverHello nowMs
  | helloAck => exact h.helloAck nowMs
  | timed => exact h.timedAll _
  | signalled next => exact (h.timedAll _).signalled nowMs next _
  | sent ps => exact h.sendAll ps
  | arrived a => exact h.of_same rfl rfl
  | closed => exact h.of_same rfl rfl

theorem piggybacked (h : c.OnPath src) (frame : WireFrame) :
    (c.piggybacked nowMs src frame).OnPath src := by
  unfold Ctx.piggybacked
  split_ifs
  · split
    · exact h
    · exact h.signalled nowMs _ _
  · exact h

end Ctx.OnPath

/-- A frame of the machine's own cid moves it to the path it came on, where it answers. -/
theorem onDatagram_path {m : CoreMachine} {bytes : Bytes} {frame : WireFrame}
    (hown : ownFrame m bytes = some frame) (nowMs : UInt64) (src : UInt32) :
    (onDatagram m nowMs src bytes).1.currentPathId = src ∧
      ∀ d ∈ (onDatagram m nowMs src bytes).2.output.outboundDatagrams, d.pathId = src := by
  obtain ⟨hd, hf⟩ := ownFrame_eq_some.mp hown
  have hin : (Ctx.received nowMs src ⟨m, {}⟩).OnPath src := ⟨rfl, fun d hd => by cases hd⟩
  have hdis := hin.handled nowMs (dispatch_handled nowMs src (Ctx.received nowMs src ⟨m, {}⟩) frame)
  rw [onDatagram_run hd hf]
  cases hr : dispatch nowMs src frame (Ctx.received nowMs src ⟨m, {}⟩) with
  | ok a c =>
    rw [hr] at hdis
    obtain ⟨hcurrent, hsent⟩ := Ctx.OnPath.piggybacked nowMs hdis frame
    exact ⟨hcurrent, hsent⟩
  | error e c =>
    rw [hr] at hdis
    exact ⟨hdis.current, fun d hd => by cases hd⟩

end Todero.Core

namespace Todero.Server
open Todero.Wire Todero.Core Todero.Store Transition

/-- Any other call but a change of path leaves the machine on its path and sends there. -/
theorem apply_path {m m' : CoreMachine} {k : Call} {res : CallResult} (hk : hostedCall k)
    (h : m.apply k = some (m', res)) :
    m'.currentPathId = m.currentPathId ∧
      ∀ d ∈ res.output.outboundDatagrams, d.pathId = m.currentPathId := by
  obtain ⟨hnext, hdatagrams, -⟩ := apply_answers m h
  constructor
  · rw [hnext]
    have hmoved := next_moved m k
    generalize m.next k = m' at hmoved
    cases hmoved with
    | switched => cases hk
    | _ => rfl
  · intro d hd
    rw [hdatagrams, List.mem_map] at hd
    obtain ⟨p, -, rfl⟩ := hd
    rfl

theorem redirect_zero (d : OutboundDatagram) : (ServerRuntime.redirect 0 d).pathId = d.pathId := by
  unfold ServerRuntime.redirect
  split_ifs with h
  · exact h.symm
  · rfl

section Paths
variable {σ : Type} [SessionStore σ] [Base64] {rt rt' : ServerRuntime σ} {cid : UInt64}
  {s : SessionRuntime} {src : UInt32} {nowMs : UInt64} {called : CoreMachine × CallResult}
  {res : RuntimeResult} {on : UInt64 → UInt32 → Prop}

/-- Every session is on a path that is one of its cid's. -/
def ServerRuntime.OnPaths (on : UInt64 → UInt32 → Prop) (rt : ServerRuntime σ) : Prop :=
  ∀ cid s, rt.sessions[cid]? = some s → on cid s.core.currentPathId

/-- Every datagram is returned for a path that is one of its cid's. -/
def SendsOn (on : UInt64 → UInt32 → Prop) (res : RuntimeResult) : Prop :=
  ∀ out, res = .ok out → ∀ d ∈ out.outboundDatagrams,
    ∃ frame, WireFrame.decode d.bytes = .ok frame ∧ on frame.cid d.pathId

/-- A call of a core that answers on the path it is on. -/
theorem Driven.onPaths (hd : Driven rt cid s src nowMs called rt' res)
    (hothers : ∀ other s, other ≠ cid → rt.sessions[other]? = some s →
      on other s.core.currentPathId)
    (hall : AllOf cid called.2.output.outboundDatagrams)
    (hcore : on cid called.1.currentPathId)
    (hsent : ∀ d ∈ called.2.output.outboundDatagrams,
      (ServerRuntime.redirect src d).pathId = called.1.currentPathId) :
    rt'.OnPaths on ∧ SendsOn on res := by
  refine ⟨hd.sessions (P := fun cid m => on cid m.currentPathId) hothers hcore, ?_⟩
  obtain ⟨core, cres⟩ := called
  have hres := hd.result
  cases cres with
  | error e =>
    dsimp only at hres
    subst hres
    exact fun out hout => by cases hout
  | ok out =>
    dsimp only at hres hall hsent hcore
    intro out' hout d hmem
    rw [hout] at hres
    split at hres
    · cases hres
    · obtain rfl := Except.ok.inj hres
      obtain ⟨d', hd', rfl⟩ := List.mem_map.mp hmem
      obtain ⟨frame, hdec, hcid⟩ := hall d' hd'
      refine ⟨frame, hdec, ?_⟩
      rw [hsent d' hd', hcid]
      exact hcore

theorem Driven.called_onPaths (hd : Driven rt cid s 0 nowMs called rt' res) {k : Call}
    (hk : hostedCall k) (hcall : s.core.apply k = some called) (hs : Hosted cid s.core)
    (hothers : ∀ other s, other ≠ cid → rt.sessions[other]? = some s →
      on other s.core.currentPathId)
    (hon : on cid s.core.currentPathId) : rt'.OnPaths on ∧ SendsOn on res := by
  obtain ⟨hcurrent, hsent⟩ := apply_path hk hcall
  have hall := apply_allOf hcall
  rw [hs.named] at hall
  refine hd.onPaths hothers hall (hcurrent ▸ hon) fun d hd => ?_
  rw [redirect_zero, hsent d hd, hcurrent]

theorem Fired.onPaths {due : DueTimer} (h : Fired rt nowMs due rt' res) (hrt : rt.Hosting)
    (hon : rt.OnPaths on) : rt'.OnPaths on ∧ SendsOn on res := by
  cases h with
  | skipped habsent =>
    refine ⟨hon, fun out hout d hd => ?_⟩
    rw [← Except.ok.inj hout] at hd
    cases hd
  | @visited s _ _ hs hdrive =>
    refine hdrive.called_onPaths (k := .timer nowMs due.timerId) rfl rfl (hrt _ s hs) ?_
      (hon _ s hs)
    exact fun other s _ => hon other s

theorem fireAll_onPaths (dues : List DueTimer) {rt : ServerRuntime σ} (hrt : rt.Hosting)
    (hon : rt.OnPaths on) {output : ServerRuntimeOutput} (hsends : SendsOn on (.ok output)) :
    (ServerRuntime.fireAll nowMs rt dues output).1.OnPaths on ∧
      SendsOn on (ServerRuntime.fireAll nowMs rt dues output).2 := by
  induction dues generalizing rt output with
  | nil => exact ⟨hon, hsends⟩
  | cons due rest ih =>
    have hfired := fire_fired nowMs rt due
    rw [ServerRuntime.fireAll]
    cases hf : rt.fire nowMs due with
    | mk rt₁ res₁ =>
      rw [hf] at hfired
      obtain ⟨hon₁, hsends₁⟩ := hfired.onPaths hrt hon
      cases res₁ with
      | error e => exact ⟨hon₁, fun out hout => by cases hout⟩
      | ok partOut =>
        refine ih (hfired.hosting hrt) hon₁ fun out hout d hd => ?_
        rw [← Except.ok.inj hout] at hd
        rcases List.mem_append.mp hd with hold | hnew
        · exact hsends _ rfl d hold
        · exact hsends₁ _ rfl d hnew

theorem Sent.onPaths {payload : Bytes} (h : Sent rt cid payload nowMs rt' res) (hrt : rt.Hosting)
    (hon : rt.OnPaths on) : rt'.OnPaths on ∧ SendsOn on res := by
  cases h with
  | skipped habsent =>
    refine ⟨hon, fun out hout d hd => ?_⟩
    rw [← Except.ok.inj hout] at hd
    cases hd
  | @visited s called _ _ hs hcall hdrive =>
    refine hdrive.called_onPaths (k := .send payload) rfl hcall (hrt _ s hs) ?_ (hon _ s hs)
    exact fun other s _ => hon other s

/-- After a datagram the session of its cid is on the path it came on, and all others are
where they were. -/
theorem Received.onPaths {bytes : Bytes} (h : Received rt nowMs src bytes rt' res)
    (hrt : rt.Hosting) {on' : UInt64 → UInt32 → Prop}
    (hother : ∀ cid, carries cid bytes = false → ∀ path, on cid path → on' cid path)
    (hown : ∀ cid, carries cid bytes → on' cid src) (hon : rt.OnPaths on) :
    rt'.OnPaths on' ∧ SendsOn on' res := by
  cases h with
  | undecodable hd =>
    refine ⟨fun cid s hs => hother cid (by simp [carries, hd]) _ (hon cid s hs),
      fun out hout d hmem => ?_⟩
    rw [← Except.ok.inj hout] at hmem
    cases hmem
  | @unloaded frame _ _ hd habsent _ _ _ hsessions =>
    refine ⟨fun cid s hs => ?_, fun out hout => by cases hout⟩
    rw [hsessions] at hs
    have hne : cid ≠ frame.cid := by
      rintro rfl
      simp [habsent] at hs
    exact hother cid (by simp [carries, hd, Ne.symm hne]) _ (hon cid s hs)
  | @visited frame s rt₁ _ res' hd henter hdrive =>
    have hcarries : carries frame.cid bytes := by simp [carries, hd]
    obtain ⟨hcurrent, hsent⟩ := onDatagram_path (ownFrame_of_cid hd (henter.named hrt)) nowMs src
    obtain ⟨hon', hsends⟩ : rt'.OnPaths on' ∧ SendsOn on' res' := hdrive.onPaths
      (fun other s hne hs => by
        rw [henter.others hne] at hs
        exact hother other (by simp [carries, hd, Ne.symm hne]) _ (hon other s hs))
      (onDatagram_allOf hd (henter.named hrt) nowMs src)
      (by
        rw [hcurrent]
        exact hown frame.cid hcarries)
      (fun d hd => by
        rw [hcurrent]
        unfold ServerRuntime.redirect
        split_ifs with hzero
        · rfl
        · exact hsent d hd)
    refine ⟨hon', fun out hout d hmem => ?_⟩
    cases res' with
    | error e => cases hout
    | ok out' =>
      rw [← Except.ok.inj hout] at hmem
      exact hsends out' rfl d hmem

/-- The call brings a datagram whose frame is of `cid`. -/
def Op.hears (cid : UInt64) : Op → Bool
  | .datagram _ _ bytes => carries cid bytes
  | .pollTimers _ _ | .sendMessage _ _ _ => false

/-- The path a datagram came on. -/
def Op.path : Op → Option UInt32
  | .datagram _ src _ => some src
  | .pollTimers _ _ | .sendMessage _ _ _ => none

/-- The last datagram of the cid came on the path. -/
def LastOn (h : ServerHistory σ) (cid : UInt64) (path : UInt32) : Prop :=
  LastHas (fun t => t.input.hears cid) (fun t => t.input.path = some path) h

theorem step_onPaths {h : ServerHistory σ} {op : Op} (hrt : rt.Hosting)
    (hon : rt.OnPaths (LastOn h)) (hstep : rt.step op = some (rt', res)) :
    rt'.OnPaths (LastOn (h ++ [⟨rt, op, res, rt'⟩])) ∧
      SendsOn (LastOn (h ++ [⟨rt, op, res, rt'⟩])) res := by
  have hunheard : (∀ cid, op.hears cid = false) →
      LastOn (h ++ [⟨rt, op, res, rt'⟩]) = LastOn h := by
    intro hnone
    funext cid path
    exact propext (lastHas_snoc_of_not (by simp [hnone]))
  cases op with
  | datagram nowMs src bytes =>
    refine (step_received hstep).onPaths hrt (fun cid hnot path hold => ?_) (fun cid hcid => ?_) hon
    · exact (lastHas_snoc_of_not (by simp [Op.hears, hnot])).mpr hold
    · have hheard : (Op.datagram nowMs src bytes).hears cid := hcid
      exact (lastHas_snoc_of (p := fun t : Taken (ServerRuntime σ) Op RuntimeResult =>
        t.input.hears cid) hheard).mpr rfl
  | pollTimers nowMs limit =>
    rw [hunheard fun _ => rfl]
    obtain ⟨rfl, rfl⟩ := step_polled hstep
    refine fireAll_onPaths _ hrt hon fun out hout d hd => ?_
    rw [← Except.ok.inj hout] at hd
    cases hd
  | sendMessage cid payload nowMs =>
    rw [hunheard fun _ => rfl]
    exact (sendMessage_sent hstep).onPaths hrt hon

/-- Whatever a runtime has come through, with any store: every datagram it returns, whether it
answers, polls or sends, is for the path on which the last datagram of its own cid came. -/
theorem answers_follow_client {cfg : CoreConfig} {store : σ} {before later : ServerHistory σ}
    {t : Taken (ServerRuntime σ) Op RuntimeResult}
    (hrun : Run ServerRuntime.step (ServerRuntime.new cfg store) (before ++ t :: later) rt)
    {out : ServerRuntimeOutput} (hout : t.output = .ok out) {d : OutboundDatagram}
    (hd : d ∈ out.outboundDatagrams) :
    ∃ frame, WireFrame.decode d.bytes = .ok frame ∧
      LastHas (fun u => u.input.hears frame.cid) (fun u => u.input.path = some d.pathId)
        (before ++ [t]) := by
  have hpaths : ∀ {h : ServerHistory σ} {rt : ServerRuntime σ},
      Run ServerRuntime.step (ServerRuntime.new cfg store) h rt → rt.OnPaths (LastOn h) := by
    intro h rt hrun
    induction hrun with
    | nil =>
      intro cid s hs
      simp [ServerRuntime.new] at hs
    | snoc hr hstep ih => exact (step_onPaths (hosting_of_run hr) ih hstep).1
  obtain ⟨hbefore, hstep⟩ := hrun.split
  exact (step_onPaths (hosting_of_run hbefore) (hpaths hbefore) hstep).2 out hout d hd

end Paths

/-- A client that moves: its second datagram comes on another path, and the poll after it is
for that path, though another client has been heard since. -/
def movingClient : List Op :=
  [.datagram 0 1 ((Packet.control .clientHello).bytes 7),
    .datagram 1 5 ((Packet.msr 0 0 none).bytes 7),
    .datagram 2 3 ((Packet.control .helloAck).bytes 8)]

theorem movingClient_followed :
    ∃ h rt t, exec ServerRuntime.step defaultServer movingClient = some (h, rt) ∧
      ∃ out, t.output = .ok out ∧ ∃ d ∈ out.outboundDatagrams, d.pathId = 5 ∧
      ∃ frame, WireFrame.decode d.bytes = .ok frame ∧
        LastHas (fun u => u.input.hears frame.cid) (fun u => u.input.path = some d.pathId)
          (h ++ [t]) := by
  have hsome : (exec ServerRuntime.step defaultServer movingClient).any fun x =>
      (x.2.pollTimers 15000 1).2.toOption.any fun out =>
        out.outboundDatagrams.any fun d => d.pathId = 5 := by
    decide +kernel
  obtain ⟨⟨h, rt⟩, hexec, hpoll⟩ := (Option.any_eq_true _ _).mp hsome
  cases hres : (rt.pollTimers 15000 1).2 with
  | error e => simp [hres, Except.toOption] at hpoll
  | ok out =>
    simp only [hres, Except.toOption, Option.any_some, List.any_eq_true, decide_eq_true_eq] at hpoll
    obtain ⟨d, hd, hpath⟩ := hpoll
    have hstep : rt.step (.pollTimers 15000 1) = some ((rt.pollTimers 15000 1).1, .ok out) := by
      rw [← hres]
      rfl
    have hrun := (Run.of_exec hexec).snoc hstep
    exact ⟨h, rt, _, hexec, out, rfl, d, hd, hpath, answers_follow_client hrun rfl hd⟩

end Todero.Server
