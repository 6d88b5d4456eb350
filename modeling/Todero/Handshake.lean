import Todero.Settling

/-! Whether a handshake of which packets were lost is completed by another
`begin_handshake` of the client. -/
namespace Todero.Core
open Todero.Wire Transition Duplex

section Packets
variable {m : CoreMachine} {p : Packet}

/-- A `ServerHello` is only ever sent from `PreHandshake`. -/
theorem serverHello_mem_replies (h : .control .serverHello ∈ m.replies p) :
    m.state = .preHandshake := by
  obtain ⟨-, hans | ⟨next, source, -, hsig⟩⟩ := mem_replies h
  · cases answer_of_mem hans with
    | serverHello _ hpre => exact hpre
  · rcases mem_signalPackets.mp hsig with ⟨-, -, heq⟩ | ⟨-, heq⟩ <;> cases heq

/-- Before the handshake only a hello moves a machine, and a close. -/
theorem stateOn_preHandshake (h : m.state = .preHandshake) (hclose : p ≠ .control .close)
    (herror : p ≠ .control .error) :
    m.stateOn p = .preHandshake ∨
      m.stateOn p = .established ∧ match m.role with
        | .client => p = .control .serverHello
        | .server => p = .control .clientHello ∨ p = .control .helloAck := by
  have hwoken : m.wokenState = .preHandshake := by simp [CoreMachine.wokenState, h]
  cases p with
  | control t =>
    cases hrole : m.role <;> cases t <;> simp [CoreMachine.stateOn, h, hrole] at hclose herror ⊢
  | msr | requestRange | data | fragment => exact .inl hwoken

theorem stateOn_established (h : m.state = .established) (hclose : p ≠ .control .close)
    (herror : p ≠ .control .error) : m.stateOn p = .established := by
  cases p with
  | control t => cases t <;> simp [CoreMachine.stateOn, h] at hclose herror ⊢
  | msr | requestRange | data | fragment => exact wokenState_of_established m h

end Packets

section Honest
variable {cid : UInt64} {fits : Bytes → Prop} {w w' : Talk} {r : Role} {p : Packet}

/-- A machine that is not lost closes nothing. -/
theorem Talk.Delivered.not_closing (hd : w.Delivered w' r p) (hw : w.Paired cid fits)
    (hpeer : (w.core r.peer).state ≠ .lost) : p ≠ .control .close ∧ p ≠ .control .error := by
  have hhonest := (hw.honest.flight r p hd.mem).2
  constructor <;> rintro rfl
  · exact hpeer hhonest
  · exact hhonest

theorem Talk.Delivered.state (hd : w.Delivered w' r p) :
    (w'.core r).state = (w.core r).stateOn p := hd.hears.choose_spec.state

end Honest

/-- A handshake that is going to be completed. -/
structure Talk.Shaking (w : Talk) : Prop where
  client : (w.core .client).state = .preHandshake ∨ (w.core .client).state = .established
  server : (w.core .server).state = .preHandshake ∨ (w.core .server).state = .established
  due : (w.core .client).state = .preHandshake →
    (w.core .server).state = .preHandshake ∧ .control .clientHello ∈ w.inbox .server ∨
      .control .serverHello ∈ w.inbox .client
  both : (w.core .client).state = .established → (w.core .server).state = .established

theorem Talk.Shaking.delivered {cid : UInt64} {fits : Bytes → Prop} {w w' : Talk} {r : Role}
    {p : Packet} (hs : w.Shaking) (hw : w.Paired cid fits) (hd : w.Delivered w' r p) :
    w'.Shaking := by
  have hhonest := (hw.honest.flight r p hd.mem).2
  have hopen : ∀ r, (w.core r).state ≠ .lost := by
    intro r
    cases r with
    | client => rcases hs.client with h | h <;> simp [h]
    | server => rcases hs.server with h | h <;> simp [h]
  obtain ⟨hclose, herror⟩ := hd.not_closing hw (hopen r.peer)
  have hstate := hd.state
  cases r with
  | client =>
    have hserver : w'.core .server = w.core .server := hd.other
    rcases hs.client with hpre | hest
    · rcases stateOn_preHandshake hpre hclose herror with hsame | ⟨hnew, hcause⟩
      · rw [hsame] at hstate
        refine ⟨.inl hstate, hserver ▸ hs.server, fun _ => ?_, by simp [hstate]⟩
        rcases hs.due hpre with ⟨hidle, hhello⟩ | hhello
        · exact .inl ⟨hserver ▸ hidle, hd.kept .server _ hhello (by simp)⟩
        · refine .inr (hd.kept .client _ hhello fun _ heq => ?_)
          subst heq
          simp [CoreMachine.stateOn, hpre, hw.role] at hsame
      · rw [hw.role] at hcause
        have hcause : p = .control .serverHello := hcause
        subst hcause
        rw [hnew] at hstate
        refine ⟨.inr hstate, hserver ▸ hs.server, by simp [hstate], fun _ => ?_⟩
        rw [hserver]
        exact hs.server.resolve_left hhonest.2
    · rw [stateOn_established hest hclose herror] at hstate
      exact ⟨.inr hstate, hserver ▸ hs.server, by simp [hstate], fun _ => hserver ▸ hs.both hest⟩
  | server =>
    have hclient : w'.core .client = w.core .client := hd.other
    rcases hs.server with hpre | hest
    · have hwaiting : (w.core .client).state = .preHandshake :=
        hs.client.resolve_right fun h => by simp [hs.both h] at hpre
      have hfresh : (w'.core .client).state = .preHandshake := hclient ▸ hwaiting
      rcases stateOn_preHandshake hpre hclose herror with hsame | ⟨hnew, hcause⟩
      · rw [hsame] at hstate
        refine ⟨.inl hfresh, .inl hstate, fun _ => ?_, by simp [hfresh]⟩
        rcases hs.due hwaiting with ⟨-, hhello⟩ | hhello
        · refine .inl ⟨hstate, hd.kept .server _ hhello fun _ heq => ?_⟩
          subst heq
          simp [CoreMachine.stateOn, hpre, hw.role] at hsame
        · exact .inr (hd.kept .client _ hhello (by simp))
      · rw [hw.role] at hcause
        rw [hnew] at hstate
        refine ⟨.inl hfresh, .inr hstate, fun _ => ?_, by simp [hfresh]⟩
        rcases hcause with rfl | rfl
        · refine .inr (hd.sent _ ?_)
          rw [replies_control]
          simp [CoreMachine.answers, hpre, hw.role]
        · exact absurd hwaiting hhonest.2
    · rw [stateOn_established hest hclose herror] at hstate
      refine ⟨hclient ▸ hs.client, .inr hstate, fun h => ?_, fun _ => hstate⟩
      rcases hs.due (hclient ▸ h) with ⟨hidle, -⟩ | hhello
      · simp [hidle] at hest
      · exact .inr (hd.kept .client _ hhello (by simp))

/-- A handshake that the server regards as done and the client has no answer to. -/
structure Talk.HalfOpen (w : Talk) : Prop where
  client : (w.core .client).state = .preHandshake
  server : (w.core .server).state = .established
  silent : .control .serverHello ∉ w.inbox .client

theorem Talk.HalfOpen.delivered {cid : UInt64} {fits : Bytes → Prop} {w w' : Talk} {r : Role}
    {p : Packet} (hh : w.HalfOpen) (hw : w.Paired cid fits) (hd : w.Delivered w' r p) :
    w'.HalfOpen := by
  have hopen : ∀ r, (w.core r).state ≠ .lost := by
    intro r
    cases r <;> simp [hh.client, hh.server]
  obtain ⟨hclose, herror⟩ := hd.not_closing hw (hopen r.peer)
  have hstate := hd.state
  have hsilent : .control .serverHello ∉ w'.inbox .client := by
    intro hmem
    rcases hd.inbox .client _ hmem with hold | ⟨hr, hnew⟩
    · exact hh.silent hold
    · have hserver : r = .server := by cases r <;> simp [Role.peer] at hr ⊢
      subst hserver
      have hpre := serverHello_mem_replies hnew
      simp [hh.server] at hpre
  cases r with
  | client =>
    refine ⟨?_, hd.other ▸ hh.server, hsilent⟩
    rcases stateOn_preHandshake hh.client hclose herror with hsame | ⟨-, hcause⟩
    · rw [hstate, hsame]
    · rw [hw.role] at hcause
      have hcause : p = .control .serverHello := hcause
      exact absurd (hcause ▸ hd.mem) hh.silent
  | server =>
    refine ⟨hd.other ▸ hh.client, ?_, hsilent⟩
    rw [hstate, stateOn_established hh.server hclose herror]

section Begin
variable {cid : UInt64} {fits : Bytes → Prop} {w w' : Talk} {nowMs : UInt64}
  {o : Option CallResult}

theorem Talk.Paired.begins (hw : w.Paired cid fits)
    (hs : w.step (.call .client (.beginHandshake nowMs)) = some (w', o)) : w'.Paired cid fits :=
  hw.step (a := .call .client (.beginHandshake nowMs)) (fun _ _ => nofun) hs

/-- `begin_handshake` sends a `ClientHello` and changes nothing. -/
theorem Talk.Paired.begin_step (hw : w.Paired cid fits)
    (hs : w.step (.call .client (.beginHandshake nowMs)) = some (w', o)) :
    w'.core = w.core ∧ ∀ r p, p ∈ w'.inbox r ↔
      p ∈ w.inbox r ∨ r = .server ∧ p = .control .clientHello := by
  obtain ⟨hclient, hserver, hinbox⟩ := Talk.step_call hs
  refine ⟨funext fun r => ?_, fun r p => ?_⟩
  · cases r with
    | client => exact hclient
    | server => exact hserver
  · rw [hinbox]
    simp [CoreMachine.utters, hw.role, Role.peer]

theorem Talk.Paired.recovers (hw : w.Paired cid fits)
    (hclient : (w.core .client).state = .preHandshake) (hserver : (w.core .server).state ≠ .lost)
    (hs : w.step (.call .client (.beginHandshake nowMs)) = some (w', o))
    (hcause : (w.core .server).state = .preHandshake ∨ .control .serverHello ∈ w.inbox .client) :
    Settles Talk.Delivers (fun v => ∀ r, (v.core r).state = .established) w' := by
  obtain ⟨hcore, hinbox⟩ := hw.begin_step hs
  have hserver' : (w.core .server).state = .preHandshake ∨ (w.core .server).state = .established := by
    have hawake := hw.awake
    cases h : (w.core .server).state <;> simp_all
  have hshaking : w'.Shaking := by
    refine ⟨.inl (hcore ▸ hclient), hcore ▸ hserver', fun _ => ?_, by simp [hcore, hclient]⟩
    rw [hcore, hinbox, hinbox]
    exact hcause.imp (fun h => ⟨h, .inr ⟨rfl, rfl⟩⟩) .inl
  refine (hw.begins hs).settles hshaking ?_ ?_
  · intro v v' hv hsh hdel
    obtain ⟨r, p, hd⟩ := hv.honest.clean.delivered hdel
    exact hsh.delivered hv hd
  · intro v _ hsh hquiet
    have hest : (v.core .client).state = .established := by
      refine hsh.client.resolve_left fun hpre => ?_
      rcases hsh.due hpre with ⟨-, hmem⟩ | hmem <;> simp [hquiet _] at hmem
    intro r
    cases r with
    | client => exact hest
    | server => exact hsh.both hest

theorem Talk.Paired.stuck (hw : w.Paired cid fits)
    (hclient : (w.core .client).state = .preHandshake)
    (hserver : (w.core .server).state = .established)
    (hs : w.step (.call .client (.beginHandshake nowMs)) = some (w', o))
    (hsilent : .control .serverHello ∉ w.inbox .client) :
    ¬ Settles Talk.Delivers (fun v => ∀ r, (v.core r).state = .established) w' := by
  obtain ⟨hcore, hinbox⟩ := hw.begin_step hs
  have hhalf : w'.HalfOpen := by
    refine ⟨hcore ▸ hclient, hcore ▸ hserver, fun hmem => ?_⟩
    rcases (hinbox _ _).mp hmem with hold | ⟨hr, -⟩
    · exact hsilent hold
    · cases hr
  refine not_settles (I := fun v => Talk.Paired cid fits v ∧ v.HalfOpen)
    ⟨hw.begins hs, hhalf⟩ ?_ ?_
  · rintro v v' ⟨hv, hh⟩ hdel
    obtain ⟨r, p, hd⟩ := hv.honest.clean.delivered hdel
    exact ⟨hv.delivers hdel, hh.delivered hv hd⟩
  · rintro v ⟨-, hh⟩ - hall
    have hpre := hh.client
    simp [hall] at hpre

end Begin

/-- No other packet has the bytes of a `ServerHello`. -/
theorem eq_serverHello {cid : UInt64} {p : Packet} (hp : p.Small)
    (h : p.bytes cid = (Packet.control .serverHello).bytes cid) : p = .control .serverHello := by
  have hsmall : (Packet.control .serverHello).Small := Nat.zero_le _
  have hdec := Packet.decode_bytes hp cid
  rw [h, Packet.decode_bytes hsmall cid, Except.ok.injEq] at hdec
  have htype : MessageType.serverHello = p.messageType := congrArg WireFrame.messageType hdec
  cases p with
  | control t => exact congrArg Packet.control htype.symm
  | msr | requestRange | data | fragment => cases htype

theorem Talk.Clean.serverHello_mem {cid : UInt64} {w : Talk} (hw : w.Clean cid) :
    (Packet.control .serverHello).bytes cid ∈ (w.toWorld cid).inbox .client ↔
      .control .serverHello ∈ w.inbox .client := by
  constructor
  · intro h
    obtain ⟨p, hp, heq⟩ := List.mem_map.mp h
    exact eq_serverHello (hw.flight .client p hp) heq ▸ hp
  · exact fun h => List.mem_map.mpr ⟨_, h, rfl⟩

/-- Another `begin_handshake` completes a handshake whose packets were lost exactly when
the server has not answered yet, or its answer is still on the way. -/
theorem handshake_recovers_iff {cid : UInt64} {cfg : Role → CoreConfig} {h : WorldHistory}
    {w : World} (hrun : Run World.step (World.start cid cfg) h w)
    (hclient : (w.core .client).state = .preHandshake) (hserver : (w.core .server).state ≠ .lost)
    {nowMs : UInt64} {w' : World} {o : Option CallResult}
    (hbegin : w.step (.call .client (.beginHandshake nowMs)) = some (w', o)) :
    Settles World.Delivers (fun v => ∀ r, (v.core r).state = .established) w' ↔
      (w.core .server).state = .preHandshake ∨
        (Packet.control .serverHello).bytes cid ∈ w.inbox .client := by
  obtain ⟨v, hv, rfl⟩ := World.paired_of_run (F := fun _ => True) hrun
    fun _ _ _ _ _ => trivial
  obtain ⟨v', hs, rfl⟩ := World.step_of_talk hv hbegin
  have hv' := hv.begins hs
  rw [World.settles_iff hv'.honest.clean (P := fun v => ∀ r, (v.core r).state = .established)
    fun _ => Iff.rfl, hv.honest.clean.serverHello_mem]
  refine ⟨fun hsettles => ?_, hv.recovers hclient hserver hs⟩
  by_contra hnot
  rw [not_or] at hnot
  have hest : (v.core .server).state = .established := by
    have hawake := hv.awake
    have hpre : (v.core .server).state ≠ .preHandshake := hnot.1
    have hlost : (v.core .server).state ≠ .lost := hserver
    cases h : (v.core .server).state <;> simp_all
  exact hv.stuck hclient hest hs hnot.2 hsettles

/-- The client's `ClientHello` is lost on the way. -/
def lostClientHello : List Move := [.call .client (.beginHandshake 0), .drop .server 0]

/-- The server's answer is lost on the way. -/
def lostServerHello : List Move :=
  [.call .client (.beginHandshake 0), .deliver .server 0 ⟨1, 0⟩, .drop .client 0]

theorem lostClientHello_recovers :
    ∃ h w w' o, exec World.step (World.start 7 fun _ => .default) lostClientHello = some (h, w) ∧
      w.step (.call .client (.beginHandshake 10)) = some (w', o) ∧
      (Settles World.Delivers (fun v => ∀ r, (v.core r).state = .established) w' ↔
        (w.core .server).state = .preHandshake ∨
          (Packet.control .serverHello).bytes 7 ∈ w.inbox .client) := by
  have hexec : (exec World.step (World.start 7 fun _ => .default) lostClientHello).map
      (fun x => ((x.2.core .client).state, (x.2.core .server).state,
        (x.2.step (.call .client (.beginHandshake 10))).isSome)) =
      some (.preHandshake, .preHandshake, true) := by decide +kernel
  obtain ⟨⟨h, w⟩, hexec, hx⟩ := Option.map_eq_some_iff.mp hexec
  simp only [Prod.mk.injEq] at hx
  obtain ⟨hclient, hserver, hstep⟩ := hx
  obtain ⟨⟨w', o⟩, hbegin⟩ := Option.isSome_iff_exists.mp hstep
  exact ⟨h, w, w', o, hexec, hbegin, handshake_recovers_iff (Run.of_exec hexec) hclient
    (by simp [hserver]) hbegin⟩

theorem lostServerHello_not_recovered :
    ¬ ∀ (cid : UInt64) (cfg : Role → CoreConfig) (h : WorldHistory) (w : World),
      Run World.step (World.start cid cfg) h w → (w.core .client).state = .preHandshake →
        (w.core .server).state ≠ .lost → ∀ (nowMs : UInt64) (w' : World) (o : Option CallResult),
          w.step (.call .client (.beginHandshake nowMs)) = some (w', o) →
            Settles World.Delivers (fun v => ∀ r, (v.core r).state = .established) w' := by
  intro hclaim
  have hexec : (exec World.step (World.start 7 fun _ => .default) lostServerHello).map
      (fun x => ((x.2.core .client).state, (x.2.core .server).state, x.2.inbox .client,
        (x.2.step (.call .client (.beginHandshake 10))).isSome)) =
      some (.preHandshake, .established, [], true) := by decide +kernel
  obtain ⟨⟨h, w⟩, hexec, hx⟩ := Option.map_eq_some_iff.mp hexec
  simp only [Prod.mk.injEq] at hx
  obtain ⟨hclient, hserver, hinbox, hstep⟩ := hx
  obtain ⟨⟨w', o⟩, hbegin⟩ := Option.isSome_iff_exists.mp hstep
  have hrun := Run.of_exec hexec
  have hsettles := hclaim 7 _ h w hrun hclient (by simp [hserver]) 10 w' o hbegin
  obtain ⟨v, hv, rfl⟩ := World.paired_of_run (F := fun _ => True) hrun
    fun _ _ _ _ _ => trivial
  obtain ⟨v', hs, rfl⟩ := World.step_of_talk hv hbegin
  rw [World.settles_iff (hv.begins hs).honest.clean
    (P := fun v => ∀ r, (v.core r).state = .established) fun _ => Iff.rfl] at hsettles
  refine hv.stuck hclient hserver hs ?_ hsettles
  rw [← hv.honest.clean.serverHello_mem, hinbox]
  exact List.not_mem_nil

end Todero.Core
