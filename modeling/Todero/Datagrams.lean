import Todero.Advertising
import Todero.IceChecklist
import Todero.Refusals

/-! Everything a machine sends, whatever it is given: frames of its own cid that the
smallest path MTU has room for, with no limit of the encoder ever met. -/
namespace Todero.Core
open Todero.Wire Transition

/-! ### The errors of a call -/

theorem readTimerTlvs_error {tlvs : List Tlv} {e : CoreError}
    (h : (readTimerTlvs tlvs).2 = some e) :
    e = .malformedTimerProposal ∨ e = .malformedTimerAck := by
  induction tlvs with
  | nil => simp [readTimerTlvs] at h
  | cons tlv tlvs ih =>
    rw [readTimerTlvs] at h
    cases ht : readTimerTlv tlv with
    | ok t =>
      simp only [ht] at h
      exact ih h
    | error err =>
      simp only [ht, Option.some.injEq] at h
      subst h
      unfold readTimerTlv at ht
      split_ifs at ht
      · split at ht <;> cases ht
        exact .inl rfl
      · split at ht <;> cases ht
        exact .inr rfl

theorem Refused.not_wire {m m' : CoreMachine} {frame : WireFrame} {e : CoreError}
    (h : Refused m frame e m') (w : WireError) : e ≠ .wire w := by
  cases h with
  | shortMsr | shortRange | malformed | fragment => simp
  | timerTlv _ _ hbad =>
    obtain rfl | rfl := readTimerTlvs_error hbad <;> simp

theorem validateTimerProposal_error {cfg : CoreConfig} {p : TimerProposal} {e : CoreError}
    (h : validateTimerProposal cfg p = .error e) : ∃ reason, e = .invalidTimerProposal reason := by
  unfold validateTimerProposal at h
  split_ifs at h <;> cases h <;> exact ⟨_, rfl⟩

/-- The body of a call that runs to its end from every state. -/
def Succeeds (body : CoreM Unit) : Prop := ∀ c, ∃ c', body c = .ok () c'

namespace Succeeds
variable {x y : CoreM Unit} {m : CoreMachine}

theorem done : Succeeds (pure ()) := fun c => ⟨c, rfl⟩

theorem seq (hx : Succeeds x) (hy : Succeeds y) : Succeeds (x >>= fun _ => y) := by
  intro c
  obtain ⟨c', hc⟩ := hx c
  obtain ⟨c'', hc'⟩ := hy c'
  exact ⟨c'', by simp only [bind_run, hc, hc']⟩

theorem read {f : CoreMachine → CoreM Unit} (hf : ∀ m, Succeeds (f m)) :
    Succeeds (getSelf >>= f) := by
  intro c
  obtain ⟨c', hc⟩ := hf c.self c
  exact ⟨c', by simp only [bind_run, getSelf_run, hc]⟩

theorem ite {p : Prop} [Decidable p] (hx : Succeeds x) (hy : Succeeds y) :
    Succeeds (if p then x else y) := by
  split_ifs
  · exact hx
  · exact hy

theorem modify (f : CoreMachine → CoreMachine) : Succeeds (modifySelf f) :=
  fun c => ⟨_, modifySelf_run f c⟩

theorem event (e : Event) : Succeeds (pushEvent e) := fun c => ⟨_, pushEvent_run e c⟩

theorem schedule (id : TimerId) (d : UInt64) : Succeeds (pushSchedule id d) :=
  fun c => ⟨_, pushSchedule_run id d c⟩

theorem msr (pathId : UInt32) (acked next : Nat) :
    Succeeds (pushFrame pathId .msr (encodeMsrPayload acked next) []) :=
  fun c => ⟨_, pushMsr_run pathId c acked next⟩

theorem control (pathId : UInt32) (t : MessageType) : Succeeds (pushFrame pathId t [] []) :=
  fun c => ⟨_, pushControl_run pathId c t⟩

theorem not_error (h : Succeeds x) (e : CoreError) : (m.call x).2 ≠ .error e := by
  obtain ⟨c, hc⟩ := h ⟨m, {}⟩
  rw [CoreMachine.call, hc]
  simp

end Succeeds

theorem onTimer_not_error (m : CoreMachine) (nowMs : UInt64) (id : TimerId) (e : CoreError) :
    (onTimer m nowMs id).2 ≠ .error e := by
  refine Succeeds.not_error ?_ e
  cases id with
  | serverMsr =>
    refine .ite (.seq (.modify _) (.read fun m => .ite ?_ ?_)) .done
    · exact .seq (.modify _) (.event _)
    · exact .seq (.msr _ _ _) (.seq (.modify _) (.seq (.schedule _ _) (.schedule _ _)))
  | clientProbe =>
    refine .ite (.read fun m => ?_) .done
    exact .ite (.seq (.modify _) (.seq (.msr _ _ _) (.seq (.event _) (.schedule _ _))))
      (.schedule _ _)
  | disconnect =>
    dsimp only
    split
    · exact .done
    · exact .ite (.seq (.modify _) (.event _)) (.schedule _ _)
  | renegotiationTimeout =>
    dsimp only
    split
    · exact .done
    · exact .ite (.seq (.modify _) (.event _)) .done

theorem beginHandshake_not_error (m : CoreMachine) (nowMs : UInt64) (e : CoreError) :
    (beginHandshake m nowMs).2 ≠ .error e :=
  Succeeds.not_error (.ite (.seq (.control _ _) (.event _)) .done) e

theorem onApiClose_not_error (m : CoreMachine) (e : CoreError) : (onApiClose m).2 ≠ .error e :=
  Succeeds.not_error (.ite .done (.seq (.control _ _) (.seq (.modify _) (.event _)))) e

theorem onApiSend_not_error {m m' : CoreMachine} {payload : Bytes} {res : CallResult}
    (h : onApiSend m payload = some (m', res)) (e : CoreError) : res ≠ .error e := by
  unfold onApiSend at h
  split_ifs at h
  obtain ⟨-, rfl⟩ := Prod.mk.inj (Option.some.inj h)
  refine Succeeds.not_error (.seq (.modify _) (.read fun m => .ite ?_ .done)) e
  cases m.role with
  | client => exact .seq (.msr _ _ _) (.event _)
  | server => exact .msr _ _ _

/-- The only call that can fail is a proposal. -/
theorem apply_error {m m' : CoreMachine} {k : Call} {e : CoreError}
    (h : m.apply k = some (m', .error e)) :
    e = .invalidStateForRenegotiation ∨ ∃ reason, e = .invalidTimerProposal reason := by
  cases k with
  | beginHandshake nowMs =>
    exact absurd (congrArg Prod.snd (Option.some.inj h)) (beginHandshake_not_error m nowMs e)
  | timer nowMs id =>
    exact absurd (congrArg Prod.snd (Option.some.inj h)) (onTimer_not_error m nowMs id e)
  | send payload => exact absurd rfl (onApiSend_not_error h e)
  | close => exact absurd (congrArg Prod.snd (Option.some.inj h)) (onApiClose_not_error m e)
  | pathChanged pathId => cases Prod.mk.inj (Option.some.inj h) with | intro _ herr => cases herr
  | proposeTimers nowMs p =>
    have herr : (onApiProposeTimers m nowMs p).2 = .error e :=
      congrArg Prod.snd (Option.some.inj h)
    by_cases hest : m.state = .established
    · cases hv : validateTimerProposal m.cfg p with
      | ok u =>
        refine absurd herr ?_
        simp only [onApiProposeTimers, CoreMachine.call, hest, ne_eq, not_true_eq_false, if_false,
          hv, bind_run, modifySelf_run, pushProposal_run, pushEvent_run, pushSchedule_run,
          reduceCtorEq, not_false_eq_true]
      | error e' =>
        simp only [onApiProposeTimers, CoreMachine.call, hest, ne_eq, not_true_eq_false, if_false,
          hv, throw_run, Except.error.injEq] at herr
        subst herr
        exact .inr (validateTimerProposal_error hv)
    · simp only [onApiProposeTimers, CoreMachine.call, hest, ne_eq, not_false_eq_true, if_true,
        bind_run, throw_run, Except.error.injEq] at herr
      exact .inl herr.symm

theorem step_not_wire {m m' : CoreMachine} {op : Op} {res : CallResult}
    (hs : m.step op = some (m', res)) (w : WireError) : res ≠ .error (.wire w) := by
  intro hres
  subst hres
  cases op with
  | call k =>
    obtain h | ⟨reason, h⟩ := apply_error hs <;> cases h
  | datagram nowMs src bytes =>
    have herr : (onDatagram m nowMs src bytes).2 = .error (.wire w) :=
      congrArg Prod.snd (Option.some.inj hs)
    obtain ⟨-, -, frame, hcid⟩ | ⟨frame, -, hrefused⟩ := onDatagram_refused herr
    · cases hcid
    · exact hrefused.not_wire w rfl

/-! ### What is sent -/

/-- The datagram is a frame of the given cid and fits into every path MTU. -/
structure OutboundDatagram.WellFormed (cid : UInt64) (d : OutboundDatagram) : Prop where
  frame : ∃ frame, WireFrame.decode d.bytes = .ok frame ∧ frame.cid = cid
  size : ∀ typ, d.bytes.length ≤ Ice.relayPathMtu typ

theorem WireFrame.bytes_length (frame : WireFrame) :
    frame.bytes.length = headerLen + frame.payload.length + (tlvBlock frame.tlvs).length := by
  simp only [WireFrame.bytes_eq, List.length_cons, List.length_append, BigEndian.write_length,
    headerLen]
  omega

/-- The header, 1000 bytes of payload and one TLV of 28 bytes. -/
theorem Packet.bytes_length_le {p : Packet} (h : p.Small) (cid : UInt64) :
    (p.bytes cid).length ≤ 1046 := by
  have hp : p.payload.length ≤ 1000 := h
  have htlvs : (tlvBlock p.tlvs).length ≤ 31 := by
    obtain hnil | ⟨tlv, hone, hlen⟩ := p.tlvs_eq
    · simp [hnil, tlvBlock]
    · simp only [hone, tlvBlock_cons, tlvBlock_nil, List.length_cons, List.length_append,
        BigEndian.write_length, List.length_nil]
      omega
  have hsum : (p.bytes cid).length = headerLen + p.payload.length + (tlvBlock p.tlvs).length :=
    WireFrame.bytes_length (p.frame cid)
  rw [hsum, headerLen]
  omega

theorem Packet.wellFormed {p : Packet} (h : p.Small) {cid : UInt64} {d : OutboundDatagram}
    (hd : d.bytes = p.bytes cid) : d.WellFormed cid where
  frame := ⟨p.frame cid, by rw [hd, Packet.decode_bytes h], rfl⟩
  size := by
    intro typ
    have hle := Packet.bytes_length_le h cid
    rw [hd]
    cases typ <;> simp only [Ice.relayPathMtu] <;> omega

/-- What an operation puts out are small packets of the machine's cid. -/
theorem step_said {m m' : CoreMachine} {op : Op} {res : CallResult}
    (hs : m.step op = some (m', res)) :
    ∃ ps : List Packet, (∀ p ∈ ps, p.Small) ∧
      res.output.outboundDatagrams.map OutboundDatagram.bytes = ps.map (Packet.bytes m.cid) := by
  cases op with
  | call k =>
    refine ⟨m.utters k, utters_small m k, ?_⟩
    rw [(apply_answers m hs).datagrams, List.map_map]
    rfl
  | datagram nowMs src bytes =>
    have heq : onDatagram m nowMs src bytes = (m', res) := Option.some.inj hs
    obtain ⟨ps, hps, hsaid⟩ := datagram_advertises m nowMs src bytes
    rw [heq] at hsaid
    exact ⟨ps, fun p hp => (hps p hp).1, hsaid⟩

/-- No operation runs into a limit of the encoder, and all it sends is well formed. -/
theorem emitted_well_formed {m m' : CoreMachine} {op : Op} {res : CallResult}
    (hs : m.step op = some (m', res)) :
    (∀ w, res ≠ .error (.wire w)) ∧
      ∀ d ∈ res.output.outboundDatagrams, d.WellFormed m.cid := by
  refine ⟨step_not_wire hs, fun d hd => ?_⟩
  obtain ⟨ps, hps, hsaid⟩ := step_said hs
  have hmem : d.bytes ∈ ps.map (Packet.bytes m.cid) := hsaid ▸ List.mem_map_of_mem hd
  obtain ⟨p, hp, hbytes⟩ := List.mem_map.mp hmem
  exact Packet.wellFormed (hps p hp) hbytes.symm

/-- A server that is asked for a message of 2000 bytes. -/
theorem longMessage_well_formed :
    ∃ h m m' res, exec CoreMachine.step (CoreMachine.new .server 7 .default)
        (greeted ++ [.call (.send (List.replicate 2000 0))]) = some (h, m) ∧
      m.step (.datagram 2 0 (firstRequest.bytes 7)) = some (m', res) ∧
      (∀ w, res ≠ .error (.wire w)) ∧
        ∀ d ∈ res.output.outboundDatagrams, d.WellFormed m.cid := by
  have hsome : (exec CoreMachine.step (CoreMachine.new .server 7 .default)
      (greeted ++ [.call (.send (List.replicate 2000 0))])).isSome := by decide +kernel
  obtain ⟨⟨h, m⟩, hexec⟩ := Option.isSome_iff_exists.mp hsome
  have hs : m.step (.datagram 2 0 (firstRequest.bytes 7)) =
      some (onDatagram m 2 0 (firstRequest.bytes 7)) := rfl
  exact ⟨h, m, _, _, hexec, hs, emitted_well_formed hs⟩

end Todero.Core
