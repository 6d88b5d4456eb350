import Todero.Paths

/-! A server that hears nothing more from a client: it repeats itself a bounded number of
times and then gives the session up, however often it is polled, whatever it is asked to send
meanwhile and whatever other clients do. -/
namespace Todero.Core

/-- The keepalives that a server still sends into silence. -/
def CoreMachine.allowance (m : CoreMachine) : Nat :=
  serverMaxConsecutiveServerMsrWithoutClientMsr - m.serverConsecutiveMsrWithoutClientMsr

/-- The timer of the keepalives, where it counts. -/
def CoreMachine.tickedBy (m : CoreMachine) (id : TimerId) : Bool :=
  id = .serverMsr ∧ m.state = .established

/-- A timer that is no tick sends nothing and does not touch the allowance. -/
theorem timer_unticked {m : CoreMachine} (hrole : m.role = .server) {id : TimerId}
    (htick : m.tickedBy id = false) (nowMs : UInt64) :
    m.utters (.timer nowMs id) = [] ∧ (m.next (.timer nowMs id)).allowance = m.allowance := by
  cases id with
  | serverMsr =>
    have hup : m.state ≠ .established := fun hup => by simp [CoreMachine.tickedBy, hup] at htick
    exact ⟨by simp [CoreMachine.utters, hup], by simp [CoreMachine.next, hup]⟩
  | clientProbe =>
    exact ⟨by simp [CoreMachine.utters, hrole], by simp [CoreMachine.next, hrole]⟩
  | disconnect =>
    refine ⟨rfl, ?_⟩
    rw [CoreMachine.next]
    split_ifs <;> rfl
  | renegotiationTimeout =>
    refine ⟨rfl, ?_⟩
    rw [CoreMachine.next]
    split_ifs <;> rfl

/-- A tick sends one keepalive and takes one off the allowance, or ends the session. -/
theorem timer_ticked {m : CoreMachine} (hrole : m.role = .server) (hup : m.state = .established)
    (nowMs : UInt64) :
    m.utters (.timer nowMs .serverMsr) = [] ∧ (m.next (.timer nowMs .serverMsr)).state = .lost ∧
        (m.next (.timer nowMs .serverMsr)).allowance = 0 ∨
      (m.utters (.timer nowMs .serverMsr)).length = 1 ∧
        (m.next (.timer nowMs .serverMsr)).allowance + 1 = m.allowance := by
  have hnext : m.next (.timer nowMs .serverMsr) = m.onServerMsrTimer nowMs :=
    if_pos ⟨hrole, hup⟩
  rw [hnext]
  by_cases hu : m.unanswered
  · have hafter : m.onServerMsrTimer nowMs =
        { m with
          serverConsecutiveMsrWithoutClientMsr :=
            saturatingAdd32 m.serverConsecutiveMsrWithoutClientMsr 1
          state := .lost } := if_pos hu
    rw [hafter]
    refine .inl ⟨by simp [CoreMachine.utters, hu], rfl, ?_⟩
    exact Nat.sub_eq_zero_of_le hu.le
  · have hcount : (m.onServerMsrTimer nowMs).serverConsecutiveMsrWithoutClientMsr =
        saturatingAdd32 m.serverConsecutiveMsrWithoutClientMsr 1 := by
      rw [CoreMachine.onServerMsrTimer, if_neg hu]
    refine .inr ⟨by simp [CoreMachine.utters, hrole, hup, hu], ?_⟩
    rw [CoreMachine.unanswered, saturatingAdd32, u32Max,
      serverMaxConsecutiveServerMsrWithoutClientMsr] at hu
    rw [saturatingAdd32, u32Max] at hcount
    rw [CoreMachine.allowance, CoreMachine.allowance, hcount,
      serverMaxConsecutiveServerMsrWithoutClientMsr]
    omega

/-- What a timer of a server sends is taken off the allowance, and a tick that sends nothing
ends the session. -/
theorem timer_spends {m m' : CoreMachine} {nowMs : UInt64} {id : TimerId} {res : CallResult}
    (hrole : m.role = .server) (h : m.apply (.timer nowMs id) = some (m', res)) :
    res.output.outboundDatagrams.length + m'.allowance ≤ m.allowance ∧
      (m.tickedBy id → m'.state = .lost ∨ m'.allowance + 1 = m.allowance) := by
  obtain ⟨hnext, hdatagrams, -⟩ := apply_answers m h
  rw [hdatagrams, List.length_map, hnext]
  cases htick : m.tickedBy id with
  | false =>
    obtain ⟨hsilent, hsame⟩ := timer_unticked hrole htick nowMs
    rw [hsilent, hsame]
    exact ⟨by simp, fun h => by cases h⟩
  | true =>
    obtain ⟨rfl, hup⟩ : id = .serverMsr ∧ m.state = .established := by
      simpa [CoreMachine.tickedBy] using htick
    obtain ⟨hsilent, hlost, hzero⟩ | ⟨hone, hless⟩ := timer_ticked hrole hup nowMs
    · rw [hsilent, hzero]
      exact ⟨by simp, fun _ => .inl hlost⟩
    · rw [hone]
      exact ⟨by omega, fun _ => .inr hless⟩

end Todero.Core

namespace Todero.Server
open Todero.Wire Todero.Core Todero.Store Transition

section Silence
variable {σ : Type} [SessionStore σ] [Base64] {rt rt' : ServerRuntime σ} {cid : UInt64}
  {nowMs : UInt64} {res : RuntimeResult}

/-- The keepalives that the session of `cid` still sends into silence. -/
def ServerRuntime.allowance (rt : ServerRuntime σ) (cid : UInt64) : Nat :=
  rt.sessions[cid]?.elim 0 fun s => s.core.allowance

/-- The ticks that the session of `cid` still lives through, with the one that ends it. -/
def ServerRuntime.patience (rt : ServerRuntime σ) (cid : UInt64) : Nat :=
  rt.sessions[cid]?.elim 0 fun s => s.core.allowance + 1

/-- An entry that is a tick of the session of `cid`. -/
def ticks (cid : UInt64) (x : ServerRuntime σ × DueTimer) : Bool :=
  x.2.cid = cid ∧ (x.1.sessions[cid]?.any fun s => s.core.tickedBy x.2.timerId)

/-- What an entry of a poll spends. -/
structure Spends (cid : UInt64) (rt : ServerRuntime σ) (said ticked : Nat)
    (rt' : ServerRuntime σ) : Prop where
  said : said + rt'.allowance cid ≤ rt.allowance cid
  ticked : ticked + rt'.patience cid ≤ rt.patience cid

omit [SessionStore σ] [Base64] in
theorem Spends.of_same (h : rt'.sessions[cid]? = rt.sessions[cid]?) : Spends cid rt 0 0 rt' := by
  refine ⟨?_, ?_⟩
  · rw [ServerRuntime.allowance, h, Nat.zero_add]
    rfl
  · rw [ServerRuntime.patience, h, Nat.zero_add]
    rfl

theorem Fired.spends {due : DueTimer} (h : Fired rt nowMs due rt' res) (hrt : rt.Hosting)
    (cid : UInt64) :
    Spends cid rt (datagramsOf cid res).length (if ticks cid (rt, due) then 1 else 0) rt' := by
  cases h with
  | skipped habsent =>
    have htick : ticks cid (rt, due) = false := by
      by_cases hcid : due.cid = cid
      · subst hcid
        simp [ticks, habsent]
      · simp [ticks, hcid]
    rw [htick]
    exact .of_same rfl
  | @visited s _ _ hs hdrive =>
    obtain ⟨called, hcalled⟩ : ∃ called, onTimer s.core nowMs due.timerId = called := ⟨_, rfl⟩
    have hcall : s.core.apply (.timer nowMs due.timerId) = some called := congrArg some hcalled
    have hok : called.2.isOk := by
      cases hres : called.2 with
      | error e =>
        rw [← hcalled] at hres
        exact absurd hres (onTimer_not_error s.core nowMs due.timerId e)
      | ok out => rfl
    rw [hcalled] at hdrive
    have hall : AllOf due.cid called.2.output.outboundDatagrams := by
      rw [← (hrt _ _ hs).named]
      exact apply_allOf hcall
    have hgives := (hdrive.gives hall cid).sublist.2.length_le
    obtain ⟨hspent, hticked⟩ := timer_spends (hrt _ _ hs).role hcall
    by_cases hcid : due.cid = cid
    · subst hcid
      rw [if_pos rfl, List.length_map] at hgives
      have hbefore : rt.allowance due.cid = s.core.allowance := by simp [ServerRuntime.allowance, hs]
      have hwaits : rt.patience due.cid = s.core.allowance + 1 := by simp [ServerRuntime.patience, hs]
      have htick : ticks due.cid (rt, due) = s.core.tickedBy due.timerId := by simp [ticks, hs]
      rw [htick]
      by_cases hlost : called.1.state = .lost
      · -- the session is gone, and nothing more can come of it
        have hgone := hdrive.gone hok hlost
        have hafter : rt'.allowance due.cid = 0 := by simp [ServerRuntime.allowance, hgone]
        have hended : rt'.patience due.cid = 0 := by simp [ServerRuntime.patience, hgone]
        refine ⟨by omega, ?_⟩
        rw [hended, hwaits]
        split_ifs <;> omega
      · obtain ⟨s', hs', hcore⟩ := hdrive.stays hlost
        have hafter : rt'.allowance due.cid = called.1.allowance := by
          simp [ServerRuntime.allowance, hs', hcore]
        have hleft : rt'.patience due.cid = called.1.allowance + 1 := by
          simp [ServerRuntime.patience, hs', hcore]
        refine ⟨by omega, ?_⟩
        rw [hleft, hwaits]
        split_ifs with ht
        · have hless := (hticked ht).resolve_left hlost
          omega
        · omega
    · have htick : ticks cid (rt, due) = false := by simp [ticks, hcid]
      rw [if_neg hcid, List.length_nil, Nat.le_zero] at hgives
      rw [htick, hgives]
      exact .of_same (hdrive.others cid (Ne.symm hcid))

theorem fireAll_spends (cid nowMs : UInt64) (dues : List DueTimer) {rt : ServerRuntime σ}
    (hrt : rt.Hosting) (output : ServerRuntimeOutput) :
    (datagramsOf cid (ServerRuntime.fireAll nowMs rt dues output).2).length +
        (ServerRuntime.fireAll nowMs rt dues output).1.allowance cid ≤
          (datagramsOf cid (.ok output)).length + rt.allowance cid ∧
      (rt.fired nowMs dues).countP (ticks cid) +
        (ServerRuntime.fireAll nowMs rt dues output).1.patience cid ≤ rt.patience cid := by
  induction dues generalizing rt output with
  | nil => exact ⟨le_rfl, by simp [ServerRuntime.fired, ServerRuntime.fireAll]⟩
  | cons due rest ih =>
    have hfired := fire_fired nowMs rt due
    rw [ServerRuntime.fireAll, ServerRuntime.fired, List.countP_cons]
    cases hf : rt.fire nowMs due with
    | mk rt₁ res₁ =>
      rw [hf] at hfired
      obtain ⟨hsaid, hticked⟩ := hfired.spends hrt cid
      cases res₁ with
      | error e =>
        dsimp only at hsaid hticked ⊢
        have hnothing : (datagramsOf cid (.error e)).length = 0 := rfl
        rw [List.countP_nil]
        exact ⟨by omega, by omega⟩
      | ok partOut =>
        dsimp only at hsaid hticked ⊢
        have hrt₁ : rt₁.Hosting := hfired.hosting hrt
        obtain ⟨hrest, hrestTicked⟩ := ih hrt₁
          ⟨output.outboundDatagrams ++ partOut.outboundDatagrams, output.events ++ partOut.events⟩
        have hboth : (datagramsOf cid (.ok ⟨output.outboundDatagrams ++ partOut.outboundDatagrams,
            output.events ++ partOut.events⟩)).length =
              (datagramsOf cid (.ok output)).length + (datagramsOf cid (.ok partOut)).length := by
          simp [datagramsOf]
        exact ⟨by omega, by omega⟩

theorem Received.spends {src : UInt32} {bytes : Bytes} (h : Received rt nowMs src bytes rt' res)
    (hnot : carries cid bytes = false) : Spends cid rt 0 0 rt' := by
  cases h with
  | undecodable => exact .of_same rfl
  | unloaded _ _ _ _ _ hsessions => exact .of_same (by rw [hsessions])
  | @visited frame _ _ _ _ hd henter hdrive =>
    have hne : cid ≠ frame.cid := by
      rintro rfl
      simp [carries, hd] at hnot
    exact .of_same ((hdrive.others cid hne).trans (henter.others hne))

theorem Sent.spends {other : UInt64} {payload : Bytes} (h : Sent rt other payload nowMs rt' res)
    (cid : UInt64) : Spends cid rt 0 0 rt' := by
  cases hs' : rt'.sessions[cid]? with
  | none => exact ⟨by simp [ServerRuntime.allowance, hs'], by simp [ServerRuntime.patience, hs']⟩
  | some s' =>
    obtain ⟨s, hs, hsame⟩ : ∃ s, rt.sessions[cid]? = some s ∧ s'.core.allowance = s.core.allowance := by
      cases h with
      | skipped => exact ⟨s', hs', rfl⟩
      | @visited s called _ _ hs hcall hdrive =>
        by_cases hne : cid = other
        · subst hne
          have happly : s.core.apply (.send payload) = some (called.1, called.2) := hcall
          refine ⟨s, hs, ?_⟩
          rw [hdrive.core hs', (apply_answers _ happly).next]
          rfl
        · rw [hdrive.others cid hne] at hs'
          exact ⟨s', hs', rfl⟩
    refine ⟨?_, ?_⟩
    · simp [ServerRuntime.allowance, hs, hs', hsame]
    · simp [ServerRuntime.patience, hs, hs', hsame]

/-- The keepalives for `cid` that a poll returns. -/
def polledDatagrams (cid : UInt64) (t : Taken (ServerRuntime σ) Op RuntimeResult) : List Bytes :=
  match t.input with
  | .pollTimers _ _ => datagramsOf cid t.output
  | .datagram _ _ _ | .sendMessage _ _ _ => []

/-- The ticks of the session of `cid` that a poll works off. -/
def polledTicks (cid : UInt64) (t : Taken (ServerRuntime σ) Op RuntimeResult) : Nat :=
  match t.input with
  | .pollTimers nowMs limit => (t.pre.polled nowMs limit).countP (ticks cid)
  | .datagram _ _ _ | .sendMessage _ _ _ => 0

theorem step_spends {op : Op} (hrt : rt.Hosting) (hstep : rt.step op = some (rt', res))
    (hunheard : op.hears cid = false) :
    Spends cid rt (polledDatagrams cid ⟨rt, op, res, rt'⟩).length
      (polledTicks cid ⟨rt, op, res, rt'⟩) rt' := by
  cases op with
  | datagram nowMs src bytes => exact (step_received hstep).spends hunheard
  | sendMessage other payload nowMs => exact (sendMessage_sent hstep).spends cid
  | pollTimers nowMs limit =>
    obtain ⟨rfl, rfl⟩ := step_polled hstep
    obtain ⟨hsaid, hticked⟩ := fireAll_spends cid nowMs
      (collectDue nowMs limit rt.timers.toList []) hrt {}
    have hnothing : (datagramsOf cid (.ok {})).length = 0 := rfl
    rw [hnothing, Nat.zero_add] at hsaid
    exact ⟨hsaid, hticked⟩

/-- In any stretch of a run in which no datagram of `cid` comes in, polls return at most eight
datagrams for `cid`, and work off at most nine ticks of its session: the ninth ends it. -/
theorem silence_is_bounded {cfg : CoreConfig} {store : σ} {before during : ServerHistory σ}
    (hrun : Run ServerRuntime.step (ServerRuntime.new cfg store) (before ++ during) rt)
    (hunheard : ∀ t ∈ during, t.input.hears cid = false) :
    (during.flatMap (polledDatagrams cid)).length ≤
        serverMaxConsecutiveServerMsrWithoutClientMsr ∧
      (during.map (polledTicks cid)).sum ≤ serverMaxConsecutiveServerMsrWithoutClientMsr + 1 := by
  have hspent : (during.flatMap (polledDatagrams cid)).length + rt.allowance cid ≤
        serverMaxConsecutiveServerMsrWithoutClientMsr ∧
      (during.map (polledTicks cid)).sum + rt.patience cid ≤
        serverMaxConsecutiveServerMsrWithoutClientMsr + 1 := by
    induction during using List.reverseRecOn generalizing rt with
    | nil =>
      cases hs : rt.sessions[cid]? with
      | none => simp [ServerRuntime.allowance, ServerRuntime.patience, hs]
      | some s => simp [ServerRuntime.allowance, ServerRuntime.patience, CoreMachine.allowance, hs]
    | append_singleton during t ih =>
      rw [← List.append_assoc] at hrun
      obtain ⟨hbefore, hstep⟩ := hrun.split
      obtain rfl : rt = t.post := by
        have hlast := hrun.continued
        generalize hnil : ([] : ServerHistory σ) = rest at hlast
        cases hlast with
        | nil => rfl
        | snoc => simp at hnil
      obtain ⟨hsaid, hticked⟩ := ih hbefore fun u hu => hunheard u (List.mem_append_left _ hu)
      obtain ⟨hmore, hmoreTicked⟩ : Spends cid t.pre (polledDatagrams cid t).length
          (polledTicks cid t) t.post :=
        step_spends (hosting_of_run hbefore) hstep (hunheard t (by simp))
      rw [List.flatMap_append, List.flatMap_singleton, List.length_append, List.map_append,
        List.sum_append, List.map_singleton, List.sum_singleton]
      exact ⟨by omega, by omega⟩
  exact ⟨by omega, by omega⟩

end Silence

/-- A client says hello and is never heard again; another one is, and the server is asked to
send in between. -/
def abandonedClient : List Op :=
  [.pollTimers 15000 4, .sendMessage 7 [20] 15001, .pollTimers 30000 4,
    .datagram 30001 2 ((Packet.control .clientHello).bytes 8), .pollTimers 45000 4,
    .pollTimers 60000 4, .pollTimers 75000 4, .pollTimers 90000 4, .pollTimers 105000 4,
    .pollTimers 120000 8, .pollTimers 135000 8]

theorem abandonedClient_bounded :
    ∃ before during rt rt', exec ServerRuntime.step defaultServer
        [.datagram 0 1 ((Packet.control .clientHello).bytes 7)] = some (before, rt) ∧
      exec ServerRuntime.step rt abandonedClient = some (during, rt') ∧
      (during.flatMap (polledDatagrams 7)).length ≤ 8 ∧ (during.map (polledTicks 7)).sum ≤ 9 := by
  have hsome : (exec ServerRuntime.step defaultServer
      [.datagram 0 1 ((Packet.control .clientHello).bytes 7)]).any fun x =>
        (exec ServerRuntime.step x.2 abandonedClient).isSome := by
    decide +kernel
  obtain ⟨⟨before, rt⟩, hbefore, hmore⟩ := (Option.any_eq_true _ _).mp hsome
  obtain ⟨⟨during, rt'⟩, hduring⟩ := Option.isSome_iff_exists.mp hmore
  have hunheard : ∀ t ∈ during, t.input.hears 7 = false := by
    have hnone : ∀ op ∈ abandonedClient, op.hears 7 = false := by decide +kernel
    intro t ht
    refine hnone t.input ?_
    rw [← exec_inputs hduring]
    exact List.mem_map_of_mem ht
  exact ⟨before, during, rt, rt', hbefore, hduring,
    silence_is_bounded (Run.append_exec (Run.of_exec hbefore) hduring) hunheard⟩

end Todero.Server
