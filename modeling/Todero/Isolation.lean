import Todero.Hosted

/-! Sessions do not disturb each other: a call leaves what the runtime holds for the cids
it is not about, in the session map, the timer map and the store in memory. -/
namespace Todero.Server
open Todero.Wire Todero.Core Todero.Store Transition

/-- The pending entries of one cid. -/
def entriesOf (cid : UInt64) (timers : TimerMap) (deadline : UInt64) : List (UInt64 × TimerId) :=
  (pending timers deadline).filter fun e => e.1 = cid

theorem entriesOf_pushes {cid other : UInt64} (hne : other ≠ cid) (as : List TimerAction)
    (timers : TimerMap) (deadline : UInt64) :
    entriesOf other (as.foldl (pushTimer cid) timers) deadline = entriesOf other timers deadline := by
  have hnone : (scheduledAt cid deadline as).filter (fun e => e.1 = other) = [] := by
    rw [List.filter_eq_nil_iff]
    intro e he
    have hcid := (mem_scheduledAt.mp he).1
    simpa [hcid] using hne.symm
  rw [entriesOf, pending_pushes, List.filter_append, hnone, List.append_nil, entriesOf]

theorem entriesOf_drop {cid other : UInt64} (hne : other ≠ cid) (timers : TimerMap) (d : UInt64)
    (id : TimerId) (deadline : UInt64) :
    entriesOf other (dropTimer timers d (cid, id)) deadline = entriesOf other timers deadline := by
  rw [entriesOf, pending_drop]
  split_ifs
  · rw [← List.erase_filter, List.erase_of_not_mem (by simp [hne.symm])]
    rfl
  · rfl

section Frame
variable [Base64]

/-- The runtime holds the same for `cid` as before: the session with its core, its path
binding and its sent ids, the pending entries in their order, and the record. -/
structure Untouched (cid : UInt64) (rt rt' : ServerRuntime InMemorySessionStore) : Prop where
  session : rt'.sessions[cid]? = rt.sessions[cid]?
  entries : ∀ deadline, entriesOf cid rt'.timers deadline = entriesOf cid rt.timers deadline
  record : rt'.store.entry cid = rt.store.entry cid

namespace Untouched
variable {cid other : UInt64} {rt rt₁ rt' rt'' : ServerRuntime InMemorySessionStore}
  {nowMs : UInt64} {src : UInt32} {res : RuntimeResult}

omit [Base64] in
theorem refl (cid : UInt64) (rt : ServerRuntime InMemorySessionStore) : Untouched cid rt rt :=
  ⟨rfl, fun _ => rfl, rfl⟩

omit [Base64] in
theorem trans (h : Untouched cid rt rt') (h' : Untouched cid rt' rt'') : Untouched cid rt rt'' :=
  ⟨h'.session.trans h.session, fun d => (h'.entries d).trans (h.entries d),
    h'.record.trans h.record⟩

omit [Base64] in
theorem written {s : SessionRuntime} (hne : other ≠ cid) :
    (rt.written cid nowMs s).1.entry other = rt.store.entry other := by
  unfold ServerRuntime.written
  split_ifs
  · exact InMemorySessionStore.delete_other hne
  · exact InMemorySessionStore.upsert_other hne _ _

theorem driven {s : SessionRuntime} {called : CoreMachine × CallResult} (hne : other ≠ cid)
    (hd : Driven rt cid s src nowMs called rt' res) : Untouched other rt rt' where
  session := hd.others other hne
  entries := fun deadline => by rw [hd.timers, entriesOf_pushes hne]
  record := by
    rw [hd.store]
    split_ifs
    · exact written hne
    · rfl

omit [Base64] in
theorem entered {s : SessionRuntime} (hne : other ≠ cid) (h : Enters rt cid src nowMs s rt₁) :
    Untouched other rt rt₁ where
  session := h.others hne
  entries := fun deadline => by rw [h.timers]
  record := by
    cases h with
    | present => rfl
    | fresh _ _ _ hstore =>
      rw [hstore]
      exact InMemorySessionStore.load_other hne

theorem received {bytes : Bytes} {frame : WireFrame} (hd : WireFrame.decode bytes = .ok frame)
    (hne : other ≠ frame.cid) (h : Received rt nowMs src bytes rt' res) :
    Untouched other rt rt' := by
  cases h with
  | undecodable herr => simp [hd] at herr
  | @unloaded frame' _ _ hd' _ _ _ hstore hsessions htimers =>
    obtain rfl : frame = frame' := Except.ok.inj (hd.symm.trans hd')
    refine ⟨by rw [hsessions], fun deadline => by rw [htimers], ?_⟩
    rw [hstore]
    exact InMemorySessionStore.load_other hne
  | @visited frame' _ _ _ _ hd' henter hdrive =>
    obtain rfl : frame = frame' := Except.ok.inj (hd.symm.trans hd')
    exact (entered hne henter).trans (driven hne hdrive)

theorem fired {due : DueTimer} (hne : other ≠ due.cid) (h : Fired rt nowMs due rt' res) :
    Untouched other rt rt' := by
  have hdrop : Untouched other rt
      { rt with timers := dropTimer rt.timers due.deadline (due.cid, due.timerId) } :=
    ⟨rfl, fun deadline => entriesOf_drop hne _ _ _ _, rfl⟩
  cases h with
  | skipped => exact hdrop
  | visited _ hdrive => exact hdrop.trans (driven hne hdrive)

/-- A poll is about the cids whose entries it works off. -/
theorem polled {limit : Nat} (hne : ∀ x ∈ rt.polled nowMs limit, x.2.cid ≠ cid) :
    Untouched cid rt (rt.pollTimers nowMs limit).1 :=
  poll_invariant (P := Untouched cid rt) (refl cid rt) fun x hx h =>
    h.trans (fired (hne x hx).symm (fire_fired nowMs x.1 x.2))

end Untouched

/-! ### What is sent -/

/-- All datagrams put out carry the given cid. -/
def AllOf (cid : UInt64) (ds : List OutboundDatagram) : Prop :=
  ∀ d ∈ ds, ∃ frame, WireFrame.decode d.bytes = .ok frame ∧ frame.cid = cid

omit [Base64] in
theorem onDatagram_allOf {m : CoreMachine} {bytes : Bytes} {frame : WireFrame}
    (hd : WireFrame.decode bytes = .ok frame) (hcid : m.cid = frame.cid) (nowMs : UInt64)
    (src : UInt32) :
    AllOf frame.cid (Core.onDatagram m nowMs src bytes).2.output.outboundDatagrams := by
  obtain ⟨ps, hps, hsaid⟩ := (onDatagram_emission (ownFrame_of_cid hd hcid) nowMs src).1.said
  intro d hmem
  have hbytes := List.mem_map_of_mem (f := OutboundDatagram.bytes) hmem
  rw [hsaid, List.mem_map] at hbytes
  obtain ⟨p, hp, hpd⟩ := hbytes
  exact ⟨p.frame m.cid, hpd ▸ Packet.decode_bytes (hps p hp) m.cid, hcid⟩

section Sent
variable {σ : Type} [SessionStore σ] {rt rt' : ServerRuntime σ} {nowMs : UInt64} {src : UInt32}

theorem AllOf.driven {cid : UInt64} {s : SessionRuntime} {called : CoreMachine × CallResult}
    {out : ServerRuntimeOutput} (hcore : AllOf cid called.2.output.outboundDatagrams)
    (hd : Driven rt cid s src nowMs called rt' (.ok out)) : AllOf cid out.outboundDatagrams := by
  obtain ⟨core, res⟩ := called
  have hres := hd.result
  cases res with
  | error e => simp at hres
  | ok o =>
    dsimp only at hres
    split at hres
    · simp at hres
    · rw [Except.ok.injEq] at hres
      subst hres
      intro d hmem
      obtain ⟨d', hmem', rfl⟩ := List.mem_map.mp hmem
      exact hcore d' hmem'

theorem AllOf.received {bytes : Bytes} {frame : WireFrame} {out : ServerRuntimeOutput}
    {res : RuntimeResult} (hrt : rt.Hosting) (hd : WireFrame.decode bytes = .ok frame)
    (h : Received rt nowMs src bytes rt' res) (hout : res = .ok out) :
    AllOf frame.cid out.outboundDatagrams := by
  cases h with
  | undecodable herr => simp [hd] at herr
  | unloaded => simp at hout
  | @visited frame' s rt₁ _ res' hd' henter hdrive =>
    obtain rfl : frame = frame' := Except.ok.inj (hd.symm.trans hd')
    cases res' with
    | error e => simp [Except.map] at hout
    | ok out' =>
      have hnamed := onDatagram_allOf hd (henter.named hrt) nowMs src
      obtain rfl := Except.ok.inj hout
      exact (AllOf.driven hnamed hdrive : AllOf frame.cid out'.outboundDatagrams)

end Sent

/-- Whatever a runtime has come through, a datagram is about the cid of its frame, and a
poll about the cids of the entries it works off. -/
theorem sessions_isolated {cfg : CoreConfig} {store : InMemorySessionStore}
    {h : ServerHistory InMemorySessionStore} {rt : ServerRuntime InMemorySessionStore}
    (hrun : Run ServerRuntime.step (ServerRuntime.new cfg store) h rt) :
    (∀ (nowMs : UInt64) (src : UInt32) (bytes : Bytes) (frame : WireFrame),
      WireFrame.decode bytes = .ok frame →
        (∀ other, other ≠ frame.cid → Untouched other rt (rt.onDatagram nowMs src bytes).1) ∧
        ∀ out, (rt.onDatagram nowMs src bytes).2 = .ok out →
          AllOf frame.cid out.outboundDatagrams) ∧
    ∀ (nowMs : UInt64) (limit : Nat) (cid : UInt64),
      (∀ x ∈ rt.polled nowMs limit, x.2.cid ≠ cid) →
        Untouched cid rt (rt.pollTimers nowMs limit).1 := by
  refine ⟨fun nowMs src bytes frame hd => ?_, fun nowMs limit cid hne => .polled hne⟩
  have hreceived := onDatagram_received rt nowMs src bytes
  exact ⟨fun other hne => .received hd hne hreceived,
    fun out hout => .received (hosting_of_run hrun) hd hreceived hout⟩

end Frame

/-- Two clients have shaken hands when the first closes. -/
def twoHellos : List Op :=
  [.datagram 0 1 ((Packet.control .clientHello).bytes 7),
    .datagram 1 2 ((Packet.control .clientHello).bytes 8)]

theorem twoHellos_isolated :
    ∃ h rt, exec ServerRuntime.step defaultServer twoHellos = some (h, rt) ∧
      rt.sessions.contains 8 ∧
      Untouched 8 rt (rt.onDatagram 2 1 ((Packet.control .close).bytes 7)).1 := by
  have hsome : (exec ServerRuntime.step defaultServer twoHellos).any
        fun x => x.2.sessions.contains 8 := by
    decide +kernel
  obtain ⟨⟨h, rt⟩, hexec, hin⟩ := (Option.any_eq_true _ _).mp hsome
  have hd : WireFrame.decode ((Packet.control .close).bytes 7) = .ok _ :=
    Packet.decode_bytes (Nat.zero_le _) 7
  exact ⟨h, rt, hexec, hin, ((sessions_isolated (Run.of_exec hexec)).1 2 1 _ _ hd).1 8 (by decide)⟩

end Todero.Server
