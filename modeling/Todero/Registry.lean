import Todero.EventTexts
import Todero.Lib.Projection

/-! The registry of v3-ffi under several threads: whatever the others do, a handle goes through
its own calls alone, and its number is never given to another one. Every call holds the lock
of the registry from end to end; a new handle takes its number before it takes the lock. -/
namespace Todero.Ffi
open Todero.Wire Todero.Core Todero.Server Transition

/-! ### One handle -/

inductive Handle where
  | client (h : ClientHandle)
  | server (h : ServerHandle)

/-- A call with the id of a handle, and the machine as it is at the time. -/
structure FfiCall where
  host : Host
  call : ClientCall

def Handle.call : Handle → FfiCall → Option (Option Handle × Int)
  | .client h, c => (h.call c.call).map (Prod.map (Option.map .client) id)
  | .server h, c => (h.call c.host c.call).map (Prod.map (Option.map .server) id)

/-- The entry of one id: `none` where no handle is registered. -/
def handleStep : Option Handle → FfiCall → Option (Option Handle × Int)
  | none, c => some (none, c.call.missing)
  | some h, c => h.call c

/-- The calls that read the output of the last call. -/
inductive Read where
  | datagramCount
  | datagramLen (index : Nat)
  | datagramPathId (index : Nat)
  | datagramCopy (index outLen : Nat)
  | eventCount
  | eventLen (index : Nat)
  | eventCopy (index outLen : Nat)

/-- The number returned, and what has been copied to the caller. -/
structure ReadResult where
  value : Nat
  copied : Bytes := []
  deriving DecidableEq, Repr

def Handle.datagrams : Handle → List (UInt32 × Bytes)
  | .client h => h.output.datagrams
  | .server h => h.output.datagrams

/-- `min` of both lengths, and that many bytes. -/
def copyOut (data : Option Bytes) (outLen : Nat) : ReadResult :=
  match data with
  | none => ⟨0, []⟩
  | some data => ⟨min data.length outLen, data.take outLen⟩

section Output
variable [Base64] [JsonText]

def Handle.events : Handle → List Bytes
  | .client h => h.output.events.map fun e => Utf8.encode e.text
  | .server h => h.output.events.map fun e => Utf8.encode e.text

def readOutput (s : Option Handle) : Read → ReadResult
  | .datagramCount => ⟨(s.map fun h => h.datagrams.length).getD 0, []⟩
  | .datagramLen index => ⟨((s.bind fun h => h.datagrams[index]?).map fun d => d.2.length).getD 0, []⟩
  | .datagramPathId index =>
    ⟨((s.bind fun h => h.datagrams[index]?).map fun d => d.1.toNat).getD 0, []⟩
  | .datagramCopy index outLen =>
    copyOut ((s.bind fun h => h.datagrams[index]?).map Prod.snd) outLen
  | .eventCount => ⟨(s.map fun h => h.events.length).getD 0, []⟩
  | .eventLen index => ⟨((s.bind fun h => h.events[index]?).map List.length).getD 0, []⟩
  | .eventCopy index outLen => copyOut (s.bind fun h => h.events[index]?) outLen

inductive SlotOp where
  | call (c : FfiCall)
  | read (r : Read)

inductive SlotReply where
  | code (rc : Int)
  | read (result : ReadResult)
  deriving DecidableEq, Repr

/-- A handle on its own. -/
def slotStep (s : Option Handle) : SlotOp → Option (Option Handle × SlotReply)
  | .call c => (handleStep s c).map fun x => (x.1, .code x.2)
  | .read r => some (s, .read (readOutput s r))

end Output

/-! ### The registry -/

inductive NewCall where
  | client (cid msrIntervalMs missWindowCount disconnectWindowMs : UInt64)
  | server (msrIntervalMs missWindowCount disconnectWindowMs : UInt64)

def NewCall.handle : NewCall → Handle
  | .client cid msrIntervalMs missWindowCount disconnectWindowMs =>
    .client (.v3FfiNewClient cid msrIntervalMs missWindowCount disconnectWindowMs)
  | .server msrIntervalMs missWindowCount disconnectWindowMs =>
    .server (.v3FfiNewServer msrIntervalMs missWindowCount disconnectWindowMs)

/-- `entering` holds the threads between `fetch_add` and the insertion, with what they bring. -/
structure Registry where
  handles : Std.TreeMap UInt64 Handle := ∅
  nextHandle : UInt64 := 1
  entering : Std.TreeMap Nat (UInt64 × NewCall) := ∅

inductive RegistryOp where
  /-- `NEXT_HANDLE.fetch_add(1)`. -/
  | fetchAdd (thread : Nat) (new : NewCall)
  /-- The insertion under the lock, and the id returned. -/
  | insert (thread : Nat)
  | onHandle (id : UInt64) (op : SlotOp)

inductive RegistryReply where
  | none
  | id (id : UInt64)
  | slot (reply : SlotReply)
  deriving DecidableEq, Repr

section Registry
variable [Base64] [JsonText]

/-- `none` for a thread that is not there, and where a call panics, which ends the process. -/
def Registry.step (reg : Registry) : RegistryOp → Option (Registry × RegistryReply)
  | .fetchAdd thread new =>
    if reg.entering.contains thread then none
    else some ({ reg with
      nextHandle := reg.nextHandle + 1
      entering := reg.entering.insert thread (reg.nextHandle, new) }, .none)
  | .insert thread =>
    match reg.entering[thread]? with
    | none => none
    | some (id, new) => some ({ reg with
        handles := reg.handles.insert id new.handle
        entering := reg.entering.erase thread }, .id id)
  | .onHandle id op =>
    (slotStep reg.handles[id]? op).map fun (s, reply) =>
      (match s with
        | some h => { reg with handles := reg.handles.insert id h }
        | none => { reg with handles := reg.handles.erase id }, .slot reply)

abbrev RegistryHistory := List (Taken Registry RegistryOp RegistryReply)

/-- The numbers taken. -/
def taken (hist : RegistryHistory) : Nat :=
  hist.countP fun t => match t.input with
    | .fetchAdd _ _ => true
    | _ => false

/-- The ids returned for new handles. -/
def issued (hist : RegistryHistory) : List UInt64 :=
  hist.filterMap fun t => match t.output with
    | .id id => some id
    | _ => none

/-- The steps that use an id. -/
def usesOf (id : UInt64) (op : RegistryOp) (reply : RegistryReply) : Option (SlotOp × SlotReply) :=
  match op, reply with
  | .onHandle other op, .slot reply => if other = id then some (op, reply) else none
  | _, _ => none

/-- The calls and reads on one id, with the entry before and after each of them. -/
def uses (id : UInt64) (hist : RegistryHistory) : List (Taken (Option Handle) SlotOp SlotReply) :=
  hist.filterMap (partOf (fun reg => reg.handles[id]?) (usesOf id))

variable {reg reg' : Registry} {op : RegistryOp} {reply : RegistryReply} {hist : RegistryHistory}

/-- What a step can be. -/
inductive Stepped (reg : Registry) : RegistryOp → RegistryReply → Registry → Prop
  | fetched {thread : Nat} {new : NewCall} (hfree : reg.entering[thread]? = none) :
      Stepped reg (.fetchAdd thread new) .none { reg with
        nextHandle := reg.nextHandle + 1
        entering := reg.entering.insert thread (reg.nextHandle, new) }
  | inserted {thread : Nat} {id : UInt64} {new : NewCall}
      (hentering : reg.entering[thread]? = some (id, new)) :
      Stepped reg (.insert thread) (.id id) { reg with
        handles := reg.handles.insert id new.handle
        entering := reg.entering.erase thread }
  | used {id : UInt64} {op : SlotOp} {s : Option Handle} {reply : SlotReply}
      {handles : Std.TreeMap UInt64 Handle} (hslot : slotStep reg.handles[id]? op = some (s, reply))
      (hself : handles[id]? = s) (hothers : ∀ other ≠ id, handles[other]? = reg.handles[other]?) :
      Stepped reg (.onHandle id op) (.slot reply) { reg with handles := handles }

theorem step_stepped (hs : reg.step op = some (reg', reply)) : Stepped reg op reply reg' := by
  cases op with
  | fetchAdd thread new =>
    rw [Registry.step] at hs
    split_ifs at hs with hthread
    obtain ⟨rfl, rfl⟩ := Prod.mk.inj (Option.some.inj hs)
    exact .fetched (by simpa using hthread)
  | insert thread =>
    rw [Registry.step] at hs
    cases hentering : reg.entering[thread]? with
    | none => simp [hentering] at hs
    | some x =>
      rw [hentering] at hs
      obtain ⟨rfl, rfl⟩ := Prod.mk.inj (Option.some.inj hs)
      exact .inserted hentering
  | onHandle id op =>
    obtain ⟨⟨s, r⟩, hslot, heq⟩ := Option.map_eq_some_iff.mp hs
    obtain ⟨rfl, rfl⟩ := Prod.mk.inj heq
    cases s with
    | some h =>
      refine .used hslot (by simp) fun other hother => ?_
      simp [Std.TreeMap.getElem?_insert, Ne.symm hother]
    | none =>
      refine .used hslot (by simp) fun other hother => ?_
      simp [Std.TreeMap.getElem?_erase, Ne.symm hother]

theorem step_registers {id : UInt64} (hs : reg.step op = some (reg', .id id)) :
    ∃ thread new, op = .insert thread ∧ reg.entering[thread]? = some (id, new) ∧
      reg'.handles[id]? = some new.handle := by
  cases step_stepped hs with
  | inserted hentering => exact ⟨_, _, rfl, hentering, by simp⟩

/-- A step that does not register `id` is a use of it, or leaves its entry alone. -/
theorem Stepped.concerns (h : Stepped reg op reply reg') {id : UInt64} (hnot : reply ≠ .id id) :
    Concerns slotStep (fun reg => reg.handles[id]?) (usesOf id) ⟨reg, op, reply, reg'⟩ := by
  cases h with
  | fetched hfree => rfl
  | @inserted thread other new hentering =>
    have hother : other ≠ id := fun heq => hnot (heq ▸ rfl)
    show (reg.handles.insert other new.handle)[id]? = reg.handles[id]?
    simp [Std.TreeMap.getElem?_insert, hother]
  | @used other op s r handles hslot hself hothers =>
    by_cases hid : other = id
    · subst hid
      simpa [Concerns, usesOf, hself] using hslot
    · have hsame := hothers id (Ne.symm hid)
      simpa [Concerns, usesOf, hid] using hsame

/-! ### The numbers -/

/-- The state of a run: every number is with one thread or one handle. -/
structure Registry.Numbers (hist : RegistryHistory) (reg : Registry) : Prop where
  next : reg.nextHandle = UInt64.ofNat (taken hist + 1)
  waiting : ∀ (thread : Nat) (x : UInt64 × NewCall), reg.entering[thread]? = some x →
    1 ≤ x.1.toNat ∧ x.1.toNat ≤ taken hist ∧ x.1 ∉ issued hist
  apart : ∀ (thread thread' : Nat) (x x' : UInt64 × NewCall), reg.entering[thread]? = some x →
    reg.entering[thread']? = some x' → x.1 = x'.1 → thread = thread'
  bounds : ∀ id ∈ issued hist, 1 ≤ id.toNat ∧ id.toNat ≤ taken hist
  once : (issued hist).Nodup

theorem Registry.Numbers.step (hn : reg.Numbers hist) (hs : reg.step op = some (reg', reply))
    (hroom : taken (hist ++ [⟨reg, op, reply, reg'⟩]) < 2 ^ 64) :
    reg'.Numbers (hist ++ [⟨reg, op, reply, reg'⟩]) := by
  cases step_stepped hs with
  | @fetched thread new hfree =>
    have hissued : issued (hist ++ [⟨reg, .fetchAdd thread new, .none, { reg with
        nextHandle := reg.nextHandle + 1
        entering := reg.entering.insert thread (reg.nextHandle, new) }⟩]) = issued hist := by
      simp [issued]
    have htaken : taken (hist ++ [⟨reg, .fetchAdd thread new, .none, { reg with
        nextHandle := reg.nextHandle + 1
        entering := reg.entering.insert thread (reg.nextHandle, new) }⟩]) = taken hist + 1 := by
      simp [taken]
    rw [htaken] at hroom
    have hnumber : reg.nextHandle.toNat = taken hist + 1 := by
      rw [hn.next, UInt64.toNat_ofNat', Nat.mod_eq_of_lt hroom]
    have hentry : ∀ (other : Nat) (x : UInt64 × NewCall),
        (reg.entering.insert thread (reg.nextHandle, new))[other]? = some x →
          (thread = other ∧ x.1 = reg.nextHandle) ∨
            (thread ≠ other ∧ reg.entering[other]? = some x) := by
      intro other x hx
      rw [Std.TreeMap.getElem?_insert] at hx
      split_ifs at hx with heq
      · exact .inl ⟨by simpa using heq, by rw [← Option.some.inj hx]⟩
      · exact .inr ⟨by simpa using heq, hx⟩
    refine ⟨?_, ?_, ?_, ?_, ?_⟩
    · rw [htaken, hn.next, UInt64.ofNat_add (taken hist + 1) 1]
      rfl
    · intro other x hx
      rw [htaken, hissued]
      obtain ⟨-, hid⟩ | ⟨-, hold⟩ := hentry other x hx
      · rw [hid]
        refine ⟨by omega, by omega, fun hmem => ?_⟩
        have hle := (hn.bounds _ hmem).2
        omega
      · obtain ⟨hpos, hle, hnot⟩ := hn.waiting other x hold
        exact ⟨hpos, by omega, hnot⟩
    · intro other other' x x' hx hx' hsame
      have hfresh : ∀ (o : Nat) (y : UInt64 × NewCall), reg.entering[o]? = some y →
          y.1 ≠ reg.nextHandle := by
        intro o y hy heq
        have hle := (hn.waiting o y hy).2.1
        rw [heq] at hle
        omega
      obtain ⟨rfl, hid⟩ | ⟨-, hold⟩ := hentry other x hx
      · obtain ⟨heq, -⟩ | ⟨-, hold'⟩ := hentry other' x' hx'
        · exact heq
        · exact absurd (hsame.symm.trans hid) (hfresh _ _ hold')
      · obtain ⟨rfl, hid'⟩ | ⟨-, hold'⟩ := hentry other' x' hx'
        · exact absurd (hsame.trans hid') (hfresh _ _ hold)
        · exact hn.apart other other' x x' hold hold' hsame
    · intro id hid
      rw [hissued] at hid
      rw [htaken]
      exact ⟨(hn.bounds id hid).1, by have := (hn.bounds id hid).2; omega⟩
    · rw [hissued]
      exact hn.once
  | @inserted thread id new hentering =>
    have hissued : issued (hist ++ [⟨reg, .insert thread, .id id, { reg with
        handles := reg.handles.insert id new.handle
        entering := reg.entering.erase thread }⟩]) = issued hist ++ [id] := by
      simp [issued]
    have htaken : taken (hist ++ [⟨reg, .insert thread, .id id, { reg with
        handles := reg.handles.insert id new.handle
        entering := reg.entering.erase thread }⟩]) = taken hist := by
      simp [taken]
    have hentry : ∀ (other : Nat) (x : UInt64 × NewCall),
        (reg.entering.erase thread)[other]? = some x →
          thread ≠ other ∧ reg.entering[other]? = some x := by
      intro other x hx
      rw [Std.TreeMap.getElem?_erase] at hx
      split_ifs at hx with heq
      exact ⟨by simpa using heq, hx⟩
    obtain ⟨hpos, hle, hnot⟩ := hn.waiting thread (id, new) hentering
    refine ⟨by rw [htaken]; exact hn.next, ?_, ?_, ?_, ?_⟩
    · intro other x hx
      obtain ⟨hother, hold⟩ := hentry other x hx
      obtain ⟨hpos', hle', hnot'⟩ := hn.waiting other x hold
      rw [htaken, hissued, List.mem_append, List.mem_singleton]
      refine ⟨hpos', hle', ?_⟩
      rintro (hmem | heq)
      · exact hnot' hmem
      · exact hother (hn.apart thread other (id, new) x hentering hold heq.symm)
    · intro other other' x x' hx hx' hsame
      exact hn.apart other other' x x' (hentry other x hx).2 (hentry other' x' hx').2 hsame
    · intro other hmem
      rw [hissued, List.mem_append, List.mem_singleton] at hmem
      rw [htaken]
      rcases hmem with hold | rfl
      · exact hn.bounds other hold
      · exact ⟨hpos, hle⟩
    · rw [hissued, List.nodup_append]
      refine ⟨hn.once, List.nodup_singleton id, ?_⟩
      rintro a ha b hb rfl
      rw [List.mem_singleton.mp hb] at ha
      exact hnot ha
  | @used id op s r handles hslot hself hothers =>
    have hissued : issued (hist ++ [⟨reg, .onHandle id op, .slot r,
        { reg with handles := handles }⟩]) = issued hist := by
      simp [issued]
    have htaken : taken (hist ++ [⟨reg, .onHandle id op, .slot r,
        { reg with handles := handles }⟩]) = taken hist := by
      simp [taken]
    refine ⟨by rw [htaken]; exact hn.next, ?_, hn.apart, ?_, ?_⟩
    · rw [htaken, hissued]
      exact hn.waiting
    · rw [htaken, hissued]
      exact hn.bounds
    · rw [hissued]
      exact hn.once

theorem numbers_of_run (hrun : Run Registry.step {} hist reg) (hroom : taken hist < 2 ^ 64) :
    reg.Numbers hist := by
  induction hrun with
  | nil => exact ⟨rfl, by simp, by simp, by simp [issued], by simp [issued]⟩
  | @snoc hist reg reg' op reply _ hs ih =>
    have hless : taken hist ≤ taken (hist ++ [⟨reg, op, reply, reg'⟩]) := by simp [taken]
    exact (ih (by omega)).step hs hroom

/-! ### One id -/

/-- An id without a handle answers as such, and gets no handle from being used. -/
theorem slot_none {s : Option Handle} {h : List (Taken (Option Handle) SlotOp SlotReply)}
    (hrun : Run slotStep none h s) : s = none := by
  induction hrun with
  | nil => rfl
  | @snoc h s s' op reply _ hs ih =>
    subst ih
    cases op with
    | call c => exact (congrArg Prod.fst (Option.some.inj hs)).symm
    | read r => exact (congrArg Prod.fst (Option.some.inj hs)).symm

/-- Without a registration in between, the uses of an id are steps of its handle alone. -/
theorem uses_run {start : Registry} (hrun : Run Registry.step start hist reg) {id : UInt64}
    (hnot : id ∉ issued hist) :
    Run slotStep start.handles[id]? (uses id hist) reg.handles[id]? := by
  refine hrun.project fun t ht hs => (step_stepped hs).concerns fun hreply => hnot ?_
  exact List.mem_filterMap.mpr ⟨t, ht, by rw [hreply]⟩

/-- What happens to one id in a run: it is never registered and answers as such, or it does so
up to its one registration and from there on is a new handle that takes its own calls. -/
inductive RanAlone (id : UInt64) (hist : RegistryHistory) (reg : Registry) : Prop
  | never (hnone : id ∉ issued hist) (hrun : Run slotStep none (uses id hist) none)
      (hlast : reg.handles[id]? = none) : RanAlone id hist reg
  | since {before after : RegistryHistory} {t : Taken Registry RegistryOp RegistryReply}
      {thread : Nat} {new : NewCall} (hsplit : hist = before ++ t :: after)
      (hinsert : t.input = .insert thread) (hnew : t.pre.entering[thread]? = some (id, new))
      (hbefore : Run slotStep none (uses id before) none)
      (hafter : Run slotStep (some new.handle) (uses id after) reg.handles[id]?) :
      RanAlone id hist reg

end Registry

/-- Two threads make a client and a server at once, and the client is freed and used again. -/
def crossedHandles : List RegistryOp :=
  [.fetchAdd 0 (.client 7 1000 3 30000), .fetchAdd 1 (.server 1000 3 30000), .insert 1,
    .onHandle 2 (.call ⟨plainHost, .pollTimers 0 8⟩), .insert 0,
    .onHandle 1 (.call ⟨plainHost, .beginHandshake plainHost.openssl 1⟩),
    .onHandle 1 (.read (.datagramCopy 0 64)),
    .onHandle 2 (.call ⟨plainHost, .onDatagram 2 3 ((Packet.control .clientHello).bytes 7)⟩),
    .onHandle 2 (.read .datagramCount), .onHandle 1 (.call ⟨plainHost, .free⟩),
    .onHandle 1 (.call ⟨plainHost, .beginHandshake plainHost.openssl 3⟩),
    .onHandle 1 (.read .datagramCount)]

end Todero.Ffi
