import Mathlib.Algebra.Order.Field.Rat
import Mathlib.Tactic.NormNum
import Todero.IceChecklist
import Todero.Lib.IpText
import Todero.StoreCodec

/-! The remote candidates that the client runtime takes from a discovery payload. A port and a
priority are cut down to their low bits, and a priority that is no unsigned integer is passed
over for the default. -/
namespace Todero.Discovery
open Json Todero.Ice Todero.Store

/-- `str::parse::<IpAddr>`. -/
def parseIpAddr (s : String) : Option IpAddr :=
  let v4 := (IpText.readIpv4 s.toList).map fun (n, cs) => (IpAddr.v4 (UInt32.ofNat n), cs)
  let v6 := (IpText.readIpv6 s.toList).map fun (n, cs) => (IpAddr.v6 (BitVec.ofNat 128 n), cs)
  match v4 <|> v6 with
  | some (address, []) => some address
  | _ => none

def asArray : Doc → Option (List Doc)
  | .arr items => some items
  | _ => none

inductive ClientRuntimeError where
  | invalidCandidatePayload
  deriving DecidableEq, Repr

/-- The part of the runtime that the call reads and writes. -/
structure ClientRuntime where
  remoteCandidates : List IceCandidate
  deriving DecidableEq, Repr

def orInvalid {α : Type} : Option α → Except ClientRuntimeError α
  | some a => .ok a
  | none => .error .invalidCandidatePayload

/-- One pass of the loop. -/
def parseCandidate (c : Doc) : Except ClientRuntimeError IceCandidate := do
  let address ← orInvalid ((field "address" c).bind asStr)
  let port ← orInvalid ((field "port" c).bind asU64)
  let typ := match ((field "type" c).bind asStr).getD "host" with
    | "relay" => CandidateType.relay
    | "srflx" => .srflx
    | _ => .host
  let foundation := ((field "foundation" c).bind asStr).getD "remote"
  let priority := ((field "priority" c).bind asU64).getD 100
  let address ← orInvalid (parseIpAddr address)
  return ⟨foundation, 1, "udp", UInt32.ofNat priority, address, UInt16.ofNat port, typ, none, none⟩

def ClientRuntime.loadRemoteCandidatesFromDiscovery (rt : ClientRuntime) (payload : Doc) :
    ClientRuntime × Except ClientRuntimeError Nat :=
  match orInvalid ((field "candidates" payload).bind asArray) with
  | .error e => (rt, .error e)
  | .ok candidates =>
    match candidates.mapM parseCandidate with
    | .error e => (rt, .error e)
    | .ok parsed => (⟨parsed⟩, .ok parsed.length)

/-! ### What the payload says -/

/-- The value of a JSON number. -/
def numberValue (n : Number) : ℚ := n.mantissa * 10 ^ n.exponent.getD 0

/-- The document is a number, and of this value. -/
def HasValue (v : Doc) (n : Nat) : Prop := ∃ m, v = .num m ∧ numberValue m = n

/-- The candidate has the address, the port and, where one is given, the priority of the
element. -/
structure Faithful (c : Doc) (candidate : IceCandidate) : Prop where
  address : ∃ text, field "address" c = some (.str text) ∧
    parseIpAddr text = some candidate.address
  port : ∃ v, field "port" c = some v ∧ HasValue v candidate.port.toNat
  priority : ∀ v, field "priority" c = some v → HasValue v candidate.priority.toNat

/-- A payload is refused as a whole, or each of its elements is taken as it is. -/
def FaithfulOrRefused (rt : ClientRuntime) (payload : Doc) : Prop :=
  (∃ e, rt.loadRemoteCandidatesFromDiscovery payload = (rt, .error e)) ∨
    ∃ rt' n items, rt.loadRemoteCandidatesFromDiscovery payload = (rt', .ok n) ∧
      field "candidates" payload = some (.arr items) ∧
      List.Forall₂ Faithful items rt'.remoteCandidates

/-- Nothing about the element is refused. -/
def Readable (c : Doc) : Prop :=
  (∃ text, field "address" c = some (.str text) ∧ (parseIpAddr text).isSome) ∧
    ((field "port" c).bind asU64).isSome

/-- The port has 16 bits, and the priority is an unsigned integer of 32 bits or some other
way to write the default. -/
def Narrow (c : Doc) : Prop :=
  (∀ port, (field "port" c).bind asU64 = some port → port < 2 ^ 16) ∧
    ∀ v, field "priority" c = some v →
      (∀ n, asU64 v = some n → n < 2 ^ 32) ∧ (asU64 v = none → HasValue v 100)

/-- The text of an IPv4 address stands for the address. -/
theorem parseIpAddr_ipv4 {a b c d : Nat} (ha : a < 256) (hb : b < 256) (hc : c < 256)
    (hd : d < 256) : parseIpAddr (String.ofList (IpText.ipv4Text a b c d)) =
      some (.v4 (UInt32.ofNat (((a * 256 + b) * 256 + c) * 256 + d))) := by
  rw [parseIpAddr, String.toList_ofList, IpText.readIpv4_text ha hb hc hd]
  rfl

theorem asU64_eq_some {v : Doc} {n : Nat} (h : asU64 v = some n) :
    v = .num ⟨n, none⟩ ∧ n < 2 ^ 64 := by
  unfold asU64 at h
  split at h
  · split_ifs at h with hlt
    obtain rfl := Option.some.inj h
    exact ⟨rfl, hlt⟩
  · cases h

theorem hasValue_iff {v : Doc} {n : Nat} (h : asU64 v = some n) (m : Nat) :
    HasValue v m ↔ n = m := by
  obtain ⟨rfl, -⟩ := asU64_eq_some h
  simp [HasValue, numberValue]

/-! ### One element -/

section Element
variable {c : Doc} {candidate : IceCandidate}

theorem asStr_eq_some {v : Doc} {s : String} : asStr v = some s ↔ v = .str s := by
  cases v <;> simp [asStr]

theorem asArray_eq_some {v : Doc} {items : List Doc} : asArray v = some items ↔ v = .arr items := by
  cases v <;> simp [asArray]

theorem parseCandidate_ok (h : parseCandidate c = .ok candidate) :
    ∃ text port, field "address" c = some (.str text) ∧
      parseIpAddr text = some candidate.address ∧ (field "port" c).bind asU64 = some port ∧
      candidate.port = UInt16.ofNat port ∧
      candidate.priority = UInt32.ofNat (((field "priority" c).bind asU64).getD 100) := by
  unfold parseCandidate at h
  cases htext : (field "address" c).bind asStr with
  | none => simp [htext, orInvalid, bind, Except.bind] at h
  | some text =>
    cases hport : (field "port" c).bind asU64 with
    | none => simp [htext, hport, orInvalid, bind, Except.bind] at h
    | some port =>
      cases haddress : parseIpAddr text with
      | none => simp [htext, hport, haddress, orInvalid, bind, Except.bind] at h
      | some address =>
        obtain ⟨v, hv, hstr⟩ := Option.bind_eq_some_iff.mp htext
        obtain rfl := asStr_eq_some.mp hstr
        simp only [htext, hport, haddress, orInvalid, bind, Except.bind, pure, Except.pure,
          Except.ok.injEq] at h
        obtain rfl := h
        exact ⟨text, port, hv, haddress, rfl, rfl, rfl⟩

theorem readable_iff : Readable c ↔ ∃ candidate, parseCandidate c = .ok candidate := by
  constructor
  · rintro ⟨⟨text, htext, haddress⟩, hport⟩
    obtain ⟨address, haddress⟩ := Option.isSome_iff_exists.mp haddress
    obtain ⟨port, hport⟩ := Option.isSome_iff_exists.mp hport
    have hstr : (field "address" c).bind asStr = some text := by rw [htext]; rfl
    unfold parseCandidate
    simp only [hstr, hport, haddress, orInvalid, bind, Except.bind, pure, Except.pure]
    exact ⟨_, rfl⟩
  · rintro ⟨candidate, hok⟩
    obtain ⟨text, port, htext, haddress, hport, -⟩ := parseCandidate_ok hok
    exact ⟨⟨text, htext, by simp [haddress]⟩, by simp [hport]⟩

theorem faithful_iff (h : parseCandidate c = .ok candidate) : Faithful c candidate ↔ Narrow c := by
  obtain ⟨text, port, htext, haddress, hport, hportIs, hpriorityIs⟩ := parseCandidate_ok h
  obtain ⟨portDoc, hportDoc, hportU64⟩ := Option.bind_eq_some_iff.mp hport
  have hportFits : HasValue portDoc candidate.port.toNat ↔ port < 2 ^ 16 := by
    rw [hasValue_iff hportU64, hportIs, UInt16.toNat_ofNat', eq_comm, Nat.mod_eq_iff_lt (by decide)]
  have hpriorityFits : ∀ v, field "priority" c = some v →
      (HasValue v candidate.priority.toNat ↔
        (∀ n, asU64 v = some n → n < 2 ^ 32) ∧ (asU64 v = none → HasValue v 100)) := by
    intro v hv
    rw [hpriorityIs, hv, Option.bind_some]
    cases hu64 : asU64 v with
    | none => simp
    | some n =>
      rw [hasValue_iff hu64, Option.getD_some, UInt32.toNat_ofNat', eq_comm,
        Nat.mod_eq_iff_lt (by decide)]
      simp
  constructor
  · intro hfaithful
    refine ⟨fun n hn => ?_, fun v hv => (hpriorityFits v hv).mp (hfaithful.priority v hv)⟩
    obtain rfl := Option.some.inj (hn.symm.trans hport)
    obtain ⟨v, hv, hvalue⟩ := hfaithful.port
    obtain rfl := Option.some.inj (hv.symm.trans hportDoc)
    exact hportFits.mp hvalue
  · intro hnarrow
    exact ⟨⟨text, htext, haddress⟩, ⟨portDoc, hportDoc, hportFits.mpr (hnarrow.1 port hport)⟩,
      fun v hv => (hpriorityFits v hv).mpr (hnarrow.2 v hv)⟩

end Element

/-! ### The loop -/

theorem parse_all {items : List Doc} {parsed : List IceCandidate} :
    items.mapM parseCandidate = .ok parsed ↔
      List.Forall₂ (fun c candidate => parseCandidate c = .ok candidate) items parsed := by
  induction items generalizing parsed with
  | nil => cases parsed <;> simp [pure, Except.pure]
  | cons c items ih =>
    rw [List.mapM_cons, List.forall₂_cons_left_iff]
    cases hc : parseCandidate c with
    | error e => simp [bind, Except.bind]
    | ok candidate =>
      cases hrest : items.mapM parseCandidate with
      | error e => simp [bind, Except.bind, ← ih, hrest]
      | ok rest =>
        simp only [bind, Except.bind, pure, Except.pure, ← ih, hrest, Except.ok.injEq]
        grind

theorem exists_parsed {items : List Doc} (hreadable : ∀ c ∈ items, Readable c) :
    ∃ parsed, List.Forall₂ (fun c candidate => parseCandidate c = .ok candidate) items parsed := by
  induction items with
  | nil => exact ⟨[], .nil⟩
  | cons c items ih =>
    obtain ⟨hc, hitems⟩ := List.forall_mem_cons.mp hreadable
    obtain ⟨candidate, hok⟩ := readable_iff.mp hc
    obtain ⟨parsed, hparsed⟩ := ih hitems
    exact ⟨candidate :: parsed, .cons hok hparsed⟩

section Parsed
variable {items : List Doc} {parsed : List IceCandidate}
  (hparsed : List.Forall₂ (fun c candidate => parseCandidate c = .ok candidate) items parsed)
include hparsed

theorem readable_of_parsed : ∀ c ∈ items, Readable c := by
  induction hparsed with
  | nil => simp
  | cons hok _ ih => exact List.forall_mem_cons.mpr ⟨readable_iff.mpr ⟨_, hok⟩, ih⟩

theorem forall₂_faithful_iff : List.Forall₂ Faithful items parsed ↔ ∀ c ∈ items, Narrow c := by
  induction hparsed with
  | nil => simp
  | cons hok _ ih => rw [List.forall₂_cons, List.forall_mem_cons, faithful_iff hok, ih]

end Parsed

/-- A payload is taken faithfully or refused exactly if it has something to refuse, or only
elements with narrow numbers. -/
theorem faithful_or_refused_iff (rt : ClientRuntime) (payload : Doc) :
    FaithfulOrRefused rt payload ↔
      ∀ items, field "candidates" payload = some (.arr items) → (∀ c ∈ items, Readable c) →
        ∀ c ∈ items, Narrow c := by
  cases hitems : (field "candidates" payload).bind asArray with
  | none =>
    refine iff_of_true (.inl ⟨.invalidCandidatePayload, ?_⟩) fun items hfield => ?_
    · rw [ClientRuntime.loadRemoteCandidatesFromDiscovery, hitems, orInvalid]
    · rw [hfield] at hitems
      cases hitems
  | some items =>
    obtain ⟨v, hfield, harr⟩ := Option.bind_eq_some_iff.mp hitems
    obtain rfl := asArray_eq_some.mp harr
    have honly : ∀ others, field "candidates" payload = some (.arr others) → others = items := by
      intro others hothers
      exact Doc.arr.inj (Option.some.inj (hothers.symm.trans hfield))
    cases hall : items.mapM parseCandidate with
    | error e =>
      have hload : rt.loadRemoteCandidatesFromDiscovery payload = (rt, .error e) := by
        simp [ClientRuntime.loadRemoteCandidatesFromDiscovery, hitems, orInvalid, hall]
      refine iff_of_true (.inl ⟨e, hload⟩) fun others hothers hreadable => ?_
      obtain rfl := honly others hothers
      obtain ⟨parsed, hparsed⟩ := exists_parsed hreadable
      rw [parse_all.mpr hparsed] at hall
      cases hall
    | ok parsed =>
      have hload : rt.loadRemoteCandidatesFromDiscovery payload =
          (⟨parsed⟩, .ok parsed.length) := by
        simp [ClientRuntime.loadRemoteCandidatesFromDiscovery, hitems, orInvalid, hall]
      have hparsed := parse_all.mp hall
      have hfaithful : List.Forall₂ Faithful items parsed ↔ ∀ c ∈ items, Narrow c :=
        forall₂_faithful_iff hparsed
      constructor
      · rintro (⟨e, herror⟩ | ⟨rt', n, others, hloaded, hothers, htaken⟩) items' hitems' -
        · rw [hload] at herror
          cases (Prod.mk.inj herror).2
        · obtain rfl := honly others hothers
          obtain rfl := honly items' hitems'
          rw [hload] at hloaded
          obtain ⟨rfl, -⟩ := Prod.mk.inj hloaded
          exact hfaithful.mp htaken
      · intro hnarrow
        refine .inr ⟨_, _, items, hload, hfield, hfaithful.mpr (hnarrow items hfield ?_)⟩
        exact readable_of_parsed hparsed

/-- A relay candidate whose port has 17 bits, and whose priority has 33. -/
def wideCandidate : Doc :=
  .obj [("address", .str "203.0.113.10"), ("port", .num ⟨71536, none⟩), ("type", .str "relay"),
    ("priority", .num ⟨4294967516, none⟩)]

/-- It is taken with the port 6000 and the priority 220. -/
theorem wideCandidate_taken :
    ¬ ∀ (rt : ClientRuntime) (payload : Doc), FaithfulOrRefused rt payload := by
  intro hclaim
  have hload : (ClientRuntime.mk []).loadRemoteCandidatesFromDiscovery
      (.obj [("candidates", .arr [wideCandidate])]) =
        (⟨[⟨"remote", 1, "udp", 220, .v4 0xCB00710A, 6000, .relay, none, none⟩]⟩, .ok 1) := by
    decide +kernel
  obtain ⟨e, herror⟩ | ⟨rt, n, items, hloaded, hitems, htaken⟩ :=
    hclaim ⟨[]⟩ (.obj [("candidates", .arr [wideCandidate])])
  · rw [hload] at herror
    cases (Prod.mk.inj herror).2
  · rw [hload] at hloaded
    obtain ⟨rfl, -⟩ := Prod.mk.inj hloaded
    obtain rfl : [wideCandidate] = items := Doc.arr.inj (Option.some.inj hitems)
    obtain ⟨v, hv, hvalue⟩ := (List.forall₂_cons.mp htaken).1.port
    obtain rfl : .num ⟨71536, none⟩ = v := Option.some.inj hv
    have hport := (hasValue_iff (n := 71536) rfl _).mp hvalue
    exact absurd hport (by decide)

end Todero.Discovery
