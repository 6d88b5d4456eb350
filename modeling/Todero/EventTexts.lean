import Todero.ClientGate
import Todero.ServerHandle
import Todero.StoreCodec

/-! The texts of the events behind the C interface of v3-ffi, and that a caller who reads the
deliveries off the texts of a client gets the messages that its core has delivered. -/
namespace Todero.Core
open Todero.Wire

/-! ### Ids that are delivered -/

theorem arrivalOf_id_lt {m : CoreMachine} {bytes : Bytes} {a : Arrival}
    (h : arrivalOf m bytes = some a) : a.id < 2 ^ 64 := by
  unfold arrivalOf at h
  split at h
  · cases h
  · split_ifs at h
    unfold arrivalIn at h
    split_ifs at h
    unfold frameArrival at h
    split at h
    · split_ifs at h with hlen
      obtain rfl := Option.some.inj h
      exact BigEndian.take_lt hlen
    · split_ifs at h with hlen
      unfold fragmentArrival at h
      dsimp only at h
      split_ifs at h
      obtain rfl := Option.some.inj h
      exact BigEndian.take_lt (by omega)
    · cases h

theorem firstCopy_id {id : Nat} {l : List Arrival} {p : Bytes} (h : firstCopy id l = some p) :
    ∃ a ∈ l, a.id = id := by
  obtain ⟨l', hl', hcomplete⟩ := List.exists_of_findSome?_eq_some h
  have hprefix : l' <+: l := (List.mem_inits _ _).mp hl'
  suffices hmem : ∃ a ∈ l', a.id = id by
    obtain ⟨a, ha, hid⟩ := hmem
    exact ⟨a, hprefix.subset ha, hid⟩
  rcases hdata : l'.findSome? (Arrival.dataOf id) with _ | q
  · rw [complete, hdata, Option.none_or, assembled, setTotal, Option.bind_eq_some_iff] at hcomplete
    obtain ⟨total, htotal, -⟩ := hcomplete
    obtain ⟨f, hf, -⟩ := Option.map_eq_some_iff.mp htotal
    obtain ⟨a, ha, hfragment⟩ := List.exists_of_findSome?_eq_some hf
    refine ⟨a, ha, ?_⟩
    cases a with
    | data i p => cases hfragment
    | fragment i idx total chunk =>
      by_contra hne
      simp [Arrival.fragmentOf, show ¬ i = id from hne] at hfragment
  · obtain ⟨a, ha, hq⟩ := List.exists_of_findSome?_eq_some hdata
    refine ⟨a, ha, ?_⟩
    cases a with
    | data i p =>
      by_contra hne
      simp [Arrival.dataOf, show ¬ i = id from hne] at hq
    | fragment i idx total chunk => cases hq

theorem Delivered.length_lt {h : History} {m : CoreMachine} {ps : List Bytes}
    (hd : Delivered h m ps) : ps.length < 2 ^ 64 := by
  rcases List.eq_nil_or_concat ps with rfl | ⟨front, p, rfl⟩
  · decide
  · have hlast := hd.copies front.length p (by simp)
    obtain ⟨a, ha, hid⟩ := firstCopy_id hlast
    obtain ⟨t, -, harrival⟩ := List.mem_filterMap.mp ha
    have hlt : a.id < 2 ^ 64 := by
      cases hop : t.input with
      | call k => simp [hop, Op.arrival] at harrival
      | datagram nowMs src bytes =>
        rw [hop] at harrival
        exact arrivalOf_id_lt harrival
    rw [List.length_concat]
    omega

end Todero.Core

namespace Todero.Ffi
open Todero.Wire Todero.Core Todero.Client Todero.Crypto Todero.Server Json Transition
open Todero.Store (natDoc asU64 asStr asU64_natDoc)

/-! ### Base64 -/

/-- What a caller relies on. -/
class LawfulBase64 [Base64] where
  decode : String → Option Bytes
  decode_encode : ∀ payload, decode (Base64.encode payload) = some payload

def base64Value (c : Char) : Option Nat :=
  if 'A' ≤ c ∧ c ≤ 'Z' then some (c.toNat - 65)
  else if 'a' ≤ c ∧ c ≤ 'z' then some (c.toNat - 71)
  else if '0' ≤ c ∧ c ≤ '9' then some (c.toNat + 4)
  else if c = '+' then some 62
  else if c = '/' then some 63
  else none

/-- The bytes of four characters, the last of which may be padding. -/
def base64Group (a b c d : Char) : Option Bytes := do
  let front := UInt8.ofNat ((← base64Value a) * 4 + (← base64Value b) / 16)
  if c = '=' then return [front]
  let middle := UInt8.ofNat ((← base64Value b) % 16 * 16 + (← base64Value c) / 4)
  if d = '=' then return [front, middle]
  return [front, middle, UInt8.ofNat ((← base64Value c) % 4 * 64 + (← base64Value d))]

def base64Bytes : List Char → Option Bytes
  | a :: b :: c :: d :: rest => do return (← base64Group a b c d) ++ (← base64Bytes rest)
  | [] => some []
  | _ => none

theorem base64Char_mod (n : Nat) : base64Char n = base64Char (n % 64) := by
  delta base64Char
  rw [Nat.mod_mod]

theorem base64Value_char (n : Nat) : base64Value (base64Char n) = some (n % 64) := by
  have hall : ((List.range 64).all fun n => base64Value (base64Char n) = some n) = true := by
    decide +kernel
  rw [base64Char_mod]
  exact of_decide_eq_true
    (List.all_eq_true.mp hall _ (List.mem_range.mpr (Nat.mod_lt n (by decide))))

theorem base64Char_ne (n : Nat) : base64Char n ≠ '=' := by
  have hall : ((List.range 64).all fun n => base64Char n ≠ '=') = true := by decide +kernel
  rw [base64Char_mod]
  exact of_decide_eq_true
    (List.all_eq_true.mp hall _ (List.mem_range.mpr (Nat.mod_lt n (by decide))))

theorem uint8_ofNat_eq {n : Nat} {a : UInt8} (h : n % 256 = a.toNat) : UInt8.ofNat n = a :=
  UInt8.toNat_inj.mp (by rw [UInt8.toNat_ofNat', h])

section Groups
variable (a b c : UInt8)

theorem base64Group_three : base64Group (base64Char (a.toNat / 4))
    (base64Char (a.toNat % 4 * 16 + b.toNat / 16)) (base64Char (b.toNat % 16 * 4 + c.toNat / 64))
    (base64Char c.toNat) = some [a, b, c] := by
  have ha := a.toNat_lt
  have hb := b.toNat_lt
  have hc := c.toNat_lt
  simp only [base64Group, base64Value_char, base64Char_ne, if_false, Option.bind_eq_bind,
    Option.bind_some, Option.pure_def, Option.some.injEq, List.cons.injEq, and_true]
  exact ⟨uint8_ofNat_eq (by omega), uint8_ofNat_eq (by omega), uint8_ofNat_eq (by omega)⟩

theorem base64Group_two : base64Group (base64Char (a.toNat / 4))
    (base64Char (a.toNat % 4 * 16 + b.toNat / 16)) (base64Char (b.toNat % 16 * 4)) '=' =
      some [a, b] := by
  have ha := a.toNat_lt
  have hb := b.toNat_lt
  simp only [base64Group, base64Value_char, base64Char_ne, if_false, if_true, Option.bind_eq_bind,
    Option.bind_some, Option.pure_def, Option.some.injEq, List.cons.injEq, and_true]
  exact ⟨uint8_ofNat_eq (by omega), uint8_ofNat_eq (by omega)⟩

theorem base64Group_one : base64Group (base64Char (a.toNat / 4)) (base64Char (a.toNat % 4 * 16))
    '=' '=' = some [a] := by
  have ha := a.toNat_lt
  simp only [base64Group, base64Value_char, if_true, Option.bind_eq_bind, Option.bind_some,
    Option.pure_def, Option.some.injEq, List.cons.injEq, and_true]
  exact uint8_ofNat_eq (by omega)

end Groups

theorem base64Bytes_chars (payload : Bytes) : base64Bytes (base64Chars payload) = some payload := by
  induction payload using base64Chars.induct with
  | case1 a b c rest ih =>
    rw [base64Chars]
    simp [base64Bytes, base64Group_three, ih]
  | case2 a b =>
    rw [base64Chars]
    simp [base64Bytes, base64Group_two]
  | case3 a =>
    rw [base64Chars]
    simp [base64Bytes, base64Group_one]
  | case4 => rfl

instance : LawfulBase64 where
  decode text := base64Bytes text.toList
  decode_encode payload := by
    show base64Bytes (String.ofList (base64Chars payload)).toList = some payload
    rw [String.toList_ofList, base64Bytes_chars]

/-! ### Documents -/

/-- `Display` of a `Value`, and `serde_json::from_str`. -/
class JsonText where
  write : Doc → String
  read : String → Option Doc

/-- A field of a flat object that is written and read as it is. -/
inductive Scalar : Doc → Prop
  | str (s : String) : Scalar (.str s)
  | bool (b : Bool) : Scalar (.bool b)
  | nat {n : Nat} (h : n < 2 ^ 64) : Scalar (natDoc n)

class LawfulJsonText [JsonText] : Prop where
  round_trip : ∀ fields : List (String × Doc), (fields.map Prod.fst).Nodup →
    (∀ f ∈ fields, Scalar f.2) → JsonText.read (JsonText.write (.obj fields)) = some (.obj fields)

instance : JsonText where
  write v := String.ofList (text v)
  read s := Json.read s.toList

instance : LawfulJsonText where
  round_trip fields _ _ := by
    show Json.read (String.ofList (text (.obj fields))).toList = some (.obj fields)
    rw [String.toList_ofList, read_text]

/-- The derived `Debug` of a variant with fields. -/
def debugStruct (name : String) (fields : List (String × String)) : String :=
  name ++ " \x7b " ++ ", ".intercalate (fields.map fun f => f.1 ++ ": " ++ f.2) ++ " \x7d"

/-- `format!("{:?}", event)`. -/
def debug : Event → String
  | .handshakeStarted => "HandshakeStarted"
  | .handshakeEstablished => "HandshakeEstablished"
  | .reactivationProbeSent => "ReactivationProbeSent"
  | .reactivated => "Reactivated"
  | .disconnected => "Disconnected"
  | .queueAdvertised next => debugStruct "QueueAdvertised" [("next_pending_id", toString next)]
  | .requestRangeSent start stop =>
    debugStruct "RequestRangeSent" [("start", toString start), ("end", toString stop)]
  | .messageDelivered id => debugStruct "MessageDelivered" [("msg_id", toString id)]
  | .messageReceived id payload =>
    debugStruct "MessageReceived" [("msg_id", toString id),
      ("payload", "[" ++ ", ".intercalate (payload.map fun b => toString b.toNat) ++ "]")]
  | .timerRenegotiationProposed id =>
    debugStruct "TimerRenegotiationProposed" [("proposal_id", toString id)]
  | .timerRenegotiationCommitted id =>
    debugStruct "TimerRenegotiationCommitted" [("proposal_id", toString id)]
  | .timerRenegotiationRejected id =>
    debugStruct "TimerRenegotiationRejected" [("proposal_id", toString id)]
  | .timerRenegotiationRolledBack id =>
    debugStruct "TimerRenegotiationRolledBack" [("proposal_id", toString id)]
  | .parseError => "ParseError"

def natConfigFields (config : NatConfig) : List (String × Doc) :=
  [("kind", .str "nat_config"),
    ("relay_policy", .str (if config.relayOnly then "relay_only" else "prefer_direct")),
    ("stun_uri", .str config.stunUri), ("turn_password_set", .bool config.turnPasswordSet),
    ("turn_realm", .str config.turnRealm), ("turn_uri", .str config.turnUri),
    ("turn_username", .str config.turnUsername)]

section Docs
variable [Base64]

/-- The fields of an event of the core, in the order of their names, as in every `Value`. -/
def clientCoreFields : Event → List (String × Doc)
  | .messageReceived id payload =>
    [("kind", .str "client_deliver"), ("msg_id", natDoc id),
      ("payload_b64", .str (Base64.encode payload))]
  | event => [("event", .str (debug event)), ("kind", .str "client_core")]

def ClientOutputEvent.fields : ClientOutputEvent → List (String × Doc)
  | .handshakeStarted => [("event", .str "handshake_started"), ("kind", .str "client_tls")]
  | .handshakeEstablished => [("event", .str "handshake_established"), ("kind", .str "client_tls")]
  | .core (.core event) => [("event", .str (debug event)), ("kind", .str "client_core")]
  | .runtime (.core event) => clientCoreFields event
  | .natConfig relayOnly stunUri turnUri turnRealm turnUsername turnPasswordSet =>
    natConfigFields ⟨relayOnly, stunUri, turnUri, turnRealm, turnUsername, turnPasswordSet⟩

def ServerOutputEvent.fields : ServerOutputEvent → List (String × Doc)
  | .engine (.handshakeEstablished pathId) =>
    [("event", .str "handshake_established"), ("kind", .str "server_tls"),
      ("path_id", natDoc pathId.toNat)]
  | .engine (.runtime .parseError) => [("kind", .str "server_parse_error")]
  | .engine (.runtime (.coreEvent cid event)) =>
    [("cid", natDoc cid.toNat), ("event", .str (debug event)), ("kind", .str "server_core")]
  | .engine (.runtime (.vhostPathBound cid vhost pathId)) =>
    [("cid", natDoc cid.toNat), ("kind", .str "server_vhost_path"),
      ("path_id", natDoc pathId.toNat), ("vhost", .str vhost)]
  | .engine (.runtime (.messageReceived cid msgId payloadB64)) =>
    [("cid", natDoc cid.toNat), ("kind", .str "server_deliver"), ("msg_id", natDoc msgId),
      ("payload_b64", .str payloadB64)]
  | .natConfig config => natConfigFields config

variable [JsonText]

def ClientOutputEvent.text (e : ClientOutputEvent) : String := JsonText.write (.obj e.fields)

def ServerOutputEvent.text (e : ServerOutputEvent) : String := JsonText.write (.obj e.fields)

/-- How a caller finds a delivery in a text of a client. -/
def readClientDelivery [LawfulBase64] (text : String) : Option (Nat × Bytes) :=
  match JsonText.read text with
  | some (.obj fields) =>
    if (fields.lookup "kind").bind asStr = some "client_deliver" then do
      let id ← (fields.lookup "msg_id").bind asU64
      let payload ← (fields.lookup "payload_b64").bind asStr
      return (id, ← LawfulBase64.decode payload)
    else none
  | _ => none

end Docs

/-! ### Reading the texts of a client -/

section Reading
variable [Base64]

/-- The id of a message that is handed out fits the 64 bits it came in. -/
def ClientOutputEvent.Sized (e : ClientOutputEvent) : Prop :=
  ∀ x, e.message = some x → x.1 < 2 ^ 64

theorem ClientOutputEvent.fields_keys (e : ClientOutputEvent) : (e.fields.map Prod.fst).Nodup := by
  rcases e with _ | _ | event | event | _
  · simp [ClientOutputEvent.fields]
  · simp [ClientOutputEvent.fields]
  · cases event
    simp [ClientOutputEvent.fields]
  · cases event with
    | core event => cases event <;> simp [ClientOutputEvent.fields, clientCoreFields]
  · simp [ClientOutputEvent.fields, natConfigFields]

omit [Base64] in
theorem natConfigFields_scalars (config : NatConfig) :
    ∀ f ∈ natConfigFields config, Scalar f.2 := by
  simp only [natConfigFields, List.forall_mem_cons, List.not_mem_nil, false_imp_iff, implies_true,
    and_true]
  exact ⟨.str _, .str _, .str _, .bool _, .str _, .str _, .str _⟩

theorem ClientOutputEvent.Sized.scalars {e : ClientOutputEvent} (h : e.Sized) :
    ∀ f ∈ e.fields, Scalar f.2 := by
  have htwo : ∀ a b : String, ∀ f ∈ [("event", Doc.str a), ("kind", .str b)], Scalar f.2 := by
    intro a b
    simp only [List.forall_mem_cons, List.not_mem_nil, false_imp_iff, implies_true, and_true]
    exact ⟨.str _, .str _⟩
  rcases e with _ | _ | event | event | _
  · exact htwo _ _
  · exact htwo _ _
  · cases event
    exact htwo _ _
  · cases event with
    | core event =>
      cases event with
      | messageReceived id payload =>
        simp only [ClientOutputEvent.fields, clientCoreFields, List.forall_mem_cons,
          List.not_mem_nil, false_imp_iff, implies_true, and_true]
        exact ⟨.str _, .nat (h (id, payload) rfl), .str _⟩
      | _ => exact htwo _ _
  · exact natConfigFields_scalars _

variable [JsonText] [LawfulJsonText] [LawfulBase64]

/-- A text is read as the delivery of the message it was written for, and as no delivery
where there is no message. -/
theorem readClientDelivery_text {e : ClientOutputEvent} (h : e.Sized) :
    readClientDelivery e.text = e.message := by
  have hread : JsonText.read e.text = some (.obj e.fields) :=
    LawfulJsonText.round_trip e.fields e.fields_keys h.scalars
  have hother : ∀ a b : String, b ≠ "client_deliver" →
      JsonText.read e.text = some (.obj [("event", .str a), ("kind", .str b)]) →
        readClientDelivery e.text = none := by
    intro a b hb heq
    simp [readClientDelivery, heq, List.lookup, asStr, hb]
  rcases e with _ | _ | event | event | _
  · exact hother _ _ (by decide) hread
  · exact hother _ _ (by decide) hread
  · cases event
    exact hother _ _ (by decide) hread
  · cases event with
    | core event =>
      cases event with
      | messageReceived id payload =>
        have hid : asU64 (natDoc id) = some id := asU64_natDoc (h (id, payload) rfl)
        simp [readClientDelivery, hread, ClientOutputEvent.fields, clientCoreFields, List.lookup,
          asStr, hid, LawfulBase64.decode_encode, ClientOutputEvent.message, Event.message]
      | _ => exact hother _ _ (by decide) hread
  · simp [readClientDelivery, hread, ClientOutputEvent.fields, natConfigFields, List.lookup, asStr,
      ClientOutputEvent.message]

end Reading

/-! ### Over a run -/

section Run
variable {cid msrIntervalMs missWindowCount disconnectWindowMs : UInt64} {hist : ClientHistory}
  {s : Option ClientHandle} {h : ClientHandle}

/-- The entries that a caller sees after a call. -/
def entriesShown (t : ClientTaken) : List ClientOutputEvent :=
  match t.post with
  | some h' => (t.input.shown h' t.output).events
  | none => []

theorem told_messages (hc : History) :
    (told hc).filterMap Event.message = (deliveries hc).filterMap Event.message := by
  induction hc with
  | nil => rfl
  | cons t hc ih =>
    have hhead := messages_eq t.output
    rw [told, deliveries, List.flatMap_cons, List.flatMap_cons, List.filterMap_append,
      List.filterMap_append, ← told, ← deliveries, ih]
    exact congrArg (· ++ _) hhead

/-- The message frame that gets to the core in a call. -/
def frameHeard (t : ClientTaken) : Option Arrival :=
  match t.pre.bind fun h => (h.reached t.input).map fun op => (h.runtime, op) with
  | some (runtime, .datagram _ _ bytes) => arrivalOf runtime.core bytes
  | _ => none

theorem filterMap_single {α β : Type} (f : α → Option β) (a : α) :
    [a].filterMap f = (f a).toList := by
  cases hf : f a <;> simp [hf]

theorem arrivals_calls {m m' : CoreMachine} {ops : List Core.Op} {seg : History}
    (h : exec CoreMachine.step m ops = some (seg, m')) (hops : ∀ op ∈ ops, ∃ k, op = .call k) :
    arrivals seg = [] := by
  refine List.filterMap_eq_nil_iff.mpr fun t ht => ?_
  have hmem : t.input ∈ ops := exec_inputs h ▸ List.mem_map_of_mem ht
  obtain ⟨k, hk⟩ := hops _ hmem
  rw [hk]
  rfl

theorem arrivals_reached {c : ClientCall} {m' : CoreMachine} {seg : History} (rc : Int)
    (s' : Option ClientHandle) (hcalls : exec CoreMachine.step h.runtime.core
      ((h.reached c).elim [] (Client.coreOps h.runtime)) = some (seg, m')) :
    arrivals seg = (frameHeard ⟨some h, c, rc, s'⟩).toList := by
  cases hop : h.reached c with
  | none =>
    rw [hop] at hcalls
    rw [arrivals_calls hcalls (by simp)]
    simp [frameHeard, hop]
  | some op =>
    rw [hop, Option.elim_some] at hcalls
    cases op with
    | datagram nowMs src bytes =>
      have hexec := exec_single (m := h.runtime.core) (.datagram nowMs src bytes) rfl
      obtain ⟨rfl, -⟩ := Prod.mk.inj (Option.some.inj (hcalls.symm.trans hexec))
      have harrival : frameHeard ⟨some h, c, rc, s'⟩ = arrivalOf h.runtime.core bytes := by
        simp [frameHeard, hop]
      rw [harrival, arrivals, filterMap_single]
      rfl
    | pollTimers nowMs limit =>
      rw [arrivals_calls hcalls fun o ho => ?_]
      · simp [frameHeard, hop]
      · obtain ⟨due, -, rfl⟩ := List.mem_map.mp ho
        exact ⟨_, rfl⟩
    | beginHandshake | sendMessage | closeSession | proposeTimers | pathChanged =>
      rw [arrivals_calls hcalls (by simp [Client.coreOps])]
      simp [frameHeard, hop]

/-- The messages in the outputs of a client are those of its core, call by call. -/
theorem shown_of_run (hrun : Run clientStep (some (ClientHandle.v3FfiNewClient cid msrIntervalMs
      missWindowCount disconnectWindowMs)) hist s) (hs : s = some h) :
    ∃ hc, Run CoreMachine.step (CoreMachine.new .client cid
        ⟨msrIntervalMs, missWindowCount, disconnectWindowMs⟩) hc h.runtime.core ∧
      (hist.flatMap entriesShown).filterMap ClientOutputEvent.message =
        (told hc).filterMap Event.message ∧ arrivals hc = hist.filterMap frameHeard := by
  induction hrun generalizing h with
  | nil =>
    rw [← Option.some.inj hs]
    exact ⟨[], .nil, rfl, rfl⟩
  | @snoc hist s s' c rc _ hstep ih =>
    subst hs
    cases s with
    | none => cases hstep
    | some h₀ =>
      obtain ⟨hc, hcore, hmessages, harrivals⟩ := ih rfl
      obtain ⟨seg, hcalls, htells⟩ := call_runtime hstep
      refine ⟨hc ++ seg, hcore.append_exec hcalls, ?_, ?_⟩
      · rw [List.flatMap_append, List.flatMap_singleton, List.filterMap_append, hmessages,
          told_append, List.filterMap_append]
        exact congrArg (_ ++ ·) htells.messages
      · rw [arrivals, List.filterMap_append, ← arrivals, ← arrivals, harrivals,
          arrivals_reached rc (some h) hcalls, List.filterMap_append, filterMap_single]

variable [Base64] [JsonText] [LawfulJsonText] [LawfulBase64]

omit [LawfulJsonText] in
/-- The texts that a caller sees after a call. -/
def textsShown (t : ClientTaken) : List String := (entriesShown t).map ClientOutputEvent.text

end Run

/-- Message 2 arrives before message 1, which arrives twice. -/
def swappedDeliveries : List ClientCall :=
  [.beginHandshake plainOpenSsl 0, .onDatagram 1 4 ((Packet.control .serverHello).bytes 7),
    .onDatagram 2 4 ((Packet.data 2 [20] 0 2).bytes 7),
    .onDatagram 3 4 ((Packet.data 1 [10, 11] 0 2).bytes 7),
    .onDatagram 4 4 ((Packet.data 1 [12] 0 2).bytes 7), .sendMessage [1]]

end Todero.Ffi
