import Todero.SessionStore
import Todero.Lib.Json
import Todero.Lib.Utf8

/-! What the store on disk writes and reads back: the JSON documents of its records, log
entries and snapshots as serde derives them, and `serde_json` and the hasher themselves as
parameters. -/
namespace Todero.Store
open Todero.Wire Json

/-- `serde_json`: the text of a document, the document of a text, and the message for a
document of another shape than the one asked for. -/
class SerdeJson where
  toVec : Doc → Except String Bytes
  fromSlice : Bytes → Except String Doc
  mismatch : Doc → String

/-- A document of at most `depth` levels whose numbers are unsigned 64-bit integers and whose
objects have no field twice. -/
inductive Plain : Nat → Doc → Prop
  | num {depth n : Nat} : n < 2 ^ 64 → Plain depth (.num ⟨n, none⟩)
  | str {depth : Nat} {s : String} : Plain depth (.str s)
  | arr {depth : Nat} {items : List Doc} :
      (∀ v ∈ items, Plain depth v) → Plain (depth + 1) (.arr items)
  | obj {depth : Nat} {fields : List (String × Doc)} : (fields.map Prod.fst).Nodup →
      (∀ f ∈ fields, Plain depth f.2) → Plain (depth + 1) (.obj fields)

/-- What the store relies on. The compact text has no control characters in it, the text of
an object ends with the brace that closes it, and the reader stops at 128 levels. -/
class LawfulSerdeJson [SerdeJson] : Prop where
  round_trip : ∀ v : Doc, Plain 127 v →
    ∃ text, SerdeJson.toVec v = .ok text ∧ SerdeJson.fromSlice text = .ok v
  one_line : ∀ (v : Doc) (text : Bytes), SerdeJson.toVec v = .ok text →
    (Utf8.decode text).isSome ∧ ∀ b ∈ text, 32 ≤ b.toNat
  braces : ∀ (fields : List (String × Doc)) (text : Bytes),
    SerdeJson.toVec (.obj fields) = .ok text → ∃ inner, text = 123 :: (inner ++ [125])
  cut_short : ∀ (fields : List (String × Doc)) (text cut : Bytes),
    SerdeJson.toVec (.obj fields) = .ok text → cut <+: text → cut ≠ text →
      ∃ e, SerdeJson.fromSlice cut = .error e

/-- `DefaultHasher` fed with one byte slice. -/
class DefaultHasher where
  hash : Bytes → UInt64

/-! ### Derived codecs -/

def natDoc (n : Nat) : Doc := .num ⟨n, none⟩

/-- `Value::as_u64`. -/
def asU64 : Doc → Option Nat
  | .num ⟨.ofNat n, none⟩ => if n < 2 ^ 64 then some n else none
  | _ => none

def asUnsigned (bound : Nat) (v : Doc) : Option Nat := (asU64 v).filter (· < bound)

def asStr : Doc → Option String
  | .str s => some s
  | _ => none

/-- The items of a `Vec<u8>`. -/
def asBytes : Doc → Option Bytes
  | .arr items => items.mapM fun v => (asUnsigned 256 v).map UInt8.ofNat
  | _ => none

/-- The values of a struct's fields: from an object with each of them once, other fields
passed over, or from an array. -/
def structFields (names : List String) : Doc → Option (List Doc)
  | .obj fields => names.mapM fun name =>
    match fields.filter (·.1 = name) with
    | [(_, v)] => some v
    | _ => none
  | .arr items => if items.length = names.length then some items else none
  | _ => none

def SessionRecord.doc (r : SessionRecord) : Doc :=
  .obj [("cid", natDoc r.cid.toNat), ("peer_id", .str r.peerId),
    ("negotiated_msr_interval_ms", natDoc r.negotiatedMsrIntervalMs.toNat),
    ("disconnect_window_ms", natDoc r.disconnectWindowMs.toNat),
    ("last_ordered_rx", natDoc r.lastOrderedRx), ("last_ordered_tx", natDoc r.lastOrderedTx)]

def SessionRecord.ofDoc (v : Doc) : Option SessionRecord := do
  match ← structFields ["cid", "peer_id", "negotiated_msr_interval_ms", "disconnect_window_ms",
    "last_ordered_rx", "last_ordered_tx"] v with
  | [cid, peerId, interval, window, rx, tx] =>
    some ⟨UInt64.ofNat (← asU64 cid), ← asStr peerId, UInt64.ofNat (← asU64 interval),
      UInt64.ofNat (← asU64 window), ← asU64 rx, ← asU64 tx⟩
  | _ => none

structure StoredSession where
  schemaVersion : UInt16
  record : SessionRecord
  deriving DecidableEq, Repr

def StoredSession.doc (s : StoredSession) : Doc :=
  .obj [("schema_version", natDoc s.schemaVersion.toNat), ("record", s.record.doc)]

def StoredSession.ofDoc (v : Doc) : Option StoredSession := do
  match ← structFields ["schema_version", "record"] v with
  | [schema, record] =>
    some ⟨UInt16.ofNat (← asUnsigned 65536 schema), ← SessionRecord.ofDoc record⟩
  | _ => none

structure LegacyStoredSessionV0 where
  record : SessionRecord
  deriving DecidableEq, Repr

def LegacyStoredSessionV0.ofDoc (v : Doc) : Option LegacyStoredSessionV0 := do
  match ← structFields ["record"] v with
  | [record] => some ⟨← SessionRecord.ofDoc record⟩
  | _ => none

inductive DiskOp where
  | upsert (cid version expiresAtMs : UInt64) (data : Bytes)
  | delete (cid : UInt64)
  deriving DecidableEq, Repr

def bytesDoc (data : Bytes) : Doc := .arr (data.map fun b => natDoc b.toNat)

/-- The tag stands among the fields of the variant. -/
def DiskOp.doc : DiskOp → Doc
  | .upsert cid version expiresAtMs data =>
    .obj [("op", .str "Upsert"), ("cid", natDoc cid.toNat), ("version", natDoc version.toNat),
      ("expires_at_ms", natDoc expiresAtMs.toNat), ("data", bytesDoc data)]
  | .delete cid => .obj [("op", .str "Delete"), ("cid", natDoc cid.toNat)]

/-- The tag of an internally tagged enum and what is left for the variant. -/
def tagged (tag : String) : Doc → Option (String × Doc)
  | .obj fields =>
    match fields.filter (·.1 = tag) with
    | [(_, .str name)] => some (name, .obj (fields.filter (·.1 ≠ tag)))
    | _ => none
  | .arr (.str name :: items) => some (name, .arr items)
  | _ => none

def DiskOp.ofDoc (v : Doc) : Option DiskOp := do
  let (name, v) ← tagged "op" v
  if name = "Upsert" then
    match ← structFields ["cid", "version", "expires_at_ms", "data"] v with
    | [cid, version, expires, data] =>
      some (.upsert (UInt64.ofNat (← asU64 cid)) (UInt64.ofNat (← asU64 version))
        (UInt64.ofNat (← asU64 expires)) (← asBytes data))
    | _ => none
  else if name = "Delete" then
    match ← structFields ["cid"] v with
    | [cid] => some (.delete (UInt64.ofNat (← asU64 cid)))
    | _ => none
  else none

structure DiskLogEntry where
  op : DiskOp
  checksum : UInt64
  deriving DecidableEq, Repr

def DiskLogEntry.doc (e : DiskLogEntry) : Doc :=
  .obj [("op", e.op.doc), ("checksum", natDoc e.checksum.toNat)]

def DiskLogEntry.ofDoc (v : Doc) : Option DiskLogEntry := do
  match ← structFields ["op", "checksum"] v with
  | [op, checksum] => some ⟨← DiskOp.ofDoc op, UInt64.ofNat (← asU64 checksum)⟩
  | _ => none

structure DiskSnapshotEntry where
  cid : UInt64
  version : UInt64
  expiresAtMs : UInt64
  data : Bytes
  deriving DecidableEq, Repr

def DiskSnapshotEntry.doc (e : DiskSnapshotEntry) : Doc :=
  .obj [("cid", natDoc e.cid.toNat), ("version", natDoc e.version.toNat),
    ("expires_at_ms", natDoc e.expiresAtMs.toNat), ("data", bytesDoc e.data)]

def DiskSnapshotEntry.ofDoc (v : Doc) : Option DiskSnapshotEntry := do
  match ← structFields ["cid", "version", "expires_at_ms", "data"] v with
  | [cid, version, expires, data] =>
    some ⟨UInt64.ofNat (← asU64 cid), UInt64.ofNat (← asU64 version),
      UInt64.ofNat (← asU64 expires), ← asBytes data⟩
  | _ => none

structure DiskSnapshot where
  schemaVersion : UInt16
  entries : List DiskSnapshotEntry
  deriving DecidableEq, Repr

def DiskSnapshot.doc (s : DiskSnapshot) : Doc :=
  .obj [("schema_version", natDoc s.schemaVersion.toNat),
    ("entries", .arr (s.entries.map DiskSnapshotEntry.doc))]

def DiskSnapshot.ofDoc (v : Doc) : Option DiskSnapshot := do
  match ← structFields ["schema_version", "entries"] v with
  | [schema, .arr items] =>
    some ⟨UInt16.ofNat (← asUnsigned 65536 schema), ← items.mapM DiskSnapshotEntry.ofDoc⟩
  | _ => none

/-! ### A derived codec reads what it has written -/

/-- The positions are 64-bit numbers in a record that is written to disk. -/
def SessionRecord.Fits (r : SessionRecord) : Prop :=
  r.lastOrderedRx < 2 ^ 64 ∧ r.lastOrderedTx < 2 ^ 64

instance (r : SessionRecord) : Decidable r.Fits := by
  unfold SessionRecord.Fits
  infer_instance

theorem asU64_natDoc {n : Nat} (h : n < 2 ^ 64) : asU64 (natDoc n) = some n :=
  if_pos h

@[simp] theorem asU64_uint64 (n : UInt64) : asU64 (natDoc n.toNat) = some n.toNat :=
  asU64_natDoc n.toNat_lt

theorem asUnsigned_natDoc {bound n : Nat} (hn : n < bound) (hbound : bound ≤ 2 ^ 64) :
    asUnsigned bound (natDoc n) = some n := by
  rw [asUnsigned, asU64_natDoc (by omega), Option.filter_some, if_pos (by simpa using hn)]

theorem asUnsigned_uint16 (n : UInt16) : asUnsigned 65536 (natDoc n.toNat) = some n.toNat :=
  asUnsigned_natDoc n.toNat_lt (by decide)

theorem mapM_map_some {α β : Type} {f : α → β} {g : β → Option α} (xs : List α)
    (h : ∀ x ∈ xs, g (f x) = some x) : (xs.map f).mapM g = some xs := by
  induction xs with
  | nil => rfl
  | cons x xs ih =>
    have hx := h x List.mem_cons_self
    have hxs := ih fun y hy => h y (List.mem_cons_of_mem x hy)
    simp [hx, hxs]

@[simp] theorem asBytes_bytesDoc (data : Bytes) : asBytes (bytesDoc data) = some data := by
  refine mapM_map_some data fun b _ => ?_
  rw [asUnsigned_natDoc b.toNat_lt (by decide), Option.map_some, UInt8.ofNat_toNat]

theorem SessionRecord.ofDoc_doc {r : SessionRecord} (h : r.Fits) : ofDoc r.doc = some r := by
  simp [ofDoc, doc, structFields, asStr, asU64_natDoc h.1, asU64_natDoc h.2]

theorem StoredSession.ofDoc_doc {s : StoredSession} (h : s.record.Fits) :
    ofDoc s.doc = some s := by
  simp [ofDoc, doc, structFields, asUnsigned_uint16, SessionRecord.ofDoc_doc h]

theorem DiskOp.ofDoc_doc (op : DiskOp) : ofDoc op.doc = some op := by
  cases op <;> simp [ofDoc, doc, tagged, structFields]

theorem DiskLogEntry.ofDoc_doc (e : DiskLogEntry) : ofDoc e.doc = some e := by
  simp [ofDoc, doc, structFields, DiskOp.ofDoc_doc]

theorem DiskSnapshotEntry.ofDoc_doc (e : DiskSnapshotEntry) : ofDoc e.doc = some e := by
  simp [ofDoc, doc, structFields]

theorem DiskSnapshot.ofDoc_doc (s : DiskSnapshot) : ofDoc s.doc = some s := by
  have hentries := mapM_map_some s.entries fun e _ => DiskSnapshotEntry.ofDoc_doc e
  simp [ofDoc, doc, structFields, asUnsigned_uint16, hentries]

/-! All of them are documents that the text keeps as they are. -/

theorem Plain.nat {depth n : Nat} (h : n < 2 ^ 64) : Plain depth (natDoc n) := .num h

theorem Plain.uint64 {depth : Nat} (n : UInt64) : Plain depth (natDoc n.toNat) := .num n.toNat_lt

theorem Plain.bytes {depth : Nat} (data : Bytes) : Plain (depth + 1) (bytesDoc data) := by
  refine .arr fun v hv => ?_
  obtain ⟨b, -, rfl⟩ := List.mem_map.mp hv
  exact .nat (b.toNat_lt.trans (by decide))

theorem SessionRecord.plain {depth : Nat} {r : SessionRecord} (h : r.Fits) :
    Plain (depth + 1) r.doc := by
  refine .obj (by simp) ?_
  simp only [List.forall_mem_cons, List.not_mem_nil, false_imp_iff, implies_true, and_true]
  exact ⟨.uint64 _, .str, .uint64 _, .uint64 _, .nat h.1, .nat h.2⟩

theorem StoredSession.plain {depth : Nat} {s : StoredSession} (h : s.record.Fits) :
    Plain (depth + 2) s.doc := by
  refine .obj (by simp) ?_
  simp only [List.forall_mem_cons, List.not_mem_nil, false_imp_iff, implies_true, and_true]
  exact ⟨.nat (s.schemaVersion.toNat_lt.trans (by decide)), SessionRecord.plain h⟩

theorem DiskOp.plain {depth : Nat} (op : DiskOp) : Plain (depth + 2) op.doc := by
  cases op with
  | upsert cid version expiresAtMs data =>
    refine .obj (by simp) ?_
    simp only [List.forall_mem_cons, List.not_mem_nil, false_imp_iff, implies_true, and_true]
    exact ⟨.str, .uint64 _, .uint64 _, .uint64 _, .bytes data⟩
  | delete cid =>
    refine .obj (by simp) ?_
    simp only [List.forall_mem_cons, List.not_mem_nil, false_imp_iff, implies_true, and_true]
    exact ⟨.str, .uint64 _⟩

theorem DiskLogEntry.plain {depth : Nat} (e : DiskLogEntry) : Plain (depth + 3) e.doc := by
  refine .obj (by simp) ?_
  simp only [List.forall_mem_cons, List.not_mem_nil, false_imp_iff, implies_true, and_true]
  exact ⟨e.op.plain, .uint64 _⟩

theorem DiskSnapshotEntry.plain {depth : Nat} (e : DiskSnapshotEntry) :
    Plain (depth + 2) e.doc := by
  refine .obj (by simp) ?_
  simp only [List.forall_mem_cons, List.not_mem_nil, false_imp_iff, implies_true, and_true]
  exact ⟨.uint64 _, .uint64 _, .uint64 _, .bytes e.data⟩

theorem DiskSnapshot.plain {depth : Nat} (s : DiskSnapshot) : Plain (depth + 4) s.doc := by
  refine .obj (by simp) ?_
  simp only [List.forall_mem_cons, List.not_mem_nil, false_imp_iff, implies_true, and_true]
  refine ⟨.nat (s.schemaVersion.toNat_lt.trans (by decide)), .arr fun v hv => ?_⟩
  obtain ⟨e, -, rfl⟩ := List.mem_map.mp hv
  exact e.plain

/-! ### Records -/

/-- `Value::get` of a field: the last one of that name. -/
def field (name : String) : Doc → Option Doc
  | .obj fields => (fields.reverse.find? (·.1 = name)).map Prod.snd
  | _ => none

mutual
/-- A document as a `Value` holds it, with the last of several fields of one name. -/
def value : Doc → Doc
  | .arr items => .arr (values items)
  | .obj fields => .obj (lastFields fields)
  | v => v

def values : List Doc → List Doc
  | [] => []
  | v :: vs => value v :: values vs

def lastFields : List (String × Doc) → List (String × Doc)
  | [] => []
  | (name, v) :: fs =>
    if fs.any (·.1 = name) then lastFields fs else (name, value v) :: lastFields fs
end

section Codec
variable [SerdeJson]

def toVec (v : Doc) : Except StoreError Bytes :=
  match SerdeJson.toVec v with
  | .error e => .error (.serialization e)
  | .ok text => .ok text

/-- `serde_json::from_slice` at the type `ofDoc` reads. -/
def fromSlice {α : Type} (ofDoc : Doc → Option α) (bytes : Bytes) : Except String α :=
  match SerdeJson.fromSlice bytes with
  | .error e => .error e
  | .ok v =>
    match ofDoc v with
    | none => .error (SerdeJson.mismatch v)
    | some a => .ok a

def sessionSchemaVersion : UInt16 := 1

def encodeSessionRecord (record : SessionRecord) : Except StoreError Bytes :=
  toVec (StoredSession.doc ⟨sessionSchemaVersion, record⟩)

def decodeSessionRecord (bytes : Bytes) : Except StoreError SessionRecord :=
  match fromSlice StoredSession.ofDoc bytes with
  | .error e => .error (.serialization e)
  | .ok payload =>
    if payload.schemaVersion ≠ sessionSchemaVersion then
      .error (.unsupportedSchemaVersion payload.schemaVersion)
    else .ok payload.record

/-- `as u16` keeps the low bits of the version found. -/
def decodeSessionRecordMigrating (bytes : Bytes) : Except StoreError SessionRecord :=
  match SerdeJson.fromSlice bytes with
  | .error e => .error (.serialization e)
  | .ok v =>
    let schema := UInt16.ofNat (((field "schema_version" v).bind asU64).getD 0)
    if schema = sessionSchemaVersion then decodeSessionRecord bytes
    else if schema = 0 then
      match LegacyStoredSessionV0.ofDoc (value v) with
      | none => .error (.serialization (SerdeJson.mismatch v))
      | some legacy => .ok legacy.record
    else .error (.unsupportedSchemaVersion schema)

def calcChecksum [DefaultHasher] (bytes : Bytes) : UInt64 := DefaultHasher.hash bytes

variable [LawfulSerdeJson]

omit [LawfulSerdeJson] in
theorem toVec_eq_ok {v : Doc} {text : Bytes} :
    toVec v = .ok text ↔ SerdeJson.toVec v = .ok text := by
  unfold toVec
  cases SerdeJson.toVec v <;> simp

/-- A document is read back at its own type. -/
theorem toVec_plain {α : Type} {ofDoc : Doc → Option α} {v : Doc} {a : α} (hplain : Plain 127 v)
    (hdoc : ofDoc v = some a) : ∃ text, toVec v = .ok text ∧ fromSlice ofDoc text = .ok a := by
  obtain ⟨text, hwrite, hread⟩ := LawfulSerdeJson.round_trip v hplain
  exact ⟨text, by simp [toVec, hwrite], by simp [fromSlice, hread, hdoc]⟩

theorem encodeSessionRecord_decodes {r : SessionRecord} (h : r.Fits) :
    ∃ data, encodeSessionRecord r = .ok data ∧ decodeSessionRecord data = .ok r ∧
      decodeSessionRecordMigrating data = .ok r := by
  obtain ⟨data, hwrite, hread⟩ :=
    LawfulSerdeJson.round_trip (StoredSession.doc ⟨sessionSchemaVersion, r⟩) (StoredSession.plain h)
  have hdecode : decodeSessionRecord data = .ok r := by
    have hdoc := StoredSession.ofDoc_doc (s := ⟨sessionSchemaVersion, r⟩) h
    simp [decodeSessionRecord, fromSlice, hread, hdoc]
  have hschema : ((field "schema_version" (StoredSession.doc ⟨sessionSchemaVersion, r⟩)).bind
      asU64).getD 0 = 1 := rfl
  refine ⟨data, by simp [encodeSessionRecord, toVec, hwrite], hdecode, ?_⟩
  simp only [decodeSessionRecordMigrating, hread, hschema]
  exact hdecode

end Codec

/-! ### JSON text and the hasher -/

instance : SerdeJson where
  toVec v := .ok (Utf8.encode (String.ofList (text v)))
  fromSlice bytes :=
    match Utf8.decode bytes with
    | none => .error "invalid unicode code point"
    | some s =>
      match read s.toList with
      | none => .error "expected value"
      | some v => .ok v
  mismatch _ := "invalid type"

instance : LawfulSerdeJson where
  round_trip v _ := by
    refine ⟨_, rfl, ?_⟩
    simp [SerdeJson.fromSlice, Utf8.decode_encode, read_text]
  one_line v txt h := by
    obtain rfl := Except.ok.inj h
    refine ⟨by rw [Utf8.decode_encode]; rfl, fun b hb => ?_⟩
    by_contra hlow
    obtain ⟨c, hc, hcb⟩ := Utf8.ascii_mem_encode (by omega) hb
    rw [String.toList_ofList] at hc
    have hprint := text_printable v c hc
    omega
  braces fields txt h := by
    obtain rfl := Except.ok.inj h
    refine ⟨(fieldsText fields).flatMap String.utf8EncodeChar, ?_⟩
    rw [Utf8.encode_ofList, text]
    simp
    rfl
  cut_short fields txt cut h hcut hne := by
    obtain rfl := Except.ok.inj h
    obtain ⟨rest, hrest⟩ := hcut
    cases hdecode : Utf8.decode cut with
    | none => exact ⟨_, by simp [SerdeJson.fromSlice, hdecode]; rfl⟩
    | some t =>
      obtain ⟨u, hu⟩ := Utf8.decode_prefix hrest hdecode
      have hchars : t.toList ++ u.toList = text (.obj fields) := by
        rw [← String.toList_append, ← hu, String.toList_ofList]
      have hmore : u.toList ≠ [] := by
        intro hnil
        rw [hnil, List.append_nil] at hchars
        refine hne ?_
        rw [← Utf8.encode_of_decode hdecode, ← hchars, String.ofList_toList]
      exact ⟨_, by simp [SerdeJson.fromSlice, hdecode, read_cut hmore hchars]; rfl⟩

/-- One round of SipHash. -/
def sipRound (v : UInt64 × UInt64 × UInt64 × UInt64) : UInt64 × UInt64 × UInt64 × UInt64 :=
  let rotate (x : UInt64) (n : UInt64) := x <<< n ||| x >>> (64 - n)
  let (v0, v1, v2, v3) := v
  let v0 := v0 + v1
  let v1 := rotate v1 13 ^^^ v0
  let v0 := rotate v0 32
  let v2 := v2 + v3
  let v3 := rotate v3 16 ^^^ v2
  let v0 := v0 + v3
  let v3 := rotate v3 21 ^^^ v0
  let v2 := v2 + v1
  let v1 := rotate v1 17 ^^^ v2
  let v2 := rotate v2 32
  (v0, v1, v2, v3)

/-- A number of at most eight bytes, the lowest first. -/
def littleEndian (bytes : Bytes) : UInt64 :=
  bytes.foldr (fun b n => n <<< 8 ||| b.toUInt64) 0

def sipAbsorb (v : UInt64 × UInt64 × UInt64 × UInt64) (m : UInt64) :
    UInt64 × UInt64 × UInt64 × UInt64 :=
  let (v0, v1, v2, v3) := sipRound (v.1, v.2.1, v.2.2.1, v.2.2.2 ^^^ m)
  (v0 ^^^ m, v1, v2, v3)

/-- The whole words of the input; the last one carries the length in its top byte. -/
def sipWords (length : Nat) : Bytes → List UInt64
  | a :: b :: c :: d :: e :: f :: g :: h :: rest =>
    littleEndian [a, b, c, d, e, f, g, h] :: sipWords length rest
  | tail => [littleEndian tail ||| UInt64.ofNat (length % 256) <<< 56]

/-- SipHash-1-3 under the zero key. -/
def sipHash13 (bytes : Bytes) : UInt64 :=
  let start := (0x736f6d6570736575, 0x646f72616e646f6d, 0x6c7967656e657261, 0x7465646279746573)
  let (v0, v1, v2, v3) := (sipWords bytes.length bytes).foldl sipAbsorb start
  let (v0, v1, v2, v3) := sipRound (sipRound (sipRound (v0, v1, v2 ^^^ 0xff, v3)))
  v0 ^^^ v1 ^^^ v2 ^^^ v3

/-- A slice is hashed behind its length. -/
instance : DefaultHasher where
  hash bytes := sipHash13 ((BigEndian.write 8 bytes.length).reverse ++ bytes)

end Todero.Store
