import Todero.StoreCalls

/-! Which schema versions a stored record is decoded under. The version is cut to 16 bits
before it is looked at, and a number beyond 64 bits counts as none. -/
namespace Todero.Store
open Todero.Wire Json

/-! ### The fields of a document as a `Value` holds them -/

theorem field_cons (name key : String) (v : Doc) (fields : List (String × Doc)) :
    field name (.obj ((key, v) :: fields)) =
      (field name (.obj fields)).or (if key = name then some v else none) := by
  simp only [field, List.reverse_cons, List.find?_append]
  cases fields.reverse.find? (·.1 = name) with
  | some f => rfl
  | none => by_cases hkey : key = name <;> simp [hkey]

theorem field_isSome (name : String) (fields : List (String × Doc)) :
    (field name (.obj fields)).isSome = fields.any (·.1 = name) := by
  rw [field, Option.isSome_map, List.isSome_find?, List.any_reverse]

theorem lastFields_filter (name : String) (fields : List (String × Doc)) :
    (lastFields fields).filter (·.1 = name) =
      ((field name (.obj fields)).map fun v => (name, value v)).toList := by
  induction fields with
  | nil => rfl
  | cons f fs ih =>
    obtain ⟨key, v⟩ := f
    rw [lastFields, field_cons]
    by_cases hkey : key = name
    · subst hkey
      rw [← field_isSome]
      cases hfield : field key (.obj fs) with
      | some w =>
        rw [hfield] at ih
        simpa using ih
      | none =>
        rw [hfield] at ih
        simpa using ih
    · rw [if_neg hkey, Option.or_none, ← ih]
      split_ifs with hany
      · rfl
      · exact List.filter_cons_of_neg (by simpa using hkey)

/-- A field that stands once in an object is its last one. -/
theorem field_of_filter {name : String} {fields : List (String × Doc)} {f : String × Doc}
    (h : fields.filter (·.1 = name) = [f]) : field name (.obj fields) = some f.2 := by
  rw [field, ← List.head?_filter, List.filter_reverse, h]
  rfl

/-- The session record in the `record` member, if it can be read. -/
def recordOf (v : Doc) : Option SessionRecord :=
  ((field "record" v).map value).bind SessionRecord.ofDoc

theorem legacy_value (fields : List (String × Doc)) :
    LegacyStoredSessionV0.ofDoc (value (.obj fields)) =
      (recordOf (.obj fields)).map LegacyStoredSessionV0.mk := by
  have hfields : structFields ["record"] (value (.obj fields)) =
      ((field "record" (.obj fields)).map value).map fun v => [v] := by
    simp only [value, structFields, List.mapM_cons, List.mapM_nil, lastFields_filter]
    cases field "record" (.obj fields) <;> rfl
  rw [LegacyStoredSessionV0.ofDoc, hfields, recordOf]
  cases (field "record" (.obj fields)).map value with
  | none => rfl
  | some record =>
    simp only [Option.map_some, Option.bind_some, Option.bind_eq_bind]
    cases SessionRecord.ofDoc record <;> rfl

theorem asU64_natDoc_eq (n : Nat) : asU64 (natDoc n) = if n < 2 ^ 64 then some n else none := rfl

/-- A stored session has one version, and it has 16 bits. -/
theorem stored_version {fields : List (String × Doc)} {n : Nat} {payload : StoredSession}
    (hversion : field "schema_version" (.obj fields) = some (natDoc n))
    (h : StoredSession.ofDoc (.obj fields) = some payload) : n < 65536 := by
  simp only [StoredSession.ofDoc, Option.bind_eq_bind, Option.bind_eq_some_iff] at h
  obtain ⟨values, hvalues, h⟩ := h
  simp only [structFields, List.mapM_cons, List.mapM_nil, Option.bind_eq_bind,
    Option.bind_eq_some_iff, Option.pure_def, Option.some.injEq] at hvalues
  obtain ⟨schema, hschema, rest, ⟨record, -, -, rfl, rfl⟩, rfl⟩ := hvalues
  have hsame : schema = natDoc n := by
    split at hschema
    · next f v hone =>
      obtain rfl := Option.some.inj hschema
      exact Option.some.inj ((field_of_filter hone).symm.trans hversion)
    · cases hschema
  simp only [hsame, Option.bind_eq_some_iff] at h
  obtain ⟨version, hbound, -⟩ := h
  rw [asUnsigned, Option.filter_eq_some_iff, asU64_natDoc_eq, Option.ite_none_right_eq_some] at hbound
  obtain ⟨⟨-, hn⟩, hlt⟩ := hbound
  rw [Option.some.inj hn]
  exact of_decide_eq_true hlt

section Decoding
variable [SerdeJson] {bytes : Bytes} {v : Doc} {n : Nat}

/-- The version that the migrating decoder goes by. -/
def versionRead (n : Nat) : Nat := (if n < 2 ^ 64 then n else 0) % 65536

theorem migrating_eq (hread : SerdeJson.fromSlice bytes = .ok v)
    (hversion : field "schema_version" v = some (natDoc n)) :
    decodeSessionRecordMigrating bytes =
      if versionRead n = 1 then decodeSessionRecord bytes
      else if versionRead n = 0 then
        match recordOf v with
        | none => .error (.serialization (SerdeJson.mismatch v))
        | some record => .ok record
      else .error (.unsupportedSchemaVersion (UInt16.ofNat (versionRead n))) := by
  have hschema : UInt16.ofNat (((field "schema_version" v).bind asU64).getD 0) =
      UInt16.ofNat (versionRead n) := by
    rw [hversion, Option.bind_some, asU64_natDoc_eq, versionRead]
    apply UInt16.toNat_inj.mp
    split_ifs <;> simp [UInt16.toNat_ofNat']
  have hlt : versionRead n < 65536 := Nat.mod_lt _ (by decide)
  have hone : UInt16.ofNat (versionRead n) = sessionSchemaVersion ↔ versionRead n = 1 := by
    rw [← UInt16.toNat_inj, UInt16.toNat_ofNat', Nat.mod_eq_of_lt hlt]
    rfl
  have hzero : UInt16.ofNat (versionRead n) = 0 ↔ versionRead n = 0 := by
    rw [← UInt16.toNat_inj, UInt16.toNat_ofNat', Nat.mod_eq_of_lt hlt]
    rfl
  obtain ⟨fields, rfl⟩ : ∃ fields, v = .obj fields := by
    cases v with
    | obj fields => exact ⟨fields, rfl⟩
    | _ => cases hversion
  simp only [decodeSessionRecordMigrating, hread, hschema, hone, hzero, legacy_value]
  cases recordOf (.obj fields) <;> rfl

/-- A version beyond 16 bits is no version of a stored session. -/
theorem decode_big_version (hread : SerdeJson.fromSlice bytes = .ok v)
    (hversion : field "schema_version" v = some (natDoc n)) (hbig : 65536 ≤ n) :
    ∃ e, decodeSessionRecord bytes = .error e := by
  obtain ⟨fields, rfl⟩ : ∃ fields, v = .obj fields := by
    cases v with
    | obj fields => exact ⟨fields, rfl⟩
    | _ => cases hversion
  cases hpayload : StoredSession.ofDoc (.obj fields) with
  | none => exact ⟨_, by simp only [decodeSessionRecord, fromSlice, hread, hpayload]; rfl⟩
  | some payload => exact absurd (stored_version hversion hpayload) (not_lt.mpr hbig)

/-- What the decoder is to do with version `n`: take 0 and 1 alone, and 1 as
`decode_session_record` does. -/
structure KnownOnly (bytes : Bytes) (n : Nat) : Prop where
  known : (∃ r, decodeSessionRecordMigrating bytes = .ok r) → n = 0 ∨ n = 1
  current : n = 1 → decodeSessionRecordMigrating bytes = decodeSessionRecord bytes
  unknown : n ≠ 0 → n ≠ 1 → ∃ e, decodeSessionRecordMigrating bytes = .error e

end Decoding

/-- A document of version `n`, with a record in it. -/
def versionedDoc (n : Nat) : Doc :=
  .obj [("schema_version", natDoc n), ("record", (sampleRecord 1 "x").1.doc)]

theorem versionedDoc_read {n : Nat} (hn : n < 2 ^ 64) :
    ∃ bytes, SerdeJson.fromSlice bytes = .ok (versionedDoc n) := by
  have hplain : Plain 127 (versionedDoc n) := by
    refine .obj (by simp) ?_
    simp only [List.forall_mem_cons, List.not_mem_nil, false_imp_iff, implies_true, and_true]
    exact ⟨.nat hn, SessionRecord.plain (sampleRecord 1 "x").2⟩
  obtain ⟨bytes, -, hread⟩ := LawfulSerdeJson.round_trip (versionedDoc n) hplain
  exact ⟨bytes, hread⟩

theorem recordOf_versionedDoc (n : Nat) :
    recordOf (versionedDoc n) = some (sampleRecord 1 "x").1 := rfl

end Todero.Store
