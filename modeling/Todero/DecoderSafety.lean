import Todero.WireCanonical

/-! The decoder with reads that can fail: a cursor read, a slice or a copy that needs more
bytes than remain panics, which is `none` here. No read of `decode` ever does. -/
namespace Todero.Wire

/-- `get_u8`, `get_u16` and `get_u64`. -/
def getUint (count : Nat) (buf : Bytes) : Option (Nat × Bytes) :=
  if buf.length < count then none else some (BigEndian.take count buf)

/-- `copy_to_slice`, into a slice of `len` bytes. -/
def copyToSlice (len : Nat) (buf : Bytes) : Option (Bytes × Bytes) :=
  if buf.length < len then none else some (buf.take len, buf.drop len)

/-- `&buf[..len]`. -/
def sliceTo (len : Nat) (buf : Bytes) : Option Bytes :=
  if buf.length < len then none else some (buf.take len)

namespace Checked

/-- One pass of the loop of `decode_tlvs`, with `count` TLVs read before it. -/
def tlvPass (count : Nat) (input : Bytes) : Option (Except WireError (Tlv × Bytes)) := do
  if input.length < 3 then
    return .error .malformedTlv
  if count ≥ maxTlvCount then
    return .error (.tooManyTlvs count)
  let (kind, input) ← getUint 1 input
  let (len, input) ← getUint 2 input
  if len > maxTlvValueLen then
    return .error (.tlvTooLarge len)
  if input.length < len then
    return .error .malformedTlv
  let (value, input) ← copyToSlice len input
  return .ok (⟨UInt8.ofNat kind, value⟩, input)

theorem getUint_of_le {count : Nat} {buf : Bytes} (h : count ≤ buf.length) :
    getUint count buf = some (BigEndian.take count buf) := if_neg (not_lt.mpr h)

theorem copyToSlice_of_le {len : Nat} {buf : Bytes} (h : len ≤ buf.length) :
    copyToSlice len buf = some (buf.take len, buf.drop len) := if_neg (not_lt.mpr h)

theorem sliceTo_of_le {len : Nat} {buf : Bytes} (h : len ≤ buf.length) :
    sliceTo len buf = some (buf.take len) := if_neg (not_lt.mpr h)

/-- Every read of a pass finds its bytes, since three of them are there and then as many as
the length field says. -/
theorem tlvPass_eq (count : Nat) (input : Bytes) : tlvPass count input =
    if input.length < 3 then some (.error .malformedTlv)
    else if count ≥ maxTlvCount then some (.error (.tooManyTlvs count))
    else
      let (kind, afterKind) := BigEndian.take 1 input
      let (len, afterLen) := BigEndian.take 2 afterKind
      if len > maxTlvValueLen then some (.error (.tlvTooLarge len))
      else if afterLen.length < len then some (.error .malformedTlv)
      else some (.ok (⟨UInt8.ofNat kind, afterLen.take len⟩, afterLen.drop len)) := by
  rw [tlvPass]
  by_cases hshort : input.length < 3
  · simp [hshort]
  · by_cases hcount : count ≥ maxTlvCount
    · simp [hshort, hcount]
    · have hkind : (BigEndian.take 1 input).2.length + 1 = input.length := by
        rw [BigEndian.take, List.length_drop]
        omega
      simp only [hshort, hcount, if_false, getUint_of_le (show 1 ≤ input.length by omega)]
      generalize BigEndian.take 1 input = kind at hkind ⊢
      simp only [Option.bind_eq_bind, Option.bind_some,
        getUint_of_le (show 2 ≤ kind.2.length by omega)]
      generalize BigEndian.take 2 kind.2 = len
      split_ifs with hbig hlen
      · rfl
      · rfl
      · rw [copyToSlice_of_le (not_lt.mp hlen)]
        rfl

theorem tlvPass_length {count : Nat} {input rest : Bytes} {tlv : Tlv}
    (h : tlvPass count input = some (.ok (tlv, rest))) : rest.length < input.length := by
  rw [tlvPass_eq] at h
  by_cases hshort : input.length < 3
  · rw [if_pos hshort] at h
    cases h
  · rw [if_neg hshort] at h
    by_cases hcount : count ≥ maxTlvCount
    · rw [if_pos hcount] at h
      cases h
    · rw [if_neg hcount] at h
      dsimp only at h
      split at h
      · cases h
      · split at h
        · cases h
        · obtain ⟨-, rfl⟩ := Prod.mk.inj (Except.ok.inj (Option.some.inj h))
          simp only [List.length_drop, BigEndian.take]
          omega

/-- The loop as the code has it, without a bound on its passes: each of them takes bytes off
the input. -/
def decodeTlvs (input : Bytes) (out : List Tlv) : Option (Except WireError (List Tlv)) :=
  if input.isEmpty then some (.ok out)
  else
    match _hpass : tlvPass out.length input with
    | none => none
    | some (.error e) => some (.error e)
    | some (.ok (tlv, rest)) => decodeTlvs rest (out ++ [tlv])
termination_by input.length
decreasing_by exact tlvPass_length _hpass

theorem decodeTlvs_eq (input : Bytes) (out : List Tlv) : decodeTlvs input out =
    if input.isEmpty then some (.ok out)
    else (tlvPass out.length input).bind fun pass =>
      match pass with
      | .error e => some (.error e)
      | .ok (tlv, rest) => decodeTlvs rest (out ++ [tlv]) := by
  rw [decodeTlvs]
  split_ifs
  · rfl
  · split <;> next hpass => rw [hpass]; rfl

def decode (input : Bytes) : Option (Except WireError WireFrame) := do
  if input.length < headerLen then
    return .error .truncated
  let (version, buf) ← getUint 1 input
  let version := UInt8.ofNat version
  if version ≠ wireVersionV3 then
    return .error (.unsupportedVersion version)
  let (kind, buf) ← getUint 1 buf
  match MessageType.fromU8 (UInt8.ofNat kind) with
  | .error e => return .error e
  | .ok messageType =>
    let (flags, buf) ← getUint 1 buf
    let (cid, buf) ← getUint 8 buf
    let (payloadLen, buf) ← getUint 2 buf
    let (tlvLen, buf) ← getUint 2 buf
    if payloadLen > maxPayloadLen then
      return .error (.payloadTooLarge payloadLen)
    if buf.length ≠ payloadLen + tlvLen then
      return .error (.lengthMismatch buf.length (payloadLen + tlvLen))
    let (payload, buf) ← copyToSlice payloadLen buf
    let tlvBytes ← sliceTo tlvLen buf
    let tlvs ← decodeTlvs tlvBytes []
    return tlvs.map fun tlvs =>
      ⟨version, messageType, UInt8.ofNat flags, UInt64.ofNat cid, payload, tlvs⟩

end Checked

/-! ### The decoder without the checks -/

/-- The loop bounded by the length of its input stops by itself. -/
theorem checkedTlvs_eq {fuel : Nat} {input : Bytes} {out : List Tlv} (hfuel : input.length ≤ fuel) :
    Checked.decodeTlvs input out = some (decodeTlvsLoop fuel input out) := by
  induction fuel generalizing input out with
  | zero =>
    obtain rfl : input = [] := List.eq_nil_of_length_eq_zero (by omega)
    rw [Checked.decodeTlvs, decodeTlvsLoop]
    rfl
  | succ fuel ih =>
    rw [Checked.decodeTlvs_eq, Checked.tlvPass_eq]
    simp only [decodeTlvsLoop, bind, Except.bind, pure, Except.pure, throw, throwThe,
      MonadExceptOf.throw]
    by_cases hempty : input.isEmpty
    · rw [if_pos hempty, if_pos hempty]
    · rw [if_neg hempty, if_neg hempty]
      split_ifs with hshort hcount hbig hlen
      · rfl
      · rfl
      · rfl
      · rfl
      · refine ih ?_
        simp only [BigEndian.take, List.length_drop]
        omega

/-- A read that finds its bytes, and how many it leaves. -/
theorem getUint_spec {count : Nat} {buf : Bytes} (h : count ≤ buf.length) :
    ∃ n rest, getUint count buf = some (n, rest) ∧ BigEndian.take count buf = (n, rest) ∧
      count + rest.length = buf.length := by
  obtain ⟨n, rest, htake, -, -, hlen⟩ := BigEndian.exists_take h
  exact ⟨n, rest, (Checked.getUint_of_le h).trans (congrArg some htake), htake, hlen⟩

/-- The header check covers the six reads of the header, and the length check covers the
copy of the payload and the slice behind it. -/
theorem checkedDecode_eq (input : Bytes) :
    Checked.decode input = some (WireFrame.decode input) := by
  rw [Checked.decode, WireFrame.decode]
  by_cases hshort : input.length < headerLen
  · simp only [hshort, if_true]
    rfl
  · have hlong : 15 ≤ input.length := by
      simp only [headerLen] at hshort
      omega
    obtain ⟨version, buf₁, hget₁, htake₁, hlen₁⟩ := getUint_spec (show 1 ≤ input.length by omega)
    obtain ⟨kind, buf₂, hget₂, htake₂, hlen₂⟩ := getUint_spec (show 1 ≤ buf₁.length by omega)
    obtain ⟨flags, buf₃, hget₃, htake₃, hlen₃⟩ := getUint_spec (show 1 ≤ buf₂.length by omega)
    obtain ⟨cid, buf₄, hget₄, htake₄, hlen₄⟩ := getUint_spec (show 8 ≤ buf₃.length by omega)
    obtain ⟨payloadLen, buf₅, hget₅, htake₅, hlen₅⟩ := getUint_spec (show 2 ≤ buf₄.length by omega)
    obtain ⟨tlvLen, buf₆, hget₆, htake₆, -⟩ := getUint_spec (show 2 ≤ buf₅.length by omega)
    simp only [hshort, if_false, hget₁, htake₁, hget₂, htake₂, hget₃, htake₃, hget₄, htake₄,
      hget₅, htake₅, hget₆, htake₆, Option.bind_some, bind, Except.bind, pure,
      Except.pure, throw, throwThe, MonadExceptOf.throw]
    cases MessageType.fromU8 (UInt8.ofNat kind) with
    | error e => split_ifs <;> rfl
    | ok messageType =>
      split_ifs with hversion hpayload hmismatch
      · rfl
      · rfl
      · rfl
      · have htlv : tlvLen ≤ (buf₆.drop payloadLen).length := by
          rw [List.length_drop]
          omega
        simp only [Checked.copyToSlice_of_le (show payloadLen ≤ buf₆.length by omega),
          Checked.sliceTo_of_le htlv, Option.bind_some, checkedTlvs_eq le_rfl, decodeTlvs]
        cases decodeTlvsLoop _ _ [] with
        | error e => rfl
        | ok tlvs => rfl

theorem tlvBlock_length (tlvs : List Tlv) :
    (tlvBlock tlvs).length = (tlvs.map fun tlv => 3 + tlv.value.length).sum := by
  induction tlvs with
  | nil => rfl
  | cons tlv tlvs ih =>
    simp only [tlvBlock_cons, List.length_cons, List.length_append, BigEndian.write_length, ih,
      List.map_cons, List.sum_cons]
    omega

/-- The decoder ends on every input without a panic, and a frame it accepts accounts for
every byte of it. -/
theorem decode_safe (input : Bytes) : ∃ result, Checked.decode input = some result ∧
    WireFrame.decode input = result ∧ ∀ frame, result = .ok frame →
      frame.tlvs.length ≤ 64 ∧ (∀ tlv ∈ frame.tlvs, tlv.value.length ≤ 2048) ∧
      (frame.tlvs.map fun tlv => 3 + tlv.value.length).sum + frame.payload.length + 15 =
        input.length := by
  refine ⟨WireFrame.decode input, checkedDecode_eq input, rfl, ?_⟩
  intro frame hframe
  obtain ⟨hfits, hbytes⟩ := WireFrame.of_decode hframe
  have hlen := congrArg List.length hbytes
  rw [WireFrame.bytes_eq] at hlen
  simp only [List.length_cons, List.length_append, BigEndian.write_length, tlvBlock_length] at hlen
  exact ⟨hfits.count, hfits.value, by omega⟩

end Todero.Wire
