import Todero.Wire

/-! Exactly which frames `encode` accepts, what it writes for them, and when
`decode` reads them back. -/
namespace Todero.Wire

/-- The TLV block of a list of TLVs whose values all fit. -/
def tlvBlock (tlvs : List Tlv) : Bytes :=
  tlvs.flatMap fun tlv => tlv.kind :: BigEndian.write 2 tlv.value.length ++ tlv.value

@[simp] theorem tlvBlock_nil : tlvBlock [] = [] := rfl

theorem tlvBlock_cons (tlv : Tlv) (tlvs : List Tlv) :
    tlvBlock (tlv :: tlvs) =
      tlv.kind :: (BigEndian.write 2 tlv.value.length ++ (tlv.value ++ tlvBlock tlvs)) := by
  simp [tlvBlock]

theorem encodeTlvs_cons (tlv : Tlv) (tlvs : List Tlv) :
    encodeTlvs (tlv :: tlvs) =
      if tlv.value.length > maxTlvValueLen then .error (.tlvTooLarge tlv.value.length)
      else (encodeTlvs tlvs).map fun rest =>
        tlv.kind :: (BigEndian.write 2 tlv.value.length ++ (tlv.value ++ rest)) := by
  by_cases hbig : tlv.value.length > maxTlvValueLen <;> cases h : encodeTlvs tlvs <;>
    simp [encodeTlvs, hbig, h, bind, Except.bind, pure, Except.pure, throw, throwThe,
      MonadExceptOf.throw, Except.map]

theorem encodeTlvs_eq_ok {tlvs : List Tlv} {block : Bytes} :
    encodeTlvs tlvs = .ok block ↔
      (∀ tlv ∈ tlvs, tlv.value.length ≤ maxTlvValueLen) ∧ block = tlvBlock tlvs := by
  induction tlvs generalizing block with
  | nil => simp [encodeTlvs, tlvBlock, eq_comm]
  | cons tlv tlvs ih =>
    rw [encodeTlvs_cons, List.forall_mem_cons, tlvBlock_cons]
    by_cases hbig : tlv.value.length > maxTlvValueLen
    · simp [hbig]
    · rw [if_neg hbig]
      constructor
      · intro h
        cases hrest : encodeTlvs tlvs with
        | error e => simp [hrest, Except.map] at h
        | ok rest =>
          obtain ⟨hval, rfl⟩ := ih.mp hrest
          simp only [hrest, Except.map, Except.ok.injEq] at h
          exact ⟨⟨by omega, hval⟩, h.symm⟩
      · rintro ⟨⟨_, hval⟩, rfl⟩
        simp [ih.mpr ⟨hval, rfl⟩, Except.map]

/-- The frames `encode` writes. -/
structure WireFrame.Fits (frame : WireFrame) : Prop where
  version : frame.version = wireVersionV3
  payload : frame.payload.length ≤ maxPayloadLen
  count : frame.tlvs.length ≤ maxTlvCount
  value : ∀ tlv ∈ frame.tlvs, tlv.value.length ≤ maxTlvValueLen
  block : (tlvBlock frame.tlvs).length ≤ 65535

/-- What `encode` writes for a frame that fits. -/
def WireFrame.bytes (frame : WireFrame) : Bytes :=
  [frame.version, frame.messageType.toU8, frame.flags]
    ++ BigEndian.write 8 frame.cid.toNat
    ++ BigEndian.write 2 frame.payload.length
    ++ BigEndian.write 2 (tlvBlock frame.tlvs).length
    ++ frame.payload ++ tlvBlock frame.tlvs

theorem validateFrame_eq_ok {frame : WireFrame} :
    validateFrame frame = .ok () ↔
      frame.version = wireVersionV3 ∧ frame.payload.length ≤ maxPayloadLen ∧
        frame.tlvs.length ≤ maxTlvCount := by
  unfold validateFrame
  by_cases hv : frame.version = wireVersionV3 <;>
    by_cases hp : frame.payload.length > maxPayloadLen <;>
    by_cases ht : frame.tlvs.length > maxTlvCount <;>
    simp only [hv, hp, ht, bind, Except.bind, pure, Except.pure, throw, throwThe,
      MonadExceptOf.throw, ne_eq, not_true_eq_false, not_false_eq_true, if_true, if_false,
      reduceCtorEq, true_and, false_and, false_iff, true_iff] <;> omega

theorem WireFrame.encode_eq_ok {frame : WireFrame} {bytes : Bytes} :
    frame.encode = .ok bytes ↔ frame.Fits ∧ bytes = frame.bytes := by
  unfold WireFrame.encode
  cases hv : validateFrame frame with
  | error e =>
    have hno : ¬ frame.Fits := by
      intro h
      have := validateFrame_eq_ok.mpr ⟨h.version, h.payload, h.count⟩
      simp [hv] at this
    simp [hno, bind, Except.bind]
  | ok _ =>
    obtain ⟨hver, hpay, hcount⟩ := validateFrame_eq_ok.mp hv
    cases hb : encodeTlvs frame.tlvs with
    | error e =>
      have hno : ¬ frame.Fits := by
        intro h
        have := encodeTlvs_eq_ok.mpr ⟨h.value, rfl⟩
        simp [hb] at this
      simp [hno, bind, Except.bind]
    | ok block =>
      obtain ⟨hval, rfl⟩ := encodeTlvs_eq_ok.mp hb
      by_cases hlen : (tlvBlock frame.tlvs).length > 65535
      · have hno : ¬ frame.Fits := fun h => absurd h.block (by omega)
        simp [hlen, hno, bind, Except.bind, throw, throwThe, MonadExceptOf.throw]
      · have hfits : frame.Fits := ⟨hver, hpay, hcount, hval, by omega⟩
        simp [hlen, hfits, bind, Except.bind, pure, Except.pure, WireFrame.bytes, eq_comm]

/-- The decoder's loop gives back every TLV list the encoder's loop can write. -/
theorem decodeTlvsLoop_tlvBlock (tlvs : List Tlv) (fuel : Nat) (out : List Tlv)
    (hval : ∀ tlv ∈ tlvs, tlv.value.length ≤ maxTlvValueLen)
    (hfuel : (tlvBlock tlvs).length ≤ fuel) (hcount : out.length + tlvs.length ≤ maxTlvCount) :
    decodeTlvsLoop fuel (tlvBlock tlvs) out = .ok (out ++ tlvs) := by
  induction tlvs generalizing fuel out with
  | nil => cases fuel <;> simp [tlvBlock, decodeTlvsLoop, pure, Except.pure]
  | cons tlv tlvs ih =>
    have hsmall : tlv.value.length ≤ maxTlvValueLen := hval tlv (by simp)
    have hlen : tlv.value.length < 256 ^ 2 := by
      simp only [maxTlvValueLen] at hsmall
      omega
    rw [tlvBlock_cons] at hfuel ⊢
    simp only [List.length_cons, List.length_append, BigEndian.write_length] at hfuel hcount
    obtain ⟨fuel, rfl⟩ : ∃ k, fuel = k + 1 := ⟨fuel - 1, by omega⟩
    have htail := ih fuel (out ++ [tlv]) (fun t ht => hval t (List.mem_cons_of_mem _ ht))
      (by omega) (by simp only [List.length_append, List.length_cons, List.length_nil]; omega)
    have hkind : BigEndian.take 1
        (tlv.kind :: (BigEndian.write 2 tlv.value.length ++ (tlv.value ++ tlvBlock tlvs))) =
        (tlv.kind.toNat, BigEndian.write 2 tlv.value.length ++ (tlv.value ++ tlvBlock tlvs)) := by
      simp [BigEndian.take, BigEndian.read]
    have hout : ¬ out.length ≥ maxTlvCount := by omega
    have hbig : ¬ tlv.value.length > maxTlvValueLen := by omega
    simp only [decodeTlvsLoop, hkind, BigEndian.take_write_append_of_lt hlen]
    simp [hout, hbig, bind, Except.bind, htail]

theorem WireFrame.bytes_eq (frame : WireFrame) :
    frame.bytes = frame.version :: frame.messageType.toU8 :: frame.flags ::
      (BigEndian.write 8 frame.cid.toNat ++ (BigEndian.write 2 frame.payload.length ++
        (BigEndian.write 2 (tlvBlock frame.tlvs).length ++
          (frame.payload ++ tlvBlock frame.tlvs)))) := by
  simp [WireFrame.bytes]

theorem take_one_cons (b : UInt8) (bs : Bytes) : BigEndian.take 1 (b :: bs) = (b.toNat, bs) := by
  simp [BigEndian.take, BigEndian.read]

/-- The header carries the payload's length modulo 2^16, and a payload of exactly
`maxPayloadLen` = 2^16 bytes is announced as empty: the decoder then counts too
many bytes after the header. -/
theorem WireFrame.decode_bytes {frame : WireFrame} (h : frame.Fits) :
    WireFrame.decode frame.bytes =
      if frame.payload.length ≤ 65535 then .ok frame
      else .error (.lengthMismatch (frame.payload.length + (tlvBlock frame.tlvs).length)
        (tlvBlock frame.tlvs).length) := by
  have hcid : frame.cid.toNat < 256 ^ 8 := frame.cid.toNat_lt
  have hblock : (tlvBlock frame.tlvs).length < 256 ^ 2 := by
    have := h.block
    omega
  have hlong : ¬ frame.bytes.length < headerLen := by
    simp [WireFrame.bytes, headerLen]
    omega
  unfold WireFrame.decode
  rw [if_neg hlong, WireFrame.bytes_eq]
  simp only [take_one_cons, BigEndian.take_write_append, Nat.mod_eq_of_lt hcid,
    Nat.mod_eq_of_lt hblock, UInt8.ofNat_toNat, MessageType.fromU8_toU8, bind, Except.bind,
    pure, Except.pure, ne_eq, h.version, not_true_eq_false, if_false]
  have hpay := h.payload
  simp only [maxPayloadLen] at hpay
  by_cases hle : frame.payload.length ≤ 65535
  · have hlen : frame.payload.length % 65536 = frame.payload.length :=
      Nat.mod_eq_of_lt (by omega)
    have htlvs : decodeTlvs (tlvBlock frame.tlvs) = .ok frame.tlvs := by
      simpa [decodeTlvs] using decodeTlvsLoop_tlvBlock frame.tlvs _ [] h.value le_rfl
        (by simpa using h.count)
    simp [hlen, hle, maxPayloadLen, show ¬ 65536 < frame.payload.length by omega, htlvs,
      ← h.version]
  · have hlen : frame.payload.length = 65536 := by omega
    simp [hlen, maxPayloadLen, throw, throwThe, MonadExceptOf.throw]

/-- The wire round trip, exactly: among the frames that can be encoded, those with
a payload of 2^16 bytes are lost and all others come back. -/
theorem decode_encode_iff (frame : WireFrame) (bytes : Bytes) (h : frame.encode = .ok bytes) :
    WireFrame.decode bytes = .ok frame ↔ frame.payload.length ≤ 65535 := by
  obtain ⟨hfits, rfl⟩ := WireFrame.encode_eq_ok.mp h
  rw [WireFrame.decode_bytes hfits]
  by_cases hle : frame.payload.length ≤ 65535 <;> simp [hle]

def goldenClientHello : WireFrame :=
  .new .clientHello 0x00 0x1111222233334444 [0xaa, 0xbb] [⟨0x09, [0x01, 0x02, 0x03]⟩]

theorem goldenClientHello_decode_encode :
    WireFrame.decode [0x03, 0x01, 0x00, 0x11, 0x11, 0x22, 0x22, 0x33, 0x33, 0x44, 0x44,
      0x00, 0x02, 0x00, 0x06, 0xaa, 0xbb, 0x09, 0x00, 0x03, 0x01, 0x02, 0x03] =
        .ok goldenClientHello ↔ goldenClientHello.payload.length ≤ 65535 :=
  decode_encode_iff goldenClientHello _ (by rfl)

/-- The largest payload `validate_frame` lets through. -/
def maxPayloadFrame : WireFrame :=
  .new .data 0x00 7 (List.replicate maxPayloadLen 0) []

theorem maxPayloadFrame_length : maxPayloadFrame.payload.length = maxPayloadLen :=
  List.length_replicate

theorem maxPayloadFrame_fits : maxPayloadFrame.Fits where
  version := rfl
  payload := maxPayloadFrame_length.le
  count := Nat.zero_le _
  value := fun _ h => nomatch h
  block := Nat.zero_le _

theorem maxPayloadFrame_lost :
    ¬ ∀ (frame : WireFrame) (bytes : Bytes), frame.encode = .ok bytes →
      WireFrame.decode bytes = .ok frame := by
  intro hround
  have h := hround maxPayloadFrame _ (WireFrame.encode_eq_ok.mpr ⟨maxPayloadFrame_fits, rfl⟩)
  have hlen : ¬ maxPayloadFrame.payload.length ≤ 65535 := by
    rw [maxPayloadFrame_length]
    decide
  rw [WireFrame.decode_bytes maxPayloadFrame_fits, if_neg hlen] at h
  cases h

end Todero.Wire
