import Todero.WireRoundTrip

/-! Every datagram the decoder accepts is what the encoder writes for the frame it
was read as. -/
namespace Todero.Wire

theorem MessageType.toU8_fromU8 {value : UInt8} {t : MessageType} (h : fromU8 value = .ok t) :
    t.toU8 = value := by
  unfold fromU8 at h
  split at h <;> first | (cases h; rfl) | cases h

/-- One pass of the decoder's loop, with the TLV it takes off the input. -/
theorem decodeTlvsLoop_succ {fuel : Nat} {input : Bytes} {out tlvs : List Tlv}
    (h : decodeTlvsLoop (fuel + 1) input out = .ok tlvs) :
    input = [] ∧ tlvs = out ∨
      ∃ tlv rest, input = tlvBlock [tlv] ++ rest ∧ out.length < maxTlvCount ∧
        tlv.value.length ≤ maxTlvValueLen ∧ decodeTlvsLoop fuel rest (out ++ [tlv]) = .ok tlvs := by
  simp only [decodeTlvsLoop, bind, Except.bind, pure, Except.pure, throw, throwThe,
    MonadExceptOf.throw] at h
  by_cases hempty : input.isEmpty
  · rw [if_pos hempty] at h
    exact .inl ⟨List.isEmpty_iff.mp hempty, (Except.ok.inj h).symm⟩
  · rw [if_neg hempty] at h
    split_ifs at h with hshort hcount hbig hlen
    obtain ⟨kind, buf, rfl⟩ : ∃ kind buf, input = kind :: buf := by
      cases input with
      | nil => simp at hempty
      | cons kind buf => exact ⟨kind, buf, rfl⟩
    simp only [List.length_cons] at hshort
    simp only [take_one_cons, UInt8.ofNat_toNat] at h hbig hlen
    obtain ⟨len, value, hlv, -, hwrite, -⟩ := BigEndian.exists_take (show 2 ≤ buf.length by omega)
    rw [hlv] at h hbig hlen
    have htaken : (value.take len).length = len := by
      simp only at hlen
      simp
      omega
    refine .inr ⟨⟨kind, value.take len⟩, value.drop len, ?_, by omega, ?_, h⟩
    · rw [tlvBlock_cons, tlvBlock_nil, htaken, ← hwrite]
      simp
    · show (value.take len).length ≤ _
      omega

/-- What the decoder's loop has read is the TLV block of its result. -/
theorem decodeTlvsLoop_eq_ok {fuel : Nat} {input : Bytes} {out tlvs : List Tlv}
    (hfuel : input.length ≤ fuel) (hcount : out.length ≤ maxTlvCount)
    (h : decodeTlvsLoop fuel input out = .ok tlvs) :
    ∃ more, tlvs = out ++ more ∧ input = tlvBlock more ∧ tlvs.length ≤ maxTlvCount ∧
      ∀ tlv ∈ more, tlv.value.length ≤ maxTlvValueLen := by
  induction fuel generalizing input out with
  | zero =>
    have hnil : input = [] := List.eq_nil_of_length_eq_zero (by omega)
    cases h
    exact ⟨[], by simp, hnil, hcount, by simp⟩
  | succ fuel ih =>
    rcases decodeTlvsLoop_succ h with ⟨rfl, rfl⟩ | ⟨tlv, rest, rfl, hroom, hval, hrest⟩
    · exact ⟨[], by simp, rfl, hcount, by simp⟩
    · have hless : rest.length ≤ fuel := by
        rw [tlvBlock_cons] at hfuel
        simp only [List.length_cons, List.length_append] at hfuel
        omega
      obtain ⟨more, rfl, rfl, hall, hvals⟩ := ih hless (by simpa using hroom) hrest
      refine ⟨tlv :: more, by simp, ?_, hall, ?_⟩
      · simp [tlvBlock]
      · intro t ht
        rcases List.mem_cons.mp ht with rfl | ht
        · exact hval
        · exact hvals t ht

theorem WireFrame.of_decode {bytes : Bytes} {frame : WireFrame}
    (h : WireFrame.decode bytes = .ok frame) : frame.Fits ∧ bytes = frame.bytes := by
  unfold WireFrame.decode at h
  by_cases hshort : bytes.length < headerLen
  · simp [hshort, throw, throwThe, MonadExceptOf.throw, bind, Except.bind] at h
  obtain ⟨version, kind, flags, buf, rfl⟩ :
      ∃ version kind flags buf, bytes = version :: kind :: flags :: buf := by
    match bytes, hshort with
    | version :: kind :: flags :: buf, _ => exact ⟨version, kind, flags, buf, rfl⟩
    | [], h | [_], h | [_, _], h => simp [headerLen] at h
  have hlong : 12 ≤ buf.length := by
    simp only [headerLen, List.length_cons] at hshort
    omega
  simp only [hshort, if_false, take_one_cons, UInt8.ofNat_toNat, bind, Except.bind, pure,
    Except.pure, throw, throwThe, MonadExceptOf.throw] at h
  obtain ⟨cid, buf₁, h₁, hcid, hw₁, hlen₁⟩ :=
    BigEndian.exists_take (show 8 ≤ buf.length by omega)
  obtain ⟨payloadLen, buf₂, h₂, -, hw₂, hlen₂⟩ :=
    BigEndian.exists_take (show 2 ≤ buf₁.length by omega)
  obtain ⟨tlvLen, buf₃, h₃, htlvLen, hw₃, -⟩ :=
    BigEndian.exists_take (show 2 ≤ buf₂.length by omega)
  simp only [h₁, h₂, h₃] at h
  cases htype : MessageType.fromU8 kind with
  | error e =>
    rw [htype] at h
    split_ifs at h
  | ok messageType =>
    rw [htype] at h
    split_ifs at h with hversion hpayload hmismatch
    cases htlvs : decodeTlvs ((buf₃.drop payloadLen).take tlvLen) with
    | error e => simp [htlvs] at h
    | ok tlvs =>
      simp only [htlvs, Except.ok.injEq] at h
      subst h
      have hwhole : (buf₃.drop payloadLen).take tlvLen = buf₃.drop payloadLen :=
        List.take_of_length_le (by rw [List.length_drop]; omega)
      rw [hwhole] at htlvs
      obtain ⟨more, hmore, hblock, hcount, hvals⟩ :=
        decodeTlvsLoop_eq_ok le_rfl (Nat.zero_le _) htlvs
      rw [List.nil_append] at hmore
      subst hmore
      have hpay : (buf₃.take payloadLen).length = payloadLen := by simp; omega
      have hblockLen : (tlvBlock tlvs).length = tlvLen := by rw [← hblock]; simp; omega
      refine ⟨⟨by simpa using hversion, ?_, hcount, hvals, ?_⟩, ?_⟩
      · show (buf₃.take payloadLen).length ≤ _
        omega
      · show (tlvBlock tlvs).length ≤ _
        omega
      · have hcid' : (UInt64.ofNat cid).toNat = cid := by
          rw [UInt64.toNat_ofNat']
          exact Nat.mod_eq_of_lt hcid
        rw [WireFrame.bytes_eq]
        simp only [MessageType.toU8_fromU8 htype, hcid', hpay, hblockLen]
        rw [← hblock, List.take_append_drop, hw₃, hw₂, hw₁]

/-- The decoder accepts only what the encoder writes. -/
theorem encode_decode (bytes : Bytes) (frame : WireFrame) (h : WireFrame.decode bytes = .ok frame) :
    frame.encode = .ok bytes := WireFrame.encode_eq_ok.mpr (WireFrame.of_decode h)

theorem goldenClientHello_encode_decode :
    goldenClientHello.encode = .ok [0x03, 0x01, 0x00, 0x11, 0x11, 0x22, 0x22, 0x33, 0x33, 0x44, 0x44,
      0x00, 0x02, 0x00, 0x06, 0xaa, 0xbb, 0x09, 0x00, 0x03, 0x01, 0x02, 0x03] :=
  encode_decode _ goldenClientHello (by decide +kernel)

end Todero.Wire
