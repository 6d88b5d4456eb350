import Mathlib.Data.List.Basic

/-! Strings as UTF-8 byte lists. -/
namespace Utf8

def encode (s : String) : List UInt8 := s.toByteArray.data.toList

def decode (bytes : List UInt8) : Option String := String.fromUTF8? ⟨bytes.toArray⟩

theorem decode_encode (s : String) : decode (encode s) = some s := by
  have harray : (⟨(encode s).toArray⟩ : ByteArray) = s.toByteArray := by
    rw [encode, Array.toArray_toList]
  rw [decode, harray, String.fromUTF8?, dif_pos s.isValidUTF8]
  rfl

theorem encode_ofList (cs : List Char) :
    encode (String.ofList cs) = cs.flatMap String.utf8EncodeChar := by
  rw [encode, String.toByteArray_ofList, List.utf8Encode]
  simp

/-- The bytes of a character outside ASCII are all above it. -/
theorem ascii_mem_encodeChar {c : Char} {b : UInt8} (hb : b.toNat < 128)
    (h : b ∈ String.utf8EncodeChar c) : c.toNat = b.toNat := by
  have hbyte : ∀ n : Nat, 128 ≤ n → n < 256 → b ≠ UInt8.ofNat n := by
    intro n hge hlt heq
    rw [heq, UInt8.toNat_ofNat', Nat.mod_eq_of_lt hlt] at hb
    omega
  unfold String.utf8EncodeChar at h
  dsimp only at h
  split_ifs at h with h1 h2 h3
  · rw [List.mem_singleton] at h
    rw [h, UInt8.toNat_ofNat', Nat.mod_eq_of_lt (by omega)]
    rfl
  · exfalso
    simp only [List.mem_cons, List.not_mem_nil, or_false] at h
    rcases h with h | h <;> exact hbyte _ (by omega) (by omega) h
  · exfalso
    simp only [List.mem_cons, List.not_mem_nil, or_false] at h
    rcases h with h | h | h <;> exact hbyte _ (by omega) (by omega) h
  · exfalso
    simp only [List.mem_cons, List.not_mem_nil, or_false] at h
    rcases h with h | h | h | h <;> exact hbyte _ (by omega) (by omega) h

theorem ascii_mem_encode {s : String} {b : UInt8} (hb : b.toNat < 128) (h : b ∈ encode s) :
    ∃ c ∈ s.toList, c.toNat = b.toNat := by
  rw [← String.ofList_toList (s := s), encode_ofList, List.mem_flatMap] at h
  obtain ⟨c, hc, hbc⟩ := h
  exact ⟨c, hc, ascii_mem_encodeChar hb hbc⟩

theorem encode_of_decode {bytes : List UInt8} {s : String} (h : decode bytes = some s) :
    encode s = bytes := by
  unfold decode String.fromUTF8? at h
  split_ifs at h with hvalid
  rw [← Option.some.inj h]
  rfl

/-- What a part of a string leaves is a string again. -/
theorem decode_prefix {s t : String} {cut rest : List UInt8} (h : cut ++ rest = encode s)
    (ht : decode cut = some t) : ∃ u : String, s = t ++ u := by
  have hbytes : s.toByteArray = t.toByteArray ++ ⟨rest.toArray⟩ := by
    rw [← encode_of_decode ht] at h
    apply ByteArray.ext
    have harray := congrArg List.toArray h.symm
    rw [encode, Array.toArray_toList] at harray
    rw [harray, ByteArray.data_append, encode, ← List.append_toArray, Array.toArray_toList]
  have hvalid : ∀ (cs : List Char) (b : ByteArray),
      ByteArray.IsValidUTF8 (cs.utf8Encode ++ b) → ByteArray.IsValidUTF8 b := by
    intro cs b hb
    induction cs with
    | nil => simpa using hb
    | cons c cs ih =>
      rw [← List.singleton_append, List.utf8Encode_append, ByteArray.append_assoc,
        ByteArray.isValidUTF8_utf8Encode_singleton_append_iff] at hb
      exact ih hb
  have hrest : ByteArray.IsValidUTF8 ⟨rest.toArray⟩ := by
    refine hvalid t.toList _ ?_
    have hs := s.isValidUTF8
    rwa [hbytes, ← String.ofList_toList (s := t), String.toByteArray_ofList] at hs
  refine ⟨String.ofByteArray ⟨rest.toArray⟩ hrest, ?_⟩
  rw [← String.toByteArray_inj, hbytes, String.toByteArray_append]

end Utf8
