import Todero.FrameAuth

/-! What a frame tag binds: the bytes fed to the mac give back the whole frame. -/
namespace Todero.Crypto
open Todero.Wire

/-- The fixed fields come first, each at its own width, so the payload needs no end. -/
theorem SignedFrame.macInput_inj {f g : SignedFrame} (h : f.macInput = g.macInput) :
    f = { g with tag := f.tag } := by
  unfold macInput at h
  obtain ⟨h, hpayload⟩ := List.append_inj h (by simp)
  obtain ⟨h, -⟩ := List.append_inj h (by simp)
  obtain ⟨h, hpath⟩ := List.append_inj h (by simp)
  obtain ⟨hsequence, hcid⟩ := List.append_inj h (by simp)
  have hsequence := BigEndian.write_inj hsequence f.sequence.toNat_lt g.sequence.toNat_lt
  have hcid := BigEndian.write_inj hcid f.cid.toNat_lt g.cid.toNat_lt
  have hpath := BigEndian.write_inj hpath f.pathId.toNat_lt g.pathId.toNat_lt
  cases f
  cases g
  simp_all [UInt64.toNat_inj, UInt32.toNat_inj]

section Hmac
variable {δ : Type} [TagBytes δ] (hmac : Key → Except String (Bytes → δ))

def sign (auth : HmacSha256FrameAuth) (f : SignedFrame) : Except CryptoError Bytes :=
  signInner hmac auth.key f

variable {hmac}

/-- A tag that was made for one frame is genuine for that frame alone. -/
theorem genuine_iff {key : Key} {f g : SignedFrame}
    (hinj : ∀ mac, hmac key = .ok mac → Function.Injective mac)
    (hsign : signInner hmac key f = .ok g.tag) :
    Genuine hmac key g ↔ g = { f with tag := g.tag } := by
  unfold Genuine
  cases hk : hmac key with
  | error e => simp [signInner, hk] at hsign
  | ok mac =>
    simp only [signInner, hk, Except.ok.injEq] at hsign ⊢
    constructor
    · intro hgenuine
      have hinput := hinj mac hk (TagBytes.toBytes_injective (hgenuine.trans hsign.symm))
      exact SignedFrame.macInput_inj hinput
    · intro hframe
      rw [hframe]
      exact hsign

/-- With a mac that has no collisions, a tag that `sign` has made is accepted by `verify`,
in any state under the same key, for that frame and no other, provided that the sequence
number is fresh; and both feed the mac the same bytes. -/
theorem verify_signed_iff (hmac : Key → Except String (Bytes → δ))
    (signer auth : HmacSha256FrameAuth) (hkey : signer.key = auth.key)
    (hinj : ∀ mac, hmac auth.key = .ok mac → Function.Injective mac) (f g : SignedFrame)
    (hsign : sign hmac signer f = .ok g.tag) :
    ((verify hmac auth g).2 = .ok () ↔ ¬ Rejects auth g ∧ g = { f with tag := g.tag }) ∧
      ∀ x : SignedFrame, x.verifyInput = x.macInput := by
  rw [sign, hkey] at hsign
  rw [verify_eq_ok, genuine_iff hinj hsign]
  exact ⟨Iff.rfl, SignedFrame.verifyInput_eq⟩

end Hmac

instance : TagBytes Bytes := ⟨id, Function.injective_id⟩

/-- The mac under the zero key of one frame, and something longer and different for
everything else. -/
def zeroKeyTags (input : Bytes) : Bytes :=
  if input = genuineFrame.macInput then genuineFrame.tag else List.replicate 33 0 ++ input

theorem zeroKeyTags_injective : Function.Injective zeroKeyTags := by
  have hlong : ∀ input : Bytes, genuineFrame.tag ≠ List.replicate 33 0 ++ input := by
    intro input h
    have hlen := congrArg List.length h
    rw [List.length_append, List.length_replicate] at hlen
    have htag : genuineFrame.tag.length = 32 := by decide
    omega
  intro a b h
  unfold zeroKeyTags at h
  split_ifs at h with ha hb hb
  · rw [ha, hb]
  · exact absurd h (hlong b)
  · exact absurd h.symm (hlong a)
  · exact List.append_cancel_left h

/-- The tag of one frame is accepted under that frame and turned down under the same frame
with one byte more. -/
theorem genuineFrame_bound :
    (verify (fun _ => .ok zeroKeyTags) zeroKeyAuth genuineFrame).2 = .ok () ∧
      (verify (fun _ => .ok zeroKeyTags) zeroKeyAuth { genuineFrame with payload := [0] }).2 ≠
        .ok () := by
  have hinj : ∀ mac, (.ok zeroKeyTags : Except String (Bytes → Bytes)) = .ok mac →
      Function.Injective mac := by
    intro mac hmac
    rw [← Except.ok.inj hmac]
    exact zeroKeyTags_injective
  have hsign : sign (fun _ => .ok zeroKeyTags) zeroKeyAuth genuineFrame =
      .ok genuineFrame.tag := by
    change Except.ok (zeroKeyTags genuineFrame.macInput) = _
    rw [zeroKeyTags, if_pos rfl]
  constructor
  · exact (verify_signed_iff _ zeroKeyAuth zeroKeyAuth rfl hinj genuineFrame genuineFrame
      hsign).1.mpr ⟨by decide, rfl⟩
  · intro haccepted
    have hframe := ((verify_signed_iff _ zeroKeyAuth zeroKeyAuth rfl hinj genuineFrame
      { genuineFrame with payload := [0] } hsign).1.mp haccepted).2
    exact absurd (congrArg SignedFrame.payload hframe) (by decide)

end Todero.Crypto
