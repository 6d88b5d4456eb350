import Todero.Wire

/-! The frame authentication of v3-crypto: the sliding replay window and the tag check.
`verify` moves the window before it looks at the tag. -/
namespace Todero.Crypto
open Todero.Wire

inductive CryptoError where
  | invalidConfig (message : String)
  | authFailed (message : String)
  | provider (message : String)
  deriving DecidableEq, Repr

/-! ### The replay window -/

/-- `new` clamps the size, and nothing changes it afterwards. -/
structure ReplayWindow where
  maxSeen : UInt64
  bits : BitVec 128
  windowSize : UInt64
  size_pos : 1 ≤ windowSize.toNat
  size_le : windowSize.toNat ≤ 128
  deriving DecidableEq

/-- `window_size.clamp(1, 128)`. -/
def clampSize (windowSize : UInt64) : UInt64 :=
  if windowSize < 1 then 1 else if windowSize > 128 then 128 else windowSize

theorem clampSize_bounds (n : UInt64) : 1 ≤ (clampSize n).toNat ∧ (clampSize n).toNat ≤ 128 := by
  unfold clampSize
  split_ifs with hlow hhigh
  · decide
  · decide
  · simp only [UInt64.lt_iff_toNat_lt, UInt64.reduceToNat, gt_iff_lt] at hlow hhigh
    omega

def ReplayWindow.new (windowSize : UInt64) : ReplayWindow where
  maxSeen := 0
  bits := 0
  windowSize := clampSize windowSize
  size_pos := (clampSize_bounds windowSize).1
  size_le := (clampSize_bounds windowSize).2

/-- True if the sequence number has not been seen and is within the window. -/
def ReplayWindow.accept (w : ReplayWindow) (sequence : UInt64) : ReplayWindow × Bool :=
  if w.maxSeen = 0 ∧ w.bits = 0 then ({ w with maxSeen := sequence, bits := 1 }, true)
  else if sequence > w.maxSeen then
    let shift := sequence - w.maxSeen
    let bits := if shift ≥ w.windowSize then 0 else w.bits <<< shift.toNat
    ({ w with maxSeen := sequence, bits := bits ||| 1 }, true)
  else
    let delta := w.maxSeen - sequence
    if delta ≥ w.windowSize then (w, false)
    else
      let mask := (1 : BitVec 128) <<< delta.toNat
      if w.bits &&& mask ≠ 0 then (w, false)
      else ({ w with bits := w.bits ||| mask }, true)

theorem mask_ne_zero {d : Nat} (hd : d < 128) : (1 : BitVec 128) <<< d ≠ 0 := by
  intro h
  have hbit := congrArg (fun b => b.getLsbD d) h
  simp [hd] at hbit

theorem or_ne_self {b mask : BitVec 128} (hmask : mask ≠ 0) (hfree : b &&& mask = 0) :
    b ||| mask ≠ b := by
  intro h
  refine hmask ?_
  calc mask = (b ||| mask) &&& mask := by
        ext i
        simp only [BitVec.getElem_and, BitVec.getElem_or]
        cases b[i] <;> cases mask[i] <;> rfl
    _ = 0 := by rw [h, hfree]

/-- The window moves exactly when it accepts. -/
theorem ReplayWindow.accept_moves (w : ReplayWindow) (sequence : UInt64) :
    (w.accept sequence).1 = w ↔ (w.accept sequence).2 = false := by
  unfold ReplayWindow.accept
  split_ifs with hfresh hnew
  · refine iff_of_false (fun h => ?_) (by simp)
    have hbits : (1 : BitVec 128) = w.bits := congrArg ReplayWindow.bits h
    rw [hfresh.2] at hbits
    exact absurd hbits (by decide)
  · refine iff_of_false (fun h => ?_) (by simp)
    have hmax : sequence = w.maxSeen := congrArg ReplayWindow.maxSeen h
    exact absurd hnew (by rw [hmax]; exact UInt64.lt_irrefl _)
  · dsimp only
    split_ifs with hold hseen
    · exact iff_of_true rfl rfl
    · exact iff_of_true rfl rfl
    · refine iff_of_false (fun h => ?_) (by simp)
      have hlt : (w.maxSeen - sequence).toNat < 128 := by
        have hsize := w.size_le
        rw [ge_iff_le, UInt64.le_iff_toNat_le] at hold
        omega
      exact or_ne_self (mask_ne_zero hlt) (not_not.mp hseen) (congrArg ReplayWindow.bits h)

/-! ### Frame tags -/

abbrev Key := Vector UInt8 32
abbrev Digest := Vector UInt8 32

/-- A frame with the tag it came with. -/
structure SignedFrame where
  sequence : UInt64
  cid : UInt64
  pathId : UInt32
  payload : Bytes
  tag : Bytes
  deriving DecidableEq

/-- The bytes that `sign_inner` feeds to the mac. -/
def SignedFrame.macInput (f : SignedFrame) : Bytes :=
  BigEndian.write 8 f.sequence.toNat ++ BigEndian.write 8 f.cid.toNat
    ++ BigEndian.write 4 f.pathId.toNat ++ BigEndian.write 8 f.payload.length ++ f.payload

/-- The bytes that `verify` feeds to a mac of its own. -/
def SignedFrame.verifyInput (f : SignedFrame) : Bytes :=
  BigEndian.write 8 f.sequence.toNat ++ BigEndian.write 8 f.cid.toNat
    ++ BigEndian.write 4 f.pathId.toNat ++ BigEndian.write 8 f.payload.length ++ f.payload

@[simp] theorem SignedFrame.verifyInput_eq (f : SignedFrame) : f.verifyInput = f.macInput := rfl

/-- What a mac gives out, read as bytes. -/
class TagBytes (δ : Type) where
  toBytes : δ → Bytes
  toBytes_injective : Function.Injective toBytes

instance : TagBytes Digest := ⟨Vector.toList, fun _ _ => Vector.toList_inj.mp⟩

structure HmacSha256FrameAuth where
  key : Key
  replayWindow : ReplayWindow
  deriving DecidableEq

def HmacSha256FrameAuth.new (key : Key) (replayWindowSize : UInt64) : HmacSha256FrameAuth :=
  ⟨key, ReplayWindow.new replayWindowSize⟩

section Hmac
-- `Hmac::<Sha256>::new_from_slice` and, where it succeeds, the mac of an input
variable {δ : Type} [TagBytes δ] (hmac : Key → Except String (Bytes → δ))

def signInner (key : Key) (f : SignedFrame) : Except CryptoError Bytes :=
  match hmac key with
  | .error e => .error (.provider s!"hmac init failed: {e}")
  | .ok mac => .ok (TagBytes.toBytes (mac f.macInput))

/-- What `verify` does once the window has accepted the sequence number. -/
def checkTag (key : Key) (f : SignedFrame) : Except CryptoError Unit := do
  let expected ← signInner hmac key f
  match hmac key with
  | .error e => throw (.provider s!"hmac init failed: {e}")
  | .ok mac =>
    if TagBytes.toBytes (mac f.verifyInput) ≠ f.tag then
      throw (.authFailed "frame auth tag mismatch")
    if expected.length ≠ f.tag.length then
      throw (.authFailed "frame auth tag length mismatch")

def verify (auth : HmacSha256FrameAuth) (f : SignedFrame) :
    HmacSha256FrameAuth × Except CryptoError Unit :=
  let (window, fresh) := auth.replayWindow.accept f.sequence
  let auth := { auth with replayWindow := window }
  if fresh then (auth, checkTag hmac auth.key f)
  else (auth, .error (.authFailed s!"replay rejected for sequence={f.sequence}"))

/-- The tag is the one `sign` makes for this frame. -/
def Genuine (key : Key) (f : SignedFrame) : Prop := signInner hmac key f = .ok f.tag

instance (key : Key) (f : SignedFrame) : Decidable (Genuine hmac key f) := by
  unfold Genuine
  infer_instance

theorem checkTag_eq_ok {key : Key} {f : SignedFrame} :
    checkTag hmac key f = .ok () ↔ Genuine hmac key f := by
  cases hk : hmac key with
  | error e => simp [checkTag, Genuine, signInner, hk, bind, Except.bind]
  | ok mac =>
    by_cases htag : TagBytes.toBytes (mac f.macInput) = f.tag
    · simp [checkTag, Genuine, signInner, hk, bind, Except.bind, htag, pure, Except.pure]
    · simp [checkTag, Genuine, signInner, hk, bind, Except.bind, htag, throw, throwThe,
        MonadExceptOf.throw]

/-- The window turns the frame's sequence number down. -/
def Rejects (auth : HmacSha256FrameAuth) (f : SignedFrame) : Prop :=
  (auth.replayWindow.accept f.sequence).2 = false

instance (auth : HmacSha256FrameAuth) (f : SignedFrame) : Decidable (Rejects auth f) := by
  unfold Rejects
  infer_instance

variable {hmac}

theorem verify_key (auth : HmacSha256FrameAuth) (f : SignedFrame) :
    (verify hmac auth f).1.key = auth.key := by
  unfold verify
  dsimp only
  split_ifs <;> rfl

theorem verify_window (auth : HmacSha256FrameAuth) (f : SignedFrame) :
    (verify hmac auth f).1.replayWindow = (auth.replayWindow.accept f.sequence).1 := by
  unfold verify
  dsimp only
  split_ifs <;> rfl

theorem verify_eq_ok {auth : HmacSha256FrameAuth} {f : SignedFrame} :
    (verify hmac auth f).2 = .ok () ↔ ¬ Rejects auth f ∧ Genuine hmac auth.key f := by
  unfold verify Rejects
  dsimp only
  split_ifs with hfresh
  · simp [checkTag_eq_ok, hfresh]
  · simp [hfresh]

/-- A failed call leaves the window alone unless a wrong tag came with a sequence number
that the window accepts. -/
theorem failed_call_iff (auth : HmacSha256FrameAuth) (f : SignedFrame) :
    ((verify hmac auth f).2 ≠ .ok () → (verify hmac auth f).1.replayWindow = auth.replayWindow) ↔
      Genuine hmac auth.key f ∨ Rejects auth f := by
  rw [Ne, verify_eq_ok, verify_window, ReplayWindow.accept_moves]
  change (_ → Rejects auth f) ↔ _
  tauto

/-- A frame the window rejects leaves no trace. -/
theorem verify_rejected {auth : HmacSha256FrameAuth} {f : SignedFrame} (h : Rejects auth f) :
    (verify hmac auth f).1 = auth := by
  have hwindow := (ReplayWindow.accept_moves auth.replayWindow f.sequence).mpr h
  have hv := @verify_window _ _ hmac auth f
  have hk := @verify_key _ _ hmac auth f
  rw [hwindow] at hv
  cases hres : (verify hmac auth f).1 with
  | mk key window =>
    rw [hres] at hv hk
    cases auth
    simp_all

/-! ### Many calls -/

variable (hmac)

/-- The results of verifying frames one after the other. -/
def outcomes : HmacSha256FrameAuth → List SignedFrame → List (SignedFrame × Except CryptoError Unit)
  | _, [] => []
  | auth, f :: fs => (f, (verify hmac auth f).2) :: outcomes (verify hmac auth f).1 fs

/-- The frames a rightful sender tagged. -/
def genuineOnly (key : Key) (fs : List SignedFrame) : List SignedFrame :=
  fs.filter fun f => Genuine hmac key f

/-- Every frame with a wrong tag meets a window that rejects its sequence number. -/
def ForgedRejected : HmacSha256FrameAuth → List SignedFrame → Prop
  | _, [] => True
  | auth, f :: fs =>
    (Genuine hmac auth.key f ∨ Rejects auth f) ∧ ForgedRejected (verify hmac auth f).1 fs

variable {hmac}

/-- The results of the genuine frames are those they have on their own. -/
theorem outcomes_genuine {auth : HmacSha256FrameAuth} {fs : List SignedFrame}
    (h : ForgedRejected hmac auth fs) :
    (outcomes hmac auth fs).filter (fun x => Genuine hmac auth.key x.1) =
      outcomes hmac auth (genuineOnly hmac auth.key fs) := by
  induction fs generalizing auth with
  | nil => rfl
  | cons f fs ih =>
    obtain ⟨hf, hfs⟩ := h
    have htail := ih hfs
    rw [verify_key] at htail
    by_cases hg : Genuine hmac auth.key f
    · rw [outcomes, List.filter_cons_of_pos (by simpa using hg), htail, genuineOnly, genuineOnly,
        List.filter_cons_of_pos (by simpa using hg), outcomes]
    · have hkeep := @verify_rejected _ _ hmac _ _ (hf.resolve_left hg)
      rw [outcomes, List.filter_cons_of_neg (by simpa using hg), htail, hkeep, genuineOnly,
        genuineOnly, List.filter_cons_of_neg (by simpa using hg)]

end Hmac

/-- The mac under the zero key, for the two frames below. -/
def zeroKeyMac (input : Bytes) : Digest :=
  if input = BigEndian.write 8 1 ++ BigEndian.write 8 7 ++ BigEndian.write 12 0 then
    #v[22, 153, 63, 12, 9, 251, 173, 183, 106, 241, 76, 189, 188, 41, 138, 56, 63, 155, 166, 140,
      136, 61, 166, 68, 35, 120, 185, 226, 242, 241, 219, 153]
  else
    #v[29, 139, 199, 232, 248, 134, 214, 194, 162, 141, 45, 96, 57, 211, 75, 11, 197, 91, 109,
      164, 122, 194, 105, 130, 54, 59, 199, 82, 246, 91, 58, 130]

def zeroKeyAuth : HmacSha256FrameAuth := .new (Vector.replicate 32 0) 64

/-- A tag of no bytes, and a sequence number far ahead. -/
def forgedFrame : SignedFrame := ⟨1000, 7, 0, [], []⟩

def genuineFrame : SignedFrame :=
  ⟨1, 7, 0, [], (zeroKeyMac (SignedFrame.macInput ⟨1, 7, 0, [], []⟩)).toList⟩

end Todero.Crypto
