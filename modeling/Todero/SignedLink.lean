import Mathlib.Data.List.Perm.Subperm
import Todero.FrameTags
import Todero.ReplayWindow

/-! A signer and a verifier under one key, and a network between them that drops, copies,
reorders and makes up frames. The verifier takes what was signed, and takes it once. -/
namespace Todero.Crypto
open Todero.Wire SlidingWindow Transition

/-- The two ends hold windows of their own; only the verifier's moves. -/
structure AuthLink where
  signer : HmacSha256FrameAuth
  verifier : HmacSha256FrameAuth
  deriving DecidableEq

/-- The tag of a frame that is to be signed is not looked at. -/
inductive AuthCall where
  | sign (f : SignedFrame)
  | verify (f : SignedFrame)
  deriving DecidableEq

inductive AuthAnswer where
  | signed (tag : Except CryptoError Bytes)
  | verified (result : Except CryptoError Unit)
  deriving DecidableEq

def AuthLink.start (key : Key) (signerSize windowSize : UInt64) : AuthLink :=
  ⟨.new key signerSize, .new key windowSize⟩

section Link
variable {δ : Type} [TagBytes δ] (hmac : Key → Except String (Bytes → δ))

def AuthLink.step (w : AuthLink) : AuthCall → Option (AuthLink × AuthAnswer)
  | .sign f => some (w, .signed (Crypto.sign hmac w.signer f))
  | .verify f =>
    let (verifier, result) := Crypto.verify hmac w.verifier f
    some ({ w with verifier := verifier }, .verified result)

end Link

abbrev AuthTaken := Taken AuthLink AuthCall AuthAnswer

namespace AuthTaken
variable (t : AuthTaken)

/-- The frame that a call has signed. -/
def signed : Option SignedFrame :=
  match t.input, t.output with
  | .sign f, .signed (.ok tag) => some { f with tag := tag }
  | _, _ => none

/-- The frame that a call has been shown. -/
def shown : Option SignedFrame :=
  match t.input with
  | .verify f => some f
  | .sign _ => none

/-- The frame that a call has accepted. -/
def accepted : Option SignedFrame := t.shown.filter fun _ => t.output = .verified (.ok ())

end AuthTaken

def signedIn (h : List AuthTaken) : List SignedFrame := h.filterMap AuthTaken.signed
def shownIn (h : List AuthTaken) : List SignedFrame := h.filterMap AuthTaken.shown
def acceptedIn (h : List AuthTaken) : List SignedFrame := h.filterMap AuthTaken.accepted

/-- The numbers that have been let through, whatever tags they came with. -/
def passed (windowSize : UInt64) (fs : List SignedFrame) : PlainWindow :=
  fs.foldl (fun p f => (p.accept f.sequence.toNat).1) ⟨max 1 (min windowSize.toNat 128), ∅⟩

section Link
variable {δ : Type} [TagBytes δ] (hmac : Key → Except String (Bytes → δ)) (key : Key)

/-- Nobody but the signer makes a tag: a genuine one is shown only on bytes it has signed. -/
def Unforged (h : List AuthTaken) : Prop :=
  ∀ h₀ t h₁ f, h = h₀ ++ t :: h₁ → t.shown = some f → Genuine hmac key f →
    ∃ g ∈ signedIn h₀, g.macInput = f.macInput

/-- What a call that is shown a frame has to say: the frame was signed before, as it is, and
its number is fresh among all that were let through. -/
def AnswersSigned (windowSize : UInt64) (h : List AuthTaken) : Prop :=
  ∀ h₀ t h₁ f, h = h₀ ++ t :: h₁ → t.shown = some f →
    (t.output = .verified (.ok ()) ↔
      f ∈ signedIn h₀ ∧ (passed windowSize (shownIn h₀)).Fresh f.sequence.toNat)

variable {hmac key} {signerSize windowSize : UInt64} {h h₀ : List AuthTaken} {w w' : AuthLink}
variable {t : AuthTaken} {f g : SignedFrame}

/-! ### One call -/

theorem Genuine.of_signed (hsigned : Genuine hmac key g) (hbytes : g.macInput = f.macInput) :
    Genuine hmac key f ↔ f = g := by
  constructor
  · intro hgenuine
    have htag : g.tag = f.tag := by
      unfold Genuine signInner at hsigned hgenuine
      cases hk : hmac key with
      | error e => simp [hk] at hsigned
      | ok mac =>
        rw [hk] at hsigned hgenuine
        rw [← Except.ok.inj hsigned, ← Except.ok.inj hgenuine, hbytes]
    rw [SignedFrame.macInput_inj hbytes.symm, ← htag]
  · rintro rfl
    exact hsigned

theorem step_signed (hstep : w.step hmac t.input = some (w', t.output))
    (hsigned : t.signed = some g) :
    Genuine hmac w.signer.key g := by
  cases hcall : t.input with
  | verify f => simp [AuthTaken.signed, hcall] at hsigned
  | sign f =>
    rw [hcall] at hstep
    obtain ⟨-, hout⟩ := Prod.mk.inj (Option.some.inj hstep)
    cases htag : Crypto.sign hmac w.signer f with
    | error e => simp [AuthTaken.signed, hcall, ← hout, htag] at hsigned
    | ok tag =>
      simp only [AuthTaken.signed, hcall, ← hout, htag, Option.some.injEq] at hsigned
      rw [← hsigned]
      exact htag

theorem step_shown (hstep : w.step hmac t.input = some (w', t.output)) (hshown : t.shown = some f) :
    w'.signer = w.signer ∧ w'.verifier = (Crypto.verify hmac w.verifier f).1 ∧
      t.signed = none ∧
      (t.output = .verified (.ok ()) ↔ ¬ Rejects w.verifier f ∧ Genuine hmac w.verifier.key f) := by
  cases hcall : t.input with
  | sign g => simp [AuthTaken.shown, hcall] at hshown
  | verify g =>
    obtain rfl : g = f := by simpa [AuthTaken.shown, hcall] using hshown
    rw [hcall] at hstep
    obtain ⟨rfl, hout⟩ := Prod.mk.inj (Option.some.inj hstep)
    refine ⟨rfl, rfl, by simp [AuthTaken.signed, hcall], ?_⟩
    rw [← hout, AuthAnswer.verified.injEq]
    exact verify_eq_ok

theorem step_unshown (hstep : w.step hmac t.input = some (w', t.output)) (hshown : t.shown = none) :
    w' = w := by
  cases hcall : t.input with
  | verify f => simp [AuthTaken.shown, hcall] at hshown
  | sign f =>
    rw [hcall] at hstep
    exact (Prod.mk.inj (Option.some.inj hstep)).1.symm

/-! ### Whole runs -/

theorem filterMap_taken (p : AuthTaken → Option SignedFrame) (h : List AuthTaken) (t : AuthTaken) :
    (h ++ [t]).filterMap p = h.filterMap p ++ (p t).toList := by
  rw [List.filterMap_append]
  cases hp : p t <;> simp [hp]

theorem shownIn_snoc (h : List AuthTaken) (t : AuthTaken) :
    shownIn (h ++ [t]) = shownIn h ++ t.shown.toList := filterMap_taken _ h t

theorem signedIn_snoc (h : List AuthTaken) (t : AuthTaken) :
    signedIn (h ++ [t]) = signedIn h ++ t.signed.toList := filterMap_taken _ h t

theorem acceptedIn_snoc (h : List AuthTaken) (t : AuthTaken) :
    acceptedIn (h ++ [t]) = acceptedIn h ++ t.accepted.toList := filterMap_taken _ h t

theorem passed_snoc (fs : List SignedFrame) (f : SignedFrame) :
    passed windowSize (fs ++ [f]) = ((passed windowSize fs).accept f.sequence.toNat).1 := by
  rw [passed, List.foldl_append]
  rfl

/-- Over a run the keys stay, the window stands for what has passed, and every tag that was
signed is genuine. -/
structure AuthLink.Standing (hmac : Key → Except String (Bytes → δ)) (key : Key)
    (windowSize : UInt64) (h : List AuthTaken) (w : AuthLink) : Prop where
  signer_key : w.signer.key = key
  verifier_key : w.verifier.key = key
  tracks : w.verifier.replayWindow.Tracks (passed windowSize (shownIn h))
  genuine : ∀ g ∈ signedIn h, Genuine hmac key g

theorem AuthLink.Standing.step (hw : w.Standing hmac key windowSize h)
    (hstep : w.step hmac t.input = some (w', t.output)) :
    w'.Standing hmac key windowSize (h ++ [t]) := by
  have hgenuine : ∀ g ∈ signedIn (h ++ [t]), Genuine hmac key g := by
    intro g hg
    rw [signedIn_snoc] at hg
    obtain hold | hnew := List.mem_append.mp hg
    · exact hw.genuine g hold
    · rw [← hw.signer_key]
      exact step_signed hstep (Option.mem_toList.mp hnew)
  cases hshown : t.shown with
  | none =>
    rw [step_unshown hstep hshown]
    refine ⟨hw.signer_key, hw.verifier_key, ?_, hgenuine⟩
    rw [shownIn_snoc, hshown, Option.toList_none, List.append_nil]
    exact hw.tracks
  | some f =>
    obtain ⟨hsigner, hverifier, -, -⟩ := step_shown hstep hshown
    refine ⟨by rw [hsigner, hw.signer_key], ?_, ?_, hgenuine⟩
    · rw [hverifier, verify_key, hw.verifier_key]
    · rw [hverifier, verify_window, shownIn_snoc, hshown, Option.toList_some, passed_snoc]
      exact (ReplayWindow.accept_tracks hw.tracks f.sequence).2

theorem standing_of_run
    (hrun : Run (AuthLink.step hmac) (.start key signerSize windowSize) h w) :
    w.Standing hmac key windowSize h := by
  induction hrun with
  | nil => exact ⟨rfl, rfl, ReplayWindow.new_tracks windowSize, by simp [signedIn]⟩
  | @snoc h w w' call answer _ hstep ih => exact ih.step (t := ⟨w, call, answer, w'⟩) hstep

/-- Where nobody forges, being genuine is having been signed, and the window's answer is
that of the numbers it has let through. -/
theorem AuthLink.Standing.answers (hw : w.Standing hmac key windowSize h)
    (hstep : w.step hmac t.input = some (w', t.output)) (hshown : t.shown = some f)
    (hunforged : Genuine hmac key f → ∃ g ∈ signedIn h, g.macInput = f.macInput) :
    t.output = .verified (.ok ()) ↔
      f ∈ signedIn h ∧ (passed windowSize (shownIn h)).Fresh f.sequence.toNat := by
  have hfresh : ¬ Rejects w.verifier f ↔
      (passed windowSize (shownIn h)).Fresh f.sequence.toNat := by
    rw [Rejects, (ReplayWindow.accept_tracks hw.tracks f.sequence).1, Bool.not_eq_false,
      PlainWindow.accept]
    split_ifs with hfresh <;> simp [hfresh]
  have hgenuine : Genuine hmac key f ↔ f ∈ signedIn h := by
    refine ⟨fun hf => ?_, hw.genuine f⟩
    obtain ⟨g, hg, hbytes⟩ := hunforged hf
    rwa [((hw.genuine g hg).of_signed hbytes).mp hf]
  rw [(step_shown hstep hshown).2.2.2, hfresh, hw.verifier_key, hgenuine, and_comm]

/-- What was accepted was signed, and its numbers have passed, each for one frame. -/
structure AcceptedOnce (windowSize : UInt64) (h : List AuthTaken) : Prop where
  nodup : ((acceptedIn h).map SignedFrame.sequence).Nodup
  signed : ∀ f ∈ acceptedIn h, f ∈ signedIn h
  numbers : ∀ f ∈ acceptedIn h, f.sequence.toNat ∈ (passed windowSize (shownIn h)).accepted

theorem mem_passed_snoc {n : Nat} {fs : List SignedFrame}
    (hn : n ∈ (passed windowSize fs).accepted) (f : SignedFrame) :
    n ∈ (passed windowSize (fs ++ [f])).accepted := by
  rw [passed_snoc, PlainWindow.accept]
  split_ifs with hfresh
  · exact Finset.mem_insert_of_mem hn
  · exact hn

theorem AcceptedOnce.step (honce : AcceptedOnce windowSize h)
    (hanswers : ∀ f, t.shown = some f → (t.output = .verified (.ok ()) ↔
      f ∈ signedIn h ∧ (passed windowSize (shownIn h)).Fresh f.sequence.toNat)) :
    AcceptedOnce windowSize (h ++ [t]) := by
  have hstays : ∀ f ∈ acceptedIn h, f ∈ signedIn (h ++ [t]) ∧
      f.sequence.toNat ∈ (passed windowSize (shownIn (h ++ [t]))).accepted := by
    intro f hf
    rw [signedIn_snoc, shownIn_snoc]
    refine ⟨List.mem_append_left _ (honce.signed f hf), ?_⟩
    cases t.shown with
    | none => simpa using honce.numbers f hf
    | some g => exact mem_passed_snoc (honce.numbers f hf) g
  cases haccepted : t.accepted with
  | none =>
    have hsame : acceptedIn (h ++ [t]) = acceptedIn h := by
      rw [acceptedIn_snoc, haccepted, Option.toList_none, List.append_nil]
    exact ⟨by rw [hsame]; exact honce.nodup, fun f hf => (hstays f (hsame ▸ hf)).1,
      fun f hf => (hstays f (hsame ▸ hf)).2⟩
  | some g =>
    obtain ⟨hshown, hok⟩ := Option.filter_eq_some_iff.mp haccepted
    obtain ⟨hsigned, hfresh⟩ := (hanswers g hshown).mp (of_decide_eq_true hok)
    have hmore : acceptedIn (h ++ [t]) = acceptedIn h ++ [g] := by
      rw [acceptedIn_snoc, haccepted, Option.toList_some]
    have hpassed : g.sequence.toNat ∈ (passed windowSize (shownIn (h ++ [t]))).accepted := by
      rw [shownIn_snoc, hshown, Option.toList_some, passed_snoc, PlainWindow.accept_fresh hfresh]
      exact Finset.mem_insert_self _ _
    refine ⟨?_, ?_, ?_⟩
    · rw [hmore, List.map_append]
      refine honce.nodup.append (List.nodup_singleton _) ?_
      rw [List.map_singleton, List.disjoint_singleton, List.mem_map]
      rintro ⟨f, hf, hsame⟩
      exact hfresh.not_mem (hsame ▸ honce.numbers f hf)
    · rw [hmore, List.forall_mem_append, List.forall_mem_singleton, signedIn_snoc]
      exact ⟨fun f hf => List.mem_append_left _ (honce.signed f hf),
        List.mem_append_left _ hsigned⟩
    · rw [hmore, List.forall_mem_append, List.forall_mem_singleton]
      exact ⟨fun f hf => (hstays f hf).2, hpassed⟩

theorem answers_of_run (hrun : Run (AuthLink.step hmac) (.start key signerSize windowSize) h w)
    (hunforged : Unforged hmac key h) : AnswersSigned windowSize h := by
  rintro h₀ t h₁ f rfl hshown
  obtain ⟨hpre, hstep⟩ := hrun.split
  exact (standing_of_run hpre).answers hstep hshown (hunforged h₀ t h₁ f rfl hshown)

theorem once_of_run (hrun : Run (AuthLink.step hmac) (.start key signerSize windowSize) h w)
    (hunforged : Unforged hmac key h) : AcceptedOnce windowSize h := by
  have hanswers := answers_of_run hrun hunforged
  clear hunforged
  induction hrun with
  | nil => exact ⟨List.nodup_nil, by simp [acceptedIn], by simp [acceptedIn]⟩
  | @snoc h w w' call answer _ hstep ih =>
    refine (ih fun h₀ t h₁ f hsplit => ?_).step fun f hshown => hanswers h _ [] f rfl hshown
    exact hanswers h₀ t (h₁ ++ [⟨w, call, answer, w'⟩]) f (by rw [hsplit]; simp)

/-- Whatever a network without the key does with the frames of a signer, a frame is accepted
exactly if it was signed, as it is, and its number is fresh among those that were let
through; so no number is accepted twice, and what was accepted is part of what was signed. -/
theorem accepts_signed_once
    (hrun : Run (AuthLink.step hmac) (.start key signerSize windowSize) h w)
    (hunforged : Unforged hmac key h) :
    AnswersSigned windowSize h ∧ ((acceptedIn h).map SignedFrame.sequence).Nodup ∧
      (acceptedIn h).Subperm (signedIn h) := by
  obtain ⟨hnodup, hsigned, -⟩ := once_of_run hrun hunforged
  exact ⟨answers_of_run hrun hunforged, hnodup, hnodup.of_map.subperm hsigned⟩

end Link

/-- One frame is signed; the network brings it twice, makes one up, and brings it again. -/
def copiedFrame : List AuthCall :=
  [.sign genuineFrame, .verify genuineFrame, .verify genuineFrame, .verify forgedFrame,
    .verify genuineFrame]

theorem copiedFrame_accepted_once : ∃ h w,
    exec (AuthLink.step fun _ => .ok zeroKeyMac) (.start (Vector.replicate 32 0) 64 64)
        copiedFrame = some (h, w) ∧
      h.map (fun t => (AuthTaken.accepted t).isSome) = [false, true, false, false, false] ∧
      AnswersSigned 64 h ∧ ((acceptedIn h).map SignedFrame.sequence).Nodup ∧
      (acceptedIn h).Subperm (signedIn h) := by
  have hsome : (exec (AuthLink.step fun _ => .ok zeroKeyMac)
      (.start (Vector.replicate 32 0) 64 64) copiedFrame).any (fun x =>
        decide (x.1.map (fun t => (AuthTaken.accepted t).isSome) =
          [false, true, false, false, false]) &&
        decide ((x.1.take 1).map AuthTaken.signed = [some genuineFrame])) = true := by
    decide +kernel
  obtain ⟨⟨h, w⟩, hexec, hall⟩ := (Option.any_eq_true _ _).mp hsome
  simp only [Bool.and_eq_true, decide_eq_true_eq] at hall
  obtain ⟨houts, hfirst⟩ := hall
  have hshown : ∀ call ∈ copiedFrame, call = .sign genuineFrame ∨ call = .verify genuineFrame ∨
      call = .verify forgedFrame := by decide
  have hforged : ¬ Genuine (fun _ => .ok zeroKeyMac) (Vector.replicate 32 0) forgedFrame := by
    decide +kernel
  have hunforged : Unforged (fun _ => .ok zeroKeyMac) (Vector.replicate 32 0) h := by
    rintro h₀ t h₁ f hsplit hf hgenuine
    have hcall : t.input ∈ copiedFrame := by
      rw [← exec_inputs hexec]
      exact List.mem_map_of_mem (by simp [hsplit])
    obtain hcall | hcall | hcall := hshown _ hcall
    · simp [AuthTaken.shown, hcall] at hf
    · obtain rfl : genuineFrame = f := by simpa [AuthTaken.shown, hcall] using hf
      cases h₀ with
      | nil =>
        rw [hsplit, List.nil_append, List.take_succ_cons, List.map_cons] at hfirst
        simp [AuthTaken.signed, hcall] at hfirst
      | cons t₀ h₀ =>
        rw [hsplit, List.cons_append, List.take_succ_cons, List.map_cons] at hfirst
        exact ⟨genuineFrame, List.mem_filterMap.mpr ⟨t₀, by simp, (List.cons.inj hfirst).1⟩, rfl⟩
    · obtain rfl : forgedFrame = f := by simpa [AuthTaken.shown, hcall] using hf
      exact absurd hgenuine hforged
  exact ⟨h, w, hexec, houts, accepts_signed_once (Run.of_exec hexec) hunforged⟩

end Todero.Crypto
