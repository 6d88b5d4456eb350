import Mathlib.Order.Interval.Set.Basic
import Todero.CoreTypes

/-! The certificate periods of v3-crypto: the alarm before one ends, and the plan for
replacing one certificate by another. -/
namespace Todero.Crypto
open Todero.Core (saturatingSub saturatingSub_toNat toNat_max toNat_min)

structure CertMetadata where
  certId : String
  fingerprintSha256Hex : String
  notBeforeMs : UInt64
  notAfterMs : UInt64
  deriving DecidableEq, Repr

inductive ExpiryAlarmLevel where
  | none
  | warning30d
  | high14d
  | critical7d
  | expired
  deriving DecidableEq, Repr

def dayMs : UInt64 := 24 * 60 * 60 * 1000

def expiryAlarmLevel (nowMs : UInt64) (cert : CertMetadata) : ExpiryAlarmLevel :=
  if nowMs ≥ cert.notAfterMs then .expired
  else
    let remainingMs := saturatingSub cert.notAfterMs nowMs
    if remainingMs ≤ 7 * dayMs then .critical7d
    else if remainingMs ≤ 14 * dayMs then .high14d
    else if remainingMs ≤ 30 * dayMs then .warning30d
    else .none

structure RotationPlan where
  oldCertId : String
  newCertId : String
  overlapStartMs : UInt64
  overlapEndMs : UInt64
  canRotateWithoutDowntime : Bool
  deriving DecidableEq, Repr

def planRotation (nowMs : UInt64) (oldCert newCert : CertMetadata) (minOverlapMs : UInt64) :
    RotationPlan :=
  let overlapStart := max (max oldCert.notBeforeMs newCert.notBeforeMs) nowMs
  let overlapEnd := min oldCert.notAfterMs newCert.notAfterMs
  let overlap := saturatingSub overlapEnd overlapStart
  { oldCertId := oldCert.certId
    newCertId := newCert.certId
    overlapStartMs := overlapStart
    overlapEndMs := overlapEnd
    canRotateWithoutDowntime := overlap ≥ minOverlapMs }

/-- Begun, and not expired yet. -/
def CertMetadata.ValidAt (cert : CertMetadata) (t : UInt64) : Prop :=
  cert.notBeforeMs ≤ t ∧ expiryAlarmLevel t cert ≠ .expired

instance (cert : CertMetadata) (t : UInt64) : Decidable (cert.ValidAt t) := by
  unfold CertMetadata.ValidAt
  infer_instance

/-- The instants of a period, as numbers. -/
def CertMetadata.period (cert : CertMetadata) : Set ℕ :=
  Set.Ico cert.notBeforeMs.toNat cert.notAfterMs.toNat

theorem expired_iff {t : UInt64} {cert : CertMetadata} :
    expiryAlarmLevel t cert = .expired ↔ cert.notAfterMs ≤ t := by
  unfold expiryAlarmLevel
  split_ifs with hover
  · exact iff_of_true rfl hover
  · dsimp only
    split_ifs <;> exact iff_of_false (by decide) hover

theorem validAt_iff {cert : CertMetadata} {t : UInt64} :
    cert.ValidAt t ↔ t.toNat ∈ cert.period := by
  rw [CertMetadata.ValidAt, Ne, expired_iff, UInt64.le_iff_toNat_le, UInt64.le_iff_toNat_le,
    not_le]
  rfl

/-- The overlap from now on, as an exact difference cut off at zero. -/
theorem canRotate_iff {nowMs minOverlapMs : UInt64} {oldCert newCert : CertMetadata} :
    (planRotation nowMs oldCert newCert minOverlapMs).canRotateWithoutDowntime = true ↔
      minOverlapMs.toNat ≤ min oldCert.notAfterMs.toNat newCert.notAfterMs.toNat -
        max (max oldCert.notBeforeMs.toNat newCert.notBeforeMs.toNat) nowMs.toNat := by
  simp only [planRotation, decide_eq_true_eq, ge_iff_le, UInt64.le_iff_toNat_le,
    saturatingSub_toNat, toNat_max, toNat_min]

/-- Two half-open intervals, the first of which goes on at `now`, leave nothing out up to the
end of the second exactly if the second does not begin after the first ends, or ends before. -/
theorem Ico_subset_union_iff {α : Type*} [LinearOrder α] {now a b c d : α} (ha : a ≤ now)
    (hb : now < b) : Set.Ico now d ⊆ Set.Ico a b ∪ Set.Ico c d ↔ c ≤ b ∨ d ≤ b := by
  constructor
  · intro hcover
    by_contra hgap
    obtain ⟨hcb, hdb⟩ := not_or.mp hgap
    obtain hold | hnew := hcover ⟨hb.le, not_le.mp hdb⟩
    · exact lt_irrefl b hold.2
    · exact hcb hnew.1
  · rintro hcover t ⟨hnow, htd⟩
    by_cases htb : t < b
    · exact .inl ⟨ha.trans hnow, htb⟩
    · obtain hcb | hdb := hcover
      · exact .inr ⟨hcb.trans (not_lt.mp htb), htd⟩
      · exact absurd (htd.trans_le hdb) htb

/-- While the old certificate is valid, a rotation that is reported to be free of downtime is
so exactly if some overlap was asked for, or the new certificate begins no later than the old
one ends, or ends no later. -/
theorem rotation_gapless_iff (nowMs minOverlapMs : UInt64) (oldCert newCert : CertMetadata)
    (hbegun : oldCert.notBeforeMs ≤ nowMs) (hgoing : nowMs < oldCert.notAfterMs) :
    ((planRotation nowMs oldCert newCert minOverlapMs).canRotateWithoutDowntime = true →
      ∀ t, nowMs ≤ t → t < newCert.notAfterMs → oldCert.ValidAt t ∨ newCert.ValidAt t) ↔
    0 < minOverlapMs ∨ newCert.notBeforeMs ≤ oldCert.notAfterMs ∨
      newCert.notAfterMs ≤ oldCert.notAfterMs := by
  have hcover : (∀ t, nowMs ≤ t → t < newCert.notAfterMs →
      oldCert.ValidAt t ∨ newCert.ValidAt t) ↔
        Set.Ico nowMs.toNat newCert.notAfterMs.toNat ⊆ oldCert.period ∪ newCert.period := by
    constructor
    · rintro hall n ⟨hnow, hend⟩
      have hn : (UInt64.ofNat n).toNat = n :=
        UInt64.toNat_ofNat_of_lt' (hend.trans newCert.notAfterMs.toNat_lt)
      have hvalid := hall (UInt64.ofNat n) (by rwa [UInt64.le_iff_toNat_le, hn])
        (by rwa [UInt64.lt_iff_toNat_lt, hn])
      rwa [validAt_iff, validAt_iff, hn] at hvalid
    · intro hsub t hnow hend
      rw [validAt_iff, validAt_iff]
      exact hsub ⟨UInt64.le_iff_toNat_le.mp hnow, UInt64.lt_iff_toNat_lt.mp hend⟩
  rw [hcover, canRotate_iff, CertMetadata.period, CertMetadata.period,
    Ico_subset_union_iff (UInt64.le_iff_toNat_le.mp hbegun) (UInt64.lt_iff_toNat_lt.mp hgoing)]
  simp only [UInt64.le_iff_toNat_le, UInt64.lt_iff_toNat_lt, UInt64.toNat_zero]
  omega

def oldCert : CertMetadata := ⟨"old", "aa", 0, 10⟩

/-- A new certificate that begins when the old one has been over for a while. -/
def lateCert : CertMetadata := ⟨"new", "bb", 20, 30⟩

/-- With an overlap asked for, the rotation to the late certificate is turned down; touching
periods leave no gap when none is asked for. -/
theorem rotation_gapless_iff_touching :
    ((planRotation 5 oldCert ⟨"new", "bb", 10, 30⟩ 0).canRotateWithoutDowntime = true ∧
      ∀ t, (5 : UInt64) ≤ t → t < 30 →
        oldCert.ValidAt t ∨ CertMetadata.ValidAt ⟨"new", "bb", 10, 30⟩ t) ∧
    (planRotation 5 oldCert lateCert 1).canRotateWithoutDowntime = false :=
  ⟨⟨by decide, (rotation_gapless_iff 5 0 oldCert ⟨"new", "bb", 10, 30⟩ (by decide) (by decide)).mpr
    (by decide) (by decide)⟩, by decide⟩

/-- No overlap asked for, and none there: the plan is approved, and nothing is valid between
the two periods. -/
theorem lateCert_gap :
    ¬ ∀ (nowMs minOverlapMs : UInt64) (oldCert newCert : CertMetadata),
      oldCert.notBeforeMs ≤ nowMs → nowMs < oldCert.notAfterMs →
      (planRotation nowMs oldCert newCert minOverlapMs).canRotateWithoutDowntime = true →
      ∀ t, nowMs ≤ t → t < newCert.notAfterMs → oldCert.ValidAt t ∨ newCert.ValidAt t := by
  intro hclaim
  have hvalid := hclaim 5 0 oldCert lateCert (by decide) (by decide) (by decide) 15 (by decide)
    (by decide)
  revert hvalid
  decide

end Todero.Crypto
