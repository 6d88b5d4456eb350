import Mathlib.Data.Finset.Image
import Todero.FrameAuth
import Todero.Lib.SlidingWindow
import Todero.Lib.Transition

/-! The bitmap of the replay window against the plain set of all sequence numbers it has
accepted. -/
namespace Todero.Crypto
open SlidingWindow Transition

theorem clampSize_toNat (n : UInt64) : (clampSize n).toNat = max 1 (min n.toNat 128) := by
  unfold clampSize
  split_ifs with hlow hhigh
  · have hzero : n.toNat < 1 := UInt64.lt_iff_toNat_lt.mp hlow
    rw [UInt64.toNat_one]
    omega
  · have hbig : 128 < n.toNat := UInt64.lt_iff_toNat_lt.mp hhigh
    rw [show (128 : UInt64).toNat = 128 from rfl]
    omega
  · have hpos : 1 ≤ n.toNat := not_lt.mp fun h => hlow (UInt64.lt_iff_toNat_lt.mpr h)
    have hle : n.toNat ≤ 128 := not_lt.mp fun h => hhigh (UInt64.lt_iff_toNat_lt.mpr h)
    omega

namespace ReplayWindow

/-- The window stands for a plain set: while that is empty both fields are zero, and
afterwards the register shows the part of it that is recent enough. -/
inductive Tracks (win : ReplayWindow) : PlainWindow → Prop
  | fresh : win.maxSeen = 0 → win.bits = 0 → Tracks win ⟨win.windowSize.toNat, ∅⟩
  | shows {S : Finset Nat} : win.maxSeen.toNat ∈ S → (∀ n ∈ S, n ≤ win.maxSeen.toNat) →
      Shows win.bits win.windowSize.toNat win.maxSeen.toNat S →
      Tracks win ⟨win.windowSize.toNat, S⟩

theorem new_tracks (windowSize : UInt64) :
    (ReplayWindow.new windowSize).Tracks ⟨max 1 (min windowSize.toNat 128), ∅⟩ := by
  rw [← clampSize_toNat]
  exact .fresh rfl rfl

variable {win : ReplayWindow} {p : PlainWindow}

/-- The register of a window that has accepted something is not zero. -/
theorem bits_ne_zero {S : Finset Nat} (hmem : win.maxSeen.toNat ∈ S)
    (hshows : Shows win.bits win.windowSize.toNat win.maxSeen.toNat S) : win.bits ≠ 0 := by
  intro hzero
  have hhead := (hshows 0 win.size_pos (Nat.zero_le _)).mpr hmem
  rw [hzero] at hhead
  simp at hhead

/-- What `accept` does once it has accepted something, in numbers: a greater number moves
the register. -/
theorem accept_ahead {s : UInt64} (hbits : win.bits ≠ 0)
    (hlt : win.maxSeen.toNat < s.toNat) :
    win.accept s = ({ win with
      maxSeen := s
      bits := (if win.windowSize.toNat ≤ s.toNat - win.maxSeen.toNat then 0
        else win.bits <<< (s.toNat - win.maxSeen.toNat)) ||| 1 }, true) := by
  have hnew : s > win.maxSeen := UInt64.lt_iff_toNat_lt.mpr hlt
  have hshift : (s - win.maxSeen).toNat = s.toNat - win.maxSeen.toNat :=
    UInt64.toNat_sub_of_le _ _ (UInt64.le_iff_toNat_le.mpr hlt.le)
  rw [accept, if_neg fun h => hbits h.2, if_pos hnew]
  simp only [ge_iff_le, UInt64.le_iff_toNat_le, hshift]

/-- A number at or below the greatest one is looked up, unless it lies too far back. -/
theorem accept_behind {s : UInt64} (hbits : win.bits ≠ 0)
    (hle : s.toNat ≤ win.maxSeen.toNat) :
    win.accept s =
      if win.windowSize.toNat ≤ win.maxSeen.toNat - s.toNat then (win, false)
      else if win.bits.getLsbD (win.maxSeen.toNat - s.toNat) = true then (win, false)
      else ({ win with
        bits := win.bits ||| (1 : BitVec 128) <<< (win.maxSeen.toNat - s.toNat) }, true) := by
  have hnew : ¬ s > win.maxSeen := fun h => absurd (UInt64.lt_iff_toNat_lt.mp h) (not_lt.mpr hle)
  have hdelta : (win.maxSeen - s).toNat = win.maxSeen.toNat - s.toNat :=
    UInt64.toNat_sub_of_le _ _ (UInt64.le_iff_toNat_le.mpr hle)
  rw [accept, if_neg fun h => hbits h.2, if_neg hnew]
  simp only [ge_iff_le, UInt64.le_iff_toNat_le, hdelta]
  split_ifs with hold hmask hbit hbit
  · rfl
  · rfl
  · have hsize := win.size_le
    rw [Bool.not_eq_true, ← and_mask_eq_zero (by omega)] at hbit
    exact absurd hbit hmask
  · have hsize := win.size_le
    rw [not_not, and_mask_eq_zero (by omega), hbit] at hmask
    cases hmask
  · rfl

/-- One call gives the answer of the plain set, and goes on standing for it. -/
theorem accept_tracks (ht : win.Tracks p) (s : UInt64) :
    (win.accept s).2 = (p.accept s.toNat).2 ∧ (win.accept s).1.Tracks (p.accept s.toNat).1 := by
  cases ht with
  | fresh hmax hbits =>
    rw [PlainWindow.accept_fresh (.inl rfl), accept, if_pos ⟨hmax, hbits⟩]
    exact ⟨rfl, .shows (Finset.mem_insert_self _ _)
      (fun n hn => (Finset.mem_singleton.mp hn).le) (.single win.size_le)⟩
  | @shows S hmem hmax hshows =>
    have hbits := bits_ne_zero hmem hshows
    have hgreatest := PlainWindow.greatest_of_bounds (p := ⟨win.windowSize.toNat, S⟩) hmem hmax
    rcases lt_or_ge win.maxSeen.toNat s.toNat with hlt | hle
    · have hfresh : PlainWindow.Fresh ⟨win.windowSize.toNat, S⟩ s.toNat :=
        .inr (.inl (hgreatest.trans_lt hlt))
      rw [accept_ahead hbits hlt, PlainWindow.accept_fresh hfresh]
      refine ⟨rfl, .shows (Finset.mem_insert_self _ _) ?_
        (hshows.advance win.size_le win.size_pos hmax hlt)⟩
      intro n hn
      rcases Finset.mem_insert.mp hn with rfl | hold
      · exact le_rfl
      · exact (hmax n hold).trans hlt.le
    · have hback : win.maxSeen.toNat - (win.maxSeen.toNat - s.toNat) = s.toNat := by omega
      have hfresh : PlainWindow.Fresh ⟨win.windowSize.toNat, S⟩ s.toNat ↔
          win.maxSeen.toNat - s.toNat < win.windowSize.toNat ∧ s.toNat ∉ S := by
        rw [PlainWindow.Fresh, hgreatest]
        simp [Finset.ne_empty_of_mem hmem, not_lt.mpr hle]
      rw [accept_behind hbits hle]
      split_ifs with hold hseen
      · rw [PlainWindow.accept_stale fun h => absurd (hfresh.mp h).1 (not_lt.mpr hold)]
        exact ⟨rfl, .shows hmem hmax hshows⟩
      · rw [hshows _ (not_le.mp hold) (Nat.sub_le _ _), hback] at hseen
        rw [PlainWindow.accept_stale fun h => (hfresh.mp h).2 hseen]
        exact ⟨rfl, .shows hmem hmax hshows⟩
      · have hmark := hshows.mark win.size_le (not_le.mp hold) (Nat.sub_le _ _)
        rw [hshows _ (not_le.mp hold) (Nat.sub_le _ _), hback] at hseen
        rw [hback] at hmark
        rw [PlainWindow.accept_fresh (hfresh.mpr ⟨not_le.mp hold, hseen⟩)]
        refine ⟨rfl, .shows (Finset.mem_insert_of_mem hmem) ?_ hmark⟩
        intro n hn
        rcases Finset.mem_insert.mp hn with rfl | hin
        · exact hle
        · exact hmax n hin

/-! ### Many calls -/

def step (win : ReplayWindow) (sequence : UInt64) : Option (ReplayWindow × Bool) :=
  some (win.accept sequence)

abbrev Calls := List (Taken ReplayWindow UInt64 Bool)

/-- The sequence numbers that were accepted, in order. -/
def accepted (h : Calls) : List UInt64 := (h.filter Taken.output).map Taken.input

theorem accepted_snoc (h : Calls) (t : Taken ReplayWindow UInt64 Bool) :
    accepted (h ++ [t]) = if t.output then accepted h ++ [t.input] else accepted h := by
  cases hout : t.output <;> simp [accepted, hout]

/-- The set that a run of calls leaves the window standing for. -/
def plainOf (windowSize : UInt64) (h : Calls) : PlainWindow :=
  ⟨max 1 (min windowSize.toNat 128), ((accepted h).map UInt64.toNat).toFinset⟩

theorem mem_plainOf {windowSize : UInt64} {h : Calls} {s : UInt64} :
    s.toNat ∈ (plainOf windowSize h).accepted ↔ s ∈ accepted h := by
  simp [plainOf, UInt64.toNat_inj]

/-- Over a run the window stands for what it has accepted, each number once. -/
theorem run_tracks {windowSize : UInt64} {h : Calls} {win : ReplayWindow}
    (hrun : Run step (.new windowSize) h win) :
    win.Tracks (plainOf windowSize h) ∧ (accepted h).Nodup := by
  induction hrun with
  | nil => exact ⟨new_tracks windowSize, List.nodup_nil⟩
  | @snoc h win win' s answer _ hs ih =>
    obtain ⟨htracks, hnodup⟩ := ih
    obtain ⟨hanswer, hnext⟩ := accept_tracks htracks s
    have heq : win.accept s = (win', answer) := Option.some.inj hs
    rw [heq] at hanswer hnext
    dsimp only at hanswer hnext
    rw [plainOf, accepted_snoc, hanswer]
    by_cases hfresh : (plainOf windowSize h).Fresh s.toNat
    · rw [PlainWindow.accept_fresh hfresh] at hnext ⊢
      rw [if_pos rfl, List.map_append, List.toFinset_append, Finset.union_comm]
      refine ⟨hnext, hnodup.append (List.nodup_singleton _) ?_⟩
      rw [List.disjoint_singleton]
      exact fun hmem => hfresh.not_mem (mem_plainOf.mpr hmem)
    · rw [PlainWindow.accept_stale hfresh] at hnext ⊢
      exact ⟨hnext, hnodup⟩

/-- Whether a number is fresh, in terms of the numbers that were accepted. -/
theorem fresh_plainOf {windowSize : UInt64} {h : Calls} {s : UInt64} :
    (plainOf windowSize h).Fresh s.toNat ↔
      accepted h = [] ∨ ∃ m, IsGreatest {x | x ∈ accepted h} m ∧
        (m < s ∨ m.toNat - s.toNat < max 1 (min windowSize.toNat 128) ∧ s ∉ accepted h) := by
  have hempty : (plainOf windowSize h).accepted = ∅ ↔ accepted h = [] := by simp [plainOf]
  have hgreatest : ∀ m, IsGreatest {x | x ∈ accepted h} m →
      (plainOf windowSize h).greatest = m.toNat := by
    rintro m ⟨hm, hle⟩
    refine PlainWindow.greatest_of_bounds (mem_plainOf.mpr hm) fun n hn => ?_
    obtain ⟨x, hx, rfl⟩ := List.mem_map.mp (List.mem_toFinset.mp hn)
    exact UInt64.le_iff_toNat_le.mp (hle hx)
  rw [PlainWindow.Fresh, hempty, mem_plainOf]
  refine or_congr_right' fun hsome => ?_
  obtain ⟨m, hm, htop⟩ : ∃ m ∈ accepted h, m.toNat = (plainOf windowSize h).greatest := by
    have hmem := PlainWindow.greatest_mem fun hnone => hsome (hempty.mp hnone)
    exact List.mem_map.mp (List.mem_toFinset.mp hmem)
  have hm' : IsGreatest {x | x ∈ accepted h} m := by
    refine ⟨hm, fun x hx => UInt64.le_iff_toNat_le.mpr ?_⟩
    rw [htop]
    exact PlainWindow.le_greatest (mem_plainOf.mpr hx)
  constructor
  · rintro (hlt | hrecent)
    · exact ⟨m, hm', .inl (UInt64.lt_iff_toNat_lt.mpr (htop ▸ hlt))⟩
    · rw [← htop] at hrecent
      exact ⟨m, hm', .inr hrecent⟩
  · rintro ⟨m', hgreat, hlt | hrecent⟩
    · rw [hgreatest m' hgreat]
      exact .inl (UInt64.lt_iff_toNat_lt.mp hlt)
    · rw [hgreatest m' hgreat]
      exact .inr hrecent

/-- A window of any size accepts a number exactly if it has accepted none before, or the
number is greater than the greatest it has accepted, or less than the window's size below it
and not accepted before; so it accepts no number twice. -/
theorem accepts_iff {windowSize : UInt64} {h : Calls} {win : ReplayWindow}
    (hrun : Run step (.new windowSize) h win) :
    (∀ s, (win.accept s).2 = true ↔
      accepted h = [] ∨ ∃ m, IsGreatest {x | x ∈ accepted h} m ∧
        (m < s ∨ m.toNat - s.toNat < max 1 (min windowSize.toNat 128) ∧ s ∉ accepted h)) ∧
    (accepted h).Nodup := by
  obtain ⟨htracks, hnodup⟩ := run_tracks hrun
  refine ⟨fun s => ?_, hnodup⟩
  rw [(accept_tracks htracks s).1, ← fresh_plainOf, PlainWindow.accept]
  split_ifs with hfresh
  · exact iff_of_true rfl hfresh
  · exact iff_of_false (by decide) hfresh

/-- Jumps far ahead, a duplicate, and numbers on both sides of the far end of the window. -/
theorem accepts_iff_three : ∃ h win,
    exec step (ReplayWindow.new 3) [0, 7, 5, 5, 4, 1000, 998, 997] = some (h, win) ∧
      h.map Taken.output = [true, true, true, false, false, true, true, false] ∧
      (∀ s, (win.accept s).2 = true ↔
        accepted h = [] ∨ ∃ m, IsGreatest {x | x ∈ accepted h} m ∧
          (m < s ∨ m.toNat - s.toNat < max 1 (min (3 : UInt64).toNat 128) ∧ s ∉ accepted h)) ∧
      (accepted h).Nodup := by
  have hexec : (exec step (ReplayWindow.new 3) [0, 7, 5, 5, 4, 1000, 998, 997]).map
      (fun r => r.1.map Taken.output) =
        some [true, true, true, false, false, true, true, false] := by decide
  obtain ⟨⟨h, win⟩, hexec, houts⟩ := Option.map_eq_some_iff.mp hexec
  exact ⟨h, win, hexec, houts, accepts_iff (Run.of_exec hexec)⟩

end ReplayWindow

end Todero.Crypto
