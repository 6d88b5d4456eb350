import Todero.Lib.Transition

/-! A part of a system: its own steps among those of the system, and its own runs. -/
namespace Transition
variable {σ ι ο τ α β : Type} (own : τ → α → Option (τ × β)) (view : σ → τ)
  (part : ι → ο → Option (α × β))

/-- A step of the system, as the part sees it if it is a step of the part. -/
def partOf (t : Taken σ ι ο) : Option (Taken τ α β) :=
  (part t.input t.output).map fun x => ⟨view t.pre, x.1, x.2, view t.post⟩

/-- A step of the system is one of the part, or leaves the part alone. -/
def Concerns (t : Taken σ ι ο) : Prop :=
  match part t.input t.output with
  | some (a, b) => own (view t.pre) a = some (view t.post, b)
  | none => view t.post = view t.pre

variable {own view part}

/-- Over a run of the system the part takes its own steps, one after the other. -/
theorem Run.project {step : σ → ι → Option (σ × ο)} {start s : σ} {h : List (Taken σ ι ο)}
    (hrun : Run step start h s)
    (hpart : ∀ t ∈ h, step t.pre t.input = some (t.post, t.output) → Concerns own view part t) :
    Run own (view start) (h.filterMap (partOf view part)) (view s) := by
  induction hrun with
  | nil => exact .nil
  | @snoc h s s' i o _ hs ih =>
    have hbefore := ih fun t ht => hpart t (List.mem_append_left _ ht)
    have hlast := hpart ⟨s, i, o, s'⟩ (by simp) hs
    rw [List.filterMap_append]
    cases hown : part i o with
    | none =>
      have hsame : view s' = view s := by simpa [Concerns, hown] using hlast
      simpa [partOf, hown, hsame] using hbefore
    | some x =>
      have hstep : own (view s) x.1 = some (view s', x.2) := by simpa [Concerns, hown] using hlast
      simpa [partOf, hown] using hbefore.snoc hstep

end Transition
