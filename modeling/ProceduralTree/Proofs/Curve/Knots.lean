import Mathlib.Analysis.SpecialFunctions.Pow.Real
import ProceduralTree.Curve.Spline
import ProceduralTree.Proofs.Scalar.Real

/-!
# Parameter distances

A parameter distance is replaced if it is too small to divide by. Its fourth power is a distance in
space, so only points that are very close to each other have such a parameter distance.

## Main definitions

* `Span.distances` — the parameter distances before any of them is replaced.
* `Span.KeepsKnots` — spans of which none is replaced.

## Main statements

* `Span.keepsKnots_of_le_norm` — how far apart the points of a span have to be for that.
* `Spline.forall_edges` — the edges of a span are edges of its spline.
-/

namespace ProceduralTree

theorem sampleStep_pos : (0 : ℝ) < sampleStep := by norm_num [sampleStep]

theorem fourthRoot_pow {a : ℝ} (ha : 0 ≤ a) : Scalar.fourthRoot a ^ 4 = a := by
  change (a ^ (1 / 4 : ℝ)) ^ 4 = a
  rw [one_div]
  exact_mod_cast Real.rpow_inv_natCast_pow ha four_ne_zero

theorem sampleStep_le_fourthRoot {a : ℝ} (ha : 1 / 1000000000000 ≤ a) :
    sampleStep ≤ Scalar.fourthRoot a := by
  have ha₀ : 0 ≤ a := le_trans (by norm_num) ha
  refine le_of_pow_le_pow_left₀ four_ne_zero (Real.rpow_nonneg ha₀ _) ?_
  calc (sampleStep : ℝ) ^ 4 = 1 / 1000000000000 := by norm_num [sampleStep]
    _ ≤ a := ha
    _ = Scalar.fourthRoot a ^ 4 := (fourthRoot_pow ha₀).symm

theorem Knots.orElse_of_le {d : ℝ} (h : sampleStep ≤ d) (spare : ℝ) : orElse d spare = d :=
  if_neg (not_lt.2 h)

namespace Span

/-- The fourth roots of the distances in space. -/
def distances {α : Type} [Scalar α] (s : Span α) : Knots α where
  first := Scalar.fourthRoot (s.start - s.before).norm
  middle := Scalar.fourthRoot (s.stop - s.start).norm
  last := Scalar.fourthRoot (s.after - s.stop).norm

/-- None of the parameter distances is too small to divide by. -/
structure KeepsKnots (s : Span ℝ) : Prop where
  first : sampleStep ≤ s.distances.first
  middle : sampleStep ≤ s.distances.middle
  last : sampleStep ≤ s.distances.last

variable {s : Span ℝ}

theorem KeepsKnots.knots_eq (h : s.KeepsKnots) : s.knots = s.distances := by
  change Knots.mk (Knots.orElse s.distances.first 1) (Knots.orElse s.distances.middle _)
    (Knots.orElse s.distances.last _) = _
  rw [Knots.orElse_of_le h.first, Knots.orElse_of_le h.middle, Knots.orElse_of_le h.last]

theorem keepsKnots_of_le_norm (hfirst : 1 / 1000000000000 ≤ (s.start - s.before).norm)
    (hmiddle : 1 / 1000000000000 ≤ (s.stop - s.start).norm)
    (hlast : 1 / 1000000000000 ≤ (s.after - s.stop).norm) : s.KeepsKnots :=
  ⟨sampleStep_le_fourthRoot hfirst, sampleStep_le_fourthRoot hmiddle,
    sampleStep_le_fourthRoot hlast⟩

end Span

namespace Spline

variable (s : Spline ℝ)

/-- The edge to a reflected neighbour is the edge that it reflects. -/
theorem start_sub_before_zero (h : 0 + 1 < s.points.size) :
    (s.span 0 h).start - (s.span 0 h).before = (s.span 0 h).stop - (s.span 0 h).start := by
  ext <;> simp [span]

variable {s}

theorem after_sub_stop {k : Nat} {h : k + 1 < s.points.size} (hnext : k + 2 < s.points.size) :
    (s.span k h).after - (s.span k h).stop =
      (s.span (k + 1) hnext).stop - (s.span (k + 1) hnext).start := by
  simp only [span, hnext, dif_pos]

theorem after_sub_stop_last {k : Nat} {h : k + 1 < s.points.size}
    (hlast : ¬k + 2 < s.points.size) :
    (s.span k h).after - (s.span k h).stop = (s.span k h).stop - (s.span k h).start := by
  ext <;> simp [span, hlast]

/-- What holds of all edges between control points holds of the edges of all spans. -/
theorem forall_edges {P : Vec3 ℝ → Prop}
    (h : ∀ k (hk : k + 1 < s.points.size), P ((s.span k hk).stop - (s.span k hk).start)) {k : Nat}
    (hk : k + 1 < s.points.size) :
    P ((s.span k hk).start - (s.span k hk).before) ∧ P ((s.span k hk).stop - (s.span k hk).start) ∧
      P ((s.span k hk).after - (s.span k hk).stop) := by
  have hmiddle := h k hk
  refine ⟨?_, hmiddle, ?_⟩
  · cases k with
    | zero => exact s.start_sub_before_zero hk ▸ hmiddle
    | succ k => exact h k (Nat.lt_of_succ_lt hk)
  · by_cases hnext : k + 2 < s.points.size
    · exact after_sub_stop hnext ▸ h (k + 1) hnext
    · exact after_sub_stop_last hnext ▸ hmiddle

/-- Control points that keep apart have parameter distances that are large enough. -/
theorem keepsKnots_of_le_norm
    (h : ∀ k (hk : k + 1 < s.points.size),
      1 / 1000000000000 ≤ ((s.span k hk).stop - (s.span k hk).start).norm)
    {k : Nat} (hk : k + 1 < s.points.size) : (s.span k hk).KeepsKnots := by
  obtain ⟨hfirst, hmiddle, hlast⟩ := forall_edges (P := fun v => 1 / 1000000000000 ≤ v.norm) h hk
  exact Span.keepsKnots_of_le_norm hfirst hmiddle hlast

end Spline

end ProceduralTree
