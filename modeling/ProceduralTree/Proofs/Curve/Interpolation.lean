import Mathlib
import ProceduralTree.Curve.Spline
import ProceduralTree.Proofs.Space.Polyline

/-!
# Splines at their control points

A span runs from the second of its points to the third, so consecutive spans of a spline meet in the
control point that they share. A spline is therefore continuous, however its control points lie.

## Main definitions

* `Spline.stretch` — the parameters between two neighbouring control points.

## Main statements

* `Spline.point_eq_eval` — the spline by its spans, each taken with both of its ends.
* `Spline.curve_knots` — the spline passes through its control points, without a gap.
-/

namespace ProceduralTree

namespace Span

variable (s : Span ℝ)

/-- The cubic by its way from the start. -/
theorem eval_eq (t : ℝ) : s.cubic.eval t = s.start +
    ((3 * t ^ 2 - 2 * t ^ 3) • (s.stop - s.start) + (t - 2 * t ^ 2 + t ^ 3) • s.startTangent +
      (t ^ 3 - t ^ 2) • s.stopTangent) := by
  ext <;>
  · simp [cubic, CubicArc.hermite, CubicArc.eval]
    ring

theorem eval_zero : s.cubic.eval 0 = s.start := by
  ext <;> simp [cubic, CubicArc.hermite, CubicArc.eval]

theorem eval_one : s.cubic.eval 1 = s.stop := by
  ext <;>
  · simp [cubic, CubicArc.hermite, CubicArc.eval]
    ring

end Span

theorem CubicArc.continuous_eval (c : CubicArc ℝ) : Continuous fun t => (c.eval t).toEuclidean := by
  refine (PiLp.continuous_toLp 2 _).comp (continuous_pi fun i => ?_)
  fin_cases i <;>
  · simp only [eval]
    fun_prop

namespace Spline

variable {s : Spline ℝ} {k : Nat} {x : ℝ}

theorem edges_pos (s : Spline ℝ) : (0 : ℝ) < (s.points.size - 1 : Nat) := by
  have := s.two_le
  exact Nat.cast_pos.2 (by omega)

/-- The parameter of control point `k`. -/
theorem scaled_div (s : Spline ℝ) (k : Nat) : s.scaled (k / (s.points.size - 1 : Nat)) = k :=
  mul_div_cancel₀ _ s.edges_pos.ne'

theorem point_of_spanIndex_eq (hk : k + 1 < s.points.size) (h : s.spanIndex x = k) :
    s.point x = (s.span k hk).cubic.eval (s.scaled x - k) := by
  subst h
  rfl

/-- Where two spans meet, it does not matter which of them a parameter is counted to. -/
theorem point_eq_eval (hk : k + 1 < s.points.size) (hlow : k ≤ s.scaled x)
    (hhigh : s.scaled x ≤ k + 1) : s.point x = (s.span k hk).cubic.eval (s.scaled x - k) := by
  rcases hhigh.lt_or_eq with hlt | heq
  · apply point_of_spanIndex_eq hk
    rw [spanIndex, Scalar.floor_real, (Nat.floor_eq_iff (k.cast_nonneg.trans hlow)).2 ⟨hlow, hlt⟩]
    omega
  have hfloor : ⌊s.scaled x⌋₊ = k + 1 := by rw [heq, ← Nat.cast_add_one, Nat.floor_natCast]
  by_cases hnext : k + 2 < s.points.size
  · have hindex : s.spanIndex x = k + 1 := by
      rw [spanIndex, Scalar.floor_real, hfloor]
      omega
    rw [point_of_spanIndex_eq hnext hindex, heq, Nat.cast_add_one, sub_self, add_sub_cancel_left,
      Span.eval_zero, Span.eval_one]
    rfl
  · apply point_of_spanIndex_eq hk
    rw [spanIndex, Scalar.floor_real, hfloor]
    omega

theorem point_knot (s : Spline ℝ) (h : k < s.points.size) :
    s.point (k / (s.points.size - 1 : Nat)) = s.points[k] := by
  have hknot := s.scaled_div k
  by_cases hnext : k + 1 < s.points.size
  · rw [point_eq_eval hnext hknot.ge (by linarith), hknot, sub_self, Span.eval_zero]
    rfl
  · obtain ⟨j, rfl⟩ : ∃ j, k = j + 1 := ⟨k - 1, by have := s.two_le; omega⟩
    rw [Nat.cast_add_one] at hknot
    rw [Nat.cast_add_one, point_eq_eval h (by linarith) hknot.le, hknot, add_sub_cancel_left,
      Span.eval_one]
    rfl

theorem knot_mem (s : Spline ℝ) (h : k < s.points.size) :
    0 ≤ (k / (s.points.size - 1 : Nat) : ℝ) ∧ (k / (s.points.size - 1 : Nat) : ℝ) ≤ 1 :=
  ⟨div_nonneg (Nat.cast_nonneg _) s.edges_pos.le,
    (div_le_one s.edges_pos).2 (Nat.cast_le.2 (Nat.le_sub_one_of_lt h))⟩

/-- A spline ends at its last control point. -/
theorem curve_one (s : Spline ℝ) : ∃ p, s.points.back? = some p ∧ s.curve 1 = .ok p := by
  have hlast : s.points.size - 1 < s.points.size := by
    have := s.two_le
    omega
  have hpoint := s.point_knot hlast
  rw [div_self s.edges_pos.ne'] at hpoint
  refine ⟨s.points[s.points.size - 1], Array.getElem?_eq_getElem hlast, ?_⟩
  rw [← hpoint]
  exact if_pos ⟨zero_le_one, le_rfl⟩

/-! ## Continuity -/

/-- The parameters between two neighbouring control points, with both ends. -/
def stretch (s : Spline ℝ) (k : Nat) : Set ℝ := {x | k ≤ s.scaled x ∧ s.scaled x ≤ k + 1}

theorem continuous_scaled (s : Spline ℝ) : Continuous s.scaled :=
  continuous_const.mul continuous_id

theorem isClosed_stretch (s : Spline ℝ) (k : Nat) : IsClosed (s.stretch k) :=
  (isClosed_le continuous_const s.continuous_scaled).inter
    (isClosed_le s.continuous_scaled continuous_const)

theorem continuousOn_stretch (hk : k + 1 < s.points.size) :
    ContinuousOn (fun x => (s.point x).toEuclidean) (s.stretch k) := by
  have hlocal : Continuous fun x => s.scaled x - k := s.continuous_scaled.sub continuous_const
  have hcubic := (s.span k hk).cubic.continuous_eval.comp hlocal
  refine hcubic.continuousOn.congr fun x hx => ?_
  exact congrArg Vec3.toEuclidean (point_eq_eval hk hx.1 hx.2)

theorem mem_stretch_spanIndex (s : Spline ℝ) (h₀ : 0 ≤ x) (h₁ : x ≤ 1) :
    x ∈ s.stretch (s.spanIndex x) := by
  have hstart : 0 ≤ s.scaled x := mul_nonneg s.edges_pos.le h₀
  have hstop : s.scaled x ≤ (s.points.size - 1 : Nat) := mul_le_of_le_one_right s.edges_pos.le h₁
  have hedges : s.points.size - 2 + 1 = s.points.size - 1 := by
    have := s.two_le
    omega
  rw [← hedges, Nat.cast_add_one] at hstop
  rw [spanIndex, Scalar.floor_real]
  rcases min_cases ⌊s.scaled x⌋₊ (s.points.size - 2) with ⟨hmin, -⟩ | ⟨hmin, hlt⟩ <;> rw [hmin]
  · exact ⟨Nat.floor_le hstart, (Nat.lt_floor_add_one _).le⟩
  · exact ⟨(Nat.le_floor_iff hstart).1 hlt.le, hstop⟩

theorem Icc_subset_iUnion_stretch (s : Spline ℝ) :
    Set.Icc 0 1 ⊆ ⋃ k : Fin (s.points.size - 1), s.stretch k := fun x hx =>
  Set.mem_iUnion.2 ⟨⟨s.spanIndex x, Nat.lt_sub_of_add_lt (s.spanIndex_succ_lt x)⟩,
    s.mem_stretch_spanIndex hx.1 hx.2⟩

/-- Over the unit interval a spline has no gaps. -/
theorem continuousOn_point (s : Spline ℝ) :
    ContinuousOn (fun x => (s.point x).toEuclidean) (Set.Icc 0 1) := by
  refine ContinuousOn.mono ?_ s.Icc_subset_iUnion_stretch
  refine (locallyFinite_of_finite _).continuousOn_iUnion (fun k => s.isClosed_stretch k) fun k => ?_
  exact continuousOn_stretch (Nat.add_lt_of_lt_sub k.isLt)

/-! ## Control points -/

/-- A spline takes the parameters that divide the unit interval evenly to its control points, in
their order, whether or not some of them coincide. In each inner one of them a span ends where the
next one begins, and between them the spline has no gaps either. -/
theorem curve_knots (s : Spline ℝ) :
    (∀ k (h : k < s.points.size), s.curve (k / (s.points.size - 1 : Nat)) = .ok s.points[k]) ∧
    (∀ k (h : k + 1 < s.points.size) (hnext : k + 2 < s.points.size),
      (s.span k h).cubic.eval 1 = (s.span (k + 1) hnext).cubic.eval 0 ∧
        (s.span (k + 1) hnext).cubic.eval 0 = s.points[k + 1]) ∧
    ContinuousOn (fun x => (s.point x).toEuclidean) (Set.Icc 0 1) := by
  refine ⟨fun k h => ?_, fun k h hnext => ?_, s.continuousOn_point⟩
  · rw [← s.point_knot h]
    exact if_pos (s.knot_mem h)
  · rw [Span.eval_one, Span.eval_zero]
    exact ⟨rfl, rfl⟩

/-- A spline through four points, of which the middle two coincide. -/
noncomputable def pause : Spline ℝ := ⟨#[0, .yAxis, .yAxis, .xAxis], by decide⟩

theorem curve_knots_pause :
    pause.curve (2 / (4 - 1 : Nat)) = .ok .yAxis ∧ pause.curve (3 / (4 - 1 : Nat)) = .ok .xAxis ∧
      (pause.span 0 (by decide)).cubic.eval 1 = (pause.span 1 (by decide)).cubic.eval 0 := by
  obtain ⟨hcurve, hspans, -⟩ := pause.curve_knots
  exact ⟨hcurve 2 (by decide), hcurve 3 (by decide), (hspans 0 (by decide) (by decide)).1⟩

end Spline

end ProceduralTree
