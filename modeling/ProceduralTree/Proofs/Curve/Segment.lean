import ProceduralTree.Proofs.Curve.Frames
import ProceduralTree.Proofs.Curve.Interpolation
import ProceduralTree.Proofs.Curve.Knots

/-!
# Splines through two points

The spline through two points runs straight from one to the other at an even pace: the reflected
neighbours make all of its parameter distances equal. If its ends are far enough apart, it has a
frame everywhere, and tubes along it have a mesh. The spline that comes back to the first point
slows down to a halt at the second, however far the points are apart.

## Main statements

* `Spline.point_segment` — the spline through two points, without rounding.
* `keepsMoving_segment` — no two samples of it coincide.
* `stalls_thereAndBack` — the samples at a turning point coincide.
-/

namespace ProceduralTree

/-- The spline from one point straight to another. -/
def Spline.segment {α : Type} (p q : Vec3 α) : Spline α := ⟨#[p, q], le_refl 2⟩

/-- Two points and their reflections in each other. -/
def Span.straight {α : Type} [Scalar α] (p q : Vec3 α) : Span α :=
  ⟨p - (q - p), p, q, q + (q - p)⟩

section Segment

variable (p q : Vec3 ℝ)

namespace Span

/-- Between edges of equal length all parameter distances are equal. -/
theorem exists_knots_eq {s : Span ℝ} (hbefore : (s.start - s.before).norm = (s.stop - s.start).norm)
    (hafter : (s.after - s.stop).norm = (s.stop - s.start).norm) :
    ∃ d > 0, s.knots = ⟨d, d, d⟩ := by
  simp only [knots, hbefore, hafter]
  by_cases h : Scalar.fourthRoot (s.stop - s.start).norm < sampleStep
  · exact ⟨1, one_pos, by simp [Knots.orElse, h]⟩
  · exact ⟨_, sampleStep_pos.trans_le (not_lt.1 h), by simp [Knots.orElse, h]⟩

theorem knots_straight : ∃ d > 0, (straight p q).knots = ⟨d, d, d⟩ := by
  have hbefore : p - (p - (q - p)) = q - p := by ext <;> simp
  have hafter : q + (q - p) - q = q - p := by ext <;> simp
  exact exists_knots_eq (congrArg Vec3.norm hbefore) (congrArg Vec3.norm hafter)

theorem startTangent_straight : (straight p q).startTangent = q - p := by
  obtain ⟨d, hd, hknots⟩ := knots_straight p q
  rw [startTangent, hknots]
  ext <;>
  · simp [straight]
    field_simp
    ring

theorem stopTangent_straight : (straight p q).stopTangent = q - p := by
  obtain ⟨d, hd, hknots⟩ := knots_straight p q
  rw [stopTangent, hknots]
  ext <;>
  · simp [straight]
    field_simp
    ring

theorem eval_straight (t : ℝ) : (straight p q).cubic.eval t = p + t • (q - p) := by
  rw [cubic, startTangent_straight, stopTangent_straight]
  ext <;>
  · simp [straight, CubicArc.hermite, CubicArc.eval]
    ring

end Span

theorem Spline.point_segment (x : ℝ) : (segment p q).point x = p + x • (q - p) := by
  have hindex : (segment p q).spanIndex x = 0 := by simp [spanIndex, segment]
  have hspan (k : Nat) (hk : k = 0) (h : k + 1 < (segment p q).points.size) :
      (segment p q).span k h = .straight p q := by
    subst hk
    simp [span, segment, Span.straight]
  rw [point, hspan _ hindex, Span.eval_straight, hindex]
  simp [scaled, segment]

/-- The spline from the origin straight to a point. -/
theorem Spline.curve_segment_zero (d : Vec3 ℝ) {x : ℝ} (h₀ : 0 ≤ x) (h₁ : x ≤ 1) :
    (segment 0 d).curve x = .ok (x • d) := by
  have hpoint : (segment 0 d).point x = x • d := by
    rw [point_segment]
    ext <;> simp
  rw [← hpoint]
  exact Curve.ofPoint_eq_ok ⟨h₀, h₁⟩

theorem keepsMoving_segment (hapart : 1 / 10000000 ≤ (q - p).norm) :
    KeepsMoving (Spline.segment p q).point := by
  intro x y _ _ hstep
  have hdiff : (Spline.segment p q).point y - (Spline.segment p q).point x = (y - x) • (q - p) := by
    rw [Spline.point_segment, Spline.point_segment]
    ext <;>
    · simp
      ring
  have hpos : (0 : ℝ) ≤ y - x := sampleStep_pos.le.trans hstep
  rw [hdiff, Vec3.norm_smul, abs_of_nonneg hpos]
  calc (Scalar.tolerance : ℝ) = sampleStep * (1 / 10000000) := by
        norm_num [Scalar.tolerance, sampleStep]
    _ ≤ (y - x) * (q - p).norm := mul_le_mul hstep hapart (by norm_num) hpos

/-! ## There and back -/

/-- The way out, between the reflected neighbour and the way back. -/
theorem Span.eval_out (t : ℝ) :
    (Span.mk (p - (q - p)) p q p).cubic.eval t = p + (t + t ^ 2 - t ^ 3) • (q - p) := by
  have hbefore : p - (p - (q - p)) = q - p := by ext <;> simp
  obtain ⟨d, hd, hknots⟩ := exists_knots_eq (s := ⟨p - (q - p), p, q, p⟩)
    (congrArg Vec3.norm hbefore) (Vec3.norm_sub_comm p q)
  rw [cubic, startTangent, stopTangent, hknots]
  ext <;>
  · simp [CubicArc.hermite, CubicArc.eval]
    field_simp
    ring

/-- The way back. -/
theorem Span.eval_back (t : ℝ) :
    (Span.mk p q p (p + (p - q))).cubic.eval t = q + (2 * t ^ 2 - t ^ 3) • (p - q) := by
  have hafter : p + (p - q) - p = p - q := by ext <;> simp
  obtain ⟨d, hd, hknots⟩ := exists_knots_eq (s := ⟨p, q, p, p + (p - q)⟩)
    (Vec3.norm_sub_comm q p) (congrArg Vec3.norm hafter)
  rw [cubic, startTangent, stopTangent, hknots]
  ext <;>
  · simp [CubicArc.hermite, CubicArc.eval]
    field_simp
    ring

/-- The spline from one point to another and back. -/
def Spline.thereAndBack {α : Type} (p q : Vec3 α) : Spline α := ⟨#[p, q, p], Nat.le_succ 2⟩

/-- The samples around the turning point are one and the same point. -/
theorem stalls_thereAndBack : Stalls (Spline.thereAndBack p q).point (1 / 2) := by
  have hlow : max (1 / 2 - sampleStep) 0 = (499 / 1000 : ℝ) := by norm_num [sampleStep]
  have hhigh : min (1 / 2 + sampleStep) 1 = (501 / 1000 : ℝ) := by norm_num [sampleStep]
  have hscaled (x : ℝ) : (Spline.thereAndBack p q).scaled x = 2 * x := rfl
  have hout : (Spline.thereAndBack p q).point (499 / 1000) =
      (Span.mk (p - (q - p)) p q p).cubic.eval (998 / 1000) := by
    rw [Spline.point_eq_eval (s := .thereAndBack p q) (k := 0) (Nat.lt_add_of_pos_left two_pos)] <;>
      norm_num [hscaled]
    rfl
  have hback : (Spline.thereAndBack p q).point (501 / 1000) =
      (Span.mk p q p (p + (p - q))).cubic.eval (2 / 1000) := by
    rw [Spline.point_eq_eval (s := .thereAndBack p q) (k := 1) (Nat.lt_succ_self 2)] <;>
      norm_num [hscaled]
    rfl
  have hsame : q + (2 * (2 / 1000) ^ 2 - (2 / 1000) ^ 3 : ℝ) • (p - q) -
      (p + (998 / 1000 + (998 / 1000) ^ 2 - (998 / 1000) ^ 3 : ℝ) • (q - p)) = 0 := by
    ext <;>
    · simp
      ring
  rw [stalls_real, hlow, hhigh, hout, hback, Span.eval_out, Span.eval_back, hsame]
  norm_num [Vec3.norm, Vec3.normSq, Vec3.dot, Scalar.tolerance]

end Segment

end ProceduralTree
