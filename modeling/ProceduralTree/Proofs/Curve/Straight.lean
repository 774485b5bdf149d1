import ProceduralTree.Proofs.Curve.Handedness
import ProceduralTree.Proofs.Curve.Segment
import ProceduralTree.Proofs.Curve.Spokes

/-!
# Frames of a straight line

On a straight line through the origin, both samples of a frame are multiples of the line's
direction. So their sum has no part across the tangent, every binormal comes from a coordinate axis,
and all frames of the line have the same axes.

## Main statements

* `Frame.spoke_ofTangent_smul` — the axes depend on the direction of the tangent alone.
* `Frame.spoke_of_segment_zero` — the frames of a straight line.
-/

namespace ProceduralTree

open Vec3

namespace Frame

variable {c : ℝ} {d : Vec3 ℝ} {x : ℝ} {frame : Frame ℝ}

theorem crossAxis_smul (hc : 0 < c) (d : Vec3 ℝ) : crossAxis (c • d) = crossAxis d := by
  simp only [crossAxis, Scalar.abs_real, smul_x, smul_y, smul_z, abs_mul, abs_of_pos hc,
    mul_le_mul_iff_right₀ hc]

theorem axisRejection_smul (hc : 0 < c) (d : Vec3 ℝ) :
    axisRejection (c • d) = axisRejection d := by
  have hpart : ((c • d).dot (crossAxis d) / (c • d).normSq) • c • d =
      (d.dot (crossAxis d) / d.normSq) • d := by
    rw [smul_dot, normSq_smul]
    ext <;>
    · simp only [smul_x, smul_y, smul_z]
      field_simp
  rw [axisRejection, crossAxis_smul hc, hpart]
  rfl

theorem ofTangent_zero (d : Vec3 ℝ) : ofTangent d 0 =
    ⟨d, (axisRejection d).normalize, ((axisRejection d).normalize.cross d).normalize⟩ := by
  have hshort : (0 : Vec3 ℝ).norm < Scalar.tolerance := by
    simpa [Vec3.norm, normSq, dot] using Scalar.tolerance_pos
  rw [ofTangent, if_pos hshort]
  rfl

/-- A tangent of another length has the same axes across it. -/
theorem spoke_ofTangent_smul (hc : 0 < c) (d : Vec3 ℝ) :
    (ofTangent (c • d) 0).spoke = (ofTangent d 0).spoke := by
  rw [ofTangent_zero, ofTangent_zero, axisRejection_smul hc, cross_smul, normalize_smul hc]
  rfl

/-- A straight line from the origin has frames only if it goes somewhere, and they all have the same
spokes. -/
theorem spoke_of_segment_zero (h₀ : 0 ≤ x) (h₁ : x ≤ 1)
    (h : ofCurve (Spline.segment 0 d).curve x = .ok frame) :
    0 < d.norm ∧ frame.spoke = (ofTangent d 0).spoke := by
  have hstep : (0 : ℝ) < sampleStep := sampleStep_pos
  obtain ⟨p, hp, q, hq, hbetween⟩ := ofCurve_eq_ok.1 h
  obtain ⟨hlong, rfl⟩ := between_eq_ok.1 hbetween
  have hlow : max (x - sampleStep) 0 < min (x + sampleStep) 1 := by
    rw [max_lt_iff, lt_min_iff, lt_min_iff]
    exact ⟨⟨by linarith, by linarith⟩, by linarith, one_pos⟩
  rw [Spline.curve_segment_zero d (le_max_right _ _) (max_le (by linarith) zero_le_one),
    Except.ok.injEq] at hp
  rw [Spline.curve_segment_zero d (le_min (by linarith) zero_le_one) (min_le_right _ _),
    Except.ok.injEq] at hq
  have htangent : q - p = (min (x + sampleStep) 1 - max (x - sampleStep) 0) • d := by
    rw [← hp, ← hq]
    ext <;> exact (sub_mul _ _ _).symm
  have hacross : (q - p).cross (p + q) = 0 := by
    rw [htangent, ← hp, ← hq]
    ext <;>
    · simp only [cross, add_x, add_y, add_z, smul_x, smul_y, smul_z, zero_x, zero_y, zero_z]
      ring
  rw [htangent, norm_smul] at hlong
  rw [hacross, htangent]
  exact ⟨pos_of_mul_pos_right (Scalar.tolerance_pos.trans_le hlong) (abs_nonneg _),
    spoke_ofTangent_smul (sub_pos.2 hlow) d⟩

end Frame

end ProceduralTree
