import Mathlib.RingTheory.RootsOfUnity.Complex
import ProceduralTree.Mesh.Tube
import ProceduralTree.Proofs.Curve.Handedness
import ProceduralTree.Proofs.Space.Polyline

/-!
# Spokes of a frame

The unit vectors across the tangent of a frame, by their angle to the binormal. The spokes at equal
angles of a full turn cancel each other out, and any two of them are as far apart as their angle
says. As their angle grows, they turn about the direction against the tangent by the right hand.

## Main definitions

* `Frame.spoke` — the unit vector at an angle.

## Main statements

* `Frame.IsRightHanded.spoke_dot_spoke`, `Frame.spoke_cross` — products of
  spokes.
* `Frame.IsRightHanded.norm_spoke_sub_spoke` — how far apart two spokes are.
* `Frame.sum_spoke` — the spokes of a full turn.
-/

namespace ProceduralTree

open Vec3

namespace Frame

/-- The vector across the tangent at an angle to the binormal, which the normal follows by a quarter
turn. -/
noncomputable def spoke (f : Frame ℝ) (angle : ℝ) : Vec3 ℝ :=
  Real.cos angle • f.binormal + Real.sin angle • f.normal

variable {f : Frame ℝ}

theorem circlePoint_eq (center : Vec3 ℝ) (f : Frame ℝ) (radius angle : ℝ) :
    Tube.circlePoint center f radius angle = center + radius • f.spoke angle := by
  ext <;>
  · simp only [Tube.circlePoint, spoke, add_x, add_y, add_z, smul_x, smul_y, smul_z]
    change _ + Real.cos angle * radius * _ + Real.sin angle * radius * _ = _
    ring

theorem circlePoint_sub_center (center : Vec3 ℝ) (f : Frame ℝ) (radius angle : ℝ) :
    Tube.circlePoint center f radius angle - center = radius • f.spoke angle := by
  rw [circlePoint_eq]
  ext <;> simp

/-- A chord of a circle. -/
theorem circlePoint_sub_circlePoint (center : Vec3 ℝ) (f : Frame ℝ) (radius a b : ℝ) :
    Tube.circlePoint center f radius b - Tube.circlePoint center f radius a =
      radius • (f.spoke b - f.spoke a) := by
  rw [circlePoint_eq, circlePoint_eq]
  ext <;>
  · simp
    ring

theorem spoke_add_turn (f : Frame ℝ) (angle : ℝ) :
    f.spoke (angle + 2 * Real.pi) = f.spoke angle := by
  rw [spoke, Real.cos_add_two_pi, Real.sin_add_two_pi, spoke]

/-! ## Products -/

theorem spoke_cross (f : Frame ℝ) (a b : ℝ) :
    (f.spoke a).cross (f.spoke b) = Real.sin (b - a) • f.binormal.cross f.normal := by
  rw [Real.sin_sub]
  ext <;>
  · simp only [spoke, cross, add_x, add_y, add_z, smul_x, smul_y, smul_z]
    ring

theorem spoke_dot (f : Frame ℝ) (angle : ℝ) (v : Vec3 ℝ) : (f.spoke angle).dot v =
    Real.cos angle * f.binormal.dot v + Real.sin angle * f.normal.dot v := by
  simp only [spoke, dot, add_x, add_y, add_z, smul_x, smul_y, smul_z]
  ring

namespace IsRightHanded

variable (hf : f.IsRightHanded)

include hf

theorem spoke_dot_tangent (angle : ℝ) : (f.spoke angle).dot f.tangent = 0 := by
  rw [spoke_dot, hf.binormal_dot_tangent, hf.normal_dot_tangent, mul_zero, mul_zero, add_zero]

theorem spoke_dot_spoke (a b : ℝ) : (f.spoke a).dot (f.spoke b) = Real.cos (b - a) := by
  have hbinormal : f.binormal.dot f.binormal = 1 := norm_eq_one_iff.1 hf.norm_binormal
  have hnormal : f.normal.dot f.normal = 1 := norm_eq_one_iff.1 hf.norm_normal
  rw [spoke_dot, dot_comm f.binormal, dot_comm f.normal, spoke_dot, spoke_dot,
    dot_comm f.normal f.binormal, hf.binormal_dot_normal, hbinormal, hnormal, Real.cos_sub]
  ring

theorem norm_spoke (angle : ℝ) : (f.spoke angle).norm = 1 := by
  rw [norm_eq_one_iff, normSq, hf.spoke_dot_spoke, sub_self, Real.cos_zero]

/-- Two spokes are the ends of a chord of the unit circle. -/
theorem norm_spoke_sub_spoke (a b : ℝ) :
    (f.spoke b - f.spoke a).norm = 2 * |Real.sin ((b - a) / 2)| := by
  have hsq : (f.spoke b - f.spoke a).normSq = (2 * Real.sin ((b - a) / 2)) ^ 2 := by
    have hhalf := Real.cos_two_mul ((b - a) / 2)
    have hunit := Real.sin_sq_add_cos_sq ((b - a) / 2)
    rw [mul_div_cancel₀ _ two_ne_zero] at hhalf
    rw [normSq_sub, dot_comm, hf.spoke_dot_spoke, norm_eq_one_iff.1 (hf.norm_spoke b),
      norm_eq_one_iff.1 (hf.norm_spoke a), hhalf]
    linarith
  rw [Vec3.norm, hsq, Scalar.sqrt_real, Real.sqrt_sq_eq_abs, abs_mul, abs_two]

/-- The cross product of the axes points against the tangent. -/
theorem exists_binormal_cross_normal :
    ∃ c : ℝ, 0 < c ∧ f.binormal.cross f.normal = (-c) • f.tangent := by
  obtain ⟨c, hc, hturn⟩ := hf.turn
  have htriple : f.binormal.cross (f.binormal.cross f.tangent) =
      f.binormal.dot f.tangent • f.binormal - f.binormal.normSq • f.tangent := by
    ext <;>
    · simp only [cross, normSq, dot, sub_x, sub_y, sub_z, smul_x, smul_y, smul_z]
      ring
  refine ⟨c, hc, ?_⟩
  rw [hturn, cross_smul, htriple, hf.binormal_dot_tangent, norm_eq_one_iff.1 hf.norm_binormal]
  ext <;> simp

end IsRightHanded

/-! ## A full turn -/

/-- The sum of the roots of unity of a degree above one. -/
theorem sum_exp_turn {n : Nat} (hn : 2 ≤ n) :
    ∑ j ∈ Finset.range n, Complex.exp ((2 * Real.pi / n * j : ℝ) * Complex.I) = 0 := by
  rw [← (Complex.isPrimitiveRoot_exp n (by omega)).geom_sum_eq_zero (by omega)]
  refine Finset.sum_congr rfl fun j _ => ?_
  rw [← Complex.exp_nat_mul]
  congr 1
  push_cast
  ring

theorem sum_cos_turn {n : Nat} (hn : 2 ≤ n) :
    ∑ j ∈ Finset.range n, Real.cos (2 * Real.pi / n * j) = 0 := by
  simpa only [Complex.re_sum, Complex.exp_ofReal_mul_I_re, Complex.zero_re] using
    congrArg Complex.re (sum_exp_turn hn)

theorem sum_sin_turn {n : Nat} (hn : 2 ≤ n) :
    ∑ j ∈ Finset.range n, Real.sin (2 * Real.pi / n * j) = 0 := by
  simpa only [Complex.im_sum, Complex.exp_ofReal_mul_I_im, Complex.zero_im] using
    congrArg Complex.im (sum_exp_turn hn)

/-- The spokes that divide a full turn evenly cancel each other out. -/
theorem sum_spoke (f : Frame ℝ) {n : Nat} (hn : 2 ≤ n) :
    ∑ j ∈ Finset.range n, (f.spoke (2 * Real.pi / n * j)).toEuclidean = 0 := by
  simp only [spoke, toEuclidean_add, toEuclidean_smul, Finset.sum_add_distrib, ← Finset.sum_smul,
    sum_cos_turn hn, sum_sin_turn hn, zero_smul, add_zero]

end Frame

end ProceduralTree
