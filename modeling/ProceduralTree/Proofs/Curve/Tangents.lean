import ProceduralTree.Proofs.Curve.Interpolation
import ProceduralTree.Proofs.Curve.Knots

/-!
# Splines without corners

Two spans of a spline meet in a control point, and each takes its own tangent there, from its own
four points and per unit of its own parameter distance. If neither of the two distances is replaced,
both tangents are multiples of one vector, which depends on the shared point and its neighbours
alone. So the spline has no corner there, whatever the outer points of the two spans are.

## Main definitions

* `CubicArc.slope` — the derivative of a cubic.
* `knotDirection` — the vector that the tangents at a control point are multiples of.

## Main statements

* `Spline.hasDerivWithinAt_stretch` — the derivative of a spline between two control points.
* `Spline.tangents_knot` — the derivatives on both sides of a control point.
-/

namespace ProceduralTree

/-! ## One cubic -/

/-- The derivative of a cubic. -/
noncomputable def CubicArc.slope (c : CubicArc ℝ) (t : ℝ) : Vec3 ℝ :=
  c.c1 + ((2 : Nat) * t) • c.c2 + ((3 : Nat) * t ^ 2) • c.c3

theorem CubicArc.hasDerivAt_eval (c : CubicArc ℝ) (t : ℝ) :
    HasDerivAt (fun t => (c.eval t).toEuclidean) (c.slope t).toEuclidean t := by
  have heval : (fun t => (c.eval t).toEuclidean) = fun t : ℝ => c.c0.toEuclidean +
      t • c.c1.toEuclidean + t ^ 2 • c.c2.toEuclidean + t ^ 3 • c.c3.toEuclidean := by
    funext t
    simp only [eval, Vec3.toEuclidean_add, Vec3.toEuclidean_smul]
    ring_nf
  have hpow (n : Nat) (v : Vec3 ℝ) :=
    (hasDerivAt_pow n t).smul_const v.toEuclidean
  have hline := ((hasDerivAt_id' t).smul_const c.c1.toEuclidean).const_add c.c0.toEuclidean
  rw [heval]
  refine ((hline.add (hpow 2 c.c2)).add (hpow 3 c.c3)).congr_deriv ?_
  simp [slope, Vec3.toEuclidean_add, Vec3.toEuclidean_smul]

/-- The tangent at `q`, between the neighbours `p` and `r`, per unit of parameter distance. -/
noncomputable def knotDirection (p q r : Vec3 ℝ) : Vec3 ℝ :=
  let before := Scalar.fourthRoot (q - p).norm
  let after := Scalar.fourthRoot (r - q).norm
  (q - p) / before - (r - p) / (before + after) + (r - q) / after

namespace Span

variable {s : Span ℝ}

theorem slope_zero (s : Span ℝ) : s.cubic.slope 0 = s.startTangent := by
  ext <;> simp [cubic, CubicArc.hermite, CubicArc.slope]

theorem slope_one (s : Span ℝ) : s.cubic.slope 1 = s.stopTangent := by
  ext <;>
  · simp [cubic, CubicArc.hermite, CubicArc.slope]
    ring

theorem startTangent_eq (hfirst : sampleStep ≤ s.distances.first)
    (hmiddle : sampleStep ≤ s.distances.middle) :
    s.startTangent = s.distances.middle • knotDirection s.before s.start s.stop := by
  have hfirst' : s.knots.first = s.distances.first := Knots.orElse_of_le hfirst _
  have hmiddle' : s.knots.middle = s.distances.middle := Knots.orElse_of_le hmiddle _
  rw [startTangent, hfirst', hmiddle']
  rfl

/-- The first distance may be replaced: it is the spare of the middle one, which is kept. -/
theorem stopTangent_eq (hmiddle : sampleStep ≤ s.distances.middle)
    (hlast : sampleStep ≤ s.distances.last) :
    s.stopTangent = s.distances.middle • knotDirection s.start s.stop s.after := by
  have hmiddle' : s.knots.middle = s.distances.middle := Knots.orElse_of_le hmiddle _
  have hlast' : s.knots.last = s.distances.last := Knots.orElse_of_le hlast _
  rw [stopTangent, hmiddle', hlast']
  rfl

end Span

/-! ## Both sides of a control point -/

namespace Spline

variable {s : Spline ℝ} {k : Nat}

theorem stretch_eq_Icc (s : Spline ℝ) (k : Nat) :
    s.stretch k =
      Set.Icc (k / (s.points.size - 1 : Nat) : ℝ) ((k + 1) / (s.points.size - 1 : Nat)) := by
  ext x
  rw [Set.mem_Icc, div_le_iff₀' s.edges_pos, le_div_iff₀' s.edges_pos]
  rfl

/-- Between two control points the spline is a cubic, run through at the speed of its edges. -/
theorem hasDerivWithinAt_stretch (hk : k + 1 < s.points.size) {x : ℝ} (hx : x ∈ s.stretch k) :
    HasDerivWithinAt (fun x => (s.point x).toEuclidean)
      (((s.points.size - 1 : Nat) : ℝ) • (s.span k hk).cubic.slope (s.scaled x - k)).toEuclidean
      (s.stretch k) x := by
  have hlocal : HasDerivAt (fun x => s.scaled x - k) ((s.points.size - 1 : Nat) : ℝ) x :=
    ((hasDerivAt_id' x).const_mul _).sub_const (k : ℝ) |>.congr_deriv (mul_one _)
  have hcubic := ((s.span k hk).cubic.hasDerivAt_eval (s.scaled x - k)).scomp x hlocal
  rw [Vec3.toEuclidean_smul]
  refine hcubic.hasDerivWithinAt.congr_of_mem (fun y hy => ?_) hx
  exact congrArg Vec3.toEuclidean (point_eq_eval hk hy.1 hy.2)

variable {h₁ : k + 1 < s.points.size} {h₂ : k + 2 < s.points.size}

/-- The tangent of the span that ends in a control point. -/
theorem slope_arriving (hbefore : sampleStep ≤ (s.span k h₁).distances.middle)
    (hafter : sampleStep ≤ (s.span (k + 1) h₂).distances.middle) :
    (s.span k h₁).cubic.slope 1 = (s.span k h₁).distances.middle •
      knotDirection (s.span k h₁).start (s.span k h₁).stop (s.span (k + 1) h₂).stop := by
  have hlast : (s.span k h₁).distances.last = (s.span (k + 1) h₂).distances.middle :=
    congrArg (fun v => Scalar.fourthRoot v.norm) (after_sub_stop h₂)
  have hafter' : (s.span k h₁).after = (s.span (k + 1) h₂).stop := dif_pos h₂
  rw [Span.slope_one, Span.stopTangent_eq hbefore (hlast ▸ hafter), hafter']

/-- The tangent of the span that begins there. -/
theorem slope_leaving (hbefore : sampleStep ≤ (s.span k h₁).distances.middle)
    (hafter : sampleStep ≤ (s.span (k + 1) h₂).distances.middle) :
    (s.span (k + 1) h₂).cubic.slope 0 = (s.span (k + 1) h₂).distances.middle •
      knotDirection (s.span k h₁).start (s.span k h₁).stop (s.span (k + 1) h₂).stop := by
  have hfirst : sampleStep ≤ (s.span (k + 1) h₂).distances.first := hbefore
  rw [Span.slope_zero, Span.startTangent_eq hfirst hafter]
  rfl

/-- In a control point whose distances from its neighbours are not too small, the span before and
the span behind it have derivatives in the ratio of their parameter distances. So on either side
the spline leaves in the same direction, in which only the neighbours have a say. -/
theorem tangents_knot (s : Spline ℝ) {k : Nat} (h₀ : k < s.points.size)
    (h₁ : k + 1 < s.points.size) (h₂ : k + 2 < s.points.size)
    (hbefore : 1 / 1000000000000 ≤ (s.points[k + 1] - s.points[k]).norm)
    (hafter : 1 / 1000000000000 ≤ (s.points[k + 2] - s.points[k + 1]).norm) :
    let before := Scalar.fourthRoot (s.points[k + 1] - s.points[k]).norm
    let after := Scalar.fourthRoot (s.points[k + 2] - s.points[k + 1]).norm
    let direction := knotDirection s.points[k] s.points[k + 1] s.points[k + 2]
    let arriving := fun t => ((s.span k h₁).cubic.eval t).toEuclidean
    let leaving := fun t => ((s.span (k + 1) h₂).cubic.eval t).toEuclidean
    let edges : ℝ := (s.points.size - 1 : Nat)
    let x := (k + 1 : Nat) / edges
    (0 < before ∧ 0 < after) ∧
    HasDerivAt arriving (before • direction).toEuclidean 1 ∧
    HasDerivAt leaving (after • direction).toEuclidean 0 ∧
    after • deriv arriving 1 = before • deriv leaving 0 ∧
    s.point x = s.points[k + 1] ∧
    HasDerivWithinAt (fun x => (s.point x).toEuclidean)
      (edges • before • direction).toEuclidean (Set.Iic x) x ∧
    HasDerivWithinAt (fun x => (s.point x).toEuclidean)
      (edges • after • direction).toEuclidean (Set.Ici x) x := by
  intro before after direction arriving leaving edges x
  have hkept : sampleStep ≤ (s.span k h₁).distances.middle := sampleStep_le_fourthRoot hbefore
  have hkept' : sampleStep ≤ (s.span (k + 1) h₂).distances.middle :=
    sampleStep_le_fourthRoot hafter
  have hstop : (s.span k h₁).cubic.slope 1 = before • direction := slope_arriving hkept hkept'
  have hstart : (s.span (k + 1) h₂).cubic.slope 0 = after • direction :=
    slope_leaving hkept hkept'
  have harriving := (s.span k h₁).cubic.hasDerivAt_eval 1
  have hleaving := (s.span (k + 1) h₂).cubic.hasDerivAt_eval 0
  rw [hstop] at harriving
  rw [hstart] at hleaving
  have hx : s.scaled x = (k + 1 : Nat) := s.scaled_div (k + 1)
  refine ⟨⟨sampleStep_pos.trans_le hkept, sampleStep_pos.trans_le hkept'⟩, harriving, hleaving, ?_,
    s.point_knot h₁, ?_, ?_⟩
  · rw [harriving.deriv, hleaving.deriv, Vec3.toEuclidean_smul, Vec3.toEuclidean_smul, smul_comm]
  · have hbound : s.stretch k ∈ nhdsWithin x (Set.Iic x) := by
      rw [stretch_eq_Icc, ← Nat.cast_add_one]
      have hlt : (k : ℝ) < (k + 1 : Nat) := Nat.cast_lt.2 (Nat.lt_succ_self k)
      exact Icc_mem_nhdsLE (div_lt_div_of_pos_right hlt s.edges_pos)
    have hderiv := hasDerivWithinAt_stretch h₁ (x := x) ⟨by simp [hx], by simp [hx]⟩
    rw [hx, Nat.cast_add_one, add_sub_cancel_left, hstop] at hderiv
    exact hderiv.mono_of_mem_nhdsWithin hbound
  · have hbound : s.stretch (k + 1) ∈ nhdsWithin x (Set.Ici x) := by
      rw [stretch_eq_Icc]
      exact Icc_mem_nhdsGE (div_lt_div_of_pos_right (lt_add_one _) s.edges_pos)
    have hderiv := hasDerivWithinAt_stretch h₂ (x := x) ⟨hx.ge, by simp [hx]⟩
    rw [hx, sub_self, hstart] at hderiv
    exact hderiv.mono_of_mem_nhdsWithin hbound

/-- Two steps at a right angle, the second of which ends in two points that coincide. -/
noncomputable def stair : Spline ℝ :=
  ⟨#[0, .xAxis, ⟨1, 1, 0⟩, ⟨1, 1, 0⟩], (Nat.le_succ 2).trans (Nat.le_succ 3)⟩

/-- The spline turns the corner between the steps at forty-five degrees. -/
theorem tangents_knot_stair :
    HasDerivWithinAt (fun x => (stair.point x).toEuclidean)
      (((3 : Nat) : ℝ) • (⟨1 / 2, 1 / 2, 0⟩ : Vec3 ℝ)).toEuclidean (Set.Iic (1 / 3)) (1 / 3) ∧
    HasDerivWithinAt (fun x => (stair.point x).toEuclidean)
      (((3 : Nat) : ℝ) • (⟨1 / 2, 1 / 2, 0⟩ : Vec3 ℝ)).toEuclidean (Set.Ici (1 / 3)) (1 / 3) := by
  have h₀ : 0 < stair.points.size := by decide
  have h₁ : 0 + 1 < stair.points.size := by decide
  have h₂ : 0 + 2 < stair.points.size := by decide
  have hbefore : (stair.points[0 + 1] - stair.points[0]).norm = 1 := by
    simp [stair]
  have hafter : (stair.points[0 + 2] - stair.points[0 + 1]).norm = 1 := by
    simp [stair, Vec3.norm, Vec3.normSq, Vec3.dot, Vec3.xAxis]
  have hroot : Scalar.fourthRoot (1 : ℝ) = 1 := Real.one_rpow _
  have hdirection : knotDirection stair.points[0] stair.points[0 + 1] stair.points[0 + 2] =
      ⟨1 / 2, 1 / 2, 0⟩ := by
    simp only [knotDirection, hbefore, hafter, hroot]
    ext <;> norm_num [stair, Vec3.xAxis]
  obtain ⟨-, -, -, -, -, hleft, hright⟩ := tangents_knot stair h₀ h₁ h₂
    (by rw [hbefore]; norm_num) (by rw [hafter]; norm_num)
  have hone (v : Vec3 ℝ) : (1 : ℝ) • v = v := by ext <;> simp
  have hx : (((0 + 1 : Nat) : ℝ) / (stair.points.size - 1 : Nat)) = 1 / 3 := by
    norm_num [stair]
  rw [hbefore, hroot, hdirection, hone, hx] at hleft
  rw [hafter, hroot, hdirection, hone, hx] at hright
  exact ⟨hleft, hright⟩

end Spline

end ProceduralTree
