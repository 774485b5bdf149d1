import ProceduralTree.Proofs.Curve.Spokes
import ProceduralTree.Proofs.Mesh.TubeSurface
import ProceduralTree.Proofs.Mesh.TubeVertices

/-!
# Rings of a tube

In exact arithmetic the rings of a tube are regular polygons across its curve: their corners are the
ends of spokes of one length, at equal angles. The length of the spokes goes evenly from one radius
of the tube to the other.

## Main definitions

* `IsRing` — the corners of a regular polygon, by its center and axis.

## Main statements

* `Frame.isRing_circlePoint` — the circle points of a frame at equal angles.
* `Tube.mesh_rings` — the rings of a tube and the centers of its caps.
-/

namespace ProceduralTree

open Vec3

/-- The first `n` vertices lie in the plane across an axis, all at one distance from its center, of
which they are the mean, and neighbours all as far apart as the corners of a regular polygon. -/
structure IsRing (center axis : Vec3 ℝ) (radius : ℝ) (n : Nat) (vertex : Nat → Vec3 ℝ) : Prop where
  distance : ∀ j < n, (vertex j - center).norm = radius
  across : ∀ j < n, (vertex j - center).dot axis = 0
  sum : 2 ≤ n → ∑ j ∈ Finset.range n, (vertex j).toEuclidean = n • center.toEuclidean
  /-- The last vertex is a neighbour of the first. -/
  side : ∀ j < n, (vertex ((j + 1) % n) - vertex j).norm = 2 * radius * Real.sin (Real.pi / n)

theorem Tube.angleStep_real (g : TubeGrid) :
    (angleStep g : ℝ) = 2 * Real.pi / g.radial.toNat := rfl

namespace Frame

/-- The spoke behind the last one of a ring is the first one. -/
theorem spoke_next (f : Frame ℝ) (g : TubeGrid) (j : Nat) :
    f.spoke (Tube.angleStep g * g.next j) =
      f.spoke (Tube.angleStep g * j + Tube.angleStep g) := by
  have hradial : (g.radial.toNat : ℝ) ≠ 0 := Nat.cast_ne_zero.2 TubeGrid.radial_pos.ne'
  rw [TubeGrid.next]
  split_ifs with hlast
  · have hturn : (Tube.angleStep g * j + Tube.angleStep g : ℝ) = 0 + 2 * Real.pi := by
      rw [← mul_add_one, ← Nat.cast_add_one, hlast, Tube.angleStep_real, div_mul_cancel₀ _ hradial,
        zero_add]
    rw [hturn, spoke_add_turn, Nat.cast_zero, mul_zero]
  · rw [Nat.cast_add_one, mul_add, mul_one]

/-- The circle points of a frame at equal angles. -/
theorem isRing_circlePoint {f : Frame ℝ} (hf : f.IsRightHanded) (g : TubeGrid) (center : Vec3 ℝ)
    {radius : ℝ} (hradius : 0 ≤ radius) :
    IsRing center f.tangent radius g.radial.toNat fun j =>
      Tube.circlePoint center f radius (Tube.angleStep g * j) := by
  refine ⟨fun j _ => ?_, fun j _ => ?_, fun hn => ?_, fun j hj => ?_⟩
  · rw [circlePoint_sub_center, norm_smul, hf.norm_spoke, mul_one, abs_of_nonneg hradius]
  · rw [circlePoint_sub_center, smul_dot, hf.spoke_dot_tangent, mul_zero]
  · simp only [circlePoint_eq, toEuclidean_add, toEuclidean_smul, Finset.sum_add_distrib,
      Finset.sum_const, Finset.card_range, ← Finset.smul_sum, Tube.angleStep_real, f.sum_spoke hn,
      smul_zero, add_zero]
  · have hhalf : (Tube.angleStep g : ℝ) / 2 = Real.pi / g.radial.toNat := by
      rw [Tube.angleStep_real]
      ring
    have hsin : 0 ≤ Real.sin (Real.pi / g.radial.toNat) :=
      Real.sin_nonneg_of_nonneg_of_le_pi (div_nonneg Real.pi_pos.le (Nat.cast_nonneg _))
        (div_le_self Real.pi_pos.le (Nat.one_le_cast.2 TubeGrid.radial_pos))
    rw [← TubeGrid.next_eq_mod hj, circlePoint_sub_circlePoint, f.spoke_next, norm_smul,
      hf.norm_spoke_sub_spoke, add_sub_cancel_left, hhalf, abs_of_nonneg hradius,
      abs_of_nonneg hsin]
    ring

end Frame

namespace Tube

variable {t : Tube ℝ} {m : Mesh ℝ}

theorem radiusAt_mem_uIcc (t : Tube ℝ) {x : ℝ} (h₀ : 0 ≤ x) (h₁ : x ≤ 1) :
    t.radiusAt x ∈ Set.uIcc t.radiusBegin t.radiusEnd := by
  rw [Set.mem_uIcc, radiusAt]
  rcases le_total t.radiusBegin t.radiusEnd with h | h
  · exact .inl ⟨by nlinarith, by nlinarith⟩
  · exact .inr ⟨by nlinarith, by nlinarith⟩

theorem radiusAt_nonneg (hbegin : IsRadius t.radiusBegin) (hend : IsRadius t.radiusEnd) {x : ℝ}
    (h₀ : 0 ≤ x) (h₁ : x ≤ 1) : 0 ≤ t.radiusAt x :=
  (le_min (not_lt.1 hbegin.2) (not_lt.1 hend.2)).trans (t.radiusAt_mem_uIcc h₀ h₁).1

/-- The vertices of ring `i` are the corners of a regular polygon around the point of the curve, in
the plane across the difference of the two samples. The radius of the ring lies between those of the
tube, and the centers of the caps are the ends of the curve. -/
theorem mesh_rings (hm : t.mesh = .ok m) :
    (∀ i ≤ t.grid.segments.toNat, ∃ (radius : ℝ) (center p q : Vec3 ℝ) (vertex : Nat → Vec3 ℝ),
      radius = t.radiusBegin + (t.radiusEnd - t.radiusBegin) * i / t.grid.segments.toNat ∧
      radius ∈ Set.uIcc t.radiusBegin t.radiusEnd ∧
      t.curve (i / t.grid.segments.toNat) = .ok center ∧
      t.curve (max (i / t.grid.segments.toNat - sampleStep) 0) = .ok p ∧
      t.curve (min (i / t.grid.segments.toNat + sampleStep) 1) = .ok q ∧
      (∀ j < t.grid.radial.toNat,
        m.positions[i * t.grid.radial.toNat + j]? = some (vertex j)) ∧
      IsRing center (q - p) radius t.grid.radial.toNat vertex) ∧
    (t.grid.caps = true → ∃ first last, t.curve 0 = .ok first ∧ t.curve 1 = .ok last ∧
      m.positions[(t.grid.segments.toNat + 1) * t.grid.radial.toNat]? = some first ∧
      m.positions[(t.grid.segments.toNat + 1) * t.grid.radial.toNat + 1]? = some last) := by
  obtain ⟨hbegin, hend, -, positions, hpositions, rfl⟩ := mesh_eq_ok.1 hm
  refine ⟨fun i hi => ?_, exists_centers_of_positions hpositions⟩
  obtain ⟨h₀, h₁⟩ := isParameter_parameter hi
  obtain ⟨center, frame, hcenter, hframe, hvertex⟩ := exists_ring_of_positions hpositions hi
  obtain ⟨p, hp, q, hq, hbetween⟩ := Frame.ofCurve_eq_ok.1 hframe
  have hhanded := (Frame.isRightHanded_of_between hbetween).1
  obtain ⟨-, rfl⟩ := Frame.between_eq_ok.1 hbetween
  refine ⟨t.radiusAt (t.parameter i), center, p, q, _, ?_, t.radiusAt_mem_uIcc h₀ h₁, hcenter, hp,
    hq, hvertex, Frame.isRing_circlePoint hhanded t.grid center (radiusAt_nonneg hbegin hend h₀ h₁)⟩
  rw [radiusAt, parameter, mul_div_assoc]

/-- The second of the two rings of a prism, and the centers of its caps. -/
theorem mesh_rings_prism : ∃ m, (prism true).mesh = .ok m ∧
    (∃ axis vertex, (∀ j < 3, m.positions[3 + j]? = some (vertex j)) ∧
      IsRing yAxis axis 1 3 vertex) ∧
    m.positions[6]? = some 0 ∧ m.positions[7]? = some yAxis := by
  obtain ⟨m, hm⟩ := exists_mesh_prism true
  obtain ⟨hrings, hcenters⟩ := mesh_rings hm
  obtain ⟨radius, center, p, q, vertex, hradius, -, hcenter, -, -, hvertex, hring⟩ :=
    hrings 1 le_rfl
  obtain ⟨first, last, hfirst, hlast, hfirst', hlast'⟩ := hcenters rfl
  have hone : ((1 : Nat) : ℝ) / ((prism true).grid.segments.toNat : ℝ) = 1 := by
    norm_num [prism, UInt32.toNat_one]
  have hcurve {x : ℝ} (h₀ : 0 ≤ x) (h₁ : x ≤ 1) : (prism true).curve x = .ok (x • yAxis) :=
    Spline.curve_segment_zero yAxis h₀ h₁
  have hend : ((1 : ℝ) • yAxis : Vec3 ℝ) = yAxis := by ext <;> simp
  have hstart : ((0 : ℝ) • yAxis : Vec3 ℝ) = 0 := by ext <;> simp
  rw [hone, hcurve zero_le_one le_rfl, Except.ok.injEq, hend] at hcenter
  rw [hcurve le_rfl zero_le_one, Except.ok.injEq, hstart] at hfirst
  rw [hcurve zero_le_one le_rfl, Except.ok.injEq, hend] at hlast
  have hunit : radius = 1 := by rw [hradius]; norm_num [prism]
  subst hcenter hfirst hlast hunit
  exact ⟨m, hm, ⟨q - p, vertex, hvertex, hring⟩, hfirst', hlast'⟩

end Tube

end ProceduralTree
