import ProceduralTree.Proofs.Curve.Straight
import ProceduralTree.Proofs.Mesh.MergedNormals
import ProceduralTree.Proofs.Mesh.TubeRings
import ProceduralTree.Proofs.Space.Triangles

/-!
# Orientation of a straight tube

The triangles of a tube along a straight line show their front to the outside: those of the sides
away from the line, those of a cap away from the rest of the tube. All rings of the tube are turned
the same way, so neighbours on any of them are along two spokes of one frame, and the winding of a
triangle follows from the turn between these.

## Main definitions

* `Tube.straightSpoke` — the spokes that all rings of a straight tube have in common.
* `Tube.place` — where a straight tube has its vertices.

## Main statements

* `Tube.getElem?_place` — the positions of the vertices.
* `Tube.mesh_orientation` — the fronts of the triangles.
-/

namespace ProceduralTree

open Vec3

namespace Frame

variable {f : Frame ℝ} {g : TubeGrid}

/-- On a ring of three or more, the spoke to the next vertex is less than half a turn ahead. -/
theorem IsRightHanded.exists_spoke_cross_next (hf : f.IsRightHanded) (hr : 3 ≤ g.radial.toNat)
    (j : Nat) : ∃ c : ℝ, 0 < c ∧
      (f.spoke (Tube.angleStep g * j)).cross (f.spoke (Tube.angleStep g * g.next j)) =
        (-c) • f.tangent := by
  obtain ⟨c, hc, hcross⟩ := hf.exists_binormal_cross_normal
  have hradial : (3 : ℝ) ≤ g.radial.toNat := by exact_mod_cast hr
  have hsin : 0 < Real.sin (Tube.angleStep g) := by
    rw [Tube.angleStep_real]
    refine Real.sin_pos_of_pos_of_lt_pi (by positivity) ?_
    rw [div_lt_iff₀ (by positivity)]
    nlinarith [Real.pi_pos]
  refine ⟨Real.sin (Tube.angleStep g) * c, mul_pos hsin hc, ?_⟩
  rw [f.spoke_next, spoke_cross, add_sub_cancel_left, hcross]
  ext <;>
  · simp only [smul_x, smul_y, smul_z]
    ring

end Frame

/-- Only a face with three different corners has an area. -/
theorem isProper_of_areaVector_ne_zero {positions : Array (Vec3 ℝ)} {f : Face} {p q r : Vec3 ℝ}
    (h : f.corners? positions = some (p, q, r)) (harea : areaVector p q r ≠ 0) : f.IsProper := by
  obtain ⟨hp, hq, hr⟩ := corners?_eq_some_iff.1 h
  obtain ⟨hpq, hqr, hrp⟩ := ne_of_areaVector_ne_zero harea
  refine ⟨fun hab => hpq ?_, fun hbc => hqr ?_, fun hca => hrp ?_⟩
  · rw [hab, hq] at hp
    exact (Option.some.inj hp).symm
  · rw [hbc, hr] at hq
    exact (Option.some.inj hq).symm
  · rw [hca, hp] at hr
    exact (Option.some.inj hr).symm

namespace TubeGrid

variable {g : TubeGrid} {p : Pane}

/-- The triangles of a cap are those at its center. -/
theorem center_mem_corners_face (hfits : g.Fits) (hp : g.HasPane p) :
    (g.firstCenter ∈ (g.face p).corners ↔ ∃ j, p = .start j) ∧
      (g.firstCenter + 1 ∈ (g.face p).corners ↔ ∃ j, p = .stop j) := by
  obtain ⟨ha, hb, hc⟩ := has_corners hp
  simp only [face, Face.corners, List.mem_cons, List.not_mem_nil, or_false,
    eq_comm (a := g.firstCenter), eq_comm (a := g.firstCenter + 1),
    index_eq_center_iff hfits ha, index_eq_center_iff hfits hb, index_eq_center_iff hfits hc]
  cases p <;> simp [corners]

end TubeGrid

namespace Tube

variable {t : Tube ℝ} {m : Mesh ℝ} {d : Vec3 ℝ}

/-- The spoke to vertex `j` of any ring of a tube along a straight line. -/
noncomputable def straightSpoke (t : Tube ℝ) (d : Vec3 ℝ) (j : Nat) : Vec3 ℝ :=
  (Frame.ofTangent d 0).spoke (angleStep t.grid * j)

/-- Where a tube along the line from the origin to a point has its vertices. -/
noncomputable def place (t : Tube ℝ) (d : Vec3 ℝ) : Site → Vec3 ℝ
  | .rim i j => t.parameter i • d + t.radiusAt (t.parameter i) • t.straightSpoke d j
  | .first => t.parameter 0 • d
  | .last => t.parameter t.grid.segments.toNat • d

section Straight

variable {positions : Array (Vec3 ℝ)} (hcurve : t.curve = (Spline.segment 0 d).curve)
  (hpositions : t.positions = .ok positions)

include hcurve hpositions

theorem norm_pos_of_positions : 0 < d.norm := by
  obtain ⟨center, frame, -, hframe, -⟩ := exists_ring_of_positions hpositions (Nat.zero_le _)
  obtain ⟨h₀, h₁⟩ := isParameter_parameter (t := t) (Nat.zero_le t.grid.segments.toNat)
  rw [hcurve] at hframe
  exact (Frame.spoke_of_segment_zero h₀ h₁ hframe).1

theorem getElem?_place {site : Site} (hsite : t.grid.Has site) :
    positions[t.grid.number site]? = some (t.place d site) := by
  cases site with
  | rim i j =>
    obtain ⟨hi, hj⟩ := hsite
    obtain ⟨h₀, h₁⟩ := isParameter_parameter (t := t) hi
    obtain ⟨center, frame, hcenter, hframe, hvertex⟩ := exists_ring_of_positions hpositions hi
    rw [hcurve, Spline.curve_segment_zero d h₀ h₁, Except.ok.injEq] at hcenter
    rw [hcurve] at hframe
    rw [hvertex j hj, Frame.circlePoint_eq, ← hcenter,
      (Frame.spoke_of_segment_zero h₀ h₁ hframe).2]
    rfl
  | first =>
    obtain ⟨first, -, hfirst, -, hnumber, -⟩ := exists_centers_of_positions hpositions hsite
    rw [hcurve, Spline.curve_segment_zero d le_rfl zero_le_one, Except.ok.injEq] at hfirst
    rw [hnumber, place, parameter_zero, hfirst]
  | last =>
    obtain ⟨-, last, -, hlast, -, hnumber⟩ := exists_centers_of_positions hpositions hsite
    rw [hcurve, Spline.curve_segment_zero d zero_le_one le_rfl, Except.ok.injEq] at hlast
    rw [hnumber, place, parameter_segments, hlast]

theorem corners?_place {a b c : Site} (hfits : t.grid.Fits)
    (hsites : t.grid.Has a ∧ t.grid.Has b ∧ t.grid.Has c) :
    Face.corners? ⟨t.grid.index a, t.grid.index b, t.grid.index c⟩ positions =
      some (t.place d a, t.place d b, t.place d c) := by
  obtain ⟨ha, hb, hc⟩ := hsites
  rw [corners?_eq_some_iff, TubeGrid.toNat_index hfits ha, TubeGrid.toNat_index hfits hb,
    TubeGrid.toNat_index hfits hc]
  exact ⟨getElem?_place hcurve hpositions ha, getElem?_place hcurve hpositions hb,
    getElem?_place hcurve hpositions hc⟩

end Straight

/-! ## Fronts of triangles -/

/-- A ring without extent. -/
theorem place_rim_eq {i : Nat} (h : t.radiusAt (t.parameter i) = 0) (j k : Nat) :
    t.place d (.rim i j) = t.place d (.rim i k) := by
  rw [place, place, h]
  ext <;> simp

theorem radiusAt_parameter_nonneg (hbegin : IsRadius t.radiusBegin) (hend : IsRadius t.radiusEnd)
    {i : Nat} (hi : i ≤ t.grid.segments.toNat) : 0 ≤ t.radiusAt (t.parameter i) :=
  radiusAt_nonneg hbegin hend (isParameter_parameter hi).1 (isParameter_parameter hi).2

section Fronts

variable (hr : 3 ≤ t.grid.radial.toNat) (hd : 0 < d.norm)

include hr hd

/-- The spokes to two neighbours on a ring are across the line, and the way from one to the next
turns about the direction against it. -/
theorem straightSpoke_cross_next (j : Nat) :
    (t.straightSpoke d j).dot d = 0 ∧ ∃ c : ℝ, 0 < c ∧
      (t.straightSpoke d j).cross (t.straightSpoke d (t.grid.next j)) = (-c) • d := by
  have hzero : (0 : Vec3 ℝ).dot d = 0 := by simp [dot]
  have hhanded := Frame.isRightHanded_ofTangent hd hzero
  exact ⟨hhanded.spoke_dot_tangent _, hhanded.exists_spoke_cross_next hr j⟩

theorem dot_straightSpoke_cross_next (j : Nat) :
    d.dot ((t.straightSpoke d j).cross (t.straightSpoke d (t.grid.next j))) < 0 := by
  obtain ⟨-, c, hc, hcross⟩ := straightSpoke_cross_next hr hd j
  rw [hcross, dot_smul, neg_mul]
  exact neg_neg_of_pos (mul_pos hc (norm_pos_iff.1 hd))

variable {i : Nat}

theorem areaVector_start (hradius : t.radiusAt (t.parameter 0) ≠ 0) (j : Nat) :
    ∃ c : ℝ, 0 < c ∧ areaVector (t.place d .first) (t.place d (.rim 0 j))
      (t.place d (.rim 0 (t.grid.next j))) = (-c) • d := by
  obtain ⟨-, c, hc, hcross⟩ := straightSpoke_cross_next hr hd j
  refine ⟨t.radiusAt (t.parameter 0) ^ 2 * c, mul_pos (pow_two_pos_of_ne_zero hradius) hc, ?_⟩
  rw [place, place, place, areaVector_fan, hcross]
  ext <;>
  · simp only [smul_x, smul_y, smul_z]
    ring

theorem areaVector_stop (hradius : t.radiusAt (t.parameter t.grid.segments.toNat) ≠ 0) (j : Nat) :
    ∃ c : ℝ, 0 < c ∧ areaVector (t.place d (.rim t.grid.segments.toNat j)) (t.place d .last)
      (t.place d (.rim t.grid.segments.toNat (t.grid.next j))) = c • d := by
  obtain ⟨-, c, hc, hcross⟩ := straightSpoke_cross_next hr hd j
  refine ⟨t.radiusAt (t.parameter t.grid.segments.toNat) ^ 2 * c,
    mul_pos (pow_two_pos_of_ne_zero hradius) hc, ?_⟩
  rw [← areaVector_rotate, place, place, place, areaVector_fan, cross_swap, hcross]
  ext <;>
  · simp only [smul_x, smul_y, smul_z]
    ring

variable (hbegin : IsRadius t.radiusBegin) (hend : IsRadius t.radiusEnd)
  (hi : i < t.grid.segments.toNat)

include hbegin hend hi

theorem facesOutward_lower (hradius : t.radiusAt (t.parameter i) ≠ 0) (j : Nat) :
    FacesOutward d (t.place d (.rim i j)) (t.place d (.rim (i + 1) j))
      (t.place d (.rim i (t.grid.next j))) :=
  facesOutward_of_turn hd (straightSpoke_cross_next hr hd j).1
    (straightSpoke_cross_next hr hd (t.grid.next j)).1
    (mul_neg_of_pos_of_neg (sub_pos.2 (parameter_lt_parameter i.lt_succ_self))
      (dot_straightSpoke_cross_next hr hd j))
    ((radiusAt_parameter_nonneg hbegin hend hi.le).lt_of_ne' hradius)
    (radiusAt_parameter_nonneg hbegin hend hi)

/-- Seen from the other ring, this is a triangle of the same kind, wound the other way round. -/
theorem facesOutward_upper (hradius : t.radiusAt (t.parameter (i + 1)) ≠ 0) (j : Nat) :
    FacesOutward d (t.place d (.rim i (t.grid.next j))) (t.place d (.rim (i + 1) j))
      (t.place d (.rim (i + 1) (t.grid.next j))) := by
  have hturn : 0 < d.dot ((t.straightSpoke d (t.grid.next j)).cross (t.straightSpoke d j)) := by
    rw [cross_swap (t.straightSpoke d j), dot_smul, neg_one_mul]
    exact neg_pos.2 (dot_straightSpoke_cross_next hr hd j)
  exact facesOutward_rotate.2 (facesOutward_of_turn hd
    (straightSpoke_cross_next hr hd (t.grid.next j)).1 (straightSpoke_cross_next hr hd j).1
    (mul_neg_of_neg_of_pos (sub_neg.2 (parameter_lt_parameter i.lt_succ_self)) hturn)
    ((radiusAt_parameter_nonneg hbegin hend hi).lt_of_ne' hradius)
    (radiusAt_parameter_nonneg hbegin hend hi.le))

end Fronts

/-- Every triangle of a tube from the origin straight to a point has corners in space, and if it has
an area, then its front is on the outside of the tube. Triangles at the center of the first cap face
back along the line and those at the center of the last cap ahead. All others are those of the
sides, which face away from the line. -/
theorem mesh_orientation (hcurve : t.curve = (Spline.segment 0 d).curve)
    (hr : 3 ≤ t.grid.radial) (hm : t.mesh = .ok m) {f : Face} (hf : f ∈ m.faces) :
    ∃ p q r, f.corners? m.positions = some (p, q, r) ∧ (areaVector p q r ≠ 0 →
      (t.grid.firstCenter ∉ f.corners → t.grid.firstCenter + 1 ∉ f.corners →
        FacesOutward d p q r) ∧
      (t.grid.firstCenter ∈ f.corners → ∃ c : ℝ, 0 < c ∧ areaVector p q r = (-c) • d) ∧
      (t.grid.firstCenter + 1 ∈ f.corners → ∃ c : ℝ, 0 < c ∧ areaVector p q r = c • d)) := by
  obtain ⟨p, q, r, hcorners⟩ := exists_corners? hm hf
  refine ⟨p, q, r, hcorners, fun harea => ?_⟩
  have hproper := isProper_of_areaVector_ne_zero hcorners harea
  obtain ⟨pane, hpane, rfl⟩ := (mem_faces_and_isProper_iff hr hm).1 ⟨hf, hproper⟩
  obtain ⟨hbegin, hend, hfits, positions, hpositions, hmesh⟩ := mesh_eq_ok.1 hm
  have hr := UInt32.le_iff_toNat_le.1 hr
  have hd := norm_pos_of_positions hcurve hpositions
  obtain rfl : m.positions = positions := by rw [← hmesh]; rfl
  cases hcorners.symm.trans
    (corners?_place hcurve hpositions hfits (TubeGrid.has_corners hpane))
  rw [(TubeGrid.center_mem_corners_face hfits hpane).1,
    (TubeGrid.center_mem_corners_face hfits hpane).2]
  -- two corners are on one ring, which has to have an extent for them to differ
  have hradius {i j k : Nat} (h : t.place d (.rim i j) ≠ t.place d (.rim i k)) :
      t.radiusAt (t.parameter i) ≠ 0 := fun hzero => h (place_rim_eq hzero j k)
  obtain ⟨-, hbc, hca⟩ := ne_of_areaVector_ne_zero harea
  cases pane with
  | lower i j =>
    have hfront := facesOutward_lower hr hd hbegin hend hpane.1 (hradius hca) j
    exact ⟨fun _ _ => hfront, by simp, by simp⟩
  | upper i j =>
    have hfront := facesOutward_upper hr hd hbegin hend hpane.1 (hradius hbc) j
    exact ⟨fun _ _ => hfront, by simp, by simp⟩
  | start j =>
    exact ⟨by simp, fun _ => areaVector_start hr hd (hradius hbc) j, by simp⟩
  | stop j =>
    exact ⟨by simp, by simp, fun _ => areaVector_stop hr hd (hradius hca) j⟩

/-- A triangle of a side and one of the first cap of a prism. -/
theorem mesh_orientation_prism : ∃ m, (prism true).mesh = .ok m ∧
    (∃ p q r, Face.corners? ⟨0, 3, 1⟩ m.positions = some (p, q, r) ∧ areaVector p q r ≠ 0 ∧
      FacesOutward yAxis p q r) ∧
    ∃ p q r, Face.corners? ⟨6, 0, 1⟩ m.positions = some (p, q, r) ∧ areaVector p q r ≠ 0 ∧
      ∃ c : ℝ, 0 < c ∧ areaVector p q r = (-c) • yAxis := by
  obtain ⟨m, hm⟩ := exists_mesh_prism true
  have hr : 3 ≤ (prism true).grid.radial := by decide
  have hfaces {p : Pane} (hp : (prism true).grid.HasPane p) :
      (prism true).grid.face p ∈ m.faces :=
    ((mem_faces_and_isProper_iff hr hm).2 ⟨p, hp, rfl⟩).1
  obtain ⟨hbegin, hend, hfits, positions, hpositions, hmesh⟩ := mesh_eq_ok.1 hm
  obtain rfl : m.positions = positions := by rw [← hmesh]; rfl
  have hd : 0 < (yAxis : Vec3 ℝ).norm := norm_pos_of_positions (t := prism true) rfl hpositions
  have hradius (i : Nat) : (prism true).radiusAt ((prism true).parameter i) ≠ 0 := by
    simp [radiusAt, prism]
  refine ⟨m, hm, ?_, ?_⟩
  · have hp : (prism true).grid.HasPane (.lower 0 0) := ⟨by decide, by decide⟩
    have harea := (facesOutward_lower hr hd hbegin hend hp.1 (hradius 0) 0).areaVector_ne_zero
    obtain ⟨p, q, r, hcorners, hfront⟩ := mesh_orientation rfl hr hm (hfaces hp)
    cases hcorners.symm.trans (corners?_place rfl hpositions hfits (TubeGrid.has_corners hp))
    exact ⟨_, _, _, hcorners, harea, (hfront harea).1 (by decide) (by decide)⟩
  · have hp : (prism true).grid.HasPane (.start 0) := ⟨rfl, by decide⟩
    have harea : areaVector ((prism true).place yAxis .first) ((prism true).place yAxis (.rim 0 0))
        ((prism true).place yAxis (.rim 0 1)) ≠ 0 := by
      obtain ⟨c, hc, harea⟩ := areaVector_start hr hd (hradius 0) 0
      intro hzero
      have hy := congrArg Vec3.y (harea.symm.trans hzero)
      simp [yAxis, hc.ne'] at hy
    obtain ⟨p, q, r, hcorners, hfront⟩ := mesh_orientation rfl hr hm (hfaces hp)
    cases hcorners.symm.trans (corners?_place rfl hpositions hfits (TubeGrid.has_corners hp))
    exact ⟨_, _, _, hcorners, harea, (hfront harea).2.1 (by decide)⟩

end Tube

end ProceduralTree
