import ProceduralTree.Proofs.Curve.Knots
import ProceduralTree.Proofs.Curve.Segment
import ProceduralTree.Proofs.Space.Products

/-!
# Splines that advance

A centripetal spline may stall although its control points are far apart: where it turns back, and
where a long edge meets a much shorter one. It stalls nowhere if it advances: if all edges keep
within sixty degrees of one direction and no edge is more than three times as long as a neighbour.
The rise of each cubic along that direction is then bounded from below, by bounds on its slopes at
both ends.

## Main definitions

* `Spline.Advances` — what the control points of such a spline have in common.

## Main statements

* `le_cubicSlope` — a cubic with steady slopes at its ends is steady in between.
* `Spline.keepsMoving_of_advances` — a spline that advances stalls nowhere.
* `Spline.frames_or_stalls` — where splines have frames, and tubes along them meshes.
-/

namespace ProceduralTree

/-! ## One cubic -/

/-- The slope of a cubic over the unit interval that rises by `h`, with slopes `a` and `b` at its
ends. -/
def cubicSlope (h a b t : ℝ) : ℝ :=
  6 * t * (1 - t) * h + (1 - t) * (1 - 3 * t) * a + t * (1 - 3 * (1 - t)) * b

/-- A slope that is neither too flat nor too steep for the end of a cubic that rises by `h`. -/
structure IsSteady (h slope : ℝ) : Prop where
  low : 2 / 5 * h ≤ slope
  high : slope ≤ 13 / 5 * h

theorem le_cubicSlope {h a b t : ℝ} (hh : 0 ≤ h) (ha : IsSteady h a) (hb : IsSteady h b)
    (h₀ : 0 ≤ t) (h₁ : t ≤ 1) : h / 5 ≤ cubicSlope h a b t := by
  obtain ⟨ha, ha'⟩ := ha
  obtain ⟨hb, hb'⟩ := hb
  unfold cubicSlope
  -- the weights of the two slopes change their signs at one third and at two thirds
  rcases le_total (3 * t) 1 with h | h
  · have hstart := mul_le_mul_of_nonneg_left ha (mul_nonneg (sub_nonneg.2 h₁) (sub_nonneg.2 h))
    have hstop := mul_le_mul_of_nonneg_left hb' (mul_nonneg h₀ (by linarith : 0 ≤ 2 - 3 * t))
    have := mul_nonneg hh (sq_nonneg (15 * t - 2))
    nlinarith
  rcases le_total (3 * t) 2 with h' | h'
  · have hstart := mul_le_mul_of_nonneg_left ha' (mul_nonneg (sub_nonneg.2 h₁) (sub_nonneg.2 h))
    have hstop := mul_le_mul_of_nonneg_left hb' (mul_nonneg h₀ (sub_nonneg.2 h'))
    have := mul_nonneg hh (sq_nonneg (2 * t - 1))
    nlinarith
  · have hstart := mul_le_mul_of_nonneg_left ha' (mul_nonneg (sub_nonneg.2 h₁) (sub_nonneg.2 h))
    have hstop := mul_le_mul_of_nonneg_left hb (mul_nonneg h₀ (sub_nonneg.2 h'))
    have := mul_nonneg hh (sq_nonneg (15 * t - 13))
    nlinarith

/-- The tangent of a spline where an edge that rises by `b` meets one that rises by `a`, if `d₁` and
`d₀` are the fourth roots of their lengths. -/
theorem isSteady_tangent {a b d₀ d₁ : ℝ} (h₀ : 0 < d₀) (h₁ : 0 < d₁) (ha : 0 ≤ a)
    (ha' : a ≤ d₀ ^ 4) (hb : d₁ ^ 4 ≤ 2 * b) (h₀₁ : d₀ ^ 4 ≤ 3 * d₁ ^ 4)
    (h₁₀ : d₁ ^ 4 ≤ 3 * d₀ ^ 4) :
    IsSteady b (d₁ * (a / d₀ - (a + b) / (d₀ + d₁) + b / d₁)) := by
  have hsum : 0 < d₀ + d₁ := add_pos h₀ h₁
  have hslope : d₁ * (a / d₀ - (a + b) / (d₀ + d₁) + b / d₁) =
      (a / d₀ * d₁ ^ 2 + d₀ * b) / (d₀ + d₁) := by
    field_simp
    ring
  have hb₀ : 0 ≤ b := by
    have := pow_pos h₁ 4
    linarith
  rw [hslope]
  constructor
  · have hratio : 2 * d₁ ≤ 3 * d₀ := by
      refine le_of_pow_le_pow_left₀ four_ne_zero (by positivity) ?_
      rw [mul_pow, mul_pow]
      linarith [pow_pos h₀ 4]
    have hrest : 0 ≤ a / d₀ * d₁ ^ 2 := by positivity
    rw [le_div_iff₀ hsum]
    nlinarith
  · have hratio : d₀ ≤ 33 / 25 * d₁ := by
      refine le_of_pow_le_pow_left₀ four_ne_zero (by positivity) ?_
      rw [mul_pow]
      linarith [pow_pos h₁ 4]
    have hcube : a / d₀ ≤ d₀ ^ 3 := (div_le_iff₀ h₀).2 (by linarith [pow_succ d₀ 3])
    have hside : d₀ ^ 3 ≤ d₁ ^ 2 * (4 / 5 * d₀ + 13 / 10 * d₁) := by
      nlinarith [mul_pos h₀ h₁, sq_nonneg d₁, mul_le_mul hratio hratio h₀.le (by positivity)]
    rw [div_le_iff₀ hsum]
    calc a / d₀ * d₁ ^ 2 + d₀ * b ≤ d₀ ^ 3 * d₁ ^ 2 + d₀ * b := by gcongr
      _ ≤ d₁ ^ 2 * (4 / 5 * d₀ + 13 / 10 * d₁) * d₁ ^ 2 + d₀ * b := by gcongr
      _ = d₁ ^ 4 * (4 / 5 * d₀ + 13 / 10 * d₁) + d₀ * b := by ring
      _ ≤ 2 * b * (4 / 5 * d₀ + 13 / 10 * d₁) + d₀ * b := by gcongr
      _ = 13 / 5 * b * (d₀ + d₁) := by ring

/-! ## Edges -/

namespace Vec3

theorem dot_le_norm {u : Vec3 ℝ} (hu : u.norm = 1) (v : Vec3 ℝ) : v.dot u ≤ v.norm := by
  refine Real.le_sqrt_of_sq_le ?_
  have hcross : 0 ≤ (v.cross u).normSq := normSq_nonneg _
  rw [normSq_cross, norm_eq_one_iff.1 hu, mul_one] at hcross
  exact sub_nonneg.1 hcross

/-- The ends of the edge `v` are distinct, and it turns from `u` by sixty degrees at most. -/
structure IsStride (v u : Vec3 ℝ) : Prop where
  long : 1 / 1000000 ≤ v.norm
  ahead : v.norm ≤ 2 * v.dot u

/-- Neither edge is more than three times as long as the other. -/
def Comparable (v w : Vec3 ℝ) : Prop := v.norm ≤ 3 * w.norm ∧ w.norm ≤ 3 * v.norm

theorem Comparable.symm {v w : Vec3 ℝ} (h : Comparable v w) : Comparable w v := ⟨h.2, h.1⟩

theorem comparable_self (v : Vec3 ℝ) : Comparable v v := by
  have hnorm := v.norm_nonneg
  constructor <;> linarith

end Vec3

/-! ## Spans -/

namespace Span

/-- No edge of the span turns far from `u`, and neighbouring edges have similar lengths. -/
structure Advances (s : Span ℝ) (u : Vec3 ℝ) : Prop where
  unit : u.norm = 1
  first : (s.start - s.before).IsStride u
  middle : (s.stop - s.start).IsStride u
  last : (s.after - s.stop).IsStride u
  comparable_first : (s.start - s.before).Comparable (s.stop - s.start)
  comparable_last : (s.stop - s.start).Comparable (s.after - s.stop)

variable {s : Span ℝ} {u : Vec3 ℝ}

theorem keepsKnots_of_advances (hs : s.Advances u) : s.KeepsKnots := by
  have hlong {v : Vec3 ℝ} (hv : v.IsStride u) : 1 / 1000000000000 ≤ v.norm :=
    le_trans (by norm_num) hv.long
  exact keepsKnots_of_le_norm (hlong hs.first) (hlong hs.middle) (hlong hs.last)

/-- The tangent where the edge `v` meets the edge `w`, per unit of the parameter distance of `w`. -/
theorem isSteady_of_isStride {v w : Vec3 ℝ} {d₀ d₁ : ℝ} (hu : u.norm = 1) (hv : v.IsStride u)
    (hw : w.IsStride u) (hvw : v.Comparable w) (hd₀ : d₀ = Scalar.fourthRoot v.norm)
    (hd₁ : d₁ = Scalar.fourthRoot w.norm) :
    IsSteady (w.dot u)
      (d₁ * (v.dot u / d₀ - (v.dot u + w.dot u) / (d₀ + d₁) + w.dot u / d₁)) := by
  have hv₀ : 0 < v.norm := lt_of_lt_of_le (by norm_num) hv.long
  have hw₀ : 0 < w.norm := lt_of_lt_of_le (by norm_num) hw.long
  have hv₄ : d₀ ^ 4 = v.norm := hd₀ ▸ fourthRoot_pow hv₀.le
  have hw₄ : d₁ ^ 4 = w.norm := hd₁ ▸ fourthRoot_pow hw₀.le
  have hva := hv.ahead
  exact isSteady_tangent (hd₀ ▸ Real.rpow_pos_of_pos hv₀ _) (hd₁ ▸ Real.rpow_pos_of_pos hw₀ _)
    (by linarith) (hv₄ ▸ Vec3.dot_le_norm hu v) (hw₄ ▸ hw.ahead) (by rw [hv₄, hw₄]; exact hvw.1)
    (by rw [hv₄, hw₄]; exact hvw.2)

theorem isSteady_startTangent (hs : s.Advances u) :
    IsSteady ((s.stop - s.start).dot u) (s.startTangent.dot u) := by
  have := isSteady_of_isStride hs.unit hs.first hs.middle hs.comparable_first
    (rfl : s.distances.first = _) (rfl : s.distances.middle = _)
  rw [startTangent, (keepsKnots_of_advances hs).knots_eq]
  convert this using 1
  simp [Vec3.dot]
  ring

theorem isSteady_stopTangent (hs : s.Advances u) :
    IsSteady ((s.stop - s.start).dot u) (s.stopTangent.dot u) := by
  have := isSteady_of_isStride hs.unit hs.last hs.middle hs.comparable_last.symm
    (rfl : s.distances.last = _) (rfl : s.distances.middle = _)
  rw [stopTangent, (keepsKnots_of_advances hs).knots_eq]
  convert this using 1
  simp [Vec3.dot]
  ring

/-- A cubic rises by its mean slope, which three slopes determine. -/
theorem dot_eval_sub_eval (s : Span ℝ) (u : Vec3 ℝ) (t t' : ℝ) :
    let slope := cubicSlope ((s.stop - s.start).dot u) (s.startTangent.dot u) (s.stopTangent.dot u)
    (s.cubic.eval t' - s.cubic.eval t).dot u =
      (t' - t) / 6 * (slope t + 4 * slope ((t + t') / 2) + slope t') := by
  rw [cubic]
  generalize s.startTangent = v
  generalize s.stopTangent = w
  simp [CubicArc.eval, CubicArc.hermite, Vec3.dot, cubicSlope]
  ring

theorem le_dot_eval_sub_eval (hs : s.Advances u) {t t' : ℝ} (ht : 0 ≤ t) (htt' : t ≤ t')
    (ht' : t' ≤ 1) :
    1 / 10000000 * (t' - t) ≤ (s.cubic.eval t' - s.cubic.eval t).dot u := by
  have hrise : 1 / 2000000 ≤ (s.stop - s.start).dot u := by
    linarith [hs.middle.long, hs.middle.ahead]
  have hslope {t : ℝ} (h₀ : 0 ≤ t) (h₁ : t ≤ 1) :=
    le_cubicSlope (by linarith) (isSteady_startTangent hs) (isSteady_stopTangent hs) h₀ h₁
  have h₀ := hslope ht (htt'.trans ht')
  have h₁ := hslope (t := (t + t') / 2) (by linarith) (by linarith)
  have h₂ := hslope (ht.trans htt') ht'
  rw [dot_eval_sub_eval]
  calc 1 / 10000000 * (t' - t) = (t' - t) / 6 * (6 / 10000000) := by ring
    _ ≤ _ := mul_le_mul_of_nonneg_left (by linarith) (by linarith)

end Span

/-! ## Splines -/

namespace Spline

/-- No edge between control points turns far from `u`, and neighbouring edges have similar
lengths. -/
structure Advances (s : Spline ℝ) (u : Vec3 ℝ) : Prop where
  unit : u.norm = 1
  stride : ∀ k (h : k + 1 < s.points.size), (s.points[k + 1] - s.points[k]).IsStride u
  comparable : ∀ k (h : k + 2 < s.points.size),
    (s.points[k + 1] - s.points[k]).Comparable (s.points[k + 2] - s.points[k + 1])

variable {s : Spline ℝ} {u : Vec3 ℝ}

/-- Next to a reflected neighbour, two edges are the same. -/
theorem span_advances (hs : s.Advances u) {k : Nat} (hk : k + 1 < s.points.size) :
    (s.span k hk).Advances u := by
  obtain ⟨hfirst, hmiddle, hlast⟩ := forall_edges (P := fun v => v.IsStride u) hs.stride hk
  refine ⟨hs.unit, hfirst, hmiddle, hlast, ?_, ?_⟩
  · cases k with
    | zero =>
      rw [start_sub_before_zero]
      exact Vec3.comparable_self _
    | succ k => exact hs.comparable k hk
  · by_cases hnext : k + 2 < s.points.size
    · rw [after_sub_stop hnext]
      exact hs.comparable k hnext
    · rw [after_sub_stop_last hnext]
      exact Vec3.comparable_self _

/-- The spline gains on its way along `u`, up to any of its control points. -/
theorem le_dot_point_sub_point (hs : s.Advances u) {j : Nat} (hj : j < s.points.size) {x y : ℝ}
    (hx : 0 ≤ s.scaled x) (hxy : s.scaled x ≤ s.scaled y) (hy : s.scaled y ≤ j) :
    1 / 10000000 * (s.scaled y - s.scaled x) ≤ (s.point y - s.point x).dot u := by
  induction j generalizing y with
  | zero =>
    have heq : s.scaled y = s.scaled x := le_antisymm (hy.trans (Nat.cast_zero.trans_le hx)) hxy
    obtain rfl : y = x := mul_left_cancel₀ s.edges_pos.ne' heq
    simp [Vec3.dot]
  | succ j ih =>
    have hspan {x y : ℝ} (hx : j ≤ s.scaled x) (hxy : s.scaled x ≤ s.scaled y)
        (hy : s.scaled y ≤ j + 1) :
        1 / 10000000 * (s.scaled y - s.scaled x) ≤ (s.point y - s.point x).dot u := by
      rw [point_eq_eval hj hx (hxy.trans hy), point_eq_eval hj (hx.trans hxy) hy]
      have := Span.le_dot_eval_sub_eval (span_advances hs hj) (sub_nonneg.2 hx)
        (sub_le_sub_right hxy j) (sub_le_iff_le_add'.2 hy)
      rwa [sub_sub_sub_cancel_right] at this
    push_cast at hy
    rcases le_total (s.scaled y) j with hy' | hy'
    · exact ih (by omega) hxy hy'
    rcases le_total (j : ℝ) (s.scaled x) with hx' | hx'
    · exact hspan hx' hxy hy
    -- the control point lies between the two
    have hknot := s.scaled_div j
    have hbefore := ih (by omega) (hx'.trans_eq hknot.symm) hknot.le
    have hafter := hspan hknot.ge (hknot.trans_le hy') hy
    rw [hknot] at hbefore hafter
    simp only [Vec3.dot, Vec3.sub_x, Vec3.sub_y, Vec3.sub_z] at hbefore hafter ⊢
    linarith

theorem keepsMoving_of_advances (hs : s.Advances u) : KeepsMoving s.point := by
  intro x y hx hy hstep
  have hpos : (0 : ℝ) < sampleStep := sampleStep_pos
  have hedges : (1 : ℝ) ≤ (s.points.size - 1 : Nat) := by
    have := s.two_le
    exact_mod_cast (by omega : 1 ≤ s.points.size - 1)
  have hgain : sampleStep ≤ s.scaled y - s.scaled x := by
    rw [scaled, scaled, ← mul_sub]
    exact hstep.trans (le_mul_of_one_le_left (hpos.le.trans hstep) hedges)
  have hlast := s.two_le
  calc (Scalar.tolerance : ℝ) = 1 / 10000000 * sampleStep := by
        norm_num [Scalar.tolerance, sampleStep]
    _ ≤ 1 / 10000000 * (s.scaled y - s.scaled x) := by gcongr
    _ ≤ (s.point y - s.point x).dot u := by
        apply le_dot_point_sub_point hs (j := s.points.size - 1) (by omega)
        · exact mul_nonneg s.edges_pos.le hx
        · linarith
        · exact mul_le_of_le_one_right s.edges_pos.le hy
    _ ≤ (s.point y - s.point x).norm := Vec3.dot_le_norm hs.unit _

/-- A frame is missing exactly where the spline stalls, and a tube along it has a mesh exactly if
that happens at none of its rings. A spline that advances stalls nowhere. -/
theorem frames_or_stalls (s : Spline ℝ) :
    (∀ x, 0 ≤ x → x ≤ 1 →
      (Stalls s.point x ∧ Frame.ofCurve s.curve x = .error .noDirection) ∨
        ¬Stalls s.point x ∧ ∃ frame, Frame.ofCurve s.curve x = .ok frame ∧
          Scalar.tolerance ≤ frame.tangent.norm) ∧
    (∀ t : Tube ℝ, t.curve = s.curve → 0 ≤ t.radiusBegin → 0 ≤ t.radiusEnd → t.grid.Fits →
      ((∃ m, t.mesh = .ok m) ↔
        ∀ j ≤ t.grid.segments.toNat, ¬Stalls s.point (t.parameter j))) ∧
    ∀ u, s.Advances u → ∀ x, 0 ≤ x → x ≤ 1 → ¬Stalls s.point x := by
  refine ⟨fun x h₀ h₁ => ?_, fun t hcurve hbegin hend hfits => ?_, fun u hs x h₀ h₁ => ?_⟩
  · refine (Frame.ofCurve_ofPoint s.point ⟨h₀, h₁⟩).imp_right fun ⟨hmoves, frame, hframe, h⟩ => ?_
    exact ⟨hmoves, frame, hframe, not_lt.1 h⟩
  · have hbegin := Tube.isRadius_real.2 hbegin
    exact Tube.exists_mesh_iff hcurve hbegin (Tube.isRadius_real.2 hend) hfits
  · exact (keepsMoving_of_advances hs).not_stalls ⟨h₀, h₁⟩

/-- A spline that bends and straightens again, while its edges grow longer. -/
noncomputable def bend : Spline ℝ :=
  ⟨#[0, .yAxis, ⟨3 / 5, 9 / 5, 0⟩, ⟨3 / 5, 19 / 5, 0⟩], Nat.le_add_left 2 2⟩

theorem advances_bend : bend.Advances .yAxis := by
  have hsqrt : √(4 : ℝ) = 2 := by
    rw [show (4 : ℝ) = 2 ^ 2 by norm_num]
    exact Real.sqrt_sq two_pos.le
  refine ⟨Vec3.norm_yAxis, fun k hk => ?_, fun k hk => ?_⟩
  · have hk : k < 3 := Nat.lt_of_succ_lt_succ hk
    interval_cases k <;> constructor <;>
      norm_num [bend, Vec3.norm, Vec3.normSq, Vec3.dot, Vec3.yAxis, hsqrt]
  · have hk : k < 2 := Nat.lt_of_succ_lt_succ (Nat.lt_of_succ_lt_succ hk)
    interval_cases k <;> constructor <;>
      norm_num [bend, Vec3.norm, Vec3.normSq, Vec3.dot, Vec3.yAxis, hsqrt]

theorem frames_bend :
    bend.Advances .yAxis ∧
      (∃ frame, Frame.ofCurve bend.curve (1 / 3) = .ok frame ∧
        Scalar.tolerance ≤ frame.tangent.norm) ∧
      ∃ m, (Tube.mk bend.curve default 1 (1 / 2) .white).mesh = .ok m := by
  obtain ⟨hframe, hmesh, hadvances⟩ := frames_or_stalls bend
  have hmoves := hadvances .yAxis advances_bend
  have hthird : (0 : ℝ) ≤ 1 / 3 ∧ (1 / 3 : ℝ) ≤ 1 := by norm_num
  refine ⟨advances_bend, ?_, ?_⟩
  · obtain ⟨hstalls, -⟩ | ⟨-, h⟩ := hframe (1 / 3) hthird.1 hthird.2
    · exact absurd hstalls (hmoves _ hthird.1 hthird.2)
    · exact h
  · refine (hmesh _ rfl zero_le_one one_half_pos.le (by decide)).2 fun j hj => ?_
    exact hmoves _ (Tube.isParameter_parameter hj).1 (Tube.isParameter_parameter hj).2

/-- Distances between neighbouring control points say nothing about the frames of a spline that
turns back. -/
theorem not_forall_exists_frame :
    ¬∀ s : Spline ℝ,
      (∀ k (h : k + 1 < s.points.size), 1 / 1000000 < (s.points[k + 1] - s.points[k]).norm) →
        ∀ x, 0 < x → x < 1 → ∃ frame, Frame.ofCurve s.curve x = .ok frame := by
  intro h
  let s : Spline ℝ := thereAndBack 0 .yAxis
  have hapart : ∀ k (h : k + 1 < s.points.size),
      1 / 1000000 < (s.points[k + 1] - s.points[k]).norm := by
    intro k hk
    have hk : k < 2 := Nat.lt_of_succ_lt_succ hk
    interval_cases k <;> norm_num [s, thereAndBack, Vec3.norm, Vec3.normSq, Vec3.dot, Vec3.yAxis]
  obtain ⟨frame, hframe⟩ := h _ hapart (1 / 2) one_half_pos one_half_lt_one
  have herror := (Frame.ofCurve_eq_error_iff ⟨one_half_pos.le, one_half_lt_one.le⟩).2
    ⟨rfl, stalls_thereAndBack 0 .yAxis⟩
  cases hframe.symm.trans herror

end Spline

end ProceduralTree
