import ProceduralTree.Proofs.Curve.Frames
import ProceduralTree.Proofs.Space.Products

/-!
# Frames are right-handed

In exact arithmetic, the binormal and the normal of a frame are unit vectors across the tangent and
across each other, and with the tangent between them they are right-handed. That does not depend on
whether the binormal is taken across the tangent and the samples' sum or from a coordinate axis: the
axis is never that of the tangent's greatest component, so at least half of it is across the
tangent.

## Main definitions

* `Frame.IsRightHanded` — the axes of a frame are as they should be.
* `Frame.axisRejection` — the part of the coordinate axis that is across the tangent.

## Main statements

* `Frame.half_le_normSq_axisRejection` — the coordinate axis is far enough from the tangent.
* `Frame.isRightHanded_ofTangent` — frames by the way their binormal is found.
* `Frame.ofCurve_isRightHanded` — frames of any curve, and where a curve has none.
-/

namespace ProceduralTree

open Vec3

namespace Frame

/-- Binormal, tangent and normal are across each other, two of them unit vectors, and the normal
points to where the binormal is turned to the tangent by the right hand. -/
structure IsRightHanded (f : Frame ℝ) : Prop where
  norm_binormal : f.binormal.norm = 1
  norm_normal : f.normal.norm = 1
  binormal_dot_normal : f.binormal.dot f.normal = 0
  binormal_dot_tangent : f.binormal.dot f.tangent = 0
  normal_dot_tangent : f.normal.dot f.tangent = 0
  turn : ∃ c : ℝ, 0 < c ∧ f.normal = c • f.binormal.cross f.tangent

variable {tangent across : Vec3 ℝ}

/-! ## The coordinate axis -/

/-- The part of the coordinate axis that is across the tangent; `axisBinormal` is its direction. -/
noncomputable def axisRejection (tangent : Vec3 ℝ) : Vec3 ℝ :=
  crossAxis tangent - (tangent.dot (crossAxis tangent) / tangent.normSq) • tangent

/-- The axis is a unit vector, and the tangent has a component that is at least as great as the one
along the axis. -/
theorem crossAxis_bound (tangent : Vec3 ℝ) :
    (crossAxis tangent).normSq = 1 ∧
      2 * tangent.dot (crossAxis tangent) ^ 2 ≤ tangent.normSq := by
  obtain ⟨x, y, z⟩ := tangent
  simp only [crossAxis, Scalar.abs_real]
  split_ifs with hx hy
  · have := sq_le_sq.2 hx.1
    simp only [normSq, dot, yAxis]
    constructor <;> nlinarith
  · have := sq_le_sq.2 hy
    simp only [normSq, dot, zAxis]
    constructor <;> nlinarith
  · have hxz : |x| ≤ |z| := by
      by_contra h
      exact hx ⟨by linarith, by linarith⟩
    have := sq_le_sq.2 hxz
    simp only [normSq, dot, xAxis]
    constructor <;> nlinarith

/-- At least half of the axis is across the tangent. -/
theorem half_le_normSq_axisRejection (htangent : 0 < tangent.norm) :
    1 / 2 ≤ (axisRejection tangent).normSq := by
  have hpos := norm_pos_iff.1 htangent
  obtain ⟨hunit, hbound⟩ := crossAxis_bound tangent
  have hpart : tangent.dot (crossAxis tangent) ^ 2 / tangent.normSq ≤ 1 / 2 := by
    rw [div_le_iff₀ hpos]
    linarith
  have hpythagoras : (axisRejection tangent).normSq =
      (crossAxis tangent).normSq - tangent.dot (crossAxis tangent) ^ 2 / tangent.normSq := by
    rw [axisRejection, normSq_sub, normSq_smul, dot_smul, dot_comm (crossAxis tangent)]
    field_simp
    ring
  rw [hpythagoras, hunit]
  linarith

theorem norm_axisRejection_pos (htangent : 0 < tangent.norm) : 0 < (axisRejection tangent).norm :=
  norm_pos_iff.2 (one_half_pos.trans_le (half_le_normSq_axisRejection htangent))

theorem axisRejection_dot (htangent : 0 < tangent.norm) :
    (axisRejection tangent).dot tangent = 0 := by
  rw [axisRejection, sub_dot, smul_dot, ← normSq, div_mul_cancel₀ _ (norm_pos_iff.1 htangent).ne',
    dot_comm, sub_self]

/-! ## Frames -/

/-- The binormal is a unit vector across the tangent, wherever it is taken from. -/
theorem binormal_ofTangent (htangent : 0 < tangent.norm) (hacross : across.dot tangent = 0) :
    (ofTangent tangent across).binormal.norm = 1 ∧
      (ofTangent tangent across).binormal.dot tangent = 0 := by
  have hnormalize {v : Vec3 ℝ} (hv : 0 < v.norm) (hdot : v.dot tangent = 0) :
      v.normalize.norm = 1 ∧ v.normalize.dot tangent = 0 :=
    ⟨norm_normalize hv, by rw [normalize_eq_smul, smul_dot, hdot, mul_zero]⟩
  rw [ofTangent]
  split_ifs with hshort
  · exact hnormalize (norm_axisRejection_pos htangent) (axisRejection_dot htangent)
  · exact hnormalize (Scalar.tolerance_pos.trans_le (not_lt.1 hshort)) hacross

/-- The normal is the direction of a vector of the tangent's length. -/
theorem normal_ofTangent (htangent : 0 < tangent.norm) (hacross : across.dot tangent = 0) :
    ∃ c : ℝ, 0 < c ∧ (ofTangent tangent across).normal =
      c • (ofTangent tangent across).binormal.cross tangent ∧
      (ofTangent tangent across).normal.norm = 1 := by
  obtain ⟨hunit, hdot⟩ := binormal_ofTangent htangent hacross
  have hnormal : (ofTangent tangent across).normal =
      ((ofTangent tangent across).binormal.cross tangent).normalize := rfl
  generalize (ofTangent tangent across).binormal = binormal at hunit hdot hnormal ⊢
  have hpos : 0 < (binormal.cross tangent).norm := by
    rw [norm_pos_iff, normSq_cross, norm_eq_one_iff.1 hunit, hdot, one_mul, zero_pow two_ne_zero,
      sub_zero]
    exact norm_pos_iff.1 htangent
  exact ⟨_, inv_pos.2 hpos, by rw [hnormal, normalize_eq_smul],
    by rw [hnormal, norm_normalize hpos]⟩

theorem isRightHanded_ofTangent (htangent : 0 < tangent.norm) (hacross : across.dot tangent = 0) :
    (ofTangent tangent across).IsRightHanded := by
  obtain ⟨hunit, hdot⟩ := binormal_ofTangent htangent hacross
  obtain ⟨c, hc, hturn, hunit'⟩ := normal_ofTangent htangent hacross
  refine ⟨hunit, hunit', ?_, hdot, ?_, c, hc, hturn⟩
  · rw [hturn, dot_smul, dot_comm, cross_dot_left, mul_zero]
  · rw [hturn, smul_dot]
    exact mul_eq_zero_of_right c (cross_dot_right _ _)

/-! ## Frames of curves -/

/-- The frame between two samples. -/
noncomputable def between (p q : Vec3 ℝ) : Except (CurveError ℝ) (Frame ℝ) :=
  if (q - p).norm < Scalar.tolerance then .error .noDirection
  else .ok (ofTangent (q - p) ((q - p).cross (p + q)))

variable {curve : Curve ℝ} {x : ℝ} {frame : Frame ℝ}

theorem ofCurve_eq (curve : Curve ℝ) (x : ℝ) : ofCurve curve x = (do
    let p ← curve (max (x - sampleStep) 0)
    let q ← curve (min (x + sampleStep) 1)
    between p q) := by
  rw [ofCurve, Scalar.greatest_real, Scalar.least_real]
  refine bind_congr fun p => bind_congr fun q => ?_
  by_cases hshort : (q - p).norm < Scalar.tolerance
  · simp only [between, if_pos hshort]
    rfl
  · simp only [between, if_neg hshort]
    rfl

theorem between_eq_ok {p q : Vec3 ℝ} : between p q = .ok frame ↔
    Scalar.tolerance ≤ (q - p).norm ∧ ofTangent (q - p) ((q - p).cross (p + q)) = frame := by
  rw [between]
  split_ifs with hshort <;> simp [← not_lt, hshort]

theorem ofCurve_eq_ok : ofCurve curve x = .ok frame ↔
    ∃ p, curve (max (x - sampleStep) 0) = .ok p ∧
      ∃ q, curve (min (x + sampleStep) 1) = .ok q ∧ between p q = .ok frame := by
  simp only [ofCurve_eq, bind_eq_ok]

theorem isRightHanded_of_between {p q : Vec3 ℝ} (h : between p q = .ok frame) :
    frame.IsRightHanded ∧ 0 < (axisRejection frame.tangent).norm := by
  obtain ⟨hlong, rfl⟩ := between_eq_ok.1 h
  have htangent : 0 < (q - p).norm := Scalar.tolerance_pos.trans_le hlong
  exact ⟨isRightHanded_ofTangent htangent (cross_dot_left _ _), norm_axisRejection_pos htangent⟩

theorem between_eq_error_iff {p q : Vec3 ℝ} :
    between p q = .error .noDirection ↔ (q - p).norm < Scalar.tolerance := by
  rw [between]
  split_ifs with hshort <;> simp [hshort]

/-- Every frame of a curve is right-handed, and its coordinate axis is not along the tangent,
whether or not the binormal was taken from it. If the errors of the curve itself are others, for
instance because it has a point for each parameter of its domain, then the direction is missing
exactly where the two samples are points that cannot be told apart. -/
theorem ofCurve_isRightHanded (curve : Curve ℝ) (x : ℝ) :
    (∀ frame, ofCurve curve x = .ok frame →
      frame.IsRightHanded ∧ 0 < (axisRejection frame.tangent).norm) ∧
    ((∀ y, curve y ≠ .error .noDirection) →
      (ofCurve curve x = .error .noDirection ↔ ∃ p q, curve (max (x - sampleStep) 0) = .ok p ∧
        curve (min (x + sampleStep) 1) = .ok q ∧ (q - p).norm < Scalar.tolerance)) := by
  rw [ofCurve_eq]
  constructor
  · intro frame h
    obtain ⟨p, -, h⟩ := bind_eq_ok.1 h
    obtain ⟨q, -, h⟩ := bind_eq_ok.1 h
    exact isRightHanded_of_between h
  · intro hcurve
    simp only [bind_eq_error, hcurve, false_or, between_eq_error_iff]
    constructor
    · rintro ⟨p, hp, q, hq, hshort⟩
      exact ⟨p, q, hp, hq, hshort⟩
    · rintro ⟨p, q, hp, hq, hshort⟩
      exact ⟨p, hp, q, hq, hshort⟩

theorem ofPoint_ne_noDirection (point : ℝ → Vec3 ℝ) (y : ℝ) :
    Curve.ofPoint point y ≠ .error .noDirection := by
  rw [Curve.ofPoint]
  split_ifs <;> simp

/-- The frame of a straight line through the origin, where the binormal comes from a coordinate
axis, and a curve that stays where it is. -/
theorem ofCurve_isRightHanded_line :
    (∃ frame, ofCurve (.ofPoint fun x : ℝ => x • yAxis) (1 / 2) = .ok frame ∧
      frame.IsRightHanded ∧ 0 < (axisRejection frame.tangent).norm) ∧
    (∀ y : ℝ, Curve.ofPoint (fun _ => yAxis) y ≠ .error .noDirection) ∧
    ofCurve (.ofPoint fun _ : ℝ => yAxis) (1 / 2) = .error .noDirection := by
  have hhalf : IsParameter (1 / 2 : ℝ) := ⟨one_half_pos.le, one_half_lt_one.le⟩
  have hmove : KeepsMoving fun x : ℝ => x • yAxis := by
    intro x y _ _ hxy
    have hdiff : y • yAxis - x • yAxis = (y - x) • (yAxis : Vec3 ℝ) := by
      ext <;> simp [yAxis]
    rw [hdiff, norm_smul, norm_yAxis, mul_one]
    calc (Scalar.tolerance : ℝ) ≤ sampleStep := by norm_num [Scalar.tolerance, sampleStep]
      _ ≤ |y - x| := hxy.trans (le_abs_self _)
  have hframe : ∃ frame, ofCurve (.ofPoint fun x : ℝ => x • yAxis) (1 / 2) = .ok frame := by
    obtain ⟨hstalls, -⟩ | ⟨-, frame, hframe, -⟩ :=
      ofCurve_ofPoint (fun x => x • yAxis) hhalf
    · exact absurd hstalls (hmove.not_stalls hhalf)
    · exact ⟨frame, hframe⟩
  obtain ⟨frame, hframe⟩ := hframe
  have hcurve := ofPoint_ne_noDirection fun _ => yAxis
  refine ⟨⟨frame, hframe, (ofCurve_isRightHanded _ _).1 frame hframe⟩, hcurve, ?_⟩
  refine ((ofCurve_isRightHanded _ _).2 hcurve).2 ⟨yAxis, yAxis, ?_, ?_, ?_⟩
  · rw [← Scalar.greatest_real]
    exact Curve.ofPoint_eq_ok (LawfulParameters.greatest hhalf)
  · rw [← Scalar.least_real]
    exact Curve.ofPoint_eq_ok (LawfulParameters.least hhalf)
  · norm_num [Vec3.norm, normSq, dot, yAxis, Scalar.tolerance]

end Frame

end ProceduralTree
