import ProceduralTree.Proofs.Curve.Parameters
import ProceduralTree.Proofs.Mesh.TubeLayout
import ProceduralTree.Proofs.Success

/-!
# Frames along curves

The samples of a frame and the parameters of the rings of a tube stay in the unit interval. So there
is only one reason for a frame not to exist: the curve stalls, so that the two samples cannot be
told apart. The same goes for the rings of a tube. In exact arithmetic a curve that keeps moving
stalls nowhere.

## Main definitions

* `Stalls`, `KeepsMoving` — curves whose samples coincide somewhere, or nowhere.

## Main statements

* `Frame.ofCurve_ofPoint` — where a curve has a frame.
* `Tube.positions_ofPoint` — when a tube has vertices, and the error if it has none.
* `Tube.exists_mesh_iff` — when a tube has a mesh.
-/

namespace ProceduralTree

section Frames

variable {α : Type} [Scalar α] {point : α → Vec3 α} {x : α}

/-- The two samples that show the direction of the curve at `x` coincide. -/
def Stalls (point : α → Vec3 α) (x : α) : Prop :=
  (point (Scalar.least (x + sampleStep) 1) - point (Scalar.greatest (x - sampleStep) 0)).norm <
    Scalar.tolerance

theorem Curve.ofPoint_eq_ok (hx : IsParameter x) : ofPoint point x = .ok (point x) := if_pos hx

variable [LawfulParameters α]

/-- A frame is missing exactly where the curve stalls. -/
theorem Frame.ofCurve_ofPoint (point : α → Vec3 α) (hx : IsParameter x) :
    (Stalls point x ∧ ofCurve (.ofPoint point) x = .error .noDirection) ∨
      ¬Stalls point x ∧ ∃ frame, ofCurve (.ofPoint point) x = .ok frame ∧
        ¬frame.tangent.norm < Scalar.tolerance := by
  rw [ofCurve, Curve.ofPoint_eq_ok (LawfulParameters.greatest hx),
    Curve.ofPoint_eq_ok (LawfulParameters.least hx)]
  by_cases h : Stalls point x
  · exact .inl ⟨h, if_pos h⟩
  · exact .inr ⟨h, _, if_neg h, h⟩

theorem Frame.ofCurve_eq_error_iff (hx : IsParameter x) {e : CurveError α} :
    ofCurve (.ofPoint point) x = .error e ↔ e = .noDirection ∧ Stalls point x := by
  obtain ⟨h, hframe⟩ | ⟨h, frame, hframe, -⟩ := ofCurve_ofPoint point hx
  · simp [hframe, h, eq_comm]
  · simp [hframe, h]

/-! ## Tubes -/

namespace Tube

variable {t : Tube α}

theorem isParameter_parameter {i : Nat} (hi : i ≤ t.grid.segments.toNat) :
    IsParameter (t.parameter i) :=
  LawfulParameters.ratio hi TubeGrid.segments_pos t.grid.segments.toNat_lt

theorem ring_ofPoint (hcurve : t.curve = .ofPoint point) {i : Nat}
    (hi : i ≤ t.grid.segments.toNat) :
    (Stalls point (t.parameter i) ∧ t.ring i = .error .noDirection) ∨
      ¬Stalls point (t.parameter i) ∧ ∃ ring, t.ring i = .ok ring := by
  have hx := isParameter_parameter hi
  rw [ring, hcurve, Curve.ofPoint_eq_ok hx]
  obtain ⟨h, hframe⟩ | ⟨h, frame, hframe, -⟩ := Frame.ofCurve_ofPoint point hx
  · exact .inl ⟨h, by rw [hframe]; rfl⟩
  · exact .inr ⟨h, _, by rw [hframe]; rfl⟩

theorem ringsOnto_ofPoint (hcurve : t.curve = .ofPoint point) (vertices : Array (Vec3 α))
    {i count : Nat} (hi : i + count ≤ t.grid.segments.toNat + 1) :
    ((∃ j, (i ≤ j ∧ j < i + count) ∧ Stalls point (t.parameter j)) ∧
        t.ringsOnto vertices i count = .error .noDirection) ∨
      (∀ j, i ≤ j → j < i + count → ¬Stalls point (t.parameter j)) ∧
        ∃ rings, t.ringsOnto vertices i count = .ok rings := by
  induction count generalizing vertices i with
  | zero => exact .inr ⟨fun j hij hji => absurd hij hji.not_ge, vertices, rfl⟩
  | succ count ih =>
    rw [ringsOnto]
    obtain ⟨hstalls, hring⟩ | ⟨hmoves, ring, hring⟩ := ring_ofPoint hcurve (i := i) (by omega)
    · exact .inl ⟨⟨i, by omega, hstalls⟩, by rw [hring]; rfl⟩
    rw [hring]
    obtain ⟨⟨j, hj, hstalls⟩, hrest⟩ | ⟨hmoves', hrest⟩ :=
      ih (vertices ++ ring) (i := i + 1) (by omega)
    · exact .inl ⟨⟨j, by omega, hstalls⟩, hrest⟩
    · refine .inr ⟨fun j hij hji => ?_, hrest⟩
      rcases hij.eq_or_lt with rfl | hlt
      · exact hmoves
      · exact hmoves' j hlt (by omega)

/-- A tube lacks vertices exactly if its curve stalls at one of the rings. -/
theorem positions_ofPoint (hcurve : t.curve = .ofPoint point) :
    ((∃ j ≤ t.grid.segments.toNat, Stalls point (t.parameter j)) ∧
        t.positions = .error .noDirection) ∨
      (∀ j ≤ t.grid.segments.toNat, ¬Stalls point (t.parameter j)) ∧
        ∃ positions, t.positions = .ok positions := by
  have hcenters : ∃ centers, t.centers = .ok centers := by
    rw [centers, hcurve, Curve.ofPoint_eq_ok LawfulParameters.zero,
      Curve.ofPoint_eq_ok LawfulParameters.one]
    split <;> exact ⟨_, rfl⟩
  obtain ⟨centers, hcenters⟩ := hcenters
  rw [positions, rings, hcenters]
  obtain ⟨⟨j, hj, hstalls⟩, hrings⟩ | ⟨hmoves, rings, hrings⟩ :=
    ringsOnto_ofPoint hcurve #[] (Nat.zero_add _).le
  · exact .inl ⟨⟨j, by omega, hstalls⟩, by rw [hrings]; rfl⟩
  · exact .inr ⟨fun j hj => hmoves j j.zero_le (by omega), _, by rw [hrings]; rfl⟩

/-- A tube of radii that can be drawn, with indices for all vertices, has a mesh exactly if its
curve does not stall at any of the rings. -/
theorem exists_mesh_iff (hcurve : t.curve = .ofPoint point) (hbegin : IsRadius t.radiusBegin)
    (hend : IsRadius t.radiusEnd) (hfits : t.grid.Fits) :
    (∃ m, t.mesh = .ok m) ↔ ∀ j ≤ t.grid.segments.toNat, ¬Stalls point (t.parameter j) := by
  obtain ⟨⟨j, hj, hstalls⟩, h⟩ | ⟨hmoves, positions, h⟩ := positions_ofPoint hcurve
  · refine iff_of_false ?_ fun hmoves => hmoves j hj hstalls
    rintro ⟨m, hm⟩
    obtain ⟨-, -, -, positions, hok, -⟩ := mesh_eq_ok.1 hm
    cases h.symm.trans hok
  · exact iff_of_true ⟨_, mesh_eq_ok.2 ⟨hbegin, hend, hfits, _, h, rfl⟩⟩ hmoves

end Tube

end Frames

/-! ## Exact arithmetic -/

section Exact

variable {point : ℝ → Vec3 ℝ} {x : ℝ}

/-- The function takes parameters a sample apart to points that are told apart. -/
def KeepsMoving (point : ℝ → Vec3 ℝ) : Prop :=
  ∀ x y, 0 ≤ x → y ≤ 1 → sampleStep ≤ y - x → Scalar.tolerance ≤ (point y - point x).norm

theorem stalls_real : Stalls point x ↔
    (point (min (x + sampleStep) 1) - point (max (x - sampleStep) 0)).norm < Scalar.tolerance := by
  rw [Stalls, Scalar.least_real, Scalar.greatest_real]

theorem KeepsMoving.not_stalls (hmove : KeepsMoving point) (hx : IsParameter x) :
    ¬Stalls point x := by
  obtain ⟨h₀, h₁⟩ := hx
  have hstep := sampleStep_real
  have hapart : sampleStep ≤ min (x + sampleStep) 1 - max (x - sampleStep) 0 := by
    rcases le_total (x + sampleStep) 1 with h | h <;>
      rcases le_total (x - sampleStep) 0 with h' | h' <;> simp [h, h'] <;> linarith
  rw [stalls_real]
  exact not_lt.2 (hmove _ _ (le_max_right _ _) (min_le_right _ _) hapart)

namespace Tube

variable {t : Tube ℝ}

theorem isRadius_real {r : ℝ} : IsRadius r ↔ 0 ≤ r := by simp [IsRadius, Scalar.isFinite]

theorem parameter_zero (t : Tube ℝ) : t.parameter 0 = 0 := by
  rw [parameter, Nat.cast_zero, zero_div]

theorem parameter_segments (t : Tube ℝ) : t.parameter t.grid.segments.toNat = 1 :=
  div_self (Nat.cast_ne_zero.2 TubeGrid.segments_pos.ne')

theorem parameter_lt_parameter {i k : Nat} (h : i < k) : t.parameter i < t.parameter k :=
  div_lt_div_of_pos_right (Nat.cast_lt.2 h) (Nat.cast_pos.2 TubeGrid.segments_pos)

theorem exists_mesh (hcurve : t.curve = .ofPoint point) (hmove : KeepsMoving point)
    (hbegin : 0 ≤ t.radiusBegin) (hend : 0 ≤ t.radiusEnd) (hfits : t.grid.Fits) :
    ∃ m, t.mesh = .ok m :=
  (exists_mesh_iff hcurve (isRadius_real.2 hbegin) (isRadius_real.2 hend) hfits).2 fun _ hj =>
    hmove.not_stalls (isParameter_parameter hj)

end Tube

end Exact

end ProceduralTree
