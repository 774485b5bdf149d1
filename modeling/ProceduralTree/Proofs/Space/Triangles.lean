import ProceduralTree.Proofs.Space.Products

/-!
# Triangles in space

Which side of a triangle is its front, by the right-hand rule, and whether that side faces away from
an axis.

## Main definitions

* `Vec3.areaVector` — the vector across a triangle on its front.
* `Vec3.offAxis` — the part of a vector across an axis.
* `Vec3.FacesOutward` — a triangle whose front faces away from an axis.

## Main statements

* `Vec3.facesOutward_of_turn` — a triangle between two circles about an axis.
-/

namespace ProceduralTree.Vec3

/-- The vector across a triangle by the right-hand rule. It is twice as long as the triangle is
large. -/
def areaVector {α : Type} [Scalar α] (p q r : Vec3 α) : Vec3 α := (q - p).cross (r - p)

def centroid {α : Type} [Scalar α] (p q r : Vec3 α) : Vec3 α :=
  (Scalar.ratio 1 3 : α) • (p + q + r)

/-- The shortest vector to a point from the line along an axis through the origin. -/
def offAxis {α : Type} [Scalar α] (axis v : Vec3 α) : Vec3 α :=
  v - (v.dot axis / axis.normSq) • axis

/-- The front of the triangle faces away from the line along an axis through the origin. -/
def FacesOutward {α : Type} [Scalar α] (axis p q r : Vec3 α) : Prop :=
  0 < (areaVector p q r).dot (offAxis axis (centroid p q r))

variable {axis p q r u v w : Vec3 ℝ} {x y a b : ℝ}

theorem areaVector_rotate (p q r : Vec3 ℝ) : areaVector q r p = areaVector p q r := by
  ext <;>
  · simp only [areaVector, cross, sub_x, sub_y, sub_z]
    ring

theorem centroid_rotate (p q r : Vec3 ℝ) : centroid q r p = centroid p q r := by
  ext <;>
  · simp only [centroid, add_x, add_y, add_z, smul_x, smul_y, smul_z]
    ring

theorem facesOutward_rotate : FacesOutward axis q r p ↔ FacesOutward axis p q r := by
  rw [FacesOutward, areaVector_rotate, centroid_rotate, FacesOutward]

/-- A triangle with two corners at one point has no area. -/
theorem ne_of_areaVector_ne_zero (h : areaVector p q r ≠ 0) : p ≠ q ∧ q ≠ r ∧ r ≠ p := by
  refine ⟨?_, ?_, ?_⟩ <;>
  · rintro rfl
    apply h
    ext <;>
    · simp only [areaVector, cross, sub_x, sub_y, sub_z, zero_x, zero_y, zero_z]
      ring

theorem FacesOutward.areaVector_ne_zero (h : FacesOutward axis p q r) : areaVector p q r ≠ 0 := by
  intro hzero
  rw [FacesOutward, hzero] at h
  simp [dot] at h

theorem offAxis_smul_add (haxis : 0 < axis.norm) (hw : w.dot axis = 0) (x : ℝ) :
    offAxis axis (x • axis + w) = w := by
  have hdot : (x • axis + w).dot axis = x * axis.normSq := by
    rw [add_dot, smul_dot, hw, add_zero, normSq]
  rw [offAxis, hdot, mul_div_cancel_right₀ _ (norm_pos_iff.1 haxis).ne']
  ext <;> simp

/-! ## Triangles between circles about an axis -/

/-- A triangle with corners at `u` and `v` on one circle about the axis, and between them in its
winding a corner at `u` on another circle. Its front is on the outside if the turn from `u` to `v`
is against the way from the first circle to the other. -/
theorem facesOutward_of_turn (haxis : 0 < axis.norm) (hu : u.dot axis = 0) (hv : v.dot axis = 0)
    (hturn : (y - x) * axis.dot (u.cross v) < 0) (ha : 0 < a) (hb : 0 ≤ b) :
    FacesOutward axis (x • axis + a • u) (y • axis + b • u) (x • axis + a • v) := by
  have hcentroid : centroid (x • axis + a • u) (y • axis + b • u) (x • axis + a • v) =
      ((2 * x + y) / 3) • axis + (((a + b) / 3) • u + (a / 3) • v) := by
    ext <;>
    · simp only [centroid, add_x, add_y, add_z, smul_x, smul_y, smul_z, Scalar.ratio_real]
      push_cast
      ring
  have hacross : (((a + b) / 3) • u + (a / 3) • v).dot axis = 0 := by
    rw [add_dot, smul_dot, smul_dot, hu, hv, mul_zero, mul_zero, add_zero]
  have hdot : (areaVector (x • axis + a • u) (y • axis + b • u) (x • axis + a • v)).dot
      (((a + b) / 3) • u + (a / 3) • v) =
        a * (2 * a + b) / 3 * -((y - x) * axis.dot (u.cross v)) := by
    simp only [areaVector, dot, cross, add_x, add_y, add_z, sub_x, sub_y, sub_z, smul_x, smul_y,
      smul_z]
    ring
  rw [FacesOutward, hcentroid, offAxis_smul_add haxis hacross, hdot]
  exact mul_pos (by positivity) (neg_pos.2 hturn)

/-- A triangle with one corner at the center of a circle about an axis. -/
theorem areaVector_fan (center u v : Vec3 ℝ) (a : ℝ) :
    areaVector center (center + a • u) (center + a • v) = a ^ 2 • u.cross v := by
  ext <;>
  · simp only [areaVector, cross, add_x, add_y, add_z, sub_x, sub_y, sub_z, smul_x, smul_y, smul_z]
    ring

end ProceduralTree.Vec3
