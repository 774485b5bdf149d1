import ProceduralTree.Proofs.Space.Products
import ProceduralTree.Space.Quaternion

/-!
# Rotations without rounding

Quaternions of norm one are closed under products, and rotations by them keep lengths. A product
with such a quaternion leaves the norm of any other as it is, and renormalization squares its
distance from one.

## Main definitions

* `Quaternion.norm` — the length of a quaternion.

## Main statements

* `Quaternion.normSq_mul` — norms of products.
* `Quaternion.abs_normSq_renormalize_sub_one_le` — renormalization brings a norm close to one
  closer.
* `Quaternion.norm_rotate` — rotations keep lengths.
* `Quaternion.mul_ofAxisAngle_rotate` — a rotation keeps its axis.
-/

namespace ProceduralTree.Quaternion

variable (p q r : Quaternion ℝ)

/-! ## Products -/

protected theorem mul_assoc : p * q * r = p * (q * r) := by
  ext <;>
  · simp only [mul_i, mul_j, mul_k, mul_w]
    ring

protected theorem mul_one : q * 1 = q := by ext <;> simp

theorem normSq_mul : (p * q).normSq = p.normSq * q.normSq := by
  simp only [normSq, mul_i, mul_j, mul_k, mul_w]
  ring

theorem normSq_smul (a : ℝ) : (a • q).normSq = a ^ 2 * q.normSq := by
  simp only [normSq, smul_i, smul_j, smul_k, smul_w]
  ring

/-! ## Norms -/

noncomputable def norm : ℝ := Scalar.sqrt q.normSq

variable {p q}

theorem norm_eq_one_iff : q.norm = 1 ↔ q.normSq = 1 := Real.sqrt_eq_one

variable (q) in
theorem renormalize_eq : q.renormalize = ((3 - q.normSq) / 2) • q := by
  rw [renormalize, Scalar.ratio_real]
  congr 1
  push_cast
  ring

theorem renormalize_eq_self (h : q.normSq = 1) : q.renormalize = q := by
  rw [renormalize_eq, h]
  ext <;> norm_num

variable (q) in
theorem normSq_renormalize_sub_one :
    q.renormalize.normSq - 1 = (q.normSq - 1) ^ 2 * ((q.normSq - 4) / 4) := by
  rw [renormalize_eq, normSq_smul]
  ring

theorem abs_normSq_renormalize_sub_one_le (h : |q.normSq - 1| ≤ 1) :
    |q.renormalize.normSq - 1| ≤ |q.normSq - 1| ^ 2 := by
  obtain ⟨hlow, hhigh⟩ := abs_le.1 h
  have hfactor : |(q.normSq - 4) / 4| ≤ 1 := abs_le.2 ⟨by linarith, by linarith⟩
  rw [normSq_renormalize_sub_one, abs_mul, abs_pow]
  exact mul_le_of_le_one_right (sq_nonneg _) hfactor

/-- The conjugate of a quaternion of norm one is its inverse. -/
theorem mul_eq_one (hp : p.normSq = 1) (hvector : q.vector = (-1 : ℝ) • p.vector)
    (hw : q.w = p.w) : p * q = 1 := by
  obtain ⟨i, j, k, w⟩ := q
  obtain ⟨rfl, rfl, rfl⟩ := Vec3.mk.inj hvector
  obtain rfl : w = p.w := hw
  simp only [normSq] at hp
  ext <;> simp only [mul_i, mul_j, mul_k, mul_w, one_i, one_j, one_k, one_w, vector] <;> linarith

/-! ## Rotations -/

variable (q) in
/-- The rotation by a quaternion of another norm adds to or takes from what is across its axis. -/
theorem normSq_rotate (v : Vec3 ℝ) :
    (q.rotate v).normSq = v.normSq + 4 * (q.normSq - 1) * (q.vector.cross v).normSq := by
  simp only [rotate, vector, normSq, Vec3.normSq, Vec3.dot, Vec3.cross, Vec3.add_x, Vec3.add_y,
    Vec3.add_z, Vec3.smul_x, Vec3.smul_y, Vec3.smul_z]
  push_cast
  ring

theorem norm_rotate (h : q.normSq = 1) (v : Vec3 ℝ) : (q.rotate v).norm = v.norm := by
  rw [Vec3.norm, normSq_rotate, h, sub_self, mul_zero, zero_mul, add_zero, Vec3.norm]

section Axis

variable {axis : Vec3 ℝ}

theorem normSq_of_vector_eq {a : ℝ} (h : p.vector = a • axis) :
    p.normSq = a ^ 2 * axis.normSq + p.w ^ 2 := by
  obtain ⟨i, j, k, w⟩ := p
  obtain ⟨rfl, rfl, rfl⟩ := Vec3.mk.inj h
  simp only [normSq, Vec3.normSq, Vec3.dot]
  ring

/-- What a quaternion with its vector along `axis` does before another one does not matter to the
axis, its norm apart. -/
theorem mul_rotate_of_vector_eq {a : ℝ} (h : p.vector = a • axis) :
    (q * p).rotate axis = p.normSq • (q.rotate axis - axis) + axis := by
  obtain ⟨i, j, k, w⟩ := p
  obtain ⟨rfl, rfl, rfl⟩ := Vec3.mk.inj h
  ext <;>
  · simp only [rotate, vector, normSq, Vec3.cross, Vec3.add_x, Vec3.add_y, Vec3.add_z, Vec3.smul_x,
      Vec3.smul_y, Vec3.smul_z, Vec3.sub_x, Vec3.sub_y, Vec3.sub_z, mul_i, mul_j, mul_k, mul_w]
    push_cast
    ring

theorem vector_ofAxisAngle (axis : Vec3 ℝ) (angle : ℝ) :
    (ofAxisAngle axis angle).vector = Real.sin (angle / 2) • axis := rfl

theorem w_ofAxisAngle (axis : Vec3 ℝ) (angle : ℝ) :
    (ofAxisAngle axis angle).w = Real.cos (angle / 2) := rfl

theorem normSq_ofAxisAngle (haxis : axis.normSq = 1) (angle : ℝ) :
    (ofAxisAngle axis angle).normSq = 1 := by
  rw [normSq_of_vector_eq (vector_ofAxisAngle axis angle), haxis, mul_one, w_ofAxisAngle,
    Real.sin_sq_add_cos_sq]

theorem mul_ofAxisAngle_rotate (haxis : axis.normSq = 1) (angle : ℝ) :
    (q * ofAxisAngle axis angle).rotate axis = q.rotate axis := by
  rw [mul_rotate_of_vector_eq (vector_ofAxisAngle axis angle), normSq_ofAxisAngle haxis]
  ext <;> simp

theorem ofAxisAngle_mul_neg (haxis : axis.normSq = 1) (angle : ℝ) :
    ofAxisAngle axis angle * ofAxisAngle axis (-angle) = 1 := by
  refine mul_eq_one (normSq_ofAxisAngle haxis angle) ?_ ?_
  · rw [vector_ofAxisAngle, vector_ofAxisAngle, neg_div, Real.sin_neg]
    ext <;> simp
  · rw [w_ofAxisAngle, w_ofAxisAngle, neg_div, Real.cos_neg]

end Axis

end ProceduralTree.Quaternion
