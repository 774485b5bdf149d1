import ProceduralTree.Proofs.Scalar.Real

/-!
# Products of vectors

Dot products, cross products and lengths in exact arithmetic.

## Main statements

* `Vec3.normSq_cross` — the length of a cross product.
* `Vec3.norm_normalize` — directions are unit vectors.
-/

namespace ProceduralTree.Vec3

variable (v w : Vec3 ℝ)

/-! ## Dot products -/

theorem dot_comm : v.dot w = w.dot v := by
  simp only [dot]
  ring

theorem smul_dot (a : ℝ) : (a • v).dot w = a * v.dot w := by
  simp only [dot, smul_x, smul_y, smul_z]
  ring

theorem dot_smul (a : ℝ) : v.dot (a • w) = a * v.dot w := by
  rw [dot_comm, smul_dot, dot_comm]

theorem add_dot (u : Vec3 ℝ) : (v + w).dot u = v.dot u + w.dot u := by
  simp only [dot, add_x, add_y, add_z]
  ring

theorem sub_dot (u : Vec3 ℝ) : (v - w).dot u = v.dot u - w.dot u := by
  simp only [dot, sub_x, sub_y, sub_z]
  ring

theorem normSq_smul (a : ℝ) : (a • v).normSq = a ^ 2 * v.normSq := by
  rw [normSq, smul_dot, dot_smul, ← mul_assoc, ← sq]
  rfl

theorem normSq_sub : (v - w).normSq = v.normSq - 2 * v.dot w + w.normSq := by
  simp only [normSq, dot, sub_x, sub_y, sub_z]
  ring

/-! ## Cross products -/

theorem cross_dot_left : (v.cross w).dot v = 0 := by
  simp only [dot, cross]
  ring

theorem cross_dot_right : (v.cross w).dot w = 0 := by
  simp only [dot, cross]
  ring

theorem cross_swap : w.cross v = (-1 : ℝ) • v.cross w := by
  ext <;>
  · simp only [cross, smul_x, smul_y, smul_z]
    ring

theorem cross_smul (a : ℝ) : v.cross (a • w) = a • v.cross w := by
  ext <;>
  · simp only [cross, smul_x, smul_y, smul_z]
    ring

theorem normSq_cross : (v.cross w).normSq = v.normSq * w.normSq - v.dot w ^ 2 := by
  simp only [normSq, dot, cross]
  ring

/-! ## Lengths -/

theorem normSq_nonneg : 0 ≤ v.normSq :=
  add_nonneg (add_nonneg (mul_self_nonneg _) (mul_self_nonneg _)) (mul_self_nonneg _)

theorem norm_nonneg : 0 ≤ v.norm := Real.sqrt_nonneg _

variable {v}

theorem norm_pos_iff : 0 < v.norm ↔ 0 < v.normSq := Real.sqrt_pos

theorem norm_eq_one_iff : v.norm = 1 ↔ v.normSq = 1 := Real.sqrt_eq_one

theorem normalize_eq_smul : v.normalize = v.norm⁻¹ • v := v.div_eq_inv_smul v.norm

theorem norm_normalize (h : 0 < v.norm) : v.normalize.norm = 1 := by
  rw [normalize_eq_smul, norm_smul, abs_of_pos (inv_pos.2 h), inv_mul_cancel₀ h.ne']

theorem normalize_smul {a : ℝ} (ha : 0 < a) (v : Vec3 ℝ) : (a • v).normalize = v.normalize := by
  have hsmul : (a * v.norm)⁻¹ • a • v = v.norm⁻¹ • v := by
    ext <;>
    · simp only [smul_x, smul_y, smul_z]
      field_simp
  rw [normalize_eq_smul, norm_smul, abs_of_pos ha, hsmul, normalize_eq_smul]

end ProceduralTree.Vec3
