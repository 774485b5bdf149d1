import Mathlib.Analysis.SpecialFunctions.Pow.Real
import Mathlib.Analysis.SpecialFunctions.Trigonometric.Inverse
import ProceduralTree.Space.Vector

/-!
# Real scalars

The real numbers as scalars: geometry without rounding, in which every scalar is a number and
finite.
-/

namespace ProceduralTree

noncomputable instance : Scalar ℝ where
  decidableLT := inferInstance
  decidableLE := inferInstance
  floor x := ⌊x⌋₊
  isFinite _ := true
  sqrt := Real.sqrt
  fourthRoot x := x ^ (1 / 4 : ℝ)
  sin := Real.sin
  cos := Real.cos
  arccos := Real.arccos
  pi := Real.pi

namespace Scalar

@[simp] theorem ratio_real (n m : Nat) : (ratio n m : ℝ) = n / m := rfl

theorem tolerance_pos : (0 : ℝ) < tolerance := by norm_num [tolerance]

@[simp] theorem floor_real (a : ℝ) : floor a = ⌊a⌋₊ := rfl

@[simp] theorem sqrt_real (a : ℝ) : sqrt a = Real.sqrt a := rfl

@[simp] theorem abs_real (a : ℝ) : abs a = |a| := by
  rw [abs]
  split_ifs with h
  · exact (abs_of_neg h).symm
  · exact (abs_of_nonneg (not_lt.1 h)).symm

@[simp] theorem isNumber_real (a : ℝ) : IsNumber a := le_refl a

@[simp] theorem least_real (a b : ℝ) : least a b = min a b := by
  simp only [least, isNumber_real, not_true, or_false]
  grind

@[simp] theorem greatest_real (a b : ℝ) : greatest a b = max a b := by
  simp only [greatest, isNumber_real, not_true, or_false]
  grind

end Scalar

namespace Vec3

theorem div_eq_inv_smul (v : Vec3 ℝ) (a : ℝ) : v / a = a⁻¹ • v := by
  ext <;> exact div_eq_inv_mul _ _

theorem norm_smul (a : ℝ) (v : Vec3 ℝ) : (a • v).norm = |a| * v.norm := by
  have hsq : (a • v).normSq = a ^ 2 * v.normSq := by
    simp only [normSq, dot, smul_x, smul_y, smul_z]
    ring
  rw [norm, hsq, Scalar.sqrt_real, Real.sqrt_mul (sq_nonneg a), Real.sqrt_sq_eq_abs]
  rfl

theorem norm_sub_comm (v w : Vec3 ℝ) : (v - w).norm = (w - v).norm := by
  have hneg : v - w = (-1 : ℝ) • (w - v) := by ext <;> simp
  rw [hneg, norm_smul, abs_neg, abs_one, one_mul]

@[simp] protected theorem sub_zero (v : Vec3 ℝ) : v - 0 = v := by ext <;> simp

@[simp] theorem norm_xAxis : (xAxis : Vec3 ℝ).norm = 1 := by simp [norm, normSq, dot, xAxis]

@[simp] theorem norm_yAxis : (yAxis : Vec3 ℝ).norm = 1 := by simp [norm, normSq, dot, yAxis]

@[simp] theorem norm_zAxis : (zAxis : Vec3 ℝ).norm = 1 := by simp [norm, normSq, dot, zAxis]

end Vec3

end ProceduralTree
