import Mathlib.Analysis.SpecialFunctions.Pow.Real
import ProceduralTree.Curve.Spline
import ProceduralTree.Proofs.Scalar.Real

/-!
# Parameters of curves

A curve has points in the unit interval only. A program takes its parameters there by arithmetic:
parts of a whole, and samples a step away that are moved back to the nearer end. A number type in
which none of these parameters leaves the interval is lawful; the real numbers are one.

## Main definitions

* `IsParameter` — the unit interval.
* `LawfulParameters` — number types whose arithmetic keeps parameters in the unit interval.
-/

namespace ProceduralTree

/-- Whether `x` lies in the unit interval. -/
def IsParameter {α : Type} [Scalar α] (x : α) : Prop := 0 ≤ x ∧ x ≤ 1

instance {α : Type} [Scalar α] (x : α) : Decidable (IsParameter x) :=
  inferInstanceAs (Decidable (_ ∧ _))

/-- A number type whose arithmetic keeps parameters in the unit interval. -/
class LawfulParameters (α : Type) [Scalar α] : Prop where
  zero : IsParameter (0 : α)
  one : IsParameter (1 : α)
  ratio {i n : Nat} (hi : i ≤ n) (hpos : 0 < n) (hn : n < UInt32.size) :
    IsParameter (Scalar.ratio i n : α)
  greatest {x : α} (hx : IsParameter x) : IsParameter (Scalar.greatest (x - sampleStep) 0)
  least {x : α} (hx : IsParameter x) : IsParameter (Scalar.least (x + sampleStep) 1)

theorem sampleStep_real : (sampleStep : ℝ) = 1 / 1000 := by norm_num [sampleStep]

instance : LawfulParameters ℝ where
  zero := ⟨le_rfl, zero_le_one⟩
  one := ⟨zero_le_one, le_rfl⟩
  ratio hi hpos _ :=
    ⟨div_nonneg (Nat.cast_nonneg _) (Nat.cast_nonneg _),
      (div_le_one (Nat.cast_pos.2 hpos)).2 (Nat.cast_le.2 hi)⟩
  greatest {x} hx := by
    have hstep := sampleStep_real
    rw [Scalar.greatest_real]
    exact ⟨le_max_right _ _, max_le (by linarith [hx.2]) zero_le_one⟩
  least {x} hx := by
    have hstep := sampleStep_real
    rw [Scalar.least_real]
    exact ⟨le_min (by linarith [hx.1]) zero_le_one, min_le_right _ _⟩

end ProceduralTree
