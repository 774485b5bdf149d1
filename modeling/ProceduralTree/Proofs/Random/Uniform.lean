import ProceduralTree.Proofs.Scalar.Naturals
import ProceduralTree.Random.Uniform

/-!
# Draws from ranges

A range of scalars can be drawn from if its ends are in order and the scale that takes the fractions
to it does not overflow. From a range that holds nothing but zero only zero is drawn, whatever the
sign of its end.

## Main definitions

* `Keystream.IsNarrow` — a range whose scale does not overflow.

## Main statements

* `Keystream.isSome_scalarIn`, `Keystream.isSome_wordIn` — the ranges that can be drawn from.
* `Keystream.zero_le_share` — a share of a budget is not negative.
* `Keystream.eq_of_scalarIn_self` — a range of a single number.
* `Keystream.fraction_mul_add_zero` — every draw from a range of zero is zero, which makes the
  keystream a lawful source.
-/

namespace ProceduralTree.Keystream

open Float.Model Binary64

theorem unpack_topFraction : topFraction.toModel.unpack =
    .finite .positive (2 ^ 53 - 2) (-53) (by decide) := rfl

/-! ## Ranges that can be drawn from -/

/-- The scale that takes the fractions to the range does not overflow. -/
def IsNarrow (low high : Float) : Prop := ((high - low) / topFraction).isFinite

instance (low high : Float) : Decidable (IsNarrow low high) :=
  inferInstanceAs (Decidable (_ = true))

theorem isSome_scalarIn (low high : Float) :
    (scalarIn low high).isSome ↔ low ≤ high ∧ IsNarrow low high := by
  unfold scalarIn scaleOf? IsNarrow
  rw [Option.isSome_map]
  simp only
  split_ifs <;> simp_all

theorem isSome_wordIn (low high : UInt32) : (wordIn low high).isSome ↔ low ≤ high := by
  unfold wordIn
  split_ifs <;> simp_all

theorem mem_of_wordIn {low high : UInt32} {draw : Draw Keystream UInt32}
    (h : wordIn low high = some draw) (s : Keystream) :
    low ≤ (draw s).1 ∧ (draw s).1 ≤ high := by
  obtain ⟨hle, hdraw⟩ := Option.ite_none_right_eq_some.1 h
  cases hdraw
  rcases shortBelow (high.toNat - low.toNat + 1) (Nat.succ_pos _) s with ⟨⟨offset, hoffset⟩, rest⟩
  have hhigh := high.toNat_lt
  simp only [UInt32.le_iff_toNat_le, UInt32.toNat_add, UInt32.toNat_ofNat'] at hle ⊢
  omega

theorem isFinite_of_isNarrow {a : Float} (h : IsNarrow 0 a) : a.toModel.unpack.isFinite = true := by
  have hwidth := isFinite_of_isFinite_pack h
  rw [unpack_topFraction] at hwidth
  change (UnpackedFloat.div format (a - 0).toModel.unpack _).isFinite = true at hwidth
  rw [unpack_sub, unpack_zero] at hwidth
  generalize a.toModel.unpack = u at hwidth ⊢
  cases u with
  | infinity sign =>
    change (UnpackedFloat.div format (pack (.infinity sign)).unpack _).isFinite = true at hwidth
    rw [unpack_pack_infinity] at hwidth
    exact hwidth
  | notANumber => exact hwidth
  | zero sign => rfl
  | finite => rfl

/-- A share of a budget is not negative. -/
theorem zero_le_share {budget : Float} (hbudget : 0 ≤ budget) {n : Nat} (hn : n < 2 ^ 53)
    (hnarrow : IsNarrow 0 (budget / Float.ofNat n)) : 0 ≤ budget / Float.ofNat n := by
  rw [zero_le_iff] at hbudget ⊢
  have hfinite := isFinite_of_isNarrow hnarrow
  rw [unpack_div] at hfinite ⊢
  exact nonneg_unpack_pack
    (nonneg_div hbudget (nonneg_unpack_ofNat hn) (isFinite_of_isFinite_pack hfinite))

/-! ## The range of zero -/

/-- Every fraction is far from an overflow. -/
theorem below_fraction (s : Keystream) : Below 67 s.fraction.1.toModel.unpack := by
  have hlog : (s.word64.1 >>> 12).toNat.log2 < 64 :=
    log2_toNat_lt (by decide) (s.word64.1 >>> 12).toBitVec
  have hword : Below 66 (s.word64.1 >>> 12).toFloat.toModel.unpack := by
    rw [unpack_toFloat]
    exact below_unpack_pack (by decide) (by decide) (below_ofNat (by decide) (by omega))
  have hdenominator : (4503599627370496.0 : Float).toModel.unpack =
      .finite .positive (2 ^ 52) 0 (by decide) := rfl
  unfold fraction
  simp only
  rw [unpack_div, hdenominator]
  apply below_unpack_pack (by decide) (by decide)
  generalize (s.word64.1 >>> 12).toFloat.toModel.unpack = u at hword
  cases hword with
  | zero => exact .zero
  | finite h => exact below_div (by decide) _ _ (by omega)

theorem fraction_mul (s : Keystream) {scale : Float} {sign : UnpackedFloat.Sign}
    (hscale : scale.toModel.unpack = .zero sign) :
    s.fraction.1 * scale = .ofModel (pack (.zero sign)) := by
  change Float.ofModel (pack (UnpackedFloat.mul format _ _)) = _
  rw [hscale, mul_zero (below_fraction s)]

theorem fraction_mul_add_zero (s : Keystream) {scale : Float} {sign : UnpackedFloat.Sign}
    (hscale : scale.toModel.unpack = .zero sign) : s.fraction.1 * scale + 0 = 0 := by
  rw [fraction_mul s hscale]
  cases sign <;> rfl

/-- A scale of zero needs no fitting. -/
theorem fitScale_zero {high scale : Float} {sign sign' : UnpackedFloat.Sign}
    (hhigh : high.toModel.unpack = .zero sign) (hscale : scale.toModel.unpack = .zero sign') :
    fitScale 0 high attempts scale = scale := by
  have hfits : ¬scale * topFraction + 0 > high := by
    have hproduct : (scale * topFraction).toModel.unpack = .zero sign' := by
      rw [unpack_mul, hscale, unpack_topFraction]
      cases sign' <;> rfl
    rw [gt_iff_lt, lt_iff, hhigh, unpack_add, hproduct, unpack_zero]
    cases sign <;> cases sign' <;> decide
  exact if_neg hfits

instance : LawfulRandomSource Keystream where
  scalar_nonpos := by
    intro high draw hhigh h source
    obtain ⟨scale, hscale, rfl⟩ := Option.map_eq_some_iff.1 h
    unfold scaleOf? at hscale
    simp only [Option.ite_none_right_eq_some] at hscale
    obtain ⟨hlow, -, hscale⟩ := hscale
    obtain ⟨sign, hzero⟩ := exists_unpack_eq_zero hlow hhigh
    have hwidth : ((high - 0) / topFraction).toModel.unpack = .zero sign := by
      rw [unpack_div, unpack_sub, hzero, unpack_zero, unpack_topFraction]
      cases sign <;> rfl
    obtain rfl := (fitScale_zero hzero hwidth).symm.trans (Option.some.inj hscale)
    exact fraction_mul_add_zero source hwidth

/-! ## Ranges of a single number -/

theorem eq_of_scalarIn_self {a : Float} {draw : Draw Keystream Float}
    (hwidth : (a - a) / topFraction = 0) (hsum : 0 + a = a) (h : scalarIn a a = some draw)
    (source : Keystream) : (draw source).1 = a := by
  obtain ⟨scale, hscale, rfl⟩ := Option.map_eq_some_iff.1 h
  unfold scaleOf? at hscale
  simp only [Option.ite_none_right_eq_some, hwidth] at hscale
  obtain ⟨-, -, hscale⟩ := hscale
  have hfits : fitScale a a attempts 0 = 0 := by
    refine if_neg ?_
    change ¬a < 0 + a
    rw [hsum]
    exact lt_irrefl a
  obtain rfl := hfits.symm.trans (Option.some.inj hscale)
  change source.fraction.1 * 0 + a = a
  rw [fraction_mul source unpack_zero]
  exact hsum

end ProceduralTree.Keystream
