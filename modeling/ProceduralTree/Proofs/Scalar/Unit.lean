import ProceduralTree.Proofs.Curve.Parameters
import ProceduralTree.Proofs.Scalar.Decay
import ProceduralTree.Proofs.Scalar.Naturals

/-!
# Binary64 numbers in the unit interval

Rounding never leaves the unit interval, since both of its ends are binary64 numbers. So a part of a
whole is a number in it, and a number in it stays there when a number that is not negative is taken
away from it, as long as the result is not negative. The parameters of curves are taken that way.

## Main definitions

* `Binary64.InUnit` — unpacked numbers between zero and one.

## Main statements

* `Binary64.inUnit_roundWithAccuracy` — rounding does not leave the unit interval.
* `Binary64.ratio_mem_unit` — the quotient of a natural number and one that is no smaller.
* `Binary64.sub_mem_unit`, `Binary64.zero_le_add` — differences and sums.
-/

namespace ProceduralTree

namespace Binary64

open Float.Model Float.Model.UnpackedFloat

/-- Neither negative nor undefined, and at most one. -/
inductive InUnit : UnpackedFloat → Prop
  | zero (sign : Sign) : InUnit (.zero sign)
  | finite {m : Nat} {e : Int} {h : 0 < m} (he : e < -52 ∨ e = -52 ∧ m ≤ 2 ^ 52) :
    InUnit (.finite .positive m e h)

theorem mem_unit_iff {a : Float} : 0 ≤ a ∧ a ≤ 1 ↔ InUnit a.toModel.unpack := by
  rw [zero_le_iff, le_iff]
  generalize a.toModel.unpack = u
  constructor
  · rintro ⟨hnonneg, hle⟩
    cases hnonneg with
    | zero sign => exact .zero sign
    | finite m e h => exact .finite (le_unpack_one_iff.1 hle)
    | infinity => exact absurd hle nofun
  · intro h
    cases h with
    | zero sign => exact ⟨.zero sign, rfl⟩
    | finite he => exact ⟨.finite _ _ _, le_unpack_one_iff.2 he⟩

/-- A number is above one or at most one. -/
theorem le_one_of_not_lt {a : Float} (hnumber : a ≤ a) (h : ¬1 < a) : a ≤ 1 := by
  rw [le_iff] at hnumber ⊢
  rw [lt_iff] at h
  generalize a.toModel.unpack = u at *
  rcases u with (_ | _) | _ | sign | ⟨_ | _, m, e, hm⟩
  · rfl
  · exact absurd rfl h
  · exact absurd hnumber nofun
  · rfl
  · rfl
  · rw [unpack_one] at h
    change ¬((compare (-52) e).then (compare (2 ^ 52) m) == .lt) = true at h
    rw [beq_iff_eq, Ordering.then_eq_lt, Int.compare_eq_lt, Int.compare_eq_eq,
      Nat.compare_eq_lt] at h
    exact le_unpack_one_iff.2 (by omega)

/-! ## Rounding -/

theorem inUnit_unpack_pack {u : UnpackedFloat} (h : InUnit u) : InUnit (pack u).unpack := by
  cases h with
  | zero sign =>
    rw [unpack_pack_zero]
    exact .zero sign
  | @finite m e h he =>
    by_cases hnormal : m.log2 = 52 ∧ -1074 ≤ e
    · rw [unpack_pack_normal .positive hnormal.1 hnormal.2 (by omega) h]
      exact .finite he
    · obtain hpack | ⟨m', h', hpack, -⟩ :=
        unpack_pack_subnormal .positive h (e := e) (by omega) (by omega) <;> rw [hpack]
      · exact .zero _
      · exact .finite (.inl (by decide))

theorem two_pow_mul {a b c : Nat} (h : a + b = c) : 2 ^ a * 2 ^ b = 2 ^ c := by
  rw [← Nat.pow_add, h]

theorem log2_le_of_le_two_pow {m k : Nat} (h : m ≤ 2 ^ k) : m.log2 ≤ k := by
  have hlog := Nat.log_mono_right (b := 2) h
  rwa [Nat.log_pow (by decide), ← Nat.log2_eq_log_two] at hlog

/-- Rounding does not go beyond one. -/
theorem inUnit_roundWithAccuracy {m : Nat} {e : Int} {accuracy : Accuracy} (he : e ≤ -52)
    (hm : m < 2 ^ (-e).toNat ∨ m = 2 ^ (-e).toNat ∧ accuracy = .exact) :
    InUnit (roundWithAccuracy format .positive m e accuracy) := by
  obtain ⟨r, n, k, hr, ⟨-, hzero⟩ | ⟨hpos, hfinite⟩⟩ := exists_roundsTo .positive m e accuracy
  · rw [hzero]
    exact .zero _
  rw [hfinite]
  refine .finite ?_
  have hn := hr.dropped
  have hk := hr.carried
  have hm_log : m.log2 ≤ (-e).toNat := log2_le_of_le_two_pow (by omega)
  have hle : r ≤ 2 ^ (-(e + n)).toNat := by
    have hpow : 2 ^ (-(e + n)).toNat * 2 ^ n = 2 ^ (-e).toNat := two_pow_mul (by omega)
    rw [← hpow] at hm
    exact hm.elim hr.le_of_lt fun hm => (hr.eq_of_exact hm.1 hm.2).le
  have hr_log := log2_le_of_le_two_pow hle
  -- If the last digit is where that of one is, no more digits are left than one has.
  by_cases hlast : e + n + k < -52
  · exact .inl hlast
  · exact .inr ⟨by omega, Nat.div_le_of_le_mul (hle.trans_eq (two_pow_mul (by omega)).symm)⟩

theorem inUnit_round {m : Nat} {e : Int} (he : e ≤ -52) (hm : m ≤ 2 ^ (-e).toNat) :
    InUnit (UnpackedFloat.round format .positive m e) := by
  unfold UnpackedFloat.round
  simp only [decreaseExponent]
  generalize (e - format.targetExponent (totalExponent m e)).toNat = d
  have hpow : 2 ^ (-e).toNat * 2 ^ d = 2 ^ (-(e - d)).toNat := two_pow_mul (by omega)
  have hle : m <<< d ≤ 2 ^ (-(e - d)).toNat := by
    rw [Nat.shiftLeft_eq, ← hpow]
    exact Nat.mul_le_mul_right _ hm
  exact inUnit_roundWithAccuracy (by omega) (hle.lt_or_eq.imp_right fun h => ⟨h, rfl⟩)

/-! ## Quotients -/

/-- A quotient of positive numbers of which the divisor is no smaller. -/
theorem inUnit_div {m₁ m₂ : Nat} {e₁ e₂ : Int} (h₁ : 0 < m₁) (h₂ : 0 < m₂) (he : e₁ ≤ e₂)
    (hlog : totalExponent m₁ e₁ ≤ totalExponent m₂ e₂) (hm : m₁ ≤ m₂ * 2 ^ (e₂ - e₁).toNat) :
    InUnit (UnpackedFloat.div format
      (.finite .positive m₁ e₁ h₁) (.finite .positive m₂ e₂ h₂)) := by
  let target := min (e₁ - e₂)
    (format.targetExponent (totalExponent m₁ e₁ - totalExponent m₂ e₂))
  let n := (e₁ - e₂ - target).toNat
  change InUnit (roundWithAccuracy format .positive ((m₁ <<< n) / m₂) target
    (accuracyOfFraction ((m₁ <<< n) % m₂) m₂))
  have htarget : target ≤ e₁ - e₂ := Int.min_le_left _ _
  have hsmall : target ≤ -53 := by
    refine (Int.min_le_right _ _).trans ?_
    change max (totalExponent m₁ e₁ - totalExponent m₂ e₂ - 53) (-1074) ≤ -53
    omega
  have hpow : 2 ^ (e₂ - e₁).toNat * 2 ^ n = 2 ^ (-target).toNat := two_pow_mul (by omega)
  have hle : m₁ <<< n ≤ m₂ * 2 ^ (-target).toNat :=
    calc m₁ <<< n = m₁ * 2 ^ n := Nat.shiftLeft_eq ..
      _ ≤ m₂ * 2 ^ (e₂ - e₁).toNat * 2 ^ n := Nat.mul_le_mul_right _ hm
      _ = m₂ * 2 ^ (-target).toNat := by rw [Nat.mul_assoc, hpow]
  apply inUnit_roundWithAccuracy (by omega)
  rcases hle.lt_or_eq with hlt | heq
  · exact .inl (Nat.div_lt_of_lt_mul hlt)
  · refine .inr ⟨?_, ?_⟩
    · rw [heq, Nat.mul_div_cancel_left _ h₂]
    · rw [heq, Nat.mul_mod_right]
      rfl

/-- A part of a whole is a number in the unit interval. -/
theorem ratio_mem_unit {i n : Nat} (hi : i ≤ n) (hpos : 0 < n) (hn : n < 2 ^ 53) :
    0 ≤ Float.ofNat i / Float.ofNat n ∧ Float.ofNat i / Float.ofNat n ≤ 1 := by
  rw [mem_unit_iff, unpack_div, unpack_ofNat hpos hn (Nat.mul_pos hpos (Nat.two_pow_pos _))]
  apply inUnit_unpack_pack
  rcases i.eq_zero_or_pos with rfl | hi_pos
  · exact .zero _
  have hi_log := log2_le_of_lt_two_pow hi_pos (hi.trans_lt hn)
  have hn_log := log2_le_of_lt_two_pow hpos hn
  have hlog : i.log2 ≤ n.log2 := by
    rw [Nat.log2_eq_log_two, Nat.log2_eq_log_two]
    exact Nat.log_mono_right hi
  rw [unpack_ofNat hi_pos (hi.trans_lt hn) (Nat.mul_pos hi_pos (Nat.two_pow_pos _))]
  refine inUnit_div _ _ (by omega) ?_ ?_
  · unfold totalExponent
    rw [log2_mul_two_pow_sub hi_pos (hi.trans_lt hn), log2_mul_two_pow_sub hpos hn]
    omega
  · let e := ((n.log2 : Int) - 52 - (i.log2 - 52)).toNat
    have hpow : 2 ^ (52 - n.log2) * 2 ^ e = 2 ^ (52 - i.log2) := two_pow_mul (by omega)
    calc i * 2 ^ (52 - i.log2) ≤ n * 2 ^ (52 - i.log2) := Nat.mul_le_mul_right _ hi
      _ = n * 2 ^ (52 - n.log2) * 2 ^ e := by rw [Nat.mul_assoc, hpow]

/-! ## Sums -/

theorem nonneg_add {u v : UnpackedFloat} (hu : Nonneg u) (hv : Nonneg v) :
    Nonneg (UnpackedFloat.add format u v) := by
  cases hu with
  | zero sign =>
    cases hv with
    | zero sign' => cases sign <;> cases sign' <;> exact .zero _
    | finite m e h => exact .finite m e h
    | infinity => exact .infinity
  | finite m₁ e₁ h₁ =>
    cases hv with
    | zero sign => exact .finite m₁ e₁ h₁
    | finite m₂ e₂ h₂ =>
      change Nonneg (UnpackedFloat.normalize format ((m₁ <<< (e₁ - min e₁ e₂).toNat : Nat)
        + (m₂ <<< (e₂ - min e₁ e₂).toNat : Nat)) (min e₁ e₂) .positive)
      generalize m₁ <<< (e₁ - min e₁ e₂).toNat = k₁
      generalize m₂ <<< (e₂ - min e₁ e₂).toNat = k₂
      unfold UnpackedFloat.normalize
      cases h : compare ((k₁ : Int) + k₂) 0 with
      | lt =>
        have := Int.compare_eq_lt.1 h
        omega
      | eq => exact .zero _
      | gt => exact nonneg_roundWithAccuracy ..
    | infinity => exact .infinity
  | infinity => cases hv <;> exact .infinity

theorem zero_le_add {a b : Float} (ha : 0 ≤ a) (hb : 0 ≤ b) : 0 ≤ a + b := by
  rw [zero_le_iff] at *
  rw [unpack_add]
  exact nonneg_unpack_pack (nonneg_add ha hb)

/-! ## Differences -/

/-- Less than zero. -/
inductive Negative : UnpackedFloat → Prop
  | finite (m : Nat) (e : Int) (h : 0 < m) : Negative (.finite .negative m e h)
  | infinity : Negative (.infinity .negative)

theorem lt_zero_of_negative {a : Float} (h : Negative a.toModel.unpack) : a < 0 := by
  rw [lt_iff, unpack_zero]
  generalize a.toModel.unpack = u at h
  cases h <;> rfl

theorem negative_or_inUnit_pack {u : UnpackedFloat} (h : Negative u) :
    Negative (pack u).unpack ∨ InUnit (pack u).unpack := by
  cases h with
  | finite m e h =>
    obtain ⟨hpack, -⟩ | hpack | ⟨m', e', h', hpack, -⟩ := unpack_pack_finite .negative m e h <;>
      rw [hpack]
    · exact .inl .infinity
    · exact .inr (.zero _)
    · exact .inl (.finite m' e' h')
  | infinity =>
    rw [unpack_pack_infinity]
    exact .inl .infinity

theorem negative_or_inUnit_round (m : Nat) (e : Int) :
    Negative (UnpackedFloat.round format .negative m e) ∨
      InUnit (UnpackedFloat.round format .negative m e) := by
  unfold UnpackedFloat.round
  simp only [decreaseExponent]
  obtain h | ⟨m', e', h', h, -⟩ := roundWithAccuracy_cases .negative
    (m <<< (e - format.targetExponent (totalExponent m e)).toNat)
    (e - (e - format.targetExponent (totalExponent m e)).toNat) .exact <;> rw [h]
  · exact .inr (.zero _)
  · exact .inl (.finite m' e' h')

theorem negative_or_inUnit_sub {u v : UnpackedFloat} (hu : InUnit u) (hv : Nonneg v)
    (hdigits : ∀ {m e h}, u = .finite .positive m e h → m ≤ 2 ^ (-e).toNat) :
    Negative (UnpackedFloat.sub format u v) ∨ InUnit (UnpackedFloat.sub format u v) := by
  cases hu with
  | zero sign =>
    cases hv with
    | zero sign' => cases sign <;> cases sign' <;> exact .inr (.zero _)
    | finite m e h => exact .inl (.finite m e h)
    | infinity => exact .inl .infinity
  | @finite m₁ e₁ h₁ he₁ =>
    cases hv with
    | zero sign => exact .inr (.finite he₁)
    | finite m₂ e₂ h₂ =>
      let e := min e₁ e₂
      let difference : Int := (m₁ <<< (e₁ - e).toNat : Nat) - (m₂ <<< (e₂ - e).toNat : Nat)
      change Negative (UnpackedFloat.normalize format difference e .positive) ∨
        InUnit (UnpackedFloat.normalize format difference e .positive)
      have he : e ≤ e₁ := Int.min_le_left e₁ e₂
      unfold UnpackedFloat.normalize
      cases h : compare difference 0 with
      | lt => exact negative_or_inUnit_round _ _
      | eq => exact .inr (.zero _)
      | gt =>
        refine .inr (inUnit_round (by omega) ?_)
        calc difference.toNat ≤ m₁ <<< (e₁ - e).toNat := by
              rw [Int.toNat_sub]
              exact Nat.sub_le _ _
          _ = m₁ * 2 ^ (e₁ - e).toNat := Nat.shiftLeft_eq ..
          _ ≤ 2 ^ (-e₁).toNat * 2 ^ (e₁ - e).toNat := Nat.mul_le_mul_right _ (hdigits rfl)
          _ = 2 ^ (-e).toNat := two_pow_mul (by omega)
    | infinity => exact .inl .infinity

/-- What is left of a number in the unit interval lies in it as well, if it is not negative. -/
theorem sub_mem_unit {a b : Float} (ha₀ : 0 ≤ a) (ha₁ : a ≤ 1) (hb : 0 ≤ b) (h : ¬a - b < 0) :
    0 ≤ a - b ∧ a - b ≤ 1 := by
  have ha := mem_unit_iff.1 ⟨ha₀, ha₁⟩
  rw [le_iff] at ha₁
  rw [zero_le_iff] at hb
  have hdigits {m e h} (hunpack : a.toModel.unpack = .finite .positive m e h) :
      m ≤ 2 ^ (-e).toNat := by
    have hm := (of_unpack_eq_finite hunpack).1
    rw [hunpack] at ha₁
    exact (le_two_pow_of_le_one hm ha₁).2
  have hnot : ¬Negative (a - b).toModel.unpack := fun hneg => h (lt_zero_of_negative hneg)
  rw [mem_unit_iff]
  rw [unpack_sub] at hnot ⊢
  obtain hneg | hunit := negative_or_inUnit_sub ha hb hdigits
  · exact (negative_or_inUnit_pack hneg).resolve_left hnot
  · exact inUnit_unpack_pack hunit

end Binary64

/-! ## Parameters of curves -/

theorem zero_le_sampleStep_float : 0 ≤ (sampleStep : Float) := by decide

instance : LawfulParameters Float where
  zero := by decide
  one := by decide
  ratio hi hpos hn := Binary64.ratio_mem_unit hi hpos (hn.trans (by decide))
  greatest {x} hx := by
    unfold Scalar.greatest
    split_ifs with h
    · exact (by decide : IsParameter (0 : Float))
    · exact Binary64.sub_mem_unit hx.1 hx.2 zero_le_sampleStep_float fun hneg => h (.inl hneg)
  least {x} hx := by
    unfold Scalar.least
    split_ifs with h
    · exact (by decide : IsParameter (1 : Float))
    · obtain ⟨hlt, hnumber⟩ := not_or.1 h
      exact ⟨Binary64.zero_le_add hx.1 zero_le_sampleStep_float,
        Binary64.le_one_of_not_lt (not_not.1 hnumber) hlt⟩

end ProceduralTree
