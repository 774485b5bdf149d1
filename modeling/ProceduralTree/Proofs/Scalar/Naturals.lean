import ProceduralTree.Proofs.Scalar.Binary64

/-!
# Natural numbers as binary64 numbers

A natural number with as few digits as the format has places is represented without any rounding:
its digits are moved to the front, and the exponent says by how much.

## Main statements

* `Binary64.roundWithAccuracy_exact` — numbers that are rounded to themselves.
* `Binary64.unpack_ofNat` — the mantissa and the exponent of a natural number.
-/

namespace ProceduralTree.Binary64

open Float.Model Float.Model.UnpackedFloat

/-! ## Rounding that changes nothing -/

theorem log2_mul_two_pow {m : Nat} (hm : m ≠ 0) (n : Nat) : (m * 2 ^ n).log2 = m.log2 + n := by
  have hdiv : m * 2 ^ n / 2 ^ n = m := Nat.mul_div_cancel m (Nat.two_pow_pos n)
  have hlog := log2_div_two_pow (m * 2 ^ n) n
  have hle := le_log2_of_div_ne_zero (hdiv.symm ▸ hm)
  rw [hdiv] at hlog
  omega

/-- Nothing but zeros is dropped of a number with as many other digits as there are places. -/
theorem roundWithAccuracy_exact {m : Nat} (hlog : m.log2 = 52) {e : Int} (he : -1074 ≤ e)
    (h : 0 < m) (n : Nat) :
    roundWithAccuracy format .positive (m * 2 ^ n) (e - n) .exact = .finite .positive m e h := by
  obtain ⟨r, n', k, hr, hround⟩ := exists_roundsTo .positive (m * 2 ^ n) (e - n) .exact
  have hlog' := log2_mul_two_pow h.ne' n
  have hn := hr.dropped
  obtain rfl : n' = n := by omega
  obtain rfl : r = m := hr.eq_of_exact rfl rfl
  have hk := hr.carried
  obtain rfl : k = 0 := by omega
  rw [Nat.pow_zero, Nat.div_one] at hround
  obtain ⟨hzero, -⟩ | ⟨hpos, hround⟩ := hround
  · exact absurd hzero h.ne'
  · have hexponent : e - n' + n' + (0 : Nat) = e := by omega
    rw [hround]
    simp only [hexponent]

/-! ## Natural numbers -/

theorem log2_le_of_lt_two_pow {n : Nat} (h : 0 < n) (hn : n < 2 ^ 53) : n.log2 ≤ 52 :=
  Nat.le_of_lt_succ ((Nat.log2_lt h.ne').2 hn)

/-- The digits of a natural number fill all places once they are moved to the front. -/
theorem log2_mul_two_pow_sub {n : Nat} (h : 0 < n) (hn : n < 2 ^ 53) :
    (n * 2 ^ (52 - n.log2)).log2 = 52 := by
  have hlog := log2_le_of_lt_two_pow h hn
  rw [log2_mul_two_pow h.ne']
  omega

theorem ofNat_eq_finite {n : Nat} (h : 0 < n) (hn : n < 2 ^ 53)
    (hpos : 0 < n * 2 ^ (52 - n.log2)) : UnpackedFloat.ofNat format n =
      .finite .positive (n * 2 ^ (52 - n.log2)) (n.log2 - 52) hpos := by
  have hlog := log2_le_of_lt_two_pow h hn
  have hdigits := log2_mul_two_pow_sub h hn
  have htarget : (0 - format.targetExponent (totalExponent n 0)).toNat = 52 - n.log2 := by
    change (0 - max ((n.log2 : Int) + 1 + 0 - 53) (-1074)).toNat = _
    omega
  have hexponent : (0 : Int) - (52 - n.log2 : Nat) = n.log2 - 52 := by omega
  have hround := roundWithAccuracy_exact hdigits (e := n.log2 - 52) (by omega) hpos 0
  rw [Nat.pow_zero, Nat.mul_one, Nat.cast_zero, sub_zero] at hround
  unfold UnpackedFloat.ofNat UnpackedFloat.ofInt UnpackedFloat.normalize
  rw [Int.compare_eq_gt.2 (Int.natCast_pos.2 h)]
  unfold UnpackedFloat.round decreaseExponent
  simp only [Int.toNat_natCast, htarget, Nat.shiftLeft_eq, hexponent]
  exact hround

theorem unpack_ofNat_eq_mul {n : Nat} (hn : n < 2 ^ 53) : (Float.ofNat n).toModel.unpack =
    (pack (UnpackedFloat.mul format (pack (UnpackedFloat.ofNat format n)).unpack
      (.finite .positive (2 ^ 52) (-52) (by decide)))).unpack := by
  have hfast : Float.ofNat n = n.toUInt64.toFloat * Float.exactlyRepresentablePowersOfTen[0] := by
    unfold Float.ofNat
    exact dif_pos ⟨hn, by decide⟩
  have hone : Float.exactlyRepresentablePowersOfTen[0].toModel.unpack =
      .finite .positive (2 ^ 52) (-52) (by decide) := rfl
  have hword : n.toUInt64.toNat = n := UInt64.toNat_ofNat_of_lt' (hn.trans (by decide))
  rw [hfast, unpack_mul, unpack_toFloat, hone, hword]

theorem unpack_ofNat_zero : (Float.ofNat 0).toModel.unpack = .zero .positive := rfl

theorem unpack_ofNat {n : Nat} (h : 0 < n) (hn : n < 2 ^ 53)
    (hpos : 0 < n * 2 ^ (52 - n.log2)) : (Float.ofNat n).toModel.unpack =
      .finite .positive (n * 2 ^ (52 - n.log2)) (n.log2 - 52) hpos := by
  have hlog := log2_le_of_lt_two_pow h hn
  have hdigits := log2_mul_two_pow_sub h hn
  have hpack := unpack_pack_normal .positive hdigits (e := n.log2 - 52) (by omega) (by omega) hpos
  rw [unpack_ofNat_eq_mul hn, ofNat_eq_finite h hn hpos, hpack]
  change (pack (roundWithAccuracy format .positive (n * 2 ^ (52 - n.log2) * 2 ^ 52)
    (n.log2 - 52 - (52 : Nat)) .exact)).unpack = _
  rw [roundWithAccuracy_exact hdigits (by omega) hpos, hpack]

theorem nonneg_unpack_ofNat {n : Nat} (hn : n < 2 ^ 53) :
    Nonneg (Float.ofNat n).toModel.unpack := by
  rcases n.eq_zero_or_pos with rfl | h
  · rw [unpack_ofNat_zero]
    exact .zero _
  · rw [unpack_ofNat h hn (Nat.mul_pos h (Nat.two_pow_pos _))]
    exact .finite _ _ _

end ProceduralTree.Binary64
