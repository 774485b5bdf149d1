import Mathlib
import ProceduralTree.Scalar.Binary64

/-!
# Binary64 numbers taken apart

A binary64 number is computed with as a sign, a mantissa and an exponent. Every operation rounds its
result and packs it into 64 bits, from where the next operation unpacks it. Two things survive all
of that: a result with a positive sign stays one, and the position of its leading digit is moved by
one at most. As long as that position is far below the largest possible one, nothing overflows.

## Main definitions

* `Binary64.RoundsTo` — what rounding does with the digits of a number.
* `Binary64.Nonneg` — unpacked numbers that are neither negative nor undefined.
* `Binary64.Below` — unpacked numbers with a positive sign and a bound on their leading digit.

## Main statements

* `Binary64.exists_roundsTo`, `Binary64.roundWithAccuracy_cases` — what rounding makes of a number.
* `Binary64.unpack_pack_finite` — what packing makes of it.
* `Binary64.unpack_pack_normal`, `Binary64.unpack_pack_subnormal` — the digits that packing keeps.
* `Binary64.nonneg_div` — a finite quotient of numbers that are not negative is not negative.
* `Binary64.below_ofNat`, `Binary64.below_div` — numbers that do not overflow.
-/

namespace ProceduralTree.Binary64

open Float.Model Float.Model.UnpackedFloat

abbrev format : Format := .binary64

/-! ## Leading digits -/

theorem log2_div_two_pow (m n : Nat) : (m / 2 ^ n).log2 = m.log2 - n := by
  rw [Nat.log2_eq_log_two, Nat.log2_eq_log_two, Nat.log_div_base_pow]

theorem log2_shiftLeft_le (m n : Nat) : (m <<< n).log2 ≤ m.log2 + n := by
  have h := log2_div_two_pow (m <<< n) n
  rw [Nat.shiftLeft_eq, Nat.mul_div_cancel _ (Nat.two_pow_pos n)] at h
  rw [Nat.shiftLeft_eq]
  omega

theorem log2_div_le (m n : Nat) : (m / n).log2 ≤ m.log2 := by
  rw [Nat.log2_eq_log_two, Nat.log2_eq_log_two]
  exact Nat.log_mono_right (Nat.div_le_self m n)

theorem le_log2_of_div_ne_zero {m n : Nat} (h : m / 2 ^ n ≠ 0) : n ≤ m.log2 := by
  have hle : 2 ^ n ≤ m := by
    by_contra hlt
    exact h (Nat.div_eq_of_lt (Nat.lt_of_not_le hlt))
  have hpos := Nat.two_pow_pos n
  exact (Nat.le_log2 (by omega)).2 hle

theorem log2_toNat_lt {w : Nat} (hw : 0 < w) (m : BitVec w) : m.toNat.log2 < w := by
  by_cases h : m.toNat = 0
  · simpa [h] using hw
  · exact (Nat.log2_lt h).2 m.isLt

/-- What is left of a number after `n` digits are dropped has at most one digit more than it should,
which is due to rounding. -/
theorem log2_le_of_le_div_add_one {m n r : Nat} (hr : r ≤ m / 2 ^ n + 1) :
    r.log2 ≤ m.log2 + 1 - n := by
  by_cases hn : n ≤ m.log2 + 1
  · have hlt : m / 2 ^ n < 2 ^ (m.log2 + 1 - n) := by
      rw [Nat.div_lt_iff_lt_mul (Nat.two_pow_pos n), ← Nat.pow_add, Nat.sub_add_cancel hn]
      exact Nat.lt_log2_self
    have hlog := Nat.log_mono_right (b := 2) (show r ≤ 2 ^ (m.log2 + 1 - n) by omega)
    rwa [Nat.log_pow (by decide), ← Nat.log2_eq_log_two] at hlog
  · have hlt : m / 2 ^ n = 0 := by
      rw [Nat.div_eq_zero_iff_lt (Nat.two_pow_pos n)]
      calc m < 2 ^ (m.log2 + 1) := Nat.lt_log2_self
        _ ≤ 2 ^ n := Nat.pow_le_pow_right (by decide) (by omega)
    have hlog := Nat.log_mono_right (b := 2) (show r ≤ 1 by omega)
    rw [Nat.log_one_right, ← Nat.log2_eq_log_two] at hlog
    omega

/-! ## Rounding -/

theorem mantissa_shiftRight (em : ExtendedMantissa) (n : Nat) :
    (em >>> n).mantissa = em.mantissa / 2 ^ n := by
  change (n.repeat ExtendedMantissa.shiftRightOne em).mantissa = _
  induction n with
  | zero => simp [Nat.repeat]
  | succ n ih =>
    rw [Nat.repeat, ExtendedMantissa.shiftRightOne, ih, Nat.div_div_eq_div_mul, Nat.pow_succ]

theorem mantissa_ofMantissaAndAccuracy (m : Nat) (accuracy : Accuracy) :
    (ExtendedMantissa.ofMantissaAndAccuracy m accuracy).mantissa = m := by
  rcases accuracy with _ | (_ | _ | _) <;> rfl

theorem mantissa_shiftToExponent (m : Nat) (e : Int) (accuracy : Accuracy) (target : Int) :
    (shiftToExponent m e accuracy target).1.mantissa = m / 2 ^ (target - e).toNat := by
  rw [shiftToExponent, mantissa_shiftRight, mantissa_ofMantissaAndAccuracy]

theorem roundedMantissa_le (em : ExtendedMantissa) : em.roundedMantissa ≤ em.mantissa + 1 := by
  unfold ExtendedMantissa.roundedMantissa
  rcases em.accuracy with _ | (_ | _ | _) <;> simp only [Accuracy.roundToNearestEven] <;> omega

theorem shiftRight_mul_two_pow (m n : Nat) :
    (ExtendedMantissa.mk (m * 2 ^ n) false false >>> n) = ⟨m, false, false⟩ := by
  change n.repeat ExtendedMantissa.shiftRightOne _ = _
  induction n generalizing m with
  | zero => simp [Nat.repeat]
  | succ n ih =>
    rw [Nat.pow_succ', ← Nat.mul_assoc, Nat.repeat, ih]
    simp [ExtendedMantissa.shiftRightOne]

/-- The two steps of rounding: `n` digits are dropped and the rest is rounded to `r`, of which `k`
more digits are dropped if there is one too many. -/
structure RoundsTo (m : Nat) (e : Int) (accuracy : Accuracy) (r n k : Nat) : Prop where
  dropped : n = (max (m.log2 + 1 + e - 53) (-1074) - e).toNat
  carried : k = (max (r.log2 + 1 + (e + n) - 53) (-1074) - (e + n)).toNat
  le_of_lt {bound : Nat} (h : m < bound * 2 ^ n) : r ≤ bound
  eq_of_exact {quotient : Nat} (h : m = quotient * 2 ^ n) (hexact : accuracy = .exact) :
    r = quotient

theorem exists_roundsTo (sign : Sign) (m : Nat) (e : Int) (accuracy : Accuracy) :
    ∃ r n k, RoundsTo m e accuracy r n k ∧
      (r / 2 ^ k = 0 ∧ roundWithAccuracy format sign m e accuracy = .zero sign ∨
        ∃ h, roundWithAccuracy format sign m e accuracy =
          .finite sign (r / 2 ^ k) (e + n + k) h) := by
  let target := format.targetExponent (totalExponent m e)
  let shifted := shiftToExponent m e accuracy target
  let r := shifted.1.roundedMantissa
  let final := shiftToTargetExponent format r shifted.2 .exact
  let n := (target - e).toNat
  let k := (format.targetExponent (totalExponent r (e + n)) - (e + n)).toNat
  have hfinal : final.1.mantissa = r / 2 ^ k := mantissa_shiftToExponent ..
  refine ⟨r, n, k, ⟨rfl, rfl, fun {bound} h => ?_, ?_⟩, ?_⟩
  · have hle : r ≤ m / 2 ^ n + 1 := by
      rw [← mantissa_shiftToExponent m e accuracy]
      exact roundedMantissa_le _
    have hdiv := Nat.div_lt_of_lt_mul (Nat.mul_comm _ _ ▸ h)
    omega
  · intro quotient hm hexact
    change (ExtendedMantissa.ofMantissaAndAccuracy m accuracy >>> n).roundedMantissa = quotient
    rw [hexact, hm]
    change (ExtendedMantissa.mk _ false false >>> n).roundedMantissa = quotient
    rw [shiftRight_mul_two_pow]
    rfl
  · rw [← hfinal]
    by_cases hzero : final.1.mantissa = 0
    · exact .inl ⟨hzero, dif_pos hzero⟩
    · exact .inr ⟨Nat.pos_of_ne_zero hzero, dif_neg hzero⟩

theorem RoundsTo.le_div_add_one {m r n k : Nat} {e : Int} {accuracy : Accuracy}
    (h : RoundsTo m e accuracy r n k) : r ≤ m / 2 ^ n + 1 :=
  h.le_of_lt (Nat.mul_comm _ _ ▸ Nat.lt_mul_div_succ m (Nat.two_pow_pos n))

/-- Rounding keeps the sign and raises the position of the leading digit by at most one. -/
theorem roundWithAccuracy_cases (sign : Sign) (m : Nat) (e : Int) (accuracy : Accuracy) :
    roundWithAccuracy format sign m e accuracy = .zero sign ∨
    ∃ m' e' h, roundWithAccuracy format sign m e accuracy = .finite sign m' e' h ∧
      totalExponent m' e' ≤ max (totalExponent m e + 1) (-1073) := by
  obtain ⟨r, n, k, hr, ⟨-, h⟩ | ⟨hpos, h⟩⟩ := exists_roundsTo sign m e accuracy
  · exact .inl h
  refine .inr ⟨_, _, hpos, h, ?_⟩
  have hn := hr.dropped
  have hlog := log2_le_of_le_div_add_one hr.le_div_add_one
  have hshift := log2_div_two_pow r k
  have hk := le_log2_of_div_ne_zero hpos.ne'
  unfold totalExponent
  omega

/-! ## Packing -/

@[simp] theorem unpack_pack_infinity (sign : Sign) :
    (pack (.infinity sign)).unpack = .infinity sign := by
  cases sign <;> rfl

@[simp] theorem unpack_pack_zero (sign : Sign) : (pack (.zero sign)).unpack = .zero sign := by
  cases sign <;> rfl

@[simp] theorem unpack_pack_notANumber : (pack .notANumber).unpack = .notANumber := rfl

theorem pack_finite (sign : Sign) (m : Nat) (e : Int) (hm : 0 < m) :
    UnpackedFloat.pack format (.finite sign m e hm) =
      if 2048 ≤ (e + 1075).toNat + 1 then packedInfinity format sign
      else if m.log2 = 52 then
        packComponents format sign (.ofNat 11 (e + 1075).toNat) (.ofNat 52 m)
      else packComponents format sign 0#11 (.ofNat 52 m) := by
  have hbiased : e + 1075 = e + 1023 + 52 := by omega
  rw [hbiased]
  unfold UnpackedFloat.pack
  simp only [← Nat.succ_inj (a := m.log2)]
  rfl

/-- Components with the least exponent make a zero or a number with fewer digits than places. -/
theorem unpack_packComponents_zero (sign : Sign) (m : BitVec 52) :
    UnpackedFloat.unpack format (packComponents format sign 0#11 m) = .zero sign ∨
    ∃ h, UnpackedFloat.unpack format (packComponents format sign 0#11 m) =
      .finite sign m.toNat (-1074) h := by
  have hspecial : 0#11 ≠ -1#11 := by decide
  unfold UnpackedFloat.unpack
  simp only [unpackExponent_packComponents, unpackMantissa_packComponents,
    unpackSign_packComponents, Sign.ofBitVec_toBitVec, if_neg hspecial]
  by_cases hm : m = 0#52
  · exact .inl (dif_pos hm)
  · exact .inr ⟨(BitVec.toNat_pos m).2 ((BitVec.pos_iff_ne_zero m).2 hm), dif_neg hm⟩

theorem unpack_packComponents_normal (sign : Sign) {e : BitVec 11} (hzero : e ≠ 0#11)
    (hspecial : e ≠ -1#11) (m : BitVec 52) :
    ∃ h, UnpackedFloat.unpack format (packComponents format sign e m) =
      .finite sign (1#1 ++ m).toNat (e.toNat - 1075) h := by
  unfold UnpackedFloat.unpack
  simp only [unpackExponent_packComponents, unpackMantissa_packComponents,
    unpackSign_packComponents, Sign.ofBitVec_toBitVec, if_neg hspecial]
  have hpos : 0 < (1#1 ++ m).toNat := by
    rw [BitVec.toNat_append]
    exact Nat.lt_of_lt_of_le (by decide : 0 < 2 ^ 52) Nat.left_le_or
  exact ⟨hpos, if_neg hzero⟩

/-- Packing loses nothing of a number with as many digits as there are places. -/
theorem unpack_pack_normal (sign : Sign) {m : Nat} {e : Int} (hlog : m.log2 = 52)
    (hlow : -1074 ≤ e) (hhigh : e ≤ 971) (hm : 0 < m) :
    (pack (.finite sign m e hm)).unpack = .finite sign m e hm := by
  change UnpackedFloat.unpack format (UnpackedFloat.pack format _) = _
  rw [pack_finite, if_neg (by omega), if_pos hlog]
  have hbiased : (BitVec.ofNat 11 (e + 1075).toNat).toNat = (e + 1075).toNat := by
    rw [BitVec.toNat_ofNat]
    omega
  have hzero : BitVec.ofNat 11 (e + 1075).toNat ≠ 0#11 := by
    intro h
    rw [h] at hbiased
    change 0 = _ at hbiased
    omega
  have hspecial : BitVec.ofNat 11 (e + 1075).toNat ≠ -1#11 := by
    intro h
    rw [h] at hbiased
    change 2047 = _ at hbiased
    omega
  have hdigits : (1#1 ++ BitVec.ofNat 52 m).toNat = m := by
    have hle := Nat.log2_self_le hm.ne'
    have hlt := Nat.lt_log2_self (n := m)
    rw [hlog] at hle hlt
    have happend := Nat.shiftLeft_add_eq_or_of_lt (BitVec.ofNat 52 m).isLt 1
    rw [BitVec.toNat_append]
    change 1 <<< 52 ||| _ = m
    rw [← happend, BitVec.toNat_ofNat]
    omega
  obtain ⟨_, hunpack⟩ := unpack_packComponents_normal sign hzero hspecial (.ofNat 52 m)
  rw [hunpack]
  simp only [hdigits, hbiased]
  congr 1
  omega

/-- A number with fewer digits gets the least exponent. -/
theorem unpack_pack_subnormal (sign : Sign) {m : Nat} {e : Int} (hm : 0 < m) (he : e ≤ 971)
    (h : m.log2 = 52 → e < -1074) :
    (pack (.finite sign m e hm)).unpack = .zero sign ∨
    ∃ m' hm', (pack (.finite sign m e hm)).unpack = .finite sign m' (-1074) hm' ∧ m' < 2 ^ 52 := by
  change UnpackedFloat.unpack format (UnpackedFloat.pack format _) = _ ∨
    ∃ m' hm', UnpackedFloat.unpack format (UnpackedFloat.pack format _) = _ ∧ _
  have hpack : UnpackedFloat.pack format (.finite sign m e hm) =
      packComponents format sign 0#11 (.ofNat 52 m) := by
    rw [pack_finite, if_neg (by omega)]
    split_ifs with hlog
    · have hzero : (e + 1075).toNat = 0 := by
        have := h hlog
        omega
      rw [hzero]
    · rfl
  rw [hpack]
  refine (unpack_packComponents_zero sign _).imp_right ?_
  rintro ⟨hm', h⟩
  exact ⟨_, hm', h, (BitVec.ofNat 52 m).isLt⟩

/-- Packing keeps the sign. It makes an infinity of a large number only. -/
theorem unpack_pack_finite (sign : Sign) (m : Nat) (e : Int) (hm : 0 < m) :
    (pack (.finite sign m e hm)).unpack = .infinity sign ∧ 972 ≤ e ∨
    (pack (.finite sign m e hm)).unpack = .zero sign ∨
    ∃ m' e' h, (pack (.finite sign m e hm)).unpack = .finite sign m' e' h ∧
      totalExponent m' e' ≤ max (totalExponent m e) (-1022) := by
  by_cases hlarge : 972 ≤ e
  · refine .inl ⟨?_, hlarge⟩
    have hpack : UnpackedFloat.pack format (.finite sign m e hm) = packedInfinity format sign := by
      rw [pack_finite, if_pos (by omega)]
    change UnpackedFloat.unpack format (UnpackedFloat.pack format _) = _
    rw [hpack]
    exact unpack_pack_infinity sign
  by_cases hnormal : m.log2 = 52 ∧ -1074 ≤ e
  · refine .inr (.inr ⟨m, e, hm, unpack_pack_normal sign hnormal.1 hnormal.2 (by omega) hm, ?_⟩)
    exact Int.le_max_left _ _
  · refine .inr ((unpack_pack_subnormal sign hm (by omega) (by omega)).imp_right ?_)
    rintro ⟨m', hm', h, hlt⟩
    refine ⟨m', -1074, hm', h, ?_⟩
    have hlog := (Nat.log2_lt hm'.ne').2 hlt
    unfold totalExponent
    omega

/-! ## Numbers that are not negative -/

/-- Neither negative nor undefined. -/
inductive Nonneg : UnpackedFloat → Prop
  | zero (sign : Sign) : Nonneg (.zero sign)
  | finite (m : Nat) (e : Int) (h : 0 < m) : Nonneg (.finite .positive m e h)
  | infinity : Nonneg (.infinity .positive)

theorem nonneg_unpack_pack {u : UnpackedFloat} (h : Nonneg u) : Nonneg (pack u).unpack := by
  cases h with
  | zero sign =>
    rw [unpack_pack_zero]
    exact .zero sign
  | finite m e hm =>
    obtain ⟨h, -⟩ | h | ⟨m', e', hm', h, -⟩ := unpack_pack_finite .positive m e hm <;> rw [h]
    · exact .infinity
    · exact .zero _
    · exact .finite m' e' hm'
  | infinity =>
    rw [unpack_pack_infinity]
    exact .infinity

theorem nonneg_roundWithAccuracy (m : Nat) (e : Int) (accuracy : Accuracy) :
    Nonneg (roundWithAccuracy format .positive m e accuracy) := by
  obtain h | ⟨m', e', hm', h, -⟩ := roundWithAccuracy_cases .positive m e accuracy <;> rw [h]
  · exact .zero _
  · exact .finite m' e' hm'

theorem isFinite_of_isFinite_pack {u : UnpackedFloat} (h : (pack u).isFinite = true) :
    u.isFinite = true := by
  unfold Float.Model.isFinite at h
  cases u with
  | infinity sign => rwa [unpack_pack_infinity] at h
  | notANumber => rwa [unpack_pack_notANumber] at h
  | zero sign => rfl
  | finite sign m e hm => rfl

/-- A quotient of numbers that are not negative is not negative, unless it is infinite or
undefined. -/
theorem nonneg_div {u v : UnpackedFloat} (hu : Nonneg u) (hv : Nonneg v)
    (h : (UnpackedFloat.div format u v).isFinite = true) :
    Nonneg (UnpackedFloat.div format u v) := by
  cases hu with
  | zero sign =>
    cases hv with
    | zero sign' => exact (Bool.false_ne_true h).elim
    | finite => exact .zero _
    | infinity => exact .zero _
  | finite =>
    cases hv with
    | zero sign' => cases sign' <;> exact (Bool.false_ne_true h).elim
    | finite => exact nonneg_roundWithAccuracy ..
    | infinity => exact .zero _
  | infinity =>
    cases hv with
    | zero sign' => cases sign' <;> exact (Bool.false_ne_true h).elim
    | finite => exact .infinity
    | infinity => exact (Bool.false_ne_true h).elim

/-! ## Numbers that do not overflow -/

/-- A positive zero, or a positive number below `2 ^ k`. -/
inductive Below (k : Int) : UnpackedFloat → Prop
  | zero : Below k (.zero .positive)
  | finite {m : Nat} {e : Int} {hm : 0 < m} (h : totalExponent m e ≤ k) :
    Below k (.finite .positive m e hm)

variable {k : Int}

theorem below_unpack_pack {u : UnpackedFloat} (hmin : -1022 ≤ k) (hmax : k ≤ 972)
    (h : Below k u) : Below k (pack u).unpack := by
  cases h with
  | zero =>
    rw [unpack_pack_zero]
    exact .zero
  | @finite m e hm hlog =>
    obtain ⟨-, he⟩ | h | ⟨m', e', hm', h, htotal⟩ := unpack_pack_finite .positive m e hm
    · unfold totalExponent at hlog
      omega
    · rw [h]
      exact .zero
    · rw [h]
      exact .finite (by omega)

theorem below_roundWithAccuracy {m : Nat} {e : Int} (hk : -1073 ≤ k) (accuracy : Accuracy)
    (h : totalExponent m e < k) : Below k (roundWithAccuracy format .positive m e accuracy) := by
  obtain h' | ⟨m', e', hm', h', htotal⟩ := roundWithAccuracy_cases .positive m e accuracy
  · rw [h']
    exact .zero
  · rw [h']
    exact .finite (by omega)

theorem below_ofNat {n : Nat} (hk : 0 ≤ k) (h : (n.log2 : Int) + 1 < k) :
    Below k (UnpackedFloat.ofNat format n) := by
  unfold UnpackedFloat.ofNat UnpackedFloat.ofInt UnpackedFloat.normalize
  cases hn : compare (n : Int) 0 with
  | lt =>
    have := Int.compare_eq_lt.1 hn
    omega
  | eq => exact .zero
  | gt =>
    unfold UnpackedFloat.round
    simp only [decreaseExponent, Int.toNat_natCast]
    apply below_roundWithAccuracy (by omega)
    have hlog := log2_shiftLeft_le n (0 - format.targetExponent (totalExponent n 0)).toNat
    unfold totalExponent at *
    omega

/-- A quotient by a natural number. -/
theorem below_div {m₁ m₂ : Nat} {e₁ : Int} (hk : -1073 ≤ k) (hm₁ : 0 < m₁) (hm₂ : 0 < m₂)
    (h : totalExponent m₁ e₁ < k) :
    Below k (UnpackedFloat.div format (.finite .positive m₁ e₁ hm₁)
      (.finite .positive m₂ 0 hm₂)) := by
  let target := min (e₁ - 0)
    (format.targetExponent (totalExponent m₁ e₁ - totalExponent m₂ 0))
  let n := (e₁ - 0 - target).toNat
  change Below k (roundWithAccuracy format .positive (m₁ <<< n / m₂) target _)
  apply below_roundWithAccuracy hk
  have htarget : target ≤ e₁ := by
    change min (e₁ - 0) _ ≤ e₁
    omega
  have hquotient := log2_div_le (m₁ <<< n) m₂
  have hshift := log2_shiftLeft_le m₁ n
  have hn : n = (e₁ - 0 - target).toNat := rfl
  unfold totalExponent at *
  omega

theorem mul_zero {u : UnpackedFloat} (h : Below k u) (sign : Sign) :
    UnpackedFloat.mul format u (.zero sign) = .zero sign := by
  cases h <;> cases sign <;> rfl

/-! ## Floats -/

theorem unpack_div (a b : Float) : (a / b).toModel.unpack =
    (pack (UnpackedFloat.div format a.toModel.unpack b.toModel.unpack)).unpack := rfl

theorem unpack_sub (a b : Float) : (a - b).toModel.unpack =
    (pack (UnpackedFloat.sub format a.toModel.unpack b.toModel.unpack)).unpack := rfl

theorem unpack_add (a b : Float) : (a + b).toModel.unpack =
    (pack (UnpackedFloat.add format a.toModel.unpack b.toModel.unpack)).unpack := rfl

theorem unpack_mul (a b : Float) : (a * b).toModel.unpack =
    (pack (UnpackedFloat.mul format a.toModel.unpack b.toModel.unpack)).unpack := rfl

theorem unpack_toFloat (n : UInt64) : n.toFloat.toModel.unpack =
    (pack (UnpackedFloat.ofNat format n.toNat)).unpack := rfl

theorem unpack_zero : (0 : Float).toModel.unpack = .zero .positive := rfl

theorem unpack_one : (1 : Float).toModel.unpack = .finite .positive (2 ^ 52) (-52) (by decide) :=
  rfl

theorem le_iff (a b : Float) : a ≤ b ↔ a.toModel.unpack.le b.toModel.unpack = true :=
  decide_eq_true_iff

theorem lt_iff (a b : Float) : a < b ↔ a.toModel.unpack.lt b.toModel.unpack = true :=
  decide_eq_true_iff

theorem lt_irrefl (a : Float) : ¬a < a := by
  rw [lt_iff]
  rcases a.toModel.unpack with (_ | _) | _ | sign | ⟨_ | _, m, e, hm⟩ <;>
    simp [UnpackedFloat.lt, UnpackedFloat.compare]

theorem zero_le_iff (a : Float) : 0 ≤ a ↔ Nonneg a.toModel.unpack := by
  rw [le_iff, unpack_zero]
  rcases a.toModel.unpack with (_ | _) | _ | sign | ⟨_ | _, m, e, hm⟩
  · exact ⟨nofun, nofun⟩
  · exact ⟨fun _ => .infinity, fun _ => rfl⟩
  · exact ⟨nofun, nofun⟩
  · exact ⟨fun _ => .zero sign, fun _ => rfl⟩
  · exact ⟨nofun, nofun⟩
  · exact ⟨fun _ => .finite m e hm, fun _ => rfl⟩

theorem exists_unpack_eq_zero {a : Float} (hlow : 0 ≤ a) (hhigh : a ≤ 0) :
    ∃ sign, a.toModel.unpack = .zero sign := by
  rw [zero_le_iff] at hlow
  rw [le_iff, unpack_zero] at hhigh
  generalize a.toModel.unpack = u at hlow hhigh
  cases hlow with
  | zero sign => exact ⟨sign, rfl⟩
  | finite => exact absurd hhigh nofun
  | infinity => exact absurd hhigh nofun

/-- A finite number is not negative if it is not below zero. -/
theorem zero_le_of_not_lt {a : Float} (hfinite : a.isFinite) (h : ¬a < 0) : 0 ≤ a := by
  rw [zero_le_iff]
  rw [lt_iff, unpack_zero] at h
  change a.toModel.unpack.isFinite = true at hfinite
  rcases hu : a.toModel.unpack with _ | _ | sign | ⟨_ | _, m, e, hm⟩ <;> rw [hu] at h hfinite
  · exact (Bool.false_ne_true hfinite).elim
  · exact (Bool.false_ne_true hfinite).elim
  · exact .zero sign
  · exact absurd rfl h
  · exact .finite m e hm

end ProceduralTree.Binary64
