import ProceduralTree.Mesh.Tube
import ProceduralTree.Proofs.Scalar.Binary64

/-!
# Numbers that decay

A finite number that is not negative stays one when it is multiplied by a factor between zero and
one: the exact product is no greater than the number, and rounding does not carry it beyond the
greatest finite number.

## Main statements

* `Binary64.exponent_roundWithAccuracy_le` — numbers that rounding keeps finite.
* `Binary64.isRadius_mul` — decay of a radius.
* `Binary64.isRadius_of_le` — numbers between a radius and a finite number.
-/

namespace ProceduralTree.Binary64

open Float.Model Float.Model.UnpackedFloat

/-! ## Rounding below a bound -/

/-- A number below the greatest finite one is not rounded beyond it. -/
theorem exponent_roundWithAccuracy_le {sign : Sign} {m m' : Nat} {e e' : Int} {h : 0 < m'}
    (he : e ≤ 971) (hm : m ≤ (2 ^ 53 - 1) * 2 ^ (971 - e).toNat)
    (hround : roundWithAccuracy format sign m e .exact = .finite sign m' e' h) : e' ≤ 971 := by
  obtain ⟨r, n, k, hr, ⟨-, hzero⟩ | ⟨hpos, hfinite⟩⟩ := exists_roundsTo sign m e .exact
  · cases hround.symm.trans hzero
  cases hround.symm.trans hfinite
  have hn := hr.dropped
  have hk := hr.carried
  have hm_log : m.log2 < 53 + (971 - e).toNat := by
    by_cases hzero : m = 0
    · rw [hzero, Nat.log2_zero]
      omega
    · rw [Nat.log2_lt hzero, Nat.pow_add]
      exact Nat.lt_of_le_of_lt hm (Nat.mul_lt_mul_of_pos_right (by decide) (Nat.two_pow_pos _))
  have hr_log := log2_le_of_le_div_add_one hr.le_div_add_one
  by_cases htop : e + n = 971
  · -- As many digits as there are places are rounded here.
    have hle : r ≤ 2 ^ 53 - 1 := by
      have hdigits : (971 - e).toNat = n := by omega
      rw [hdigits] at hm
      exact hm.lt_or_eq.elim hr.le_of_lt fun heq => (hr.eq_of_exact heq rfl).le
    have hlog := Nat.log_mono_right (b := 2) hle
    rw [← Nat.log2_eq_log_two] at hlog
    have : Nat.log 2 (2 ^ 53 - 1) = 52 := by decide +kernel
    omega
  · omega

/-! ## Products with factors up to one -/

/-- The digits of a number fit into the format. -/
theorem of_unpack_eq_finite {a : Float.Model} {sign : Sign} {m : Nat} {e : Int} {h : 0 < m}
    (ha : a.unpack = .finite sign m e h) : m < 2 ^ 53 ∧ e ≤ 971 := by
  obtain ⟨⟨b⟩, valid⟩ := a
  change UnpackedFloat.unpack format b = _ at ha
  have hm := (@unpackMantissa format b).isLt
  have he := (@unpackExponent format b).isLt
  unfold UnpackedFloat.unpack at ha
  simp only at ha
  split_ifs at ha with hspecial hmantissa hzero hmantissa
  · cases ha
    rw [hzero]
    exact ⟨Nat.lt_trans hm (by decide), by decide⟩
  · cases ha
    refine ⟨(1#1 ++ @unpackMantissa format b).isLt, ?_⟩
    have hne : (@unpackExponent format b).toNat ≠ 2047 :=
      fun h => hspecial (BitVec.eq_of_toNat_eq h)
    change (@unpackExponent format b).toNat < 2048 at he
    change ((@unpackExponent format b).toNat : Int) - 1075 ≤ 971
    omega

theorem le_unpack_one_iff {m : Nat} {e : Int} {h : 0 < m} :
    UnpackedFloat.le (.finite .positive m e h) (1 : Float).toModel.unpack = true ↔
      e < -52 ∨ e = -52 ∧ m ≤ 2 ^ 52 := by
  rw [unpack_one]
  change ((compare e (-52)).then (compare m (2 ^ 52))).isLE = true ↔ _
  rw [Ordering.isLE_then_iff_or, Int.compare_eq_lt, Int.compare_eq_eq, Nat.isLE_compare]

/-- A number up to one. -/
theorem le_two_pow_of_le_one {m : Nat} {e : Int} {h : 0 < m} (hm : m < 2 ^ 53)
    (hle : UnpackedFloat.le (.finite .positive m e h) (1 : Float).toModel.unpack = true) :
    e ≤ -52 ∧ m ≤ 2 ^ (-e).toNat := by
  obtain he | ⟨rfl, hm'⟩ := le_unpack_one_iff.1 hle
  · refine ⟨by omega, hm.le.trans (Nat.pow_le_pow_right two_pos (by omega))⟩
  · exact ⟨le_rfl, hm'⟩

/-- Neither negative nor too large for the format. -/
inductive Fits : UnpackedFloat → Prop
  | zero (sign : Sign) : Fits (.zero sign)
  | finite {m : Nat} {e : Int} {h : 0 < m} (he : e ≤ 971) : Fits (.finite .positive m e h)

theorem fits_unpack_pack {u : UnpackedFloat} (h : Fits u) : Fits (pack u).unpack := by
  cases h with
  | zero sign =>
    rw [unpack_pack_zero]
    exact .zero sign
  | @finite m e h he =>
    obtain ⟨-, hlarge⟩ | hpack | ⟨m', e', h', hpack, -⟩ := unpack_pack_finite .positive m e h
    · omega
    · rw [hpack]
      exact .zero _
    · rw [hpack]
      exact .finite (of_unpack_eq_finite hpack).2

theorem isRadius_iff {a : Float} : Tube.IsRadius a ↔ a.isFinite ∧ 0 ≤ a := by
  change (a.isFinite ∧ ¬a < (0 : Float)) ↔ _
  refine and_congr_right fun hfinite => ⟨zero_le_of_not_lt hfinite, fun h => ?_⟩
  rw [lt_iff, unpack_zero]
  rw [zero_le_iff] at h
  generalize a.toModel.unpack = u at h
  cases h <;> exact nofun

theorem isRadius_iff_fits {a : Float} : Tube.IsRadius a ↔ Fits a.toModel.unpack := by
  have hfits := @of_unpack_eq_finite a.toModel
  rw [isRadius_iff, zero_le_iff]
  change a.toModel.unpack.isFinite = true ∧ _ ↔ _
  generalize a.toModel.unpack = u at *
  constructor
  · rintro ⟨hfinite, hnonneg⟩
    cases hnonneg with
    | zero sign => exact .zero sign
    | finite m e h => exact .finite (hfits rfl).2
    | infinity => exact (Bool.false_ne_true hfinite).elim
  · intro h
    cases h with
    | zero sign => exact ⟨rfl, .zero sign⟩
    | finite => exact ⟨rfl, .finite _ _ _⟩

/-- A finite number that is not negative stays one if a factor between zero and one shrinks it. -/
theorem isRadius_mul {r d : Float} (hr : Tube.IsRadius r) (hd₀ : 0 ≤ d) (hd₁ : d ≤ 1) :
    Tube.IsRadius (r * d) := by
  rw [isRadius_iff_fits] at hr ⊢
  rw [zero_le_iff] at hd₀
  rw [le_iff] at hd₁
  rw [unpack_mul]
  apply fits_unpack_pack
  have hr_digits := @of_unpack_eq_finite r.toModel
  have hd_digits := @of_unpack_eq_finite d.toModel
  generalize r.toModel.unpack = u at *
  generalize d.toModel.unpack = v at *
  cases hd₀ with
  | infinity => exact absurd hd₁ nofun
  | zero sign => cases hr <;> exact .zero _
  | finite m₂ e₂ h₂ =>
    cases hr with
    | zero sign => exact .zero _
    | @finite m₁ e₁ h₁ he₁ =>
      obtain ⟨he₂, hm₂⟩ := le_two_pow_of_le_one (hd_digits rfl).1 hd₁
      have hm₁ := (hr_digits rfl).1
      change Fits (roundWithAccuracy format .positive (m₁ * m₂) (e₁ + e₂) .exact)
      obtain hround | ⟨m, e, h, hround, -⟩ :=
        roundWithAccuracy_cases .positive (m₁ * m₂) (e₁ + e₂) .exact
      · rw [hround]
        exact .zero _
      rw [hround]
      refine .finite (exponent_roundWithAccuracy_le (by omega) ?_ hround)
      calc m₁ * m₂ ≤ (2 ^ 53 - 1) * 2 ^ (-e₂).toNat := Nat.mul_le_mul (by omega) hm₂
        _ ≤ (2 ^ 53 - 1) * 2 ^ (971 - (e₁ + e₂)).toNat :=
          Nat.mul_le_mul_left _ (Nat.pow_le_pow_right two_pos (by omega))

/-! ## Order -/

theorem nonneg_of_le {u v : UnpackedFloat} (hu : Nonneg u) (h : u.le v = true) : Nonneg v := by
  rcases v with (_ | _) | _ | sign | ⟨_ | _, m, e, hm⟩
  · cases hu <;> exact absurd h nofun
  · exact .infinity
  · cases hu <;> exact absurd h nofun
  · exact .zero sign
  · cases hu <;> exact absurd h nofun
  · exact .finite m e hm

theorem zero_le_of_le {a b : Float} (ha : 0 ≤ a) (h : a ≤ b) : 0 ≤ b := by
  rw [zero_le_iff] at ha ⊢
  exact nonneg_of_le ha ((le_iff a b).1 h)

theorem le_trans_of_zero_le {a b c : Float} (ha : 0 ≤ a) (hab : a ≤ b) (hbc : b ≤ c) : a ≤ c := by
  have hb := zero_le_of_le ha hab
  have hc := zero_le_of_le hb hbc
  rw [zero_le_iff] at ha hb hc
  rw [le_iff] at hab hbc ⊢
  generalize a.toModel.unpack = u at *
  generalize b.toModel.unpack = v at *
  generalize c.toModel.unpack = w at *
  cases ha with
  | zero => cases hc <;> rfl
  | infinity => cases hb <;> first | exact hbc | exact absurd hab nofun
  | finite m e h =>
    cases hb with
    | zero => exact absurd hab nofun
    | infinity => cases hc <;> first | rfl | exact absurd hbc nofun
    | finite m' e' h' =>
      cases hc with
      | zero => exact absurd hbc nofun
      | infinity => rfl
      | finite m'' e'' h'' =>
        change ((compare e e').then (compare m m')).isLE = true at hab
        change ((compare e' e'').then (compare m' m'')).isLE = true at hbc
        change ((compare e e'').then (compare m m'')).isLE = true
        rw [Ordering.isLE_then_iff_or, Int.compare_eq_lt, Int.compare_eq_eq, Nat.isLE_compare] at *
        omega

theorem isFinite_of_le {a b : Float} (ha : 0 ≤ a) (h : a ≤ b) (hb : b.isFinite) : a.isFinite := by
  rw [zero_le_iff] at ha
  rw [le_iff] at h
  change b.toModel.unpack.isFinite = true at hb
  change a.toModel.unpack.isFinite = true
  generalize a.toModel.unpack = u at *
  generalize b.toModel.unpack = v at *
  cases ha with
  | zero | finite => rfl
  | infinity =>
    cases nonneg_of_le .infinity h with
    | zero | finite => exact absurd h nofun
    | infinity => exact absurd hb nofun

/-- Numbers between a radius and a finite number. -/
theorem isRadius_of_le {low a high : Float} (hlow : 0 ≤ low) (hle : low ≤ a) (hge : a ≤ high)
    (hhigh : high.isFinite) : Tube.IsRadius a :=
  have ha := zero_le_of_le hlow hle
  isRadius_iff.2 ⟨isFinite_of_le ha hge hhigh, ha⟩

end ProceduralTree.Binary64
