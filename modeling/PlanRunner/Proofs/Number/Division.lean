import PlanRunner.Json.Parser
import PlanRunner.Proofs.Number.Normal

/-!
# PlanRunner — division by powers of ten

A decimal with a negative exponent is read by dividing by a power of ten. A quotient is finite whose
divisor is a power of ten that a binary64 number can hold, because such a number is not below eight
and uses all bits of its mantissa.

* `bounded_div` — division by a number that is not below eight;
* `normal_powerOfTen` — powers of ten are such numbers;
* `isFinite_div_powerOfTen` — division by them gives finite numbers.
-/

namespace PlanRunner.Number

open Float.Model (Format UnpackedFloat totalExponent)
open Float.Model.UnpackedFloat
open PlanRunner.Json (powerOfTen)

variable {u v : UnpackedFloat}

-- ---------------------------------------------------------------------------
-- Quotients
-- ---------------------------------------------------------------------------

/-- A divisor that is not below eight leaves room for what rounding adds. -/
theorem bounded_div (hu : Bounded 53 971 u) (hv : Normal (-49) 971 v) :
    Bounded 55 970 (div .binary64 u v) := by
  cases hv with
  | @finite s' m' e' hpos' hfull' hbits' hlow' htop' =>
    cases hu with
    | zero s => exact .zero _
    | @finite s m e hpos hbits htop =>
      have hmin : Format.binary64.minExponent = -1074 := by decide
      have hmantissa : Format.binary64.mantissaBits = 53 := by decide
      have hlog : m.log2 < 53 := log2_lt hbits (by decide)
      have hlog' : m'.log2 = 52 := (Nat.log2_eq_iff (Nat.ne_of_gt hpos')).mpr ⟨hfull', hbits'⟩
      -- the dividend is shifted to have 54 bits more than the divisor, at most
      have hquotient : (divCore .binary64 m e m' e').1 < 2 ^ 54 := by
        have hshift : m.log2 + 1 + (e - e' - min (e - e') (Format.binary64.targetExponent
            (totalExponent m e - totalExponent m' e'))).toNat ≤ 106 := by
          simp only [Format.targetExponent, totalExponent, hmin, hmantissa, hlog']
          omega
        show (m <<< _) / m' < 2 ^ 54
        rw [Nat.shiftLeft_eq, Nat.div_lt_iff_lt_mul hpos']
        calc m * 2 ^ _ < 2 ^ (m.log2 + 1) * 2 ^ _ :=
              Nat.mul_lt_mul_of_pos_right Nat.lt_log2_self (Nat.two_pow_pos _)
          _ ≤ 2 ^ 106 := by
              rw [← Nat.pow_add]
              exact Nat.pow_le_pow_right (by decide) hshift
          _ = 2 ^ 54 * 2 ^ 52 := by decide
          _ ≤ 2 ^ 54 * m' := Nat.mul_le_mul_left _ hfull'
      have hexponent : (divCore .binary64 m e m' e').2.1 ≤ 967 := by
        show min (e - e') _ ≤ 967
        simp only [Format.targetExponent, totalExponent, hmin, hmantissa, hlog']
        omega
      exact bounded_roundWithAccuracy _ _ hquotient (by decide) (by decide) hexponent

-- ---------------------------------------------------------------------------
-- Powers of ten
-- ---------------------------------------------------------------------------

/-- A number with an exponent field between these two is normal, with a bounded exponent. -/
theorem normal_of_exponentField {x : Float} (hlow : 1026 ≤ exponentField x)
    (htop : exponentField x ≤ 2046) : Normal (-49) 971 x.toModel.unpack :=
  @normal_unpack _ _ x.toModel.toBits.toBitVec (Nat.lt_of_lt_of_le (by decide) hlow)
    (Nat.lt_succ_of_le htop) (Int.ofNat_le.mpr hlow) (Int.ofNat_le.mpr htop)

/-- A power that is computed from its digits. -/
theorem normal_ofScientific {k : Nat} (hpos : 1 ≤ k) (hk : k ≤ 307) :
    Normal (-49) 971 (ofScientific .binary64 1 k) := by
  have hlow : 8 ≤ 10 ^ k := Nat.le_trans (by decide) (Nat.pow_le_pow_right (by decide) hpos)
  have hzero : 10 ^ k ≠ 0 := Nat.ne_of_gt (Nat.pow_pos (by decide))
  have hlog : 3 ≤ (10 ^ k).log2 := (Nat.le_log2 hzero).mpr hlow
  have hlog' : (10 ^ k).log2 < 1023 := (Nat.log2_lt hzero).mpr
    (Nat.lt_of_le_of_lt (Nat.pow_le_pow_right (by decide) hk) (by decide +kernel))
  have hexponents : (2 : Int) ^ Format.binary64.exponentBits = 2048 := by decide
  -- a one that is shifted to the left times the power: as many bits as the power and 53 more
  have hfull : 2 ^ (53 + (10 ^ k).log2) ≤ 2 ^ 53 * 10 ^ k := by
    rw [Nat.pow_add]
    exact Nat.mul_le_mul_left _ (Nat.log2_self_le hzero)
  have hbits : 2 ^ 53 * 10 ^ k < 2 ^ (53 + (10 ^ k).log2 + 1) := by
    rw [Nat.add_assoc, Nat.pow_add]
    exact Nat.mul_lt_mul_of_pos_left Nat.lt_log2_self (Nat.two_pow_pos 53)
  have hround := normal_roundWithAccuracy (e := -53 + 0) .positive .exact (by omega) hfull hbits
    (by omega)
  unfold ofScientific
  rw [dif_neg (by decide), hexponents, if_neg (by omega), if_neg (by omega), if_pos (by omega)]
  exact hround.mono (by omega) (by omega)

/-- The powers of ten up to the largest are normal numbers, none of them small. -/
theorem normal_powerOfTen {k : Nat} (hpos : 1 ≤ k) (hk : k ≤ 308) :
    Normal (-49) 971 (powerOfTen k).toModel.unpack := by
  -- what is looked up in a table is checked, and the largest power, where the bound is too coarse
  have hsmall : ∀ k < 23, 1 ≤ k → 1026 ≤ exponentField (powerOfTen k) ∧
      exponentField (powerOfTen k) ≤ 2046 := by decide +kernel
  have hlargest : 1026 ≤ exponentField (powerOfTen 308) ∧
      exponentField (powerOfTen 308) ≤ 2046 := by decide +kernel
  by_cases htable : k < 23
  · exact normal_of_exponentField (hsmall k htable hpos).1 (hsmall k htable hpos).2
  · by_cases hlast : k = 308
    · rw [hlast]
      exact normal_of_exponentField hlargest.1 hlargest.2
    · have hcomputed : powerOfTen k = Float.ofModel (Float.Model.pack (ofScientific .binary64 1 k)) :=
        dif_neg (by omega)
      rw [hcomputed]
      exact normal_unpack_pack (normal_ofScientific hpos (by omega)) (by decide) (by decide)

/-- **Division by a power of ten gives finite numbers.** -/
theorem isFinite_div_powerOfTen {x : Float} (hx : x.isFinite = true) {k : Nat} (hpos : 1 ≤ k)
    (hk : k ≤ 308) : (x / powerOfTen k).isFinite = true :=
  isFinite_of_bounded (bounded_unpack_pack
    (bounded_div (bounded_of_isFinite hx) (normal_powerOfTen hpos hk)) (by decide) (by decide))

end PlanRunner.Number
