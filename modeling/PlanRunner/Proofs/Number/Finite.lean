import Mathlib.Algebra.Group.Int.Defs
import Mathlib.Algebra.Group.Nat.Defs

/-!
# PlanRunner — finite numbers

The result of an operation is rounded to a binary64 number, and is an infinity if it is too large for
one. Roundings are followed here through the parts of a number, with a bound on the mantissa and one
on the exponent; the bounds are generous, because there is much room.

* `Bounded` — a number that is zero, or finite with a bounded mantissa and exponent;
* `bounded_roundWithAccuracy`, `bounded_unpack_pack` — what rounding and storing keep of it;
* `bounded_of_isFinite`, `isFinite_of_bounded` — the finite numbers are those that are bounded.
-/

namespace PlanRunner.Number

open Float.Model (Format UnpackedFloat totalExponent)
open Float.Model.UnpackedFloat

/-- Zero, or a finite number with a mantissa of some bits and an exponent that is not above
`top`. -/
inductive Bounded (bits : Nat) (top : Int) : UnpackedFloat → Prop where
  | zero (s : Sign) : Bounded bits top (.zero s)
  | finite (s : Sign) {m : Nat} {e : Int} (hpos : 0 < m) (hbits : m < 2 ^ bits) (htop : e ≤ top) :
      Bounded bits top (.finite s m e hpos)

variable {bits : Nat} {top : Int} {u : UnpackedFloat}

/-- A number within bounds is finite. -/
theorem Bounded.isFinite (h : Bounded bits top u) : u.isFinite = true := by
  cases h with
  | zero s => rfl
  | finite s hpos hbits htop => rfl

/-- The bounds do not look at the sign. -/
theorem Bounded.neg (h : Bounded bits top u) : Bounded bits top u.neg := by
  cases h with
  | zero s => exact .zero _
  | finite s hpos hm he => exact .finite _ hpos hm he

/-- A mantissa that may be zero makes a number. -/
theorem Bounded.ofMantissa {m : Nat} {e : Int} (s : Sign) (hbits : m < 2 ^ bits) (htop : e ≤ top) :
    Bounded bits top (if h : m = 0 then .zero s else .finite s m e (Nat.pos_of_ne_zero h)) := by
  by_cases hm : m = 0
  · rw [dif_pos hm]
    exact .zero s
  · rw [dif_neg hm]
    exact .finite s _ hbits htop

-- ---------------------------------------------------------------------------
-- Rounding
-- ---------------------------------------------------------------------------

theorem mantissa_shiftRight (em : ExtendedMantissa) (n : Nat) :
    (em >>> n).mantissa = em.mantissa / 2 ^ n := by
  induction n with
  | zero => exact (Nat.div_one _).symm
  | succ n ih =>
    have hstep : (em >>> (n + 1)).mantissa = (em >>> n).mantissa / 2 := rfl
    rw [hstep, ih, Nat.div_div_eq_div_mul, Nat.pow_succ]

theorem mantissa_ofMantissaAndAccuracy (m : Nat) (accuracy : Accuracy) :
    (ExtendedMantissa.ofMantissaAndAccuracy m accuracy).mantissa = m := by
  cases accuracy with
  | exact => rfl
  | inexact order => cases order <;> rfl

/-- Shifting divides the mantissa by a power of two. -/
theorem mantissa_shifted (m k : Nat) (accuracy : Accuracy) :
    (ExtendedMantissa.ofMantissaAndAccuracy m accuracy >>> k).mantissa = m / 2 ^ k := by
  rw [mantissa_shiftRight, mantissa_ofMantissaAndAccuracy]

/-- So does the shift to the exponent of the format. -/
theorem mantissa_shiftToTargetExponent (m : Nat) (e : Int) (accuracy : Accuracy) :
    (shiftToTargetExponent .binary64 m e accuracy).1.mantissa =
      m / 2 ^ (Format.binary64.targetExponent (totalExponent m e) - e).toNat := by
  rw [shiftToTargetExponent, shiftToExponent, mantissa_shifted]

/-- Rounding adds one at most, and takes nothing away. -/
theorem roundedMantissa_bounds (em : ExtendedMantissa) :
    em.mantissa ≤ em.roundedMantissa ∧ em.roundedMantissa ≤ em.mantissa + 1 := by
  unfold ExtendedMantissa.roundedMantissa
  cases em.accuracy with
  | exact => exact ⟨Nat.le_refl _, Nat.le_succ _⟩
  | inexact order =>
    cases order with
    | lt => exact ⟨Nat.le_refl _, Nat.le_succ _⟩
    -- a tie goes to the even neighbour
    | eq =>
      have := Nat.mod_lt em.mantissa (show 0 < 2 by decide)
      show em.mantissa ≤ em.mantissa + em.mantissa % 2 ∧
        em.mantissa + em.mantissa % 2 ≤ em.mantissa + 1
      omega
    | gt => exact ⟨Nat.le_succ _, Nat.le_refl _⟩

/-- The bits of a number bound its logarithm. -/
theorem log2_lt {m : Nat} (hm : m < 2 ^ bits) (hbits : 0 < bits) : m.log2 < bits := by
  by_cases hzero : m = 0
  · rw [hzero]
    exact hbits
  · exact (Nat.log2_lt hzero).mpr hm

/-- A shift to the exponent that is wanted makes the mantissa no larger, and the exponent larger by
the bits that are too many. -/
theorem shiftToTargetExponent_bounds {m : Nat} {e : Int} (accuracy : Accuracy) (hm : m < 2 ^ bits)
    (hbits : 53 ≤ bits) (hlow : -1074 ≤ top) (htop : e ≤ top) :
    (shiftToTargetExponent .binary64 m e accuracy).1.mantissa ≤ m ∧
      (shiftToTargetExponent .binary64 m e accuracy).2 ≤ top + (bits - 53 : Nat) := by
  have hlog : m.log2 < bits := log2_lt hm (by omega)
  constructor
  · rw [mantissa_shiftToTargetExponent]
    exact Nat.div_le_self _ _
  · have hmin : Format.binary64.minExponent = -1074 := by decide
    have hmantissa : Format.binary64.mantissaBits = 53 := by decide
    simp only [shiftToTargetExponent, shiftToExponent, Format.targetExponent, totalExponent, hmin,
      hmantissa]
    omega

/-- A rounded number has a bit more at most, and an exponent that is as much higher. -/
theorem bounded_roundWithAccuracy {m : Nat} {e : Int} (s : Sign) (accuracy : Accuracy)
    (hm : m < 2 ^ bits) (hbits : 53 ≤ bits) (hlow : -1074 ≤ top) (htop : e ≤ top) :
    Bounded (bits + 1) (top + (2 * bits - 105 : Nat))
      (roundWithAccuracy .binary64 s m e accuracy) := by
  obtain ⟨hmantissa, hexponent⟩ := shiftToTargetExponent_bounds accuracy hm hbits hlow htop
  have hrounded := roundedMantissa_bounds (shiftToTargetExponent .binary64 m e accuracy).1
  have hpow : 2 ^ (bits + 1) = 2 * 2 ^ bits := Nat.pow_succ'
  have hone : 0 < 2 ^ bits := Nat.two_pow_pos bits
  -- rounding up may need one bit more, and so a second shift
  have hbits' : (shiftToTargetExponent .binary64 m e accuracy).1.roundedMantissa < 2 ^ (bits + 1) := by
    omega
  obtain ⟨hmantissa', hexponent'⟩ := shiftToTargetExponent_bounds .exact hbits' (by omega) (by omega)
    hexponent
  exact .ofMantissa s (Nat.lt_of_le_of_lt hmantissa' hbits') (Int.le_trans hexponent' (by omega))

-- ---------------------------------------------------------------------------
-- Storing
-- ---------------------------------------------------------------------------

/-- A number is finite whose exponent field is not all ones. -/
theorem bounded_unpack {b : BitVec Format.binary64.numBits}
    (h : (unpackExponent b : BitVec 11).toNat ≠ 2047) (hlow : -1074 ≤ top)
    (htop : ((unpackExponent b : BitVec 11).toNat : Int) ≤ top + 1075) :
    Bounded 53 top (unpack .binary64 b) := by
  have hbias : (Format.binary64.exponentBias : Int) + (52 : Nat) = 1075 := by decide
  have hones : (unpackExponent b : BitVec 11) ≠ -1#11 := by
    intro hones
    exact h (by rw [hones]; rfl)
  unfold unpack
  dsimp only
  rw [if_neg hones]
  -- subnormal numbers and zero have the exponent field zero
  by_cases hzero : (unpackExponent b : BitVec 11) = 0#11
  · rw [if_pos hzero]
    by_cases hmantissa : (unpackMantissa b : BitVec 52) = 0#52
    · rw [dif_pos hmantissa]
      exact .zero _
    · rw [dif_neg hmantissa]
      have hexponent : ((unpackExponent b : BitVec 11).toNat : Int) = 0 := by rw [hzero]; rfl
      refine .finite _ _ (Nat.lt_trans (unpackMantissa b : BitVec 52).isLt (by decide)) ?_
      omega
  · rw [if_neg hzero]
    refine .finite _ _ (1#1 ++ (unpackMantissa b : BitVec 52)).isLt ?_
    omega

theorem unpackExponent_lt (b : BitVec Format.binary64.numBits) :
    (unpackExponent b : BitVec 11).toNat < 2048 := (unpackExponent b : BitVec 11).isLt

/-- A finite number is not stored with all ones for its exponent. -/
theorem isFinite_unpack {b : BitVec Format.binary64.numBits} (h : (unpack .binary64 b).isFinite = true) :
    (unpackExponent b : BitVec 11).toNat ≠ 2047 := by
  intro hnat
  have hones : (unpackExponent b : BitVec 11) = -1#11 := BitVec.eq_of_toNat_eq hnat
  unfold unpack at h
  dsimp only at h
  rw [if_pos hones] at h
  by_cases hmantissa : (unpackMantissa b : BitVec 52) = 0#52
  · rw [if_pos hmantissa] at h
    exact Bool.noConfusion h
  · rw [if_neg hmantissa] at h
    exact Bool.noConfusion h

/-- Every finite number is bounded by what can be stored. -/
theorem bounded_of_isFinite {x : Float} (h : x.isFinite = true) : Bounded 53 971 x.toModel.unpack := by
  have hones := isFinite_unpack (b := x.toModel.toBits.toBitVec) h
  have hlt := unpackExponent_lt x.toModel.toBits.toBitVec
  exact bounded_unpack hones (by decide) (by omega)

/-- What is stored and read again is within the same bound for the exponent. -/
theorem bounded_unpack_pack (h : Bounded bits top u) (hlow : -1074 ≤ top) (hhigh : top ≤ 971) :
    Bounded 53 top (Float.Model.pack u).unpack := by
  -- whatever is stored with another exponent field than the one of all ones is bounded
  have hstored : ∀ {exponent : BitVec 11} (s : Sign) (mantissa : BitVec 52),
      exponent.toNat ≠ 2047 → (exponent.toNat : Int) ≤ top + 1075 →
      Bounded 53 top (unpack .binary64 (packComponents .binary64 s exponent mantissa)) := by
    intro exponent s mantissa hones htop
    refine bounded_unpack ?_ hlow ?_
    · rw [unpackExponent_packComponents]
      exact hones
    · rw [unpackExponent_packComponents]
      exact htop
  show Bounded 53 top (unpack .binary64 (pack .binary64 u))
  cases h with
  | zero s => exact hstored s _ (by decide) (by simp; omega)
  | @finite s m e hpos hbits htop =>
    have hbiased : e + (Format.binary64.exponentBias : Int) +
        (Format.binary64.mantissaBitsWithoutImplicit : Int) = e + 1075 := by
      show e + 1023 + 52 = e + 1075
      omega
    have hroom : ¬ 2 ^ 11 ≤ (e + 1075).toNat + 1 := by omega
    unfold pack
    dsimp only
    rw [hbiased, if_neg hroom]
    split
    · have hnat : (BitVec.ofNat 11 (e + 1075).toNat).toNat = (e + 1075).toNat := by
        rw [BitVec.toNat_ofNat]
        omega
      exact hstored s _ (by omega) (by omega)
    · exact hstored s _ (by decide) (by simp; omega)

/-- What is stored within the bounds is finite. -/
theorem isFinite_of_bounded {x : Float.Model} (h : Bounded bits top x.unpack) :
    (Float.ofModel x).isFinite = true := h.isFinite

/-- The negation of a finite number is finite. -/
theorem isFinite_neg {x : Float} (h : x.isFinite = true) : (Float.neg x).isFinite = true :=
  isFinite_of_bounded (bounded_unpack_pack (bounded_of_isFinite h).neg (by decide) (by decide))

end PlanRunner.Number
