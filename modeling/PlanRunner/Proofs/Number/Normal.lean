import PlanRunner.Proofs.Number.Finite

/-!
# PlanRunner — numbers with a full mantissa

All finite numbers but the smallest use the 53 bits of their mantissa. What a mantissa of more bits is
rounded to, and what is stored of it, is known exactly then.

* `Normal` — a number with a mantissa of exactly 53 bits, and an exponent within bounds;
* `roundWithAccuracy_full` — what rounding makes of a mantissa of 53 bits or more;
* `fields_pack`, `Normal.unpack_pack` — what is stored, and that it is read as it was.
-/

namespace PlanRunner.Number

open Float.Model (Format UnpackedFloat totalExponent)
open Float.Model.UnpackedFloat

/-- A finite number with a mantissa of exactly 53 bits, and an exponent between `low` and `top`. -/
inductive Normal (low top : Int) : UnpackedFloat → Prop where
  | finite (s : Sign) {m : Nat} {e : Int} (hpos : 0 < m) (hfull : 2 ^ 52 ≤ m) (hbits : m < 2 ^ 53)
      (hlow : low ≤ e) (htop : e ≤ top) : Normal low top (.finite s m e hpos)

variable {low top : Int} {u : UnpackedFloat}

/-- Wider bounds hold too. -/
theorem Normal.mono {low' top' : Int} (h : Normal low top u) (hlow : low' ≤ low) (htop : top ≤ top') :
    Normal low' top' u := by
  cases h with
  | finite s hpos hfull hbits hlow' htop' =>
    exact .finite s hpos hfull hbits (Int.le_trans hlow hlow') (Int.le_trans htop' htop)

-- ---------------------------------------------------------------------------
-- Rounding
-- ---------------------------------------------------------------------------

/-- A mantissa of enough bits is shifted until it has exactly 53 of them. -/
theorem shift_full {m n : Nat} {e : Int} (hn : 52 ≤ n) (hfull : 2 ^ n ≤ m) (hbits : m < 2 ^ (n + 1))
    (hlow : -1074 ≤ e + (n - 52 : Nat)) :
    (Format.binary64.targetExponent (totalExponent m e) - e).toNat = n - 52 := by
  have hzero : m ≠ 0 := Nat.ne_of_gt (Nat.lt_of_lt_of_le (Nat.two_pow_pos n) hfull)
  have hlog : m.log2 = n := (Nat.log2_eq_iff hzero).mpr ⟨hfull, hbits⟩
  have hmin : Format.binary64.minExponent = -1074 := by decide
  have hmantissa : Format.binary64.mantissaBits = 53 := by decide
  simp only [Format.targetExponent, totalExponent, hmin, hmantissa, hlog]
  omega

/-- A mantissa with too many bits loses all but the top 53. -/
theorem shiftToTargetExponent_full {m n : Nat} {e : Int} (accuracy : Accuracy) (hn : 52 ≤ n)
    (hfull : 2 ^ n ≤ m) (hbits : m < 2 ^ (n + 1)) (hlow : -1074 ≤ e + (n - 52 : Nat)) :
    shiftToTargetExponent .binary64 m e accuracy =
      (ExtendedMantissa.ofMantissaAndAccuracy m accuracy >>> (n - 52), e + (n - 52 : Nat)) := by
  rw [shiftToTargetExponent, shiftToExponent, shift_full hn hfull hbits hlow]

/-- The leading 53 bits of a mantissa. -/
theorem leading_bits {m n : Nat} (hn : 52 ≤ n) (hfull : 2 ^ n ≤ m) (hbits : m < 2 ^ (n + 1)) :
    2 ^ 52 ≤ m / 2 ^ (n - 52) ∧ m / 2 ^ (n - 52) < 2 ^ 53 := by
  have hpos := Nat.two_pow_pos (n - 52)
  constructor
  · rw [Nat.le_div_iff_mul_le hpos, ← Nat.pow_add, Nat.add_sub_cancel' hn]
    exact hfull
  · rw [Nat.div_lt_iff_lt_mul hpos, ← Nat.pow_add, show 53 + (n - 52) = n + 1 by omega]
    exact hbits

/-- Rounding may carry into one more bit, and then the exponent becomes larger by one. -/
theorem roundWithAccuracy_full {m n : Nat} {e : Int} (s : Sign) (accuracy : Accuracy)
    (hn : 52 ≤ n) (hfull : 2 ^ n ≤ m) (hbits : m < 2 ^ (n + 1)) (hlow : -1074 ≤ e + (n - 52 : Nat)) :
    ∃ carry ≤ 1, ∃ m' hpos, 2 ^ 52 ≤ m' ∧ m' < 2 ^ 53 ∧
      (ExtendedMantissa.ofMantissaAndAccuracy m accuracy >>> (n - 52)).roundedMantissa =
        m' * 2 ^ carry ∧
      roundWithAccuracy .binary64 s m e accuracy =
        .finite s m' (e + (n - 52 : Nat) + (carry : Nat)) hpos := by
  have hleading := leading_bits hn hfull hbits
  have hrounded := roundedMantissa_bounds
    (ExtendedMantissa.ofMantissaAndAccuracy m accuracy >>> (n - 52))
  rw [mantissa_shifted] at hrounded
  unfold roundWithAccuracy
  rw [shiftToTargetExponent_full accuracy hn hfull hbits hlow]
  dsimp only
  generalize (ExtendedMantissa.ofMantissaAndAccuracy m accuracy >>> (n - 52)).roundedMantissa =
    rounded at hrounded
  -- a carry leaves nothing but zeros after the leading bit
  have hcarry : ∃ carry ≤ 1, 2 ^ (52 + carry) ≤ rounded ∧ rounded < 2 ^ (52 + carry + 1) ∧
      rounded = rounded / 2 ^ carry * 2 ^ carry := by
    by_cases hsame : rounded < 2 ^ 53
    · exact ⟨0, by decide, by omega, hsame, by omega⟩
    · exact ⟨1, by decide, by omega, by omega, by omega⟩
  obtain ⟨carry, hone, hfull', hbits', hexact⟩ := hcarry
  have hleading' := leading_bits (Nat.le_add_right 52 carry) hfull' hbits'
  rw [Nat.add_sub_cancel_left] at hleading'
  have hpos : 0 < rounded / 2 ^ carry := Nat.lt_of_lt_of_le (Nat.two_pow_pos 52) hleading'.1
  refine ⟨carry, hone, rounded / 2 ^ carry, hpos, hleading'.1, hleading'.2, hexact, ?_⟩
  rw [shiftToTargetExponent_full .exact (Nat.le_add_right 52 carry) hfull' hbits' (by omega),
    Nat.add_sub_cancel_left]
  dsimp only
  have hmantissa := mantissa_shifted rounded carry .exact
  rw [dif_neg (by rw [hmantissa]; exact Nat.ne_of_gt hpos), UnpackedFloat.finite.injEq]
  exact ⟨rfl, hmantissa, rfl⟩

/-- Rounding a full mantissa gives a normal number, one exponent higher if it carries. -/
theorem normal_roundWithAccuracy {m n : Nat} {e : Int} (s : Sign) (accuracy : Accuracy)
    (hn : 52 ≤ n) (hfull : 2 ^ n ≤ m) (hbits : m < 2 ^ (n + 1)) (hlow : -1074 ≤ e + (n - 52 : Nat)) :
    Normal (e + (n - 52 : Nat)) (e + (n - 52 : Nat) + 1)
      (roundWithAccuracy .binary64 s m e accuracy) := by
  obtain ⟨carry, hone, m', hpos, hfull', hbits', -, hrounded⟩ :=
    roundWithAccuracy_full s accuracy hn hfull hbits hlow
  rw [hrounded]
  exact .finite s hpos hfull' hbits' (by omega) (by omega)

-- ---------------------------------------------------------------------------
-- Storing
-- ---------------------------------------------------------------------------

/-- A number uses all bits of its mantissa whose exponent field is neither zero nor all ones. -/
theorem unpack_full {b : BitVec Format.binary64.numBits} (hpos : 0 < (unpackExponent b : BitVec 11).toNat)
    (hfield : (unpackExponent b : BitVec 11).toNat < 2047) :
    ∃ hm, unpack .binary64 b = .finite (Sign.ofBitVec (unpackSign b))
      (2 ^ 52 + (unpackMantissa b : BitVec 52).toNat)
      ((unpackExponent b : BitVec 11).toNat - 1075) hm := by
  have hbias : (Format.binary64.exponentBias : Int) + (52 : Nat) = 1075 := by decide
  have hones : (unpackExponent b : BitVec 11) ≠ -1#11 := by
    intro hones
    rw [hones] at hfield
    exact absurd hfield (by decide)
  have hzero : (unpackExponent b : BitVec 11) ≠ 0#11 := by
    intro hzero
    rw [hzero] at hpos
    exact absurd hpos (by decide)
  -- the leading bit is not stored
  have hmantissa : (1#1 ++ (unpackMantissa b : BitVec 52)).toNat =
      2 ^ 52 + (unpackMantissa b : BitVec 52).toNat := by
    rw [BitVec.toNat_append, ← Nat.shiftLeft_add_eq_or_of_lt (unpackMantissa b : BitVec 52).isLt]
    rfl
  refine ⟨Nat.add_pos_left (Nat.two_pow_pos 52) _, ?_⟩
  unfold unpack
  dsimp only
  rw [if_neg hones, if_neg hzero, UnpackedFloat.finite.injEq, hbias]
  exact ⟨rfl, hmantissa, rfl⟩

/-- A number with a usual exponent field is normal. -/
theorem normal_unpack {b : BitVec Format.binary64.numBits}
    (hpos : 0 < (unpackExponent b : BitVec 11).toNat) (hfield : (unpackExponent b : BitVec 11).toNat < 2047)
    (hlow : low + 1075 ≤ ((unpackExponent b : BitVec 11).toNat : Int))
    (htop : ((unpackExponent b : BitVec 11).toNat : Int) ≤ top + 1075) :
    Normal low top (unpack .binary64 b) := by
  obtain ⟨hm, hunpack⟩ := unpack_full hpos hfield
  have hlt : (unpackMantissa b : BitVec 52).toNat < 2 ^ 52 := (unpackMantissa b : BitVec 52).isLt
  rw [hunpack]
  exact .finite _ hm (Nat.le_add_right _ _) (by omega) (by omega) (by omega)

/-- The sign is stored in a bit of its own. -/
theorem sign_packComponents (s : Sign) (exponent : BitVec 11) (mantissa : BitVec 52) :
    Sign.ofBitVec (unpackSign (packComponents .binary64 s exponent mantissa)) = s := by
  have hsign : unpackSign (packComponents .binary64 s exponent mantissa) = s.toBitVec := by
    unfold unpackSign packComponents BitVec.extractLsb
    rw [BitVec.extractLsb'_append_eq_of_le (by decide), BitVec.extractLsb'_append_eq_of_le (by decide)]
    cases s <;> rfl
  rw [hsign]
  cases s <;> rfl

/-- The fields that a number is stored in. -/
theorem fields_pack (s : Sign) {m : Nat} {e : Int} (hpos : 0 < m) (hfull : 2 ^ 52 ≤ m)
    (hbits : m < 2 ^ 53) (hlow : -1074 ≤ e) (htop : e ≤ 971) :
    (unpackExponent (pack .binary64 (.finite s m e hpos)) : BitVec 11).toNat = (e + 1075).toNat ∧
      (unpackMantissa (pack .binary64 (.finite s m e hpos)) : BitVec 52).toNat = m - 2 ^ 52 ∧
      Sign.ofBitVec (unpackSign (pack .binary64 (.finite s m e hpos))) = s := by
  have hbiased : e + (Format.binary64.exponentBias : Int) +
      (Format.binary64.mantissaBitsWithoutImplicit : Int) = e + 1075 := by
    show e + 1023 + 52 = e + 1075
    omega
  have hroom : ¬ 2 ^ 11 ≤ (e + 1075).toNat + 1 := by omega
  -- the implicit bit is the one that is not stored
  have hlog : m.log2 + 1 = Format.binary64.mantissaBits :=
    congrArg (· + 1) ((Nat.log2_eq_iff (Nat.ne_of_gt hpos)).mpr ⟨hfull, hbits⟩)
  have hpacked : pack .binary64 (.finite s m e hpos) =
      packComponents .binary64 s (BitVec.ofNat 11 (e + 1075).toNat) (BitVec.ofNat 52 m) := by
    unfold pack
    dsimp only
    rw [hbiased, if_neg hroom, if_pos hlog]
  rw [hpacked, unpackExponent_packComponents, unpackMantissa_packComponents, sign_packComponents,
    BitVec.toNat_ofNat, BitVec.toNat_ofNat]
  refine ⟨Nat.mod_eq_of_lt (show (e + 1075).toNat < 2 ^ 11 by omega), ?_, rfl⟩
  show m % 2 ^ 52 = m - 2 ^ 52
  omega

/-- What is stored and read again is the same. -/
theorem Normal.unpack_pack (h : Normal low top u) (hlow : -1074 ≤ low) (hhigh : top ≤ 971) :
    (Float.Model.pack u).unpack = u := by
  show unpack .binary64 (pack .binary64 u) = u
  cases h with
  | @finite s m e hpos hfull hbits hlow' htop =>
    obtain ⟨hfield, hmantissa, hsign⟩ := fields_pack s hpos hfull hbits
      (Int.le_trans hlow hlow') (Int.le_trans htop hhigh)
    obtain ⟨hm, hunpack⟩ := unpack_full (b := pack .binary64 (.finite s m e hpos))
      (by omega) (by omega)
    rw [hunpack, UnpackedFloat.finite.injEq]
    exact ⟨hsign, by omega, by omega⟩

/-- A normal number with an exponent in range is stored as it is. -/
theorem normal_unpack_pack (h : Normal low top u) (hlow : -1074 ≤ low) (hhigh : top ≤ 971) :
    Normal low top (Float.Model.pack u).unpack := by
  rw [h.unpack_pack hlow hhigh]
  exact h

/-- The exponent field of a number. -/
def exponentField (x : Float) : Nat :=
  (@unpackExponent .binary64 x.toModel.toBits.toBitVec).toNat

end PlanRunner.Number
