import PlanRunner.Number.Decimal
import PlanRunner.Proofs.Number.Normal

/-!
# PlanRunner — the integers among the numbers

Which integer a number is equal to is read off its bits. A number other than zero is given by the
integer, because the leading bit of its mantissa fixes the exponent; for zero there are two numbers.

* `ofFloat?_eq_some` — the parts of a finite number, by its bits;
* `Finite.toInt?_eq_some_iff` — the integer, by the parts;
* `exists_mantissa`, `eq_of_toInt?`, `eq_zero_of_toInt?` — the integers that numbers are equal to, and
  the numbers that are equal to one;
* `toInt?_pack` — the integer that a number is equal to when it is stored.
-/

namespace PlanRunner.Number

open Float.Model (Format UnpackedFloat)
open Float.Model.UnpackedFloat

-- ---------------------------------------------------------------------------
-- Bits
-- ---------------------------------------------------------------------------

/-- The exponent is stored in eleven bits, above the mantissa. -/
theorem exponentField_eq (x : Float) : exponentField x = x.toBits.toNat / 2 ^ 52 % 2 ^ 11 := by
  show (x.toBits.toNat >>> 52) % 2 ^ 11 = _
  rw [Nat.shiftRight_eq_div_pow]

theorem exponentField_lt (x : Float) : exponentField x < 2048 :=
  unpackExponent_lt x.toModel.toBits.toBitVec

/-- Numbers with the same bits are the same. -/
theorem eq_of_toBits {x y : Float} (h : x.toBits.toNat = y.toBits.toNat) : x = y := by
  obtain ⟨⟨bits, hx⟩⟩ := x
  obtain ⟨⟨bits', hy⟩⟩ := y
  obtain rfl : bits = bits' := UInt64.toNat_inj.mp h
  rfl

/-- The sign of a number, its exponent field and the bits of its mantissa are all its bits. -/
theorem toBits_eq (x : Float) : x.toBits.toNat =
    x.toBits.toNat / 2 ^ 63 * 2 ^ 63 + exponentField x * 2 ^ 52 + x.toBits.toNat % 2 ^ 52 := by
  have hfield := exponentField_eq x
  omega

/-- The parts of a finite number, by its bits. -/
theorem ofFloat?_eq_some {x : Float} {f : Finite} (h : Finite.ofFloat? x = some f) :
    f.negative = (x.toBits.toNat / 2 ^ 63 == 1) ∧
      (exponentField x = 0 ∧ f.mantissa = x.toBits.toNat % 2 ^ 52 ∧ f.exponent = -1074 ∨
        0 < exponentField x ∧ exponentField x < 2047 ∧
          f.mantissa = 2 ^ 52 + x.toBits.toNat % 2 ^ 52 ∧ f.exponent = exponentField x - 1075) := by
  have hfield : x.toBits.toNat / Nat.pow 2 52 % Nat.pow 2 11 = exponentField x :=
    (exponentField_eq x).symm
  have hlt := exponentField_lt x
  unfold Finite.ofFloat? at h
  simp only [hfield, beq_iff_eq] at h
  -- all ones is no finite number; zero is a subnormal one
  by_cases hones : exponentField x = 2047
  · rw [if_pos hones] at h
    exact absurd h (by simp)
  · rw [if_neg hones] at h
    by_cases hzero : exponentField x = 0
    · rw [if_pos hzero] at h
      obtain rfl := Option.some.inj h
      exact ⟨rfl, .inl ⟨hzero, rfl, rfl⟩⟩
    · rw [if_neg hzero] at h
      obtain rfl := Option.some.inj h
      exact ⟨rfl, .inr ⟨by omega, by omega, rfl, rfl⟩⟩

/-- A number that can be taken apart is finite. -/
theorem isFinite_of_ofFloat? {x : Float} {f : Finite} (h : Finite.ofFloat? x = some f) :
    x.isFinite = true := by
  have hones : exponentField x ≠ 2047 := by
    rcases (ofFloat?_eq_some h).2 with ⟨hzero, -⟩ | ⟨-, hlt, -⟩
    · omega
    · omega
  have hlt := exponentField_lt x
  have hbounded : Bounded 53 971 x.toModel.unpack :=
    bounded_unpack hones (by decide) (show (exponentField x : Int) ≤ 971 + 1075 by omega)
  exact hbounded.isFinite

-- ---------------------------------------------------------------------------
-- Integers
-- ---------------------------------------------------------------------------

/-- An integer is its size with its sign. -/
theorem signed_eq_iff (negative : Bool) (m : Nat) (n : Int) :
    (if negative then -(m : Int) else m) = n ↔
      m = n.natAbs ∧ n = if negative then -(n.natAbs : Int) else n.natAbs := by
  cases negative with
  | true =>
    simp only [if_true]
    omega
  | false =>
    simp only [Bool.false_eq_true, if_false]
    omega

/-- One of the two powers is one. -/
theorem Finite.toInt?_eq_some_iff {f : Finite} {n : Int} :
    f.toInt? = some n ↔
      n.natAbs * 2 ^ (-f.exponent).toNat = f.mantissa * 2 ^ f.exponent.toNat ∧
        n = if f.negative then -(n.natAbs : Int) else n.natAbs := by
  unfold Finite.toInt?
  dsimp only
  -- with a negative exponent the mantissa has to be a multiple of the power
  by_cases hsign : 0 ≤ f.exponent
  · have hzero : (-f.exponent).toNat = 0 := by omega
    have hpower : f.mantissa * Nat.pow 2 f.exponent.toNat = f.mantissa * 2 ^ f.exponent.toNat := rfl
    rw [if_pos hsign, hpower, hzero, Nat.pow_zero, Nat.mul_one]
    generalize f.mantissa * 2 ^ f.exponent.toNat = m
    show some (if f.negative then -(m : Int) else m) = some n ↔ _
    rw [Option.some_inj, signed_eq_iff, eq_comm]
  · have hzero : f.exponent.toNat = 0 := by omega
    have hunit : Nat.pow 2 (-f.exponent).toNat = 2 ^ (-f.exponent).toNat := rfl
    have hpos := Nat.two_pow_pos (-f.exponent).toNat
    rw [if_neg hsign, hzero, Nat.pow_zero, Nat.mul_one, hunit]
    generalize 2 ^ (-f.exponent).toNat = unit at hpos
    by_cases hdvd : f.mantissa % unit = 0
    · rw [if_pos (beq_iff_eq.mpr hdvd)]
      show some (if f.negative then -((f.mantissa / unit : Nat) : Int) else (f.mantissa / unit : Nat)) =
        some n ↔ _
      rw [Option.some_inj, signed_eq_iff,
        Nat.div_eq_iff_eq_mul_left hpos (Nat.dvd_of_mod_eq_zero hdvd), eq_comm]
    · rw [if_neg (by simpa using hdvd)]
      refine ⟨fun h => absurd h (by simp), fun h => ?_⟩
      rw [← h.1] at hdvd
      exact absurd (Nat.mul_mod_left _ _) hdvd

/-- An integral float is taken apart, and its parts are an integer. -/
theorem toInt?_eq_some {x : Float} {n : Int} (h : toInt? x = some n) :
    ∃ f, Finite.ofFloat? x = some f ∧ f.toInt? = some n :=
  Option.bind_eq_some_iff.mp h

/-- An integral float is finite. -/
theorem isFinite_of_toInt? {x : Float} {n : Int} (h : toInt? x = some n) : x.isFinite = true := by
  obtain ⟨f, hf, -⟩ := toInt?_eq_some h
  exact isFinite_of_ofFloat? hf

/-- The integers that numbers are equal to have 53 bits, apart from a power of two. -/
theorem exists_mantissa {x : Float} {n : Int} (h : toInt? x = some n) :
    ∃ m e, m < 2 ^ 53 ∧ n.natAbs = m * 2 ^ e := by
  obtain ⟨f, hf, hn⟩ := toInt?_eq_some h
  obtain ⟨hvalue, -⟩ := Finite.toInt?_eq_some_iff.mp hn
  have hbits : f.mantissa < 2 ^ 53 := by
    rcases (ofFloat?_eq_some hf).2 with ⟨-, hm, -⟩ | ⟨-, -, hm, -⟩
    · omega
    · omega
  -- a negative exponent divides the mantissa, so the quotient has no more bits
  by_cases hsign : 0 ≤ f.exponent
  · have hzero : (-f.exponent).toNat = 0 := by omega
    rw [hzero, Nat.pow_zero, Nat.mul_one] at hvalue
    exact ⟨f.mantissa, f.exponent.toNat, hbits, hvalue⟩
  · have hzero : f.exponent.toNat = 0 := by omega
    have hle := Nat.le_mul_of_pos_right n.natAbs (Nat.two_pow_pos (-f.exponent).toNat)
    rw [hzero, Nat.pow_zero, Nat.mul_one] at hvalue
    exact ⟨n.natAbs, 0, by omega, (Nat.mul_one _).symm⟩

/-- Multiplying with a power of two adds to the logarithm. -/
theorem log2_mul_two_pow {m : Nat} (hm : m ≠ 0) (k : Nat) : (m * 2 ^ k).log2 = m.log2 + k := by
  have hpos := Nat.two_pow_pos k
  have hne : m * 2 ^ k ≠ 0 := Nat.mul_ne_zero hm (Nat.ne_of_gt hpos)
  obtain ⟨hlow, hhigh⟩ := (Nat.log2_eq_iff hm).mp rfl
  rw [Nat.log2_eq_iff hne]
  constructor
  · rw [Nat.pow_add]
    exact Nat.mul_le_mul_right _ hlow
  · rw [Nat.add_right_comm, Nat.pow_add]
    exact Nat.mul_lt_mul_of_pos_right hhigh hpos

/-- The leading bit of an integer is that of the mantissa. -/
theorem bits_of_toInt? {x : Float} {n : Int} (h : toInt? x = some n) (hn : n ≠ 0) :
    exponentField x = n.natAbs.log2 + 1023 ∧
      n.natAbs * 2 ^ (1075 - exponentField x) =
        (2 ^ 52 + x.toBits.toNat % 2 ^ 52) * 2 ^ (exponentField x - 1075) ∧
      (x.toBits.toNat / 2 ^ 63 = 1 ↔ n < 0) := by
  obtain ⟨f, hf, hn'⟩ := toInt?_eq_some h
  obtain ⟨hvalue, hsigned⟩ := Finite.toInt?_eq_some_iff.mp hn'
  obtain ⟨hnegative, hparts⟩ := ofFloat?_eq_some hf
  have hsize : n.natAbs ≠ 0 := Int.natAbs_ne_zero.mpr hn
  -- the sign bit is that of the integer, which is not zero
  have hsign : x.toBits.toNat / 2 ^ 63 = 1 ↔ n < 0 := by
    rw [← beq_iff_eq, ← hnegative]
    cases hneg : f.negative with
    | true =>
      rw [hneg, if_pos rfl] at hsigned
      exact ⟨fun _ => by omega, fun _ => rfl⟩
    | false =>
      rw [hneg, if_neg (by decide)] at hsigned
      exact ⟨fun h => absurd h (by decide), fun h => by omega⟩
  rcases hparts with ⟨hzero, hm, he⟩ | ⟨hpos, hlt, hm, he⟩
  · -- a number whose mantissa is not full is below one
    have hup : f.exponent.toNat = 0 := by omega
    have hpow : 2 ^ 52 ≤ 2 ^ (-f.exponent).toNat := Nat.pow_le_pow_right (by decide) (by omega)
    have hle := Nat.le_mul_of_pos_left (2 ^ (-f.exponent).toNat) (Nat.pos_of_ne_zero hsize)
    have hmantissa : f.mantissa < 2 ^ 52 := hm ▸ Nat.mod_lt _ (by decide)
    rw [hup, Nat.pow_zero, Nat.mul_one] at hvalue
    omega
  · have hdown : (-f.exponent).toNat = 1075 - exponentField x := by omega
    have hup : f.exponent.toNat = exponentField x - 1075 := by omega
    have hfraction : x.toBits.toNat % 2 ^ 52 < 2 ^ 52 := Nat.mod_lt _ (by decide)
    rw [hm, hdown, hup] at hvalue
    refine ⟨?_, hvalue, hsign⟩
    have hlog : (2 ^ 52 + x.toBits.toNat % 2 ^ 52).log2 = 52 :=
      (Nat.log2_eq_iff (by omega)).mpr ⟨by omega, by omega⟩
    have hlogs := congrArg Nat.log2 hvalue
    rw [log2_mul_two_pow hsize, log2_mul_two_pow (by omega), hlog] at hlogs
    omega

/-- An integer other than zero is equal to one number at most. -/
theorem eq_of_toInt? {x y : Float} {n : Int} (hx : toInt? x = some n) (hy : toInt? y = some n)
    (hn : n ≠ 0) : x = y := by
  obtain ⟨hfield, hvalue, hsign⟩ := bits_of_toInt? hx hn
  obtain ⟨hfield', hvalue', hsign'⟩ := bits_of_toInt? hy hn
  have hfields : exponentField x = exponentField y := hfield.trans hfield'.symm
  -- the same exponent and the same value, so the same mantissa
  have hmantissas : 2 ^ 52 + x.toBits.toNat % 2 ^ 52 = 2 ^ 52 + y.toBits.toNat % 2 ^ 52 := by
    rw [hfields] at hvalue
    exact Nat.eq_of_mul_eq_mul_right (Nat.two_pow_pos _) (hvalue.symm.trans hvalue')
  have hbits := toBits_eq x
  have hbits' := toBits_eq y
  have hlt : x.toBits.toNat < 2 ^ 64 := x.toBits.toNat_lt
  have hlt' : y.toBits.toNat < 2 ^ 64 := y.toBits.toNat_lt
  exact eq_of_toBits (by omega)

/-- Zero is equal to two numbers. -/
theorem eq_zero_of_toInt? {x : Float} (h : toInt? x = some 0) : x = 0.0 ∨ x = -0.0 := by
  obtain ⟨f, hf, hn⟩ := toInt?_eq_some h
  obtain ⟨hvalue, -⟩ := Finite.toInt?_eq_some_iff.mp hn
  have hmantissa : f.mantissa = 0 := by
    rw [Int.natAbs_zero, Nat.zero_mul, eq_comm, Nat.mul_eq_zero] at hvalue
    exact hvalue.resolve_right (Nat.ne_of_gt (Nat.two_pow_pos _))
  have hbits := toBits_eq x
  have hlt : x.toBits.toNat < 2 ^ 64 := x.toBits.toNat_lt
  have hpositive : (0.0 : Float).toBits.toNat = 0 := by decide +kernel
  have hnegative : (-0.0 : Float).toBits.toNat = 2 ^ 63 := by decide +kernel
  -- a mantissa of zero is stored only with the exponent field zero
  rcases (ofFloat?_eq_some hf).2 with ⟨hzero, hm, -⟩ | ⟨-, -, hm, -⟩
  · by_cases hsign : x.toBits.toNat / 2 ^ 63 = 0
    · exact .inl (eq_of_toBits (by omega))
    · exact .inr (eq_of_toBits (by omega))
  · omega

-- ---------------------------------------------------------------------------
-- Stored numbers
-- ---------------------------------------------------------------------------

/-- The sign bit is the top bit. -/
theorem negative_iff (b : BitVec Format.binary64.numBits) :
    (b.toNat / 2 ^ 63 == 1) = (Sign.ofBitVec (unpackSign b) == .negative) := by
  have hlt : b.toNat < 2 ^ 64 := b.isLt
  have hbit : (unpackSign b : BitVec 1).toNat = b.toNat / 2 ^ 63 := by
    show (b.toNat >>> 63) % 2 ^ 1 = _
    rw [Nat.shiftRight_eq_div_pow]
    omega
  rw [← hbit]
  generalize (unpackSign b : BitVec 1) = sign
  revert sign
  decide

/-- Every number but those with all ones for their exponent can be taken apart. -/
theorem exists_ofFloat? {x : Float} (h : exponentField x ≠ 2047) :
    ∃ f, Finite.ofFloat? x = some f := by
  have hfield : x.toBits.toNat / Nat.pow 2 52 % Nat.pow 2 11 = exponentField x :=
    (exponentField_eq x).symm
  unfold Finite.ofFloat?
  simp only [hfield, beq_iff_eq]
  rw [if_neg h]
  by_cases hzero : exponentField x = 0
  · rw [if_pos hzero]
    exact ⟨_, rfl⟩
  · rw [if_neg hzero]
    exact ⟨_, rfl⟩

/-- The integer that a stored number is equal to. -/
theorem toInt?_pack (s : Sign) {m n : Nat} {e : Int} (hpos : 0 < m) (hfull : 2 ^ 52 ≤ m)
    (hbits : m < 2 ^ 53) (hlow : -1074 ≤ e) (htop : e ≤ 971)
    (hvalue : n * 2 ^ (-e).toNat = m * 2 ^ e.toNat) :
    toInt? (Float.ofModel (Float.Model.pack (.finite s m e hpos))) = some (s.apply n) := by
  obtain ⟨hexponent, hmantissa, hsign⟩ := fields_pack s hpos hfull hbits hlow htop
  have hfield : exponentField (Float.ofModel (Float.Model.pack (.finite s m e hpos))) =
    (e + 1075).toNat := hexponent
  have hnegative := negative_iff (pack .binary64 (.finite s m e hpos))
  have hfraction : (pack .binary64 (.finite s m e hpos)).toNat % 2 ^ 52 = m - 2 ^ 52 := hmantissa
  rw [hsign] at hnegative
  obtain ⟨f, hf⟩ := exists_ofFloat? (x := Float.ofModel (Float.Model.pack (.finite s m e hpos)))
    (by omega)
  obtain ⟨hsigned, hparts⟩ := ofFloat?_eq_some hf
  -- a full mantissa is not subnormal, so its implicit bit is added again
  have hfull' : f.mantissa = m ∧ f.exponent = e := by
    rcases hparts with ⟨hzero, -⟩ | ⟨-, -, hm, he⟩
    · omega
    · have hm' : f.mantissa = 2 ^ 52 + (pack .binary64 (.finite s m e hpos)).toNat % 2 ^ 52 := hm
      omega
  have hsigned' : f.negative = (s == .negative) := hsigned.trans hnegative
  show (Finite.ofFloat? _).bind Finite.toInt? = _
  rw [hf, Option.bind_some, Finite.toInt?_eq_some_iff, hfull'.1, hfull'.2, hsigned']
  cases s with
  | negative =>
    show (-(n : Int)).natAbs * _ = _ ∧ -(n : Int) = -((-(n : Int)).natAbs : Int)
    rw [Int.natAbs_neg, Int.natAbs_natCast]
    exact ⟨hvalue, rfl⟩
  | positive =>
    show (n : Int).natAbs * _ = _ ∧ (n : Int) = ((n : Int).natAbs : Int)
    rw [Int.natAbs_natCast]
    exact ⟨hvalue, rfl⟩

end PlanRunner.Number
