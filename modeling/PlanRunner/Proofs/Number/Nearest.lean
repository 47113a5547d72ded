import PlanRunner.Proofs.Number.Whole

/-!
# PlanRunner — an integer becomes the number nearest to it

An integer of up to 53 bits is a number. One with more of them is rounded to 53, by half a unit at
most, where a unit is the power of two that the bits after them are worth; no number that is an
integer is nearer.

* `Rounds` — a multiple of a unit, and not further away than half of one;
* `roundWithAccuracy_rounds`, `roundWithAccuracy_exact` — what rounding makes of a mantissa;
* `toInt?_ofInt`, `isFinite_ofInt` — the number that an integer of 64 bits becomes;
* `Nearest`, `Rounds.nearest` — no other number is nearer to it.
-/

namespace PlanRunner.Number

open Float.Model (Format UnpackedFloat totalExponent)
open Float.Model.UnpackedFloat

-- ---------------------------------------------------------------------------
-- Shifting
-- ---------------------------------------------------------------------------

/-- A mantissa `m` without its last `k` bits, which are `rest`: one bit tells whether they are half a
unit at least, and the other is set if they are neither nothing nor half a unit. -/
structure Shifted (m k rest : Nat) (em : ExtendedMantissa) : Prop where
  lt : rest < 2 ^ k
  parts : m = em.mantissa * 2 ^ k + rest
  half : em.roundBit = true ↔ 2 ^ k ≤ 2 * rest
  loose : em.stickyBit = false → rest = 0 ∨ 2 * rest = 2 ^ k

/-- One bit more is dropped: the last one of those that were left. -/
theorem Shifted.shiftRightOne {m k rest : Nat} {em : ExtendedMantissa} (h : Shifted m k rest em) :
    Shifted m (k + 1) (em.mantissa % 2 * 2 ^ k + rest) em.shiftRightOne := by
  obtain ⟨hlt, hparts, hhalf, hloose⟩ := h
  have hpow : 2 ^ (k + 1) = 2 * 2 ^ k := Nat.pow_succ'
  have hmantissa : em.mantissa * 2 ^ k =
      em.mantissa / 2 * 2 ^ (k + 1) + em.mantissa % 2 * 2 ^ k := by
    rw [hpow, ← Nat.mul_assoc, ← Nat.add_mul, Nat.mul_comm (em.mantissa / 2) 2, Nat.div_add_mod]
  -- the bit that is shifted out is all that joins the rest
  have hlast : em.mantissa % 2 = 0 ∧ em.mantissa % 2 * 2 ^ k = 0 ∨
      em.mantissa % 2 = 1 ∧ em.mantissa % 2 * 2 ^ k = 2 ^ k := by
    rcases Nat.mod_two_eq_zero_or_one em.mantissa with h | h
    · exact .inl ⟨h, by rw [h, Nat.zero_mul]⟩
    · exact .inr ⟨h, by rw [h, Nat.one_mul]⟩
  refine ⟨by omega, ?_, ?_, ?_⟩
  · show m = em.mantissa / 2 * 2 ^ (k + 1) + (em.mantissa % 2 * 2 ^ k + rest)
    omega
  · show (em.mantissa % 2 != 0) = true ↔ _
    rw [bne_iff_ne]
    omega
  · intro hboth
    obtain ⟨hround, hsticky⟩ := Bool.or_eq_false_iff.mp hboth
    have hbelow : ¬ 2 ^ k ≤ 2 * rest := by
      rw [← hhalf, hround]
      exact Bool.false_ne_true
    have hnothing : rest = 0 ∨ 2 * rest = 2 ^ k := hloose hsticky
    omega

/-- A number that is shifted by some bits is the mantissa that remains and the rest that was shifted
out. -/
theorem exists_shifted (m k : Nat) :
    ∃ rest, Shifted m k rest (ExtendedMantissa.ofMantissaAndAccuracy m .exact >>> k) := by
  induction k with
  | zero =>
    have hhalf : false = true ↔ 2 ^ 0 ≤ 2 * 0 := by decide
    exact ⟨0, by decide, (Nat.mul_one m).symm, hhalf, fun _ => .inl rfl⟩
  | succ k ih =>
    obtain ⟨rest, hshifted⟩ := ih
    exact ⟨_, hshifted.shiftRightOne⟩

-- ---------------------------------------------------------------------------
-- Rounding
-- ---------------------------------------------------------------------------

/-- A number of units of `2 ^ k`, not further from `m` than half a unit. -/
structure Rounds (k m r : Nat) : Prop where
  low : 2 * m ≤ 2 * (r * 2 ^ k) + 2 ^ k
  high : 2 * (r * 2 ^ k) ≤ 2 * m + 2 ^ k

/-- The mantissa that is rounded after a shift is one of the two next to the number, the nearer one.
-/
theorem Shifted.rounds {m k rest : Nat} {em : ExtendedMantissa} (h : Shifted m k rest em) :
    Rounds k m em.roundedMantissa := by
  obtain ⟨mantissa, roundBit, stickyBit⟩ := em
  obtain ⟨hlt, hparts, hhalf, hloose⟩ := h
  dsimp only at hparts hhalf hloose
  have hup : (mantissa + 1) * 2 ^ k = mantissa * 2 ^ k + 2 ^ k := Nat.succ_mul _ _
  cases roundBit with
  | false =>
    have hbelow : ¬ 2 ^ k ≤ 2 * rest := by
      rw [← hhalf]
      exact Bool.false_ne_true
    have hsame : (ExtendedMantissa.mk mantissa false stickyBit).roundedMantissa = mantissa := by
      cases stickyBit <;> rfl
    rw [hsame]
    exact ⟨by omega, by omega⟩
  | true =>
    have hle : 2 ^ k ≤ 2 * rest := hhalf.mp rfl
    cases stickyBit with
    | false =>
      -- half a unit is rounded to the even one of the two neighbours
      have htie : rest = 0 ∨ 2 * rest = 2 ^ k := hloose rfl
      have heven : mantissa + mantissa % 2 = mantissa ∨ mantissa + mantissa % 2 = mantissa + 1 := by
        omega
      show Rounds k m (mantissa + mantissa % 2)
      rcases heven with heven | heven
      · rw [heven]
        exact ⟨by omega, by omega⟩
      · rw [heven]
        exact ⟨by omega, by omega⟩
    | true =>
      show Rounds k m (mantissa + 1)
      exact ⟨by omega, by omega⟩

/-- What is a number of units already is not rounded. -/
theorem Rounds.eq_of_units {k c r : Nat} (h : Rounds k (c * 2 ^ k) r) : r = c := by
  have hpos := Nat.two_pow_pos k
  have hlow : 2 * c * 2 ^ k ≤ (2 * r + 1) * 2 ^ k := by
    rw [Nat.add_mul, Nat.mul_assoc, Nat.mul_assoc, Nat.one_mul]
    exact h.low
  have hhigh : 2 * r * 2 ^ k ≤ (2 * c + 1) * 2 ^ k := by
    rw [Nat.add_mul, Nat.mul_assoc, Nat.mul_assoc, Nat.one_mul]
    exact h.high
  -- in halves of a unit the two bounds leave one integer
  have hle : 2 * c ≤ 2 * r + 1 := Nat.le_of_mul_le_mul_right hlow hpos
  have hge : 2 * r ≤ 2 * c + 1 := Nat.le_of_mul_le_mul_right hhigh hpos
  omega

/-- An integer rounds to itself in units of one. -/
theorem rounds_self (n : Nat) : Rounds 0 n n := ⟨by omega, by omega⟩

/-- Zeros that are put after all bits do not matter. -/
theorem Rounds.of_shifted {k j m r : Nat} (h : Rounds (k + j) (m * 2 ^ j) r) : Rounds k m r := by
  obtain ⟨hlow, hhigh⟩ := h
  have hpos := Nat.two_pow_pos j
  rw [Nat.pow_add] at hlow hhigh
  constructor
  · apply Nat.le_of_mul_le_mul_right _ hpos
    calc 2 * m * 2 ^ j = 2 * (m * 2 ^ j) := Nat.mul_assoc _ _ _
      _ ≤ 2 * (r * (2 ^ k * 2 ^ j)) + 2 ^ k * 2 ^ j := hlow
      _ = (2 * (r * 2 ^ k) + 2 ^ k) * 2 ^ j := by
        rw [Nat.add_mul, ← Nat.mul_assoc r, Nat.mul_assoc 2]
  · apply Nat.le_of_mul_le_mul_right _ hpos
    calc 2 * (r * 2 ^ k) * 2 ^ j = 2 * (r * (2 ^ k * 2 ^ j)) := by
          rw [Nat.mul_assoc 2, Nat.mul_assoc r]
      _ ≤ 2 * (m * 2 ^ j) + 2 ^ k * 2 ^ j := hhigh
      _ = (2 * m + 2 ^ k) * 2 ^ j := by
        rw [Nat.add_mul, Nat.mul_assoc 2]

/-- A number with a full mantissa is rounded to the nearest mantissa, with a carry or not. -/
theorem roundWithAccuracy_rounds {m n : Nat} {e : Int} (s : Sign) (hn : 52 ≤ n) (hfull : 2 ^ n ≤ m)
    (hbits : m < 2 ^ (n + 1)) (hlow : -1074 ≤ e + (n - 52 : Nat)) :
    ∃ carry ≤ 1, ∃ m' hpos, 2 ^ 52 ≤ m' ∧ m' < 2 ^ 53 ∧ Rounds (n - 52) m (m' * 2 ^ carry) ∧
      roundWithAccuracy .binary64 s m e .exact =
        .finite s m' (e + (n - 52 : Nat) + (carry : Nat)) hpos := by
  obtain ⟨carry, hone, m', hpos, hfull', hbits', hrounded, hround⟩ :=
    roundWithAccuracy_full s .exact hn hfull hbits hlow
  obtain ⟨rest, hshifted⟩ := exists_shifted m (n - 52)
  have hrounds := hshifted.rounds
  rw [hrounded] at hrounds
  exact ⟨carry, hone, m', hpos, hfull', hbits', hrounds, hround⟩

/-- A mantissa of 53 bits and zeros after them is kept as it is. -/
theorem roundWithAccuracy_exact {c k : Nat} {e : Int} (s : Sign) (hfull : 2 ^ 52 ≤ c)
    (hbits : c < 2 ^ 53) (hlow : -1074 ≤ e + (k : Nat)) (hpos : 0 < c) :
    roundWithAccuracy .binary64 s (c * 2 ^ k) e .exact = .finite s c (e + (k : Nat)) hpos := by
  have hunits : 52 + k - 52 = k := Nat.add_sub_cancel_left 52 k
  have hfull' : 2 ^ (52 + k) ≤ c * 2 ^ k := by
    rw [Nat.pow_add]
    exact Nat.mul_le_mul_right _ hfull
  have hbits' : c * 2 ^ k < 2 ^ (52 + k + 1) := by
    rw [Nat.add_right_comm, Nat.pow_add]
    exact Nat.mul_lt_mul_of_pos_right hbits (Nat.two_pow_pos k)
  have hlow' : -1074 ≤ e + (52 + k - 52 : Nat) := by
    rw [hunits]
    exact hlow
  -- rounding an exact multiple of the unit leaves it, so nothing is carried
  obtain ⟨carry, hone, m', hpos', hfull₁, hbits₁, hrounds, hround⟩ :=
    roundWithAccuracy_rounds s (Nat.le_add_right 52 k) hfull' hbits' hlow'
  rw [hunits] at hrounds hround
  have hsame : m' * 2 ^ carry = c := hrounds.eq_of_units
  have hnone : carry = 0 := by
    rcases Nat.le_one_iff_eq_zero_or_eq_one.mp hone with hzero | hone
    · exact hzero
    · rw [hone, Nat.pow_one] at hsame
      omega
  subst hnone
  rw [Nat.pow_zero, Nat.mul_one] at hsame
  subst hsame
  rw [hround, UnpackedFloat.finite.injEq]
  exact ⟨rfl, rfl, Int.add_zero _⟩

-- ---------------------------------------------------------------------------
-- Integers
-- ---------------------------------------------------------------------------

/-- An integer of up to 53 bits, with zeros after them. -/
theorem padded_bits {n : Nat} (hpos : 0 < n) (h : n < 2 ^ 53) :
    2 ^ 52 ≤ n * 2 ^ (52 - n.log2) ∧ n * 2 ^ (52 - n.log2) < 2 ^ 53 := by
  have hne : n ≠ 0 := Nat.ne_of_gt hpos
  have hlog : n.log2 < 53 := (Nat.log2_lt hne).mpr h
  obtain ⟨hlow, hhigh⟩ := (Nat.log2_eq_iff hne).mp rfl
  have hunit := Nat.two_pow_pos (52 - n.log2)
  -- the leading bit is moved to the top of the mantissa
  constructor
  · calc 2 ^ 52 = 2 ^ n.log2 * 2 ^ (52 - n.log2) := by
          rw [← Nat.pow_add, show n.log2 + (52 - n.log2) = 52 by omega]
      _ ≤ n * 2 ^ (52 - n.log2) := Nat.mul_le_mul_right _ hlow
  · calc n * 2 ^ (52 - n.log2) < 2 ^ (n.log2 + 1) * 2 ^ (52 - n.log2) :=
          Nat.mul_lt_mul_of_pos_right hhigh hunit
      _ = 2 ^ 53 := by
          rw [← Nat.pow_add, show n.log2 + 1 + (52 - n.log2) = 53 by omega]

/-- A small integer is stored with its leading bit at the top of the mantissa. -/
theorem ofUInt64_eq {n : Nat} (hpos : 0 < n) (h : n < 2 ^ 53)
    (hm : 0 < n * 2 ^ (52 - n.log2)) :
    ofUInt64 .binary64 n.toUInt64 =
      .finite .positive (n * 2 ^ (52 - n.log2)) (-(52 - n.log2 : Nat)) hm := by
  have hmin : Format.binary64.minExponent = -1074 := by decide
  have hmantissa : Format.binary64.mantissaBits = 53 := by decide
  have hlog : n.log2 < 53 := (Nat.log2_lt (Nat.ne_of_gt hpos)).mpr h
  have hsame : n.toUInt64.toNat = n :=
    UInt64.toNat_ofNat_of_lt (Nat.lt_trans h (by decide))
  have hcompare : compare (n : Int) 0 = .gt := Int.compare_eq_gt.mpr (by omega)
  have hshift : (0 - Format.binary64.targetExponent (totalExponent n 0)).toNat = 52 - n.log2 := by
    simp only [Format.targetExponent, totalExponent, hmin, hmantissa]
    omega
  obtain ⟨hfull, hbits⟩ := padded_bits hpos h
  have hround := roundWithAccuracy_exact (k := 0) (e := 0 - (52 - n.log2 : Nat)) .positive hfull hbits
    (by omega) hm
  unfold ofUInt64 ofNat ofInt UnpackedFloat.normalize
  rw [hsame, hcompare]
  show roundWithAccuracy .binary64 .positive (n <<< _) (0 - (_ : Nat)) .exact = _
  rw [Int.toNat_natCast, hshift, Nat.shiftLeft_eq]
  rw [Nat.pow_zero, Nat.mul_one] at hround
  rw [hround, UnpackedFloat.finite.injEq]
  exact ⟨rfl, rfl, by omega⟩

theorem unpack_one :
    have hsize : 0 < Float.exactlyRepresentablePowersOfTen.size := by decide
    Float.exactlyRepresentablePowersOfTen[0].toModel.unpack =
      .finite .positive (2 ^ 52) (-52) (by decide) := rfl

/-- An integer of up to 53 bits is a number. -/
theorem ofNat_small {n : Nat} (hpos : 0 < n) (h : n < 2 ^ 53) (hm : 0 < n * 2 ^ (52 - n.log2)) :
    Float.ofNat n = Float.ofModel (Float.Model.pack
      (.finite .positive (n * 2 ^ (52 - n.log2)) (-(52 - n.log2 : Nat)) hm)) := by
  have hsize : 0 < Float.exactlyRepresentablePowersOfTen.size := by decide
  obtain ⟨hfull, hbits⟩ := padded_bits hpos h
  have hfirst : n.toUInt64.toFloat.toModel.unpack =
      .finite .positive (n * 2 ^ (52 - n.log2)) (-(52 - n.log2 : Nat)) hm := by
    show (Float.Model.pack (ofUInt64 .binary64 n.toUInt64)).unpack = _
    have hnormal : Normal (-52) 0 (.finite .positive (n * 2 ^ (52 - n.log2)) (-(52 - n.log2 : Nat)) hm) :=
      .finite _ hm hfull hbits (by omega) (by omega)
    rw [ofUInt64_eq hpos h hm, hnormal.unpack_pack (by decide) (by decide)]
  -- multiplying with one, as the conversion does, rounds nothing
  have hproduct := roundWithAccuracy_exact (k := 52) (e := -(52 - n.log2 : Nat) + -52) .positive hfull
    hbits (by omega) hm
  show Float.ofScientific n false 0 = _
  unfold Float.ofScientific
  rw [dif_pos ⟨h, by decide⟩]
  show Float.ofModel (Float.Model.pack (mul .binary64 n.toUInt64.toFloat.toModel.unpack
    Float.exactlyRepresentablePowersOfTen[0].toModel.unpack)) = _
  rw [hfirst, unpack_one]
  show Float.ofModel (Float.Model.pack (roundWithAccuracy .binary64 .positive _ _ .exact)) = _
  rw [hproduct]
  congr 3
  omega

/-- An integer of more bits is rounded. -/
theorem ofNat_large {n : Nat} (h : 2 ^ 53 ≤ n) (h' : n < 2 ^ 64) :
    ∃ carry ≤ 1, ∃ m hpos, 2 ^ 52 ≤ m ∧ m < 2 ^ 53 ∧ Rounds (n.log2 - 52) n (m * 2 ^ carry) ∧
      Float.ofNat n = Float.ofModel (Float.Model.pack
        (.finite .positive m ((n.log2 - 52 : Nat) + (carry : Nat)) hpos)) := by
  have hne : n ≠ 0 := Nat.ne_of_gt (Nat.lt_of_lt_of_le (by decide) h)
  have hlog : 53 ≤ n.log2 := (Nat.le_log2 hne).mpr h
  obtain ⟨hlow, hhigh⟩ := (Nat.log2_eq_iff hne).mp rfl
  have hunit := Nat.two_pow_pos 53
  have hfull : 2 ^ (n.log2 + 53) ≤ n * 2 ^ 53 := by
    rw [Nat.pow_add]
    exact Nat.mul_le_mul_right _ hlow
  have hbits : n * 2 ^ 53 < 2 ^ (n.log2 + 53 + 1) := by
    rw [Nat.add_right_comm, Nat.pow_add]
    exact Nat.mul_lt_mul_of_pos_right hhigh hunit
  -- the integer is longer than the mantissa, so its last bits are rounded away
  obtain ⟨carry, hone, m, hpos, hfull', hbits', hrounds, hround⟩ :=
    roundWithAccuracy_rounds (e := -53 + 0) .positive (by omega) hfull hbits (by omega)
  rw [show n.log2 + 53 - 52 = n.log2 - 52 + 53 by omega] at hrounds
  refine ⟨carry, hone, m, hpos, hfull', hbits', hrounds.of_shifted, ?_⟩
  have hexponents : (2 : Int) ^ Format.binary64.exponentBits = 2048 := by decide
  have hscientific : ofScientific .binary64 n 0 =
      roundWithAccuracy .binary64 .positive (n * 2 ^ 53) (-53 + 0) .exact := by
    unfold ofScientific
    rw [dif_neg hne, if_neg (by decide), hexponents, if_neg (by omega), if_pos (by decide)]
    show roundWithAccuracy .binary64 .positive (n <<< 53 * 1) (-53 + 0) .exact = _
    rw [Nat.mul_one, Nat.shiftLeft_eq]
  show Float.ofScientific n false 0 = _
  unfold Float.ofScientific
  rw [dif_neg (by omega)]
  show Float.ofModel (Float.Model.pack (ofScientific .binary64 n 0)) = _
  rw [hscientific, hround]
  congr 3
  omega

/-- An integer in the form it is stored in. The unit is one for up to 53 bits. -/
theorem ofNat_eq {n : Nat} (hpos : 0 < n) (h : n < 2 ^ 64) :
    ∃ m e, ∃ hm : 0 < m, 2 ^ 52 ≤ m ∧ m < 2 ^ 53 ∧ -1074 ≤ e ∧ e ≤ 971 ∧
      Float.ofNat n = Float.ofModel (Float.Model.pack (.finite .positive m e hm)) ∧
      ∃ r, Rounds (n.log2 - 52) n r ∧ r * 2 ^ (n.log2 - 52) * 2 ^ (-e).toNat = m * 2 ^ e.toNat := by
  -- an integer that fits the mantissa, or one that is rounded
  by_cases hsmall : n < 2 ^ 53
  · have hlog : n.log2 < 53 := (Nat.log2_lt (Nat.ne_of_gt hpos)).mpr hsmall
    have hunit : n.log2 - 52 = 0 := by omega
    obtain ⟨hfull, hbits⟩ := padded_bits hpos hsmall
    have hm : 0 < n * 2 ^ (52 - n.log2) := Nat.lt_of_lt_of_le (Nat.two_pow_pos 52) hfull
    have hdown : (-(-((52 - n.log2 : Nat) : Int))).toNat = 52 - n.log2 := by omega
    have hup : (-((52 - n.log2 : Nat) : Int)).toNat = 0 := by omega
    refine ⟨_, _, hm, hfull, hbits, by omega, by omega, ofNat_small hpos hsmall hm, n, ?_, ?_⟩
    · rw [hunit]
      exact rounds_self n
    · rw [hunit, hdown, hup, Nat.pow_zero, Nat.mul_one, Nat.mul_one]
  · have hlog : n.log2 < 64 := (Nat.log2_lt (Nat.ne_of_gt hpos)).mpr h
    obtain ⟨carry, hone, m, hm, hfull, hbits, hrounds, heq⟩ := ofNat_large (by omega) h
    have hdown : (-(((n.log2 - 52 : Nat) : Int) + (carry : Nat))).toNat = 0 := by omega
    have hup : (((n.log2 - 52 : Nat) : Int) + (carry : Nat)).toNat = carry + (n.log2 - 52) := by omega
    refine ⟨m, _, hm, hfull, hbits, by omega, by omega, heq, m * 2 ^ carry, hrounds, ?_⟩
    rw [hdown, hup, Nat.pow_zero, Nat.mul_one, Nat.pow_add, Nat.mul_assoc]

/-- The float of a natural number is an integer, the nearest multiple of its unit, with either sign.
-/
theorem toInt?_ofNat {n : Nat} (h : n < 2 ^ 64) :
    ∃ r, Rounds (n.log2 - 52) n r ∧
      toInt? (Float.ofNat n) = some ((r * 2 ^ (n.log2 - 52) : Nat) : Int) ∧
      toInt? (Float.neg (Float.ofNat n)) = some (-((r * 2 ^ (n.log2 - 52) : Nat) : Int)) := by
  rcases Nat.eq_zero_or_pos n with rfl | hpos
  · have hzero : toInt? (Float.ofNat 0) = some 0 := by decide +kernel
    have hnegated : toInt? (Float.neg (Float.ofNat 0)) = some 0 := by decide +kernel
    refine ⟨0, rounds_self 0, ?_, ?_⟩
    · rw [hzero, Nat.zero_mul]
      rfl
    · rw [hnegated, Nat.zero_mul]
      rfl
  · obtain ⟨m, e, hm, hfull, hbits, hlow, htop, heq, r, hrounds, hvalue⟩ := ofNat_eq hpos h
    have hnormal : Normal (-1074) 971 (.finite .positive m e hm) := .finite _ hm hfull hbits hlow htop
    have hnegated : Float.neg (Float.ofNat n) =
        Float.ofModel (Float.Model.pack (.finite .negative m e hm)) := by
      rw [heq]
      show Float.ofModel (Float.Model.pack (Float.Model.unpack (Float.Model.pack _)).neg) = _
      rw [hnormal.unpack_pack (by decide) (by decide)]
      rfl
    refine ⟨r, hrounds, ?_, ?_⟩
    · rw [heq]
      exact toInt?_pack .positive hm hfull hbits hlow htop hvalue
    · rw [hnegated]
      exact toInt?_pack .negative hm hfull hbits hlow htop hvalue

/-- The number that an integer of 64 bits becomes, signed or not. -/
theorem toInt?_ofInt {n : Int} (hlow : -2 ^ 63 ≤ n) (hhigh : n < 2 ^ 64) :
    ∃ r, Rounds (n.natAbs.log2 - 52) n.natAbs r ∧
      toInt? (Float.ofInt n) = some (n.sign * (r * 2 ^ (n.natAbs.log2 - 52) : Nat)) := by
  -- the sign is put before the float of the absolute value
  cases n with
  | ofNat n =>
    obtain ⟨r, hrounds, hvalue, -⟩ := toInt?_ofNat (Int.ofNat_lt.mp hhigh)
    refine ⟨r, hrounds, ?_⟩
    show toInt? (Float.ofNat n) = some ((n : Int).sign * (r * 2 ^ (n.log2 - 52) : Nat))
    rw [hvalue]
    rcases Nat.eq_zero_or_pos n with rfl | hpos
    · have hzero : r = 0 := hrounds.eq_of_units (c := 0)
      rw [hzero, Nat.zero_mul]
      rfl
    · rw [Int.sign_natCast_of_ne_zero (Nat.ne_of_gt hpos), Int.one_mul]
  | negSucc n =>
    obtain ⟨r, hrounds, -, hvalue⟩ := toInt?_ofNat (n := n + 1) (by omega)
    refine ⟨r, hrounds, ?_⟩
    show toInt? (Float.neg (Float.ofNat (n + 1))) =
      some ((-1 : Int) * (r * 2 ^ ((n + 1).log2 - 52) : Nat))
    rw [hvalue, Int.neg_mul, Int.one_mul]

/-- The float of a 64-bit number is finite. -/
theorem isFinite_ofNat {n : Nat} (h : n < 2 ^ 64) : (Float.ofNat n).isFinite = true := by
  obtain ⟨r, -, hvalue, -⟩ := toInt?_ofNat h
  exact isFinite_of_toInt? hvalue

/-- Integers of 64 bits, signed or not, are finite numbers. -/
theorem isFinite_ofInt {n : Int} (hlow : -2 ^ 63 ≤ n) (hhigh : n < 2 ^ 64) :
    (Float.ofInt n).isFinite = true := by
  obtain ⟨r, -, hvalue⟩ := toInt?_ofInt hlow hhigh
  exact isFinite_of_toInt? hvalue

-- ---------------------------------------------------------------------------
-- Nearest numbers
-- ---------------------------------------------------------------------------

/-- No number that is an integer is nearer to `n` than `k` is. -/
def Nearest (n k : Int) : Prop :=
  ∀ (y : Float) (j : Int), toInt? y = some j → (k - n).natAbs ≤ (j - n).natAbs

/-- No multiple of a unit is nearer than the one that is within half a unit. -/
theorem Rounds.le_units {k n r : Nat} (h : Rounds k n r) (c : Nat) :
    ((r * 2 ^ k : Nat) - (n : Int)).natAbs ≤ ((c * 2 ^ k : Nat) - (n : Int)).natAbs := by
  obtain ⟨hlow, hhigh⟩ := h
  rcases Nat.lt_trichotomy c r with hlt | rfl | hlt
  · have hunit : (c + 1) * 2 ^ k ≤ r * 2 ^ k := Nat.mul_le_mul_right _ hlt
    rw [Nat.succ_mul] at hunit
    omega
  · exact Nat.le_refl _
  · have hunit : (r + 1) * 2 ^ k ≤ c * 2 ^ k := Nat.mul_le_mul_right _ hlt
    rw [Nat.succ_mul] at hunit
    omega

/-- What 53 bits and a power of two can say is not nearer either: it is a multiple of the unit, or
below the leading bit. -/
theorem Rounds.le_mantissa {n r m e : Nat} (h : Rounds (n.log2 - 52) n r) (hm : m < 2 ^ 53) :
    ((r * 2 ^ (n.log2 - 52) : Nat) - (n : Int)).natAbs ≤ ((m * 2 ^ e : Nat) - (n : Int)).natAbs := by
  -- a float with a smaller exponent lies below the leading bit, and any other is a multiple of
  -- the unit
  by_cases hunit : n.log2 - 52 ≤ e
  · have hmultiple : m * 2 ^ e = m * 2 ^ (e - (n.log2 - 52)) * 2 ^ (n.log2 - 52) := by
      rw [Nat.mul_assoc, ← Nat.pow_add, Nat.sub_add_cancel hunit]
    rw [hmultiple]
    exact h.le_units _
  · have hlog : 52 + (n.log2 - 52) = n.log2 := by omega
    have hne : n ≠ 0 := by
      rintro rfl
      exact hunit (Nat.zero_le e)
    have hleading : 2 ^ 52 * 2 ^ (n.log2 - 52) ≤ n := by
      rw [← Nat.pow_add, hlog]
      exact Nat.log2_self_le hne
    have hbelow : m * 2 ^ e ≤ 2 ^ 52 * 2 ^ (n.log2 - 52) :=
      calc m * 2 ^ e ≤ 2 ^ 53 * 2 ^ e := Nat.mul_le_mul_right _ (Nat.le_of_lt hm)
        _ = 2 ^ 52 * 2 ^ (e + 1) := by
          rw [← Nat.pow_add, ← Nat.pow_add, show 52 + (e + 1) = 53 + e by omega]
        _ ≤ 2 ^ 52 * 2 ^ (n.log2 - 52) :=
          Nat.mul_le_mul_left _ (Nat.pow_le_pow_right (by decide) (by omega))
    have hle := h.le_units (2 ^ 52)
    omega

/-- No integral float is nearer to the integer than the rounded one. -/
theorem Rounds.nearest {n : Int} {r : Nat} (h : Rounds (n.natAbs.log2 - 52) n.natAbs r) :
    Nearest n (n.sign * (r * 2 ^ (n.natAbs.log2 - 52) : Nat)) := by
  intro y j hj
  obtain ⟨m, e, hm, hsize⟩ := exists_mantissa hj
  have hle := h.le_mantissa (e := e) hm
  rw [← hsize] at hle
  generalize r * 2 ^ (n.natAbs.log2 - 52) = k at hle
  -- distances do not change with the sign
  rcases Int.lt_trichotomy n 0 with hneg | rfl | hpos
  · rw [Int.sign_eq_neg_one_of_neg hneg]
    omega
  · rw [Int.sign_zero, Int.zero_mul]
    exact Nat.zero_le _
  · rw [Int.sign_eq_one_of_pos hpos]
    omega

/-- An integer is kept that the unit divides. -/
theorem Rounds.eq_iff_dvd {k n r : Nat} (h : Rounds k n r) : r * 2 ^ k = n ↔ 2 ^ k ∣ n := by
  constructor
  · intro heq
    exact ⟨r, by rw [← heq, Nat.mul_comm]⟩
  · rintro ⟨c, rfl⟩
    rw [Nat.mul_comm (2 ^ k) c] at h ⊢
    rw [h.eq_of_units]

/-- **An integer of 64 bits becomes the number that is nearest to it, and stays what it is exactly if
the bits after its first 53 are zeros.** -/
theorem nearest_ofInt {n : Int} (hlow : -2 ^ 63 ≤ n) (hhigh : n < 2 ^ 64) :
    ∃ k, toInt? (Float.ofInt n) = some k ∧ Nearest n k ∧
      (k = n ↔ 2 ^ (n.natAbs.log2 - 52) ∣ n.natAbs) := by
  obtain ⟨r, hrounds, hvalue⟩ := toInt?_ofInt hlow hhigh
  refine ⟨_, hvalue, hrounds.nearest, ?_⟩
  rw [← hrounds.eq_iff_dvd]
  rcases Int.lt_trichotomy n 0 with hneg | rfl | hpos
  · rw [Int.sign_eq_neg_one_of_neg hneg]
    omega
  · have hzero : r = 0 := Rounds.eq_of_units (k := 0) (c := 0) hrounds
    rw [hzero]
    decide
  · rw [Int.sign_eq_one_of_pos hpos]
    omega

/-- An integer that some number is equal to is kept. -/
theorem toInt?_ofInt_of_toInt? {y : Float} {n : Int} (hlow : -2 ^ 63 ≤ n) (hhigh : n < 2 ^ 64)
    (h : toInt? y = some n) : toInt? (Float.ofInt n) = some n := by
  obtain ⟨k, hvalue, hnearest, -⟩ := nearest_ofInt hlow hhigh
  have hle : (k - n).natAbs ≤ (n - n).natAbs := hnearest y n h
  rw [hvalue, show k = n by omega]

end PlanRunner.Number
