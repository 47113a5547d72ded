/-!
# PlanRunner — decimal forms of binary64 numbers

A finite number is `± m · 2^q`. Its decimal form is the one with the fewest
digits that still rounds to it, and of those the nearest one.

* `Finite.ofFloat?` — the exact parts of a finite number;
* `Finite.shortest` — the digits and the power of ten of its decimal form;
* `plainText` — decimal form without an exponent, for display;
* `ofDecimal` — the binary64 number nearest to a decimal.
-/

namespace PlanRunner.Number

/-- The exact parts of a finite binary64 number, `± mantissa · 2^exponent`. -/
structure Finite where
  negative : Bool
  mantissa : Nat
  exponent : Int
  /-- The next smaller number is only half as far away as the next larger one. -/
  atBinade : Bool
  deriving DecidableEq, Repr

/-- The parts of a number that is neither infinite nor not-a-number. -/
def Finite.ofFloat? (x : Float) : Option Finite :=
  let bits : Nat := x.toBits.toNat
  let negative := bits / Nat.pow 2 63 == 1
  let field : Nat := bits / Nat.pow 2 52 % Nat.pow 2 11
  let fraction : Nat := bits % Nat.pow 2 52
  if field == 2047 then none
  else if field == 0 then some ⟨negative, fraction, -1074, false⟩
  else some ⟨negative, Nat.pow 2 52 + fraction, (field : Int) - 1075, fraction == 0 && 1 < field⟩

def Finite.toInt? (f : Finite) : Option Int :=
  let magnitude : Option Nat :=
    if 0 ≤ f.exponent then some (f.mantissa * Nat.pow 2 f.exponent.toNat)
    else
      let unit := Nat.pow 2 (-f.exponent).toNat
      if f.mantissa % unit == 0 then some (f.mantissa / unit) else none
  magnitude.map fun n => if f.negative then -(n : Int) else n

/-- The integer a number is equal to, if it is finite and one. -/
def toInt? (x : Float) : Option Int :=
  (Finite.ofFloat? x).bind Finite.toInt?

/-- A fraction of natural numbers that stands for a positive real number. -/
structure Ratio where
  num : Nat
  den : Nat

def Ratio.scaled (num : Nat) (q : Int) : Ratio :=
  if 0 ≤ q then ⟨num * Nat.pow 2 q.toNat, 1⟩ else ⟨num, Nat.pow 2 (-q).toNat⟩

def Ratio.over (r : Ratio) (k : Int) : Ratio :=
  if 0 ≤ k then ⟨r.num, r.den * Nat.pow 10 k.toNat⟩
  else ⟨r.num * Nat.pow 10 (-k).toNat, r.den⟩

def digitCount (n : Nat) : Nat :=
  (Nat.toDigits 10 n).length

/-- The power of ten of the leading digit of a positive ratio. No binary64
number is below `10^-400`. -/
def Ratio.leading (r : Ratio) : Int :=
  (digitCount (r.num * Nat.pow 10 400 / r.den) : Int) - 401

/-- A positive decimal number `digits · 10^power`. -/
structure Decimal where
  digits : Nat
  power : Int
  deriving DecidableEq, Repr

/-- Trailing zeros move from the digits into the power; `fuel` bounds their number. -/
def Decimal.strip : Nat → Decimal → Decimal
  | 0, d => d
  | fuel + 1, d =>
    if d.digits != 0 && d.digits % 10 == 0 then strip fuel ⟨d.digits / 10, d.power + 1⟩ else d

/-- The interval of reals that round to a positive finite number, in quarters of
its last binary place; the ends belong to it when the mantissa is even. -/
structure Rounding where
  low : Nat
  value : Nat
  high : Nat
  closed : Bool
  /-- The power of two of a quarter of the last place. -/
  quarter : Int

def Finite.rounding (f : Finite) : Rounding where
  low := if f.atBinade then 4 * f.mantissa - 1 else 4 * f.mantissa - 2
  value := 4 * f.mantissa
  high := 4 * f.mantissa + 2
  closed := f.mantissa % 2 == 0
  quarter := f.exponent - 2

/-- Whether `d · 10^k` rounds to the number. -/
def Rounding.holds (r : Rounding) (d : Nat) (k : Int) : Bool :=
  let low := (Ratio.scaled r.low r.quarter).over k
  let high := (Ratio.scaled r.high r.quarter).over k
  if r.closed then decide (low.num ≤ d * low.den) && decide (d * high.den ≤ high.num)
  else decide (low.num < d * low.den) && decide (d * high.den < high.num)

/-- The decimal with power `k` that rounds to the number and is nearest to it; of
two equally near the one with an even last digit. -/
def Rounding.onGrid (r : Rounding) (k : Int) : Option Nat :=
  let v := (Ratio.scaled r.value r.quarter).over k
  let below := v.num / v.den
  let above := below + 1
  match r.holds below k && below != 0, r.holds above k with
  | true, false => some below
  | false, true => some above
  | false, false => none
  | true, true =>
    let down := v.num - below * v.den
    let up := above * v.den - v.num
    if down < up then some below
    else if up < down then some above
    else if below % 2 == 0 then some below else some above

/-- Seventeen digits always identify a binary64 number, so the search over finer
and finer grids stops; `fuel` counts the grids left. -/
def Rounding.search (r : Rounding) : Nat → Int → Decimal
  | 0, k =>
    let exact := (Ratio.scaled r.value r.quarter).over k
    ⟨exact.num / exact.den, k⟩
  | fuel + 1, k =>
    match r.onGrid k with
    | some d => Decimal.strip 20 ⟨d, k⟩
    | none => r.search fuel (k - 1)

/-- The decimal with the fewest digits that rounds to a positive finite number. -/
def Finite.shortest (f : Finite) : Decimal :=
  let r := f.rounding
  r.search 17 (Ratio.scaled r.value r.quarter).leading

def Decimal.chars (d : Decimal) : List Char :=
  Nat.toDigits 10 d.digits

def Decimal.leading (d : Decimal) : Int :=
  d.power + d.chars.length - 1

/-- Positional text without a point unless there are fractional digits. -/
def Decimal.plainChars (d : Decimal) : List Char :=
  if 0 ≤ d.power then d.chars ++ List.replicate d.power.toNat '0'
  else
    let places := (-d.power).toNat
    let whole := d.chars.length - places
    if places < d.chars.length then d.chars.take whole ++ '.' :: d.chars.drop whole
    else '0' :: '.' :: (List.replicate (places - d.chars.length) '0' ++ d.chars)

/-- A number as plain decimal text: shortest digits, never an exponent, no
fractional part on integers, `inf`, `-inf` and `NaN` for the rest. -/
def plainText (x : Float) : String :=
  match Finite.ofFloat? x with
  | none =>
    if x.isNaN then "NaN" else if x < 0 then "-inf" else "inf"
  | some f =>
    let sign := if f.negative then ['-'] else []
    if f.mantissa = 0 then String.ofList (sign ++ ['0'])
    else String.ofList (sign ++ f.shortest.plainChars)

/-- The binary64 number nearest to `± digits · 10^power`. The leading digit of a
number that is neither zero nor infinite lies between `10^-325` and `10^308`. -/
def ofDecimal (negative : Bool) (digits : Nat) (power : Int) : Float :=
  let leading := power + digitCount digits - 1
  let magnitude : Float :=
    if digits = 0 || leading < -400 then 0.0
    else if 400 < leading then 1.0 / 0.0
    else if 0 ≤ power then Float.ofScientific digits false power.toNat
    else Float.ofScientific digits true (-power).toNat
  if negative then -magnitude else magnitude

def digitsValue (cs : List Char) : Nat :=
  cs.foldl (fun n c => 10 * n + (c.toNat - '0'.toNat)) 0

/-- Reads `digits [. digits] [e [sign] digits]` with at least one digit before the
exponent, and nothing after it. -/
def readUnsigned? (negative : Bool) (cs : List Char) : Option Float :=
  let whole := cs.takeWhile Char.isDigit
  let rest := cs.dropWhile Char.isDigit
  let (fraction, rest) : List Char × List Char :=
    match rest with
    | '.' :: tail => (tail.takeWhile Char.isDigit, tail.dropWhile Char.isDigit)
    | _ => ([], rest)
  if whole.isEmpty && fraction.isEmpty then none
  else
    let exponent : Option Int :=
      match rest with
      | [] => some 0
      | c :: tail =>
        if c = 'e' || c = 'E' then
          let (sign, ds) : Bool × List Char :=
            match tail with
            | '-' :: ds => (true, ds)
            | '+' :: ds => (false, ds)
            | _ => (false, tail)
          if ds.isEmpty || !ds.all Char.isDigit then none
          else
            let n : Int := digitsValue ds
            some (if sign then -n else n)
        else none
    exponent.map fun e =>
      ofDecimal negative (digitsValue (whole ++ fraction)) (e - fraction.length)

/-- Reads a number the way users write one: an optional sign, then decimal digits
with an optional point and exponent, or `inf`, `infinity` or `nan` in any case. -/
def read? (cs : List Char) : Option Float :=
  let (negative, rest) : Bool × List Char :=
    match cs with
    | '-' :: tail => (true, tail)
    | '+' :: tail => (false, tail)
    | _ => (false, cs)
  let word := String.ofList (rest.map Char.toLower)
  if word == "inf" || word == "infinity" then
    some (if negative then -(1.0 / 0.0) else 1.0 / 0.0)
  else if word == "nan" then some (0.0 / 0.0)
  else readUnsigned? negative rest

end PlanRunner.Number
