import PlanRunner.Json.Basic
import PlanRunner.Number.Decimal

/-!
# PlanRunner — reading JSON

A strict reader over lists of characters: no comments, no trailing commas, no
byte-order mark, no raw control characters in strings, no lone surrogates, and at
most 127 containers inside one another. Why a text is refused is not recorded.

Numbers are read in two steps: the longest run of leading digits that fits 64
bits becomes the significand, and one power of ten scales it. Integers within 64
bits stay exact.

* `parseValue` — one value and the rest of the text;
* `parseWritten?` — a whole text, its fields as they are written;
* `parse?` — a whole text with the fields of its objects sorted by name.
-/

namespace PlanRunner.Json

open PlanRunner.Number

def isGap (c : Char) : Bool :=
  c == ' ' || c == '\t' || c == '\n' || c == '\r'

def skipGap (cs : List Char) : List Char :=
  cs.dropWhile isGap

/-! ## Numbers -/

def maxWord : Nat := Nat.pow 2 64 - 1

/-- A significand and the power of ten that scales it. -/
structure Scaled where
  significand : Nat
  exponent : Int

/-- Takes digits of the whole part while the significand fits 64 bits; each
further digit only raises the exponent. -/
def wholeDigits : Scaled → List Char → Scaled
  | s, [] => s
  | s, c :: cs =>
    let next := 10 * s.significand + (c.toNat - '0'.toNat)
    if s.exponent = 0 ∧ next ≤ maxWord then wholeDigits ⟨next, 0⟩ cs
    else wholeDigits ⟨s.significand, s.exponent + 1⟩ cs

/-- Takes digits of the fraction while the significand fits 64 bits; the digits
after the first that does not fit are dropped. -/
def fractionDigits : Scaled → List Char → Scaled
  | s, [] => s
  | s, c :: cs =>
    let next := 10 * s.significand + (c.toNat - '0'.toNat)
    if next ≤ maxWord then fractionDigits ⟨next, s.exponent - 1⟩ cs else s

def powerOfTen (k : Nat) : Float :=
  Float.ofScientific 1 false k

/-- Divides by `10^308` until the exponent is in range or the number is zero;
four divisions bring every 64-bit significand to zero. -/
def lower : Nat → Float → Int → Float × Int
  | 0, x, e => (x, e)
  | fuel + 1, x, e =>
    if e < -308 && x != 0.0 then lower fuel (x / powerOfTen 308) (e + 308) else (x, e)

/-- The number a scaled significand stands for; out of range is an error, too
small is zero. -/
def Scaled.toFloat? (s : Scaled) : Option Float :=
  let x := Float.ofNat s.significand
  if x == 0.0 then some 0.0
  else if 308 < s.exponent then none
  else
    let (x, e) := lower 4 x s.exponent
    if e < -308 then some 0.0
    else if e < 0 then some (x / powerOfTen (-e).toNat)
    else
      let y := x * powerOfTen e.toNat
      if y.isFinite then some y else none

/-- The exponent part of a number, if the text continues with one. `none` is a
malformed exponent. -/
def parseExponent (cs : List Char) : Option (Option Int × List Char) :=
  match cs with
  | c :: tail =>
    if c = 'e' || c = 'E' then
      let (negative, ds) : Bool × List Char :=
        match tail with
        | '-' :: ds => (true, ds)
        | '+' :: ds => (false, ds)
        | _ => (false, tail)
      let digits := ds.takeWhile Char.isDigit
      if digits.isEmpty then none
      else
        let n : Int := digitsValue digits
        some (some (if negative then -n else n), ds.dropWhile Char.isDigit)
    else some (none, cs)
  | [] => some (none, cs)

/-- A number without its sign. A leading zero stands alone, a point is followed
by a digit, and so is an exponent mark. -/
def parseUnsigned (negative : Bool) (cs : List Char) : Option (Json × List Char) :=
  let whole := cs.takeWhile Char.isDigit
  let rest := cs.dropWhile Char.isDigit
  if whole.isEmpty || (whole.head? == some '0' && 1 < whole.length) then none
  else
    let point : Option (Option (List Char) × List Char) :=
      match rest with
      | '.' :: tail =>
        let ds := tail.takeWhile Char.isDigit
        if ds.isEmpty then none else some (some ds, tail.dropWhile Char.isDigit)
      | _ => some (none, rest)
    point.bind fun (fraction, rest) =>
    (parseExponent rest).bind fun (exponent, rest) =>
      let start := wholeDigits ⟨0, 0⟩ whole
      let n := start.significand
      let signed (x : Float) : Json := .float (if negative then -x else x)
      if fraction.isNone && exponent.isNone && start.exponent == 0 then
        if negative then
          if n = 0 || Nat.pow 2 63 < n then some (signed (Float.ofNat n), rest)
          else some (.int (-(n : Int)), rest)
        else some (.int n, rest)
      else
        let scaled := fractionDigits start (fraction.getD [])
        let scaled := ⟨scaled.significand, scaled.exponent + exponent.getD 0⟩
        (Scaled.toFloat? scaled).map fun x => (signed x, rest)

def parseNumber (cs : List Char) : Option (Json × List Char) :=
  match cs with
  | '-' :: tail => parseUnsigned true tail
  | _ => parseUnsigned false cs

/-! ## Strings -/

/-- The value of a hexadecimal digit of either case. -/
def hexValue? (c : Char) : Option Nat :=
  let n := c.toNat
  if c.isDigit then some (n - 48)
  else if 97 ≤ n && n ≤ 102 then some (n - 87)
  else if 65 ≤ n && n ≤ 70 then some (n - 55)
  else none

/-- Four hexadecimal digits and the rest of the text. -/
def hexUnit? : List Char → Option (Nat × List Char)
  | a :: b :: c :: d :: rest => do
    let a ← hexValue? a
    let b ← hexValue? b
    let c ← hexValue? c
    let d ← hexValue? d
    pure (((a * 16 + b) * 16 + c) * 16 + d, rest)
  | _ => none

/-- The character after `\u`: one unit, or a high surrogate followed by a low one. -/
def unicodeEscape? (cs : List Char) : Option (Char × List Char) :=
  match hexUnit? cs with
  | none => none
  | some (unit, rest) =>
    if 0xDC00 ≤ unit && unit ≤ 0xDFFF then none
    else if 0xD800 ≤ unit && unit ≤ 0xDBFF then
      match rest with
      | '\\' :: 'u' :: tail =>
        match hexUnit? tail with
        | some (low, rest) =>
          if 0xDC00 ≤ low && low ≤ 0xDFFF then
            some (Char.ofNat (0x10000 + (unit - 0xD800) * 0x400 + (low - 0xDC00)), rest)
          else none
        | none => none
      | _ => none
    else some (Char.ofNat unit, rest)

/-- The character an escape stands for, and the text after it. -/
def escape? : List Char → Option (Char × List Char)
  | '"' :: rest => some ('"', rest)
  | '\\' :: rest => some ('\\', rest)
  | '/' :: rest => some ('/', rest)
  | 'b' :: rest => some (Char.ofNat 8, rest)
  | 'f' :: rest => some (Char.ofNat 12, rest)
  | 'n' :: rest => some ('\n', rest)
  | 'r' :: rest => some ('\r', rest)
  | 't' :: rest => some ('\t', rest)
  | 'u' :: rest => unicodeEscape? rest
  | _ => none

/-- The rest of a string after its opening quote, in reverse, and the text after
the closing quote. Each character takes one unit of fuel. -/
def parseString : Nat → List Char → List Char → Option (String × List Char)
  | 0, _, _ => none
  | _ + 1, _, [] => none
  | fuel + 1, seen, c :: cs =>
    if c = '"' then some (String.ofList seen.reverse, cs)
    else if c = '\\' then
      match escape? cs with
      | some (e, rest) => parseString fuel (e :: seen) rest
      | none => none
    else if c.toNat < 32 then none
    else parseString fuel (c :: seen) cs

/-! ## Values -/

def word? (word : List Char) (cs : List Char) : Option (List Char) :=
  if word.isPrefixOf cs then some (cs.drop word.length) else none

mutual

/-- One value and the text after it. `depth` containers may still be opened; fuel
covers two calls for every character. -/
def parseValue : Nat → Nat → List Char → Option (Json × List Char)
  | 0, _, _ => none
  | fuel + 1, depth, cs =>
    match cs with
    | [] => none
    | 'n' :: _ => (word? ['n', 'u', 'l', 'l'] cs).map fun rest => (.null, rest)
    | 't' :: _ => (word? ['t', 'r', 'u', 'e'] cs).map fun rest => (.bool true, rest)
    | 'f' :: _ => (word? ['f', 'a', 'l', 's', 'e'] cs).map fun rest => (.bool false, rest)
    | '"' :: tail => (parseString (tail.length + 1) [] tail).map fun (s, rest) => (.str s, rest)
    | '[' :: tail =>
      match depth with
      | 0 => none
      | depth + 1 =>
        match skipGap tail with
        | ']' :: rest => some (.arr [], rest)
        | tail => (parseElems fuel depth tail).map fun (es, rest) => (.arr es, rest)
    | '{' :: tail =>
      match depth with
      | 0 => none
      | depth + 1 =>
        match skipGap tail with
        | '}' :: rest => some (.obj [], rest)
        | tail => (parseFields fuel depth tail).map fun (fs, rest) => (.obj fs, rest)
    | _ => parseNumber cs

/-- The elements of an array that is not empty, and the text after its bracket. -/
def parseElems : Nat → Nat → List Char → Option (List Json × List Char)
  | 0, _, _ => none
  | fuel + 1, depth, cs =>
    match parseValue fuel depth (skipGap cs) with
    | none => none
    | some (e, rest) =>
      match skipGap rest with
      | ']' :: rest => some ([e], rest)
      | ',' :: rest => (parseElems fuel depth rest).map fun (es, rest) => (e :: es, rest)
      | _ => none

/-- The fields of an object that is not empty, and the text after its brace. -/
def parseFields : Nat → Nat → List Char → Option (List (String × Json) × List Char)
  | 0, _, _ => none
  | fuel + 1, depth, cs =>
    match skipGap cs with
    | '"' :: tail =>
      match parseString (tail.length + 1) [] tail with
      | none => none
      | some (key, rest) =>
        match skipGap rest with
        | ':' :: rest =>
          match parseValue fuel depth (skipGap rest) with
          | none => none
          | some (v, rest) =>
            match skipGap rest with
            | '}' :: rest => some ([(key, v)], rest)
            | ',' :: rest =>
              (parseFields fuel depth rest).map fun (fs, rest) => ((key, v) :: fs, rest)
            | _ => none
        | _ => none
    | _ => none

end

/-- How many containers may stand inside one another. -/
def maxDepth : Nat := 127

/-- Reads a whole text as one value; the fields of its objects stay as written,
repeated names included. -/
def parseWritten? (cs : List Char) : Option Json :=
  match parseValue (2 * cs.length + 2) maxDepth (skipGap cs) with
  | some (json, rest) => if (skipGap rest).isEmpty then some json else none
  | none => none

/-- Reads a whole text as one value; of repeated names the last field counts. -/
def parse? (cs : List Char) : Option Json :=
  (parseWritten? cs).map sorted

/-- `parse?` on a string. -/
def ofText? (s : String) : Option Json :=
  parse? s.toList

end PlanRunner.Json
