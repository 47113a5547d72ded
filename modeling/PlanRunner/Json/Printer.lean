import PlanRunner.Json.Basic
import PlanRunner.Number.Decimal

/-!
# PlanRunner — writing JSON

Two layouts: compact, without any white space, and indented by two spaces.
Both write strings and numbers alike.

* `floatChars` — shortest digits; a decimal point when the leading digit stands
  between `10^-5` and `10^15`, else an exponent with an explicit sign;
* `escapeChar` — only quotes, backslashes and control characters are escaped.
-/

namespace PlanRunner.Json

open PlanRunner.Number

def hexDigit (n : Nat) : Char :=
  Nat.digitChar (n % 16)

def escapeChar (c : Char) : List Char :=
  if c = '"' then ['\\', '"']
  else if c = '\\' then ['\\', '\\']
  else if c = '\n' then ['\\', 'n']
  else if c = '\r' then ['\\', 'r']
  else if c = '\t' then ['\\', 't']
  else if c.toNat = 8 then ['\\', 'b']
  else if c.toNat = 12 then ['\\', 'f']
  else if c.toNat < 32 then ['\\', 'u', '0', '0', hexDigit (c.toNat / 16), hexDigit c.toNat]
  else [c]

def strChars (s : String) : List Char :=
  '"' :: (s.toList.flatMap escapeChar ++ ['"'])

def intChars (n : Int) : List Char :=
  if n < 0 then '-' :: Nat.toDigits 10 n.natAbs else Nat.toDigits 10 n.natAbs

/-- A positive decimal as a JSON number that is not an integer literal. -/
def decimalChars (d : Decimal) : List Char :=
  let e := d.leading
  if -5 ≤ e ∧ e ≤ 15 then
    if 0 ≤ d.power then d.plainChars ++ ['.', '0'] else d.plainChars
  else
    let mantissa :=
      match d.chars with
      | [] => []
      | [c] => [c]
      | c :: cs => c :: '.' :: cs
    let sign := if e < 0 then '-' else '+'
    mantissa ++ 'e' :: sign :: Nat.toDigits 10 e.natAbs

/-- A binary64 number; JSON has no infinities and writes them as `null`. -/
def floatChars (x : Float) : List Char :=
  match Finite.ofFloat? x with
  | none => ['n', 'u', 'l', 'l']
  | some f =>
    let sign := if f.negative then ['-'] else []
    if f.mantissa = 0 then sign ++ ['0', '.', '0'] else sign ++ decimalChars f.shortest

def leafChars : Json → List Char
  | .null => ['n', 'u', 'l', 'l']
  | .bool true => ['t', 'r', 'u', 'e']
  | .bool false => ['f', 'a', 'l', 's', 'e']
  | .int n => intChars n
  | .float x => floatChars x
  | .str s => strChars s
  | .arr _ => []
  | .obj _ => []

mutual

def compactChars : Json → List Char
  | .arr elems => '[' :: (compactElems elems ++ [']'])
  | .obj fields => '{' :: (compactFields fields ++ ['}'])
  | json => leafChars json

def compactElems : List Json → List Char
  | [] => []
  | [e] => e.compactChars
  | e :: es => e.compactChars ++ ',' :: compactElems es

def compactFields : List (String × Json) → List Char
  | [] => []
  | [(k, v)] => strChars k ++ ':' :: v.compactChars
  | (k, v) :: fs => strChars k ++ ':' :: (v.compactChars ++ ',' :: compactFields fs)

end

def newline (depth : Nat) : List Char :=
  '\n' :: List.replicate (2 * depth) ' '

mutual

/-- The indented form; empty arrays and objects stay on one line. -/
def prettyChars (depth : Nat) : Json → List Char
  | .arr [] => ['[', ']']
  | .arr (e :: es) => '[' :: (prettyElems (depth + 1) (e :: es) ++ (newline depth ++ [']']))
  | .obj [] => ['{', '}']
  | .obj (f :: fs) => '{' :: (prettyFields (depth + 1) (f :: fs) ++ (newline depth ++ ['}']))
  | json => leafChars json

def prettyElems (depth : Nat) : List Json → List Char
  | [] => []
  | [e] => newline depth ++ prettyChars depth e
  | e :: es => newline depth ++ (prettyChars depth e ++ ',' :: prettyElems depth es)

def prettyFields (depth : Nat) : List (String × Json) → List Char
  | [] => []
  | [(k, v)] => newline depth ++ (strChars k ++ ':' :: ' ' :: prettyChars depth v)
  | (k, v) :: fs =>
    newline depth ++
      (strChars k ++ ':' :: ' ' :: (prettyChars depth v ++ ',' :: prettyFields depth fs))

end

def compact (json : Json) : String :=
  String.ofList json.compactChars

def pretty (json : Json) : String :=
  String.ofList (json.prettyChars 0)

end PlanRunner.Json
