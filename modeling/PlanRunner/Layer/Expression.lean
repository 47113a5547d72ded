import PlanRunner.Number.Decimal
import PlanRunner.Text.Blank

/-!
# PlanRunner — arithmetic expressions

Texts of numbers, parentheses, `+ - * /` and a minus in front, with white space
allowed between the parts:

* `expr = term (('+' | '-') term)*`
* `term = factor (('*' | '/') factor)*`
* `factor = '-' factor | '(' expr ')' | number`

Evaluation goes along with reading, from left to right, so the first fault in the
text is the one reported. A division by zero is reported after its divisor has
been read.
-/

namespace PlanRunner.Expression

/-- Why a text has no value as an expression. -/
inductive Fault where
  | unexpected (c : Char)
  | endOfText
  | unclosed
  | divisionByZero
  | invalidNumber (digits : String)
  deriving DecidableEq, Repr

def Fault.message : Fault → String
  | .unexpected c => s!"Unexpected character: '{c}'"
  | .endOfText => "Unexpected end of expression"
  | .unclosed => "Expected closing parenthesis"
  | .divisionByZero => "Division by zero"
  | .invalidNumber digits => s!"Invalid number: {digits}"

def isNumberChar (c : Char) : Bool :=
  c.isDigit || c == '.'

/-- The fault of finding no number at the start of a text. -/
def noNumber : List Char → Fault
  | [] => .endOfText
  | c :: _ => .unexpected c

/-- The longest run of digits and points, read as a decimal number. -/
def number (cs : List Char) : Except Fault (Float × List Char) :=
  let digits := cs.takeWhile isNumberChar
  if digits.isEmpty then .error (noNumber cs)
  else
    match Number.readUnsigned? false digits with
    | some x => .ok (x, cs.dropWhile isNumberChar)
    | none => .error (.invalidNumber (String.ofList digits))

def skip (cs : List Char) : List Char :=
  cs.dropWhile Text.isBlankChar

mutual

/-- Terms joined by `+` and `-`. Every call takes one unit of fuel, and each
character pays for four. -/
def expr : Nat → List Char → Except Fault (Float × List Char)
  | 0, _ => .error .endOfText
  | fuel + 1, cs =>
    match term fuel cs with
    | .error e => .error e
    | .ok (x, rest) => exprRest fuel x rest

/-- The terms that follow a sum so far. -/
def exprRest : Nat → Float → List Char → Except Fault (Float × List Char)
  | 0, _, _ => .error .endOfText
  | fuel + 1, acc, cs =>
    match skip cs with
    | '+' :: rest =>
      match term fuel rest with
      | .error e => .error e
      | .ok (x, rest) => exprRest fuel (acc + x) rest
    | '-' :: rest =>
      match term fuel rest with
      | .error e => .error e
      | .ok (x, rest) => exprRest fuel (acc - x) rest
    | rest => .ok (acc, rest)

/-- Factors joined by `*` and `/`. -/
def term : Nat → List Char → Except Fault (Float × List Char)
  | 0, _ => .error .endOfText
  | fuel + 1, cs =>
    match factor fuel cs with
    | .error e => .error e
    | .ok (x, rest) => termRest fuel x rest

/-- The factors that follow a product so far. -/
def termRest : Nat → Float → List Char → Except Fault (Float × List Char)
  | 0, _, _ => .error .endOfText
  | fuel + 1, acc, cs =>
    match skip cs with
    | '*' :: rest =>
      match factor fuel rest with
      | .error e => .error e
      | .ok (x, rest) => termRest fuel (acc * x) rest
    | '/' :: rest =>
      match factor fuel rest with
      | .error e => .error e
      | .ok (x, rest) =>
        if x == 0.0 then .error .divisionByZero else termRest fuel (acc / x) rest
    | rest => .ok (acc, rest)

/-- A number, a parenthesised expression, or either with a minus in front. -/
def factor : Nat → List Char → Except Fault (Float × List Char)
  | 0, _ => .error .endOfText
  | fuel + 1, cs =>
    match skip cs with
    | '-' :: rest =>
      match factor fuel rest with
      | .error e => .error e
      | .ok (x, rest) => .ok (-x, rest)
    | '(' :: rest =>
      match expr fuel rest with
      | .error e => .error e
      | .ok (x, rest) =>
        match skip rest with
        | ')' :: rest => .ok (x, rest)
        | _ => .error .unclosed
    | rest => number rest

end

def evaluateChars (cs : List Char) : Except Fault Float :=
  match expr (4 * cs.length + 4) cs with
  | .error e => .error e
  | .ok (x, rest) =>
    match skip rest with
    | [] => .ok x
    | c :: _ => .error (.unexpected c)

def evaluate (s : String) : Except Fault Float :=
  evaluateChars s.toList

end PlanRunner.Expression
