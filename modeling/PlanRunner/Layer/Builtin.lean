import PlanRunner.Layer.Basic
import PlanRunner.Layer.Expression
import PlanRunner.Text.Case

/-!
# PlanRunner — the built-in layers

`echo` gives text back, `math` computes, and `text` transforms strings. All three
answer at once and depend on nothing but their arguments.
-/

namespace PlanRunner.Layer

/-! ## Echo -/

/-- The most repetitions one call may ask for. -/
def maxRepeat : Nat := 1000

/-- A number of repetitions: whole and at most `maxRepeat`. -/
def repeatCount? (x : Float) : Option Nat :=
  match Number.toInt? x with
  | some n => if 0 ≤ n ∧ n ≤ maxRepeat then some n.toNat else none
  | none => none

def callEcho (function : String) (args : Value) : Except LayerError Value :=
  if function = "say" then requireArg args "text"
  else if function = "repeat" then do
    let text ← textArg args "text"
    let times ← numberArg args "times"
    match repeatCount? times with
    | some n => .ok (.list (List.replicate n (.str text)))
    | none =>
      .error (.invalidArguments s!"'times' must be a whole number between 0 and {maxRepeat}")
  else .error (.unknownFunction "echo" function)

/-! ## Math -/

/-- The values of a sum: the items of a list, the lines of a text that are not
blank, or a single number. -/
def summands : Value → Except LayerError (List Value)
  | .list items => .ok items
  | .str s => .ok (((Text.lines s).filter fun l => !Text.isBlank l).map .str)
  | .num x => .ok [.num x]
  | .map _ => .error (.invalidArguments "'values' must be a list")

/-- Adds numbers, and texts that read as numbers, from left to right. -/
def sumFrom : Float → List Value → Except LayerError Float
  | acc, [] => .ok acc
  | acc, v :: vs =>
    match v.number? with
    | some x => sumFrom (acc + x) vs
    | none => .error (.invalidArguments s!"'{v.text}' is not a number")

def callMath (function : String) (args : Value) : Except LayerError Value :=
  if function = "evaluate" then do
    let expression ← textArg args "expression"
    match Expression.evaluate expression with
    | .ok x => .ok (.num x)
    | .error fault => .error (.invocationFailed "math" "evaluate" fault.message)
  else if function = "sum" then do
    let values ← requireArg args "values"
    let items ← summands values
    (sumFrom 0.0 items).map .num
  else .error (.unknownFunction "math" function)

/-! ## Text -/

/-- The parts of a concatenation: the texts of a list, or a single text. -/
def parts : Value → List String
  | .list items => items.map Value.text
  | single => [single.text]

def callText (function : String) (args : Value) : Except LayerError Value :=
  if function = "upper" then (textArg args "text").map fun s => .str (Text.upper s)
  else if function = "lower" then (textArg args "text").map fun s => .str (Text.lower s)
  else if function = "length" then
    (textArg args "text").map fun s => .num (Float.ofNat s.toList.length)
  else if function = "concat" then do
    let separator := ((args.get? "separator").map Value.text).getD ""
    let values ← requireArg args "parts"
    .ok (.str (separator.intercalate (parts values)))
  else .error (.unknownFunction "text" function)

/-! ## Registry -/

def echo {σ : Type} : Layer σ :=
  .immediate "Echo text back. say \x7btext\x7d returns text; repeat \x7btext, times\x7d returns a list."
    ["say", "repeat"] callEcho

def math {σ : Type} : Layer σ :=
  .immediate "Arithmetic. evaluate \x7bexpression\x7d computes e.g. '(2 + 3) * 4'; sum \x7bvalues\x7d adds a list of numbers."
    ["evaluate", "sum"] callMath

def text {σ : Type} : Layer σ :=
  .immediate "String transforms. upper \x7btext\x7d, lower \x7btext\x7d, length \x7btext\x7d, concat \x7bparts, separator?\x7d."
    ["upper", "lower", "concat", "length"] callText

end PlanRunner.Layer

namespace PlanRunner

def Registry.builtin {σ : Type} : Registry σ :=
  ((Registry.empty.register "echo" Layer.echo).register "math" Layer.math).register
    "text" Layer.text

end PlanRunner
