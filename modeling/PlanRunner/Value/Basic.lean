import PlanRunner.Json.Printer
import PlanRunner.Text.Blank

/-!
# PlanRunner — the values that flow between layers

Whatever a planner, a layer or a user supplies becomes one of four shapes: text,
a number, an ordered list, or a mapping whose keys are sorted.

* `Value.ofJson` — null is empty text and truth values are their own names;
* `Value.toJson` — whole numbers below `10^15` are written as integers;
* `Value.record` — the form inside stored records, where a number always has a
  fractional part;
* `Value.text` — the form shown to people and put into prompts;
* `Value.resolve` — puts earlier outputs in place of `$parent` and `$prev`.
-/

namespace PlanRunner

/-- Text, a number, a list, or a mapping with sorted keys. -/
inductive Value where
  | str (s : String)
  | num (x : Float)
  | list (items : List Value)
  | map (fields : List (String × Value))
  deriving Inhabited, BEq

namespace Value

/-- The mapping without fields, which is the default set of arguments. -/
def empty : Value := .map []

mutual

def ofJson : Json → Value
  | .null => .str ""
  | .bool true => .str "true"
  | .bool false => .str "false"
  | .int n => .num (Float.ofInt n)
  | .float x => .num x
  | .str s => .str s
  | .arr elems => .list (ofJsonElems elems)
  | .obj fields => .map (ofJsonFields fields)

def ofJsonElems : List Json → List Value
  | [] => []
  | e :: es => ofJson e :: ofJsonElems es

def ofJsonFields : List (String × Json) → List (String × Value)
  | [] => []
  | (k, v) :: fs => (k, ofJson v) :: ofJsonFields fs

end

/-- The integer a number is written as, if it is whole and below `10^15` in size. -/
def wholeNumber? (x : Float) : Option Int :=
  match Number.toInt? x with
  | some n => if n.natAbs < Nat.pow 10 15 then some n else none
  | none => none

/-- A number in JSON; JSON has no infinities and no not-a-number. -/
def numberToJson (x : Float) : Json :=
  match wholeNumber? x with
  | some n => .int n
  | none => if x.isFinite then .float x else .null

mutual

/-- The JSON form of a value, for remote layers and results. -/
def toJson : Value → Json
  | .str s => .str s
  | .num x => numberToJson x
  | .list items => .arr (toJsonItems items)
  | .map fields => .obj (toJsonFields fields)

def toJsonItems : List Value → List Json
  | [] => []
  | v :: vs => v.toJson :: toJsonItems vs

def toJsonFields : List (String × Value) → List (String × Json)
  | [] => []
  | (k, v) :: fs => (k, v.toJson) :: toJsonFields fs

end

/-- A number inside a stored record. -/
def numberToRecord (x : Float) : Json :=
  if x.isFinite then .float x else .null

mutual

/-- The form of a value inside stored records; numbers keep their fractional part. -/
def record : Value → Json
  | .str s => .str s
  | .num x => numberToRecord x
  | .list items => .arr (recordItems items)
  | .map fields => .obj (recordFields fields)

def recordItems : List Value → List Json
  | [] => []
  | v :: vs => v.record :: recordItems vs

def recordFields : List (String × Value) → List (String × Json)
  | [] => []
  | (k, v) :: fs => (k, v.record) :: recordFields fs

end

/-- A number as text: whole numbers below `10^15` as integers, so that negative
zero is `0`. -/
def numberText (x : Float) : String :=
  match wholeNumber? x with
  | some n => String.ofList (Json.intChars n)
  | none => Number.plainText x

mutual

/-- The text of a value: a list has one item a line, a mapping is compact JSON. -/
def text : Value → String
  | .str s => s
  | .num x => numberText x
  | .list items => Text.joinLines (itemTexts items)
  | .map fields => (toJson (.map fields)).compact

def itemTexts : List Value → List String
  | [] => []
  | v :: vs => v.text :: itemTexts vs

end

def str? : Value → Option String
  | .str s => some s
  | _ => none

/-- A number, or text that reads as one. -/
def number? : Value → Option Float
  | .num x => some x
  | .str s => Number.read? (Text.trimChars s.toList)
  | _ => none

def items? : Value → Option (List Value)
  | .list items => some items
  | _ => none

def get? (key : String) : Value → Option Value
  | .map fields => field? key fields
  | _ => none

/-- Whether a value has no content; a number always has. -/
def isEmpty : Value → Bool
  | .str s => s.isEmpty
  | .num _ => false
  | .list items => items.isEmpty
  | .map fields => fields.isEmpty

/-! ## References to earlier outputs -/

/-- Stands for the parent's output. -/
def parentRef : String := "$parent"

/-- Stands for the output of the sibling just before. -/
def prevRef : String := "$prev"

/-- What a text leaf becomes: an earlier output if the text names one that is
present, else the text itself. -/
def resolveLeaf (parent prev : Option Value) (s : String) : Value :=
  if s = parentRef then parent.getD (.str s)
  else if s = prevRef then prev.getD (.str s)
  else .str s

mutual

/-- Puts earlier outputs in place of the leaves that name them. What is put in is
not looked at again. -/
def resolve (parent prev : Option Value) : Value → Value
  | .str s => resolveLeaf parent prev s
  | .num x => .num x
  | .list items => .list (resolveItems parent prev items)
  | .map fields => .map (resolveFields parent prev fields)

def resolveItems (parent prev : Option Value) : List Value → List Value
  | [] => []
  | v :: vs => v.resolve parent prev :: resolveItems parent prev vs

def resolveFields (parent prev : Option Value) :
    List (String × Value) → List (String × Value)
  | [] => []
  | (k, v) :: fs => (k, v.resolve parent prev) :: resolveFields parent prev fs

end

/-! ## List forms -/

theorem ofJsonElems_eq_map (es : List Json) : ofJsonElems es = es.map ofJson := by
  induction es with
  | nil => rfl
  | cons e es ih => simp [ofJsonElems, ih]

theorem ofJsonFields_eq_map (fs : List (String × Json)) :
    ofJsonFields fs = fs.map fun (k, v) => (k, ofJson v) := by
  induction fs with
  | nil => rfl
  | cons f fs ih => simp [ofJsonFields, ih]

theorem resolveItems_eq_map (parent prev : Option Value) (vs : List Value) :
    resolveItems parent prev vs = vs.map (resolve parent prev) := by
  induction vs with
  | nil => rfl
  | cons v vs ih => simp [resolveItems, ih]

end Value

end PlanRunner
