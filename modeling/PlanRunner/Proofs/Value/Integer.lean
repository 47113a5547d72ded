import PlanRunner.Proofs.Number.Nearest
import PlanRunner.Value.Basic

/-!
# PlanRunner — integers on their way into a plan

An integer of 64 bits that a planner or a remote layer sends becomes a binary64 number, and so the
nearest one. It is another integer then, if it has more bits than such a number has; it never becomes
its own text, although the text would keep it.

* `Json.at?`, `Value.at?` — what a path leads to;
* `Value.StandsFor` — a value that says which integer it was;
* `Value.ofJson_integer` — what becomes of an integer at any depth;
* `Value.exists_integer_altered` — one that is altered.
-/

namespace PlanRunner

-- ---------------------------------------------------------------------------
-- Paths
-- ---------------------------------------------------------------------------

/-- From a list to one of its items, or from a mapping to one of its fields. -/
inductive Json.Step where
  | item (i : Nat)
  | field (name : String)
  deriving DecidableEq, Repr

namespace Json

/-- The part of a value that one step leads to. -/
def part? : Step → Json → Option Json
  | .item i, .arr elems => elems[i]?
  | .field name, .obj fields => field? name fields
  | _, _ => none

/-- The value that a path leads to, from outside to inside. -/
def at? (json : Json) : List Step → Option Json
  | [] => some json
  | step :: path => (json.part? step).bind fun part => part.at? path

end Json

namespace Value

open Number (toInt? Nearest)

def part? : Json.Step → Value → Option Value
  | .item i, .list items => items[i]?
  | .field name, .map fields => field? name fields
  | _, _ => none

def at? (value : Value) : List Json.Step → Option Value
  | [] => some value
  | step :: path => (value.part? step).bind fun part => part.at? path

/-- A step into a value finds the value of what the step finds in the JSON. -/
theorem part?_ofJson (step : Json.Step) (json : Json) :
    (ofJson json).part? step = (json.part? step).map ofJson := by
  -- an item of a list or a field of an object; anything else has no parts
  cases step with
  | item i =>
    cases json with
    | arr elems =>
      show (ofJsonElems elems)[i]? = elems[i]?.map ofJson
      rw [ofJsonElems_eq_map, List.getElem?_map]
    | bool b => cases b <;> rfl
    | null => rfl
    | int n => rfl
    | float x => rfl
    | str s => rfl
    | obj fields => rfl
  | field name =>
    cases json with
    | obj fields =>
      show field? name (ofJsonFields fields) = (field? name fields).map ofJson
      rw [ofJsonFields_eq_map, field?_map]
    | bool b => cases b <;> rfl
    | null => rfl
    | int n => rfl
    | float x => rfl
    | str s => rfl
    | arr elems => rfl

/-- A path leads to what has become of the value that it led to. -/
theorem at?_ofJson (json : Json) (path : List Json.Step) :
    (ofJson json).at? path = (json.at? path).map ofJson := by
  induction path generalizing json with
  | nil => rfl
  | cons step path ih =>
    rw [at?, Json.at?, part?_ofJson]
    cases json.part? step with
    | none => rfl
    | some part => exact ih part

-- ---------------------------------------------------------------------------
-- Integers
-- ---------------------------------------------------------------------------

/-- The number that is the integer; or the text of the integer, if no number is equal to it. -/
inductive StandsFor (n : Int) : Value → Prop where
  | num {x : Float} (h : toInt? x = some n) : StandsFor n (.num x)
  | text (h : ∀ x, toInt? x ≠ some n) : StandsFor n (.str (String.ofList (Json.intChars n)))

/-- A number stands for an integer when it is equal to it. -/
theorem standsFor_num_iff {n : Int} {x : Float} : StandsFor n (.num x) ↔ toInt? x = some n := by
  constructor
  · rintro ⟨h⟩
    exact h
  · exact .num

/-- **An integer of 64 bits, at any depth, becomes the number nearest to it. The number stands for the
integer exactly if the bits after its first 53 are zeros.** -/
theorem ofJson_integer {json : Json} {path : List Json.Step} {n : Int}
    (h : json.at? path = some (.int n)) (hlow : -2 ^ 63 ≤ n) (hhigh : n < 2 ^ 64) :
    ∃ x k, (ofJson json).at? path = some (.num x) ∧ toInt? x = some k ∧ Nearest n k ∧
      (StandsFor n (.num x) ↔ 2 ^ (n.natAbs.log2 - 52) ∣ n.natAbs) := by
  obtain ⟨k, hvalue, hnearest, hkept⟩ := Number.nearest_ofInt hlow hhigh
  refine ⟨Float.ofInt n, k, ?_, hvalue, hnearest, ?_⟩
  · rw [at?_ofJson, h]
    rfl
  · rw [standsFor_num_iff, hvalue, Option.some_inj]
    exact hkept

/-- The first of these has 53 bits, and the second has one more. -/
theorem ofJson_integer_nested :
    let json := Json.obj [("ids", .arr [.int 9007199254740991, .int (-9007199254740993)])]
    ∃ x y k, (ofJson json).at? [.field "ids", .item 0] = some (.num x) ∧
      (ofJson json).at? [.field "ids", .item 1] = some (.num y) ∧
      StandsFor 9007199254740991 (.num x) ∧ ¬ StandsFor (-9007199254740993) (.num y) ∧
      toInt? y = some k ∧ Nearest (-9007199254740993) k := by
  intro json
  obtain ⟨x, -, hx, -, -, hkept⟩ := @ofJson_integer json [.field "ids", .item 0] 9007199254740991
    rfl (by decide) (by decide)
  obtain ⟨y, k, hy, hk, hnearest, hkept'⟩ := @ofJson_integer json [.field "ids", .item 1]
    (-9007199254740993) rfl (by decide) (by decide)
  exact ⟨x, y, k, hx, hy, hkept.mpr (by decide), fun h => absurd (hkept'.mp h) (by decide), hk,
    hnearest⟩

/-- An integer of 54 bits becomes a smaller one; its text is not kept. -/
theorem exists_integer_altered :
    ∃ (json : Json) (path : List Json.Step) (n : Int) (x : Float),
      -2 ^ 63 ≤ n ∧ n < 2 ^ 64 ∧ json.at? path = some (.int n) ∧
      (ofJson json).at? path = some (.num x) ∧ toInt? x = some (n - 1) ∧
      ∀ v, (ofJson json).at? path = some v → ¬ StandsFor n v := by
  have hvalue : toInt? (Float.ofInt 9007199254740993) = some 9007199254740992 := by decide +kernel
  refine ⟨.obj [("id", .int 9007199254740993)], [.field "id"], 9007199254740993,
    Float.ofInt 9007199254740993, by decide, by decide, rfl, rfl, hvalue, ?_⟩
  intro v hv hstands
  obtain rfl : Value.num (Float.ofInt 9007199254740993) = v := Option.some.inj hv
  rw [standsFor_num_iff, hvalue] at hstands
  exact absurd hstands (by decide)

end Value

end PlanRunner
