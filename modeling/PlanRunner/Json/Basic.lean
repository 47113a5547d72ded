/-!
# PlanRunner — JSON values

A JSON value keeps integers apart from other numbers, because they are written
differently. An object is a list of fields; `ofFields` puts the fields in the
order of their names, which is how every value that is not a fixed record is
written.

* `insertField` — the last of two fields with one name wins;
* `ofFields` — the object with the given fields, sorted by name;
* `get?` — a field of an object, and nothing for any other value.
-/

namespace PlanRunner

/-- A JSON value. Integers are exact; any other number is a binary64 number. -/
inductive Json where
  | null
  | bool (b : Bool)
  | int (n : Int)
  | float (x : Float)
  | str (s : String)
  | arr (elems : List Json)
  | obj (fields : List (String × Json))
  deriving Inhabited, BEq

/-- Puts a field into a list sorted by name; a field of the same name is replaced. -/
def insertField {α : Type} (key : String) (value : α) :
    List (String × α) → List (String × α)
  | [] => [(key, value)]
  | (k, v) :: rest =>
    if key < k then (key, value) :: (k, v) :: rest
    else if key = k then (key, value) :: rest
    else (k, v) :: insertField key value rest

/-- The fields sorted by name, the last of each name. -/
def sortFields {α : Type} (fields : List (String × α)) : List (String × α) :=
  fields.foldl (fun acc (k, v) => insertField k v acc) []

def field? {α : Type} (key : String) : List (String × α) → Option α
  | [] => none
  | (k, v) :: rest => if k = key then some v else field? key rest

@[simp] theorem field?_insertField_self {α : Type} (key : String) (value : α)
    (fields : List (String × α)) : field? key (insertField key value fields) = some value := by
  induction fields with
  | nil => simp [insertField, field?]
  | cons f rest ih =>
    obtain ⟨k, v⟩ := f
    by_cases hlt : key < k
    · simp [insertField, hlt, field?]
    · by_cases heq : key = k
      · simp [insertField, heq, field?]
      · have : ¬ k = key := fun h => heq h.symm
        simp [insertField, hlt, heq, field?, this, ih]

theorem field?_insertField_ne {α : Type} {key other : String} (value : α)
    (fields : List (String × α)) (h : other ≠ key) :
    field? other (insertField key value fields) = field? other fields := by
  induction fields with
  | nil => simp [insertField, field?, h.symm]
  | cons f rest ih =>
    obtain ⟨k, v⟩ := f
    by_cases hlt : key < k
    · simp [insertField, hlt, field?, h.symm]
    · by_cases heq : key = k
      · subst heq; simp [insertField, field?, h.symm]
      · by_cases hk : k = other
        · subst hk; simp [insertField, hlt, heq, field?]
        · simp [insertField, hlt, heq, field?, hk, ih]

theorem field?_map {α β : Type} (f : α → β) (key : String) (fields : List (String × α)) :
    field? key (fields.map fun (k, v) => (k, f v)) = (field? key fields).map f := by
  induction fields with
  | nil => rfl
  | cons field rest ih =>
    rw [List.map_cons, field?, field?, ih]
    split
    · rfl
    · rfl

namespace Json

/-- The object with the given fields; the last field of a name wins. -/
def ofFields (fields : List (String × Json)) : Json :=
  .obj (sortFields fields)

def get? (key : String) : Json → Option Json
  | .obj fields => field? key fields
  | _ => none

def str? : Json → Option String
  | .str s => some s
  | _ => none

def bool? : Json → Option Bool
  | .bool b => some b
  | _ => none

def isObject : Json → Bool
  | .obj _ => true
  | _ => false

def isContainer : Json → Bool
  | .obj _ => true
  | .arr _ => true
  | _ => false

mutual

/-- Sorts the fields of every object in a value by name. -/
def sorted : Json → Json
  | .arr elems => .arr (sortedElems elems)
  | .obj fields => .ofFields (sortedFields fields)
  | json => json

def sortedElems : List Json → List Json
  | [] => []
  | e :: es => e.sorted :: sortedElems es

def sortedFields : List (String × Json) → List (String × Json)
  | [] => []
  | (k, v) :: fs => (k, v.sorted) :: sortedFields fs

end

end Json

end PlanRunner
