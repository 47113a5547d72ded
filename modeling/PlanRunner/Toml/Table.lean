import PlanRunner.Json.Basic

/-!
# PlanRunner — TOML tables under construction

A document is built entry by entry. A table that was opened by a header or written as
a value is finished as a whole; one that only came to be as part of a longer path can
still be opened once, and one that came to be through a dotted key can only be
extended through dotted keys.

* `Table.define?` — a table header, `Table.append?` — a header of an array of tables;
* `Table.assign?` — a key with its value;
* `Table.toJson` — the tree of the finished document.
-/

namespace PlanRunner.Toml

/-- What stands under a key. -/
inductive Item where
  /-- A value, which nothing can be added to. -/
  | value (json : Json)
  /-- A table. `implied` ones came to be as part of a path, `dotted` ones through a
  dotted key. -/
  | table (implied dotted : Bool) (fields : List (String × Item))
  /-- An array of tables, of which the last one can be added to. -/
  | tables (done : List (List (String × Item))) (last : List (String × Item))

/-- The entries of a table. -/
abbrev Table : Type := List (String × Item)

namespace Table

/-- Changes the table at a path. Tables that are missing on the way come to be as
implied ones. A dotted path does not lead into tables that were opened by a header.
`change` is told whether the table came to be through a dotted key. -/
def within? (viaDots : Bool) (change : Bool → Table → Option Table) :
    List String → Bool → Table → Option Table
  | [], dotted, t => change dotted t
  | key :: path, _, t =>
    match field? key t with
    | none =>
      (within? viaDots change path viaDots []).map fun inner =>
        insertField key (.table true viaDots inner) t
    | some (.value _) => none
    | some (.tables done last) =>
      (within? viaDots change path false last).map fun last =>
        insertField key (.tables done last) t
    | some (.table implied dotted inner) =>
      if viaDots && !implied then none
      else
        (within? viaDots change path dotted inner).map fun inner =>
          insertField key (.table implied dotted inner) t

/-- Opens the table under a key: a new one, or one that only came to be as part of a
path. -/
def openTable? (key : String) (t : Table) : Option Table :=
  match field? key t with
  | none => some (insertField key (.table false false []) t)
  | some (.table true false inner) => some (insertField key (.table false false inner) t)
  | _ => none

/-- Opens a further table of the array under a key. -/
def openNext? (key : String) (t : Table) : Option Table :=
  match field? key t with
  | none => some (insertField key (.tables [] []) t)
  | some (.tables done last) => some (insertField key (.tables (done ++ [last]) []) t)
  | _ => none

def define? (path : List String) (key : String) (root : Table) : Option Table :=
  within? false (fun _ t => openTable? key t) path false root

/-- A header of an array of tables. -/
def append? (path : List String) (key : String) (root : Table) : Option Table :=
  within? false (fun _ t => openNext? key t) path false root

def insertNew? (key : String) (json : Json) (t : Table) : Option Table :=
  match field? key t with
  | none => some (insertField key (.value json) t)
  | some _ => none

/-- A key with its value, `path` being what stands before the last dot of the key. A
key without dots does not belong into a table of a dotted key, and the other way
round. -/
def put? (path : List String) (key : String) (json : Json) (t : Table) : Option Table :=
  within? true
    (fun dotted t => if dotted == path.isEmpty then none else insertNew? key json t) path false t

/-- A key with its value under the latest header. -/
def assign? (header path : List String) (key : String) (json : Json) (root : Table) :
    Option Table :=
  within? false (fun _ t => put? path key json t) header false root

end Table

mutual

def Item.toJson : Item → Json
  | .value json => json
  | .table _ _ fields => .obj (Table.toFields fields)
  | .tables done last => .arr (Table.toObjects done ++ [.obj (Table.toFields last)])

def Table.toFields : List (String × Item) → List (String × Json)
  | [] => []
  | (key, item) :: rest => (key, item.toJson) :: Table.toFields rest

def Table.toObjects : List (List (String × Item)) → List Json
  | [] => []
  | t :: ts => .obj (Table.toFields t) :: Table.toObjects ts

end

def Table.toJson (t : Table) : Json := .obj (Table.toFields t)

end PlanRunner.Toml
