import PlanRunner.Json.Printer

/-!
# PlanRunner — writing TOML

A tree is written table by table, first the plain entries of a table and then the
tables inside it, each under a header with its whole path. A table that has only
tables in it needs no header of its own. Text is written in quotes.
-/

namespace PlanRunner.Toml

def inlineValue : Json → String
  | .str s => String.ofList (Json.strChars s)
  | json => json.compact

def plainLines : List (String × Json) → List String
  | [] => []
  | (_, .obj _) :: rest => plainLines rest
  | (key, json) :: rest => s!"{key} = {inlineValue json}" :: plainLines rest

/-- The lines of a table under its header. -/
def ownSection (path : List String) (fields : List (String × Json)) : List String :=
  let lines := plainLines fields
  if lines.isEmpty then []
  else
    let header := ".".intercalate path
    [String.join ((s!"[{header}]" :: lines).map fun line => line ++ "\n")]

mutual

/-- The sections of a table and of the tables inside it. -/
def sections (path : List String) : Json → List String
  | .obj fields => ownSection path fields ++ sectionsWithin path fields
  | _ => []

def sectionsWithin (path : List String) : List (String × Json) → List String
  | [] => []
  | (key, json) :: rest => sections (path ++ [key]) json ++ sectionsWithin path rest

end

/-- A document of tables, with a blank line between them. -/
def render (fields : List (String × Json)) : String :=
  "\n".intercalate (sectionsWithin [] fields)

end PlanRunner.Toml
