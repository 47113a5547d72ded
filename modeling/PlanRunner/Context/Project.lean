import PlanRunner.Context.Compose

/-!
# PlanRunner — what is known about the project and the request

Two sets of facts with separate authority. The lasting facts are the project's
root and its rules, and are rebuilt only when a request names another root. The
facts of the request are replaced with every request; facts of the server are laid
over them and cannot be overridden.
-/

namespace PlanRunner

def projectRootKey : String := "projectRoot"

def projectRulesKey : String := "projectRules"

def cwdKey : String := "cwd"

/-- The rules of the project at a root, if it has any. -/
def RulesSource : Type := String → Option String

/-- What is known about the project and the latest request. -/
structure ProjectContext where
  lasting : Facts
  request : Facts
  server : Facts
  /-- The roots whose rules were looked up, in order. -/
  lookups : List String
  deriving Inhabited

namespace ProjectContext

/-- Nothing known but the facts of the server. -/
def start (server : Facts) : ProjectContext where
  lasting := .empty
  request := .empty
  server := server
  lookups := []

/-- How often the lasting facts were rebuilt. -/
def refreshes (c : ProjectContext) : Nat := c.lookups.length

/-- The root that a request names; empty text names none. -/
def requestedRoot (request : Facts) : Option String :=
  match request.get? projectRootKey with
  | some v => if v.text.isEmpty then none else some v.text
  | none => none

def root (c : ProjectContext) : Option String :=
  (c.lasting.get? projectRootKey).map Value.text

/-- The lasting facts of a root. -/
def factsOf (rules : RulesSource) (root : String) : Facts :=
  let facts := Facts.empty.set projectRootKey (.str root)
  match rules root with
  | some text => facts.set projectRulesKey (.str text)
  | none => facts

/-- Takes over the facts of a request, and tells whether the lasting facts were
rebuilt. -/
def apply (c : ProjectContext) (rules : RulesSource) (request : Facts) : Bool × ProjectContext :=
  let c := { c with request := request.overlay c.server }
  match requestedRoot request with
  | some root =>
    if c.root = some root then (false, c)
    else (true, { c with lasting := factsOf rules root, lookups := c.lookups ++ [root] })
  | none => (false, c)

def compose (c : ProjectContext) (body : String) (contextLength : Nat) : String :=
  Context.compose c.lasting c.request body contextLength

end ProjectContext

end PlanRunner
