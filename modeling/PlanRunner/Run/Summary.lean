import PlanRunner.Prompt.Reply
import PlanRunner.Run.Ledger

/-!
# PlanRunner — what an attempt produced

The result of an attempt is the text of its completed nodes, a node before its
children. A node that did not complete adds nothing, and neither does anything
below it.

* `Plan.resultText` — the result of a plan as far as it was executed;
* `Verdict.ofFailures` — the verdict that failed nodes alone bring about.
-/

namespace PlanRunner

/-- The parts that are not empty, one a line. -/
def joinFilled (parts : List String) : String :=
  Text.joinLines (parts.filter fun p => !p.isEmpty)

namespace Node

mutual

/-- The text of a completed node and of what is below it. -/
def resultText? (l : Ledger) : Node → Option String
  | ⟨id, _, _, _, _, children⟩ =>
    match l.value? id with
    | some value => some (joinFilled (value.text :: resultTexts l children))
    | none => none

def resultTexts (l : Ledger) : List Node → List String
  | [] => []
  | n :: ns =>
    match n.resultText? l with
    | some text => text :: resultTexts l ns
    | none => resultTexts l ns

end

end Node

/-- The result of a plan as far as it was executed. -/
def Plan.resultText (p : Plan) (l : Ledger) : String :=
  joinFilled (Node.resultTexts l p.roots)

/-- The verdict on an attempt with failed nodes, which are named with their errors. -/
def Verdict.ofFailures (failures : List (String × String)) : Verdict :=
  let shown := ", ".intercalate (failures.map fun (id, error) => s!"{id} ({error})")
  .insufficient s!"{failures.length} node(s) failed: {shown}"

end PlanRunner
