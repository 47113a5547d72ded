import PlanRunner.Run.Ledger

/-!
# PlanRunner — the states of a run that others see

Every change of a run is published as a whole state, so a reader who missed some
states still knows everything from the next one.
-/

namespace PlanRunner

/-- Whether a run is still going on, and how it ended otherwise. -/
inductive RunStatus where
  | running
  | completed
  | failed
  deriving DecidableEq, Repr

def RunStatus.name : RunStatus → String
  | .running => "RUNNING"
  | .completed => "COMPLETED"
  | .failed => "FAILED"

/-- A run at one moment. -/
structure RunState where
  id : String
  query : String
  status : RunStatus
  result : Option String
  error : Option String
  total : Nat
  completed : Nat
  failed : Nat
  running : Nat
  /-- How often the plan has been executed. -/
  attempt : Nat
  logs : List String
  plan : Option (List NodeView)

namespace RunState

/-- A field that is left out when it has no value. -/
def optional (key : String) : Option Json → List (String × Json)
  | some json => [(key, json)]
  | none => []

def record (s : RunState) : Json :=
  .obj ([("id", .str s.id), ("query", .str s.query), ("status", .str s.status.name)]
    ++ optional "result" (s.result.map .str)
    ++ optional "error" (s.error.map .str)
    ++ [("total_nodes", .int s.total), ("completed_nodes", .int s.completed),
      ("failed_nodes", .int s.failed), ("running_nodes", .int s.running),
      ("attempt", .int s.attempt), ("logs", .arr (s.logs.map .str))]
    ++ optional "tree" (s.plan.map fun nodes => .arr (NodeView.recordAll nodes)))

end RunState

end PlanRunner
