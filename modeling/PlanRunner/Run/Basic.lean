import PlanRunner.Context.Facts
import PlanRunner.Run.History
import PlanRunner.Run.Retry
import PlanRunner.Run.Settings
import PlanRunner.Run.Summary
import PlanRunner.Run.Walk
import PlanRunner.Task

/-!
# PlanRunner — a run

A run takes a query through questions to language models and executions of a plan
until it is over. Where it stands is its phase; everything others may see of it is
in its state.

* `Phase` — starting, waiting for an answer, executing the plan, or over;
* `Run.state` — what is published about a run;
* `Run.result` — what is left of a run that is over.
-/

namespace PlanRunner

/-- What a language model is being asked. -/
inductive Question where
  | directCheck
  | directAnswer
  | plan
  | evaluation
  /-- What to do about a verdict with this reason. -/
  | strategy (reason : String)
  /-- The arguments of a node, after a verdict with this reason. -/
  | arguments (reason : String) (adjusting : Adjusting) (nodeId : String)

def Question.task : Question → Task
  | .directCheck => .directAnswerCheck
  | .directAnswer => .directAnswerGeneration
  | .plan => .planCreation
  | .evaluation => .evaluation
  | .strategy _ => .retryStrategy
  | .arguments _ _ _ => .parameterExtraction

/-- An answer under way. -/
structure Answer where
  dueMs : Nat
  outcome : Except RunError String

/-- Where a run stands. -/
inductive Phase where
  /-- The request has not been looked at yet. -/
  | starting (request : Facts)
  /-- A language model is being asked. -/
  | asking (question : Question) (answer : Answer)
  /-- The plan is being executed. -/
  | executing (walks : List Walk) (nextTicket : Nat)
  /-- The run is over, with an error if it failed. -/
  | over (error : Option RunError)

/-- A run. -/
structure Run where
  id : String
  query : String
  startMs : Nat
  cancelledAt : Option Nat
  /-- How often the plan has been executed. -/
  attempt : Nat
  /-- How often the plan has been changed. -/
  retries : Nat
  plan : Option Plan
  ledger : Ledger
  resultText : String
  phase : Phase

namespace Run

/-- A run that has just been accepted. -/
def start (id query : String) (request : Facts) (nowMs : Nat) : Run where
  id := id
  query := query
  startMs := nowMs
  cancelledAt := none
  attempt := 0
  retries := 0
  plan := none
  ledger := .start 0
  resultText := ""
  phase := .starting request

def cancelled (r : Run) : Bool := r.cancelledAt.isSome

/-- Cancels a run; only the first time counts. -/
def cancel (r : Run) (nowMs : Nat) : Run :=
  { r with cancelledAt := some (r.cancelledAt.getD nowMs) }

def log (r : Run) (line : String) : Run :=
  { r with ledger := r.ledger.log line }

def conclude (r : Run) (error : Option RunError) : Run :=
  { r with phase := .over error }

/-- What is published about a run. -/
def state (r : Run) (status : RunStatus) (result error : Option String) : RunState where
  id := r.id
  query := r.query
  status := status
  result := result
  error := error
  total := r.ledger.total
  completed := r.ledger.completed.length
  failed := r.ledger.failed.length
  running := r.ledger.running.length
  attempt := r.attempt
  logs := r.ledger.logs
  plan := r.plan.map fun p => p.view r.ledger.status

/-- What is published about a run that goes on. -/
def current (r : Run) : RunState :=
  r.state .running none none

/-- How a run that is over ended. -/
def endStatus (error : Option RunError) : RunStatus :=
  if error.isSome then .failed else .completed

/-- What is left of a run that is over. -/
def result (r : Run) (error : Option RunError) : RunResult where
  text := r.resultText
  error := error.map RunError.message
  ledger := r.ledger
  plan := r.plan

/-- The entry of a run that is over in the list of finished runs. -/
def entry (r : Run) (error : Option RunError) (nowMs : Nat) : HistoryEntry where
  id := r.id
  query := r.query
  result := r.result error
  status := endStatus error
  startMs := r.startMs
  endMs := some nowMs
  logs := r.ledger.logs

end Run

end PlanRunner
