import PlanRunner.Context.Project
import PlanRunner.Prompt.Body
import PlanRunner.Provider.Client
import PlanRunner.Run.Basic
import PlanRunner.Run.Broadcast

/-!
# PlanRunner — the steps of a run

A run reads its request, may answer the query directly, and otherwise asks for a
plan, executes it, has the result judged, and changes the plan and executes it again
as long as the result is insufficient and retries are left. A cancelled run starts
nothing more and waits for no answer.

* `Run.begin` … `Run.judged` — what follows from each event;
* `Run.step?` — the step that is possible right now;
* `Run.next?` — the next step up to a moment, waiting for it if need be.
-/

namespace PlanRunner

/-- What runs are carried out with, in a world with states `σ`. -/
structure Services (σ : Type) where
  registry : Registry σ
  createClient : Task → σ → Except RunError (Client σ) × σ
  rules : RulesSource
  settings : Settings

/-- What a run changes besides itself. -/
structure Surroundings (σ : Type) where
  nowMs : Nat
  world : σ
  context : ProjectContext
  bus : Broadcast RunState

namespace Services

variable {σ : Type}

def dispatch (s : Services σ) : Dispatch σ where
  registry := s.registry
  permits := s.settings.permits
  graceMs := s.settings.cancelGraceMs

end Services

namespace Run

variable {σ : Type}

def publish (around : Surroundings σ) (r : Run) : Surroundings σ :=
  { around with bus := around.bus.publish r.current }

/-- Publishes the states of a run that differ in the ledger, in order. -/
def publishAll (around : Surroundings σ) (r : Run) (ledgers : List Ledger) : Surroundings σ :=
  ledgers.foldl (fun around ledger => publish around { r with ledger := ledger }) around

/-- Puts a question to a language model. A client that cannot be created is an answer
at once. A cancelled run asks nothing. -/
def ask (s : Services σ) (around : Surroundings σ) (r : Run) (question : Question)
    (body : String) : Surroundings σ × Run :=
  let wait (dueMs : Nat) (outcome : Except RunError String) : Run :=
    { r with phase := .asking question ⟨dueMs, outcome⟩ }
  if r.cancelled then (around, wait around.nowMs (.error .cancelled))
  else
    match s.createClient question.task around.world with
    | (.error e, world) => ({ around with world := world }, wait around.nowMs (.error e))
    | (.ok client, world) =>
      let prompt := around.context.compose body client.contextLength
      let (reply, world) := client.complete prompt world
      let outcome := reply.outcome.mapError RunError.provider
      ({ around with world := world }, wait (around.nowMs + reply.waitMs) outcome)

def askPlan (s : Services σ) (around : Surroundings σ) (r : Run) : Surroundings σ × Run :=
  ask s around r .plan (Prompt.planCreation r.query s.registry.describe)

/-- Takes over the facts of the request and puts the first question. -/
def begin (s : Services σ) (around : Surroundings σ) (r : Run) (request : Facts) :
    Surroundings σ × Run :=
  let (refreshed, context) := around.context.apply s.rules request
  let around := { around with context := context }
  let r := if refreshed then r.log "Project context refreshed" else r
  if s.settings.directAnswer then
    ask s around r .directCheck (Prompt.directAnswerCheck r.query s.registry.describe)
  else askPlan s around r

/-- The key of a direct answer among the outcomes. -/
def directAnswerKey : String := "direct-answer"

def answerDirectly (r : Run) (answer : String) : Run :=
  let r :=
    { r with
      ledger := r.ledger.recordFragment directAnswerKey (.completed (.str answer))
      plan := some Plan.empty
      resultText := answer }
  (r.log "Answered directly").conclude none

def execute (r : Run) (plan : Plan) : Run :=
  { r with
    attempt := r.attempt + 1
    phase := .executing (plan.roots.map fun root => .fresh root none none) 0 }

/-- Takes a plan and a ledger, makes them known, and starts to execute the plan. -/
def adopt (around : Surroundings σ) (r : Run) (plan : Plan) (ledger : Ledger) :
    Surroundings σ × Run :=
  let r := { r with plan := some plan, ledger := ledger }
  (publish around r, r.execute plan)

def planned (around : Surroundings σ) (r : Run) (reply : String) : Surroundings σ × Run :=
  match Plan.ofReply reply with
  | .error e => (around, r.conclude (some e.toRunError))
  | .ok plan =>
    let ledger := Ledger.carryOver plan.count r.ledger []
    adopt around r plan (ledger.log s!"Planned {plan.count} node(s)")

/-- The plan of a run, empty before there is one. -/
def planOrEmpty (r : Run) : Plan := r.plan.getD Plan.empty

/-- Takes the verdict on an attempt: the run is over, or it is asked what to do. -/
def judged (s : Services σ) (around : Surroundings σ) (r : Run) (verdict : Verdict) :
    Surroundings σ × Run :=
  if verdict.sufficient then
    (around, (r.log s!"Attempt {r.attempt} sufficient").conclude none)
  else
    let r := r.log s!"Attempt {r.attempt} insufficient: {verdict.reason}"
    if s.settings.maxRetries ≤ r.retries then
      (around, r.conclude (some (.retryBudgetExhausted r.attempt verdict.reason)))
    else
      let body := Prompt.retryStrategy r.query r.planOrEmpty r.resultText verdict.reason
        r.ledger.failures
      ask s around { r with retries := r.retries + 1 } (.strategy verdict.reason) body

def giveUp (around : Surroundings σ) (r : Run) (reason why : String) : Surroundings σ × Run :=
  (around, (r.log s!"Retry stopped: {why}").conclude
    (some (.retryBudgetExhausted r.attempt s!"{reason}; retry stopped: {why}")))

def adjust (s : Services σ) (around : Surroundings σ) (r : Run) (reason : String)
    (named : List String) : AdjustStep → Surroundings σ × Run
  | .finished plan resets => adopt around r plan (Adjusting.finish named resets r.ledger)
  | .stopped why => giveUp around r reason why
  | .asks state node instruction =>
    ask s around r (.arguments reason state node.id)
      (Prompt.parameterExtraction r.query node instruction)

def retry (s : Services σ) (around : Surroundings σ) (r : Run) (reason : String) :
    RetryAction → Surroundings σ × Run
  | .stop why => giveUp around r reason why
  | .replan nodeId subtree =>
    match replan r.planOrEmpty r.ledger nodeId subtree with
    | .again plan ledger => adopt around r plan ledger
    | .stop why => giveUp around r reason why
  | .adjust adjustments =>
    let a := Adjusting.start r.planOrEmpty adjustments
    adjust s around r reason a.named (Adjusting.proceed a.named a.plan a.resets a.todo)

/-- Takes the answer to a question. Cancellation ends the run whatever was asked. -/
def answered (s : Services σ) (around : Surroundings σ) (r : Run) (question : Question)
    (outcome : Except RunError String) : Surroundings σ × Run :=
  match question, outcome with
  | _, .error .cancelled => (around, r.conclude (some .cancelled))
  | .directCheck, .ok reply =>
    if saysYes reply then ask s around r .directAnswer (Prompt.directAnswer r.query)
    else askPlan s around r
  | .directCheck, .error e =>
    askPlan s around (r.log s!"Direct answer check failed: {e.message}")
  | .directAnswer, .ok reply => (around, r.answerDirectly (Text.trim reply))
  | .directAnswer, .error e => (around, r.conclude (some e))
  | .plan, .ok reply => planned around r reply
  | .plan, .error e => (around, r.conclude (some e))
  | .evaluation, .ok reply =>
    judged s around r
      ((Verdict.ofReply reply).getD (.insufficient "evaluator reply was not a verdict"))
  | .evaluation, .error e => judged s around r (.insufficient s!"evaluation failed: {e.message}")
  | .strategy reason, .ok reply => retry s around r reason (RetryAction.ofReply reply)
  | .strategy reason, .error e =>
    giveUp around r reason s!"retry strategy failed: {e.message}"
  | .arguments reason a nodeId, .ok reply =>
    adjust s around r reason a.named (a.answered nodeId reply)
  | .arguments reason _ _, .error e =>
    giveUp around r reason s!"parameter extraction failed: {e.message}"

/-- Takes the end of an execution: the result is put together and judged. -/
def executed (s : Services σ) (around : Surroundings σ) (r : Run) : Surroundings σ × Run :=
  if r.cancelled then (around, r.conclude (some .cancelled))
  else
    let r := { r with resultText := r.planOrEmpty.resultText r.ledger }
    let failures := r.ledger.failures
    if s.settings.failurePolicy = .strict ∧ failures ≠ [] then
      judged s around r (.ofFailures failures)
    else ask s around r .evaluation (Prompt.evaluation r.query r.resultText failures)

/-- What the parts of an execution share. -/
def shared (around : Surroundings σ) (r : Run) (nextTicket : Nat) : Shared σ where
  ledger := r.ledger
  world := around.world
  changes := []
  nextTicket := nextTicket
  cancelledAt := r.cancelledAt
  nowMs := around.nowMs

/-- Takes over what a step of an execution changed, and makes it known. -/
def walked (around : Surroundings σ) (r : Run) (walks : List Walk) (sh : Shared σ) :
    Surroundings σ × Run :=
  (publishAll { around with world := sh.world } r sh.changes.reverse,
    { r with ledger := sh.ledger, phase := .executing walks sh.nextTicket })

/-- The step of a run that is possible right now. -/
def step? (s : Services σ) (around : Surroundings σ) (r : Run) : Option (Surroundings σ × Run) :=
  match r.phase with
  | .starting request => some (begin s around r request)
  | .asking question answer =>
    if r.cancelled then some (answered s around r question (.error .cancelled))
    else if answer.dueMs ≤ around.nowMs then some (answered s around r question answer.outcome)
    else none
  | .executing walks nextTicket =>
    if walks.all Walk.isDone then some (executed s around r)
    else
      match Walk.stepAll? s.dispatch (shared around r nextTicket) walks with
      | some (walks, sh) => some (walked around r walks sh)
      | none => none
  | .over _ => none

/-- When the run can go on, if it waits. -/
def due? (s : Services σ) (around : Surroundings σ) (r : Run) : Option Nat :=
  match r.phase with
  | .starting _ => none
  | .asking _ answer => some answer.dueMs
  | .executing walks nextTicket =>
    Walk.nextEndAll? s.dispatch (shared around r nextTicket) walks
  | .over _ => none

/-- The next step of a run up to a moment; no moment is no limit. -/
def next? (s : Services σ) (limit : Option Nat) (around : Surroundings σ) (r : Run) :
    Option (Surroundings σ × Run) :=
  match step? s around r with
  | some result => some result
  | none =>
    match due? s around r with
    | none => none
    | some t =>
      if limit.all (t ≤ ·) then step? s { around with nowMs := max around.nowMs t } r
      else none

end Run

end PlanRunner
