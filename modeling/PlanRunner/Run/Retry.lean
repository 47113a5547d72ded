import PlanRunner.Prompt.Reply
import PlanRunner.Run.Ledger

/-!
# PlanRunner — changing a plan between attempts

A replan puts a new subtree in place of a node and keeps every outcome it cannot
affect. An adjustment gives nodes new arguments and makes everything that depends on
them pending again. A request that cannot be carried out stops the retries, and
then the plan and its ledger are as they were.

* `replan` — the plan and the ledger after a replan;
* `Adjusting.proceed` — the adjustments up to one whose arguments have to be asked for;
* `Adjusting.finish` — the plan and the ledger after all adjustments.
-/

namespace PlanRunner

/-- What comes of a retry: a plan and a ledger to go on with, or a reason to stop. -/
inductive Retry where
  | again (plan : Plan) (ledger : Ledger)
  | stop (reason : String)

def unknownReplan (nodeId : String) : Retry :=
  .stop s!"replan names unknown node '{nodeId}'"

/-- The ids whose outcomes survive a change of the nodes in `dropped`. -/
def keptIds (plan : Plan) (dropped : List String) : List String :=
  plan.ids.filter fun id => !dropped.contains id

/-- Puts a new subtree in place of a node. -/
def replan (plan : Plan) (ledger : Ledger) (nodeId : String) (subtree : Json) : Retry :=
  match plan.location? nodeId, plan.find? nodeId with
  | some (parentId, index), some old =>
    match Plan.subtreeOfJson subtree parentId index with
    | .error e => .stop s!"replacement subtree rejected: {e.toRunError.message}"
    | .ok replacement =>
      match plan.replace? nodeId replacement, plan.dependents? nodeId with
      | some next, some dropped =>
        let carried := Ledger.carryOver next.count ledger (keptIds plan dropped)
        .again next (carried.log
          s!"Replanned {nodeId}: {old.count} node(s) replaced, tree now has {next.count}")
      | _, _ => unknownReplan nodeId
  | _, _ => unknownReplan nodeId

/-! ## Adjustments -/

/-- Adjustments that are being carried out. -/
structure Adjusting where
  /-- The plan with the adjustments so far. -/
  plan : Plan
  /-- The ids that become pending again. -/
  resets : List String
  /-- The adjustments that are left. -/
  todo : List Adjustment
  /-- The nodes named by all adjustments, in order. -/
  named : List String

/-- What comes next when adjustments are carried out. -/
inductive AdjustStep where
  | finished (plan : Plan) (resets : List String)
  /-- The arguments of a node have to be found out from an instruction. -/
  | asks (state : Adjusting) (node : Node) (instruction : String)
  | stopped (reason : String)

namespace Adjusting

def start (plan : Plan) (adjustments : List Adjustment) : Adjusting :=
  ⟨plan, [], adjustments, adjustments.map Adjustment.nodeId⟩

def unknown (nodeId : String) : String :=
  s!"adjustment names unknown node '{nodeId}'"

/-- Gives a node new arguments and remembers what depends on it. -/
def change (plan : Plan) (resets : List String) (nodeId : String) (args : Json) :
    Except String (Plan × List String) :=
  if !args.isObject then .error s!"arguments for '{nodeId}' must be an object"
  else
    match plan.dependents? nodeId, plan.withArgs? nodeId (Value.ofJson args) with
    | some dependents, some next => .ok (next, resets ++ dependents)
    | _, _ => .error (unknown nodeId)

/-- Carries out adjustments up to the first that needs an answer. -/
def proceed (named : List String) (plan : Plan) (resets : List String) :
    List Adjustment → AdjustStep
  | [] => .finished plan resets
  | ⟨nodeId, wanted⟩ :: todo =>
    match plan.find? nodeId with
    | none => .stopped (unknown nodeId)
    | some node =>
      match wanted with
      | .instruction text => .asks ⟨plan, resets, todo, named⟩ node text
      | .args json =>
        match change plan resets nodeId json with
        | .ok (plan, resets) => proceed named plan resets todo
        | .error reason => .stopped reason

def noArguments (nodeId : String) : String :=
  s!"parameter extraction for '{nodeId}' did not produce an object"

/-- Goes on with the answer to the question about a node's arguments. -/
def answered (a : Adjusting) (nodeId : String) (reply : String) : AdjustStep :=
  match Extraction.payload? reply with
  | some (.obj fields) =>
    match change a.plan a.resets nodeId (.obj fields) with
    | .ok (plan, resets) => proceed a.named plan resets a.todo
    | .error reason => .stopped reason
  | _ => .stopped (noArguments nodeId)

/-- The ledger after adjustments: what depends on an adjusted node is pending again. -/
def finish (named : List String) (resets : List String) (ledger : Ledger) : Ledger :=
  named.foldl (fun l id => l.log s!"Adjusted arguments of {id}") (ledger.reset resets)

/-- An answer that is asked for leaves fewer adjustments than there were. -/
theorem todo_length_lt {named : List String} {state : Adjusting} {node : Node} {text : String} :
    ∀ {todo : List Adjustment} {plan : Plan} {resets : List String},
      proceed named plan resets todo = .asks state node text → state.todo.length < todo.length
  | [], plan, resets, h => by simp [proceed] at h
  | ⟨nodeId, wanted⟩ :: todo, plan, resets, h => by
    simp only [proceed] at h
    split at h
    · simp at h
    · split at h
      · simp only [AdjustStep.asks.injEq] at h
        obtain ⟨rfl, _⟩ := h
        simp
      · split at h
        · have := todo_length_lt h
          simp only [List.length_cons]; omega
        · simp at h

theorem todo_length_answered {a state : Adjusting} {nodeId reply text : String} {node : Node}
    (h : a.answered nodeId reply = .asks state node text) :
    state.todo.length < a.todo.length := by
  simp only [answered] at h
  split at h
  · split at h
    · exact todo_length_lt h
    · simp at h
  · simp at h

end Adjusting

end PlanRunner
