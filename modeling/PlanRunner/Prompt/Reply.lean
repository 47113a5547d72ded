import PlanRunner.Plan.Builder
import PlanRunner.Prompt.Extraction
import PlanRunner.Text.CodeSet

/-!
# PlanRunner — reading the replies of a language model

Replies may be wrapped in prose and code fences, but the fields that matter are
read strictly.

* `saysYes` — the first word decides;
* `Verdict.ofReply` — the judgement of an evaluator, if the reply is one;
* `RetryAction.ofReply` — what to do next; an unusable reply means to stop;
* `Plan.ofReply` — the plan in a planner's reply.
-/

namespace PlanRunner

/-- Whether the first word of a reply is `yes` in any case. -/
def saysYes (reply : String) : Bool :=
  let word := (reply.toList.dropWhile fun c => !Text.isAlphanumeric c).takeWhile Text.isAlphanumeric
  Text.eqIgnoreAsciiCase (String.ofList word) "yes"

/-- The judgement of one attempt. -/
structure Verdict where
  sufficient : Bool
  reason : String
  deriving DecidableEq, Repr

namespace Verdict

def insufficient (reason : String) : Verdict := ⟨false, reason⟩

def truth? : Json → Option Bool
  | .bool b => some b
  | .str s =>
    if Text.eqIgnoreAsciiCase s "true" then some true
    else if Text.eqIgnoreAsciiCase s "false" then some false
    else none
  | _ => none

/-- The verdict in a reply. A reason that is no text is left empty. -/
def ofReply (reply : String) : Option Verdict := do
  let json ← Extraction.payload? reply
  let sufficient ← (json.get? "sufficient").bind truth?
  let reason := ((json.get? "reason").bind Json.str?).getD ""
  pure ⟨sufficient, reason⟩

end Verdict

/-- How the arguments of a node are to change. -/
inductive ArgsChange where
  | args (json : Json)
  | instruction (text : String)

structure Adjustment where
  nodeId : String
  change : ArgsChange

/-- What is to be done about an insufficient result. -/
inductive RetryAction where
  | replan (nodeId : String) (subtree : Json)
  | adjust (adjustments : List Adjustment)
  | stop (reason : String)

namespace RetryAction

/-- The node a reply names, under either spelling; the first spelling present decides. -/
def nodeIdOf (json : Json) : Option String :=
  match json.get? "node_id" with
  | some id => id.str?
  | none => (json.get? "nodeId").bind Json.str?

/-- The adjustment a list item describes. Arguments count before an instruction,
and an instruction has to say something. -/
def adjustment? (json : Json) : Option Adjustment :=
  match nodeIdOf json with
  | none => none
  | some nodeId =>
    match json.get? "args" with
    | some (.obj args) => some ⟨nodeId, .args (.obj args)⟩
    | _ =>
      match json.get? "instruction" with
      | some (.str text) => if Text.isBlank text then none else some ⟨nodeId, .instruction text⟩
      | _ => none

def replanOf (json : Json) : RetryAction :=
  match nodeIdOf json, json.get? "subtree" with
  | some nodeId, some (.obj fields) => .replan nodeId (.obj fields)
  | _, _ => .stop "replan action is missing node_id or subtree"

/-- The usable adjustments a reply asks for. -/
def adjustOf (json : Json) : RetryAction :=
  let adjustments :=
    match json.get? "adjustments" with
    | some (.arr items) => items.filterMap adjustment?
    | _ => []
  if adjustments.isEmpty then .stop "adjust action has no usable adjustments"
  else .adjust adjustments

/-- The retry action in a reply. -/
def ofReply (reply : String) : RetryAction :=
  match Extraction.payload? reply with
  | none => .stop "retry strategy was not valid JSON"
  | some json =>
    let action := Text.asciiLower (((json.get? "action").bind Json.str?).getD "")
    if action = "replan" then replanOf json
    else if action = "adjust" then adjustOf json
    else if action = "none" then
      .stop (((json.get? "reason").bind Json.str?).getD "no further action proposed")
    else .stop s!"unknown retry action '{action}'"

end RetryAction

def Plan.ofReply (reply : String) : Except Plan.Fault Plan :=
  match Extraction.payload? reply with
  | none => .error .noJson
  | some json => Plan.ofJson json

end PlanRunner
