import PlanRunner.Layer.Basic
import PlanRunner.Plan.Basic

/-!
# PlanRunner — the wording of prompts

One body of text for each task of a language model. The context of a run is put in
front of a body elsewhere.
-/

namespace PlanRunner.Prompt

/-- A layer as the planner sees it: name, description and functions, the empty ones
left out. -/
def layerLine (l : LayerInfo) : String :=
  let description := if l.description.isEmpty then "" else s!": {l.description}"
  let listed := ", ".intercalate l.functions
  let functions := if l.functions.isEmpty then "" else s!" (functions: {listed})"
  s!"- {l.name}{description}{functions}"

def layerLines (layers : List LayerInfo) : String :=
  if layers.isEmpty then "(no layers registered)" else Text.joinLines (layers.map layerLine)

def failureLines (failures : List (String × String)) : String :=
  Text.joinLines (failures.map fun (id, error) => s!"- {id}: {error}")

/-- A result, or a remark that it is empty. -/
def shownResult (result : String) : String :=
  if result.isEmpty then "(empty)" else result

/-- The section on failed steps, left out when there are none. -/
def failureSection (failures : List (String × String)) : String :=
  if failures.isEmpty then "" else s!"\nFailed steps:\n{failureLines failures}\n"

def directAnswerCheck (query : String) (layers : List LayerInfo) : String :=
  "Decide whether the query below can be answered directly from general knowledge, "
    ++ "without calling any of the available layers.\n\n"
    ++ s!"Available layers:\n{layerLines layers}\n\nQuery: {query}\n\n"
    ++ "Reply with exactly YES or NO."

def directAnswer (query : String) : String :=
  s!"Answer the query below concisely and accurately.\n\nQuery: {query}"

def planCreation (query : String) (layers : List LayerInfo) : String :=
  "Plan how to answer the query by calling layers. Respond with JSON only.\n\n"
    ++ s!"Available layers:\n{layerLines layers}\n\n"
    ++ "Format: a list of root nodes. Each node is\n"
    ++ "\x7b\"layer\": \"<name>\", \"function\": \"<function>\", \"args\": \x7b...\x7d, "
    ++ "\"parallel\": false, \"children\": [...]\x7d\n"
    ++ "Children run after their parent succeeds, concurrently when \"parallel\" is true, "
    ++ "otherwise in order. An argument value \"$parent\" is replaced by the parent's output "
    ++ "and \"$prev\" by the previous sibling's output.\n\n"
    ++ s!"Query: {query}"

def evaluation (query result : String) (failures : List (String × String)) : String :=
  "Judge whether the result below fully answers the query.\n\n"
    ++ s!"Query: {query}\n\nResult:\n{shownResult result}\n"
    ++ failureSection failures
    ++ "\nRespond with JSON only: \x7b\"sufficient\": true|false, \"reason\": \"...\"\x7d"

def retryStrategy (query : String) (plan : Plan) (result reason : String)
    (failures : List (String × String)) : String :=
  "A plan was executed but its result was judged insufficient.\n\n"
    ++ s!"Query: {query}\n\nReason: {reason}\n\nCurrent plan (node ids included):\n"
    ++ s!"{plan.record.pretty}\n\nResult so far:\n{shownResult result}\n"
    ++ failureSection failures
    ++ "\nChoose one action and respond with JSON only:\n"
    ++ "\x7b\"action\": \"replan\", \"node_id\": \"<id>\", \"subtree\": \x7b<node>\x7d\x7d\n"
    ++ "\x7b\"action\": \"adjust\", \"adjustments\": "
    ++ "[\x7b\"node_id\": \"<id>\", \"args\": \x7b...\x7d\x7d]\x7d\n"
    ++ "\x7b\"action\": \"adjust\", \"adjustments\": "
    ++ "[\x7b\"node_id\": \"<id>\", \"instruction\": \"...\"\x7d]\x7d\n"
    ++ "\x7b\"action\": \"none\", \"reason\": \"...\"\x7d"

def parameterExtraction (query : String) (node : Node) (instruction : String) : String :=
  "Produce new arguments for one step of a plan.\n\n"
    ++ s!"Query: {query}\nStep: {node.layer}.{node.function}\n"
    ++ s!"Current args: {node.args.toJson.compact}\nInstruction: {instruction}\n\n"
    ++ "Respond with the new args as a JSON object only."

end PlanRunner.Prompt
