import PlanRunner.Error
import PlanRunner.Plan.Basic
import PlanRunner.Text.Sha256

/-!
# PlanRunner — plans from JSON

A plan is an array of nodes, an object with such an array under `roots`, a
wrapper that holds a plan under `plan`, or a single node. A node names its layer
and function under one of several spellings; the first spelling present decides.

The id of a node depends on its parent's id, its layer, its function and its
position among its siblings, so equal plans have equal ids and an edit keeps the
ids outside the edited subtree.

* `Plan.nodeId` — the id of the node at a position;
* `Plan.ofJson` — the plan a JSON value describes, or why it describes none;
* `Plan.subtreeOfJson` — a replacement for the node at a position.
-/

namespace PlanRunner.Plan

-- ---------------------------------------------------------------------------
-- Ids
-- ---------------------------------------------------------------------------

/-- The bytes an id is derived from: four parts, each closed by a unit separator. -/
def idPreimage (parentId layer function : String) (index : Nat) : List UInt8 :=
  let part (s : String) : List UInt8 := s.toUTF8.data.toList ++ [0x1f]
  part parentId ++ part layer ++ part function ++ part (String.ofList (Nat.toDigits 10 index))

def hexByte (b : UInt8) : List Char :=
  [Nat.digitChar (b.toNat / 16), Nat.digitChar (b.toNat % 16)]

/-- The id of the node at a position: the first eight bytes of a hash. -/
def nodeId (parentId layer function : String) (index : Nat) : String :=
  let digest := Sha256.digest (idPreimage parentId layer function index)
  String.ofList ('n' :: '-' :: (digest.take 8).flatMap hexByte)

-- ---------------------------------------------------------------------------
-- Nodes and plans
-- ---------------------------------------------------------------------------

inductive Fault where
  | noJson
  | notAPlan
  | rootsNotArray
  | noRoots
  | duplicateId (id : String)
  | nodeNotObject (json : Json)
  | missing (what : String)
  | notText (what : String) (json : Json)
  | argsNotObject (layer function : String) (json : Json)
  | childrenNotArray (json : Json)

def Fault.message : Fault → String
  | .noJson => "planner output contains no JSON plan"
  | .notAPlan => "plan must be an object or an array"
  | .rootsNotArray => "'roots' must be an array"
  | .noRoots => "plan has no roots"
  | .duplicateId id => s!"duplicate node id {id}"
  | .nodeNotObject json => s!"plan node must be an object, got {json.compact}"
  | .missing what => s!"node is missing '{what}'"
  | .notText what json => s!"'{what}' must be a string, got {json.compact}"
  | .argsNotObject layer function json =>
    s!"args of {layer}.{function} must be an object, got {json.compact}"
  | .childrenNotArray json => s!"children must be an array, got {json.compact}"

/-- The run error of a fault of a plan. -/
def Fault.toRunError (f : Fault) : RunError :=
  .malformedPlan f.message

/-- Whatever the fault, the plan is malformed. -/
@[simp] theorem Fault.toRunError_eq (f : Fault) : f.toRunError = .malformedPlan f.message := rfl

def layerKeys : List String := ["layer", "layerName", "layer_name"]

def functionKeys : List String := ["function", "fn"]

def argsKeys : List String := ["args", "arguments"]

/-- The field under the first spelling present. -/
def spelled? (fields : List (String × Json)) : List String → Option Json
  | [] => none
  | key :: keys =>
    match field? key fields with
    | some json => some json
    | none => spelled? fields keys

/-- A required name, without the white space around it. -/
def requireName (fields : List (String × Json)) (keys : List String) (what : String) :
    Except Fault String :=
  match spelled? fields keys with
  | some (.str s) => if Text.isBlank s then .error (.missing what) else .ok (Text.trim s)
  | none => .error (.missing what)
  | some json => .error (.notText what json)

/-- The arguments of a node; absent and null mean none. -/
def nodeArgs (fields : List (String × Json)) (layer function : String) : Except Fault Value :=
  match spelled? fields argsKeys with
  | none => .ok Value.empty
  | some .null => .ok Value.empty
  | some (.obj args) => .ok (Value.ofJson (.obj args))
  | some json => .error (.argsNotObject layer function json)

/-- Whether a node asks for its children to run together: `true`, or that word in
any case. -/
def nodeParallel (fields : List (String × Json)) : Bool :=
  match field? "parallel" fields with
  | some (.bool b) => b
  | some (.str s) => Text.eqIgnoreAsciiCase s "true"
  | _ => false

/-- A node without its children. -/
def nodeHead (fields : List (String × Json)) (parentId : String) (index : Nat) :
    Except Fault Node :=
  match requireName fields layerKeys "layer" with
  | .error e => .error e
  | .ok layer =>
    match requireName fields functionKeys "function" with
    | .error e => .error e
    | .ok function =>
      match nodeArgs fields layer function with
      | .error e => .error e
      | .ok args =>
        .ok ⟨nodeId parentId layer function index, layer, function, args, nodeParallel fields, []⟩

mutual

/-- The node at a position. Its own fields are checked before its children. -/
def buildNode : Json → String → Nat → Except Fault Node
  | .obj fields, parentId, index =>
    match nodeHead fields parentId index with
    | .error e => .error e
    | .ok head =>
      match childrenAmong fields head.id with
      | .error e => .error e
      | .ok children => .ok { head with children := children }
  | json, _, _ => .error (.nodeNotObject json)

/-- The children under the field `children`, if it is there. -/
def childrenAmong : List (String × Json) → String → Except Fault (List Node)
  | [], _ => .ok []
  | (k, v) :: fields, id => if k = "children" then buildChildren v id else childrenAmong fields id

def buildChildren : Json → String → Except Fault (List Node)
  | .null, _ => .ok []
  | .arr items, id => buildNodes items id 0
  | json, _ => .error (.childrenNotArray json)

/-- The nodes at consecutive positions below a parent. -/
def buildNodes : List Json → String → Nat → Except Fault (List Node)
  | [], _, _ => .ok []
  | json :: rest, parentId, index =>
    match buildNode json parentId index with
    | .error e => .error e
    | .ok node =>
      match buildNodes rest parentId (index + 1) with
      | .error e => .error e
      | .ok nodes => .ok (node :: nodes)

end

mutual

/-- The JSON of the roots. `roots` counts before `plan`, and `plan` before the
fields of a single node. -/
def rootsOf : Json → Except Fault (List Json)
  | .arr items => .ok items
  | .obj fields =>
    match field? "roots" fields with
    | some (.arr items) => .ok items
    | some _ => .error .rootsNotArray
    | none => (wrappedRoots fields).getD (.ok [.obj fields])
  | _ => .error .notAPlan

/-- The roots of a plan held under the field `plan`. -/
def wrappedRoots : List (String × Json) → Option (Except Fault (List Json))
  | [] => none
  | (k, v) :: fields => if k = "plan" then some (rootsOf v) else wrappedRoots fields

end

/-- The first string that occurs a second time. -/
def firstRepeated? : List String → List String → Option String
  | _, [] => none
  | seen, s :: rest => if seen.contains s then some s else firstRepeated? (s :: seen) rest

def ofJson (json : Json) : Except Fault Plan :=
  match rootsOf json with
  | .error e => .error e
  | .ok [] => .error .noRoots
  | .ok (first :: rest) =>
    match buildNodes (first :: rest) "" 0 with
    | .error e => .error e
    | .ok roots =>
      let plan : Plan := ⟨roots⟩
      match firstRepeated? [] plan.ids with
      | some id => .error (.duplicateId id)
      | none => .ok plan

/-- A replacement for the node at a position, directly or under `subtree`. -/
def subtreeOfJson (json : Json) (parentId : String) (index : Nat) : Except Fault Node :=
  match json.get? "subtree" with
  | some inner => buildNode inner parentId index
  | none => buildNode json parentId index

end PlanRunner.Plan
