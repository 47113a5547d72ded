import PlanRunner.Value.Basic

/-!
# PlanRunner — plans

A plan is an ordered forest of layer calls. All roots start together; a node's
children start once the node has its output, either together or one subtree after
the other.

* `Plan.find?` and `Plan.location?` — look a node up by its id;
* `Plan.dependents?` — the ids whose outcome may depend on a node;
* `Plan.replace?` and `Plan.withArgs?` — edits that leave all other nodes alone.

The functions on one node and on a list of nodes go together; the list forms carry
the suffix `All`.
-/

namespace PlanRunner

/-- One layer call and the calls that depend on its output. -/
structure Node where
  id : String
  layer : String
  function : String
  args : Value
  /-- Whether the children run at the same time. -/
  parallel : Bool
  children : List Node
  deriving Inhabited

/-- A forest of layer calls. -/
structure Plan where
  roots : List Node
  deriving Inhabited

namespace Node

mutual

def count : Node → Nat
  | ⟨_, _, _, _, _, children⟩ => 1 + countAll children

def countAll : List Node → Nat
  | [] => 0
  | n :: ns => n.count + countAll ns

end

mutual

/-- The ids of a subtree, a node before its children. -/
def ids : Node → List String
  | ⟨id, _, _, _, _, children⟩ => id :: idsAll children

def idsAll : List Node → List String
  | [] => []
  | n :: ns => n.ids ++ idsAll ns

end

theorem ids_eq (n : Node) : n.ids = n.id :: idsAll n.children := by
  cases n; rfl

theorem mem_ids_self (n : Node) : n.id ∈ n.ids := by
  rw [ids_eq]
  exact List.mem_cons_self

mutual

/-- The first node of a subtree with an id, a node before its children. -/
def find? (target : String) : Node → Option Node
  | ⟨id, layer, function, args, parallel, children⟩ =>
    if id = target then some ⟨id, layer, function, args, parallel, children⟩
    else findAll? target children

def findAll? (target : String) : List Node → Option Node
  | [] => none
  | n :: ns =>
    match n.find? target with
    | some found => some found
    | none => findAll? target ns

end

/-- The position of the first node of a list with an id. -/
def position? (target : String) (nodes : List Node) : Option Nat :=
  nodes.findIdx? fun n => n.id == target

mutual

/-- The parent's id and the position among its children of a node below this one.
The children themselves are looked at before what is below them. -/
def locate? (target : String) : Node → Option (String × Nat)
  | ⟨id, _, _, _, _, children⟩ =>
    match position? target children with
    | some index => some (id, index)
    | none => locateAll? target children

def locateAll? (target : String) : List Node → Option (String × Nat)
  | [] => none
  | n :: ns =>
    match n.locate? target with
    | some place => some place
    | none => locateAll? target ns

end

mutual

def edit (target : String) (change : Node → Node) : Node → Node
  | ⟨id, layer, function, args, parallel, children⟩ =>
    if id = target then change ⟨id, layer, function, args, parallel, children⟩
    else ⟨id, layer, function, args, parallel, editAll target change children⟩

def editAll (target : String) (change : Node → Node) : List Node → List Node
  | [] => []
  | n :: ns => n.edit target change :: editAll target change ns

end

mutual

def same : Node → Node → Bool
  | ⟨id, layer, function, args, parallel, children⟩, n =>
    id == n.id && layer == n.layer && function == n.function && args == n.args
      && parallel == n.parallel && sameAll children n.children

def sameAll : List Node → List Node → Bool
  | [], [] => true
  | n :: ns, m :: ms => n.same m && sameAll ns ms
  | _, _ => false

end

mutual

/-- The stored form of a node; an empty list of children is left out. -/
def record : Node → Json
  | ⟨id, layer, function, args, parallel, children⟩ =>
    let kids := if children.isEmpty then [] else [("children", Json.arr (recordAll children))]
    .obj ([("id", .str id), ("layer", .str layer), ("function", .str function),
      ("args", args.record)] ++ kids ++ [("parallel", .bool parallel)])

def recordAll : List Node → List Json
  | [] => []
  | n :: ns => n.record :: recordAll ns

end

end Node

namespace Plan

/-- The plan without nodes, used when a query is answered directly. -/
def empty : Plan := ⟨[]⟩

def count (p : Plan) : Nat := Node.countAll p.roots

/-- All ids of a plan, a node before its children and roots in order. -/
def ids (p : Plan) : List String := Node.idsAll p.roots

/-- The first node with an id. -/
def find? (p : Plan) (id : String) : Option Node := Node.findAll? id p.roots

def contains (p : Plan) (id : String) : Bool := (p.find? id).isSome

/-- The parent's id, empty for a root, and the position among its siblings of the
node with an id. -/
def location? (p : Plan) (id : String) : Option (String × Nat) :=
  match Node.position? id p.roots with
  | some index => some ("", index)
  | none => Node.locateAll? id p.roots

/-- The ids whose outcome may depend on a node: its own subtree, and in a group
that runs in order also the subtrees of the siblings after it, which may read its
output. -/
def dependents? (p : Plan) (id : String) : Option (List String) :=
  match p.location? id with
  | none => none
  | some (parentId, index) =>
    match p.find? parentId with
    | some parent =>
      if parent.parallel then (p.find? id).map Node.ids
      else some (Node.idsAll (parent.children.drop index))
    | none => (p.find? id).map Node.ids

def edit (p : Plan) (id : String) (change : Node → Node) : Plan :=
  ⟨Node.editAll id change p.roots⟩

/-- The plan with a node replaced by another subtree. -/
def replace? (p : Plan) (id : String) (replacement : Node) : Option Plan :=
  if p.contains id then some (p.edit id fun _ => replacement) else none

/-- The plan with new arguments on a node. -/
def withArgs? (p : Plan) (id : String) (args : Value) : Option Plan :=
  if p.contains id then some (p.edit id fun n => { n with args := args }) else none

def same (p q : Plan) : Bool := Node.sameAll p.roots q.roots

/-- The stored form of a plan. -/
def record (p : Plan) : Json :=
  .obj [("roots", .arr (Node.recordAll p.roots))]

end Plan

/-! ## Progress on a plan -/

/-- Where a node stands. -/
inductive Status where
  | pending
  | running
  | completed
  | failed
  deriving DecidableEq, Repr

def Status.name : Status → String
  | .pending => "pending"
  | .running => "running"
  | .completed => "completed"
  | .failed => "failed"

/-- The shape of a plan with the status of each node. -/
structure NodeView where
  id : String
  layer : String
  function : String
  status : Status
  children : List NodeView

namespace Node

mutual

/-- A subtree with the status of each node. -/
def view (status : String → Status) : Node → NodeView
  | ⟨id, layer, function, _, _, children⟩ =>
    ⟨id, layer, function, status id, viewAll status children⟩

def viewAll (status : String → Status) : List Node → List NodeView
  | [] => []
  | n :: ns => n.view status :: viewAll status ns

end

end Node

def Plan.view (p : Plan) (status : String → Status) : List NodeView :=
  Node.viewAll status p.roots

namespace NodeView

mutual

/-- The stored form of a node's view; an empty list of children is left out. -/
def record : NodeView → Json
  | ⟨id, layer, function, status, children⟩ =>
    let kids := if children.isEmpty then [] else [("children", Json.arr (recordAll children))]
    .obj ([("id", .str id), ("layer", .str layer), ("function", .str function),
      ("status", .str status.name)] ++ kids)

def recordAll : List NodeView → List Json
  | [] => []
  | n :: ns => n.record :: recordAll ns

end

end NodeView

end PlanRunner
