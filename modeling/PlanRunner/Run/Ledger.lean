import PlanRunner.Plan.Basic

/-!
# PlanRunner — the ledger of a run

What is known about the nodes of a plan while it runs: which are running, which
ended and how, and the log. Sets of ids are sorted lists without repetition.

* a node that is in none of the three sets is pending;
* `markRunning` — only a pending node starts;
* `reset` — nodes become pending again and lose their outcomes;
* `carryOver` — a fresh ledger that keeps the log and chosen outcomes.
-/

namespace PlanRunner

/-! ## Sets of ids -/

/-- A sorted list of ids without repetition. -/
abbrev IdSet : Type := List String

namespace IdSet

def insert (id : String) : IdSet → IdSet
  | [] => [id]
  | x :: xs =>
    if id < x then id :: x :: xs
    else if id = x then x :: xs
    else x :: insert id xs

def erase (id : String) (s : IdSet) : IdSet :=
  s.filter fun x => x != id

@[simp] theorem mem_insert {id x : String} {s : IdSet} : x ∈ insert id s ↔ x = id ∨ x ∈ s := by
  induction s with
  | nil => simp [insert]
  | cons y ys ih =>
    by_cases hlt : id < y
    · simp [insert, hlt]
    · by_cases heq : id = y
      · subst heq; simp [insert]
      · simp [insert, hlt, heq, ih]
        constructor
        · rintro (h | h | h)
          · exact .inr (.inl h)
          · exact .inl h
          · exact .inr (.inr h)
        · rintro (h | h | h)
          · exact .inr (.inl h)
          · exact .inl h
          · exact .inr (.inr h)

@[simp] theorem mem_erase {id x : String} {s : IdSet} : x ∈ erase id s ↔ x ∈ s ∧ x ≠ id := by
  simp [erase]

end IdSet

/-! ## Outcomes -/

/-- How a node, or a direct answer, ended. -/
inductive Fragment where
  | completed (value : Value)
  | failed (error : String)

def Fragment.record : Fragment → Json
  | .completed value => .obj [("status", .str "completed"), ("value", value.record)]
  | .failed error => .obj [("status", .str "failed"), ("error", .str error)]

/-- What is known about the nodes of a running plan. -/
structure Ledger where
  /-- The number of nodes of the plan. -/
  total : Nat
  completed : IdSet
  failed : IdSet
  running : IdSet
  logs : List String
  /-- The outcomes by id, sorted by id. -/
  fragments : List (String × Fragment)
  deriving Inhabited

namespace Ledger

/-- The ledger of a plan of which no node has started. -/
def start (total : Nat) : Ledger where
  total := total
  completed := []
  failed := []
  running := []
  logs := []
  fragments := []

def status (l : Ledger) (id : String) : Status :=
  if id ∈ l.completed then .completed
  else if id ∈ l.failed then .failed
  else if id ∈ l.running then .running
  else .pending

/-- The output of a completed node. -/
def value? (l : Ledger) (id : String) : Option Value :=
  if id ∈ l.completed then
    match field? id l.fragments with
    | some (.completed value) => some value
    | _ => none
  else none

/-- The failed nodes with their errors, in the order of their ids. -/
def failures (l : Ledger) : List (String × String) :=
  l.failed.filterMap fun id =>
    match field? id l.fragments with
    | some (.failed error) => some (id, error)
    | _ => none

def isPending (l : Ledger) (id : String) : Bool :=
  !(l.completed.contains id || l.failed.contains id || l.running.contains id)

/-- Starts a pending node; any other node is left alone, and the answer is none. -/
def markRunning (l : Ledger) (id : String) : Option Ledger :=
  if l.isPending id then some { l with running := IdSet.insert id l.running } else none

def markCompleted (l : Ledger) (id : String) (value : Value) : Ledger :=
  { l with
    running := IdSet.erase id l.running
    failed := IdSet.erase id l.failed
    completed := IdSet.insert id l.completed
    fragments := insertField id (.completed value) l.fragments }

def markFailed (l : Ledger) (id : String) (error : String) : Ledger :=
  { l with
    running := IdSet.erase id l.running
    completed := IdSet.erase id l.completed
    failed := IdSet.insert id l.failed
    fragments := insertField id (.failed error) l.fragments }

/-- Records an outcome that belongs to no node. -/
def recordFragment (l : Ledger) (key : String) (fragment : Fragment) : Ledger :=
  { l with fragments := insertField key fragment l.fragments }

/-- Makes nodes pending again and drops their outcomes. -/
def reset (l : Ledger) (ids : List String) : Ledger :=
  { l with
    completed := l.completed.filter fun id => !ids.contains id
    failed := l.failed.filter fun id => !ids.contains id
    running := l.running.filter fun id => !ids.contains id
    fragments := l.fragments.filter fun f => !ids.contains f.1 }

def log (l : Ledger) (line : String) : Ledger :=
  { l with logs := l.logs ++ [line] }

/-- Whether an outcome of a ledger is that of a node which ended that way. -/
def isSettled (l : Ledger) : String × Fragment → Bool
  | (id, .completed _) => l.completed.contains id
  | (id, .failed _) => l.failed.contains id

/-- The outcomes of the nodes in `keep` that ended. -/
def keptFragments (l : Ledger) (keep : List String) : List (String × Fragment) :=
  l.fragments.filter fun f => keep.contains f.1 && l.isSettled f

/-- A ledger for a plan of another size that keeps the log and the outcomes of the
nodes in `keep`; all other nodes are pending. -/
def carryOver (total : Nat) (l : Ledger) (keep : List String) : Ledger :=
  let kept := l.keptFragments keep
  let isCompleted : Fragment → Bool := fun
    | .completed _ => true
    | .failed _ => false
  { total := total
    completed := (kept.filter fun f => isCompleted f.2).map Prod.fst
    failed := (kept.filter fun f => !isCompleted f.2).map Prod.fst
    running := []
    logs := l.logs
    fragments := kept }

def counts (l : Ledger) : Nat × Nat × Nat :=
  (l.completed.length, l.failed.length, l.running.length)

def record (l : Ledger) : Json :=
  let strings (ss : List String) : Json := .arr (ss.map .str)
  .obj [("total_node_count", .int l.total), ("completed", strings l.completed),
    ("failed", strings l.failed), ("running", strings l.running), ("logs", strings l.logs),
    ("fragments", .obj (l.fragments.map fun (id, f) => (id, f.record)))]

end Ledger

end PlanRunner
