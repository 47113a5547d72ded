import PlanRunner.Error
import PlanRunner.Value.Basic

/-!
# PlanRunner — layers

A layer is a named provider of functions. Calling one takes a moment and may
depend on the state of the outside world, so a call gives the time until its
outcome, the outcome, and the world after it.

* `Registry` — layers by name, in the order of their names;
* `Registry.invoke` — dispatch by name; an unknown name is an error at once.
-/

namespace PlanRunner

/-- The outcome of a call that takes some milliseconds. -/
structure Reply (α : Type) where
  waitMs : Nat
  outcome : α

/-- A provider of functions in a world with states `σ`. No functions listed means
that none are advertised. -/
structure Layer (σ : Type) where
  description : String
  functions : List String
  invoke : String → Value → σ → Reply (Except LayerError Value) × σ

/-- What a planner is told about a layer. -/
structure LayerInfo where
  name : String
  description : String
  functions : List String
  deriving DecidableEq, Repr

/-- A layer whose calls are answered at once and leave the world alone. -/
def Layer.immediate {σ : Type} (description : String) (functions : List String)
    (call : String → Value → Except LayerError Value) : Layer σ where
  description := description
  functions := functions
  invoke function args world := (⟨0, call function args⟩, world)

/-- Layers by name, sorted by name. -/
structure Registry (σ : Type) where
  layers : List (String × Layer σ)

namespace Registry

variable {σ : Type}

def empty : Registry σ := ⟨[]⟩

/-- Adds a layer; one of the same name is replaced. -/
def register (r : Registry σ) (name : String) (layer : Layer σ) : Registry σ :=
  ⟨insertField name layer r.layers⟩

def get? (r : Registry σ) (name : String) : Option (Layer σ) :=
  field? name r.layers

def contains (r : Registry σ) (name : String) : Bool :=
  (r.get? name).isSome

def names (r : Registry σ) : List String :=
  r.layers.map Prod.fst

def size (r : Registry σ) : Nat :=
  r.layers.length

def describe (r : Registry σ) : List LayerInfo :=
  r.layers.map fun (name, layer) => ⟨name, layer.description, layer.functions⟩

def invoke (r : Registry σ) (name function : String) (args : Value) (world : σ) :
    Reply (Except LayerError Value) × σ :=
  match r.get? name with
  | some layer => layer.invoke function args world
  | none => (⟨0, .error (.notFound name)⟩, world)

@[simp] theorem get?_register_self (r : Registry σ) (name : String) (layer : Layer σ) :
    (r.register name layer).get? name = some layer := by
  simp [register, get?]

theorem get?_register_ne (r : Registry σ) {name other : String} (layer : Layer σ)
    (h : other ≠ name) : (r.register name layer).get? other = r.get? other := by
  simp [register, get?, field?_insertField_ne _ _ h]

end Registry

/-! ## Arguments -/

namespace Layer

def missing (key : String) : LayerError :=
  .invalidArguments s!"Missing '{key}' argument"

def requireArg (args : Value) (key : String) : Except LayerError Value :=
  match args.get? key with
  | some v => .ok v
  | none => .error (missing key)

def textArg (args : Value) (key : String) : Except LayerError String :=
  (requireArg args key).map Value.text

def numberArg (args : Value) (key : String) : Except LayerError Float := do
  let value ← requireArg args key
  match value.number? with
  | some x => .ok x
  | none => .error (.invalidArguments s!"'{key}' must be a number, got '{value.text}'")

end Layer

end PlanRunner
