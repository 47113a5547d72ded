import PlanRunner.Layer.Basic
import PlanRunner.Run.Ledger

/-!
# PlanRunner — walking through a plan

A plan is walked through by many parts at once. A node is called only after its
parent has its output. Children that run together all start before any of them is
waited for; otherwise one subtree comes after the other and a child sees the output
of the sibling before it. Below a failed node nothing starts. Nodes that already
ended are not called again, but what is below a completed node is visited.

The number of calls at one time may be bounded. A node that finds no room takes a
ticket, and tickets are served in order. A cancelled walk starts nothing more; calls
in flight may still end within a grace period and are abandoned after it.

* `Walk` — where the walk through one subtree stands;
* `visit`, `launch`, `settle` — the steps of a single node;
* `Walk.poke?` — the leftmost step that a gate lets through right now;
* `Walk.stepAll?` — the next step of a forest; waiting nodes come last;
* `Walk.weight_stepAll?` — every step leaves less to do.
-/

namespace PlanRunner

/-- A call in flight: when its outcome arrives and what it will be. -/
structure Call where
  dueMs : Nat
  outcome : Except LayerError Value

/-- Where the walk through a subtree stands. -/
inductive Walk where
  /-- The node has not been looked at yet. -/
  | fresh (node : Node) (parent prev : Option Value)
  /-- The node waits to be called. -/
  | queued (node : Node) (parent prev : Option Value) (ticket : Nat)
  /-- The node's call is in flight. -/
  | calling (node : Node) (call : Call)
  /-- The children of a completed node run together. -/
  | group (output : Value) (members : List Walk)
  /-- One child of a completed node runs, and others come after it. -/
  | chain (output : Value) (current : Walk) (later : List Node)
  /-- Nothing is left to do; the node's output, if it completed. -/
  | done (output : Option Value)

/-- How calls are made. -/
structure Dispatch (σ : Type) where
  registry : Registry σ
  /-- The most calls at one time; none is no bound. -/
  permits : Option Nat
  graceMs : Nat

/-- What all parts of a walk share. -/
structure Shared (σ : Type) where
  ledger : Ledger
  world : σ
  /-- The ledgers after each change, the latest first. -/
  changes : List Ledger
  nextTicket : Nat
  cancelledAt : Option Nat
  nowMs : Nat

namespace Shared

variable {σ : Type}

def cancelled (sh : Shared σ) : Bool := sh.cancelledAt.isSome

def announce (sh : Shared σ) : Shared σ :=
  { sh with changes := sh.ledger :: sh.changes }

end Shared

namespace Walk

def isDone : Walk → Bool
  | .done _ => true
  | _ => false

/-- A group of which every member is done is done. -/
def closeGroup (output : Value) (members : List Walk) : Walk :=
  if members.all isDone then .done (some output) else .group output members

/-- What comes after a child with an output: the next child, unless there is none or
the walk has been cancelled. -/
def nextInChain (cancelled : Bool) (output : Value) (prev : Option Value) : List Node → Walk
  | [] => .done (some output)
  | node :: later =>
    if cancelled then .done (some output)
    else .chain output (.fresh node (some output) prev) later

/-- A chain of which the current child is done goes on to the next. -/
def closeChain (cancelled : Bool) (output : Value) (current : Walk) (later : List Node) : Walk :=
  match current with
  | .done prev => nextInChain cancelled output prev later
  | current => .chain output current later

/-- The walk through the children of a node that has its output. -/
def descend (cancelled : Bool) (node : Node) (output : Value) : Walk :=
  if node.children.isEmpty then .done (some output)
  else if node.parallel then
    .group output (node.children.map fun child => .fresh child (some output) none)
  else nextInChain cancelled output none node.children

/-! ## The steps of a node -/

variable {σ : Type}

/-- Marks a node as running and starts its call. A cancelled walk and a node that is
no longer pending start nothing. -/
def launch (d : Dispatch σ) (sh : Shared σ) (node : Node) (parent prev : Option Value) :
    Walk × Shared σ :=
  if sh.cancelled then (.done none, sh)
  else
    match sh.ledger.markRunning node.id with
    | none => (.done none, sh)
    | some ledger =>
      let sh := { sh with ledger := ledger }.announce
      let args := node.args.resolve parent prev
      let (reply, world) := d.registry.invoke node.layer node.function args sh.world
      (.calling node ⟨sh.nowMs + reply.waitMs, reply.outcome⟩, { sh with world := world })

/-- Looks at a node: one that is pending is called if there is room and takes a
ticket otherwise, and what is below one that completed is visited. -/
def visit (d : Dispatch σ) (room : Bool) (sh : Shared σ) (node : Node)
    (parent prev : Option Value) : Walk × Shared σ :=
  match sh.ledger.status node.id with
  | .completed =>
    match sh.ledger.value? node.id with
    | some output => (descend sh.cancelled node output, sh)
    | none => (.done none, sh)
  | .failed => (.done none, sh)
  | .running => (.done none, sh)
  | .pending =>
    if room || sh.cancelled then launch d sh node parent prev
    else (.queued node parent prev sh.nextTicket, { sh with nextTicket := sh.nextTicket + 1 })

def logLine (node : Node) : Except LayerError Value → String
  | .ok _ => s!"{node.id} {node.layer}.{node.function} completed"
  | .error e => s!"{node.id} {node.layer}.{node.function} failed: {e.message}"

def record (ledger : Ledger) (node : Node) (outcome : Except LayerError Value) : Ledger :=
  let ledger := ledger.log (logLine node outcome)
  match outcome with
  | .ok value => ledger.markCompleted node.id value
  | .error e => ledger.markFailed node.id e.message

/-- Takes the outcome of a node's call; the children of a completed node come next. -/
def settle (sh : Shared σ) (node : Node) (outcome : Except LayerError Value) :
    Walk × Shared σ :=
  let sh := { sh with ledger := record sh.ledger node outcome }.announce
  match outcome with
  | .ok value => (descend sh.cancelled node value, sh)
  | .error _ => (.done none, sh)

/-! ## Which steps are possible -/

/-- When a call ends: when its outcome arrives, but after a cancellation no later than
the end of the grace period. -/
def endsAt (d : Dispatch σ) (sh : Shared σ) (call : Call) : Nat :=
  match sh.cancelledAt with
  | none => call.dueMs
  | some t => min call.dueMs (t + d.graceMs)

/-- How a call ends: with its own outcome, or abandoned if that arrives only after the
grace period. -/
def ending (d : Dispatch σ) (sh : Shared σ) (node : Node) (call : Call) :
    Except LayerError Value :=
  match sh.cancelledAt with
  | none => call.outcome
  | some t =>
    if call.dueMs ≤ t + d.graceMs then call.outcome
    else .error (.abandoned node.layer node.function d.graceMs)

mutual

def callCount : Walk → Nat
  | .calling _ _ => 1
  | .group _ members => callCountAll members
  | .chain _ current _ => current.callCount
  | .fresh _ _ _ => 0
  | .queued _ _ _ _ => 0
  | .done _ => 0

def callCountAll : List Walk → Nat
  | [] => 0
  | w :: ws => w.callCount + callCountAll ws

end

mutual

def tickets : Walk → List Nat
  | .queued _ _ _ ticket => [ticket]
  | .group _ members => ticketsAll members
  | .chain _ current _ => current.tickets
  | .fresh _ _ _ => []
  | .calling _ _ => []
  | .done _ => []

def ticketsAll : List Walk → List Nat
  | [] => []
  | w :: ws => w.tickets ++ ticketsAll ws

end

/-- What a step may use: whether a call may start that nobody waits for, and which
tickets may be served. -/
structure Gate where
  room : Bool
  serves : Nat → Bool

/-- Whether there is room for a call besides those in flight and those waited for. -/
def hasRoom (permits : Option Nat) (walks : List Walk) : Bool :=
  match permits with
  | none => true
  | some k => callCountAll walks + (ticketsAll walks).length < k

/-- Whether a ticket may be served: the calls in flight and the older tickets together
stay below the bound. -/
def mayServe (permits : Option Nat) (walks : List Walk) (ticket : Nat) : Bool :=
  match permits with
  | none => true
  | some k => callCountAll walks + (ticketsAll walks).countP (· < ticket) < k

mutual

/-- The leftmost step of a walk that a gate lets through. -/
def poke? (d : Dispatch σ) (gate : Gate) (sh : Shared σ) : Walk → Option (Walk × Shared σ)
  | .fresh node parent prev => some (visit d gate.room sh node parent prev)
  | .queued node parent prev ticket =>
    if sh.cancelled || gate.serves ticket then some (launch d sh node parent prev) else none
  | .calling node call =>
    if endsAt d sh call ≤ sh.nowMs then some (settle sh node (ending d sh node call)) else none
  | .group output members =>
    match pokeAll? d gate sh members with
    | some (members, sh) => some (closeGroup output members, sh)
    | none => none
  | .chain output current later =>
    match current.poke? d gate sh with
    | some (current, sh) => some (closeChain sh.cancelled output current later, sh)
    | none => none
  | .done _ => none

/-- The leftmost step of several walks that a gate lets through. -/
def pokeAll? (d : Dispatch σ) (gate : Gate) (sh : Shared σ) :
    List Walk → Option (List Walk × Shared σ)
  | [] => none
  | w :: ws =>
    match w.poke? d gate sh with
    | some (w, sh) => some (w :: ws, sh)
    | none =>
      match pokeAll? d gate sh ws with
      | some (ws, sh) => some (w :: ws, sh)
      | none => none

end

/-- The next step of a forest: the leftmost one, but those who wait are served only
when nothing else can happen. -/
def stepAll? (d : Dispatch σ) (sh : Shared σ) (walks : List Walk) :
    Option (List Walk × Shared σ) :=
  let room := hasRoom d.permits walks
  match pokeAll? d ⟨room, fun _ => false⟩ sh walks with
  | some result => some result
  | none => pokeAll? d ⟨room, mayServe d.permits walks⟩ sh walks

mutual

/-- When the next call of a walk ends. -/
def nextEnd? (d : Dispatch σ) (sh : Shared σ) : Walk → Option Nat
  | .calling _ call => some (endsAt d sh call)
  | .group _ members => nextEndAll? d sh members
  | .chain _ current _ => current.nextEnd? d sh
  | .fresh _ _ _ => none
  | .queued _ _ _ _ => none
  | .done _ => none

def nextEndAll? (d : Dispatch σ) (sh : Shared σ) : List Walk → Option Nat
  | [] => none
  | w :: ws =>
    match w.nextEnd? d sh, nextEndAll? d sh ws with
    | some a, some b => some (min a b)
    | some a, none => some a
    | none, b => b

end

/-! ## What is left to do -/

mutual

/-- An upper bound for the number of steps that are left: three for each node that has
not been looked at. -/
def weight : Walk → Nat
  | .fresh node _ _ => 3 * node.count
  | .queued node _ _ _ => 2 + 3 * Node.countAll node.children
  | .calling node _ => 1 + 3 * Node.countAll node.children
  | .group _ members => weightAll members
  | .chain _ current later => current.weight + 3 * Node.countAll later
  | .done _ => 0

def weightAll : List Walk → Nat
  | [] => 0
  | w :: ws => w.weight + weightAll ws

end

theorem count_eq (node : Node) : node.count = 1 + Node.countAll node.children := by
  cases node; rfl

theorem weightAll_fresh (output prev : Option Value) (nodes : List Node) :
    weightAll (nodes.map fun n => .fresh n output prev) = 3 * Node.countAll nodes := by
  induction nodes with
  | nil => rfl
  | cons n ns ih => simp [weightAll, weight, Node.countAll, ih]; omega

theorem weight_nextInChain (c : Bool) (output : Value) (prev : Option Value) (nodes : List Node) :
    (nextInChain c output prev nodes).weight ≤ 3 * Node.countAll nodes := by
  cases nodes with
  | nil => simp [nextInChain, weight]
  | cons n ns =>
    simp only [nextInChain]
    split
    · simp [weight]
    · simp only [weight, Node.countAll]; omega

theorem weight_descend (c : Bool) (node : Node) (output : Value) :
    (descend c node output).weight ≤ 3 * Node.countAll node.children := by
  unfold descend
  split
  · simp [weight]
  · split
    · exact Nat.le_of_eq (by rw [weight, weightAll_fresh])
    · exact weight_nextInChain c output none node.children

theorem weight_closeGroup (output : Value) (members : List Walk) :
    (closeGroup output members).weight ≤ weightAll members := by
  unfold closeGroup
  split
  · simp [weight]
  · simp [weight]

theorem weight_closeChain (c : Bool) (output : Value) (current : Walk) (later : List Node) :
    (closeChain c output current later).weight ≤ current.weight + 3 * Node.countAll later := by
  unfold closeChain
  split
  · have := weight_nextInChain c output ‹_› later
    simp only [weight]; omega
  · simp [weight]

theorem weight_launch (d : Dispatch σ) (sh : Shared σ) (node : Node) (parent prev : Option Value) :
    (launch d sh node parent prev).1.weight ≤ 1 + 3 * Node.countAll node.children := by
  unfold launch
  split
  · simp only [weight]; omega
  · split
    · simp only [weight]; omega
    · simp only [weight]; omega

theorem weight_visit (d : Dispatch σ) (room : Bool) (sh : Shared σ) (node : Node)
    (parent prev : Option Value) :
    (visit d room sh node parent prev).1.weight < 3 * node.count := by
  have hc := count_eq node
  unfold visit
  split
  · split
    · rename_i output _
      have := weight_descend sh.cancelled node output
      simp only; omega
    · simp only [weight]; omega
  · simp only [weight]; omega
  · simp only [weight]; omega
  · split
    · have := weight_launch d sh node parent prev
      omega
    · simp only [weight]; omega

theorem weight_settle (sh : Shared σ) (node : Node) (outcome : Except LayerError Value) :
    (settle sh node outcome).1.weight < 1 + 3 * Node.countAll node.children := by
  unfold settle
  cases outcome with
  | ok value =>
    have := weight_descend sh.cancelled node value
    simp only [Shared.announce, Shared.cancelled] at this ⊢
    omega
  | error e => simp only [weight]; omega

mutual

/-- Every step leaves less to do. -/
theorem weight_poke? (d : Dispatch σ) (gate : Gate) (sh : Shared σ) :
    ∀ {w w' : Walk} {sh' : Shared σ}, w.poke? d gate sh = some (w', sh') → w'.weight < w.weight
  | .fresh node parent prev, w', sh', h => by
    have := weight_visit d gate.room sh node parent prev
    simp only [poke?, Option.some.injEq] at h
    rw [h] at this
    simpa [weight] using this
  | .queued node parent prev ticket, w', sh', h => by
    have := weight_launch d sh node parent prev
    simp only [poke?] at h
    split at h
    · simp only [Option.some.injEq] at h
      rw [h] at this
      simp only [weight] at this ⊢; omega
    · simp at h
  | .calling node call, w', sh', h => by
    have := weight_settle sh node (ending d sh node call)
    simp only [poke?] at h
    split at h
    · simp only [Option.some.injEq] at h
      rw [h] at this
      simpa [weight] using this
    · simp at h
  | .group output members, w', sh', h => by
    simp only [poke?] at h
    split at h
    · rename_i members' sh'' hm
      have := weight_pokeAll? d gate sh hm
      simp only [Option.some.injEq, Prod.mk.injEq] at h
      obtain ⟨rfl, rfl⟩ := h
      have := weight_closeGroup output members'
      simp only [weight]; omega
    · simp at h
  | .chain output current later, w', sh', h => by
    simp only [poke?] at h
    split at h
    · rename_i current' sh'' hc
      have := weight_poke? d gate sh hc
      simp only [Option.some.injEq, Prod.mk.injEq] at h
      obtain ⟨rfl, rfl⟩ := h
      have := weight_closeChain sh''.cancelled output current' later
      simp only [weight]; omega
    · simp at h
  | .done _, w', sh', h => by simp [poke?] at h

theorem weight_pokeAll? (d : Dispatch σ) (gate : Gate) (sh : Shared σ) :
    ∀ {ws ws' : List Walk} {sh' : Shared σ},
      pokeAll? d gate sh ws = some (ws', sh') → weightAll ws' < weightAll ws
  | [], ws', sh', h => by simp [pokeAll?] at h
  | w :: ws, ws', sh', h => by
    simp only [pokeAll?] at h
    split at h
    · rename_i w'' sh'' hw
      have := weight_poke? d gate sh hw
      simp only [Option.some.injEq, Prod.mk.injEq] at h
      obtain ⟨rfl, rfl⟩ := h
      simp only [weightAll]; omega
    · split at h
      · rename_i ws'' sh'' hws
        have := weight_pokeAll? d gate sh hws
        simp only [Option.some.injEq, Prod.mk.injEq] at h
        obtain ⟨rfl, rfl⟩ := h
        simp only [weightAll]; omega
      · simp at h

end

/-- Every step of a forest leaves less to do. -/
theorem weight_stepAll? {d : Dispatch σ} {sh sh' : Shared σ} {ws ws' : List Walk}
    (h : stepAll? d sh ws = some (ws', sh')) : weightAll ws' < weightAll ws := by
  simp only [stepAll?] at h
  split at h
  · rename_i hp
    rw [h] at hp
    exact weight_pokeAll? d _ sh hp
  · exact weight_pokeAll? d _ sh h

end Walk

end PlanRunner
