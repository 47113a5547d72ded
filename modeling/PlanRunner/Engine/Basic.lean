import PlanRunner.Engine.Slot
import PlanRunner.Run.Drive

/-!
# PlanRunner — the engine

The engine carries out one run at a time. Every run that is accepted ends in exactly
one entry of the history and one final published state.

* `Engine.accept` — starts a run, unless one is active or the engine was shut down;
* `Engine.execute` — carries a run through to its end;
* `Engine.submit` — starts a run that goes on while time passes;
* `Engine.advance` — lets time pass;
* `Engine.cancel`, `Engine.shutdown` — end the active run early.
-/

namespace PlanRunner

/-- How many published states are kept for those who read them late. -/
def publishedCapacity : Nat := 256

/-- The state of an engine in a world with states `σ`. -/
structure Engine (σ : Type) where
  around : Surroundings σ
  history : History
  slot : Slot Run
  /-- How many runs have been accepted. -/
  accepted : Nat

namespace Engine

variable {σ : Type}

/-- An engine that has not been used. -/
def start (settings : Settings) (server : Facts) (world : σ) (nowMs : Nat) : Engine σ where
  around := ⟨nowMs, world, .start server, .withCapacity publishedCapacity⟩
  history := .withCapacity settings.historyCapacity
  slot := .free
  accepted := 0

def active (e : Engine σ) : Option Run := e.slot.active

def state (e : Engine σ) : Option RunState := e.active.map Run.current

def nextId (e : Engine σ) : String := s!"run-{e.accepted + 1}"

/-- Starts a run and makes it known. -/
def accept (e : Engine σ) (query : String) (request : Facts) : Except RunError (Engine σ) :=
  if e.slot.closed then .error .cancelled
  else
    let run := Run.start e.nextId query request e.around.nowMs
    match e.slot.take? run with
    | none => .error (.busy ((e.active.map Run.id).getD ""))
    | some slot =>
      .ok { e with
        slot := slot.markBusy
        accepted := e.accepted + 1
        around := run.publish e.around }

/-- Files a run that is over and makes its end known. -/
def finish (e : Engine σ) (run : Run) (error : Option RunError) : Engine σ :=
  let status := Run.endStatus error
  let run := run.log s!"Run {status.name}"
  let final := run.state status (some run.resultText) (error.map RunError.message)
  { e with
    history := e.history.push (run.entry error e.around.nowMs)
    slot := e.slot.release.markIdle
    around := { e.around with bus := e.around.bus.publish final } }

/-- Carries the active run on, up to a moment if one is given. -/
def carryOn (s : Services σ) (limit : Option Nat) (e : Engine σ) : Engine σ :=
  match e.active with
  | none => e
  | some run =>
    let (around, run) := run.drive s limit e.around
    let e := { e with around := around, slot := e.slot.update run }
    match run.phase with
    | .over error => e.finish run error
    | _ => e

def wait (e : Engine σ) (untilMs : Nat) : Engine σ :=
  { e with around := { e.around with nowMs := max e.around.nowMs untilMs } }

/-- Lets some milliseconds pass. -/
def advance (s : Services σ) (ms : Nat) (e : Engine σ) : Engine σ :=
  let untilMs := e.around.nowMs + ms
  (e.carryOn s (some untilMs)).wait untilMs

/-- Cancels the active run, and tells whether there is one. -/
def cancel (e : Engine σ) : Bool × Engine σ :=
  match e.active with
  | none => (false, e)
  | some run => (true, { e with slot := e.slot.update (run.cancel e.around.nowMs) })

/-- Refuses new runs, cancels the active one and waits for its end. -/
def shutdown (s : Services σ) (e : Engine σ) : Engine σ :=
  let e := { e with slot := e.slot.close }
  e.cancel.2.carryOn s none

/-- Starts a run that goes on while time passes, and gives its id. -/
def submit (e : Engine σ) (query : String) (request : Facts) :
    Except RunError (String × Engine σ) :=
  (e.accept query request).map fun accepted => (e.nextId, accepted)

/-- Starts a run and waits for its end. It may be cancelled after some milliseconds
if it is not over by then. -/
def execute (s : Services σ) (e : Engine σ) (query : String) (request : Facts)
    (cancelAfterMs : Option Nat) : Except RunError (Engine σ) :=
  (e.accept query request).map fun e =>
    match cancelAfterMs with
    | none => e.carryOn s none
    | some ms =>
      let untilMs := e.around.nowMs + ms
      let e := e.carryOn s (some untilMs)
      match e.active with
      | none => e
      | some _ => (e.wait untilMs).cancel.2.carryOn s none

/-- What the run with an id left behind, while it is kept. -/
def entry? (e : Engine σ) (id : String) : Option HistoryEntry := e.history.get? id

end Engine

end PlanRunner
