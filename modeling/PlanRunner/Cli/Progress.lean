import PlanRunner.Run.State

/-!
# PlanRunner — progress of a run

What is shown of a run while it goes on: each log line once, the counts whenever they
change, and at last how the run ended.

* `progressLines` — what is new in a state;
* `progressOf` — what is shown of a sequence of states.
-/

namespace PlanRunner.Cli

def countsOf (s : RunState) : Nat × Nat × Nat × Nat :=
  (s.completed, s.failed, s.running, s.total)

/-- How many log lines of a state were shown before. -/
def seenLogs (previous : Option RunState) (s : RunState) : Nat :=
  match previous with
  | some p => if p.id = s.id then min p.logs.length s.logs.length else 0
  | none => 0

def countsLine (s : RunState) : String :=
  s!"  [attempt {max s.attempt 1}] {s.completed}/{s.total} completed, "
    ++ s!"{s.failed} failed, {s.running} running"

def progressLines (previous : Option RunState) (s : RunState) : List String :=
  let logs := (s.logs.drop (seenLogs previous s)).map fun line => s!"  · {line}"
  let counts :=
    if previous.map countsOf ≠ some (countsOf s) ∧ 0 < s.total then [countsLine s] else []
  let closing := if s.status = .running then [] else [s!"  Run {s.status.name}"]
  logs ++ counts ++ closing

/-- What is shown of a sequence of states. Nothing is shown after the last state of a
run. -/
def progressOf : Option RunState → List RunState → List String
  | _, [] => []
  | previous, s :: rest =>
    progressLines previous s ++ if s.status = .running then progressOf (some s) rest else []

end PlanRunner.Cli
