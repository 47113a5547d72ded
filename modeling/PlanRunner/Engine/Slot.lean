/-!
# PlanRunner — the place of the active run

At most one run is active. Besides the run itself there is a flag that tells those
who wait whether the place is free; the flag follows the run a moment later. A
closed place takes no new run.

* `take?`, `markBusy` — the two moments in which a run becomes active;
* `release`, `markIdle` — the two moments in which it ceases to be;
* `close` — no run is accepted any more.
-/

namespace PlanRunner

/-- The place of the active run. -/
structure Slot (α : Type) where
  active : Option α
  /-- Whether those who wait for the end of the active run may go on. -/
  idle : Bool
  /-- Whether new runs are refused. -/
  closed : Bool

namespace Slot

variable {α : Type}

def free : Slot α := ⟨none, true, false⟩

/-- Takes a free place; a taken one is left alone, and the answer is none. -/
def take? (s : Slot α) (run : α) : Option (Slot α) :=
  match s.active with
  | none => some { s with active := some run }
  | some _ => none

/-- Tells those who wait that a run is active. -/
def markBusy (s : Slot α) : Slot α := { s with idle := false }

def release (s : Slot α) : Slot α := { s with active := none }

/-- Tells those who wait that no run is active. -/
def markIdle (s : Slot α) : Slot α := { s with idle := true }

def close (s : Slot α) : Slot α := { s with closed := true }

/-- The place with another state of the active run. -/
def update (s : Slot α) (run : α) : Slot α := { s with active := some run }

end Slot

end PlanRunner
