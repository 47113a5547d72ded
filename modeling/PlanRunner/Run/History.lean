import PlanRunner.Run.State

/-!
# PlanRunner — finished runs

The finished runs are kept in the order in which they ended. Only a bounded number
is kept, at least one, and the oldest makes room for the newest. Points in time are
milliseconds since the beginning of 1970 in universal time; as text they are a calendar
date and a time of day, with fractions of a second only if there are any.
-/

namespace PlanRunner.Text

/-- Year, month and day of a number of days since 1970-01-01. Years are counted
from March, so that the leap day is the last of its year. -/
def civil (days : Nat) : Nat × Nat × Nat :=
  let z := days + 719468
  let era := z / 146097
  let dayOfEra := z % 146097
  let yearOfEra := (dayOfEra - dayOfEra / 1460 + dayOfEra / 36524 - dayOfEra / 146096) / 365
  let dayOfYear := dayOfEra - (365 * yearOfEra + yearOfEra / 4 - yearOfEra / 100)
  let shifted := (5 * dayOfYear + 2) / 153
  let day := dayOfYear - (153 * shifted + 2) / 5 + 1
  let month := if shifted < 10 then shifted + 3 else shifted - 9
  let year := yearOfEra + 400 * era + (if month ≤ 2 then 1 else 0)
  (year, month, day)

/-- A number with at least `width` digits. -/
def padded (width n : Nat) : String :=
  let digits := Nat.toDigits 10 n
  String.ofList (List.replicate (width - digits.length) '0' ++ digits)

/-- A point in time as text. -/
def timestamp (ms : Nat) : String :=
  let (year, month, day) := civil (ms / 86400000)
  let second := ms / 1000 % 86400
  let date := s!"{padded 4 year}-{padded 2 month}-{padded 2 day}"
  let time := s!"{padded 2 (second / 3600)}:{padded 2 (second / 60 % 60)}:{padded 2 (second % 60)}"
  let fraction := if ms % 1000 = 0 then "" else s!".{padded 3 (ms % 1000)}"
  s!"{date}T{time}{fraction}Z"

end PlanRunner.Text

namespace PlanRunner

/-- What a run produced. A failed run may have produced part of its result. -/
structure RunResult where
  text : String
  error : Option String
  ledger : Ledger
  plan : Option Plan

namespace RunResult

def succeeded (r : RunResult) : Bool := r.error.isNone

def record (r : RunResult) : Json :=
  .obj ([("result", .str r.text)] ++ RunState.optional "error" (r.error.map .str)
    ++ [("context", r.ledger.record)] ++ RunState.optional "tree" (r.plan.map Plan.record))

end RunResult

/-- A finished run. Times are milliseconds since the beginning of 1970. -/
structure HistoryEntry where
  id : String
  query : String
  result : RunResult
  status : RunStatus
  startMs : Nat
  endMs : Option Nat
  logs : List String

def HistoryEntry.record (e : HistoryEntry) : Json :=
  .obj ([("id", .str e.id), ("query", .str e.query), ("result", e.result.record),
      ("status", .str e.status.name), ("start_time", .str (Text.timestamp e.startMs))]
    ++ RunState.optional "end_time" (e.endMs.map fun ms => .str (Text.timestamp ms))
    ++ [("logs", .arr (e.logs.map .str))])

/-- The finished runs, oldest first. -/
structure History where
  capacity : Nat
  entries : List HistoryEntry

namespace History

/-- A history without entries that keeps at least one run. -/
def withCapacity (capacity : Nat) : History := ⟨max capacity 1, []⟩

/-- Adds a run; the oldest ones make room. -/
def push (h : History) (e : HistoryEntry) : History :=
  { h with entries := h.entries.drop (h.entries.length + 1 - h.capacity) ++ [e] }

/-- The latest runs, newest first. -/
def recent (h : History) (limit : Nat) : List HistoryEntry :=
  h.entries.reverse.take limit

/-- The oldest run kept with an id. -/
def get? (h : History) (id : String) : Option HistoryEntry :=
  h.entries.find? fun e => e.id == id

def size (h : History) : Nat := h.entries.length

end History

end PlanRunner
