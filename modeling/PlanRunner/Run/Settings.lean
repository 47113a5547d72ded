/-!
# PlanRunner — settings of a run
-/

namespace PlanRunner

/-- Whether failed nodes alone make an attempt insufficient, or the evaluator decides. -/
inductive FailurePolicy where
  | strict
  | evaluator
  deriving DecidableEq, Repr

def FailurePolicy.name : FailurePolicy → String
  | .strict => "strict"
  | .evaluator => "evaluator"

/-- How runs are carried out. -/
structure Settings where
  maxRetries : Nat
  failurePolicy : FailurePolicy
  /-- Whether a query may be answered without a plan. -/
  directAnswer : Bool
  /-- How long a call in flight may go on after a cancellation. -/
  cancelGraceMs : Nat
  /-- The most layer calls at one time; zero is no bound. -/
  maxConcurrentInvocations : Nat
  /-- How many finished runs are kept. -/
  historyCapacity : Nat
  deriving DecidableEq, Repr

namespace Settings

def standard : Settings where
  maxRetries := 2
  failurePolicy := .strict
  directAnswer := true
  cancelGraceMs := 2000
  maxConcurrentInvocations := 32
  historyCapacity := 50

/-- The bound on layer calls at one time, if there is one. -/
def permits (s : Settings) : Option Nat :=
  if s.maxConcurrentInvocations = 0 then none else some s.maxConcurrentInvocations

end Settings

end PlanRunner
