/-!
# PlanRunner — what can go wrong

Failures are kept apart by how far they reach: a layer error stays with one node
of a plan, a provider error with one call to a language model, and a run error
ends a run or is the answer to a request. Each cause has one wording.
-/

namespace PlanRunner

/-- The failure of one call to a layer. -/
inductive LayerError where
  | notFound (layer : String)
  | unknownFunction (layer function : String)
  | invalidArguments (reason : String)
  | invocationFailed (layer function reason : String)
  | abandoned (layer function : String) (graceMs : Nat)
  deriving DecidableEq, Repr

def LayerError.message : LayerError → String
  | .notFound layer => s!"Layer not found: {layer}"
  | .unknownFunction layer function => s!"Layer '{layer}' has no function '{function}'"
  | .invalidArguments reason => s!"Invalid arguments: {reason}"
  | .invocationFailed layer function reason => s!"Invocation failed: {layer}.{function}: {reason}"
  | .abandoned layer function graceMs =>
    s!"Invocation abandoned after {graceMs}ms grace period: {layer}.{function}"

/-- The failure of one call to a language model. -/
inductive ProviderError where
  | api (status : Nat) (reason : String)
  | rateLimited (retryAfterSecs : Nat)
  | authenticationFailed (reason : String)
  | network (reason : String)
  | timeout (task : String) (afterSecs : Nat)
  | invalidResponse (reason : String)
  deriving DecidableEq, Repr

def ProviderError.message : ProviderError → String
  | .api status reason => s!"API request failed: {reason} (status: {status})"
  | .rateLimited secs => s!"Rate limited by provider, retry after {secs}s"
  | .authenticationFailed reason => s!"Authentication failed: {reason}"
  | .network reason => s!"Network error: {reason}"
  | .timeout task secs => s!"Request timed out after {secs}s: {task}"
  | .invalidResponse reason => s!"Invalid provider response: {reason}"

/-- Why a run failed or was refused. -/
inductive RunError where
  | malformedPlan (reason : String)
  | layer (cause : LayerError)
  | provider (cause : ProviderError)
  | retryBudgetExhausted (attempts : Nat) (verdict : String)
  | cancelled
  | busy (run : String)
  | config (reason : String)
  | fault (reason : String)
  deriving DecidableEq, Repr

def RunError.message : RunError → String
  | .malformedPlan reason => s!"Malformed plan: {reason}"
  | .layer cause => s!"Layer error: {cause.message}"
  | .provider cause => s!"LLM error: {cause.message}"
  | .retryBudgetExhausted attempts verdict =>
    s!"Retry budget exhausted after {attempts} attempt(s): {verdict}"
  | .cancelled => "Run cancelled"
  | .busy run => s!"A run is already in progress: {run}"
  | .config reason => s!"Configuration error: {reason}"
  | .fault reason => s!"Internal error: {reason}"

end PlanRunner
