import PlanRunner.Config.Basic

/-!
# PlanRunner — checking a configuration

* `ModelConfig.routes` — the configured routes from tasks to tiers;
* `Config.validate` — the first thing that is wrong with a configuration.
-/

namespace PlanRunner

/-! ## Routes -/

/-- Which tier a task runs on. A task without a route runs on its default tier. -/
structure Routing where
  /-- The routes in the order in which they were set; the last of a task counts. -/
  routes : List (Task × Tier)
  deriving DecidableEq, Repr

namespace Routing

def empty : Routing := ⟨[]⟩

def set (r : Routing) (task : Task) (tier : Tier) : Routing := ⟨r.routes ++ [(task, tier)]⟩

/-- The route of a task, if one is set. -/
def route? (r : Routing) (task : Task) : Option Tier :=
  (r.routes.reverse.find? fun p => p.1 == task).map Prod.snd

def tierFor (r : Routing) (task : Task) : Tier := (r.route? task).getD task.defaultTier

/-- The routes that are set, one a task, in the order of tasks. -/
def listed (r : Routing) : List (Task × Tier) :=
  Task.all.filterMap fun task => (r.route? task).map fun tier => (task, tier)

end Routing

/-- The routes that names of tasks and tiers describe. -/
def Routing.ofNames : Routing → List (String × String) → Except String Routing
  | r, [] => .ok r
  | r, (task, tier) :: rest =>
    match Task.parse task with
    | .error e => .error e
    | .ok task =>
      match Tier.parse tier with
      | .error e => .error e
      | .ok tier => Routing.ofNames (r.set task tier) rest

def ModelConfig.routes (m : ModelConfig) : Except ConfigError Routing :=
  (Routing.ofNames .empty m.routing).mapError .invalid

/-! ## Validity -/

def TierConfig.complaint? (t : TierConfig) (tier : Tier) : Option String :=
  if Text.isBlank t.provider || Text.isBlank t.model then
    some s!"llm.{tier.name}: provider and model must be set"
  else if t.contextLength = 0 then some s!"llm.{tier.name}.context_length must be > 0"
  else none

def isHttpUrl (url : String) : Bool :=
  "http://".toList.isPrefixOf url.toList || "https://".toList.isPrefixOf url.toList

/-- The first thing that is wrong with remote layers; `seen` are the names so far. -/
def endpointComplaint? (seen : List String) : List Endpoint → Option String
  | [] => none
  | e :: rest =>
    if Text.isBlank e.name then some "layer name must not be empty"
    else if !isHttpUrl e.url then
      some s!"layer '{e.name}': url must start with http:// or https://"
    else if seen.contains e.name then some s!"layer '{e.name}' is configured twice"
    else endpointComplaint? (e.name :: seen) rest

/-- The first complaint of a list of checks. -/
def firstComplaint? : List (Option String) → Option String
  | [] => none
  | some c :: _ => some c
  | none :: rest => firstComplaint? rest

def ModelConfig.routingComplaint? (m : ModelConfig) : Option String :=
  match Routing.ofNames .empty m.routing with
  | .ok _ => none
  | .error e => some e

namespace Config

def complaint? (c : Config) : Option String :=
  firstComplaint?
    ([if c.models.timeoutSecs = 0 then some "llm.timeout_secs must be > 0" else none]
      ++ Tier.all.map (fun t => (c.models.tier t).complaint? t)
      ++ [c.models.routingComplaint?,
        if c.settings.historyCapacity = 0 then
          some "orchestrator.history_capacity must be > 0" else none,
        endpointComplaint? [] c.endpoints])

def validate (c : Config) : Except ConfigError Unit :=
  match c.complaint? with
  | some reason => .error (.invalid reason)
  | none => .ok ()

end Config

end PlanRunner
