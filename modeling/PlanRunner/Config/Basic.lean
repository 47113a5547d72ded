import PlanRunner.Error
import PlanRunner.Json.Printer
import PlanRunner.Layer.Remote
import PlanRunner.Run.Settings
import PlanRunner.Run.State
import PlanRunner.Task
import PlanRunner.Text.Quoted

/-!
# PlanRunner — configuration

Which models serve the three tiers, how runs are carried out, where a project keeps
its rules, and which layers are behind servers. Everything has a standard setting.

* `Config.standard` — the configuration used when nothing is configured;
* `Config.record` — the stored form, the same tree in JSON and in TOML;
* `TierConfig.shown` — a tier as it is shown to people, its key hidden.
-/

namespace PlanRunner

/-- The provider and the model of one tier. -/
structure TierConfig where
  provider : String
  model : String
  /-- How many tokens a prompt may have. -/
  contextLength : Nat
  baseUrl : Option String
  apiKey : Option String
  deriving DecidableEq, Repr

/-- The tiers, the time limit of a call, and which task runs on which tier. -/
structure ModelConfig where
  timeoutSecs : Nat
  simple : TierConfig
  medium : TierConfig
  complex : TierConfig
  /-- Names of tasks with names of tiers, sorted by task. -/
  routing : List (String × String)
  deriving DecidableEq, Repr

/-- Where a project keeps its rules. -/
structure RulesLocation where
  dir : String
  file : String
  deriving DecidableEq, Repr

structure Config where
  models : ModelConfig
  settings : Settings
  rules : RulesLocation
  endpoints : List Endpoint
  deriving DecidableEq, Repr

namespace TierConfig

/-- A tier of the provider that the standard settings use. -/
def standard (model : String) (contextLength : Nat) : TierConfig :=
  ⟨"openrouter", model, contextLength, none, none⟩

def standardContextLength : Nat := 32000

/-- A tier as it is shown to people. A key is never shown. -/
def shown (t : TierConfig) : String :=
  let baseUrl :=
    match t.baseUrl with
    | some url => s!"Some({Text.quoted url})"
    | none => "None"
  let key := if t.apiKey.isSome then "[REDACTED]" else "None"
  s!"TierConfig \x7b provider: {Text.quoted t.provider}, model: {Text.quoted t.model}, "
    ++ s!"context_length: {t.contextLength}, base_url: {baseUrl}, "
    ++ s!"api_key: {Text.quoted key} \x7d"

def record (t : TierConfig) : Json :=
  .obj ([("provider", .str t.provider), ("model", .str t.model),
      ("context_length", .int t.contextLength)]
    ++ RunState.optional "base_url" (t.baseUrl.map .str)
    ++ RunState.optional "api_key" (t.apiKey.map .str))

end TierConfig

namespace ModelConfig

/-- The models used when none are configured. -/
def standard : ModelConfig where
  timeoutSecs := 60
  simple := .standard "openai/gpt-4o-mini" 16000
  medium := .standard "openai/gpt-4o" 64000
  complex := .standard "anthropic/claude-sonnet-4" 200000
  routing := []

def tier (m : ModelConfig) : Tier → TierConfig
  | .simple => m.simple
  | .medium => m.medium
  | .complex => m.complex

def mapTiers (m : ModelConfig) (change : Tier → TierConfig → TierConfig) : ModelConfig :=
  { m with
    simple := change .simple m.simple
    medium := change .medium m.medium
    complex := change .complex m.complex }

@[simp] theorem tier_mapTiers (m : ModelConfig) (change : Tier → TierConfig → TierConfig)
    (t : Tier) : (m.mapTiers change).tier t = change t (m.tier t) := by
  cases t <;> rfl

def record (m : ModelConfig) : Json :=
  let routing :=
    if m.routing.isEmpty then none
    else some (Json.obj (m.routing.map fun (task, tier) => (task, Json.str tier)))
  .obj ([("timeout_secs", .int m.timeoutSecs), ("simple", m.simple.record),
      ("medium", m.medium.record), ("complex", m.complex.record)]
    ++ RunState.optional "routing" routing)

end ModelConfig

def RulesLocation.standard : RulesLocation := ⟨".layerflow", "RULES.md"⟩

/-- The time limit of a remote layer when none is configured. -/
def Endpoint.standardTimeoutSecs : Nat := 30

def Endpoint.record (e : Endpoint) : Json :=
  let functions := if e.functions.isEmpty then none else some (Json.arr (e.functions.map .str))
  .obj ([("name", .str e.name), ("url", .str e.url), ("timeout_secs", .int e.timeoutSecs),
      ("description", .str e.description)]
    ++ RunState.optional "functions" functions)

def Settings.record (s : Settings) : Json :=
  .obj [("max_retries", .int s.maxRetries), ("history_capacity", .int s.historyCapacity),
    ("cancel_grace_ms", .int s.cancelGraceMs), ("failure_policy", .str s.failurePolicy.name),
    ("direct_answer", .bool s.directAnswer),
    ("max_concurrent_invocations", .int s.maxConcurrentInvocations)]

namespace Config

/-- The configuration used when nothing is configured. -/
def standard : Config := ⟨.standard, .standard, .standard, []⟩

def record (c : Config) : Json :=
  let layers :=
    if c.endpoints.isEmpty then none else some (Json.arr (c.endpoints.map Endpoint.record))
  .obj ([("llm", c.models.record), ("orchestrator", c.settings.record),
      ("context", .obj [("rules_dir", .str c.rules.dir), ("rules_file", .str c.rules.file)])]
    ++ RunState.optional "layers" layers)

end Config

/-! ## What can be wrong -/

/-- Why a configuration cannot be used. -/
inductive ConfigError where
  | unreadable (path reason : String)
  | malformed (path reason : String)
  | invalid (reason : String)
  deriving DecidableEq, Repr

namespace ConfigError

def message : ConfigError → String
  | .unreadable path reason => s!"Failed to read config file at {path}: {reason}"
  | .malformed path reason => s!"Failed to parse config file at {path}: {reason}"
  | .invalid reason => s!"Configuration validation failed: {reason}"

/-- Every configuration error is a run error with its wording. -/
def toRunError (e : ConfigError) : RunError := .config e.message

end ConfigError

end PlanRunner
