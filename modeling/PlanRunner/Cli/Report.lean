import PlanRunner.Cli.Help
import PlanRunner.Config.Validity
import PlanRunner.Files.Rules
import PlanRunner.Layer.Basic
import PlanRunner.Provider.Client

/-!
# PlanRunner — reports of the program

What the commands print, as text.

* `Report.status` — the configuration and whether it can be used; a key is never shown;
* `Report.layers` — the layers with their functions;
* `ExitFault.shown` — why the program gave up.
-/

namespace PlanRunner.Cli

/-- Why the program gives up. -/
inductive ExitFault where
  /-- The configuration cannot be loaded. -/
  | config (e : ConfigError)
  /-- The configured models cannot be used. -/
  | models (e : RunError)
  | files (e : FileFault)
  /-- A run ended with an error. -/
  | run (message : String)

def ExitFault.shown : ExitFault → String
  | .config e => Text.quoted s!"Failed to load config: {e.message}"
  | .models (.config reason) => s!"Config \x7b message: {Text.quoted reason} \x7d"
  | .models e => Text.quoted e.message
  | .files e => e.shown
  | .run message => Text.quoted message

namespace Report

def lines (ls : List String) : String :=
  String.join (ls.map fun line => line ++ "\n")

def rule (width : Nat) : String := String.ofList (List.replicate width '=')

/-! ## Setting up -/

def setupOpening : List String := ["LayerFlow — Setup", rule 17, ""]

def setupDirectory (dir : String) (existed : Bool) : List String :=
  if existed then [s!"  Config directory exists: {dir}"]
  else [s!"✅ Created config directory: {dir}"]

def setupKept (path : String) : List String :=
  ["", s!"⚠️  Config already exists at: {path}",
    "   Edit it manually or re-run with --force.", ""]

def setupWritten (path : String) : List String :=
  [s!"✅ Wrote config.toml at: {path}", "", "📝 Next steps:",
    "   1. Set LAYERFLOW_API_KEY (or OPENROUTER_API_KEY), or add api_key to each tier",
    "   2. Check the setup:  layerflow status",
    "   3. Try a query:      layerflow run \"what is 6 * 7, in words?\"", "",
    "   Project rules are read from <projectRoot>/.layerflow/RULES.md when present.", ""]

/-! ## Layers -/

def layer (info : LayerInfo) : List String :=
  let functions := ", ".intercalate info.functions
  ["", s!"  {info.name}"]
    ++ (if info.description.isEmpty then [] else [s!"    {info.description}"])
    ++ (if info.functions.isEmpty then [] else [s!"    functions: {functions}"])

def layers (infos : List LayerInfo) (remote : Nat) : List String :=
  let here := infos.length - remote
  [s!"Registered layers ({here} local, {remote} remote)", rule 17] ++ infos.flatMap layer ++ [""]

/-! ## Status -/

/-- A tier on one line. Of its key only whether there is one is shown. -/
def tier (t : TierConfig) : String :=
  let endpoint := (t.baseUrl.or (Provider.defaultBaseUrl? t.provider)).getD "(no endpoint)"
  let hasKey :=
    match t.apiKey with
    | some key => !key.isEmpty
    | none => false
  let key := if hasKey then "key set" else "no key"
  s!"{t.provider}/{t.model} ({t.contextLength} tokens, {endpoint}, {key})"

def failurePolicy : FailurePolicy → String
  | .strict => "Strict"
  | .evaluator => "Evaluator"

def settings (s : Settings) : List String :=
  ["", "  Orchestrator:",
    s!"    max_retries:                {s.maxRetries}",
    s!"    failure_policy:             {failurePolicy s.failurePolicy}",
    s!"    direct_answer:              {s.directAnswer}",
    s!"    cancel_grace_ms:            {s.cancelGraceMs}",
    s!"    max_concurrent_invocations: {s.maxConcurrentInvocations}",
    s!"    history_capacity:           {s.historyCapacity}"]

/-- Whether the configuration comes from a file and can be used. -/
def usability (hasFile : Bool) (complaint : Option RunError) : List String :=
  let file :=
    if hasFile then "  ✅ Config file found"
    else "  ⚠️  No config file — run `layerflow init` first"
  let tiers :=
    match complaint with
    | none => "  ✅ Tier configuration is usable"
    | some e => s!"  ❌ {e.message}"
  ["", file, tiers]

def status (dir : String) (c : Config) (routing : Routing) (hasFile : Bool)
    (complaint : Option RunError) : List String :=
  ["LayerFlow Status", rule 16, s!"  Config dir:   {dir}",
      s!"  LLM timeout:  {c.models.timeoutSecs}s", "", "  Tiers:"]
    ++ Tier.all.map (fun t => s!"    {padTo 8 t.name} {tier (c.models.tier t)}")
    ++ ["", "  Routing:"]
    ++ Task.all.map (fun t => s!"    {padTo 26 t.name} {(routing.tierFor t).name}")
    ++ settings c.settings
    ++ [s!"  Remote layers: {c.endpoints.length}"]
    ++ usability hasFile complaint

end Report

end PlanRunner.Cli
