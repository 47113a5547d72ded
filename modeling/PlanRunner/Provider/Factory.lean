import PlanRunner.Config.Validity
import PlanRunner.Provider.Chat
import PlanRunner.Provider.Messages

/-!
# PlanRunner — a client for every task

Each task runs on a tier, and each tier names a provider and a model. All tiers are
checked before the first client is created, so a provider without a name or without a
key is found out at once.

* `checkTier` — whether clients of a tier can be created;
* `Factory.ofConfig`, `Factory.create` — the checked factory of a configuration;
* `Factory.client` — a client for a task.
-/

namespace PlanRunner

/-- Whether a tier has a key that says something. -/
def TierConfig.hasUsableKey (t : TierConfig) : Bool :=
  match t.apiKey with
  | some key => !Text.isBlank key
  | none => false

def checkTier (tier : Tier) (t : TierConfig) : Except RunError Unit :=
  let isKeyed := Provider.keyed.contains t.provider
  if !isKeyed && !Provider.selfHosted.contains t.provider then
    .error (.config s!"llm.{tier.name}: unsupported provider '{t.provider}'")
  else if isKeyed && !t.hasUsableKey then
    .error (.config (s!"llm.{tier.name}: provider '{t.provider}' requires an API key "
      ++ s!"(set llm.{tier.name}.api_key or LAYERFLOW_API_KEY)"))
  else if t.provider == "custom" && t.baseUrl.isNone then
    .error (.config s!"llm.{tier.name}: provider 'custom' requires base_url")
  else .ok ()

def checkTiers (m : ModelConfig) : List Tier → Except RunError Unit
  | [] => .ok ()
  | tier :: rest =>
    match checkTier tier (m.tier tier) with
    | .error e => .error e
    | .ok () => checkTiers m rest

def buildClient {σ : Type} (transport : Http.Transport σ) (tier : Tier) (t : TierConfig) :
    Except RunError (Client σ) :=
  match checkTier tier t with
  | .error e => .error e
  | .ok () =>
    if t.provider = Provider.Messages.name then
      let base := (t.baseUrl.map Provider.Messages.baseOf).getD Provider.Messages.standardBase
      .ok (Provider.Messages.client transport base (t.apiKey.getD "") t.model t.contextLength)
    else
      match t.baseUrl.or (Provider.defaultBaseUrl? t.provider) with
      | some url =>
        .ok (Provider.Chat.client transport t.provider url t.apiKey t.model t.contextLength)
      | none => .error (.config s!"llm.{tier.name}: no base_url for provider '{t.provider}'")

/-- Models and routes that were checked. -/
structure Factory where
  models : ModelConfig
  routing : Routing

namespace Factory

def create (models : ModelConfig) (routing : Routing) : Except RunError Factory :=
  if models.timeoutSecs = 0 then .error (.config "llm.timeout_secs must be > 0")
  else (checkTiers models Tier.all).map fun _ => ⟨models, routing⟩

def ofConfig (models : ModelConfig) : Except RunError Factory :=
  match models.routes with
  | .error e => .error e.toRunError
  | .ok routing => create models routing

def timeoutMs (f : Factory) : Nat := f.models.timeoutSecs * 1000

/-- A client of a tier without a time limit. -/
def clientOfTier {σ : Type} (transport : Http.Transport σ) (f : Factory) (tier : Tier) :
    Except RunError (Client σ) :=
  buildClient transport tier (f.models.tier tier)

def client {σ : Type} (transport : Http.Transport σ) (f : Factory) (task : Task) :
    Except RunError (Client σ) :=
  (f.clientOfTier transport (f.routing.tierFor task)).map fun c => c.withTimeout task f.timeoutMs

end Factory

end PlanRunner
