import PlanRunner.Config.Basic
import PlanRunner.Text.Blank

/-!
# PlanRunner — settings from the environment

Variables of the environment win over the configured provider and model of a tier. A
shared key serves every tier that has none of its own.
-/

namespace PlanRunner

/-- The variable that names the provider or the model of a tier. -/
def tierVariable (tier : Tier) (what : String) : String :=
  s!"LAYERFLOW_{Text.asciiUpper tier.name}_{what}"

def environmentVariables : List String :=
  ["LAYERFLOW_API_KEY", "OPENROUTER_API_KEY"]
    ++ Tier.all.flatMap fun tier => [tierVariable tier "PROVIDER", tierVariable tier "MODEL"]

/-- The key for tiers that have none. -/
def sharedKey (lookup : String → Option String) : Option String :=
  match lookup "LAYERFLOW_API_KEY" with
  | some key => some key
  | none => lookup "OPENROUTER_API_KEY"

def TierConfig.withEnvironment (lookup : String → Option String) (tier : Tier)
    (t : TierConfig) : TierConfig :=
  { t with
    provider := (lookup (tierVariable tier "PROVIDER")).getD t.provider
    model := (lookup (tierVariable tier "MODEL")).getD t.model
    apiKey :=
      match t.apiKey with
      | some key => some key
      | none => sharedKey lookup }

def Config.withEnvironment (lookup : String → Option String) (c : Config) : Config :=
  { c with models := c.models.mapTiers (TierConfig.withEnvironment lookup) }

end PlanRunner
