import PlanRunner.Config.Decode
import PlanRunner.Config.Environment
import PlanRunner.Config.Validity
import PlanRunner.Toml.Parser
import PlanRunner.Toml.Printer

/-!
# PlanRunner — loading a configuration

* `Config.ofToml` — the configuration in the text of a file, checked;
* `Config.ofFile` — the same for a file that may be missing or unreadable;
* `Config.standardToml` — a file with the standard settings.
-/

namespace PlanRunner.Config

/-- What is said of a text that is no configuration. -/
def malformedReason : String := "not a configuration in TOML"

def ofToml (path text : String) : Except ConfigError Config :=
  match (Toml.ofText? text).bind (ofTree? .toml) with
  | none => .error (.malformed path malformedReason)
  | some c => c.validate.map fun _ => c

/-- What was found where a configuration is expected. -/
inductive Found where
  | missing
  | unreadable (reason : String)
  | text (content : String)

/-- The configuration at a path; a missing file stands for the standard settings. -/
def ofFile (path : String) : Found → Except ConfigError Config
  | .missing => .ok standard
  | .unreadable reason => .error (.unreadable path reason)
  | .text content => ofToml path content

def load (path : String) (found : Found) (lookup : String → Option String) :
    Except ConfigError Config := do
  let c ← ofFile path found
  let c := c.withEnvironment lookup
  c.validate
  pure c

def standardToml : String :=
  match standard.record with
  | .obj fields => Toml.render fields
  | _ => ""

end PlanRunner.Config
