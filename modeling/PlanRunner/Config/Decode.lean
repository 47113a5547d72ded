import PlanRunner.Config.Basic

/-!
# PlanRunner — reading a configuration from a tree

The tree comes from JSON or from TOML, which differ in two small points. A record is
an object, of which unknown fields are ignored, or an array of its fields in order. A
field that is left out has its standard setting; some fields may not be left out.

* `Dialect` — the two points in which the sources differ;
* `Config.ofTree?` — the configuration a tree describes.
-/

namespace PlanRunner

/-- What sources of trees differ in. -/
structure Dialect where
  /-- Whether an array that stands for a record may have more items than the record
  has fields. -/
  allowsSpareItems : Bool
  /-- What may stand under the name of a choice that is written as an object. -/
  isEmptyPayload : Json → Bool

def Dialect.json : Dialect where
  allowsSpareItems := false
  isEmptyPayload
    | .null => true
    | _ => false

def Dialect.toml : Dialect where
  allowsSpareItems := true
  isEmptyPayload
    | .obj [] => true
    | .arr [] => true
    | _ => false

namespace Decode

/-- The items of an array for the fields of a record, none for the fields left out. -/
def positional : List String → List Json → List (Option Json)
  | [], _ => []
  | _ :: names, [] => none :: positional names []
  | _ :: names, item :: items => some item :: positional names items

/-- The fields of a record in order. -/
def record? (d : Dialect) (names : List String) : Json → Option (List (Option Json))
  | .obj fields => some (names.map fun name => field? name fields)
  | .arr items =>
    if d.allowsSpareItems || items.length ≤ names.length then some (positional names items)
    else none
  | _ => none

def required {α : Type} (read : Json → Option α) (json : Option Json) : Option α :=
  json.bind read

def optional {α : Type} (standard : α) (read : Json → Option α) : Option Json → Option α
  | some json => read json
  | none => some standard

/-- A natural number below a limit. -/
def nat? (limit : Nat) : Json → Option Nat
  | .int n => if 0 ≤ n ∧ n.toNat < limit then some n.toNat else none
  | _ => none

def text? : Json → Option (Option String)
  | .null => some none
  | .str s => some (some s)
  | _ => none

def list? {α : Type} (read : Json → Option α) : Json → Option (List α)
  | .arr items => items.mapM read
  | _ => none

/-- Texts by name, sorted by name. -/
def textMap? : Json → Option (List (String × String))
  | .obj fields =>
    (fields.mapM fun ((key, json) : String × Json) => json.str?.map fun s => (key, s)).map
      sortFields
  | _ => none

def limit32 : Nat := Nat.pow 2 32

def limit64 : Nat := Nat.pow 2 64

def policyNamed? (name : String) : Option FailurePolicy :=
  [FailurePolicy.strict, FailurePolicy.evaluator].find? fun p => p.name == name

/-- A failure policy: its name, or an object whose only field has that name. -/
def policy? (d : Dialect) : Json → Option FailurePolicy
  | .str name => policyNamed? name
  | .obj [(name, payload)] => if d.isEmptyPayload payload then policyNamed? name else none
  | _ => none

def tier? (d : Dialect) (json : Json) : Option TierConfig := do
  match ← record? d ["provider", "model", "context_length", "base_url", "api_key"] json with
  | [provider, model, contextLength, baseUrl, apiKey] =>
    pure
      { provider := ← required Json.str? provider
        model := ← required Json.str? model
        contextLength :=
          ← optional TierConfig.standardContextLength (nat? limit64) contextLength
        baseUrl := ← optional none text? baseUrl
        apiKey := ← optional none text? apiKey }
  | _ => none

def models? (d : Dialect) (json : Json) : Option ModelConfig := do
  match ← record? d ["timeout_secs", "simple", "medium", "complex", "routing"] json with
  | [timeoutSecs, simple, medium, complex, routing] =>
    let standard := ModelConfig.standard
    pure
      { timeoutSecs := ← optional standard.timeoutSecs (nat? limit64) timeoutSecs
        simple := ← optional standard.simple (tier? d) simple
        medium := ← optional standard.medium (tier? d) medium
        complex := ← optional standard.complex (tier? d) complex
        routing := ← optional standard.routing textMap? routing }
  | _ => none

def settings? (d : Dialect) (json : Json) : Option Settings := do
  match ← record? d
      ["max_retries", "history_capacity", "cancel_grace_ms", "failure_policy", "direct_answer",
        "max_concurrent_invocations"] json with
  | [maxRetries, historyCapacity, cancelGraceMs, failurePolicy, directAnswer, maxConcurrent] =>
    let standard := Settings.standard
    pure
      { maxRetries := ← optional standard.maxRetries (nat? limit32) maxRetries
        historyCapacity := ← optional standard.historyCapacity (nat? limit64) historyCapacity
        cancelGraceMs := ← optional standard.cancelGraceMs (nat? limit64) cancelGraceMs
        failurePolicy := ← optional standard.failurePolicy (policy? d) failurePolicy
        directAnswer := ← optional standard.directAnswer Json.bool? directAnswer
        maxConcurrentInvocations :=
          ← optional standard.maxConcurrentInvocations (nat? limit64) maxConcurrent }
  | _ => none

def rules? (d : Dialect) (json : Json) : Option RulesLocation := do
  match ← record? d ["rules_dir", "rules_file"] json with
  | [dir, file] =>
    let standard := RulesLocation.standard
    pure
      { dir := ← optional standard.dir Json.str? dir
        file := ← optional standard.file Json.str? file }
  | _ => none

def endpoint? (d : Dialect) (json : Json) : Option Endpoint := do
  match ← record? d ["name", "url", "timeout_secs", "description", "functions"] json with
  | [name, url, timeoutSecs, description, functions] =>
    pure
      { name := ← required Json.str? name
        url := ← required Json.str? url
        timeoutSecs := ← optional Endpoint.standardTimeoutSecs (nat? limit64) timeoutSecs
        description := ← optional "" Json.str? description
        functions := ← optional [] (list? Json.str?) functions }
  | _ => none

end Decode

open Decode in
def Config.ofTree? (d : Dialect) (json : Json) : Option Config := do
  match ← record? d ["llm", "orchestrator", "context", "layers"] json with
  | [models, settings, rules, layers] =>
    pure
      { models := ← optional .standard (models? d) models
        settings := ← optional .standard (settings? d) settings
        rules := ← optional .standard (rules? d) rules
        endpoints := ← optional [] (list? (endpoint? d)) layers }
  | _ => none

end PlanRunner
