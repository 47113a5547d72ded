import PlanRunner.Error
import PlanRunner.Http
import PlanRunner.Json.Parser
import PlanRunner.Layer.Basic
import PlanRunner.Task

/-!
# PlanRunner — clients of language models

Providers in the cloud need a key. Providers on a machine of one's own need none, but
one without a default address has to be told where it is. A client is created for one
task and completes one prompt. Every provider's status codes are read alike, and one
time limit holds for all calls.

In the body of an answer a record is an object, of which unknown fields are ignored and
no known field may come twice, or an array of exactly its fields in order.

* `Provider.keyed`, `Provider.selfHosted` — the known providers;
* `Provider.errorOfStatus` — the error a status code stands for;
* `Client.withTimeout` — a client that gives up after some time;
* `Provider.body?`, `Provider.requiredField?` — the body of an answer and its fields.
-/

namespace PlanRunner

/-- A client of a language model in a world with states `σ`. -/
structure Client (σ : Type) where
  provider : String
  model : String
  /-- How many tokens a prompt may have. -/
  contextLength : Nat
  complete : String → σ → Reply (Except ProviderError String) × σ

namespace Provider

-- ---------------------------------------------------------------------------
-- Providers
-- ---------------------------------------------------------------------------

/-- The providers in the cloud, which need a key. -/
def keyed : List String :=
  ["openai", "openrouter", "deepseek", "groq", "together", "fireworks", "anthropic"]

/-- The providers on a machine of one's own. -/
def selfHosted : List String := ["ollama", "vllm", "llamacpp", "custom"]

def addresses : List (String × String) :=
  [("openrouter", "https://openrouter.ai/api/v1"),
    ("openai", "https://api.openai.com/v1"),
    ("anthropic", "https://api.anthropic.com"),
    ("deepseek", "https://api.deepseek.com/v1"),
    ("groq", "https://api.groq.com/openai/v1"),
    ("together", "https://api.together.xyz/v1"),
    ("fireworks", "https://api.fireworks.ai/inference/v1"),
    ("ollama", "http://localhost:11434/v1"),
    ("vllm", "http://localhost:8000/v1"),
    ("llamacpp", "http://localhost:8080/v1")]

def defaultBaseUrl? (provider : String) : Option String :=
  addresses.lookup provider

-- ---------------------------------------------------------------------------
-- Answers
-- ---------------------------------------------------------------------------

def errorOfStatus (status : Nat) (body : String) : ProviderError :=
  if status = 429 then .rateLimited 5
  else if status = 401 ∨ status = 403 then
    .authenticationFailed "Invalid API key or insufficient permissions"
  else .api status body

/-- What the outcome of a request says, given how the body of a success is read. -/
def interpret (read : String → Except ProviderError String) :
    Http.Outcome → Except ProviderError String
  | .answered status body => if status = 200 then read body else .error (errorOfStatus status body)
  | .timedOut => .error (.network "operation timed out")
  | .failed reason => .error (.network reason)

/-- Sends the request for a prompt and reads what comes of it. -/
def completeOver {σ : Type} (transport : Http.Transport σ) (request : String → Http.Request)
    (read : String → Except ProviderError String) (prompt : String) (world : σ) :
    Reply (Except ProviderError String) × σ :=
  let ((waitMs, outcome), world) := Http.send transport (request prompt) world
  (⟨waitMs, interpret read outcome⟩, world)

-- ---------------------------------------------------------------------------
-- Bodies of answers
-- ---------------------------------------------------------------------------

/-- A field of an object as it is written. Nothing is read from an object in which the
field comes twice; the inner nothing is an absent field. -/
def soleField? (key : String) (fields : List (String × Json)) : Option (Option Json) :=
  match fields.filter fun f => f.1 == key with
  | [] => some none
  | [(_, json)] => some (some json)
  | _ => none

/-- The only field of a record, which may be absent from an object. -/
def onlyField? (key : String) : Json → Option (Option Json)
  | .obj fields => soleField? key fields
  | .arr [json] => some (some json)
  | _ => none

/-- The only field of a record, which has to be there. -/
def requiredField? (key : String) (json : Json) : Option Json :=
  (onlyField? key json).bind id

def items? : Json → Option (List Json)
  | .arr items => some items
  | _ => none

/-- The body of an answer as it is written. -/
def body? (body : String) : Option Json := Json.parseWritten? body.toList

def unreadable : String := "unexpected content"

end Provider

-- ---------------------------------------------------------------------------
-- Time limits
-- ---------------------------------------------------------------------------

namespace Client

/-- A client that gives up on an answer that takes longer than some milliseconds. -/
def withTimeout {σ : Type} (task : Task) (timeoutMs : Nat) (c : Client σ) : Client σ :=
  { c with
    complete := fun prompt world =>
      let (reply, world) := c.complete prompt world
      if reply.waitMs ≤ timeoutMs then (reply, world)
      else (⟨timeoutMs, .error (.timeout task.name (timeoutMs / 1000))⟩, world) }

end Client

end PlanRunner
