import PlanRunner.Provider.Client
import PlanRunner.Text.Blank

/-!
# PlanRunner — the messages format

One provider takes its prompts under `/v1/messages` with its key in a header of its
own, and answers with blocks, of which those of text are put together.
-/

namespace PlanRunner.Provider.Messages

def name : String := "anthropic"

def standardBase : String := (defaultBaseUrl? name).getD ""

/-- A configured address without slashes at its end, and then without versions. -/
def baseOf (url : String) : String :=
  Text.trimEnd ['/', 'v', '1'] (Text.trimEnd ['/'] url)

def maxTokens : Nat := 4096

def requestBody (model prompt : String) : Json :=
  .obj [("max_tokens", .int maxTokens),
    ("messages", .arr [.obj [("content", .str prompt), ("role", .str "user")]]),
    ("model", .str model), ("temperature", .float 0.0)]

def request (base apiKey model prompt : String) : Http.Request where
  url := s!"{base}/v1/messages"
  headers := [("x-api-key", apiKey), ("anthropic-version", "2023-06-01"),
    ("content-type", "application/json")]
  body := (requestBody model prompt).compact
  timeoutMs := none

/-- The text of a block; the inner nothing is a block of another kind. -/
def blockText? : Json → Option (Option String)
  | .obj fields => do
    let tag ← (← soleField? "type" fields).bind Json.str?
    if tag = "text" then
      let text ← (← soleField? "text" fields).bind Json.str?
      pure (some text)
    else pure none
  | .arr (.str tag :: rest) =>
    if tag = "text" then
      match rest with
      | [.str text] => some (some text)
      | _ => none
    else if rest.isEmpty then some none
    else none
  | _ => none

def blockTexts? (body : String) : Option (List String) := do
  let blocks ← items? (← requiredField? "content" (← body? body))
  let texts ← blocks.mapM blockText?
  pure (texts.filterMap id)

def read (body : String) : Except ProviderError String :=
  match blockTexts? body with
  | none => .error (.invalidResponse s!"Failed to parse Anthropic response: {unreadable}")
  | some [] => .error (.invalidResponse "Anthropic response contained no text blocks")
  | some texts => .ok (String.join texts)

def client {σ : Type} (transport : Http.Transport σ) (base apiKey model : String)
    (contextLength : Nat) : Client σ where
  provider := name
  model := model
  contextLength := contextLength
  complete := completeOver transport (request base apiKey model) read

end PlanRunner.Provider.Messages
