import PlanRunner.Provider.Client
import PlanRunner.Text.Blank

/-!
# PlanRunner — the chat completions format

Most providers take `{"messages": …, "model": …, "stream": false, "temperature": 0.0}`
under `/chat/completions` and answer with a list of choices, of which the first counts.
-/

namespace PlanRunner.Provider.Chat

/-- The address of a provider without slashes at its end. -/
def baseOf (url : String) : String := Text.trimEnd ['/'] url

def requestBody (model prompt : String) : Json :=
  .obj [("messages", .arr [.obj [("content", .str prompt), ("role", .str "user")]]),
    ("model", .str model), ("stream", .bool false), ("temperature", .float 0.0)]

/-- The request for a prompt. A key is sent if there is one. -/
def request (baseUrl : String) (apiKey : Option String) (model prompt : String) :
    Http.Request where
  url := s!"{baseOf baseUrl}/chat/completions"
  headers := ("content-type", "application/json")
    :: match apiKey with
      | some key => [("authorization", s!"Bearer {key}")]
      | none => []
  body := (requestBody model prompt).compact
  timeoutMs := none

/-- The text of a message; a message without text is empty. -/
def messageText? (message : Json) : Option String :=
  match onlyField? "content" message with
  | none => none
  | some none => some ""
  | some (some .null) => some ""
  | some (some json) => json.str?

def choiceTexts? (body : String) : Option (List String) := do
  let choices ← items? (← requiredField? "choices" (← body? body))
  choices.mapM fun choice => (requiredField? "message" choice).bind messageText?

def read (body : String) : Except ProviderError String :=
  match choiceTexts? body with
  | none => .error (.invalidResponse s!"Failed to parse response: {unreadable}")
  | some [] => .error (.invalidResponse "No choices in response")
  | some (text :: _) => .ok text

def client {σ : Type} (transport : Http.Transport σ) (provider baseUrl : String)
    (apiKey : Option String) (model : String) (contextLength : Nat) : Client σ where
  provider := provider
  model := model
  contextLength := contextLength
  complete := completeOver transport (request baseUrl apiKey model) read

end PlanRunner.Provider.Chat
