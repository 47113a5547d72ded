import PlanRunner.Http
import PlanRunner.Json.Parser
import PlanRunner.Layer.Basic

/-!
# PlanRunner — layers behind a server

A remote layer sends `{"args": …, "function": …}` to its endpoint and expects
`{"result": …}` or `{"error": …}` back. A layer that lists functions refuses any
other function without a request.
-/

namespace PlanRunner

/-- Where a remote layer is and what it offers. -/
structure Endpoint where
  name : String
  url : String
  timeoutSecs : Nat
  description : String
  functions : List String
  deriving DecidableEq, Repr

namespace Endpoint

def accepts (e : Endpoint) (function : String) : Bool :=
  e.functions.isEmpty || e.functions.contains function

def requestBody (function : String) (args : Value) : Json :=
  .obj [("args", args.toJson), ("function", .str function)]

def request (e : Endpoint) (function : String) (args : Value) : Http.Request where
  url := e.url
  headers := [("content-type", "application/json")]
  body := (requestBody function args).compact
  timeoutMs := some (e.timeoutSecs * 1000)

/-- The text of a reported error: a string as it is, anything else as JSON. -/
def reportedError : Json → String
  | .str s => s
  | json => json.compact

/-- What an answer says about a call. A reported error counts before the status,
and the status before the result. -/
def interpret (status : Nat) (body : String) : Except String Value :=
  let parsed := Json.ofText? body
  match parsed.bind fun json => json.get? "error" with
  | some error => .error (reportedError error)
  | none =>
    if !Http.isSuccess status then .error s!"HTTP {status}: {body}"
    else
      match parsed with
      | some (.obj fields) =>
        match field? "result" fields with
        | some result => .ok (Value.ofJson result)
        | none => .error "response has neither 'result' nor 'error'"
      | _ => .error "response is not a JSON object"

/-- What the outcome of a request says about a call. -/
def interpretOutcome : Http.Outcome → Except String Value
  | .answered status body => interpret status body
  | .timedOut => .error "request timed out"
  | .failed reason => .error reason

def call {σ : Type} (transport : Http.Transport σ) (e : Endpoint) (function : String)
    (args : Value) (world : σ) : Reply (Except LayerError Value) × σ :=
  if e.accepts function then
    let ((waitMs, outcome), world) := Http.send transport (e.request function args) world
    let result :=
      match interpretOutcome outcome with
      | .ok value => .ok value
      | .error reason => .error (.invocationFailed e.name function reason)
    (⟨waitMs, result⟩, world)
  else (⟨0, .error (.unknownFunction e.name function)⟩, world)

def layer {σ : Type} (transport : Http.Transport σ) (e : Endpoint) : Layer σ where
  description := e.description
  functions := e.functions
  invoke := e.call transport

end Endpoint

/-- Adds the layers behind endpoints, in order. -/
def Registry.registerRemote {σ : Type} (transport : Http.Transport σ) (r : Registry σ)
    (endpoints : List Endpoint) : Registry σ :=
  endpoints.foldl (fun r e => r.register e.name (e.layer transport)) r

end PlanRunner
