import PlanRunner.Http.Address

/-!
# PlanRunner — requests to servers

A request is always a POST of JSON. What carries it to a server is a transport,
a function on the state of the outside world, so everything that talks to servers
can be run against any world.
-/

namespace PlanRunner.Http

/-- A POST request with a JSON body. -/
structure Request where
  url : String
  headers : List (String × String)
  body : String
  /-- How long to wait for the answer; none is no limit of the request's own. -/
  timeoutMs : Option Nat
  deriving DecidableEq, Repr

inductive Outcome where
  | answered (status : Nat) (body : String)
  | timedOut
  | failed (reason : String)
  deriving DecidableEq, Repr

/-- Carries a request into a world and gives the time until its outcome, in
milliseconds, and the outcome. -/
def Transport (σ : Type) : Type :=
  Request → σ → (Nat × Outcome) × σ

def isSuccess (status : Nat) : Bool :=
  200 ≤ status && status < 300

def unreachable (url : String) : Outcome :=
  .failed s!"error sending request for url ({url})"

/-- Whether a text may be the value of a header: no control character but the tab. -/
def isHeaderValue (value : String) : Bool :=
  value.toList.all fun c => c == '\t' || (32 ≤ c.toNat && c.toNat != 127)

/-- Sends a request to the normal form of its address. One with an unusable header or
address never leaves. -/
def send {σ : Type} (transport : Transport σ) (request : Request) (world : σ) :
    (Nat × Outcome) × σ :=
  let usable := request.headers.all fun h => isHeaderValue h.2
  match usable, Address.ofText request.url with
  | true, .server url => transport { request with url := url } world
  | true, .foreign url => ((0, .failed s!"builder error for url ({url})"), world)
  | _, _ => ((0, .failed "builder error"), world)

/-- The transport of a world without any server. -/
def Transport.none (σ : Type) : Transport σ :=
  fun request world => ((0, unreachable request.url), world)

end PlanRunner.Http
