import Dispatch.Gateway
import Dispatch.Http.Endpoint
import Dispatch.Http.Target
import Dispatch.Metrics.Exposition

/-!
# The gateway over HTTP

`Api.handle` answers a request at once, or submits an activation for which the caller waits;
`Api.responseTo` is what the caller gets when the wait is over.
-/

set_option autoImplicit false

namespace Dispatch

/-- What a submission comes to. -/
inductive Outcome where
  /-- Published, and the result is not waited for, or no longer. -/
  | accepted (id : ActivationId)
  | completed (result : ActivationResult)
deriving Repr

namespace Api

open Http (Response)
open Json (Value)

/-- A request that is answered, or one whose submission goes on. -/
inductive Reply where
  | done (response : Response)
  | submitted (published : Published) (patience : Option Duration)

def statusOf : SubmitFault → Nat
  | .actionNotFound _ => 404
  | .overload _ _ _ => 503
  | .dispatch _ => 502
  | .store _ => 500
  | .deadlineOutOfRange => 500

/-- The response to a submission that has come to something. -/
def responseTo : Outcome → Response
  | .accepted id => .success 202 (.object [("activation_id", ActivationId.codec.write id)])
  | .completed result => .success 200 (ActivationResult.codec.write result)

def refusalOf (f : SubmitFault) : Response := .failure (statusOf f) f.message

/-- The numbers of the activations endpoint. -/
def stats (g : Gateway) : Value :=
  (Value.object [("in_flight", .ofNat g.flight.inFlight), ("counters", g.counters.value)]).canonical

/-- The text of the metrics endpoint. -/
def metrics (g : Gateway) : Gateway × Response :=
  let (g, infos) := g.listInvokers
  (g, ⟨200, some "text/plain; version=0.0.4; charset=utf-8", none,
    Utf8.ofString (Exposition.render (Exposition.families g.counters infos))⟩)

/-- The request for an activation that an invocation makes. -/
def invocation (space name : String) (options : Http.InvokeOptions) (body : Bytes) :
    Except Response Request :=
  let request (payload : Value) : Request :=
    ⟨space, ⟨space, name⟩, payload, options.blocking.getD false,
      options.timeout.map Duration.ofMillis, none⟩
  if body.isEmpty then .ok (request (.object []))
  else
    match Json.valueOfText? body with
    | .ok payload => .ok (request payload)
    | .error flaw => .error (.failure 400 ("invalid JSON body: " ++ flaw.messageIn body))

/-- Reads the parameters of an invocation: those of the path, those of the query, the body. -/
def readInvocation (space name query body : Bytes) : Except Response Request := do
  let (space, name) ← (do
    let space ← Http.pathText "namespace" space
    let name ← Http.pathText "name" name
    return (space, name)).mapError (Response.text 400)
  let options ← (Http.InvokeOptions.ofQuery query).mapError (Response.text 400)
  invocation space name options body

/-- Submits the activation of an invocation. -/
def invoke (g : Gateway) (space name query body : Bytes) (now : Instant) (calendar : UInt64) :
    Gateway × Reply :=
  match readInvocation space name query body with
  | .error response => (g, .done response)
  | .ok request =>
    match g.submit request now calendar with
    | (g, .ok published) => (g, .submitted published request.patience)
    | (g, .error f) => (g, .done (refusalOf f))

/-- Answers an endpoint that knows the method. -/
def serve (g : Gateway) (e : Http.Endpoint) (query body : Bytes) (now : Instant)
    (calendar : UInt64) : Gateway × Reply :=
  match e with
  | .invokers =>
    let (g, infos) := g.listInvokers
    (g, .done (.success 200 (.array (infos.map InvokerInfo.codec.write))))
  | .invoker id =>
    match Http.pathNumber "id" id with
    | .error refusal => (g, .done (.text 400 refusal))
    | .ok ordinal =>
      match g.removeInvoker ⟨ordinal⟩ with
      | (g, true) => (g, .done (.success 200 (.string "removed")))
      | (g, false) => (g, .done (.failure 404 "invoker not found"))
  | .activations => (g, .done (.success 200 (stats g)))
  | .action space name => invoke g space name query body now calendar
  | .metrics =>
    let (g, response) := metrics g
    (g, .done response)

/-- Handles a request. -/
def handle (g : Gateway) (r : Http.Request) (now : Instant) (calendar : UInt64) :
    Gateway × Reply :=
  let target := Http.Target.ofText r.target
  match Http.Endpoint.ofPath? target.path with
  | none => (g, .done (.bare 404))
  | some e =>
    if e.accepts r.method then
      match serve g e target.query r.body now calendar with
      | (g, .done response) =>
        (g, .done (if r.method = "HEAD" then response.withoutBody else response))
      | reply => reply
    else (g, .done (.methodNotAllowed e.allow))

end Api

end Dispatch
