import Dispatch.Http.Encoded
import Dispatch.Http.Message
import Dispatch.Time

/-!
# Endpoints

Which addresses there are, which methods they know, and what their parameters must be. Addresses
are compared as they are written; only parameters are decoded.
-/

set_option autoImplicit false

namespace Dispatch.Http

/-- What an address stands for, with its parameters as written. -/
inductive Endpoint where
  | invokers
  | invoker (id : Bytes)
  | activations
  | action (space name : Bytes)
  | metrics
deriving DecidableEq, Repr

namespace Endpoint

/-- The endpoint of a path. Only a parameter at the end must not be empty. -/
def ofPath? (path : Bytes) : Option Endpoint :=
  match splitOn 0x2F path with
  | [] :: segments =>
    if segments = [Json.ascii "metrics"] then some .metrics
    else
      match segments with
      | api :: version :: rest =>
        if api = Json.ascii "api" ∧ version = Json.ascii "v1" then
          match rest with
          | [a] =>
            if a = Json.ascii "invokers" then some .invokers
            else if a = Json.ascii "activations" then some .activations
            else none
          | [a, id] => if a = Json.ascii "invokers" ∧ !id.isEmpty then some (.invoker id) else none
          | [a, space, b, name] =>
            if a = Json.ascii "namespaces" ∧ b = Json.ascii "actions" ∧ !name.isEmpty then
              some (.action space name)
            else none
          | _ => none
        else none
      | _ => none
  | _ => none

/-- The methods of an endpoint, as the header lists them. -/
def allow : Endpoint → String
  | .invokers | .activations | .metrics => "GET,HEAD"
  | .invoker _ => "DELETE"
  | .action _ _ => "POST"

/-- Whether an endpoint knows a method. -/
def accepts (e : Endpoint) (method : String) : Bool :=
  match e with
  | .invokers | .activations | .metrics => method = "GET" || method = "HEAD"
  | .invoker _ => method = "DELETE"
  | .action _ _ => method = "POST"

end Endpoint

/-- A parameter that is not as it must be, in its wording. -/
abbrev Refusal := String

/-- A decoded parameter of a path. -/
def pathText (name : String) (written : Bytes) : Except Refusal String :=
  match Utf8.toString? (percentDecode written) with
  | some s => .ok s
  | none => .error ("Invalid URL: Invalid UTF-8 in `" ++ name ++ "`")

/-- A parameter of a path that is a 64-bit number. -/
def pathNumber (name : String) (written : Bytes) : Except Refusal UInt64 := do
  let s ← pathText name written
  match Numeral.read Numeral.maxWord64 s.toList with
  | .ok n => return n.toUInt64
  | .error _ => throw ("Invalid URL: Cannot parse `" ++ s ++ "` to a `u64`")

/-- The options of an invocation. -/
structure InvokeOptions where
  blocking : Option Bool
  timeout : Option UInt64
deriving DecidableEq, Repr

namespace InvokeOptions

def refusal (cause : String) : Refusal := "Failed to deserialize query string: " ++ cause

def duplicate (name : String) : Refusal := refusal ("duplicate field `" ++ name ++ "`")

/-- Takes in one name and value; other names are passed over. -/
def set (o : InvokeOptions) (name value : String) : Except Refusal InvokeOptions :=
  if name = "blocking" then
    if o.blocking.isSome then .error (duplicate name)
    else if value = "true" then .ok { o with blocking := some true }
    else if value = "false" then .ok { o with blocking := some false }
    else .error (refusal "blocking: provided string was not `true` or `false`")
  else if name = "timeout_ms" then
    if o.timeout.isSome then .error (duplicate name)
    else
      match Numeral.read Numeral.maxWord64 value.toList with
      | .ok n => .ok { o with timeout := some n.toUInt64 }
      | .error f => .error (refusal ("timeout_ms: " ++ f.message))
  else .ok o

/-- The options of a query; the first fault is the one that counts. -/
def ofQuery (query : Bytes) : Except Refusal InvokeOptions :=
  (queryPairs query).foldlM (fun o (name, value) => o.set name value) ⟨none, none⟩

end InvokeOptions

end Dispatch.Http
