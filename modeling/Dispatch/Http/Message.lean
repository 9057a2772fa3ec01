import Dispatch.Json.Value

/-!
# Requests and responses
-/

set_option autoImplicit false

namespace Dispatch.Http

/-- A request as it arrives. -/
structure Request where
  method : String
  target : Bytes
  body : Bytes
deriving DecidableEq, Repr

/-- A response with the headers that matter. -/
structure Response where
  status : Nat
  contentType : Option String
  /-- The methods that the address knows, where the method was another. -/
  allow : Option String
  body : Bytes
deriving DecidableEq, Repr

namespace Response

/-- No body, and no word about its type. -/
def bare (status : Nat) : Response := ⟨status, none, none, []⟩

def methodNotAllowed (allow : String) : Response := ⟨405, none, some allow, []⟩

/-- A line of text. -/
def text (status : Nat) (s : String) : Response :=
  ⟨status, some "text/plain; charset=utf-8", none, Utf8.ofString s⟩

def json (status : Nat) (v : Json.Value) : Response :=
  ⟨status, some "application/json", none, v.print⟩

/-- A success with its data. -/
def success (status : Nat) (data : Json.Value) : Response :=
  json status (.object [("success", .bool true), ("data", data)])

/-- A failure with its wording. -/
def failure (status : Nat) (wording : String) : Response :=
  json status (.object [("success", .bool false), ("error", .string wording)])

/-- The same answer without its body. -/
def withoutBody (r : Response) : Response := { r with body := [] }

end Response

end Dispatch.Http
