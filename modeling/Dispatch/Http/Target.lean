import Dispatch.Http.Encoded

/-!
# Targets of requests

A request names what it wants by a path and a query, by a whole address with scheme and host, by a
host alone, or by a star. `Target.ofText` keeps the path and the query; what stands behind a hash
sign never counts.
-/

set_option autoImplicit false

namespace Dispatch.Http

/-- The path and the query of a request; a host alone has no path. -/
structure Target where
  path : Bytes
  query : Bytes
deriving DecidableEq, Repr

namespace Target

/-- A character of a scheme such as `https`. -/
def isSchemeByte (b : UInt8) : Bool :=
  (0x61 ≤ b && b ≤ 0x7A) || (0x41 ≤ b && b ≤ 0x5A) || (0x30 ≤ b && b ≤ 0x39) ||
    b = 0x2B || b = 0x2D || b = 0x2E

/-- What stands behind a scheme, its colon and two slashes. -/
def behindScheme? (address : Bytes) : Option Bytes :=
  match address.dropWhile isSchemeByte with
  | 0x3A :: 0x2F :: 0x2F :: rest => some rest
  | _ => none

/-- A path, and the query behind its question mark. -/
def ofPath (text : Bytes) : Target :=
  let (path, query) := splitFirst 0x3F text
  ⟨path, query.getD []⟩

/-- The target of a whole address, from its host on; an empty path is the root. -/
def ofHost (text : Bytes) : Target :=
  let t := ofPath (text.dropWhile fun b => b != 0x2F && b != 0x3F)
  if t.path.isEmpty then { t with path := [0x2F] } else t

/-- The target that a text names. -/
def ofText (text : Bytes) : Target :=
  let (address, _) := splitFirst 0x23 text
  match address with
  | 0x2F :: _ => ofPath address
  | [0x2A] => ⟨address, []⟩
  | _ =>
    match behindScheme? address with
    | some rest => ofHost rest
    | none => ⟨[], []⟩

end Target

end Dispatch.Http
