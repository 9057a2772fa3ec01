import Dispatch.Invoker
import Dispatch.Time

/-!
# Actions

An action is known by its qualified name. Its record says what it runs, which decides the pool,
and what it may use.
-/

set_option autoImplicit false

namespace Dispatch

open Json (Codec Field Value Fault Scope Node Slots)

/-- A namespace and a name in it. -/
structure QualifiedName where
  space : String
  name : String
deriving DecidableEq, Repr, Inhabited

namespace QualifiedName

/-- The parts around the first slash. -/
def splitSlash : List Char → Option (List Char × List Char)
  | [] => none
  | c :: rest =>
    if c = '/' then some ([], rest) else (splitSlash rest).map fun (a, b) => (c :: a, b)

/-- Reads `namespace/name`; slashes in front are ignored, and later ones belong to the name. -/
def ofString? (s : String) : Option QualifiedName :=
  match splitSlash (s.toList.dropWhile (· = '/')) with
  | some (space, name) =>
    if space.isEmpty || name.isEmpty then none
    else some ⟨String.ofList space, String.ofList name⟩
  | none => none

/-- Both parts with a slash between. -/
def text (n : QualifiedName) : String := n.space ++ "/" ++ n.name

/-- The wording for a text that is no qualified name. -/
def faultMessage (s : String) : String := "invalid fully qualified name: " ++ s

def codec : Codec QualifiedName :=
  Codec.record "FullyQualifiedName"
    [.required "namespace" .string, .required "name" .string]
    (fun (space, name, _) => ⟨space, name⟩)
    (fun n => (n.space, n.name, ()))

end QualifiedName

/-- What an action runs. -/
inductive Exec where
  /-- A kind of runtime that the platform provides. -/
  | managed (kind : String)
  /-- An image that a user provides. -/
  | blackbox (image : String)
deriving DecidableEq, Repr, Inhabited

namespace Exec

def pool : Exec → Pool
  | .managed _ => .managed
  | .blackbox _ => .blackbox

/-- The one field that goes with a pool, and the name of its variant in messages. -/
def fieldFor : Pool → String × String
  | .managed => ("kind", "Managed")
  | .blackbox => ("image", "Blackbox")

def ofPool : Pool → String → Exec
  | .managed, s => .managed s
  | .blackbox, s => .blackbox s

/-- The member that tells the pool. -/
def tag : String := "type"

/-- The pool that a tag names. -/
def readTag (node : Node) : Except Fault Pool :=
  match node with
  | .string s => do
    let s ← Json.ofFlaw s
    Codec.variantOf [("managed", .managed), ("blackbox", .blackbox)] s
  | _ => .error (node.unwanted "variant identifier")

/-- Splits off the tag, which is read where it stands; the other members are kept, as values,
until the tag is known. -/
def splitTag (scope : Scope) (pool : Option Pool) (kept : List (String × Value)) :
    List (Except Json.FlawAt String × Node) → Except Fault (Option Pool × List (String × Value))
  | [] => .ok (pool, kept.reverse)
  | (name, node) :: rest => do
    let name ← Json.ofFlaw name
    if name = tag then
      match pool with
      | some _ => throw (.mismatch (.duplicateField tag))
      | none =>
        let pool ← readTag node
        splitTag scope (some pool) kept rest
    else
      let v ← Json.ofFlaw (node.value? scope.depth)
      splitTag scope pool ((name, v) :: kept) rest

/-- Reads the field that goes with the pool from members or items that were kept. -/
def readKept (pool : Pool) (kept : Node) : Except Fault Exec := do
  let (field, variant) := fieldFor pool
  let (s, _) ← Json.readRow ("struct variant ActionExec::" ++ variant) [.required field .string]
    ⟨Json.deepest, true⟩ kept
  return ofPool pool s

/-- A list of a tag and one more item. -/
def readItems (scope : Scope) (items : List Node) (ending : Json.Ending) : Except Fault Exec := do
  match items with
  | [] =>
    Json.ofFlaw ending.strict
    throw (.mismatch (.missingField tag))
  | first :: rest =>
    let pool ← readTag first
    let kept ← Json.ofFlaw (Node.itemValues? scope.depth rest)
    Json.ofFlaw ending.strict
    let exec ← readKept pool (Node.ofValue (.array kept))
    if 1 < kept.length then
      throw (.mismatch (.invalidLength kept.length (Json.elements 1 ++ " in sequence")))
    return exec

/-- An object with the member `type` and the field that goes with it. -/
def codec : Codec Exec where
  read scope node :=
    match node with
    | .object _ members ending => do
      let inner ← scope.enter
      let (pool, kept) ← splitTag inner none [] members
      Json.ofFlaw ending.strict
      match pool with
      | none => throw (.mismatch (.missingField tag))
      | some pool => readKept pool (Node.ofValue (.object kept))
    | .array _ items ending => do
      let inner ← scope.enter
      readItems inner items ending
    | _ => .error (node.unwanted "internally tagged enum ActionExec")
  write
    | .managed kind => .object [(tag, .string "managed"), ("kind", .string kind)]
    | .blackbox image => .object [(tag, .string "blackbox"), ("image", .string image)]

end Exec

/-- What one activation of an action may use. -/
structure ActionLimits where
  /-- Memory set aside for it, in megabytes. -/
  memory : UInt64
  /-- Longest run, in milliseconds. -/
  timeoutMillis : UInt64
deriving DecidableEq, Repr, Inhabited

namespace ActionLimits

def timeout (l : ActionLimits) : Duration := .ofMillis l.timeoutMillis

/-- The limits of an action that asks for none. -/
def standard : ActionLimits := ⟨256, 60000⟩

def codec : Codec ActionLimits :=
  Codec.record "ActionLimits" [.required "memory_mb" .word64, .required "timeout_ms" .word64]
    (fun (memory, timeout, _) => ⟨memory, timeout⟩)
    (fun l => (l.memory, l.timeoutMillis, ()))

end ActionLimits

/-- The record of an action. -/
structure Action where
  space : String
  name : String
  exec : Exec
  limits : ActionLimits
  /-- When the record was last changed, in seconds of the calendar. -/
  updatedAt : UInt64
deriving DecidableEq, Repr, Inhabited

namespace Action

def qualifiedName (a : Action) : QualifiedName := ⟨a.space, a.name⟩

def pool (a : Action) : Pool := a.exec.pool

/-- The key under which the record is stored. -/
def key (a : Action) : String := a.qualifiedName.text

def codec : Codec Action :=
  Codec.record "ActionMetadata"
    [.required "namespace" .string, .required "name" .string, .required "exec" Exec.codec,
      .required "limits" ActionLimits.codec, .defaulted "updated_at" .word64 0]
    (fun (space, name, exec, limits, updated, _) => ⟨space, name, exec, limits, updated⟩)
    (fun a => (a.space, a.name, a.exec, a.limits, a.updatedAt, ()))

end Action

end Dispatch
