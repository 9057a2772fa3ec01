import Dispatch.Json.Node

/-!
# Codecs

A `Codec` says how a type is written as a JSON value and read from a node. Reading goes in
document order and stops at the first fault. The scalar types, optional values, free-form values
and plain enumerations have their codecs here; records follow in `Dispatch.Json.Record`.
-/

set_option autoImplicit false

namespace Dispatch.Json

/-- What a reader may still do below a node. -/
structure Scope where
  /-- How many containers may still be entered. -/
  depth : Nat
  /-- A record written as a list may have more items than the record has fields. -/
  surplus : Bool

namespace Scope

/-- A message: nesting is bounded, and a list must fit its record. -/
def message : Scope := ⟨deepest, false⟩

/-- The scope inside a container. -/
def enter (scope : Scope) : Except Fault Scope :=
  if scope.depth = 0 then .error (.malformed .nestingTooDeep)
  else .ok { scope with depth := scope.depth - 1 }

end Scope

/-- How a type is written and read. -/
structure Codec (α : Type) where
  read : Scope → Node → Except Fault α
  write : α → Value

/-- A flaw of the text stops every reader. -/
def ofFlaw {α : Type} : Except FlawAt α → Except Fault α
  | .ok a => .ok a
  | .error f => .error (.malformed f.flaw)

/-- The fault of a node that is not what was wanted. -/
def Node.unwanted (expected : String) : Node → Fault
  | .null => .mismatch (.invalidType .null expected)
  | .bool b => .mismatch (.invalidType (.bool b) expected)
  | .number (.ok (.integer n)) => .mismatch (.invalidType (.integer n) expected)
  | .number (.ok (.float x)) => .mismatch (.invalidType (.float x) expected)
  | .number (.error f) => .malformed f.flaw
  | .string (.ok s) => .mismatch (.invalidType (.string s) expected)
  | .string (.error f) => .malformed f.flaw
  | .array _ _ _ => .mismatch (.invalidType .sequence expected)
  | .object _ _ _ => .mismatch (.invalidType .map expected)
  | .broken _ cause => .malformed cause.strict.flaw

namespace Codec

/-- The same texts for another type. -/
def map {α β : Type} (codec : Codec α) (make : α → β) (back : β → α) : Codec β :=
  ⟨fun scope node => (codec.read scope node).map make, fun b => codec.write (back b)⟩

/-- The texts whose value `check` accepts. -/
def refine {α β : Type} (codec : Codec α) (check : α → Except Mismatch β) (back : β → α) :
    Codec β where
  read scope node := do
    let a ← codec.read scope node
    (check a).mapError .mismatch
  write b := codec.write (back b)

/-- A number from zero to `largest`. -/
def natural (largest : Nat) (expected : String) : Codec Nat where
  read _ node :=
    match node with
    | .number (.ok (.integer n)) =>
      if 0 ≤ n ∧ n ≤ largest then .ok n.toNat
      else .error (.mismatch (.invalidValue (.integer n) expected))
    | _ => .error (node.unwanted expected)
  write n := .number (.integer n)

/-- An unsigned 64-bit number, as a type of this name. -/
def word64Named (expected : String) : Codec UInt64 :=
  (natural Numeral.maxWord64 expected).map (·.toUInt64) (·.toNat)

def word64 : Codec UInt64 := word64Named "u64"

def word32 : Codec UInt32 := (natural Numeral.maxWord32 "u32").map (·.toUInt32) (·.toNat)

/-- A binary64 number; an integer is rounded to the nearest one. -/
def float : Codec Binary64 where
  read _ node :=
    match node with
    | .number (.ok (.float x)) => .ok x
    | .number (.ok (.integer n)) => .ok (.ofInt n)
    | _ => .error (node.unwanted "f64")
  write x := .number (.float x)

def bool : Codec Bool where
  read _ node :=
    match node with
    | .bool b => .ok b
    | _ => .error (node.unwanted "a boolean")
  write := .bool

def string : Codec String where
  read _ node :=
    match node with
    | .string (.ok s) => .ok s
    | _ => .error (node.unwanted "a string")
  write := .string

/-- A free-form value, held in canonical form. -/
def value : Codec Value where
  read scope node := ofFlaw ((node.value? scope.depth).map (·.canonical))
  write v := v

/-- Nothing is written as `null`. -/
def option {α : Type} (codec : Codec α) : Codec (Option α) where
  read scope node :=
    match node with
    | .null => .ok none
    | _ => (codec.read scope node).map some
  write
    | none => .null
    | some a => codec.write a

/-- The value that a name stands for. -/
def variantOf {α : Type} (names : List (String × α)) (name : String) : Except Fault α :=
  match names.find? (·.1 = name) with
  | some (_, a) => .ok a
  | none => .error (.mismatch (.unknownVariant name (names.map (·.1))))

/-- The fault of a lone variant in braces that does not end behind its value. -/
def variantEnd : Ending → Except Fault Unit
  | .closed => .ok ()
  | .broken cause =>
    if cause.strict.flaw = .endInObject then .error (.malformed .endInObject)
    else .error (.malformed .expectedValue)

/-- One of finitely many names: as a string, or as the name of a lone member whose value is
`null`. -/
def variants {α : Type} (names : List (String × α)) (name : α → String) : Codec α where
  read scope node :=
    match node with
    | .string s => do
      let s ← ofFlaw s
      variantOf names s
    | .object _ members ending => do
      let _ ← scope.enter
      match members, ending with
      | [], .broken cause => throw (.malformed cause.strict.flaw)
      | [], .closed => throw (.malformed .expectedValue)
      | (key, content) :: others, _ =>
        let key ← ofFlaw key
        let a ← variantOf names key
        match content with
        | .null => pure ()
        | _ => throw (content.unwanted "unit")
        match others with
        | [] => variantEnd ending
        | _ :: _ => throw (.malformed .expectedValue)
        return a
    | .broken false cause => .error (.malformed cause.strict.flaw)
    | _ => .error (.malformed .expectedValue)
  write a := .string (name a)

end Codec

/-- Reads a whole text with a codec. -/
def Codec.decode {α : Type} (codec : Codec α) (text : Bytes) : Except Fault α := do
  let document := Document.ofText text
  let a ← codec.read .message document.root
  match document.surplus with
  | none => return a
  | some flaw => throw (.malformed flaw.flaw)

/-- Writes compact text with a codec. -/
def Codec.encode {α : Type} (codec : Codec α) (a : α) : Bytes := (codec.write a).print

end Dispatch.Json
