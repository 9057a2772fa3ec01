import Dispatch.Json.Codec

/-!
# Records

A record type is described by its `Field`s. Its text is an object with one member per field in
any order, unknown members passed over, or an array with one item per field in order. `Slots`
holds the fields met so far and `Row` all of them; both follow the list of fields, so what is said
of one field carries over to every record by induction on that list.
-/

set_option autoImplicit false

namespace Dispatch.Json

/-- A field of a record. -/
structure Field where
  Content : Type
  name : String
  codec : Codec Content
  /-- What a missing field stands for, if it may be missing. -/
  absent : Option Content
  /-- What is left out when written. -/
  omitted : Content → Bool

namespace Field

/-- A field that must be there. -/
def required {α : Type} (name : String) (codec : Codec α) : Field :=
  ⟨α, name, codec, none, fun _ => false⟩

/-- A field that stands for a value where it is missing. -/
def defaulted {α : Type} (name : String) (codec : Codec α) (absent : α) : Field :=
  ⟨α, name, codec, some absent, fun _ => false⟩

/-- A field that is left out where there is nothing to write. -/
def optional {α : Type} (name : String) (codec : Codec α) : Field :=
  ⟨Option α, name, codec.option, some none, (·.isNone)⟩

end Field

/-- The fields met so far. -/
def Slots : List Field → Type
  | [] => Unit
  | f :: fs => Option f.Content × Slots fs

/-- A value for each field. -/
def Row : List Field → Type
  | [] => Unit
  | f :: fs => f.Content × Row fs

namespace Slots

/-- No field met yet. -/
def empty : (fields : List Field) → Slots fields
  | [] => ()
  | _ :: fs => (none, empty fs)

/-- Takes in a member; one that names no field is passed over. -/
def readMember (scope : Scope) (name : String) (node : Node) :
    (fields : List Field) → Slots fields → Except Fault (Slots fields)
  | [], slots => do
    ofFlaw node.pass
    return slots
  | f :: fs, (slot, slots) =>
    if f.name = name then
      match slot with
      | some _ => .error (.mismatch (.duplicateField name))
      | none => do
        let content ← f.codec.read scope node
        return (some content, slots)
    else do
      let slots ← readMember scope name node fs slots
      return (slot, slots)

/-- Takes in members in document order. -/
def readMembers (scope : Scope) (fields : List Field) :
    List (Except FlawAt String × Node) → Slots fields → Except Fault (Slots fields)
  | [], slots => .ok slots
  | (name, node) :: rest, slots => do
    let name ← ofFlaw name
    let slots ← readMember scope name node fields slots
    readMembers scope fields rest slots

/-- The row of the fields met; the first that must be there and is not is named. -/
def finish : (fields : List Field) → Slots fields → Except Fault (Row fields)
  | [], _ => .ok ()
  | f :: fs, (slot, slots) =>
    match slot, f.absent with
    | some content, _ => do
      let row ← finish fs slots
      return (content, row)
    | none, some content => do
      let row ← finish fs slots
      return (content, row)
    | none, none => .error (.mismatch (.missingField f.name))

end Slots

namespace Row

/-- The members that a row is written as. -/
def write : (fields : List Field) → Row fields → List (String × Value)
  | [], _ => []
  | f :: fs, (content, row) =>
    if f.omitted content then write fs row
    else (f.name, f.codec.write content) :: write fs row

/-- Reads items in field order; `index` of them were read before. Gives the items left over. -/
def readItems (scope : Scope) (expected : String) (ending : Ending) :
    (fields : List Field) → (index : Nat) → List Node → Except Fault (Row fields × List Node)
  | [], _, items => .ok ((), items)
  | f :: fs, index, node :: items => do
    let content ← f.codec.read scope node
    let (row, left) ← readItems scope expected ending fs (index + 1) items
    return ((content, row), left)
  | f :: fs, index, [] => do
    ofFlaw ending.strict
    match f.absent with
    | some content =>
      let (row, left) ← readItems scope expected ending fs (index + 1) []
      return ((content, row), left)
    | none => throw (.mismatch (.invalidLength index expected))

/-- Behind the last field the list must end. -/
def noSurplus (left : List Node) (ending : Ending) : Except Fault Unit :=
  match left, ending with
  | [], .closed => .ok ()
  | [], .broken cause =>
    if cause.strict.flaw = .endInList ∨ cause.strict.flaw = .trailingComma then
      .error (.malformed cause.strict.flaw)
    else .error (.malformed .trailingCharacters)
  | _, _ => .error (.malformed .trailingCharacters)

end Row

/-- `1 element`, `2 elements`. -/
def elements (n : Nat) : String := toString n ++ (if n = 1 then " element" else " elements")

/-- The row that a node holds, under the record's name in messages. -/
def readRow (name : String) (fields : List Field) (scope : Scope) (node : Node) :
    Except Fault (Row fields) :=
  match node with
  | .object _ members ending => do
    let inner ← scope.enter
    let slots ← Slots.readMembers inner fields members (Slots.empty fields)
    ofFlaw ending.strict
    Slots.finish fields slots
  | .array _ items ending => do
    let inner ← scope.enter
    let expected := name ++ " with " ++ elements fields.length
    let (row, left) ← Row.readItems inner expected ending fields 0 items
    if !scope.surplus then Row.noSurplus left ending
    return row
  | _ => .error (node.unwanted name)

/-- The codec of a record type, given its rows. -/
def Codec.record {α : Type} (name : String) (fields : List Field) (ofRow : Row fields → α)
    (toRow : α → Row fields) : Codec α where
  read scope node := (readRow ("struct " ++ name) fields scope node).map ofRow
  write a := .object (Row.write fields (toRow a))

end Dispatch.Json
