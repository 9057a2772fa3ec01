import Dispatch.Json.Token

/-!
# Documents as read

A `Node` is a JSON text as far as it can be read: the tree of its values, where a branch that
breaks off ends in the flaw that stops its reader. Whoever reads a node in document order
therefore meets a value that does not fit and a flaw of the text in the order in which they stand.
`Node.value?` is the strict reading as a free-form value, `Node.pass` the reading that only passes
over it, and `Document.ofText` makes the tree.
-/

set_option autoImplicit false

namespace Dispatch.Json

/-- How the items of an array or the members of an object end. -/
inductive Ending where
  | closed
  | broken (cause : Break)

/-- A value as far as it can be read. An array or object knows how many bytes of the text lie
behind its opening bracket; where no value is there, `begun` says whether a number or a word starts
at that place. -/
inductive Node where
  | null
  | bool (value : Bool)
  | number (value : Except FlawAt Number)
  | string (value : Except FlawAt String)
  | array (left : Nat) (items : List Node) (ending : Ending)
  | object (left : Nat) (members : List (Except FlawAt String × Node)) (ending : Ending)
  | broken (begun : Bool) (cause : Break)

instance : Inhabited Node := ⟨.null⟩

/-! ## From tokens -/

namespace Node

/-- The place behind the first byte of the token at the head, or the end of the text. -/
def placeOf : List Token → Nat
  | [] => 0
  | t :: _ => t.left - 1

/-- The next token is the flaw. -/
def stop (flaw : Flaw) (tokens : List Token) : Break := .both flaw (placeOf tokens)

/-- The next token is the flaw, and the two kinds of reader name it differently. -/
def stopApart (strict skipped : Flaw) (tokens : List Token) : Break :=
  ⟨⟨strict, placeOf tokens⟩, ⟨skipped, placeOf tokens⟩⟩

/-- Items or members, how they end, and the tokens behind them. -/
structure Parts (α : Type) where
  parts : List α
  ending : Ending
  rest : List Token

def Parts.broken {α : Type} (cause : Break) : Parts α := ⟨[], .broken cause, []⟩

def Parts.closed {α : Type} (rest : List Token) : Parts α := ⟨[], .closed, rest⟩

def Parts.cons {α : Type} (a : α) (p : Parts α) : Parts α := { p with parts := a :: p.parts }

mutual

/-- The value at the head of `tokens`, and the tokens behind it. Every step down and every step
along uses up one unit of `fuel`. -/
def read : (fuel : Nat) → (tokens : List Token) → Node × List Token
  | 0, tokens => (.broken false (stop .endInValue tokens), [])
  | _ + 1, [] => (.broken false (stop .endInValue []), [])
  | fuel + 1, t :: rest =>
    match t.lexeme with
    | .null => (.null, rest)
    | .bool b => (.bool b, rest)
    | .number v => (.number v, rest)
    | .string v => (.string v, rest)
    | .broken inString cause => (.broken (!inString) cause, [])
    | .openBracket =>
      let p := readItems fuel true rest
      (.array (t.left - 1) p.parts p.ending, p.rest)
    | .openBrace =>
      let p := readMembers fuel true rest
      (.object (t.left - 1) p.parts p.ending, p.rest)
    | _ => (.broken false (stop .expectedValue (t :: rest)), [])

/-- Items from behind the opening bracket (`first`) or behind a comma. -/
def readItems : (fuel : Nat) → (first : Bool) → (tokens : List Token) → Parts Node
  | 0, _, tokens => .broken (stop .endInList tokens)
  | _ + 1, first, [] => .broken (stop (if first then .endInList else .endInValue) [])
  | fuel + 1, first, t :: rest =>
    match t.lexeme with
    | .closeBracket =>
      if first then .closed rest else .broken (stopApart .trailingComma .expectedValue (t :: rest))
    | _ =>
      let (item, behind) := read fuel (t :: rest)
      (afterItem fuel behind).cons item

/-- What follows an item. -/
def afterItem : (fuel : Nat) → (tokens : List Token) → Parts Node
  | 0, tokens => .broken (stop .endInList tokens)
  | _ + 1, [] => .broken (stop .endInList [])
  | fuel + 1, t :: rest =>
    match t.lexeme with
    | .comma => readItems fuel false rest
    | .closeBracket => .closed rest
    | _ => .broken (stop .expectedListCommaOrEnd (t :: rest))

/-- Members from behind the opening brace (`first`) or behind a comma. -/
def readMembers : (fuel : Nat) → (first : Bool) → (tokens : List Token) →
    Parts (Except FlawAt String × Node)
  | 0, _, tokens => .broken (stop .endInObject tokens)
  | _ + 1, first, [] =>
    .broken (stopApart (if first then .endInObject else .endInValue) .endInObject [])
  | fuel + 1, first, t :: rest =>
    match t.lexeme with
    | .closeBrace =>
      if first then .closed rest else .broken (stopApart .trailingComma .keyNotString (t :: rest))
    | .string name =>
      let (value, behind) := readMember fuel rest
      (afterMember fuel behind).cons (name, value)
    | .broken true cause => .broken cause
    | _ => .broken (stop .keyNotString (t :: rest))

/-- The colon behind a name, and the value. -/
def readMember : (fuel : Nat) → (tokens : List Token) → Node × List Token
  | 0, tokens => (.broken false (stop .endInObject tokens), [])
  | _ + 1, [] => (.broken false (stop .endInObject []), [])
  | fuel + 1, t :: rest =>
    match t.lexeme with
    | .colon => read fuel rest
    | _ => (.broken false (stop .expectedColon (t :: rest)), [])

/-- What follows a member. -/
def afterMember : (fuel : Nat) → (tokens : List Token) → Parts (Except FlawAt String × Node)
  | 0, tokens => .broken (stop .endInObject tokens)
  | _ + 1, [] => .broken (stop .endInObject [])
  | fuel + 1, t :: rest =>
    match t.lexeme with
    | .comma => readMembers fuel false rest
    | .closeBrace => .closed rest
    | _ => .broken (stop .expectedObjectCommaOrEnd (t :: rest))

end

end Node

/-- A text: its value, and the flaw of whatever stands behind it. -/
structure Document where
  root : Node
  surplus : Option FlawAt

/-- No token takes more than two steps. -/
def Document.ofText (text : Bytes) : Document :=
  let tokens := tokens text
  let (root, rest) := Node.read (2 * tokens.length + 2) tokens
  ⟨root,
    match rest with
    | [] => none
    | t :: _ => some ⟨.trailingCharacters, t.left - 1⟩⟩

/-! ## Readings -/

/-- Containers may be nested this deep in a value that is kept. -/
def deepest : Nat := 127

/-- The flaw of a strict reader at the end of items or members. -/
def Ending.strict : Ending → Except FlawAt Unit
  | .closed => .ok ()
  | .broken cause => .error cause.strict

/-- The flaw of a reader that passes over items or members. -/
def Ending.skipped : Ending → Except FlawAt Unit
  | .closed => .ok ()
  | .broken cause => .error cause.skipped

namespace Node

mutual

/-- The free-form value of a node with at most `depth` nested containers. -/
def value? : (depth : Nat) → Node → Except FlawAt Value
  | _, .null => .ok .null
  | _, .bool b => .ok (.bool b)
  | _, .number v => v.map .number
  | _, .string v => v.map .string
  | depth, .array left items ending =>
    if depth = 0 then .error ⟨.nestingTooDeep, left⟩
    else do
      let items ← itemValues? (depth - 1) items
      ending.strict
      return .array items
  | depth, .object left members ending =>
    if depth = 0 then .error ⟨.nestingTooDeep, left⟩
    else do
      let members ← memberValues? (depth - 1) members
      ending.strict
      return .object members
  | _, .broken _ cause => .error cause.strict

def itemValues? : (depth : Nat) → List Node → Except FlawAt (List Value)
  | _, [] => .ok []
  | depth, node :: rest => do
    let v ← value? depth node
    let vs ← itemValues? depth rest
    return v :: vs

def memberValues? :
    (depth : Nat) → List (Except FlawAt String × Node) → Except FlawAt (List (String × Value))
  | _, [] => .ok []
  | depth, (name, node) :: rest => do
    let name ← name
    let v ← value? depth node
    let vs ← memberValues? depth rest
    return (name, v) :: vs

end

mutual

/-- Passes over a node, however deep it is. -/
def pass : Node → Except FlawAt Unit
  | .array _ items ending => do
    passItems items
    ending.skipped
  | .object _ members ending => do
    passMembers members
    ending.skipped
  | .broken _ cause => .error cause.skipped
  | _ => .ok ()

def passItems : List Node → Except FlawAt Unit
  | [] => .ok ()
  | node :: rest => do
    pass node
    passItems rest

def passMembers : List (Except FlawAt String × Node) → Except FlawAt Unit
  | [] => .ok ()
  | (_, node) :: rest => do
    pass node
    passMembers rest

end

mutual

/-- The node of a value that is already known. -/
def ofValue : Value → Node
  | .null => .null
  | .bool b => .bool b
  | .number n => .number (.ok n)
  | .string s => .string (.ok s)
  | .array items => .array 0 (ofItems items) .closed
  | .object members => .object 0 (ofMembers members) .closed

def ofItems : List Value → List Node
  | [] => []
  | v :: rest => ofValue v :: ofItems rest

def ofMembers : List (String × Value) → List (Except FlawAt String × Node)
  | [] => []
  | (name, v) :: rest => (.ok name, ofValue v) :: ofMembers rest

end

end Node

/-- The free-form value of a text, in canonical form. -/
def valueOfText? (text : Bytes) : Except FlawAt Value := do
  let document := Document.ofText text
  let v ← document.root.value? deepest
  match document.surplus with
  | none => return v.canonical
  | some flaw => throw flaw

end Dispatch.Json
