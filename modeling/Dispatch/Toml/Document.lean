import Dispatch.Toml.Number

/-!
# TOML documents

A document is a sequence of lines: blank, a key with its value, or the header of a table. Values
and documents are read with fuel that their text's length bounds; `Document.ofText?` is the
reading of a whole text.
-/

set_option autoImplicit false

namespace Dispatch.Toml

/-! ## Values -/

mutual

/-- A value with fewer than `depth` nested containers. -/
def readValue : (fuel depth : Nat) → List Char → Option (Value × List Char)
  | 0, _, _ => none
  | _ + 1, _, [] => none
  | fuel + 1, depth, c :: rest =>
    if c = '"' || c = '\'' then
      (readString (c :: rest)).map fun (s, rest) => (.string (String.ofList s), rest)
    else if c = '[' then
      match depth with
      | 0 => none
      | depth + 1 => do
        let rest ← skipLines false rest
        let (items, rest) ← readItems fuel depth rest
        return (.array items, rest)
    else if c = '\x7b' then
      match depth with
      | 0 => none
      | depth + 1 => do
        let (entries, rest) ← readPairs fuel depth true [] (skipWs rest)
        return (.table (Entries.freeze entries), rest)
    else if c = 't' then
      match rest with
      | 'r' :: 'u' :: 'e' :: rest => some (.bool true, rest)
      | _ => none
    else if c = 'f' then
      match rest with
      | 'a' :: 'l' :: 's' :: 'e' :: rest => some (.bool false, rest)
      | _ => none
    else readNumeral (c :: rest)

/-- Items up to the closing bracket; a comma may follow the last. -/
def readItems : (fuel depth : Nat) → List Char → Option (List Value × List Char)
  | 0, _, _ => none
  | fuel + 1, depth, text =>
    match text with
    | ']' :: rest => some ([], rest)
    | _ => do
      let (v, rest) ← readValue fuel depth text
      let rest ← skipLines false rest
      match rest with
      | ',' :: rest =>
        let rest ← skipLines false rest
        let (vs, rest) ← readItems fuel depth rest
        return (v :: vs, rest)
      | ']' :: rest => return ([v], rest)
      | _ => none

/-- Keys with values up to the closing brace; a comma stands only between two of them. -/
def readPairs : (fuel depth : Nat) → (first : Bool) → Entries → List Char →
    Option (Entries × List Char)
  | 0, _, _, _, _ => none
  | fuel + 1, depth, first, entries, text =>
    match first, text with
    | true, '\x7d' :: rest => some (entries, rest)
    | _, _ => do
      let ((path, key), rest) ← readKey text
      match rest with
      | '=' :: rest =>
        let (v, rest) ← readValue fuel depth (skipWs rest)
        let entries ← entries.put path key v
        match skipWs rest with
        | ',' :: rest => readPairs fuel depth false entries rest
        | '\x7d' :: rest => return (entries, rest)
        | _ => none
      | _ => none

end

/-! ## Lines -/

/-- The header of the table whose keys are being read. -/
structure Header where
  path : List String
  key : String
  /-- The table is the next of several with this header. -/
  repeated : Bool
deriving DecidableEq, Repr

/-- A document under construction: the finished tables, and the one that keys go to. -/
structure Draft where
  root : Entries
  header : Option Header
  current : Entries

namespace Draft

def empty : Draft := ⟨[], none, []⟩

/-- Appends a table to those with its header. -/
def appendRow (key : String) (row : Entries) (_ : Origin) (entries : Entries) : Option Entries :=
  match Table.get? key entries with
  | none => some (Table.set key (.tables [row]) entries)
  | some (.tables rows) => some (Table.set key (.tables (rows ++ [row])) entries)
  | some _ => none

/-- Puts a finished table at the end of its parent. -/
def appendTable (key : String) (table : Entries) (_ : Origin) (entries : Entries) :
    Option Entries :=
  some (Table.set key (.table .header table) entries)

/-- The root once the current table is finished. -/
def finish (d : Draft) : Option Entries :=
  match d.header with
  | none => some d.current
  | some h =>
    if h.repeated then Entries.change .path h.path (appendRow h.key d.current) .header d.root
    else Entries.change .path h.path (appendTable h.key d.current) .header d.root

/-- The table that stands at `path` and `key` in a root, if a header may open it: none yet, or
one that was only made on the way to another. -/
def reopen? : (path : List String) → (key : String) → Entries → Option Entries
  | [], key, entries =>
    match Table.get? key entries with
    | none => some []
    | some (.table .path inner) => some inner
    | some _ => none
  | step :: path, key, entries =>
    match Table.get? step entries with
    | none => some []
    | some (.value _) => none
    | some (.table _ inner) => reopen? path key inner
    | some (.tables rows) =>
      match rows.getLast? with
      | none => none
      | some row => reopen? path key row

/-- Takes a table out of its parent. -/
def takeOut (key : String) (_ : Origin) (entries : Entries) : Option Entries :=
  some (Table.erase key entries)

/-- Makes room for one more table of a header. -/
def openRows (key : String) (_ : Origin) (entries : Entries) : Option Entries :=
  match Table.get? key entries with
  | none => some entries
  | some (.tables _) => some entries
  | some _ => none

/-- Finishes the current table and opens the one of a header. -/
def openTable (d : Draft) (h : Header) : Option Draft := do
  let root ← d.finish
  if h.repeated then
    let root ← Entries.change .path h.path (openRows h.key) .header root
    return ⟨root, some h, []⟩
  else
    let current ← reopen? h.path h.key root
    let root ← Entries.change .path h.path (takeOut h.key) .header root
    return ⟨root, some h, current⟩

/-- Sets a key of the current table. -/
def setKey (d : Draft) (path : List String) (key : String) (v : Value) : Option Draft := do
  let current ← d.current.put path key v
  return { d with current }

end Draft

/-- The header that a line starts with, from its first bracket on. -/
def readHeader (text : List Char) : Option (Header × List Char) :=
  match text with
  | '[' :: '[' :: rest => do
    let ((path, key), rest) ← readKey rest
    match rest with
    | ']' :: ']' :: rest => return (⟨path, key, true⟩, rest)
    | _ => none
  | '[' :: rest => do
    let ((path, key), rest) ← readKey rest
    match rest with
    | ']' :: rest => return (⟨path, key, false⟩, rest)
    | _ => none
  | _ => none

/-- Lines to the end of the text. Every line uses up one unit of `fuel` at least. -/
def readLines : (fuel : Nat) → Draft → List Char → Option Draft
  | 0, _, _ => none
  | fuel + 1, d, text =>
    match skipWs text with
    | [] => some d
    | c :: rest =>
      if c = '#' || c = '\n' || c = '\r' then do
        let rest ← endLine false (c :: rest)
        readLines fuel d rest
      else if c = '[' then do
        let (header, rest) ← readHeader (c :: rest)
        let rest ← endLine false rest
        let d ← d.openTable header
        readLines fuel d rest
      else do
        let ((path, key), rest) ← readKey (c :: rest)
        match rest with
        | '=' :: rest =>
          let text := skipWs rest
          let (v, rest) ← readValue (2 * text.length + 2) (nestingLimit - 1) text
          let rest ← endLine false rest
          let d ← d.setKey path key v
          readLines fuel d rest
        | _ => none

/-- The mark that some writers put in front of a text. -/
def dropMark : List Char → List Char
  | '\uFEFF' :: rest => rest
  | text => text

/-- The members of the document's root. -/
def Document.ofText? (text : List Char) : Option (List (String × Value)) := do
  let text := dropMark text
  let d ← readLines (text.length + 1) Draft.empty text
  let root ← d.finish
  return root.freeze

end Dispatch.Toml
