import Dispatch.Json.Codec
import Dispatch.Table

/-!
# TOML values and tables under construction

`Value` is what a key can be set to. While a document is read its tables are still open to later
keys and headers, within limits that depend on how a table came about: `Entry` is a table tree
with that knowledge, `Entries.put` and `Entries.change` are the steps that respect the limits, and
`Entries.freeze` forgets them. `Value.node` is what a codec reads.
-/

set_option autoImplicit false

namespace Dispatch.Toml

/-- What a key can be set to. A date or time is kept as its text. -/
inductive Value where
  | string (value : String)
  | integer (value : Int)
  | float (value : Binary64)
  | bool (value : Bool)
  | dateTime (text : String)
  | array (items : List Value)
  | table (members : List (String × Value))
deriving Repr, Inhabited

/-- How a table came about: by its own header or braces, on the way to a table with a header, or
by a dotted key. -/
inductive Origin where
  | header
  | path
  | dotted
deriving DecidableEq, Repr

/-- What a key of a table under construction holds. Of several tables with one header, the last is
the one that can still change. -/
inductive Entry where
  | value (value : Value)
  | table (origin : Origin) (entries : List (String × Entry))
  | tables (rows : List (List (String × Entry)))

instance : Inhabited Entry := ⟨.tables []⟩

/-- A table under construction, in order of insertion. -/
abbrev Entries := Table String Entry

namespace Entries

/-- Changes the table that `path` leads to, making tables of the origin `made` on the way. A
dotted key may not lead through a table that has a header. -/
def change (made : Origin) : (path : List String) → (f : Origin → Entries → Option Entries) →
    Origin → Entries → Option Entries
  | [], f, origin, entries => f origin entries
  | key :: path, f, _, entries =>
    match Table.get? key entries with
    | none => do
      let inner ← change made path f made []
      return Table.set key (.table made inner) entries
    | some (.value _) => none
    | some (.table origin old) =>
      if made = .dotted ∧ origin = .header then none
      else do
        let inner ← change made path f origin old
        return Table.set key (.table origin inner) entries
    | some (.tables rows) =>
      match rows.reverse with
      | [] => none
      | last :: before => do
        let inner ← change made path f .header last
        return Table.set key (.tables (inner :: before).reverse) entries

/-- Adds a key that is new. Dotted keys add to tables of dotted keys alone, and other keys to the
others. -/
def add (isDotted : Bool) (key : String) (v : Value) (origin : Origin) (entries : Entries) :
    Option Entries :=
  if decide (origin = .dotted) != isDotted then none
  else if (Table.get? key entries).isSome then none
  else some (Table.set key (.value v) entries)

/-- Sets a dotted key: all parts but the last lead to its table. -/
def put (entries : Entries) (path : List String) (key : String) (v : Value) : Option Entries :=
  change .dotted path (add (!path.isEmpty) key v) .header entries

end Entries

mutual

/-- The value of an entry that no longer changes. -/
def Entry.freeze : Entry → Value
  | .value v => v
  | .table _ entries => .table (freezeEntries entries)
  | .tables rows => .array (freezeRows rows)

def freezeEntries : List (String × Entry) → List (String × Value)
  | [] => []
  | (key, e) :: rest => (key, e.freeze) :: freezeEntries rest

def freezeRows : List (List (String × Entry)) → List Value
  | [] => []
  | row :: rest => .table (freezeEntries row) :: freezeRows rest

end

/-- The members of a table that no longer changes. -/
def Entries.freeze (entries : Entries) : List (String × Value) := freezeEntries entries

open Json (Node)

mutual

/-- A value as a codec reads it; a date or time is a map with one name of its own. -/
def Value.node : Value → Node
  | .string s => .string (.ok s)
  | .integer n => .number (.ok (.integer n))
  | .float x => .number (.ok (.float x))
  | .bool b => .bool b
  | .dateTime text =>
    .object 0 [(.ok "$__toml_private_datetime", .string (.ok text))] .closed
  | .array items => .array 0 (itemNodes items) .closed
  | .table members => .object 0 (memberNodes members) .closed

def itemNodes : List Value → List Node
  | [] => []
  | v :: rest => v.node :: itemNodes rest

def memberNodes : List (String × Value) → List (Except Json.FlawAt String × Node)
  | [] => []
  | (key, v) :: rest => (.ok key, v.node) :: memberNodes rest

end

end Dispatch.Toml
