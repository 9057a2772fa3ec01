import Dispatch.Proofs.Json.Records
import Dispatch.Proofs.Toml.Documents

/-!
# What codecs read of sound values

`Returns codec form room a` says that `a` is written in a form that has a text, and read again as
it is by whoever may enter `room` more containers. A codec is `Stable` if everything that it reads
of a sound value returns. Records of stable fields are stable (`stable_record`): each field of the
row that is read was either read by its own codec or stands for its absence, whether the record
came as a table or as a list.
-/

set_option autoImplicit false

namespace Dispatch.Json

open Toml (ObjectOf Titles Value.Sound memberNodes itemNodes)

/-! ## Rows -/

/-- Every field met so far has a content with the property. -/
def Slots.All (P : (f : Field) → f.Content → Prop) : (fields : List Field) → Slots fields → Prop
  | [], _ => True
  | f :: fs, (slot, slots) => (∀ content ∈ slot, P f content) ∧ Slots.All P fs slots

/-- Every field has a content with the property. -/
def Row.All (P : (f : Field) → f.Content → Prop) : (fields : List Field) → Row fields → Prop
  | [], _ => True
  | f :: fs, (content, row) => P f content ∧ Row.All P fs row

section Rows

variable {P : (f : Field) → f.Content → Prop}

theorem Slots.all_empty (fields : List Field) : Slots.All P fields (Slots.empty fields) := by
  induction fields with
  | nil => trivial
  | cons f fs ih => exact ⟨nofun, ih⟩

/-- A row of fields that were met, or stand for their absence. -/
theorem Slots.All.finish {fields : List Field} {slots : Slots fields} {row : Row fields}
    (absent : ∀ f ∈ fields, ∀ content, f.absent = some content → P f content)
    (all : Slots.All P fields slots) (finished : Slots.finish fields slots = .ok row) :
    Row.All P fields row := by
  induction fields with
  | nil => trivial
  | cons f fs ih =>
      obtain ⟨slot, slots⟩ := slots
      obtain ⟨met, others⟩ := all
      obtain ⟨own, absent⟩ := List.forall_mem_cons.mp absent
      obtain _ | content := slot
      · cases stands : f.absent with
        | some content =>
            rw [finish_absent stands] at finished
            obtain ⟨rest, further, rfl⟩ := map_eq_ok finished
            exact ⟨own content stands, ih absent others further⟩
        | none => cases (finish_missing stands slots).symm.trans finished
      · rw [finish_met] at finished
        obtain ⟨rest, further, rfl⟩ := map_eq_ok finished
        exact ⟨met content rfl, ih absent others further⟩

/-- What a field's codec reads of a sound value has the property. -/
def Field.Gives (P : (f : Field) → f.Content → Prop) (f : Field) : Prop :=
  ∀ scope v content, Value.Sound v → f.codec.read scope v.node = .ok content → P f content

theorem Slots.All.readMember {fields : List Field} {slots after : Slots fields}
    (gives : ∀ f ∈ fields, f.Gives P) {scope : Scope} {name : String} {v : Toml.Value}
    (sound : v.Sound) (all : Slots.All P fields slots)
    (read : Slots.readMember scope name v.node fields slots = .ok after) :
    Slots.All P fields after := by
  induction fields with
  | nil => trivial
  | cons f fs ih =>
      obtain ⟨slot, slots⟩ := slots
      obtain ⟨met, others⟩ := all
      obtain ⟨own, gives⟩ := List.forall_mem_cons.mp gives
      by_cases same : f.name = name
      · subst same
        obtain _ | content := slot
        · rw [readMember_own] at read
          obtain ⟨content, field, rfl⟩ := map_eq_ok read
          refine ⟨?_, others⟩
          rintro _ ⟨⟩
          exact own scope v content sound field
        · cases (readMember_again content v.node slots).symm.trans read
      · rw [readMember_skip same] at read
        obtain ⟨rest, further, rfl⟩ := map_eq_ok read
        exact ⟨met, ih gives others further⟩

theorem Slots.All.readMembers {fields : List Field} {slots after : Slots fields}
    (gives : ∀ f ∈ fields, f.Gives P) {scope : Scope} {members : List (String × Toml.Value)}
    (sound : ∀ m ∈ members, m.2.Sound) (all : Slots.All P fields slots)
    (read : Slots.readMembers scope fields (memberNodes members) slots = .ok after) :
    Slots.All P fields after := by
  induction members generalizing slots with
  | nil =>
      cases read
      exact all
  | cons m members ih =>
      obtain ⟨first, others⟩ := List.forall_mem_cons.mp sound
      obtain ⟨name, named, read⟩ := bind_eq_ok read
      obtain ⟨next, member, read⟩ := bind_eq_ok read
      exact ih others (all.readMember gives first member) read

theorem Row.all_of_readItems {fields : List Field} (gives : ∀ f ∈ fields, f.Gives P)
    (absent : ∀ f ∈ fields, ∀ content, f.absent = some content → P f content) {scope : Scope}
    {expected : String} {ending : Ending} {index : Nat} {items : List Toml.Value}
    (sound : ∀ v ∈ items, v.Sound) {row : Row fields} {left : List Node}
    (read : Row.readItems scope expected ending fields index (itemNodes items) =
      .ok (row, left)) : Row.All P fields row := by
  induction fields generalizing index items left with
  | nil => trivial
  | cons f fs ih =>
      obtain ⟨own, gives⟩ := List.forall_mem_cons.mp gives
      obtain ⟨lone, absent⟩ := List.forall_mem_cons.mp absent
      obtain _ | ⟨v, items⟩ := items
      · obtain ⟨-, -, read⟩ := bind_eq_ok read
        split at read
        · rename_i content stands
          obtain ⟨⟨rest, _⟩, further, same⟩ := bind_eq_ok read
          cases same
          exact ⟨lone content stands, ih gives absent sound further⟩
        · cases read
      · obtain ⟨first, others⟩ := List.forall_mem_cons.mp sound
        obtain ⟨content, field, read⟩ := bind_eq_ok read
        obtain ⟨⟨rest, _⟩, further, same⟩ := bind_eq_ok read
        cases same
        exact ⟨own scope v content first field, ih gives absent others further⟩

/-- **Every field of a row that is read** was read by its codec, or stands for its absence. -/
theorem Row.all_of_readRow {fields : List Field} (gives : ∀ f ∈ fields, f.Gives P)
    (absent : ∀ f ∈ fields, ∀ content, f.absent = some content → P f content) {name : String}
    {scope : Scope} {v : Toml.Value} (sound : v.Sound) {row : Row fields}
    (read : readRow name fields scope v.node = .ok row) : Row.All P fields row := by
  have table {members : List (String × Toml.Value)} (each : ∀ m ∈ members, m.2.Sound)
      (read : readRow name fields scope (.object 0 (memberNodes members) .closed) = .ok row) :
      Row.All P fields row := by
    obtain ⟨inner, -, read⟩ := bind_eq_ok read
    obtain ⟨slots, members, read⟩ := bind_eq_ok read
    obtain ⟨-, -, finished⟩ := bind_eq_ok read
    exact ((Slots.all_empty fields).readMembers gives each members).finish absent finished
  cases sound with
  | table each => exact table each read
  | dateTime text =>
      have each : ∀ m ∈ [("$__toml_private_datetime", Toml.Value.string text)], m.2.Sound :=
        List.forall_mem_singleton.mpr (.string text)
      exact table each read
  | array each =>
      obtain ⟨inner, -, read⟩ := bind_eq_ok read
      obtain ⟨⟨whole, left⟩, items, read⟩ := bind_eq_ok read
      have all := Row.all_of_readItems gives absent each items
      dsimp only at read
      split at read
      · obtain ⟨-, -, same⟩ := bind_eq_ok read
        cases same
        exact all
      · cases read
        exact all
  | string | integer | float | bool => cases read

end Rows

/-! ## Codecs -/

/-- `a` is written in a form that has a text, and is read again as it is by whoever may enter `room`
more containers. -/
structure Codec.Returns {α : Type} (codec : Codec α) (form : Value → Prop) (room : Nat) (a : α) :
    Prop where
  written : form (codec.write a)
  rereads : ∀ scope : Scope, room ≤ scope.depth → codec.Rereads scope a (.ok a)

/-- Everything that is read of a sound value returns. -/
def Codec.Stable {α : Type} (codec : Codec α) (form : Value → Prop) (room : Nat) : Prop :=
  ∀ scope v a, Value.Sound v → codec.read scope v.node = .ok a → codec.Returns form room a

/-- A field that is always written, whose codec is stable, and whose absence stands for something
that returns. -/
structure Field.Stable (form : Value → Prop) (room : Nat) (f : Field) : Prop where
  codec : f.codec.Stable form room
  absent : ∀ content, f.absent = some content → f.codec.Returns form room content
  kept : ∀ content, f.omitted content = false

theorem Field.stable_defaulted {α : Type} {name : String} {codec : Codec α} {absent : α}
    {form : Value → Prop} {room : Nat} (stable : codec.Stable form room)
    (returns : codec.Returns form room absent) :
    (Field.defaulted name codec absent).Stable form room where
  codec := stable
  absent := by
    rintro _ ⟨⟩
    exact returns
  kept _ := rfl

section Records

variable {form : Value → Prop} {room : Nat} {fields : List Field}

/-- A row whose fields return is written member by member. -/
theorem Row.All.written {row : Row fields} (kept : ∀ f ∈ fields, ∀ c, f.omitted c = false)
    (all : Row.All (fun f content => f.codec.Returns form room content) fields row) :
    (Row.write fields row).map (·.1) = fields.map Field.name ∧
      ∀ m ∈ Row.write fields row, form m.2 := by
  induction fields with
  | nil => exact ⟨rfl, fun _ member => absurd member List.not_mem_nil⟩
  | cons f fs ih =>
      obtain ⟨content, row⟩ := row
      obtain ⟨own, others⟩ := all
      obtain ⟨written, kept⟩ := List.forall_mem_cons.mp kept
      obtain ⟨names, each⟩ := ih kept others
      rw [Row.write, written content]
      exact ⟨congrArg (f.name :: ·) names, List.forall_mem_cons.mpr ⟨own.written, each⟩⟩

theorem Row.All.rereads {row : Row fields} (kept : ∀ f ∈ fields, ∀ c, f.omitted c = false)
    (all : Row.All (fun f content => f.codec.Returns form room content) fields row)
    {scope : Scope} (deep : room ≤ scope.depth) : Row.Rereads scope fields row (.ok row) := by
  induction fields with
  | nil => exact .nil
  | cons f fs ih =>
      obtain ⟨content, row⟩ := row
      obtain ⟨own, others⟩ := all
      obtain ⟨written, kept⟩ := List.forall_mem_cons.mp kept
      exact .cons (written content) (own.rereads scope deep) (ih kept others)

section Record

variable {α : Type} {name : String} {ofRow : Row fields → α} {toRow : α → Row fields}

theorem Codec.returns_record {a : α} (titles : Titles (fields.map Field.name))
    (inverse : ofRow (toRow a) = a) (kept : ∀ f ∈ fields, ∀ c, f.omitted c = false)
    (all : Row.All (fun f content => f.codec.Returns form room content) fields (toRow a)) :
    (Codec.record name fields ofRow toRow).Returns (ObjectOf form) (room + 1) a := by
  obtain ⟨names, each⟩ := all.written kept
  constructor
  case written => exact .intro (names ▸ titles) each
  case rereads =>
    intro scope deep
    have below : room ≤ scope.depth - 1 := Nat.le_sub_one_of_lt deep
    refine rereads_record (Scope.enter_of_pos (Nat.zero_lt_of_lt deep)) titles.distinct
      (all.rereads kept below) ?_
    exact congrArg Except.ok inverse

/-- **A record of stable fields is stable.** -/
theorem Codec.stable_record (titles : Titles (fields.map Field.name))
    (inverse : ∀ row, toRow (ofRow row) = row) (stable : ∀ f ∈ fields, f.Stable form room) :
    (Codec.record name fields ofRow toRow).Stable (ObjectOf form) (room + 1) := by
  intro scope v a sound read
  obtain ⟨row, rowRead, rfl⟩ := map_eq_ok read
  have gives : ∀ f ∈ fields, f.Gives fun f content => f.codec.Returns form room content :=
    fun f member => (stable f member).codec
  have all := Row.all_of_readRow gives (fun f member => (stable f member).absent) sound rowRead
  rw [← inverse row] at all
  exact Codec.returns_record titles (congrArg ofRow (inverse row))
    (fun f member => (stable f member).kept) all

end Record

end Records

end Dispatch.Json
