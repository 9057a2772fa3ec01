import Dispatch.Toml.Document
import Dispatch.Proofs.Binary64.Rounding
import Dispatch.Proofs.Tables

/-!
# What a document is read as

Numbers of a document are integers of the signed 64-bit range and rounded floats, wherever they
stand (`sound_of_ofText?`). This is so of each number as it is read, and a table under construction
has no other values than those that were put into it: `Entries.Keeps.change` says so of a change
at the end of a path, from which it follows for each line.
-/

set_option autoImplicit false

namespace Dispatch.Toml

/-! ## Sound values -/

/-- A value whose integers have the range of the format, and whose floats are rounded. -/
inductive Value.Sound : Value → Prop
  | string (s : String) : Sound (.string s)
  | integer {n : Int} (low : -9_223_372_036_854_775_808 ≤ n)
      (high : n < 9_223_372_036_854_775_808) : Sound (.integer n)
  | float {x : Binary64} (rounded : x.IsRounded) : Sound (.float x)
  | bool (b : Bool) : Sound (.bool b)
  | dateTime (text : String) : Sound (.dateTime text)
  | array {items : List Value} (each : ∀ v ∈ items, Sound v) : Sound (.array items)
  | table {members : List (String × Value)} (each : ∀ m ∈ members, Sound m.2) :
      Sound (.table members)

/-- An entry with sound values only. -/
inductive Entry.Sound : Entry → Prop
  | value {v : Value} (sound : v.Sound) : Sound (.value v)
  | table {origin : Origin} {entries : List (String × Entry)} (each : ∀ e ∈ entries, Sound e.2) :
      Sound (.table origin entries)
  | tables {rows : List (List (String × Entry))} (each : ∀ row ∈ rows, ∀ e ∈ row, Sound e.2) :
      Sound (.tables rows)

theorem freezeEntries_eq (entries : List (String × Entry)) :
    freezeEntries entries = entries.map fun e => (e.1, e.2.freeze) := by
  induction entries with
  | nil => rfl
  | cons e rest ih => rw [freezeEntries, ih, List.map_cons]

theorem freezeRows_eq (rows : List (List (String × Entry))) :
    freezeRows rows = rows.map fun row => .table (freezeEntries row) := by
  induction rows with
  | nil => rfl
  | cons row rest ih => rw [freezeRows, ih, List.map_cons]

theorem Entry.Sound.freeze {e : Entry} (sound : e.Sound) : e.freeze.Sound := by
  have members {entries : List (String × Entry)} (each : ∀ e ∈ entries, e.2.freeze.Sound) :
      (Value.table (freezeEntries entries)).Sound := by
    refine .table ?_
    rw [freezeEntries_eq]
    exact List.forall_mem_map.mpr each
  induction sound with
  | value sound => exact sound
  | table _ ih => exact members ih
  | tables _ ih =>
      refine .array ?_
      rw [freezeRows_eq]
      exact List.forall_mem_map.mpr fun row member => members (ih row member)

namespace Entries

/-- A table under construction with sound values only. -/
def Sound (entries : Entries) : Prop := ∀ e ∈ entries, e.2.Sound

theorem sound_nil : Sound [] := fun _ member => absurd member List.not_mem_nil

theorem Sound.set {entries : Entries} (sound : entries.Sound) (key : String) {e : Entry}
    (new : e.Sound) : Sound (Table.set key e entries) := by
  intro other member
  rcases Table.mem_of_mem_set member with rfl | old
  · exact new
  · exact sound other old

theorem Sound.get? {entries : Entries} (sound : entries.Sound) {key : String} {e : Entry}
    (found : Table.get? key entries = some e) : e.Sound :=
  sound _ (Table.mem_of_get? found)

theorem Sound.freeze {entries : Entries} (sound : entries.Sound) :
    ∀ m ∈ entries.freeze, m.2.Sound := by
  rw [Entries.freeze, freezeEntries_eq]
  exact List.forall_mem_map.mpr fun e member => (sound e member).freeze

/-- A step at the end of a path that makes sound tables of sound ones. -/
def Keeps (f : Origin → Entries → Option Entries) : Prop :=
  ∀ ⦃origin entries after⦄, entries.Sound → f origin entries = some after → after.Sound

/-- **What a step keeps sound, it keeps sound at the end of every path.** -/
theorem Keeps.change {f : Origin → Entries → Option Entries} (keeps : Keeps f) (made : Origin)
    (path : List String) : Keeps (Entries.change made path f) := by
  induction path with
  | nil => exact keeps
  | cons key path ih =>
      intro origin entries after sound changed
      rw [Entries.change] at changed
      split at changed
      · obtain ⟨inner, further, put⟩ := Option.bind_eq_some_iff.mp changed
        obtain rfl := Option.some.inj put
        exact sound.set key (.table (ih sound_nil further))
      · cases changed
      · rename_i origin' old found
        split at changed
        · cases changed
        · obtain ⟨inner, further, put⟩ := Option.bind_eq_some_iff.mp changed
          obtain rfl := Option.some.inj put
          obtain _ | ⟨each⟩ := sound.get? found
          exact sound.set key (.table (ih each further))
      · rename_i rows found
        split at changed
        · cases changed
        · rename_i last before reversed
          obtain ⟨inner, further, put⟩ := Option.bind_eq_some_iff.mp changed
          obtain rfl := Option.some.inj put
          obtain _ | _ | ⟨each⟩ := sound.get? found
          have rowsSound : ∀ row ∈ last :: before, Entries.Sound row := fun row member =>
            each row (List.mem_reverse.mp (reversed ▸ member))
          obtain ⟨lastSound, beforeSound⟩ := List.forall_mem_cons.mp rowsSound
          refine sound.set key (.tables fun row member => ?_)
          rcases List.mem_cons.mp (List.mem_reverse.mp member) with rfl | old
          · exact ih lastSound further
          · exact beforeSound row old

theorem keeps_add {v : Value} (new : v.Sound) (isDotted : Bool) (key : String) :
    Keeps (add isDotted key v) := by
  intro origin entries after sound added
  unfold add at added
  split at added
  · cases added
  · split at added
    · cases added
    · obtain rfl := Option.some.inj added
      exact sound.set key (.value new)

theorem Sound.put {entries after : Entries} (sound : entries.Sound) {v : Value} (new : v.Sound)
    {path : List String} {key : String} (put : entries.put path key v = some after) :
    after.Sound :=
  (keeps_add new _ key).change .dotted path sound put

end Entries

/-! ## Numbers -/

section Numbers

variable {text rest : List Char} {v : Value}

theorem sound_of_integer? {n : Int} (read : (integer? n).map (·, text) = some (v, rest)) :
    v.Sound := by
  obtain ⟨w, number, same⟩ := Option.map_eq_some_iff.mp read
  obtain ⟨rfl, -⟩ := Prod.mk.inj same
  unfold integer? at number
  split at number
  · rename_i range
    obtain rfl := Option.some.inj number
    exact .integer range.1 range.2
  · cases number

theorem sound_of_float? {negative : Bool} {digits : Nat} {exponent : Int}
    (read : (float? negative digits exponent).bind (fun v => some (v, text)) = some (v, rest)) :
    v.Sound := by
  obtain ⟨w, number, same⟩ := Option.bind_eq_some_iff.mp read
  obtain ⟨rfl, -⟩ := Prod.mk.inj (Option.some.inj same)
  unfold float? at number
  split at number
  · cases number
  · obtain rfl := Option.some.inj number
    exact .float (Binary64.isRounded_ofDecimal negative digits exponent)

theorem sound_of_readBased {base : Nat} (read : readBased base text = some (v, rest)) :
    v.Sound := by
  obtain ⟨⟨digits, behind⟩, -, read⟩ := Option.bind_eq_some_iff.mp read
  have number : (integer? (ofDigits base digits)).map (·, behind) = some (v, rest) := by
    rw [Option.map_eq_bind]
    exact read
  exact sound_of_integer? number

theorem sound_of_readBehindWhole {negative : Bool} {whole : List Nat}
    (read : readBehindWhole negative whole text = some (v, rest)) : v.Sound := by
  unfold readBehindWhole at read
  split at read
  · exact sound_of_integer? read
  · split at read
    · obtain ⟨⟨fraction, behind⟩, -, read⟩ := Option.bind_eq_some_iff.mp read
      dsimp only at read
      split at read
      · exact sound_of_float? read
      · split at read
        · obtain ⟨⟨exponent, behind⟩, -, read⟩ := Option.bind_eq_some_iff.mp read
          exact sound_of_float? read
        · exact sound_of_float? read
    · split at read
      · obtain ⟨⟨exponent, behind⟩, -, read⟩ := Option.bind_eq_some_iff.mp read
        exact sound_of_float? read
      · exact sound_of_integer? read

/-- **A number is read as a sound value.** -/
theorem sound_of_readNumber (read : readNumber text = some (v, rest)) : v.Sound := by
  unfold readNumber at read
  split at read
  · exact sound_of_readBased read
  · exact sound_of_readBased read
  · exact sound_of_readBased read
  · dsimp only at read
    split at read
    · obtain ⟨rfl, -⟩ := Prod.mk.inj (Option.some.inj read)
      exact .float trivial
    · obtain ⟨rfl, -⟩ := Prod.mk.inj (Option.some.inj read)
      exact .float trivial
    · obtain ⟨⟨whole, behind⟩, -, read⟩ := Option.bind_eq_some_iff.mp read
      exact sound_of_readBehindWhole read

theorem sound_of_readNumeral (read : readNumeral text = some (v, rest)) : v.Sound := by
  unfold readNumeral at read
  split at read
  · obtain ⟨_, _, same⟩ := Option.bind_eq_some_iff.mp read
    obtain ⟨rfl, -⟩ := Prod.mk.inj (Option.some.inj same)
    exact .dateTime _
  · exact sound_of_readNumber read

end Numbers

/-! ## Values -/

/-- What the readers of values give with so much fuel is sound. -/
structure ReadsSound (fuel : Nat) : Prop where
  value : ∀ {depth text v rest}, readValue fuel depth text = some (v, rest) → v.Sound
  items : ∀ {depth text vs rest}, readItems fuel depth text = some (vs, rest) → ∀ v ∈ vs, v.Sound
  pairs : ∀ {depth first entries text after rest}, Entries.Sound entries →
    readPairs fuel depth first entries text = some (after, rest) → after.Sound

namespace ReadsSound

variable {fuel depth : Nat} {text rest : List Char}

theorem value_succ (ih : ReadsSound fuel) {v : Value}
    (read : readValue (fuel + 1) depth text = some (v, rest)) : v.Sound := by
  obtain _ | ⟨c, text⟩ := text
  · cases read
  rw [readValue.eq_def] at read
  dsimp only at read
  split at read
  · obtain ⟨_, _, same⟩ := Option.map_eq_some_iff.mp read
    obtain ⟨rfl, -⟩ := Prod.mk.inj same
    exact .string _
  split at read
  · obtain _ | depth := depth
    · cases read
    · obtain ⟨_, _, read⟩ := Option.bind_eq_some_iff.mp read
      obtain ⟨⟨vs, _⟩, items, same⟩ := Option.bind_eq_some_iff.mp read
      obtain ⟨rfl, -⟩ := Prod.mk.inj (Option.some.inj same)
      exact .array (ih.items items)
  split at read
  · obtain _ | depth := depth
    · cases read
    · obtain ⟨⟨entries, _⟩, pairs, same⟩ := Option.bind_eq_some_iff.mp read
      obtain ⟨rfl, -⟩ := Prod.mk.inj (Option.some.inj same)
      exact .table (ih.pairs Entries.sound_nil pairs).freeze
  split at read
  · split at read
    · obtain ⟨rfl, -⟩ := Prod.mk.inj (Option.some.inj read)
      exact .bool _
    · cases read
  split at read
  · split at read
    · obtain ⟨rfl, -⟩ := Prod.mk.inj (Option.some.inj read)
      exact .bool _
    · cases read
  exact sound_of_readNumeral read

theorem items_succ (ih : ReadsSound fuel) {vs : List Value}
    (read : readItems (fuel + 1) depth text = some (vs, rest)) : ∀ v ∈ vs, v.Sound := by
  rw [readItems.eq_def] at read
  dsimp only at read
  split at read
  · obtain ⟨rfl, -⟩ := Prod.mk.inj (Option.some.inj read)
    exact fun _ member => absurd member List.not_mem_nil
  obtain ⟨⟨v, behind⟩, value, read⟩ := Option.bind_eq_some_iff.mp read
  obtain ⟨behind, -, read⟩ := Option.bind_eq_some_iff.mp read
  split at read
  · obtain ⟨further, -, read⟩ := Option.bind_eq_some_iff.mp read
    obtain ⟨⟨others, _⟩, items, same⟩ := Option.bind_eq_some_iff.mp read
    obtain ⟨rfl, -⟩ := Prod.mk.inj (Option.some.inj same)
    exact List.forall_mem_cons.mpr ⟨ih.value value, ih.items items⟩
  · obtain ⟨rfl, -⟩ := Prod.mk.inj (Option.some.inj read)
    exact List.forall_mem_singleton.mpr (ih.value value)
  · cases read

theorem pairs_succ (ih : ReadsSound fuel) {first : Bool} {entries after : Entries}
    (sound : entries.Sound)
    (read : readPairs (fuel + 1) depth first entries text = some (after, rest)) :
    after.Sound := by
  rw [readPairs.eq_def] at read
  dsimp only at read
  split at read
  · obtain ⟨rfl, -⟩ := Prod.mk.inj (Option.some.inj read)
    exact sound
  obtain ⟨⟨⟨path, key⟩, behind⟩, -, read⟩ := Option.bind_eq_some_iff.mp read
  dsimp only at read
  split at read
  · obtain ⟨⟨v, behind⟩, value, read⟩ := Option.bind_eq_some_iff.mp read
    obtain ⟨entries, put, read⟩ := Option.bind_eq_some_iff.mp read
    have sound := sound.put (ih.value value) put
    split at read
    · exact ih.pairs sound read
    · obtain ⟨rfl, -⟩ := Prod.mk.inj (Option.some.inj read)
      exact sound
    · cases read
  · cases read

end ReadsSound

theorem readsSound (fuel : Nat) : ReadsSound fuel := by
  induction fuel with
  | zero =>
      constructor
      case value => exact fun read => nomatch read
      case items => exact fun read => nomatch read
      case pairs => exact fun _ read => nomatch read
  | succ fuel ih => exact ⟨ih.value_succ, ih.items_succ, ih.pairs_succ⟩

/-! ## Lines -/

namespace Draft

/-- A document under construction with sound values only. -/
structure Sound (d : Draft) : Prop where
  root : d.root.Sound
  current : d.current.Sound

theorem keeps_appendRow {key : String} {row : Entries} (new : row.Sound) :
    Entries.Keeps (appendRow key row) := by
  intro origin entries after sound appended
  unfold appendRow at appended
  split at appended
  · obtain rfl := Option.some.inj appended
    exact sound.set key (.tables (List.forall_mem_singleton.mpr new))
  · rename_i rows found
    obtain rfl := Option.some.inj appended
    obtain _ | _ | ⟨each⟩ := sound.get? found
    exact sound.set key
      (.tables (List.forall_mem_append.mpr ⟨each, List.forall_mem_singleton.mpr new⟩))
  · cases appended

theorem keeps_appendTable {key : String} {table : Entries} (new : table.Sound) :
    Entries.Keeps (appendTable key table) := by
  intro origin entries after sound appended
  obtain rfl := Option.some.inj appended
  exact sound.set key (.table new)

theorem keeps_takeOut (key : String) : Entries.Keeps (takeOut key) := by
  intro origin entries after sound taken
  obtain rfl := Option.some.inj taken
  exact fun e member => sound e (Table.mem_of_mem_erase member)

theorem keeps_openRows (key : String) : Entries.Keeps (openRows key) := by
  intro origin entries after sound opened
  unfold openRows at opened
  split at opened
  · exact Option.some.inj opened ▸ sound
  · exact Option.some.inj opened ▸ sound
  · cases opened

theorem Sound.finish {d : Draft} (sound : d.Sound) {root : Entries}
    (finished : d.finish = some root) : root.Sound := by
  unfold Draft.finish at finished
  split at finished
  · exact Option.some.inj finished ▸ sound.current
  · split at finished
    · exact (keeps_appendRow sound.current).change _ _ sound.root finished
    · exact (keeps_appendTable sound.current).change _ _ sound.root finished

theorem sound_of_reopen? {path : List String} {key : String} {root inner : Entries}
    (sound : root.Sound) (opened : reopen? path key root = some inner) : inner.Sound := by
  induction path generalizing root with
  | nil =>
      rw [reopen?] at opened
      split at opened
      · exact Option.some.inj opened ▸ Entries.sound_nil
      · rename_i table found
        obtain _ | ⟨each⟩ := sound.get? found
        exact Option.some.inj opened ▸ each
      · cases opened
  | cons step path ih =>
      rw [reopen?] at opened
      split at opened
      · exact Option.some.inj opened ▸ Entries.sound_nil
      · cases opened
      · rename_i origin table found
        obtain _ | ⟨each⟩ := sound.get? found
        exact ih each opened
      · rename_i rows found
        obtain _ | _ | ⟨each⟩ := sound.get? found
        split at opened
        · cases opened
        · rename_i row last
          exact ih (each row (List.mem_of_getLast? last)) opened

theorem Sound.openTable {d after : Draft} (sound : d.Sound) {h : Header}
    (opened : d.openTable h = some after) : after.Sound := by
  obtain ⟨root, finished, opened⟩ := Option.bind_eq_some_iff.mp opened
  have rootSound := sound.finish finished
  split at opened
  · obtain ⟨inner, changed, same⟩ := Option.bind_eq_some_iff.mp opened
    obtain rfl := Option.some.inj same
    exact ⟨(keeps_openRows h.key).change _ _ rootSound changed, Entries.sound_nil⟩
  · obtain ⟨current, reopened, opened⟩ := Option.bind_eq_some_iff.mp opened
    obtain ⟨inner, changed, same⟩ := Option.bind_eq_some_iff.mp opened
    obtain rfl := Option.some.inj same
    exact ⟨(keeps_takeOut h.key).change _ _ rootSound changed,
      sound_of_reopen? rootSound reopened⟩

theorem Sound.setKey {d after : Draft} (sound : d.Sound) {v : Value} (new : v.Sound)
    {path : List String} {key : String} (set : d.setKey path key v = some after) :
    after.Sound := by
  obtain ⟨current, put, same⟩ := Option.bind_eq_some_iff.mp set
  obtain rfl := Option.some.inj same
  exact ⟨sound.root, sound.current.put new put⟩

end Draft

theorem sound_of_readLines {fuel : Nat} {d after : Draft} (sound : d.Sound) {text : List Char}
    (read : readLines fuel d text = some after) : after.Sound := by
  induction fuel generalizing d text with
  | zero => cases read
  | succ fuel ih =>
      rw [readLines] at read
      split at read
      · exact Option.some.inj read ▸ sound
      split at read
      · obtain ⟨rest, -, read⟩ := Option.bind_eq_some_iff.mp read
        exact ih sound read
      split at read
      · obtain ⟨⟨header, behind⟩, -, read⟩ := Option.bind_eq_some_iff.mp read
        obtain ⟨rest, -, read⟩ := Option.bind_eq_some_iff.mp read
        obtain ⟨next, opened, read⟩ := Option.bind_eq_some_iff.mp read
        exact ih (sound.openTable opened) read
      · obtain ⟨⟨⟨path, key⟩, behind⟩, -, read⟩ := Option.bind_eq_some_iff.mp read
        dsimp only at read
        split at read
        · obtain ⟨⟨v, behind⟩, value, read⟩ := Option.bind_eq_some_iff.mp read
          obtain ⟨rest, -, read⟩ := Option.bind_eq_some_iff.mp read
          obtain ⟨next, set, read⟩ := Option.bind_eq_some_iff.mp read
          exact ih (sound.setKey ((readsSound _).value value) set) read
        · cases read

/-- **Whatever a text is read as has sound values only.** -/
theorem sound_of_ofText? {text : List Char} {members : List (String × Value)}
    (read : Document.ofText? text = some members) : ∀ m ∈ members, m.2.Sound := by
  obtain ⟨d, lines, read⟩ := Option.bind_eq_some_iff.mp read
  obtain ⟨root, finished, same⟩ := Option.bind_eq_some_iff.mp read
  obtain rfl := Option.some.inj same
  have sound : d.Sound := sound_of_readLines ⟨Entries.sound_nil, Entries.sound_nil⟩ lines
  exact (sound.finish finished).freeze

end Dispatch.Toml
