import Dispatch.Json.Record
import Dispatch.Proofs.Json.Nodes

/-!
# What codecs read of what they wrote

`Codec.Echoes codec scope a result` says what comes of writing `a` and reading it again: for most
codecs it is `a`, for a free-form value it depends on how deep the reader may still go. A record
echoes what its fields echo, one after the other (`Codec.echoes_record`), since a field is found
under its own name however many precede it. `Codec.decode_encode` takes an echo through the text.
Where nothing is known of what follows, the first field still is what stands first
(`Codec.first_of_decode`).
-/

set_option autoImplicit false

namespace Dispatch.Json

/-- However it stands in a text, what is written for `a` is read as `result`. -/
def Codec.Rereads {α : Type} (codec : Codec α) (scope : Scope) (a : α)
    (result : Except Fault α) : Prop :=
  ∀ node, Shows (codec.write a) node → codec.read scope node = result

/-- What is written for `a` has integers of 64 bits only, and is read as `result`. -/
structure Codec.Echoes {α : Type} (codec : Codec α) (scope : Scope) (a : α)
    (result : Except Fault α) : Prop where
  integral : (codec.write a).Integral
  reads : codec.Rereads scope a result

namespace Codec

variable {α β : Type} {scope : Scope}

/-- **What is encoded is decoded as its echo.** -/
theorem decode_encode {codec : Codec α} {a : α} {result : Except Fault α}
    (echoes : codec.Echoes .message a result) : codec.decode (codec.encode a) = result := by
  obtain ⟨node, document, shown⟩ := ofText_print echoes.integral
  rw [decode, encode, document]
  show (codec.read .message node >>= fun a => .ok a) = result
  rw [echoes.reads node shown]
  cases result <;> rfl

/-! ## Scalars and free-form values -/

theorem echoes_bool (b : Bool) : bool.Echoes scope b (.ok b) where
  integral := fun _ member => absurd member List.not_mem_nil
  reads := by
    rintro _ ⟨⟩
    rfl

theorem echoes_string (s : String) : string.Echoes scope s (.ok s) where
  integral := fun _ member => absurd member List.not_mem_nil
  reads := by
    rintro _ ⟨⟩
    rfl

theorem echoes_natural {largest n : Nat} (expected : String) (small : n ≤ largest)
    (word : largest ≤ Numeral.maxWord64) : (natural largest expected).Echoes scope n (.ok n) where
  integral := by
    intro m member
    rw [List.mem_singleton.mp member]
    constructor <;> omega
  reads := by
    rintro _ ⟨⟩
    have range : (0 : Int) ≤ n ∧ (n : Int) ≤ largest := ⟨by omega, by omega⟩
    simp only [natural, range, and_self, if_true, Int.toNat_natCast]

theorem echoes_map {codec : Codec α} {make : α → β} {back : β → α} {b : β}
    {result : Except Fault α} (echoes : codec.Echoes scope (back b) result) :
    (codec.map make back).Echoes scope b (result.map make) where
  integral := echoes.integral
  reads node shown := by rw [Codec.map, ← echoes.reads node shown]

theorem echoes_word64Named (expected : String) (n : UInt64) :
    (word64Named expected).Echoes scope n (.ok n) := by
  have small : n.toNat ≤ Numeral.maxWord64 := Nat.le_of_lt_succ n.toNat_lt
  have back : (Except.ok n.toNat : Except Fault Nat).map (·.toUInt64) = .ok n :=
    congrArg Except.ok UInt64.ofNat_toNat
  rw [← back]
  exact echoes_map (echoes_natural expected small (Nat.le_refl _))

theorem echoes_word32 (n : UInt32) : word32.Echoes scope n (.ok n) := by
  have small : n.toNat ≤ Numeral.maxWord32 := Nat.le_of_lt_succ n.toNat_lt
  have back : (Except.ok n.toNat : Except Fault Nat).map (·.toUInt32) = .ok n :=
    congrArg Except.ok UInt32.ofNat_toNat
  rw [← back]
  exact echoes_map (echoes_natural "u32" small (by decide))

/-- What is there and not written as `null` is read as being there. -/
theorem echoes_option_some {codec : Codec α} {a : α} {result : Except Fault α}
    (echoes : codec.Echoes scope a result) (present : codec.write a ≠ .null) :
    codec.option.Echoes scope (some a) (result.map some) where
  integral := echoes.integral
  reads := by
    intro node shown
    have read := echoes.reads node shown
    cases node with
    | null =>
        have null : ∀ v, Shows v .null → v = .null := by
          rintro _ ⟨⟩
          rfl
        exact absurd (null _ shown) present
    | bool | number | string | array | object | broken => exact congrArg (Except.map some) read

/-- What is written as `null` is read as nothing. -/
theorem echoes_option_null {codec : Codec α} {a : α} (null : codec.write a = .null) :
    codec.option.Echoes scope (some a) (.ok none) where
  integral := by
    show (codec.write a).Integral
    rw [null]
    exact fun _ member => absurd member List.not_mem_nil
  reads := by
    intro node shown
    replace shown : Shows (codec.write a) node := shown
    rw [null] at shown
    cases shown
    rfl

theorem echoes_variants {names : List (String × α)} {name : α → String} {a : α}
    (known : variantOf names (name a) = .ok a) : (variants names name).Echoes scope a (.ok a) where
  integral := fun _ member => absurd member List.not_mem_nil
  reads := by
    rintro _ ⟨⟩
    exact known

/-- **A free-form value is read in canonical form if it is not too deep.** -/
theorem echoes_value {v : Value} (integral : v.Integral) :
    value.Echoes scope v
      (if v.depth ≤ scope.depth then .ok v.canonical
        else .error (.malformed .nestingTooDeep)) where
  integral := integral
  reads := by
    intro node shown
    have within : Within (v.depth ≤ scope.depth) v _ := shown.readAs scope.depth
    show ofFlaw ((node.value? scope.depth).map (·.canonical)) = _
    by_cases shallow : v.depth ≤ scope.depth
    · rw [if_pos shallow, within.ok shallow]
      rfl
    · obtain ⟨left, refused⟩ := within.error shallow
      rw [if_neg shallow, refused]
      rfl

end Codec

/-! ## Records -/

/-- A row is read as its fields are, in their order; a field that was left out stands for what its
absence says. `reads` relates the content of a field with what it is read as. -/
inductive Row.Along (reads : (f : Field) → f.Content → Except Fault f.Content → Prop) :
    (fields : List Field) → Row fields → Except Fault (Row fields) → Prop
  | nil : Row.Along reads [] () (.ok ())
  | cons {f : Field} {fs : List Field} {content : f.Content} {row : Row fs}
      {first : Except Fault f.Content} {others : Except Fault (Row fs)}
      (written : f.omitted content = false) (field : reads f content first)
      (rest : Row.Along reads fs row others) :
      Row.Along reads (f :: fs) (content, row) (do
        let content ← first
        let row ← others
        return (content, row))
  | omitted {f : Field} {fs : List Field} {content absent : f.Content} {row : Row fs}
      {others : Except Fault (Row fs)} (unwritten : f.omitted content = true)
      (stands : f.absent = some absent) (rest : Row.Along reads fs row others) :
      Row.Along reads (f :: fs) (content, row) (do
        let row ← others
        return (absent, row))

/-- A row whose fields are read again. -/
abbrev Row.Rereads (scope : Scope) :=
  Row.Along fun f content first => f.codec.Rereads scope content first

/-- A row whose fields are echoed. -/
abbrev Row.Echoes (scope : Scope) :=
  Row.Along fun f content first => f.codec.Echoes scope content first

theorem Row.Along.imp {reads reads' : (f : Field) → f.Content → Except Fault f.Content → Prop}
    (weaken : ∀ f content first, reads f content first → reads' f content first)
    {fields : List Field} {row : Row fields} {result : Except Fault (Row fields)}
    (along : Row.Along reads fields row result) : Row.Along reads' fields row result := by
  induction along with
  | nil => exact .nil
  | cons written field _ ih => exact .cons written (weaken _ _ _ field) ih
  | omitted unwritten stands _ ih => exact .omitted unwritten stands ih

theorem Row.Echoes.rereads {scope : Scope} {fields : List Field} {row : Row fields}
    {result : Except Fault (Row fields)} (echoes : Row.Echoes scope fields row result) :
    Row.Rereads scope fields row result :=
  echoes.imp fun _ _ _ => Codec.Echoes.reads

theorem mem_write {fields : List Field} {row : Row fields} {m : String × Value}
    (member : m ∈ Row.write fields row) : m.1 ∈ fields.map Field.name := by
  induction fields with
  | nil => exact absurd member List.not_mem_nil
  | cons f fs ih =>
      obtain ⟨content, row⟩ := row
      rw [Row.write] at member
      rw [List.map_cons]
      split at member
      · exact List.mem_cons_of_mem _ (ih member)
      · rcases List.mem_cons.mp member with rfl | later
        · exact List.mem_cons_self
        · exact List.mem_cons_of_mem _ (ih later)

/-- What holds of the member of each field that is written holds of all members of a row. -/
theorem Row.Along.forall_write
    {reads : (f : Field) → f.Content → Except Fault f.Content → Prop}
    {p : String × Value → Prop} {fields : List Field} {row : Row fields}
    {result : Except Fault (Row fields)} (along : Row.Along reads fields row result)
    (each : ∀ f content first, reads f content first → p (f.name, f.codec.write content)) :
    ∀ m ∈ Row.write fields row, p m := by
  induction along with
  | nil => exact fun m member => absurd member List.not_mem_nil
  | cons written field rest ih =>
      rw [Row.write, written]
      exact List.forall_mem_cons.mpr ⟨each _ _ _ field, ih⟩
  | omitted unwritten stands rest ih =>
      rw [Row.write, unwritten]
      exact ih

/-- A member of another name passes by a field. -/
theorem readMember_skip {scope : Scope} {f : Field} {fs : List Field} {name : String}
    (apart : f.name ≠ name) (node : Node) (slot : Option f.Content) (slots : Slots fs) :
    Slots.readMember scope name node (f :: fs) (slot, slots) =
      (Slots.readMember scope name node fs slots).map (slot, ·) := by
  have step : Slots.readMember scope name node (f :: fs) (slot, slots) = (do
      let slots ← Slots.readMember scope name node fs slots
      return (slot, slots)) := if_neg apart
  rw [step]
  cases Slots.readMember scope name node fs slots <;> rfl

/-- A field's own member fills its empty slot. -/
theorem readMember_own {scope : Scope} {f : Field} {fs : List Field} (node : Node)
    (slots : Slots fs) :
    Slots.readMember scope f.name node (f :: fs) (none, slots) =
      (f.codec.read scope node).map (some ·, slots) := by
  refine (if_pos rfl).trans ?_
  cases f.codec.read scope node <;> rfl

/-- A field's own member is refused where the slot is filled. -/
theorem readMember_again {scope : Scope} {f : Field} {fs : List Field} (content : f.Content)
    (node : Node) (slots : Slots fs) :
    Slots.readMember scope f.name node (f :: fs) (some content, slots) =
      .error (.mismatch (.duplicateField f.name)) := if_pos rfl

theorem readMembers_skip {scope : Scope} {f : Field} {fs : List Field}
    {nodes : List (Except FlawAt String × Node)} (apart : ∀ n ∈ nodes, n.1 ≠ .ok f.name)
    (slot : Option f.Content) (slots : Slots fs) :
    Slots.readMembers scope (f :: fs) nodes (slot, slots) =
      (Slots.readMembers scope fs nodes slots).map (slot, ·) := by
  induction nodes generalizing slots with
  | nil => rfl
  | cons n nodes ih =>
      obtain ⟨first, others⟩ := List.forall_mem_cons.mp apart
      obtain ⟨fault | name, node⟩ := n
      · rfl
      have apart : f.name ≠ name := fun same => first (congrArg _ same.symm)
      show (Slots.readMember scope name node (f :: fs) (slot, slots) >>= _) = _
      rw [readMember_skip apart]
      show _ = (Slots.readMember scope name node fs slots >>= _).map _
      cases Slots.readMember scope name node fs slots with
      | error fault => rfl
      | ok slots => exact ih others slots

/-- An empty slot stands for what its field's absence says. -/
theorem finish_absent {f : Field} {fs : List Field} {absent : f.Content}
    (stands : f.absent = some absent) (slots : Slots fs) :
    Slots.finish (f :: fs) (none, slots) = (Slots.finish fs slots).map (absent, ·) := by
  obtain ⟨Content, name, codec, absents, omitted⟩ := f
  change Content at absent
  obtain rfl : absents = some absent := stands
  show (Slots.finish fs slots >>= _) = _
  cases Slots.finish fs slots <;> rfl

/-- A filled slot gives its content to the row. -/
theorem finish_met {f : Field} {fs : List Field} (content : f.Content) (slots : Slots fs) :
    Slots.finish (f :: fs) (some content, slots) = (Slots.finish fs slots).map (content, ·) := by
  show (Slots.finish fs slots >>= _) = _
  cases Slots.finish fs slots <;> rfl

/-- An empty slot is missing where its field must be there. -/
theorem finish_missing {f : Field} {fs : List Field} (needed : f.absent = none)
    (slots : Slots fs) :
    Slots.finish (f :: fs) (none, slots) = .error (.mismatch (.missingField f.name)) := by
  obtain ⟨Content, name, codec, absents, omitted⟩ := f
  obtain rfl : absents = none := needed
  rfl

/-- Nothing that stands for the members of a row has a name that is no field's. -/
theorem ne_of_stands {stands : String × Value → Except FlawAt String × Node → Prop}
    (named : ∀ m n, stands m n → n.1 = .ok m.1) {fields : List Field} {row : Row fields}
    {nodes : List (Except FlawAt String × Node)}
    (each : List.Forall₂ stands (Row.write fields row) nodes) {name : String}
    (fresh : name ∉ fields.map Field.name) : ∀ n ∈ nodes, n.1 ≠ .ok name := by
  rintro n member same
  obtain ⟨m, written, stood⟩ := exists_of_mem_right each n member
  exact fresh (Except.ok.inj (same.symm.trans (named m n stood)) ▸ mem_write written)

/-- **Members that stand for those of a row fill its slots** as its fields are read. -/
theorem readMembers_write {stands : String × Value → Except FlawAt String × Node → Prop}
    (named : ∀ m n, stands m n → n.1 = .ok m.1) {scope : Scope} {fields : List Field}
    {row : Row fields} {result : Except Fault (Row fields)}
    (along : Row.Along (fun f content first => ∀ node,
      stands (f.name, f.codec.write content) (.ok f.name, node) →
        f.codec.read scope node = first) fields row result)
    (distinct : (fields.map Field.name).Nodup) {nodes : List (Except FlawAt String × Node)}
    (each : List.Forall₂ stands (Row.write fields row) nodes) :
    (do
      let slots ← Slots.readMembers scope fields nodes (Slots.empty fields)
      Slots.finish fields slots) = result := by
  induction along generalizing nodes with
  | nil =>
      cases each
      rfl
  | @cons f fs content row first others written field rest ih =>
      obtain ⟨fresh, distinct⟩ := List.nodup_cons.mp distinct
      rw [Row.write, written] at each
      obtain _ | @⟨_, ⟨_, node⟩, _, nodes, here, further⟩ := each
      obtain rfl := named _ _ here
      have apart := ne_of_stands named further fresh
      have read := ih distinct further
      -- the first member fills the first slot, and all later ones pass it by
      show (Slots.readMember scope f.name node (f :: fs) (none, Slots.empty fs) >>= _) >>= _ = _
      rw [readMember_own, field node here]
      obtain fault | content := first
      · rfl
      show (Slots.readMembers scope (f :: fs) nodes (some content, Slots.empty fs) >>= _) = _
      rw [readMembers_skip apart, ← read]
      cases Slots.readMembers scope fs nodes (Slots.empty fs) <;> rfl
  | @omitted f fs content absent row others unwritten absence rest ih =>
      obtain ⟨fresh, distinct⟩ := List.nodup_cons.mp distinct
      rw [Row.write, unwritten] at each
      have apart := ne_of_stands named each fresh
      -- every member passes the first slot by, which stays empty
      show (Slots.readMembers scope (f :: fs) nodes (none, Slots.empty fs) >>= _) = _
      rw [readMembers_skip apart, ← ih distinct each]
      cases Slots.readMembers scope fs nodes (Slots.empty fs) with
      | error => rfl
      | ok slots => exact finish_absent absence slots

theorem Scope.depth_of_enter {scope inner : Scope} (room : scope.enter = .ok inner) :
    scope.depth = inner.depth + 1 := by
  unfold enter at room
  split at room
  · cases room
  · cases room
    exact (Nat.succ_pred_eq_of_ne_zero ‹_›).symm

theorem Scope.enter_of_pos {scope : Scope} (room : 0 < scope.depth) :
    scope.enter = .ok { scope with depth := scope.depth - 1 } :=
  if_neg (Nat.ne_of_gt room)

/-- **A record is read again as its fields are**, inside one more container. -/
theorem Codec.rereads_record {α : Type} {name : String} {fields : List Field}
    {ofRow : Row fields → α} {toRow : α → Row fields} {scope inner : Scope} {a : α}
    {row : Except Fault (Row fields)} {result : Except Fault α} (room : scope.enter = .ok inner)
    (distinct : (fields.map Field.name).Nodup) (rereads : Row.Rereads inner fields (toRow a) row)
    (same : row.map ofRow = result) :
    (Codec.record name fields ofRow toRow).Rereads scope a result := by
  intro node shown
  obtain _ | _ | _ | _ | _ | ⟨left, each⟩ := shown
  show Except.map ofRow (scope.enter >>= _) = _
  have along : Row.Along (fun f content first => ∀ node,
      ShowsMember (f.name, f.codec.write content) (.ok f.name, node) →
        f.codec.read inner node = first) fields (toRow a) row :=
    rereads.imp fun f content first rereads node shown => rereads node shown.2
  rw [room, ← same, ← readMembers_write (fun _ _ => ShowsMember.named) along distinct
    (showsMembers_iff.mp each)]
  show Except.map ofRow (Slots.readMembers inner fields _ _ >>= _) = _
  cases Slots.readMembers inner fields _ (Slots.empty fields) <;> rfl

/-- **A record echoes what its fields echo.** -/
theorem Codec.echoes_record {α : Type} {name : String} {fields : List Field}
    {ofRow : Row fields → α} {toRow : α → Row fields} {scope inner : Scope} {a : α}
    {row : Except Fault (Row fields)} {result : Except Fault α} (room : scope.enter = .ok inner)
    (distinct : (fields.map Field.name).Nodup) (echoes : Row.Echoes inner fields (toRow a) row)
    (same : row.map ofRow = result) :
    (Codec.record name fields ofRow toRow).Echoes scope a result where
  integral := integral_object.mpr (echoes.forall_write fun _ _ _ field => field.integral)
  reads := rereads_record room distinct echoes.rereads same

/-! ## What stands first -/

/-- A printed object that begins with a string member is read as an object with that member in
front, whatever stands behind. -/
theorem ofText_first (name s : String) (second : String × Value) (others : List (String × Value)) :
    ∃ left members ending,
      (Document.ofText (Value.object ((name, .string s) :: second :: others)).print).root =
        .object left ((.ok name, .string (.ok s)) :: members) ending := by
  obtain ⟨rest, text⟩ : ∃ rest, (Value.object ((name, .string s) :: second :: others)).print =
      0x7B :: (printString name ++ 0x3A :: (printString s ++ 0x2C :: rest)) := by
    refine ⟨commaSeparated (printMembers (second :: others)) ++ [0x7D], ?_⟩
    simp [Value.print, printMembers, printMember, braced, commaSeparated]
  have opening : Scans (0x7B :: (printString name ++ 0x3A :: (printString s ++ 0x2C :: rest))) _
      [.openBrace] := .one rfl rfl (Nat.le_refl _)
  have colon : Scans (0x3A :: (printString s ++ 0x2C :: rest)) _ [.colon] :=
    .one rfl rfl (Nat.le_refl _)
  have scanned := opening.append ((scans_printString name _).append
    (colon.append (scans_printString s (0x2C :: rest))))
  obtain ⟨toks, behind, -, all, spelled⟩ := scanned _ (Nat.le_refl _)
  obtain ⟨brace, toks, rfl, isBrace, spelled⟩ := List.map_eq_cons_iff.mp spelled
  obtain ⟨nameToken, toks, rfl, isName, spelled⟩ := List.map_eq_cons_iff.mp spelled
  obtain ⟨colonToken, toks, rfl, isColon, spelled⟩ := List.map_eq_cons_iff.mp spelled
  obtain ⟨value, rfl, isValue⟩ := List.map_eq_singleton_iff.mp spelled
  rw [text, Document.ofText, tokens, all]
  generalize tokensUpTo behind (0x2C :: rest) = further
  have fuel : 2 * ([brace, nameToken, colonToken, value] ++ further).length + 2 =
      2 * further.length + 9 + 1 := by
    simp only [List.length_append, List.length_cons, List.length_nil]
    omega
  rw [fuel]
  have reads : Node.read (2 * further.length + 7) ([value] ++ further) =
      (.string (.ok s), further) := by
    simp only [List.cons_append, List.nil_append, Node.read, isValue]
  have inside : Node.readMembers _ true _ = _ := readMembers_of_read isName isColon reads
  simp only [List.cons_append, List.nil_append] at inside
  simp only [List.cons_append, List.nil_append, Node.read, isBrace, inside]
  exact ⟨_, _, _, rfl⟩

/-- A filled first slot stays as it is. -/
theorem readMembers_filled {scope : Scope} {f : Field} {fs : List Field}
    {nodes : List (Except FlawAt String × Node)} {content : f.Content} {slots : Slots fs}
    {after : Slots (f :: fs)}
    (read : Slots.readMembers scope (f :: fs) nodes (some content, slots) = .ok after) :
    after.1 = some content := by
  induction nodes generalizing slots with
  | nil =>
      cases read
      rfl
  | cons entry rest ih =>
      obtain ⟨name, node⟩ := entry
      obtain ⟨name, -, read⟩ := bind_eq_ok read
      obtain ⟨next, member, read⟩ := bind_eq_ok read
      by_cases own : f.name = name
      · subst own
        rw [readMember_again] at member
        cases member
      · rw [readMember_skip own] at member
        obtain ⟨slots, -, rfl⟩ := map_eq_ok member
        exact ih read

/-- **A record whose text begins with its first field has that content there**, if it can be read
at all. -/
theorem Codec.first_of_decode {α : Type} {name : String} {f : Field} {fs : List Field}
    {ofRow : Row (f :: fs) → α} {toRow : α → Row (f :: fs)} {s : String}
    {second : String × Value} {others : List (String × Value)} {a : α} {content : f.Content}
    (own : ∀ scope, f.codec.read scope (.string (.ok s)) = .ok content)
    (decoded : (Codec.record name (f :: fs) ofRow toRow).decode
      (Value.object ((f.name, .string s) :: second :: others)).print = .ok a) :
    ∃ row : Row fs, a = ofRow (content, row) := by
  obtain ⟨left, members, ending, root⟩ := ofText_first f.name s second others
  obtain ⟨b, read, finished⟩ := bind_eq_ok decoded
  obtain rfl : b = a := by
    split at finished
    · exact Except.ok.inj finished
    · cases finished
  rw [root] at read
  change (readRow _ (f :: fs) _ _).map ofRow = _ at read
  obtain ⟨row, inside, rfl⟩ := map_eq_ok read
  obtain ⟨inner, -, inside⟩ := bind_eq_ok inside
  obtain ⟨slots, met, inside⟩ := bind_eq_ok inside
  obtain ⟨-, -, inside⟩ := bind_eq_ok inside
  change Slots.readMember inner f.name _ (f :: fs) (none, Slots.empty fs) >>= _ = _ at met
  rw [readMember_own, own] at met
  obtain ⟨slot, others⟩ := slots
  obtain rfl : slot = some content := readMembers_filled met
  rw [finish_met] at inside
  obtain ⟨others, -, rfl⟩ := map_eq_ok inside
  exact ⟨others, rfl⟩

end Dispatch.Json
