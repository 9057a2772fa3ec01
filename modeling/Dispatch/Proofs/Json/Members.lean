import Dispatch.Proofs.Json.Records

/-!
# Members in any order

Two members that can be taken in one after the other can be taken in the other way round
(`readMember_comm`), so members that can be read at all are read alike in every order
(`readMembers_perm`). One that names no field is passed over (`readMembers_unknown`): a node that
shows a value has no flaw for a reader who only passes over it. A record is therefore read from what
stands for the members of a row, with any others among them (`readRow_members`).
-/

set_option autoImplicit false

namespace Dispatch.Json

section Order

variable {scope : Scope} {fields : List Field}

/-- **Two members can be taken in in either order.** -/
theorem readMember_comm {name name' : String} {node node' : Node}
    {slots middle after : Slots fields}
    (first : Slots.readMember scope name node fields slots = .ok middle)
    (second : Slots.readMember scope name' node' fields middle = .ok after) :
    ∃ between, Slots.readMember scope name' node' fields slots = .ok between ∧
      Slots.readMember scope name node fields between = .ok after := by
  induction fields with
  | nil =>
      obtain ⟨_, passed, same⟩ := bind_eq_ok first
      cases same
      exact ⟨after, second, first⟩
  | cons f fs ih =>
      obtain ⟨slot, slots⟩ := slots
      by_cases own : f.name = name
      · subst own
        cases slot with
        | some content =>
            rw [readMember_again] at first
            cases first
        | none =>
            rw [readMember_own] at first
            obtain ⟨content, read, rfl⟩ := map_eq_ok first
            by_cases again : f.name = name'
            · subst again
              rw [readMember_again] at second
              cases second
            · rw [readMember_skip again] at second
              obtain ⟨others, further, rfl⟩ := map_eq_ok second
              refine ⟨(none, others), ?_, ?_⟩
              · rw [readMember_skip again, further]
                rfl
              · rw [readMember_own, read]
                rfl
      · rw [readMember_skip own] at first
        obtain ⟨passed, further, rfl⟩ := map_eq_ok first
        by_cases other : f.name = name'
        · subst other
          cases slot with
          | some content =>
              rw [readMember_again] at second
              cases second
          | none =>
              rw [readMember_own] at second
              obtain ⟨content, read, rfl⟩ := map_eq_ok second
              refine ⟨(some content, slots), ?_, ?_⟩
              · rw [readMember_own, read]
                rfl
              · rw [readMember_skip own, further]
                rfl
        · rw [readMember_skip other] at second
          obtain ⟨others, last, rfl⟩ := map_eq_ok second
          obtain ⟨between, before, behind⟩ := ih further last
          refine ⟨(slot, between), ?_, ?_⟩
          · rw [readMember_skip other, before]
            rfl
          · rw [readMember_skip own, behind]
            rfl

variable {nodes nodes' : List (Except FlawAt String × Node)}

/-- The first of the members that are read has a name and is taken in. -/
theorem readMembers_cons {n : Except FlawAt String × Node} {slots after : Slots fields} :
    Slots.readMembers scope fields (n :: nodes) slots = .ok after ↔
      ∃ name middle, n.1 = .ok name ∧
        Slots.readMember scope name n.2 fields slots = .ok middle ∧
        Slots.readMembers scope fields nodes middle = .ok after := by
  obtain ⟨fault | name, node⟩ := n
  · constructor
    · nofun
    · rintro ⟨name, middle, ⟨⟩, -⟩
  · constructor
    · intro read
      change Slots.readMember scope name node fields slots >>= _ = _ at read
      obtain ⟨middle, first, others⟩ := bind_eq_ok read
      exact ⟨name, middle, rfl, first, others⟩
    · rintro ⟨name, middle, ⟨⟩, first, others⟩
      show (Slots.readMember scope name node fields slots >>= _) = _
      rw [first]
      exact others

/-- **Members that can be read are read alike in every order.** -/
theorem readMembers_perm {slots after : Slots fields} (perm : nodes.Perm nodes')
    (read : Slots.readMembers scope fields nodes slots = .ok after) :
    Slots.readMembers scope fields nodes' slots = .ok after := by
  induction perm generalizing slots with
  | nil => exact read
  | cons n _ ih =>
      obtain ⟨name, middle, named, first, others⟩ := readMembers_cons.mp read
      exact readMembers_cons.mpr ⟨name, middle, named, first, ih others⟩
  | swap n n' rest =>
      obtain ⟨name', middle, named', first, read⟩ := readMembers_cons.mp read
      obtain ⟨name, after', named, second, others⟩ := readMembers_cons.mp read
      obtain ⟨between, before, behind⟩ := readMember_comm first second
      exact readMembers_cons.mpr ⟨name, between, named, before,
        readMembers_cons.mpr ⟨name', after', named', behind, others⟩⟩
  | trans _ _ ih ih' => exact ih' (ih read)

/-- Members in a row are read one part after the other. -/
theorem readMembers_append {slots middle after : Slots fields}
    (first : Slots.readMembers scope fields nodes slots = .ok middle)
    (second : Slots.readMembers scope fields nodes' middle = .ok after) :
    Slots.readMembers scope fields (nodes ++ nodes') slots = .ok after := by
  induction nodes generalizing slots with
  | nil =>
      cases first
      exact second
  | cons n nodes ih =>
      obtain ⟨name, next, named, taken, others⟩ := readMembers_cons.mp first
      exact readMembers_cons.mpr ⟨name, next, named, taken, ih others⟩

end Order

/-! ## Unknown members -/

/-- A node that shows a value has no flaw. -/
theorem Shows.pass {v : Value} {node : Node} (shown : Shows v node) : node.pass = .ok () := by
  induction v using Value.induction generalizing node with
  | null | bool | number | string =>
      cases shown
      rfl
  | array items ih =>
      obtain _ | _ | _ | _ | ⟨left, each⟩ | _ := shown
      have passed : ∀ nodes, ShowsItems items nodes → Node.passItems nodes = .ok () := by
        clear each
        induction items with
        | nil =>
            rintro _ ⟨⟩
            rfl
        | cons v items further =>
            obtain ⟨first, others⟩ := List.forall_mem_cons.mp ih
            rintro _ (_ | ⟨here, each⟩)
            rw [Node.passItems, first here]
            exact further others _ each
      rw [Node.pass, passed _ each]
      rfl
  | object members ih =>
      obtain _ | _ | _ | _ | _ | ⟨left, each⟩ := shown
      have passed : ∀ nodes, ShowsMembers members nodes → Node.passMembers nodes = .ok () := by
        clear each
        induction members with
        | nil =>
            rintro _ ⟨⟩
            rfl
        | cons m members further =>
            obtain ⟨first, others⟩ := List.forall_mem_cons.mp ih
            rintro _ (_ | ⟨here, each⟩)
            rw [Node.passMembers, first here]
            exact further others _ each
      rw [Node.pass, passed _ each]
      rfl

/-- The node of a known value shows it. -/
theorem shows_ofValue (v : Value) : Shows v (Node.ofValue v) := by
  induction v using Value.induction with
  | null => exact .null
  | bool b => exact .bool b
  | number n => exact .number n
  | string s => exact .string s
  | array items ih =>
      refine .array 0 ?_
      induction items with
      | nil => exact .nil
      | cons v items further =>
          obtain ⟨first, others⟩ := List.forall_mem_cons.mp ih
          exact .cons first (further others)
  | object members ih =>
      refine .object 0 ?_
      induction members with
      | nil => exact .nil
      | cons m members further =>
          obtain ⟨first, others⟩ := List.forall_mem_cons.mp ih
          exact .cons first (further others)

theorem ofMembers_eq (members : List (String × Value)) :
    Node.ofMembers members = members.map fun m => (.ok m.1, Node.ofValue m.2) := by
  induction members with
  | nil => rfl
  | cons m members ih => rw [Node.ofMembers, ih, List.map_cons]

/-- A member that the fields do not know and that shows some value. -/
def Unknown (fields : List Field) (n : Except FlawAt String × Node) : Prop :=
  ∃ name v, n.1 = .ok name ∧ name ∉ fields.map Field.name ∧ Shows v n.2

section Unknown

variable {scope : Scope} {fields : List Field}

theorem readMember_unknown {name : String} {node : Node} (unknown : name ∉ fields.map Field.name)
    (passed : node.pass = .ok ()) (slots : Slots fields) :
    Slots.readMember scope name node fields slots = .ok slots := by
  induction fields with
  | nil =>
      show (ofFlaw node.pass >>= _) = _
      rw [passed]
      rfl
  | cons f fs ih =>
      obtain ⟨slot, slots⟩ := slots
      rw [List.map_cons, List.mem_cons, not_or] at unknown
      rw [readMember_skip (Ne.symm unknown.1), ih unknown.2]
      rfl

/-- **Members that name no field are passed over.** -/
theorem readMembers_unknown {nodes : List (Except FlawAt String × Node)}
    (unknown : ∀ n ∈ nodes, Unknown fields n) (slots : Slots fields) :
    Slots.readMembers scope fields nodes slots = .ok slots := by
  induction nodes with
  | nil => rfl
  | cons n nodes ih =>
      obtain ⟨⟨name, v, named, other, shown⟩, others⟩ := List.forall_mem_cons.mp unknown
      exact readMembers_cons.mpr
        ⟨name, slots, named, readMember_unknown other shown.pass slots, ih others⟩

/-- **A record is read from what stands for the members of a row**, whatever unknown members are
among them and in whatever order they stand. -/
theorem readRow_members {stands : String × Value → Except FlawAt String × Node → Prop}
    (named : ∀ m n, stands m n → n.1 = .ok m.1) {inner : Scope} {row read : Row fields}
    {result : Except Fault (Row fields)} (room : scope.enter = .ok inner)
    (along : Row.Along (fun f content first => ∀ node,
      stands (f.name, f.codec.write content) (.ok f.name, node) →
        f.codec.read inner node = first) fields row result) (same : result = .ok read)
    (distinct : (fields.map Field.name).Nodup)
    {own others nodes : List (Except FlawAt String × Node)}
    (each : List.Forall₂ stands (Row.write fields row) own)
    (unknown : ∀ n ∈ others, Unknown fields n) (perm : (own ++ others).Perm nodes)
    (name : String) (left : Nat) :
    readRow name fields scope (.object left nodes .closed) = .ok read := by
  have met := (readMembers_write named along distinct each).trans same
  obtain ⟨slots, filled, finished⟩ := bind_eq_ok met
  have all := readMembers_perm perm
    (readMembers_append filled (readMembers_unknown unknown slots))
  show (scope.enter >>= _) = _
  rw [room]
  show (Slots.readMembers inner fields nodes (Slots.empty fields) >>= _) = _
  rw [all]
  exact finished

end Unknown

end Dispatch.Json
