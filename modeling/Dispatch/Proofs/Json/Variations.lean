import Dispatch.Proofs.Json.Floats
import Dispatch.Proofs.Json.Members
import Mathlib.Data.List.Perm.Basic

/-!
# Variations of written values

`Shape.Varies` says which values differ from a written one only in what a reader ought to ignore:
the order of an object's members, and members under names that its record does not know, in each
object that stands for a record (`Shape`). A codec that reads all of them alike `Tolerates` them.
Scalars and free-form values do since nothing of them is varied, records do if their fields do
(`Codec.tolerates_record`), and what is tolerated is decoded as its own encoding is
(`Codec.Tolerates.ignores`).
-/

set_option autoImplicit false

namespace Dispatch.Json

/-! ## Shapes -/

/-- What of a value may be varied: nothing, or the members of an object whose record knows these
names, and what stands under each of them. -/
inductive Shape where
  | whole
  | record (known : List String) (inner : String → Shape)

/-- `w` is `v` but for the objects of records: their members may stand in any order and have any
others among them, under names that the record does not know. -/
def Shape.Varies : Shape → Value → Value → Prop
  | .whole, v, w => w = v
  | .record known inner, .object members, .object varied =>
    ∃ renewed added : List (String × Value),
      List.Forall₂ (fun m n => n.1 = m.1 ∧ (inner m.1).Varies m.2 n.2) members renewed ∧
      (∀ m ∈ added, m.1 ∉ known ∧ m.2.Writable) ∧ (renewed ++ added).Perm varied
  | .record _ _, _, _ => False

namespace Shape.Varies

/-- An object is one of its own variations if what it contains is. -/
theorem self {known : List String} {inner : String → Shape} {members : List (String × Value)}
    (each : ∀ m ∈ members, (inner m.1).Varies m.2 m.2) :
    (record known inner).Varies (.object members) (.object members) :=
  ⟨members, [], List.forall₂_same.mpr fun m member => ⟨rfl, each m member⟩, nofun,
    .of_eq (List.append_nil members)⟩

/-- Variations of a value hold no other numbers than it may hold. -/
theorem writable {shape : Shape} {v w : Value} (varies : shape.Varies v w)
    (writable : v.Writable) : w.Writable := by
  induction shape generalizing v w with
  | whole => exact varies ▸ writable
  | record known inner ih =>
      cases v with
      | object members =>
          cases w with
          | object varied =>
              obtain ⟨renewed, added, each, others, perm⟩ := varies
              have inside := Value.writable_object.mp writable
              have renewed_writable : ∀ m ∈ renewed, m.2.Writable := by
                intro m member
                obtain ⟨original, here, -, varies⟩ := exists_of_mem_right each m member
                exact ih original.1 varies (inside original here)
              refine Value.writable_object.mpr fun m member => ?_
              rcases List.mem_append.mp (perm.mem_iff.mpr member) with own | other
              · exact renewed_writable m own
              · exact (others m other).2
          | _ => exact varies.elim
      | _ => exact varies.elim

/-- No variation is less deep than the value. -/
theorem depth_le {shape : Shape} {v w : Value} (varies : shape.Varies v w) :
    v.depth ≤ w.depth := by
  induction shape generalizing v w with
  | whole => exact varies ▸ Nat.le_refl _
  | record known inner ih =>
      cases v with
      | object members =>
          cases w with
          | object varied =>
              obtain ⟨renewed, added, each, others, perm⟩ := varies
              refine Nat.succ_le_succ (membersDepth_le_iff.mpr fun m member => ?_)
              obtain ⟨n, here, -, varies⟩ := exists_of_mem_left each m member
              have inside := perm.mem_iff.mp (List.mem_append_left added here)
              exact Nat.le_trans (ih m.1 varies) (membersDepth_le_iff.mp (Nat.le_refl _) n inside)
          | _ => exact varies.elim
      | _ => exact varies.elim

end Shape.Varies

/-! ## Reading variations -/

/-- A member stands for a variation of another one that may be read at this depth. -/
def Renewed (inner : String → Shape) (depth : Nat) (m : String × Value)
    (n : Except FlawAt String × Node) : Prop :=
  n.1 = .ok m.1 ∧ ∃ w, (inner m.1).Varies m.2 w ∧ w.depth ≤ depth ∧ Shows w.reread n.2

theorem Renewed.named {inner : String → Shape} {depth : Nat} {m : String × Value}
    {n : Except FlawAt String × Node} (renewed : Renewed inner depth m n) : n.1 = .ok m.1 :=
  renewed.1

/-- The tree of a varied object: what stands for its members, and members that it does not know,
in some order. -/
theorem Shape.Varies.exists_nodes {known : List String} {inner : String → Shape}
    {members : List (String × Value)} {v : Value} {node : Node} {depth : Nat}
    (varies : (record known inner).Varies (.object members) v) (shallow : v.depth ≤ depth + 1)
    (shown : Shows v.reread node) :
    ∃ left nodes own others, node = .object left nodes .closed ∧
      List.Forall₂ (Renewed inner depth) members own ∧
      (∀ n ∈ others, ∃ name w, n.1 = .ok name ∧ name ∉ known ∧ Shows w n.2) ∧
      (own ++ others).Perm nodes := by
  cases v with
  | object varied =>
      obtain ⟨renewed, added, each, unknown, perm⟩ := varies
      have depths := membersDepth_le_iff.mp (Nat.le_of_succ_le_succ shallow)
      rw [Value.reread_object] at shown
      obtain _ | _ | _ | _ | _ | ⟨left, shown⟩ := shown
      rename_i nodes
      have shows_all := List.forall₂_map_left_iff.mp (showsMembers_iff.mp shown)
      obtain ⟨placed, split, moved⟩ := List.perm_comp_forall₂ perm shows_all
      obtain ⟨own, others, rfl, ownShown, othersShown⟩ := forall₂_append split
      refine ⟨left, nodes, own, others, rfl, ?_, ?_, moved⟩
      · have within : ∀ m ∈ renewed, m.2.depth ≤ depth := fun m member =>
          depths m (perm.mem_iff.mp (List.mem_append_left added member))
        refine forall₂_comp ?_ each ((List.forall₂_and_left renewed own).mpr ⟨within, ownShown⟩)
        rintro m n node ⟨same, varies⟩ ⟨low, named, shown⟩
        exact ⟨named.trans (congrArg _ same), n.2, varies, low, shown⟩
      · intro n member
        obtain ⟨m, inside, named, shown⟩ := exists_of_mem_right othersShown n member
        exact ⟨m.1, m.2.reread, named, (unknown m inside).1, shown⟩
  | _ => exact varies.elim

/-- Whatever `a` is written as may be varied within `shape` and is read as `result` all the same,
while it is not too deep. -/
structure Codec.Tolerates {α : Type} (codec : Codec α) (scope : Scope) (shape : Shape) (a : α)
    (result : Except Fault α) : Prop where
  writable : (codec.write a).Writable
  fits : shape.Varies (codec.write a) (codec.write a)
  reads : ∀ v, shape.Varies (codec.write a) v → v.depth ≤ scope.depth →
    ∀ node, Shows v.reread node → codec.read scope node = result

namespace Codec

variable {α : Type} {scope : Scope} {codec : Codec α} {a : α} {result : Except Fault α}

/-- What is echoed is read, as long as nothing is varied. -/
theorem Echoes.tolerates (echoes : codec.Echoes scope a result) :
    codec.Tolerates scope .whole a result where
  writable := echoes.integral.writable
  fits := rfl
  reads := by
    rintro _ rfl - node shown
    rw [echoes.integral.reread] at shown
    exact echoes.reads node shown

/-- **A free-form value of any numbers is read in canonical form**, its numbers reread. -/
theorem tolerates_value {v : Value} (writable : v.Writable) :
    value.Tolerates scope .whole v (.ok v.reread.canonical) where
  writable := writable
  fits := rfl
  reads := by
    intro w same shallow node shown
    rw [show w = v from same] at shallow shown
    have within : Within (v.reread.depth ≤ scope.depth) v.reread _ := shown.readAs scope.depth
    show ofFlaw ((node.value? scope.depth).map (·.canonical)) = _
    rw [within.ok (v.depth_reread.symm ▸ shallow)]
    rfl

/-- What is there and not written as `null` is read as being there. -/
theorem tolerates_option_some (tolerates : codec.Tolerates scope .whole a result)
    (present : codec.write a ≠ .null) :
    codec.option.Tolerates scope .whole (some a) (result.map some) where
  writable := tolerates.writable
  fits := rfl
  reads := by
    rintro _ rfl shallow node shown
    have read := tolerates.reads _ rfl shallow node shown
    cases node with
    | null =>
        have null : ∀ v : Value, Shows v.reread .null → v = .null := by
          rintro (_ | _ | _ | _ | _ | _) ⟨⟩
          rfl
        exact absurd (null _ shown) present
    | bool | number | string | array | object | broken => exact congrArg (Except.map some) read

/-- **A record tolerates what its fields tolerate**, and members in any order with others among
them. -/
theorem tolerates_record {name : String} {fields : List Field} {ofRow : Row fields → α}
    {toRow : α → Row fields} {inner : Scope} {row : Except Fault (Row fields)} {b : α}
    {known : List String} {shape : String → Shape} (room : scope.enter = .ok inner)
    (distinct : (fields.map Field.name).Nodup)
    (knows : ∀ field ∈ fields.map Field.name, field ∈ known)
    (along : Row.Along (fun f content first =>
      f.codec.Tolerates inner (shape f.name) content first) fields (toRow a) row)
    (same : row.map ofRow = .ok b) :
    (record name fields ofRow toRow).Tolerates scope (.record known shape) a (.ok b) where
  writable := Value.writable_object.mpr (along.forall_write fun _ _ _ field => field.writable)
  fits := .self (along.forall_write fun _ _ _ field => field.fits)
  reads := by
    intro v varies shallow node shown
    have deeper := Scope.depth_of_enter room
    obtain ⟨left, nodes, own, others, rfl, each, unknown, perm⟩ :=
      varies.exists_nodes (deeper ▸ shallow) shown
    obtain ⟨read, rfl, rfl⟩ := map_eq_ok same
    have reads : Row.Along (fun f content first => ∀ node,
        Renewed shape inner.depth (f.name, f.codec.write content) (.ok f.name, node) →
          f.codec.read inner node = first) fields (toRow a) (.ok read) := by
      refine along.imp fun f content first field node renewed => ?_
      obtain ⟨-, w, varies, low, shown⟩ := renewed
      exact field.reads w varies low node shown
    have passed : ∀ n ∈ others, Unknown fields n := by
      intro n member
      obtain ⟨other, w, named, fresh, shown⟩ := unknown n member
      exact ⟨other, w, named, fun field => fresh (knows other field), shown⟩
    have row := readRow_members (fun _ _ => Renewed.named) room reads rfl distinct each passed perm
      ("struct " ++ name) left
    show Except.map ofRow (readRow _ fields scope _) = _
    rw [row]
    rfl

/-- However a value is varied, it is decoded as its own encoding is. -/
def Ignores (codec : Codec α) (shape : Shape) (a : α) : Prop :=
  ∀ v, shape.Varies (codec.write a) v → v.depth ≤ deepest →
    ∃ b, codec.decode (codec.encode a) = .ok b ∧ codec.decode v.print = .ok b

/-- A text whose value is tolerated is decoded. -/
theorem Tolerates.decode {shape : Shape} {b : α} {v : Value}
    (tolerates : codec.Tolerates .message shape a (.ok b)) (varies : shape.Varies (codec.write a) v)
    (shallow : v.depth ≤ deepest) : codec.decode v.print = .ok b := by
  obtain ⟨node, document, shown⟩ := ofText_print_of_writable (varies.writable tolerates.writable)
  rw [Codec.decode, document]
  show (codec.read .message node >>= fun a => .ok a) = _
  rw [tolerates.reads v varies shallow node shown]
  rfl

/-- **What is tolerated is ignored**: its own encoding is one of its variations. -/
theorem Tolerates.ignores {shape : Shape} {b : α}
    (tolerates : codec.Tolerates .message shape a (.ok b)) : codec.Ignores shape a := by
  intro v varies shallow
  have self := Nat.le_trans varies.depth_le shallow
  exact ⟨b, tolerates.decode tolerates.fits self, tolerates.decode varies shallow⟩

end Codec

end Dispatch.Json
