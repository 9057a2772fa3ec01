import Dispatch.Json.Value
import Dispatch.Proofs.Utf8

/-!
# Laws of JSON values

`Value.induction` is the induction over a value whose hypotheses speak of all items and of all
members at once; the functions on lists of them are maps. `depth` and `numbers` are what decides
whether a written value can be read again. The canonical form is one: members are strictly sorted
(`ordered_sortMembers`), sorting sorted members changes nothing, and so canonical values are their
own canonical form (`canonical_canonical`). Where no object has two members of one name, the
canonical form is the value itself but for the order of members (`rearranges_canonical`).
-/

set_option autoImplicit false

namespace Dispatch.Json

namespace Value

/-- What holds of a container where it holds of all it contains, and of all other values, holds of
every value. -/
@[elab_as_elim]
theorem induction {motive : Value → Prop} (null : motive .null) (bool : ∀ b, motive (.bool b))
    (number : ∀ n, motive (.number n)) (string : ∀ s, motive (.string s))
    (array : ∀ items, (∀ v ∈ items, motive v) → motive (.array items))
    (object : ∀ members, (∀ m ∈ members, motive m.2) → motive (.object members)) (v : Value) :
    motive v := by
  refine Value.rec (motive_1 := motive) (motive_2 := fun items => ∀ v ∈ items, motive v)
    (motive_3 := fun members => ∀ m ∈ members, motive m.2) (motive_4 := fun m => motive m.2)
    null bool number string array object ?_ ?_ ?_ ?_ ?_ v
  · exact fun _ member => absurd member List.not_mem_nil
  · exact fun _ _ first others => List.forall_mem_cons.mpr ⟨first, others⟩
  · exact fun _ member => absurd member List.not_mem_nil
  · exact fun _ _ first others => List.forall_mem_cons.mpr ⟨first, others⟩
  · exact fun _ _ held => held

end Value

theorem printItems_eq (items : List Value) : printItems items = items.map Value.print := by
  induction items with
  | nil => rfl
  | cons v rest ih => rw [printItems, ih, List.map_cons]

theorem printMembers_eq (members : List (String × Value)) :
    printMembers members = members.map fun m => printMember m.1 m.2.print := by
  induction members with
  | nil => rfl
  | cons m rest ih => rw [printMembers, ih, List.map_cons]

theorem canonicalItems_eq (items : List Value) :
    canonicalItems items = items.map Value.canonical := by
  induction items with
  | nil => rfl
  | cons v rest ih => rw [canonicalItems, ih, List.map_cons]

theorem canonicalMembers_eq (members : List (String × Value)) :
    canonicalMembers members = members.map fun m => (m.1, m.2.canonical) := by
  induction members with
  | nil => rfl
  | cons m rest ih => rw [canonicalMembers, ih, List.map_cons]

/-! ## Depth -/

mutual

/-- How deep containers are nested in a value. -/
def Value.depth : Value → Nat
  | .array items => itemsDepth items + 1
  | .object members => membersDepth members + 1
  | _ => 0

def itemsDepth : List Value → Nat
  | [] => 0
  | v :: rest => max v.depth (itemsDepth rest)

def membersDepth : List (String × Value) → Nat
  | [] => 0
  | (_, v) :: rest => max v.depth (membersDepth rest)

end

theorem itemsDepth_le_iff {items : List Value} {d : Nat} :
    itemsDepth items ≤ d ↔ ∀ v ∈ items, v.depth ≤ d := by
  induction items with
  | nil => simp [itemsDepth]
  | cons v rest ih => rw [itemsDepth, Nat.max_le, ih, List.forall_mem_cons]

theorem membersDepth_le_iff {members : List (String × Value)} {d : Nat} :
    membersDepth members ≤ d ↔ ∀ m ∈ members, m.2.depth ≤ d := by
  induction members with
  | nil => simp [membersDepth]
  | cons m rest ih => rw [membersDepth, Nat.max_le, ih, List.forall_mem_cons]

/-! ## Numbers -/

/-- An integer of the signed or the unsigned 64-bit range. -/
def Number.IsWord : Number → Prop
  | .integer n => -9_223_372_036_854_775_808 ≤ n ∧ n ≤ Numeral.maxWord64
  | .float _ => False

instance (n : Number) : Decidable n.IsWord :=
  match n with
  | .integer n =>
    inferInstanceAs (Decidable (-9_223_372_036_854_775_808 ≤ n ∧ n ≤ Numeral.maxWord64))
  | .float _ => isFalse id

mutual

/-- The numbers in a value, in the order of its text. -/
def Value.numbers : Value → List Number
  | .number n => [n]
  | .array items => itemNumbers items
  | .object members => memberNumbers members
  | _ => []

def itemNumbers : List Value → List Number
  | [] => []
  | v :: rest => v.numbers ++ itemNumbers rest

def memberNumbers : List (String × Value) → List Number
  | [] => []
  | (_, v) :: rest => v.numbers ++ memberNumbers rest

end

theorem forall_numbers_array {p : Number → Prop} {items : List Value} :
    (∀ n ∈ (Value.array items).numbers, p n) ↔ ∀ v ∈ items, ∀ n ∈ v.numbers, p n := by
  rw [Value.numbers]
  induction items with
  | nil => simp [itemNumbers]
  | cons v rest ih => rw [itemNumbers, List.forall_mem_append, List.forall_mem_cons, ih]

theorem forall_numbers_object {p : Number → Prop} {members : List (String × Value)} :
    (∀ n ∈ (Value.object members).numbers, p n) ↔ ∀ m ∈ members, ∀ n ∈ m.2.numbers, p n := by
  rw [Value.numbers]
  induction members with
  | nil => simp [memberNumbers]
  | cons m rest ih => rw [memberNumbers, List.forall_mem_append, List.forall_mem_cons, ih]

/-- All numbers of a value are integers of 64 bits. -/
def Value.Integral (v : Value) : Prop := ∀ n ∈ v.numbers, n.IsWord

instance (v : Value) : Decidable v.Integral :=
  inferInstanceAs (Decidable (∀ n ∈ v.numbers, n.IsWord))

theorem integral_array {items : List Value} :
    (Value.array items).Integral ↔ ∀ v ∈ items, v.Integral := forall_numbers_array

theorem integral_object {members : List (String × Value)} :
    (Value.object members).Integral ↔ ∀ m ∈ members, m.2.Integral := forall_numbers_object

mutual

/-- A value with other numbers in place of its own. -/
def Value.mapNumbers (f : Number → Number) : Value → Value
  | .number n => .number (f n)
  | .array items => .array (mapItemNumbers f items)
  | .object members => .object (mapMemberNumbers f members)
  | v => v

def mapItemNumbers (f : Number → Number) : List Value → List Value
  | [] => []
  | v :: rest => v.mapNumbers f :: mapItemNumbers f rest

def mapMemberNumbers (f : Number → Number) : List (String × Value) → List (String × Value)
  | [] => []
  | (name, v) :: rest => (name, v.mapNumbers f) :: mapMemberNumbers f rest

end

section MapNumbers

variable {f : Number → Number}

theorem mapItemNumbers_eq (items : List Value) :
    mapItemNumbers f items = items.map (Value.mapNumbers f) := by
  induction items with
  | nil => rfl
  | cons v rest ih => rw [mapItemNumbers, ih, List.map_cons]

theorem mapMemberNumbers_eq (members : List (String × Value)) :
    mapMemberNumbers f members = members.map fun m => (m.1, m.2.mapNumbers f) := by
  induction members with
  | nil => rfl
  | cons m rest ih => rw [mapMemberNumbers, ih, List.map_cons]

/-- A value keeps its depth. -/
theorem Value.depth_mapNumbers (v : Value) : (v.mapNumbers f).depth = v.depth := by
  have items_eq : ∀ items : List Value, (∀ v ∈ items, (v.mapNumbers f).depth = v.depth) →
      itemsDepth (items.map (Value.mapNumbers f)) = itemsDepth items := by
    intro items each
    induction items with
    | nil => rfl
    | cons v rest ih =>
        obtain ⟨first, others⟩ := List.forall_mem_cons.mp each
        rw [List.map_cons, itemsDepth, itemsDepth, first, ih others]
  have members_eq : ∀ members : List (String × Value),
      (∀ m ∈ members, (m.2.mapNumbers f).depth = m.2.depth) →
      membersDepth (members.map fun m => (m.1, m.2.mapNumbers f)) = membersDepth members := by
    intro members each
    induction members with
    | nil => rfl
    | cons m rest ih =>
        obtain ⟨first, others⟩ := List.forall_mem_cons.mp each
        rw [List.map_cons, membersDepth, membersDepth, first, ih others]
  induction v using Value.induction with
  | null | bool | number | string => rfl
  | array items ih => rw [mapNumbers, mapItemNumbers_eq, depth, depth, items_eq items ih]
  | object members ih => rw [mapNumbers, mapMemberNumbers_eq, depth, depth, members_eq members ih]

/-- A value whose numbers stay is the same value. -/
theorem Value.mapNumbers_of_fixed {v : Value} (fixed : ∀ n ∈ v.numbers, f n = n) :
    v.mapNumbers f = v := by
  induction v using Value.induction with
  | null | bool | string => rfl
  | number n => rw [mapNumbers, fixed n List.mem_cons_self]
  | array items ih =>
      have each := forall_numbers_array.mp fixed
      have same : ∀ v ∈ items, v.mapNumbers f = v := fun v member => ih v member (each v member)
      rw [mapNumbers, mapItemNumbers_eq, List.map_congr_left same, List.map_id']
  | object members ih =>
      have each := forall_numbers_object.mp fixed
      have same : ∀ m ∈ members, (m.1, m.2.mapNumbers f) = m := by
        intro m member
        rw [ih m member (each m member)]
      rw [mapNumbers, mapMemberNumbers_eq, List.map_congr_left same, List.map_id']

end MapNumbers

/-! ## The order of names -/

theorem bytesLt_irrefl (a : Bytes) : bytesLt a a = false := by
  induction a with
  | nil => rfl
  | cons x xs ih => rw [bytesLt, if_pos rfl, ih]

theorem bytesLt_trans {a b c : Bytes} (first : bytesLt a b = true) (second : bytesLt b c = true) :
    bytesLt a c = true := by
  induction a generalizing b c with
  | nil =>
      cases b with
      | nil => cases first
      | cons => cases c with
        | nil => cases second
        | cons => rfl
  | cons x xs ih =>
      cases b with
      | nil => cases first
      | cons y ys =>
          cases c with
          | nil => cases second
          | cons z zs =>
              simp only [bytesLt] at first second ⊢
              by_cases xy : x = y
              · subst xy
                rw [if_pos rfl] at first
                by_cases xz : x = z
                · rw [if_pos xz] at second ⊢
                  exact ih first second
                · rwa [if_neg xz] at second ⊢
              · rw [if_neg xy, decide_eq_true_eq] at first
                by_cases yz : y = z
                · subst yz
                  rw [if_neg xy, decide_eq_true_eq]
                  exact first
                · rw [if_neg yz, decide_eq_true_eq] at second
                  have below := UInt8.lt_trans first second
                  have apart : x ≠ z := UInt8.ne_of_lt below
                  rw [if_neg apart, decide_eq_true_eq]
                  exact below

theorem bytesLt_asymm {a b : Bytes} (lt : bytesLt a b = true) : bytesLt b a = false := by
  cases back : bytesLt b a with
  | false => rfl
  | true => exact absurd (bytesLt_trans lt back) (by rw [bytesLt_irrefl]; exact Bool.false_ne_true)

/-- Of two different byte sequences one comes before the other. -/
theorem bytesLt_of_not {a b : Bytes} (apart : a ≠ b) (before : bytesLt a b = false) :
    bytesLt b a = true := by
  induction a generalizing b with
  | nil =>
      cases b with
      | nil => exact absurd rfl apart
      | cons => cases before
  | cons x xs ih =>
      cases b with
      | nil => rfl
      | cons y ys =>
          simp only [bytesLt] at before ⊢
          by_cases same : x = y
          · subst same
            rw [if_pos rfl] at before ⊢
            exact ih (fun tails => apart (congrArg _ tails)) before
          · rw [if_neg same, decide_eq_false_iff_not, UInt8.not_lt] at before
            have reverse : y ≠ x := fun back => same back.symm
            rw [if_neg reverse, decide_eq_true_eq]
            exact UInt8.lt_of_le_of_ne before reverse

/-- Members are in strictly ascending order of their names. -/
def Ordered (members : List (String × Value)) : Prop :=
  members.Pairwise fun m n => bytesLt (Utf8.ofString m.1) (Utf8.ofString n.1) = true

theorem mem_insertMember {name : String} {v : Value} {members : List (String × Value)}
    {m : String × Value} (member : m ∈ insertMember name v members) :
    m = (name, v) ∨ m ∈ members := by
  induction members with
  | nil => exact .inl (List.mem_singleton.mp member)
  | cons first rest ih =>
      obtain ⟨n, w⟩ := first
      simp only [insertMember] at member
      split at member
      · exact (List.mem_cons.mp member).imp_right (List.mem_cons_of_mem _)
      · split at member
        · exact List.mem_cons.mp member
        · rcases List.mem_cons.mp member with same | later
          · exact .inr (same ▸ List.mem_cons_self)
          · exact (ih later).imp_right (List.mem_cons_of_mem _)

theorem ordered_insertMember (name : String) (v : Value) {members : List (String × Value)}
    (ordered : Ordered members) : Ordered (insertMember name v members) := by
  induction members with
  | nil => exact List.pairwise_singleton _ _
  | cons first rest ih =>
      obtain ⟨n, w⟩ := first
      obtain ⟨least, others⟩ := List.pairwise_cons.mp ordered
      simp only [insertMember]
      split
      · rename_i same
        subst same
        exact List.pairwise_cons.mpr ⟨least, others⟩
      · rename_i apart
        split
        · rename_i before
          refine List.pairwise_cons.mpr ⟨?_, ordered⟩
          intro m member
          rcases List.mem_cons.mp member with rfl | later
          · exact before
          · exact bytesLt_trans before (least m later)
        · rename_i notBefore
          have after : bytesLt (Utf8.ofString n) (Utf8.ofString name) = true := by
            refine bytesLt_of_not (fun same => apart (Utf8.ofString_inj.mp same).symm) ?_
            exact Bool.eq_false_iff.mpr notBefore
          refine List.pairwise_cons.mpr ⟨?_, ih others⟩
          intro m member
          rcases mem_insertMember member with rfl | later
          · exact after
          · exact least m later

/-- A member whose name comes behind all others is put at the end. -/
theorem insertMember_last {name : String} {v : Value} {members : List (String × Value)}
    (last : ∀ m ∈ members, bytesLt (Utf8.ofString m.1) (Utf8.ofString name) = true) :
    insertMember name v members = members ++ [(name, v)] := by
  induction members with
  | nil => rfl
  | cons first rest ih =>
      obtain ⟨n, w⟩ := first
      obtain ⟨before, others⟩ := List.forall_mem_cons.mp last
      have apart : n ≠ name := by
        rintro rfl
        rw [bytesLt_irrefl] at before
        cases before
      rw [insertMember, if_neg apart, bytesLt_asymm before, ih others]
      rfl

/-- **Sorted members are in strictly ascending order.** -/
theorem ordered_sortMembers (members : List (String × Value)) : Ordered (sortMembers members) := by
  unfold sortMembers
  have start : Ordered [] := List.Pairwise.nil
  generalize ([] : List (String × Value)) = sorted at start ⊢
  induction members generalizing sorted with
  | nil => exact start
  | cons m rest ih => exact ih _ (ordered_insertMember m.1 m.2 start)

theorem mem_sortMembers {members : List (String × Value)} {m : String × Value}
    (member : m ∈ sortMembers members) : m ∈ members := by
  have either : ∀ sorted : List (String × Value),
      m ∈ members.foldl (fun sorted m => insertMember m.1 m.2 sorted) sorted →
        m ∈ members ∨ m ∈ sorted := by
    clear member
    induction members with
    | nil => exact fun sorted member => .inr member
    | cons first rest ih =>
        intro sorted member
        rcases ih _ member with later | inserted
        · exact .inl (List.mem_cons_of_mem _ later)
        · rcases mem_insertMember inserted with rfl | before
          · exact .inl List.mem_cons_self
          · exact .inr before
  exact (either [] member).resolve_right List.not_mem_nil

/-- Sorting what is sorted changes nothing. -/
theorem sortMembers_of_ordered {members : List (String × Value)} (ordered : Ordered members) :
    sortMembers members = members := by
  have appended : ∀ sorted : List (String × Value), Ordered (sorted ++ members) →
      members.foldl (fun sorted m => insertMember m.1 m.2 sorted) sorted = sorted ++ members := by
    clear ordered
    induction members with
    | nil => exact fun sorted _ => (List.append_nil sorted).symm
    | cons m rest ih =>
        intro sorted ordered
        have last := (List.pairwise_append.mp ordered).2.2
        rw [List.foldl_cons, insertMember_last fun n member => last n member m List.mem_cons_self,
          ih _ (by simpa using ordered), List.append_assoc]
        rfl
  exact appended [] ordered

/-! ## The canonical form -/

/-- **A canonical value is its own canonical form.** -/
theorem Value.canonical_canonical (v : Value) : v.canonical.canonical = v.canonical := by
  induction v using Value.induction with
  | null | bool | number | string => rfl
  | array items ih =>
      simp only [canonical, canonicalItems_eq, List.map_map]
      exact congrArg _ (List.map_congr_left ih)
  | object members ih =>
      simp only [canonical, canonicalMembers_eq]
      have kept : ∀ m ∈ sortMembers (members.map fun m => (m.1, m.2.canonical)),
          (m.1, m.2.canonical) = m := by
        intro m member
        obtain ⟨before, original, rfl⟩ := List.mem_map.mp (mem_sortMembers member)
        rw [ih before original]
      rw [(List.map_congr_left kept).trans (List.map_id' _),
        sortMembers_of_ordered (ordered_sortMembers _)]

/-- Dropping duplicates makes no value deeper. -/
theorem Value.depth_canonical_le (v : Value) : v.canonical.depth ≤ v.depth := by
  induction v using Value.induction with
  | null | bool | number | string => exact Nat.le_refl _
  | array items ih =>
      simp only [canonical, depth, canonicalItems_eq]
      refine Nat.succ_le_succ (itemsDepth_le_iff.mpr fun w member => ?_)
      obtain ⟨v, original, rfl⟩ := List.mem_map.mp member
      exact Nat.le_trans (ih v original) (itemsDepth_le_iff.mp (Nat.le_refl _) v original)
  | object members ih =>
      simp only [canonical, depth, canonicalMembers_eq]
      refine Nat.succ_le_succ (membersDepth_le_iff.mpr fun w member => ?_)
      obtain ⟨m, original, rfl⟩ := List.mem_map.mp (mem_sortMembers member)
      exact Nat.le_trans (ih m original) (membersDepth_le_iff.mp (Nat.le_refl _) m original)

/-! ## The order of members -/

mutual

/-- The names of the members of each object in a value. -/
def Value.nameLists : Value → List (List String)
  | .array items => itemNameLists items
  | .object members => members.map (·.1) :: memberNameLists members
  | _ => []

def itemNameLists : List Value → List (List String)
  | [] => []
  | v :: rest => v.nameLists ++ itemNameLists rest

def memberNameLists : List (String × Value) → List (List String)
  | [] => []
  | (_, v) :: rest => v.nameLists ++ memberNameLists rest

end

/-- No object in a value has two members of one name. -/
def Value.DistinctNames (v : Value) : Prop := ∀ names ∈ v.nameLists, names.Nodup

instance (v : Value) : Decidable v.DistinctNames :=
  inferInstanceAs (Decidable (∀ names ∈ v.nameLists, names.Nodup))

theorem distinctNames_array {items : List Value} :
    (Value.array items).DistinctNames ↔ ∀ v ∈ items, v.DistinctNames := by
  unfold Value.DistinctNames
  rw [Value.nameLists]
  induction items with
  | nil => simp [itemNameLists]
  | cons v rest ih => rw [itemNameLists, List.forall_mem_append, List.forall_mem_cons, ih]

theorem distinctNames_object {members : List (String × Value)} :
    (Value.object members).DistinctNames ↔
      (members.map (·.1)).Nodup ∧ ∀ m ∈ members, m.2.DistinctNames := by
  have inner : (∀ names ∈ memberNameLists members, names.Nodup) ↔
      ∀ m ∈ members, m.2.DistinctNames := by
    induction members with
    | nil => simp [memberNameLists]
    | cons m rest ih =>
        rw [memberNameLists, List.forall_mem_append, List.forall_mem_cons, ih]
        rfl
  unfold Value.DistinctNames
  rw [Value.nameLists, List.forall_mem_cons, inner]
  rfl

/-- One value is the other but for the order of members, however deep. -/
inductive Value.Rearranges : Value → Value → Prop
  | refl (v : Value) : Rearranges v v
  | trans {u v w : Value} (first : Rearranges u v) (second : Rearranges v w) : Rearranges u w
  | item {v w : Value} (before after : List Value) (inner : Rearranges v w) :
      Rearranges (.array (before ++ v :: after)) (.array (before ++ w :: after))
  | member {v w : Value} (name : String) (before after : List (String × Value))
      (inner : Rearranges v w) :
      Rearranges (.object (before ++ (name, v) :: after)) (.object (before ++ (name, w) :: after))
  | order {members members' : List (String × Value)} (perm : members.Perm members') :
      Rearranges (.object members) (.object members')

namespace Value.Rearranges

theorem items {f : Value → Value} {items : List Value} (each : ∀ v ∈ items, v.Rearranges (f v))
    (before : List Value) : (array (before ++ items)).Rearranges (array (before ++ items.map f)) := by
  induction items generalizing before with
  | nil => exact refl _
  | cons v rest ih =>
      obtain ⟨first, others⟩ := List.forall_mem_cons.mp each
      have further := ih others (before ++ [f v])
      rw [List.append_assoc, List.append_assoc] at further
      exact (item before rest first).trans further

theorem members {f : Value → Value} {members : List (String × Value)}
    (each : ∀ m ∈ members, m.2.Rearranges (f m.2)) (before : List (String × Value)) :
    (object (before ++ members)).Rearranges
      (object (before ++ members.map fun m => (m.1, f m.2))) := by
  induction members generalizing before with
  | nil => exact refl _
  | cons m rest ih =>
      obtain ⟨first, others⟩ := List.forall_mem_cons.mp each
      have further := ih others (before ++ [(m.1, f m.2)])
      rw [List.append_assoc, List.append_assoc] at further
      exact (member m.1 before rest first).trans further

end Value.Rearranges

theorem perm_insertMember {name : String} (v : Value) {members : List (String × Value)}
    (fresh : name ∉ members.map (·.1)) :
    (insertMember name v members).Perm ((name, v) :: members) := by
  induction members with
  | nil => exact .refl _
  | cons first rest ih =>
      obtain ⟨n, w⟩ := first
      obtain ⟨apart, fresh⟩ := not_or.mp fun either => fresh (List.mem_cons.mpr either)
      rw [insertMember, if_neg fun same => apart same.symm]
      split
      · exact .refl _
      · exact ((ih fresh).cons _).trans (.swap _ _ _)

/-- Sorting members of distinct names drops none. -/
theorem perm_sortMembers {members : List (String × Value)}
    (distinct : (members.map (·.1)).Nodup) : (sortMembers members).Perm members := by
  have inserted : ∀ sorted : List (String × Value), ((sorted ++ members).map (·.1)).Nodup →
      (members.foldl (fun sorted m => insertMember m.1 m.2 sorted) sorted).Perm
        (sorted ++ members) := by
    clear distinct
    induction members with
    | nil => exact fun sorted _ => .of_eq (List.append_nil sorted).symm
    | cons m rest ih =>
        intro sorted distinct
        have moved : (sorted ++ m :: rest).Perm (m :: sorted ++ rest) := List.perm_middle
        have names := (moved.map (·.1)).nodup_iff.mp distinct
        have fresh : m.1 ∉ sorted.map (·.1) := by
          intro member
          obtain ⟨n, inside, same⟩ := List.mem_map.mp member
          exact (List.nodup_cons.mp names).1
            (List.mem_map.mpr ⟨n, List.mem_append_left _ inside, same⟩)
        have placed := perm_insertMember m.2 fresh
        have same : (insertMember m.1 m.2 sorted ++ rest).Perm (m :: sorted ++ rest) :=
          placed.append_right rest
        exact (ih _ ((same.map (·.1)).nodup_iff.mpr names)).trans (same.trans moved.symm)
  exact inserted [] distinct

/-- **The canonical form is the value in another order**, where no object has two members of one
name. -/
theorem Value.rearranges_canonical (v : Value) (distinct : v.DistinctNames) :
    v.Rearranges v.canonical := by
  induction v using Value.induction with
  | null | bool | number | string => exact .refl _
  | array items ih =>
      rw [canonical, canonicalItems_eq]
      have each := distinctNames_array.mp distinct
      exact Rearranges.items (fun v member => ih v member (each v member)) []
  | object members ih =>
      rw [canonical, canonicalMembers_eq]
      obtain ⟨names, each⟩ := distinctNames_object.mp distinct
      refine (Rearranges.members (fun m member => ih m member (each m member)) []).trans ?_
      have same : (members.map fun m => (m.1, m.2.canonical)).map (·.1) = members.map (·.1) :=
        List.map_map.trans rfl
      exact .order (perm_sortMembers (same ▸ names)).symm

end Dispatch.Json
