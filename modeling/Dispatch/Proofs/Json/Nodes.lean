import Dispatch.Json.Node
import Dispatch.Proofs.Json.Tokens
import Mathlib.Data.List.Forall2

/-!
# Written values read back

`Shows v node` says that `node` is the tree of `v`, unbroken. From the lexemes of a value `read`
makes such a tree (`read_lexemes`), two units of fuel for each token being enough, so the document
of a printed value shows that value (`ofText_scanned`, `ofText_print`). A tree that shows a value is
read as that value if it is not nested too deep, and refused for its depth otherwise
(`Shows.readAs`). Whatever is read as a free-form value is within the depth and canonical
(`valueOfText?_eq_ok`).
-/

set_option autoImplicit false

namespace Dispatch.Json

mutual

/-- The tree of a value, wherever in a text it stands. -/
inductive Shows : Value → Node → Prop
  | null : Shows .null .null
  | bool (b : Bool) : Shows (.bool b) (.bool b)
  | number (n : Number) : Shows (.number n) (.number (.ok n))
  | string (s : String) : Shows (.string s) (.string (.ok s))
  | array {items : List Value} {nodes : List Node} (left : Nat) (each : ShowsItems items nodes) :
      Shows (.array items) (.array left nodes .closed)
  | object {members : List (String × Value)} {nodes : List (Except FlawAt String × Node)}
      (left : Nat) (each : ShowsMembers members nodes) :
      Shows (.object members) (.object left nodes .closed)

inductive ShowsItems : List Value → List Node → Prop
  | nil : ShowsItems [] []
  | cons {v : Value} {node : Node} {items : List Value} {nodes : List Node} (first : Shows v node)
      (others : ShowsItems items nodes) : ShowsItems (v :: items) (node :: nodes)

inductive ShowsMembers : List (String × Value) → List (Except FlawAt String × Node) → Prop
  | nil : ShowsMembers [] []
  | cons {name : String} {v : Value} {node : Node} {members : List (String × Value)}
      {nodes : List (Except FlawAt String × Node)} (first : Shows v node)
      (others : ShowsMembers members nodes) :
      ShowsMembers ((name, v) :: members) ((.ok name, node) :: nodes)

end

/-- A member that shows a name and a value. -/
def ShowsMember (m : String × Value) (n : Except FlawAt String × Node) : Prop :=
  n.1 = .ok m.1 ∧ Shows m.2 n.2

theorem ShowsMember.named {m : String × Value} {n : Except FlawAt String × Node}
    (shown : ShowsMember m n) : n.1 = .ok m.1 := shown.1

/-- Members are shown one by one. -/
theorem showsMembers_iff {members : List (String × Value)}
    {nodes : List (Except FlawAt String × Node)} :
    ShowsMembers members nodes ↔ List.Forall₂ ShowsMember members nodes := by
  induction members generalizing nodes with
  | nil =>
      constructor
      · rintro ⟨⟩
        exact .nil
      · rintro ⟨⟩
        exact .nil
  | cons m members ih =>
      constructor
      · rintro (_ | ⟨first, others⟩)
        exact .cons ⟨rfl, first⟩ (ih.mp others)
      · rintro (_ | @⟨_, ⟨_, node⟩, _, _, ⟨rfl, first⟩, others⟩)
        exact .cons first (ih.mpr others)

section Pointwise

variable {α β : Type} {related : α → β → Prop} {as : List α} {bs : List β}

theorem exists_of_mem_right (each : List.Forall₂ related as bs) :
    ∀ b ∈ bs, ∃ a ∈ as, related a b := by
  induction each with
  | nil => exact fun b member => absurd member List.not_mem_nil
  | @cons a b as bs first _ ih =>
      refine List.forall_mem_cons.mpr ⟨⟨a, List.mem_cons_self, first⟩, fun b member => ?_⟩
      obtain ⟨a, inside, here⟩ := ih b member
      exact ⟨a, List.mem_cons_of_mem _ inside, here⟩

theorem exists_of_mem_left (each : List.Forall₂ related as bs) :
    ∀ a ∈ as, ∃ b ∈ bs, related a b := exists_of_mem_right each.flip

theorem forall₂_append {as' : List α} (each : List.Forall₂ related (as ++ as') bs) :
    ∃ first second, bs = first ++ second ∧ List.Forall₂ related as first ∧
      List.Forall₂ related as' second := by
  have first := List.forall₂_take as.length each
  have second := List.forall₂_drop as.length each
  rw [List.take_left] at first
  rw [List.drop_left] at second
  exact ⟨_, _, (List.take_append_drop as.length bs).symm, first, second⟩

theorem forall₂_comp {γ : Type} {further : β → γ → Prop} {both : α → γ → Prop} {cs : List γ}
    (compose : ∀ a b c, related a b → further b c → both a c)
    (each : List.Forall₂ related as bs) (next : List.Forall₂ further bs cs) :
    List.Forall₂ both as cs := by
  induction each generalizing cs with
  | nil =>
      cases next
      exact .nil
  | cons first _ ih =>
      obtain _ | ⟨second, others⟩ := next
      exact .cons (compose _ _ _ first second) (ih others)

end Pointwise

/-! ## From tokens -/

/-- Whatever stands behind them, these tokens are read as the tree of `v`. -/
def Spells (toks : List Token) (v : Value) : Prop :=
  ∀ fuel behind, 2 * toks.length ≤ fuel →
    ∃ node, Node.read fuel (toks ++ behind) = (node, behind) ∧ Shows v node

theorem lexemes_head (v : Value) : ∃ x more, v.lexemes = x :: more ∧ x ≠ .closeBracket := by
  cases v <;> exact ⟨_, _, rfl, nofun⟩

section Parts

variable {fuel : Nat} {first : Bool} {behind rest : List Token} {node : Node}

/-- An item and what follows it. -/
theorem readItems_of_read {toks : List Token} {v : Value}
    (spelled : toks.map (·.lexeme) = v.lexemes)
    (reads : Node.read fuel (toks ++ behind) = (node, rest)) :
    Node.readItems (fuel + 1) first (toks ++ behind) = (Node.afterItem fuel rest).cons node := by
  obtain ⟨x, more, head, notClosing⟩ := lexemes_head v
  rw [head] at spelled
  obtain ⟨t, toks, rfl, rfl, -⟩ := List.map_eq_cons_iff.mp spelled
  rw [List.cons_append] at reads ⊢
  rw [Node.readItems, reads]
  split
  · exact absurd (by assumption) notClosing
  · rfl

/-- A member and what follows it. -/
theorem readMembers_of_read {name colon : Token} {s : String} {toks : List Token}
    (isName : name.lexeme = .string (.ok s)) (isColon : colon.lexeme = .colon)
    (reads : Node.read fuel (toks ++ behind) = (node, rest)) :
    Node.readMembers (fuel + 2) first (name :: colon :: (toks ++ behind)) =
      (Node.afterMember (fuel + 1) rest).cons (.ok s, node) := by
  simp only [Node.readMembers, Node.readMember, isName, isColon, reads]

end Parts

/-- Behind an item: further items, each behind a comma, then the bracket. -/
theorem afterItem_lexemes {items : List Value}
    (each : ∀ v ∈ items, ∀ toks : List Token, toks.map (·.lexeme) = v.lexemes → Spells toks v) :
    ∀ (toks : List Token) (fuel : Nat) (behind : List Token),
      toks.map (·.lexeme) = (items.map Value.lexemes).flatMap (.comma :: ·) ++ [.closeBracket] →
      2 * toks.length ≤ fuel →
      ∃ nodes, Node.afterItem fuel (toks ++ behind) = ⟨nodes, .closed, behind⟩ ∧
        ShowsItems items nodes := by
  induction items with
  | nil =>
      intro toks fuel behind spelled enough
      obtain ⟨t, rfl, closing⟩ := List.map_eq_singleton_iff.mp spelled
      obtain _ | fuel := fuel
      · exact absurd enough (Nat.not_succ_le_zero _)
      refine ⟨[], ?_, .nil⟩
      simp only [List.cons_append, List.nil_append, Node.afterItem, closing]
      rfl
  | cons v items ih =>
      intro toks fuel behind spelled enough
      obtain ⟨first, others⟩ := List.forall_mem_cons.mp each
      rw [List.map_cons, List.flatMap_cons, List.append_assoc, List.cons_append] at spelled
      obtain ⟨comma, toks, rfl, isComma, spelled⟩ := List.map_eq_cons_iff.mp spelled
      obtain ⟨item, further, rfl, item_spelled, further_spelled⟩ :=
        List.map_eq_append_iff.mp spelled
      simp only [List.length_cons, List.length_append] at enough
      obtain _ | _ | fuel := fuel
      · omega
      · omega
      obtain ⟨node, reads, shown⟩ := first item item_spelled fuel (further ++ behind) (by omega)
      obtain ⟨nodes, after, all⟩ := ih others further fuel behind further_spelled (by omega)
      refine ⟨node :: nodes, ?_, .cons shown all⟩
      simp only [List.cons_append, List.append_assoc, Node.afterItem, isComma]
      rw [readItems_of_read item_spelled reads, after]
      rfl

/-- Behind a member: further members, each behind a comma, then the brace. -/
theorem afterMember_lexemes {members : List (String × Value)}
    (each : ∀ m ∈ members, ∀ toks : List Token,
      toks.map (·.lexeme) = m.2.lexemes → Spells toks m.2) :
    ∀ (toks : List Token) (fuel : Nat) (behind : List Token),
      toks.map (·.lexeme) =
        (members.map fun m => .string (.ok m.1) :: .colon :: m.2.lexemes).flatMap (.comma :: ·) ++
          [.closeBrace] →
      2 * toks.length ≤ fuel →
      ∃ nodes, Node.afterMember fuel (toks ++ behind) = ⟨nodes, .closed, behind⟩ ∧
        ShowsMembers members nodes := by
  induction members with
  | nil =>
      intro toks fuel behind spelled enough
      obtain ⟨t, rfl, closing⟩ := List.map_eq_singleton_iff.mp spelled
      obtain _ | fuel := fuel
      · exact absurd enough (Nat.not_succ_le_zero _)
      refine ⟨[], ?_, .nil⟩
      simp only [List.cons_append, List.nil_append, Node.afterMember, closing]
      rfl
  | cons m members ih =>
      intro toks fuel behind spelled enough
      obtain ⟨first, others⟩ := List.forall_mem_cons.mp each
      rw [List.map_cons, List.flatMap_cons, List.append_assoc, List.cons_append, List.cons_append,
        List.cons_append] at spelled
      obtain ⟨comma, toks, rfl, isComma, spelled⟩ := List.map_eq_cons_iff.mp spelled
      obtain ⟨name, toks, rfl, isName, spelled⟩ := List.map_eq_cons_iff.mp spelled
      obtain ⟨colon, toks, rfl, isColon, spelled⟩ := List.map_eq_cons_iff.mp spelled
      obtain ⟨value, further, rfl, value_spelled, further_spelled⟩ :=
        List.map_eq_append_iff.mp spelled
      simp only [List.length_cons, List.length_append] at enough
      obtain _ | _ | _ | fuel := fuel
      · omega
      · omega
      · omega
      obtain ⟨node, reads, shown⟩ := first value value_spelled fuel (further ++ behind) (by omega)
      obtain ⟨nodes, after, all⟩ := ih others further (fuel + 1) behind further_spelled (by omega)
      refine ⟨(.ok m.1, node) :: nodes, ?_, .cons shown all⟩
      simp only [List.cons_append, List.append_assoc, Node.afterMember, isComma]
      rw [readMembers_of_read isName isColon reads, after]
      rfl

/-- The items of an array from behind its opening bracket. -/
theorem readItems_lexemes {items : List Value}
    (each : ∀ v ∈ items, ∀ toks : List Token, toks.map (·.lexeme) = v.lexemes → Spells toks v)
    {toks : List Token} {fuel : Nat} (behind : List Token)
    (spelled : toks.map (·.lexeme) = separated (items.map Value.lexemes) ++ [.closeBracket])
    (enough : 2 * toks.length < fuel) :
    ∃ nodes, Node.readItems fuel true (toks ++ behind) = ⟨nodes, .closed, behind⟩ ∧
      ShowsItems items nodes := by
  cases items with
  | nil =>
      obtain ⟨t, rfl, closing⟩ := List.map_eq_singleton_iff.mp spelled
      obtain _ | fuel := fuel
      · exact absurd enough (Nat.not_lt_zero _)
      refine ⟨[], ?_, .nil⟩
      simp only [List.cons_append, List.nil_append, Node.readItems, closing]
      rfl
  | cons v items =>
      obtain ⟨first, others⟩ := List.forall_mem_cons.mp each
      rw [List.map_cons, separated, List.append_assoc] at spelled
      obtain ⟨item, further, rfl, item_spelled, further_spelled⟩ :=
        List.map_eq_append_iff.mp spelled
      rw [List.length_append] at enough
      obtain _ | fuel := fuel
      · omega
      obtain ⟨node, reads, shown⟩ := first item item_spelled fuel (further ++ behind) (by omega)
      obtain ⟨nodes, after, all⟩ :=
        afterItem_lexemes others further fuel behind further_spelled (by omega)
      refine ⟨node :: nodes, ?_, .cons shown all⟩
      rw [List.append_assoc, readItems_of_read item_spelled reads, after]
      rfl

/-- The members of an object from behind its opening brace. -/
theorem readMembers_lexemes {members : List (String × Value)}
    (each : ∀ m ∈ members, ∀ toks : List Token,
      toks.map (·.lexeme) = m.2.lexemes → Spells toks m.2)
    {toks : List Token} {fuel : Nat} (behind : List Token)
    (spelled : toks.map (·.lexeme) = separated
      (members.map fun m => .string (.ok m.1) :: .colon :: m.2.lexemes) ++ [.closeBrace])
    (enough : 2 * toks.length < fuel) :
    ∃ nodes, Node.readMembers fuel true (toks ++ behind) = ⟨nodes, .closed, behind⟩ ∧
      ShowsMembers members nodes := by
  cases members with
  | nil =>
      obtain ⟨t, rfl, closing⟩ := List.map_eq_singleton_iff.mp spelled
      obtain _ | fuel := fuel
      · exact absurd enough (Nat.not_lt_zero _)
      refine ⟨[], ?_, .nil⟩
      simp only [List.cons_append, List.nil_append, Node.readMembers, closing]
      rfl
  | cons m members =>
      obtain ⟨first, others⟩ := List.forall_mem_cons.mp each
      rw [List.map_cons, separated, List.append_assoc, List.cons_append,
        List.cons_append] at spelled
      obtain ⟨name, toks, rfl, isName, spelled⟩ := List.map_eq_cons_iff.mp spelled
      obtain ⟨colon, toks, rfl, isColon, spelled⟩ := List.map_eq_cons_iff.mp spelled
      obtain ⟨value, further, rfl, value_spelled, further_spelled⟩ :=
        List.map_eq_append_iff.mp spelled
      simp only [List.length_cons, List.length_append] at enough
      obtain _ | _ | fuel := fuel
      · omega
      · omega
      obtain ⟨node, reads, shown⟩ := first value value_spelled fuel (further ++ behind) (by omega)
      obtain ⟨nodes, after, all⟩ :=
        afterMember_lexemes others further (fuel + 1) behind further_spelled (by omega)
      refine ⟨(.ok m.1, node) :: nodes, ?_, .cons shown all⟩
      simp only [List.cons_append, List.append_assoc]
      rw [readMembers_of_read isName isColon reads, after]
      rfl

/-- A value of one token. -/
theorem spells_lone {v : Value} {node : Node} {x : Lexeme} (alone : v.lexemes = [x])
    (shown : Shows v node)
    (reads : ∀ (t : Token) (fuel : Nat) (rest : List Token), t.lexeme = x →
      Node.read (fuel + 1) (t :: rest) = (node, rest))
    (toks : List Token) (spelled : toks.map (·.lexeme) = v.lexemes) : Spells toks v := by
  intro fuel behind enough
  rw [alone] at spelled
  obtain ⟨t, rfl, token⟩ := List.map_eq_singleton_iff.mp spelled
  obtain _ | fuel := fuel
  · exact absurd enough (Nat.not_succ_le_zero _)
  exact ⟨node, reads t fuel behind token, shown⟩

/-- **The lexemes of a value are read as its tree.** -/
theorem read_lexemes (v : Value) :
    ∀ toks : List Token, toks.map (·.lexeme) = v.lexemes → Spells toks v := by
  induction v using Value.induction with
  | null =>
      refine spells_lone rfl .null fun t fuel rest token => ?_
      simp only [Node.read, token]
  | bool b =>
      refine spells_lone rfl (.bool b) fun t fuel rest token => ?_
      simp only [Node.read, token]
  | number n =>
      refine spells_lone rfl (.number n) fun t fuel rest token => ?_
      simp only [Node.read, token]
  | string s =>
      refine spells_lone rfl (.string s) fun t fuel rest token => ?_
      simp only [Node.read, token]
  | array items ih =>
      intro toks spelled fuel behind enough
      rw [Value.lexemes, itemLexemes_eq] at spelled
      obtain ⟨opening, toks, rfl, opens, spelled⟩ := List.map_eq_cons_iff.mp spelled
      rw [List.length_cons] at enough
      obtain _ | fuel := fuel
      · omega
      obtain ⟨nodes, reads, shown⟩ := readItems_lexemes ih behind spelled (by omega : _ < fuel)
      refine ⟨_, ?_, .array (opening.left - 1) shown⟩
      simp only [List.cons_append, Node.read, opens, reads]
  | object members ih =>
      intro toks spelled fuel behind enough
      rw [Value.lexemes, memberLexemes_eq] at spelled
      obtain ⟨opening, toks, rfl, opens, spelled⟩ := List.map_eq_cons_iff.mp spelled
      rw [List.length_cons] at enough
      obtain _ | fuel := fuel
      · omega
      obtain ⟨nodes, reads, shown⟩ := readMembers_lexemes ih behind spelled (by omega : _ < fuel)
      refine ⟨_, ?_, .object (opening.left - 1) shown⟩
      simp only [List.cons_append, Node.read, opens, reads]

/-- **The document of a text shows the value whose lexemes it has**, and nothing stands behind
it. -/
theorem ofText_scanned {text : Bytes} {v : Value} (part : Part text v.lexemes) :
    ∃ node, Document.ofText text = ⟨node, none⟩ ∧ Shows v node := by
  have enough : 2 * (tokens text).length ≤ 2 * (tokens text).length + 2 := by omega
  obtain ⟨node, reads, shown⟩ := read_lexemes v (tokens text) (lexemes_of_part part) _ [] enough
  rw [List.append_nil] at reads
  exact ⟨node, by rw [Document.ofText, reads], shown⟩

/-- The document of a printed value shows that value. -/
theorem ofText_print {v : Value} (integral : v.Integral) :
    ∃ node, Document.ofText v.print = ⟨node, none⟩ ∧ Shows v node :=
  ofText_scanned (scans_print integral)

/-! ## Depth -/

/-- The result is `a` where the nesting is `shallow`; otherwise it is refused for its depth. -/
structure Within {α : Type} (shallow : Prop) (a : α) (result : Except FlawAt α) : Prop where
  ok : shallow → result = .ok a
  error : ¬shallow → ∃ left, result = .error ⟨.nestingTooDeep, left⟩

namespace Within

variable {α β : Type} {p q : Prop} {a : α} {b : β} {result : Except FlawAt α}

theorem pure (a : α) : Within True a (.ok a) := ⟨fun _ => rfl, fun deep => absurd trivial deep⟩

theorem map (f : α → β) (read : Within p a result) :
    Within p (f a) (result >>= fun a => .ok (f a)) := by
  refine ⟨fun shallow => ?_, fun deep => ?_⟩
  · rw [read.ok shallow]
    rfl
  · obtain ⟨left, refused⟩ := read.error deep
    exact ⟨left, by rw [refused]; rfl⟩

theorem bind {next : α → Except FlawAt β} (read : Within p a result)
    (then_ : Within q b (next a)) : Within (p ∧ q) b (result >>= next) := by
  by_cases shallow : p
  · rw [read.ok shallow]
    exact ⟨fun both => then_.ok both.2, fun deep => then_.error fun rest => deep ⟨shallow, rest⟩⟩
  · obtain ⟨left, refused⟩ := read.error shallow
    rw [refused]
    exact ⟨fun both => absurd both.1 shallow, fun _ => ⟨left, rfl⟩⟩

theorem congr (read : Within p a result) (same : q ↔ p) : Within q a result :=
  ⟨fun shallow => read.ok (same.mp shallow), fun deep => read.error fun h => deep (same.mpr h)⟩

end Within

/-- The node is read as `v` by whoever may enter as many containers as are nested in `v`. -/
def ReadAs (node : Node) (v : Value) : Prop :=
  ∀ depth, Within (v.depth ≤ depth) v (node.value? depth)

theorem within_itemValues? {items : List Value} {nodes : List Node}
    (shown : ShowsItems items nodes)
    (each : ∀ v ∈ items, ∀ node, Shows v node → ReadAs node v) (depth : Nat) :
    Within (itemsDepth items ≤ depth) items (Node.itemValues? depth nodes) := by
  induction items generalizing nodes with
  | nil =>
      cases shown
      exact (Within.pure []).congr (iff_true_intro (Nat.zero_le depth))
  | cons v items ih =>
      obtain _ | ⟨first, others⟩ := shown
      have item := each v List.mem_cons_self _ first depth
      have rest := ih others fun w member => each w (List.mem_cons_of_mem _ member)
      exact (item.bind (rest.map (v :: ·))).congr Nat.max_le

theorem within_memberValues? {members : List (String × Value)}
    {nodes : List (Except FlawAt String × Node)} (shown : ShowsMembers members nodes)
    (each : ∀ m ∈ members, ∀ node, Shows m.2 node → ReadAs node m.2) (depth : Nat) :
    Within (membersDepth members ≤ depth) members (Node.memberValues? depth nodes) := by
  induction members generalizing nodes with
  | nil =>
      cases shown
      exact (Within.pure []).congr (iff_true_intro (Nat.zero_le depth))
  | cons m members ih =>
      obtain _ | ⟨first, others⟩ := shown
      have value := each _ List.mem_cons_self _ first depth
      have rest := ih others fun w member => each w (List.mem_cons_of_mem _ member)
      exact (value.bind (rest.map (_ :: ·))).congr Nat.max_le

/-- **A tree that shows a value is read as that value within its depth, and refused beyond it.** -/
theorem Shows.readAs {v : Value} {node : Node} (shown : Shows v node) : ReadAs node v := by
  induction v using Value.induction generalizing node with
  | null | bool | number | string =>
      intro depth
      cases shown
      exact (Within.pure _).congr (iff_true_intro (Nat.zero_le depth))
  | array items ih =>
      intro depth
      obtain _ | _ | _ | _ | ⟨left, each⟩ | _ := shown
      obtain _ | depth := depth
      · exact ⟨fun shallow => absurd shallow (Nat.not_succ_le_zero _), fun _ => ⟨left, rfl⟩⟩
      have inside := within_itemValues? each (fun v member _ => ih v member) depth
      exact (inside.map Value.array).congr Nat.add_le_add_iff_right
  | object members ih =>
      intro depth
      obtain _ | _ | _ | _ | _ | ⟨left, each⟩ := shown
      obtain _ | depth := depth
      · exact ⟨fun shallow => absurd shallow (Nat.not_succ_le_zero _), fun _ => ⟨left, rfl⟩⟩
      have inside := within_memberValues? each (fun m member _ => ih m member) depth
      exact (inside.map Value.object).congr Nat.add_le_add_iff_right

/-- A step that succeeds and the rest that succeeds with its result. -/
theorem bind_eq_ok {ε α β : Type} {step : Except ε α} {next : α → Except ε β} {b : β}
    (done : step >>= next = .ok b) : ∃ a, step = .ok a ∧ next a = .ok b := by
  cases step with
  | error f => cases done
  | ok a => exact ⟨a, rfl, done⟩

theorem map_eq_ok {ε α β : Type} {result : Except ε α} {f : α → β} {b : β}
    (done : result.map f = .ok b) : ∃ a, result = .ok a ∧ f a = b := by
  cases result with
  | error fault => cases done
  | ok a => exact ⟨a, rfl, Except.ok.inj done⟩

theorem mem_of_itemValues? {depth : Nat} {nodes : List Node} {items : List Value}
    (read : Node.itemValues? depth nodes = .ok items) :
    ∀ v ∈ items, ∃ node : Node, node.value? depth = .ok v := by
  induction nodes generalizing items with
  | nil =>
      cases read
      exact fun v member => absurd member List.not_mem_nil
  | cons node nodes ih =>
      obtain ⟨v, first, read⟩ := bind_eq_ok read
      obtain ⟨rest, others, read⟩ := bind_eq_ok read
      cases read
      exact List.forall_mem_cons.mpr ⟨⟨node, first⟩, ih others⟩

theorem mem_of_memberValues? {depth : Nat} {nodes : List (Except FlawAt String × Node)}
    {members : List (String × Value)} (read : Node.memberValues? depth nodes = .ok members) :
    ∀ m ∈ members, ∃ node : Node, node.value? depth = .ok m.2 := by
  induction nodes generalizing members with
  | nil =>
      cases read
      exact fun m member => absurd member List.not_mem_nil
  | cons node nodes ih =>
      obtain ⟨name, -, read⟩ := bind_eq_ok read
      obtain ⟨v, first, read⟩ := bind_eq_ok read
      obtain ⟨rest, others, read⟩ := bind_eq_ok read
      cases read
      exact List.forall_mem_cons.mpr ⟨⟨node.2, first⟩, ih others⟩

/-- Only an array that may be entered is read as one. -/
theorem array_of_value? {node : Node} {depth : Nat} {items : List Value}
    (read : node.value? depth = .ok (.array items)) :
    ∃ inner nodes, depth = inner + 1 ∧ Node.itemValues? inner nodes = .ok items := by
  cases node with
  | null | bool | broken => cases read
  | number v | string v => cases v <;> cases read
  | array left nodes ending =>
      obtain _ | inner := depth
      · cases read
      obtain ⟨items, inside, read⟩ := bind_eq_ok read
      obtain ⟨-, -, read⟩ := bind_eq_ok read
      cases read
      exact ⟨inner, nodes, rfl, inside⟩
  | object left members ending =>
      obtain _ | inner := depth
      · cases read
      obtain ⟨members, -, read⟩ := bind_eq_ok read
      obtain ⟨-, -, read⟩ := bind_eq_ok read
      cases read

/-- Only an object that may be entered is read as one. -/
theorem object_of_value? {node : Node} {depth : Nat} {members : List (String × Value)}
    (read : node.value? depth = .ok (.object members)) :
    ∃ inner nodes, depth = inner + 1 ∧ Node.memberValues? inner nodes = .ok members := by
  cases node with
  | null | bool | broken => cases read
  | number v | string v => cases v <;> cases read
  | array left nodes ending =>
      obtain _ | inner := depth
      · cases read
      obtain ⟨items, -, read⟩ := bind_eq_ok read
      obtain ⟨-, -, read⟩ := bind_eq_ok read
      cases read
  | object left nodes ending =>
      obtain _ | inner := depth
      · cases read
      obtain ⟨members, inside, read⟩ := bind_eq_ok read
      obtain ⟨-, -, read⟩ := bind_eq_ok read
      cases read
      exact ⟨inner, nodes, rfl, inside⟩

/-- **No free-form value is deeper than the containers that its reader may enter.** -/
theorem depth_le_of_value? {v : Value} {node : Node} {depth : Nat}
    (read : node.value? depth = .ok v) : v.depth ≤ depth := by
  induction v using Value.induction generalizing node depth with
  | null | bool | number | string => exact Nat.zero_le depth
  | array items ih =>
      obtain ⟨inner, nodes, rfl, inside⟩ := array_of_value? read
      refine Nat.succ_le_succ (itemsDepth_le_iff.mpr fun v member => ?_)
      obtain ⟨node, read⟩ := mem_of_itemValues? inside v member
      exact ih v member read
  | object members ih =>
      obtain ⟨inner, nodes, rfl, inside⟩ := object_of_value? read
      refine Nat.succ_le_succ (membersDepth_le_iff.mpr fun m member => ?_)
      obtain ⟨node, read⟩ := mem_of_memberValues? inside m member
      exact ih m member read

/-- **A printed value is read in its canonical form, or refused for its depth.** -/
theorem within_valueOfText?_print {v : Value} (integral : v.Integral) :
    Within (v.depth ≤ deepest) v.canonical (valueOfText? v.print) := by
  obtain ⟨node, document, shown⟩ := ofText_print integral
  have read : valueOfText? v.print =
      node.value? deepest >>= fun v => (.ok v.canonical : Except FlawAt Value) := by
    rw [valueOfText?, document]
    rfl
  rw [read]
  exact (shown.readAs deepest).map Value.canonical

/-- **A free-form value of a text is canonical and within the depth that is kept.** -/
theorem valueOfText?_eq_ok {text : Bytes} {v : Value} (read : valueOfText? text = .ok v) :
    v.canonical = v ∧ v.depth ≤ deepest := by
  obtain ⟨whole, root, read⟩ := bind_eq_ok read
  split at read
  · cases read
    exact ⟨whole.canonical_canonical,
      Nat.le_trans whole.depth_canonical_le (depth_le_of_value? root)⟩
  · cases read

end Dispatch.Json
