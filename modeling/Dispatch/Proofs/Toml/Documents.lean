import Dispatch.Proofs.Toml.Readings
import Dispatch.Proofs.Toml.Scalars

/-!
# Written documents read back

`Continues d text d' rest` says that reading goes from the draft `d` at `text` to `d'` at `rest`.
It holds of a written key, a written header and a blank line; a written section appends its keys to
an empty table (`continues_section`), and a written document is read as a tree that shows it
(`ofText?_write?`), whatever its sections and keys are called, as long as the names are bare and
apart.
-/

set_option autoImplicit false

namespace Dispatch.Toml

open Json (Shows ShowsMembers)

/-! ## Beginnings of a document -/

/-- With more fuel than there is text, reading goes on from `d` at `text` to `d'` at `rest`, where
the same holds. -/
def Continues (d : Draft) (text : List Char) (d' : Draft) (rest : List Char) : Prop :=
  ∀ fuel, text.length < fuel →
    ∃ fuel', rest.length < fuel' ∧ readLines fuel d text = readLines fuel' d' rest

theorem Continues.refl (d : Draft) (text : List Char) : Continues d text d text :=
  fun fuel enough => ⟨fuel, enough, rfl⟩

theorem Continues.trans {d₁ d₂ d₃ : Draft} {text₁ text₂ text₃ : List Char}
    (first : Continues d₁ text₁ d₂ text₂) (second : Continues d₂ text₂ d₃ text₃) :
    Continues d₁ text₁ d₃ text₃ := by
  intro fuel enough
  obtain ⟨middle, enough, before⟩ := first fuel enough
  obtain ⟨fuel', enough, after⟩ := second middle enough
  exact ⟨fuel', enough, before.trans after⟩

theorem continues_blank (d : Draft) (rest : List Char) : Continues d ('\n' :: rest) d rest := by
  intro fuel enough
  obtain _ | fuel := fuel
  · exact absurd enough (Nat.not_lt_zero _)
  · exact ⟨fuel, Nat.lt_of_succ_lt_succ enough, rfl⟩

/-! ## Keys and headers -/

/-- A name that stands for itself without quotes. -/
structure Bare (name : String) : Prop where
  filled : name.toList ≠ []
  letters : ∀ c ∈ name.toList, isBareKeyChar c = true

instance (name : String) : Decidable (Bare name) :=
  decidable_of_iff (name.toList ≠ [] ∧ name.toList.all isBareKeyChar = true)
    ⟨fun ⟨filled, letters⟩ => ⟨filled, List.all_eq_true.mp letters⟩,
      fun bare => ⟨bare.filled, List.all_eq_true.mpr bare.letters⟩⟩

theorem skipWs_eq_self {text : List Char} (head : ∀ c ∈ text.head?, isWs c = false) :
    skipWs text = text := by
  obtain _ | ⟨c, text⟩ := text
  · rfl
  · rw [skipWs, List.dropWhile_cons, head c rfl]
    rfl

theorem ne_of_bare {c : Char} (bare : isBareKeyChar c = true) (mark : Char)
    (other : isBareKeyChar mark = false) : c ≠ mark := by
  rintro rfl
  exact absurd bare (other ▸ Bool.false_ne_true)

theorem isWs_of_bare {c : Char} (bare : isBareKeyChar c = true) : isWs c = false := by
  simp only [isWs, ne_of_bare bare ' ' rfl, ne_of_bare bare '\t' rfl, decide_false, Bool.or_self]

section Bare

variable {name : String} {c : Char} {rest : List Char}

theorem Bare.exists_cons (bare : Bare name) :
    ∃ k ks, name.toList = k :: ks ∧ isBareKeyChar k = true := by
  rcases cons : name.toList with _ | ⟨k, ks⟩
  · exact absurd cons bare.filled
  · exact ⟨k, ks, rfl, bare.letters k (cons ▸ List.mem_cons_self)⟩

theorem readSimpleKey_bare (bare : Bare name) (ends : isBareKeyChar c = false) :
    readSimpleKey (name.toList ++ c :: rest) = some (name, c :: rest) := by
  have before : (name.toList ++ c :: rest).takeWhile isBareKeyChar = name.toList := by
    rw [List.takeWhile_append_of_pos bare.letters, List.takeWhile_cons, ends]
    exact List.append_nil _
  have behind : (name.toList ++ c :: rest).dropWhile isBareKeyChar = c :: rest := by
    rw [List.dropWhile_append_of_pos bare.letters, List.dropWhile_cons, ends]
    rfl
  have plain : readSimpleKey (name.toList ++ c :: rest) =
      if name.toList.isEmpty then none
        else some (String.ofList name.toList, c :: rest) := by
    obtain ⟨k, ks, cons, first⟩ := bare.exists_cons
    unfold readSimpleKey
    split
    · rename_i quoted
      rw [cons] at quoted
      exact absurd (List.cons.inj quoted).1 (ne_of_bare first _ rfl)
    · rename_i quoted
      rw [cons] at quoted
      exact absurd (List.cons.inj quoted).1 (ne_of_bare first _ rfl)
    · rw [before, behind]
  rw [plain, if_neg (by simp [bare.filled]), String.ofList_toList]

/-- A bare name is read up to a character that is not part of it. -/
theorem readKey_bare (bare : Bare name) (ends : isBareKeyChar c = false)
    (apart : (skipWs (c :: rest)).head? ≠ some '.') :
    readKey (name.toList ++ c :: rest) = some (([], name), skipWs (c :: rest)) := by
  have start : skipWs (name.toList ++ c :: rest) = name.toList ++ c :: rest := by
    obtain ⟨k, ks, cons, first⟩ := bare.exists_cons
    refine skipWs_eq_self ?_
    rw [cons]
    rintro _ ⟨⟩
    exact isWs_of_bare first
  have parts : readKeyParts (nestingLimit - 1) (name.toList ++ c :: rest) =
      some ([name], skipWs (c :: rest)) := by
    show readKeyParts (78 + 1) _ = _
    rw [readKeyParts, start, readSimpleKey_bare bare ends, Option.bind_eq_bind, Option.bind_some]
    dsimp only
    split
    · rename_i point
      rw [point] at apart
      exact absurd rfl apart
    · rfl
  rw [readKey, parts]
  rfl

theorem put_of_fresh {entries : Entries} (fresh : Table.get? name entries = none) (t : Value) :
    entries.put [] name t = some (entries ++ [(name, .value t)]) := by
  show Entries.add false name t .header entries = _
  rw [Entries.add, fresh, Table.set_of_fresh fresh]
  rfl

/-- **A written key is read**, and goes to the end of the current table. -/
theorem continues_key (bare : Bare name) {v : Json.Value} {text : List Char}
    {t : Value} (legible : Legible v text t) {root current : Entries} (header : Option Header)
    (fresh : Table.get? name current = none) (rest : List Char) :
    Continues ⟨root, header, current⟩ (name.toList ++ [' ', '=', ' '] ++ text ++ '\n' :: rest)
      ⟨root, header, current ++ [(name, .value t)]⟩ rest := by
  intro fuel enough
  obtain _ | fuel := fuel
  · exact absurd enough (Nat.not_lt_zero _)
  refine ⟨fuel, ?_, ?_⟩
  · simp only [List.length_append, List.length_cons] at enough
    omega
  have line : name.toList ++ [' ', '=', ' '] ++ text ++ '\n' :: rest =
      name.toList ++ ' ' :: '=' :: ' ' :: (text ++ '\n' :: rest) := by
    simp only [List.append_assoc, List.cons_append, List.nil_append]
  have key : readKey (name.toList ++ ' ' :: '=' :: ' ' :: (text ++ '\n' :: rest)) =
      some (([], name), '=' :: ' ' :: (text ++ '\n' :: rest)) :=
    readKey_bare bare rfl fun same =>
      absurd (Option.some.inj (show some '=' = some '.' from same)) (by decide)
  have value : skipWs (' ' :: (text ++ '\n' :: rest)) = text ++ '\n' :: rest := by
    show skipWs (text ++ '\n' :: rest) = _
    refine skipWs_eq_self ?_
    obtain _ | ⟨c, text⟩ := text
    · rintro _ ⟨⟩
      rfl
    · exact legible.head
  obtain ⟨k, ks, cons, first⟩ := bare.exists_cons
  have start : skipWs (name.toList ++ ' ' :: '=' :: ' ' :: (text ++ '\n' :: rest)) =
      k :: (ks ++ ' ' :: '=' :: ' ' :: (text ++ '\n' :: rest)) := by
    rw [cons]
    refine skipWs_eq_self ?_
    rintro _ ⟨⟩
    exact isWs_of_bare first
  rw [cons] at key
  rw [line, readLines, start]
  simp only [ne_of_bare first '#' rfl, ne_of_bare first '\n' rfl, ne_of_bare first '\r' rfl,
    ne_of_bare first '[' rfl, decide_false, Bool.or_self, Bool.false_eq_true, if_false]
  show (readKey (k :: ks ++ ' ' :: '=' :: ' ' :: (text ++ '\n' :: rest)) >>= _) = _
  rw [key]
  show (readValue (2 * (skipWs (' ' :: (text ++ '\n' :: rest))).length + 1 + 1) _
    (skipWs (' ' :: (text ++ '\n' :: rest))) >>= _) = _
  rw [value, legible.reads]
  show (Entries.put current [] name t >>= _) >>= _ = _
  rw [put_of_fresh fresh]
  rfl

theorem openTable_of_fresh {d : Draft} {root : Entries} (finished : d.finish = some root)
    (fresh : Table.get? name root = none) :
    d.openTable ⟨[], name, false⟩ = some ⟨root, some ⟨[], name, false⟩, []⟩ := by
  have reopened : Draft.reopen? [] name root = some [] := by
    rw [Draft.reopen?, fresh]
  have taken : Entries.change .path [] (Draft.takeOut name) .header root = some root := by
    show some (Table.erase name root) = some root
    rw [Table.erase_of_fresh fresh]
  rw [Draft.openTable, finished]
  show (Draft.reopen? [] name root >>= _) = _
  rw [reopened, Option.bind_eq_bind, Option.bind_some]
  show (Entries.change .path [] (Draft.takeOut name) .header root >>= _) = _
  rw [taken]
  rfl

/-- **A written header is read**, and opens an empty table. -/
theorem continues_header (bare : Bare name) {d : Draft} {root : Entries}
    (finished : d.finish = some root) (fresh : Table.get? name root = none) (rest : List Char) :
    Continues d ('[' :: (name.toList ++ [']', '\n'] ++ rest)) ⟨root, some ⟨[], name, false⟩, []⟩
      rest := by
  intro fuel enough
  obtain _ | fuel := fuel
  · exact absurd enough (Nat.not_lt_zero _)
  refine ⟨fuel, ?_, ?_⟩
  · simp only [List.length_append, List.length_cons] at enough
    omega
  have line : name.toList ++ [']', '\n'] ++ rest = name.toList ++ ']' :: '\n' :: rest := by
    simp only [List.append_assoc, List.cons_append, List.nil_append]
  have key : readKey (name.toList ++ ']' :: '\n' :: rest) =
      some (([], name), ']' :: '\n' :: rest) :=
    readKey_bare bare rfl fun same =>
      absurd (Option.some.inj (show some ']' = some '.' from same)) (by decide)
  have header : readHeader ('[' :: (name.toList ++ ']' :: '\n' :: rest)) =
      some (⟨[], name, false⟩, '\n' :: rest) := by
    unfold readHeader
    split
    · rename_i repeated
      obtain ⟨k, ks, cons, first⟩ := bare.exists_cons
      rw [cons] at repeated
      exact absurd (List.cons.inj (List.cons.inj repeated).2).1 (ne_of_bare first _ rfl)
    · rename_i single
      obtain ⟨-, rfl⟩ := List.cons.inj single
      rw [key]
      rfl
    · rename_i other
      exact absurd rfl (other _)
  rw [line]
  show (readHeader ('[' :: (name.toList ++ ']' :: '\n' :: rest)) >>= _) = _
  rw [header]
  show (d.openTable ⟨[], name, false⟩ >>= _) = _
  rw [openTable_of_fresh finished fresh]
  rfl

end Bare

/-! ## Sections -/

/-- A value that has a text behind the equals sign of a key. -/
def HasText (v : Json.Value) : Prop := ∃ text t, Legible v text t

/-- Bare names, all of them different. -/
structure Titles (names : List String) : Prop where
  bare : ∀ name ∈ names, Bare name
  distinct : names.Nodup

instance (names : List String) : Decidable (Titles names) :=
  decidable_of_iff ((∀ name ∈ names, Bare name) ∧ names.Nodup)
    ⟨fun ⟨bare, distinct⟩ => ⟨bare, distinct⟩, fun titles => ⟨titles.bare, titles.distinct⟩⟩

/-- An object whose members have bare names and values of one form. -/
inductive ObjectOf (form : Json.Value → Prop) : Json.Value → Prop
  | intro {members : List (String × Json.Value)} (titles : Titles (members.map (·.1)))
      (each : ∀ m ∈ members, form m.2) : ObjectOf form (.object members)

/-- **Written keys are read** as entries behind those that were there. -/
theorem continues_keys {members : List (String × Json.Value)}
    (bare : ∀ m ∈ members, Bare m.1) (each : ∀ m ∈ members, HasText m.2) :
    ∃ lines entries, writeKeys? members = some lines ∧
      ShowsMembers members (memberNodes (freezeEntries entries)) ∧
      ∀ root header (current : Entries) rest,
        (current.map (·.1) ++ members.map (·.1)).Nodup →
          Continues ⟨root, header, current⟩ (lines ++ rest) ⟨root, header, current ++ entries⟩
            rest := by
  induction members with
  | nil =>
      refine ⟨[], [], rfl, .nil, fun root header current rest _ => ?_⟩
      rw [List.append_nil]
      exact .refl _ _
  | cons m members ih =>
      obtain ⟨name, v⟩ := m
      obtain ⟨own, others⟩ := List.forall_mem_cons.mp bare
      obtain ⟨⟨text, t, legible⟩, further⟩ := List.forall_mem_cons.mp each
      obtain ⟨lines, entries, written, shown, continues⟩ := ih others further
      refine ⟨name.toList ++ [' ', '=', ' '] ++ text ++ '\n' :: lines, (name, .value t) :: entries,
        ?_, .cons legible.shows shown, fun root header current rest distinct => ?_⟩
      · rw [writeKeys?, legible.written, written]
        rfl
      · have fresh : Table.get? name current = none := by
          rw [Table.get?_eq_none_iff]
          intro member
          exact (List.nodup_append.mp distinct).2.2 name member name List.mem_cons_self rfl
        have first : Continues ⟨root, header, current⟩ _ _ _ :=
          continues_key own legible header fresh (lines ++ rest)
        have later := continues root header (current ++ [(name, .value t)]) rest (by
          simpa using distinct)
        rw [List.append_assoc, List.singleton_append] at later
        rw [List.append_assoc]
        exact first.trans later

/-- **A written section is read** as a table of its own. -/
theorem continues_section {name : String} (bare : Bare name) {v : Json.Value}
    (form : ObjectOf HasText v) :
    ∃ text entries, writeSection? name v = some text ∧
      Shows v (Value.table (freezeEntries entries)).node ∧
      ∀ {d : Draft} {root : Entries}, d.finish = some root → Table.get? name root = none →
        ∀ rest, Continues d (text ++ rest) ⟨root, some ⟨[], name, false⟩, entries⟩ rest := by
  obtain @⟨members, titles, each⟩ := form
  have own : ∀ m ∈ members, Bare m.1 := fun m member =>
    titles.bare m.1 (List.mem_map_of_mem member)
  obtain ⟨lines, entries, written, shown, continues⟩ := continues_keys own each
  refine ⟨'[' :: (name.toList ++ [']', '\n'] ++ lines), entries, ?_, .object 0 shown,
    fun {d root} finished fresh rest => ?_⟩
  · rw [writeSection?, written]
    rfl
  · have header := continues_header bare finished fresh (lines ++ rest)
    have keys := continues root (some ⟨[], name, false⟩) [] rest titles.distinct
    rw [List.cons_append, List.append_assoc]
    exact header.trans keys

/-- A section that is read to its end stands behind those before it. -/
theorem finish_section {root : Entries} {name : String} (fresh : Table.get? name root = none)
    (entries : Entries) :
    Draft.finish ⟨root, some ⟨[], name, false⟩, entries⟩ =
      some (root ++ [(name, .table .header entries)]) := by
  show some (Table.set name _ root) = _
  rw [Table.set_of_fresh fresh]

theorem freeze_append (root : Entries) (name : String) (entries : Entries) :
    Entries.freeze (root ++ [(name, .table .header entries)]) =
      root.freeze ++ [(name, .table (freezeEntries entries))] := by
  rw [Entries.freeze, Entries.freeze, freezeEntries_eq, freezeEntries_eq, List.map_append]
  rfl

/-- **Written sections are read** as tables behind those that were there. -/
theorem continues_sections {sections : List (String × Json.Value)}
    (bare : ∀ m ∈ sections, Bare m.1) (each : ∀ m ∈ sections, ObjectOf HasText m.2) :
    ∃ text tables, writeSections? sections = some text ∧
      ShowsMembers sections (memberNodes tables) ∧
      ∀ {d : Draft} {root : Entries}, d.finish = some root →
        (root.map (·.1) ++ sections.map (·.1)).Nodup →
          ∃ d' after, Continues d text d' [] ∧ d'.finish = some after ∧
            after.freeze = root.freeze ++ tables := by
  induction sections with
  | nil =>
      refine ⟨[], [], rfl, .nil, fun {d root} finished _ => ⟨d, root, .refl d [], finished, ?_⟩⟩
      rw [List.append_nil]
  | cons m sections ih =>
      obtain ⟨name, v⟩ := m
      obtain ⟨own, others⟩ := List.forall_mem_cons.mp bare
      obtain ⟨form, further⟩ := List.forall_mem_cons.mp each
      obtain ⟨first, entries, written, shown, start⟩ := continues_section own form
      obtain ⟨text, tables, rest, following, continues⟩ := ih others further
      -- only between two sections there is a blank line
      have joined : ∃ gap, writeSections? ((name, v) :: sections) = some (first ++ (gap ++ text)) ∧
          ∀ d, Continues d (gap ++ text) d text := by
        obtain _ | ⟨second, sections⟩ := sections
        · obtain rfl := Option.some.inj rest
          refine ⟨[], ?_, fun d => .refl d []⟩
          rw [writeSections?, written, List.append_nil, List.append_nil]
        · refine ⟨['\n'], ?_, fun d => continues_blank d text⟩
          rw [writeSections?, written, rest]
          · rfl
          · exact List.cons_ne_nil _ _
      obtain ⟨gap, whole, between⟩ := joined
      refine ⟨_, (name, .table (freezeEntries entries)) :: tables, whole, .cons shown following,
        fun {d root} finished distinct => ?_⟩
      have fresh : Table.get? name root = none := by
        rw [Table.get?_eq_none_iff]
        intro member
        exact (List.nodup_append.mp distinct).2.2 name member name List.mem_cons_self rfl
      have remaining : ((root ++ [(name, Entry.table .header entries)]).map (·.1) ++
          sections.map (·.1)).Nodup := by
        simpa using distinct
      obtain ⟨d', after, read, closed, frozen⟩ :=
        continues (finish_section fresh entries) remaining
      refine ⟨d', after, (start finished fresh _).trans ((between _).trans read), closed, ?_⟩
      rw [frozen, freeze_append, List.append_assoc]
      rfl

theorem head?_writeSection? {name : String} {v : Json.Value} {text : List Char}
    (written : writeSection? name v = some text) : text.head? = some '[' := by
  cases v with
  | object members =>
      obtain ⟨lines, -, rfl⟩ := Option.map_eq_some_iff.mp written
      rfl
  | null | bool | number | string | array => cases written

/-- A written document starts with a bracket, if with anything. -/
theorem dropMark_writeSections? {sections : List (String × Json.Value)} {text : List Char}
    (written : writeSections? sections = some text) : dropMark text = text := by
  have bracket {first : List Char} (head : first.head? = some '[') (more : List Char) :
      dropMark (first ++ more) = first ++ more := by
    obtain _ | ⟨c, first⟩ := first
    · cases head
    · cases head
      rfl
  obtain _ | ⟨⟨name, v⟩, _ | ⟨second, sections⟩⟩ := sections
  · cases written
    rfl
  · have head := head?_writeSection? written
    rw [← List.append_nil text]
    exact bracket head []
  · rw [writeSections?.eq_def] at written
    obtain ⟨first, start, written⟩ := Option.bind_eq_some_iff.mp written
    obtain ⟨others, -, whole⟩ := Option.bind_eq_some_iff.mp written
    obtain rfl := Option.some.inj whole
    exact bracket (head?_writeSection? start) _

/-- **A written document is read as a tree that shows it.** -/
theorem ofText?_write? {v : Json.Value} (form : ObjectOf (ObjectOf HasText) v) :
    ∃ text members, write? v = some text ∧ Document.ofText? text = some members ∧
      Shows v (.object 0 (memberNodes members) .closed) := by
  obtain @⟨sections, titles, each⟩ := form
  have own : ∀ m ∈ sections, Bare m.1 := fun m member =>
    titles.bare m.1 (List.mem_map_of_mem member)
  obtain ⟨text, tables, written, shown, continues⟩ := continues_sections own each
  obtain ⟨d, root, read, finished, frozen⟩ := continues (d := .empty) rfl titles.distinct
  refine ⟨text, tables, written, ?_, .object 0 shown⟩
  obtain ⟨fuel, enough, lines⟩ := read (text.length + 1) (Nat.lt_succ_self _)
  obtain _ | fuel := fuel
  · exact absurd enough (Nat.not_lt_zero _)
  rw [Document.ofText?, dropMark_writeSections? written, lines]
  show (d.finish >>= _) = _
  rw [finished]
  exact congrArg some frozen

end Dispatch.Toml
