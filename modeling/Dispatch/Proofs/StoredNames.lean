import Dispatch.Store
import Dispatch.Proofs.Json.Records

/-!
# Names under which actions are stored

An action's record is read as it was written (`Action.decode_encode`), so a store that was filled
by `put` alone holds under each key the record of an action with that key (`Filled`). Keys are the
texts of qualified names, and two different names have one text exactly where a slash may be taken
for the divider in two places (`QualifiedName.text_eq_text_iff`). All other names are kept apart
(`names_apart`); two that share a text share one record (`taken_for_another`).
-/

set_option autoImplicit false

namespace Dispatch

open Json (Codec Scope)

/-! ## The texts of names -/

namespace QualifiedName

/-- The text of `n` is also that of `m`, divided at a later slash. -/
def DividesBefore (n m : QualifiedName) : Prop :=
  ∃ middle, m.space = n.space ++ "/" ++ middle ∧ n.name = middle ++ "/" ++ m.name

theorem toList_text (n : QualifiedName) :
    n.text.toList = n.space.toList ++ '/' :: n.name.toList := by
  rw [text, String.toList_append, String.toList_append, List.append_assoc]
  rfl

/-- Where the divider stands is all that a text leaves open. -/
theorem text_eq_text_iff {n m : QualifiedName} :
    n.text = m.text ↔ n = m ∨ n.DividesBefore m ∨ m.DividesBefore n := by
  have later : ∀ {n m : QualifiedName} {middle : List Char},
      m.space.toList = n.space.toList ++ middle →
        '/' :: n.name.toList = middle ++ '/' :: m.name.toList → n = m ∨ n.DividesBefore m := by
    intro n m middle spaces names
    obtain _ | ⟨slash, middle⟩ := middle
    · rw [List.append_nil] at spaces
      obtain ⟨-, names⟩ := List.cons.inj names
      obtain ⟨space, name⟩ := n
      obtain ⟨space', name'⟩ := m
      obtain rfl : space' = space := String.toList_inj.mp spaces
      obtain rfl : name = name' := String.toList_inj.mp names
      exact .inl rfl
    · obtain ⟨rfl, names⟩ := List.cons.inj names
      refine .inr ⟨String.ofList middle, ?_, ?_⟩
      · rw [← String.toList_inj]
        simpa using spaces
      · rw [← String.toList_inj]
        simpa using names
  constructor
  · intro same
    have letters := congrArg String.toList same
    rw [toList_text, toList_text] at letters
    rcases List.append_eq_append_iff.mp letters with
      ⟨middle, spaces, names⟩ | ⟨middle, spaces, names⟩
    · exact (later spaces names).imp_right .inl
    · exact (later spaces names).imp Eq.symm .inr
  · rintro (rfl | ⟨middle, space, name⟩ | ⟨middle, space, name⟩)
    · rfl
    · rw [text, text, space, name]
      simp only [String.append_assoc]
    · rw [text, text, space, name]
      simp only [String.append_assoc]

/-- A text that can be divided in two places has a slash in one of the namespaces. -/
theorem DividesBefore.slash {n m : QualifiedName} (divides : n.DividesBefore m) :
    '/' ∈ m.space.toList := by
  obtain ⟨middle, space, -⟩ := divides
  rw [space]
  simp

end QualifiedName

/-! ## Records of actions -/

namespace Exec

/-- The member that goes with a pool is read from what was kept. -/
theorem readKept_member (pool : Pool) (s : String) :
    readKept pool (Json.Node.ofValue (.object [((fieldFor pool).1, .string s)])) =
      .ok (ofPool pool s) := by
  cases pool <;> rfl

theorem exists_eq_ofPool (e : Exec) : ∃ pool s, e = ofPool pool s := by
  cases e with
  | managed kind => exact ⟨.managed, kind, rfl⟩
  | blackbox image => exact ⟨.blackbox, image, rfl⟩

theorem write_ofPool (pool : Pool) (s : String) :
    codec.write (ofPool pool s) =
      .object [(tag, .string pool.name), ((fieldFor pool).1, .string s)] := by
  cases pool <;> rfl

theorem echoes {scope : Scope} (room : 0 < scope.depth) (e : Exec) :
    codec.Echoes scope e (.ok e) := by
  obtain ⟨pool, s, rfl⟩ := e.exists_eq_ofPool
  constructor
  case integral =>
    rw [write_ofPool]
    exact fun n member => absurd member List.not_mem_nil
  case reads =>
    intro node shown
    rw [write_ofPool] at shown
    obtain _ | _ | _ | _ | _ | ⟨left, each⟩ := shown
    obtain _ | ⟨⟨⟩, each⟩ := each
    obtain _ | ⟨⟨⟩, ⟨⟩⟩ := each
    show (scope.enter >>= _) = _
    rw [Scope.enter_of_pos room]
    -- the tag comes first, so the other member is kept as a value and read last
    cases pool with
    | managed => exact readKept_member .managed s
    | blackbox => exact readKept_member .blackbox s

end Exec

theorem ActionLimits.echoes {scope : Scope} (room : 0 < scope.depth) (l : ActionLimits) :
    codec.Echoes scope l (.ok l) :=
  Codec.echoes_record (Scope.enter_of_pos room) (by decide)
    (.cons rfl (Codec.echoes_word64Named "u64" l.memory)
      (.cons rfl (Codec.echoes_word64Named "u64" l.timeoutMillis) .nil)) rfl

/-- **An action's record is read as it was written.** -/
theorem Action.decode_encode (a : Action) : codec.decode (codec.encode a) = .ok a :=
  Codec.decode_encode (Codec.echoes_record rfl (by decide)
    (.cons rfl (Codec.echoes_string a.space) (.cons rfl (Codec.echoes_string a.name)
      (.cons rfl (Exec.echoes (by decide) a.exec)
        (.cons rfl (ActionLimits.echoes (by decide) a.limits)
          (.cons rfl (Codec.echoes_word64Named "u64" a.updatedAt) .nil))))) rfl)

/-! ## Stores filled by `put` -/

namespace Store

/-- What is done to a store over time. -/
inductive Act where
  | put (a : Action)
  /-- The platform starts again with these bounds. -/
  | reopen (bounds : LimitBounds)

/-- A put that is refused changes nothing. -/
def step (s : Store) : Act → Store
  | .put a =>
    match s.put a with
    | .ok after => after
    | .error _ => s
  | .reopen bounds => s.reopen bounds

def run (s : Store) (acts : List Act) : Store := acts.foldl step s

/-- Under each key is the record of an action with that key. -/
def Filled (s : Store) : Prop :=
  ∀ key text, Table.get? key s.records = some text →
    ∃ a : Action, a.key = key ∧ text = Action.codec.encode a

theorem step_put (s : Store) (a : Action) :
    s.step (.put a) = s ∨ s.step (.put a) = s.writeRaw a.key (Action.codec.encode a) := by
  cases fault : s.bounds.fault? a.limits with
  | some f =>
      refine .inl ?_
      simp only [step, put, fault]
  | none =>
      refine .inr ?_
      simp only [step, put, fault]

/-- **A put leaves every other key as it was.** -/
theorem find_step_put {s : Store} {a : Action} {key : String} (apart : a.key ≠ key) :
    (s.step (.put a)).find key = s.find key := by
  rcases s.step_put a with same | written
  · rw [same]
  · rw [written, find, find, writeRaw]
    simp only [Table.get?_set, if_neg apart]

/-- **An action that was put is got by every name with its key.** -/
theorem get_of_put {s after : Store} {a : Action} {name : QualifiedName}
    (stored : s.put a = .ok after) (delivers : Table.get? a.key s.outages = none)
    (same : a.key = name.text) : after.get name = .ok a := by
  unfold put at stored
  split at stored
  · cases stored
  · cases stored
    rw [same] at delivers
    have found : (s.writeRaw a.key (Action.codec.encode a)).find name.text = .ok (some a) := by
      simp only [find, writeRaw, delivers, Table.get?_set, if_pos same, Action.decode_encode]
    rw [get, found]
    rfl

theorem filled_step {s : Store} (filled : s.Filled) (act : Act) : (s.step act).Filled := by
  cases act with
  | reopen bounds => exact filled
  | put a =>
      rcases s.step_put a with same | written
      · rw [same]
        exact filled
      · rw [written]
        intro key text found
        rw [writeRaw, Table.get?_set] at found
        split at found
        · rename_i own
          exact ⟨a, own, (Option.some.inj found).symm⟩
        · exact filled key text found

theorem filled_run {s : Store} (filled : s.Filled) (acts : List Act) : (s.run acts).Filled := by
  induction acts generalizing s with
  | nil => exact filled
  | cons act acts ih => exact ih (filled_step filled act)

/-- What is found in such a store was put there under the key that was asked for. -/
theorem key_of_find {s : Store} (filled : s.Filled) {key : String} {a : Action}
    (found : s.find key = .ok (some a)) : a.key = key := by
  unfold find at found
  split at found
  · cases found
  · split at found
    · cases found
    · rename_i text record
      obtain ⟨b, own, rfl⟩ := filled key text record
      rw [Action.decode_encode] at found
      cases found
      exact own

theorem find_of_get {s : Store} {name : QualifiedName} {a : Action} (got : s.get name = .ok a) :
    s.find name.text = .ok (some a) := by
  obtain ⟨found, find, got⟩ := Json.bind_eq_ok got
  cases found with
  | none => cases got
  | some b =>
      cases got
      exact find

/-- **Names are kept apart unless their texts are the same.** Storing an action changes what is got
by a name only if it has that name or one with the same text, and then the action is what is got.
Whatever is got by a name from a store that was filled by puts has that name or one with the same
text. Two names have the same text only if a slash in one of their namespaces may be taken for the
divider. -/
theorem names_apart (name : QualifiedName) :
    (∀ (s : Store) (a : Action), a.qualifiedName ≠ name → ¬a.qualifiedName.DividesBefore name →
      ¬name.DividesBefore a.qualifiedName → (s.step (.put a)).get name = s.get name) ∧
    (∀ (s after : Store) (a : Action), s.put a = .ok after →
      Table.get? a.key s.outages = none →
      a.qualifiedName = name ∨ a.qualifiedName.DividesBefore name ∨
        name.DividesBefore a.qualifiedName → after.get name = .ok a) ∧
    (∀ (bounds : LimitBounds) (outages : Table String StoreFault) (acts : List Act) (a : Action),
      (({ Store.new bounds with outages } : Store).run acts).get name = .ok a →
        a.qualifiedName = name ∨ a.qualifiedName.DividesBefore name ∨
          name.DividesBefore a.qualifiedName) ∧
    (∀ other : QualifiedName, '/' ∉ name.space.toList → '/' ∉ other.space.toList →
      ¬name.DividesBefore other ∧ ¬other.DividesBefore name) := by
  refine ⟨?_, ?_, ?_, ?_⟩
  · intro s a other before behind
    have apart : a.key ≠ name.text := by
      intro same
      rcases QualifiedName.text_eq_text_iff.mp same with equal | divides | divides
      · exact other equal
      · exact before divides
      · exact behind divides
    rw [get, get, find_step_put apart]
  · intro s after a stored delivers same
    exact get_of_put stored delivers (QualifiedName.text_eq_text_iff.mpr same)
  · intro bounds outages acts a got
    have empty : Filled { Store.new bounds with outages } := fun key text found => nomatch found
    exact QualifiedName.text_eq_text_iff.mp (key_of_find (filled_run empty acts) (find_of_get got))
  · intro other plain plain'
    exact ⟨fun divides => plain' divides.slash, fun divides => plain divides.slash⟩

/-- Of two actions in one namespace, the second leaves the first as it was and is got by its own
name; an action that is got by a name with a slash in its namespace may have that name or divide it
earlier. -/
theorem names_apart_guest :
    let first : Action := ⟨"guest", "sleep", .managed "nodejs:20", .standard, 0⟩
    let second : Action := ⟨"guest", "sleep-image", .blackbox "whisk/sleep:latest", .standard, 0⟩
    let nested : Action := ⟨"guest", "team/sleep", .managed "nodejs:20", .standard, 0⟩
    let name : QualifiedName := ⟨"guest/team", "sleep"⟩
    let s := (Store.new .standard).run [.put first, .put nested]
    (s.step (.put second)).get first.qualifiedName = s.get first.qualifiedName ∧
      (s.step (.put second)).get second.qualifiedName = .ok second ∧
      s.get name = .ok nested ∧
      (nested.qualifiedName = name ∨ nested.qualifiedName.DividesBefore name ∨
        name.DividesBefore nested.qualifiedName) := by
  intro first second nested name s
  obtain ⟨kept, -, -, plain⟩ := names_apart first.qualifiedName
  obtain ⟨before, behind⟩ := plain second.qualifiedName (by decide) (by decide)
  have added : s.put second = .ok (s.step (.put second)) := rfl
  have own := (names_apart second.qualifiedName).2.1 s _ second added rfl (.inl rfl)
  have stored : ((Store.new .standard).run [.put first]).put nested = .ok s := rfl
  have same : nested.key = name.text := by decide
  have got : s.get name = .ok nested := get_of_put stored rfl same
  exact ⟨kept s second (by decide) behind before, own, got,
    (names_apart name).2.2.1 .standard [] [.put first, .put nested] nested got⟩

/-- **An action is taken for another whose name has the same text**, though that was never put. -/
theorem taken_for_another :
    let a : Action := ⟨"a", "b/c", .managed "python:3", .standard, 0⟩
    let name : QualifiedName := ⟨"a/b", "c"⟩
    let s := Store.new .standard
    a.qualifiedName ≠ name ∧ s.get name = .error ⟨.finding, "a/b/c"⟩ ∧
      (s.step (.put a)).get name = .ok a := by
  intro a name s
  have stored : s.put a = .ok (s.step (.put a)) := rfl
  have same : a.key = name.text := by decide
  exact ⟨by decide, rfl, get_of_put stored rfl same⟩

end Store

end Dispatch
