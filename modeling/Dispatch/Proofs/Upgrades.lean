import Dispatch.Proofs.Json.Variations
import Dispatch.Proofs.WireFormat

/-!
# Messages from other versions

Whoever is upgraded first may write more members than its peers know, and no version promises an
order. Heartbeats, completions, activation messages, records of actions and rows of the listing are
read alike for all that (`decode_ignores_variations`). For most records the fields settle it; what
an action runs is told by its tag, and while that has not been met the other members are kept as
values, so there the unknown ones must be readable and not too deep (`Exec.tolerates`).
-/

set_option autoImplicit false

namespace Dispatch

open Json (Codec Field FlawAt Node Scope Shape Value)

/-! ## What an action runs -/

namespace Exec

/-- The tag and the fields of both variants. -/
def names : List String := [tag, "kind", "image"]

def shape : Shape := .record names fun _ => .whole

theorem fieldFor_mem_names (pool : Pool) : (fieldFor pool).1 ∈ names := by
  cases pool <;> decide

theorem fieldFor_ne_tag (pool : Pool) : (fieldFor pool).1 ≠ tag := by
  cases pool <;> decide

/-- Members without the tag are kept as they are. -/
theorem splitTag_append {scope : Scope} {pool : Option Pool} {kept members : List (String × Value)}
    {nodes : List (Except FlawAt String × Node)}
    (shown : List.Forall₂ Json.ShowsMember members nodes)
    (shallow : ∀ m ∈ members, m.2.depth ≤ scope.depth) (other : ∀ m ∈ members, m.1 ≠ tag)
    (rest : List (Except FlawAt String × Node)) :
    splitTag scope pool kept (nodes ++ rest) =
      splitTag scope pool (members.reverse ++ kept) rest := by
  induction shown generalizing kept with
  | nil => rfl
  | @cons m n members nodes first _ ih =>
      obtain ⟨low, lows⟩ := List.forall_mem_cons.mp shallow
      obtain ⟨apart, aparts⟩ := List.forall_mem_cons.mp other
      obtain ⟨name, v⟩ := m
      obtain ⟨_, node⟩ := n
      obtain ⟨rfl, here⟩ := first
      have step : splitTag scope pool kept ((.ok name, node) :: (nodes ++ rest)) =
          splitTag scope pool ((name, v) :: kept) (nodes ++ rest) := by
        refine (if_neg apart).trans ?_
        rw [(here.readAs scope.depth).ok low]
        rfl
      rw [List.cons_append, step, ih lows aparts, List.reverse_cons, List.append_assoc]
      rfl

/-- The field that goes with a pool is found among whatever was kept. -/
theorem readKept_perm (pool : Pool) (s : String) {kept added : List (String × Value)}
    (perm : ((((fieldFor pool).1, .string s) :: added).Perm kept))
    (unknown : ∀ m ∈ added, m.1 ≠ (fieldFor pool).1) :
    readKept pool (Node.ofValue (.object kept)) = .ok (ofPool pool s) := by
  have field (node : Node) (shown : Json.ShowsMember ((fieldFor pool).1, .string s)
      (.ok (fieldFor pool).1, node)) :
      Codec.string.read ⟨Json.deepest - 1, true⟩ node = .ok s :=
    (Codec.echoes_string s).reads node shown.2
  have others : ∀ n ∈ Node.ofMembers added,
      Json.Unknown [.required (fieldFor pool).1 .string] n := by
    intro n member
    rw [Json.ofMembers_eq] at member
    obtain ⟨m, inside, rfl⟩ := List.mem_map.mp member
    refine ⟨m.1, m.2, rfl, fun known => unknown m inside ?_, Json.shows_ofValue m.2⟩
    exact List.mem_singleton.mp known
  have moved : (Node.ofMembers [((fieldFor pool).1, .string s)] ++ Node.ofMembers added).Perm
      (Node.ofMembers kept) := by
    rw [Json.ofMembers_eq, Json.ofMembers_eq, Json.ofMembers_eq, ← List.map_append]
    exact perm.map _
  have lone : ([.required (fieldFor pool).1 .string].map Field.name).Nodup :=
    List.nodup_singleton _
  have room : (⟨Json.deepest, true⟩ : Scope).enter = .ok ⟨Json.deepest - 1, true⟩ := rfl
  have own : List.Forall₂ Json.ShowsMember [((fieldFor pool).1, .string s)]
      (Node.ofMembers [((fieldFor pool).1, .string s)]) :=
    .cons ⟨rfl, Json.shows_ofValue _⟩ .nil
  have read := Json.readRow_members (fun _ _ => Json.ShowsMember.named) room
    (.cons rfl field .nil) rfl lone own others moved
    ("struct variant ActionExec::" ++ (fieldFor pool).2) 0
  exact congrArg (· >>= fun row : String × Unit => Except.ok (ofPool pool row.1)) read

/-- The tag is read where it stands, and the members around it are kept. -/
theorem splitTag_around {scope : Scope} (pool : Pool) {before after : List (String × Value)}
    {front back : List (Except FlawAt String × Node)}
    (shownBefore : List.Forall₂ Json.ShowsMember before front)
    (shownAfter : List.Forall₂ Json.ShowsMember after back)
    (shallow : ∀ m ∈ before ++ after, m.2.depth ≤ scope.depth)
    (other : ∀ m ∈ before ++ after, m.1 ≠ tag) :
    splitTag scope none [] (front ++ (.ok tag, .string (.ok pool.name)) :: back) =
      .ok (some pool, before ++ after) := by
  obtain ⟨lowBefore, lowAfter⟩ := List.forall_mem_append.mp shallow
  obtain ⟨otherBefore, otherAfter⟩ := List.forall_mem_append.mp other
  have step (kept : List (String × Value)) :
      splitTag scope none kept ((.ok tag, .string (.ok pool.name)) :: back) =
        splitTag scope (some pool) kept back := by
    cases pool <;> rfl
  have rest : splitTag scope (some pool) before.reverse (back ++ []) = _ :=
    splitTag_append shownAfter lowAfter otherAfter []
  rw [List.append_nil] at rest
  rw [splitTag_append shownBefore lowBefore otherBefore, List.append_nil, step, rest, splitTag,
    ← List.reverse_append, List.reverse_reverse]

/-- What an action runs is read from its tag and its field, whatever else is around them. -/
theorem read_around {scope : Scope} {pool : Pool} {s : String}
    {before after added : List (String × Value)} {node : Node}
    (perm : (((fieldFor pool).1, .string s) :: added).Perm (before ++ after))
    (unknown : ∀ m ∈ added, m.1 ∉ names)
    (shallow : (Value.object (before ++ (tag, .string pool.name) :: after)).depth ≤ scope.depth)
    (shown : Json.Shows (.object (before ++ (tag, .string pool.name) :: after)) node) :
    codec.read scope node = .ok (ofPool pool s) := by
  have room : 0 < scope.depth := Nat.lt_of_lt_of_le (Nat.succ_pos _) shallow
  have depths := Json.membersDepth_le_iff.mp (Nat.le_sub_one_of_lt shallow)
  have low : ∀ m ∈ before ++ after, m.2.depth ≤ scope.depth - 1 := fun m member =>
    depths m (List.perm_middle.mem_iff.mpr (List.mem_cons_of_mem _ member))
  have apart : ∀ m ∈ before ++ after, m.1 ≠ tag := by
    intro m member same
    rcases List.mem_cons.mp (perm.mem_iff.mpr member) with rfl | other
    · exact fieldFor_ne_tag pool same
    · exact unknown m other (same ▸ List.mem_cons_self)
  have fresh : ∀ m ∈ added, m.1 ≠ (fieldFor pool).1 := fun m member same =>
    unknown m member (same ▸ fieldFor_mem_names pool)
  obtain _ | _ | _ | _ | _ | ⟨left, shown⟩ := shown
  obtain ⟨front, rest, rfl, shownBefore, shownRest⟩ :=
    Json.forall₂_append (Json.showsMembers_iff.mp shown)
  obtain _ | @⟨_, ⟨_, _⟩, _, back, ⟨rfl, ⟨⟩⟩, shownAfter⟩ := shownRest
  show (scope.enter >>= _) = _
  rw [Scope.enter_of_pos room]
  show (splitTag _ none [] _ >>= _) = _
  rw [splitTag_around pool shownBefore shownAfter low apart]
  exact readKept_perm pool s perm fresh

/-- **The tag may stand anywhere**, and members that no variant knows may stand around it, while
they can be kept as values. -/
theorem tolerates {scope : Scope} (e : Exec) : codec.Tolerates scope shape e (.ok e) := by
  obtain ⟨pool, s, rfl⟩ := e.exists_eq_ofPool
  constructor
  case writable =>
    rw [write_ofPool]
    exact fun n member => absurd member List.not_mem_nil
  case fits =>
    rw [write_ofPool]
    exact .self fun m member => rfl
  case reads =>
    intro v varies shallow node shown
    rw [write_ofPool] at varies
    cases v with
    | object varied =>
        obtain ⟨renewed, added, each, unknown, perm⟩ := varies
        obtain _ | @⟨_, ⟨_, _⟩, _, _, ⟨rfl, rfl⟩, each⟩ := each
        obtain _ | @⟨_, ⟨_, _⟩, _, _, ⟨rfl, rfl⟩, ⟨⟩⟩ := each
        obtain ⟨before, after, rfl⟩ := List.append_of_mem (perm.mem_iff.mp List.mem_cons_self)
        have others := (perm.trans List.perm_middle).cons_inv.map fun m => (m.1, m.2.reread)
        rw [List.map_append] at others
        rw [← Value.depth_reread] at shallow
        rw [Value.reread_object, List.map_append] at shallow shown
        exact read_around others
          (List.forall_mem_map.mpr fun m member => (unknown m member).1) shallow shown
    | _ => exact varies.elim

end Exec

/-! ## Records -/

section Records

variable {scope : Scope}

def QualifiedName.shape : Shape := .record ["namespace", "name"] fun _ => .whole

theorem QualifiedName.tolerates (room : 0 < scope.depth) (n : QualifiedName) :
    codec.Tolerates scope shape n (.ok n) :=
  Codec.tolerates_record (Scope.enter_of_pos room) (by decide) (by decide)
    (.cons rfl (Codec.echoes_string n.space).tolerates
      (.cons rfl (Codec.echoes_string n.name).tolerates .nil)) rfl

def Capacity.shape : Shape :=
  .record ["total_memory_mb", "used_memory_mb", "total_slots", "used_slots"] fun _ => .whole

theorem Capacity.tolerates (room : 0 < scope.depth) (c : Capacity) :
    codec.Tolerates scope shape c (.ok c) :=
  Codec.tolerates_record (Scope.enter_of_pos room) (by decide) (by decide)
    (.cons rfl (Codec.echoes_word64Named "u64" c.totalMemory).tolerates
      (.cons rfl (Codec.echoes_word64Named "u64" c.usedMemory).tolerates
        (.cons rfl (Codec.echoes_word32 c.totalSlots).tolerates
          (.cons rfl (Codec.echoes_word32 c.usedSlots).tolerates .nil)))) rfl

def Heartbeat.shape : Shape :=
  .record ["invoker", "capacity", "timestamp_ms", "status"] fun name =>
    if name = "capacity" then Capacity.shape else .whole

theorem Heartbeat.tolerates (room : 0 < scope.depth - 1) (h : Heartbeat) :
    codec.Tolerates scope shape h (.ok h) := by
  have outer : 0 < scope.depth := by omega
  exact Codec.tolerates_record (Scope.enter_of_pos outer) (by decide) (by decide)
    (.cons rfl h.invoker.echoes.tolerates (.cons rfl (h.capacity.tolerates room)
      (.cons rfl (Codec.echoes_word64Named "u64" h.timestamp).tolerates
        (.cons rfl h.status.echoes.tolerates .nil)))) rfl

def InvokerInfo.shape : Shape :=
  .record ["id", "pool", "health", "capacity", "last_user_action_ms"] fun name =>
    if name = "capacity" then Capacity.shape else .whole

theorem InvokerInfo.tolerates (room : 0 < scope.depth - 1) (i : InvokerInfo) :
    codec.Tolerates scope shape i (.ok i) := by
  have outer : 0 < scope.depth := by omega
  obtain ⟨id, pool, health, capacity, last⟩ := i
  cases last with
  | none =>
      exact Codec.tolerates_record (Scope.enter_of_pos outer) (by decide) (by decide)
        (.cons rfl id.echoes.tolerates (.cons rfl pool.echoes.tolerates
          (.cons rfl health.echoes.tolerates (.cons rfl (capacity.tolerates room)
            (.omitted rfl rfl .nil))))) rfl
  | some last =>
      exact Codec.tolerates_record (Scope.enter_of_pos outer) (by decide) (by decide)
        (.cons rfl id.echoes.tolerates (.cons rfl pool.echoes.tolerates
          (.cons rfl health.echoes.tolerates (.cons rfl (capacity.tolerates room)
            (.cons rfl (echoes_someWord last).tolerates .nil))))) rfl

def ActionLimits.shape : Shape := .record ["memory_mb", "timeout_ms"] fun _ => .whole

theorem ActionLimits.tolerates (room : 0 < scope.depth) (l : ActionLimits) :
    codec.Tolerates scope shape l (.ok l) :=
  Codec.tolerates_record (Scope.enter_of_pos room) (by decide) (by decide)
    (.cons rfl (Codec.echoes_word64Named "u64" l.memory).tolerates
      (.cons rfl (Codec.echoes_word64Named "u64" l.timeoutMillis).tolerates .nil)) rfl

def Action.shape : Shape :=
  .record ["namespace", "name", "exec", "limits", "updated_at"] fun name =>
    if name = "exec" then Exec.shape else if name = "limits" then ActionLimits.shape else .whole

theorem Action.tolerates (room : 0 < scope.depth - 1) (a : Action) :
    codec.Tolerates scope shape a (.ok a) := by
  have outer : 0 < scope.depth := by omega
  exact Codec.tolerates_record (Scope.enter_of_pos outer) (by decide) (by decide)
    (.cons rfl (Codec.echoes_string a.space).tolerates
      (.cons rfl (Codec.echoes_string a.name).tolerates (.cons rfl a.exec.tolerates
        (.cons rfl (a.limits.tolerates room)
          (.cons rfl (Codec.echoes_word64Named "u64" a.updatedAt).tolerates .nil))))) rfl

def ActivationMessage.shape : Shape :=
  .record ["activation_id", "namespace", "action", "invoker", "pool", "memory_mb", "blocking",
      "content", "submitted_at_ms"] fun name =>
    if name = "action" then QualifiedName.shape else .whole

/-- A message is read with its content in canonical form, the content's numbers reread. -/
theorem ActivationMessage.tolerates (room : 0 < scope.depth - 1) {m : ActivationMessage}
    (writable : m.content.Writable) :
    codec.Tolerates scope shape m (.ok { m with content := m.content.reread.canonical }) := by
  have outer : 0 < scope.depth := by omega
  exact Codec.tolerates_record (Scope.enter_of_pos outer) (by decide) (by decide)
    (.cons rfl m.id.echoes.tolerates (.cons rfl (Codec.echoes_string m.space).tolerates
      (.cons rfl (m.action.tolerates room) (.cons rfl m.invoker.echoes.tolerates
        (.cons rfl m.pool.echoes.tolerates
          (.cons rfl (Codec.echoes_word64Named "u64" m.memory).tolerates
            (.cons rfl (Codec.echoes_bool m.blocking).tolerates
              (.cons rfl (Codec.tolerates_value writable)
                (.cons rfl (Codec.echoes_word64Named "u64" m.submittedAt).tolerates
                  .nil))))))))) rfl

def Completion.shape : Shape :=
  .record ["activation_id", "invoker", "success", "is_system_error", "result"] fun _ => .whole

/-- An output that is `null` is read as none; any other is read in canonical form. -/
theorem Completion.tolerates (room : 0 < scope.depth) {c : Completion}
    (writable : ∀ v ∈ c.result, v.Writable) :
    ∃ result, codec.Tolerates scope shape c (.ok { c with result }) := by
  obtain ⟨id, invoker, success, systemError, result⟩ := c
  have record {content : Option Value}
      {row : Except Json.Fault (Json.Row [.optional "result" .value])}
      (along : Json.Row.Along (fun f content first =>
        f.codec.Tolerates ⟨scope.depth - 1, scope.surplus⟩ .whole content first)
        [.optional "result" .value] (result, ()) row) (same : row = .ok (content, ())) :
      codec.Tolerates scope shape ⟨id, invoker, success, systemError, result⟩
        (.ok ⟨id, invoker, success, systemError, content⟩) :=
    Codec.tolerates_record (Scope.enter_of_pos room) (by decide) (by decide)
      (.cons rfl id.echoes.tolerates (.cons rfl invoker.echoes.tolerates
        (.cons rfl (Codec.echoes_bool success).tolerates
          (.cons rfl (Codec.echoes_bool systemError).tolerates along)))) (same ▸ rfl)
  cases result with
  | none => exact ⟨none, record (.omitted rfl rfl .nil) rfl⟩
  | some v =>
      by_cases null : v = .null
      · subst null
        exact ⟨none, record (.cons rfl (Codec.echoes_option_null rfl).tolerates .nil) rfl⟩
      · have read : Codec.value.option.Tolerates ⟨scope.depth - 1, scope.surplus⟩ .whole
            (some v) _ :=
          Codec.tolerates_option_some (Codec.tolerates_value (writable v rfl)) null
        exact ⟨some v.reread.canonical, record (.cons rfl read .nil) rfl⟩

end Records

/-! ## What is ignored -/

/-- **Neither the order of members nor unknown members change what is decoded.** Take what a
heartbeat, a completion, an activation message, a record of an action or a row of the listing is
encoded as; in its object and in those inside it that stand for records or for what an action runs,
put the members into any order and any others among them, under names that the record does not
know, with whatever values may be written. While the whole is nested no deeper than a text may be,
its text is decoded, as the same as the encoding itself. A content or result is any value that may
be written, and nothing inside it is varied. -/
theorem decode_ignores_variations :
    (∀ h : Heartbeat, Heartbeat.codec.Ignores Heartbeat.shape h) ∧
    (∀ c : Completion, (∀ v ∈ c.result, v.Writable) →
      Completion.codec.Ignores Completion.shape c) ∧
    (∀ m : ActivationMessage, m.content.Writable →
      ActivationMessage.codec.Ignores ActivationMessage.shape m) ∧
    (∀ a : Action, Action.codec.Ignores Action.shape a) ∧
    ∀ i : InvokerInfo, InvokerInfo.codec.Ignores InvokerInfo.shape i := by
  refine ⟨fun h => (h.tolerates (by decide)).ignores, fun c writable => ?_,
    fun m writable => (ActivationMessage.tolerates (by decide) writable).ignores,
    fun a => (a.tolerates (by decide)).ignores, fun i => (i.tolerates (by decide)).ignores⟩
  have room : 0 < Scope.message.depth := by decide
  obtain ⟨result, tolerates⟩ := Completion.tolerates room writable
  exact tolerates.ignores

/-! ## A newer peer -/

namespace Newer

/-- A tenth, whose text has a point. -/
def tenth : Value := .number (.float (.finite false 7_205_759_403_792_794 (-56)))

/-- The greatest finite number, whose text has an exponent. -/
def most : Value := .number (.float (.finite false (Binary64.significandBound - 1) 971))

theorem writable_tenth : tenth.Writable :=
  List.forall_mem_singleton.mpr (⟨by decide, by decide, by decide, fun _ => by decide⟩ :
    Binary64.IsNormal 7_205_759_403_792_794 (-56))

theorem writable_most : most.Writable :=
  List.forall_mem_singleton.mpr Binary64.isNormal_greatest

def action : Action := ⟨"guest", "echo", .managed "nodejs:20", ⟨256, 60000⟩, 7⟩

/-- What the action runs, its tag last and an unknown number first. -/
def exec : Value :=
  .object [("weight", most), ("kind", .string "nodejs:20"), ("type", .string "managed")]

def limits : Value :=
  .object [("concurrency", .ofNat 1), ("timeout_ms", .ofNat 60000), ("memory_mb", .ofNat 256)]

/-- The record of the action as a newer store writes it. -/
def record : Value :=
  .object [("annotations", .object [("exec", .null)]), ("updated_at", .ofNat 7), ("limits", limits),
    ("exec", exec), ("name", .string "echo"), ("namespace", .string "guest")]

theorem varies_record : Action.shape.Varies (Action.codec.write action) record := by
  have exec : Exec.shape.Varies (Exec.codec.write action.exec) exec :=
    ⟨[("type", .string "managed"), ("kind", .string "nodejs:20")], [("weight", most)],
      .cons ⟨rfl, rfl⟩ (.cons ⟨rfl, rfl⟩ .nil),
      List.forall_mem_singleton.mpr ⟨by decide, writable_most⟩, (List.reverse_perm _).symm⟩
  have limits : ActionLimits.shape.Varies (ActionLimits.codec.write action.limits) limits :=
    ⟨[("memory_mb", .ofNat 256), ("timeout_ms", .ofNat 60000)], [("concurrency", .ofNat 1)],
      .cons ⟨rfl, rfl⟩ (.cons ⟨rfl, rfl⟩ .nil),
      List.forall_mem_singleton.mpr ⟨by decide, Value.Integral.writable (by decide)⟩,
      (List.reverse_perm _).symm⟩
  exact ⟨[("namespace", .string "guest"), ("name", .string "echo"), ("exec", Newer.exec),
      ("limits", Newer.limits), ("updated_at", .ofNat 7)],
    [("annotations", .object [("exec", .null)])],
    .cons ⟨rfl, rfl⟩ (.cons ⟨rfl, rfl⟩ (.cons ⟨rfl, exec⟩ (.cons ⟨rfl, limits⟩
      (.cons ⟨rfl, rfl⟩ .nil)))),
    List.forall_mem_singleton.mpr ⟨by decide, Value.Integral.writable (by decide)⟩,
    (List.reverse_perm _).symm⟩

def completion : Completion := ⟨⟨"a1"⟩, ⟨3⟩, true, false, some (.array [tenth, most])⟩

/-- The completion as a newer invoker writes it. -/
def report : Value :=
  .object [("seconds", tenth), ("result", .array [tenth, most]), ("is_system_error", .bool false),
    ("success", .bool true), ("invoker", .ofNat 3), ("activation_id", .string "a1")]

theorem varies_report : Completion.shape.Varies (Completion.codec.write completion) report :=
  ⟨[("activation_id", .string "a1"), ("invoker", .ofNat 3), ("success", .bool true),
      ("is_system_error", .bool false), ("result", .array [tenth, most])], [("seconds", tenth)],
    .cons ⟨rfl, rfl⟩ (.cons ⟨rfl, rfl⟩ (.cons ⟨rfl, rfl⟩ (.cons ⟨rfl, rfl⟩
      (.cons ⟨rfl, rfl⟩ .nil)))),
    List.forall_mem_singleton.mpr ⟨by decide, writable_tenth⟩, (List.reverse_perm _).symm⟩

def message : ActivationMessage :=
  ⟨⟨"a1"⟩, "guest", ⟨"guest", "echo"⟩, ⟨3⟩, .managed, 256, true, .array [tenth, most], 5⟩

def name : Value :=
  .object [("version", tenth), ("name", .string "echo"), ("namespace", .string "guest")]

/-- The message as a newer balancer writes it. -/
def order : Value :=
  .object [("weight", most), ("submitted_at_ms", .ofNat 5), ("content", .array [tenth, most]),
    ("blocking", .bool true), ("memory_mb", .ofNat 256), ("pool", .string "managed"),
    ("invoker", .ofNat 3), ("action", name), ("namespace", .string "guest"),
    ("activation_id", .string "a1")]

theorem varies_order :
    ActivationMessage.shape.Varies (ActivationMessage.codec.write message) order := by
  have name : QualifiedName.shape.Varies (QualifiedName.codec.write message.action) name :=
    ⟨[("namespace", .string "guest"), ("name", .string "echo")], [("version", tenth)],
      .cons ⟨rfl, rfl⟩ (.cons ⟨rfl, rfl⟩ .nil),
      List.forall_mem_singleton.mpr ⟨by decide, writable_tenth⟩, (List.reverse_perm _).symm⟩
  exact ⟨[("activation_id", .string "a1"), ("namespace", .string "guest"), ("action", Newer.name),
      ("invoker", .ofNat 3), ("pool", .string "managed"), ("memory_mb", .ofNat 256),
      ("blocking", .bool true), ("content", .array [tenth, most]), ("submitted_at_ms", .ofNat 5)],
    [("weight", most)],
    .cons ⟨rfl, rfl⟩ (.cons ⟨rfl, rfl⟩ (.cons ⟨rfl, name⟩ (.cons ⟨rfl, rfl⟩ (.cons ⟨rfl, rfl⟩
      (.cons ⟨rfl, rfl⟩ (.cons ⟨rfl, rfl⟩ (.cons ⟨rfl, rfl⟩ (.cons ⟨rfl, rfl⟩ .nil)))))))),
    List.forall_mem_singleton.mpr ⟨by decide, writable_most⟩, (List.reverse_perm _).symm⟩

end Newer

/-- What a newer store, invoker and balancer write is decoded as what they mean. -/
theorem decode_ignores_variations_newer :
    (∀ v ∈ Newer.completion.result, v.Writable) ∧ Newer.message.content.Writable ∧
    (∃ b, Action.codec.decode (Action.codec.encode Newer.action) = .ok b ∧
      Action.codec.decode Newer.record.print = .ok b) ∧
    (∃ b, Completion.codec.decode (Completion.codec.encode Newer.completion) = .ok b ∧
      Completion.codec.decode Newer.report.print = .ok b) ∧
    ∃ b, ActivationMessage.codec.decode (ActivationMessage.codec.encode Newer.message) = .ok b ∧
      ActivationMessage.codec.decode Newer.order.print = .ok b := by
  have numbers : (Value.array [Newer.tenth, Newer.most]).Writable := by
    intro n member
    rcases List.mem_append.mp member with first | second
    · exact Newer.writable_tenth n first
    · exact Newer.writable_most n second
  have result : ∀ v ∈ Newer.completion.result, v.Writable := by
    rintro _ ⟨⟩
    exact numbers
  obtain ⟨-, completions, messages, actions, -⟩ := decode_ignores_variations
  exact ⟨result, numbers, actions Newer.action Newer.record Newer.varies_record (by decide +kernel),
    completions Newer.completion result Newer.report Newer.varies_report (by decide +kernel),
    messages Newer.message numbers Newer.order Newer.varies_order (by decide +kernel)⟩

end Dispatch
