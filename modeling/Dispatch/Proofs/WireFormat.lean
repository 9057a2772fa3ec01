import Dispatch.Proofs.Messages
import Dispatch.Proofs.StoredNames

/-!
# The wire format

What travels comes back: heartbeats, rows of the listing, names, limits, records of actions and
activation messages are read as they were written, whatever the characters of their texts and the
integers of their fields, so no two of them share a text (`wire_format_faithful`). An activation
message may hold any value that is less deep than a text may be, with integers of 64 bits as its
numbers.
-/

set_option autoImplicit false

namespace Dispatch

open Json (Codec Scope Value)

/-! ## Echoes -/

section Echoes

variable {scope : Scope}

theorem Health.echoes (health : Health) : codec.Echoes scope health (.ok health) := by
  cases health <;> exact Codec.echoes_variants rfl

theorem InvokerStatus.echoes (status : InvokerStatus) :
    codec.Echoes scope status (.ok status) := by
  cases status <;> exact Codec.echoes_variants rfl

theorem Capacity.echoes (room : 0 < scope.depth) (c : Capacity) : codec.Echoes scope c (.ok c) :=
  Codec.echoes_record (Scope.enter_of_pos room) (by decide)
    (.cons rfl (Codec.echoes_word64Named "u64" c.totalMemory)
      (.cons rfl (Codec.echoes_word64Named "u64" c.usedMemory)
        (.cons rfl (Codec.echoes_word32 c.totalSlots)
          (.cons rfl (Codec.echoes_word32 c.usedSlots) .nil)))) rfl

/-- A word that is there is read as being there. -/
theorem echoes_someWord (n : UInt64) :
    Codec.word64.option.Echoes scope (some n) (.ok (some n)) :=
  Codec.echoes_option_some (Codec.echoes_word64Named "u64" n) nofun

theorem InvokerInfo.echoes (room : 0 < scope.depth - 1) (i : InvokerInfo) :
    codec.Echoes scope i (.ok i) := by
  have outer : 0 < scope.depth := by omega
  obtain ⟨id, pool, health, capacity, last⟩ := i
  cases last with
  | none =>
      exact Codec.echoes_record (Scope.enter_of_pos outer) (by decide)
        (.cons rfl id.echoes (.cons rfl pool.echoes (.cons rfl health.echoes
          (.cons rfl (capacity.echoes room) (.omitted rfl rfl .nil))))) rfl
  | some last =>
      exact Codec.echoes_record (Scope.enter_of_pos outer) (by decide)
        (.cons rfl id.echoes (.cons rfl pool.echoes (.cons rfl health.echoes
          (.cons rfl (capacity.echoes room) (.cons rfl (echoes_someWord last) .nil))))) rfl

theorem Heartbeat.echoes (room : 0 < scope.depth - 1) (h : Heartbeat) :
    codec.Echoes scope h (.ok h) := by
  have outer : 0 < scope.depth := by omega
  exact Codec.echoes_record (Scope.enter_of_pos outer) (by decide)
    (.cons rfl h.invoker.echoes (.cons rfl (h.capacity.echoes room)
      (.cons rfl (Codec.echoes_word64Named "u64" h.timestamp)
        (.cons rfl h.status.echoes .nil)))) rfl

end Echoes

/-! ## What comes back -/

namespace Json

/-- The values that `p` allows come back from their text, so no two of them share one. -/
structure Codec.Faithful {α : Type} (codec : Codec α) (p : α → Prop) : Prop where
  back : ∀ a, p a → codec.decode (codec.encode a) = .ok a
  apart : ∀ a b, p a → p b → codec.encode a = codec.encode b → a = b

theorem Codec.faithful_of_back {α : Type} {codec : Codec α} {p : α → Prop}
    (back : ∀ a, p a → codec.decode (codec.encode a) = .ok a) : codec.Faithful p where
  back := back
  apart := by
    intro a b first second same
    have read := back a first
    rw [same, back b second] at read
    exact (Except.ok.inj read).symm

theorem Codec.faithful_of_echoes {α : Type} {codec : Codec α}
    (echoes : ∀ a, codec.Echoes .message a (.ok a)) : codec.Faithful fun _ => True :=
  Codec.faithful_of_back fun a _ => Codec.decode_encode (echoes a)

/-- A free-form value as it is held: in canonical form, with integers of 64 bits as its numbers,
and with at most `depth` nested containers. -/
structure Value.Held (depth : Nat) (v : Value) : Prop where
  canonical : v.canonical = v
  integral : v.Integral
  shallow : v.depth ≤ depth

end Json

/-- **The wire format keeps what it carries.** Heartbeats, capacities, rows of the listing, names,
limits, what actions run, their records, and activation messages that hold a value nested at most
126 deep come back as they were sent, so two different ones never have the same text. If the
members of the value stand in another order than they are held in, that order is all that
changes. -/
theorem wire_format_faithful :
    Heartbeat.codec.Faithful (fun _ => True) ∧ Capacity.codec.Faithful (fun _ => True) ∧
    InvokerInfo.codec.Faithful (fun _ => True) ∧ QualifiedName.codec.Faithful (fun _ => True) ∧
    ActionLimits.codec.Faithful (fun _ => True) ∧ Exec.codec.Faithful (fun _ => True) ∧
    Action.codec.Faithful (fun _ => True) ∧
    ActivationMessage.codec.Faithful (fun m => m.content.Held 126) ∧
    ∀ m : ActivationMessage, m.content.DistinctNames → m.content.Integral →
      m.content.depth ≤ 126 →
      m.content.Rearranges m.content.canonical ∧
      ActivationMessage.codec.decode (ActivationMessage.codec.encode m) =
        .ok { m with content := m.content.canonical } := by
  have message (m : ActivationMessage) (integral : m.content.Integral)
      (shallow : m.content.depth ≤ 126) :
      ActivationMessage.codec.decode (ActivationMessage.codec.encode m) =
        .ok { m with content := m.content.canonical } := by
    have inside : m.content.depth < Json.deepest := Nat.lt_succ_of_le shallow
    rw [ActivationMessage.decode_encode_any integral, if_pos inside]
  refine ⟨Codec.faithful_of_echoes (Heartbeat.echoes (by decide)),
    Codec.faithful_of_echoes (Capacity.echoes (by decide)),
    Codec.faithful_of_echoes (InvokerInfo.echoes (by decide)),
    Codec.faithful_of_echoes (QualifiedName.echoes (by decide)),
    Codec.faithful_of_echoes (ActionLimits.echoes (by decide)),
    Codec.faithful_of_echoes (Exec.echoes (by decide)),
    Codec.faithful_of_back fun a _ => a.decode_encode, Codec.faithful_of_back ?_, ?_⟩
  · intro m held
    have back := message m held.integral held.shallow
    rw [held.canonical] at back
    exact back
  · intro m distinct integral shallow
    exact ⟨m.content.rearranges_canonical distinct, message m integral shallow⟩

/-- Arguments with names out of order, characters of one to four bytes and of the escapes, and the
integers at both ends of their range. -/
def demoArguments : Value :=
  .object [("z", .array [.number (.integer (-9_223_372_036_854_775_808)), .null, .bool false]),
    ("\"\\\n\x01é€😀", .object [("", .number (.integer 18_446_744_073_709_551_615))])]

def demoMessage : ActivationMessage :=
  ⟨⟨"a\tb"⟩, "gäst", ⟨"guest", "écho"⟩, ⟨18_446_744_073_709_551_615⟩, .blackbox, 256, true,
    demoArguments, 0⟩

theorem wire_format_faithful_demoMessage :
    demoArguments.DistinctNames ∧ demoArguments.Integral ∧ demoArguments.depth ≤ 126 ∧
    demoArguments.canonical.Held 126 ∧
    ActivationMessage.codec.decode (ActivationMessage.codec.encode demoMessage) =
      .ok { demoMessage with content := demoArguments.canonical } ∧
    ActivationMessage.codec.decode
        (ActivationMessage.codec.encode { demoMessage with content := demoArguments.canonical }) =
      .ok { demoMessage with content := demoArguments.canonical } := by
  have distinct : demoArguments.DistinctNames := by decide +kernel
  have integral : demoArguments.Integral := by decide +kernel
  have shallow : demoArguments.depth ≤ 126 := by decide +kernel
  have held : demoArguments.canonical.Held 126 :=
    ⟨demoArguments.canonical_canonical, by decide +kernel, by decide +kernel⟩
  obtain ⟨-, -, -, -, -, -, -, messages, arguments⟩ := wire_format_faithful
  exact ⟨distinct, integral, shallow, held, (arguments demoMessage distinct integral shallow).2,
    messages.back { demoMessage with content := demoArguments.canonical } held⟩

end Dispatch
