import Dispatch.Proofs.WireFormat
import Dispatch.Simulation

/-!
# The output of an activation on its way to the caller

A completion and the result that a caller gets both leave a missing output out of their text, and
write an output of `null` as `null`, which is read as a missing one. So what a caller who waits gets
of a completion that travelled is the result of that completion with an output of `null` dropped,
and it is the very result exactly if the output was not `null` (`output_survives_iff`); of an
activation whose output is `null`, the caller hears that it has none (`null_output_lost`).
-/

set_option autoImplicit false

namespace Dispatch

open Json (Codec Scope Value)

/-- An output as it is heard: `null` is none. -/
def heardOutput : Option Value → Option Value
  | some .null => none
  | output => output

/-- A completion as it is heard. -/
def Completion.heard (c : Completion) : Completion := { c with result := heardOutput c.result }

theorem heardOutput_eq_self_iff {output : Option Value} :
    heardOutput output = output ↔ output ≠ some .null := by
  rcases output with _ | (_ | _ | _ | _ | _ | _) <;> simp [heardOutput]

theorem heardOutput_heardOutput (output : Option Value) :
    heardOutput (heardOutput output) = heardOutput output := by
  rcases output with _ | (_ | _ | _ | _ | _ | _) <;> rfl

/-- The last field of a record, which holds an output, is read as the output is heard. -/
theorem echoes_output {scope : Scope} {output : Option Value}
    (held : ∀ v ∈ output, v.Held scope.depth) :
    Json.Row.Echoes scope [.optional "result" .value] (output, ())
      (.ok (heardOutput output, ())) := by
  rcases output with _ | v
  · exact .omitted rfl rfl .nil
  obtain ⟨canonical, integral, shallow⟩ := held v rfl
  have value : Codec.value.Echoes scope v (.ok v) := by
    have echoes : Codec.value.Echoes scope v _ := Codec.echoes_value integral
    rw [if_pos shallow, canonical] at echoes
    exact echoes
  have field : Codec.value.option.Echoes scope (some v) (.ok (heardOutput (some v))) := by
    by_cases null : v = .null
    · subst null
      exact Codec.echoes_option_null rfl
    · rw [heardOutput_eq_self_iff.mpr fun same => null (Option.some.inj same)]
      exact Codec.echoes_option_some value null
  have row : Json.Row.Echoes scope [.optional "result" .value] (some v, ()) _ :=
    .cons rfl field .nil
  exact row

/-- **A completion is read as it is heard.** -/
theorem Completion.decode_encode {c : Completion} (held : ∀ v ∈ c.result, v.Held 126) :
    codec.decode (codec.encode c) = .ok c.heard :=
  Codec.decode_encode (Codec.echoes_record rfl (by decide)
    (.cons rfl c.id.echoes (.cons rfl c.invoker.echoes (.cons rfl (Codec.echoes_bool c.success)
      (.cons rfl (Codec.echoes_bool c.isSystemError) (echoes_output held))))) rfl)

theorem ActivationStatus.echoes {scope : Scope} (status : ActivationStatus) :
    codec.Echoes scope status (.ok status) := by
  cases status <;> exact Codec.echoes_variants rfl

/-- A result is read as it is heard. -/
theorem ActivationResult.decode_encode {r : ActivationResult} (held : ∀ v ∈ r.result, v.Held 126) :
    codec.decode (codec.encode r) = .ok { r with result := heardOutput r.result } :=
  Codec.decode_encode (Codec.echoes_record rfl (by decide)
    (.cons rfl r.id.echoes (.cons rfl r.status.echoes (echoes_output held))) rfl)

/-- What a caller who waits finds when a completion that was sent has been consumed. -/
theorem Simulation.poll_consumed {s : Simulation} {c : Completion}
    (held : ∀ v ∈ c.result, v.Held 126) {r : Registered}
    (pending : Table.get? c.id s.gateway.flight.pending = some r)
    (blocking : r.activation.blocking = true) :
    (Waiter.open r.number).poll
        (s.consumeMessage Completion.topic (Completion.codec.encode c)).gateway.flight =
      (.served, .result (.ofCompletion c.heard)) := by
  have resolved := InFlight.resolve_of_pending (c := c.heard) pending
  have answered : Table.get? r.number
      (s.consumeMessage Completion.topic (Completion.codec.encode c)).gateway.flight.answers =
        some (.result (.ofCompletion c.heard)) := by
    rw [consumeMessage, if_pos rfl, Completion.decode_encode held]
    show Table.get? r.number (s.gateway.flight.resolve c.heard).1.answers = _
    rw [resolved]
    show Table.get? r.number (if r.activation.blocking then _ else _) = _
    rw [if_pos blocking, Table.get?_set, if_pos rfl]
    rfl
  rw [Waiter.poll, answered]

/-- **An output survives its travel unless it is `null`.** A completion whose output is held, at
most 126 deep, is sent and consumed while a caller waits for its activation: the completion is read
as it is heard, the caller gets the result of what was heard, and that result comes back from its
own text. It is the result of what was sent exactly if the output is not `null`, and so it is with
the text of that result. -/
theorem output_survives_iff {s : Simulation} {c : Completion}
    (held : ∀ v ∈ c.result, v.Held 126) {r : Registered}
    (pending : Table.get? c.id s.gateway.flight.pending = some r)
    (blocking : r.activation.blocking = true) :
    Completion.codec.decode (Completion.codec.encode c) = .ok c.heard ∧
    (Waiter.open r.number).poll
        (s.consumeMessage Completion.topic (Completion.codec.encode c)).gateway.flight =
      (.served, .result (.ofCompletion c.heard)) ∧
    ActivationResult.codec.decode (ActivationResult.codec.encode (.ofCompletion c.heard)) =
      .ok (.ofCompletion c.heard) ∧
    (ActivationResult.ofCompletion c.heard = .ofCompletion c ↔ c.result ≠ some .null) ∧
    (ActivationResult.codec.decode (ActivationResult.codec.encode (.ofCompletion c)) =
      .ok (.ofCompletion c) ↔ c.result ≠ some .null) := by
  have same : ActivationResult.ofCompletion c.heard = .ofCompletion c ↔ c.result ≠ some .null := by
    rw [← heardOutput_eq_self_iff]
    constructor
    · exact congrArg ActivationResult.result
    · intro kept
      rw [Completion.heard, kept]
  have heard : ∀ v ∈ heardOutput c.result, v.Held 126 := by
    intro v output
    by_cases null : c.result = some .null
    · rw [null] at output
      cases output
    · rw [heardOutput_eq_self_iff.mpr null] at output
      exact held v output
  refine ⟨Completion.decode_encode held, Simulation.poll_consumed held pending blocking, ?_, same,
    ?_⟩
  · rw [ActivationResult.decode_encode heard]
    show Except.ok { ActivationResult.ofCompletion c.heard with
      result := heardOutput (heardOutput c.result) } = _
    rw [heardOutput_heardOutput]
    rfl
  · rw [ActivationResult.decode_encode held, Except.ok.injEq]
    exact same

/-- The demonstration gateway while a caller waits for its first activation. -/
def demoWaiting : Simulation :=
  .new (Gateway.demo.run [.heartbeat ⟨⟨0⟩, ⟨1024, 0, 4, 0⟩, 0, .up⟩ .origin,
    .submit Gateway.demoRequest .origin 0]) .standard

/-- That activation has succeeded. -/
def demoCompletion (output : Option Value) : Completion :=
  ⟨Gateway.counting 0, ⟨0⟩, true, false, output⟩

theorem demoWaiting_pending :
    ∃ r, Table.get? (Gateway.counting 0) demoWaiting.gateway.flight.pending = some r ∧
      r.activation.blocking = true :=
  Option.map_eq_some_iff.mp (by decide +kernel)

/-- An output that only holds a `null` survives. -/
theorem output_survives_iff_demoWaiting :
    (Value.array [.null]).Held 126 ∧
    ∃ r, Table.get? (Gateway.counting 0) demoWaiting.gateway.flight.pending = some r ∧
      r.activation.blocking = true ∧
      (Waiter.open r.number).poll (demoWaiting.consumeMessage Completion.topic
          (Completion.codec.encode (demoCompletion (some (.array [.null]))))).gateway.flight =
        (.served, .result ⟨Gateway.counting 0, .success, some (.array [.null])⟩) := by
  have held : (Value.array [.null]).Held 126 := ⟨rfl, by decide, by decide⟩
  obtain ⟨r, pending, blocking⟩ := demoWaiting_pending
  have output : ∀ v ∈ (demoCompletion (some (.array [.null]))).result, v.Held 126 := by
    rintro _ ⟨⟩
    exact held
  obtain ⟨-, delivered, -, same, -⟩ := output_survives_iff output pending blocking
  rw [same.mpr nofun] at delivered
  exact ⟨held, r, pending, blocking, delivered⟩

/-- **An output of `null` is lost.** Its completion has a text of its own, and yet the caller gets
the result of the completion without an output. -/
theorem null_output_lost :
    ∃ r, Table.get? (Gateway.counting 0) demoWaiting.gateway.flight.pending = some r ∧
      r.activation.blocking = true ∧ Value.null.Held 126 ∧
      Completion.codec.encode (demoCompletion (some .null)) ≠
        Completion.codec.encode (demoCompletion none) ∧
      (Waiter.open r.number).poll (demoWaiting.consumeMessage Completion.topic
          (Completion.codec.encode (demoCompletion (some .null)))).gateway.flight =
        (.served, .result (.ofCompletion (demoCompletion none))) ∧
      ActivationResult.ofCompletion (demoCompletion (some .null)) ≠
        .ofCompletion (demoCompletion none) := by
  have held : Value.null.Held 126 := ⟨rfl, by decide, by decide⟩
  obtain ⟨r, pending, blocking⟩ := demoWaiting_pending
  have output : ∀ v ∈ (demoCompletion (some .null)).result, v.Held 126 := by
    rintro _ ⟨⟩
    exact held
  refine ⟨r, pending, blocking, held, by decide +kernel,
    Simulation.poll_consumed output pending blocking, ?_⟩
  intro same
  cases congrArg ActivationResult.result same

end Dispatch
