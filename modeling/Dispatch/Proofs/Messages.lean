import Dispatch.Http.Api
import Dispatch.Simulation.Invoker
import Dispatch.Proofs.GatewayRuns
import Dispatch.Proofs.Json.Records

/-!
# What an invoker can read

An activation message echoes every field but its content, and that too unless it is nested as deep
as a text may be at all: the message is one container more around it (`decode_encode`). The value
of a request's body may be that deep, so the invoker of an accepted invocation reads what was asked
for exactly if the body is at least one container short of the depth that was let in
(`submitted_legible_iff`); a body of the full depth is accepted, published and then passed over
(`submitted_in_vain`).
-/

set_option autoImplicit false

namespace Dispatch

open Json (Codec Scope Value)

/-! ## Echoes -/

section Echoes

variable {scope : Scope}

theorem ActivationId.echoes (id : ActivationId) : codec.Echoes scope id (.ok id) :=
  Codec.echoes_map (Codec.echoes_string id.text)

theorem InvokerId.echoes (id : InvokerId) : codec.Echoes scope id (.ok id) :=
  Codec.echoes_map (Codec.echoes_word64Named "usize" id.ordinal)

theorem Pool.echoes (pool : Pool) : codec.Echoes scope pool (.ok pool) := by
  cases pool <;> exact Codec.echoes_variants rfl

theorem QualifiedName.echoes (room : 0 < scope.depth) (n : QualifiedName) :
    codec.Echoes scope n (.ok n) :=
  Codec.echoes_record (Json.Scope.enter_of_pos room) (by decide)
    (.cons rfl (Codec.echoes_string n.space) (.cons rfl (Codec.echoes_string n.name) .nil)) rfl

end Echoes

namespace ActivationMessage

/-- A message is read with its content in canonical form, or refused where the content is too deep
for one more container around it. -/
theorem decode_encode_any {m : ActivationMessage} (integral : m.content.Integral) :
    codec.decode (codec.encode m) =
      if m.content.depth < Json.deepest then .ok { m with content := m.content.canonical }
      else .error (.malformed .nestingTooDeep) := by
  have content : Codec.value.Echoes ⟨Json.deepest - 1, false⟩ m.content _ :=
    Codec.echoes_value integral
  have inner : m.content.depth ≤ Json.deepest - 1 ↔ m.content.depth < Json.deepest :=
    (Nat.lt_iff_le_pred (by decide)).symm
  refine Codec.decode_encode (Codec.echoes_record rfl (by decide)
    (.cons rfl m.id.echoes (.cons rfl (Codec.echoes_string m.space)
      (.cons rfl (QualifiedName.echoes (by decide) m.action) (.cons rfl m.invoker.echoes
        (.cons rfl m.pool.echoes (.cons rfl (Codec.echoes_word64Named "u64" m.memory)
          (.cons rfl (Codec.echoes_bool m.blocking) (.cons rfl content
            (.cons rfl (Codec.echoes_word64Named "u64" m.submittedAt) .nil))))))))) ?_)
  by_cases shallow : m.content.depth < Json.deepest
  · simp only [inner, shallow, if_true]
    rfl
  · simp only [inner, shallow, if_false]
    rfl

/-- **A message is read as it was written, or refused where its content is too deep for one more
container around it.** -/
theorem decode_encode {m : ActivationMessage} (canonical : m.content.canonical = m.content)
    (integral : m.content.Integral) :
    codec.decode (codec.encode m) =
      if m.content.depth < Json.deepest then .ok m else .error (.malformed .nestingTooDeep) := by
  rw [decode_encode_any integral, canonical]

/-- A simulated invoker starts what it can read, and passes over what is too deep. -/
theorem isSome_accept?_encode_iff {m : ActivationMessage}
    (canonical : m.content.canonical = m.content) (integral : m.content.Integral)
    (i : SimulatedInvoker) (timer : SleepTimer) (now : Instant) :
    (i.accept? timer now (codec.encode m)).isSome ↔ m.content.depth < Json.deepest := by
  rw [SimulatedInvoker.accept?, decode_encode canonical integral]
  by_cases shallow : m.content.depth < Json.deepest
  · rw [if_pos shallow]
    exact ⟨fun _ => shallow, fun _ => rfl⟩
  · rw [if_neg shallow]
    exact ⟨nofun, fun less => absurd less shallow⟩

end ActivationMessage

/-! ## Invocations over HTTP -/

namespace Api

open Http (Endpoint Target)

/-- The parts of an invocation that an address and a query stand for. -/
structure Invokes (r : Http.Request) (request : Request) : Prop where
  method : r.method = "POST"
  read : ∃ space name, Endpoint.ofPath? (Target.ofText r.target).path = some (.action space name) ∧
    readInvocation space name (Target.ofText r.target).query r.body = .ok request

section Handle

variable {g after : Gateway} {now : Instant} {calendar : UInt64} {published : Published}
  {patience : Option Duration} {space name query body : Bytes}

theorem invoke_eq_submitted
    (submitted : invoke g space name query body now calendar =
      (after, .submitted published patience)) :
    ∃ request, readInvocation space name query body = .ok request ∧
      g.submit request now calendar = (after, .ok published) := by
  unfold invoke at submitted
  split at submitted
  · cases submitted
  · rename_i request read
    split at submitted
    · rename_i result
      cases submitted
      exact ⟨request, read, result⟩
    · cases submitted

theorem serve_eq_submitted {e : Endpoint}
    (submitted : serve g e query body now calendar = (after, .submitted published patience)) :
    ∃ space name, e = .action space name ∧
      invoke g space name query body now calendar = (after, .submitted published patience) := by
  cases e with
  | invokers | activations | metrics => cases submitted
  | invoker id =>
      simp only [serve] at submitted
      split at submitted
      · cases submitted
      · split at submitted <;> cases submitted
  | action space name => exact ⟨space, name, rfl, submitted⟩

/-- Only an invocation whose submission is published is answered later. -/
theorem handle_eq_submitted {r : Http.Request}
    (submitted : handle g r now calendar = (after, .submitted published patience)) :
    ∃ request, Invokes r request ∧ g.submit request now calendar = (after, .ok published) := by
  simp only [handle] at submitted
  split at submitted
  · cases submitted
  rename_i e address
  split at submitted
  · rename_i known
    have served : serve g e (Target.ofText r.target).query r.body now calendar =
        (after, .submitted published patience) := by
      split at submitted
      · cases submitted
      · exact submitted
    obtain ⟨space, name, rfl, invoked⟩ := serve_eq_submitted served
    obtain ⟨request, read, result⟩ := invoke_eq_submitted invoked
    exact ⟨request, ⟨of_decide_eq_true known, space, name, address, read⟩, result⟩
  · cases submitted

/-- The payload is the value of the body, or an empty object where there is none. -/
theorem payload_of_readInvocation {request : Request}
    (read : readInvocation space name query body = .ok request) :
    body = [] ∧ request.payload = .object [] ∨ Json.valueOfText? body = .ok request.payload := by
  obtain ⟨⟨space, name⟩, -, read⟩ := Json.bind_eq_ok read
  obtain ⟨options, -, read⟩ := Json.bind_eq_ok read
  unfold invocation at read
  split at read
  · rename_i empty
    cases read
    exact .inl ⟨List.isEmpty_iff.mp empty, rfl⟩
  · split at read
    · rename_i payload value
      cases read
      exact .inr value
    · cases read

/-- Every payload is canonical and within the depth of what is kept. -/
theorem payload_within {request : Request}
    (read : readInvocation space name query body = .ok request) :
    request.payload.canonical = request.payload ∧ request.payload.depth ≤ Json.deepest := by
  rcases payload_of_readInvocation read with ⟨-, same⟩ | value
  · rw [same]
    exact ⟨rfl, by decide⟩
  · exact Json.valueOfText?_eq_ok value

end Handle

/-! ## Lists in lists -/

/-- `n + 1` lists, one in the other. -/
def nested : Nat → Json.Value
  | 0 => .array []
  | n + 1 => .array [nested n]

theorem depth_nested (n : Nat) : (nested n).depth = n + 1 := by
  induction n with
  | zero => rfl
  | succ n ih =>
      rw [nested, Json.Value.depth, Json.itemsDepth, Json.itemsDepth, ih]
      rfl

theorem canonical_nested (n : Nat) : (nested n).canonical = nested n := by
  induction n with
  | zero => rfl
  | succ n ih =>
      rw [nested, Json.Value.canonical, Json.canonicalItems, Json.canonicalItems, ih]

theorem integral_nested (n : Nat) : (nested n).Integral := by
  induction n with
  | zero => exact fun n member => absurd member List.not_mem_nil
  | succ n ih => exact Json.integral_array.mpr (List.forall_mem_singleton.mpr ih)

/-- The text of these lists is read while they are not too many. -/
theorem valueOfText?_nested {n : Nat} (shallow : n < Json.deepest) :
    Json.valueOfText? (nested n).print = .ok (nested n) := by
  have read := (Json.within_valueOfText?_print (integral_nested n)).ok
  rw [depth_nested, canonical_nested] at read
  exact read shallow

/-- The invocation of a demonstration action with lists in lists. -/
def demoPost (n : Nat) : Http.Request :=
  ⟨"POST", Json.ascii "/api/v1/namespaces/guest/actions/sleep", (nested n).print⟩

/-- The demonstration gateway when its first invoker has reported. -/
def demoFleet : Gateway := Gateway.demo.run [.heartbeat ⟨⟨0⟩, ⟨1024, 0, 4, 0⟩, 0, .up⟩ .origin]

/-- The submission that a reply leaves open. -/
def Reply.submitted? : Reply → Option (Published × Option Duration)
  | .done _ => none
  | .submitted published patience => some (published, patience)

theorem of_submitted? {answer : Gateway × Reply} {published : Published}
    {patience : Option Duration}
    (same : answer.2.submitted? = some (published, patience)) :
    ∃ after, answer = (after, .submitted published patience) := by
  obtain ⟨after, reply⟩ := answer
  cases reply with
  | done => cases same
  | submitted =>
      cases same
      exact ⟨after, rfl⟩

/-! ## What was accepted and what is read -/

/-- **An invoker can read what was accepted, unless it is as deep as a body may be.** Whoever
submits an invocation over HTTP has one message published for it, at the end of the topic of one
invoker; it carries the value of the body. If the numbers in that value are integers of 64 bits,
the message is read as it was written exactly if the value is less deep than what is let in;
otherwise it is refused for its depth, and a simulated invoker passes it over. -/
theorem submitted_legible_iff {g after : Gateway} {r : Http.Request} {now : Instant}
    {calendar : UInt64} {published : Published} {patience : Option Duration}
    (submitted : handle g r now calendar = (after, .submitted published patience)) :
    ∃ (request : Request) (a : Action) (invoker : InvokerId), Invokes r request ∧
      (r.body = [] ∧ request.payload = .object [] ∨
        Json.valueOfText? r.body = .ok request.payload) ∧
      request.payload.depth ≤ Json.deepest ∧ g.lookUp request.action = .ok a ∧
      let message :=
        Gateway.messageFor (g.activationFor request a invoker now) request.payload calendar
      let text := ActivationMessage.codec.encode message
      published.id = message.id ∧
      (after.bus.topic invoker.topic).queue = (g.bus.topic invoker.topic).queue ++ [text] ∧
      (request.payload.Integral →
        ActivationMessage.codec.decode text =
          (if request.payload.depth < Json.deepest then .ok message
            else .error (.malformed .nestingTooDeep)) ∧
        ∀ (i : SimulatedInvoker) (timer : SleepTimer) (time : Instant),
          (i.accept? timer time text).isSome ↔ request.payload.depth < Json.deepest) := by
  obtain ⟨request, invokes, result⟩ := handle_eq_submitted submitted
  obtain ⟨space, name, -, read⟩ := invokes.read
  obtain ⟨canonical, depth⟩ := payload_within read
  have outcome := Gateway.submit_outcome g request now calendar
  rw [result] at outcome
  cases outcome with
  | @published a slot enlisted bus lookUp target enlist publish =>
      have kept : enlisted.bus = g.bus := by
        obtain ⟨deadline, -, rfl⟩ := Gateway.enlist_eq_some enlist
        rfl
      obtain ⟨-, rfl⟩ := Bus.publish_eq_ok_iff.mp publish
      have body := payload_of_readInvocation read
      refine ⟨request, a, slot.id, invokes, body, depth, lookUp, rfl, ?_, ?_⟩
      · show (Bus.topic (Bus.put _ _ _) _).queue = _
        rw [Bus.topic_put, if_pos rfl, kept]
      · intro integral
        exact ⟨ActivationMessage.decode_encode canonical integral,
          ActivationMessage.isSome_accept?_encode_iff canonical integral⟩

/-- As many lists in lists as a message may have inside are read by the invoker. -/
theorem submitted_legible_iff_nested :
    ∃ after published m, handle demoFleet (demoPost 125) .origin 0 =
        (after, .submitted published none) ∧
      (after.bus.topic m.invoker.topic).queue = (demoFleet.bus.topic m.invoker.topic).queue ++
        [ActivationMessage.codec.encode m] ∧
      m.content = nested 125 ∧
      ActivationMessage.codec.decode (ActivationMessage.codec.encode m) = .ok m := by
  have reply : (handle demoFleet (demoPost 125) .origin 0).2.submitted? =
      some (⟨Gateway.counting 0, none⟩, none) := by decide +kernel
  obtain ⟨after, submitted⟩ := of_submitted? reply
  obtain ⟨request, a, invoker, -, body, -, -, -, queue, legible⟩ := submitted_legible_iff submitted
  have payload : request.payload = nested 125 := by
    rcases body with ⟨none, -⟩ | read
    · exact absurd none (List.cons_ne_nil _ _)
    · exact Except.ok.inj (read.symm.trans (valueOfText?_nested (by decide)))
  have integral : request.payload.Integral := payload ▸ integral_nested 125
  have shallow : request.payload.depth < Json.deepest := by
    rw [payload, depth_nested]
    decide
  have decoded := (legible integral).1
  rw [if_pos shallow] at decoded
  exact ⟨after, _, Gateway.messageFor (demoFleet.activationFor request a invoker .origin)
    request.payload 0, submitted, queue, payload, decoded⟩

/-- **Lists in lists, as many as a body may have, are accepted and published in vain.** -/
theorem submitted_in_vain :
    ∃ after published text, handle demoFleet (demoPost 126) .origin 0 =
        (after, .submitted published none) ∧
      Json.valueOfText? (demoPost 126).body = .ok (nested 126) ∧ (nested 126).Integral ∧
      (after.bus.topic "invoker0").queue = [text] ∧
      ActivationMessage.codec.decode text = .error (.malformed .nestingTooDeep) := by
  have reply : (handle demoFleet (demoPost 126) .origin 0).2.submitted? =
      some (⟨Gateway.counting 0, none⟩, none) := by decide +kernel
  have queue : ((handle demoFleet (demoPost 126) .origin 0).1.bus.topic "invoker0").queue.map
      (fun text => (ActivationMessage.codec.decode text).map fun _ => ()) =
        [.error (.malformed .nestingTooDeep)] := by decide +kernel
  obtain ⟨after, submitted⟩ := of_submitted? reply
  rw [submitted] at queue
  obtain ⟨text, queue, refused⟩ := List.map_eq_singleton_iff.mp queue
  refine ⟨after, _, text, submitted, valueOfText?_nested (by decide), integral_nested 126, queue,
    ?_⟩
  cases decoded : ActivationMessage.codec.decode text with
  | error f =>
      rw [decoded] at refused
      cases refused
      rfl
  | ok m =>
      rw [decoded] at refused
      cases refused

end Api

end Dispatch
