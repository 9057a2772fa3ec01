import Dispatch.Action

/-!
# Activations

One run of an action: the message that an invoker gets, the completion that it sends back, and the
result that a waiting caller gets.
-/

set_option autoImplicit false

namespace Dispatch

open Json (Codec Field Value)

/-- The identifier of an activation. -/
structure ActivationId where
  text : String
deriving DecidableEq, Repr, Inhabited

namespace ActivationId

def codec : Codec ActivationId := Codec.string.map ActivationId.mk ActivationId.text

end ActivationId

/-- What an invoker is asked to run. -/
structure ActivationMessage where
  id : ActivationId
  /-- The namespace on whose behalf the action runs. -/
  space : String
  action : QualifiedName
  invoker : InvokerId
  pool : Pool
  memory : UInt64
  blocking : Bool
  /-- The arguments of the action. -/
  content : Value
  /-- When it was submitted, in milliseconds of the calendar. -/
  submittedAt : UInt64
deriving Repr

def ActivationMessage.codec : Codec ActivationMessage :=
  Codec.record "ActivationMessage"
    [.required "activation_id" ActivationId.codec, .required "namespace" .string,
      .required "action" QualifiedName.codec, .required "invoker" InvokerId.codec,
      .required "pool" Pool.codec, .required "memory_mb" .word64, .required "blocking" .bool,
      .required "content" .value, .required "submitted_at_ms" .word64]
    (fun (id, space, action, invoker, pool, memory, blocking, content, submitted, _) =>
      ⟨id, space, action, invoker, pool, memory, blocking, content, submitted⟩)
    (fun m => (m.id, m.space, m.action, m.invoker, m.pool, m.memory, m.blocking, m.content,
      m.submittedAt, ()))

/-- What an invoker says when an activation has ended. -/
structure Completion where
  id : ActivationId
  invoker : InvokerId
  success : Bool
  isSystemError : Bool
  /-- The action's output. -/
  result : Option Value
deriving Repr

namespace Completion

/-- The topic that carries completions. -/
def topic : String := "completed"

def codec : Codec Completion :=
  Codec.record "CompletionMessage"
    [.required "activation_id" ActivationId.codec, .required "invoker" InvokerId.codec,
      .required "success" .bool, .required "is_system_error" .bool, .optional "result" .value]
    (fun (id, invoker, success, systemError, result, _) =>
      ⟨id, invoker, success, systemError, result⟩)
    (fun c => (c.id, c.invoker, c.success, c.isSystemError, c.result, ()))

end Completion

/-- How an activation ended. -/
inductive ActivationStatus where
  | success
  | applicationError
  | systemError
  | timeout
deriving DecidableEq, Repr, Inhabited

namespace ActivationStatus

def name : ActivationStatus → String
  | .success => "success"
  | .applicationError => "application_error"
  | .systemError => "system_error"
  | .timeout => "timeout"

def codec : Codec ActivationStatus :=
  Codec.variants [("success", .success), ("application_error", .applicationError),
    ("system_error", .systemError), ("timeout", .timeout)] name

/-- A success is a success whatever else is said; of failures, the system's are told apart. -/
def ofFlags (success isSystemError : Bool) : ActivationStatus :=
  if success then .success else if isSystemError then .systemError else .applicationError

end ActivationStatus

/-- What a waiting caller gets. -/
structure ActivationResult where
  id : ActivationId
  status : ActivationStatus
  result : Option Value
deriving Repr

namespace ActivationResult

def ofCompletion (c : Completion) : ActivationResult :=
  ⟨c.id, .ofFlags c.success c.isSystemError, c.result⟩

/-- The result of an activation whose deadline has passed. -/
def timeout (id : ActivationId) : ActivationResult := ⟨id, .timeout, none⟩

def codec : Codec ActivationResult :=
  Codec.record "ActivationResult"
    [.required "activation_id" ActivationId.codec, .required "status" ActivationStatus.codec,
      .optional "result" .value]
    (fun (id, status, result, _) => ⟨id, status, result⟩)
    (fun r => (r.id, r.status, r.result, ()))

end ActivationResult

end Dispatch
