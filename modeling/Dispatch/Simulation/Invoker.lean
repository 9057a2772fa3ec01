import Dispatch.Activation
import Dispatch.Time

/-!
# Simulated invokers

A simulated invoker reports its capacity at regular times and runs an activation by sleeping for
as long as the activation's arguments say, then publishes its completion. Activations sleep side
by side.
-/

set_option autoImplicit false

namespace Dispatch

open Json (Value)

/-- An invoker that only pretends to run what it is given. -/
structure SimulatedInvoker where
  id : InvokerId
  capacity : Capacity
  /-- Time between two heartbeats. -/
  every : Duration
  nextHeartbeat : Instant
deriving DecidableEq

/-- An activation that is being run: when it will be done, and what is published then. -/
structure Sleeper where
  due : Instant
  completion : Completion
deriving Repr

namespace SimulatedInvoker

/-- The argument that says how many milliseconds an activation sleeps. -/
def sleepArgument : String := "sleepTimeInMs"

/-- How long an activation with these arguments sleeps: not at all, unless the argument is there
and a natural number of 64 bits. -/
def sleepMillis (content : Value) : Nat :=
  match (content.get? sleepArgument).bind Value.natural? with
  | some n => if n ≤ Numeral.maxWord64 then n else 0
  | none => 0

/-- The invoker after a heartbeat: the next one follows after the time between two, or in the far
future if the clock cannot name that instant. -/
def rearmed (i : SimulatedInvoker) : SimulatedInvoker :=
  { i with
    nextHeartbeat := (i.nextHeartbeat.after? i.every).getD (i.nextHeartbeat + Duration.farFuture) }

def heartbeat (i : SimulatedInvoker) (status : InvokerStatus) (calendar : UInt64) : Heartbeat :=
  ⟨i.id, i.capacity, calendar, status⟩

/-- What is published when an activation has slept. -/
def completionOf (i : SimulatedInvoker) (m : ActivationMessage) : Completion :=
  ⟨m.id, i.id, true, false,
    some (.object [("invoker", InvokerId.codec.write i.id),
      ("slept_ms", .ofNat (sleepMillis m.content))])⟩

/-- Starts an activation, whose sleep is left to a timer; a text that is none is passed over. -/
def accept? (i : SimulatedInvoker) (timer : SleepTimer) (now : Instant) (text : Bytes) :
    Option Sleeper :=
  match ActivationMessage.codec.decode text with
  | .ok m =>
    some ⟨now + timer.lasts (.ofMillis (sleepMillis m.content).toUInt64), i.completionOf m⟩
  | .error _ => none

end SimulatedInvoker

end Dispatch
