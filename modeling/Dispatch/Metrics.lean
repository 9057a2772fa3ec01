import Dispatch.Activation

/-!
# Counters

What has happened to submissions and activations so far.
-/

set_option autoImplicit false

namespace Dispatch

/-- One count for each outcome. -/
structure Counters where
  submitted : Nat
  overloaded : Nat
  dispatchFailures : Nat
  succeeded : Nat
  applicationErrors : Nat
  systemErrors : Nat
  timedOut : Nat
  duplicateCompletions : Nat
deriving DecidableEq, Repr

namespace Counters

def zero : Counters := ⟨0, 0, 0, 0, 0, 0, 0, 0⟩

/-- Something to count. -/
inductive Occurrence where
  /-- An activation was published to its invoker. -/
  | submitted
  /-- No invoker could take an activation. -/
  | overload
  /-- An activation could not be published. -/
  | dispatchFailure
  /-- An activation ended. -/
  | resolved (status : ActivationStatus)
  /-- A completion named no activation in flight. -/
  | duplicate
deriving DecidableEq, Repr

def record (c : Counters) : Occurrence → Counters
  | .submitted => { c with submitted := c.submitted + 1 }
  | .overload => { c with overloaded := c.overloaded + 1 }
  | .dispatchFailure => { c with dispatchFailures := c.dispatchFailures + 1 }
  | .resolved .success => { c with succeeded := c.succeeded + 1 }
  | .resolved .applicationError => { c with applicationErrors := c.applicationErrors + 1 }
  | .resolved .systemError => { c with systemErrors := c.systemErrors + 1 }
  | .resolved .timeout => { c with timedOut := c.timedOut + 1 }
  | .duplicate => { c with duplicateCompletions := c.duplicateCompletions + 1 }

/-- Activations that have ended. -/
def resolved (c : Counters) : Nat :=
  c.succeeded + c.applicationErrors + c.systemErrors + c.timedOut

open Json (Value) in
/-- The counters as an object. -/
def value (c : Counters) : Value :=
  .object [("submitted", .ofNat c.submitted), ("overloaded", .ofNat c.overloaded),
    ("dispatch_failures", .ofNat c.dispatchFailures), ("succeeded", .ofNat c.succeeded),
    ("application_errors", .ofNat c.applicationErrors), ("system_errors", .ofNat c.systemErrors),
    ("timed_out", .ofNat c.timedOut), ("duplicate_completions", .ofNat c.duplicateCompletions)]

end Counters

end Dispatch
