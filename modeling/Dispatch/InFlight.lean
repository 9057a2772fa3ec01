import Dispatch.Fleet.Ledger
import Dispatch.Metrics
import Dispatch.Time

/-!
# Activations in flight

Every published activation is registered here until it ends: by its completion, by its deadline,
because it is withdrawn, or because its identifier is registered again. Each registration has a
number. Its timer fires at its deadline and expires whatever is then registered under the
identifier; its answer is what a caller who waits for it gets.
-/

set_option autoImplicit false

namespace Dispatch

/-- A published activation. -/
structure Activation where
  id : ActivationId
  /-- The namespace on whose behalf the action runs. -/
  space : String
  action : QualifiedName
  invoker : InvokerId
  pool : Pool
  memory : UInt64
  blocking : Bool
  submittedAt : Instant
  deadline : Instant
deriving DecidableEq, Repr

/-- An activation in flight and the number of its registration. -/
structure Registered where
  number : Nat
  activation : Activation
deriving DecidableEq, Repr

/-- A timer: when it fires, whom it expires, and the registration it was armed for. -/
structure Timer where
  due : Instant
  id : ActivationId
  number : Nat
deriving DecidableEq, Repr

/-- What a caller who waits for a registration gets. -/
inductive Answer where
  | result (result : ActivationResult)
  /-- The registration ended without a result. -/
  | closed
deriving Repr

/-- The table of activations in flight, with the accounts and counters that go with it. -/
structure InFlight where
  /-- Added to an activation's time limit before it is timed out. -/
  grace : Duration
  ledger : Ledger
  counters : Counters
  pending : Table ActivationId Registered
  /-- Armed timers, earliest first; of equal ones, first armed first. -/
  timers : List Timer
  /-- Answers by number of registration, for those that were waited for. -/
  answers : Table Nat Answer
  /-- How many registrations there have been. -/
  registered : Nat

/-- What a completion did. -/
inductive Resolution where
  | completed (activation : Activation) (result : ActivationResult)
  /-- No such activation is in flight. -/
  | duplicate
deriving Repr

namespace InFlight

def new (grace : Duration) (ledger : Ledger) : InFlight :=
  ⟨grace, ledger, .zero, [], [], [], 0⟩

/-- Arms a timer. -/
def insertTimer (t : Timer) : List Timer → List Timer
  | [] => [t]
  | u :: rest => if t.due < u.due then t :: u :: rest else u :: insertTimer t rest

/-- Disarms the timer of a registration. -/
def disarm (number : Nat) (f : InFlight) : InFlight :=
  { f with timers := f.timers.filter (·.number ≠ number) }

/-- Answers a registration, if its caller waits. -/
def answer (r : Registered) (a : Answer) (f : InFlight) : InFlight :=
  if r.activation.blocking then { f with answers := Table.set r.number a f.answers } else f

/-- Gives back what an activation had reserved. -/
def giveBack (a : Activation) (f : InFlight) : InFlight :=
  { f with ledger := f.ledger.release a.invoker a.memory }

def count (o : Counters.Occurrence) (f : InFlight) : InFlight :=
  { f with counters := f.counters.record o }

/-- Takes a registration out of the table. -/
def forget (id : ActivationId) (f : InFlight) : InFlight :=
  { f with pending := Table.erase id f.pending }

/-- The activation in flight under an identifier. -/
def get? (f : InFlight) (id : ActivationId) : Option Activation :=
  (Table.get? id f.pending).map (·.activation)

/-- Ends the registration that a new one of its identifier replaces. -/
def replaced (id : ActivationId) (f : InFlight) : InFlight :=
  match Table.get? id f.pending with
  | none => f
  | some r => (f.forget id |>.disarm r.number |>.giveBack r.activation |>.answer r .closed)

/-- When an activation with a time limit is timed out; the clock may be unable to name it. -/
def deadline? (f : InFlight) (submittedAt : Instant) (limit : Duration) : Option Instant :=
  (submittedAt.after? limit).bind (·.after? f.grace)

/-- Registers an activation whose capacity is reserved, and arms its timer. -/
def add (f : InFlight) (a : Activation) : InFlight :=
  let number := f.registered
  let f := f.replaced a.id
  { f with
    pending := Table.set a.id ⟨number, a⟩ f.pending
    timers := insertTimer ⟨a.deadline, a.id, number⟩ f.timers
    registered := number + 1 }

/-- Registers an activation with its deadline, unless the clock cannot name it. -/
def register? (f : InFlight) (a : Activation) (limit : Duration) : Option InFlight :=
  (f.deadline? a.submittedAt limit).map fun deadline => f.add { a with deadline }

/-- Ends an activation by its completion; only the first completion of an activation counts. -/
def resolve (f : InFlight) (c : Completion) : InFlight × Resolution :=
  match Table.get? c.id f.pending with
  | none => (f.count .duplicate, .duplicate)
  | some r =>
    let result := ActivationResult.ofCompletion c
    let f := f.forget c.id |>.disarm r.number |>.giveBack r.activation
    (f.count (.resolved result.status) |>.answer r (.result result),
      .completed r.activation result)

/-- Ends an activation as timed out. Its timer stays armed. -/
def expire (f : InFlight) (id : ActivationId) : InFlight × Bool :=
  match Table.get? id f.pending with
  | none => (f, false)
  | some r =>
    let f := f.forget id |>.giveBack r.activation |>.count (.resolved .timeout)
    (f.answer r (.result (.timeout id)), true)

/-- Withdraws an activation that never reached its invoker. -/
def abandon (f : InFlight) (id : ActivationId) : InFlight × Bool :=
  match Table.get? id f.pending with
  | none => (f, false)
  | some r =>
    (f.forget id |>.disarm r.number |>.giveBack r.activation |>.answer r .closed, true)

/-- Lets a timer fire. -/
def fire (f : InFlight) (t : Timer) : InFlight := ((f.disarm t.number).expire t.id).1

/-- Lets every timer fire that is due. -/
def fireDue (f : InFlight) (now : Instant) : InFlight :=
  (f.timers.filter (·.due ≤ now)).foldl fire f

/-- When the next timer is due. -/
def nextDue? (f : InFlight) : Option Instant := f.timers.head?.map (·.due)

/-- How many activations in flight satisfy a condition. -/
def countWhere (f : InFlight) (p : Activation → Bool) : Nat :=
  f.pending.countP fun entry => p entry.2.activation

def inFlight (f : InFlight) : Nat := f.countWhere fun _ => true

def inFlightOn (f : InFlight) (invoker : InvokerId) : Nat := f.countWhere (·.invoker = invoker)

def inFlightIn (f : InFlight) (space : String) : Nat := f.countWhere (·.space = space)

end InFlight

/-! ## Callers who wait -/

/-- A caller's end of a registration. -/
inductive Waiter where
  | open (registration : Nat)
  /-- The result was read. -/
  | served
  | dropped
deriving DecidableEq, Repr

namespace Waiter

/-- What a caller finds when it looks. -/
inductive Reading where
  | waiting
  | result (result : ActivationResult)
  /-- There is no result, or none any more. -/
  | closed
  /-- The caller has gone. -/
  | gone
deriving Repr

/-- Looks for the result, which is read once. -/
def poll (w : Waiter) (f : InFlight) : Waiter × Reading :=
  match w with
  | .dropped => (.dropped, .gone)
  | .served => (.served, .closed)
  | .open number =>
    match Table.get? number f.answers with
    | none => (.open number, .waiting)
    | some (.result r) => (.served, .result r)
    | some .closed => (.open number, .closed)

end Waiter

end Dispatch
