import Dispatch.Bus
import Dispatch.Fleet.Scheduler
import Dispatch.InFlight
import Dispatch.Store

/-!
# Dispatch gateway

A submission looks up its action, reserves capacity on an invoker, registers the activation and
publishes it on the invoker's topic. Completions and heartbeats come back from the invokers. Every
step is a function of the gateway, the time and the input; nothing else changes.
-/

set_option autoImplicit false

namespace Dispatch

/-- A request to run an action. -/
structure Request where
  /-- The namespace on whose behalf the action runs. -/
  space : String
  action : QualifiedName
  payload : Json.Value
  /-- Whether the caller waits for the result. -/
  blocking : Bool
  /-- How long a caller waits at most; the activation runs under the action's own limit. -/
  patience : Option Duration
  /-- A home ordinal for the placement. -/
  hint : Option UInt64
deriving Inhabited

/-- Why a submission is refused. -/
inductive SubmitFault where
  | actionNotFound (action : QualifiedName)
  | store (cause : StoreFault)
  | overload (action : QualifiedName) (pool : Pool) (memory : UInt64)
  | dispatch (cause : BusFault)
  /-- The clock cannot name the deadline: the submission breaks off where it is. -/
  | deadlineOutOfRange
deriving DecidableEq, Repr

def SubmitFault.message : SubmitFault → String
  | .actionNotFound action => "action not found: " ++ action.text
  | .store cause => "entity store error: " ++ cause.message
  | .overload action pool memory =>
    "no " ++ pool.name ++ " invoker available for " ++ action.text ++ " (" ++
      toString memory.toNat ++ " MB)"
  | .dispatch cause => "failed to dispatch activation: " ++ cause.message
  | .deadlineOutOfRange => "deadline out of range"

/-- A published submission, and the number of the registration that its caller waits for. -/
structure Published where
  id : ActivationId
  awaits : Option Nat
deriving DecidableEq, Repr

/-- The whole dispatcher. -/
structure Gateway where
  store : Store
  bus : Bus
  monitor : HealthMonitor
  registry : Registry
  flight : InFlight
  maxProbes : UInt64
  /-- The supply of identifiers, and how many of them are used up. -/
  mint : Nat → ActivationId
  minted : Nat

namespace Gateway

/-- A gateway that has seen nothing yet. -/
def new (config : Config) (store : Store) (bus : Bus) (mint : Nat → ActivationId) : Gateway where
  store
  bus
  monitor := .new config.health
  registry := .new config.balancer.blackboxFraction
  flight := .new config.balancer.grace (.new config.balancer.overProvision)
  maxProbes := config.balancer.maxProbes
  mint
  minted := 0

def ledger (g : Gateway) : Ledger := g.flight.ledger

def counters (g : Gateway) : Counters := g.flight.counters

def count (o : Counters.Occurrence) (g : Gateway) : Gateway :=
  { g with flight := g.flight.count o }

/-- The action of a request. -/
def lookUp (g : Gateway) (name : QualifiedName) : Except SubmitFault Action :=
  match g.store.get name with
  | .ok a => .ok a
  | .error f => .error (if f.stage = .finding then .actionNotFound name else .store f)

/-- Reserves capacity for a request. -/
def place (g : Gateway) (r : Request) (a : Action) : Gateway × Option InvokerId :=
  let key : RoutingKey := ⟨r.space, r.action, r.hint⟩
  let (registry, ledger, chosen) :=
    Scheduler.choose g.registry g.monitor key a.pool a.limits.memory g.maxProbes g.ledger
  ({ g with registry, flight := { g.flight with ledger } }, chosen)

/-- The message that an activation's invoker gets. -/
def messageFor (a : Activation) (payload : Json.Value) (calendar : UInt64) : ActivationMessage :=
  ⟨a.id, a.space, a.action, a.invoker, a.pool, a.memory, a.blocking, payload, calendar⟩

/-- The activation of a request on the invoker chosen for it; registering it sets its deadline. -/
def activationFor (g : Gateway) (r : Request) (a : Action) (invoker : InvokerId) (now : Instant) :
    Activation :=
  ⟨g.mint g.minted, r.space, r.action, invoker, a.pool, a.limits.memory, r.blocking, now, now⟩

/-- Registers an activation with reserved capacity, unless the clock cannot name its deadline. -/
def enlist (g : Gateway) (r : Request) (a : Action) (invoker : InvokerId) (now : Instant) :
    Option Gateway :=
  (g.flight.register? (g.activationFor r a invoker now) a.limits.timeout).map fun flight =>
    { g with flight, minted := g.minted + 1 }

/-- Registers an activation with reserved capacity and publishes it; one that cannot be published
is withdrawn. -/
def dispatch (g : Gateway) (r : Request) (a : Action) (invoker : InvokerId) (now : Instant)
    (calendar : UInt64) : Gateway × Except SubmitFault Published :=
  let activation := g.activationFor r a invoker now
  match g.enlist r a invoker now with
  | none => (g, .error .deadlineOutOfRange)
  | some enlisted =>
    let text := ActivationMessage.codec.encode (messageFor activation r.payload calendar)
    match enlisted.bus.publish invoker.topic text with
    | .error f =>
      let flight := (enlisted.flight.abandon activation.id).1
      ({ enlisted with flight }.count .dispatchFailure, .error (.dispatch f))
    | .ok bus =>
      ({ enlisted with bus }.count .submitted,
        .ok ⟨activation.id, if r.blocking then some g.flight.registered else none⟩)

/-- Submits a request. -/
def submit (g : Gateway) (r : Request) (now : Instant) (calendar : UInt64) :
    Gateway × Except SubmitFault Published :=
  match g.lookUp r.action with
  | .error f => (g, .error f)
  | .ok a =>
    match g.place r a with
    | (g, none) => (g.count .overload, .error (.overload r.action a.pool a.limits.memory))
    | (g, some invoker) => g.dispatch r a invoker now calendar

/-- Takes in a completion. -/
def processCompletion (g : Gateway) (c : Completion) (calendar : UInt64) : Gateway × Resolution :=
  let (flight, resolution) := g.flight.resolve c
  let monitor :=
    match resolution with
    | .completed a _ => g.monitor.recordUserAction a.invoker calendar
    | .duplicate => g.monitor
  ({ g with flight, monitor }, resolution)

/-- Whether taking in a heartbeat breaks off, because the fleet cannot have a position for its
invoker. -/
def breaksOff (g : Gateway) (h : Heartbeat) : Bool :=
  (g.registry.register h.invoker).2 = .sizeOutOfRange

/-- Takes in a heartbeat: membership, then totals, then health. One that breaks off has not come
beyond membership. -/
def processHeartbeat (g : Gateway) (h : Heartbeat) (now : Instant) : Gateway :=
  let (registry, _) := g.registry.register h.invoker
  let g := { g with registry }
  match registry.poolOf h.invoker with
  | none => g
  | some _ =>
    let ledger := g.ledger.setCapacity h.invoker h.capacity.totalMemory h.capacity.totalSlots
    let (monitor, _) := g.monitor.beat h.invoker h.status now
    { g with monitor, flight := { g.flight with ledger } }

/-- Takes an invoker out of rotation; says whether it has a position. -/
def removeInvoker (g : Gateway) (id : InvokerId) : Gateway × Bool :=
  match g.registry.poolOf id with
  | none => (g, false)
  | some _ => ({ g with monitor := (g.monitor.remove id).1 }, true)

/-- Counts missed heartbeats. -/
def sweep (g : Gateway) (now : Instant) : Gateway × List Transition :=
  let (monitor, transitions) := g.monitor.sweep now
  ({ g with monitor }, transitions)

/-- The row of a slot in the listing. -/
def infoOf (g : Gateway) (pool : Pool) (slot : Slot) : InvokerInfo :=
  ⟨slot.id, pool, g.monitor.health slot.id, (g.ledger.account? slot.id).getD .none,
    g.monitor.lastUserAction slot.id⟩

/-- Every invoker with a position. -/
def listInvokers (g : Gateway) : Gateway × List InvokerInfo :=
  let (registry, snapshot) := g.registry.snapshot g.monitor
  ({ g with registry }, snapshot.slots.map fun (pool, slot) => g.infoOf pool slot)

end Gateway

end Dispatch
