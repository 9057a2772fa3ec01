import Dispatch.Http.Api
import Dispatch.Simulation.Invoker

/-!
# Simulation

A gateway on a virtual clock, together with callers who wait, consumers of the topics that carry
completions and heartbeats, simulated invokers, and an observer who reads topics. Nothing happens
between the operations but what `advance` lets happen: the clock goes from one due time to the
next, and at each of them everything that can happen does, in the order of `settle`.
-/

set_option autoImplicit false

namespace Dispatch

/-- What a caller gets. -/
inductive CallResult where
  | outcome (outcome : Outcome)
  | refused (fault : SubmitFault)
  | response (response : Http.Response)
deriving Repr

/-- A caller who waits for a registration, and until when. -/
structure Waiting where
  id : ActivationId
  number : Nat
  lapse : Option Instant
  overHttp : Bool
deriving DecidableEq, Repr

/-- A call that is not yet read. -/
inductive Call where
  | waiting (w : Waiting)
  | ended (result : CallResult)
deriving Repr

/-- What runs on the side, by topic. -/
inductive Task where
  | consumer
  | invoker (i : SimulatedInvoker)
  /-- An invoker that could not get its topic. -/
  | idle

/-- Everything that is simulated. -/
structure Simulation where
  gateway : Gateway
  /-- What the sleeps of simulated invokers are left to. -/
  timer : SleepTimer
  now : Instant
  /-- What the calendar reads, in milliseconds. -/
  calendar : UInt64
  calls : Table Nat Call
  /-- How many calls there have been. -/
  called : Nat
  /-- Topics that the observer reads. -/
  observed : List String
  /-- What runs on the side; simulated invokers in the order in which they set their timers, which
  is the order in which timers for one instant go off. -/
  tasks : Table String Task
  sleepers : List Sleeper

namespace Simulation

def new (gateway : Gateway) (timer : SleepTimer) : Simulation :=
  ⟨gateway, timer, .origin, 0, [], 0, [], [], []⟩

/-- Changes the gateway alone. -/
def modifyGateway (f : Gateway → Gateway) (s : Simulation) : Simulation :=
  { s with gateway := f s.gateway }

/-! ## What happens by itself -/

/-- A result in the form that its caller wants. -/
def resultFor (w : Waiting) (o : Outcome) : CallResult :=
  if w.overHttp then .response (Api.responseTo o) else .outcome o

/-- The caller whose patience has ended gets the identifier alone. -/
def endIfOverdue (now : Instant) : Call → Call
  | .ended r => .ended r
  | .waiting w =>
    match w.lapse with
    | some t => if t ≤ now then .ended (resultFor w (.accepted w.id)) else .waiting w
    | none => .waiting w

/-- The caller whose activation has ended gets its result, if it has one. -/
def endIfAnswered (answers : Table Nat Answer) : Call → Call
  | .ended r => .ended r
  | .waiting w =>
    match Table.get? w.number answers with
    | some (.result r) => .ended (resultFor w (.completed r))
    | some .closed => .ended (resultFor w (.accepted w.id))
    | none => .waiting w

def modifyCalls (f : Call → Call) (s : Simulation) : Simulation :=
  { s with calls := s.calls.map fun (k, c) => (k, f c) }

/-- Publishes a message; one that the bus refuses is lost. -/
def tryPublish (topic : String) (text : Bytes) (s : Simulation) : Simulation :=
  match s.gateway.bus.publish topic text with
  | .ok bus => s.modifyGateway ({ · with bus })
  | .error _ => s

/-- Publishes a simulated invoker's heartbeat. -/
def publishHeartbeat (i : SimulatedInvoker) (status : InvokerStatus) (s : Simulation) :
    Simulation :=
  s.tryPublish Heartbeat.topic (Heartbeat.codec.encode (i.heartbeat status s.calendar))

/-- Publishes a heartbeat if it is time for it, and sets the timer for the next one. -/
def beatIfDue (topic : String) (t : Task) (s : Simulation) : Simulation :=
  match t with
  | .invoker i =>
    if i.nextHeartbeat ≤ s.now then
      { s.publishHeartbeat i .up with
        tasks := Table.set topic (.invoker i.rearmed) (Table.erase topic s.tasks) }
    else s
  | _ => s

/-- Publishes the completions of activations that have slept. -/
def wake (s : Simulation) : Simulation :=
  let (due, asleep) := s.sleepers.partition (·.due ≤ s.now)
  due.foldl (fun s d => s.tryPublish Completion.topic (Completion.codec.encode d.completion))
    { s with sleepers := asleep }

/-- Takes all messages of a topic. -/
def takeAll (topic : String) (s : Simulation) : Simulation × List Bytes :=
  let t := s.gateway.bus.topic topic
  if t.queue.isEmpty then (s, [])
  else (s.modifyGateway fun g => { g with bus := g.bus.put topic { t with queue := [] } }, t.queue)

/-- Takes in a completion or, from every other topic, a heartbeat; other texts are passed over. -/
def consumeMessage (topic : String) (s : Simulation) (text : Bytes) : Simulation :=
  if topic = Completion.topic then
    match Completion.codec.decode text with
    | .ok c => s.modifyGateway fun g => (g.processCompletion c s.calendar).1
    | .error _ => s
  else
    match Heartbeat.codec.decode text with
    | .ok h => s.modifyGateway fun g => g.processHeartbeat h s.now
    | .error _ => s

/-- Whether a consumer breaks off at a message. -/
def breaksOff (topic : String) (s : Simulation) (text : Bytes) : Bool :=
  if topic = Completion.topic then false
  else
    match Heartbeat.codec.decode text with
    | .ok h => s.gateway.breaksOff h
    | .error _ => false

/-- Drops a topic's receiver. -/
def dropReceiver (topic : String) (s : Simulation) : Simulation :=
  s.modifyGateway fun g => { g with bus := g.bus.drop topic }

/-- Takes in messages one after the other. A consumer that breaks off comes to its end, and its
receiver goes with the messages that are left. -/
def consumeAll (topic : String) : List Bytes → Simulation → Simulation
  | [], s => s
  | text :: rest, s =>
    if s.breaksOff topic text then s.dropReceiver topic
    else consumeAll topic rest (s.consumeMessage topic text)

/-- Lets a consumer take in all messages of its topic. -/
def consume (topic : String) (t : Task) (s : Simulation) : Simulation :=
  match t with
  | .consumer =>
    let (s, texts) := s.takeAll topic
    s.consumeAll topic texts
  | _ => s

/-- Lets a simulated invoker start all activations of its topic. -/
def startActivations (topic : String) (t : Task) (s : Simulation) : Simulation :=
  match t with
  | .invoker i =>
    let (s, texts) := s.takeAll topic
    { s with sleepers := s.sleepers ++ texts.filterMap (i.accept? s.timer s.now) }
  | _ => s

/-- Does something for each task. -/
def forTasks (f : String → Task → Simulation → Simulation) (s : Simulation) : Simulation :=
  s.tasks.foldl (fun s (topic, t) => f topic t s) s

/-- Everything that can happen now: callers lose patience, deadlines pass, simulated invokers
report, finish and start activations, consumers take in what was published, and callers get their
results. -/
def settle (s : Simulation) : Simulation :=
  let s := s.modifyCalls (endIfOverdue s.now)
  let s := s.modifyGateway fun g => { g with flight := g.flight.fireDue s.now }
  let s := s.forTasks beatIfDue
  let s := s.wake
  let s := (s.forTasks startActivations).wake
  let s := s.forTasks consume
  s.modifyCalls (endIfAnswered s.gateway.flight.answers)

/-! ## Time -/

/-- The earlier of two times, if there are any. -/
def earlier? : Option Instant → Option Instant → Option Instant
  | none, b => b
  | a, none => a
  | some a, some b => some (if b < a then b else a)

def callDue? : Call → Option Instant
  | .waiting w => w.lapse
  | .ended _ => none

def taskDue? : Task → Option Instant
  | .invoker i => some i.nextHeartbeat
  | _ => none

/-- When something happens next. -/
def nextDue? (s : Simulation) : Option Instant :=
  let dues := s.calls.map (callDue? ·.2) ++ s.tasks.map (taskDue? ·.2) ++
    s.sleepers.map (some ·.due)
  dues.foldl earlier? s.gateway.flight.nextDue?

/-- Goes from due time to due time up to `target`. Each step takes at least a nanosecond, so
`fuel` need be no more than the nanoseconds to go. -/
def runTo (target : Instant) : (fuel : Nat) → Simulation → Simulation
  | 0, s => s
  | fuel + 1, s =>
    match s.nextDue? with
    | none => s
    | some t =>
      if t ≤ target then runTo target fuel { s with now := if t < s.now then s.now else t }.settle
      else s

/-- Lets time pass. -/
def advance (s : Simulation) (span : Duration) : Simulation :=
  let target : Instant := ⟨s.now.nanos + span.nanos⟩
  { runTo target (span.nanos + 1) s with now := target }.settle

/-! ## Calls -/

/-- A call that has ended, or its number. -/
inductive CallState where
  | ended (result : CallResult)
  | pending (number : Nat)
  | unknown

/-- Reads a call; a result is read once. -/
def poll (s : Simulation) (number : Nat) : Simulation × CallState :=
  match Table.get? number s.calls with
  | some (.ended r) => ({ s with calls := Table.erase number s.calls }, .ended r)
  | some (.waiting _) => (s, .pending number)
  | none => (s, .unknown)

/-- Lets a caller go away. -/
def cancel (s : Simulation) (number : Nat) : Simulation :=
  { s with calls := Table.erase number s.calls }

/-- Gives a call its number, lets happen what can, and reads it. -/
def call (s : Simulation) (c : Call) : Simulation × CallState :=
  let number := s.called
  let s := { s with calls := Table.set number c s.calls, called := number + 1 }
  s.settle.poll number

/-- The call of a submission that was published. -/
def callFor (s : Simulation) (p : Published) (patience : Option Duration) (overHttp : Bool) :
    Call :=
  match p.awaits with
  | none =>
    .ended (if overHttp then .response (Api.responseTo (.accepted p.id))
      else .outcome (.accepted p.id))
  | some number =>
    .waiting ⟨p.id, number, patience.map (s.now + ·), overHttp⟩

/-- Submits a request. -/
def submit (s : Simulation) (r : Request) : Simulation × CallState :=
  let (gateway, result) := s.gateway.submit r s.now s.calendar
  let s := { s with gateway }
  match result with
  | .ok published => s.call (s.callFor published r.patience false)
  | .error f => s.call (.ended (.refused f))

/-- Sends a request over HTTP. -/
def http (s : Simulation) (r : Http.Request) : Simulation × CallState :=
  let (gateway, reply) := Api.handle s.gateway r s.now s.calendar
  let s := { s with gateway }
  match reply with
  | .done response => s.call (.ended (.response response))
  | .submitted published patience => s.call (s.callFor published patience true)

/-! ## Operations on the gateway -/

def heartbeat (s : Simulation) (h : Heartbeat) : Simulation :=
  (s.modifyGateway (·.processHeartbeat h s.now)).settle

def complete (s : Simulation) (c : Completion) : Simulation × Resolution :=
  let (gateway, resolution) := s.gateway.processCompletion c s.calendar
  ({ s with gateway }.settle, resolution)

def expire (s : Simulation) (id : ActivationId) : Simulation × Bool :=
  let (flight, done) := s.gateway.flight.expire id
  ((s.modifyGateway ({ · with flight })).settle, done)

def abandon (s : Simulation) (id : ActivationId) : Simulation × Bool :=
  let (flight, done) := s.gateway.flight.abandon id
  ((s.modifyGateway ({ · with flight })).settle, done)

def list (s : Simulation) : Simulation × List InvokerInfo :=
  let (gateway, infos) := s.gateway.listInvokers
  ({ s with gateway }, infos)

def remove (s : Simulation) (id : InvokerId) : Simulation × Bool :=
  let (gateway, known) := s.gateway.removeInvoker id
  ({ s with gateway }, known)

def sweep (s : Simulation) : Simulation × List Transition :=
  let (gateway, transitions) := s.gateway.sweep s.now
  ({ s with gateway }, transitions)

def put (s : Simulation) (a : Action) : Except StoreFault Simulation :=
  (s.gateway.store.put a).map fun store => s.modifyGateway ({ · with store })

/-! ## Topics -/

/-- Publishes a text. -/
def publish (s : Simulation) (topic : String) (text : Bytes) : Except BusFault Simulation :=
  (s.gateway.bus.publish topic text).map fun bus => (s.modifyGateway ({ · with bus })).settle

/-- Lets the observer subscribe, if that has not happened. -/
def observe (s : Simulation) (topic : String) : Except BusFault Simulation :=
  if s.observed.contains topic then .ok s
  else
    (s.gateway.bus.subscribe topic).map fun bus =>
      { s.modifyGateway ({ · with bus }) with observed := topic :: s.observed }

/-- Lets the observer read the oldest message of a topic. -/
def receive (s : Simulation) (topic : String) : Except BusFault (Simulation × Option Bytes) := do
  let s ← s.observe topic
  match s.gateway.bus.receive? topic with
  | none => return (s, none)
  | some (text, bus) => return ((s.modifyGateway ({ · with bus })).settle, some text)

/-- Lets the observer drop a topic, which it may first have to subscribe to. -/
def close (s : Simulation) (topic : String) : Except BusFault Simulation := do
  let s ← s.observe topic
  return { s with observed := s.observed.filter (· ≠ topic) }.dropReceiver topic

/-! ## Tasks -/

/-- Ends a task: a simulated invoker reports that it shuts down, and the receiver goes. -/
def endTask (topic : String) (t : Task) (s : Simulation) : Simulation :=
  match t with
  | .consumer => s.dropReceiver topic
  | .invoker i => (s.publishHeartbeat i .shuttingDown).dropReceiver topic
  | .idle => s

/-- Ends the task of a topic, if there is one; says whether there was. -/
def stop (s : Simulation) (topic : String) : Simulation × Bool :=
  match Table.get? topic s.tasks with
  | none => (s, false)
  | some t => (({ s with tasks := Table.erase topic s.tasks }.endTask topic t).settle, true)

/-- Starts a consumer of a topic. -/
def startConsumer (s : Simulation) (topic : String) : Except BusFault Simulation :=
  (s.gateway.bus.subscribe topic).map fun bus =>
    { s.modifyGateway ({ · with bus }) with tasks := Table.set topic .consumer s.tasks }.settle

/-- Starts a simulated invoker; one that cannot get its topic, or has no time between two
heartbeats, ends at once. It takes the place of the one before it. -/
def startInvoker (s : Simulation) (id : InvokerId) (capacity : Capacity) (every : Duration) :
    Simulation :=
  let topic := id.topic
  let (s, task) :=
    match s.gateway.bus.subscribe topic with
    | .ok bus =>
      let s := s.modifyGateway ({ · with bus })
      if every.isZero then (s.dropReceiver topic, Task.idle)
      else (s, .invoker ⟨id, capacity, every, s.now⟩)
    | .error _ => (s, .idle)
  let s := (s.stop topic).1
  { s with tasks := Table.set topic task s.tasks }.settle

end Simulation

end Dispatch
