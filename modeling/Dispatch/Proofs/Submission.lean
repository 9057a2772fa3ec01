import Dispatch.Proofs.GatewayRuns

/-!
# A submission is all or nothing

A submission may fail at the look-up, at the search for an invoker, or when its message is
published, with capacity reserved and the activation registered. `abandon_add` says that
withdrawing an activation undoes both, timer included. From it `submit_all_or_nothing` follows:
a refused submission leaves `Untouched` all that placements and invokers can see, and a published
one is one `Dispatched` activation and nothing else.
-/

set_option autoImplicit false

namespace Dispatch

namespace InFlight

theorem filter_insertTimer {t : Timer} {timers : List Timer}
    (apart : ∀ u ∈ timers, u.number ≠ t.number) :
    (insertTimer t timers).filter (·.number ≠ t.number) = timers := by
  induction timers with
  | nil => simp [insertTimer]
  | cons u rest ih =>
      have first : decide (u.number ≠ t.number) = true :=
        decide_eq_true (apart u List.mem_cons_self)
      have later : ∀ v ∈ rest, v.number ≠ t.number := fun v member =>
        apart v (List.mem_cons_of_mem _ member)
      rw [insertTimer]
      split
      · rw [List.filter_cons_of_neg (by simp), List.filter_eq_self]
        exact fun v member => decide_eq_true (apart v member)
      · rw [List.filter_cons, if_pos first, ih later]

/-- **Withdrawing an activation undoes its reservation and its registration.** What stays is that
its number is used up, and that whoever waited for it is told. -/
theorem abandon_add {f : InFlight} {a : Activation} (absent : Table.get? a.id f.pending = none)
    (numbered : ∀ t ∈ f.timers, t.number < f.registered)
    (room : f.ledger.accepts a.invoker a.memory = true) :
    (({ f with ledger := (f.ledger.reserve a.invoker a.memory).1 }.add a).abandon a.id).1 =
      { f with
        registered := f.registered + 1
        answers :=
          if a.blocking then Table.set f.registered .closed f.answers else f.answers } := by
  have earlier : ∀ t ∈ f.timers, t.number ≠ f.registered := fun t armed =>
    Nat.ne_of_lt (numbered t armed)
  rw [add_of_absent (f := { f with ledger := (f.ledger.reserve a.invoker a.memory).1 }) absent]
  rw [abandon_of_pending (r := ⟨f.registered, a⟩) (by rw [Table.get?_set, if_pos rfl])]
  simp only [close, Ending.disarms, Ending.record, Ending.status?, Ending.answer, if_true,
    Ledger.release_reserve room, Table.erase_set_of_fresh absent]
  rw [filter_insertTimer (t := ⟨a.deadline, a.id, f.registered⟩) earlier]

end InFlight

/-- The counters after a submission was refused. -/
def SubmitFault.counted (c : Counters) : SubmitFault → Counters
  | .overload _ _ _ => { c with overloaded := c.overloaded + 1 }
  | .dispatch _ => { c with dispatchFailures := c.dispatchFailures + 1 }
  | .actionNotFound _ => c
  | .store _ => c
  | .deadlineOutOfRange => c

namespace Gateway

/-- The accounts, the activations in flight and their timers, the queues, the membership, the
health of the fleet and the store are as before. -/
structure Untouched (g after : Gateway) : Prop where
  ledger : after.ledger = g.ledger
  pending : after.flight.pending = g.flight.pending
  timers : after.flight.timers = g.flight.timers
  bus : after.bus = g.bus
  /-- At most the snapshot handed out last is another one. -/
  registry : ∃ current builds, after.registry = { g.registry with current, builds }
  monitor : after.monitor = g.monitor
  store : after.store = g.store

/-- `activation` is what a request and its action ask for. -/
structure Asked (g : Gateway) (r : Request) (a : Action) (activation : Activation) : Prop where
  id : activation.id = g.mint g.minted
  space : activation.space = r.space
  action : activation.action = r.action
  pool : activation.pool = a.pool
  memory : activation.memory = a.limits.memory
  blocking : activation.blocking = r.blocking
  deadline : g.flight.deadline? activation.submittedAt a.limits.timeout = some activation.deadline

/-- `message` says what `activation` does, and carries the payload of the request. -/
structure Conveys (message : ActivationMessage) (activation : Activation) (r : Request) : Prop where
  id : message.id = activation.id
  space : message.space = activation.space
  action : message.action = activation.action
  invoker : message.invoker = activation.invoker
  pool : message.pool = activation.pool
  memory : message.memory = activation.memory
  blocking : message.blocking = activation.blocking
  content : message.content = r.payload

/-- One activation was published on its invoker by one message, and nothing else happened. -/
structure Dispatched (g after : Gateway) (activation : Activation) (message : ActivationMessage) :
    Prop where
  /-- The message goes to the end of the invoker's topic, whose receiver stays. -/
  topic : after.bus.topic activation.invoker.topic =
    ⟨(g.bus.topic activation.invoker.topic).queue ++ [ActivationMessage.codec.encode message],
      (g.bus.topic activation.invoker.topic).receiver⟩
  topics : ∀ name ≠ activation.invoker.topic, after.bus.topic name = g.bus.topic name
  /-- The table has one entry more, and the identifier is new. -/
  pending : after.flight.pending =
    g.flight.pending ++ [(activation.id, ⟨g.flight.registered, activation⟩)]
  fresh : g.flight.get? activation.id = none
  /-- The invoker's account has the activation's memory and one slot more in use. -/
  account : ∃ before now, g.ledger.account? activation.invoker = some before ∧
    after.ledger.account? activation.invoker = some now ∧
    now.usedMemory.toNat = before.usedMemory.toNat + activation.memory.toNat ∧
    now.usedSlots.toNat = before.usedSlots.toNat + 1 ∧
    now.totalMemory = before.totalMemory ∧ now.totalSlots = before.totalSlots
  accounts : ∀ other ≠ activation.invoker,
    after.ledger.account? other = g.ledger.account? other
  counters : after.counters = { g.counters with submitted := g.counters.submitted + 1 }
  /-- At most the snapshot handed out last is another one. -/
  registry : ∃ current builds, after.registry = { g.registry with current, builds }
  monitor : after.monitor = g.monitor
  store : after.store = g.store

theorem messageFor_conveys (activation : Activation) (r : Request) (calendar : UInt64) :
    Conveys (messageFor activation r.payload calendar) activation r :=
  ⟨rfl, rfl, rfl, rfl, rfl, rfl, rfl, rfl⟩

/-- What is enlisted after a placement is what was asked for, on the invoker that was found. -/
theorem enlisted_of_reserved {g enlisted : Gateway} {r : Request} {a : Action}
    {invoker : InvokerId} {now : Instant}
    (enlist : (g.refreshed.reserved invoker a.limits.memory).enlist r a invoker now =
      some enlisted) :
    ∃ activation, Asked g r a activation ∧ activation.invoker = invoker ∧
      (∀ payload calendar, messageFor (g.activationFor r a invoker now) payload calendar =
        messageFor activation payload calendar) ∧
      enlisted = { g.refreshed with
        flight := { g.flight with
          ledger := (g.ledger.reserve activation.invoker activation.memory).1 }.add activation
        minted := g.minted + 1 } := by
  obtain ⟨deadline, named, rfl⟩ := enlist_eq_some enlist
  exact ⟨{ g.activationFor r a invoker now with deadline },
    ⟨rfl, rfl, rfl, rfl, rfl, rfl, named⟩, rfl, fun _ _ => rfl, rfl⟩

section Enlisted

variable {g enlisted : Gateway} {r : Request} {a : Action} {invoker : InvokerId} {now : Instant}

/-- Withdrawing a submission whose message is refused leaves no trace of it. -/
theorem untouched_withdrawn (orderly : Orderly g) (supply : Function.Injective g.mint)
    (room : g.ledger.accepts invoker a.limits.memory = true)
    (enlist : (g.refreshed.reserved invoker a.limits.memory).enlist r a invoker now =
      some enlisted) :
    Untouched g { enlisted with flight := (enlisted.flight.abandon (g.mint g.minted)).1 } ∧
      (enlisted.flight.abandon (g.mint g.minted)).1.counters = g.counters := by
  obtain ⟨activation, asked, placed, -, rfl⟩ := enlisted_of_reserved enlist
  rw [← placed, ← asked.memory] at room
  have absent := orderly.fresh supply
  rw [← asked.id] at absent ⊢
  have undone := InFlight.abandon_add absent orderly.numbered room
  have ledger := congrArg InFlight.ledger undone
  have pending := congrArg InFlight.pending undone
  have timers := congrArg InFlight.timers undone
  have counters := congrArg InFlight.counters undone
  exact ⟨⟨ledger, pending, timers, rfl, g.refreshed_registry, rfl, rfl⟩, counters⟩

/-- A submission whose message is accepted is one activation dispatched. -/
theorem dispatched_published {calendar : UInt64} {bus : Bus} (orderly : Orderly g)
    (supply : Function.Injective g.mint)
    (room : g.ledger.accepts invoker a.limits.memory = true)
    (enlist : (g.refreshed.reserved invoker a.limits.memory).enlist r a invoker now =
      some enlisted)
    (publish : enlisted.bus.publish invoker.topic (ActivationMessage.codec.encode
      (messageFor (g.activationFor r a invoker now) r.payload calendar)) = .ok bus) :
    ∃ activation message, Asked g r a activation ∧ activation.invoker = invoker ∧
      Conveys message activation r ∧
      Dispatched g ({ enlisted with bus }.count .submitted) activation message := by
  obtain ⟨activation, asked, rfl, same, rfl⟩ := enlisted_of_reserved enlist
  obtain ⟨-, rfl⟩ := Bus.publish_eq_ok_iff.mp publish
  rw [← asked.memory] at room
  obtain ⟨account, known, room, reserved⟩ := Ledger.reserve_of_accepts room
  have absent := orderly.fresh supply
  rw [← asked.id] at absent
  rw [same, InFlight.add_of_absent (a := activation) (by exact absent), reserved]
  refine ⟨activation, messageFor activation r.payload calendar, asked, rfl,
    messageFor_conveys activation r calendar, ?_⟩
  constructor
  case topic =>
    show (Bus.put _ _ _).topic _ = _
    rw [Bus.topic_put, if_pos rfl]
    rfl
  case topics =>
    intro name apart
    show (Bus.put _ _ _).topic _ = _
    rw [Bus.topic_put, if_neg (Ne.symm apart)]
    rfl
  case pending => exact Table.set_of_fresh absent _
  case fresh =>
    rw [InFlight.get?, absent]
    rfl
  case account =>
    refine ⟨account, Ledger.take account activation.memory, known, ?_,
      Ledger.take_usedMemory room, Ledger.take_usedSlots room, rfl, rfl⟩
    exact (Ledger.account?_set _ _ _ _).trans (if_pos rfl)
  case accounts =>
    intro other apart
    exact (Ledger.account?_set _ _ _ _).trans (if_neg (Ne.symm apart))
  case counters => rfl
  case registry => exact g.refreshed_registry
  case monitor => rfl
  case store => rfl

end Enlisted

/-- A failed look-up is not counted. -/
theorem counted_of_unknown {g : Gateway} {name : QualifiedName} {fault : SubmitFault}
    (unknown : g.lookUp name = .error fault) (c : Counters) : fault.counted c = c := by
  unfold lookUp at unknown
  split at unknown
  · cases unknown
  · obtain rfl := Except.error.inj unknown
    split <;> rfl

/-- **A refused submission leaves no trace but the count of its refusal.** -/
theorem untouched_of_refused {g : Gateway} (orderly : Orderly g)
    (supply : Function.Injective g.mint) {r : Request} {now : Instant} {calendar : UInt64}
    {fault : SubmitFault} (refused : (g.submit r now calendar).2 = .error fault)
    (named : fault ≠ .deadlineOutOfRange) :
    Untouched g (g.submit r now calendar).1 ∧
      (g.submit r now calendar).1.counters = fault.counted g.counters := by
  have outcome := submit_outcome g r now calendar
  rw [refused] at outcome
  generalize (g.submit r now calendar).1 = after at outcome ⊢
  cases outcome with
  | unknown lookUp =>
      exact ⟨⟨rfl, rfl, rfl, rfl, ⟨_, _, rfl⟩, rfl, rfl⟩, (counted_of_unknown lookUp _).symm⟩
  | overloaded lookUp target =>
      exact ⟨⟨rfl, rfl, rfl, rfl, g.refreshed_registry, rfl, rfl⟩, rfl⟩
  | unnamed lookUp target enlist => exact absurd rfl named
  | unpublished lookUp target enlist publish =>
      have room := accepts_of_target target
      obtain ⟨untouched, counters⟩ := untouched_withdrawn orderly supply room enlist
      constructor
      · exact ⟨untouched.ledger, untouched.pending, untouched.timers, untouched.bus,
          untouched.registry, untouched.monitor, untouched.store⟩
      · rw [SubmitFault.counted, ← counters]
        rfl

/-- **A published submission dispatches what was asked for to the invoker that was chosen.** -/
theorem dispatched_of_published {g : Gateway} (orderly : Orderly g)
    (supply : Function.Injective g.mint) {r : Request} {now : Instant} {calendar : UInt64}
    {published : Published} (accepted : (g.submit r now calendar).2 = .ok published) :
    ∃ a activation message, g.lookUp r.action = .ok a ∧
      (g.place r a).2 = some activation.invoker ∧ published.id = activation.id ∧
      Asked g r a activation ∧ Conveys message activation r ∧
      Dispatched g (g.submit r now calendar).1 activation message := by
  have outcome := submit_outcome g r now calendar
  rw [accepted] at outcome
  generalize (g.submit r now calendar).1 = after at outcome ⊢
  cases outcome with
  | published lookUp target enlist publish =>
      have room := accepts_of_target target
      obtain ⟨activation, message, asked, placed, conveys, dispatched⟩ :=
        dispatched_published orderly supply room enlist publish
      refine ⟨_, activation, message, lookUp, ?_, asked.id.symm, asked, conveys, dispatched⟩
      rw [place_eq, target, placed]

/-- **A submission is all or nothing.** After any run of a new gateway with fresh identifiers, a
refused submission leaves everything untouched but the one counter of its refusal. A published one
dispatches what was asked for to the invoker that was chosen, and neither another invoker's topic
nor one of the two that all invokers share has changed. -/
theorem submit_all_or_nothing (config : Config) (store : Store) (bus : Bus)
    {mint : Nat → ActivationId} (supply : Function.Injective mint) (events : List Event)
    (r : Request) (now : Instant) (calendar : UInt64) :
    let g := (new config store bus mint).run events
    let after := (g.submit r now calendar).1
    (∀ fault, (g.submit r now calendar).2 = .error fault → fault ≠ .deadlineOutOfRange →
      Untouched g after ∧ after.counters = fault.counted g.counters) ∧
    (∀ published, (g.submit r now calendar).2 = .ok published →
      ∃ a activation message, g.lookUp r.action = .ok a ∧
        (g.place r a).2 = some activation.invoker ∧ published.id = activation.id ∧
        Asked g r a activation ∧ Conveys message activation r ∧
        Dispatched g after activation message ∧
        (∀ other ≠ activation.invoker, after.bus.topic other.topic = g.bus.topic other.topic) ∧
        after.bus.topic Completion.topic = g.bus.topic Completion.topic ∧
        after.bus.topic Heartbeat.topic = g.bus.topic Heartbeat.topic) := by
  intro g after
  have orderly : Orderly g := orderly_run (orderly_new config store bus mint) events
  have fresh : Function.Injective g.mint := by
    rw [(run_settings _ events).1]
    exact supply
  constructor
  · intro fault refused named
    exact untouched_of_refused orderly fresh refused named
  · intro published accepted
    obtain ⟨a, activation, message, lookUp, placed, id, asked, conveys, dispatched⟩ :=
      dispatched_of_published orderly fresh accepted
    refine ⟨a, activation, message, lookUp, placed, id, asked, conveys, dispatched, ?_, ?_, ?_⟩
    · intro other apart
      apply dispatched.topics
      intro same
      exact apart (InvokerId.topic_injective same)
    · exact dispatched.topics _ (InvokerId.topic_ne_completion _).symm
    · exact dispatched.topics _ (InvokerId.topic_ne_heartbeat _).symm

/-- The demonstration gateway knows an invoker, and `n` activations are on their way to it. -/
def demoBusy (n : Nat) : List Event :=
  .heartbeat ⟨⟨0⟩, ⟨1024, 77, 3, 9⟩, 0, .up⟩ .origin ::
    List.replicate n (.submit demoRequest .origin 0)

/-- A first activation is dispatched there; a third finds the topic full, and leaves no trace. -/
theorem submit_all_or_nothing_demoBusy :
    Function.Injective counting ∧
    ((demo.run (demoBusy 0)).submit demoRequest .origin 0).2 = .ok ⟨counting 0, some 0⟩ ∧
    (∃ activation message, Dispatched (demo.run (demoBusy 0))
      ((demo.run (demoBusy 0)).submit demoRequest .origin 0).1 activation message) ∧
    ((demo.run (demoBusy 2)).submit demoRequest .origin 0).2 =
      .error (.dispatch (.queueFull "invoker0")) ∧
    Untouched (demo.run (demoBusy 2)) ((demo.run (demoBusy 2)).submit demoRequest .origin 0).1 := by
  have dispatch : ((demo.run (demoBusy 0)).submit demoRequest .origin 0).2 =
      .ok ⟨counting 0, some 0⟩ := by decide +kernel
  have full : ((demo.run (demoBusy 2)).submit demoRequest .origin 0).2 =
      .error (.dispatch (.queueFull "invoker0")) := by decide +kernel
  have first := (submit_all_or_nothing .standard
    (Standalone.seedAll Standalone.demoActions (.new .standard)).1 (.new 2) counting_injective
    (demoBusy 0) demoRequest .origin 0).2 _ dispatch
  have third := (submit_all_or_nothing .standard
    (Standalone.seedAll Standalone.demoActions (.new .standard)).1 (.new 2) counting_injective
    (demoBusy 2) demoRequest .origin 0).1 _ full (by decide)
  obtain ⟨_, activation, message, -, -, -, -, -, dispatched, -⟩ := first
  exact ⟨counting_injective, dispatch, ⟨activation, message, dispatched⟩, full, third.1⟩

end Gateway

end Dispatch
