import Dispatch.Gateway
import Dispatch.Proofs.Endings
import Dispatch.Proofs.Selection
import Dispatch.Proofs.Topics
import Dispatch.Standalone
import Mathlib.Control.Monad.Basic

/-!
# Runs of the gateway

`Event` is what can happen to a gateway: submissions, what comes back from the invokers, deadlines
that pass, operators, sweeps, and what others do to the store and the bus around it. Times are
given with each event and need not grow. `run` is any number of them.

`submit_outcome` says once what a submission can do; every law of submissions is a case analysis
on it, and `Frame` is what all its outcomes leave alone. `Orderly` is what a run keeps about
identifiers and timers: the activations in flight have identifiers that the supply has already
given out, so that the next one is new.
-/

set_option autoImplicit false

namespace Dispatch

/-! ## The bus around the gateway -/

/-- What others do on the bus. -/
inductive Bus.Act where
  | publish (topic : String) (message : Bytes)
  | subscribe (topic : String)
  | receive (topic : String)
  | drop (topic : String)

/-- The bus after an act; one that is refused changes nothing. -/
def Bus.act (b : Bus) : Act → Bus
  | .publish topic message => (b.publish topic message).toOption.getD b
  | .subscribe topic => (b.subscribe topic).toOption.getD b
  | .receive topic => ((b.receive? topic).map (·.2)).getD b
  | .drop topic => b.drop topic

namespace Gateway

/-! ## Outcomes of a submission -/

/-- The gateway with its snapshot brought up to date. -/
def refreshed (g : Gateway) : Gateway :=
  { g with registry := (g.registry.snapshot g.monitor).1 }

/-- At most the snapshot handed out last is another one. -/
theorem refreshed_registry (g : Gateway) :
    ∃ current builds, g.refreshed.registry = { g.registry with current, builds } := by
  simp only [refreshed, Registry.snapshot]
  split <;> exact ⟨_, _, rfl⟩

/-- The gateway with one reservation more. -/
def reserved (g : Gateway) (invoker : InvokerId) (memory : UInt64) : Gateway :=
  { g with flight := { g.flight with ledger := (g.ledger.reserve invoker memory).1 } }

/-- The key that routes a request. -/
def keyOf (r : Request) : RoutingKey := ⟨r.space, r.action, r.hint⟩

/-- The slots that a placement of a request probes, in this order. -/
def probed (g : Gateway) (r : Request) (a : Action) : List Slot :=
  Scheduler.probes ((g.registry.snapshot g.monitor).2.view a.pool) (keyOf r) g.maxProbes

/-- The first probed slot that suits, if there is one. -/
def target (g : Gateway) (r : Request) (a : Action) : Option Slot :=
  (g.probed r a).find? (Scheduler.suits g.ledger a.limits.memory)

theorem place_eq (g : Gateway) (r : Request) (a : Action) :
    g.place r a =
      match g.target r a with
      | none => (g.refreshed, none)
      | some slot => (g.refreshed.reserved slot.id a.limits.memory, some slot.id) := by
  have chosen : Scheduler.choose g.registry g.monitor (keyOf r) a.pool a.limits.memory
      g.maxProbes g.ledger =
        (g.refreshed.registry, Scheduler.taken g.ledger a.limits.memory (g.target r a)) := by
    simp only [Scheduler.choose, Scheduler.chooseFrom_eq]
    rfl
  unfold keyOf at chosen
  simp only [place, chosen]
  cases g.target r a <;> rfl

theorem accepts_of_target {g : Gateway} {r : Request} {a : Action} {slot : Slot}
    (target : g.target r a = some slot) : g.ledger.accepts slot.id a.limits.memory = true := by
  have suits := List.find?_some target
  exact (Bool.and_eq_true_iff.mp suits).2

/-! One equation for each branch of a submission. -/

section Branches

variable {g : Gateway} {r : Request} {a : Action} {now : Instant} {calendar : UInt64}

theorem submit_of_unknown {f : SubmitFault} (lookUp : g.lookUp r.action = .error f) :
    g.submit r now calendar = (g, .error f) := by
  simp only [submit, lookUp]

theorem submit_of_no_target (lookUp : g.lookUp r.action = .ok a) (target : g.target r a = none) :
    g.submit r now calendar =
      (g.refreshed.count .overload, .error (.overload r.action a.pool a.limits.memory)) := by
  simp only [submit, lookUp, place_eq, target]

theorem submit_of_target {slot : Slot} (lookUp : g.lookUp r.action = .ok a)
    (target : g.target r a = some slot) :
    g.submit r now calendar =
      (g.refreshed.reserved slot.id a.limits.memory).dispatch r a slot.id now calendar := by
  simp only [submit, lookUp, place_eq, target]

variable {invoker : InvokerId} {enlisted : Gateway}

theorem dispatch_of_unnamed (enlist : g.enlist r a invoker now = none) :
    g.dispatch r a invoker now calendar = (g, .error .deadlineOutOfRange) := by
  simp only [dispatch, enlist]

theorem dispatch_of_unpublished {f : BusFault}
    (enlist : g.enlist r a invoker now = some enlisted)
    (publish : enlisted.bus.publish invoker.topic (ActivationMessage.codec.encode
      (messageFor (g.activationFor r a invoker now) r.payload calendar)) = .error f) :
    g.dispatch r a invoker now calendar =
      ({ enlisted with flight :=
          (enlisted.flight.abandon (g.activationFor r a invoker now).id).1 }.count .dispatchFailure,
        .error (.dispatch f)) := by
  simp only [dispatch, enlist, publish]

theorem dispatch_of_published {bus : Bus} (enlist : g.enlist r a invoker now = some enlisted)
    (publish : enlisted.bus.publish invoker.topic (ActivationMessage.codec.encode
      (messageFor (g.activationFor r a invoker now) r.payload calendar)) = .ok bus) :
    g.dispatch r a invoker now calendar =
      ({ enlisted with bus }.count .submitted,
        .ok ⟨(g.activationFor r a invoker now).id,
          if r.blocking then some g.flight.registered else none⟩) := by
  simp only [dispatch, enlist, publish]

end Branches

/-- What a submission comes to: the gateway after it, and its result. -/
inductive Submission (g : Gateway) (r : Request) (now : Instant) (calendar : UInt64) :
    Gateway → Except SubmitFault Published → Prop where
  /-- The action is not there. -/
  | unknown {f : SubmitFault} (lookUp : g.lookUp r.action = .error f) :
      Submission g r now calendar g (.error f)
  /-- No probed slot suits. -/
  | overloaded {a : Action} (lookUp : g.lookUp r.action = .ok a) (target : g.target r a = none) :
      Submission g r now calendar (g.refreshed.count .overload)
        (.error (.overload r.action a.pool a.limits.memory))
  /-- The clock cannot name the deadline. -/
  | unnamed {a : Action} {slot : Slot} (lookUp : g.lookUp r.action = .ok a)
      (target : g.target r a = some slot)
      (enlist : (g.refreshed.reserved slot.id a.limits.memory).enlist r a slot.id now = none) :
      Submission g r now calendar (g.refreshed.reserved slot.id a.limits.memory)
        (.error .deadlineOutOfRange)
  /-- The invoker's topic is full or closed. -/
  | unpublished {a : Action} {slot : Slot} {enlisted : Gateway} {f : BusFault}
      (lookUp : g.lookUp r.action = .ok a) (target : g.target r a = some slot)
      (enlist : (g.refreshed.reserved slot.id a.limits.memory).enlist r a slot.id now =
        some enlisted)
      (publish : enlisted.bus.publish slot.id.topic (ActivationMessage.codec.encode
        (messageFor (g.activationFor r a slot.id now) r.payload calendar)) = .error f) :
      Submission g r now calendar
        ({ enlisted with flight := (enlisted.flight.abandon (g.mint g.minted)).1 }.count
          .dispatchFailure)
        (.error (.dispatch f))
  | published {a : Action} {slot : Slot} {enlisted : Gateway} {bus : Bus}
      (lookUp : g.lookUp r.action = .ok a) (target : g.target r a = some slot)
      (enlist : (g.refreshed.reserved slot.id a.limits.memory).enlist r a slot.id now =
        some enlisted)
      (publish : enlisted.bus.publish slot.id.topic (ActivationMessage.codec.encode
        (messageFor (g.activationFor r a slot.id now) r.payload calendar)) = .ok bus) :
      Submission g r now calendar ({ enlisted with bus }.count .submitted)
        (.ok ⟨g.mint g.minted, if r.blocking then some g.flight.registered else none⟩)

/-- **Every submission comes to one of the five outcomes.** -/
theorem submit_outcome (g : Gateway) (r : Request) (now : Instant) (calendar : UInt64) :
    Submission g r now calendar (g.submit r now calendar).1 (g.submit r now calendar).2 := by
  cases lookUp : g.lookUp r.action with
  | error f =>
      rw [submit_of_unknown lookUp]
      exact .unknown lookUp
  | ok a =>
      cases target : g.target r a with
      | none =>
          rw [submit_of_no_target lookUp target]
          exact .overloaded lookUp target
      | some slot =>
          rw [submit_of_target lookUp target]
          cases enlist : (g.refreshed.reserved slot.id a.limits.memory).enlist r a slot.id now with
          | none =>
              rw [dispatch_of_unnamed enlist]
              exact .unnamed lookUp target enlist
          | some enlisted =>
              cases publish : enlisted.bus.publish slot.id.topic (ActivationMessage.codec.encode
                (messageFor (g.activationFor r a slot.id now) r.payload calendar)) with
              | error f =>
                  rw [dispatch_of_unpublished enlist publish]
                  exact .unpublished lookUp target enlist publish
              | ok bus =>
                  rw [dispatch_of_published enlist publish]
                  exact .published lookUp target enlist publish

/-- Enlisting an activation registers it with its deadline and uses its identifier up. -/
theorem enlist_eq_some {g enlisted : Gateway} {r : Request} {a : Action} {invoker : InvokerId}
    {now : Instant} (enlist : g.enlist r a invoker now = some enlisted) :
    ∃ deadline, g.flight.deadline? now a.limits.timeout = some deadline ∧
      enlisted = { g with
        flight := g.flight.add { g.activationFor r a invoker now with deadline }
        minted := g.minted + 1 } := by
  obtain ⟨flight, register, rfl⟩ := Option.map_eq_some_iff.mp enlist
  obtain ⟨deadline, named, rfl⟩ := Option.map_eq_some_iff.mp register
  exact ⟨deadline, named, rfl⟩

/-- What a submission leaves alone. At most, it brings the snapshot up to date. -/
structure Frame (g after : Gateway) : Prop where
  mint : after.mint = g.mint
  maxProbes : after.maxProbes = g.maxProbes
  store : after.store = g.store
  monitor : after.monitor = g.monitor
  registry : after.registry = g.registry ∨ after.registry = g.refreshed.registry

/-- A submission leaves the membership alone. -/
theorem Frame.membership {g after : Gateway} (frame : Frame g after) :
    ∃ current builds, after.registry = { g.registry with current, builds } := by
  rcases frame.registry with same | same
  · exact ⟨_, _, same⟩
  · exact same ▸ g.refreshed_registry

theorem submit_frame (g : Gateway) (r : Request) (now : Instant) (calendar : UInt64) :
    Frame g (g.submit r now calendar).1 := by
  have outcome := submit_outcome g r now calendar
  generalize (g.submit r now calendar).1 = after, (g.submit r now calendar).2 = result at outcome ⊢
  cases outcome with
  | unknown => exact ⟨rfl, rfl, rfl, rfl, .inl rfl⟩
  | overloaded | unnamed => exact ⟨rfl, rfl, rfl, rfl, .inr rfl⟩
  | unpublished _ _ enlist _ | published _ _ enlist _ =>
      obtain ⟨deadline, -, rfl⟩ := enlist_eq_some enlist
      exact ⟨rfl, rfl, rfl, rfl, .inr rfl⟩

/-! ## Events -/

/-- What can happen to a gateway. -/
inductive Event where
  | submit (r : Request) (now : Instant) (calendar : UInt64)
  | complete (c : Completion) (calendar : UInt64)
  /-- Every timer fires that is due. -/
  | elapse (now : Instant)
  /-- One activation is timed out. -/
  | expire (id : ActivationId)
  | heartbeat (h : Heartbeat) (now : Instant)
  | remove (id : InvokerId)
  | sweep (now : Instant)
  | list
  /-- Somebody stores an action. -/
  | store (a : Action)
  /-- Somebody uses the bus. -/
  | bus (act : Bus.Act)

def step (g : Gateway) : Event → Gateway
  | .submit r now calendar => (g.submit r now calendar).1
  | .complete c calendar => (g.processCompletion c calendar).1
  | .elapse now => { g with flight := g.flight.fireDue now }
  | .expire id => { g with flight := (g.flight.expire id).1 }
  | .heartbeat h now => g.processHeartbeat h now
  | .remove id => (g.removeInvoker id).1
  | .sweep now => (g.sweep now).1
  | .list => g.listInvokers.1
  | .store a => { g with store := (g.store.put a).toOption.getD g.store }
  | .bus act => { g with bus := g.bus.act act }

def run (g : Gateway) (events : List Event) : Gateway := events.foldl step g

theorem run_cons (g : Gateway) (e : Event) (events : List Event) :
    g.run (e :: events) = (g.step e).run events := rfl

theorem run_append (g : Gateway) (before after : List Event) :
    g.run (before ++ after) = (g.run before).run after := List.foldl_append

/-- The clock can name the deadline of the activation that an event submits, if it submits one. -/
def Event.Timely (g : Gateway) : Event → Prop
  | .submit r now calendar => (g.submit r now calendar).2 ≠ .error .deadlineOutOfRange
  | _ => True

instance (g : Gateway) : (e : Event) → Decidable (e.Timely g)
  | .submit r now calendar =>
      inferInstanceAs (Decidable ((g.submit r now calendar).2 ≠ .error .deadlineOutOfRange))
  | .complete _ _ | .elapse _ | .expire _ | .heartbeat _ _ | .remove _ | .sweep _ | .list
  | .store _ | .bus _ => .isTrue trivial

/-- No submission of a run breaks off because the clock cannot name its deadline. -/
def Timely : Gateway → List Event → Prop
  | _, [] => True
  | g, e :: rest => e.Timely g ∧ Timely (g.step e) rest

instance Timely.decidable : (g : Gateway) → (events : List Event) → Decidable (Timely g events)
  | _, [] => .isTrue trivial
  | g, e :: rest =>
      have := decidable (g.step e) rest
      inferInstanceAs (Decidable (e.Timely g ∧ Timely (g.step e) rest))

/-- What every timely event keeps, every timely run keeps. -/
theorem run_keeps {P : Gateway → Prop} (keeps : ∀ g e, P g → e.Timely g → P (g.step e))
    (events : List Event) {g : Gateway} (holds : P g) (timely : Timely g events) :
    P (g.run events) := by
  induction events generalizing g with
  | nil => exact holds
  | cons e rest ih => exact ih (keeps g e holds timely.1) timely.2

/-- What all events of some kind keep, a run of such events keeps. -/
theorem run_keeps_where {P : Gateway → Prop} {kind : Event → Prop}
    (keeps : ∀ g e, P g → kind e → P (g.step e)) {events : List Event} (all : ∀ e ∈ events, kind e)
    {g : Gateway} (holds : P g) : P (g.run events) := by
  induction events generalizing g with
  | nil => exact holds
  | cons e rest ih =>
      have first := keeps g e holds (all e List.mem_cons_self)
      exact ih (fun later member => all later (List.mem_cons_of_mem _ member)) first

/-- What every event keeps, every run keeps. -/
theorem run_keeps_always {P : Gateway → Prop} (keeps : ∀ g e, P g → P (g.step e))
    (events : List Event) {g : Gateway} (holds : P g) : P (g.run events) :=
  run_keeps_where (fun g e holds _ => keeps g e holds)
    (fun _ _ => trivial) holds

/-! ## Identifiers and timers -/

/-- The activations in flight have identifiers that were given out, and the timers that are armed
belong to registrations that were made. -/
structure Orderly (g : Gateway) : Prop where
  issued : ∀ id r, Table.get? id g.flight.pending = some r → ∃ k, k < g.minted ∧ id = g.mint k
  numbered : ∀ t ∈ g.flight.timers, t.number < g.flight.registered

theorem orderly_new (config : Config) (store : Store) (bus : Bus) (mint : Nat → ActivationId) :
    Orderly (new config store bus mint) where
  issued _ _ there := by cases there
  numbered _ there := by cases there

/-- The next identifier is not in flight. -/
theorem Orderly.fresh {g : Gateway} (orderly : Orderly g) (distinct : Function.Injective g.mint) :
    Table.get? (g.mint g.minted) g.flight.pending = none := by
  cases there : Table.get? (g.mint g.minted) g.flight.pending with
  | none => rfl
  | some r =>
      obtain ⟨k, early, same⟩ := orderly.issued _ r there
      exact absurd (distinct same) (Nat.ne_of_gt early)

theorem Orderly.shrinks {g h : Gateway} (orderly : Orderly g)
    (flight : InFlight.Shrinks g.flight h.flight) (mint : h.mint = g.mint)
    (minted : h.minted = g.minted) : Orderly h where
  issued id r there := by
    rw [mint, minted]
    exact orderly.issued id r (flight.pending id r there)
  numbered t there := by
    rw [flight.registered]
    exact orderly.numbered t (flight.timers t there)

theorem Orderly.enlist {g enlisted : Gateway} (orderly : Orderly g) {r : Request} {a : Action}
    {invoker : InvokerId} {now : Instant} (enlist : g.enlist r a invoker now = some enlisted) :
    Orderly enlisted := by
  obtain ⟨deadline, -, rfl⟩ := enlist_eq_some enlist
  have shrinks := (InFlight.attempt_replaced g.flight (g.mint g.minted)).shrinks
  constructor
  · intro id s there
    simp only [InFlight.add, Table.get?_set] at there
    split at there
    · rename_i same
      exact ⟨g.minted, Nat.lt_succ_self _, same.symm⟩
    · obtain ⟨k, early, same⟩ := orderly.issued id s (shrinks.pending id s there)
      exact ⟨k, Nat.lt_succ_of_lt early, same⟩
  · intro t there
    rcases InFlight.mem_insertTimer.mp there with rfl | before
    · exact Nat.lt_succ_self _
    · exact Nat.lt_succ_of_lt (orderly.numbered t (shrinks.timers t before))

theorem Orderly.reserved {g : Gateway} (orderly : Orderly g) (invoker : InvokerId)
    (memory : UInt64) : Orderly (g.refreshed.reserved invoker memory) :=
  orderly.shrinks (.of_eq rfl rfl rfl) rfl rfl

theorem Orderly.submit {g : Gateway} (orderly : Orderly g) (r : Request) (now : Instant)
    (calendar : UInt64) : Orderly (g.submit r now calendar).1 := by
  have outcome := submit_outcome g r now calendar
  generalize (g.submit r now calendar).1 = after, (g.submit r now calendar).2 = result at outcome ⊢
  cases outcome with
  | unknown => exact orderly
  | overloaded => exact orderly.shrinks (.of_eq rfl rfl rfl) rfl rfl
  | unnamed => exact orderly.reserved _ _
  | @unpublished _ _ enlisted _ _ _ enlist _ =>
      have ordered := (orderly.reserved _ _).enlist enlist
      have withdrawn := (InFlight.attempt_abandon enlisted.flight (g.mint g.minted)).shrinks
      exact ordered.shrinks (withdrawn.trans (.of_eq rfl rfl rfl)) rfl rfl
  | published _ _ enlist _ =>
      have ordered := (orderly.reserved _ _).enlist enlist
      exact ordered.shrinks (.of_eq rfl rfl rfl) rfl rfl

theorem Orderly.heartbeat {g : Gateway} (orderly : Orderly g) (h : Heartbeat) (now : Instant) :
    Orderly (g.processHeartbeat h now) := by
  simp only [processHeartbeat]
  split <;> exact orderly.shrinks (.of_eq rfl rfl rfl) rfl rfl

theorem Orderly.remove {g : Gateway} (orderly : Orderly g) (id : InvokerId) :
    Orderly (g.removeInvoker id).1 := by
  simp only [removeInvoker]
  split <;> exact orderly.shrinks (.refl _) rfl rfl

/-- **Every event keeps identifiers and timers in order.** -/
theorem orderly_step (g : Gateway) (e : Event) (orderly : Orderly g) : Orderly (g.step e) := by
  cases e with
  | submit r now calendar => exact orderly.submit r now calendar
  | complete c calendar => exact orderly.shrinks (InFlight.attempt_resolve _ c).shrinks rfl rfl
  | elapse now => exact orderly.shrinks (InFlight.shrinks_fireDue _ now) rfl rfl
  | expire id => exact orderly.shrinks (InFlight.attempt_expire _ id).shrinks rfl rfl
  | heartbeat h now => exact orderly.heartbeat h now
  | remove id => exact orderly.remove id
  | sweep | list | store | bus => exact orderly.shrinks (.refl _) rfl rfl

theorem orderly_run {g : Gateway} (orderly : Orderly g) (events : List Event) :
    Orderly (g.run events) :=
  run_keeps_always orderly_step events orderly

/-- No event moves the supply of identifiers or the number of probes. -/
theorem step_settings (g : Gateway) (e : Event) :
    (g.step e).mint = g.mint ∧ (g.step e).maxProbes = g.maxProbes := by
  cases e with
  | submit r now calendar =>
      have frame := submit_frame g r now calendar
      exact ⟨frame.mint, frame.maxProbes⟩
  | heartbeat h now =>
      simp only [step, processHeartbeat]
      split <;> exact ⟨rfl, rfl⟩
  | remove id =>
      simp only [step, removeInvoker]
      split <;> exact ⟨rfl, rfl⟩
  | complete | elapse | expire | sweep | list | store | bus => exact ⟨rfl, rfl⟩

theorem run_settings (g : Gateway) (events : List Event) :
    (g.run events).mint = g.mint ∧ (g.run events).maxProbes = g.maxProbes :=
  run_keeps_always (P := fun h => h.mint = g.mint ∧ h.maxProbes = g.maxProbes)
    (fun h e same => ⟨(step_settings h e).1.trans same.1, (step_settings h e).2.trans same.2⟩)
    events ⟨rfl, rfl⟩

/-! ## A gateway to begin with -/

/-- A supply of identifiers that counts up. -/
def counting (n : Nat) : ActivationId := ⟨Numeral.text n⟩

theorem counting_injective : Function.Injective counting := fun _ _ same =>
  Numeral.text_injective (congrArg ActivationId.text same)

/-- A gateway after a start on its own: two actions to try out, and topics for two messages. -/
def demo : Gateway :=
  .new .standard (Standalone.seedAll Standalone.demoActions (.new .standard)).1 (.new 2) counting

/-- A request for one of its actions, by a caller who waits. -/
def demoRequest : Request := ⟨"guest", ⟨"guest", "sleep"⟩, .null, true, none, none⟩

end Gateway

end Dispatch
