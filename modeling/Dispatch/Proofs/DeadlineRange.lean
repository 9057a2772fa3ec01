import Dispatch.Proofs.Chronicle
import Dispatch.Proofs.StoredRecords

/-!
# Deadlines that the clock can name

A submission reserves capacity first and names the deadline then, and the clock names no instant
from the `horizon` on. Where the submission time, the time limit of the action and the grace come to
less, the reservation ends up `Owned`: a registered activation has it, or it was given back. Where
they do not, the submission breaks off in between, and the reservation is `Stranded`
(`submit_landing`). The grace has no bound in a configuration, so the bounds on actions alone do not
keep submissions from that. They do where the `longest` time limit that they admit fits: then no
submission of any run breaks off (`timely_of_early`).
-/

set_option autoImplicit false

namespace Dispatch

/-- The nanoseconds that the clock counts to. -/
def Instant.horizon : Nat := horizonSecs * 1_000_000_000

namespace LimitBounds

variable {b : LimitBounds} {l : ActionLimits}

/-- The longest time limit that is within the bounds: whole milliseconds that fit a word. -/
def longest (b : LimitBounds) : Duration :=
  .ofMillis (min b.maxTimeout.millis Numeral.maxWord64).toUInt64

theorem longest_nanos (b : LimitBounds) :
    b.longest.nanos = 1_000_000 * min b.maxTimeout.millis Numeral.maxWord64 := by
  have word : min b.maxTimeout.millis Numeral.maxWord64 < UInt64.size :=
    Nat.lt_of_le_of_lt (Nat.min_le_right _ _) (by decide)
  show 1_000_000 * (Nat.toUInt64 _).toNat = _
  rw [UInt64.toNat_ofNat_of_lt' word]

theorem Admits.timeout_le (admits : b.Admits l) : l.timeout.nanos ≤ b.longest.nanos := by
  have within : 1_000_000 * l.timeoutMillis.toNat ≤ b.maxTimeout.nanos := admits.2.2
  have word := l.timeoutMillis.toNat_lt
  rw [longest_nanos]
  show 1_000_000 * l.timeoutMillis.toNat ≤ _
  unfold Duration.millis Numeral.maxWord64
  omega

/-- Bounds that admit anything admit limits of the longest time. -/
theorem Admits.exists_longest (admits : b.Admits l) :
    ∃ other, b.Admits other ∧ other.timeout = b.longest := by
  have most : b.longest.nanos ≤ b.maxTimeout.nanos := by
    rw [longest_nanos, Duration.millis]
    omega
  exact ⟨⟨l.memory, (min b.maxTimeout.millis Numeral.maxWord64).toUInt64⟩,
    ⟨admits.1, Nat.le_trans admits.2.1 admits.timeout_le, most⟩, rfl⟩

end LimitBounds

namespace Store

/-- Whatever can be looked up is within the bounds. -/
def Abides (s : Store) : Prop := ∀ name a, s.get name = .ok a → s.bounds.Admits a.limits

theorem abides_new (bounds : LimitBounds) : (new bounds).Abides := nofun

/-- A put that is accepted changes no look-up but of the action itself. -/
theorem get_of_get_put {s : Store} {a b : Action} {name : QualifiedName}
    (within : s.bounds.fault? a.limits = none)
    (got : (s.writeRaw a.key (Action.codec.encode a)).get name = .ok b) :
    b = a ∨ s.get name = .ok b := by
  have stored : s.put a = .ok (s.writeRaw a.key (Action.codec.encode a)) := by rw [put, within]
  have stepped : s.step (.put a) = s.writeRaw a.key (Action.codec.encode a) := by rw [step, stored]
  by_cases own : a.key = name.text
  · cases outage : Table.get? a.key s.outages with
    | none =>
        rw [get_of_put stored outage own] at got
        exact .inl (Except.ok.inj got).symm
    | some fault =>
        rw [own] at outage
        simp only [get, find, writeRaw, outage] at got
        cases got
  · rw [get, ← stepped, find_step_put own] at got
    exact .inr got

theorem abides_put {s after : Store} (abides : s.Abides) {a : Action}
    (stored : s.put a = .ok after) : after.Abides ∧ after.bounds = s.bounds := by
  unfold put at stored
  split at stored
  · cases stored
  · rename_i within
    cases stored
    refine ⟨fun name b got => ?_, rfl⟩
    rcases get_of_get_put within got with rfl | before
    · exact LimitBounds.admits_iff.mpr within
    · exact abides name b before

end Store

theorem Instant.after?_eq_some_iff {t later : Instant} {d : Duration} :
    t.after? d = some later ↔ t.nanos + d.nanos < horizon ∧ later = ⟨t.nanos + d.nanos⟩ := by
  rw [after?, Option.ite_none_right_eq_some, Option.some.injEq, eq_comm (a := later)]
  exact Iff.rfl

namespace InFlight

/-- A deadline can be named if all that is added up stays below the horizon. -/
theorem deadline?_isSome_iff {f : InFlight} {submittedAt : Instant} {limit : Duration} :
    (f.deadline? submittedAt limit).isSome ↔
      submittedAt.nanos + limit.nanos + f.grace.nanos < Instant.horizon := by
  simp only [Option.isSome_iff_exists, deadline?, Option.bind_eq_some_iff,
    Instant.after?_eq_some_iff]
  constructor
  · rintro ⟨deadline, limited, ⟨-, rfl⟩, early, -⟩
    exact early
  · intro early
    exact ⟨_, _, ⟨Nat.lt_of_le_of_lt (Nat.le_add_right _ _) early, rfl⟩, early, rfl⟩

theorem add_grace (f : InFlight) (a : Activation) : (f.add a).grace = f.grace :=
  (attempt_replaced f a.id).grace

theorem get?_add (f : InFlight) (a : Activation) : (f.add a).get? a.id = some a := by
  simp only [get?, add, Table.get?_set, if_true, Option.map_some]

end InFlight

namespace Gateway

variable {g after : Gateway} {r : Request} {a : Action} {i : InvokerId} {now : Instant}
  {calendar : UInt64}

/-! ## The reservation of a submission -/

/-- Somebody answers for the reservation that a submission made for an action: the activation that
was registered with its deadline holds it, or it was given back. -/
inductive Owned (g after : Gateway) (a : Action) (i : InvokerId) (now : Instant) : Prop where
  | held {activation : Activation} (fresh : g.flight.get? activation.id = none)
      (registered : after.flight.get? activation.id = some activation)
      (invoker : activation.invoker = i) (memory : activation.memory = a.limits.memory)
      (deadline : activation.deadline.nanos =
        now.nanos + a.limits.timeout.nanos + g.flight.grace.nanos)
      (ledger : after.ledger = (g.ledger.reserve i a.limits.memory).1)
  | returned (pending : after.flight.pending = g.flight.pending)
      (timers : after.flight.timers = g.flight.timers) (ledger : after.ledger = g.ledger)

/-- The reservation was made, and nothing that is in flight accounts for it. -/
structure Stranded (g after : Gateway) (a : Action) (i : InvokerId) : Prop where
  ledger : after.ledger = (g.ledger.reserve i a.limits.memory).1
  slots : after.ledger.usedSlots i = g.ledger.usedSlots i + 1
  memory : after.ledger.usedMemory i = g.ledger.usedMemory i + a.limits.memory.toNat
  pending : after.flight.pending = g.flight.pending
  timers : after.flight.timers = g.flight.timers

theorem Stranded.not_owned (stranded : Stranded g after a i) : ¬Owned g after a i now := by
  rintro (⟨fresh, registered, -, -, -, -⟩ | ⟨-, -, ledger⟩)
  · rw [InFlight.get?, stranded.pending] at registered
    rw [InFlight.get?, registered] at fresh
    cases fresh
  · have slots := stranded.slots
    rw [ledger] at slots
    omega

theorem enlist_eq_none_iff :
    (g.refreshed.reserved i a.limits.memory).enlist r a i now = none ↔
      Instant.horizon ≤ now.nanos + a.limits.timeout.nanos + g.flight.grace.nanos := by
  rw [← Nat.not_lt, ← InFlight.deadline?_isSome_iff (f := g.flight), Option.not_isSome_iff_eq_none,
    enlist, Option.map_eq_none_iff, InFlight.register?, Option.map_eq_none_iff]
  exact Iff.rfl

/-- What was published holds its reservation. -/
theorem owned_published (orderly : Orderly g) (supply : Function.Injective g.mint)
    {enlisted : Gateway}
    (enlist : (g.refreshed.reserved i a.limits.memory).enlist r a i now = some enlisted)
    (bus : Bus) : Owned g ({ enlisted with bus }.count .submitted) a i now := by
  obtain ⟨deadline, named, rfl⟩ := enlist_eq_some enlist
  have absent := orderly.fresh supply
  have fresh : g.flight.get? (g.mint g.minted) = none := by
    rw [InFlight.get?, absent, Option.map_none]
  refine .held fresh (InFlight.get?_add _ _) rfl rfl (InFlight.deadline?_nanos named) ?_
  exact congrArg InFlight.ledger (InFlight.add_of_absent absent)

/-- **A placed submission lands, or leaves its reservation behind**, as the clock can name its
deadline or not. -/
theorem submit_landing (orderly : Orderly g) (supply : Function.Injective g.mint)
    (lookUp : g.lookUp r.action = .ok a) (placed : (g.place r a).2 = some i) (now : Instant)
    (calendar : UInt64) :
    (now.nanos + a.limits.timeout.nanos + g.flight.grace.nanos < Instant.horizon ∧
      Owned g (g.submit r now calendar).1 a i now) ∨
    (Instant.horizon ≤ now.nanos + a.limits.timeout.nanos + g.flight.grace.nanos ∧
      (g.submit r now calendar).2 = .error .deadlineOutOfRange ∧
      Stranded g (g.submit r now calendar).1 a i) := by
  rw [place_eq] at placed
  cases target : g.target r a with
  | none =>
      rw [target] at placed
      cases placed
  | some slot =>
      rw [target] at placed
      obtain rfl := Option.some.inj placed
      have room := accepts_of_target target
      rw [submit_of_target lookUp target]
      cases enlist : (g.refreshed.reserved slot.id a.limits.memory).enlist r a slot.id now with
      | none =>
          rw [dispatch_of_unnamed enlist]
          have moves := Ledger.reserve_moves room slot.id
          rw [if_pos rfl, if_pos rfl] at moves
          exact .inr ⟨enlist_eq_none_iff.mp enlist, rfl, rfl, moves.2, moves.1, rfl, rfl⟩
      | some enlisted =>
          have early : ¬_ := fun late => by
            rw [enlist_eq_none_iff.mpr late] at enlist
            cases enlist
          refine .inl ⟨Nat.lt_of_not_le early, ?_⟩
          cases publish : enlisted.bus.publish slot.id.topic (ActivationMessage.codec.encode
            (messageFor (g.activationFor r a slot.id now) r.payload calendar)) with
          | error fault =>
              rw [dispatch_of_unpublished enlist publish]
              obtain ⟨untouched, -⟩ := untouched_withdrawn orderly supply room enlist
              exact .returned untouched.pending untouched.timers untouched.ledger
          | ok bus =>
              rw [dispatch_of_published enlist publish]
              exact owned_published orderly supply enlist bus

/-- Only a deadline beyond the horizon breaks a submission off. -/
theorem late_of_broken (broken : (g.submit r now calendar).2 = .error .deadlineOutOfRange) :
    ∃ a, g.lookUp r.action = .ok a ∧
      Instant.horizon ≤ now.nanos + a.limits.timeout.nanos + g.flight.grace.nanos := by
  have outcome := submit_outcome g r now calendar
  rw [broken] at outcome
  generalize (g.submit r now calendar).1 = after at outcome
  cases outcome with
  | unknown lookUp =>
      unfold Gateway.lookUp at lookUp
      split at lookUp
      · cases lookUp
      · have refused := Except.error.inj lookUp
        split at refused <;> cases refused
  | unnamed lookUp _ enlist => exact ⟨_, lookUp, enlist_eq_none_iff.mp enlist⟩

/-! ## Runs -/

/-- No event changes the grace. -/
theorem step_grace (g : Gateway) (e : Event) : (g.step e).flight.grace = g.flight.grace := by
  cases e with
  | submit r now calendar =>
      have outcome := submit_outcome g r now calendar
      change (g.submit r now calendar).1.flight.grace = _
      generalize (g.submit r now calendar).1 = after, (g.submit r now calendar).2 = result
        at outcome ⊢
      cases outcome with
      | unknown | overloaded | unnamed => rfl
      | @unpublished _ _ enlisted _ _ _ enlist _ =>
          have withdrawn := InFlight.attempt_abandon enlisted.flight (g.mint g.minted)
          obtain ⟨deadline, -, rfl⟩ := enlist_eq_some enlist
          exact withdrawn.grace.trans (InFlight.add_grace _ _)
      | published _ _ enlist _ =>
          obtain ⟨deadline, -, rfl⟩ := enlist_eq_some enlist
          exact InFlight.add_grace _ _
  | complete c calendar => exact (InFlight.attempt_resolve g.flight c).grace
  | elapse now => exact InFlight.fireDue_grace g.flight now
  | expire id => exact (InFlight.attempt_expire g.flight id).grace
  | heartbeat h now => exact (aside_heartbeat g h now).grace
  | remove id => exact (aside_remove g id).grace
  | sweep | list | store | bus => rfl

theorem grace_run (g : Gateway) (events : List Event) :
    (g.run events).flight.grace = g.flight.grace :=
  run_keeps_always (P := fun h => h.flight.grace = g.flight.grace)
    (fun h e same => (step_grace h e).trans same) events rfl

/-- What a run keeps: the grace, the bounds of the store, and that what can be looked up is within
them. -/
structure Confined (grace : Duration) (bounds : LimitBounds) (g : Gateway) : Prop where
  grace : g.flight.grace = grace
  bounds : g.store.bounds = bounds
  abides : g.store.Abides

variable {grace : Duration} {bounds : LimitBounds}

theorem Confined.of_store (confined : Confined grace bounds g) {e : Event}
    (store : (g.step e).store = g.store) : Confined grace bounds (g.step e) where
  grace := (step_grace g e).trans confined.grace
  bounds := store ▸ confined.bounds
  abides := store ▸ confined.abides

theorem confined_step (confined : Confined grace bounds g) (e : Event) :
    Confined grace bounds (g.step e) := by
  cases e with
  | store a =>
      cases stored : g.store.put a with
      | error fault =>
          refine confined.of_store ?_
          rw [step, stored]
          rfl
      | ok after =>
          obtain ⟨abides, same⟩ := Store.abides_put confined.abides stored
          have store : (g.step (.store a)).store = after := by
            rw [step, stored]
            rfl
          exact ⟨confined.grace, store ▸ same.trans confined.bounds, store ▸ abides⟩
  | submit r now calendar => exact confined.of_store (submit_frame g r now calendar).store
  | heartbeat h now =>
      refine confined.of_store ?_
      simp only [step, processHeartbeat]
      split <;> rfl
  | remove id =>
      refine confined.of_store ?_
      simp only [step, removeInvoker]
      split <;> rfl
  | complete | elapse | expire | sweep | list | bus => exact confined.of_store rfl

/-- If it is a submission, the clock can name the deadline of every action within the bounds. -/
def Event.Early (grace : Duration) (bounds : LimitBounds) : Event → Prop
  | .submit _ now _ => now.nanos + bounds.longest.nanos + grace.nanos < Instant.horizon
  | _ => True

theorem get_of_lookUp {name : QualifiedName} (found : g.lookUp name = .ok a) :
    g.store.get name = .ok a := by
  unfold Gateway.lookUp at found
  split at found
  · rename_i got
    rw [got, Except.ok.inj found]
  · cases found

/-- **No submission of a run breaks off that is early enough for the longest time limit.** -/
theorem timely_of_early {events : List Event} (confined : Confined grace bounds g)
    (early : ∀ e ∈ events, e.Early grace bounds) : Timely g events := by
  induction events generalizing g with
  | nil => trivial
  | cons e rest ih =>
      have later := ih (confined_step confined e) fun event member =>
        early event (List.mem_cons_of_mem _ member)
      refine ⟨?_, later⟩
      cases e with
      | submit r now calendar =>
          intro broken
          obtain ⟨a, lookUp, late⟩ := late_of_broken broken
          have first : now.nanos + bounds.longest.nanos + grace.nanos < Instant.horizon :=
            early _ List.mem_cons_self
          have admits := confined.abides r.action a (get_of_lookUp lookUp)
          rw [confined.bounds] at admits
          have limit := admits.timeout_le
          rw [confined.grace] at late
          omega
      | complete | elapse | expire | heartbeat | remove | sweep | list | store | bus => trivial

/-- **Reservations are owned exactly where the clock can name the deadline.** After any run of a new
gateway with fresh identifiers: a submission that was placed leaves its reservation with the
activation that it registered, or gives it back, exactly if its time, the action's time limit and
the grace stay below the horizon together; else it breaks off, and the reservation is stranded. So
all actions within the configured bounds can be submitted at a time exactly if the longest time
limit that the bounds admit can. Where every submission of the run came so early, and the store
began with nothing outside the bounds, none broke off. -/
theorem reservations_owned (config : Config) (store : Store) (bus : Bus)
    {mint : Nat → ActivationId} (supply : Function.Injective mint) (events : List Event) :
    let g := (new config store bus mint).run events
    let grace := config.balancer.grace
    (∀ r a i now calendar, g.lookUp r.action = .ok a → (g.place r a).2 = some i →
      (Owned g (g.submit r now calendar).1 a i now ↔
        now.nanos + a.limits.timeout.nanos + grace.nanos < Instant.horizon) ∧
      (Instant.horizon ≤ now.nanos + a.limits.timeout.nanos + grace.nanos →
        (g.submit r now calendar).2 = .error .deadlineOutOfRange ∧
        Stranded g (g.submit r now calendar).1 a i)) ∧
    (∀ now limits, config.limits.Admits limits →
      ((∀ other, config.limits.Admits other →
          (g.flight.deadline? now other.timeout).isSome) ↔
        now.nanos + config.limits.longest.nanos + grace.nanos < Instant.horizon)) ∧
    (store.bounds = config.limits → store.Abides → (∀ e ∈ events, e.Early grace config.limits) →
      Timely (new config store bus mint) events) := by
  intro g grace
  have orderly : Orderly g := orderly_run (orderly_new config store bus mint) events
  have fresh : Function.Injective g.mint := by
    rw [(run_settings _ events).1]
    exact supply
  have same : g.flight.grace = grace := grace_run _ events
  refine ⟨fun r a i now calendar lookUp placed => ?_, fun now limits admits => ?_, ?_⟩
  · have landing := submit_landing orderly fresh lookUp placed now calendar
    rw [same] at landing
    rcases landing with ⟨early, owned⟩ | ⟨late, broken, stranded⟩
    · exact ⟨iff_of_true owned early, fun late => absurd early (Nat.not_lt.mpr late)⟩
    · exact ⟨iff_of_false stranded.not_owned (Nat.not_lt.mpr late), fun _ => ⟨broken, stranded⟩⟩
  · simp only [InFlight.deadline?_isSome_iff, same]
    constructor
    · intro all
      obtain ⟨other, within, longest⟩ := admits.exists_longest
      rw [← longest]
      exact all other within
    · intro early other within
      have limit := within.timeout_le
      omega
  · intro bounds abides early
    exact timely_of_early ⟨rfl, bounds, abides⟩ early

/-- An action is stored, and an invoker comes up. -/
def demoSetUp : List Event :=
  [.store Standalone.demoActions[0], .heartbeat ⟨⟨0⟩, ⟨1024, 0, 4, 0⟩, 0, .up⟩ .origin]

/-- With five minutes as the longest time limit and a minute of grace there is time enough. -/
theorem reservations_owned_demoSetUp :
    let start := new .standard (.new .standard) (.new 2) counting
    let g := start.run demoSetUp
    Function.Injective counting ∧ Timely start demoSetUp ∧
    (g.place demoRequest Standalone.demoActions[0]).2 = some ⟨0⟩ ∧
    Owned g (g.submit demoRequest .origin 0).1 Standalone.demoActions[0] ⟨0⟩ .origin := by
  intro start g
  obtain ⟨owned, -, timely⟩ :=
    reservations_owned .standard (.new .standard) (.new 2) counting_injective demoSetUp
  have lookUp : g.lookUp demoRequest.action = .ok Standalone.demoActions[0] := by decide +kernel
  have placed : (g.place demoRequest Standalone.demoActions[0]).2 = some ⟨0⟩ := by decide +kernel
  refine ⟨counting_injective, timely rfl (Store.abides_new _) ?_, placed, ?_⟩
  · simp [demoSetUp, Event.Early]
  · exact (owned demoRequest _ ⟨0⟩ .origin 0 lookUp placed).1.mpr (by decide +kernel)

/-- The longest grace that a configuration can ask for. -/
def graceText : List Char := "[balancer]\ntimeout_grace = \"18446744073709551615s\"\n".toList

def graceConfig : Config :=
  { Config.standard with
    balancer := { BalancerSettings.standard with grace := .ofSecs 18_446_744_073_709_551_615 } }

/-- The configuration is accepted, and so is the action; but the first submission takes a slot that
no activation answers for. -/
theorem reservation_stranded :
    let g := (new graceConfig (.new graceConfig.limits) (.new 2) counting).run demoSetUp
    let after := (g.submit demoRequest .origin 0).1
    Config.ofText graceText = .ok graceConfig ∧
    ((Store.new graceConfig.limits).put Standalone.demoActions[0]).toOption.isSome ∧
    (g.place demoRequest Standalone.demoActions[0]).2 = some ⟨0⟩ ∧
    (g.submit demoRequest .origin 0).2 = .error .deadlineOutOfRange ∧
    g.ledger.usedSlots ⟨0⟩ = 0 ∧ after.ledger.usedSlots ⟨0⟩ = 1 ∧ after.flight.pending = [] := by
  decide +kernel

end Gateway

end Dispatch
