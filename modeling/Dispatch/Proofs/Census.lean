import Dispatch.Proofs.HeartbeatOrder

/-!
# The census of the fleet

Registry, ledger and monitor each keep a record of the fleet of their own, and the table of
activations in flight refers to it. All of them learn of an invoker from its heartbeats and from
nothing else: any other event is `Tacit`, it moves neither the size of the fleet nor the totals of
an account, and leaves every activation in flight on an invoker that has an account (`Housed`).
So the heartbeats that a gateway has `heard` say all that the records have in common. `Agrees` is
that, a heartbeat extends it by itself (`Agrees.heartbeat`), and `fleet_agrees` reads the listing
off it.
-/

set_option autoImplicit false

namespace Dispatch

/-! ## What was heard -/

/-- The size of the smallest fleet that has a position for everybody who was heard. -/
def fleetSize (heard : List Heartbeat) : Nat :=
  ((heard.map (·.invoker.ordinal.toNat)).max?.map (· + 1)).getD 0

theorem fleetSize_le_iff {heard : List Heartbeat} {n : Nat} :
    fleetSize heard ≤ n ↔ ∀ h ∈ heard, h.invoker.ordinal.toNat < n := by
  unfold fleetSize
  cases largest : (heard.map (·.invoker.ordinal.toNat)).max? with
  | none =>
      obtain rfl := List.map_eq_nil_iff.mp (List.max?_eq_none_iff.mp largest)
      simp
  | some k =>
      obtain ⟨there, bound⟩ := List.max?_eq_some_iff.mp largest
      simp only [List.mem_map, forall_exists_index, and_imp, forall_apply_eq_imp_iff₂] at there bound
      obtain ⟨last, member, rfl⟩ := there
      constructor
      · intro within h heard
        exact Nat.lt_of_le_of_lt (bound h heard) within
      · intro all
        exact all last member

theorem fleetSize_concat (heard : List Heartbeat) (h : Heartbeat) :
    fleetSize (heard ++ [h]) = max (fleetSize heard) (h.invoker.ordinal.toNat + 1) := by
  -- Both sides have the same upper bounds.
  apply eq_of_forall_ge_iff
  intro n
  rw [fleetSize_le_iff, Nat.max_le, fleetSize_le_iff, Nat.succ_le_iff]
  simp only [List.mem_append, List.mem_singleton, or_imp, forall_and, forall_eq]

/-- The last heartbeat of an invoker. -/
def lastReport? (i : InvokerId) (heard : List Heartbeat) : Option Heartbeat :=
  (heard.filter (·.invoker = i)).getLast?

theorem lastReport?_concat (i : InvokerId) (heard : List Heartbeat) (h : Heartbeat) :
    lastReport? i (heard ++ [h]) = if h.invoker = i then some h else lastReport? i heard := by
  rw [lastReport?, List.filter_append]
  by_cases same : h.invoker = i
  · rw [if_pos same, List.filter_cons_of_pos (by simpa using same)]
    exact List.getLast?_concat
  · rw [if_neg same, List.filter_cons_of_neg (by simpa using same), List.filter_nil,
      List.append_nil, lastReport?]

theorem lastReport?_eq_none_iff {i : InvokerId} {heard : List Heartbeat} :
    lastReport? i heard = none ↔ ∀ h ∈ heard, h.invoker ≠ i := by
  rw [lastReport?, List.getLast?_eq_none_iff, List.filter_eq_nil_iff]
  simp only [decide_eq_true_eq, ne_eq]

theorem isSome_lastReport? {i : InvokerId} {heard : List Heartbeat} :
    (lastReport? i heard).isSome = true ↔ ∃ h ∈ heard, h.invoker = i := by
  rw [Option.isSome_iff_ne_none, Ne, lastReport?_eq_none_iff]
  simp only [ne_eq, not_forall, not_not, exists_prop]

/-! ## Totals -/

namespace Ledger

/-- The totals of an invoker, if it has an account. -/
def totals? (l : Ledger) (id : InvokerId) : Option (UInt64 × UInt32) :=
  (l.account? id).map fun account => (account.totalMemory, account.totalSlots)

theorem totals?_set (l : Ledger) (id : InvokerId) (account : Capacity) :
    { l with accounts := Table.set id account l.accounts }.totals? =
      Function.update l.totals? id (some (account.totalMemory, account.totalSlots)) := by
  funext other
  rw [totals?, account?_set, Function.update_apply]
  by_cases same : id = other
  · rw [if_pos same, if_pos same.symm, Option.map_some]
  · rw [if_neg same, if_neg (Ne.symm same), totals?]

theorem totals?_setCapacity (l : Ledger) (id : InvokerId) (memory : UInt64) (slots : UInt32) :
    (l.setCapacity id memory slots).totals? = Function.update l.totals? id (some (memory, slots)) :=
  totals?_set l id _

/-- What is in use is written without moving the totals. -/
theorem totals?_rewrite {l : Ledger} {id : InvokerId} {before after : Capacity}
    (known : l.account? id = some before) (memory : after.totalMemory = before.totalMemory)
    (slots : after.totalSlots = before.totalSlots) :
    { l with accounts := Table.set id after l.accounts }.totals? = l.totals? := by
  rw [totals?_set, Function.update_eq_self_iff, totals?, known, memory, slots, Option.map_some]

theorem totals?_reserve (l : Ledger) (id : InvokerId) (memory : UInt64) :
    (l.reserve id memory).1.totals? = l.totals? := by
  unfold reserve
  split
  · rfl
  · rename_i account known
    split
    · exact totals?_rewrite known rfl rfl
    · rfl

theorem totals?_release (l : Ledger) (id : InvokerId) (memory : UInt64) :
    (l.release id memory).totals? = l.totals? := by
  unfold release
  split
  · rfl
  · rename_i account known
    exact totals?_rewrite known rfl rfl

end Ledger

/-! ## Activations in flight -/

namespace InFlight

variable {f g h : InFlight}

/-- Every activation in flight is on an invoker that has an account. -/
def Housed (f : InFlight) : Prop :=
  ∀ id r, Table.get? id f.pending = some r → (f.ledger.totals? r.activation.invoker).isSome = true

/-- No totals have moved, and what was housed still is. -/
structure Retains (f g : InFlight) : Prop where
  totals : g.ledger.totals? = f.ledger.totals?
  housed : f.Housed → g.Housed

theorem Retains.refl (f : InFlight) : Retains f f := ⟨rfl, id⟩

theorem Retains.trans (first : Retains f g) (second : Retains g h) : Retains f h :=
  ⟨second.totals.trans first.totals, fun housed => second.housed (first.housed housed)⟩

/-- Endings leave the others where they are. -/
theorem Shrinks.retains (shrinks : Shrinks f g) (totals : g.ledger.totals? = f.ledger.totals?) :
    Retains f g where
  totals := totals
  housed housed id r there := by
    rw [totals]
    exact housed id r (shrinks.pending id r there)

theorem Attempt.retains {id : ActivationId} (attempt : Attempt f id g) : Retains f g := by
  refine attempt.shrinks.retains ?_
  cases attempt with
  | closed pending how => exact Ledger.totals?_release _ _ _
  | missed => rfl

theorem retains_fireDue (f : InFlight) (now : Instant) : Retains f (f.fireDue now) := by
  unfold fireDue
  generalize f.timers.filter (·.due ≤ now) = due
  induction due generalizing f with
  | nil => exact .refl f
  | cons t rest ih =>
      have disarmed : Retains f (f.disarm t.number) := ⟨rfl, id⟩
      exact disarmed.trans ((attempt_expire _ t.id).retains.trans (ih (f.fire t)))

/-- An activation may be registered on an invoker that has an account. -/
theorem retains_add {a : Activation} (known : (f.ledger.totals? a.invoker).isSome = true) :
    Retains f (f.add a) := by
  have replaced : Retains f (f.replaced a.id) := (attempt_replaced f a.id).retains
  refine ⟨replaced.totals, ?_⟩
  intro housed id r there
  show ((f.replaced a.id).ledger.totals? r.activation.invoker).isSome = true
  have entry : Table.get? id (Table.set a.id ⟨f.registered, a⟩ (f.replaced a.id).pending) =
      some r := there
  rw [Table.get?_set] at entry
  split at entry
  · obtain rfl := Option.some.inj entry
    rw [replaced.totals]
    exact known
  · exact replaced.housed housed id r entry

end InFlight

/-! ## Trackers -/

namespace HealthMonitor

theorem isSome_tracker?_alter (m : HealthMonitor) (id : InvokerId)
    (change : HeartbeatTracker → HeartbeatTracker) (i : InvokerId) :
    ((m.alter id change).1.tracker? i).isSome = (m.tracker? i).isSome := by
  rw [tracker?_alter]
  split
  · exact Option.isSome_map
  · rfl

theorem isSome_tracker?_sweep (m : HealthMonitor) (now : Instant) (i : InvokerId) :
    ((m.sweep now).1.tracker? i).isSome = (m.tracker? i).isSome := by
  refine sweep_keeps (P := fun n => (n.tracker? i).isSome = (m.tracker? i).isSome) ?_ rfl
  intro n id kept
  exact (n.isSome_tracker?_alter id (·.evaluate now) i).trans kept

theorem isSome_tracker?_recordUserAction (m : HealthMonitor) (id : InvokerId) (time : UInt64)
    (i : InvokerId) : ((m.recordUserAction id time).tracker? i).isSome = (m.tracker? i).isSome := by
  have altered : m.recordUserAction id time = (m.alter id (·.recordUserAction time)).1 :=
    congrArg Prod.fst (m.recordUserAction_eq_alter id time)
  rw [altered, isSome_tracker?_alter]

end HealthMonitor

namespace Gateway

variable {g : Gateway}

/-! ## Events that tell nothing -/

/-- The heartbeat that an event is, if it is one. -/
def Event.report? : Event → Option Heartbeat
  | .heartbeat h _ => some h
  | _ => none

/-- The heartbeats of a run. -/
def reports (events : List Event) : List Heartbeat := events.filterMap Event.report?

/-- The records of the fleet are as before, and so are the accounts of the activations in flight. -/
structure Tacit (g after : Gateway) : Prop where
  size : after.registry.size = g.registry.size
  version : after.registry.version = g.registry.version
  tracked : ∀ i, (after.monitor.tracker? i).isSome = (g.monitor.tracker? i).isSome
  flight : g.flight.Retains after.flight

theorem retains_reserved (g : Gateway) (invoker : InvokerId) (memory : UInt64) :
    g.flight.Retains (g.refreshed.reserved invoker memory).flight := by
  have same : g.flight.Shrinks (g.refreshed.reserved invoker memory).flight := .of_eq rfl rfl rfl
  exact same.retains (g.ledger.totals?_reserve invoker memory)

/-- Whoever is chosen accepts the reservation, so it has an account. -/
theorem retains_enlisted {enlisted : Gateway} {r : Request} {a : Action} {slot : Slot}
    {now : Instant} (target : g.target r a = some slot)
    (enlist : (g.refreshed.reserved slot.id a.limits.memory).enlist r a slot.id now =
      some enlisted) : g.flight.Retains enlisted.flight := by
  obtain ⟨account, known, -, -⟩ := Ledger.reserve_of_accepts (accepts_of_target target)
  obtain ⟨deadline, -, rfl⟩ := enlist_eq_some enlist
  have reserved := g.retains_reserved slot.id a.limits.memory
  refine reserved.trans (InFlight.retains_add ?_)
  show ((g.refreshed.reserved slot.id a.limits.memory).flight.ledger.totals? slot.id).isSome = true
  rw [reserved.totals, Ledger.totals?, ← ledger, known]
  rfl

theorem retains_submit (g : Gateway) (r : Request) (now : Instant) (calendar : UInt64) :
    g.flight.Retains (g.submit r now calendar).1.flight := by
  have outcome := submit_outcome g r now calendar
  generalize (g.submit r now calendar).1 = after, (g.submit r now calendar).2 = result at outcome ⊢
  cases outcome with
  | unknown => exact .refl _
  | overloaded => exact ⟨rfl, id⟩
  | unnamed => exact g.retains_reserved _ _
  | @unpublished _ _ between _ _ target enlist _ =>
      have withdrawn := (InFlight.attempt_abandon between.flight (g.mint g.minted)).retains
      exact (retains_enlisted target enlist).trans ⟨withdrawn.totals, withdrawn.housed⟩
  | published _ target enlist _ =>
      have there := retains_enlisted target enlist
      exact ⟨there.totals, there.housed⟩

theorem tacit_submit (g : Gateway) (r : Request) (now : Instant) (calendar : UInt64) :
    Tacit g (g.submit r now calendar).1 := by
  have frame := submit_frame g r now calendar
  obtain ⟨current, builds, registry⟩ := frame.membership
  refine ⟨by rw [registry], by rw [registry], fun i => ?_, g.retains_submit r now calendar⟩
  rw [frame.monitor]

/-- **Whatever is no heartbeat leaves the records of the fleet as they are.** -/
theorem tacit_step (g : Gateway) {e : Event} (tells : e.report? = none) : Tacit g (g.step e) := by
  cases e with
  | submit r now calendar => exact tacit_submit g r now calendar
  | complete c calendar =>
      refine ⟨rfl, rfl, ?_, (InFlight.attempt_resolve g.flight c).retains⟩
      intro i
      simp only [step, processCompletion]
      split
      · exact HealthMonitor.isSome_tracker?_recordUserAction _ _ _ i
      · rfl
  | elapse now => exact ⟨rfl, rfl, fun _ => rfl, InFlight.retains_fireDue _ now⟩
  | expire id => exact ⟨rfl, rfl, fun _ => rfl, (InFlight.attempt_expire _ id).retains⟩
  | heartbeat h now => cases tells
  | remove id =>
      simp only [step, removeInvoker]
      split
      · exact ⟨rfl, rfl, fun _ => rfl, .refl _⟩
      · refine ⟨rfl, rfl, fun i => ?_, .refl _⟩
        exact HealthMonitor.isSome_tracker?_alter _ _ _ i
  | sweep now =>
      exact ⟨rfl, rfl, fun i => HealthMonitor.isSome_tracker?_sweep _ now i, .refl _⟩
  | list =>
      obtain ⟨current, builds, registry⟩ := g.refreshed_registry
      have size := congrArg Registry.size registry
      have version := congrArg Registry.version registry
      exact ⟨size, version, fun _ => rfl, .refl _⟩
  | store | bus => exact ⟨rfl, rfl, fun _ => rfl, .refl _⟩

/-! ## Agreement -/

/-- The records of the fleet are what the heartbeats that were heard make of them. -/
structure Agrees (g : Gateway) (heard : List Heartbeat) : Prop where
  size : g.registry.size = fleetSize heard
  totals : ∀ i, g.ledger.totals? i =
    (lastReport? i heard).map fun h => (h.capacity.totalMemory, h.capacity.totalSlots)
  tracked : ∀ i, (g.monitor.tracker? i).isSome = (lastReport? i heard).isSome
  housed : g.flight.Housed

variable {heard : List Heartbeat}

theorem agrees_new (config : Config) (store : Store) (bus : Bus) (mint : Nat → ActivationId) :
    Agrees (new config store bus mint) [] :=
  ⟨rfl, fun _ => rfl, fun _ => rfl, fun _ _ there => by cases there⟩

theorem Agrees.tacit (agrees : Agrees g heard) {after : Gateway} (tacit : Tacit g after) :
    Agrees after heard where
  size := tacit.size.trans agrees.size
  totals i := (congrFun tacit.flight.totals i).trans (agrees.totals i)
  tracked i := (tacit.tracked i).trans (agrees.tracked i)
  housed := tacit.flight.housed agrees.housed

/-- **A heartbeat adds itself to what was heard, in every record.** -/
theorem Agrees.heartbeat (agrees : Agrees g heard) {h : Heartbeat} (now : Instant)
    (below : h.invoker.ordinal.toNat < Numeral.maxWord64) :
    Agrees (g.processHeartbeat h now) (heard ++ [h]) := by
  have positioned := g.registered_of_lt below
  have totals : (g.processHeartbeat h now).ledger.totals? =
      Function.update g.ledger.totals? h.invoker
        (some (h.capacity.totalMemory, h.capacity.totalSlots)) := by
    rw [heartbeat_ledger positioned, Ledger.totals?_setCapacity]
  constructor
  case size => rw [(joined_of_lt g now below).size, agrees.size, fleetSize_concat]
  case totals =>
    intro i
    rw [totals, lastReport?_concat, Function.update_apply, agrees.totals]
    by_cases same : h.invoker = i
    · rw [if_pos same, if_pos same.symm, Option.map_some]
    · rw [if_neg same, if_neg (Ne.symm same)]
  case tracked =>
    intro i
    rw [heartbeat_monitor, if_neg positioned, HealthMonitor.beat, HealthMonitor.tracker?_replace,
      lastReport?_concat]
    split
    · rfl
    · exact agrees.tracked i
  case housed =>
    intro id r there
    have pending : (g.processHeartbeat h now).flight.pending = g.flight.pending := by
      simp only [processHeartbeat]
      split <;> rfl
    rw [pending] at there
    show ((g.processHeartbeat h now).ledger.totals? _).isSome = true
    -- A heartbeat opens or rewrites one account, and takes none away.
    rw [totals, Function.update_apply]
    split
    · rfl
    · exact agrees.housed id r there

/-- **Every event keeps the records in agreement.** -/
theorem Agrees.step (agrees : Agrees g heard) {e : Event} (listed : e.Listed) :
    Agrees (g.step e) (heard ++ e.report?.toList) := by
  cases told : e.report? with
  | none =>
      rw [Option.toList_none, List.append_nil]
      exact agrees.tacit (tacit_step g told)
  | some h =>
      cases e with
      | heartbeat k now =>
          obtain rfl := Option.some.inj told
          exact agrees.heartbeat now listed
      | _ => cases told

theorem Agrees.run (agrees : Agrees g heard) {events : List Event}
    (listed : ∀ e ∈ events, e.Listed) : Agrees (g.run events) (heard ++ reports events) := by
  induction events generalizing g heard with
  | nil =>
      rw [reports, List.filterMap_nil, List.append_nil]
      exact agrees
  | cons e rest ih =>
      have first := agrees.step (listed e List.mem_cons_self)
      have later := ih first fun later member => listed later (List.mem_cons_of_mem e member)
      rw [List.append_assoc] at later
      have told : reports (e :: rest) = e.report?.toList ++ reports rest := by
        rw [reports, reports, List.filterMap_cons]
        cases e.report? <;> rfl
      rw [told]
      exact later

/-! ## Growth -/

/-- The heartbeat that an event is, if it makes the fleet larger. -/
def Event.growth? (g : Gateway) (e : Event) : Option Heartbeat :=
  e.report?.filter fun _ => g.registry.size < (g.step e).registry.size

/-- The heartbeats of a run that make the fleet larger. -/
def growths : Gateway → List Event → List Heartbeat
  | _, [] => []
  | g, e :: rest => (e.growth? g).toList ++ growths (g.step e) rest

theorem version_step (g : Gateway) (e : Event) :
    (g.step e).registry.version = g.registry.version + (e.growth? g).toList.length := by
  cases told : e.report? with
  | none =>
      rw [Event.growth?, told]
      exact (tacit_step g told).version
  | some h =>
      cases e with
      | heartbeat k now =>
          have registry := g.heartbeat_registry k now
          rw [Event.growth?, told, step, registry, Registry.version_register,
            Option.filter_some]
          simp only [decide_eq_true_eq]
          split <;> rfl
      | _ => cases told

/-- **The version of the membership counts the heartbeats that make the fleet larger.** -/
theorem version_run (g : Gateway) (events : List Event) :
    (g.run events).registry.version = g.registry.version + (growths g events).length := by
  induction events generalizing g with
  | nil => rfl
  | cons e rest ih =>
      rw [run_cons, ih (g.step e), g.version_step e, growths, List.length_append, Nat.add_assoc]

/-! ## The listing -/

/-- A row of the listing is what registry, monitor and ledger say of its invoker. The totals are
those of the invoker's last heartbeat, and whoever was never heard is only a placeholder. -/
structure Shows (g : Gateway) (heard : List Heartbeat) (info : InvokerInfo) : Prop where
  pool : g.registry.poolOf info.id = some info.pool
  health : info.health = g.monitor.health info.id
  lastUserAction : info.lastUserAction = g.monitor.lastUserAction info.id
  capacity : ∀ h, lastReport? info.id heard = some h →
    g.ledger.account? info.id = some info.capacity ∧
      info.capacity.totalMemory = h.capacity.totalMemory ∧
      info.capacity.totalSlots = h.capacity.totalSlots
  placeholder : (∀ h ∈ heard, h.invoker ≠ info.id) →
    info.health = .offline ∧ info.capacity = .none ∧ info.lastUserAction = none

theorem Agrees.shows (agrees : Agrees g heard) {info : InvokerInfo}
    (row : g.row info.id = some info) : Shows g heard info := by
  obtain ⟨pool, assigned, same⟩ := Option.map_eq_some_iff.mp row
  have health : info.health = g.monitor.health info.id := (congrArg InvokerInfo.health same).symm
  have capacity : info.capacity = (g.ledger.account? info.id).getD .none :=
    (congrArg InvokerInfo.capacity same).symm
  have lastUserAction : info.lastUserAction = g.monitor.lastUserAction info.id :=
    (congrArg InvokerInfo.lastUserAction same).symm
  have totals := agrees.totals info.id
  constructor
  case pool => rw [assigned, ← congrArg InvokerInfo.pool same, infoOf]
  case health => exact health
  case lastUserAction => exact lastUserAction
  case capacity =>
    intro h last
    rw [last, Option.map_some] at totals
    obtain ⟨account, known, told⟩ := Option.map_eq_some_iff.mp totals
    rw [known, Option.getD_some] at capacity
    obtain ⟨memory, slots⟩ := Prod.mk.inj told
    rw [capacity]
    exact ⟨known, memory, slots⟩
  case placeholder =>
    intro unheard
    have silent := lastReport?_eq_none_iff.mpr unheard
    have untracked : g.monitor.tracker? info.id = none := by
      have tracked := agrees.tracked info.id
      rwa [silent, Option.isSome_none, Option.isSome_eq_false_iff, Option.isNone_iff_eq_none]
        at tracked
    rw [silent, Option.map_none] at totals
    rw [Option.map_eq_none_iff.mp totals, Option.getD_none] at capacity
    refine ⟨?_, capacity, ?_⟩
    · rw [health, HealthMonitor.health_of_untracked untracked]
    · rw [lastUserAction, HealthMonitor.lastUserAction, untracked, Option.bind_none]

/-- **Registry, ledger, monitor and the activations in flight agree on the fleet.** After any run of
a new gateway in which whoever reports has an ordinal below the largest word, with `heard` the
heartbeats of that run:

* the fleet is just large enough for everybody who was heard, and the version of the membership
  counts the heartbeats that made it larger;
* the invokers that have an account and those that are tracked are the ones that were heard, and
  every activation in flight is on one of them;
* the listing has one row for each position, in ascending order, and every row is what the registry,
  the monitor and the ledger say. -/
theorem fleet_agrees (config : Config) (store : Store) (bus : Bus) (mint : Nat → ActivationId)
    {events : List Event} (listed : ∀ e ∈ events, e.Listed) :
    let start := new config store bus mint
    let g := start.run events
    let heard := reports events
    (g.registry.size = ((heard.map (·.invoker.ordinal.toNat)).max?.map (· + 1)).getD 0 ∧
      g.registry.version = (growths start events).length) ∧
    (∀ i, (g.ledger.account? i).isSome = true ↔ ∃ h ∈ heard, h.invoker = i) ∧
    (∀ i, (g.monitor.tracker? i).isSome = true ↔ ∃ h ∈ heard, h.invoker = i) ∧
    (∀ id a, g.flight.get? id = some a → ∃ h ∈ heard, h.invoker = a.invoker) ∧
    g.listInvokers.2.map (·.id.ordinal.toNat) = List.range g.registry.size ∧
    ∀ info ∈ g.listInvokers.2, Shows g heard info := by
  intro start g heard
  have agrees : Agrees g heard := (agrees_new config store bus mint).run listed
  have coherent := coherent_run config store bus mint events
  have bounded : g.registry.size < wordSize := size_run_lt config store bus mint events
  have accounts : ∀ i, (g.ledger.account? i).isSome = true ↔ ∃ h ∈ heard, h.invoker = i := by
    intro i
    have totals := congrArg Option.isSome (agrees.totals i)
    rw [Ledger.totals?, Option.isSome_map, Option.isSome_map] at totals
    rw [totals, isSome_lastReport?]
  refine ⟨⟨agrees.size, ?_⟩, accounts, ?_, ?_, ordinals_listInvokers coherent bounded, ?_⟩
  · exact (start.version_run events).trans (Nat.zero_add _)
  · intro i
    rw [agrees.tracked, isSome_lastReport?]
  · intro id a there
    obtain ⟨r, pending, rfl⟩ := InFlight.get?_eq_some_iff.mp there
    have housed := agrees.housed id r pending
    rw [Ledger.totals?, Option.isSome_map] at housed
    exact (accounts _).mp housed
  · intro info member
    exact agrees.shows (mem_listInvokers coherent bounded member)

/-- The third invoker comes up first; the second one, of which nothing is heard, is removed; the
first one comes up and gets an activation, and the third one shuts down with less memory. -/
def demoGap : List Event :=
  let report (i : InvokerId) (memory : UInt64) (status : InvokerStatus) : Event :=
    .heartbeat ⟨i, ⟨memory, 7, 4, 1⟩, 0, status⟩ .origin
  [report ⟨2⟩ 512 .up, .remove ⟨1⟩, report ⟨0⟩ 1024 .up, .submit demoRequest .origin 0,
    report ⟨2⟩ 256 .shuttingDown, .sweep .origin]

/-- There is one row for each of the three, and that of the second is empty. -/
theorem fleet_agrees_demoGap :
    let g := demo.run demoGap
    (∀ e ∈ demoGap, e.Listed) ∧ g.registry.size = 3 ∧ g.registry.version = 1 ∧
      g.listInvokers.2 = [⟨⟨0⟩, .managed, .healthy, ⟨1024, 256, 4, 1⟩, none⟩,
        ⟨⟨1⟩, .managed, .offline, .none, none⟩, ⟨⟨2⟩, .blackbox, .offline, ⟨256, 0, 4, 0⟩, none⟩] ∧
      (∀ info ∈ g.listInvokers.2, Shows g (reports demoGap) info) ∧
      ¬ ∃ h ∈ reports demoGap, h.invoker = ⟨1⟩ := by
  intro g
  have listed : ∀ e ∈ demoGap, e.Listed := by simp [demoGap, Event.Listed, Numeral.maxWord64]
  obtain ⟨-, accounts, -, -, -, rows⟩ := fleet_agrees .standard
    (Standalone.seedAll Standalone.demoActions (.new .standard)).1 (.new 2) counting listed
  have unknown : (g.ledger.account? ⟨1⟩).isSome = false := by decide +kernel
  refine ⟨listed, by decide +kernel, by decide +kernel, by decide +kernel, rows, ?_⟩
  rw [← accounts]
  exact (Bool.eq_false_iff).mp unknown

end Gateway

end Dispatch
