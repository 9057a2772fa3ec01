import Dispatch.Proofs.FleetSnapshots
import Dispatch.Proofs.ProbeOrder

/-!
# Placements are sound and complete

A placement walks a route over a snapshot that may have been built long ago, and reserves on the
way. `target_eq` says what it finds in terms of the present fleet only: the first of the
`candidates` that `fits`. So a placement never crosses the pools, never takes an invoker that is out
of service, and without a limit on probes refuses only when nobody of the pool has room
(`placement_sound_and_complete`).
-/

set_option autoImplicit false

namespace Dispatch.Gateway

variable {g : Gateway} {r : Request} {a : Action}

/-- The members of an action's pool, in the order in which a placement asks them: along the route of
the request's key, as far as the limit on probes goes. -/
def candidates (g : Gateway) (r : Request) (a : Action) : List InvokerId :=
  let members := g.registry.members a.pool
  let n := members.length
  let route := Route.start (keyOf r).hash (keyOf r).hint (coprimeSteps n) n
  (route.take (Scheduler.budget g.maxProbes n)).filterMap (members[·]?)

/-- Whether an invoker is healthy now, and its account has room for an action and a slot. -/
def fits (g : Gateway) (a : Action) (i : InvokerId) : Bool :=
  (g.monitor.health i).isUsable && g.ledger.accepts i a.limits.memory

/-- The fleet as the gateway's next snapshot shows it is the fleet as it is. -/
structure UpToDate (g : Gateway) : Prop where
  snapshot : (g.registry.snapshot g.monitor).2 = g.registry.build g.monitor
  bounded : g.registry.size < wordSize

theorem probed_eq (upToDate : UpToDate g) :
    g.probed r a = (g.candidates r a).map fun i => ⟨i, g.monitor.health i⟩ := by
  rw [probed, upToDate.snapshot, Registry.view_build upToDate.bounded, candidates,
    List.map_filterMap]
  simp only [Scheduler.probes, PoolView.ofSlots, List.length_map, List.getElem?_map]

/-- **A placement takes the first candidate that fits.** -/
theorem target_eq (upToDate : UpToDate g) :
    g.target r a =
      ((g.candidates r a).find? (g.fits a)).map fun i => ⟨i, g.monitor.health i⟩ := by
  rw [target, probed_eq upToDate, List.find?_map]
  rfl

theorem poolOf_of_candidate (upToDate : UpToDate g) {i : InvokerId}
    (candidate : i ∈ g.candidates r a) : g.registry.poolOf i = some a.pool := by
  obtain ⟨position, -, there⟩ := List.mem_filterMap.mp candidate
  exact (Registry.mem_members upToDate.bounded).mp (List.mem_of_getElem? there)

/-- Without a limit on probes, every member of the pool is a candidate. -/
theorem candidate_of_poolOf (upToDate : UpToDate g) (unlimited : g.maxProbes = 0)
    (room : (g.registry.members a.pool).length + 53 ≤ wordSize ∨
      (keyOf r).hash.toNat < (g.registry.members a.pool).length) {i : InvokerId}
    (assigned : g.registry.poolOf i = some a.pool) : i ∈ g.candidates r a := by
  have member := (Registry.mem_members upToDate.bounded).mpr assigned
  obtain ⟨position, there⟩ := List.mem_iff_getElem?.mp member
  have within := (List.getElem?_eq_some_iff.mp there).1
  have word := Nat.lt_of_le_of_lt (g.registry.length_members_le a.pool) upToDate.bounded
  have visited := Route.mem_order_start (keyOf r).hash (keyOf r).hint within word room
  have positive := Nat.zero_lt_of_lt within
  refine List.mem_filterMap.mpr ⟨position, ?_, there⟩
  rw [Route.order, Route.start_eq _ _ positive] at visited
  rw [Scheduler.budget, if_pos unlimited, Route.start_eq _ _ positive]
  exact visited

/-- What a submission does whose action is found. -/
structure Placement (g : Gateway) (r : Request) (a : Action) (now : Instant) (calendar : UInt64) :
    Prop where
  /-- The first candidate that fits gets the reservation, and the activation is dispatched to it. -/
  reserves : ∀ i, (g.candidates r a).find? (g.fits a) = some i →
    (g.ledger.reserve i a.limits.memory).2 = true ∧
      g.place r a = (g.refreshed.reserved i a.limits.memory, some i) ∧
      g.submit r now calendar =
        (g.refreshed.reserved i a.limits.memory).dispatch r a i now calendar
  /-- Where no candidate fits, and only there, the submission is refused for want of room. -/
  refuses : (∃ name pool memory, (g.submit r now calendar).2 =
      .error (.overload name pool memory)) ↔ (g.candidates r a).find? (g.fits a) = none
  /-- Whoever is chosen serves the action's pool, and fits. -/
  sound : ∀ i, (g.place r a).2 = some i →
    g.registry.poolOf i = some a.pool ∧ g.fits a i = true

theorem dispatch_ne_overload (g : Gateway) (r : Request) (a : Action) (i : InvokerId)
    (now : Instant) (calendar : UInt64) (name : QualifiedName) (pool : Pool) (memory : UInt64) :
    (g.dispatch r a i now calendar).2 ≠ .error (.overload name pool memory) := by
  intro refused
  simp only [dispatch] at refused
  split at refused
  · cases refused
  · split at refused <;> cases refused

theorem placement_of_upToDate (upToDate : UpToDate g) (lookUp : g.lookUp r.action = .ok a)
    (now : Instant) (calendar : UInt64) : Placement g r a now calendar := by
  have found := target_eq (r := r) (a := a) upToDate
  constructor
  case reserves =>
    intro i first
    rw [first, Option.map_some] at found
    have room := accepts_of_target found
    refine ⟨?_, ?_, ?_⟩
    · rw [Ledger.reserve_snd, room]
    · rw [place_eq, found]
    · rw [submit_of_target lookUp found]
  case refuses =>
    cases first : (g.candidates r a).find? (g.fits a) with
    | none =>
        rw [first, Option.map_none] at found
        rw [submit_of_no_target lookUp found]
        exact iff_of_true ⟨_, _, _, rfl⟩ rfl
    | some i =>
        rw [first, Option.map_some] at found
        rw [submit_of_target lookUp found]
        refine iff_of_false ?_ (Option.some_ne_none i)
        rintro ⟨name, pool, memory, refused⟩
        exact dispatch_ne_overload _ r a i now calendar name pool memory refused
  case sound =>
    intro i placed
    rw [place_eq] at placed
    cases first : (g.candidates r a).find? (g.fits a) with
    | none =>
        rw [found, first] at placed
        cases placed
    | some j =>
        rw [found, first] at placed
        obtain rfl := Option.some.inj placed
        exact ⟨poolOf_of_candidate upToDate (List.mem_of_find?_eq_some first),
          List.find?_some first⟩

/-- Who was taken out of service and has not come up since is offline. -/
theorem offline_of_run {before after : List Event} {e : Event} {i : InvokerId}
    (positioned : Positioned g) (listed : ∀ event ∈ before ++ e :: after, event.Listed)
    (silences : e.Silences i) (quiet : ∀ later ∈ after, ¬ later.Revives i) :
    (g.run (before ++ e :: after)).monitor.health i = .offline := by
  have earlier : ∀ event ∈ before, event.Listed := fun event member =>
    listed event (List.mem_append_left _ member)
  rw [run_append, run_cons]
  refine offline_run quiet (offline_of_silenced (positioned_run earlier positioned) ?_ silences)
  exact listed e (List.mem_append_right _ List.mem_cons_self)

/-- **Placement is sound and complete.** After any run of a new gateway, with `members` the
invokers that the registry assigns to the action's pool: a submission reserves on the first
candidate that fits and is refused exactly where there is none, whoever is chosen serves the
action's pool, and whoever was removed or shut down is not chosen before it reports up again. With
no limit on probes nobody is refused while a member fits. For that no position may pass the word
size: one can only where the pool has more than `wordSize - 53` members, far beyond any memory, and
the hash is not below their number. -/
theorem placement_sound_and_complete (config : Config) (store : Store) (bus : Bus)
    (mint : Nat → ActivationId) (events : List Event) {r : Request} {a : Action}
    (lookUp : ((new config store bus mint).run events).lookUp r.action = .ok a) (now : Instant)
    (calendar : UInt64) :
    let g := (new config store bus mint).run events
    let members := g.registry.members a.pool
    g.maxProbes = config.balancer.maxProbes ∧
    members.Pairwise (fun i j => i.ordinal < j.ordinal) ∧
    (∀ i, i ∈ members ↔ g.registry.poolOf i = some a.pool) ∧
    Placement g r a now calendar ∧
    (∀ before e after i, events = before ++ e :: after → (∀ event ∈ events, event.Listed) →
      e.Silences i → (∀ later ∈ after, ¬ later.Revives i) → (g.place r a).2 ≠ some i) ∧
    (g.maxProbes = 0 →
      members.length + 53 ≤ wordSize ∨ (keyOf r).hash.toNat < members.length →
      ∀ i ∈ members, g.fits a i = true → ∀ name pool memory,
        (g.submit r now calendar).2 ≠ .error (.overload name pool memory)) := by
  intro g members
  have upToDate : UpToDate g :=
    ⟨snapshot_of_run config store bus mint events, size_run_lt config store bus mint events⟩
  have placement : Placement g r a now calendar :=
    placement_of_upToDate upToDate lookUp now calendar
  have member_iff : ∀ i, i ∈ members ↔ g.registry.poolOf i = some a.pool :=
    fun i => Registry.mem_members upToDate.bounded
  refine ⟨(run_settings _ events).2, Registry.members_ascending upToDate.bounded a.pool,
    member_iff, placement, ?_, ?_⟩
  · intro before e after i parted listed silences quiet placed
    have positioned : Positioned (new config store bus mint) := fun _ _ => rfl
    have offline : g.monitor.health i = .offline := by
      subst parted
      exact offline_of_run positioned listed silences quiet
    have usable := (placement.sound i placed).2
    rw [fits, offline] at usable
    cases usable
  · intro unlimited room i member fits name pool memory refused
    have nobody := placement.refuses.mp ⟨name, pool, memory, refused⟩
    have candidate := candidate_of_poolOf upToDate unlimited room ((member_iff i).mp member)
    exact List.find?_eq_none.mp nobody i candidate fits

/-- Three invokers come up, and the first is removed. -/
def demoRemoval : List Event :=
  let up (i : InvokerId) : Event := .heartbeat ⟨i, ⟨1024, 0, 4, 0⟩, 0, .up⟩ .origin
  [up ⟨0⟩, up ⟨1⟩, up ⟨2⟩, .remove ⟨0⟩]

/-- The first two serve the managed pool, and a managed action goes to the one that is left. -/
theorem placement_sound_and_complete_demoRemoval :
    (demo.run demoRemoval).lookUp demoRequest.action = .ok Standalone.demoActions[0] ∧
    (demo.run demoRemoval).registry.members .managed = [⟨0⟩, ⟨1⟩] ∧
    ((demo.run demoRemoval).place demoRequest Standalone.demoActions[0]).2 = some ⟨1⟩ ∧
    ((demo.run demoRemoval).place demoRequest Standalone.demoActions[0]).2 ≠ some ⟨0⟩ := by
  have lookUp : (demo.run demoRemoval).lookUp demoRequest.action =
      .ok Standalone.demoActions[0] := by decide +kernel
  obtain ⟨-, -, -, -, removed, -⟩ := placement_sound_and_complete .standard
    (Standalone.seedAll Standalone.demoActions (.new .standard)).1 (.new 2) counting demoRemoval
    lookUp .origin 0
  have listed : ∀ event ∈ demoRemoval, event.Listed := by
    simp [demoRemoval, Event.Listed, Numeral.maxWord64]
  refine ⟨lookUp, by decide +kernel, by decide +kernel, ?_⟩
  exact removed (demoRemoval.take 3) (.remove ⟨0⟩) [] ⟨0⟩ rfl listed rfl
    fun _ later => absurd later List.not_mem_nil

end Dispatch.Gateway
