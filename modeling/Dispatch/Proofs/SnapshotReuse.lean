import Dispatch.Proofs.FleetSnapshots
import Dispatch.Proofs.TransitionLog

/-!
# When a snapshot is handed out again

A `Fleet` is a registry with the monitor of its invokers, and `Event` is what can happen to the
two. The versions count: together they grow by exactly the `moves` of a run, its growths of the
membership and its transitions of health (`versions_run`). The snapshots that were built are
numbered, and `handedOut` is the number of the one that is handed out next; a number is one object.
`handedOut_run` says that the number stands still exactly while nothing moves, and `Depicts` is
what a snapshot shows of the fleet. `snapshot_coherent` puts the two together for every history.
-/

set_option autoImplicit false

namespace Dispatch

/-! ## What a snapshot shows -/

theorem PoolSizes.total_ofWanted (n wanted : Nat) :
    (ofWanted n wanted).managed + (ofWanted n wanted).blackbox = n := by
  simp only [ofWanted]
  omega

/-- **The two pools are the whole fleet.** -/
theorem total_poolSizes (n : Nat) (fraction : Binary64) :
    (poolSizes n fraction).managed + (poolSizes n fraction).blackbox = n := by
  unfold poolSizes
  split
  · rfl
  · exact PoolSizes.total_ofWanted n _

/-- A snapshot is the fleet: its slots are the positions in ascending order with the health of
their invokers, the managed pool is as many of them from the front and the blackbox pool as many
from the end as the sizes of the pools say, each with the steps of its size, and every invoker is
found in the pool that the registry assigns to it. -/
structure Snapshot.Depicts (s : Snapshot) (r : Registry) (m : HealthMonitor) : Prop where
  ordinals : s.slots.map (·.2.id.ordinal.toNat) = List.range r.size
  health : ∀ entry ∈ s.slots, entry.2.health = m.health entry.2.id
  managed : s.managed.slots = (s.slots.map (·.2)).take (poolSizes r.size r.fraction).managed
  blackbox : s.blackbox.slots = (s.slots.map (·.2)).drop (poolSizes r.size r.fraction).managed
  managedLength : s.managed.slots.length = (poolSizes r.size r.fraction).managed
  blackboxLength : s.blackbox.slots.length = (poolSizes r.size r.fraction).blackbox
  managedSteps : s.managed.steps = coprimeSteps s.managed.slots.length
  blackboxSteps : s.blackbox.steps = coprimeSteps s.blackbox.slots.length
  poolOf : ∀ id, s.poolOf id = r.poolOf id

namespace Registry

variable {r : Registry}

theorem length_slots (r : Registry) (m : HealthMonitor) : (r.slots m).length = r.size := by
  rw [slots, List.length_map, List.length_range]

/-- Without their pools, the slots of a snapshot are all positions. -/
theorem map_slots_build (r : Registry) (m : HealthMonitor) :
    (r.build m).slots.map (·.2) = r.slots m := by
  have managed : (r.build m).managed.slots =
      (r.slots m).take (poolSizes r.size r.fraction).managed :=
    rfl
  have blackbox :
      (r.build m).blackbox.slots = (r.slots m).drop (poolSizes r.size r.fraction).managed := rfl
  rw [Snapshot.slots, managed, blackbox, List.map_append, List.map_map, List.map_map]
  show List.map id _ ++ List.map id _ = _
  rw [List.map_id, List.map_id, List.take_append_drop]

/-- Looking for an invoker among the slots of some invokers. -/
theorem find?_slots (m : HealthMonitor) (ids : List InvokerId) (pool : Pool) (id : InvokerId) :
    ((ids.map fun i => (⟨i, m.health i⟩ : Slot)).map (pool, ·)).find?
        (fun (_, slot) => slot.id = id) =
      if id ∈ ids then some (pool, ⟨id, m.health id⟩) else none := by
  induction ids with
  | nil => rfl
  | cons i rest ih =>
      by_cases same : i = id
      · subst same
        simp
      · have other : id ≠ i := fun h => same h.symm
        simp only [List.map_cons, List.find?_cons, same, decide_false, List.mem_cons, other,
          false_or]
        exact ih

section Bounded

variable (bounded : r.size < wordSize)
include bounded

/-- **Arithmetic on the size and the search in a snapshot agree on every invoker's pool.** -/
theorem poolOf_build (m : HealthMonitor) (id : InvokerId) :
    (r.build m).poolOf id = r.poolOf id := by
  have managed : (r.build m).managed.slots = _ :=
    congrArg PoolView.slots (view_build bounded m .managed)
  have blackbox : (r.build m).blackbox.slots = _ :=
    congrArg PoolView.slots (view_build bounded m .blackbox)
  rw [Snapshot.poolOf, Snapshot.slots, managed, blackbox, PoolView.ofSlots, PoolView.ofSlots,
    List.find?_append, find?_slots, find?_slots]
  simp only [mem_members bounded]
  cases r.poolOf id with
  | none => rfl
  | some pool => cases pool <;> rfl

theorem depicts_build (m : HealthMonitor) : (r.build m).Depicts r m where
  ordinals := by
    have all : (r.build m).slots.map (·.2.id.ordinal.toNat) =
        ((r.build m).slots.map (·.2)).map (·.id.ordinal.toNat) := by
      rw [List.map_map]
      rfl
    rw [all, map_slots_build, slots_eq, List.map_map]
    exact ordinals_ids bounded
  health entry member := by
    have slot : entry.2 ∈ r.slots m := by
      rw [← map_slots_build]
      exact List.mem_map_of_mem member
    rw [slots_eq] at slot
    obtain ⟨id, -, same⟩ := List.mem_map.mp slot
    rw [← same]
  managed := by
    rw [map_slots_build]
    rfl
  blackbox := by
    rw [map_slots_build]
    rfl
  managedLength := by
    have parted := total_poolSizes r.size r.fraction
    show ((r.slots m).take _).length = _
    rw [List.length_take, length_slots]
    omega
  blackboxLength := by
    have parted := total_poolSizes r.size r.fraction
    show ((r.slots m).drop _).length = _
    rw [List.length_drop, length_slots]
    omega
  managedSteps := rfl
  blackboxSteps := rfl
  poolOf := poolOf_build bounded m

end Bounded

end Registry

/-! ## Histories of a fleet -/

/-- A registry and the monitor of its invokers. -/
structure Fleet where
  registry : Registry
  monitor : HealthMonitor

namespace Fleet

/-- What can happen to a registry and its monitor. Times need not grow. -/
inductive Event where
  | register (id : InvokerId)
  | beat (id : InvokerId) (status : InvokerStatus) (now : Instant)
  | sweep (now : Instant)
  | remove (id : InvokerId)
  /-- Somebody asks for a snapshot. -/
  | snapshot

/-- A fleet that nobody has joined. -/
def new (fraction : Binary64) (settings : HealthSettings) : Fleet :=
  ⟨.new fraction, .new settings⟩

def step (f : Fleet) : Event → Fleet
  | .register id => { f with registry := (f.registry.register id).1 }
  | .beat id status now => { f with monitor := (f.monitor.beat id status now).1 }
  | .sweep now => { f with monitor := (f.monitor.sweep now).1 }
  | .remove id => { f with monitor := (f.monitor.remove id).1 }
  | .snapshot => { f with registry := (f.registry.snapshot f.monitor).1 }

def run (f : Fleet) (events : List Event) : Fleet := events.foldl step f

/-- How often the membership grows and somebody's health changes in an event, as the registry and
the monitor report it. -/
def Event.moves (f : Fleet) : Event → Nat
  | .register id =>
    match (f.registry.register id).2 with
    | .known | .sizeOutOfRange => 0
    | .grew _ => 1
  | .beat id status now => (f.monitor.beat id status now).2.toList.length
  | .sweep now => (f.monitor.sweep now).2.length
  | .remove id => (f.monitor.remove id).2.toList.length
  | .snapshot => 0

/-- How often the membership grows and somebody's health changes in a run. -/
def moves : Fleet → List Event → Nat
  | _, [] => 0
  | f, e :: rest => e.moves f + moves (f.step e) rest

/-- Both versions together. -/
def versions (f : Fleet) : Nat := f.registry.version + f.monitor.version

/-- The number of the snapshot that is handed out next, among those that were ever built. -/
def handedOut (f : Fleet) : Nat := (f.registry.snapshot f.monitor).1.builds

theorem run_cons (f : Fleet) (e : Event) (rest : List Event) :
    f.run (e :: rest) = (f.step e).run rest := rfl

/-- **Every move counts in one of the versions, and nothing else does.** -/
theorem versions_step (f : Fleet) (e : Event) : (f.step e).versions = f.versions + e.moves f := by
  cases e with
  | register id =>
      simp only [versions, step, Event.moves]
      rcases f.registry.register_cases id with ⟨-, same⟩ | ⟨-, -, grown⟩ | ⟨-, -, same⟩
      · simp only [same, Nat.add_zero]
      · rw [grown]
        exact Nat.add_right_comm _ _ _
      · simp only [same, Nat.add_zero]
  | beat id status now =>
      have counted := (f.monitor.moves_beat id status now).tells.version
      simp only [versions, step, Event.moves]
      omega
  | sweep now =>
      have counted : (f.monitor.sweep now).1.version =
          f.monitor.version + (f.monitor.sweep now).2.length :=
        (HealthMonitor.moves_evaluateAll now _ f.monitor).tells.version
      simp only [versions, step, Event.moves]
      omega
  | remove id =>
      have counted : (f.monitor.remove id).1.version =
          f.monitor.version + (f.monitor.remove id).2.toList.length :=
        (f.monitor.moves_alter id _).tells.version
      simp only [versions, step, Event.moves]
      omega
  | snapshot =>
      simp only [versions, step, Event.moves, Registry.snapshot]
      split <;> rfl

theorem versions_run (events : List Event) (f : Fleet) :
    (f.run events).versions = f.versions + moves f events := by
  induction events generalizing f with
  | nil => rfl
  | cons e rest ih => rw [run_cons, ih, versions_step, moves, Nat.add_assoc]

/-- What makes handing out a snapshot again right, in a fleet whose size is a word. -/
structure Sound (f : Fleet) : Prop where
  coherent : f.registry.Coherent f.monitor
  bounded : f.registry.size < wordSize

theorem sound_new (fraction : Binary64) (settings : HealthSettings) :
    Sound (new fraction settings) :=
  ⟨Registry.coherent_new _ _, Nat.succ_pos _⟩

theorem sound_step {f : Fleet} (sound : Sound f) (e : Event) : Sound (f.step e) := by
  cases e with
  | register id =>
      exact ⟨sound.coherent.register id, Registry.size_register_lt sound.bounded id⟩
  | beat id status now =>
      exact ⟨sound.coherent.follows (HealthMonitor.follows_beat _ _ _ _), sound.bounded⟩
  | sweep now =>
      exact ⟨sound.coherent.follows (HealthMonitor.follows_sweep _ _), sound.bounded⟩
  | remove id =>
      exact ⟨sound.coherent.follows (HealthMonitor.follows_remove _ _), sound.bounded⟩
  | snapshot =>
      refine ⟨sound.coherent.snapshot, ?_⟩
      simp only [step, Registry.snapshot]
      split <;> exact sound.bounded

theorem sound_run {f : Fleet} (sound : Sound f) (events : List Event) : Sound (f.run events) := by
  induction events generalizing f with
  | nil => exact sound
  | cons e rest ih => exact ih (sound_step sound e)

/-! ## The same object -/

/-- The snapshot handed out last is of this moment. -/
def Fresh (f : Fleet) : Prop := f.registry.isCurrent f.monitor = true

theorem Sound.fresh_iff {f : Fleet} (sound : Sound f) :
    f.Fresh ↔ f.versions =
      f.registry.current.membershipVersion + f.registry.current.healthVersion := by
  have membership := sound.coherent.membership
  have health := sound.coherent.health
  simp only [Fresh, Registry.isCurrent, Bool.and_eq_true, decide_eq_true_eq, versions]
  omega

theorem handedOut_of_fresh {f : Fleet} (fresh : f.Fresh) : f.handedOut = f.registry.builds := by
  unfold Fresh at fresh
  simp only [handedOut, Registry.snapshot, fresh, if_true]

theorem handedOut_of_stale {f : Fleet} (stale : ¬ f.Fresh) :
    f.handedOut = f.registry.builds + 1 := by
  unfold Fresh at stale
  simp only [handedOut, Registry.snapshot, stale, if_false, Bool.false_eq_true]

/-- Whoever asks for a snapshot gets one of this moment. -/
theorem fresh_snapshot (f : Fleet) : (f.step .snapshot).Fresh := by
  simp only [Fresh, step, Registry.snapshot]
  split
  · assumption
  · simp [Registry.isCurrent, Registry.build]

/-- Only asking for a snapshot touches the one that was handed out last. -/
theorem current_step (f : Fleet) {e : Event} (other : e ≠ .snapshot) :
    (f.step e).registry.current = f.registry.current ∧
      (f.step e).registry.builds = f.registry.builds := by
  cases e with
  | register id =>
      obtain ⟨size, version, moved⟩ := f.registry.register_keeps id
      simp only [step, moved, and_self]
  | beat | sweep | remove => exact ⟨rfl, rfl⟩
  | snapshot => exact absurd rfl other

/-- What an event does to the number of the snapshot that is handed out next. -/
theorem handedOut_step {f : Fleet} (sound : Sound f) (e : Event) :
    f.handedOut ≤ (f.step e).handedOut ∧
      (f.Fresh → e.moves f = 0 → (f.step e).Fresh ∧ (f.step e).handedOut = f.handedOut) ∧
      (f.Fresh → e.moves f ≠ 0 → f.handedOut < (f.step e).handedOut) := by
  by_cases asks : e = .snapshot
  · subst asks
    have fresh := f.fresh_snapshot
    have same : (f.step .snapshot).handedOut = f.handedOut := handedOut_of_fresh fresh
    exact ⟨Nat.le_of_eq same.symm, fun _ _ => ⟨fresh, same⟩, fun _ moved => absurd rfl moved⟩
  · obtain ⟨current, builds⟩ := f.current_step asks
    have counted := f.versions_step e
    have before := sound.fresh_iff
    have after := (sound_step sound e).fresh_iff
    have membership := sound.coherent.membership
    have health := sound.coherent.health
    have below : f.registry.current.membershipVersion + f.registry.current.healthVersion ≤
        f.versions := Nat.add_le_add membership health
    rw [current, counted] at after
    by_cases fresh : f.Fresh
    · have versions := before.mp fresh
      by_cases moved : e.moves f = 0
      · have still : (f.step e).Fresh := after.mpr (by omega)
        have same : (f.step e).handedOut = f.handedOut := by
          rw [handedOut_of_fresh fresh, handedOut_of_fresh still, builds]
        exact ⟨Nat.le_of_eq same.symm, fun _ _ => ⟨still, same⟩,
          fun _ nonzero => absurd moved nonzero⟩
      · have stale : ¬ (f.step e).Fresh := fun h => moved (by have := after.mp h; omega)
        have more : f.handedOut < (f.step e).handedOut := by
          rw [handedOut_of_fresh fresh, handedOut_of_stale stale, builds]
          exact Nat.lt_succ_self _
        exact ⟨Nat.le_of_lt more, fun _ zero => absurd zero moved, fun _ _ => more⟩
    · have stale : ¬ (f.step e).Fresh := by
        intro h
        exact fresh (before.mpr (by have := after.mp h; omega))
      have same : (f.step e).handedOut = f.handedOut := by
        rw [handedOut_of_stale fresh, handedOut_of_stale stale, builds]
      exact ⟨Nat.le_of_eq same.symm, fun h => absurd h fresh, fun h => absurd h fresh⟩

theorem handedOut_le_run (events : List Event) {f : Fleet} (sound : Sound f) :
    f.handedOut ≤ (f.run events).handedOut := by
  induction events generalizing f with
  | nil => exact Nat.le_refl _
  | cons e rest ih =>
      exact Nat.le_trans (handedOut_step sound e).1 (ih (sound_step sound e))

/-- **While a snapshot is of this moment, it is handed out again exactly until something moves.** -/
theorem handedOut_run (events : List Event) {f : Fleet} (sound : Sound f) (fresh : f.Fresh) :
    (f.run events).handedOut = f.handedOut ↔ moves f events = 0 := by
  induction events generalizing f with
  | nil => exact iff_of_true rfl rfl
  | cons e rest ih =>
      obtain ⟨-, still, more⟩ := handedOut_step sound e
      have stepped := sound_step sound e
      rw [run_cons, moves]
      by_cases moved : e.moves f = 0
      · obtain ⟨fresh', same⟩ := still fresh moved
        rw [moved, Nat.zero_add, ← same]
        exact ih stepped fresh'
      · have larger := more fresh moved
        have later := handedOut_le_run rest stepped
        omega

/-- **Snapshots are coherent.** After any history, the snapshot that is handed out is the one that
would be built from scratch, and it depicts the fleet. After any further history, the very same
object is handed out exactly if since then the membership has not grown and nobody's health has
changed. Every growth and every transition counts once in one of the two versions, so no pair of
versions comes back. -/
theorem snapshot_coherent (fraction : Binary64) (settings : HealthSettings)
    (events between : List Event) :
    let f := (new fraction settings).run events
    let asked := f.step .snapshot
    (f.registry.snapshot f.monitor).2 = f.registry.build f.monitor ∧
      (f.registry.snapshot f.monitor).2.Depicts f.registry f.monitor ∧
      ((asked.run between).handedOut = f.handedOut ↔ moves asked between = 0) ∧
      (asked.run between).versions = asked.versions + moves asked between := by
  intro f asked
  have sound : Sound f := sound_run (sound_new fraction settings) events
  have built := Registry.snapshot_eq_build sound.coherent
  have fresh := f.fresh_snapshot
  have same : asked.handedOut = f.handedOut := handedOut_of_fresh fresh
  refine ⟨built, ?_, ?_, versions_run between asked⟩
  · rw [built]
    exact Registry.depicts_build sound.bounded f.monitor
  · rw [← same]
    exact handedOut_run between (sound_step sound .snapshot) fresh

end Fleet

end Dispatch
