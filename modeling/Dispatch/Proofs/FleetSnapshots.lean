import Dispatch.Proofs.FleetHealth

/-!
# Snapshots of the fleet

A snapshot is handed out again while the two versions it was built at stand still. `Coherent` is
what makes that right: at those versions it is the very snapshot that would be built now. Every
event keeps it (`coherent_step`), so placements see the fleet as it is (`snapshot_of_run`). The
slots of each pool are then its `members`, the invokers that `poolOf` assigns to it, in ascending
order (`view_build`). Size and version of the membership stay words (`size_run_lt`,
`version_run_lt`).
-/

set_option autoImplicit false

namespace Dispatch

namespace Registry

variable {r : Registry} {m n : HealthMonitor}

/-! ## Coherence -/

/-- The snapshot handed out last is of no later versions, and if it is of these, it is what would
be built now. -/
structure Coherent (r : Registry) (m : HealthMonitor) : Prop where
  membership : r.current.membershipVersion ≤ r.version
  health : r.current.healthVersion ≤ m.version
  current : r.current.membershipVersion = r.version → r.current.healthVersion = m.version →
    r.current = r.build m

theorem coherent_new (fraction : Binary64) (settings : HealthSettings) :
    Coherent (new fraction) (.new settings) where
  membership := Nat.le_refl _
  health := Nat.le_refl _
  current _ _ := by
    simp only [new, build, slots, List.range_zero, List.map_nil, List.take_nil, List.drop_nil]
    rfl

/-- A snapshot is built from the size, the share, the versions and everybody's health. -/
theorem build_congr (r : Registry) (version : n.version = m.version)
    (health : ∀ id, n.health id = m.health id) : r.build n = r.build m := by
  simp only [build, slots, version, health]

theorem snapshot_eq_build (coherent : Coherent r m) : (r.snapshot m).2 = r.build m := by
  unfold snapshot
  split
  · rename_i still
    simp only [isCurrent, Bool.and_eq_true, decide_eq_true_eq] at still
    exact coherent.current still.1 still.2
  · rfl

theorem Coherent.snapshot (coherent : Coherent r m) : Coherent (r.snapshot m).1 m := by
  unfold Registry.snapshot
  split
  · exact coherent
  · exact ⟨Nat.le_refl _, Nat.le_refl _, fun _ _ => rfl⟩

theorem Coherent.follows (coherent : Coherent r m) (follows : HealthMonitor.Follows m n) :
    Coherent r n where
  membership := coherent.membership
  health := Nat.le_trans coherent.health follows.version
  current membership health := by
    have still : n.version = m.version :=
      Nat.le_antisymm (health ▸ coherent.health) follows.version
    rw [build_congr r still (follows.health still)]
    exact coherent.current membership (health.trans still)

theorem Coherent.register (coherent : Coherent r m) (id : InvokerId) :
    Coherent (r.register id).1 m := by
  rcases r.register_cases id with ⟨-, same⟩ | ⟨-, -, grown⟩ | ⟨-, -, same⟩
  · exact same ▸ coherent
  · rw [grown]
    refine ⟨Nat.le_succ_of_le coherent.membership, coherent.health, ?_⟩
    intro still _
    exact absurd still (Nat.ne_of_lt (Nat.lt_succ_of_le coherent.membership))
  · exact same ▸ coherent

/-! ## Members of a pool -/

/-- Every position, in ascending order. -/
def ids (r : Registry) : List InvokerId := (List.range r.size).map fun k => ⟨k.toUInt64⟩

/-- The invokers that serve a pool now, in ascending order. -/
def members (r : Registry) (pool : Pool) : List InvokerId :=
  r.ids.filter fun id => r.poolOf id = some pool

theorem length_members_le (r : Registry) (pool : Pool) : (r.members pool).length ≤ r.size := by
  have within := List.length_filter_le (fun id => decide (r.poolOf id = some pool)) r.ids
  rwa [ids, List.length_map, List.length_range] at within

theorem slots_eq (r : Registry) (m : HealthMonitor) :
    r.slots m = r.ids.map fun id => ⟨id, m.health id⟩ := by
  rw [ids, List.map_map]
  rfl

theorem size_register_lt (bounded : r.size < wordSize) (id : InvokerId) :
    (r.register id).1.size < wordSize := by
  rcases r.register_cases id with ⟨-, same⟩ | ⟨-, below, grown⟩ | ⟨-, -, same⟩
  · exact same ▸ bounded
  · exact grown ▸ Nat.succ_lt_succ below
  · exact same ▸ bounded

/-- Each growth of the fleet adds a position at least. -/
theorem version_register_le (le : r.version ≤ r.size) (id : InvokerId) :
    (r.register id).1.version ≤ (r.register id).1.size := by
  rcases r.register_cases id with ⟨-, same⟩ | ⟨new, -, grown⟩ | ⟨-, -, same⟩
  · exact same ▸ le
  · exact grown ▸ Nat.succ_le_succ (Nat.le_trans le new)
  · exact same ▸ le

theorem poolOf_of_lt {id : InvokerId} (within : id.ordinal.toNat < r.size) :
    r.poolOf id = some (if id.ordinal.toNat < (poolSizes r.size r.fraction).managed then .managed
      else .blackbox) := by
  rw [poolOf, if_neg (Nat.not_le.mpr within)]
  split <;> rfl

theorem filter_parted {α : Type} (p : α → Bool) (n : Nat) (l : List α) :
    l.filter p = (l.take n).filter p ++ (l.drop n).filter p := by
  rw [← List.filter_append, List.take_append_drop]

section Bounded

variable (bounded : r.size < wordSize)
include bounded

/-- Positions are words, so none of them is taken for another one. -/
theorem ordinal_of_lt {k : Nat} (within : k < r.size) :
    (⟨k.toUInt64⟩ : InvokerId).ordinal.toNat = k :=
  Nat.mod_eq_of_lt (Nat.lt_trans within bounded)

/-- The ordinals of the positions count up from zero. -/
theorem ordinals_ids : r.ids.map (·.ordinal.toNat) = List.range r.size := by
  rw [ids, List.map_map]
  refine (List.map_congr_left fun k member => ?_).trans (List.map_id _)
  exact ordinal_of_lt bounded (List.mem_range.mp member)

theorem mem_take_ids {count : Nat} {id : InvokerId} (member : id ∈ r.ids.take count) :
    id.ordinal.toNat < count ∧ id.ordinal.toNat < r.size := by
  rw [ids, ← List.map_take, List.take_range] at member
  obtain ⟨k, within, rfl⟩ := List.mem_map.mp member
  obtain ⟨early, inside⟩ := Nat.lt_min.mp (List.mem_range.mp within)
  rw [ordinal_of_lt bounded inside]
  exact ⟨early, inside⟩

theorem mem_drop_ids {count : Nat} {id : InvokerId} (member : id ∈ r.ids.drop count) :
    count ≤ id.ordinal.toNat ∧ id.ordinal.toNat < r.size := by
  rw [ids, ← List.map_drop, List.range_eq_range', List.drop_range'] at member
  obtain ⟨k, within, rfl⟩ := List.mem_map.mp member
  obtain ⟨late, inside⟩ := List.mem_range'_1.mp within
  rw [ordinal_of_lt bounded (by omega)]
  omega

theorem mem_ids {id : InvokerId} : id ∈ r.ids ↔ id.ordinal.toNat < r.size := by
  constructor
  · intro member
    rw [← List.drop_zero (l := r.ids)] at member
    exact (mem_drop_ids bounded member).2
  · intro within
    refine List.mem_map.mpr ⟨id.ordinal.toNat, List.mem_range.mpr within, ?_⟩
    obtain ⟨ordinal⟩ := id
    exact congrArg InvokerId.mk (UInt64.ofNat_toNat)

/-- **The members of a pool are the invokers that the registry assigns to it.** -/
theorem mem_members {pool : Pool} {id : InvokerId} :
    id ∈ r.members pool ↔ r.poolOf id = some pool := by
  rw [members, List.mem_filter, mem_ids bounded, decide_eq_true_eq, and_iff_right_iff_imp]
  intro assigned
  by_contra beyond
  rw [poolOf_eq_none_iff.mpr (Nat.le_of_not_lt beyond)] at assigned
  cases assigned

theorem members_ascending (pool : Pool) :
    (r.members pool).Pairwise fun i j => i.ordinal < j.ordinal := by
  refine List.Pairwise.filter _ (List.pairwise_map.mpr ?_)
  refine List.pairwise_lt_range.imp_of_mem fun first second before => ?_
  rw [UInt64.lt_iff_toNat_lt, ordinal_of_lt bounded (List.mem_range.mp first),
    ordinal_of_lt bounded (List.mem_range.mp second)]
  exact before

/-- The managed pool is the front of the fleet. -/
theorem members_managed :
    r.members .managed = r.ids.take (poolSizes r.size r.fraction).managed := by
  rw [members, filter_parted _ (poolSizes r.size r.fraction).managed, List.filter_eq_self.mpr,
    List.filter_eq_nil_iff.mpr, List.append_nil]
  · intro id member
    obtain ⟨late, within⟩ := mem_drop_ids bounded member
    simp [poolOf_of_lt within, Nat.not_lt.mpr late]
  · intro id member
    obtain ⟨early, within⟩ := mem_take_ids bounded member
    simp [poolOf_of_lt within, early]

theorem members_blackbox :
    r.members .blackbox = r.ids.drop (poolSizes r.size r.fraction).managed := by
  rw [members, filter_parted _ (poolSizes r.size r.fraction).managed, List.filter_eq_nil_iff.mpr,
    List.filter_eq_self.mpr, List.nil_append]
  · intro id member
    obtain ⟨late, within⟩ := mem_drop_ids bounded member
    simp [poolOf_of_lt within, Nat.not_lt.mpr late]
  · intro id member
    obtain ⟨early, within⟩ := mem_take_ids bounded member
    simp [poolOf_of_lt within, early]

/-- **A snapshot shows each pool's members with their present health.** -/
theorem view_build (m : HealthMonitor) (pool : Pool) :
    (r.build m).view pool =
      .ofSlots ((r.members pool).map fun id => ⟨id, m.health id⟩) := by
  cases pool with
  | managed =>
      rw [members_managed bounded, List.map_take, ← slots_eq]
      rfl
  | blackbox =>
      rw [members_blackbox bounded, List.map_drop, ← slots_eq]
      rfl

end Bounded

end Registry

namespace Gateway

/-- **Every event keeps the snapshot coherent.** -/
theorem coherent_step (g : Gateway) (e : Event)
    (coherent : g.registry.Coherent g.monitor) :
    (g.step e).registry.Coherent (g.step e).monitor := by
  cases e with
  | submit r now calendar =>
      have frame := submit_frame g r now calendar
      rw [step, frame.monitor]
      rcases frame.registry with same | same
      · rw [same]
        exact coherent
      · rw [same]
        exact coherent.snapshot
  | complete c calendar =>
      simp only [step, processCompletion]
      split
      · exact coherent.follows (HealthMonitor.follows_recordUserAction _ _ _)
      · exact coherent
  | heartbeat h now =>
      rw [step, heartbeat_registry, heartbeat_monitor]
      have registered := coherent.register h.invoker
      split
      · exact registered
      · exact registered.follows (HealthMonitor.follows_beat _ _ _ _)
  | remove id =>
      simp only [step, removeInvoker]
      split
      · exact coherent
      · exact coherent.follows (HealthMonitor.follows_remove _ _)
  | sweep now => exact coherent.follows (HealthMonitor.follows_sweep _ now)
  | list => exact coherent.snapshot
  | elapse | expire | store | bus => exact coherent

theorem size_step_lt (g : Gateway) (e : Event) (bounded : g.registry.size < wordSize) :
    (g.step e).registry.size < wordSize := by
  rcases g.registry_step e with ⟨h, now, -, registered⟩ | ⟨current, builds, same⟩
  · rw [registered]
    exact Registry.size_register_lt bounded h.invoker
  · rw [same]
    exact bounded

/-- After any run, the size of the fleet is a word. -/
theorem size_run_lt (config : Config) (store : Store) (bus : Bus) (mint : Nat → ActivationId)
    (events : List Event) :
    ((new config store bus mint).run events).registry.size < wordSize :=
  run_keeps_always (P := fun g => g.registry.size < wordSize) size_step_lt events
    (Nat.succ_pos _)

theorem version_step_le (g : Gateway) (e : Event)
    (le : g.registry.version ≤ g.registry.size) :
    (g.step e).registry.version ≤ (g.step e).registry.size := by
  rcases g.registry_step e with ⟨h, now, -, registered⟩ | ⟨current, builds, same⟩
  · rw [registered]
    exact Registry.version_register_le le h.invoker
  · rw [same]
    exact le

/-- **After any run, the version of the membership is a word**, since the fleet grows at every
step of it. -/
theorem version_run_lt (config : Config) (store : Store) (bus : Bus) (mint : Nat → ActivationId)
    (events : List Event) :
    ((new config store bus mint).run events).registry.version < wordSize :=
  Nat.lt_of_le_of_lt
    (run_keeps_always (P := fun g => g.registry.version ≤ g.registry.size) version_step_le events
      (Nat.le_refl 0))
    (size_run_lt config store bus mint events)

/-- After any run, the snapshot handed out last can be trusted. -/
theorem coherent_run (config : Config) (store : Store) (bus : Bus) (mint : Nat → ActivationId)
    (events : List Event) :
    let g := (new config store bus mint).run events
    g.registry.Coherent g.monitor :=
  run_keeps_always (P := fun g => g.registry.Coherent g.monitor) coherent_step events
    (Registry.coherent_new _ _)

/-- **After any run, the snapshot handed out is the fleet as it is.** -/
theorem snapshot_of_run (config : Config) (store : Store) (bus : Bus) (mint : Nat → ActivationId)
    (events : List Event) :
    let g := (new config store bus mint).run events
    (g.registry.snapshot g.monitor).2 = g.registry.build g.monitor :=
  Registry.snapshot_eq_build (coherent_run config store bus mint events)

end Gateway

end Dispatch
