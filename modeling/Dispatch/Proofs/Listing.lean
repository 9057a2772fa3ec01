import Dispatch.Proofs.FleetSnapshots
import Mathlib.Data.List.Basic

/-!
# The listing of invokers

The listing goes through the slots of a snapshot, which may be an old one, and asks the monitor and
the ledger about each of them. `listInvokers_eq` says what comes of it in a gateway whose snapshot is
coherent: one `row` for every position, in ascending order, with the pool that the registry assigns
and with what monitor and ledger say now.
-/

set_option autoImplicit false

namespace Dispatch

namespace Registry

variable {r : Registry}

/-- The slots of a snapshot built now are the positions, each with the pool it is assigned to. -/
theorem slots_build (bounded : r.size < wordSize) (m : HealthMonitor) :
    (r.build m).slots =
      r.ids.filterMap fun id => (r.poolOf id).map (·, ⟨id, m.health id⟩) := by
  have viewed : ∀ pool, ((r.build m).view pool).slots.map (pool, ·) =
      (r.members pool).filterMap fun id => (r.poolOf id).map (·, ⟨id, m.health id⟩) := by
    intro pool
    rw [view_build bounded, PoolView.ofSlots, List.map_map, eq_comm,
      List.filterMap_eq_map_iff_forall_eq_some]
    intro id member
    rw [(mem_members bounded).mp member]
    rfl
  calc (r.build m).slots
      = ((r.build m).view .managed).slots.map (Pool.managed, ·) ++
          ((r.build m).view .blackbox).slots.map (Pool.blackbox, ·) := rfl
    _ = _ := by
      rw [viewed, viewed, ← List.filterMap_append, members_managed bounded,
        members_blackbox bounded, List.take_append_drop]

end Registry

namespace Gateway

variable {g : Gateway}

/-- The row of an invoker, if it has a position. -/
def row (g : Gateway) (id : InvokerId) : Option InvokerInfo :=
  (g.registry.poolOf id).map fun pool => g.infoOf pool ⟨id, g.monitor.health id⟩

/-- **The listing has the row of every position.** -/
theorem listInvokers_eq (coherent : g.registry.Coherent g.monitor)
    (bounded : g.registry.size < wordSize) :
    g.listInvokers.2 = g.registry.ids.filterMap g.row := by
  show (g.registry.snapshot g.monitor).2.slots.map (fun entry => g.infoOf entry.1 entry.2) = _
  rw [Registry.snapshot_eq_build coherent, Registry.slots_build bounded, List.map_filterMap]
  congr 1
  funext id
  rw [row, Option.map_map]
  rfl

theorem mem_listInvokers (coherent : g.registry.Coherent g.monitor)
    (bounded : g.registry.size < wordSize) {info : InvokerInfo} (listed : info ∈ g.listInvokers.2) :
    g.row info.id = some info := by
  rw [listInvokers_eq coherent bounded] at listed
  obtain ⟨id, -, found⟩ := List.mem_filterMap.mp listed
  obtain ⟨pool, -, rfl⟩ := Option.map_eq_some_iff.mp found
  exact found

/-- There is one row for each position, in ascending order. -/
theorem ordinals_listInvokers (coherent : g.registry.Coherent g.monitor)
    (bounded : g.registry.size < wordSize) :
    g.listInvokers.2.map (·.id.ordinal.toNat) = List.range g.registry.size := by
  rw [listInvokers_eq coherent bounded, ← Registry.ordinals_ids bounded, List.map_filterMap,
    List.filterMap_eq_map_iff_forall_eq_some]
  intro id member
  rw [row, Registry.poolOf_of_lt ((Registry.mem_ids bounded).mp member)]
  rfl

end Gateway

end Dispatch
