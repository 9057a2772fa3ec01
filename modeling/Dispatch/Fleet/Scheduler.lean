import Dispatch.Fleet.Ledger
import Dispatch.Fleet.Registry

/-!
# Placement

A placement walks the route of its key through a pool and reserves on the first healthy invoker
that has room.
-/

set_option autoImplicit false

namespace Dispatch.Scheduler

/-- How many positions a placement may probe; a maximum of zero stands for all. -/
def budget (maxProbes : UInt64) (n : Nat) : Nat :=
  if maxProbes = 0 then n else min maxProbes.toNat n

/-- The slots in the order in which a placement probes them. -/
def probes (view : PoolView) (key : RoutingKey) (maxProbes : UInt64) : List Slot :=
  let n := view.slots.length
  let route := Route.start key.hash key.hint view.steps n
  (route.take (budget maxProbes n)).filterMap (view.slots[·]?)

/-- Reserves on the first healthy slot with room. -/
def reserveFirst (memory : UInt64) : List Slot → Ledger → Ledger × Option InvokerId
  | [], ledger => (ledger, none)
  | slot :: rest, ledger =>
    if slot.health.isUsable then
      match ledger.reserve slot.id memory with
      | (ledger, true) => (ledger, some slot.id)
      | (ledger, false) => reserveFirst memory rest ledger
    else reserveFirst memory rest ledger

/-- Places an activation in a pool. -/
def chooseFrom (view : PoolView) (key : RoutingKey) (memory maxProbes : UInt64) (ledger : Ledger) :
    Ledger × Option InvokerId :=
  if view.healthyCount = 0 then (ledger, none)
  else reserveFirst memory (probes view key maxProbes) ledger

/-- Places an activation in a pool of the current fleet. -/
def choose (registry : Registry) (monitor : HealthMonitor) (key : RoutingKey) (pool : Pool)
    (memory maxProbes : UInt64) (ledger : Ledger) : Registry × Ledger × Option InvokerId :=
  let (registry, snapshot) := registry.snapshot monitor
  let (ledger, chosen) := chooseFrom (snapshot.view pool) key memory maxProbes ledger
  (registry, ledger, chosen)

end Dispatch.Scheduler
