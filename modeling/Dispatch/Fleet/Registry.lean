import Dispatch.Fleet.Pools
import Dispatch.Health.Monitor
import Dispatch.Routing

/-!
# Membership of the fleet

The registry knows how many positions the fleet has; positions never go away. A snapshot is the
fleet at one version of the membership and one version of the monitor, parted into pools, and it
is built anew only when one of the two versions has moved.
-/

set_option autoImplicit false

namespace Dispatch

/-- A position of a pool. -/
structure Slot where
  id : InvokerId
  health : Health
deriving DecidableEq, Repr

/-- One pool as a placement sees it. -/
structure PoolView where
  slots : List Slot
  steps : List Nat
deriving DecidableEq, Repr

namespace PoolView

def empty : PoolView := ⟨[], []⟩

def ofSlots (slots : List Slot) : PoolView := ⟨slots, coprimeSteps slots.length⟩

/-- How many of the pool's invokers can be used. -/
def healthyCount (v : PoolView) : Nat := v.slots.countP (·.health.isUsable)

end PoolView

/-- The fleet at one pair of versions. -/
structure Snapshot where
  membershipVersion : Nat
  healthVersion : Nat
  managed : PoolView
  blackbox : PoolView
deriving DecidableEq, Repr

namespace Snapshot

/-- The fleet before anyone joined. -/
def initial : Snapshot := ⟨0, 0, .empty, .empty⟩

def view (s : Snapshot) : Pool → PoolView
  | .managed => s.managed
  | .blackbox => s.blackbox

def size (s : Snapshot) : Nat := s.managed.slots.length + s.blackbox.slots.length

/-- Every slot with its pool, the managed ones first. -/
def slots (s : Snapshot) : List (Pool × Slot) :=
  s.managed.slots.map (Pool.managed, ·) ++ s.blackbox.slots.map (Pool.blackbox, ·)

/-- The pool that an invoker serves. -/
def poolOf (s : Snapshot) (id : InvokerId) : Option Pool :=
  (s.slots.find? fun (_, slot) => slot.id = id).map (·.1)

end Snapshot

/-- The size of the fleet, and the snapshot handed out last with the count of snapshots built
before it. -/
structure Registry where
  fraction : Binary64
  size : Nat
  /-- How often the fleet has grown. The counter behind it is a 64-bit word, which the size, and so
  this number, never outgrows. -/
  version : Nat
  current : Snapshot
  builds : Nat
deriving DecidableEq

/-- What registering an invoker did. -/
inductive Registration where
  | known
  | grew (size : Nat)
  /-- No 64-bit word holds the size that the fleet would have: registering breaks off. -/
  | sizeOutOfRange
deriving DecidableEq, Repr

namespace Registry

/-- A share outside zero to one is brought into it. -/
def new (fraction : Binary64) : Registry :=
  ⟨fraction.clamp (.zero false) .one, 0, 0, .initial, 0⟩

/-- Gives an invoker a position. -/
def register (r : Registry) (id : InvokerId) : Registry × Registration :=
  if id.ordinal.toNat < r.size then (r, .known)
  else
    let size := id.ordinal.toNat + 1
    if size < wordSize then ({ r with size, version := r.version + 1 }, .grew size)
    else (r, .sizeOutOfRange)

/-- The pool that an invoker serves now, if it has a position. -/
def poolOf (r : Registry) (id : InvokerId) : Option Pool :=
  if r.size ≤ id.ordinal.toNat then none
  else if id.ordinal.toNat < (poolSizes r.size r.fraction).managed then some .managed
  else some .blackbox

/-- All positions with the health of their invokers. -/
def slots (r : Registry) (monitor : HealthMonitor) : List Slot :=
  (List.range r.size).map fun k =>
    let id : InvokerId := ⟨k.toUInt64⟩
    ⟨id, monitor.health id⟩

/-- The snapshot of this moment. -/
def build (r : Registry) (monitor : HealthMonitor) : Snapshot :=
  let slots := r.slots monitor
  let managed := (poolSizes r.size r.fraction).managed
  ⟨r.version, monitor.version, .ofSlots (slots.take managed), .ofSlots (slots.drop managed)⟩

/-- Whether the snapshot handed out last is of this moment. -/
def isCurrent (r : Registry) (monitor : HealthMonitor) : Bool :=
  r.current.membershipVersion = r.version && r.current.healthVersion = monitor.version

/-- Hands out a snapshot, the last one again while no version has moved. -/
def snapshot (r : Registry) (monitor : HealthMonitor) : Registry × Snapshot :=
  if r.isCurrent monitor then (r, r.current)
  else
    let s := r.build monitor
    ({ r with current := s, builds := r.builds + 1 }, s)

end Registry

end Dispatch
