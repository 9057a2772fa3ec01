import Dispatch.Fleet.Scheduler
import Dispatch.Proofs.Accounts

/-!
# What a placement chooses

The walk of a placement reserves on the way, but it changes the ledger only where it stops. So it
is a search: `chooseFrom_eq` says that a placement takes the first slot of its probe order that is
usable and whose account has room, as the ledger stands before the walk, and reserves there.
-/

set_option autoImplicit false

namespace Dispatch.Scheduler

/-- Whether a slot is usable and its invoker's account has room. -/
def suits (ledger : Ledger) (memory : UInt64) (slot : Slot) : Bool :=
  slot.health.isUsable && ledger.accepts slot.id memory

/-- The ledger and the answer of a placement whose search ended at `found`. -/
def taken (ledger : Ledger) (memory : UInt64) (found : Option Slot) : Ledger × Option InvokerId :=
  match found with
  | none => (ledger, none)
  | some slot => ((ledger.reserve slot.id memory).1, some slot.id)

/-- Slots that do not suit are passed over without a trace. -/
theorem reserveFirst_eq (memory : UInt64) (slots : List Slot) (ledger : Ledger) :
    reserveFirst memory slots ledger =
      taken ledger memory (slots.find? (suits ledger memory)) := by
  induction slots with
  | nil => rfl
  | cons slot rest ih =>
      rw [reserveFirst, List.find?_cons]
      cases usable : slot.health.isUsable with
      | false => simp [suits, usable, ih]
      | true =>
          cases room : ledger.accepts slot.id memory with
          | false => simp [suits, usable, room, Ledger.reserve_of_not_accepts room, ih]
          | true =>
              obtain ⟨account, -, -, reserved⟩ := Ledger.reserve_of_accepts room
              simp [suits, usable, room, reserved, taken]

theorem mem_slots_of_mem_probes {view : PoolView} {key : RoutingKey} {maxProbes : UInt64}
    {slot : Slot} (probed : slot ∈ probes view key maxProbes) : slot ∈ view.slots := by
  obtain ⟨position, -, there⟩ := List.mem_filterMap.mp probed
  exact List.mem_of_getElem? there

/-- **A placement takes the first slot of its probe order that suits.** -/
theorem chooseFrom_eq (view : PoolView) (key : RoutingKey) (memory maxProbes : UInt64)
    (ledger : Ledger) :
    chooseFrom view key memory maxProbes ledger =
      taken ledger memory ((probes view key maxProbes).find? (suits ledger memory)) := by
  unfold chooseFrom
  split
  · rename_i none_usable
    -- Leaving early gives what the walk would: no slot of the pool suits.
    have none_suits : (probes view key maxProbes).find? (suits ledger memory) = none := by
      rw [List.find?_eq_none]
      intro slot probed
      have unusable := List.countP_eq_zero.mp none_usable slot (mem_slots_of_mem_probes probed)
      simp [suits, unusable]
    rw [none_suits]
    rfl
  · exact reserveFirst_eq memory _ ledger

end Dispatch.Scheduler
