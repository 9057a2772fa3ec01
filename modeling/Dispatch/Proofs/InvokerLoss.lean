import Dispatch.Proofs.Filling
import Dispatch.Proofs.FleetSnapshots

/-!
# Losing one invoker

A placement is a search along the probe order, and an invoker that cannot be used is passed over
in it like one without room. So when an invoker is lost, the work that went to it goes to the next
one in line that suits, and all other work stays where it was (`loss_moves_own_work`). The order
itself depends on how many positions a pool has and not on their health (`probes_withHealth`).
-/

set_option autoImplicit false

namespace Dispatch

/-- A slot in which one invoker's health is replaced. -/
def Slot.withHealth (id : InvokerId) (health : Health) (slot : Slot) : Slot :=
  if slot.id = id then { slot with health } else slot

/-- The pool in which one invoker's health is replaced. -/
def PoolView.withHealth (v : PoolView) (id : InvokerId) (health : Health) : PoolView :=
  { v with slots := v.slots.map (Slot.withHealth id health) }

@[simp] theorem Slot.withHealth_id (id : InvokerId) (health : Health) (slot : Slot) :
    (slot.withHealth id health).id = slot.id := by
  unfold withHealth
  split <;> rfl

/-- Two monitors that differ in one invoker show the same pools but for its health. -/
theorem Registry.view_build_withHealth (r : Registry) {m n : HealthMonitor} {id : InvokerId}
    (others : ∀ other, other ≠ id → n.health other = m.health other) (pool : Pool) :
    (r.build n).view pool = ((r.build m).view pool).withHealth id (n.health id) := by
  have slots : r.slots n = (r.slots m).map (Slot.withHealth id (n.health id)) := by
    rw [slots_eq, slots_eq, List.map_map]
    refine List.map_congr_left fun other _ => ?_
    by_cases same : other = id
    · simp [Slot.withHealth, same]
    · simp [Slot.withHealth, same, others other same]
  cases pool <;>
    simp [build, Snapshot.view, PoolView.withHealth, PoolView.ofSlots, slots, List.map_take,
      List.map_drop]

namespace Scheduler

variable {view : PoolView} {key : RoutingKey} {memory maxProbes : UInt64} {ledger : Ledger}
  {id : InvokerId} {health : Health}

/-! ## The probe order and the search -/

/-- The order of the probes does not depend on anybody's health. -/
theorem probes_withHealth (view : PoolView) (key : RoutingKey) (maxProbes : UInt64)
    (id : InvokerId) (health : Health) :
    probes (view.withHealth id health) key maxProbes =
      (probes view key maxProbes).map (Slot.withHealth id health) := by
  simp only [probes, PoolView.withHealth, List.length_map, List.getElem?_map,
    List.map_filterMap]

/-- Whether a slot suits that is not the one of an invoker. -/
def suitsInstead (ledger : Ledger) (memory : UInt64) (id : InvokerId) (slot : Slot) : Bool :=
  slot.id ≠ id && suits ledger memory slot

/-- Once an invoker is lost, a slot suits as before unless it is the invoker's own. -/
theorem suits_withHealth (lost : health ≠ .healthy) (slot : Slot) :
    suits ledger memory (slot.withHealth id health) = suitsInstead ledger memory id slot := by
  by_cases own : slot.id = id
  · simp [suits, suitsInstead, Slot.withHealth, Health.isUsable, own, lost]
  · simp [suitsInstead, Slot.withHealth, own]

/-- **A placement passes over an invoker that is lost**, and takes the next slot that suits. -/
theorem chooseFrom_of_lost (lost : health ≠ .healthy) :
    chooseFrom (view.withHealth id health) key memory maxProbes ledger =
      taken ledger memory
        ((probes view key maxProbes).find? (suitsInstead ledger memory id)) := by
  have search : suits ledger memory ∘ Slot.withHealth id health =
      suitsInstead ledger memory id := funext (suits_withHealth lost)
  rw [chooseFrom_eq, probes_withHealth, List.find?_map, search]
  cases found : (probes view key maxProbes).find? (suitsInstead ledger memory id) with
  | none => rfl
  | some slot => simp [taken]

/-- Who is lost is not chosen. -/
theorem chosen_ne_lost (lost : health ≠ .healthy) :
    (chooseFrom (view.withHealth id health) key memory maxProbes ledger).2 ≠ some id := by
  rw [chooseFrom_of_lost lost]
  intro chosen
  cases found : (probes view key maxProbes).find? (suitsInstead ledger memory id) with
  | none =>
      rw [found] at chosen
      cases chosen
  | some slot =>
      rw [found] at chosen
      have suited : suitsInstead ledger memory id slot = true := List.find?_some found
      simp only [suitsInstead, Option.some.inj chosen] at suited
      simp at suited

/-- A search that did not end at an invoker ends at the same slot without it. -/
theorem find?_suitsInstead {slots : List Slot}
    (elsewhere : ∀ slot, slots.find? (suits ledger memory) = some slot → slot.id ≠ id) :
    slots.find? (suitsInstead ledger memory id) = slots.find? (suits ledger memory) := by
  induction slots with
  | nil => rfl
  | cons slot rest ih =>
      rw [List.find?_cons, List.find?_cons]
      cases suited : suits ledger memory slot with
      | false =>
          rw [List.find?_cons, suited] at elsewhere
          simp only [suitsInstead, suited, Bool.and_false]
          exact ih elsewhere
      | true =>
          have apart : slot.id ≠ id := elsewhere slot (by rw [List.find?_cons, suited])
          simp [suitsInstead, suited, apart]

theorem chooseFrom_of_lost_elsewhere (lost : health ≠ .healthy)
    (elsewhere : (chooseFrom view key memory maxProbes ledger).2 ≠ some id) :
    chooseFrom (view.withHealth id health) key memory maxProbes ledger =
      chooseFrom view key memory maxProbes ledger := by
  rw [chooseFrom_eq] at elsewhere
  rw [chooseFrom_of_lost lost, chooseFrom_eq, find?_suitsInstead]
  rintro slot found rfl
  rw [found] at elsewhere
  exact elsewhere rfl

/-! ## What is lost with an invoker -/

/-- **Losing one invoker moves that invoker's work only.** In any pool, let one invoker's health be
replaced by one that is not healthy. From the same ledger, a placement then gives the same answer
and leaves the same ledger exactly if it was not this invoker that it chose. So what was placed
elsewhere is placed there still, and is not refused; and if the answers differ, then by the work
that the invoker gets when it recovers. Its own work goes to whoever comes next in the same probe
order and suits, and not to itself. -/
theorem loss_moves_own_work (lost : health ≠ .healthy) (view : PoolView) (key : RoutingKey)
    (memory maxProbes : UInt64) (ledger : Ledger) (id : InvokerId) :
    let served := chooseFrom view key memory maxProbes ledger
    let bereft := chooseFrom (view.withHealth id health) key memory maxProbes ledger
    (bereft = served ↔ served.2 ≠ some id) ∧
    (∀ other, served.2 = some other → other ≠ id → bereft.2 = some other) ∧
    (served.2 ≠ bereft.2 → served.2 = some id) ∧
    bereft.2 ≠ some id ∧
    bereft = taken ledger memory
      ((probes view key maxProbes).find? (suitsInstead ledger memory id)) := by
  intro served bereft
  have stays : served.2 ≠ some id → bereft = served := chooseFrom_of_lost_elsewhere lost
  have passed_over : bereft.2 ≠ some id := chosen_ne_lost lost
  refine ⟨⟨?_, stays⟩, ?_, ?_, passed_over, chooseFrom_of_lost lost⟩
  · intro same
    rwa [← same]
  · intro other chosen apart
    have elsewhere : served.2 ≠ some id := by
      rw [chosen]
      exact fun same => apart (Option.some.inj same)
    rw [stays elsewhere, chosen]
  · intro differ
    by_contra elsewhere
    exact differ (congrArg Prod.snd (stays elsewhere)).symm

/-- The invoker that was chosen is lost, and its work goes to the next in line; then another one is
lost, and nothing moves. -/
theorem loss_moves_own_work_mixedView :
    Health.unresponsive ≠ .healthy ∧
    (chooseFrom mixedView mixedKey 200 0 mixedLedger).2 = some ⟨1⟩ ∧
    (chooseFrom (mixedView.withHealth ⟨1⟩ .unresponsive) mixedKey 200 0 mixedLedger).2 =
      some ⟨0⟩ ∧
    chooseFrom (mixedView.withHealth ⟨0⟩ .unresponsive) mixedKey 200 0 mixedLedger =
      chooseFrom mixedView mixedKey 200 0 mixedLedger := by
  have lost : Health.unresponsive ≠ .healthy := by decide
  have chosen : (chooseFrom mixedView mixedKey 200 0 mixedLedger).2 = some ⟨1⟩ := by
    decide +kernel
  obtain ⟨stays, -⟩ := loss_moves_own_work lost mixedView mixedKey 200 0 mixedLedger ⟨0⟩
  refine ⟨lost, chosen, by decide +kernel, stays.mpr ?_⟩
  rw [chosen]
  decide

/-- **The same of placements in the fleet**: had the monitor known one invoker as lost, and all else
been as it is, then a placement would have answered the same and left the same ledger, unless it
chose this invoker. -/
theorem choose_of_lost {r : Registry} {m n : HealthMonitor} (coherent : Registry.Coherent r m)
    (coherent' : Registry.Coherent r n)
    (others : ∀ other, other ≠ id → n.health other = m.health other)
    (lost : n.health id ≠ .healthy) (key : RoutingKey) (pool : Pool) (memory maxProbes : UInt64)
    (ledger : Ledger) (elsewhere : (choose r m key pool memory maxProbes ledger).2.2 ≠ some id) :
    (choose r n key pool memory maxProbes ledger).2 =
      (choose r m key pool memory maxProbes ledger).2 := by
  simp only [choose, Registry.snapshot_eq_build coherent] at elsewhere ⊢
  rw [Registry.snapshot_eq_build coherent', r.view_build_withHealth others]
  exact chooseFrom_of_lost_elsewhere lost elsewhere

end Scheduler

end Dispatch
