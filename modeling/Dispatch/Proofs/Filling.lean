import Dispatch.Proofs.Binary64.Order
import Dispatch.Proofs.ProbeVisits
import Dispatch.Proofs.Selection

/-!
# Filling a pool

Placements of one key and one memory size, one after the other and nothing in between, fill a pool
in its probe order. The `plan` of a ledger lists the invokers of the probe order, each as often as
its account still takes the memory and a slot (`turns`). A placement takes the head of the plan and
leaves a ledger whose plan is the tail (`plan_taken`), so all later answers can be read off the plan
of the ledger that the run began with (`answer_eq`): how many there are, to whom they go and in
which order (`placements_fill`).
-/

set_option autoImplicit false

namespace Dispatch

namespace Ledger

variable {l : Ledger} {id other : InvokerId} {memory : UInt64}

/-- How often an invoker's account still takes a slot and `memory`. What is in use beyond a limit
counts as nothing free. -/
def turns (l : Ledger) (memory : UInt64) (id : InvokerId) : Nat :=
  match l.account? id with
  | none => 0
  | some account =>
    min (account.totalSlots.toNat - account.usedSlots.toNat)
      ((l.memoryLimit account.totalMemory - account.usedMemory.toNat) / memory.toNat)

theorem turns_eq_zero (positive : 0 < memory.toNat) (full : l.accepts id memory = false) :
    l.turns memory id = 0 := by
  unfold turns
  cases known : l.account? id with
  | none => rfl
  | some account =>
      by_contra some_turn
      have free := Nat.pos_of_ne_zero some_turn
      have slot := Nat.lt_of_lt_of_le free (Nat.min_le_left _ _)
      have fits := Nat.lt_of_lt_of_le free (Nat.min_le_right _ _)
      have enough := (Nat.div_pos_iff.mp fits).2
      have limit : l.memoryLimit account.totalMemory ≤ Numeral.maxWord64 := Binary64.clampNat_le _ _
      have room : l.hasRoom account memory = true := hasRoom_iff.mpr (by omega)
      simp only [accepts, known, room] at full
      cases full

theorem turns_of_accepts (positive : 0 < memory.toNat) (room : l.accepts id memory = true) :
    l.turns memory id = (l.reserve id memory).1.turns memory id + 1 := by
  obtain ⟨account, known, room, reserved⟩ := reserve_of_accepts room
  obtain ⟨-, enough, slot⟩ := hasRoom_iff.mp room
  have once_more := Nat.div_eq_sub_div positive
    (show memory.toNat ≤ l.memoryLimit account.totalMemory - account.usedMemory.toNat by omega)
  rw [reserved]
  simp only [turns, known, account?_set, if_true, take_usedMemory room, take_usedSlots room]
  show _ = min (account.totalSlots.toNat - _) ((l.memoryLimit account.totalMemory - _) / _) + 1
  rw [once_more, Nat.sub_sub]
  omega

theorem turns_of_ne (apart : id ≠ other) :
    (l.reserve id memory).1.turns memory other = l.turns memory other := by
  unfold turns memoryLimit
  rw [account?_reserve_of_ne apart, reserve_factor]

end Ledger

/-- A pool in which every walk reaches everyone once: nobody has two positions, and every step is
coprime to the size and does not pass the word size. -/
structure PoolView.Walkable (v : PoolView) : Prop where
  distinct : (v.slots.map (·.id)).Nodup
  steps : v.slots ≠ [] → v.steps ≠ []
  coprime : ∀ step ∈ v.steps, Nat.Coprime step v.slots.length
  unwrapped : ∀ step ∈ v.steps, v.slots.length + step ≤ wordSize

/-- The pools of snapshots are such, as far as any memory reaches. -/
theorem PoolView.walkable_ofSlots {slots : List Slot} (distinct : (slots.map (·.id)).Nodup)
    (small : slots.length < 9_223_372_036_854_775_808) : (ofSlots slots).Walkable where
  distinct := distinct
  steps := by
    intro some_slot
    have positive := List.length_pos_of_ne_nil some_slot
    exact List.ne_nil_of_length_pos (Route.length_coprimeSteps_pos positive)
  coprime := fun _ member => (mem_coprimeSteps.mp member).2.2
  unwrapped := by
    intro step member
    have reach := (mem_coprimeSteps.mp member).2.1
    show slots.length + step ≤ wordSize
    unfold wordSize
    omega

namespace Scheduler

variable {view : PoolView} {key : RoutingKey} {memory : UInt64} {ledger : Ledger}
  {slots : List Slot} {slot : Slot}

/-! ## The probe order -/

theorem filterMap_range (slots : List Slot) :
    (List.range slots.length).filterMap (slots[·]?) = slots := by
  induction slots with
  | nil => rfl
  | cons slot rest ih =>
      rw [List.length_cons, List.range_succ_eq_map, List.filterMap_cons, List.filterMap_map]
      exact congrArg (slot :: ·) ih

/-- **Without a limit on probes, a placement probes every slot once.** -/
theorem probes_perm (walkable : view.Walkable) (key : RoutingKey) :
    (probes view key 0).Perm view.slots := by
  by_cases nobody : view.slots = []
  · rw [probes, nobody]
    exact List.Perm.refl []
  · have positive := List.length_pos_of_ne_nil nobody
    obtain ⟨step, picked, begun⟩ :=
      Route.start_of_steps key.hash key.hint positive (walkable.steps nobody)
    have member := List.mem_of_getElem? picked
    rw [probes, budget, if_pos rfl, begun]
    have positions := Route.order_perm (r := ⟨_, step, view.slots.length, view.slots.length⟩)
      (walkable.unwrapped step member) (Nat.mod_lt (key.hint.getD key.hash).toNat positive) rfl
      (walkable.coprime step member)
    exact (positions.filterMap _).trans (List.Perm.of_eq (filterMap_range view.slots))

/-- The invokers in the order in which they are probed, each once. -/
theorem probes_distinct (walkable : view.Walkable) (key : RoutingKey) :
    ((probes view key 0).map (·.id)).Nodup :=
  ((probes_perm walkable key).map (·.id)).nodup_iff.mpr walkable.distinct

/-! ## The plan -/

/-- How often a slot can be chosen: not at all, unless it is usable. -/
def chances (ledger : Ledger) (memory : UInt64) (slot : Slot) : Nat :=
  if slot.health.isUsable then ledger.turns memory slot.id else 0

/-- The invokers of some slots, each as often as it can be chosen. -/
def plan (memory : UInt64) (slots : List Slot) (ledger : Ledger) : List InvokerId :=
  slots.flatMap fun slot => List.replicate (chances ledger memory slot) slot.id

theorem chances_of_suits (positive : 0 < memory.toNat) (suited : suits ledger memory slot = true) :
    chances ledger memory slot = chances (ledger.reserve slot.id memory).1 memory slot + 1 := by
  obtain ⟨usable, room⟩ := Bool.and_eq_true_iff.mp suited
  rw [chances, if_pos usable, chances, if_pos usable, Ledger.turns_of_accepts positive room]

theorem chances_eq_zero (positive : 0 < memory.toNat)
    (unsuited : suits ledger memory slot = false) : chances ledger memory slot = 0 := by
  rw [chances]
  split
  · rename_i usable
    refine Ledger.turns_eq_zero positive ?_
    simpa [suits, usable] using unsuited
  · rfl

/-- A reservation changes no slot of another invoker. -/
theorem chances_of_ne {id : InvokerId} (apart : id ≠ slot.id) :
    chances (ledger.reserve id memory).1 memory slot = chances ledger memory slot := by
  rw [chances, chances, Ledger.turns_of_ne apart]

theorem plan_cons (memory : UInt64) (slot : Slot) (rest : List Slot) (ledger : Ledger) :
    plan memory (slot :: rest) ledger =
      List.replicate (chances ledger memory slot) slot.id ++ plan memory rest ledger :=
  List.flatMap_cons

theorem plan_of_absent {id : InvokerId} (absent : id ∉ slots.map (·.id)) :
    plan memory slots (ledger.reserve id memory).1 = plan memory slots ledger := by
  refine List.flatMap_congr fun slot member => ?_
  rw [chances_of_ne]
  rintro rfl
  exact absent (List.mem_map_of_mem member)

/-- A search among other invokers' slots leaves a slot its chances. -/
theorem chances_taken {rest : List Slot} (absent : slot.id ∉ rest.map (·.id)) :
    chances (taken ledger memory (rest.find? (suits ledger memory))).1 memory slot =
      chances ledger memory slot := by
  cases search : rest.find? (suits ledger memory) with
  | none => rfl
  | some found =>
      refine chances_of_ne fun same => absent ?_
      rw [← same]
      exact List.mem_map_of_mem (List.mem_of_find?_eq_some search)

/-- **A search takes the head of the plan and leaves its tail.** -/
theorem plan_taken (positive : 0 < memory.toNat) (distinct : (slots.map (·.id)).Nodup) :
    (taken ledger memory (slots.find? (suits ledger memory))).2 = (plan memory slots ledger).head? ∧
      plan memory slots (taken ledger memory (slots.find? (suits ledger memory))).1 =
        (plan memory slots ledger).tail := by
  induction slots with
  | nil => exact ⟨rfl, rfl⟩
  | cons slot rest ih =>
      obtain ⟨absent, distinct⟩ := List.nodup_cons.mp distinct
      rw [List.find?_cons]
      cases suited : suits ledger memory slot with
      | true =>
          simp only [taken]
          rw [plan_cons, plan_cons, chances_of_suits positive suited, plan_of_absent absent]
          exact ⟨rfl, rfl⟩
      | false =>
          rw [plan_cons, plan_cons, chances_taken absent, chances_eq_zero positive suited]
          exact ih distinct

/-! ## Placements in a row -/

/-- The ledger after some placements of one key and one memory size, and nothing else. -/
def filled (view : PoolView) (key : RoutingKey) (memory : UInt64) : Nat → Ledger → Ledger
  | 0, ledger => ledger
  | count + 1, ledger => filled view key memory count (chooseFrom view key memory 0 ledger).1

/-- The answer of a placement that has `count` others before it. -/
def answer (view : PoolView) (key : RoutingKey) (memory : UInt64) (ledger : Ledger) (count : Nat) :
    Option InvokerId :=
  (chooseFrom view key memory 0 (filled view key memory count ledger)).2

theorem chooseFrom_plan (walkable : view.Walkable) (positive : 0 < memory.toNat)
    (key : RoutingKey) (ledger : Ledger) :
    (chooseFrom view key memory 0 ledger).2 = (plan memory (probes view key 0) ledger).head? ∧
      plan memory (probes view key 0) (chooseFrom view key memory 0 ledger).1 =
        (plan memory (probes view key 0) ledger).tail := by
  rw [chooseFrom_eq]
  exact plan_taken positive (probes_distinct walkable key)

/-- **Every placement in a row shortens the plan by one.** -/
theorem plan_filled (walkable : view.Walkable) (positive : 0 < memory.toNat) (key : RoutingKey)
    (count : Nat) (ledger : Ledger) :
    plan memory (probes view key 0) (filled view key memory count ledger) =
      (plan memory (probes view key 0) ledger).drop count := by
  induction count generalizing ledger with
  | zero => rfl
  | succ count ih =>
      rw [filled, ih, (chooseFrom_plan walkable positive key ledger).2, List.drop_tail]

/-- **The answers are read off the plan of the first ledger.** -/
theorem answer_eq (walkable : view.Walkable) (positive : 0 < memory.toNat) (key : RoutingKey)
    (ledger : Ledger) (count : Nat) :
    answer view key memory ledger count = (plan memory (probes view key 0) ledger)[count]? := by
  rw [answer, (chooseFrom_plan walkable positive key _).1, plan_filled walkable positive,
    List.head?_drop]

/-! ## Counts and order of the plan -/

theorem length_plan (memory : UInt64) (slots : List Slot) (ledger : Ledger) :
    (plan memory slots ledger).length = (slots.map (chances ledger memory)).sum := by
  simp only [plan, List.length_flatMap, List.length_replicate]

theorem mem_ids_of_mem_plan {id : InvokerId} (planned : id ∈ plan memory slots ledger) :
    id ∈ slots.map (·.id) := by
  obtain ⟨slot, member, repeated⟩ := List.mem_flatMap.mp planned
  rw [List.eq_of_mem_replicate repeated]
  exact List.mem_map_of_mem member

/-- A slot stands in the plan as often as it can be chosen. -/
theorem count_plan (distinct : (slots.map (·.id)).Nodup) (member : slot ∈ slots) :
    (plan memory slots ledger).count slot.id = chances ledger memory slot := by
  induction slots with
  | nil => cases member
  | cons first rest ih =>
      obtain ⟨absent, distinct⟩ := List.nodup_cons.mp distinct
      rw [plan_cons, List.count_append]
      rcases List.mem_cons.mp member with rfl | behind
      · have no_more : (plan memory rest ledger).count slot.id = 0 :=
          List.count_eq_zero.mpr fun planned => absent (mem_ids_of_mem_plan planned)
        rw [no_more, List.count_replicate_self, Nat.add_zero]
      · have apart : first.id ≠ slot.id := fun same =>
          absent (List.mem_map.mpr ⟨slot, behind, same.symm⟩)
        rw [ih distinct behind, List.count_replicate, if_neg (by simpa using apart), Nat.zero_add]

/-- **The plan goes through the slots in their order.** -/
theorem plan_ordered (distinct : (slots.map (·.id)).Nodup) :
    (plan memory slots ledger).Pairwise fun i j =>
      (slots.map (·.id)).idxOf i ≤ (slots.map (·.id)).idxOf j := by
  refine List.pairwise_flatMap.mpr ⟨fun slot _ => ?_, ?_⟩
  · exact List.pairwise_replicate.mpr (.inr (Nat.le_refl _))
  · rw [List.pairwise_iff_getElem]
    intro j k early late before i repeated i' repeated'
    have position {p : Nat} (within : p < slots.length) :
        (slots.map (·.id)).idxOf slots[p].id = p := by
      have there := distinct.idxOf_getElem p (by rwa [List.length_map])
      rwa [List.getElem_map] at there
    rw [List.eq_of_mem_replicate repeated, List.eq_of_mem_replicate repeated', position early,
      position late]
    exact Nat.le_of_lt before

/-! ## Accounts -/

/-- A placement moves the account of the invoker that it answers, and no other. -/
theorem chooseFrom_moves (view : PoolView) (key : RoutingKey) (memory maxProbes : UInt64)
    (ledger : Ledger) (id : InvokerId) :
    ((chooseFrom view key memory maxProbes ledger).2 ≠ some id →
      (chooseFrom view key memory maxProbes ledger).1.account? id = ledger.account? id) ∧
    (chooseFrom view key memory maxProbes ledger).1.usedMemory id = ledger.usedMemory id +
      (if (chooseFrom view key memory maxProbes ledger).2 = some id then memory.toNat else 0) ∧
    (chooseFrom view key memory maxProbes ledger).1.usedSlots id = ledger.usedSlots id +
      (if (chooseFrom view key memory maxProbes ledger).2 = some id then 1 else 0) := by
  rw [chooseFrom_eq]
  cases search : (probes view key maxProbes).find? (suits ledger memory) with
  | none => simp [taken]
  | some slot =>
      have suited : suits ledger memory slot = true := List.find?_some search
      have room := (Bool.and_eq_true_iff.mp suited).2
      simp only [taken, Option.some.injEq, ne_eq]
      exact ⟨Ledger.account?_reserve_of_ne, Ledger.reserve_moves room id⟩

/-- Whoever is chosen has a usable slot in the view. -/
theorem usable_of_chosen {maxProbes : UInt64} {id : InvokerId}
    (chosen : (chooseFrom view key memory maxProbes ledger).2 = some id) :
    ∃ slot ∈ view.slots, slot.id = id ∧ slot.health.isUsable = true := by
  rw [chooseFrom_eq] at chosen
  cases search : (probes view key maxProbes).find? (suits ledger memory) with
  | none =>
      rw [search] at chosen
      cases chosen
  | some slot =>
      rw [search] at chosen
      have suited : suits ledger memory slot = true := List.find?_some search
      exact ⟨slot, mem_slots_of_mem_probes (List.mem_of_find?_eq_some search),
        Option.some.inj chosen, (Bool.and_eq_true_iff.mp suited).1⟩

/-- How often an invoker is the answer of `count` placements in a row. -/
def times (view : PoolView) (key : RoutingKey) (memory : UInt64) (ledger : Ledger) (count : Nat)
    (id : InvokerId) : Nat :=
  ((List.range count).map (answer view key memory ledger)).count (some id)

theorem times_succ (view : PoolView) (key : RoutingKey) (memory : UInt64) (ledger : Ledger)
    (count : Nat) (id : InvokerId) :
    times view key memory ledger (count + 1) id =
      times view key memory (chooseFrom view key memory 0 ledger).1 count id +
        (if (chooseFrom view key memory 0 ledger).2 = some id then 1 else 0) := by
  simp only [times, List.range_succ_eq_map, List.map_cons, List.map_map, List.count_cons,
    beq_iff_eq]
  rfl

/-- As long as there is a plan, the answers are its entries. -/
theorem times_eq (walkable : view.Walkable) (positive : 0 < memory.toNat) (key : RoutingKey)
    (ledger : Ledger) (count : Nat) (id : InvokerId) :
    times view key memory ledger count id =
      ((plan memory (probes view key 0) ledger).take count).count id := by
  induction count generalizing ledger with
  | zero => rfl
  | succ count ih =>
      obtain ⟨head, tail⟩ := chooseFrom_plan walkable positive key ledger
      rw [times_succ, ih, head, tail]
      cases plan memory (probes view key 0) ledger with
      | nil => simp
      | cons first rest => simp [List.count_cons]

/-- **Placements in a row take from each account what they answer it for.** -/
theorem filled_moves (view : PoolView) (key : RoutingKey) (memory : UInt64) (count : Nat)
    (ledger : Ledger) (id : InvokerId) :
    (times view key memory ledger count id = 0 →
      (filled view key memory count ledger).account? id = ledger.account? id) ∧
    (filled view key memory count ledger).usedMemory id =
      ledger.usedMemory id + times view key memory ledger count id * memory.toNat ∧
    (filled view key memory count ledger).usedSlots id =
      ledger.usedSlots id + times view key memory ledger count id := by
  induction count generalizing ledger with
  | zero => simp [filled, times]
  | succ count ih =>
      obtain ⟨untouched, memoryMoved, slotsMoved⟩ := chooseFrom_moves view key memory 0 ledger id
      obtain ⟨untouched', memoryMoved', slotsMoved'⟩ := ih (chooseFrom view key memory 0 ledger).1
      rw [filled, times_succ, memoryMoved', slotsMoved', memoryMoved, slotsMoved]
      by_cases chosen : (chooseFrom view key memory 0 ledger).2 = some id
      · simp only [if_pos chosen, Nat.succ_mul]
        omega
      · simp only [if_neg chosen, Nat.add_zero, and_true]
        exact fun never => (untouched' never).trans (untouched chosen)

/-- Whoever has no usable slot in the view, is never the answer. -/
theorem times_eq_zero {id : InvokerId} (count : Nat)
    (unusable : ∀ slot ∈ view.slots, slot.id = id → slot.health.isUsable = false) :
    times view key memory ledger count id = 0 := by
  refine List.count_eq_zero.mpr fun answered => ?_
  obtain ⟨k, -, chosen⟩ := List.mem_map.mp answered
  obtain ⟨slot, member, same, usable⟩ := usable_of_chosen chosen
  rw [unusable slot member same] at usable
  cases usable

/-- **Placements in a row fill a pool, in its probe order.** In a pool that its walks go all around,
let `order` list the invokers as they are probed, and `total` sum up how often each usable slot's
account takes the memory and a slot. Placed again and again with one key and one memory size, and
nothing else in between, activations find room exactly `total` times, and from then on nobody has
any. No placement goes back in the order behind an earlier one, every invoker is chosen as often as
its account takes one more, and what is in use grows by just that. The accounts of those who are not
in the view or cannot be used stay as they are. -/
theorem placements_fill (walkable : view.Walkable) (positive : 1 ≤ memory.toNat)
    (key : RoutingKey) (ledger : Ledger) :
    let order := (probes view key 0).map (·.id)
    let total := (view.slots.map (chances ledger memory)).sum
    (order.Nodup ∧ order.Perm (view.slots.map (·.id))) ∧
    (∀ k, (answer view key memory ledger k).isSome ↔ k < total) ∧
    (∀ j k i i', j ≤ k → answer view key memory ledger j = some i →
      answer view key memory ledger k = some i' → order.idxOf i ≤ order.idxOf i') ∧
    (∀ slot ∈ view.slots, ∀ count, total ≤ count →
      times view key memory ledger count slot.id = chances ledger memory slot) ∧
    (∀ count id,
      (filled view key memory count ledger).usedMemory id =
        ledger.usedMemory id + times view key memory ledger count id * memory.toNat ∧
      (filled view key memory count ledger).usedSlots id =
        ledger.usedSlots id + times view key memory ledger count id) ∧
    ∀ count id, (∀ slot ∈ view.slots, slot.id = id → slot.health.isUsable = false) →
      (filled view key memory count ledger).account? id = ledger.account? id := by
  intro order total
  have perm := probes_perm walkable key
  have distinct := probes_distinct walkable key
  have read := answer_eq walkable positive key ledger
  have length : (plan memory (probes view key 0) ledger).length = total := by
    rw [length_plan]
    exact (perm.map _).sum_eq
  refine ⟨⟨distinct, perm.map _⟩, fun k => ?_, ?_, ?_, ?_, ?_⟩
  · rw [read, ← length, isSome_getElem?]
  · intro j k i i' ordered first second
    rw [read] at first second
    rcases Nat.eq_or_lt_of_le ordered with rfl | before
    · obtain rfl := Option.some.inj (first.symm.trans second)
      exact Nat.le_refl _
    · obtain ⟨early, rfl⟩ := List.getElem?_eq_some_iff.mp first
      obtain ⟨late, rfl⟩ := List.getElem?_eq_some_iff.mp second
      exact List.pairwise_iff_getElem.mp (plan_ordered distinct) j k early late before
  · intro slot member count enough
    rw [times_eq walkable positive, List.take_of_length_le (length ▸ enough),
      count_plan distinct (perm.mem_iff.mpr member)]
  · exact fun count id => (filled_moves view key memory count ledger id).2
  · exact fun count id unusable =>
      (filled_moves view key memory count ledger id).1 (times_eq_zero count unusable)

/-- One is half full, one has its last slot free, one is beyond its limit, one is unknown to the
ledger, and one is out of service. -/
def mixedView : PoolView :=
  .ofSlots [⟨⟨0⟩, .healthy⟩, ⟨⟨1⟩, .healthy⟩, ⟨⟨2⟩, .healthy⟩, ⟨⟨3⟩, .healthy⟩,
    ⟨⟨4⟩, .unresponsive⟩]

def mixedLedger : Ledger :=
  ⟨.one, [(⟨0⟩, ⟨1024, 512, 8, 2⟩), (⟨1⟩, ⟨4096, 0, 2, 1⟩), (⟨2⟩, ⟨512, 600, 4, 1⟩),
    (⟨4⟩, .unused 4096 8)]⟩

def mixedKey : RoutingKey := ⟨"guest", ⟨"guest", "hello"⟩, some 1⟩

theorem placements_fill_mixedView :
    (mixedView.Walkable ∧ 1 ≤ (200 : UInt64).toNat) ∧
    (List.range 5).map (answer mixedView mixedKey 200 mixedLedger) =
      [some ⟨1⟩, some ⟨0⟩, some ⟨0⟩, none, none] ∧
    (∀ k, (answer mixedView mixedKey 200 mixedLedger k).isSome ↔ k < 3) ∧
    ∀ count, (filled mixedView mixedKey 200 count mixedLedger).account? ⟨4⟩ =
      some (.unused 4096 8) := by
  have walkable : mixedView.Walkable := PoolView.walkable_ofSlots (by decide) (by decide)
  have positive : 1 ≤ (200 : UInt64).toNat := by decide
  obtain ⟨-, total, -, -, -, untouched⟩ :=
    placements_fill walkable positive mixedKey mixedLedger
  refine ⟨⟨walkable, positive⟩, by decide +kernel, total, fun count => ?_⟩
  exact untouched count ⟨4⟩ (by decide)

end Scheduler

end Dispatch
