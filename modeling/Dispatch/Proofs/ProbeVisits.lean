import Dispatch.Proofs.ProbeOrder
import Mathlib.Algebra.BigOperators.Group.Finset.Basic
import Mathlib.Data.Int.CardIntervalMod

/-!
# How often a route visits a position

A walk of any step comes around: two of its visits are to one position exactly if the numbers of the
visits are congruent modulo `n / gcd step n` (`visits_meet_iff`). So a route around `n` positions
visits `n / gcd step n` of them, and each of these `gcd step n` times (`visits_evenly`), which is
all of them once just for the coprime steps. `after` is the walk with some visits behind it; what is
left of it is the rest of its order (`take_after`).
-/

set_option autoImplicit false

namespace Dispatch.Route

/-! ## The rest of a walk -/

/-- The walk behind its next visits. -/
def after (r : Route) : Nat → Route
  | 0 => r
  | count + 1 =>
    match r.next? with
    | none => r
    | some (_, rest) => rest.after count

variable {r rest : Route} {position : Nat}

theorem next?_eq_none (done : r.left = 0) : r.next? = none := if_pos done

theorem left_of_next (next : r.next? = some (position, rest)) : r.left = rest.left + 1 := by
  unfold next? at next
  split at next
  · cases next
  · cases next
    show r.left = r.left - 1 + 1
    omega

theorem order_of_done (done : r.left = 0) : r.order = [] := by rw [order, done, take]

theorem order_of_next (next : r.next? = some (position, rest)) :
    r.order = position :: rest.order := by
  rw [order, left_of_next next, take, next]
  rfl

/-- A walk can be followed step by step, to its end and no further. -/
theorem next_cases (r : Route) :
    (r.left = 0 ∧ r.next? = none) ∨ ∃ position rest, r.next? = some (position, rest) := by
  by_cases done : r.left = 0
  · exact .inl ⟨done, next?_eq_none done⟩
  · exact .inr ⟨_, _, if_neg done⟩

theorem take_eq_take_order (r : Route) (count : Nat) : r.take count = r.order.take count := by
  induction count generalizing r with
  | zero => rfl
  | succ count ih =>
      rcases r.next_cases with ⟨done, next⟩ | ⟨position, rest, next⟩
      · rw [take, next, order_of_done done]
        rfl
      · rw [take, next, order_of_next next, List.take_succ_cons, ← ih]

theorem left_after (r : Route) (count : Nat) : (r.after count).left = r.left - count := by
  induction count generalizing r with
  | zero => rfl
  | succ count ih =>
      rcases r.next_cases with ⟨done, next⟩ | ⟨position, rest, next⟩
      · rw [after, next, done, Nat.zero_sub]
      · rw [after, next, left_of_next next, Nat.add_sub_add_right]
        exact ih rest

theorem order_after (r : Route) (count : Nat) : (r.after count).order = r.order.drop count := by
  induction count generalizing r with
  | zero => rfl
  | succ count ih =>
      rcases r.next_cases with ⟨done, next⟩ | ⟨position, rest, next⟩
      · rw [after, next, order_of_done done, List.drop_nil]
      · rw [after, next, order_of_next next, List.drop_succ_cons]
        exact ih rest

/-- **What a walk has left to visit is the rest of its order.** -/
theorem take_after (r : Route) (seen count : Nat) :
    (r.after seen).take count = (r.order.drop seen).take count := by
  rw [take_eq_take_order, order_after]

/-- A walk keeps its step and stays among its positions. -/
theorem after_inside (inside : r.position < r.n) (count : Nat) :
    (r.after count).position < r.n ∧ (r.after count).step = r.step := by
  induction count generalizing r with
  | zero => exact ⟨inside, rfl⟩
  | succ count ih =>
      rw [after]
      split
      · exact ⟨inside, rfl⟩
      · rename_i next
        unfold next? at next
        split at next
        · cases next
        · cases next
          exact ih (Nat.mod_lt _ (by omega))

/-! ## Visits to one position -/

section Visits

variable {n step : Nat}

/-- **Two visits of a walk are to one position exactly if the walk came around in between.** -/
theorem visits_meet_iff (positive : 0 < n) (home j k : Nat) :
    (home + j * step) % n = (home + k * step) % n ↔ j ≡ k [MOD n / Nat.gcd n step] := by
  constructor
  · intro same
    have strides : j * step ≡ k * step [MOD n] := Nat.ModEq.add_left_cancel' home same
    exact strides.cancel_right_div_gcd positive
  · intro round
    have round_trips : n ∣ n / Nat.gcd n step * step := by
      obtain ⟨times, whole⟩ := Nat.gcd_dvd_right n step
      refine ⟨times, ?_⟩
      calc n / Nat.gcd n step * step
          = n / Nat.gcd n step * (Nat.gcd n step * times) := by rw [← whole]
        _ = n / Nat.gcd n step * Nat.gcd n step * times := (Nat.mul_assoc ..).symm
        _ = n * times := by rw [Nat.div_mul_cancel (Nat.gcd_dvd_left n step)]
    exact ((round.mul_right' step).of_dvd round_trips).add_left home

/-- The positions in the order of the visits. -/
def visits (home step n : Nat) : List Nat := (List.range n).map fun k => (home + k * step) % n

/-- Whatever is visited, is visited equally often. -/
theorem count_visits (positive : 0 < n) {home position : Nat}
    (visited : position ∈ visits home step n) :
    (visits home step n).count position = Nat.gcd step n := by
  obtain ⟨j, -, rfl⟩ := List.mem_map.mp visited
  have round : 0 < n / Nat.gcd n step :=
    Nat.div_pos (Nat.gcd_le_left step positive) (Nat.gcd_pos_of_pos_left step positive)
  have rounds : n % (n / Nat.gcd n step) = 0 :=
    Nat.mod_eq_zero_of_dvd (Nat.div_dvd_of_dvd (Nat.gcd_dvd_left n step))
  calc (visits home step n).count ((home + j * step) % n)
      = Nat.count (· ≡ j [MOD n / Nat.gcd n step]) n := by
        rw [visits, List.count_eq_countP, List.countP_map]
        refine List.countP_congr fun k _ => ?_
        rw [Function.comp, beq_iff_eq, visits_meet_iff positive, decide_eq_true_eq]
    _ = n / (n / Nat.gcd n step) := by
        rw [Nat.count_modEq_card n round, rounds, if_neg (Nat.not_lt_zero _), Nat.add_zero]
    _ = Nat.gcd step n := by
        rw [Nat.div_div_self (Nat.gcd_dvd_left n step) (Nat.ne_of_gt positive), Nat.gcd_comm]

theorem distinct_visits (positive : 0 < n) (home : Nat) :
    (visits home step n).dedup.length = n / Nat.gcd step n := by
  have total : (visits home step n).dedup.length * Nat.gcd step n = n :=
    calc (visits home step n).dedup.length * Nat.gcd step n
        = ∑ position ∈ (visits home step n).toFinset, (visits home step n).count position := by
          rw [Finset.sum_const_nat fun position visited =>
            count_visits positive (List.mem_toFinset.mp visited), List.card_toFinset]
      _ = n := by
          rw [List.sum_toFinset_count_eq_length, visits, List.length_map, List.length_range]
  exact Nat.eq_div_of_mul_eq_left (Nat.ne_of_gt (Nat.gcd_pos_of_pos_right step positive)) total

end Visits

/-! ## Routes of any steps -/

/-- The step of a route is one of the steps that it may take. -/
theorem start_of_steps (hash : UInt64) (hint : Option UInt64) {steps : List Nat} {n : Nat}
    (positive : 0 < n) (some_step : steps ≠ []) :
    ∃ step, steps[hash.toNat / n % steps.length]? = some step ∧
      start hash hint steps n = ⟨(hint.getD hash).toNat % n, step, n, n⟩ := by
  have within := Nat.mod_lt (hash.toNat / n) (List.length_pos_of_ne_nil some_step)
  have steps_left : steps.isEmpty = false := List.isEmpty_eq_false_iff.mpr some_step
  refine ⟨_, List.getElem?_eq_getElem within, ?_⟩
  rw [start, if_neg (by simp [steps_left]; omega)]
  simp only [List.getD_eq_getElem?_getD, List.getElem?_eq_getElem within, Option.getD_some]

theorem coprimeSteps_ascending (n : Nat) : (coprimeSteps n).Pairwise (· < ·) :=
  List.Pairwise.filter _ List.pairwise_lt_range'

/-- **A route visits evenly, and everything just with a coprime step.** The coprime steps of a pool
are those from one to its size that are coprime to it, in ascending order. With any steps of that
range, a route begins at the hint or the hash, goes on by one of the steps, which the rest of the
hash picks, and makes as many visits as there are positions. Of these it visits `n / gcd` different
ones, each of them `gcd` times; so it is a permutation exactly if its step is coprime. At every
point of the walk it knows the number of visits left, and its next addition does not pass the word
size. -/
theorem visits_evenly {n : Nat} (positive : 1 ≤ n) (small : n < 9_223_372_036_854_775_808) :
    ((coprimeSteps n).Pairwise (· < ·) ∧
      ∀ k, k ∈ coprimeSteps n ↔ (1 ≤ k ∧ k ≤ n) ∧ Nat.gcd k n = 1) ∧
    (∀ (hash : UInt64) (hint : Option UInt64) (steps : List Nat), steps ≠ [] →
      (∀ step ∈ steps, 1 ≤ step ∧ step ≤ n) →
      let r := start hash hint steps n
      let order := (List.range n).map fun k => ((hint.getD hash).toNat % n + k * r.step) % n
      steps[hash.toNat / n % steps.length]? = some r.step ∧
      (∀ seen count, (r.after seen).take count = (order.drop seen).take count ∧
        (r.after seen).left = n - seen ∧
        (r.after seen).position + (r.after seen).step < wordSize) ∧
      (∀ position ∈ order, position < n ∧ order.count position = Nat.gcd r.step n) ∧
      order.dedup.length = n / Nat.gcd r.step n ∧
      (order.Perm (List.range n) ↔ Nat.Coprime r.step n)) ∧
    ∀ (hash : UInt64) (hint : Option UInt64),
      (start hash hint (coprimeSteps n) n).order.Perm (List.range n) := by
  have word : n + n ≤ wordSize := by unfold wordSize; omega
  refine ⟨⟨coprimeSteps_ascending n, fun k => ?_⟩, ?_, fun hash hint => ?_⟩
  · rw [mem_coprimeSteps, Nat.Coprime, and_assoc]
  · intro hash hint steps some_step range
    obtain ⟨step, picked, begun⟩ := start_of_steps hash hint positive some_step
    rw [begun]
    intro r order
    obtain ⟨-, reach⟩ := range step (List.mem_of_getElem? picked)
    have inside : r.position < n := Nat.mod_lt _ positive
    have unwrapped : n + step ≤ wordSize := by omega
    have ordered : r.order = order := take_eq (r := r) unwrapped inside (Nat.le_refl _)
    have counts : ∀ position ∈ order, order.count position = Nat.gcd step n := fun _ visited =>
      count_visits positive visited
    refine ⟨picked, fun seen count => ⟨?_, left_after r seen, ?_⟩, fun position visited => ?_,
      distinct_visits positive _, fun perm => ?_, fun coprime => ?_⟩
    · rw [take_after, ordered]
    · obtain ⟨here, stride⟩ := after_inside (r := r) inside seen
      rw [stride]
      exact Nat.lt_of_lt_of_le (Nat.add_lt_add_right here step) unwrapped
    · obtain ⟨k, -, rfl⟩ := List.mem_map.mp visited
      exact ⟨Nat.mod_lt _ positive, counts _ visited⟩
    · -- a permutation visits the position zero, and that only once
      have zero : 0 ∈ List.range n := List.mem_range.mpr positive
      have once : order.count 0 = 1 := by
        rw [perm.count_eq, List.count_eq_one_of_mem List.nodup_range zero]
      rw [counts 0 (perm.mem_iff.mpr zero)] at once
      exact once
    · rw [← ordered]
      exact order_perm unwrapped inside rfl coprime
  · rw [start_eq hash hint positive]
    obtain ⟨-, reach, coprime⟩ := mem_coprimeSteps.mp (stepOf_mem hash positive)
    have unwrapped : n + stepOf hash n ≤ wordSize := by omega
    exact order_perm unwrapped (Nat.mod_lt _ positive) rfl coprime

/-- Steps of four visit every other one of six positions, twice. -/
theorem visits_evenly_sixFour :
    (1 ≤ 6 ∧ 6 < 9_223_372_036_854_775_808) ∧
    ([4] ≠ [] ∧ ∀ step ∈ [4], 1 ≤ step ∧ step ≤ 6) ∧
    (start 9 none [4] 6).take 8 = [3, 1, 5, 3, 1, 5] ∧ [3, 1, 5, 3, 1, 5].count 5 = Nat.gcd 4 6 ∧
    (start 9 none (coprimeSteps 6) 6).order.Perm (List.range 6) := by
  have range : ∀ step ∈ [4], 1 ≤ step ∧ step ≤ 6 := by decide
  obtain ⟨-, even, all⟩ := visits_evenly (n := 6) (by decide) (by decide)
  obtain ⟨-, walk, equal, -⟩ := even 9 none [4] (by decide) range
  exact ⟨by decide, ⟨by decide, range⟩, (walk 0 8).1, (equal 5 (by decide)).2, all 9 none⟩

end Dispatch.Route
