import Dispatch.Routing
import Mathlib.Data.List.Nodup
import Mathlib.Data.List.Perm.Subperm
import Mathlib.Data.Nat.ModEq
import Mathlib.Data.Nat.Prime.Basic

/-!
# The order of a route

A route visits `home`, `home + step`, `home + 2 * step` and so on around the pool (`take_eq`), and
with a step that is coprime to the size it visits every position once (`order_perm`). Positions are
words: the sum of a position and a step must not pass the word size. `stepOf_unwrapped` says when it
does not. Up to half the word size any step is small enough, and beyond it only the first two
coprime steps are ever picked, which are at most 53.
-/

set_option autoImplicit false

namespace Dispatch

namespace Route

variable {r : Route}

/-- The positions of a walk that never passes the word size. -/
theorem take_eq {count : Nat} (unwrapped : r.n + r.step ≤ wordSize) (inside : r.position < r.n)
    (enough : count ≤ r.left) :
    r.take count = (List.range count).map fun k => (r.position + k * r.step) % r.n := by
  induction count generalizing r with
  | zero => rfl
  | succ count ih =>
      have some_left : r.left ≠ 0 := by omega
      have within : (r.position + r.step) % wordSize = r.position + r.step :=
        Nat.mod_eq_of_lt (by omega)
      have rest := ih (r := ⟨(r.position + r.step) % r.n, r.step, r.n, r.left - 1⟩) unwrapped
        (Nat.mod_lt _ (by omega)) (by show count ≤ r.left - 1; omega)
      rw [take, next?, if_neg some_left, List.range_succ_eq_map]
      simp only [within, rest, List.map_cons, List.map_map]
      congr 1
      · rw [Nat.zero_mul, Nat.add_zero, Nat.mod_eq_of_lt inside]
      · refine List.map_congr_left fun k _ => ?_
        rw [Function.comp, Nat.mod_add_mod, Nat.succ_mul, Nat.add_assoc, Nat.add_comm r.step]

/-- **A step coprime to the size reaches every position once.** -/
theorem order_perm (unwrapped : r.n + r.step ≤ wordSize) (inside : r.position < r.n)
    (left : r.left = r.n) (coprime : Nat.Coprime r.step r.n) : r.order.Perm (List.range r.n) := by
  have order : r.order = (List.range r.n).map fun k => (r.position + k * r.step) % r.n := by
    rw [Route.order, take_eq unwrapped inside (Nat.le_refl _), left]
  have distinct : r.order.Nodup := by
    rw [order]
    refine List.Nodup.map_on (fun j early k late same => ?_) List.nodup_range
    have congruent : j * r.step ≡ k * r.step [MOD r.n] := Nat.ModEq.add_left_cancel' _ same
    have positions := Nat.ModEq.cancel_right_of_coprime coprime.symm congruent
    exact positions.eq_of_lt_of_lt (List.mem_range.mp early) (List.mem_range.mp late)
  have within : r.order ⊆ List.range r.n := by
    intro position member
    rw [order] at member
    obtain ⟨k, -, rfl⟩ := List.mem_map.mp member
    exact List.mem_range.mpr (Nat.mod_lt _ (by omega))
  refine (List.subperm_of_subset distinct within).perm_of_length_le ?_
  rw [order, List.length_map]

end Route

/-! ## Steps -/

theorem mem_coprimeSteps {k n : Nat} :
    k ∈ coprimeSteps n ↔ 1 ≤ k ∧ k ≤ n ∧ Nat.Coprime k n := by
  rw [coprimeSteps_eq, List.mem_filter, List.mem_range'_1, decide_eq_true_eq, Nat.Coprime]
  omega

/-- One is the first step of every pool. -/
theorem coprimeSteps_succ (n : Nat) :
    coprimeSteps (n + 1) = 1 :: (List.range' 2 n).filter fun k => Nat.gcd k (n + 1) = 1 := by
  rw [coprimeSteps_eq, List.range'_succ, List.filter_cons, if_pos]
  exact decide_eq_true (Nat.gcd_one_left _)

def smallPrimes : List Nat := [2, 3, 5, 7, 11, 13, 17, 19, 23, 29, 31, 37, 41, 43, 47, 53]

theorem prime_of_mem_smallPrimes : ∀ p ∈ smallPrimes, p.Prime := by
  unfold smallPrimes
  decide

theorem foldr_lcm_dvd {n : Nat} (primes : List Nat) (divide : ∀ p ∈ primes, p ∣ n) :
    primes.foldr Nat.lcm 1 ∣ n := by
  induction primes with
  | nil => exact Nat.one_dvd n
  | cons p rest ih =>
      exact Nat.lcm_dvd (divide p List.mem_cons_self)
        (ih fun q member => divide q (List.mem_cons_of_mem _ member))

/-- No word but zero is a multiple of all small primes. -/
theorem exists_small_coprime {n : Nat} (positive : 0 < n) (word : n < wordSize) :
    ∃ p, 2 ≤ p ∧ p ≤ 53 ∧ Nat.Coprime p n := by
  by_contra none
  have divide : ∀ p ∈ smallPrimes, p ∣ n := by
    intro p member
    by_contra apart
    have bounds : ∀ q ∈ smallPrimes, 2 ≤ q ∧ q ≤ 53 := by decide
    have coprime := (prime_of_mem_smallPrimes p member).coprime_iff_not_dvd.mpr apart
    exact none ⟨p, (bounds p member).1, (bounds p member).2, coprime⟩
  have large : wordSize ≤ smallPrimes.foldr Nat.lcm 1 := by decide
  exact absurd (Nat.le_of_dvd positive (foldr_lcm_dvd _ divide)) (by omega)

/-- The first two steps of a large pool are small. -/
theorem getD_coprimeSteps_le {n index : Nat} (word : n < wordSize) (large : 53 ≤ n)
    (early : index ≤ 1) : (coprimeSteps n).getD index 1 ≤ 53 := by
  obtain ⟨p, least, small, coprime⟩ := exists_small_coprime (by omega) word
  have member : p ∈ coprimeSteps n := mem_coprimeSteps.mpr ⟨by omega, by omega, coprime⟩
  have ascending : (coprimeSteps n).Pairwise (· < ·) :=
    List.Pairwise.filter _ List.pairwise_lt_range'
  obtain ⟨m, rfl⟩ : ∃ m, n = m + 1 := ⟨n - 1, by omega⟩
  rw [coprimeSteps_succ] at member ascending ⊢
  generalize (List.range' 2 m).filter (fun k => Nat.gcd k (m + 1) = 1) = rest
    at member ascending ⊢
  have later : p ∈ rest := (List.mem_cons.mp member).resolve_left (by omega)
  cases rest with
  | nil => cases later
  | cons second rest =>
      have least_second : second ≤ p := by
        rcases List.mem_cons.mp later with rfl | behind
        · exact Nat.le_refl _
        · exact Nat.le_of_lt (List.rel_of_pairwise_cons (List.pairwise_cons.mp ascending).2 behind)
      obtain rfl | rfl : index = 0 ∨ index = 1 := by omega
      · show 1 ≤ 53
        decide
      · exact Nat.le_trans least_second small

namespace Route

/-- The step that a hash picks. -/
def stepOf (hash : UInt64) (n : Nat) : Nat :=
  (coprimeSteps n).getD (hash.toNat / n % (coprimeSteps n).length) 1

theorem length_coprimeSteps_pos {n : Nat} (positive : 0 < n) : 0 < (coprimeSteps n).length :=
  List.length_pos_of_mem
    (mem_coprimeSteps.mpr ⟨Nat.le_refl 1, positive, Nat.coprime_one_left n⟩)

theorem start_eq (hash : UInt64) (hint : Option UInt64) {n : Nat} (positive : 0 < n) :
    start hash hint (coprimeSteps n) n =
      ⟨(hint.getD hash).toNat % n, stepOf hash n, n, n⟩ := by
  have steps : (coprimeSteps n).isEmpty = false :=
    List.isEmpty_eq_false_iff.mpr (List.ne_nil_of_length_pos (length_coprimeSteps_pos positive))
  rw [start, if_neg (by simp [steps]; omega)]
  rfl

theorem getElem?_stepOf (hash : UInt64) {n : Nat} (positive : 0 < n) :
    (coprimeSteps n)[hash.toNat / n % (coprimeSteps n).length]? = some (stepOf hash n) := by
  have within := Nat.mod_lt (hash.toNat / n) (length_coprimeSteps_pos positive)
  rw [stepOf, List.getD_eq_getElem?_getD, List.getElem?_eq_getElem within, Option.getD_some]

theorem stepOf_mem (hash : UInt64) {n : Nat} (positive : 0 < n) :
    stepOf hash n ∈ coprimeSteps n :=
  List.mem_of_getElem? (getElem?_stepOf hash positive)

/-- **A walk passes the word size only in a pool that all but fills it, and then only for a hash
beyond the pool.** -/
theorem stepOf_unwrapped {hash : UInt64} {n : Nat} (positive : 0 < n) (word : n < wordSize)
    (room : n + 53 ≤ wordSize ∨ hash.toNat < n) : n + stepOf hash n ≤ wordSize := by
  have hash_word := hash.toNat_lt
  have step_le := (mem_coprimeSteps.mp (stepOf_mem hash positive)).2.1
  unfold wordSize at *
  by_cases half : n + n ≤ 18_446_744_073_709_551_616
  · omega
  · -- The pool takes more than half of all words, so the hash goes into it once at most.
    have quotient : hash.toNat / n < 2 := Nat.div_lt_of_lt_mul (by omega)
    have index : hash.toNat / n % (coprimeSteps n).length ≤ 1 :=
      Nat.le_trans (Nat.mod_le _ _) (by omega)
    have small := getD_coprimeSteps_le word (by omega) index
    rcases room with room | below
    · exact Nat.le_trans (Nat.add_le_add_left small n) room
    · obtain ⟨m, rfl⟩ : ∃ m, n = m + 1 := ⟨n - 1, by omega⟩
      have first : stepOf hash (m + 1) = 1 := by
        rw [stepOf, Nat.div_eq_of_lt below, Nat.zero_mod, coprimeSteps_succ]
        rfl
      omega

/-- **The route of a key reaches every position.** -/
theorem mem_order_start (hash : UInt64) (hint : Option UInt64) {n position : Nat}
    (within : position < n) (word : n < wordSize) (room : n + 53 ≤ wordSize ∨ hash.toNat < n) :
    position ∈ (start hash hint (coprimeSteps n) n).order := by
  have positive : 0 < n := Nat.zero_lt_of_lt within
  have coprime := (mem_coprimeSteps.mp (stepOf_mem hash positive)).2.2
  have perm := order_perm (r := start hash hint (coprimeSteps n) n)
    (by rw [start_eq hash hint positive]; exact stepOf_unwrapped positive word room)
    (by rw [start_eq hash hint positive]; exact Nat.mod_lt _ positive)
    (by rw [start_eq hash hint positive])
    (by rw [start_eq hash hint positive]; exact coprime)
  rw [start_eq hash hint positive] at perm ⊢
  exact perm.mem_iff.mpr (List.mem_range.mpr within)

/-- Seven picks the home 2 and the second step of a pool of five. -/
example : (start 7 none (coprimeSteps 5) 5).order = [2, 4, 1, 3, 0] := by decide +kernel

end Route

end Dispatch
