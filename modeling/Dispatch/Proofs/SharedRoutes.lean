import Dispatch.Proofs.ProbeVisits

/-!
# Which hashes share a route

A hash without a hint is taken apart into a home and the index of a step, as a number with two
digits is: `hash % n` and `hash / n % steps`. Both together are the hash modulo the number of routes
(`digits_eq_iff`), and the order of a route tells its home and its step (`visits_injective`). So two
hashes share a route just if they agree modulo that number, and no route is left unused
(`shared_iff`). Positions are words; as long as the number of routes is one, no walk passes the word
size (`unwrapped_of_routes`).
-/

set_option autoImplicit false

namespace Dispatch.Route

variable {n home home' step step' : Nat}

/-- **The order of a walk tells its home and its step.** -/
theorem visits_injective (inside : home < n) (inside' : home' < n) (some_step : 1 ≤ step)
    (some_step' : 1 ≤ step') (reach : step ≤ n) (reach' : step' ≤ n)
    (same : visits home step n = visits home' step' n) : home = home' ∧ step = step' := by
  have visit : ∀ k < n, (home + k * step) % n = (home' + k * step') % n := by
    have every := List.map_inj_left.mp same
    exact fun k early => every k (List.mem_range.mpr early)
  have first : home = home' := by
    have begun := visit 0 (by omega)
    rwa [Nat.zero_mul, Nat.zero_mul, Nat.add_zero, Nat.add_zero, Nat.mod_eq_of_lt inside,
      Nat.mod_eq_of_lt inside'] at begun
  refine ⟨first, ?_⟩
  subst first
  by_cases lone : n = 1
  · omega
  · have second : home + 1 * step ≡ home + 1 * step' [MOD n] := visit 1 (by omega)
    rw [Nat.one_mul, Nat.one_mul] at second
    have strides : step ≡ step' [MOD n] := Nat.ModEq.add_left_cancel' home second
    -- both lie among `n` numbers in a row, none of them zero
    have shifted : step - 1 ≡ step' - 1 [MOD n] := by
      refine Nat.ModEq.add_right_cancel' 1 ?_
      rwa [Nat.sub_add_cancel some_step, Nat.sub_add_cancel some_step']
    have equal := shifted.eq_of_lt_of_lt (by omega) (by omega)
    omega

/-- **The two digits of a number are the number modulo the product of their bases.** -/
theorem digits_eq_iff (h k base count : Nat) (positive : 0 < base) :
    h % base = k % base ∧ h / base % count = k / base % count ↔ h ≡ k [MOD base * count] := by
  rw [Nat.ModEq, Nat.mod_mul, Nat.mod_mul]
  constructor
  · rintro ⟨low, high⟩
    rw [low, high]
  · intro same
    have low : h % base = k % base := by
      have rests := congrArg (· % base) same
      simpa only [Nat.add_mul_mod_self_left, Nat.mod_mod] using rests
    rw [low] at same
    exact ⟨low, Nat.eq_of_mul_eq_mul_left positive (Nat.add_left_cancel same)⟩

theorem coprimeSteps_nodup (n : Nat) : (coprimeSteps n).Nodup :=
  (coprimeSteps_ascending n).imp Nat.ne_of_lt

/-- A pool of at least three has a second coprime step, the one back. -/
theorem two_le_length_coprimeSteps (several : 3 ≤ n) : 2 ≤ (coprimeSteps n).length := by
  have back : Nat.Coprime (n - 1) n := (Nat.coprime_self_sub_left (by omega)).mpr (by simp)
  have both : [1, n - 1] ⊆ coprimeSteps n := by
    intro k member
    rcases List.mem_pair.mp member with rfl | rfl
    · exact mem_coprimeSteps.mpr ⟨Nat.le_refl 1, by omega, Nat.coprime_one_left n⟩
    · exact mem_coprimeSteps.mpr ⟨by omega, by omega, back⟩
  have apart : [1, n - 1].Nodup := by
    refine List.nodup_cons.mpr ⟨fun same => ?_, List.nodup_singleton _⟩
    have := List.mem_singleton.mp same
    omega
  exact (List.subperm_of_subset apart both).length_le

/-- Where the routes can be counted by a word, positions and steps add up to one. -/
theorem unwrapped_of_routes (routes : n * (coprimeSteps n).length < wordSize) :
    n + n ≤ wordSize := by
  by_cases several : 3 ≤ n
  · have steps := Nat.mul_le_mul_left n (two_le_length_coprimeSteps several)
    omega
  · unfold wordSize
    omega

/-- The order of a route is that of the visits from its home by its step. -/
theorem order_start (hash : UInt64) (positive : 0 < n)
    (routes : n * (coprimeSteps n).length < wordSize) :
    (start hash none (coprimeSteps n) n).order = visits (hash.toNat % n) (stepOf hash n) n := by
  have reach := (mem_coprimeSteps.mp (stepOf_mem hash positive)).2.1
  have word := unwrapped_of_routes routes
  rw [start_eq hash none positive, order]
  exact take_eq (by show n + stepOf hash n ≤ wordSize; omega) (Nat.mod_lt _ positive)
    (Nat.le_refl n)

theorem stepOf_eq_iff (h k : UInt64) (positive : 0 < n) :
    stepOf h n = stepOf k n ↔
      h.toNat / n % (coprimeSteps n).length = k.toNat / n % (coprimeSteps n).length := by
  have within := Nat.mod_lt (h.toNat / n) (length_coprimeSteps_pos positive)
  rw [← Option.some_inj, ← getElem?_stepOf h positive, ← getElem?_stepOf k positive]
  exact List.getElem?_inj within (coprimeSteps_nodup n)

/-- **Two hashes share a route exactly if they agree modulo the number of routes, and every route is
used.** The number of routes is that of the positions times that of the steps coprime to it. Every
home and every such step come together for a hash below that number. -/
theorem shared_iff (positive : 1 ≤ n) (routes : n * (coprimeSteps n).length < 2 ^ 64) :
    (∀ h k : UInt64,
      (start h none (coprimeSteps n) n).order = (start k none (coprimeSteps n) n).order ↔
        h.toNat ≡ k.toNat [MOD n * (coprimeSteps n).length]) ∧
    ∀ home < n, ∀ step ∈ coprimeSteps n, ∃ h : UInt64,
      h.toNat < n * (coprimeSteps n).length ∧
        start h none (coprimeSteps n) n = ⟨home, step, n, n⟩ ∧
        (start h none (coprimeSteps n) n).order =
          (List.range n).map fun k => (home + k * step) % n := by
  have word : n * (coprimeSteps n).length < wordSize := routes
  refine ⟨fun h k => ?_, fun home inside step member => ?_⟩
  · rw [order_start h positive word, order_start k positive word,
      ← digits_eq_iff _ _ _ _ positive, ← stepOf_eq_iff h k positive]
    constructor
    · obtain ⟨some_step, reach, -⟩ := mem_coprimeSteps.mp (stepOf_mem h positive)
      obtain ⟨some_step', reach', -⟩ := mem_coprimeSteps.mp (stepOf_mem k positive)
      exact visits_injective (Nat.mod_lt _ positive) (Nat.mod_lt _ positive) some_step some_step'
        reach reach'
    · rintro ⟨homes, steps⟩
      rw [homes, steps]
  · obtain ⟨index, within, rfl⟩ := List.getElem_of_mem member
    let hash := home + n * index
    have below : hash < n * (coprimeSteps n).length :=
      calc home + n * index < n + n * index := Nat.add_lt_add_right inside _
        _ = n * (index + 1) := by rw [Nat.mul_succ, Nat.add_comm]
        _ ≤ n * (coprimeSteps n).length := Nat.mul_le_mul_left n within
    have whole : (UInt64.ofNat hash).toNat = hash :=
      UInt64.toNat_ofNat_of_lt' (Nat.lt_trans below routes)
    have homeOf : hash % n = home := by
      rw [Nat.add_mul_mod_self_left, Nat.mod_eq_of_lt inside]
    have indexOf : hash / n % (coprimeSteps n).length = index := by
      rw [Nat.add_mul_div_left _ _ positive, Nat.div_eq_of_lt inside, Nat.zero_add,
        Nat.mod_eq_of_lt within]
    have stepOf_hash : stepOf (UInt64.ofNat hash) n = (coprimeSteps n)[index] := by
      have picked := getElem?_stepOf (UInt64.ofNat hash) positive
      rw [whole, indexOf, List.getElem?_eq_getElem within] at picked
      exact (Option.some.inj picked).symm
    refine ⟨UInt64.ofNat hash, by rwa [whole], ?_, ?_⟩
    · rw [start_eq _ none positive, Option.getD_none, whole, homeOf, stepOf_hash]
    · rw [order_start _ positive word, whole, homeOf, stepOf_hash]
      rfl

/-- Around six positions there are twelve routes: 5 and 17 share the one from 5 forwards, and 11
goes the other way from the same home. -/
theorem shared_iff_six :
    (1 ≤ 6 ∧ 6 * (coprimeSteps 6).length < 2 ^ 64) ∧
    (start 5 none (coprimeSteps 6) 6).order = (start 17 none (coprimeSteps 6) 6).order ∧
    (start 5 none (coprimeSteps 6) 6).order ≠ (start 11 none (coprimeSteps 6) 6).order ∧
    ∃ h : UInt64, h.toNat < 12 ∧ start h none (coprimeSteps 6) 6 = ⟨3, 5, 6, 6⟩ := by
  have twelve : 6 * (coprimeSteps 6).length = 12 := by decide +kernel
  have routes : 6 * (coprimeSteps 6).length < 2 ^ 64 := twelve ▸ by decide
  obtain ⟨shared, used⟩ := shared_iff (n := 6) (by decide) routes
  obtain ⟨h, below, begun, -⟩ := used 3 (by decide) 5 (mem_coprimeSteps.mpr (by decide))
  rw [twelve] at shared below
  refine ⟨⟨by decide, routes⟩, (shared 5 17).mpr (by decide), ?_, h, below, begun⟩
  exact (shared 5 11).not.mpr (by decide)

end Dispatch.Route
