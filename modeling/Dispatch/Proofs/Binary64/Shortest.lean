import Dispatch.Proofs.Binary64.Decimals
import Dispatch.Proofs.Binary64.Order

/-!
# How long the digits of a number are

Whatever lies within half a unit of the last bit of a number is rounded to it (`ofRatio_of_near`).
Among the decimals of seventeen digits the two around a number are closer together than that, so one
of them reads back (`exists_reads`) and the search for the fewest digits never falls back on all
digits there are (`exists_grid`): what it finds has at most seventeen of them
(`shortest_digits_le`) and is not past the greatest number (`shortest_le_greatest`). Digits with
these bounds are scaled by one product that stays finite (`exists_mul_power`), though twenty digits
of the greatest number would not.
-/

set_option autoImplicit false

namespace Dispatch.Binary64

/-! ## What is rounded to a number -/

/-- The integer nearest to a quotient that is within a half of it. -/
theorem roundDiv_of_near {n d m : Nat} (positive : 0 < d) (low : 2 * (m * d) < 2 * n + d)
    (high : 2 * n < 2 * (m * d) + d) : roundDiv n d = m := by
  have whole := Nat.div_add_mod' n d
  have rest := Nat.mod_lt n positive
  have above : n / d < m + 1 := by
    rw [Nat.div_lt_iff_lt_mul positive, Nat.add_one_mul]
    omega
  have below : m < n / d + 2 := by
    by_contra far
    have product := Nat.mul_le_mul_right d (Nat.not_lt.mp far)
    rw [Nat.add_mul] at product
    omega
  unfold roundDiv
  rcases Nat.lt_or_ge (n / d) m with less | same
  · obtain rfl : m = n / d + 1 := by omega
    have next := Nat.add_one_mul (n / d) d
    have up : ¬2 * (n % d) < d := by omega
    have tie : ¬2 * (n % d) = d := by omega
    simp [up, tie]
  · obtain rfl : m = n / d := by omega
    have down : 2 * (n % d) < d := by omega
    simp [down]

section Near

variable {negative : Bool} {num den m : Nat} {e : Int}

theorem exponentFor_of_near (normal : IsNormal m e) (numerator : 0 < num) (denominator : 0 < den)
    (high : (num / den : ℚ) < (m + 1 / 2) * 2 ^ e)
    (inside : e ≠ minExponent → (2 : ℚ) ^ (52 + e) ≤ num / den) : exponentFor num den = e := by
  have quotient : (0 : ℚ) < num / den := by positivity
  have below : Int.log 2 (num / den : ℚ) < 53 + e := by
    have bits : (m + 1 / 2 : ℚ) ≤ 2 ^ (53 : Int) := by
      have small : (m + 1 : Nat) ≤ 2 ^ 53 := significandBound_eq ▸ normal.small
      have small' : (m + 1 : ℚ) ≤ 2 ^ (53 : Int) := by exact_mod_cast small
      linarith
    rw [← lt_zpow_iff quotient, zpow_add₀ two_ne_zero]
    calc (num / den : ℚ) < (m + 1 / 2) * 2 ^ e := high
      _ ≤ 2 ^ (53 : Int) * 2 ^ e := by gcongr
  rw [exponentFor_eq numerator denominator]
  have low := normal.low
  by_cases least : e = minExponent
  · omega
  · have above := (zpow_le_iff quotient _).mp (inside least)
    omega

/-- **A quotient within half a unit of the last bit is rounded to the number**; below the least
number with its exponent, where that unit is smaller, nothing is claimed. -/
theorem ofRatio_of_near (normal : IsNormal m e) (positive : 0 < m) (denominator : 0 < den)
    (low : (m - 1 / 2 : ℚ) * 2 ^ e < num / den) (high : (num / den : ℚ) < (m + 1 / 2) * 2 ^ e)
    (inside : e ≠ minExponent → (2 : ℚ) ^ (52 + e) ≤ num / den) :
    ofRatio negative num den = .finite negative m e := by
  have unit : (0 : ℚ) < 2 ^ e := by positivity
  have numerator : 0 < num := by
    rw [Nat.pos_iff_ne_zero]
    rintro rfl
    have one : (1 : ℚ) ≤ m := by exact_mod_cast positive
    rw [Nat.cast_zero, zero_div] at low
    nlinarith
  have exponent := exponentFor_of_near normal numerator denominator high inside
  have significand : significandFor num den = m := by
    have scaled := quotient_scaleDown num den e
    have part := scaleDown_pos num denominator e
    have below : (0 : ℚ) < (scaleDown num den e).2 := Nat.cast_pos.mpr part
    rw [← lt_div_iff₀ unit, ← scaled, lt_div_iff₀ below] at low
    rw [← div_lt_iff₀ unit, ← scaled, div_lt_iff₀ below] at high
    rw [significandFor, exponent]
    apply roundDiv_of_near part
    · have low' : (2 * (m * (scaleDown num den e).2) : ℚ) <
          2 * (scaleDown num den e).1 + (scaleDown num den e).2 := by linarith
      exact_mod_cast low'
    · have high' : (2 * (scaleDown num den e).1 : ℚ) <
          2 * (m * (scaleDown num den e).2) + (scaleDown num den e).2 := by linarith
      exact_mod_cast high'
  rw [ofRatio_of_pos numerator, exponent, significand, carried,
    if_neg (Nat.ne_of_lt normal.small), bounded, if_neg (Int.not_lt.mpr normal.high)]

/-- A decimal within half a unit of the last bit. -/
theorem ofDecimal_of_near {digits : Nat} {q : Int} (normal : IsNormal m e) (positive : 0 < m)
    (low : (m - 1 / 2 : ℚ) * 2 ^ e < digits * 10 ^ q)
    (high : (digits * 10 ^ q : ℚ) < (m + 1 / 2) * 2 ^ e)
    (inside : e ≠ minExponent → (2 : ℚ) ^ (52 + e) ≤ digits * 10 ^ q) :
    ofDecimal negative digits q = .finite negative m e := by
  have value := quotient_decimal digits q
  push_cast at value
  rw [ofDecimal_eq_ofRatio]
  apply ofRatio_of_near normal positive (Nat.pow_pos (by decide)) <;> push_cast <;> rw [value] <;>
    assumption

end Near

/-! ## The leading digit -/

section Leading

variable {num den places : Nat}

/-- The exponent of the leading digit is the decimal logarithm, unless the quotient has hundreds of
zeros behind the point. -/
theorem leadingExponent_bounds (denominator : 0 < den) (large : den ≤ num * 10 ^ places)
    (few : places < 400) :
    (10 : ℚ) ^ leadingExponent num den ≤ num / den ∧
      (num / den : ℚ) < 10 ^ (leadingExponent num den + 1) := by
  have below : (0 : ℚ) < den := by exact_mod_cast denominator
  unfold leadingExponent
  split
  · rename_i whole
    have quotient : 0 < num / den := Nat.div_pos whole denominator
    have digits := Nat.length_toDigits_pos (b := 10) (n := num / den)
    have least := ten_pow_length_le quotient
    have most := lt_ten_pow_length (num / den)
    rw [Nat.le_div_iff_mul_le denominator] at least
    rw [Nat.div_lt_iff_lt_mul denominator] at most
    have exponent : ((Nat.toDigits 10 (num / den)).length : Int) - 1 =
        ((Nat.toDigits 10 (num / den)).length - 1 : Nat) := by omega
    rw [sub_add_cancel, exponent, zpow_natCast, zpow_natCast, le_div_iff₀ below,
      div_lt_iff₀ below]
    exact ⟨by exact_mod_cast least, by exact_mod_cast most⟩
  · rename_i fraction
    split
    · rename_i j found
      obtain ⟨enough, -, first⟩ := List.find?_range_eq_some.mp found
      have reached : den ≤ num * 10 ^ j := by simpa using enough
      obtain _ | j := j
      · simp at reached
        exact absurd reached fraction
      have before : num * 10 ^ j < den := by simpa using first j (Nat.lt_succ_self j)
      rw [neg_add_eq_sub, zpow_neg, zpow_natCast, zpow_sub₀ (by norm_num), zpow_natCast, zpow_one,
        le_div_iff₀ below, div_lt_iff₀ below, inv_mul_le_iff₀ (by positivity), mul_comm,
        div_mul_eq_mul_div, lt_div_iff₀ (by positivity)]
      constructor
      · exact_mod_cast reached
      · rw [pow_succ, ← mul_assoc]
        have scaled : (num * 10 ^ j : ℚ) < den := by exact_mod_cast before
        linarith
    · rename_i none
      have last := List.find?_range_eq_none.mp none places few
      exact absurd large (by simpa using last)

end Leading

/-! ## Seventeen digits -/

section Seventeen

variable {negative : Bool} {x : Binary64} {num den : Nat} {q : Int} {m : Nat} {e : Int}

/-- A grid has a multiple that reads back if one of the two around the quotient does. -/
theorem exists_decimalOnGrid {low : Nat}
    (around : low = num * 10 ^ (-q).toNat / (den * 10 ^ q.toNat))
    (reads : ofDecimal negative low q = x ∨ ofDecimal negative (low + 1) q = x) :
    ∃ d, decimalOnGrid x negative num den q = some d := by
  unfold decimalOnGrid
  simp only [Nat.pow_eq, ← around]
  split
  · split <;> exact ⟨_, rfl⟩
  · exact ⟨_, rfl⟩
  · exact ⟨_, rfl⟩
  · rename_i first second
    exact absurd reads (by simpa using And.intro first second)

/-- What a grid gives is no more than one step above the quotient. -/
theorem decimalOnGrid_bounds {d : Decimal} (found : decimalOnGrid x negative num den q = some d) :
    d.exponent = q ∧ d.digits ≤ num * 10 ^ (-q).toNat / (den * 10 ^ q.toNat) + 1 := by
  unfold decimalOnGrid at found
  simp only [Nat.pow_eq] at found
  split at found
  · split at found <;> cases found
    · exact ⟨rfl, Nat.le_succ _⟩
    · exact ⟨rfl, Nat.le_refl _⟩
  · cases found
    exact ⟨rfl, Nat.le_succ _⟩
  · cases found
    exact ⟨rfl, Nat.le_refl _⟩
  · cases found

/-- **One of the two decimals around a number reads back** if the number has sixteen more places
than they leave out. -/
theorem exists_reads (negative : Bool) (normal : IsNormal m e) (positive : 0 < m) {low : Nat}
    (fine : (10 : ℚ) ^ (16 + q) ≤ m * 2 ^ e) (below : (low * 10 ^ q : ℚ) ≤ m * 2 ^ e)
    (above : (m * 2 ^ e : ℚ) < (low + 1) * 10 ^ q) :
    ofDecimal negative low q = .finite negative m e ∨
      ofDecimal negative (low + 1) q = .finite negative m e := by
  have unit : (0 : ℚ) < 2 ^ e := by positivity
  have step : (10 ^ (16 : Nat) * 10 ^ q : ℚ) ≤ m * 2 ^ e := by
    rwa [← zpow_natCast, ← zpow_add₀ (by norm_num)]
  have bits : (m : ℚ) ≤ 2 ^ 53 := by
    exact_mod_cast significandBound_eq ▸ normal.small.le
  have full : e ≠ minExponent → (2 ^ 52 : ℚ) ≤ m := by
    intro apart
    have twice := normal.full apart
    rw [significandBound_eq] at twice
    exact_mod_cast (show 2 ^ 52 ≤ m by omega)
  have leading : (2 : ℚ) ^ (52 + e) = 2 ^ 52 * 2 ^ e := by
    rw [zpow_add₀ two_ne_zero]
    rfl
  -- the grid is finer than the last bit of the number
  have finer : (10 : ℚ) ^ q < 2 ^ e := by nlinarith
  rcases lt_or_ge ((low + 1) * 10 ^ q : ℚ) ((m + 1 / 2) * 2 ^ e) with near | far
  · right
    apply ofDecimal_of_near normal positive <;> push_cast
    · linarith
    · exact near
    · intro apart
      rw [leading]
      nlinarith [full apart]
  · left
    apply ofDecimal_of_near normal positive
    · linarith
    · linarith
    · intro apart
      have beyond : (2 ^ 52 + 1 : ℚ) ≤ m := by
        rcases eq_or_lt_of_le (full apart) with edge | past
        · -- with the least full significand the grid is finer than half the last bit
          rw [← edge] at step far below
          exfalso
          linarith
        · have whole : 2 ^ 52 < m := by exact_mod_cast past
          exact_mod_cast whole
      rw [leading]
      nlinarith

/-- The multiples of a power of ten around a quotient. -/
theorem grid_around (num den : Nat) (q : Int) :
    ((num * 10 ^ (-q).toNat / (den * 10 ^ q.toNat) : Nat) * 10 ^ q : ℚ) ≤ num / den ∧
      (num / den : ℚ) < ((num * 10 ^ (-q).toNat / (den * 10 ^ q.toNat) : Nat) + 1) * 10 ^ q := by
  have step : (0 : ℚ) < 10 ^ q := by positivity
  have quotient : (0 : ℚ) ≤ num / den / 10 ^ q := by positivity
  have scaled :
      ((num * 10 ^ (-q).toNat : Nat) / (den * 10 ^ q.toNat : Nat) : ℚ) = num / den / 10 ^ q := by
    have power := quotient_decimal 1 (-q)
    rw [Int.neg_neg, Nat.one_mul, Nat.cast_one, one_mul, zpow_neg] at power
    rw [Nat.cast_mul, Nat.cast_mul, mul_div_mul_comm, power, ← div_eq_mul_inv]
  rw [← Nat.floor_div_eq_div (K := ℚ), scaled, ← le_div_iff₀ step, ← div_lt_iff₀ step]
  exact ⟨Nat.floor_le quotient, Nat.lt_floor_add_one _⟩

/-- Where the leading digit of a number stands. -/
theorem leadingExponent_scaled (normal : IsNormal m e) (positive : 0 < m) :
    (10 : ℚ) ^ leadingExponent (m * 2 ^ e.toNat) (2 ^ (-e).toNat) ≤ m * 2 ^ e ∧
      (m * 2 ^ e : ℚ) < 10 ^ (leadingExponent (m * 2 ^ e.toNat) (2 ^ (-e).toNat) + 1) := by
  have low : (-e).toNat ≤ 1074 := by
    have least := normal.low
    rw [minExponent] at least
    omega
  have large : 2 ^ (-e).toNat ≤ m * 2 ^ e.toNat * 10 ^ 324 :=
    calc 2 ^ (-e).toNat ≤ 2 ^ 1074 := Nat.pow_le_pow_right (by decide) low
      _ ≤ 1 * 10 ^ 324 := by decide +kernel
      _ ≤ m * 2 ^ e.toNat * 10 ^ 324 :=
          Nat.mul_le_mul_right _ (Nat.mul_pos positive (Nat.two_pow_pos _))
  rw [← quotient_dyadic]
  exact leadingExponent_bounds (Nat.two_pow_pos _) large (by decide)

/-- **The search for the fewest digits ends on a grid** of at most seventeen of them. -/
theorem exists_grid (negative : Bool) (normal : IsNormal m e) (positive : 0 < m) :
    ∃ k < 17, decimalOnGrid (.finite negative m e) negative (m * 2 ^ e.toNat) (2 ^ (-e).toNat)
      (leadingExponent (m * 2 ^ e.toNat) (2 ^ (-e).toNat) - (k : Nat)) =
        some (shortest negative m e) := by
  obtain ⟨leading, -⟩ := leadingExponent_scaled normal positive
  unfold shortest
  rw [if_neg positive.ne', shortestFrom]
  simp only [Nat.pow_eq]
  generalize leadingExponent (m * 2 ^ e.toNat) (2 ^ (-e).toNat) = lead at leading ⊢
  have around := grid_around (m * 2 ^ e.toNat) (2 ^ (-e).toNat) (lead - 16)
  rw [quotient_dyadic] at around
  have fine : (10 : ℚ) ^ (16 + (lead - 16)) ≤ m * 2 ^ e := by rwa [add_sub_cancel]
  obtain ⟨last, finest⟩ := exists_decimalOnGrid rfl
    (exists_reads negative normal positive fine around.1 around.2)
  split
  · rename_i d found
    obtain ⟨k, member, grid⟩ := List.exists_of_findSome?_eq_some found
    exact ⟨k, List.mem_range.mp member, grid⟩
  · rename_i none
    have missed := List.findSome?_eq_none_iff.mp none 16 (List.mem_range.mpr (by decide))
    rw [Nat.cast_ofNat, finest] at missed
    cases missed

/-- **Seventeen digits at most.** -/
theorem shortest_digits_le (negative : Bool) (normal : IsNormal m e) (positive : 0 < m) :
    (shortest negative m e).digits ≤ 10 ^ 17 := by
  obtain ⟨k, few, grid⟩ := exists_grid negative normal positive
  obtain ⟨-, above⟩ := leadingExponent_scaled normal positive
  obtain ⟨-, bound⟩ := decimalOnGrid_bounds grid
  generalize leadingExponent (m * 2 ^ e.toNat) (2 ^ (-e).toNat) = lead at above bound
  obtain ⟨below, -⟩ := grid_around (m * 2 ^ e.toNat) (2 ^ (-e).toNat) (lead - k)
  rw [quotient_dyadic] at below
  generalize m * 2 ^ e.toNat * 10 ^ (-(lead - k)).toNat / _ = low at below bound
  have less : (low : ℚ) < 10 ^ (k + 1) := by
    have step : (0 : ℚ) < 10 ^ (lead - k) := by positivity
    refine lt_of_mul_lt_mul_right (lt_of_le_of_lt below (lt_of_lt_of_eq above ?_)) step.le
    rw [← zpow_natCast, ← zpow_add₀ (by norm_num)]
    congr 1
    push_cast
    ring
  have less' : low < 10 ^ (k + 1) := by exact_mod_cast less
  calc (shortest negative m e).digits ≤ low + 1 := bound
    _ ≤ 10 ^ (k + 1) := less'
    _ ≤ 10 ^ 17 := Nat.pow_le_pow_right (by decide) few

end Seventeen

/-! ## Up to the greatest number -/

/-- The greatest finite number. -/
def greatest : Nat := (significandBound - 1) * 2 ^ 971

section Greatest

variable {negative : Bool} {m m' digits : Nat} {e e' q : Int}

theorem rounded_scaled (normal : IsNormal m e) :
    rounded (m * 2 ^ e.toNat) (2 ^ (-e).toNat) = m * 2 ^ e := by
  have positive : 0 < 2 ^ (-e).toNat := Nat.two_pow_pos _
  rcases ofRatio_cases false (m * 2 ^ e.toNat) positive with
    ⟨m', e', finite, value, -⟩ | ⟨past, -⟩
  · rw [ofRatio_scaled normal] at finite
    cases finite
    exact value.symm
  · rw [ofRatio_scaled normal] at past
    cases past

/-- What a decimal is read as is not below a number that the decimal is not below. -/
theorem le_of_ofDecimal (read : ofDecimal negative digits q = .finite negative m e)
    (normal : IsNormal m' e') (le : (m' * 2 ^ e' : ℚ) ≤ digits * 10 ^ q) :
    (m' * 2 ^ e' : ℚ) ≤ m * 2 ^ e := by
  have positive : 0 < 10 ^ (-q).toNat := Nat.pow_pos (by decide)
  rw [ofDecimal_eq_ofRatio] at read
  rcases ofRatio_cases negative (digits * 10 ^ q.toNat) positive with
    ⟨n, f, finite, same, -⟩ | ⟨past, -⟩
  · rw [read] at finite
    cases finite
    rw [same, ← rounded_scaled normal]
    refine rounded_mono (Nat.two_pow_pos _) positive ?_
    rw [quotient_dyadic, quotient_decimal]
    exact le
  · rw [read] at past
    cases past

theorem isNormal_greatest : IsNormal (significandBound - 1) 971 where
  small := by decide
  low := by decide
  high := by decide
  full := by decide

theorem greatest_lt : greatest < 10 ^ 309 := by decide +kernel

theorem lt_of_pow_le {n : Nat} (fits : 10 ^ n ≤ greatest) : n < 309 :=
  (pow_lt_pow_iff_right₀ (by decide)).mp (Nat.lt_of_le_of_lt fits greatest_lt)

theorem greatest_eq : (greatest : ℚ) = (significandBound - 1 : Nat) * 2 ^ (971 : Int) := by
  rw [greatest, Nat.cast_mul, Nat.cast_pow, Nat.cast_ofNat, zpow_ofNat]

/-- The greatest number is the only one that is not below it. -/
theorem eq_greatest (normal : IsNormal m e) (above : (greatest : ℚ) ≤ m * 2 ^ e) :
    m = significandBound - 1 ∧ e = 971 := by
  have bits : m ≤ significandBound - 1 := Nat.le_sub_one_of_lt normal.small
  have bits' : (m : ℚ) ≤ (significandBound - 1 : Nat) := by exact_mod_cast bits
  have most : (0 : ℚ) < (significandBound - 1 : Nat) := by exact_mod_cast (by decide)
  have high : e ≤ 971 := normal.high
  rw [greatest_eq] at above
  have top : e = 971 := by
    by_contra apart
    have less : (2 : ℚ) ^ e < 2 ^ (971 : Int) := zpow_lt_zpow_right₀ (by norm_num) (by omega)
    refine absurd above (not_le.mpr ?_)
    calc (m * 2 ^ e : ℚ) ≤ (significandBound - 1 : Nat) * 2 ^ e := by gcongr
      _ < (significandBound - 1 : Nat) * 2 ^ (971 : Int) := by gcongr
  subst top
  have enough : ((significandBound - 1 : Nat) : ℚ) ≤ m :=
    le_of_mul_le_mul_right above (by positivity)
  exact ⟨Nat.le_antisymm bits (by exact_mod_cast enough), rfl⟩

theorem shortest_greatest :
    ∀ negative, shortest negative (significandBound - 1) 971 = ⟨17976931348623157, 292⟩ := by
  decide +kernel

/-- **The fewest digits are not past the greatest number**, though they may be past the number
itself. -/
theorem shortest_le_greatest (negative : Bool) (normal : IsNormal m e) :
    ((shortest negative m e).digits * 10 ^ (shortest negative m e).exponent : ℚ) ≤ greatest := by
  by_contra past
  have above := (not_le.mp past).le
  rw [greatest_eq] at above
  have beyond := le_of_ofDecimal (ofDecimal_shortest negative normal) isNormal_greatest above
  rw [← greatest_eq] at beyond
  obtain ⟨rfl, rfl⟩ := eq_greatest normal beyond
  have fits : 17976931348623157 * 10 ^ 292 ≤ greatest := by decide +kernel
  have fits' : (17976931348623157 * 10 ^ (292 : Int) : ℚ) ≤ greatest := by exact_mod_cast fits
  rw [shortest_greatest negative] at past
  exact past fits'

end Greatest

/-! ## Scaled by one product -/

/-- Neither infinite nor no number. -/
def isFinite : Binary64 → Bool
  | .finite _ _ _ => true
  | _ => false

section Products

variable {num den num' den' V W E F : Nat}

/-- No quotient overflows below one that does not. -/
theorem finite_of_le (denominator : 0 < den) (denominator' : 0 < den')
    (le : (num / den : ℚ) ≤ num' / den') (finite : (ofRatio false num' den').isFinite) :
    ∃ m e, ofRatio false num den = .finite false m e ∧ (m * 2 ^ e : ℚ) = rounded num den := by
  rcases ofRatio_cases false num denominator with ⟨m, e, result, value, -⟩ | ⟨-, above⟩
  · exact ⟨m, e, result, value⟩
  · rcases ofRatio_cases false num' denominator' with ⟨-, -, -, -, below⟩ | ⟨past, -⟩
    · exact absurd (le_trans above (rounded_mono denominator denominator' le)) (not_le.mpr below)
    · rw [past] at finite
      cases finite

theorem ofDecimal_power (E : Nat) : ofDecimal false 1 E = ofRatio false (10 ^ E) 1 := by
  rw [ofDecimal_eq_ofRatio, Nat.one_mul, Int.toNat_natCast, Int.toNat_neg_natCast, Nat.pow_zero]

theorem isFinite_of_mul {x y : Binary64} (finite : (x.mul y).isFinite) : y.isFinite := by
  cases y with
  | finite => rfl
  | nan => cases x <;> cases finite
  | infinite negative =>
      cases x with
      | finite s m e =>
          simp only [mul] at finite
          split at finite <;> cases finite
      | _ => cases finite

/-- A product with a power of ten is finite if a greater one is. -/
theorem exists_mul_of_le (factor : V ≤ W) (small : W < 2 ^ 64) (power : E ≤ F)
    (finite : ((ofNat W).mul (ofDecimal false 1 F)).isFinite) :
    ∃ m e, (ofNat V).mul (ofDecimal false 1 E) = .finite false m e := by
  have factors : rounded V 1 ≤ rounded W 1 := by
    refine rounded_mono Nat.one_pos Nat.one_pos ?_
    gcongr
  have powers : ((10 ^ E : Nat) / (1 : Nat) : ℚ) ≤ (10 ^ F : Nat) / (1 : Nat) := by
    have grown : 10 ^ E ≤ 10 ^ F := Nat.pow_le_pow_right (by decide) power
    gcongr
  have power_finite := isFinite_of_mul finite
  rw [ofDecimal_power] at finite power_finite ⊢
  obtain ⟨m, e, result, value⟩ := finite_of_le Nat.one_pos Nat.one_pos powers power_finite
  obtain ⟨m', e', result', value'⟩ := finite_of_le Nat.one_pos Nat.one_pos le_rfl power_finite
  obtain ⟨num, den, positive, quotient, product⟩ :=
    exists_mul_eq_ofRatio (Nat.lt_of_le_of_lt factor small) m e
  obtain ⟨num', den', positive', quotient', product'⟩ := exists_mul_eq_ofRatio small m' e'
  rw [result', product'] at finite
  have products : (num / den : ℚ) ≤ num' / den' := by
    rw [quotient, quotient', value, value']
    exact mul_le_mul factors (rounded_mono Nat.one_pos Nat.one_pos powers) (rounded_nonneg _ _)
      (rounded_nonneg _ _)
  obtain ⟨k, f, whole, -⟩ := finite_of_le positive positive' products finite
  exact ⟨k, f, by rw [result, product, whole]⟩

/-- The most that seventeen digits can be in front of a power of ten. -/
theorem isFinite_products : ∀ k < 18,
    ((ofNat (min (10 ^ 17) (greatest / 10 ^ (291 + k)))).mul
      (ofDecimal false 1 (291 + k : Nat))).isFinite := by
  decide +kernel

/-- **Seventeen digits are scaled to a finite number** by one product, unless they stand for one
past the greatest number. -/
theorem exists_mul_power (few : V ≤ 10 ^ 17) (range : E ≤ 308) (fits : V * 10 ^ E ≤ greatest) :
    ∃ m e, (ofNat V).mul (ofDecimal false 1 E) = .finite false m e := by
  obtain ⟨k, last, reached⟩ : ∃ k < 18, max E 291 = 291 + k := ⟨max E 291 - 291, by omega, by omega⟩
  refine exists_mul_of_le ?_ ?_ (reached ▸ Nat.le_max_left E 291) (isFinite_products k last)
  · rw [← reached]
    apply Nat.le_min.mpr ⟨few, ?_⟩
    rcases Nat.le_total E 291 with low | high
    · rw [Nat.max_eq_right low]
      exact Nat.le_trans few (by decide +kernel)
    · rw [Nat.max_eq_left high]
      exact (Nat.le_div_iff_mul_le (Nat.pow_pos (by decide))).mpr fits
  · exact Nat.lt_of_le_of_lt (Nat.min_le_left _ _) (by decide)

end Products

end Dispatch.Binary64
