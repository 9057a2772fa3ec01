import Dispatch.Proofs.Binary64.Rounding
import Mathlib.Algebra.Order.Floor.Semifield

/-!
# Rounding keeps the order

A greater quotient is never rounded to a smaller number (`rounded_mono`): with the same exponent its
significand is no smaller, and with a greater exponent it has a full significand. So the whole part
of a product, held to a range, grows with each factor (`clampNat_mul_mono`). Whole numbers are
rounded to the nearest multiple of a power of two, their `grid` (`floor_rounded`), which up to
`2 ^ 53` leaves them as they are.
-/

set_option autoImplicit false

namespace Dispatch.Binary64

theorem clampNat_le (largest : Nat) (x : Binary64) : x.clampNat largest ≤ largest := by
  cases x with
  | nan => exact Nat.zero_le _
  | infinite negative =>
      cases negative with
      | false => exact Nat.le_refl _
      | true => exact Nat.zero_le _
  | finite negative m e =>
      cases negative with
      | false => exact Nat.min_le_right _ _
      | true => exact Nat.zero_le _

/-! ## Integers -/

theorem div_le_roundDiv (n d : Nat) : n / d ≤ roundDiv n d := by
  unfold roundDiv
  grind

theorem roundDiv_le_succ (n d : Nat) : roundDiv n d ≤ n / d + 1 := by
  unfold roundDiv
  grind

theorem roundDiv_one (n : Nat) : roundDiv n 1 = n := by
  have whole := roundDiv_mul (k := n) Nat.one_pos
  rwa [Nat.mul_one] at whole

theorem roundDiv_mono_left {n n' d : Nat} (le : n ≤ n') : roundDiv n d ≤ roundDiv n' d := by
  have quotients := Nat.div_le_div_right (c := d) le
  rcases Nat.eq_or_lt_of_le quotients with same | less
  · have rests : n % d ≤ n' % d := by
      have whole := Nat.div_add_mod n d
      have whole' := Nat.div_add_mod n' d
      rw [same] at whole
      omega
    simp only [roundDiv, same]
    grind
  · calc roundDiv n d ≤ n / d + 1 := roundDiv_le_succ n d
      _ ≤ n' / d := less
      _ ≤ roundDiv n' d := div_le_roundDiv n' d

theorem roundDiv_mono {n d n' d' : Nat} (positive : 0 < d) (positive' : 0 < d')
    (le : n * d' ≤ n' * d) : roundDiv n d ≤ roundDiv n' d' := by
  rw [← roundDiv_mul_left (n := n) positive', ← roundDiv_mul_left (n := n') positive,
    Nat.mul_comm d' n, Nat.mul_comm d n', Nat.mul_comm d d']
  exact roundDiv_mono_left le

/-! ## Quotients -/

/-- The number to which a quotient is rounded while its exponent is not too large. -/
def rounded (num den : Nat) : ℚ := significandFor num den * 2 ^ exponentFor num den

section Rounded

variable {num den num' den' : Nat}

theorem significandFor_zero (denominator : 0 < den) : significandFor 0 den = 0 := by
  rw [significandFor, scaleDown, Nat.zero_mul]
  exact roundDiv_eq_zero (scaleDown_pos 0 denominator _)

theorem rounded_zero (denominator : 0 < den) : rounded 0 den = 0 := by
  rw [rounded, significandFor_zero denominator, Nat.cast_zero, zero_mul]

theorem rounded_nonneg (num den : Nat) : 0 ≤ rounded num den := by
  unfold rounded
  positivity

theorem exponentFor_mono (numerator : 0 < num) (denominator : 0 < den) (denominator' : 0 < den')
    (le : (num / den : ℚ) ≤ num' / den') : exponentFor num den ≤ exponentFor num' den' := by
  have quotient : (0 : ℚ) < num / den := by positivity
  have numerator' : 0 < num' := by
    rw [Nat.pos_iff_ne_zero]
    rintro rfl
    rw [Nat.cast_zero, zero_div] at le
    exact absurd quotient (not_lt.mpr le)
  have leading := Int.log_mono_right (b := 2) quotient le
  rw [exponentFor_eq numerator denominator, exponentFor_eq numerator' denominator']
  omega

/-- With one exponent, the greater quotient has no smaller significand. -/
theorem significandFor_mono (denominator : 0 < den) (denominator' : 0 < den')
    (same : exponentFor num den = exponentFor num' den') (le : num * den' ≤ num' * den) :
    significandFor num den ≤ significandFor num' den' := by
  unfold significandFor
  rw [← same]
  refine roundDiv_mono (scaleDown_pos num denominator _) (scaleDown_pos num' denominator' _) ?_
  simp only [scaleDown]
  rw [Nat.mul_mul_mul_comm, Nat.mul_mul_mul_comm num']
  exact Nat.mul_le_mul_right _ le

/-- A number that is no subnormal one is at least the leading bit of a full significand. -/
theorem le_rounded (numerator : 0 < num) (denominator : 0 < den)
    (apart : exponentFor num den ≠ minExponent) :
    (2 : ℚ) ^ (52 + exponentFor num den) ≤ rounded num den := by
  have full := le_significandFor numerator denominator apart
  rw [significandBound_eq] at full
  have half : (2 : ℚ) ^ (52 : Int) ≤ significandFor num den := by
    have bits : 2 ^ 52 ≤ significandFor num den := by omega
    exact_mod_cast bits
  rw [rounded, zpow_add₀ two_ne_zero]
  gcongr

theorem rounded_le (numerator : 0 < num) (denominator : 0 < den) :
    rounded num den ≤ (2 : ℚ) ^ (53 + exponentFor num den) := by
  have bits := significandFor_le numerator denominator
  rw [significandBound_eq] at bits
  have below : (significandFor num den : ℚ) ≤ 2 ^ (53 : Int) := by exact_mod_cast bits
  rw [rounded, zpow_add₀ two_ne_zero]
  gcongr

/-- **A greater quotient is not rounded to a smaller number.** -/
theorem rounded_mono (denominator : 0 < den) (denominator' : 0 < den')
    (le : (num / den : ℚ) ≤ num' / den') : rounded num den ≤ rounded num' den' := by
  rcases Nat.eq_zero_or_pos num with rfl | numerator
  · rw [rounded_zero denominator]
    exact rounded_nonneg num' den'
  · have crossed : num * den' ≤ num' * den := by
      rw [div_le_div_iff₀ (by positivity) (by positivity)] at le
      exact_mod_cast le
    have numerator' : 0 < num' :=
      Nat.pos_of_mul_pos_right (Nat.lt_of_lt_of_le (Nat.mul_pos numerator denominator') crossed)
    rcases Int.lt_or_eq_of_le (exponentFor_mono numerator denominator denominator' le) with
      less | same
    · have low : minExponent ≤ exponentFor num den := by
        rw [exponentFor_eq numerator denominator]
        exact le_max_left _ _
      calc rounded num den ≤ 2 ^ (53 + exponentFor num den) := rounded_le numerator denominator
        _ ≤ 2 ^ (52 + exponentFor num' den') := zpow_le_zpow_right₀ (by norm_num) (by omega)
        _ ≤ rounded num' den' := le_rounded numerator' denominator' (by omega)
    · have significands := significandFor_mono denominator denominator' same crossed
      unfold rounded
      rw [same]
      gcongr

end Rounded

/-! ## Whole parts -/

theorem wholePart_eq (m : Nat) (e : Int) : wholePart m e = ⌊(m * 2 ^ e : ℚ)⌋₊ := by
  rw [← quotient_dyadic, Nat.floor_div_eq_div]
  rfl

section WholeParts

variable {num den largest : Nat}

theorem clampNat_bounded {m : Nat} {e : Int} (full : maxExponent < e → 2 ^ 52 ≤ m)
    (range : largest < 2 ^ 64) :
    (bounded false m e).clampNat largest = min ⌊(m * 2 ^ e : ℚ)⌋₊ largest := by
  unfold bounded
  split
  · rename_i large
    have bits : (2 : ℚ) ^ (52 : Int) ≤ m := by exact_mod_cast full large
    have past : (largest : ℚ) ≤ m * 2 ^ e := by
      have exponent : (2 : ℚ) ^ (12 : Int) ≤ 2 ^ e :=
        zpow_le_zpow_right₀ (by norm_num) (by rw [maxExponent] at large; omega)
      calc (largest : ℚ) ≤ 2 ^ (64 : Int) := by exact_mod_cast range.le
        _ = 2 ^ (52 : Int) * 2 ^ (12 : Int) := by rw [← zpow_add₀ two_ne_zero]; rfl
        _ ≤ m * 2 ^ e := mul_le_mul bits exponent (by positivity) (by positivity)
    rw [Nat.min_eq_right (Nat.le_floor past)]
    rfl
  · rw [← wholePart_eq]
    rfl

/-- Halving a significand that carried does not change the number. -/
theorem half_carried {m : Nat} (carry : m = significandBound) (e : Int) :
    ((m / 2 : Nat) * 2 ^ (e + 1) : ℚ) = m * 2 ^ e := by
  have half : (m : ℚ) = (m / 2 : Nat) * 2 := by
    rw [carry]
    norm_num [significandBound]
  rw [zpow_add_one₀ two_ne_zero, half]
  ring

/-- **The whole part of a rounded quotient**, held to a range, is that of the rounded number. -/
theorem clampNat_ofRatio (denominator : 0 < den) (range : largest < 2 ^ 64) :
    (ofRatio false num den).clampNat largest = min ⌊rounded num den⌋₊ largest := by
  rcases Nat.eq_zero_or_pos num with rfl | numerator
  · rw [ofRatio_zero, rounded_zero denominator]
    simp [zero, clampNat, wholePart]
  · have full := le_significandFor numerator denominator
    rw [significandBound_eq] at full
    rw [ofRatio_of_pos numerator, carried]
    split
    · rename_i carry
      have enough : 2 ^ 52 ≤ significandFor num den / 2 := by
        rw [carry]
        decide
      rw [clampNat_bounded (fun _ => enough) range, half_carried carry]
      rfl
    · refine clampNat_bounded (fun large => ?_) range
      have apart : exponentFor num den ≠ minExponent := by
        rintro least
        rw [least] at large
        exact absurd large (by decide)
      have twice := full apart
      omega

theorem clampNat_ofRatio_negative (num den largest : Nat) :
    (ofRatio true num den).clampNat largest = 0 := by
  rcases Nat.eq_zero_or_pos num with rfl | numerator
  · rw [ofRatio_zero]
    rfl
  · rw [ofRatio_of_pos numerator, carried, bounded, bounded]
    split_ifs <;> rfl

/-- **A quotient is what it is rounded to**, unless that is past the greatest number. -/
theorem ofRatio_cases (negative : Bool) (num : Nat) (denominator : 0 < den) :
    (∃ m e, ofRatio negative num den = .finite negative m e ∧ (m * 2 ^ e : ℚ) = rounded num den ∧
      rounded num den < 2 ^ (1024 : Int)) ∨
    ofRatio negative num den = .infinite negative ∧ (2 : ℚ) ^ (1024 : Int) ≤ rounded num den := by
  rcases Nat.eq_zero_or_pos num with rfl | numerator
  · refine .inl ⟨0, minExponent, ofRatio_zero, ?_, ?_⟩
    · rw [rounded_zero denominator, Nat.cast_zero, zero_mul]
    · rw [rounded_zero denominator]
      positivity
  have below := rounded_le numerator denominator
  have small := significandFor_le numerator denominator
  rw [ofRatio_of_pos numerator, carried, bounded, bounded]
  split
  · rename_i carry
    have value : rounded num den = (2 : ℚ) ^ (53 + exponentFor num den) := by
      rw [rounded, carry, significandBound_eq, zpow_add₀ two_ne_zero]
      norm_cast
    split
    · rename_i large
      refine .inr ⟨rfl, ?_⟩
      rw [value]
      exact zpow_le_zpow_right₀ (by norm_num) (by rw [maxExponent] at large; omega)
    · rename_i fits
      refine .inl ⟨_, _, rfl, half_carried carry _, ?_⟩
      rw [value]
      exact zpow_lt_zpow_right₀ (by norm_num) (by rw [maxExponent] at fits; omega)
  · rename_i kept
    split
    · rename_i large
      have apart : exponentFor num den ≠ minExponent := by
        rintro least
        rw [least] at large
        exact absurd large (by decide)
      have above := le_rounded numerator denominator apart
      refine .inr ⟨rfl, le_trans ?_ above⟩
      exact zpow_le_zpow_right₀ (by norm_num) (by rw [maxExponent] at large; omega)
    · rename_i fits
      refine .inl ⟨_, _, rfl, rfl, ?_⟩
      have bits : (significandFor num den : ℚ) < 2 ^ (53 : Int) := by
        have less := Nat.lt_of_le_of_ne small kept
        rw [significandBound_eq] at less
        exact_mod_cast less
      calc rounded num den < 2 ^ (53 : Int) * 2 ^ exponentFor num den := by
            unfold rounded
            gcongr
        _ = 2 ^ (53 + exponentFor num den) := (zpow_add₀ two_ne_zero _ _).symm
        _ ≤ 2 ^ (1024 : Int) :=
            zpow_le_zpow_right₀ (by norm_num) (by rw [maxExponent] at fits; omega)

/-- Numbers in range are finite, and are what they were rounded to. -/
theorem ofRatio_of_lt (negative : Bool) (denominator : 0 < den)
    (range : (num / den : ℚ) < 2 ^ (64 : Int)) :
    ∃ m e, ofRatio negative num den = .finite negative m e ∧ (m * 2 ^ e : ℚ) = rounded num den := by
  rcases ofRatio_cases negative num denominator with ⟨m, e, finite, value, -⟩ | ⟨-, past⟩
  · exact ⟨m, e, finite, value⟩
  · exfalso
    rcases Nat.eq_zero_or_pos num with rfl | numerator
    · rw [rounded_zero denominator] at past
      exact absurd past (not_le.mpr (by positivity))
    · have quotient : (0 : ℚ) < num / den := by positivity
      rw [lt_zpow_iff quotient] at range
      have above := le_trans past (rounded_le numerator denominator)
      rw [zpow_le_zpow_iff_right₀ (by norm_num), exponentFor_eq numerator denominator,
        minExponent] at above
      omega

end WholeParts

/-! ## Products with a whole number -/

/-- A 64-bit whole number is finite, and is what it was rounded to. -/
theorem exists_ofNat {n : Nat} (small : n < 2 ^ 64) :
    ∃ k f, ofNat n = .finite false k f ∧ (k * 2 ^ f : ℚ) = rounded n 1 := by
  refine ofRatio_of_lt false Nat.one_pos ?_
  rw [Nat.cast_one, div_one]
  exact_mod_cast small

/-- The product with a number that is not negative is one quotient, rounded once. -/
theorem exists_mul_eq_ofRatio {n : Nat} (small : n < 2 ^ 64) (m : Nat) (e : Int) :
    ∃ num den : Nat, 0 < den ∧ (num / den : ℚ) = rounded n 1 * (m * 2 ^ e) ∧
      (ofNat n).mul (.finite false m e) = ofRatio false num den := by
  obtain ⟨k, f, whole, value⟩ := exists_ofNat small
  have positive : 0 < Nat.pow 2 (-(f + e)).toNat := Nat.two_pow_pos _
  refine ⟨k * m * Nat.pow 2 (f + e).toNat, Nat.pow 2 (-(f + e)).toNat, positive, ?_, ?_⟩
  · have product :
        ((k * m * Nat.pow 2 (f + e).toNat : Nat) / (Nat.pow 2 (-(f + e)).toNat : Nat) : ℚ) =
          (k * m : Nat) * 2 ^ (f + e) := quotient_dyadic (k * m) (f + e)
    rw [product, ← value, zpow_add₀ two_ne_zero]
    push_cast
    ring
  · rw [whole, mul, ofScaled, Bool.false_xor]

theorem exists_clampNat_mul {n largest : Nat} (small : n < 2 ^ 64) (range : largest < 2 ^ 64)
    (m : Nat) (e : Int) :
    ∃ num den : Nat, 0 < den ∧ (num / den : ℚ) = rounded n 1 * (m * 2 ^ e) ∧
      ((ofNat n).mul (.finite false m e)).clampNat largest =
        min ⌊rounded num den⌋₊ largest := by
  obtain ⟨num, den, positive, value, product⟩ := exists_mul_eq_ofRatio small m e
  exact ⟨num, den, positive, value, by rw [product, clampNat_ofRatio positive range]⟩

theorem clampNat_mul_negative {n : Nat} (small : n < 2 ^ 64) (largest m : Nat) (e : Int) :
    ((ofNat n).mul (.finite true m e)).clampNat largest = 0 := by
  obtain ⟨k, f, whole, -⟩ := exists_ofNat small
  rw [whole, mul, ofScaled, Bool.false_xor, clampNat_ofRatio_negative]

/-- **The whole part of a product grows with its factor**, held to a range. -/
theorem clampNat_mul_mono {a b largest : Nat} (le : a ≤ b) (small : b < 2 ^ 64)
    (range : largest < 2 ^ 64) (x : Binary64) :
    ((ofNat a).mul x).clampNat largest ≤ ((ofNat b).mul x).clampNat largest := by
  have small' : a < 2 ^ 64 := Nat.lt_of_le_of_lt le small
  have ordered : rounded a 1 ≤ rounded b 1 := by
    refine rounded_mono Nat.one_pos Nat.one_pos ?_
    gcongr
  cases x with
  | nan =>
      obtain ⟨k, f, first, -⟩ := exists_ofNat small'
      rw [first]
      exact Nat.zero_le _
  | infinite negative =>
      obtain ⟨k, f, first, value⟩ := exists_ofNat small'
      obtain ⟨k', f', second, value'⟩ := exists_ofNat small
      rw [← value, ← value'] at ordered
      rw [first, second]
      simp only [mul]
      by_cases none : k = 0
      · simp [none, clampNat]
      · have some' : k' ≠ 0 := by
          rintro rfl
          have positive : (0 : ℚ) < k * 2 ^ f := by positivity
          rw [Nat.cast_zero, zero_mul] at ordered
          exact absurd positive (not_lt.mpr ordered)
        rw [if_neg none, if_neg some']
  | finite negative m e =>
      cases negative with
      | true => rw [clampNat_mul_negative small', clampNat_mul_negative small]
      | false =>
          obtain ⟨num, den, positive, value, whole⟩ := exists_clampNat_mul small' range m e
          obtain ⟨num', den', positive', value', whole'⟩ := exists_clampNat_mul small range m e
          rw [whole, whole']
          refine min_le_min_right _ (Nat.floor_mono (rounded_mono positive positive' ?_))
          rw [value, value']
          gcongr

/-! ## Whole numbers -/

/-- The distance between neighbours among the binary64 numbers where `n` lies, not below one. -/
def grid (n : Nat) : Nat := 2 ^ (n.log2 - 52)

/-- The multiple of the grid nearest to a whole number; a tie goes to the even multiple. -/
def nearest (n : Nat) : Nat := roundDiv n (grid n) * grid n

theorem grid_pos (n : Nat) : 0 < grid n := Nat.two_pow_pos _

/-- **Whole numbers are rounded to the nearest multiple of their grid.** -/
theorem rounded_nat (n : Nat) : rounded n 1 = nearest n := by
  rcases Nat.eq_zero_or_pos n with rfl | positive
  · rw [rounded_zero Nat.one_pos, nearest, roundDiv_eq_zero (grid_pos 0), Nat.zero_mul,
      Nat.cast_zero]
  · have exponent : exponentFor n 1 = (n.log2 : Int) - 52 := by
      rw [exponentFor_eq positive Nat.one_pos, Nat.cast_one, div_one, Int.log_natCast,
        ← Nat.log2_eq_log_two, minExponent]
      omega
    rw [rounded, significandFor, exponent, nearest, grid]
    simp only [scaleDown]
    rcases Nat.le_total n.log2 52 with low | high
    · -- all bits fit: the grid is one, and nothing is rounded off
      obtain ⟨k, places⟩ := Nat.exists_eq_add_of_le low
      have down : (n.log2 : Int) - 52 = -(k : Int) := by omega
      have none : n.log2 - 52 = 0 := by omega
      rw [down, none, Int.neg_neg, Int.toNat_natCast, Int.toNat_neg_natCast, zpow_neg,
        zpow_natCast]
      show ((roundDiv (n * 2 ^ k) 1 : Nat) : ℚ) * (2 ^ k)⁻¹ = (roundDiv n 1 * 1 : Nat)
      rw [roundDiv_one, roundDiv_one, Nat.mul_one, Nat.cast_mul, Nat.cast_pow, Nat.cast_ofNat]
      field_simp
    · obtain ⟨k, places⟩ := Nat.exists_eq_add_of_le high
      have up : (n.log2 : Int) - 52 = k := by omega
      have bits : n.log2 - 52 = k := by omega
      rw [up, bits, Int.toNat_natCast, Int.toNat_neg_natCast, zpow_natCast]
      show ((roundDiv (n * 1) (1 * 2 ^ k) : Nat) : ℚ) * 2 ^ k = (roundDiv n (2 ^ k) * 2 ^ k : Nat)
      rw [Nat.mul_one, Nat.one_mul]
      push_cast
      rfl

/-- A whole number is a binary64 number exactly if it is a multiple of its grid. -/
theorem nearest_eq_self_iff (n : Nat) : nearest n = n ↔ grid n ∣ n := by
  constructor
  · intro same
    have multiple : grid n ∣ nearest n := Nat.dvd_mul_left _ _
    rwa [same] at multiple
  · intro multiple
    have exact_quotient : n / grid n * grid n = n := Nat.div_mul_cancel multiple
    have quotient := roundDiv_mul (k := n / grid n) (grid_pos n)
    rw [exact_quotient] at quotient
    rw [nearest, quotient, exact_quotient]

/-- Rounding goes no further than half a grid. -/
theorem nearest_near (n : Nat) :
    2 * nearest n ≤ 2 * n + grid n ∧ 2 * n ≤ 2 * nearest n + grid n := by
  have whole := Nat.div_add_mod' n (grid n)
  have rest := Nat.mod_lt n (grid_pos n)
  have parity := Nat.mod_lt (n / grid n) Nat.two_pos
  unfold nearest roundDiv
  dsimp only
  split
  · omega
  · split
    · rcases Nat.mod_two_eq_zero_or_one (n / grid n) with even | odd
      · rw [even, Nat.add_zero]
        omega
      · rw [odd, Nat.add_one_mul (n / grid n)]
        omega
    · rw [Nat.add_one_mul (n / grid n)]
      omega

theorem grid_dvd_of_le {n : Nat} (le : n ≤ 2 ^ 53) : grid n ∣ n := by
  rcases Nat.eq_or_lt_of_le le with rfl | less
  · decide
  · have bits : n.log2 < 53 := by
      rcases Nat.eq_zero_or_pos n with rfl | positive
      · decide
      · exact (Nat.log2_lt positive.ne').mpr less
    have one : grid n = 1 := by
      rw [grid, Nat.sub_eq_zero_of_le (Nat.le_of_lt_succ bits), Nat.pow_zero]
    rw [one]
    exact Nat.one_dvd n

/-- Up to `2 ^ 53` a whole number is not rounded. -/
theorem rounded_of_le {n : Nat} (le : n ≤ 2 ^ 53) : rounded n 1 = n := by
  rw [rounded_nat, (nearest_eq_self_iff n).mpr (grid_dvd_of_le le)]

/-- A number of at most 53 bits keeps all of them, wherever its point stands. -/
theorem rounded_dyadic {c places : Nat} (small : c < 2 ^ 53) (fine : places ≤ 1074) :
    rounded c (2 ^ places) = c / 2 ^ places := by
  rcases Nat.eq_zero_or_pos c with rfl | positive
  · rw [rounded_zero (Nat.two_pow_pos _), Nat.cast_zero, zero_div]
  · have below : exponentFor c (2 ^ places) ≤ -(places : Int) := by
      have quotient : (0 : ℚ) < c / (2 ^ places : Nat) := by positivity
      have bits : (c / (2 ^ places : Nat) : ℚ) < 2 ^ ((53 : Int) - places) := by
        rw [zpow_sub₀ two_ne_zero, zpow_natCast, Nat.cast_pow, Nat.cast_ofNat]
        gcongr
        exact_mod_cast small
      rw [lt_zpow_iff quotient] at bits
      rw [exponentFor_eq positive (Nat.two_pow_pos _), minExponent]
      omega
    -- the exponent reaches down to the last bit, so that nothing is rounded off
    obtain ⟨spare, exponent⟩ : ∃ spare : Nat, exponentFor c (2 ^ places) = -(places + spare : Nat) :=
      ⟨(-(places : Int) - exponentFor c (2 ^ places)).toNat, by omega⟩
    have whole : c * 2 ^ (places + spare) = c * 2 ^ spare * 2 ^ places := by
      rw [Nat.pow_add, Nat.mul_assoc, Nat.mul_comm (2 ^ places)]
    have significand : significandFor c (2 ^ places) = c * 2 ^ spare := by
      rw [significandFor, exponent, scaleDown, Int.neg_neg, Int.toNat_natCast,
        Int.toNat_neg_natCast]
      show roundDiv (c * 2 ^ (places + spare)) (2 ^ places * 1) = _
      rw [Nat.mul_one, whole, roundDiv_mul (Nat.two_pow_pos _)]
    rw [rounded, significand, exponent, zpow_neg, zpow_natCast, pow_add]
    push_cast
    field_simp

/-! ## Times one -/

theorem one_eq : one = .finite false (2 ^ 52) (-52) := by decide

/-- **A rounded number times one is itself.** -/
theorem mul_one_of_rounded {x : Binary64} (rounded : x.IsRounded) : x.mul one = x := by
  rw [one_eq]
  cases x with
  | nan => rfl
  | infinite negative => cases negative <;> rfl
  | finite negative m e =>
      have same : m * 2 ^ 52 * 2 ^ (e - 52).toNat * 2 ^ (-e).toNat =
          m * 2 ^ e.toNat * 2 ^ (-(e - 52)).toNat := by
        rw [Nat.mul_assoc, Nat.mul_assoc, Nat.mul_assoc, ← Nat.pow_add, ← Nat.pow_add,
          ← Nat.pow_add]
        congr 2
        omega
      calc mul (.finite negative m e) (.finite false (2 ^ 52) (-52))
          = ofRatio negative (m * 2 ^ 52 * 2 ^ (e - 52).toNat) (2 ^ (-(e - 52)).toNat) := by
            rw [mul, Bool.xor_false]
            rfl
        _ = ofRatio negative (m * 2 ^ e.toNat) (2 ^ (-e).toNat) :=
            ofRatio_congr (Nat.two_pow_pos _) (Nat.two_pow_pos _) same
        _ = .finite negative m e := ofRatio_scaled rounded

end Dispatch.Binary64
