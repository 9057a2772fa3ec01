import Dispatch.Binary64
import Mathlib.Algebra.Order.Field.Power
import Mathlib.Data.Int.Log
import Mathlib.Data.Rat.Floor
import Mathlib.Tactic.Linarith
import Mathlib.Tactic.NormNum
import Mathlib.Tactic.Positivity
import Mathlib.Tactic.FieldSimp

/-!
# What rounding makes

`ofRatio` depends on the quotient alone (`ofRatio_congr`), makes rounded numbers only
(`isRounded_ofRatio`), and leaves those as they are (`ofRatio_scaled`). The exponent it picks is
that of the leading bit (`exponentFor_eq`); everything else follows from where the quotient then
lies. The bounds that `ofDecimal` puts on the number of digits change nothing: a quotient beyond
them is rounded to infinity or zero anyway (`ofDecimal_eq_ofRatio`).
-/

set_option autoImplicit false

namespace Dispatch.Binary64

/-! ## Rounded numbers -/

/-- A significand and an exponent in the one form that rounding gives to a number. -/
structure IsNormal (m : Nat) (e : Int) : Prop where
  small : m < significandBound
  low : minExponent ≤ e
  high : e ≤ maxExponent
  full : e ≠ minExponent → significandBound ≤ 2 * m

/-- A number in the form that rounding gives to it. -/
def IsRounded : Binary64 → Prop
  | .finite _ m e => IsNormal m e
  | _ => True

theorem IsNormal.exponent_of_zero {e : Int} (normal : IsNormal 0 e) : e = minExponent := by
  by_contra apart
  exact absurd (normal.full apart) (by decide)

theorem significandBound_eq : significandBound = 2 ^ 53 := by decide

theorem isRounded_zero (negative : Bool) : (zero negative).IsRounded where
  small := by decide
  low := by decide
  high := by decide
  full apart := absurd rfl apart

/-! ## Rounding a quotient of integers -/

section RoundDiv

variable {k n d : Nat}

theorem roundDiv_mul_left (positive : 0 < k) : roundDiv (k * n) (k * d) = roundDiv n d := by
  have less : 2 * (k * (n % d)) < k * d ↔ 2 * (n % d) < d := by
    rw [Nat.mul_left_comm]
    exact Nat.mul_lt_mul_left positive
  have same : 2 * (k * (n % d)) = k * d ↔ 2 * (n % d) = d := by
    rw [Nat.mul_left_comm]
    exact Nat.mul_right_inj positive.ne'
  simp only [roundDiv, Nat.mul_div_mul_left _ _ positive, Nat.mul_mod_mul_left, less, same]

theorem roundDiv_congr {n' d' : Nat} (positive : 0 < d) (positive' : 0 < d')
    (same : n * d' = n' * d) : roundDiv n d = roundDiv n' d' := by
  rw [← roundDiv_mul_left positive', ← roundDiv_mul_left (n := n') positive, Nat.mul_comm d' n,
    same, Nat.mul_comm n', Nat.mul_comm d']

theorem roundDiv_mul (positive : 0 < d) : roundDiv (k * d) d = k := by
  simp only [roundDiv, Nat.mul_mod_left, Nat.mul_div_cancel k positive, Nat.mul_zero, positive,
    if_true]

theorem roundDiv_le (positive : 0 < d) (bound : n ≤ k * d) : roundDiv n d ≤ k := by
  have whole := Nat.div_add_mod' n d
  have rest := Nat.mod_lt n positive
  have below : n / d ≤ k := Nat.div_le_of_le_mul (by rwa [Nat.mul_comm])
  -- rounding up needs a rest, and with the whole part `k` there is none
  have exact : n / d = k → n % d = 0 := by
    intro same
    rw [same] at whole
    omega
  unfold roundDiv
  grind

theorem le_roundDiv (positive : 0 < d) (bound : k * d ≤ n) : k ≤ roundDiv n d := by
  have below : k ≤ n / d := (Nat.le_div_iff_mul_le positive).mpr bound
  unfold roundDiv
  grind

theorem roundDiv_eq_zero (half : 2 * n < d) : roundDiv n d = 0 := by
  have small : n < d := by omega
  simp only [roundDiv, Nat.mod_eq_of_lt small, half, if_true, Nat.div_eq_of_lt small]

end RoundDiv

/-! ## The exponent -/

section Exponent

variable {num den : Nat} {e : Int}

theorem zpow_toNat (b : Nat) (positive : 0 < b) (e : Int) :
    ((b ^ e.toNat : Nat) : ℚ) = (b : ℚ) ^ e * ((b ^ (-e).toNat : Nat) : ℚ) := by
  have nonzero : (b : ℚ) ≠ 0 := Nat.cast_ne_zero.mpr positive.ne'
  rw [Nat.cast_pow, Nat.cast_pow, ← zpow_natCast, ← zpow_natCast, ← zpow_add₀ nonzero]
  congr 1
  omega

/-- A scaled integer as a quotient of integers. -/
theorem quotient_scaled (b : Nat) (positive : 0 < b) (n : Nat) (e : Int) :
    ((n * b ^ e.toNat : Nat) / (b ^ (-e).toNat : Nat) : ℚ) = n * (b : ℚ) ^ e := by
  have nonzero : ((b ^ (-e).toNat : Nat) : ℚ) ≠ 0 := by positivity
  rw [Nat.cast_mul, zpow_toNat b positive, ← mul_assoc, mul_div_cancel_right₀ _ nonzero]

theorem quotient_dyadic (m : Nat) (e : Int) :
    ((m * 2 ^ e.toNat : Nat) / (2 ^ (-e).toNat : Nat) : ℚ) = m * 2 ^ e :=
  quotient_scaled 2 (by decide) m e

theorem quotient_decimal (digits : Nat) (q : Int) :
    ((digits * 10 ^ q.toNat : Nat) / (10 ^ (-q).toNat : Nat) : ℚ) = digits * 10 ^ q :=
  quotient_scaled 10 (by decide) digits q

theorem quotient_scaleDown (num den : Nat) (e : Int) :
    ((scaleDown num den e).1 / (scaleDown num den e).2 : ℚ) = num / den / 2 ^ e := by
  have powers := zpow_toNat 2 (by decide) e
  have nonzero : ((2 ^ (-e).toNat : Nat) : ℚ) ≠ 0 := by positivity
  show ((num * 2 ^ (-e).toNat : Nat) / (den * 2 ^ e.toNat : Nat) : ℚ) = _
  rw [Nat.cast_mul, Nat.cast_mul, powers, ← mul_assoc, mul_div_mul_right _ _ nonzero, div_div]
  norm_cast

theorem scaleDown_pos (num : Nat) (positive : 0 < den) (e : Int) : 0 < (scaleDown num den e).2 :=
  Nat.mul_pos positive (Nat.pow_pos (by decide))

/-- A power of two is at most a quotient exactly if its exponent is at most that of the leading
bit. -/
theorem zpow_le_iff {q : ℚ} (positive : 0 < q) (k : Int) : (2 : ℚ) ^ k ≤ q ↔ k ≤ Int.log 2 q :=
  Int.zpow_le_iff_le_log Nat.one_lt_two positive

theorem lt_zpow_iff {q : ℚ} (positive : 0 < q) (k : Int) : q < (2 : ℚ) ^ k ↔ Int.log 2 q < k :=
  Int.lt_zpow_iff_log_lt Nat.one_lt_two positive

/-- Scaled down, a quotient has the bits of its own leading bit less the exponent. -/
theorem pow_le_scaleDown (numerator : 0 < num) (denominator : 0 < den) (k : Nat) (e : Int) :
    2 ^ k * (scaleDown num den e).2 ≤ (scaleDown num den e).1 ↔
      k + e ≤ Int.log 2 (num / den : ℚ) := by
  have below : (0 : ℚ) < (scaleDown num den e).2 :=
    Nat.cast_pos.mpr (scaleDown_pos num denominator e)
  have power : (0 : ℚ) < 2 ^ e := by positivity
  rw [← zpow_le_iff (by positivity), zpow_add₀ two_ne_zero, ← le_div_iff₀ power,
    ← quotient_scaleDown, le_div_iff₀ below]
  norm_cast

/-- The leading bit of a quotient stands where the difference of the lengths says, or one place
below. -/
theorem log_quotient (numerator : 0 < num) (denominator : 0 < den) :
    (num.log2 : Int) - den.log2 - 1 ≤ Int.log 2 (num / den : ℚ) ∧
      Int.log 2 (num / den : ℚ) ≤ (num.log2 : Int) - den.log2 := by
  have quotient : (0 : ℚ) < num / den := by positivity
  have numeratorBelow : (num : ℚ) < 2 ^ (num.log2 + 1) := by exact_mod_cast Nat.lt_log2_self
  have numeratorAbove : (2 : ℚ) ^ num.log2 ≤ num := by
    exact_mod_cast Nat.log2_self_le numerator.ne'
  have denominatorBelow : (den : ℚ) < 2 ^ (den.log2 + 1) := by exact_mod_cast Nat.lt_log2_self
  have denominatorAbove : (2 : ℚ) ^ den.log2 ≤ den := by
    exact_mod_cast Nat.log2_self_le denominator.ne'
  constructor
  · rw [← zpow_le_iff quotient]
    calc (2 : ℚ) ^ ((num.log2 : Int) - den.log2 - 1) = 2 ^ num.log2 / 2 ^ (den.log2 + 1) := by
          rw [sub_sub, zpow_sub₀ two_ne_zero]
          norm_cast
      _ ≤ num / den := by gcongr
  · rw [← Int.lt_add_one_iff, ← lt_zpow_iff quotient]
    calc (num / den : ℚ) < 2 ^ (num.log2 + 1) / 2 ^ den.log2 := by gcongr
      _ = 2 ^ ((num.log2 : Int) - den.log2 + 1) := by
          rw [sub_add_eq_add_sub, zpow_sub₀ two_ne_zero]
          norm_cast

/-- The exponent is that of the leading bit, fifty-two places down, or the least one. -/
theorem exponentFor_eq (numerator : 0 < num) (denominator : 0 < den) :
    exponentFor num den = max minExponent (Int.log 2 (num / den : ℚ) - 52) := by
  obtain ⟨low, high⟩ := log_quotient numerator denominator
  have leading := pow_le_scaleDown numerator denominator 53
  simp only [Nat.mul_comm (2 ^ 53)] at leading
  simp only [exponentFor, significandBound_eq, leading]
  split <;> congr 1 <;> omega

end Exponent

/-! ## Rounding to a number -/

/-- The rounded significand of a quotient, before a carry is taken over into the exponent. -/
def significandFor (num den : Nat) : Nat :=
  roundDiv (scaleDown num den (exponentFor num den)).1 (scaleDown num den (exponentFor num den)).2

/-- A number whose exponent may be too large. -/
def bounded (negative : Bool) (m : Nat) (e : Int) : Binary64 :=
  if maxExponent < e then .infinite negative else .finite negative m e

/-- A number whose significand may have carried. -/
def carried (negative : Bool) (m : Nat) (e : Int) : Binary64 :=
  if m = significandBound then bounded negative (m / 2) (e + 1) else bounded negative m e

section OfRatio

variable {negative : Bool} {num den : Nat}

theorem ofRatio_zero : ofRatio negative 0 den = zero negative := if_pos rfl

theorem ofRatio_of_pos (numerator : 0 < num) :
    ofRatio negative num den =
      carried negative (significandFor num den) (exponentFor num den) := by
  rw [ofRatio, if_neg numerator.ne', carried, significandFor]
  -- numbers become names step by step, since a comparison with them must not be computed
  generalize exponentFor num den = e
  generalize significandBound = bound
  unfold bounded
  generalize maxExponent = top
  extract_lets exponent
  generalize scaleDown num den e = scaled
  obtain ⟨n, d⟩ := scaled
  dsimp only
  by_cases carry : roundDiv n d = bound
  · rw [if_pos carry, if_pos carry]
  · rw [if_neg carry, if_neg carry]

/-- **Rounding depends on the quotient alone.** -/
theorem ofRatio_congr {num' den' : Nat} (positive : 0 < den) (positive' : 0 < den')
    (same : num * den' = num' * den) : ofRatio negative num den = ofRatio negative num' den' := by
  rcases Nat.eq_zero_or_pos num with rfl | numerator
  · obtain rfl : num' = 0 := by
      rw [Nat.zero_mul] at same
      exact (Nat.mul_eq_zero.mp same.symm).resolve_right positive.ne'
    rw [ofRatio_zero, ofRatio_zero]
  · have numerator' : 0 < num' := by
      rw [Nat.pos_iff_ne_zero]
      rintro rfl
      rw [Nat.zero_mul] at same
      exact (Nat.mul_pos numerator positive').ne' same
    have quotient : (num / den : ℚ) = num' / den' := by
      rw [div_eq_div_iff (by positivity) (by positivity)]
      exact_mod_cast same
    have exponent : exponentFor num den = exponentFor num' den' := by
      rw [exponentFor_eq numerator positive, exponentFor_eq numerator' positive', quotient]
    have significand : significandFor num den = significandFor num' den' := by
      unfold significandFor
      rw [exponent]
      refine roundDiv_congr (scaleDown_pos num positive _) (scaleDown_pos num' positive' _) ?_
      simp only [scaleDown]
      rw [Nat.mul_mul_mul_comm, same, Nat.mul_mul_mul_comm]
    rw [ofRatio_of_pos numerator, ofRatio_of_pos numerator', exponent, significand]

theorem significandFor_le (numerator : 0 < num) (denominator : 0 < den) :
    significandFor num den ≤ significandBound := by
  have exponent := exponentFor_eq numerator denominator
  refine roundDiv_le (scaleDown_pos num denominator _) (Nat.le_of_not_le fun above => ?_)
  rw [significandBound_eq, pow_le_scaleDown numerator denominator, exponent] at above
  omega

theorem le_significandFor (numerator : 0 < num) (denominator : 0 < den)
    (apart : exponentFor num den ≠ minExponent) :
    significandBound ≤ 2 * significandFor num den := by
  have exponent := exponentFor_eq numerator denominator
  have half : 2 ^ 52 ≤ significandFor num den := by
    refine le_roundDiv (scaleDown_pos num denominator _) ?_
    rw [pow_le_scaleDown numerator denominator]
    omega
  rw [significandBound_eq]
  omega

/-- **Rounding gives every number the one form.** -/
theorem isRounded_ofRatio (denominator : 0 < den) : (ofRatio negative num den).IsRounded := by
  rcases Nat.eq_zero_or_pos num with rfl | numerator
  · rw [ofRatio_zero]
    exact isRounded_zero negative
  · have low : minExponent ≤ exponentFor num den := by
      rw [exponentFor_eq numerator denominator]
      exact le_max_left _ _
    have full := le_significandFor numerator denominator
    have settled : ∀ {m : Nat} {e : Int}, m < significandBound → minExponent ≤ e →
        (e ≠ minExponent → significandBound ≤ 2 * m) → (bounded negative m e).IsRounded := by
      intro m e small low full
      unfold bounded
      split
      · exact trivial
      · exact ⟨small, low, Int.not_lt.mp ‹_›, full⟩
    rw [ofRatio_of_pos numerator, carried]
    split
    · rename_i carry
      rw [carry]
      exact settled (by decide) (Int.le_add_one low) fun _ => by decide
    · rename_i kept
      exact settled (Nat.lt_of_le_of_ne (significandFor_le numerator denominator) kept) low full

/-- The exponent of a number in that form is found again. -/
theorem exponentFor_scaled {m : Nat} {e : Int} (normal : IsNormal m e) (positive : 0 < m) :
    exponentFor (m * 2 ^ e.toNat) (2 ^ (-e).toNat) = e := by
  have value : (0 : ℚ) < m * 2 ^ e := by positivity
  have quotient := quotient_dyadic m e
  have low := normal.low
  have below : Int.log 2 (m * 2 ^ e : ℚ) < 53 + e := by
    have bits : (m : ℚ) < 2 ^ (53 : Int) := by exact_mod_cast significandBound_eq ▸ normal.small
    rw [← lt_zpow_iff value, zpow_add₀ two_ne_zero]
    gcongr
  have above : e ≠ minExponent → 52 + e ≤ Int.log 2 (m * 2 ^ e : ℚ) := by
    intro apart
    have half : 2 ^ 52 ≤ m := by
      have full := normal.full apart
      rw [significandBound_eq] at full
      omega
    have bits : (2 : ℚ) ^ (52 : Int) ≤ m := by exact_mod_cast half
    rw [← zpow_le_iff value, zpow_add₀ two_ne_zero]
    gcongr
  rw [exponentFor_eq (Nat.mul_pos positive (Nat.two_pow_pos _)) (Nat.two_pow_pos _), quotient]
  omega

/-- **A number in that form is rounded to itself.** -/
theorem ofRatio_scaled {m : Nat} {e : Int} (normal : IsNormal m e) :
    ofRatio negative (m * 2 ^ e.toNat) (2 ^ (-e).toNat) = .finite negative m e := by
  rcases Nat.eq_zero_or_pos m with rfl | positive
  · rw [Nat.zero_mul, ofRatio_zero, zero, normal.exponent_of_zero]
  · have exponent := exponentFor_scaled normal positive
    have significand : significandFor (m * 2 ^ e.toNat) (2 ^ (-e).toNat) = m := by
      have whole : m * 2 ^ e.toNat * 2 ^ (-e).toNat = m * (2 ^ (-e).toNat * 2 ^ e.toNat) := by
        rw [Nat.mul_assoc, Nat.mul_comm (2 ^ e.toNat)]
      rw [significandFor, exponent]
      show roundDiv (m * 2 ^ e.toNat * 2 ^ (-e).toNat) (2 ^ (-e).toNat * 2 ^ e.toNat) = m
      rw [whole, roundDiv_mul (Nat.mul_pos (Nat.two_pow_pos _) (Nat.two_pow_pos _))]
    rw [ofRatio_of_pos (Nat.mul_pos positive (Nat.two_pow_pos _)), exponent, significand, carried,
      if_neg (Nat.ne_of_lt normal.small), bounded, if_neg (Int.not_lt.mpr normal.high)]

/-- A quotient past the greatest number is rounded to infinity. -/
theorem ofRatio_of_large (numerator : 0 < num) (denominator : 0 < den)
    (large : (2 : ℚ) ^ (1024 : Int) ≤ num / den) :
    ofRatio negative num den = .infinite negative := by
  have quotient : (0 : ℚ) < num / den := by positivity
  rw [zpow_le_iff quotient] at large
  have exponent : maxExponent < exponentFor num den := by
    rw [exponentFor_eq numerator denominator, maxExponent]
    omega
  rw [ofRatio_of_pos numerator, carried, bounded, bounded, if_pos exponent,
    if_pos (Int.lt_trans exponent (Int.lt_add_one_of_le (Int.le_refl _))), ite_self]

/-- A quotient below half the least number is rounded to zero. -/
theorem ofRatio_of_small (numerator : 0 < num) (denominator : 0 < den)
    (small : (num / den : ℚ) < 2 ^ (-1075 : Int)) : ofRatio negative num den = zero negative := by
  have quotient : (0 : ℚ) < num / den := by positivity
  have exponent : exponentFor num den = minExponent := by
    rw [lt_zpow_iff quotient] at small
    rw [exponentFor_eq numerator denominator, minExponent]
    omega
  have significand : significandFor num den = 0 := by
    rw [significandFor, exponent]
    refine roundDiv_eq_zero ?_
    have below : (0 : ℚ) < (scaleDown num den minExponent).2 :=
      Nat.cast_pos.mpr (scaleDown_pos num denominator _)
    have half : (2 * (num / den / 2 ^ minExponent) : ℚ) < 1 := by
      have least : (2 : ℚ) ^ minExponent = 2 * 2 ^ (-1075 : Int) := by
        rw [minExponent, ← zpow_one_add₀ two_ne_zero]
        rfl
      rw [least, mul_div_assoc', mul_div_mul_left _ _ two_ne_zero, div_lt_one (by positivity)]
      exact small
    rw [← quotient_scaleDown, mul_div_assoc', div_lt_one below] at half
    exact_mod_cast half
  rw [ofRatio_of_pos numerator, exponent, significand, carried, if_neg (by decide), bounded,
    if_neg (by decide), zero]

end OfRatio

/-! ## Decimals -/

section OfDecimal

theorem lt_ten_pow_length (n : Nat) : n < 10 ^ (Nat.toDigits 10 n).length :=
  (Nat.length_toDigits_le_iff (by decide) Nat.length_toDigits_pos).mp (Nat.le_refl _)

theorem ten_pow_length_le {n : Nat} (positive : 0 < n) :
    10 ^ ((Nat.toDigits 10 n).length - 1) ≤ n := by
  rcases Nat.eq_zero_or_pos ((Nat.toDigits 10 n).length - 1) with none | some
  · rw [none]
    exact positive
  · by_contra below
    have shorter := (Nat.length_toDigits_le_iff (by decide) some).mpr (Nat.not_le.mp below)
    omega

/-- The four hundred places to which `ofDecimal` looks are past all numbers. -/
theorem two_pow_le_ten_pow : (2 : ℚ) ^ (1075 : Int) ≤ 10 ^ (400 : Int) := by
  calc (2 : ℚ) ^ (1075 : Int) = (2 ^ (43 : Int)) ^ (25 : Int) := by rw [← zpow_mul]; rfl
    _ ≤ (10 ^ (16 : Int)) ^ (25 : Int) :=
        zpow_le_zpow_left₀ (by norm_num) (by norm_num) (by norm_num)
    _ = 10 ^ (400 : Int) := by rw [← zpow_mul]; rfl

/-- More than four hundred places before the point are past the greatest number. -/
theorem le_of_places {digits : Nat} {exponent : Int} (positive : 0 < digits)
    (large : 400 < (Nat.toDigits 10 digits).length + exponent) :
    (2 : ℚ) ^ (1024 : Int) ≤ digits * 10 ^ exponent := by
  have above : ((10 ^ ((Nat.toDigits 10 digits).length - 1) : Nat) : ℚ) ≤ digits :=
    Nat.cast_le.mpr (ten_pow_length_le positive)
  calc (2 : ℚ) ^ (1024 : Int) ≤ 2 ^ (1075 : Int) :=
        zpow_le_zpow_right₀ (by norm_num) (by norm_num)
    _ ≤ 10 ^ (400 : Int) := two_pow_le_ten_pow
    _ ≤ 10 ^ ((((Nat.toDigits 10 digits).length - 1 : Nat) : Int) + exponent) :=
        zpow_le_zpow_right₀ (by norm_num) (by omega)
    _ = 10 ^ ((Nat.toDigits 10 digits).length - 1) * 10 ^ exponent := by
        rw [zpow_add₀ (by norm_num), zpow_natCast]
    _ ≤ digits * 10 ^ exponent := by
        gcongr
        exact_mod_cast above

/-- More than four hundred zeros behind the point are below half the least number. -/
theorem lt_of_places {digits : Nat} {exponent : Int}
    (small : (Nat.toDigits 10 digits).length + exponent < -400) :
    (digits * 10 ^ exponent : ℚ) < 2 ^ (-1075 : Int) := by
  have below : (digits : ℚ) < 10 ^ (Nat.toDigits 10 digits).length := by
    exact_mod_cast lt_ten_pow_length digits
  calc (digits * 10 ^ exponent : ℚ)
      < 10 ^ (Nat.toDigits 10 digits).length * 10 ^ exponent := by gcongr
    _ = 10 ^ (((Nat.toDigits 10 digits).length : Int) + exponent) := by
        rw [zpow_add₀ (by norm_num), zpow_natCast]
    _ ≤ 10 ^ (-400 : Int) := zpow_le_zpow_right₀ (by norm_num) (by omega)
    _ ≤ 2 ^ (-1075 : Int) := by
        rw [zpow_neg, zpow_neg]
        exact inv_anti₀ (by positivity) two_pow_le_ten_pow

/-- **The bounds on the number of digits change nothing**: what lies beyond them is rounded to
infinity or zero anyway. -/
theorem ofDecimal_eq_ofRatio (negative : Bool) (digits : Nat) (exponent : Int) :
    ofDecimal negative digits exponent =
      ofRatio negative (digits * 10 ^ exponent.toNat) (10 ^ (-exponent).toNat) := by
  rcases Nat.eq_zero_or_pos digits with rfl | positive
  · rw [Nat.zero_mul, ofRatio_zero]
    rfl
  · have numerator : 0 < digits * 10 ^ exponent.toNat :=
      Nat.mul_pos positive (Nat.pow_pos (by decide))
    have denominator : 0 < 10 ^ (-exponent).toNat := Nat.pow_pos (by decide)
    have quotient := quotient_decimal digits exponent
    simp only [ofDecimal, positive.ne', if_false]
    split
    · rename_i large
      exact (ofRatio_of_large numerator denominator (quotient ▸ le_of_places positive large)).symm
    · split
      · rename_i small
        exact (ofRatio_of_small numerator denominator (quotient ▸ lt_of_places small)).symm
      · rfl

theorem isRounded_ofDecimal (negative : Bool) (digits : Nat) (exponent : Int) :
    (ofDecimal negative digits exponent).IsRounded := by
  rw [ofDecimal_eq_ofRatio]
  exact isRounded_ofRatio (Nat.pow_pos (by decide))

/-- Zeros behind the digits count as so many places. -/
theorem ofDecimal_shift (negative : Bool) (digits k : Nat) (exponent : Int) :
    ofDecimal negative (digits * 10 ^ k) exponent = ofDecimal negative digits (exponent + k) := by
  rw [ofDecimal_eq_ofRatio, ofDecimal_eq_ofRatio]
  refine ofRatio_congr (Nat.pow_pos (by decide)) (Nat.pow_pos (by decide)) ?_
  rw [Nat.mul_assoc, Nat.mul_assoc, Nat.mul_assoc, ← Nat.pow_add, ← Nat.pow_add, ← Nat.pow_add]
  congr 2
  omega

end OfDecimal

end Dispatch.Binary64
