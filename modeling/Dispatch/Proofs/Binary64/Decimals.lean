import Dispatch.Binary64.Decimal
import Dispatch.Proofs.Binary64.Rounding
import Dispatch.Proofs.Numerals

/-!
# Decimal text reads back

The digits that `shortest` finds are rounded to the number they were found for
(`ofDecimal_shortest`): either the search tried that, or they are all the digits there are. A
number written with a point falls into digits before and behind it that stand for the number
(`write_pointed`), however far the point is from the digits that were found.
-/

set_option autoImplicit false

namespace Dispatch

open Numeral (Digits value)

namespace Binary64

variable {negative : Bool} {m : Nat} {e : Int}

/-- All digits of a number stand for it. -/
theorem ofDecimal_exactDecimal (normal : IsNormal m e) :
    ofDecimal negative (exactDecimal m e).digits (exactDecimal m e).exponent =
      .finite negative m e := by
  rw [← ofRatio_scaled normal, ofDecimal_eq_ofRatio]
  refine ofRatio_congr (Nat.pow_pos (by decide)) (Nat.two_pow_pos _) ?_
  unfold exactDecimal
  split
  · rename_i whole
    have none : (-e).toNat = 0 := by omega
    simp [none]
  · rename_i fraction
    have none : e.toNat = 0 := by omega
    have tens : 5 ^ (-e).toNat * 2 ^ (-e).toNat = 10 ^ (-e).toNat := (Nat.mul_pow 5 2 _).symm
    rw [none, Nat.pow_zero, Nat.pow_zero, Nat.mul_one, Nat.mul_one, Nat.pow_eq, Nat.mul_assoc, tens]

/-- **The fewest digits of a number stand for it.** -/
theorem ofDecimal_shortest (negative : Bool) (normal : IsNormal m e) :
    ofDecimal negative (shortest negative m e).digits (shortest negative m e).exponent =
      .finite negative m e := by
  unfold shortest
  split
  · rename_i none
    subst none
    rw [normal.exponent_of_zero]
    rfl
  · unfold shortestFrom
    dsimp only
    split
    · rename_i d found
      obtain ⟨k, -, grid⟩ := List.exists_of_findSome?_eq_some found
      exact ofDecimal_of_decimalOnGrid grid
    · exact ofDecimal_exactDecimal normal

end Binary64

namespace FloatStyle

variable {negative : Bool} {x : Binary64} {m : Nat} {e : Int}

/-- Digits before and behind a point that together stand for `x`. -/
structure Spells (negative : Bool) (x : Binary64) (whole fraction : List Char) : Prop where
  wholeDigits : Digits whole
  fractionDigits : Digits fraction
  wholeSome : whole ≠ []
  fractionSome : fraction ≠ []
  alone : whole = ['0'] ∨ whole.head? ≠ some '0'
  stands : Binary64.ofDecimal negative (value (whole ++ fraction)) (-fraction.length) = x

theorem digits_zeros (n : Nat) : Digits (zeros n) := by
  intro c member
  rw [List.eq_of_mem_replicate member]
  rfl

theorem value_zeros_append (n : Nat) (cs : List Char) : value (zeros n ++ cs) = value cs := by
  rw [value, Nat.ofDigitChars_append, zeros, Nat.ofDigitChars_replicate_zero, Nat.mul_zero]
  rfl

theorem value_append_zeros (cs : List Char) (n : Nat) :
    value (cs ++ zeros n) = value cs * 10 ^ n := by
  rw [value, Nat.ofDigitChars_append, zeros, Nat.ofDigitChars_replicate_zero, Nat.mul_comm]
  rfl

/-- What is left out behind the significant digits are zeros. -/
theorem exists_write_eq (n : Nat) : ∃ k, Numeral.write n = significantDigits n ++ zeros k := by
  let split := (Numeral.write n).reverse
  have zero : ∀ c ∈ split.takeWhile (· = '0'), c = '0' := fun c member =>
    of_decide_eq_true (List.all_eq_true.mp List.all_takeWhile c member)
  refine ⟨(split.takeWhile (· = '0')).length, ?_⟩
  calc Numeral.write n
      = (split.takeWhile (· = '0') ++ split.dropWhile (· = '0')).reverse := by
        rw [List.takeWhile_append_dropWhile, List.reverse_reverse]
    _ = significantDigits n ++ (split.takeWhile (· = '0')).reverse := List.reverse_append
    _ = significantDigits n ++ zeros _ := by
        rw [List.eq_replicate_of_mem zero, List.reverse_replicate, List.length_replicate, zeros]

section SignificantDigits

variable {n : Nat}

theorem value_significantDigits {k : Nat}
    (scaled : Numeral.write n = significantDigits n ++ zeros k) :
    value (significantDigits n) * 10 ^ k = n := by
  rw [← value_append_zeros, ← scaled, Numeral.value_write]

theorem digits_significantDigits (n : Nat) : Digits (significantDigits n) := by
  obtain ⟨k, scaled⟩ := exists_write_eq n
  exact (Numeral.digits_append.mp (scaled ▸ Numeral.digits_write n)).1

theorem significantDigits_ne_nil (positive : 0 < n) : significantDigits n ≠ [] := by
  intro empty
  obtain ⟨k, scaled⟩ := exists_write_eq n
  have whole := value_significantDigits scaled
  rw [empty, value, Nat.ofDigitChars_nil, Nat.zero_mul] at whole
  exact positive.ne whole

theorem head?_significantDigits (positive : 0 < n) : (significantDigits n).head? ≠ some '0' := by
  obtain ⟨k, scaled⟩ := exists_write_eq n
  have head := Numeral.head?_write positive
  rwa [scaled, List.head?_append_of_ne_nil _ (significantDigits_ne_nil positive)] at head

end SignificantDigits

section PlacePoint

variable {digits : List Char} {place : Int} (only : Digits digits) (some : digits ≠ [])
  (stands : Binary64.ofDecimal negative (value digits) place = x)
include only some stands

/-- The point stands in front of the digits, with zeros between. -/
theorem spells_in_front (low : digits.length + place ≤ 0) :
    Spells negative x ['0'] (zeros (-(digits.length + place)).toNat ++ digits) where
  wholeDigits := List.forall_mem_singleton.mpr rfl
  fractionDigits := Numeral.digits_append.mpr ⟨digits_zeros _, only⟩
  wholeSome := List.cons_ne_nil _ _
  fractionSome := List.append_ne_nil_of_right_ne_nil _ some
  alone := .inl rfl
  stands := by
    have same : value (zeros 1 ++ (zeros (-(digits.length + place)).toNat ++ digits)) =
        value digits := by
      rw [value_zeros_append, value_zeros_append]
    rw [← stands, ← same, List.length_append, zeros, List.length_replicate]
    congr 1
    omega

variable (head : digits.head? ≠ .some '0')
include head

/-- The point stands behind the digits, with zeros between. -/
theorem spells_behind (high : (digits.length : Int) ≤ digits.length + place) :
    Spells negative x (digits ++ zeros ((digits.length + place).toNat - digits.length))
      ['0'] where
  wholeDigits := Numeral.digits_append.mpr ⟨only, digits_zeros _⟩
  fractionDigits := List.forall_mem_singleton.mpr rfl
  wholeSome := List.append_ne_nil_of_left_ne_nil some _
  fractionSome := List.cons_ne_nil _ _
  alone := .inr (by rwa [List.head?_append_of_ne_nil _ some])
  stands := by
    have more (k : Nat) : value (digits ++ zeros k ++ zeros 1) = value digits * 10 ^ (k + 1) := by
      rw [value_append_zeros, value_append_zeros, Nat.mul_assoc, ← Nat.pow_add]
    rw [← stands]
    refine (congrArg (Binary64.ofDecimal negative · _) (more _)).trans ?_
    rw [Binary64.ofDecimal_shift]
    congr 1
    rw [List.length_singleton]
    omega

omit some in
/-- The point stands among the digits. -/
theorem spells_among (low : 0 < digits.length + place)
    (high : digits.length + place < digits.length) :
    Spells negative x (digits.take (digits.length + place).toNat)
      (digits.drop (digits.length + place).toNat) where
  wholeDigits := fun c member => only c (List.mem_of_mem_take member)
  fractionDigits := fun c member => only c (List.mem_of_mem_drop member)
  wholeSome := by
    rw [← List.length_pos_iff, List.length_take]
    omega
  fractionSome := by
    rw [← List.length_pos_iff, List.length_drop]
    omega
  alone := .inr (by rwa [List.head?_take, if_neg (by omega)])
  stands := by
    rw [List.take_append_drop, ← stands, List.length_drop]
    congr 1
    omega

/-- Digits spell the same number wherever the point is put. -/
theorem spells_placePoint :
    ∃ whole fraction, Spells negative x whole fraction ∧
      whole.length ≤ max 1 (digits.length + place).toNat ∧
      placePoint true digits (digits.length + place) = whole ++ '.' :: fraction := by
  unfold placePoint
  dsimp only
  split
  · rename_i low
    exact ⟨_, _, spells_in_front only some stands low, Nat.le_max_left _ _, rfl⟩
  · rename_i low
    split
    · rename_i high
      refine ⟨_, _, spells_behind only some stands head high, ?_, ?_⟩
      · rw [List.length_append, zeros, List.length_replicate]
        omega
      · rw [if_pos rfl, List.append_assoc]
    · rename_i high
      refine ⟨_, _, spells_among only stands head (Int.not_le.mp low) (Int.not_le.mp high), ?_, rfl⟩
      rw [List.length_take]
      omega

end PlacePoint

theorem spells_zero (normal : Binary64.IsNormal 0 e) :
    Spells negative (.finite negative 0 e) ['0'] ['0'] where
  wholeDigits := List.forall_mem_singleton.mpr rfl
  fractionDigits := List.forall_mem_singleton.mpr rfl
  wholeSome := List.cons_ne_nil _ _
  fractionSome := List.cons_ne_nil _ _
  alone := .inl rfl
  stands := by
    rw [normal.exponent_of_zero]
    rfl

/-- The place of the leading digit of a decimal. -/
def leadOf (d : Decimal) : Int := (Numeral.write d.digits).length + d.exponent - 1

theorem shortest_digits_pos (negative : Bool) (normal : Binary64.IsNormal m e)
    (positive : 0 < m) : 0 < (Binary64.shortest negative m e).digits := by
  have stands := Binary64.ofDecimal_shortest negative normal
  rw [Nat.pos_iff_ne_zero]
  intro zero
  rw [zero] at stands
  cases stands
  exact positive.false

/-- **A number with a point spells itself**, in whatever style, and has no more digits before the
point than its leading digit asks for. -/
theorem magnitude_of_positional (style : FloatStyle) (keeps : style.keepsPoint = true)
    (negative : Bool) (normal : Binary64.IsNormal m e)
    (positional : m ≠ 0 → style.positional (leadOf (Binary64.shortest negative m e)) = true) :
    ∃ whole fraction, Spells negative (.finite negative m e) whole fraction ∧
      whole.length ≤ max 1 (leadOf (Binary64.shortest negative m e) + 1).toNat ∧
      style.magnitude negative m e = whole ++ '.' :: fraction := by
  unfold magnitude
  rw [keeps]
  by_cases none : m = 0
  · subst none
    exact ⟨['0'], ['0'], spells_zero normal, Nat.le_max_left _ _, rfl⟩
  · have stands := Binary64.ofDecimal_shortest negative normal
    have positive := shortest_digits_pos negative normal (Nat.pos_of_ne_zero none)
    have placed := positional none
    rw [leadOf] at placed ⊢
    rw [if_neg none]
    dsimp only
    rw [placed, if_pos rfl]
    generalize Binary64.shortest negative m e = d at stands positive ⊢
    obtain ⟨k, scaled⟩ := exists_write_eq d.digits
    have point : ((Numeral.write d.digits).length + d.exponent - 1 + 1 : Int) =
        (significantDigits d.digits).length + (d.exponent + k) := by
      rw [scaled, List.length_append, zeros, List.length_replicate]
      omega
    rw [← value_significantDigits scaled, Binary64.ofDecimal_shift] at stands
    rw [point]
    exact spells_placePoint (digits_significantDigits d.digits) (significantDigits_ne_nil positive)
      stands (head?_significantDigits positive)

theorem write_pointed (negative : Bool) (normal : Binary64.IsNormal m e) :
    ∃ whole fraction, Spells negative (.finite negative m e) whole fraction ∧
      pointed.write (.finite negative m e) =
        (if negative then ['-'] else []) ++ (whole ++ '.' :: fraction) := by
  obtain ⟨whole, fraction, spells, -, text⟩ :=
    magnitude_of_positional pointed rfl negative normal fun _ => rfl
  exact ⟨whole, fraction, spells, congrArg _ text⟩

/-- Any other number is its significant digits and the place of the leading one. -/
theorem magnitude_of_scientific {style : FloatStyle} {negative : Bool} (some : m ≠ 0)
    (scientific : style.positional (leadOf (Binary64.shortest negative m e)) = false) :
    style.magnitude negative m e =
      FloatStyle.scientific style.exponentMark
        (significantDigits (Binary64.shortest negative m e).digits)
        (leadOf (Binary64.shortest negative m e)) := by
  rw [leadOf] at scientific ⊢
  simp only [magnitude, some, scientific, if_false, Bool.false_eq_true]

end FloatStyle

end Dispatch
