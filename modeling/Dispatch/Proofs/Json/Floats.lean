import Dispatch.Proofs.Binary64.Shortest
import Dispatch.Proofs.Json.Nodes

/-!
# Printed floats are read

The text of every finite number is read as a float (`exists_part_printFloat`), though not always as
the same one: the reader rounds the digits and then once more as it scales them. That the scaling
never leaves the range needs both bounds on the digits, since twenty of them can do so. What
becomes of the numbers of a value is `Value.reread`; integers of 64 bits are not changed
(`Integral.reread`), and the document of any value with finite numbers shows it with its numbers
reread (`ofText_print_of_writable`).
-/

set_option autoImplicit false

namespace Dispatch.Json

open Numeral (Digits)

/-! ## Digits -/

/-- Characters of ASCII as bytes. -/
def bytesOf (cs : List Char) : Bytes := cs.map fun c => c.toNat.toUInt8

/-- The values of digits. -/
def digitsOf (cs : List Char) : List Nat := (bytesOf cs).map digitValue

section Digits

variable {cs : List Char} {negative : Bool}

theorem isDigit_of_isDigit {c : Char} (digit : c.isDigit = true) :
    isDigit c.toNat.toUInt8 = true ∧ digitValue c.toNat.toUInt8 = c.toNat - '0'.toNat := by
  have range := Numeral.range_of_isDigit digit
  obtain ⟨d, small, same⟩ : ∃ d < 10, c.toNat = 0x30 + d := ⟨c.toNat - 0x30, by omega, by omega⟩
  rw [same]
  exact ⟨isDigit_toUInt8 d small,
    (digitValue_toUInt8 d small).trans (Nat.add_sub_cancel_left 0x30 d).symm⟩

theorem isDigit_bytesOf (only : Digits cs) : ∀ b ∈ bytesOf cs, isDigit b = true := by
  intro b member
  obtain ⟨c, inside, rfl⟩ := List.mem_map.mp member
  exact (isDigit_of_isDigit (only c inside)).1

theorem digitsOf_cons {c : Char} (digit : c.isDigit = true) (cs : List Char) :
    digitsOf (c :: cs) = (c.toNat - '0'.toNat) :: digitsOf cs := by
  rw [digitsOf, bytesOf, List.map_cons, List.map_cons, (isDigit_of_isDigit digit).2]
  rfl

/-- Digits that do not begin with a zero, unless it stands alone. -/
theorem digitsOf_plain (only : Digits cs) (some : cs ≠ [])
    (alone : cs = ['0'] ∨ cs.head? ≠ .some '0') :
    digitsOf cs = [0] ∨ ∃ d more, digitsOf cs = (d + 1) :: more := by
  rcases alone with rfl | other
  · exact .inl rfl
  · obtain _ | ⟨c, cs⟩ := cs
    · exact absurd rfl some
    have digit := only c List.mem_cons_self
    have range := Numeral.range_of_isDigit digit
    have nonzero : c.toNat ≠ 48 := fun zero =>
      other (congrArg Option.some (Char.toNat_inj.mp zero))
    refine .inr ⟨c.toNat - 49, digitsOf cs, ?_⟩
    rw [digitsOf_cons digit]
    congr 1
    show c.toNat - 48 = _
    omega

/-- As long as digits fit a word, they are taken in before the point as they are. -/
theorem foldl_pushWhole (only : Digits cs) {value : Nat}
    (fits : Nat.ofDigitChars 10 cs value ≤ Numeral.maxWord64) :
    (digitsOf cs).foldl Significand.pushWhole ⟨value, 0, false⟩ =
      ⟨Nat.ofDigitChars 10 cs value, 0, false⟩ := by
  induction cs generalizing value with
  | nil => rfl
  | cons c cs ih =>
      obtain ⟨digit, others⟩ := List.forall_mem_cons.mp only
      rw [Nat.ofDigitChars_cons, Nat.mul_comm] at fits ⊢
      have step := Nat.le_trans (Numeral.le_ofDigitChars cs _) fits
      rw [digitsOf_cons digit, List.foldl_cons, pushWhole_of_fits step, ih others fits]

/-- As long as digits fit a word, they are taken in behind the point as they are. -/
theorem foldl_pushFraction (only : Digits cs) {value : Nat} {exponent : Int}
    (fits : Nat.ofDigitChars 10 cs value ≤ Numeral.maxWord64) :
    (digitsOf cs).foldl Significand.pushFraction ⟨value, exponent, false⟩ =
      ⟨Nat.ofDigitChars 10 cs value, exponent - cs.length, false⟩ := by
  induction cs generalizing value exponent with
  | nil => simp [digitsOf, bytesOf]
  | cons c cs ih =>
      obtain ⟨digit, others⟩ := List.forall_mem_cons.mp only
      rw [Nat.ofDigitChars_cons, Nat.mul_comm] at fits ⊢
      have step := Nat.le_trans (Numeral.le_ofDigitChars cs _) fits
      have pushed : Significand.pushFraction ⟨value, exponent, false⟩ (c.toNat - '0'.toNat) =
          ⟨value * 10 + (c.toNat - '0'.toNat), exponent - 1, false⟩ := by
        rw [Significand.pushFraction, if_neg Bool.false_ne_true, if_pos step]
      rw [digitsOf_cons digit, List.foldl_cons, pushed, ih others fits, List.length_cons]
      congr 1
      omega

/-- Digits before and behind the point that fit a word. -/
theorem ofDigits_eq {whole fraction : List Char} (wholeDigits : Digits whole)
    (fractionDigits : Digits fraction)
    (fits : Numeral.value (whole ++ fraction) ≤ Numeral.maxWord64) :
    Significand.ofDigits (digitsOf whole) (digitsOf fraction) =
      ⟨Numeral.value (whole ++ fraction), -fraction.length, false⟩ := by
  rw [Numeral.value, Nat.ofDigitChars_append] at fits ⊢
  have before := Nat.le_trans (Numeral.le_ofDigitChars fraction _) fits
  rw [Significand.ofDigits, foldl_pushWhole wholeDigits before]
  dsimp only
  rw [foldl_pushFraction fractionDigits fits, Int.zero_sub]

/-- A word that is not scaled up. -/
structure Significand.Low (s : Significand) : Prop where
  word : s.value ≤ Numeral.maxWord64
  down : s.exponent ≤ 0

theorem Significand.Low.pushFraction {s : Significand} (low : s.Low) (d : Nat) :
    (s.pushFraction d).Low := by
  obtain ⟨word, down⟩ := low
  unfold Significand.pushFraction
  split_ifs with full fits
  · exact ⟨word, down⟩
  · exact ⟨fits, Int.le_of_lt (Int.sub_one_lt_of_le down)⟩
  · exact ⟨word, down⟩

/-- Where the digits before the point fit a word, those behind it do not scale it up. -/
theorem low_ofDigits {whole : List Char} (wholeDigits : Digits whole)
    (fits : Numeral.value whole ≤ Numeral.maxWord64) (fraction : List Nat) :
    (Significand.ofDigits (digitsOf whole) fraction).Low := by
  have start : Significand.Low ⟨Numeral.value whole, 0, false⟩ := ⟨fits, Int.le_refl 0⟩
  rw [Significand.ofDigits, foldl_pushWhole wholeDigits fits]
  dsimp only
  rw [← Numeral.value]
  generalize (⟨Numeral.value whole, 0, false⟩ : Significand) = s at start
  induction fraction generalizing s with
  | nil => exact start
  | cons d fraction ih => exact ih _ (start.pushFraction d)

end Digits

/-! ## Scaling -/

section Scaling

variable {negative : Bool} {s : Significand}

/-- Nothing that is not scaled up leaves the range. -/
theorem Significand.Low.scaled (low : s.Low) : ∃ x, scaleFloat? s.value s.exponent = some x := by
  unfold scaleFloat?
  dsimp only
  rcases Int.lt_or_eq_of_le low.down with less | zero
  · exact ⟨_, if_pos less⟩
  · have unit : Binary64.ofDecimal false 1 0 = .one := by decide
    have rounded : (Binary64.ofNat s.value).IsRounded := Binary64.isRounded_ofRatio Nat.one_pos
    obtain ⟨k, f, whole, -⟩ := Binary64.exists_ofNat (Nat.lt_succ_of_le low.word)
    rw [zero, unit, Binary64.mul_one_of_rounded rounded, whole]
    exact ⟨_, rfl⟩

/-- Seventeen digits that stand for no more than the greatest number do not leave the range. -/
theorem exists_scaled {value : Nat} {exponent : Int} (positive : 0 < value)
    (few : value ≤ 10 ^ 17) (fits : (value * 10 ^ exponent : ℚ) ≤ Binary64.greatest) :
    ∃ x, scaleFloat? value exponent = some x := by
  unfold scaleFloat?
  dsimp only
  rcases Int.lt_or_le exponent 0 with less | up
  · exact ⟨_, if_pos less⟩
  · obtain ⟨places, rfl⟩ := Int.eq_ofNat_of_zero_le up
    have whole : value * 10 ^ places ≤ Binary64.greatest := by exact_mod_cast fits
    have range : places < 309 :=
      Binary64.lt_of_pow_le (Nat.le_trans (Nat.le_mul_of_pos_left _ positive) whole)
    obtain ⟨m, e, product⟩ := Binary64.exists_mul_power few (Nat.le_of_lt_succ range) whole
    have inside : (places : Int) ≤ (greatestPower : Nat) :=
      Int.ofNat_le.mpr (Nat.le_of_lt_succ range)
    rw [if_neg (Int.not_lt.mpr up), if_pos inside, product]
    exact ⟨_, rfl⟩

theorem floatNumber_of_scaled {x : Binary64} {value : Nat} {exponent : Int}
    (scaled : scaleFloat? value exponent = some x) (left : Nat) :
    floatNumber negative value exponent left = .ok (.float (withSign negative x)) := by
  rw [floatNumber, scaled]

end Scaling

/-! ## Scanning -/

section Scanning

variable {negative : Bool} {s : Significand} {whole fraction : List Char}

theorem ends_with {mark : UInt8} (other : isDigit mark = false) (text : Bytes) :
    ∀ b ∈ (mark :: text : Bytes).head?, isDigit b = false := by
  rintro _ ⟨⟩
  exact other

/-- The digits of a fraction and what follows them. -/
theorem scanFraction_append (fractionDigits : Digits fraction) (some : fraction ≠ [])
    (before : List Nat) {rest : Bytes} (ends : ∀ b ∈ rest.head?, isDigit b = false) :
    scanFraction negative before (bytesOf fraction ++ rest) =
      scanBehindFraction negative (.ofDigits before (digitsOf fraction)) rest := by
  rw [scanFraction, spanDigits_append (isDigit_bytesOf fractionDigits) ends]
  obtain _ | ⟨c, fraction⟩ := fraction
  · exact absurd rfl some
  · rfl

/-- Behind its fraction a number may end. -/
theorem scanBehindFraction_end {x : Binary64} (scaled : scaleFloat? s.value s.exponent = some x)
    {rest : Bytes} (delimited : Delimited rest) :
    scanBehindFraction negative s rest = (.number (.ok (.float (withSign negative x))), rest) := by
  obtain _ | ⟨b, rest⟩ := rest
  · rw [scanBehindFraction, floatNumber_of_scaled scaled]
  · obtain ⟨-, -, mark⟩ := delimited b rfl
    rw [scanBehindFraction, mark, floatNumber_of_scaled scaled]
    rfl

/-- The digits of an exponent are read to their end. -/
theorem exponentValue_digitBytes {n : Nat} (small : n ≤ greatestExponent) :
    exponentValue 0 ((digitBytes n).map digitValue) = .ok n := by
  have general : ∀ (cs : List Char) (value : Nat), Digits cs →
      Nat.ofDigitChars 10 cs value ≤ greatestExponent →
      exponentValue value (digitsOf cs) = .ok (Nat.ofDigitChars 10 cs value) := by
    intro cs
    induction cs with
    | nil => exact fun _ _ _ => rfl
    | cons c cs ih =>
        intro value only fits
        obtain ⟨digit, others⟩ := List.forall_mem_cons.mp only
        rw [Nat.ofDigitChars_cons, Nat.mul_comm] at fits ⊢
        have step := Nat.le_trans (Numeral.le_ofDigitChars cs _) fits
        rw [digitsOf_cons digit, exponentValue, if_pos step, ih _ others fits]
  have value : Nat.ofDigitChars 10 (Numeral.write n) 0 = n := Numeral.value_write n
  have read := general (Numeral.write n) 0 (Numeral.digits_write n) (value.symm ▸ small)
  rw [value] at read
  exact read

/-- What is made of the digits of an exponent, from its sign on. -/
theorem scanExponent_signed (negative : Bool) (s : Significand) (down : Bool) (n : Nat)
    {rest : Bytes} (delimited : Delimited rest) :
    scanExponent negative s ((if down then 0x2D else 0x2B) :: (digitBytes n ++ rest)) =
      match exponentValue 0 ((digitBytes n).map digitValue) with
      | .ok n =>
        (.number (floatNumber negative s.value (s.exponent + (if down then -(n : Int) else n))
          rest.length), rest)
      | .error digitsLeft =>
        if s.value ≠ 0 ∧ !down then
          (.number (.error ⟨.numberOutOfRange, rest.length + digitsLeft⟩), rest)
        else (.number (.ok (.float (.zero negative))), rest) := by
  have digit := (spelledOut_digitBytes n).digit
  have span := spanDigits_append digit fun b head => (delimited b head).1
  have some := digitBytes_ne_nil n
  generalize digitBytes n = digits at digit span some ⊢
  obtain _ | ⟨b, more⟩ := digits
  · exact absurd rfl some
  have first : isDigit b = true := digit b List.mem_cons_self
  rw [List.cons_append] at span
  rw [List.map_cons] at span ⊢
  cases read : exponentValue 0 (digitValue b :: more.map digitValue) <;> cases down <;>
    simp [scanExponent, first, span, read]

/-- An exponent scales up as far as the range goes. -/
theorem scanExponent_up {x : Binary64} {n : Nat} (small : n ≤ greatestExponent)
    (scaled : scaleFloat? s.value (s.exponent + n) = some x) {rest : Bytes}
    (delimited : Delimited rest) :
    scanExponent negative s (0x2B :: (digitBytes n ++ rest)) =
      (.number (.ok (.float (withSign negative x))), rest) := by
  have signed := scanExponent_signed negative s false n delimited
  rw [exponentValue_digitBytes small] at signed
  refine signed.trans ?_
  dsimp only
  rw [if_neg Bool.false_ne_true, floatNumber_of_scaled scaled]

/-- However far an exponent scales down, a number remains. -/
theorem scanExponent_down (negative : Bool) (low : s.Low) (n : Nat) :
    ∃ x, ∀ rest, Delimited rest →
      scanExponent negative s (0x2D :: (digitBytes n ++ rest)) =
        (.number (.ok (.float x)), rest) := by
  cases read : exponentValue 0 ((digitBytes n).map digitValue) with
  | ok n' =>
      have further : Significand.Low ⟨s.value, s.exponent + -(n' : Int), s.full⟩ :=
        ⟨low.word, Int.add_nonpos low.down (Int.neg_nonpos_of_nonneg (Int.natCast_nonneg n'))⟩
      obtain ⟨x, scaled⟩ := further.scaled
      refine ⟨withSign negative x, fun rest delimited => ?_⟩
      have signed := scanExponent_signed negative s true n delimited
      rw [read] at signed
      refine signed.trans ?_
      dsimp only
      rw [if_pos rfl, floatNumber_of_scaled scaled]
  | error digitsLeft =>
      refine ⟨.zero negative, fun rest delimited => ?_⟩
      have signed := scanExponent_signed negative s true n delimited
      rw [read] at signed
      refine signed.trans ?_
      simp

end Scanning

/-! ## Texts of floats -/

section Texts

variable {negative : Bool} {m : Nat} {e : Int}

/-- A text that begins with a digit and is scanned as a float. -/
structure Scanned (negative : Bool) (text : List Char) (x : Binary64) : Prop where
  first : ∃ c cs, text = c :: cs ∧ c.isDigit = true
  scanned : ∀ rest, Delimited rest →
    scanNumber negative (bytesOf text ++ rest) = (.number (.ok (.float x)), rest)

/-- A number with a point is scanned as a float if no more than sixteen digits stand before it. -/
theorem exists_scanned_pointed {x : Binary64} {whole fraction : List Char}
    (spells : FloatStyle.Spells negative x whole fraction) (few : whole.length ≤ 16) :
    ∃ y, Scanned negative (whole ++ '.' :: fraction) y := by
  have fits : Numeral.value whole ≤ Numeral.maxWord64 :=
    calc Numeral.value whole ≤ 10 ^ whole.length :=
          Nat.le_of_lt (Numeral.value_lt spells.wholeDigits)
      _ ≤ 10 ^ 16 := Nat.pow_le_pow_right (by decide) few
      _ ≤ Numeral.maxWord64 := by decide
  obtain ⟨y, scaled⟩ := (low_ofDigits spells.wholeDigits fits (digitsOf fraction)).scaled
  refine ⟨withSign negative y, ?_, fun rest delimited => ?_⟩
  · obtain ⟨c, cs, rfl⟩ := List.exists_cons_of_ne_nil spells.wholeSome
    exact ⟨c, _, rfl, spells.wholeDigits c List.mem_cons_self⟩
  · have text : bytesOf (whole ++ '.' :: fraction) ++ rest =
        bytesOf whole ++ 0x2E :: (bytesOf fraction ++ rest) := by
      simp [bytesOf]
    rw [text, scanNumber_append negative (isDigit_bytesOf spells.wholeDigits)
      (digitsOf_plain spells.wholeDigits spells.wholeSome spells.alone) (ends_with rfl _)]
    show scanFraction negative (digitsOf whole) _ = _
    rw [scanFraction_append spells.fractionDigits spells.fractionSome _
      fun b head => (delimited b head).1, scanBehindFraction_end scaled delimited]

/-- A point behind the first digit, if there are others. -/
def pointBehindFirst : List Char → List Char
  | [] => []
  | d :: [] => [d]
  | d :: rest => d :: '.' :: rest

theorem exists_pointBehindFirst (d : Char) (more : List Char) :
    ∃ cs, pointBehindFirst (d :: more) = d :: cs := by
  cases more <;> exact ⟨_, rfl⟩

theorem scientific_eq (mark : String) (digits : List Char) (lead : Int) :
    FloatStyle.scientific mark digits lead =
      pointBehindFirst digits ++
        (if lead < 0 then 'e' :: '-' :: Numeral.write lead.natAbs
          else mark.toList ++ Numeral.write lead.natAbs) := by
  obtain _ | ⟨d, _ | ⟨c, more⟩⟩ := digits <;> rfl

/-- One digit before the point, any others behind it, and an exponent. -/
theorem scanNumber_scientific {d : Char} {more : List Char} (only : Digits (d :: more))
    (nonzero : d ≠ '0') (text : Bytes) :
    scanNumber negative (bytesOf (pointBehindFirst (d :: more)) ++ 0x65 :: text) =
      scanExponent negative (.ofDigits (digitsOf [d]) (digitsOf more)) text := by
  obtain ⟨digit, others⟩ := List.forall_mem_cons.mp only
  have lone : Digits [d] := List.forall_mem_singleton.mpr digit
  have plain := digitsOf_plain lone (List.cons_ne_nil d [])
    (.inr fun zero => nonzero (Option.some_inj.mp zero))
  obtain _ | ⟨c, more⟩ := more
  · exact scanNumber_append negative (isDigit_bytesOf lone) plain (ends_with rfl text)
  · have pointed : bytesOf (pointBehindFirst (d :: c :: more)) ++ 0x65 :: text =
        bytesOf [d] ++ 0x2E :: (bytesOf (c :: more) ++ 0x65 :: text) := by
      simp [pointBehindFirst, bytesOf]
    rw [pointed, scanNumber_append negative (isDigit_bytesOf lone) plain (ends_with rfl _)]
    show scanFraction negative (digitsOf [d]) _ = _
    rw [scanFraction_append others (List.cons_ne_nil c more) _ (ends_with rfl text)]
    rfl

/-- The place of the leading digit of a number is not past that of the greatest number. -/
theorem leadOf_lt {d : Decimal} (positive : 0 < d.digits)
    (fits : (d.digits * 10 ^ d.exponent : ℚ) ≤ Binary64.greatest) {n : Nat}
    (lead : FloatStyle.leadOf d = n) : n < 309 := by
  have some := List.length_pos_iff.mpr (Numeral.write_ne_nil d.digits)
  have least : ((10 ^ ((Numeral.write d.digits).length - 1) : Nat) : ℚ) ≤ d.digits :=
    Nat.cast_le.mpr (Binary64.ten_pow_length_le positive)
  have place : (n : Int) = ((Numeral.write d.digits).length - 1 : Nat) + d.exponent := by
    rw [← lead, FloatStyle.leadOf]
    omega
  have power : (10 ^ n : ℚ) ≤ Binary64.greatest :=
    calc (10 ^ n : ℚ) = 10 ^ ((Numeral.write d.digits).length - 1) * 10 ^ d.exponent := by
          rw [← zpow_natCast, place, zpow_add₀ (by norm_num), zpow_natCast]
      _ ≤ d.digits * 10 ^ d.exponent := by
          gcongr
          exact_mod_cast least
      _ ≤ Binary64.greatest := fits
  exact Binary64.lt_of_pow_le (by exact_mod_cast power)

section Scientific

variable {d : Char} {more : List Char} (only : Digits (d :: more)) (nonzero : d ≠ '0') {n : Nat}
include only nonzero

/-- A number far below one. -/
theorem exists_scanned_down :
    ∃ y, Scanned negative (pointBehindFirst (d :: more) ++ 'e' :: '-' :: Numeral.write n) y := by
  obtain ⟨digit, -⟩ := List.forall_mem_cons.mp only
  have lone : Digits [d] := List.forall_mem_singleton.mpr digit
  have small : Numeral.value [d] ≤ Numeral.maxWord64 :=
    Nat.le_trans (Nat.le_of_lt (Numeral.value_lt lone))
      (show 10 ^ 1 ≤ Numeral.maxWord64 by decide)
  obtain ⟨y, scanned⟩ := scanExponent_down negative
    (low_ofDigits lone small (digitsOf more)) n
  obtain ⟨cs, begins⟩ := exists_pointBehindFirst d more
  refine ⟨y, ⟨d, cs ++ _, by rw [begins, List.cons_append], digit⟩, fun rest delimited => ?_⟩
  have text : bytesOf (pointBehindFirst (d :: more) ++ 'e' :: '-' :: Numeral.write n) ++ rest =
      bytesOf (pointBehindFirst (d :: more)) ++ 0x65 :: 0x2D :: (digitBytes n ++ rest) := by
    simp [bytesOf, digitBytes]
  rw [text, scanNumber_scientific only nonzero, scanned rest delimited]

/-- A number far above one is scaled as its digits ask for. -/
theorem scanned_up {y : Binary64} (fits : Numeral.value (d :: more) ≤ Numeral.maxWord64)
    (range : n ≤ greatestExponent)
    (scaled : scaleFloat? (Numeral.value (d :: more)) (-more.length + n) = some y) :
    Scanned negative (pointBehindFirst (d :: more) ++ 'e' :: '+' :: Numeral.write n)
      (withSign negative y) := by
  obtain ⟨digit, others⟩ := List.forall_mem_cons.mp only
  have lone : Digits [d] := List.forall_mem_singleton.mpr digit
  have significand := ofDigits_eq lone others fits
  obtain ⟨cs, begins⟩ := exists_pointBehindFirst d more
  refine ⟨⟨d, cs ++ _, by rw [begins, List.cons_append], digit⟩, fun rest delimited => ?_⟩
  have text : bytesOf (pointBehindFirst (d :: more) ++ 'e' :: '+' :: Numeral.write n) ++ rest =
      bytesOf (pointBehindFirst (d :: more)) ++ 0x65 :: 0x2B :: (digitBytes n ++ rest) := by
    simp [bytesOf, digitBytes]
  rw [text, scanNumber_scientific only nonzero, significand]
  exact scanExponent_up range scaled delimited

end Scientific

/-- **A number with an exponent is scanned as a float** if it has at most seventeen digits and is
not past the greatest number. -/
theorem exists_scanned_scientific {d : Decimal} (positive : 0 < d.digits)
    (few : d.digits ≤ 10 ^ 17) (fits : (d.digits * 10 ^ d.exponent : ℚ) ≤ Binary64.greatest) :
    ∃ y, Scanned negative
      (FloatStyle.scientific "e+" (FloatStyle.significantDigits d.digits) (FloatStyle.leadOf d))
      y := by
  obtain ⟨k, scaled⟩ := FloatStyle.exists_write_eq d.digits
  have only := FloatStyle.digits_significantDigits d.digits
  have whole := FloatStyle.value_significantDigits scaled
  have head := FloatStyle.head?_significantDigits positive
  have lead : FloatStyle.leadOf d =
      (FloatStyle.significantDigits d.digits).length + k + d.exponent - 1 := by
    rw [FloatStyle.leadOf, scaled, List.length_append, FloatStyle.zeros, List.length_replicate,
      Nat.cast_add]
  obtain ⟨c, more, digits⟩ := List.exists_cons_of_ne_nil
    (FloatStyle.significantDigits_ne_nil positive)
  rw [digits] at only whole head lead ⊢
  have nonzero : c ≠ '0' := fun zero => head (congrArg some zero)
  rcases Int.lt_or_le (FloatStyle.leadOf d) 0 with down | up
  · have text : FloatStyle.scientific "e+" (c :: more) (FloatStyle.leadOf d) =
        pointBehindFirst (c :: more) ++
          'e' :: '-' :: Numeral.write (FloatStyle.leadOf d).natAbs := by
      rw [scientific_eq, if_pos down]
    rw [text]
    exact exists_scanned_down only nonzero
  · obtain ⟨n, place⟩ := Int.eq_ofNat_of_zero_le up
    have range : n ≤ greatestExponent :=
      Nat.le_trans (Nat.le_of_lt (leadOf_lt positive fits place)) (by decide)
    have text : FloatStyle.scientific "e+" (c :: more) (FloatStyle.leadOf d) =
        pointBehindFirst (c :: more) ++ 'e' :: '+' :: Numeral.write n := by
      rw [scientific_eq, if_neg (Int.not_lt.mpr up), place]
      rfl
    have value_le : Numeral.value (c :: more) ≤ d.digits := by
      rw [← whole]
      exact Nat.le_mul_of_pos_right _ (Nat.pow_pos (by decide))
    have value_pos : 0 < Numeral.value (c :: more) :=
      Nat.pos_of_mul_pos_right (whole.symm ▸ positive)
    have exponent : -(more.length : Int) + n = k + d.exponent := by
      rw [List.length_cons] at lead
      omega
    have same : (Numeral.value (c :: more) * 10 ^ (-(more.length : Int) + n) : ℚ) =
        d.digits * 10 ^ d.exponent := by
      rw [exponent, zpow_add₀ (by norm_num), zpow_natCast, ← mul_assoc, ← whole, Nat.cast_mul,
        Nat.cast_pow, Nat.cast_ofNat]
    rw [← same] at fits
    obtain ⟨y, product⟩ := exists_scaled value_pos (Nat.le_trans value_le few) fits
    have word : Numeral.value (c :: more) ≤ Numeral.maxWord64 :=
      Nat.le_trans (Nat.le_trans value_le few) (by decide)
    rw [text]
    exact ⟨_, scanned_up only nonzero word range product⟩

/-- The text of a finite number without its sign. -/
theorem exists_scanned_magnitude (negative : Bool) (normal : Binary64.IsNormal m e) :
    ∃ y, Scanned negative (floatStyle.magnitude negative m e) y := by
  by_cases positional :
    floatStyle.positional (FloatStyle.leadOf (Binary64.shortest negative m e)) = true
  · obtain ⟨whole, fraction, spells, few, text⟩ :=
      FloatStyle.magnitude_of_positional floatStyle rfl negative normal
        fun _ => positional
    have last : FloatStyle.leadOf (Binary64.shortest negative m e) ≤ 15 :=
      of_decide_eq_true (Bool.and_eq_true_iff.mp positional).2
    rw [text]
    exact exists_scanned_pointed spells (by omega)
  · have some : m ≠ 0 := by
      rintro rfl
      have zero : Binary64.shortest negative 0 e = ⟨0, 0⟩ := if_pos rfl
      rw [zero] at positional
      exact positional (by decide)
    rw [FloatStyle.magnitude_of_scientific some (Bool.eq_false_iff.mpr positional)]
    exact exists_scanned_scientific
      (FloatStyle.shortest_digits_pos negative normal (Nat.pos_of_ne_zero some))
      (Binary64.shortest_digits_le negative normal (Nat.pos_of_ne_zero some))
      (Binary64.shortest_le_greatest negative normal)

/-- **The text of every finite number is scanned as a float.** -/
theorem exists_part_printFloat (negative : Bool) (normal : Binary64.IsNormal m e) :
    ∃ y, Part (printFloat (.finite negative m e)) [.number (.ok (.float y))] := by
  obtain ⟨y, ⟨c, cs, begins, digit⟩, scanned⟩ := exists_scanned_magnitude negative normal
  have text : printFloat (.finite negative m e) =
      (if negative then [0x2D] else []) ++ bytesOf (floatStyle.magnitude negative m e) := by
    cases negative <;> rfl
  refine ⟨y, ?_⟩
  rw [begins] at text scanned
  rw [text]
  exact part_number (isDigit_of_isDigit digit).1 scanned

end Texts

/-! ## Values -/

/-- A number that a value may hold: an integer of 64 bits, or a finite float in the one form that
rounding gives to it. -/
def Number.Writable : Number → Prop
  | .integer n => (Number.integer n).IsWord
  | .float (.finite _ m e) => Binary64.IsNormal m e
  | .float _ => False

/-- What is made of the text of a number. -/
def Number.reread (n : Number) : Number :=
  match (tokens n.print).map Token.lexeme with
  | [.number (.ok read)] => read
  | _ => n

theorem Number.reread_of_part {n read : Number} (part : Part n.print [.number (.ok read)]) :
    n.reread = read := by
  rw [reread, lexemes_of_part part]

/-- A number that may be written is read, if not always as itself. -/
theorem Number.Writable.part {n : Number} (writable : n.Writable) :
    Part n.print [.number (.ok n.reread)] := by
  obtain ⟨read, part⟩ : ∃ read, Part n.print [.number (.ok read)] := by
    cases n with
    | integer n => exact ⟨_, part_printInt writable⟩
    | float x =>
        cases x with
        | nan | infinite => exact absurd writable id
        | finite negative m e =>
            obtain ⟨y, part⟩ := exists_part_printFloat negative writable
            exact ⟨_, part⟩
  rwa [reread_of_part part]

theorem Number.IsWord.writable {n : Number} (word : n.IsWord) : n.Writable := by
  cases n with
  | integer => exact word
  | float => exact absurd word id

theorem Number.IsWord.reread {n : Number} (word : n.IsWord) : n.reread = n := by
  cases n with
  | integer => exact reread_of_part (part_printInt word)
  | float => exact absurd word id

namespace Value

/-- All numbers of a value are integers of 64 bits or finite. -/
def Writable (v : Value) : Prop := ∀ n ∈ v.numbers, n.Writable

/-- A value with its numbers as they are read from its text. -/
def reread (v : Value) : Value := v.mapNumbers Number.reread

theorem Integral.writable {v : Value} (integral : v.Integral) : v.Writable :=
  fun n member => (integral n member).writable

theorem Integral.reread {v : Value} (integral : v.Integral) : v.reread = v :=
  mapNumbers_of_fixed fun n member => (integral n member).reread

theorem depth_reread (v : Value) : v.reread.depth = v.depth := v.depth_mapNumbers

theorem reread_object (members : List (String × Value)) :
    (object members).reread = .object (members.map fun m => (m.1, m.2.reread)) := by
  rw [reread, mapNumbers, mapMemberNumbers_eq]
  rfl

theorem writable_object {members : List (String × Value)} :
    (object members).Writable ↔ ∀ m ∈ members, m.2.Writable := forall_numbers_object

end Value

/-- **The document of a printed value shows the value with its numbers reread.** -/
theorem ofText_print_of_writable {v : Value} (writable : v.Writable) :
    ∃ node, Document.ofText v.print = ⟨node, none⟩ ∧ Shows v.reread node :=
  ofText_scanned (scans_print_mapNumbers fun n member => (writable n member).part)

end Dispatch.Json
