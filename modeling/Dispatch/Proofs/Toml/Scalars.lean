import Dispatch.Toml.Document
import Dispatch.Toml.Printer
import Dispatch.Proofs.Binary64.Decimals
import Dispatch.Proofs.Json.Nodes

/-!
# Written values of keys

`Legible v text t` says that `text` is what is written for `v`, and that it is read as `t`, which
shows `v`, wherever a line ends behind it. Plain strings, integers of the range of the format and
rounded floats have such a text. A number could be mistaken for a date or a time
only if a dash or a colon stood behind digits (`readNumeral_eq`).
-/

set_option autoImplicit false

namespace Dispatch.Toml

open Numeral (Digits)

/-- A written value, and what is read of it at the end of a line. -/
structure Legible (v : Json.Value) (text : List Char) (t : Value) : Prop where
  written : writeValue? v = some text
  head : ∀ c ∈ text.head?, isWs c = false
  reads : ∀ fuel depth rest,
    readValue (fuel + 1) depth (text ++ '\n' :: rest) = some (t, '\n' :: rest)
  shows : Json.Shows v t.node

/-! ## Strings -/

/-- A plain character stands for itself in quotes. -/
structure Plain (c : Char) : Prop where
  quote : c ≠ '"'
  backslash : c ≠ '\\'
  text : isTextChar c = true

theorem plain_of_isPlain {c : Char} (plain : isPlain c = true) : Plain c := by
  simp only [isPlain, Bool.and_eq_true, decide_eq_true_eq, bne_iff_ne, ne_eq] at plain
  obtain ⟨⟨⟨low, high⟩, quote⟩, backslash⟩ := plain
  refine ⟨quote, backslash, ?_⟩
  simp only [isTextChar, Bool.or_eq_true, Bool.and_eq_true, decide_eq_true_eq]
  exact .inr ⟨low, by omega⟩

theorem isPlain_of_isDigit {c : Char} (digit : c.isDigit = true) : isPlain c = true := by
  have range := Numeral.range_of_isDigit digit
  simp only [isPlain, Bool.and_eq_true, decide_eq_true_eq, bne_iff_ne]
  exact ⟨⟨⟨by omega, by omega⟩, Numeral.ne_of_isDigit digit '"' rfl⟩,
    Numeral.ne_of_isDigit digit '\\' rfl⟩

theorem basicString_append {s : List Char} (plain : ∀ c ∈ s, Plain c) (rest : List Char) :
    basicString (s ++ '"' :: rest) = some (s, rest) := by
  induction s with
  | nil =>
      rw [List.nil_append, basicString.eq_def]
      rfl
  | cons c s ih =>
      obtain ⟨⟨quote, backslash, text⟩, others⟩ := List.forall_mem_cons.mp plain
      rw [List.cons_append, basicString.eq_def]
      dsimp only
      rw [if_neg quote, if_neg backslash, if_pos text, ih others]
      rfl

/-- A string in quotes is not taken for one of several lines. -/
theorem readString_append {s : List Char} (plain : ∀ c ∈ s, Plain c) (rest : List Char) :
    readString ('"' :: (s ++ '"' :: '\n' :: rest)) = some (s, '\n' :: rest) := by
  have single : closes '"' ('"' :: (s ++ '"' :: '\n' :: rest)) = none := by
    obtain _ | ⟨c, s⟩ := s
    · rfl
    · have quote := (plain c List.mem_cons_self).quote
      obtain _ | ⟨d, s⟩ := s <;> simp [closes, quote]
  have quotes : closes '\'' ('"' :: (s ++ '"' :: '\n' :: rest)) = none := by
    obtain _ | ⟨c, s⟩ := s
    · rfl
    · obtain _ | ⟨d, s⟩ := s <;> rfl
  rw [readString, single, quotes]
  exact basicString_append plain _

theorem legible_string {s : String} (plain : s.toList.all isPlain = true) :
    Legible (.string s) ('"' :: (s.toList ++ ['"'])) (.string s) where
  written := if_pos plain
  head := by
    rintro _ ⟨⟩
    decide
  reads := by
    intro fuel depth rest
    have each : ∀ c ∈ s.toList, Plain c := fun c member =>
      plain_of_isPlain (List.all_eq_true.mp plain c member)
    have read := readString_append each rest
    rw [List.cons_append, List.append_assoc, List.singleton_append]
    show (readString ('"' :: (s.toList ++ '"' :: '\n' :: rest))).map _ = _
    rw [read, Option.map_some]
    dsimp only
    rw [String.ofList_toList]
  shows := .string s

/-! ## Digits -/

/-- The number that a digit stands for. -/
def digitValue (c : Char) : Nat := c.toNat - '0'.toNat

theorem digitOf?_of_isDigit {c : Char} (digit : c.isDigit = true) :
    digitOf? 10 c = some (digitValue c) := by
  have hex : hexDigit? c = some (digitValue c) := if_pos digit
  have small : digitValue c < 10 := by
    have range := Numeral.range_of_isDigit digit
    have first : '0'.toNat = 48 := rfl
    rw [digitValue]
    omega
  rw [digitOf?, hex, Option.filter_some, if_pos (decide_eq_true small)]

theorem ofDigits_map (digits : List Char) :
    ofDigits 10 (digits.map digitValue) = Numeral.value digits := by
  have step : (fun n c => n * 10 + digitValue c) = fun n c => 10 * n + (c.toNat - '0'.toNat) := by
    funext n c
    rw [Nat.mul_comm, digitValue]
  rw [ofDigits, List.foldl_map, step]
  rfl

/-- No digits go on with the next character. -/
def Ends (rest : List Char) : Prop := ∀ c ∈ rest.head?, digitOf? 10 c = none ∧ c ≠ '_'

section Digits

variable {digits rest : List Char}

theorem moreDigits_append (only : Digits digits) (ends : Ends rest) :
    moreDigits (digitOf? 10) (digits ++ rest) = some (digits.map digitValue, rest) := by
  induction digits with
  | nil =>
      obtain _ | ⟨c, rest⟩ := rest
      · rfl
      · obtain ⟨other, underscore⟩ := ends c rfl
        rw [List.nil_append, moreDigits.eq_def]
        dsimp only
        rw [other]
        dsimp only
        rw [if_neg underscore]
        rfl
  | cons c digits ih =>
      obtain ⟨digit, others⟩ := List.forall_mem_cons.mp only
      rw [List.cons_append, moreDigits.eq_def]
      dsimp only
      rw [digitOf?_of_isDigit digit, ih others]
      rfl

theorem readDigits_append (only : Digits digits) (some : digits ≠ []) (ends : Ends rest) :
    readDigits (digitOf? 10) (digits ++ rest) = .some (digits.map digitValue, rest) := by
  have more := moreDigits_append only ends
  obtain _ | ⟨c, digits⟩ := digits
  · exact absurd rfl some
  · have digit := digitOf?_of_isDigit (only c List.mem_cons_self)
    rw [List.cons_append] at more ⊢
    rw [readDigits, digit]
    exact more

theorem readWhole_append (only : Digits digits) (some : digits ≠ [])
    (alone : digits = ['0'] ∨ digits.head? ≠ .some '0') (ends : Ends rest) :
    readWhole (digits ++ rest) = .some (digits.map digitValue, rest) := by
  rcases alone with rfl | head
  · rfl
  · rw [← readDigits_append only some ends]
    obtain _ | ⟨c, digits⟩ := digits
    · exact absurd rfl some
    · have nonzero : c ≠ '0' := fun same => head (congrArg _ same)
      unfold readWhole
      split
      · rename_i same
        exact absurd (List.cons.inj same).1 nonzero
      · rfl

end Digits

/-! ## Dates and times -/

theorem isSome_of_mapM {α β : Type} {f : α → Option β} {as : List α} {bs : List β}
    (all : as.mapM f = some bs) : ∀ a ∈ as, (f a).isSome := by
  induction as generalizing bs with
  | nil => exact fun _ member => absurd member List.not_mem_nil
  | cons a as ih =>
      rw [List.mapM_cons] at all
      obtain ⟨b, first, all⟩ := Option.bind_eq_some_iff.mp all
      obtain ⟨others, further, -⟩ := Option.bind_eq_some_iff.mp all
      exact List.forall_mem_cons.mpr ⟨Option.isSome_iff_exists.mpr ⟨b, first⟩, ih further⟩

/-- A field and a mark behind it are so many digits and that mark. -/
theorem of_readField {count low high : Nat} {mark : Char} {text rest : List Char}
    (read : (readField count low high text >>= readMark [mark]) = some rest) :
    (∀ c ∈ text.take count, (digitOf? 10 c).isSome) ∧ text[count]? = some mark := by
  obtain ⟨behind, field, marked⟩ := Option.bind_eq_some_iff.mp read
  obtain ⟨digits, all, range⟩ := Option.bind_eq_some_iff.mp field
  refine ⟨isSome_of_mapM all, ?_⟩
  dsimp only at range
  split at range
  · obtain rfl := Option.some.inj range
    rw [← List.head?_drop]
    generalize text.drop count = behind at marked
    obtain _ | ⟨c, behind⟩ := behind
    · cases marked
    · rw [readMark] at marked
      split at marked
      · rename_i same
        rw [List.mem_singleton.mp (List.contains_iff_mem.mp same)]
        rfl
      · cases marked
  · cases range

/-- No field with a mark behind it is read where the mark stands in front at most. -/
theorem readField_eq_none {count low high : Nat} {mark : Char} {text : List Char}
    (some : 0 < count) (apart : mark ≠ '\n') (absent : mark ∉ text.tail) (rest : List Char) :
    (readField count low high (text ++ '\n' :: rest) >>= readMark [mark]) = none := by
  rw [Option.eq_none_iff_forall_not_mem]
  intro behind read
  obtain ⟨digits, marked⟩ := of_readField read
  rcases Nat.lt_trichotomy count text.length with inside | atEnd | past
  · rw [List.getElem?_append_left inside] at marked
    obtain ⟨count, rfl⟩ := Nat.exists_eq_succ_of_ne_zero (Nat.ne_of_gt some)
    rw [← List.getElem?_tail] at marked
    exact absent (List.mem_of_getElem? marked)
  · rw [atEnd, List.getElem?_append_right (Nat.le_refl _), Nat.sub_self] at marked
    exact apart (Option.some.inj marked).symm
  · have ending : '\n' ∈ (text ++ '\n' :: rest).take count := by
      obtain ⟨more, further⟩ := Nat.exists_eq_add_of_lt past
      rw [List.take_append, further, Nat.add_assoc, Nat.add_sub_cancel_left]
      exact List.mem_append_right _ List.mem_cons_self
    exact absurd (digits '\n' ending) (by decide)

theorem readNumeral_eq (text : List Char) (dash : '-' ∉ text.tail) (colon : ':' ∉ text.tail)
    (rest : List Char) :
    readNumeral (text ++ '\n' :: rest) = readNumber (text ++ '\n' :: rest) := by
  have date : startsDate (text ++ '\n' :: rest) = false := by
    rw [startsDate, readField_eq_none (by decide) (by decide) dash]
    rfl
  have time : readHour (text ++ '\n' :: rest) = none :=
    readField_eq_none (by decide) (by decide) colon rest
  rw [readNumeral, date, time]
  rfl

/-! ## Numbers -/

/-- The minus sign of a negative number. -/
def signOf (negative : Bool) : List Char := if negative then ['-'] else []

theorem digits_append_ne {digits rest : List Char} (only : Digits digits) (some : digits ≠ [])
    (mark : Char) (other : mark.isDigit = false) (behind : List Char) :
    digits ++ rest ≠ mark :: behind := by
  obtain _ | ⟨d, digits⟩ := digits
  · exact absurd rfl some
  · intro same
    exact Numeral.ne_of_isDigit (only d List.mem_cons_self) mark other (List.cons.inj same).1

theorem readSign_append (negative : Bool) {digits rest : List Char} (only : Digits digits)
    (some : digits ≠ []) :
    readSign (signOf negative ++ (digits ++ rest)) = (negative, digits ++ rest) := by
  cases negative with
  | true => rfl
  | false =>
      show readSign (digits ++ rest) = _
      unfold readSign
      split
      · rename_i minus
        exact absurd minus (digits_append_ne only some '-' rfl _)
      · rename_i plus
        exact absurd plus (digits_append_ne only some '+' rfl _)
      · rfl

/-- A decimal number does not begin like a number of another base. -/
theorem decimal_ne_based (negative : Bool) {digits rest : List Char} (some : digits ≠ [])
    (alone : digits = ['0'] ∨ digits.head? ≠ .some '0') (mark : Char)
    (unmarked : ∀ c ∈ rest.head?, c ≠ mark) (behind : List Char) :
    signOf negative ++ (digits ++ rest) ≠ '0' :: mark :: behind := by
  intro same
  cases negative with
  | true => exact absurd (List.cons.inj same).1 (by decide)
  | false =>
      replace same : digits ++ rest = '0' :: mark :: behind := same
      rcases alone with rfl | head
      · obtain ⟨-, rfl⟩ := List.cons.inj same
        exact unmarked mark rfl rfl
      · obtain _ | ⟨c, digits⟩ := digits
        · exact some rfl
        · exact head (congrArg _ (List.cons.inj same).1)

/-- A number is read behind its sign and its whole part. -/
theorem readNumber_append (negative : Bool) {digits rest : List Char} (only : Digits digits)
    (some : digits ≠ []) (alone : digits = ['0'] ∨ digits.head? ≠ .some '0') (ends : Ends rest)
    (unmarked : ∀ c ∈ rest.head?, c ≠ 'x' ∧ c ≠ 'o' ∧ c ≠ 'b') :
    readNumber (signOf negative ++ (digits ++ rest)) =
      readBehindWhole negative (digits.map digitValue) rest := by
  unfold readNumber
  split
  · rename_i based
    exact absurd based (decimal_ne_based negative some alone 'x'
      (fun c first => (unmarked c first).1) _)
  · rename_i based
    exact absurd based (decimal_ne_based negative some alone 'o'
      (fun c first => (unmarked c first).2.1) _)
  · rename_i based
    exact absurd based (decimal_ne_based negative some alone 'b'
      (fun c first => (unmarked c first).2.2) _)
  · rw [readSign_append negative only some]
    dsimp only
    split
    · rename_i word
      exact absurd word (digits_append_ne only some 'i' rfl _)
    · rename_i word
      exact absurd word (digits_append_ne only some 'n' rfl _)
    · rw [readWhole_append only some alone ends]
      rfl

/-- A sign, digits and what goes on without dashes and colons are read as a number. -/
theorem readValue_signed (negative : Bool) {digits more : List Char} (only : Digits digits)
    (some : digits ≠ []) (dash : '-' ∉ more) (colon : ':' ∉ more) (fuel depth : Nat)
    (rest : List Char) :
    readValue (fuel + 1) depth (signOf negative ++ (digits ++ more) ++ '\n' :: rest) =
      readNumber (signOf negative ++ (digits ++ more) ++ '\n' :: rest) := by
  have absent {mark : Char} (other : mark.isDigit = false) (behind : mark ∉ more) :
      mark ∉ digits ++ more :=
    fun member => (List.mem_append.mp member).elim (only.not_mem other) behind
  have dash := absent rfl dash
  have colon := absent rfl colon
  have numeral {c : Char} {text : List Char} (first : c.isDigit = true ∨ c = '-')
      (dash : '-' ∉ text) (colon : ':' ∉ text) :
      readValue (fuel + 1) depth (c :: text ++ '\n' :: rest) =
        readNumber (c :: text ++ '\n' :: rest) := by
    have apart (mark : Char) (other : mark.isDigit = false) (sign : '-' ≠ mark) : c ≠ mark :=
      first.elim (fun digit => Numeral.ne_of_isDigit digit mark other) fun minus => minus ▸ sign
    rw [← readNumeral_eq (c :: text) dash colon, List.cons_append, readValue.eq_def]
    simp only [apart '"' rfl (by decide), apart '\'' rfl (by decide), apart '[' rfl (by decide),
      apart '\x7b' rfl (by decide), apart 't' rfl (by decide), apart 'f' rfl (by decide),
      decide_false, Bool.or_self, Bool.false_eq_true, if_false]
  cases negative with
  | true => exact numeral (.inr rfl) dash colon
  | false =>
      obtain _ | ⟨c, digits⟩ := digits
      · exact absurd rfl some
      · exact numeral (.inl (only c List.mem_cons_self)) (mt (List.mem_cons_of_mem c) dash)
          (mt (List.mem_cons_of_mem c) colon)

theorem isWs_of_isDigit {c : Char} (digit : c.isDigit = true) : isWs c = false := by
  simp only [isWs, Numeral.ne_of_isDigit digit ' ' rfl, Numeral.ne_of_isDigit digit '\t' rfl,
    decide_false, Bool.or_self]

theorem head_signed (negative : Bool) {digits : List Char} (only : Digits digits)
    (some : digits ≠ []) (more : List Char) :
    ∀ c ∈ (signOf negative ++ (digits ++ more)).head?, isWs c = false := by
  cases negative with
  | true =>
      rintro _ ⟨⟩
      rfl
  | false =>
      obtain _ | ⟨c, digits⟩ := digits
      · exact absurd rfl some
      · rintro _ ⟨⟩
        exact isWs_of_isDigit (only c List.mem_cons_self)

theorem ends_newline (rest : List Char) : Ends ('\n' :: rest) := by
  rintro _ ⟨⟩
  decide

theorem write_alone (n : Nat) :
    Numeral.write n = ['0'] ∨ (Numeral.write n).head? ≠ some '0' := by
  rcases Nat.eq_zero_or_pos n with rfl | positive
  · exact .inl rfl
  · exact .inr (Numeral.head?_write positive)

theorem legible_integer {n : Int} (low : -9_223_372_036_854_775_808 ≤ n)
    (high : n < 9_223_372_036_854_775_808) :
    Legible (.number (.integer n)) (signOf (n < 0) ++ (Numeral.write n.natAbs ++ []))
      (.integer n) where
  written := by
    rw [List.append_nil, writeValue?, if_pos ⟨low, high⟩]
    simp only [signOf, decide_eq_true_eq]
  head := head_signed _ (Numeral.digits_write _) (Numeral.write_ne_nil _) []
  reads := by
    intro fuel depth rest
    have only := Numeral.digits_write n.natAbs
    have some := Numeral.write_ne_nil n.natAbs
    have unmarked : ∀ c ∈ ('\n' :: rest).head?, c ≠ 'x' ∧ c ≠ 'o' ∧ c ≠ 'b' := by
      rintro _ ⟨⟩
      decide
    rw [readValue_signed _ only some List.not_mem_nil List.not_mem_nil, List.append_nil,
      List.append_assoc,
      readNumber_append _ only some (write_alone _) (ends_newline rest) unmarked, readBehindWhole]
    dsimp only
    rw [if_neg (by decide), if_neg (by decide), readBehindWhole.signed, ofDigits_map,
      Numeral.value_write]
    have value : (if decide (n < 0) = true then -(n.natAbs : Int) else n.natAbs) = n := by
      simp only [decide_eq_true_eq]
      split <;> omega
    rw [value, integer?, if_pos ⟨low, high⟩]
    rfl
  shows := .number (.integer n)

/-- A number that its digits and a point spell is read as that number. -/
theorem readValue_pointed {negative : Bool} {m : Nat} {e : Int} {whole fraction : List Char}
    (spells : FloatStyle.Spells negative (.finite negative m e) whole fraction)
    (fuel depth : Nat) (rest : List Char) :
    readValue (fuel + 1) depth (signOf negative ++ (whole ++ '.' :: fraction) ++ '\n' :: rest) =
      some (.float (.finite negative m e), '\n' :: rest) := by
  have ends : Ends ('.' :: (fraction ++ '\n' :: rest)) := by
    rintro _ ⟨⟩
    decide
  have unmarked : ∀ c ∈ ('.' :: (fraction ++ '\n' :: rest)).head?, c ≠ 'x' ∧ c ≠ 'o' ∧ c ≠ 'b' := by
    rintro _ ⟨⟩
    decide
  have absent {mark : Char} (point : mark ≠ '.') (other : mark.isDigit = false) :
      mark ∉ '.' :: fraction :=
    fun member => (List.mem_cons.mp member).elim point (spells.fractionDigits.not_mem other)
  have stands : float? negative (Numeral.value (whole ++ fraction))
      (0 - (fraction.map digitValue).length) = some (.float (.finite negative m e)) := by
    rw [List.length_map, Int.zero_sub, float?, spells.stands]
  rw [← ofDigits_map, List.map_append] at stands
  refine (readValue_signed negative spells.wholeDigits spells.wholeSome
    (absent (by decide) rfl) (absent (by decide) rfl) fuel depth rest).trans ?_
  rw [List.append_assoc, List.append_assoc, List.cons_append,
    readNumber_append negative spells.wholeDigits spells.wholeSome spells.alone ends unmarked,
    readBehindWhole]
  dsimp only
  rw [if_pos rfl, readDigits_append spells.fractionDigits spells.fractionSome (ends_newline rest)]
  show (float? negative _ _ >>= _) = _
  rw [stands]
  rfl

theorem legible_float {x : Binary64} (rounded : x.IsRounded) :
    Legible (.number (.float x)) (floatStyle.write x) (.float x) := by
  have written : writeValue? (.number (.float x)) = some (floatStyle.write x) := rfl
  have shows : Json.Shows (.number (.float x)) (Value.float x).node := .number (.float x)
  cases x with
  | nan =>
      refine ⟨written, ?_, fun _ _ _ => rfl, shows⟩
      rintro _ ⟨⟩
      rfl
  | infinite s =>
      cases s <;> refine ⟨written, ?_, fun _ _ _ => rfl, shows⟩ <;> rintro _ ⟨⟩ <;> rfl
  | finite s m e =>
      obtain ⟨whole, fraction, spells, text⟩ := FloatStyle.write_pointed s rounded
      have spelled : floatStyle.write (.finite s m e) = signOf s ++ (whole ++ '.' :: fraction) :=
        text
      refine ⟨written, ?_, ?_, shows⟩
      · rw [spelled]
        exact head_signed s spells.wholeDigits spells.wholeSome _
      · rw [spelled]
        exact readValue_pointed spells

end Dispatch.Toml
