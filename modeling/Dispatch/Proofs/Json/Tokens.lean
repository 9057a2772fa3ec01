import Dispatch.Json.Token
import Dispatch.Proofs.Json.Values

/-!
# The tokens of written values

`Scans text rest lexemes` says that `text` begins with these lexemes and goes on with `rest`. It
holds of every printed value whose numbers can be read (`scans_print_mapNumbers`), integers of 64
bits among them (`scans_print`): a string is scanned byte by byte, each escape as the byte it stands
for; an integer digit by digit, until a byte that no number goes on with; a container by its parts.
The lexemes of a value (`lexemes`) are those of its text without white space.
-/

set_option autoImplicit false

namespace Dispatch.Json

/-! ## Beginnings of a text -/

/-- However many tokens are allowed for, `text` begins with `lexemes`, and `rest` follows. -/
def Scans (text rest : Bytes) (lexemes : List Lexeme) : Prop :=
  ∀ limit, text.length ≤ limit → ∃ toks behind, rest.length ≤ behind ∧
    tokensUpTo limit text = toks ++ tokensUpTo behind rest ∧ toks.map (·.lexeme) = lexemes

section Scans

variable {a b c rest : Bytes} {xs ys : List Lexeme}

theorem Scans.nil : Scans a a [] := fun limit enough => ⟨[], limit, enough, rfl, rfl⟩

theorem Scans.append (first : Scans a b xs) (second : Scans b c ys) : Scans a c (xs ++ ys) := by
  intro limit enough
  obtain ⟨toks, middle, enough, before, same⟩ := first limit enough
  obtain ⟨toks', behind, enough, after, same'⟩ := second middle enough
  refine ⟨toks ++ toks', behind, enough, ?_, ?_⟩
  · rw [before, after, List.append_assoc]
  · rw [List.map_append, same, same']

/-- One token: what is left of the text must not be longer than what stood behind its first
byte. -/
theorem Scans.one {first : UInt8} {tail : Bytes} {x : Lexeme} (token : isSpace first = false)
    (next : nextLexeme first tail = (x, rest)) (shorter : rest.length ≤ tail.length) :
    Scans (first :: tail) rest [x] := by
  intro limit enough
  obtain _ | limit := limit
  · exact absurd enough (Nat.not_succ_le_zero _)
  have enough : tail.length ≤ limit := Nat.le_of_succ_le_succ enough
  refine ⟨[⟨x, tail.length + 1⟩], limit, Nat.le_trans shorter enough, ?_, rfl⟩
  rw [tokensUpTo, token, next]
  rfl

end Scans

/-! ## Strings -/

section Strings

variable {b e : UInt8} {reversed rest : Bytes}

theorem scanString_close :
    scanString (.ok reversed) none (0x22 :: rest) = Content.close (.ok reversed) rest := by
  rw [scanString.eq_def]
  rfl

theorem scanString_plain (quote : b ≠ 0x22) (backslash : b ≠ 0x5C) (control : ¬b < 0x20) :
    scanString (.ok reversed) none (b :: rest) = scanString (.ok (b :: reversed)) none rest := by
  rw [scanString.eq_def]
  simp only [if_neg quote, if_neg backslash, if_neg control, Content.unpaired]
  rfl

theorem scanString_escape (known : simpleEscape? e = some b) :
    scanString (.ok reversed) none (0x5C :: e :: rest) =
      scanString (.ok (b :: reversed)) none rest := by
  have notUnit : e ≠ 0x75 := by
    rintro rfl
    cases known
  have isEscape : (0x5C : UInt8) ≠ 0x22 := by decide
  rw [scanString.eq_def]
  simp only [if_neg isEscape, if_neg notUnit, if_true, known, Content.unpaired]
  rfl

theorem scanString_unit {h₁ h₂ h₃ h₄ : UInt8} (unit : hexUnit? h₁ h₂ h₃ h₄ = some b.toNat)
    (ascii : b.toNat < 0x80) :
    scanString (.ok reversed) none (0x5C :: 0x75 :: h₁ :: h₂ :: h₃ :: h₄ :: rest) =
      scanString (.ok (b :: reversed)) none rest := by
  have notTrailing : isTrailingSurrogate b.toNat = false := by
    simp only [isTrailingSurrogate, Bool.and_eq_false_iff, decide_eq_false_iff_not]
    omega
  have notLeading : isLeadingSurrogate b.toNat = false := by
    simp only [isLeadingSurrogate, Bool.and_eq_false_iff, decide_eq_false_iff_not]
    omega
  have pushed : Content.pushUnit (.ok reversed) none b.toNat rest =
      (.ok (b :: reversed), none) := by
    simp only [Content.pushUnit, notTrailing, notLeading, Bool.false_eq_true, if_false,
      Utf8.encodeChar_of_lt ascii, Content.push, Nat.toUInt8_eq, UInt8.ofNat_toNat]
    rfl
  have isEscape : (0x5C : UInt8) ≠ 0x22 := by decide
  rw [scanString.eq_def]
  simp only [if_neg isEscape, if_true, unit, pushed]

end Strings

theorem hexValue?_hexDigit : ∀ n < 16, hexValue? (hexDigit n) = some n := by decide

/-- A byte inside quotes is scanned as itself, however it is written. -/
theorem scanString_escapeByte (b : UInt8) (reversed rest : Bytes) :
    scanString (.ok reversed) none (escapeByte b ++ rest) =
      scanString (.ok (b :: reversed)) none rest := by
  unfold escapeByte
  by_cases quote : b = 0x22
  · subst quote
    exact scanString_escape rfl
  by_cases backslash : b = 0x5C
  · subst backslash
    exact scanString_escape rfl
  by_cases backspace : b = 0x08
  · subst backspace
    exact scanString_escape rfl
  by_cases formFeed : b = 0x0C
  · subst formFeed
    exact scanString_escape rfl
  by_cases lineFeed : b = 0x0A
  · subst lineFeed
    exact scanString_escape rfl
  by_cases carriageReturn : b = 0x0D
  · subst carriageReturn
    exact scanString_escape rfl
  by_cases tab : b = 0x09
  · subst tab
    exact scanString_escape rfl
  simp only [quote, backslash, backspace, formFeed, lineFeed, carriageReturn, tab, if_false]
  by_cases control : b < 0x20
  · have small : b.toNat < 0x20 := UInt8.lt_iff_toNat_lt.mp control
    have unit : hexUnit? 0x30 0x30 (hexDigit (b.toNat / 16)) (hexDigit (b.toNat % 16)) =
        some b.toNat := by
      have zero : hexValue? 0x30 = some 0 := rfl
      have high := hexValue?_hexDigit (b.toNat / 16) (by omega)
      have low := hexValue?_hexDigit (b.toNat % 16) (by omega)
      have value : ((0 * 16 + 0) * 16 + b.toNat / 16) * 16 + b.toNat % 16 = b.toNat := by omega
      rw [hexUnit?, zero, high, low]
      exact congrArg some value
    rw [if_pos control]
    exact scanString_unit unit (by omega)
  · rw [if_neg control]
    exact scanString_plain quote backslash control

/-- **A printed string is scanned as that string.** -/
theorem scans_printString (s : String) (rest : Bytes) :
    Scans (printString s ++ rest) rest [.string (.ok s)] := by
  have content : ∀ bytes reversed : Bytes,
      scanString (.ok reversed) none (bytes.flatMap escapeByte ++ 0x22 :: rest) =
        scanString (.ok (bytes.reverse ++ reversed)) none (0x22 :: rest) := by
    intro bytes
    induction bytes with
    | nil => exact fun _ => rfl
    | cons b bytes ih =>
        intro reversed
        rw [List.flatMap_cons, List.append_assoc, scanString_escapeByte, ih, List.reverse_cons,
          List.append_assoc]
        rfl
  have closed : scanString (.ok []) none ((Utf8.ofString s).flatMap escapeByte ++ 0x22 :: rest) =
      (.string (.ok s), rest) := by
    rw [content, List.append_nil, scanString_close]
    simp only [Content.close, List.reverse_reverse, Utf8.toString?_ofString]
  have text : printString s ++ rest =
      0x22 :: ((Utf8.ofString s).flatMap escapeByte ++ 0x22 :: rest) := by
    simp [printString]
  rw [text]
  refine Scans.one rfl closed ?_
  rw [List.length_append, List.length_cons]
  omega

/-! ## Integers -/

/-- No number goes on with the next byte. -/
def Delimited (rest : Bytes) : Prop :=
  ∀ b ∈ rest.head?, isDigit b = false ∧ b ≠ 0x2E ∧ isExponentMark b = false

theorem delimited_nil : Delimited [] := by
  rintro b ⟨⟩

theorem delimited_cons {mark : UInt8}
    (ends : isDigit mark = false ∧ mark ≠ 0x2E ∧ isExponentMark mark = false) (text : Bytes) :
    Delimited (mark :: text) := by
  rintro b ⟨⟩
  exact ends

/-- The digits of a number as bytes. -/
def digitBytes (n : Nat) : Bytes := (Numeral.write n).map fun c => c.toNat.toUInt8

theorem digitBytes_ne_nil (n : Nat) : digitBytes n ≠ [] := fun none =>
  Nat.toDigits_ne_nil (List.map_eq_nil_iff.mp none)

/-- The last digit of a number stands behind the digits of its tenth. -/
theorem digitBytes_eq (n : Nat) :
    digitBytes n =
      if n < 10 then [(0x30 + n).toUInt8]
      else digitBytes (n / 10) ++ [(0x30 + n % 10).toUInt8] := by
  have digit : ∀ d < 10, (Nat.digitChar d).toNat.toUInt8 = (0x30 + d).toUInt8 := by decide
  unfold digitBytes Numeral.write
  by_cases small : n < 10
  · rw [if_pos small, Nat.toDigits_of_lt_base small, List.map_singleton, digit n small]
  · rw [if_neg small, Nat.toDigits_of_base_le (by omega) (by omega), List.map_append,
      List.map_singleton, digit _ (Nat.mod_lt _ (by omega))]

theorem isDigit_toUInt8 : ∀ d < 10, isDigit (0x30 + d).toUInt8 = true := by decide

theorem digitValue_toUInt8 : ∀ d < 10, digitValue (0x30 + d).toUInt8 = d := by decide

/-- What digit-wise reading makes of the digits of `n`: they are digits, they do not begin with a
zero unless they are that zero, and they add up to `n` if it fits a word. -/
structure SpelledOut (n : Nat) (digits : Bytes) : Prop where
  digit : ∀ b ∈ digits, isDigit b = true
  plain : n = 0 ∧ digits.map digitValue = [0] ∨
    ∃ d more, digits.map digitValue = (d + 1) :: more
  sum : n ≤ Numeral.maxWord64 →
    (digits.map digitValue).foldl Significand.pushWhole ⟨0, 0, false⟩ = ⟨n, 0, false⟩

theorem pushWhole_of_fits {value d : Nat} (fits : value * 10 + d ≤ Numeral.maxWord64) :
    Significand.pushWhole ⟨value, 0, false⟩ d = ⟨value * 10 + d, 0, false⟩ := by
  rw [Significand.pushWhole, if_neg Bool.false_ne_true, if_pos fits]

theorem spelledOut_digitBytes (n : Nat) : SpelledOut n (digitBytes n) := by
  induction n using Nat.strongRecOn with
  | ind n ih =>
      rw [digitBytes_eq]
      by_cases small : n < 10
      · have value := digitValue_toUInt8 n small
        rw [if_pos small]
        constructor
        case digit =>
          intro b member
          rw [List.mem_singleton.mp member]
          exact isDigit_toUInt8 n small
        case plain =>
          rw [List.map_singleton, value]
          obtain _ | d := n
          · exact .inl ⟨rfl, rfl⟩
          · exact .inr ⟨d, [], rfl⟩
        case sum =>
          intro fits
          rw [List.map_singleton, value, List.foldl_cons, List.foldl_nil,
            pushWhole_of_fits (by omega), Nat.zero_mul, Nat.zero_add]
      · have last : n % 10 < 10 := Nat.mod_lt _ (by omega)
        obtain ⟨digit, plain, sum⟩ := ih (n / 10) (by omega)
        rw [if_neg small]
        constructor
        case digit =>
          intro b member
          rcases List.mem_append.mp member with before | final
          · exact digit b before
          · rw [List.mem_singleton.mp final]
            exact isDigit_toUInt8 _ last
        case plain =>
          rw [List.map_append]
          rcases plain with ⟨zero, -⟩ | ⟨d, more, nonzero⟩
          · omega
          · exact .inr ⟨d, _, by rw [nonzero]; rfl⟩
        case sum =>
          intro fits
          have tenth : n / 10 ≤ Numeral.maxWord64 := by omega
          have whole : n / 10 * 10 + n % 10 = n := by omega
          rw [List.map_append, List.foldl_append, sum tenth, List.map_singleton,
            digitValue_toUInt8 _ last, List.foldl_cons, List.foldl_nil,
            pushWhole_of_fits (by omega), whole]

theorem spanDigits_append {digits rest : Bytes} (digit : ∀ b ∈ digits, isDigit b = true)
    (ends : ∀ b ∈ rest.head?, isDigit b = false) :
    spanDigits (digits ++ rest) = (digits.map digitValue, rest) := by
  have before : (digits ++ rest).takeWhile isDigit = digits := by
    rw [List.takeWhile_append_of_pos digit]
    obtain _ | ⟨b, rest⟩ := rest
    · exact List.append_nil _
    · rw [List.takeWhile_cons, ends b rfl]
      exact List.append_nil _
  have behind : (digits ++ rest).dropWhile isDigit = rest := by
    rw [List.dropWhile_append_of_pos digit]
    obtain _ | ⟨b, rest⟩ := rest
    · rfl
    · rw [List.dropWhile_cons, ends b rfl]
      rfl
  rw [spanDigits, before, behind]

/-- Digits are scanned as a whole part, unless they begin with a zero that does not stand alone. -/
theorem scanNumber_append (negative : Bool) {digits rest : Bytes}
    (digit : ∀ b ∈ digits, isDigit b = true)
    (plain : digits.map digitValue = [0] ∨ ∃ d more, digits.map digitValue = (d + 1) :: more)
    (ends : ∀ b ∈ rest.head?, isDigit b = false) :
    scanNumber negative (digits ++ rest) =
      scanBehindWhole negative (digits.map digitValue) rest := by
  rw [scanNumber, spanDigits_append digit ends]
  rcases plain with zero | ⟨d, more, nonzero⟩
  · rw [zero]
    rfl
  · rw [nonzero]
    rfl

/-- The digits of a word are scanned as a whole number. -/
theorem scanNumber_digitBytes (negative : Bool) {n : Nat} (fits : n ≤ Numeral.maxWord64)
    {rest : Bytes} (delimited : Delimited rest) :
    scanNumber negative (digitBytes n ++ rest) =
      (.number (wholeNumber negative ⟨n, 0, false⟩ rest.length), rest) := by
  obtain ⟨digit, plain, sum⟩ := spelledOut_digitBytes n
  rw [scanNumber_append negative digit (plain.imp_left And.right)
    fun b head => (delimited b head).1]
  obtain _ | ⟨b, rest⟩ := rest
  · rw [scanBehindWhole, sum fits]
    rfl
  · obtain ⟨-, point, mark⟩ := delimited b rfl
    rw [scanBehindWhole, if_neg point, mark, sum fits]
    rfl

theorem ne_of_isDigit {b : UInt8} (digit : isDigit b = true) (mark : UInt8)
    (none : isDigit mark = false) : b ≠ mark := by
  rintro rfl
  rw [digit] at none
  cases none

theorem isSpace_digit {b : UInt8} (digit : isDigit b = true) : isSpace b = false := by
  have apart := ne_of_isDigit digit
  simp only [isSpace, apart 0x20 rfl, apart 0x0A rfl, apart 0x09 rfl, apart 0x0D rfl, decide_false,
    Bool.or_false]

theorem nextLexeme_digit {b : UInt8} (digit : isDigit b = true) (rest : Bytes) :
    nextLexeme b rest = scanNumber false (b :: rest) := by
  have apart := ne_of_isDigit digit
  simp only [nextLexeme, apart 0x5B rfl, apart 0x5D rfl, apart 0x7B rfl, apart 0x7D rfl,
    apart 0x2C rfl, apart 0x3A rfl, apart 0x22 rfl, apart 0x2D rfl, digit, if_false, if_true]

/-- A part is scanned as its lexemes wherever a comma or a closing bracket may follow. -/
def Part (text : Bytes) (lexemes : List Lexeme) : Prop :=
  ∀ rest, Delimited rest → Scans (text ++ rest) rest lexemes

/-- A part that is the whole text is all its tokens. -/
theorem lexemes_of_part {text : Bytes} {lexemes : List Lexeme} (part : Part text lexemes) :
    (tokens text).map (·.lexeme) = lexemes := by
  have scanned := part [] delimited_nil
  rw [List.append_nil] at scanned
  obtain ⟨toks, behind, -, split, spelled⟩ := scanned _ (Nat.le_refl _)
  have none_left : tokensUpTo behind [] = [] := by cases behind <;> rfl
  rw [tokens, split, none_left, List.append_nil, spelled]

/-- A number is scanned from behind its sign. -/
theorem part_number {negative : Bool} {n : Number} {b : UInt8} {more : Bytes}
    (first : isDigit b = true)
    (scanned : ∀ rest, Delimited rest →
      scanNumber negative (b :: more ++ rest) = (.number (.ok n), rest)) :
    Part ((if negative then [0x2D] else []) ++ b :: more) [.number (.ok n)] := by
  intro rest delimited
  have token := scanned rest delimited
  have longer : rest.length ≤ (more ++ rest).length := by
    rw [List.length_append]
    omega
  cases negative with
  | true => exact Scans.one rfl token (Nat.le_succ_of_le longer)
  | false => exact Scans.one (isSpace_digit first) ((nextLexeme_digit first _).trans token) longer

/-- **A printed integer of 64 bits is scanned as that integer.** -/
theorem part_printInt {n : Int} (word : (Number.integer n).IsWord) :
    Part (printInt n) [.number (.ok (.integer n))] := by
  obtain ⟨low, high⟩ := word
  have fits : n.natAbs ≤ Numeral.maxWord64 := by
    unfold Numeral.maxWord64 at *
    omega
  have value (left : Nat) :
      wholeNumber (n < 0) ⟨n.natAbs, 0, false⟩ left = .ok (.integer n) := by
    by_cases negative : n < 0
    · have range : ¬(n.natAbs = 0 ∨ 9_223_372_036_854_775_808 < n.natAbs) := by omega
      have back : -(n.natAbs : Int) = n := by omega
      simp only [wholeNumber, negative, decide_true, Bool.false_eq_true, Bool.not_true, if_false,
        range, back]
    · have back : (n.natAbs : Int) = n := by omega
      simp only [wholeNumber, negative, decide_false, Bool.false_eq_true, Bool.not_false, if_false,
        if_true, back]
  have scanned (rest : Bytes) (delimited : Delimited rest) :
      scanNumber (n < 0) (digitBytes n.natAbs ++ rest) = (.number (.ok (.integer n)), rest) := by
    rw [scanNumber_digitBytes _ fits delimited, value]
  have text : printInt n = (if decide (n < 0) then [0x2D] else []) ++ digitBytes n.natAbs := by
    rw [printInt, digitBytes]
    simp only [decide_eq_true_eq]
  have digit := (spelledOut_digitBytes n.natAbs).digit
  rw [text]
  cases digits : digitBytes n.natAbs with
  | nil => exact absurd digits (digitBytes_ne_nil _)
  | cons b more =>
      rw [digits] at scanned digit
      exact part_number (digit b List.mem_cons_self) scanned

/-! ## Values -/

/-- Parts with a comma between each two. -/
def separated : List (List Lexeme) → List Lexeme
  | [] => []
  | part :: rest => part ++ rest.flatMap (.comma :: ·)

mutual

/-- The lexemes of the text of a value. -/
def Value.lexemes : Value → List Lexeme
  | .null => [.null]
  | .bool b => [.bool b]
  | .number n => [.number (.ok n)]
  | .string s => [.string (.ok s)]
  | .array items => .openBracket :: (separated (itemLexemes items) ++ [.closeBracket])
  | .object members => .openBrace :: (separated (memberLexemes members) ++ [.closeBrace])

def itemLexemes : List Value → List (List Lexeme)
  | [] => []
  | v :: rest => v.lexemes :: itemLexemes rest

def memberLexemes : List (String × Value) → List (List Lexeme)
  | [] => []
  | (name, v) :: rest => (.string (.ok name) :: .colon :: v.lexemes) :: memberLexemes rest

end

theorem itemLexemes_eq (items : List Value) : itemLexemes items = items.map Value.lexemes := by
  induction items with
  | nil => rfl
  | cons v rest ih => rw [itemLexemes, ih, List.map_cons]

theorem memberLexemes_eq (members : List (String × Value)) :
    memberLexemes members = members.map fun m => .string (.ok m.1) :: .colon :: m.2.lexemes := by
  induction members with
  | nil => rfl
  | cons m rest ih => rw [memberLexemes, ih, List.map_cons]

theorem commaSeparated_cons (part : Bytes) (rest : List Bytes) :
    commaSeparated (part :: rest) = part ++ rest.flatMap (0x2C :: ·) := by
  induction rest generalizing part with
  | nil => exact (List.append_nil part).symm
  | cons next rest ih => rw [commaSeparated, ih, List.flatMap_cons, List.cons_append]

/-- Parts that are scanned one by one are scanned in a row. -/
theorem scans_commaSeparated {α : Type} {text : α → Bytes} {lexemes : α → List Lexeme}
    {parts : List α} (each : ∀ a ∈ parts, Part (text a) (lexemes a)) :
    Part (commaSeparated (parts.map text)) (separated (parts.map lexemes)) := by
  intro rest delimited
  have further : ∀ more : List α, (∀ a ∈ more, Part (text a) (lexemes a)) →
      Delimited ((more.map text).flatMap (0x2C :: ·) ++ rest) ∧
      Scans ((more.map text).flatMap (0x2C :: ·) ++ rest) rest
        ((more.map lexemes).flatMap (.comma :: ·)) := by
    intro more
    induction more with
    | nil => exact fun _ => ⟨delimited, .nil⟩
    | cons a more ih =>
        intro each
        obtain ⟨first, others⟩ := List.forall_mem_cons.mp each
        obtain ⟨behind, scanned⟩ := ih others
        simp only [List.map_cons, List.flatMap_cons, List.cons_append, List.append_assoc]
        refine ⟨delimited_cons (by decide) _, ?_⟩
        have mark : Scans (0x2C :: (text a ++ ((more.map text).flatMap (0x2C :: ·) ++ rest))) _
          [.comma] := .one rfl rfl (Nat.le_refl _)
        exact mark.append ((first _ behind).append scanned)
  cases parts with
  | nil => exact .nil
  | cons a more =>
      obtain ⟨first, others⟩ := List.forall_mem_cons.mp each
      obtain ⟨behind, scanned⟩ := further more others
      rw [List.map_cons, List.map_cons, commaSeparated_cons, separated, List.append_assoc]
      exact (first _ behind).append scanned

/-- Whatever is scanned as a part is scanned between brackets. -/
theorem scans_enclosed {inside : Bytes} {lexemes : List Lexeme} (part : Part inside lexemes)
    {opening closing : UInt8} {opens closes : Lexeme}
    (starts : ∀ text, Scans (opening :: text) text [opens])
    (ends : ∀ text, Scans (closing :: text) text [closes])
    (stops : ∀ text, Delimited (closing :: text)) :
    Part (opening :: (inside ++ [closing])) (opens :: (lexemes ++ [closes])) := by
  intro rest _
  rw [List.cons_append, List.append_assoc]
  exact (starts _).append ((part _ (stops rest)).append (ends rest))

theorem scans_printMember (name : String) {value : Bytes} {lexemes : List Lexeme}
    (part : Part value lexemes) :
    Part (printMember name value) (.string (.ok name) :: .colon :: lexemes) := by
  intro rest delimited
  have colon : Scans (0x3A :: (value ++ rest)) (value ++ rest) [.colon] :=
    .one rfl rfl (Nat.le_refl _)
  rw [printMember, List.append_assoc]
  exact (scans_printString name _).append (colon.append (part rest delimited))

/-- **A printed value is scanned as its lexemes**, each number as what is made of its text. -/
theorem scans_print_mapNumbers {f : Number → Number} {v : Value}
    (number : ∀ n ∈ v.numbers, Part n.print [.number (.ok (f n))]) :
    Part v.print (v.mapNumbers f).lexemes := by
  induction v using Value.induction with
  | null =>
      intro rest _
      exact .one rfl rfl (Nat.le_add_right rest.length 3)
  | bool b =>
      intro rest _
      obtain _ | _ := b
      · exact .one rfl rfl (Nat.le_add_right rest.length 4)
      · exact .one rfl rfl (Nat.le_add_right rest.length 3)
  | number n => exact number n List.mem_cons_self
  | string s => exact fun rest _ => scans_printString s rest
  | array items ih =>
      have each := forall_numbers_array.mp number
      have inside : Part (commaSeparated (items.map Value.print))
          (separated (items.map fun v => (v.mapNumbers f).lexemes)) :=
        scans_commaSeparated fun v member => ih v member (each v member)
      rw [Value.print, Value.mapNumbers, Value.lexemes, printItems_eq, mapItemNumbers_eq,
        itemLexemes_eq, List.map_map]
      exact scans_enclosed inside (fun _ => .one rfl rfl (Nat.le_refl _))
        (fun _ => .one rfl rfl (Nat.le_refl _)) (delimited_cons (by decide))
  | object members ih =>
      have each := forall_numbers_object.mp number
      have inside := scans_commaSeparated fun m member =>
        scans_printMember m.1 (ih m member (each m member))
      rw [Value.print, Value.mapNumbers, Value.lexemes, printMembers_eq, mapMemberNumbers_eq,
        memberLexemes_eq, List.map_map]
      exact scans_enclosed inside (fun _ => .one rfl rfl (Nat.le_refl _))
        (fun _ => .one rfl rfl (Nat.le_refl _)) (delimited_cons (by decide))

/-- Integers of 64 bits are scanned as they are. -/
theorem scans_print {v : Value} (integral : v.Integral) : Part v.print v.lexemes := by
  have number : ∀ n ∈ v.numbers, Part n.print [.number (.ok (id n))] := by
    intro n member
    have word := integral n member
    obtain n | x := n
    · exact part_printInt word
    · exact absurd word id
  have same : v.mapNumbers id = v := Value.mapNumbers_of_fixed fun _ _ => rfl
  have scanned := scans_print_mapNumbers number
  rwa [same] at scanned

end Dispatch.Json
