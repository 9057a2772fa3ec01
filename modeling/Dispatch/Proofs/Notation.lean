import Dispatch.Time.Notation
import Dispatch.Proofs.Numerals
import Mathlib.Algebra.Group.Nat.Defs
import Mathlib.Data.List.TakeWhile

/-!
# Laws of the compact notation

A text is read exactly if it `Names` an amount of a unit (`parse?_eq_some_iff`). So the notation
names the spans of whole seconds and of whole milliseconds that fit a word, and no others
(`nameable_iff`). What is written for one of them may have another unit than it was read in, but
names the same span (`parse?_compact`).
-/

set_option autoImplicit false

namespace Dispatch

/-! ## Ends of a text -/

theorem stripSuffix?_eq_some_iff {suffix cs rest : List Char} :
    stripSuffix? suffix cs = some rest ↔ cs = rest ++ suffix := by
  rw [stripSuffix?, Option.ite_none_right_eq_some, List.isSuffixOf_iff_suffix, Option.some_inj]
  constructor
  · rintro ⟨⟨before, rfl⟩, taken⟩
    rw [List.length_append, Nat.add_sub_cancel, List.take_left] at taken
    rw [taken]
  · rintro rfl
    rw [List.length_append, Nat.add_sub_cancel, List.take_left]
    exact ⟨List.suffix_append rest suffix, rfl⟩

/-- A text does not end with a letter that it does not have. -/
theorem stripSuffix?_eq_none {suffix cs : List Char} {c : Char} (ends : c ∈ suffix)
    (apart : c ∉ cs) : stripSuffix? suffix cs = none := by
  refine Option.eq_none_iff_forall_ne_some.mpr fun rest stripped => apart ?_
  rw [stripSuffix?_eq_some_iff.mp stripped]
  exact List.mem_append_right rest ends

theorem isBlank_of_isDigit {c : Char} (digit : c.isDigit = true) : isBlank c = false := by
  have range := Numeral.range_of_isDigit digit
  simp only [isBlank, Bool.or_eq_false_iff, Bool.and_eq_false_iff, decide_eq_false_iff_not]
  omega

/-- Only blanks. -/
def Blank (cs : List Char) : Prop := ∀ c ∈ cs, isBlank c = true

theorem dropWhile_blank {before cs : List Char} (blank : Blank before)
    (none : ∀ c ∈ cs, isBlank c = false) : (before ++ cs).dropWhile isBlank = cs := by
  rw [List.dropWhile_append_of_pos blank]
  obtain _ | ⟨c, cs⟩ := cs
  · rfl
  · rw [List.dropWhile_cons, none c List.mem_cons_self]
    rfl

/-- A text without blanks is what is left when blanks around it are trimmed. -/
theorem trimBlank_append {before cs after : List Char} (blank : Blank before)
    (blankAfter : Blank after) (none : ∀ c ∈ cs, isBlank c = false) :
    trimBlank (before ++ cs ++ after) = cs := by
  have reversed : ∀ c ∈ cs.reverse, isBlank c = false := fun c member =>
    none c (List.mem_reverse.mp member)
  obtain _ | ⟨c, rest⟩ := cs
  · have all : Blank (before ++ after) := List.forall_mem_append.mpr ⟨blank, blankAfter⟩
    have dropped : (before ++ after ++ []).dropWhile isBlank = [] := dropWhile_blank all nofun
    rw [List.append_nil] at dropped
    rw [List.append_nil, trimBlank, dropped]
    rfl
  · have head : isBlank c = false := none c List.mem_cons_self
    have front : (before ++ (c :: rest) ++ after).dropWhile isBlank = c :: rest ++ after := by
      rw [List.append_assoc, List.dropWhile_append_of_pos blank, List.cons_append,
        List.dropWhile_cons, head]
      rfl
    have back : Blank after.reverse := fun c member => blankAfter c (List.mem_reverse.mp member)
    rw [trimBlank, front, List.reverse_append, dropWhile_blank back reversed, List.reverse_reverse]

/-- Trimming takes nothing away but blanks. -/
theorem exists_trimBlank (cs : List Char) :
    ∃ before after, cs = before ++ trimBlank cs ++ after ∧ Blank before ∧ Blank after := by
  let tail := cs.dropWhile isBlank
  refine ⟨cs.takeWhile isBlank, (tail.reverse.takeWhile isBlank).reverse, ?_,
    fun c => List.mem_takeWhile_imp,
    fun c member => List.mem_takeWhile_imp (List.mem_reverse.mp member)⟩
  have whole : trimBlank cs ++ (tail.reverse.takeWhile isBlank).reverse = tail := by
    rw [trimBlank, ← List.reverse_append, List.takeWhile_append_dropWhile, List.reverse_reverse]
  rw [List.append_assoc, whole, List.takeWhile_append_dropWhile]

namespace Duration

/-! ## Reading -/

/-- What may stand behind an amount of a unit. -/
inductive TimeUnit.Mark : List Char → TimeUnit → Prop where
  | millis : Mark ['m', 's'] .millis
  | secs : Mark ['s'] .secs
  | mins : Mark ['m'] .mins
  | nothing : Mark [] .secs

theorem TimeUnit.Mark.not_blank {mark : List Char} {unit : TimeUnit} (marked : Mark mark unit) :
    ∀ c ∈ mark, isBlank c = false := by
  cases marked <;> simp <;> decide

/-- What stands for a unit behind an amount. -/
def TimeUnit.suffix : TimeUnit → List Char
  | .millis => ['m', 's']
  | .secs => ['s']
  | .mins => ['m']

theorem TimeUnit.mark_suffix (unit : TimeUnit) : Mark unit.suffix unit := by
  cases unit <;> constructor

/-- A text is its amount and a mark of its unit. -/
theorem exists_mark (cs : List Char) :
    ∃ mark, TimeUnit.Mark mark (splitUnit cs).2 ∧ cs = (splitUnit cs).1 ++ mark := by
  unfold splitUnit
  split
  · exact ⟨_, .millis, stripSuffix?_eq_some_iff.mp ‹_›⟩
  · split
    · exact ⟨_, .secs, stripSuffix?_eq_some_iff.mp ‹_›⟩
    · split
      · exact ⟨_, .mins, stripSuffix?_eq_some_iff.mp ‹_›⟩
      · exact ⟨[], .nothing, (List.append_nil cs).symm⟩

/-- An amount without letters is told from the mark behind it. -/
theorem splitUnit_append {amount mark : List Char} {unit : TimeUnit} (no_m : 'm' ∉ amount)
    (no_s : 's' ∉ amount) (marked : TimeUnit.Mark mark unit) :
    splitUnit (amount ++ mark) = (amount, unit) := by
  have stripped (suffix : List Char) : stripSuffix? suffix (amount ++ suffix) = some amount :=
    stripSuffix?_eq_some_iff.mpr rfl
  have other {suffix mark : List Char} (c : Char) (ends : c ∈ suffix) (amount_without : c ∉ amount)
      (mark_without : c ∉ mark) : stripSuffix? suffix (amount ++ mark) = none :=
    stripSuffix?_eq_none ends (List.not_mem_append amount_without mark_without)
  unfold splitUnit
  cases marked with
  | millis => rw [stripped]
  | secs => rw [other 'm' (by decide) no_m (by decide), stripped]
  | mins =>
      rw [other 's' (by decide) no_s (by decide), other 's' (by decide) no_s (by decide), stripped]
  | nothing =>
      rw [other 's' (by decide) no_s (by decide), other 's' (by decide) no_s (by decide),
        other 'm' (by decide) no_m (by decide), List.append_nil]

theorem isBlank_of_denotes {amount : List Char} {n : Nat} (denotes : Numeral.Denotes amount n) :
    ∀ c ∈ amount, isBlank c = false := by
  have digits {cs : List Char} (only : Numeral.Digits cs) : ∀ c ∈ cs, isBlank c = false :=
    fun c member => isBlank_of_isDigit (only c member)
  cases denotes with
  | bare _ only => exact digits only
  | signed _ only => exact List.forall_mem_cons.mpr ⟨by decide, digits only⟩

/-- How many nanoseconds a unit has. -/
def TimeUnit.nanos : TimeUnit → Nat
  | .millis => 1_000_000
  | .secs => 1_000_000_000
  | .mins => 60_000_000_000

/-- There is that amount of the unit: it is a word, and so are the seconds of that many minutes. -/
def TimeUnit.Fits (n : Nat) (unit : TimeUnit) : Prop :=
  n < 2 ^ 64 ∧ (unit = .mins → n * 60 < 2 ^ 64)

theorem toNat_toUInt64 {n : Nat} (fits : n ≤ Numeral.maxWord64) : n.toUInt64.toNat = n :=
  UInt64.toNat_ofNat_of_lt' (Nat.lt_succ_of_le fits)

theorem nanos_ofMillis {n : Nat} (fits : n ≤ Numeral.maxWord64) :
    (ofMillis n.toUInt64).nanos = 1_000_000 * n := congrArg (1_000_000 * ·) (toNat_toUInt64 fits)

theorem nanos_ofSecs {n : Nat} (fits : n ≤ Numeral.maxWord64) :
    (ofSecs n.toUInt64).nanos = 1_000_000_000 * n :=
  congrArg (1_000_000_000 * ·) (toNat_toUInt64 fits)

theorem eq_of_nanos {d other : Duration} (same : d.nanos = other.nanos) : d = other := by
  cases d
  cases other
  cases same
  rfl

/-- **An amount of a unit is so many times its nanoseconds.** -/
theorem exists_ofAmount {n : Nat} {unit : TimeUnit} (fits : unit.Fits n) :
    ∃ d, ofAmount n unit = some d ∧ d.nanos = n * unit.nanos := by
  obtain ⟨word, minutes⟩ := fits
  have amount : n ≤ Numeral.maxWord64 := Nat.le_of_lt_succ word
  cases unit with
  | millis => exact ⟨_, rfl, (nanos_ofMillis amount).trans (Nat.mul_comm ..)⟩
  | secs => exact ⟨_, rfl, (nanos_ofSecs amount).trans (Nat.mul_comm ..)⟩
  | mins =>
      have seconds : n * 60 ≤ Numeral.maxWord64 := Nat.le_of_lt_succ (minutes rfl)
      refine ⟨_, if_pos seconds, ?_⟩
      rw [nanos_ofSecs seconds, TimeUnit.nanos, Nat.mul_comm, Nat.mul_assoc]

theorem fits_of_ofAmount {n : Nat} {unit : TimeUnit} {d : Duration} (word : n ≤ Numeral.maxWord64)
    (named : ofAmount n unit = some d) : unit.Fits n := by
  refine ⟨Nat.lt_succ_of_le word, ?_⟩
  rintro rfl
  rw [ofAmount, Option.ite_none_right_eq_some] at named
  exact Nat.lt_succ_of_le named.1

/-- Between blanks, the text has a number and a mark of a unit that there is so much of. -/
inductive Names : List Char → Nat → TimeUnit → Prop where
  | amount {before digits mark after : List Char} {n : Nat} {unit : TimeUnit}
      (blank : Blank before) (blankAfter : Blank after) (denotes : Numeral.Denotes digits n)
      (marked : TimeUnit.Mark mark unit) (fits : unit.Fits n) :
      Names (before ++ (digits ++ mark) ++ after) n unit

/-- **A text is read exactly if it names an amount of a unit.** -/
theorem parse?_eq_some_iff {cs : List Char} {d : Duration} :
    parse? cs = some d ↔ ∃ (n : Nat) (unit : TimeUnit), Names cs n unit ∧ d.nanos = n * unit.nanos := by
  constructor
  · intro read
    obtain ⟨before, after, whole, blank, blankAfter⟩ := exists_trimBlank cs
    obtain ⟨mark, marked, parts⟩ := exists_mark (trimBlank cs)
    unfold parse? at read
    dsimp only at read
    split at read
    · rename_i n amount
      obtain ⟨denotes, word⟩ := Numeral.read_eq_ok_iff.mp amount
      have fits := fits_of_ofAmount word read
      obtain ⟨_, named, nanos⟩ := exists_ofAmount fits
      obtain rfl := Option.some.inj (read.symm.trans named)
      rw [parts] at whole
      rw [whole]
      exact ⟨n, _, .amount blank blankAfter denotes marked fits, nanos⟩
    · cases read
  · rintro ⟨n, unit, ⟨blank, blankAfter, denotes, marked, fits⟩, nanos⟩
    rename_i before digits mark after
    have none : ∀ c ∈ digits ++ mark, isBlank c = false :=
      List.forall_mem_append.mpr ⟨isBlank_of_denotes denotes, marked.not_blank⟩
    obtain ⟨other, named, nanosToo⟩ := exists_ofAmount fits
    rw [parse?, trimBlank_append blank blankAfter none,
      splitUnit_append (denotes.not_mem rfl (by decide)) (denotes.not_mem rfl (by decide)) marked]
    have number : Numeral.read Numeral.maxWord64 digits = .ok n :=
      Numeral.read_eq_ok_iff.mpr ⟨denotes, Nat.le_of_lt_succ fits.1⟩
    rw [eq_of_nanos (nanos.trans nanosToo.symm)]
    simp only [number, named]

/-- Whatever is named can be read. -/
theorem Names.isSome {cs : List Char} {n : Nat} {unit : TimeUnit} (names : Names cs n unit) :
    (parse? cs).isSome = true := by
  obtain ⟨before, after, denotes, marked, fits⟩ := id names
  obtain ⟨d, -, nanos⟩ := exists_ofAmount fits
  rw [parse?_eq_some_iff.mpr ⟨n, unit, names, nanos⟩]
  rfl

/-- A span of whole seconds or of whole milliseconds that fit a word. -/
def Nameable (d : Duration) : Prop := (∃ n, d = ofSecs n) ∨ ∃ n, d = ofMillis n

theorem nameable_iff {d : Duration} :
    d.Nameable ↔ d.nanos % 1_000_000 = 0 ∧
      (d.nanos % 1_000_000_000 = 0 ∨ d.nanos / 1_000_000 < 2 ^ 64) := by
  have bounded := d.bounded
  have largest : Numeral.maxWord64 = 2 ^ 64 - 1 := rfl
  constructor
  · rintro (⟨n, rfl⟩ | ⟨n, rfl⟩)
    · have nanos : (ofSecs n).nanos = 1_000_000_000 * n.toNat := rfl
      omega
    · have nanos : (ofMillis n).nanos = 1_000_000 * n.toNat := rfl
      have word := n.toNat_lt
      omega
  · rintro ⟨whole, seconds | small⟩
    · refine .inl ⟨(d.nanos / 1_000_000_000).toUInt64, eq_of_nanos ?_⟩
      rw [nanos_ofSecs (by omega)]
      omega
    · refine .inr ⟨(d.nanos / 1_000_000).toUInt64, eq_of_nanos ?_⟩
      rw [nanos_ofMillis (by omega)]
      omega

/-- **Whatever is read is nameable.** -/
theorem nameable_of_parse? {cs : List Char} {d : Duration} (read : parse? cs = some d) :
    d.Nameable := by
  obtain ⟨n, unit, ⟨-, -, -, -, word, -⟩, nanos⟩ := parse?_eq_some_iff.mp read
  rw [nameable_iff, nanos]
  cases unit <;> simp only [TimeUnit.nanos] <;> omega

/-! ## Writing -/

/-- Every duration is written as an amount of a unit, and a nameable one is that amount. -/
theorem compact_eq (d : Duration) :
    ∃ (n : Nat) (unit : TimeUnit), d.compact = Numeral.write n ++ unit.suffix ∧
      (d.Nameable → unit.Fits n ∧ d.nanos = n * unit.nanos) := by
  have millis : d.millis = d.nanos / 1_000_000 := rfl
  have bounded := d.bounded
  rw [nameable_iff]
  unfold compact
  dsimp only
  split
  · refine ⟨_, .mins, rfl, fun whole => ⟨⟨by omega, fun _ => by omega⟩, ?_⟩⟩
    simp only [TimeUnit.nanos]
    omega
  · split
    · refine ⟨_, .secs, rfl, fun whole => ⟨⟨by omega, nofun⟩, ?_⟩⟩
      simp only [TimeUnit.nanos]
      omega
    · refine ⟨_, .millis, rfl, fun whole => ⟨⟨by omega, nofun⟩, ?_⟩⟩
      simp only [TimeUnit.nanos]
      omega

/-- **A nameable duration is read back**, whatever unit it is written in. -/
theorem parse?_compact {d : Duration} (nameable : d.Nameable) : parse? d.compact = some d := by
  obtain ⟨n, unit, written, named⟩ := compact_eq d
  obtain ⟨fits, nanos⟩ := named nameable
  have names : Names ([] ++ (Numeral.write n ++ unit.suffix) ++ []) n unit :=
    .amount nofun nofun (Numeral.denotes_write n) unit.mark_suffix fits
  rw [List.nil_append, List.append_nil, ← written] at names
  exact parse?_eq_some_iff.mpr ⟨n, unit, names, nanos⟩

/-! ## Strings -/

theorem ofString?_text {d : Duration} (nameable : d.Nameable) : ofString? d.text = some d := by
  rw [ofString?, text, String.toList_ofList, parse?_compact nameable]

/-- **The compact notation, read and written.** A string is read exactly if it names an amount of a
unit, and as that amount. What a duration is written as is read as that very duration exactly if it
is a whole number of milliseconds, and of seconds too where its milliseconds are no word. This is so
for all that is read: it can be written and read again. -/
theorem notation_exact :
    (∀ s : String, (ofString? s).isSome = true ↔
      ∃ (n : Nat) (unit : TimeUnit), Names s.toList n unit) ∧
    (∀ (s : String) (d : Duration), ofString? s = some d ↔
      ∃ (n : Nat) (unit : TimeUnit), Names s.toList n unit ∧ d.nanos = n * unit.nanos) ∧
    (∀ d : Duration, ofString? d.text = some d ↔
      d.nanos % 1_000_000 = 0 ∧ (d.nanos % 1_000_000_000 = 0 ∨ d.nanos / 1_000_000 < 2 ^ 64)) ∧
    ∀ s : String, ((ofString? s).bind fun d => ofString? d.text) = ofString? s := by
  refine ⟨fun s => ⟨fun read => ?_, ?_⟩, fun s d => parse?_eq_some_iff, fun d => ?_, fun s => ?_⟩
  · obtain ⟨d, read⟩ := Option.isSome_iff_exists.mp read
    obtain ⟨n, unit, names, -⟩ := parse?_eq_some_iff.mp read
    exact ⟨n, unit, names⟩
  · rintro ⟨n, unit, names⟩
    exact names.isSome
  · rw [← nameable_iff]
    exact ⟨nameable_of_parse?, ofString?_text⟩
  · cases read : ofString? s with
    | none => rfl
    | some d =>
        rw [Option.bind_some]
        exact ofString?_text (nameable_of_parse? read)

/-- A plus sign, zeros in front and blanks at the ends are passed over, a blank inside is not. -/
example : (ofString? " +0120s\n").map (·.text) = some "2m" ∧ ofString? "2 m" = none := by
  decide +kernel

end Duration

end Dispatch
