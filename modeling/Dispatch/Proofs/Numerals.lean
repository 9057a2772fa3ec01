import Dispatch.Text.Numeral
import Mathlib.Algebra.Group.Nat.Defs
import Mathlib.Data.List.Basic

/-!
# Laws of numerals

The value of digit characters is `Nat.ofDigitChars 10`. Read is what `Denotes` a number in range, and
nothing else (`read_eq_ok_iff`), and what is written for a number denotes it (`denotes_write`). A
number above zero has no zero in front.
-/

set_option autoImplicit false

namespace Dispatch.Numeral

/-- Only digits. -/
def Digits (cs : List Char) : Prop := ∀ c ∈ cs, c.isDigit = true

/-- The number that digits stand for. -/
def value (cs : List Char) : Nat := Nat.ofDigitChars 10 cs 0

theorem range_of_isDigit {c : Char} (digit : c.isDigit = true) : 48 ≤ c.toNat ∧ c.toNat ≤ 57 := by
  simpa [Char.isDigit, UInt32.le_iff_toNat_le] using digit

theorem ne_of_isDigit {c : Char} (digit : c.isDigit = true) (mark : Char)
    (other : mark.isDigit = false) : c ≠ mark := by
  rintro rfl
  exact absurd digit (other ▸ Bool.false_ne_true)

theorem Digits.not_mem {cs : List Char} (only : Digits cs) {mark : Char}
    (other : mark.isDigit = false) : mark ∉ cs :=
  fun member => ne_of_isDigit (only mark member) mark other rfl

theorem digits_append {cs ds : List Char} : Digits (cs ++ ds) ↔ Digits cs ∧ Digits ds :=
  List.forall_mem_append

theorem digits_write (n : Nat) : Digits (write n) := fun _ =>
  Nat.isDigit_of_mem_toDigits (by decide) (by decide)

theorem write_ne_nil (n : Nat) : write n ≠ [] := Nat.toDigits_ne_nil

theorem value_write (n : Nat) : value (write n) = n :=
  Nat.ofDigitChars_toDigits (by decide) (by decide)

/-- A number above zero is not written with a zero in front. -/
theorem head?_write {n : Nat} (positive : 0 < n) : (write n).head? ≠ some '0' := by
  induction n using Nat.strongRecOn with
  | ind n ih =>
      rw [write, Nat.toDigits_eq_if (by decide)]
      split
      · rw [List.head?_cons, ne_eq, Option.some_inj, Nat.digitChar_eq_zero]
        exact Nat.ne_of_gt positive
      · rw [List.head?_append_of_ne_nil _ Nat.toDigits_ne_nil]
        exact ih (n / 10) (by omega) (by omega)

theorem digit?_of_isDigit {c : Char} (digit : c.isDigit = true) :
    digit? c = some (c.toNat - '0'.toNat) := if_pos digit

theorem digit?_of_not_isDigit {c : Char} (other : ¬ c.isDigit = true) : digit? c = none :=
  if_neg other

theorem le_ofDigitChars (cs : List Char) (n : Nat) : n ≤ Nat.ofDigitChars 10 cs n := by
  induction cs generalizing n with
  | nil => exact Nat.le_refl n
  | cons c cs ih =>
      rw [Nat.ofDigitChars_cons]
      exact Nat.le_trans (by omega) (ih _)

/-- A number is below the power of ten that its digits fill. -/
theorem value_lt {cs : List Char} (only : Digits cs) : value cs < 10 ^ cs.length := by
  have general : ∀ n, Nat.ofDigitChars 10 cs n < (n + 1) * 10 ^ cs.length := by
    induction cs with
    | nil => simp
    | cons c cs ih =>
        intro n
        obtain ⟨digit, others⟩ := List.forall_mem_cons.mp only
        have range := range_of_isDigit digit
        have zero : '0'.toNat = 48 := rfl
        rw [Nat.ofDigitChars_cons, List.length_cons, Nat.pow_succ, Nat.mul_comm _ 10,
          ← Nat.mul_assoc]
        refine Nat.lt_of_lt_of_le (ih others _) (Nat.mul_le_mul_right _ ?_)
        omega
  have below := general 0
  rwa [Nat.zero_add, Nat.one_mul] at below

/-- **Digits are read exactly if their number is in range.** -/
theorem readDigits_eq_ok_iff {largest v n : Nat} {cs : List Char} (fits : v ≤ largest) :
    readDigits largest v cs = .ok n ↔
      Digits cs ∧ Nat.ofDigitChars 10 cs v = n ∧ n ≤ largest := by
  induction cs generalizing v with
  | nil =>
      rw [readDigits, Except.ok.injEq]
      exact ⟨fun same => ⟨nofun, same, same ▸ fits⟩, fun read => read.2.1⟩
  | cons c cs ih =>
      rw [Digits, List.forall_mem_cons, Nat.ofDigitChars_cons, Nat.mul_comm 10, readDigits]
      by_cases digit : c.isDigit = true
      · rw [digit?_of_isDigit digit]
        by_cases step : v * 10 + (c.toNat - '0'.toNat) ≤ largest
        · simp only [step, if_true, ih step, digit, true_and, Digits]
        · have passed := le_ofDigitChars cs (v * 10 + (c.toNat - '0'.toNat))
          simp only [step, if_false, reduceCtorEq, false_iff]
          rintro ⟨-, rfl, within⟩
          exact step (Nat.le_trans passed within)
      · rw [digit?_of_not_isDigit digit]
        simp only [digit, reduceCtorEq, false_iff]
        exact fun both => both.1.1

/-- A text of a number: some digits, with a plus sign in front of them or without. -/
inductive Denotes : List Char → Nat → Prop where
  | bare {cs : List Char} (some_digit : cs ≠ []) (only : Digits cs) : Denotes cs (value cs)
  | signed {cs : List Char} (some_digit : cs ≠ []) (only : Digits cs) :
      Denotes ('+' :: cs) (value cs)

theorem Denotes.not_mem {cs : List Char} {n : Nat} (denotes : Denotes cs n) {mark : Char}
    (other : mark.isDigit = false) (unsigned : mark ≠ '+') : mark ∉ cs := by
  cases denotes with
  | bare _ only => exact only.not_mem other
  | signed _ only => exact List.not_mem_cons_of_ne_of_not_mem unsigned (only.not_mem other)

theorem denotes_write (n : Nat) : Denotes (write n) n := by
  have bare := Denotes.bare (write_ne_nil n) (digits_write n)
  rwa [value_write] at bare

/-- What has no sign is digits from its beginning. -/
theorem read_of_ne_plus {largest : Nat} {c : Char} (unsigned : c ≠ '+') (cs : List Char) :
    read largest (c :: cs) = readDigits largest 0 (c :: cs) := by
  unfold read
  split <;> simp_all

/-- **A text is read exactly if it is one of a number in range.** -/
theorem read_eq_ok_iff {largest n : Nat} {cs : List Char} :
    read largest cs = .ok n ↔ Denotes cs n ∧ n ≤ largest := by
  have digits (ds : List Char) : readDigits largest 0 ds = .ok n ↔
      Digits ds ∧ value ds = n ∧ n ≤ largest := readDigits_eq_ok_iff (Nat.zero_le largest)
  constructor
  · intro read
    obtain _ | ⟨c, cs⟩ := cs
    · cases read
    · by_cases sign : c = '+'
      · subst sign
        obtain _ | ⟨d, cs⟩ := cs
        · cases read
        · obtain ⟨only, rfl, fits⟩ := (digits (d :: cs)).mp read
          exact ⟨.signed (List.cons_ne_nil _ _) only, fits⟩
      · rw [read_of_ne_plus sign] at read
        obtain ⟨only, rfl, fits⟩ := (digits (c :: cs)).mp read
        exact ⟨.bare (List.cons_ne_nil _ _) only, fits⟩
  · rintro ⟨some_digit | some_digit, fits⟩
    all_goals
      rename_i only
      obtain ⟨c, cs, rfl⟩ := List.exists_cons_of_ne_nil some_digit
    · rw [read_of_ne_plus (ne_of_isDigit (only c List.mem_cons_self) '+' rfl)]
      exact (digits (c :: cs)).mpr ⟨only, rfl, fits⟩
    · exact (digits (c :: cs)).mpr ⟨only, rfl, fits⟩

end Dispatch.Numeral
