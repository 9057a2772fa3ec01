import Dispatch.Text.Utf8

/-!
# UTF-8 reads back

What `encode` writes, `scan` reads as the same characters (`scan_encode`), so a string survives its
travel as bytes (`toString?_ofString`) and different strings have different bytes. A character
takes one to four bytes; for each number of them one lemma says what `scan` does behind a lead
byte, and one that `encodeChar` writes such bytes. Surrogates and values past the last code point,
which `lead` shuts out by the range of the second byte, are no characters to begin with.
-/

set_option autoImplicit false

namespace Dispatch.Utf8

/-! ## Bytes by their values -/

theorem toNat_byte {n : Nat} (h : n < 0x100) : n.toUInt8.toNat = n :=
  UInt8.toNat_ofNat_of_lt' h

/-- The lead bytes by their values. -/
theorem lead_toUInt8 {n : Nat} (h : n < 0x100) :
    lead n.toUInt8 =
      if n < 0x80 then .ascii
      else if n < 0xC2 then .illFormed
      else if n < 0xE0 then .follow 1 0x80 0xBF
      else if n = 0xE0 then .follow 2 0xA0 0xBF
      else if n = 0xED then .follow 2 0x80 0x9F
      else if n < 0xF0 then .follow 2 0x80 0xBF
      else if n = 0xF0 then .follow 3 0x90 0xBF
      else if n < 0xF4 then .follow 3 0x80 0xBF
      else if n = 0xF4 then .follow 3 0x80 0x8F
      else .illFormed := by
  simp only [lead, UInt8.lt_iff_toNat_lt, ← UInt8.toNat_inj, toNat_byte h]
  rfl

/-- Six bits in a following byte. -/
theorem tail_toUInt8 {n : Nat} (h : n < 0x40) :
    isTail (0x80 + n).toUInt8 = true ∧ tailBits (0x80 + n).toUInt8 = n := by
  have value : (0x80 + n).toUInt8.toNat = 0x80 + n := toNat_byte (by omega)
  constructor
  · simp only [isTail, UInt8.le_iff_toNat_le, value, Bool.and_eq_true, decide_eq_true_eq]
    show 0x80 ≤ 0x80 + n ∧ 0x80 + n ≤ 0xBF
    omega
  · rw [tailBits, value]
    omega

/-- A second byte within the range of its lead byte. -/
theorem second_toUInt8 {n : Nat} {low high : UInt8} (h : n < 0x100) (above : low.toNat ≤ n)
    (below : n ≤ high.toNat) : (low ≤ n.toUInt8 && n.toUInt8 ≤ high) = true := by
  simp only [UInt8.le_iff_toNat_le, toNat_byte h, Bool.and_eq_true, decide_eq_true_eq]
  exact ⟨above, below⟩

/-! ## Scanning one character -/

section Scan

variable {a b c d : UInt8} {low high : UInt8} {rest : Bytes}

theorem scan_one (first : lead a = .ascii) :
    scan (a :: rest) = some (Char.ofNat a.toNat) :: scan rest := by
  rw [scan]
  simp only [first]

theorem scan_two (first : lead a = .follow 1 low high) (second : (low ≤ b && b ≤ high) = true) :
    scan (a :: b :: rest) =
      some (Char.ofNat (a.toNat % 0x20 * 0x40 + tailBits b)) :: scan rest := by
  rw [scan]
  simp only [first, second, if_true]

theorem scan_three (first : lead a = .follow 2 low high) (second : (low ≤ b && b ≤ high) = true)
    (third : isTail c = true) :
    scan (a :: b :: c :: rest) =
      some (Char.ofNat ((a.toNat % 0x10 * 0x40 + tailBits b) * 0x40 + tailBits c)) ::
        scan rest := by
  rw [scan]
  simp only [first, second, third, if_true]
  rfl

theorem scan_four (first : lead a = .follow 3 low high) (second : (low ≤ b && b ≤ high) = true)
    (third : isTail c = true) (fourth : isTail d = true) :
    scan (a :: b :: c :: d :: rest) =
      some (Char.ofNat (((a.toNat % 0x08 * 0x40 + tailBits b) * 0x40 + tailBits c) * 0x40 +
        tailBits d)) :: scan rest := by
  rw [scan]
  simp only [first, second, third, fourth, if_true]
  rfl

end Scan

/-! ## Reading back -/

/-- The bytes of a character are read as that character. -/
theorem scan_encodeChar (c : Char) (rest : Bytes) :
    scan (encodeChar c ++ rest) = some c :: scan rest := by
  have valid : c.toNat < 0xD800 ∨ 0xDFFF < c.toNat ∧ c.toNat < 0x110000 := c.valid
  have back : Char.ofNat c.toNat = c := Char.ofNat_toNat c
  unfold encodeChar
  generalize c.toNat = n at valid back ⊢
  by_cases one : n < 0x80
  · have first : lead n.toUInt8 = .ascii := by
      rw [lead_toUInt8 (by omega), if_pos one]
    simp only [one, if_true, List.cons_append, List.nil_append]
    rw [scan_one first, toNat_byte (by omega), back]
  by_cases two : n < 0x800
  · have first : lead (0xC0 + n / 0x40).toUInt8 = .follow 1 0x80 0xBF := by
      rw [lead_toUInt8 (by omega), if_neg (by omega), if_neg (by omega), if_pos (by omega)]
    obtain ⟨tail, bits⟩ := tail_toUInt8 (n := n % 0x40) (by omega)
    have point : (0xC0 + n / 0x40) % 0x20 * 0x40 + n % 0x40 = n := by omega
    simp only [one, two, if_true, if_false, List.cons_append, List.nil_append]
    rw [scan_two first tail, toNat_byte (by omega), bits, point, back]
  by_cases three : n < 0x10000
  · obtain ⟨low, high, first, above, below⟩ : ∃ low high : UInt8,
        lead (0xE0 + n / 0x1000).toUInt8 = .follow 2 low high ∧
          low.toNat ≤ 0x80 + n / 0x40 % 0x40 ∧ 0x80 + n / 0x40 % 0x40 ≤ high.toNat := by
      rw [lead_toUInt8 (by omega), if_neg (by omega), if_neg (by omega), if_neg (by omega)]
      by_cases lowest : 0xE0 + n / 0x1000 = 0xE0
      · exact ⟨0xA0, 0xBF, if_pos lowest, show 0xA0 ≤ _ by omega, show _ ≤ 0xBF by omega⟩
      rw [if_neg lowest]
      by_cases surrogates : 0xE0 + n / 0x1000 = 0xED
      · exact ⟨0x80, 0x9F, if_pos surrogates, show 0x80 ≤ _ by omega, show _ ≤ 0x9F by omega⟩
      rw [if_neg surrogates, if_pos (by omega)]
      exact ⟨0x80, 0xBF, rfl, show 0x80 ≤ _ by omega, show _ ≤ 0xBF by omega⟩
    have bits := (tail_toUInt8 (n := n / 0x40 % 0x40) (by omega)).2
    obtain ⟨tail, last⟩ := tail_toUInt8 (n := n % 0x40) (by omega)
    have point : ((0xE0 + n / 0x1000) % 0x10 * 0x40 + n / 0x40 % 0x40) * 0x40 + n % 0x40 = n := by
      omega
    simp only [one, two, three, if_true, if_false, List.cons_append, List.nil_append]
    rw [scan_three first (second_toUInt8 (by omega) above below) tail, toNat_byte (by omega), bits,
      last, point, back]
  · obtain ⟨low, high, first, above, below⟩ : ∃ low high : UInt8,
        lead (0xF0 + n / 0x40000).toUInt8 = .follow 3 low high ∧
          low.toNat ≤ 0x80 + n / 0x1000 % 0x40 ∧ 0x80 + n / 0x1000 % 0x40 ≤ high.toNat := by
      rw [lead_toUInt8 (by omega), if_neg (by omega), if_neg (by omega), if_neg (by omega),
        if_neg (by omega), if_neg (by omega), if_neg (by omega)]
      by_cases lowest : 0xF0 + n / 0x40000 = 0xF0
      · exact ⟨0x90, 0xBF, if_pos lowest, show 0x90 ≤ _ by omega, show _ ≤ 0xBF by omega⟩
      rw [if_neg lowest]
      by_cases between : 0xF0 + n / 0x40000 < 0xF4
      · exact ⟨0x80, 0xBF, if_pos between, show 0x80 ≤ _ by omega, show _ ≤ 0xBF by omega⟩
      rw [if_neg between, if_pos (by omega)]
      exact ⟨0x80, 0x8F, rfl, show 0x80 ≤ _ by omega, show _ ≤ 0x8F by omega⟩
    have bits := (tail_toUInt8 (n := n / 0x1000 % 0x40) (by omega)).2
    obtain ⟨tail, third⟩ := tail_toUInt8 (n := n / 0x40 % 0x40) (by omega)
    obtain ⟨tail', last⟩ := tail_toUInt8 (n := n % 0x40) (by omega)
    have point : (((0xF0 + n / 0x40000) % 0x08 * 0x40 + n / 0x1000 % 0x40) * 0x40 +
        n / 0x40 % 0x40) * 0x40 + n % 0x40 = n := by
      omega
    simp only [one, two, three, if_false, List.cons_append, List.nil_append]
    rw [scan_four first (second_toUInt8 (by omega) above below) tail tail', toNat_byte (by omega),
      bits, third, last, point, back]

theorem scan_encode (cs : List Char) : scan (encode cs) = cs.map some := by
  induction cs with
  | nil => rfl
  | cons c rest ih =>
      rw [encode, List.flatMap_cons, scan_encodeChar, List.map_cons]
      exact congrArg _ ih

/-- **The bytes of a text are read as that text.** -/
theorem decode?_encode (cs : List Char) : decode? (encode cs) = some cs := by
  rw [decode?, scan_encode]
  induction cs with
  | nil => rfl
  | cons c rest ih => simp only [List.map_cons, List.mapM_cons, ih]; rfl

theorem toString?_ofString (s : String) : toString? (ofString s) = some s := by
  rw [toString?, ofString, decode?_encode, Option.map_some, String.ofList_toList]

/-- Different strings have different bytes. -/
theorem ofString_inj {s t : String} : ofString s = ofString t ↔ s = t := by
  refine ⟨fun same => ?_, congrArg _⟩
  have read := congrArg toString? same
  rw [toString?_ofString, toString?_ofString] at read
  exact Option.some.inj read

/-- An ASCII character is one byte. -/
theorem encodeChar_of_lt {n : Nat} (h : n < 0x80) : encodeChar (Char.ofNat n) = [n.toUInt8] := by
  have valid : n.isValidChar := Or.inl (by omega)
  have value : (Char.ofNat n).toNat = n := by
    rw [Char.ofNat, dif_pos valid]
    rfl
  rw [encodeChar, value]
  exact if_pos h

end Dispatch.Utf8
