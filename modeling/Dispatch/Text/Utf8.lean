/-!
# UTF-8

Text travels as bytes. `encode` writes characters; `scan` reads bytes back as characters and
ill-formed stretches, and the three ways a reader may treat those stretches are views of that one
scan: refuse them (`decode?`), replace them (`decodeLossy`), or measure how far the text is well
formed (`validLength`).
-/

set_option autoImplicit false

namespace Dispatch

/-- A text or message as it travels: bytes, well formed or not. -/
abbrev Bytes := List UInt8

namespace Utf8

/-- The bytes of one character, shortest form. -/
def encodeChar (c : Char) : Bytes :=
  let n := c.toNat
  if n < 0x80 then [n.toUInt8]
  else if n < 0x800 then [(0xC0 + n / 0x40).toUInt8, (0x80 + n % 0x40).toUInt8]
  else if n < 0x10000 then
    [(0xE0 + n / 0x1000).toUInt8, (0x80 + n / 0x40 % 0x40).toUInt8, (0x80 + n % 0x40).toUInt8]
  else
    [(0xF0 + n / 0x40000).toUInt8, (0x80 + n / 0x1000 % 0x40).toUInt8,
      (0x80 + n / 0x40 % 0x40).toUInt8, (0x80 + n % 0x40).toUInt8]

/-- The bytes of a list of characters. -/
def encode (cs : List Char) : Bytes := cs.flatMap encodeChar

/-- The bytes of a string. -/
def ofString (s : String) : Bytes := encode s.toList

/-- What a first byte promises: how many bytes follow, and the range of the first of those. -/
inductive Lead where
  | ascii
  | follow (count : Nat) (low high : UInt8)
  | illFormed

/-- Overlong forms, surrogates and values past the last code point are excluded by the range of
the second byte. -/
def lead (a : UInt8) : Lead :=
  if a < 0x80 then .ascii
  else if a < 0xC2 then .illFormed
  else if a < 0xE0 then .follow 1 0x80 0xBF
  else if a = 0xE0 then .follow 2 0xA0 0xBF
  else if a = 0xED then .follow 2 0x80 0x9F
  else if a < 0xF0 then .follow 2 0x80 0xBF
  else if a = 0xF0 then .follow 3 0x90 0xBF
  else if a < 0xF4 then .follow 3 0x80 0xBF
  else if a = 0xF4 then .follow 3 0x80 0x8F
  else .illFormed

def isTail (b : UInt8) : Bool := 0x80 ≤ b && b ≤ 0xBF

/-- The six payload bits of a following byte. -/
def tailBits (b : UInt8) : Nat := b.toNat % 0x40

/-- Reads bytes as characters; `none` stands for a maximal stretch that no character starts with,
so a truncated character counts once and reading resumes at the byte that broke it. -/
def scan : Bytes → List (Option Char)
  | [] => []
  | a :: rest =>
    match lead a with
    | .ascii => some (Char.ofNat a.toNat) :: scan rest
    | .illFormed => none :: scan rest
    | .follow count low high =>
      match rest with
      | [] => [none]
      | b :: afterB =>
        if low ≤ b && b ≤ high then
          if count = 1 then
            some (Char.ofNat (a.toNat % 0x20 * 0x40 + tailBits b)) :: scan afterB
          else
            match afterB with
            | [] => [none]
            | c :: afterC =>
              if isTail c then
                if count = 2 then
                  some (Char.ofNat ((a.toNat % 0x10 * 0x40 + tailBits b) * 0x40 + tailBits c))
                    :: scan afterC
                else
                  match afterC with
                  | [] => [none]
                  | d :: afterD =>
                    if isTail d then
                      some (Char.ofNat (((a.toNat % 0x08 * 0x40 + tailBits b) * 0x40 + tailBits c)
                        * 0x40 + tailBits d)) :: scan afterD
                    else none :: scan (d :: afterD)
              else none :: scan (c :: afterC)
        else none :: scan (b :: afterB)

/-- The characters of a well-formed text. -/
def decode? (bytes : Bytes) : Option (List Char) := (scan bytes).mapM id

/-- The characters, each ill-formed stretch replaced by U+FFFD. -/
def decodeLossy (bytes : Bytes) : List Char := (scan bytes).map (·.getD '\uFFFD')

/-- How many bytes stand before the first ill-formed stretch. -/
def validLength (bytes : Bytes) : Nat :=
  ((scan bytes).takeWhile (·.isSome)).foldl
    (fun n c => n + ((c.map encodeChar).getD []).length) 0

/-- The string of a well-formed text. -/
def toString? (bytes : Bytes) : Option String := (decode? bytes).map String.ofList

/-- The string of a text, each ill-formed stretch replaced by U+FFFD. -/
def toStringLossy (bytes : Bytes) : String := String.ofList (decodeLossy bytes)

end Utf8

end Dispatch
