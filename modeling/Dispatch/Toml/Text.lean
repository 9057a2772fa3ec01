import Dispatch.Toml.Value

/-!
# Blanks, strings and keys in TOML

The parts of a TOML text that hold characters: what may stand between values, the four kinds of
strings, and keys. Every reader takes the text and gives what it read together with the rest.
-/

set_option autoImplicit false

namespace Dispatch.Toml

/-- A character that can be part of a text: the tab and all that is neither a control character
nor the delete character. -/
def isTextChar (c : Char) : Bool := c = '\t' || (0x20 ≤ c.toNat && c.toNat ≠ 0x7F)

def isWs (c : Char) : Bool := c = ' ' || c = '\t'

/-- Blanks within a line. -/
def skipWs (text : List Char) : List Char := text.dropWhile isWs

/-- Blanks, a comment and the end of a line; the end of the text also ends a line. -/
def endLine : (inComment : Bool) → List Char → Option (List Char)
  | _, [] => some []
  | inComment, c :: rest =>
    if c = '\n' then some rest
    else if c = '\r' then
      match rest with
      | '\n' :: behind => some behind
      | _ => none
    else if inComment then (if isTextChar c then endLine true rest else none)
    else if isWs c then endLine false rest
    else if c = '#' then endLine true rest
    else none

/-- Blanks, comments and line breaks between the items of an array. A comment must end with its
line. -/
def skipLines : (inComment : Bool) → List Char → Option (List Char)
  | false, [] => some []
  | true, [] => none
  | inComment, c :: rest =>
    if c = '\n' then skipLines false rest
    else if c = '\r' then
      match rest with
      | '\n' :: _ => skipLines inComment rest
      | _ => none
    else if inComment then (if isTextChar c then skipLines true rest else none)
    else if isWs c then skipLines false rest
    else if c = '#' then skipLines true rest
    else some (c :: rest)

/-! ## Strings -/

/-- The value of a hexadecimal digit in either case. -/
def hexDigit? (c : Char) : Option Nat :=
  if '0' ≤ c && c ≤ '9' then some (c.toNat - '0'.toNat)
  else if 'a' ≤ c && c ≤ 'f' then some (c.toNat - 'a'.toNat + 10)
  else if 'A' ≤ c && c ≤ 'F' then some (c.toNat - 'A'.toNat + 10)
  else none

/-- The character of a code point written in hexadecimal. -/
def charOfHex? (digits : List Char) : Option Char := do
  let values ← digits.mapM hexDigit?
  let n := values.foldl (fun n d => n * 16 + d) 0
  if n.isValidChar then return Char.ofNat n else none

/-- What a one-letter escape stands for. -/
def simpleEscape? (c : Char) : Option Char :=
  if c = 'b' then some '\x08'
  else if c = 'f' then some '\x0c'
  else if c = 'n' then some '\n'
  else if c = 'r' then some '\r'
  else if c = 't' then some '\t'
  else if c = '"' then some '"'
  else if c = '\\' then some '\\'
  else none

/-- Puts a character in front of what is read behind it. -/
def consRead (c : Char) : Option (List Char × List Char) → Option (List Char × List Char) :=
  Option.map fun (s, rest) => (c :: s, rest)

/-- A string in quotes, from behind the opening quote. -/
def basicString : List Char → Option (List Char × List Char)
  | [] => none
  | c :: rest =>
    if c = '"' then some ([], rest)
    else if c = '\\' then
      match rest with
      | [] => none
      | e :: rest =>
        if e = 'u' then
          match rest with
          | h₁ :: h₂ :: h₃ :: h₄ :: rest => do
            let c ← charOfHex? [h₁, h₂, h₃, h₄]
            consRead c (basicString rest)
          | _ => none
        else if e = 'U' then
          match rest with
          | h₁ :: h₂ :: h₃ :: h₄ :: h₅ :: h₆ :: h₇ :: h₈ :: rest => do
            let c ← charOfHex? [h₁, h₂, h₃, h₄, h₅, h₆, h₇, h₈]
            consRead c (basicString rest)
          | _ => none
        else do
          let c ← simpleEscape? e
          consRead c (basicString rest)
    else if isTextChar c then consRead c (basicString rest)
    else none

/-- A string in apostrophes, from behind the opening one; nothing is escaped. -/
def literalString : List Char → Option (List Char × List Char)
  | [] => none
  | c :: rest =>
    if c = '\'' then some ([], rest)
    else if isTextChar c then consRead c (literalString rest)
    else none

/-- Behind three closing marks, up to two more belong to the string. -/
def closingMarks (mark : Char) : List Char → List Char × List Char
  | a :: b :: rest =>
    if a = mark then (if b = mark then ([a, b], rest) else ([a], b :: rest)) else ([], a :: b :: rest)
  | [a] => if a = mark then ([a], []) else ([], [a])
  | [] => ([], [])

/-- The three marks that close a string of several lines. -/
def closes (mark : Char) : List Char → Option (List Char)
  | a :: b :: c :: rest => if a = mark ∧ b = mark ∧ c = mark then some rest else none
  | _ => none

/-- Whether the rest of the line is blank, and not the last line. -/
def breaksLine (text : List Char) : Bool :=
  match skipWs text with
  | '\n' :: _ => true
  | '\r' :: '\n' :: _ => true
  | _ => false

/-- A string of several lines in triple quotes, from behind the first line break. While `trimming`,
behind a backslash at the end of a line, blanks and line breaks are dropped. -/
def basicLines : (trimming : Bool) → List Char → Option (List Char × List Char)
  | _, [] => none
  | trimming, c :: rest =>
    if trimming && (isWs c || c = '\n') then basicLines true rest
    else if c = '\r' then
      match rest with
      | '\n' :: _ => basicLines trimming rest
      | _ => none
    else if c = '"' then
      match closes '"' (c :: rest) with
      | some behind => some (closingMarks '"' behind)
      | none => consRead c (basicLines false rest)
    else if c = '\\' then
      if breaksLine rest then basicLines true rest
      else
        match rest with
        | [] => none
        | e :: rest =>
          if e = 'u' then
            match rest with
            | h₁ :: h₂ :: h₃ :: h₄ :: rest => do
              let c ← charOfHex? [h₁, h₂, h₃, h₄]
              consRead c (basicLines false rest)
            | _ => none
          else if e = 'U' then
            match rest with
            | h₁ :: h₂ :: h₃ :: h₄ :: h₅ :: h₆ :: h₇ :: h₈ :: rest => do
              let c ← charOfHex? [h₁, h₂, h₃, h₄, h₅, h₆, h₇, h₈]
              consRead c (basicLines false rest)
            | _ => none
          else do
            let c ← simpleEscape? e
            consRead c (basicLines false rest)
    else if c = '\n' || isTextChar c then consRead c (basicLines false rest)
    else none

/-- A string of several lines in triple apostrophes, from behind the first line break. -/
def literalLines : List Char → Option (List Char × List Char)
  | [] => none
  | c :: rest =>
    if c = '\r' then
      match rest with
      | '\n' :: _ => literalLines rest
      | _ => none
    else if c = '\'' then
      match closes '\'' (c :: rest) with
      | some behind => some (closingMarks '\'' behind)
      | none => consRead c (literalLines rest)
    else if c = '\n' || isTextChar c then consRead c (literalLines rest)
    else none

/-- A line break right behind the opening marks is dropped. -/
def dropFirstBreak : List Char → List Char
  | '\n' :: rest => rest
  | '\r' :: '\n' :: rest => rest
  | text => text

/-- A string of one of the four kinds. -/
def readString (text : List Char) : Option (List Char × List Char) :=
  match closes '"' text with
  | some rest => basicLines false (dropFirstBreak rest)
  | none =>
    match closes '\'' text with
    | some rest => literalLines (dropFirstBreak rest)
    | none =>
      match text with
      | '"' :: rest => basicString rest
      | '\'' :: rest => literalString rest
      | _ => none

/-! ## Keys -/

/-- Characters of a key without quotes. -/
def isBareKeyChar (c : Char) : Bool :=
  ('A' ≤ c && c ≤ 'Z') || ('a' ≤ c && c ≤ 'z') || ('0' ≤ c && c ≤ '9') || c = '-' || c = '_'

/-- One part of a key. -/
def readSimpleKey (text : List Char) : Option (String × List Char) :=
  match text with
  | '"' :: rest => (basicString rest).map fun (s, rest) => (String.ofList s, rest)
  | '\'' :: rest => (literalString rest).map fun (s, rest) => (String.ofList s, rest)
  | _ =>
    let bare := text.takeWhile isBareKeyChar
    if bare.isEmpty then none else some (String.ofList bare, text.dropWhile isBareKeyChar)

/-- Parts of a key with points between them, at most `limit` parts. -/
def readKeyParts : (limit : Nat) → List Char → Option (List String × List Char)
  | 0, _ => none
  | limit + 1, text => do
    let (part, rest) ← readSimpleKey (skipWs text)
    match skipWs rest with
    | '.' :: rest =>
      let (parts, rest) ← readKeyParts limit rest
      return (part :: parts, rest)
    | rest => return ([part], rest)

/-- Nesting stays below this, in keys and in values. -/
def nestingLimit : Nat := 80

/-- A key: the parts that lead to its table, and the last part. -/
def readKey (text : List Char) : Option ((List String × String) × List Char) := do
  let (parts, rest) ← readKeyParts (nestingLimit - 1) text
  let last ← parts.getLast?
  return ((parts.dropLast, last), rest)

end Dispatch.Toml
