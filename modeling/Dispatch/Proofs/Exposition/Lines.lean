import Dispatch.Metrics.Exposition
import Dispatch.Proofs.Numerals

/-!
# Reading an exposition

Who scrapes metrics takes the text line by line: each line gives the help of a family, its kind, or
one of its samples. `Line.ofText?` reads a line by the rules of the format, where a name has letters
and digits and the value of a label may hold escapes, and `read?` reads a text whose lines all end.
Nothing here knows which families there are. `read?_render` says that families with proper names are
read as their lines, whatever their samples.
-/

set_option autoImplicit false

namespace Dispatch.Exposition

/-- What a line says. -/
inductive Line where
  | help (family text : String)
  | type (family : String) (kind : Kind)
  | sample (family : String) (labels : List (String × String)) (value : Nat)
deriving DecidableEq, Repr

namespace Line

/-- The family that a line belongs to. -/
def family : Line → String
  | .help name _ | .type name _ | .sample name _ _ => name

/-- The text of a line. -/
def text : Line → List Char
  | .help name text => "# HELP ".toList ++ name.toList ++ ' ' :: text.toList
  | .type name kind => "# TYPE ".toList ++ name.toList ++ ' ' :: kind.name.toList
  | .sample name labels value =>
    name.toList ++ renderLabels labels ++ ' ' :: Numeral.write value

@[simp] theorem text_help (name said : String) :
    (help name said).text = "# HELP ".toList ++ name.toList ++ ' ' :: said.toList := rfl

@[simp] theorem text_type (name : String) (kind : Kind) :
    (type name kind).text = "# TYPE ".toList ++ name.toList ++ ' ' :: kind.name.toList := rfl

@[simp] theorem text_sample (name : String) (labels : List (String × String)) (value : Nat) :
    (sample name labels value).text =
      name.toList ++ renderLabels labels ++ ' ' :: Numeral.write value := rfl

end Line

/-! ## The reader -/

/-- What stands in front of the first `mark`, and what stands behind it. -/
def cut (mark : Char) : List Char → Option (List Char × List Char)
  | [] => none
  | c :: rest =>
    if c = mark then some ([], rest) else (cut mark rest).map fun (a, b) => (c :: a, b)

/-- Letters and the underscore, which may begin the name of a label. -/
def isLetter (c : Char) : Bool := c.isAlpha || c = '_'

/-- What the name of a family may go on with. -/
def isNameChar (c : Char) : Bool := isLetter c || c = ':' || c.isDigit

/-- A name that does not begin with a digit. -/
def isFamilyName : List Char → Bool
  | [] => false
  | c :: rest => (isLetter c || c = ':') && rest.all isNameChar

def isLabelName : List Char → Bool
  | [] => false
  | c :: rest => isLetter c && rest.all fun d => isLetter d || d.isDigit

/-- What a letter behind a backslash stands for. -/
def unescape? (c : Char) : Option Char :=
  if c = '\\' then some '\\' else if c = '"' then some '"' else if c = 'n' then some '\n' else none

/-- The value of a label from behind its first quote, and what stands behind the last one. -/
def unquote : List Char → Option (List Char × List Char)
  | [] => none
  | c :: rest =>
    if c = '"' then some ([], rest)
    else if c = '\\' then
      match rest with
      | [] => none
      | e :: rest => do
        let c ← unescape? e
        let (value, behind) ← unquote rest
        return (c :: value, behind)
    else do
      let (value, behind) ← unquote rest
      return (c :: value, behind)

/-- At most `limit` labels from behind the opening brace, and what stands behind the closing one. -/
def readLabels : (limit : Nat) → List Char → Option (List (String × String) × List Char)
  | 0, _ => none
  | limit + 1, cs => do
    let (name, cs) ← cut '=' cs
    if !isLabelName name then failure
    let '"' :: cs := cs | failure
    let (value, cs) ← unquote cs
    let label := (String.ofList name, String.ofList value)
    match cs with
    | '\x7d' :: cs => return ([label], cs)
    | ',' :: cs =>
      let (labels, cs) ← readLabels limit cs
      return (label :: labels, cs)
    | _ => failure

/-- A whole number behind a blank. -/
def readValue : List Char → Option Nat
  | ' ' :: c :: cs => if (c :: cs).all Char.isDigit then some (Numeral.value (c :: cs)) else none
  | _ => none

def kindOf? (name : List Char) : Option Kind :=
  if name = Kind.counter.name.toList then some .counter
  else if name = Kind.gauge.name.toList then some .gauge
  else none

namespace Line

/-- The name of a family and what is said of it. -/
def readHeader (cs : List Char) : Option (String × List Char) := do
  let (name, said) ← cut ' ' cs
  if isFamilyName name then some (String.ofList name, said) else none

def readSample (cs : List Char) : Option Line := do
  let name := cs.takeWhile isNameChar
  if !isFamilyName name then failure
  let (labels, behind) ←
    match cs.dropWhile isNameChar with
    | '\x7b' :: cs => readLabels cs.length cs
    | cs => some ([], cs)
  let value ← readValue behind
  return .sample (String.ofList name) labels value

def ofText? : List Char → Option Line
  | '#' :: ' ' :: 'H' :: 'E' :: 'L' :: 'P' :: ' ' :: cs => do
    let (name, said) ← readHeader cs
    return .help name (String.ofList said)
  | '#' :: ' ' :: 'T' :: 'Y' :: 'P' :: 'E' :: ' ' :: cs => do
    let (name, said) ← readHeader cs
    let kind ← kindOf? said
    return .type name kind
  | cs => readSample cs

end Line

/-- The lines that have ended, and what stands behind the last of them. -/
def splitLines : List Char → List (List Char) × List Char
  | [] => ([], [])
  | c :: rest =>
    let (lines, unended) := splitLines rest
    if c = '\n' then ([] :: lines, unended)
    else
      match lines with
      | [] => ([], c :: unended)
      | line :: lines => ((c :: line) :: lines, unended)

/-- The lines of a text, every one of which must have ended. -/
def read? (text : String) : Option (List Line) :=
  match splitLines text.toList with
  | (lines, []) => lines.mapM Line.ofText?
  | _ => none

/-! ## Parts of a line -/

theorem cut_append {mark : Char} {a : List Char} (absent : mark ∉ a) (b : List Char) :
    cut mark (a ++ mark :: b) = some (a, b) := by
  induction a with
  | nil => simp [cut]
  | cons c a ih =>
      simp only [List.mem_cons, not_or] at absent
      simp [cut, Ne.symm absent.1, ih absent.2]

theorem isNameChar_of_letter {c : Char} (letter : isLetter c = true) : isNameChar c = true := by
  simp [isNameChar, letter]

/-- A name of a family has the characters of such names only, and at least one. -/
theorem isNameChar_of_mem {cs : List Char} (proper : isFamilyName cs = true) :
    cs ≠ [] ∧ ∀ c ∈ cs, isNameChar c = true := by
  cases cs with
  | nil => simp [isFamilyName] at proper
  | cons c cs =>
      simp only [isFamilyName, Bool.and_eq_true, List.all_eq_true] at proper
      refine ⟨List.cons_ne_nil c cs, ?_⟩
      intro d member
      rcases List.mem_cons.mp member with rfl | later
      · rcases Bool.or_eq_true _ _ ▸ proper.1 with letter | colon
        · exact isNameChar_of_letter letter
        · simp [isNameChar, colon]
      · exact proper.2 d later

theorem not_mem_of_familyName {cs : List Char} (proper : isFamilyName cs = true) (mark : Char)
    (other : isNameChar mark = false) : mark ∉ cs := by
  intro member
  have char := (isNameChar_of_mem proper).2 mark member
  simp [other] at char

theorem not_mem_of_labelName {cs : List Char} (proper : isLabelName cs = true) (mark : Char)
    (other : isNameChar mark = false) : mark ∉ cs := by
  cases cs with
  | nil => simp
  | cons c cs =>
      simp only [isLabelName, Bool.and_eq_true, List.all_eq_true] at proper
      intro member
      have char : isNameChar mark = true := by
        rcases List.mem_cons.mp member with rfl | later
        · exact isNameChar_of_letter proper.1
        · rcases Bool.or_eq_true _ _ ▸ proper.2 mark later with letter | digit
          · exact isNameChar_of_letter letter
          · simp [isNameChar, digit]
      simp [other] at char

/-- A label that is written without escapes. -/
structure PlainLabel (label : String × String) : Prop where
  name : isLabelName label.1.toList = true
  value : ∀ c ∈ label.2.toList, c ≠ '"' ∧ c ≠ '\\' ∧ c ≠ '\n'

theorem unquote_append {value : List Char} (plain : ∀ c ∈ value, c ≠ '"' ∧ c ≠ '\\' ∧ c ≠ '\n')
    (behind : List Char) : unquote (value ++ '"' :: behind) = some (value, behind) := by
  induction value with
  | nil => rw [List.nil_append, unquote.eq_def]; simp
  | cons c value ih =>
      obtain ⟨⟨quote, escape, -⟩, others⟩ := List.forall_mem_cons.mp plain
      rw [List.cons_append, unquote.eq_def]
      simp [quote, escape, ih others]

section Labels

variable {label : String × String} {labels : List (String × String)} {limit : Nat}

/-- The last label. -/
theorem readLabels_last (plain : PlainLabel label) (behind : List Char) :
    readLabels (limit + 1) (renderLabel label ++ '\x7d' :: behind) = some ([label], behind) := by
  have named := cut_append (not_mem_of_labelName plain.name '=' (by decide))
  have quoted := unquote_append plain.value
  simp [readLabels, renderLabel, named, plain.name, quoted]

/-- A label with others behind it. -/
theorem readLabels_next (plain : PlainLabel label) {more behind : List Char}
    (rest : readLabels limit more = some (labels, behind)) :
    readLabels (limit + 1) (renderLabel label ++ ',' :: more) =
      some (label :: labels, behind) := by
  have named := cut_append (not_mem_of_labelName plain.name '=' (by decide))
  have quoted := unquote_append plain.value
  simp [readLabels, renderLabel, named, plain.name, quoted, rest]

/-- Labels are read up to the closing brace. -/
theorem readLabels_append (plain : ∀ l ∈ label :: labels, PlainLabel l) (behind : List Char)
    (enough : labels.length < limit) :
    readLabels limit (renderLabel label ++ (labels.flatMap (fun l => ',' :: renderLabel l) ++
      '\x7d' :: behind)) = some (label :: labels, behind) := by
  induction labels generalizing label limit with
  | nil =>
      obtain ⟨limit, rfl⟩ := Nat.exists_eq_succ_of_ne_zero (Nat.ne_zero_of_lt enough)
      exact readLabels_last (plain label List.mem_cons_self) behind
  | cons next labels ih =>
      obtain ⟨limit, rfl⟩ := Nat.exists_eq_succ_of_ne_zero (Nat.ne_zero_of_lt enough)
      obtain ⟨first, others⟩ := List.forall_mem_cons.mp plain
      have fewer : labels.length < limit := by simpa using enough
      simpa using readLabels_next first (ih others fewer)

theorem length_le_renderLabels (labels : List (String × String)) :
    labels.length ≤ (labels.flatMap fun l => ',' :: renderLabel l).length := by
  induction labels with
  | nil => simp
  | cons label labels ih =>
      simp only [List.flatMap_cons, List.length_append, List.length_cons]
      omega

end Labels

theorem readValue_write (n : Nat) : readValue (' ' :: Numeral.write n) = some n := by
  have digits : ∀ c ∈ Numeral.write n, c.isDigit = true := Numeral.digits_write n
  have value := Numeral.value_write n
  cases written : Numeral.write n with
  | nil => exact absurd written (Numeral.write_ne_nil n)
  | cons c cs =>
      rw [written] at digits value
      have all : (c :: cs).all Char.isDigit = true := List.all_eq_true.mpr digits
      simp only [readValue, all, if_true, value]

theorem kindOf?_name (kind : Kind) : kindOf? kind.name.toList = some kind := by
  cases kind <;> rfl

namespace Line

/-! ## Lines -/

/-- A line that its text stands for. -/
inductive Legible : Line → Prop
  | help {name text : String} (named : isFamilyName name.toList = true)
      (oneLine : '\n' ∉ text.toList) : Legible (.help name text)
  | type {name : String} (named : isFamilyName name.toList = true) (kind : Kind) :
      Legible (.type name kind)
  | sample {name : String} {labels : List (String × String)}
      (named : isFamilyName name.toList = true) (plain : ∀ l ∈ labels, PlainLabel l)
      (value : Nat) : Legible (.sample name labels value)

theorem readHeader_append {name : String} (named : isFamilyName name.toList = true)
    (said : List Char) : readHeader (name.toList ++ ' ' :: said) = some (name, said) := by
  have apart := cut_append (not_mem_of_familyName named ' ' (by decide)) said
  simp [readHeader, apart, named]

/-- The name of a sample's family ends where its labels or its value begin. -/
theorem readSample_append {name : String} (named : isFamilyName name.toList = true) (mark : Char)
    (ends : isNameChar mark = false) (behind : List Char) :
    readSample (name.toList ++ mark :: behind) = (do
      let (labels, behind) ←
        match mark :: behind with
        | '\x7b' :: cs => readLabels cs.length cs
        | cs => some ([], cs)
      let value ← readValue behind
      return .sample name labels value) := by
  have chars := (isNameChar_of_mem named).2
  have front : (name.toList ++ mark :: behind).takeWhile isNameChar = name.toList := by
    rw [List.takeWhile_append_of_pos chars]
    simp [ends]
  have back : (name.toList ++ mark :: behind).dropWhile isNameChar = mark :: behind := by
    rw [List.dropWhile_append_of_pos chars]
    simp [ends]
  simp only [readSample, front, back, named, String.ofList_toList]
  rfl

theorem ofText?_of_name {cs : List Char} {c : Char} (first : isNameChar c = true) :
    ofText? (c :: cs) = readSample (c :: cs) := by
  have apart : c ≠ '#' := by
    rintro rfl
    exact absurd first (by decide)
  unfold ofText?
  split <;> simp_all

/-- Labels are read between braces, and none where no brace opens. -/
theorem readSample_text {name : String} (named : isFamilyName name.toList = true)
    {labels : List (String × String)} (plain : ∀ l ∈ labels, PlainLabel l) (value : Nat) :
    readSample (name.toList ++ (renderLabels labels ++ ' ' :: Numeral.write value)) =
      some (.sample name labels value) := by
  have read := readValue_write value
  cases labels with
  | nil =>
      have split := readSample_append named ' ' (by decide) (Numeral.write value)
      simpa [renderLabels, read] using split
  | cons label labels =>
      have enough := length_le_renderLabels labels
      have fits : labels.length < (renderLabel label ++
          (labels.flatMap (fun l => ',' :: renderLabel l) ++
            '\x7d' :: ' ' :: Numeral.write value)).length := by
        simp only [List.length_append, List.length_cons]
        omega
      have within := readLabels_append plain (' ' :: Numeral.write value) fits
      have split := readSample_append named '\x7b' (by decide)
        (renderLabel label ++ (labels.flatMap (fun l => ',' :: renderLabel l) ++
          '\x7d' :: ' ' :: Numeral.write value))
      simp only [within] at split
      simpa [renderLabels, read] using split

theorem ofText?_sample {name : String} (named : isFamilyName name.toList = true)
    {labels : List (String × String)} (plain : ∀ l ∈ labels, PlainLabel l) (value : Nat) :
    ofText? (text (.sample name labels value)) = some (.sample name labels value) := by
  obtain ⟨some_char, chars⟩ := isNameChar_of_mem named
  obtain ⟨c, cs, spelled⟩ := List.exists_cons_of_ne_nil some_char
  have first : isNameChar c = true := chars c (spelled ▸ List.mem_cons_self)
  have read := readSample_text named plain value
  rw [spelled, List.cons_append] at read
  rw [text_sample, List.append_assoc, spelled, List.cons_append, ofText?_of_name first, read]

/-- **A line is read from its text.** -/
theorem ofText?_text {l : Line} (legible : l.Legible) : ofText? l.text = some l := by
  cases legible with
  | @help name text named oneLine =>
      have read := readHeader_append named text.toList
      show (readHeader (name.toList ++ ' ' :: text.toList) >>= _) = _
      simp [read]
  | @type name named kind =>
      have read := readHeader_append named kind.name.toList
      show (readHeader (name.toList ++ ' ' :: kind.name.toList) >>= _) = _
      simp [read, kindOf?_name]
  | sample named plain value => exact ofText?_sample named plain value

theorem newline_not_mem_renderLabel {label : String × String} (plain : PlainLabel label) :
    '\n' ∉ renderLabel label := by
  have name := not_mem_of_labelName plain.name '\n' (by decide)
  have value : '\n' ∉ label.2.toList := fun member => (plain.value '\n' member).2.2 rfl
  simp [renderLabel, name, value]

theorem newline_not_mem_renderLabels {labels : List (String × String)}
    (plain : ∀ l ∈ labels, PlainLabel l) : '\n' ∉ renderLabels labels := by
  cases labels with
  | nil => simp [renderLabels]
  | cons label labels =>
      obtain ⟨first, others⟩ := List.forall_mem_cons.mp plain
      have each : ∀ l ∈ labels, '\n' ∉ renderLabel l := fun l member =>
        newline_not_mem_renderLabel (others l member)
      simp [renderLabels, newline_not_mem_renderLabel first, List.mem_flatMap]
      exact fun name value member => each (name, value) member

/-- The text of a line goes on to its end. -/
theorem newline_not_mem_text {l : Line} (legible : l.Legible) : '\n' ∉ l.text := by
  cases legible with
  | @help name said named oneLine =>
      have family := not_mem_of_familyName named '\n' (by decide)
      simp [family, oneLine]
  | @type name named kind =>
      have family := not_mem_of_familyName named '\n' (by decide)
      have said : '\n' ∉ kind.name.toList := by cases kind <;> decide
      simp [family, said]
  | @sample name labels named plain value =>
      have family := not_mem_of_familyName named '\n' (by decide)
      have digits : Numeral.Digits (Numeral.write value) := Numeral.digits_write value
      have number : '\n' ∉ Numeral.write value := digits.not_mem rfl
      simp [family, number, newline_not_mem_renderLabels plain]

end Line

/-! ## Texts -/

/-- A line is split off where it ends. -/
theorem splitLines_append {line : List Char} (oneLine : '\n' ∉ line) (rest : List Char) :
    splitLines (line ++ '\n' :: rest) = (line :: (splitLines rest).1, (splitLines rest).2) := by
  induction line with
  | nil => simp [splitLines]
  | cons c line ih =>
      simp only [List.mem_cons, not_or] at oneLine
      rw [List.cons_append, splitLines, ih oneLine.2]
      simp [Ne.symm oneLine.1]

theorem splitLines_flatMap {lines : List (List Char)} (oneLine : ∀ line ∈ lines, '\n' ∉ line) :
    splitLines (lines.flatMap (· ++ ['\n'])) = (lines, []) := by
  induction lines with
  | nil => simp [splitLines]
  | cons line lines ih =>
      obtain ⟨first, others⟩ := List.forall_mem_cons.mp oneLine
      rw [List.flatMap_cons, List.append_assoc, List.singleton_append, splitLines_append first,
        ih others]

/-- The lines of a family. -/
def Family.lines (f : Family) : List Line :=
  .help f.name f.help :: .type f.name f.kind ::
    f.samples.map fun s => .sample f.name s.labels s.value

theorem renderFamily_eq (f : Family) :
    renderFamily f = (f.lines.map Line.text).flatMap (· ++ ['\n']) := by
  have samples : ∀ samples : List Sample, samples.flatMap (renderSample f.name) =
      ((samples.map fun s => Line.sample f.name s.labels s.value).map Line.text).flatMap
        (· ++ ['\n']) := by
    intro samples
    induction samples with
    | nil => rfl
    | cons s samples ih =>
        rw [List.flatMap_cons, ih, renderSample]
        simp
  show "# HELP ".toList ++ f.name.toList ++ ' ' :: (f.help.toList ++ ['\n']) ++
    "# TYPE ".toList ++ f.name.toList ++ ' ' :: (f.kind.name.toList ++ ['\n']) ++
    f.samples.flatMap (renderSample f.name) = _
  rw [samples]
  simp [Family.lines]

/-- A family with a proper name, whose help is one line and whose labels need no escapes. -/
structure Family.Legible (f : Family) : Prop where
  name : isFamilyName f.name.toList = true
  help : '\n' ∉ f.help.toList
  labels : ∀ s ∈ f.samples, ∀ l ∈ s.labels, PlainLabel l

theorem Family.Legible.lines {f : Family} (legible : f.Legible) : ∀ l ∈ f.lines, l.Legible := by
  intro l member
  rcases List.mem_cons.mp member with rfl | member
  · exact .help legible.name legible.help
  rcases List.mem_cons.mp member with rfl | member
  · exact .type legible.name f.kind
  obtain ⟨s, sample, rfl⟩ := List.mem_map.mp member
  exact .sample legible.name (legible.labels s sample) s.value

/-- The lines of all families. -/
def linesOf (fs : List Family) : List Line := fs.flatMap Family.lines

/-- **Families are read as their lines.** -/
theorem read?_render {fs : List Family} (legible : ∀ f ∈ fs, f.Legible) :
    read? (render fs) = some (linesOf fs) := by
  have text : (render fs).toList = ((linesOf fs).map Line.text).flatMap (· ++ ['\n']) := by
    rw [render, String.toList_ofList, linesOf, List.map_flatMap, List.flatMap_assoc]
    exact List.flatMap_congr fun f _ => renderFamily_eq f
  have each : ∀ l ∈ linesOf fs, l.Legible := by
    intro l member
    obtain ⟨f, family, member⟩ := List.mem_flatMap.mp member
    exact (legible f family).lines l member
  have oneLine : ∀ line ∈ (linesOf fs).map Line.text, '\n' ∉ line := by
    intro line member
    obtain ⟨l, inside, rfl⟩ := List.mem_map.mp member
    exact Line.newline_not_mem_text (each l inside)
  have all : ∀ ls : List Line, (∀ l ∈ ls, l.Legible) →
      (ls.map Line.text).mapM Line.ofText? = some ls := by
    intro ls
    induction ls with
    | nil => exact fun _ => rfl
    | cons l ls ih =>
        intro legible
        obtain ⟨first, others⟩ := List.forall_mem_cons.mp legible
        simp [Line.ofText?_text first, ih others]
  rw [read?, text, splitLines_flatMap oneLine]
  exact all (linesOf fs) each

end Dispatch.Exposition
