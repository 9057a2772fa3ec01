import Dispatch.Text.Blank
import Dispatch.Text.Numeral
import Dispatch.Time

/-!
# Compact notation of durations

`5s`, `500ms`, `2m`; a bare numeral counts seconds. `Duration.compact` picks the largest unit
that leaves a whole number of milliseconds, seconds or minutes.
-/

set_option autoImplicit false

namespace Dispatch.Duration

/-- A unit of the compact notation. -/
inductive TimeUnit where
  | millis
  | secs
  | mins
deriving DecidableEq, Repr

/-- The amount's digits and its unit. `ms` is tried before `s` and `m`, which both end or begin
it. -/
def splitUnit (cs : List Char) : List Char × TimeUnit :=
  match stripSuffix? ['m', 's'] cs with
  | some rest => (rest, .millis)
  | none =>
    match stripSuffix? ['s'] cs with
    | some rest => (rest, .secs)
    | none =>
      match stripSuffix? ['m'] cs with
      | some rest => (rest, .mins)
      | none => (cs, .secs)

/-- An amount of a unit; minutes must be representable as seconds. -/
def ofAmount (n : Nat) : TimeUnit → Option Duration
  | .millis => some (ofMillis n.toUInt64)
  | .secs => some (ofSecs n.toUInt64)
  | .mins => if n * 60 ≤ Numeral.maxWord64 then some (ofSecs (n * 60).toUInt64) else none

/-- Reads the compact notation; blanks around it are ignored. -/
def parse? (cs : List Char) : Option Duration :=
  let (amount, unit) := splitUnit (trimBlank cs)
  match Numeral.read Numeral.maxWord64 amount with
  | .ok n => ofAmount n unit
  | .error _ => none

/-- Writes the compact notation; what is below a millisecond is dropped. -/
def compact (d : Duration) : List Char :=
  let ms := d.millis
  if ms % 60000 = 0 ∧ 0 < ms then Numeral.write (ms / 60000) ++ ['m']
  else if ms % 1000 = 0 then Numeral.write (ms / 1000) ++ ['s']
  else Numeral.write ms ++ ['m', 's']

/-- The compact notation as a string. -/
def text (d : Duration) : String := String.ofList d.compact

/-- The duration of a string in compact notation. -/
def ofString? (s : String) : Option Duration := parse? s.toList

end Dispatch.Duration
