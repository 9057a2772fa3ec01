import Dispatch.Text.Numeral

/-!
# Binary64 numbers

A binary64 number is held as what it stands for: a sign, a significand and a power of two, or an
infinity, or no number. Every operation is the exact result on integers rounded once by `ofRatio`
(to nearest, ties to even), so a statement about an operation is a statement about one quotient.
-/

set_option autoImplicit false

namespace Dispatch

/-- A binary64 number: `finite s m e` is `± m · 2 ^ e`, negative if `s`. -/
inductive Binary64 where
  | nan
  | infinite (negative : Bool)
  | finite (negative : Bool) (significand : Nat) (exponent : Int)
deriving DecidableEq, Repr, Inhabited

namespace Binary64

/-- The integer nearest to `num / den`; a tie goes to the even neighbour. -/
def roundDiv (num den : Nat) : Nat :=
  let q := num / den
  let r := num % den
  if 2 * r < den then q else if 2 * r = den then q + q % 2 else q + 1

/-- The least exponent of a finite number. -/
def minExponent : Int := -1074

/-- The greatest exponent of a finite number. -/
def maxExponent : Int := 971

/-- Significands have 53 bits: all are below `2 ^ 53`. -/
def significandBound : Nat := 9_007_199_254_740_992

/-- Numerator and denominator of `num / den / 2 ^ e`. -/
def scaleDown (num den : Nat) (e : Int) : Nat × Nat :=
  (num * Nat.pow 2 (-e).toNat, den * Nat.pow 2 e.toNat)

/-- The exponent that gives `num / den` a significand of 53 bits, or the least exponent. -/
def exponentFor (num den : Nat) : Int :=
  let e : Int := (num.log2 : Int) - den.log2 - 53
  let (n, d) := scaleDown num den e
  max minExponent (if d * significandBound ≤ n then e + 1 else e)

/-- Zero has one form for each sign. -/
def zero (negative : Bool) : Binary64 := .finite negative 0 minExponent

/-- The number nearest to `± num / den`; a tie goes to the even significand, and what lies at or
past the midpoint above the greatest finite number is infinite. -/
def ofRatio (negative : Bool) (num den : Nat) : Binary64 :=
  if num = 0 then zero negative
  else
    let e := exponentFor num den
    let (n, d) := scaleDown num den e
    let m := roundDiv n d
    let (m, e) := if m = significandBound then (m / 2, e + 1) else (m, e)
    if maxExponent < e then .infinite negative else .finite negative m e

/-- The number nearest to `± m · 2 ^ e`. -/
def ofScaled (negative : Bool) (m : Nat) (e : Int) : Binary64 :=
  ofRatio negative (m * Nat.pow 2 e.toNat) (Nat.pow 2 (-e).toNat)

/-- The number nearest to a natural number. -/
def ofNat (n : Nat) : Binary64 := ofRatio false n 1

/-- The number nearest to an integer. -/
def ofInt (n : Int) : Binary64 := ofRatio (n < 0) n.natAbs 1

/-- The number nearest to `± digits · 10 ^ exponent`. Magnitudes far outside the range are settled
by their number of digits alone. -/
def ofDecimal (negative : Bool) (digits : Nat) (exponent : Int) : Binary64 :=
  if digits = 0 then zero negative
  else
    let magnitude := (Nat.toDigits 10 digits).length + exponent
    if 400 < magnitude then .infinite negative
    else if magnitude < -400 then zero negative
    else ofRatio negative (digits * Nat.pow 10 exponent.toNat) (Nat.pow 10 (-exponent).toNat)

def isZero : Binary64 → Bool
  | .finite _ m _ => m = 0
  | _ => false

def neg : Binary64 → Binary64
  | .nan => .nan
  | .infinite s => .infinite (!s)
  | .finite s m e => .finite (!s) m e

/-- The product, rounded once. -/
def mul : Binary64 → Binary64 → Binary64
  | .finite s m e, .finite t n f => ofScaled (s ^^ t) (m * n) (e + f)
  | .infinite s, .infinite t => .infinite (s ^^ t)
  | .infinite s, .finite t n _ => if n = 0 then .nan else .infinite (s ^^ t)
  | .finite s m _, .infinite t => if m = 0 then .nan else .infinite (s ^^ t)
  | _, _ => .nan

/-- The quotient, rounded once. -/
def div : Binary64 → Binary64 → Binary64
  | .finite s m e, .finite t n f =>
    if n = 0 then (if m = 0 then .nan else .infinite (s ^^ t))
    else ofRatio (s ^^ t) (m * Nat.pow 2 (e - f).toNat) (n * Nat.pow 2 (f - e).toNat)
  | .infinite s, .finite t _ _ => .infinite (s ^^ t)
  | .finite s _ _, .infinite t => zero (s ^^ t)
  | _, _ => .nan

/-- The whole part of `m · 2 ^ e`. -/
def wholePart (m : Nat) (e : Int) : Nat := m * Nat.pow 2 e.toNat / Nat.pow 2 (-e).toNat

/-- The whole part of a number, held between zero and `largest`; no number counts as zero. -/
def clampNat (largest : Nat) : Binary64 → Nat
  | .nan => 0
  | .infinite s => if s then 0 else largest
  | .finite s m e => if s then 0 else min (wholePart m e) largest

/-- Position on the number line, as an integer multiple of `2 ^ base`. -/
def multipleOf (base : Int) (negative : Bool) (m : Nat) (e : Int) : Int :=
  let n : Int := m * Nat.pow 2 (e - base).toNat
  if negative then -n else n

/-- Order by value; both zeros are equal, and nothing compares with `nan`. -/
def le : Binary64 → Binary64 → Bool
  | .nan, _ => false
  | _, .nan => false
  | .infinite true, _ => true
  | _, .infinite false => true
  | .infinite false, _ => false
  | _, .infinite true => false
  | .finite s m e, .finite t n f =>
    multipleOf (min e f) s m e ≤ multipleOf (min e f) t n f

/-- Equality by value. -/
def sameValue (x y : Binary64) : Bool := x.le y && y.le x

/-- Holds a number between two bounds; `nan` stays. -/
def clamp (x low high : Binary64) : Binary64 :=
  if x.le low && !low.le x then low else if high.le x && !x.le high then high else x

/-- The greater of `x` and `floor`, which also stands in for `nan`. -/
def atLeast (floor x : Binary64) : Binary64 :=
  if floor.le x then x else floor

def one : Binary64 := ofNat 1

end Binary64

end Dispatch
