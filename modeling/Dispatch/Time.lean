/-!
# Durations and instants

A `Duration` is a span of whole nanoseconds whose seconds fit a 64-bit word. An `Instant` is a
point on the one clock that everything reads, in nanoseconds after its origin; `Instant.after?`
refuses to go past the last instant the clock can name. How long a sleep lasts is up to the timer
that it is left to, a `SleepTimer`.
-/

set_option autoImplicit false

namespace Dispatch

/-- A span of time: fewer than `2 ^ 64` seconds. -/
structure Duration where
  nanos : Nat
  bounded : nanos < 18_446_744_073_709_551_616_000_000_000
deriving DecidableEq

namespace Duration

def zero : Duration := ⟨0, by decide⟩

instance : Inhabited Duration := ⟨zero⟩

-- In a product the literal comes first: multiplication unfolds along its second factor.
def ofMillis (n : UInt64) : Duration :=
  ⟨1_000_000 * n.toNat, by have := n.toNat_lt; omega⟩

def ofSecs (n : UInt64) : Duration :=
  ⟨1_000_000_000 * n.toNat, by have := n.toNat_lt; omega⟩

/-- Whole seconds. -/
def secs (d : Duration) : Nat := d.nanos / 1_000_000_000

/-- Nanoseconds beyond the whole seconds. -/
def subsecNanos (d : Duration) : Nat := d.nanos % 1_000_000_000

/-- Whole milliseconds. -/
def millis (d : Duration) : Nat := d.nanos / 1_000_000

def isZero (d : Duration) : Bool := d.nanos = 0

/-- Thirty years of 365 days: what stands for an instant that a clock cannot name. -/
def farFuture : Duration := ofSecs 946_080_000

instance : LT Duration := ⟨fun a b => a.nanos < b.nanos⟩
instance : LE Duration := ⟨fun a b => a.nanos ≤ b.nanos⟩
instance (a b : Duration) : Decidable (a < b) := inferInstanceAs (Decidable (a.nanos < b.nanos))
instance (a b : Duration) : Decidable (a ≤ b) := inferInstanceAs (Decidable (a.nanos ≤ b.nanos))

end Duration

/-- A point in time. -/
structure Instant where
  nanos : Nat
deriving DecidableEq, Repr, Inhabited

namespace Instant

def origin : Instant := ⟨0⟩

def ofMillis (n : Nat) : Instant := ⟨1_000_000 * n⟩

/-- Whole milliseconds after the origin. -/
def millis (t : Instant) : Nat := t.nanos / 1_000_000

/-- Whole milliseconds from `earlier` to `t`, none if `t` comes first. -/
def millisSince (t earlier : Instant) : Nat := (t.nanos - earlier.nanos) / 1_000_000

/-- The instants that the clock can name have fewer seconds than this. -/
def horizonSecs : Nat := 9_223_372_036_854_775_808

/-- The instant a span later, if the clock can name it. -/
def after? (t : Instant) (d : Duration) : Option Instant :=
  let nanos := t.nanos + d.nanos
  if nanos < horizonSecs * 1_000_000_000 then some ⟨nanos⟩ else none

instance : HAdd Instant Duration Instant := ⟨fun t d => ⟨t.nanos + d.nanos⟩⟩

instance : LT Instant := ⟨fun a b => a.nanos < b.nanos⟩
instance : LE Instant := ⟨fun a b => a.nanos ≤ b.nanos⟩
instance (a b : Instant) : Decidable (a < b) := inferInstanceAs (Decidable (a.nanos < b.nanos))
instance (a b : Instant) : Decidable (a ≤ b) := inferInstanceAs (Decidable (a.nanos ≤ b.nanos))

end Instant

/-- A timer that sleeps are left to: how long one lasts that is asked for so long. -/
structure SleepTimer where
  lasts : Duration → Duration

namespace SleepTimer

/-- From so many milliseconds on a sleep is longer than the standard timer can count. -/
def horizonMillis : Nat := 9_223_372_036_854_775_808

/-- A sleep lasts as long as it is asked for, or ends in the far future if the timer cannot count
its milliseconds. -/
def standard : SleepTimer :=
  ⟨fun d => if d.millis < horizonMillis then d else .farFuture⟩

end SleepTimer

end Dispatch
