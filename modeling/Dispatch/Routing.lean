import Dispatch.Action
import Dispatch.Sha256

/-!
# Routes

A routing key picks a home among the positions of a pool and a step; the route visits the
positions from home on, step by step around the pool. Steps coprime to the pool's size reach every
position.
-/

set_option autoImplicit false

namespace Dispatch

/-- Who runs what: activations with the same key go to the same invoker while the fleet is
stable. -/
structure RoutingKey where
  space : String
  action : QualifiedName
  /-- A home ordinal, taken modulo the size of the pool. -/
  hint : Option UInt64
deriving DecidableEq, Repr

namespace RoutingKey

/-- The text that is hashed. -/
def text (k : RoutingKey) : String := k.space ++ ":" ++ k.action.text

/-- The first 64 bits of the digest of the key's text. -/
def hash (k : RoutingKey) : UInt64 := Sha256.first64 (Utf8.ofString k.text)

end RoutingKey

/-- Euclid's loop: the remainder takes the place of the divisor until nothing is left of it. -/
def euclid (a b : Nat) : Nat := if b = 0 then a else euclid b (a % b)
termination_by b
decreasing_by exact Nat.mod_lt a (Nat.pos_of_ne_zero ‹b ≠ 0›)

theorem euclid_eq_gcd (a b : Nat) : euclid a b = Nat.gcd a b := by
  induction a, b using euclid.induct with
  | case1 a => rw [euclid, if_pos rfl, Nat.gcd_zero_right]
  | case2 a b positive ih =>
      rw [euclid, if_neg positive, ih, Nat.gcd_comm b, ← Nat.gcd_rec, Nat.gcd_comm]

/-- The steps that reach every position of a pool of `n`. -/
def coprimeSteps (n : Nat) : List Nat := (List.range' 1 n).filter fun k => euclid k n = 1

theorem coprimeSteps_eq (n : Nat) :
    coprimeSteps n = (List.range' 1 n).filter fun k => Nat.gcd k n = 1 := by
  simp only [coprimeSteps, euclid_eq_gcd]

/-- Positions are 64-bit words. -/
def wordSize : Nat := 18_446_744_073_709_551_616

/-- A walk around `n` positions that has `left` more of them to visit. -/
structure Route where
  position : Nat
  step : Nat
  n : Nat
  left : Nat
deriving DecidableEq, Repr

namespace Route

/-- Nothing to visit. -/
def empty : Route := ⟨0, 1, 0, 0⟩

/-- The home is the hint or the hash, modulo the size; the rest of the hash picks the step. -/
def start (hash : UInt64) (hint : Option UInt64) (steps : List Nat) (n : Nat) : Route :=
  if n = 0 ∨ steps.isEmpty then empty
  else
    let home := (hint.getD hash).toNat % n
    let step := steps.getD (hash.toNat / n % steps.length) 1
    ⟨home, step, n, n⟩

/-- The position visited now, and the walk behind it. -/
def next? (r : Route) : Option (Nat × Route) :=
  if r.left = 0 then none
  else
    some (r.position,
      { r with position := (r.position + r.step) % wordSize % r.n, left := r.left - 1 })

/-- The next `count` positions, or all that are left. -/
def take : (count : Nat) → Route → List Nat
  | 0, _ => []
  | count + 1, r =>
    match r.next? with
    | none => []
    | some (position, rest) => position :: take count rest

/-- All positions in the order of the walk. -/
def order (r : Route) : List Nat := r.take r.left

end Route

end Dispatch
