import Dispatch.Binary64

/-!
# Sizes of the two pools

The blackbox pool takes a share of the fleet from its end. A lone invoker is managed, and neither
pool is empty in a larger fleet that has a blackbox share at all.
-/

set_option autoImplicit false

namespace Dispatch

/-- How many invokers serve each pool. -/
structure PoolSizes where
  managed : Nat
  blackbox : Nat
deriving DecidableEq, Repr

/-- Parts a fleet of at least two by the wanted size of its blackbox pool. -/
def PoolSizes.ofWanted (n wanted : Nat) : PoolSizes :=
  let blackbox := min (max wanted 1) (n - 1)
  ⟨n - blackbox, blackbox⟩

/-- Parts `n` invokers by the share of the blackbox pool. -/
def poolSizes (n : Nat) (fraction : Binary64) : PoolSizes :=
  if n < 2 ∨ fraction.le (.zero false) then ⟨n, 0⟩
  else .ofWanted n (((Binary64.ofNat n).mul fraction).clampNat Numeral.maxWord64)

end Dispatch
