import Dispatch.Binary64
import Dispatch.Invoker
import Dispatch.Table

/-!
# Capacity accounts

The ledger holds an account for every invoker whose totals are known. A reservation takes memory
and one slot if both fit; a release gives them back and never goes below zero.
-/

set_option autoImplicit false

namespace Dispatch

/-- The accounts and how far memory may be over-committed. -/
structure Ledger where
  factor : Binary64
  accounts : Table InvokerId Capacity
deriving DecidableEq

namespace Ledger

/-- A factor below one counts as one. -/
def new (factor : Binary64) : Ledger := ⟨.atLeast .one factor, []⟩

def account? (l : Ledger) (id : InvokerId) : Option Capacity := Table.get? id l.accounts

/-- Sets an invoker's totals; what is in use stays. -/
def setCapacity (l : Ledger) (id : InvokerId) (memory : UInt64) (slots : UInt32) : Ledger :=
  let account := (l.account? id).getD .none
  { l with
    accounts := Table.set id { account with totalMemory := memory, totalSlots := slots } l.accounts }

/-- How much memory may be reserved where `total` is there. -/
def memoryLimit (l : Ledger) (total : UInt64) : Nat :=
  ((Binary64.ofNat total.toNat).mul l.factor).clampNat Numeral.maxWord64

/-- Whether memory and a slot are free. -/
def hasRoom (l : Ledger) (account : Capacity) (memory : UInt64) : Bool :=
  let used := account.usedMemory.toNat + memory.toNat
  used ≤ Numeral.maxWord64 && used ≤ l.memoryLimit account.totalMemory &&
    account.usedSlots < account.totalSlots

/-- An account with one reservation more. -/
def take (account : Capacity) (memory : UInt64) : Capacity :=
  { account with
    usedMemory := account.usedMemory + memory
    usedSlots := account.usedSlots + 1 }

/-- Reserves memory and a slot, or changes nothing. -/
def reserve (l : Ledger) (id : InvokerId) (memory : UInt64) : Ledger × Bool :=
  match l.account? id with
  | none => (l, false)
  | some account =>
    if l.hasRoom account memory then
      ({ l with accounts := Table.set id (take account memory) l.accounts }, true)
    else (l, false)

/-- An account with one reservation less. -/
def giveBack (account : Capacity) (memory : UInt64) : Capacity :=
  { account with
    usedMemory := if account.usedMemory < memory then 0 else account.usedMemory - memory
    usedSlots := if account.usedSlots = 0 then 0 else account.usedSlots - 1 }

/-- Gives a reservation back. -/
def release (l : Ledger) (id : InvokerId) (memory : UInt64) : Ledger :=
  match l.account? id with
  | none => l
  | some account => { l with accounts := Table.set id (giveBack account memory) l.accounts }

end Ledger

end Dispatch
