import Dispatch.Fleet.Ledger
import Dispatch.Proofs.Tables

/-!
# Laws of the capacity accounts

`usedMemory` and `usedSlots` read the ledger as two functions from invokers to numbers. A
reservation that is accepted adds to them at one invoker (`reserve_moves`), a release of what is
held takes exactly that away again (`release_moves`), totals move neither, and releasing what was
just reserved restores the very ledger (`release_reserve`). Words never wrap on the way: the room
check bounds both sums.
-/

set_option autoImplicit false

namespace Dispatch.Ledger

/-- Memory in use on an invoker; none where there is no account. -/
def usedMemory (l : Ledger) (id : InvokerId) : Nat :=
  ((l.account? id).map (·.usedMemory.toNat)).getD 0

/-- Slots in use on an invoker; none where there is no account. -/
def usedSlots (l : Ledger) (id : InvokerId) : Nat :=
  ((l.account? id).map (·.usedSlots.toNat)).getD 0

/-- Whether an invoker has an account with room for `memory` and a slot. -/
def accepts (l : Ledger) (id : InvokerId) (memory : UInt64) : Bool :=
  match l.account? id with
  | none => false
  | some account => l.hasRoom account memory

/-- A release of `memory` is exact: the account is there, and what is given back is in use. -/
def Holds (l : Ledger) (id : InvokerId) (memory : UInt64) : Prop :=
  ∃ account, l.account? id = some account ∧
    memory.toNat ≤ account.usedMemory.toNat ∧ 0 < account.usedSlots.toNat

variable {l : Ledger} {id other : InvokerId} {memory : UInt64} {account : Capacity}

theorem account?_set (l : Ledger) (id other : InvokerId) (account : Capacity) :
    { l with accounts := Table.set id account l.accounts }.account? other =
      if id = other then some account else l.account? other :=
  Table.get?_set id other account l.accounts

/-! ## Reserving -/

theorem hasRoom_iff :
    l.hasRoom account memory = true ↔
      account.usedMemory.toNat + memory.toNat ≤ Numeral.maxWord64 ∧
        account.usedMemory.toNat + memory.toNat ≤ l.memoryLimit account.totalMemory ∧
          account.usedSlots.toNat < account.totalSlots.toNat := by
  simp only [hasRoom, Bool.and_eq_true, decide_eq_true_eq, and_assoc, UInt32.lt_iff_toNat_lt]

/-- A reservation that is accepted takes memory and a slot. -/
theorem reserve_of_accepts (room : l.accepts id memory = true) :
    ∃ account, l.account? id = some account ∧ l.hasRoom account memory = true ∧
      l.reserve id memory =
        ({ l with accounts := Table.set id (take account memory) l.accounts }, true) := by
  cases known : l.account? id with
  | none =>
      simp only [accepts, known] at room
      cases room
  | some account =>
      simp only [accepts, known] at room
      exact ⟨account, rfl, room, by simp [reserve, known, room]⟩

/-- A reservation that is refused changes nothing. -/
theorem reserve_of_not_accepts (full : l.accepts id memory = false) :
    l.reserve id memory = (l, false) := by
  cases known : l.account? id with
  | none => simp only [reserve, known]
  | some account =>
      simp only [accepts, known] at full
      simp [reserve, known, full]

theorem reserve_snd (l : Ledger) (id : InvokerId) (memory : UInt64) :
    (l.reserve id memory).2 = l.accepts id memory := by
  cases room : l.accepts id memory with
  | false => rw [reserve_of_not_accepts room]
  | true =>
      obtain ⟨account, -, -, equal⟩ := reserve_of_accepts room
      rw [equal]

theorem take_usedMemory (room : l.hasRoom account memory = true) :
    (take account memory).usedMemory.toNat = account.usedMemory.toNat + memory.toNat := by
  have bound := (hasRoom_iff.mp room).1
  rw [Numeral.maxWord64] at bound
  rw [take, UInt64.toNat_add]
  omega

theorem take_usedSlots (room : l.hasRoom account memory = true) :
    (take account memory).usedSlots.toNat = account.usedSlots.toNat + 1 := by
  have bound := (hasRoom_iff.mp room).2.2
  have limit := account.totalSlots.toNat_lt
  rw [take, UInt32.toNat_add, UInt32.toNat_one]
  omega

/-- **A reservation adds its memory and one slot to one invoker.** -/
theorem reserve_moves (room : l.accepts id memory = true) (other : InvokerId) :
    (l.reserve id memory).1.usedMemory other =
        l.usedMemory other + (if id = other then memory.toNat else 0) ∧
      (l.reserve id memory).1.usedSlots other =
        l.usedSlots other + (if id = other then 1 else 0) := by
  obtain ⟨account, known, room, equal⟩ := reserve_of_accepts room
  simp only [equal, usedMemory, usedSlots, account?_set]
  by_cases same : id = other
  · subst same
    simp [known, take_usedMemory room, take_usedSlots room]
  · simp [same]

theorem account?_reserve_of_ne (apart : id ≠ other) :
    (l.reserve id memory).1.account? other = l.account? other := by
  cases room : l.accepts id memory with
  | false => rw [reserve_of_not_accepts room]
  | true =>
      obtain ⟨account, -, -, reserved⟩ := reserve_of_accepts room
      rw [reserved, account?_set, if_neg apart]

theorem reserve_factor (l : Ledger) (id : InvokerId) (memory : UInt64) :
    (l.reserve id memory).1.factor = l.factor := by
  cases room : l.accepts id memory with
  | false => rw [reserve_of_not_accepts room]
  | true =>
      obtain ⟨account, -, -, reserved⟩ := reserve_of_accepts room
      rw [reserved]

/-! ## Releasing -/

theorem giveBack_usedMemory (held : memory.toNat ≤ account.usedMemory.toNat) :
    (giveBack account memory).usedMemory.toNat = account.usedMemory.toNat - memory.toNat := by
  have enough : ¬ account.usedMemory < memory := by
    rw [UInt64.lt_iff_toNat_lt]
    omega
  rw [giveBack, if_neg enough, UInt64.toNat_sub_of_le _ _ (UInt64.le_iff_toNat_le.mpr held)]

theorem giveBack_usedSlots (held : 0 < account.usedSlots.toNat) :
    (giveBack account memory).usedSlots.toNat = account.usedSlots.toNat - 1 := by
  have taken : account.usedSlots ≠ 0 := by
    rintro empty
    simp [empty] at held
  have one : (1 : UInt32) ≤ account.usedSlots := UInt32.le_iff_toNat_le.mpr held
  rw [giveBack, if_neg taken, UInt32.toNat_sub_of_le _ _ one, UInt32.toNat_one]

theorem release_account? (known : l.account? id = some account) (other : InvokerId) :
    (l.release id memory).account? other =
      if id = other then some (giveBack account memory) else l.account? other := by
  simp only [release, known, account?_set]

/-- **A release of what is held takes its memory and one slot off one invoker.** -/
theorem release_moves (held : l.Holds id memory) (other : InvokerId) :
    (l.release id memory).usedMemory other + (if id = other then memory.toNat else 0) =
        l.usedMemory other ∧
      (l.release id memory).usedSlots other + (if id = other then 1 else 0) =
        l.usedSlots other := by
  obtain ⟨account, known, memoryHeld, slotHeld⟩ := held
  simp only [usedMemory, usedSlots, release_account? known]
  by_cases same : id = other
  · subst same
    simp only [if_true, Option.map_some, Option.getD_some, known,
      giveBack_usedMemory memoryHeld, giveBack_usedSlots slotHeld]
    omega
  · simp [same]

theorem giveBack_take (room : l.hasRoom account memory = true) :
    giveBack (take account memory) memory = account := by
  have enough : ¬ account.usedMemory + memory < memory := by
    have sum := take_usedMemory room
    rw [take] at sum
    rw [UInt64.lt_iff_toNat_lt, sum]
    omega
  have taken : ¬ account.usedSlots + 1 = 0 := by
    intro empty
    have sum := take_usedSlots room
    simp [take, empty] at sum
  simp [giveBack, take, enough, taken]

/-- **Releasing what was just reserved restores the ledger.** -/
theorem release_reserve (room : l.accepts id memory = true) :
    (l.reserve id memory).1.release id memory = l := by
  obtain ⟨account, known, room, equal⟩ := reserve_of_accepts room
  rw [equal, release, account?_set, if_pos rfl]
  simp only [Table.set_set, giveBack_take room]
  rw [Table.set_of_get? known]

/-! ## Totals -/

/-- Totals are told to the ledger without moving what is in use. -/
theorem setCapacity_keeps (l : Ledger) (id : InvokerId) (total : UInt64) (slots : UInt32)
    (other : InvokerId) :
    (l.setCapacity id total slots).usedMemory other = l.usedMemory other ∧
      (l.setCapacity id total slots).usedSlots other = l.usedSlots other := by
  simp only [setCapacity, usedMemory, usedSlots, account?_set]
  by_cases same : id = other
  · subst same
    cases known : l.account? id with
    | none => simp [Capacity.none]
    | some account => simp
  · simp [same]

/-- Where enough is in use, a release is exact. -/
theorem holds_of_used (memoryUsed : memory.toNat ≤ l.usedMemory id)
    (slotUsed : 0 < l.usedSlots id) : l.Holds id memory := by
  unfold usedMemory at memoryUsed
  unfold usedSlots at slotUsed
  cases known : l.account? id with
  | none => simp [known] at slotUsed
  | some account => exact ⟨account, known, by simpa [known] using memoryUsed,
      by simpa [known] using slotUsed⟩

end Dispatch.Ledger
