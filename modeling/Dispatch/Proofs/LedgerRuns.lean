import Dispatch.Proofs.Accounts
import Dispatch.Proofs.Binary64.Order
import Mathlib.Algebra.BigOperators.Group.List.Basic
import Mathlib.Data.List.Induction

/-!
# Runs of the ledger

Totals, reservations and releases may come in any order, for any invokers. A move changes at most
the account of its own invoker, in one of three ways (`change_of_step`). From it follow the two
bounds: while totals only grow, nothing is in use beyond the limit (`Bounded`), and once a total
has shrunk, what is in use beyond it does not rise. A run in which every release gives back what was
reserved (`Matched`) keeps books: what is in use is what is owed (`never_over_reserves`).
-/

set_option autoImplicit false

namespace Dispatch.Ledger

/-! ## Moves -/

/-- What can happen to a ledger. -/
inductive Move where
  | totals (id : InvokerId) (memory : UInt64) (slots : UInt32)
  | reserve (id : InvokerId) (memory : UInt64)
  | release (id : InvokerId) (memory : UInt64)

def step (l : Ledger) : Move → Ledger
  | .totals id memory slots => l.setCapacity id memory slots
  | .reserve id memory => (l.reserve id memory).1
  | .release id memory => l.release id memory

def run (l : Ledger) (moves : List Move) : Ledger := moves.foldl step l

variable {l : Ledger} {id other : InvokerId} {memory : UInt64} {account : Capacity}
  {moves : List Move}

theorem run_concat (l : Ledger) (moves : List Move) (m : Move) :
    l.run (moves ++ [m]) = (l.run moves).step m := by
  rw [run, List.foldl_append]
  rfl

theorem step_factor (l : Ledger) (m : Move) : (l.step m).factor = l.factor := by
  cases m with
  | totals => rfl
  | reserve id memory => exact reserve_factor l id memory
  | release id memory =>
      simp only [step, release]
      split <;> rfl

theorem run_factor (l : Ledger) (moves : List Move) : (l.run moves).factor = l.factor := by
  induction moves using List.reverseRecOn with
  | nil => rfl
  | append_singleton moves m ih => rw [run_concat, step_factor, ih]

/-- How an invoker can come by an account in one move. -/
inductive Change (l : Ledger) (id : InvokerId) : Move → Capacity → Prop where
  | kept {m : Move} {account : Capacity} (known : l.account? id = some account) :
      Change l id m account
  | told (memory : UInt64) (slots : UInt32) : Change l id (.totals id memory slots)
      { (l.account? id).getD .none with totalMemory := memory, totalSlots := slots }
  | taken {memory : UInt64} {account : Capacity} (known : l.account? id = some account)
      (room : l.hasRoom account memory = true) :
      Change l id (.reserve id memory) (take account memory)
  | givenBack {memory : UInt64} {account : Capacity} (known : l.account? id = some account) :
      Change l id (.release id memory) (giveBack account memory)

/-- **A move changes the account of its own invoker only**, and that in one of three ways. -/
theorem change_of_step {m : Move} {after : Capacity}
    (stepped : (l.step m).account? id = some after) : Change l id m after := by
  cases m with
  | totals own memory slots =>
      simp only [step, setCapacity, account?_set] at stepped
      split at stepped
      · rename_i same
        cases same
        cases stepped
        exact .told memory slots
      · exact .kept stepped
  | reserve own memory =>
      cases room : l.accepts own memory with
      | false =>
          simp only [step, reserve_of_not_accepts room] at stepped
          exact .kept stepped
      | true =>
          obtain ⟨account, known, enough, reserved⟩ := reserve_of_accepts room
          simp only [step, reserved, account?_set] at stepped
          split at stepped
          · rename_i same
            cases same
            cases stepped
            exact .taken known enough
          · exact .kept stepped
  | release own memory =>
      cases known : l.account? own with
      | none =>
          simp only [step, release, known] at stepped
          exact .kept stepped
      | some account =>
          simp only [step, release_account? known] at stepped
          split at stepped
          · rename_i same
            cases same
            cases stepped
            exact .givenBack known
          · exact .kept stepped

/-! ## Limits -/

/-- **The memory limit grows with the total**, whatever the factor. -/
theorem memoryLimit_mono (l : Ledger) {a b : UInt64} (le : a ≤ b) :
    l.memoryLimit a ≤ l.memoryLimit b :=
  Binary64.clampNat_mul_mono le b.toNat_lt (by decide) l.factor

theorem memoryLimit_le (l : Ledger) (total : UInt64) : l.memoryLimit total ≤ Numeral.maxWord64 :=
  Binary64.clampNat_le _ _

theorem memoryLimit_run (l : Ledger) (moves : List Move) (total : UInt64) :
    (l.run moves).memoryLimit total = l.memoryLimit total := by
  rw [memoryLimit, memoryLimit, run_factor]

/-- The range of words is no limit of its own. -/
theorem accepts_iff :
    l.accepts id memory = true ↔ ∃ account, l.account? id = some account ∧
      account.usedMemory.toNat + memory.toNat ≤ l.memoryLimit account.totalMemory ∧
        account.usedSlots.toNat < account.totalSlots.toNat := by
  unfold accepts
  cases known : l.account? id with
  | none => simp
  | some account =>
      have limit := l.memoryLimit_le account.totalMemory
      simp only [hasRoom_iff, Option.some.injEq, exists_eq_left']
      omega

theorem giveBack_le (account : Capacity) (memory : UInt64) :
    (giveBack account memory).usedMemory ≤ account.usedMemory ∧
      (giveBack account memory).usedSlots ≤ account.usedSlots := by
  rw [UInt64.le_iff_toNat_le, UInt32.le_iff_toNat_le]
  constructor
  · by_cases held : memory.toNat ≤ account.usedMemory.toNat
    · rw [giveBack_usedMemory held]
      exact Nat.sub_le _ _
    · have short : account.usedMemory < memory := UInt64.lt_iff_toNat_lt.mpr (Nat.not_le.mp held)
      simp [giveBack, short]
  · by_cases held : 0 < account.usedSlots.toNat
    · rw [giveBack_usedSlots held]
      exact Nat.sub_le _ _
    · have empty : account.usedSlots = 0 := UInt32.toNat_inj.mp (Nat.eq_zero_of_not_pos held)
      simp [giveBack, empty]

/-- **What is in use beyond a limit does not rise.** -/
theorem step_of_beyond {m : Move} {after : Capacity} (known : l.account? id = some account)
    (stepped : (l.step m).account? id = some after)
    (beyond : l.memoryLimit account.totalMemory < account.usedMemory.toNat ∨
      account.totalSlots < account.usedSlots) :
    after.usedMemory ≤ account.usedMemory ∧ after.usedSlots ≤ account.usedSlots := by
  cases change_of_step stepped with
  | kept same =>
      cases known.symm.trans same
      exact ⟨UInt64.le_refl _, UInt32.le_refl _⟩
  | told memory slots =>
      rw [known]
      exact ⟨UInt64.le_refl _, UInt32.le_refl _⟩
  | taken same room =>
      cases known.symm.trans same
      obtain ⟨-, fits, slot⟩ := hasRoom_iff.mp room
      rw [UInt32.lt_iff_toNat_lt] at beyond
      omega
  | givenBack same =>
      cases known.symm.trans same
      exact giveBack_le account _

/-! ## Totals that grow -/

/-- The totals that a move tells of an invoker. -/
def told? (id : InvokerId) : Move → Option (UInt64 × UInt32)
  | .totals own memory slots => if own = id then some (memory, slots) else none
  | _ => none

/-- All totals that were told of an invoker, in the order in which they were told. -/
def toldTotals (id : InvokerId) (moves : List Move) : List (UInt64 × UInt32) :=
  moves.filterMap (told? id)

/-- An invoker's total memory has never decreased. -/
def MemoryGrows (id : InvokerId) (moves : List Move) : Prop :=
  (toldTotals id moves).Pairwise fun before after => before.1 ≤ after.1

/-- An invoker's total slots have never decreased. -/
def SlotsGrow (id : InvokerId) (moves : List Move) : Prop :=
  (toldTotals id moves).Pairwise fun before after => before.2 ≤ after.2

/-- An account whose totals were told, with nothing in use beyond a limit that has only grown. -/
structure Bounded (limit : UInt64 → Nat) (id : InvokerId) (moves : List Move)
    (account : Capacity) : Prop where
  told : (account.totalMemory, account.totalSlots) ∈ toldTotals id moves
  memory : MemoryGrows id moves → account.usedMemory.toNat ≤ limit account.totalMemory
  slots : SlotsGrow id moves → account.usedSlots.toNat ≤ account.totalSlots.toNat

theorem toldTotals_concat (id : InvokerId) (moves : List Move) (m : Move) :
    toldTotals id (moves ++ [m]) = toldTotals id moves ++ (told? id m).toList := by
  rw [toldTotals, List.filterMap_append]
  cases told : told? id m <;> simp [toldTotals, told]

/-- An account is in bounds after any move that leaves its totals and puts nothing in use beyond
them. -/
theorem Bounded.concat {limit : UInt64 → Nat} {before : Capacity}
    (bounded : Bounded limit id moves before) (m : Move)
    (totals : (account.totalMemory, account.totalSlots) = (before.totalMemory, before.totalSlots))
    (memory : account.usedMemory ≤ before.usedMemory ∨
      account.usedMemory.toNat ≤ limit account.totalMemory)
    (slots : account.usedSlots ≤ before.usedSlots ∨
      account.usedSlots.toNat ≤ account.totalSlots.toNat) :
    Bounded limit id (moves ++ [m]) account := by
  obtain ⟨sameMemory, sameSlots⟩ := Prod.mk.inj totals
  have earlier {R : UInt64 × UInt32 → UInt64 × UInt32 → Prop}
      (grows : (toldTotals id (moves ++ [m])).Pairwise R) : (toldTotals id moves).Pairwise R := by
    rw [toldTotals_concat] at grows
    exact (List.pairwise_append.mp grows).1
  refine ⟨?_, fun grows => ?_, fun grows => ?_⟩
  · rw [toldTotals_concat, totals]
    exact List.mem_append_left _ bounded.told
  · rcases memory with less | within
    · rw [sameMemory]
      exact Nat.le_trans less (bounded.memory (earlier grows))
    · exact within
  · rcases slots with less | within
    · rw [sameSlots]
      exact Nat.le_trans less (bounded.slots (earlier grows))
    · exact within

/-- **While its totals only grow, an invoker has nothing in use beyond them.** -/
theorem bounded_run (factor : Binary64) (moves : List Move) {account : Capacity}
    (known : ((new factor).run moves).account? id = some account) :
    Bounded (new factor).memoryLimit id moves account := by
  induction moves using List.reverseRecOn generalizing account with
  | nil => cases known
  | append_singleton moves m ih =>
      rw [run_concat] at known
      cases change_of_step known with
      | kept known =>
          exact (ih known).concat m rfl (.inl (UInt64.le_refl _)) (.inl (UInt32.le_refl _))
      | told memory slots =>
          have told : toldTotals id (moves ++ [.totals id memory slots]) =
              toldTotals id moves ++ [(memory, slots)] := by
            simp [toldTotals_concat, told?]
          cases before : ((new factor).run moves).account? id with
          | none =>
              refine ⟨?_, fun _ => Nat.zero_le _, fun _ => Nat.zero_le _⟩
              rw [told]
              exact List.mem_append_right _ List.mem_cons_self
          | some account =>
              have bounded := ih before
              refine ⟨?_, fun grows => ?_, fun grows => ?_⟩
              · rw [told]
                exact List.mem_append_right _ List.mem_cons_self
              · rw [MemoryGrows, told, List.pairwise_append] at grows
                have grown := grows.2.2 _ bounded.told _ List.mem_cons_self
                exact Nat.le_trans (bounded.memory grows.1) (memoryLimit_mono _ grown)
              · rw [SlotsGrow, told, List.pairwise_append] at grows
                have grown := grows.2.2 _ bounded.told _ List.mem_cons_self
                exact Nat.le_trans (bounded.slots grows.1) grown
      | taken before room =>
          obtain ⟨-, fits, slot⟩ := hasRoom_iff.mp room
          rw [memoryLimit_run] at fits
          refine (ih before).concat _ rfl (.inr ?_) (.inr ?_)
          · rwa [take_usedMemory room]
          · rwa [take_usedSlots room]
      | @givenBack memory _ before =>
          obtain ⟨less, fewer⟩ := giveBack_le _ memory
          exact (ih before).concat _ rfl (.inl less) (.inl fewer)

/-! ## Books -/

/-- What is owed after some moves that began with a new ledger: the reservations that were made and
not given back. A release gives back one that is owed, of the same invoker and the same size. -/
inductive Matched (factor : Binary64) : List Move → List (InvokerId × UInt64) → Prop where
  | start : Matched factor [] []
  | totals {moves : List Move} {owed : List (InvokerId × UInt64)} (id : InvokerId)
      (memory : UInt64) (slots : UInt32) (earlier : Matched factor moves owed) :
      Matched factor (moves ++ [.totals id memory slots]) owed
  | taken {moves : List Move} {owed : List (InvokerId × UInt64)} {id : InvokerId}
      {memory : UInt64} (earlier : Matched factor moves owed)
      (accepted : (((new factor).run moves).reserve id memory).2 = true) :
      Matched factor (moves ++ [.reserve id memory]) ((id, memory) :: owed)
  | refused {moves : List Move} {owed : List (InvokerId × UInt64)} {id : InvokerId}
      {memory : UInt64} (earlier : Matched factor moves owed)
      (refused : (((new factor).run moves).reserve id memory).2 = false) :
      Matched factor (moves ++ [.reserve id memory]) owed
  | givenBack {moves : List Move} {owed : List (InvokerId × UInt64)} {id : InvokerId}
      {memory : UInt64} (earlier : Matched factor moves owed) (there : (id, memory) ∈ owed) :
      Matched factor (moves ++ [.release id memory]) (owed.erase (id, memory))

/-- The memory that is owed on an invoker. -/
def owedMemory (owed : List (InvokerId × UInt64)) (id : InvokerId) : Nat :=
  (owed.map fun (own, memory) => if own = id then memory.toNat else 0).sum

/-- The slots that are owed on an invoker, one for each reservation. -/
def owedSlots (owed : List (InvokerId × UInt64)) (id : InvokerId) : Nat :=
  owed.countP fun (own, _) => own = id

variable {owed : List (InvokerId × UInt64)}

theorem owed_cons (id : InvokerId) (memory : UInt64) (owed : List (InvokerId × UInt64))
    (other : InvokerId) :
    owedMemory ((id, memory) :: owed) other =
        owedMemory owed other + (if id = other then memory.toNat else 0) ∧
      owedSlots ((id, memory) :: owed) other =
        owedSlots owed other + (if id = other then 1 else 0) := by
  constructor
  · rw [owedMemory, List.map_cons, List.sum_cons, Nat.add_comm]
    rfl
  · simp [owedSlots, List.countP_cons]

theorem owed_erase (there : (id, memory) ∈ owed) (other : InvokerId) :
    owedMemory (owed.erase (id, memory)) other + (if id = other then memory.toNat else 0) =
        owedMemory owed other ∧
      owedSlots (owed.erase (id, memory)) other + (if id = other then 1 else 0) =
        owedSlots owed other := by
  have perm := List.perm_cons_erase there
  obtain ⟨memories, slots⟩ := owed_cons id memory (owed.erase (id, memory)) other
  rw [← memories, ← slots]
  exact ⟨((perm.map _).sum_eq).symm, (perm.countP_eq _).symm⟩

/-- **What is in use is what is owed.** -/
theorem Matched.books {factor : Binary64} (matched : Matched factor moves owed) (i : InvokerId) :
    ((new factor).run moves).usedMemory i = owedMemory owed i ∧
      ((new factor).run moves).usedSlots i = owedSlots owed i := by
  induction matched generalizing i with
  | start => exact ⟨rfl, rfl⟩
  | totals id memory slots earlier ih =>
      obtain ⟨memories, counts⟩ := setCapacity_keeps ((new factor).run _) id memory slots i
      rw [run_concat, step, memories, counts]
      exact ih i
  | taken earlier accepted ih =>
      rw [reserve_snd] at accepted
      obtain ⟨memories, counts⟩ := reserve_moves accepted i
      obtain ⟨owedMemories, owedCounts⟩ := owed_cons _ _ _ i
      rw [run_concat, step, memories, counts, owedMemories, owedCounts, (ih i).1, (ih i).2]
      exact ⟨rfl, rfl⟩
  | refused earlier refused ih =>
      rw [reserve_snd] at refused
      rw [run_concat, step, reserve_of_not_accepts refused]
      exact ih i
  | @givenBack moves owed id memory earlier there ih =>
      have own := owed_erase there id
      simp only [if_true] at own
      have held : ((new factor).run moves).Holds id memory :=
        holds_of_used (by rw [(ih id).1]; omega) (by rw [(ih id).2]; omega)
      have moved := release_moves held i
      have erased := owed_erase there i
      rw [(ih i).1, (ih i).2] at moved
      rw [run_concat, step]
      omega

/-! ## The ledger -/

/-- **The ledger never over-reserves.** After any moves, whatever the factor, a memory limit grows
with its total, and

* a reservation is accepted exactly if the invoker has an account with room for the memory under
  the limit and with a free slot; it then adds both to this account, without passing the range of
  their words, and changes no other account, and a reservation that is refused changes nothing;
* an invoker whose total memory, or whose total slots, never decreased has no more of them in use
  than its limit, and what is in use beyond a limit rises in no move;
* if every release gives back what was reserved, then what is in use is what is owed. -/
theorem never_over_reserves (factor : Binary64) (moves : List Move) :
    let l := (new factor).run moves
    (∀ a b : UInt64, a ≤ b → l.memoryLimit a ≤ l.memoryLimit b) ∧
    (∀ id memory,
      ((l.reserve id memory).2 = true ↔ ∃ account, l.account? id = some account ∧
        account.usedMemory.toNat + memory.toNat ≤ l.memoryLimit account.totalMemory ∧
        account.usedSlots.toNat < account.totalSlots.toNat) ∧
      ((l.reserve id memory).2 = true → ∃ account, l.account? id = some account ∧
        account.usedMemory.toNat + memory.toNat < 2 ^ 64 ∧ account.usedSlots.toNat + 1 < 2 ^ 32 ∧
        (l.reserve id memory).1.account? id =
          some { account with
            usedMemory := account.usedMemory + memory, usedSlots := account.usedSlots + 1 } ∧
        ∀ other, id ≠ other → (l.reserve id memory).1.account? other = l.account? other) ∧
      ((l.reserve id memory).2 = false → (l.reserve id memory).1 = l)) ∧
    (∀ id account, l.account? id = some account →
      (MemoryGrows id moves → account.usedMemory.toNat ≤ l.memoryLimit account.totalMemory) ∧
      (SlotsGrow id moves → account.usedSlots.toNat ≤ account.totalSlots.toNat)) ∧
    (∀ id m account after, l.account? id = some account → (l.step m).account? id = some after →
      (l.memoryLimit account.totalMemory < account.usedMemory.toNat ∨
        account.totalSlots < account.usedSlots) →
      after.usedMemory ≤ account.usedMemory ∧ after.usedSlots ≤ account.usedSlots) ∧
    ∀ owed, Matched factor moves owed → ∀ id,
      l.usedMemory id = owedMemory owed id ∧ l.usedSlots id = owedSlots owed id := by
  intro l
  refine ⟨fun a b => l.memoryLimit_mono, fun id memory => ⟨?_, ?_, ?_⟩, ?_, ?_, ?_⟩
  · rw [reserve_snd]
    exact accepts_iff
  · rw [reserve_snd]
    intro accepted
    obtain ⟨account, known, room, reserved⟩ := reserve_of_accepts accepted
    obtain ⟨range, -, slot⟩ := hasRoom_iff.mp room
    have slots := account.totalSlots.toNat_lt
    refine ⟨account, known, ?_, by omega, ?_, fun other => account?_reserve_of_ne⟩
    · rw [Numeral.maxWord64] at range
      omega
    · rw [reserved, account?_set, if_pos rfl]
      rfl
  · rw [reserve_snd]
    intro refused
    rw [reserve_of_not_accepts refused]
  · intro id account known
    have bounded := bounded_run factor moves known
    rw [memoryLimit_run]
    exact ⟨bounded.memory, bounded.slots⟩
  · exact fun id m account after => step_of_beyond
  · exact fun owed matched id => matched.books id

/-- A factor of one and a half. -/
def demoFactor : Binary64 := .ofDecimal false 15 (-1)

/-- An invoker with 1000 MB takes 900, refuses as much again, takes 600 and gives back the 900. -/
def demoTurns : List Move :=
  [.totals ⟨0⟩ 1000 4, .reserve ⟨0⟩ 900, .reserve ⟨0⟩ 900, .reserve ⟨0⟩ 600, .totals ⟨0⟩ 1000 6,
    .release ⟨0⟩ 900]

theorem matched_demoTurns : Matched demoFactor demoTurns [(⟨0⟩, 600)] := by
  have taken : Matched demoFactor (demoTurns.take 2) [(⟨0⟩, 900)] :=
    .taken (.totals ⟨0⟩ 1000 4 .start) (by decide +kernel)
  have refused : Matched demoFactor (demoTurns.take 3) [(⟨0⟩, 900)] :=
    .refused taken (by decide +kernel)
  have both : Matched demoFactor (demoTurns.take 4) [(⟨0⟩, 600), (⟨0⟩, 900)] :=
    .taken refused (by decide +kernel)
  exact .givenBack (both.totals ⟨0⟩ 1000 6) (by decide)

/-- Up to its limit of 1500 MB it takes 900 more and not 901. When it has but 300 MB left, it has
more in use than their limit, and no move adds to that. -/
theorem never_over_reserves_demoTurns :
    let l := (new demoFactor).run demoTurns
    let short := (new demoFactor).run (demoTurns ++ [.totals ⟨0⟩ 300 6])
    MemoryGrows ⟨0⟩ demoTurns ∧ SlotsGrow ⟨0⟩ demoTurns ∧
      Matched demoFactor demoTurns [(⟨0⟩, 600)] ∧
      (∃ account, l.account? ⟨0⟩ = some account ∧
        account.usedMemory.toNat ≤ l.memoryLimit account.totalMemory ∧
        account.usedSlots.toNat ≤ account.totalSlots.toNat) ∧
      l.usedMemory ⟨0⟩ = 600 ∧ l.usedSlots ⟨0⟩ = 1 ∧
      (l.reserve ⟨0⟩ 900).2 = true ∧
      (l.reserve ⟨0⟩ 901).2 = false ∧ (l.reserve ⟨0⟩ 901).1 = l ∧
      short.memoryLimit 300 < 600 ∧
      ∀ m after, (short.step m).account? ⟨0⟩ = some after →
        after.usedMemory ≤ 600 ∧ after.usedSlots ≤ 1 := by
  intro l short
  have totals : toldTotals ⟨0⟩ demoTurns = [(1000, 4), (1000, 6)] := by decide
  have memory : MemoryGrows ⟨0⟩ demoTurns := by
    rw [MemoryGrows, totals]
    decide
  have slots : SlotsGrow ⟨0⟩ demoTurns := by
    rw [SlotsGrow, totals]
    decide
  have known : l.account? ⟨0⟩ = some ⟨1000, 600, 6, 1⟩ := by decide +kernel
  have limit : l.memoryLimit 1000 = 1500 := by decide +kernel
  have less : short.account? ⟨0⟩ = some ⟨300, 600, 6, 1⟩ := by decide +kernel
  have beyond : short.memoryLimit 300 < 600 := by decide +kernel
  obtain ⟨-, reserves, bounded, -, owes⟩ := never_over_reserves demoFactor demoTurns
  obtain ⟨-, -, -, held, -⟩ :=
    never_over_reserves demoFactor (demoTurns ++ [.totals ⟨0⟩ 300 6])
  have room : (l.reserve ⟨0⟩ 900).2 = true :=
    (reserves ⟨0⟩ 900).1.mpr ⟨_, known, by rw [limit]; decide, by decide⟩
  have refused : (l.reserve ⟨0⟩ 901).2 = false := by
    rw [← Bool.not_eq_true, (reserves ⟨0⟩ 901).1]
    rintro ⟨account, same, fits, -⟩
    cases known.symm.trans same
    rw [limit] at fits
    exact absurd fits (by decide)
  have books := owes _ matched_demoTurns ⟨0⟩
  obtain ⟨fits, free⟩ := bounded ⟨0⟩ _ known
  exact ⟨memory, slots, matched_demoTurns, ⟨_, known, fits memory, free slots⟩, books.1, books.2,
    room, refused, (reserves ⟨0⟩ 901).2.2 refused, beyond,
    fun m after stepped => held ⟨0⟩ m _ after less stepped (.inl beyond)⟩

end Dispatch.Ledger
