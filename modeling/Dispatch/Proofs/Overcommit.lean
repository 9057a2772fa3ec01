import Dispatch.Proofs.LedgerRuns

/-!
# How far a factor of one over-commits

With a factor of one the memory limit of an account is its total, rounded to the nearest binary64
number (`memoryLimit_one`). Up to `2 ^ 53` that is the total itself. Above, a total that is not a
multiple of its grid is rounded up, and then more can be reserved than there is, or down, and then
some of it is never given out (`overcommit_free_iff`).
-/

set_option autoImplicit false

namespace Dispatch.Ledger

variable {id : InvokerId} {moves : List Move}

/-- An invoker's totals have never decreased. -/
def TotalsGrow (id : InvokerId) (moves : List Move) : Prop :=
  (toldTotals id moves).Pairwise fun before after =>
    before.1 ≤ after.1 ∧ before.2 ≤ after.2

instance (id : InvokerId) (moves : List Move) : Decidable (TotalsGrow id moves) :=
  inferInstanceAs (Decidable (List.Pairwise _ _))

theorem TotalsGrow.memory (grow : TotalsGrow id moves) : MemoryGrows id moves :=
  grow.imp And.left

/-- **With a factor of one the limit is the total, rounded.** -/
theorem memoryLimit_one (total : UInt64) :
    (new .one).memoryLimit total = min (Binary64.nearest total.toNat) (2 ^ 64 - 1) := by
  have factor : (new .one).factor = .one := by decide
  have rounded : (Binary64.ofNat total.toNat).IsRounded :=
    Binary64.isRounded_ofRatio Nat.one_pos
  rw [memoryLimit, factor, Binary64.mul_one_of_rounded rounded, Binary64.ofNat,
    Binary64.clampNat_ofRatio Nat.one_pos (by decide), Binary64.rounded_nat, Nat.floor_natCast]
  rfl

theorem account?_opened (factor : Binary64) (id : InvokerId) (total : UInt64) (slots : UInt32) :
    ((new factor).run [.totals id total slots]).account? id = some ⟨total, 0, slots, 0⟩ := by
  show { new factor with accounts := _ }.account? id = _
  rw [account?_set, if_pos rfl]
  rfl

theorem toldTotals_opened (id : InvokerId) (total : UInt64) (slots : UInt32) :
    toldTotals id [.totals id total slots] = [(total, slots)] := by
  simp [toldTotals, told?]

theorem totalsGrow_opened (id : InvokerId) (total : UInt64) (slots : UInt32) :
    TotalsGrow id [.totals id total slots] := by
  rw [TotalsGrow, toldTotals_opened]
  exact List.pairwise_singleton _ _

/-- A reservation tells no totals. -/
theorem TotalsGrow.reserve (grow : TotalsGrow id moves) (own : InvokerId) (memory : UInt64) :
    TotalsGrow id (moves ++ [.reserve own memory]) := by
  have nothing : (told? id (.reserve own memory)).toList = [] := rfl
  rwa [TotalsGrow, toldTotals_concat, nothing, List.append_nil]

/-- An invoker with nothing in use and one slot takes what is within its limit. -/
theorem accepts_opened (factor : Binary64) (id : InvokerId) (total memory : UInt64) :
    ((new factor).run [.totals id total 1]).accepts id memory = true ↔
      memory.toNat ≤ (new factor).memoryLimit total := by
  have free : (0 : UInt32).toNat < (1 : UInt32).toNat := by decide
  rw [accepts_iff, account?_opened]
  simp only [Option.some.injEq, exists_eq_left', memoryLimit_run, free, and_true]
  rw [UInt64.toNat_zero, Nat.zero_add]

/-- Nothing is in use beyond a limit that is no greater than the total. -/
theorem used_le_total {account : Capacity} (grow : TotalsGrow id moves)
    (known : ((new .one).run moves).account? id = some account)
    (limit : (new .one).memoryLimit account.totalMemory ≤ account.totalMemory.toNat) :
    account.usedMemory ≤ account.totalMemory :=
  Nat.le_trans ((bounded_run .one moves known).memory grow.memory) limit

/-- An invoker whose limit is greater than its total can be filled up beyond it. -/
theorem overcommitted (id : InvokerId) {total : UInt64}
    (above : total.toNat < (new .one).memoryLimit total) :
    ∃ moves account, TotalsGrow id moves ∧
      ((new .one).run moves).account? id = some account ∧ account.totalMemory = total ∧
        total < account.usedMemory := by
  let opened := (new .one).run [.totals id total 1]
  let memory : UInt64 := .ofNat ((new .one).memoryLimit total)
  have range := (new .one).memoryLimit_le total
  have filling : memory.toNat = (new .one).memoryLimit total := by
    refine UInt64.toNat_ofNat_of_lt' ?_
    rw [Numeral.maxWord64] at range
    exact Nat.lt_succ_of_le range
  have known : opened.account? id = some ⟨total, 0, 1, 0⟩ := account?_opened .one id total 1
  have accepted : opened.accepts id memory = true :=
    (accepts_opened .one id total memory).mpr filling.le
  obtain ⟨account, same, room, reserved⟩ := reserve_of_accepts accepted
  cases known.symm.trans same
  refine ⟨[.totals id total 1] ++ [.reserve id memory], take ⟨total, 0, 1, 0⟩ memory,
    (totalsGrow_opened id total 1).reserve id memory, ?_, rfl, ?_⟩
  · rw [run_concat]
    show (opened.reserve id memory).1.account? id = _
    rw [reserved, account?_set, if_pos rfl]
  · have used : (take ⟨total, 0, 1, 0⟩ memory).usedMemory.toNat = 0 + memory.toNat :=
      take_usedMemory room
    rw [UInt64.lt_iff_toNat_lt, used, filling]
    omega

/-- A limit is the total exactly if the total is a binary64 number, or the greatest word, to which
what is rounded up beyond it is brought back. -/
theorem limit_eq_total_iff (total : UInt64) :
    min (Binary64.nearest total.toNat) (2 ^ 64 - 1) = total.toNat ↔
      Binary64.grid total.toNat ∣ total.toNat ∨ total.toNat = 2 ^ 64 - 1 := by
  have range := total.toNat_lt
  rw [← Binary64.nearest_eq_self_iff]
  constructor
  · omega
  · rintro (same | greatest)
    · omega
    · have past : 2 ^ 64 - 1 ≤ Binary64.nearest (2 ^ 64 - 1) := by decide
      rw [greatest]
      omega

/-- **Where a factor of one means no over-commit.** Take any total and the limit that a factor of
one gives it. Whatever happens to a ledger whose totals do not shrink, an invoker with this total
never has more memory in use than it has exactly if the limit is not above the total; and it is
never refused a reservation that its memory and its slots have room for exactly if the limit is not
below the total. The limit is the nearest binary64 number, held to the range of words: off by half
a grid at most, and the total itself exactly if the total is a multiple of its grid, as up to
`2 ^ 53` all are, or the greatest word. -/
theorem overcommit_free_iff (id : InvokerId) (total : UInt64) :
    let limit := min (Binary64.nearest total.toNat) (2 ^ 64 - 1)
    ((∀ moves account, TotalsGrow id moves →
        ((new .one).run moves).account? id = some account → account.totalMemory = total →
        account.usedMemory ≤ total) ↔ limit ≤ total.toNat) ∧
    ((∀ moves account memory, TotalsGrow id moves →
        ((new .one).run moves).account? id = some account → account.totalMemory = total →
        account.usedMemory.toNat + memory.toNat ≤ total.toNat →
        account.usedSlots < account.totalSlots →
        (((new .one).run moves).reserve id memory).2 = true) ↔ total.toNat ≤ limit) ∧
    (limit = total.toNat ↔
      Binary64.grid total.toNat ∣ total.toNat ∨ total.toNat = 2 ^ 64 - 1) ∧
    (total.toNat ≤ 2 ^ 53 → limit = total.toNat) ∧
    2 * limit ≤ 2 * total.toNat + Binary64.grid total.toNat ∧
    2 * total.toNat ≤ 2 * limit + Binary64.grid total.toNat := by
  intro limit
  have limit_eq : (new .one).memoryLimit total = limit := memoryLimit_one total
  refine ⟨⟨?_, ?_⟩, ⟨?_, ?_⟩, limit_eq_total_iff total, ?_, ?_⟩
  · intro within
    rw [← limit_eq]
    by_contra above
    obtain ⟨moves, account, grow, known, same, beyond⟩ := overcommitted id (Nat.not_le.mp above)
    exact absurd (within moves account grow known same) (UInt64.not_le.mpr beyond)
  · rintro le moves account grow known rfl
    exact used_le_total grow known (limit_eq ▸ le)
  · intro granted
    have free : (0 : UInt32) < 1 := by decide
    have all := granted _ _ total (totalsGrow_opened id total 1)
      (account?_opened .one id total 1) rfl (Nat.zero_add _).le free
    rw [reserve_snd, accepts_opened, limit_eq] at all
    exact all
  · rintro le moves account memory - known rfl fits free
    rw [reserve_snd, accepts_iff]
    refine ⟨account, known, ?_, UInt32.lt_iff_toNat_lt.mp free⟩
    rw [memoryLimit_run, limit_eq]
    exact Nat.le_trans fits le
  · intro small
    exact (limit_eq_total_iff total).mpr (.inl (Binary64.grid_dvd_of_le small))
  · have near := Binary64.nearest_near total.toNat
    have range := total.toNat_lt
    omega

/-- An invoker whose totals grow to a number that binary64 has, most of it in use. -/
def demoGrowth : List Move :=
  [.totals ⟨0⟩ 9_007_199_254_740_000 2, .reserve ⟨0⟩ 9_007_199_254_740_000,
    .totals ⟨0⟩ 9_007_199_254_740_996 4]

/-- No more is in use than there is, and what is left is taken in one reservation. -/
theorem overcommit_free_iff_demoGrowth :
    let l := (new .one).run demoGrowth
    TotalsGrow ⟨0⟩ demoGrowth ∧
      (∃ account, l.account? ⟨0⟩ = some account ∧
        account.totalMemory = 9_007_199_254_740_996 ∧
        account.usedMemory + 996 = account.totalMemory ∧
        account.usedMemory ≤ account.totalMemory) ∧
      (l.reserve ⟨0⟩ 996).2 = true := by
  intro l
  have grow : TotalsGrow ⟨0⟩ demoGrowth := by decide
  have known : l.account? ⟨0⟩ =
      some ⟨9_007_199_254_740_996, 9_007_199_254_740_000, 4, 1⟩ := by decide +kernel
  obtain ⟨within, granted, limit, -⟩ := overcommit_free_iff ⟨0⟩ 9_007_199_254_740_996
  have same := limit.mpr (.inl (by decide))
  exact ⟨grow, ⟨_, known, rfl, rfl, within.mpr same.le demoGrowth _ grow known rfl⟩,
    granted.mpr same.ge demoGrowth _ 996 grow known rfl (by decide) (by decide)⟩

/-- A total between two binary64 numbers, told once, and a reservation of the upper one. -/
def roundedUp : List Move :=
  [.totals ⟨0⟩ 9_007_199_254_740_995 4, .reserve ⟨0⟩ 9_007_199_254_740_996]

/-- With a factor of one, more is in use than there is; and where the total is rounded down, a
reservation of just what there is is refused. -/
theorem overcommitted_by_rounding :
    (TotalsGrow ⟨0⟩ roundedUp ∧ ∃ account,
      ((new .one).run roundedUp).account? ⟨0⟩ = some account ∧
        account.totalMemory < account.usedMemory) ∧
    (((new .one).run [.totals ⟨0⟩ 9_007_199_254_740_993 4]).reserve ⟨0⟩
      9_007_199_254_740_993).2 = false := by
  refine ⟨⟨by decide, ?_⟩, by decide +kernel⟩
  exact ⟨⟨9_007_199_254_740_995, 9_007_199_254_740_996, 4, 1⟩, by decide +kernel, by decide⟩

end Dispatch.Ledger
