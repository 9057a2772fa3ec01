import Dispatch.Proofs.Binary64.Order
import Dispatch.Proofs.SnapshotReuse

/-!
# The pools of a growing fleet

A fleet only grows, and with it its pools are parted anew. `PoolSizes.ofShare` parts it by an exact
share, and `poolSizes` does the same wherever its one product is exact (`poolSizes_eq_ofShare`).
Both pools then grow with the fleet: one more invoker raises the wanted size of the blackbox pool
by one at most, and where the sizes are held to their bounds that much is enough
(`PoolSizes.ofWanted_succ`). So nobody leaves the managed pool, and what an invoker has served over
a run of registrations `Settles`.

A rounded product can be too great by enough to take an invoker from the managed pool. It takes a
large fleet to do so: up to `2 ^ 26` invokers no share at all does (`grows_poolSizes`).
-/

set_option autoImplicit false

namespace Dispatch

/-! ## Exact products -/

namespace Binary64

/-- The rational number that a finite number is. -/
def Stands : Binary64 → ℚ → Prop
  | .finite negative m e, q => q = (if negative then -1 else 1) * (m * 2 ^ e)
  | _, _ => False

instance : (x : Binary64) → (q : ℚ) → Decidable (x.Stands q)
  | .finite _ _ _, _ => decEq _ _
  | .infinite _, _ => .isFalse id
  | .nan, _ => .isFalse id

variable {x : Binary64} {q : ℚ}

theorem le_zero_iff (stands : x.Stands q) : x.le (zero false) = true ↔ q ≤ 0 := by
  cases x with
  | nan => exact stands.elim
  | infinite negative => exact stands.elim
  | finite negative m e =>
      rw [Stands] at stands
      subst stands
      cases negative with
      | true =>
          have below : (0 : ℚ) ≤ m * 2 ^ e := by positivity
          simp [le, zero, multipleOf, below]
      | false =>
          have whole (k : Nat) : (m * 2 ^ k : Int) ≤ 0 ↔ m = 0 := by
            rw [← not_lt, mul_pos_iff_of_pos_right (by positivity), Nat.cast_pos]
            exact Nat.pos_iff_ne_zero.not_left
          have rational : (m * 2 ^ e : ℚ) ≤ 0 ↔ m = 0 := by
            rw [← not_lt, mul_pos_iff_of_pos_right (by positivity), Nat.cast_pos]
            exact Nat.pos_iff_ne_zero.not_left
          simp [le, zero, multipleOf, whole, rational]

/-- The whole part of a number within the range. -/
theorem clampNat_of_stands (stands : x.Stands q) {largest : Nat} (range : q ≤ largest) :
    x.clampNat largest = ⌊q⌋₊ := by
  cases x with
  | nan => exact stands.elim
  | infinite negative => exact stands.elim
  | finite negative m e =>
      rw [Stands] at stands
      subst stands
      cases negative with
      | true =>
          have below : (-1 * (m * 2 ^ e) : ℚ) ≤ 0 := by
            rw [neg_one_mul]
            exact neg_nonpos.mpr (by positivity)
          exact (Nat.floor_of_nonpos below).symm
      | false =>
          simp only [Bool.false_eq_true, if_false, one_mul] at range ⊢
          have within : wholePart m e ≤ largest := by
            rw [wholePart_eq]
            exact Nat.floor_le_of_le range
          show min (wholePart m e) largest = _
          rw [Nat.min_eq_left within, wholePart_eq]

end Binary64

/-! ## Sizes -/

namespace PoolSizes

/-- Parts a fleet by the wanted size of its blackbox pool, unless it has no blackbox share. -/
def parted (shareless : Prop) [Decidable shareless] (wanted : Nat → Nat) (n : Nat) : PoolSizes :=
  if n < 2 ∨ shareless then ⟨n, 0⟩ else .ofWanted n (wanted n)

/-- Parts a fleet by an exact share of the blackbox pool. -/
def ofShare (share : ℚ) : Nat → PoolSizes := parted (share ≤ 0) fun n => ⌊n * share⌋₊

/-- Neither pool of the one fleet is smaller than that of the other. -/
structure Within (s s' : PoolSizes) : Prop where
  managed : s.managed ≤ s'.managed
  blackbox : s.blackbox ≤ s'.blackbox

/-- Up to a bound, a larger fleet has no smaller pool. -/
def Grows (sizes : Nat → PoolSizes) (bound : Nat) : Prop :=
  ∀ ⦃n m⦄, n ≤ m → m ≤ bound → (sizes n).Within (sizes m)

theorem Within.refl (s : PoolSizes) : s.Within s := ⟨Nat.le_refl _, Nat.le_refl _⟩

theorem Within.trans {s s' s'' : PoolSizes} (first : s.Within s') (second : s'.Within s'') :
    s.Within s'' :=
  ⟨first.managed.trans second.managed, first.blackbox.trans second.blackbox⟩

/-- **One more invoker** takes nobody from either pool if the wanted size of the blackbox pool does
not fall, and rises by one at most while it is below its bound. -/
theorem ofWanted_succ {n wanted wanted' : Nat} (rises : wanted ≤ wanted')
    (slowly : wanted' ≤ wanted + 1 ∨ n - 1 ≤ wanted) :
    (ofWanted n wanted).Within (ofWanted (n + 1) wanted') := by
  constructor <;> simp only [ofWanted] <;> omega

section Parted

variable {shareless : Prop} [Decidable shareless] {wanted : Nat → Nat} {n : Nat}

theorem total_parted : (parted shareless wanted n).managed +
    (parted shareless wanted n).blackbox = n := by
  unfold parted
  split
  · rfl
  · exact total_ofWanted n _

/-- The managed pool is empty in an empty fleet only. -/
theorem one_le_managed (nonempty : 1 ≤ n) : 1 ≤ (parted shareless wanted n).managed := by
  unfold parted
  split
  · exact nonempty
  · simp only [ofWanted]
    omega

/-- There is a blackbox pool exactly if there are two invokers and a share for it. -/
theorem one_le_blackbox_iff :
    1 ≤ (parted shareless wanted n).blackbox ↔ 2 ≤ n ∧ ¬ shareless := by
  unfold parted
  split
  · rename_i none
    exact iff_of_false (Nat.not_succ_le_zero 0) fun both =>
      none.elim (Nat.not_lt.mpr both.1) both.2
  · rename_i both
    rw [not_or, Nat.not_lt] at both
    have two := both.1
    refine iff_of_true ?_ both
    simp only [ofWanted]
    omega

/-- What grows with each invoker grows. -/
theorem grows_parted {bound : Nat}
    (rises : ∀ n, n + 1 ≤ bound → wanted n ≤ wanted (n + 1))
    (slowly : ∀ n, n + 1 ≤ bound → wanted (n + 1) ≤ wanted n + 1 ∨ n - 1 ≤ wanted n) :
    Grows (parted shareless wanted) bound := by
  have step (n : Nat) (within : n + 1 ≤ bound) :
      (parted shareless wanted n).Within (parted shareless wanted (n + 1)) := by
    by_cases none : shareless
    · rw [parted, if_pos (.inr none), parted, if_pos (.inr none)]
      exact ⟨Nat.le_succ n, Nat.le_refl 0⟩
    · rcases Nat.lt_trichotomy n 1 with empty | rfl | more
      · rw [parted, if_pos (.inl (by omega)), parted, if_pos (.inl (by omega))]
        exact ⟨Nat.le_succ n, Nat.le_refl 0⟩
      · exact ⟨one_le_managed (by decide), Nat.zero_le _⟩
      · rw [parted, if_neg (not_or.mpr ⟨by omega, none⟩), parted,
          if_neg (not_or.mpr ⟨by omega, none⟩)]
        exact ofWanted_succ (rises n within) (slowly n within)
  intro n m le within
  induction m, le using Nat.le_induction with
  | base => exact Within.refl _
  | succ m _ ih => exact (ih (Nat.le_of_succ_le within)).trans (step m within)

end Parted

/-- **By an exact share of one at most, both pools grow with the fleet.** -/
theorem grows_ofShare {share : ℚ} (low : 0 ≤ share) (high : share ≤ 1) (bound : Nat) :
    Grows (ofShare share) bound := by
  refine grows_parted (fun n _ => ?_) fun n _ => .inl ?_
  · gcongr
    exact Nat.le_succ n
  · rw [← Nat.floor_add_one (by positivity), Nat.cast_succ, add_one_mul]
    gcongr

end PoolSizes

/-- **Where the product is exact, a fleet is parted by an exact share.** -/
theorem poolSizes_eq_ofShare {fraction : Binary64} {share : ℚ} {n : Nat}
    (stands : fraction.Stands share)
    (exact_ : ((Binary64.ofNat n).mul fraction).Stands (n * share))
    (high : share ≤ 1) (word : n ≤ Numeral.maxWord64) :
    poolSizes n fraction = .ofShare share n := by
  have range : (n * share : ℚ) ≤ Numeral.maxWord64 :=
    calc (n * share : ℚ) ≤ n * 1 := by gcongr
      _ = n := mul_one _
      _ ≤ Numeral.maxWord64 := by exact_mod_cast word
  unfold poolSizes PoolSizes.ofShare PoolSizes.parted
  simp only [Binary64.le_zero_iff stands, Binary64.clampNat_of_stands exact_ range]

namespace Binary64

/-- What the fraction is wanted to give the blackbox pool of a fleet. -/
def wanted (fraction : Binary64) (n : Nat) : Nat :=
  ((ofNat n).mul fraction).clampNat Numeral.maxWord64

/-- A whole number above a quotient is not below the number to which the quotient is rounded. -/
theorem lt_of_rounded_lt {num den k : Nat} (denominator : 0 < den) (small : k ≤ 2 ^ 53)
    (less : rounded num den < k) : (num / den : ℚ) < k := by
  by_contra above
  rw [not_lt] at above
  have kept : rounded k 1 ≤ rounded num den := by
    refine rounded_mono Nat.one_pos denominator ?_
    rwa [Nat.cast_one, div_one]
  rw [rounded_of_le small] at kept
  exact absurd less (not_lt.mpr kept)

/-- A share of which fewer than `k + 1` fall to `n` gives `n + 1` fewer than `k + 2`, by a number
that binary64 numbers of this size can tell apart. -/
theorem product_succ_le {n k : Nat} {share : ℚ} (below : k + 2 ≤ n) (small : n ≤ 2 ^ 26)
    (product : n * share < k + 1) :
    ((n + 1 : Nat) * share : ℚ) ≤ ((k + 2) * 2 ^ 26 - 1 : Nat) / 2 ^ 26 := by
  have fleet : (0 : ℚ) < n := by exact_mod_cast (by omega : 0 < n)
  have room : (k + 2 : ℚ) ≤ n := by exact_mod_cast below
  have fine : (n : ℚ) ≤ 2 ^ 26 := by exact_mod_cast small
  have one : share < (k + 1) / n := by
    rw [lt_div_iff₀ fleet, mul_comm]
    exact product
  calc ((n + 1 : Nat) * share : ℚ) = n * share + share := by push_cast; ring
    _ ≤ (k + 1) + (k + 1) / n := by gcongr
    _ ≤ (k + 1) + (n - 1) / n := by gcongr; linarith
    _ = (k + 2) - 1 / n := by field_simp; ring
    _ ≤ (k + 2) - 1 / 2 ^ 26 := by gcongr
    _ = ((k + 2) * 2 ^ 26 - 1 : Nat) / 2 ^ 26 := by
      rw [Nat.cast_sub (by omega)]
      push_cast
      ring

/-- **In a fleet of up to `2 ^ 26` invokers rounding wants no second one more**: while the product
with `n` is below `n - 1`, the product with `n + 1` is rounded to less than two above it. -/
theorem wanted_succ {n : Nat} (small : n + 1 ≤ 2 ^ 26) (fraction : Binary64) :
    fraction.wanted (n + 1) ≤ fraction.wanted n + 1 ∨ n - 1 ≤ fraction.wanted n := by
  have word : n < 2 ^ 64 := by omega
  have word' : n + 1 < 2 ^ 64 := by omega
  have range : Numeral.maxWord64 < 2 ^ 64 := by decide
  unfold wanted
  cases fraction with
  | nan =>
      obtain ⟨k, f, whole, -⟩ := exists_ofNat word'
      rw [whole]
      exact .inl (Nat.zero_le _)
  | infinite negative =>
      obtain ⟨k, f, whole, value⟩ := exists_ofNat word
      obtain ⟨k', f', whole', -⟩ := exists_ofNat word'
      rw [rounded_of_le (by omega)] at value
      rw [whole, whole']
      cases negative with
      | true =>
          refine .inl (Nat.le_trans (Nat.le_of_eq ?_) (Nat.zero_le _))
          simp only [mul]
          split <;> rfl
      | false =>
          right
          simp only [mul]
          split
          · rename_i none
            rw [none, Nat.cast_zero, zero_mul] at value
            obtain rfl : n = 0 := by exact_mod_cast value.symm
            exact Nat.zero_le _
          · show n - 1 ≤ Numeral.maxWord64
            rw [Numeral.maxWord64]
            omega
  | finite negative m e =>
      cases negative with
      | true =>
          rw [clampNat_mul_negative word', clampNat_mul_negative word]
          exact .inl (Nat.zero_le _)
      | false =>
          obtain ⟨num, den, positive, value, whole⟩ := exists_clampNat_mul word range m e
          obtain ⟨num', den', positive', value', whole'⟩ := exists_clampNat_mul word' range m e
          rw [rounded_of_le (by omega)] at value value'
          rw [whole, whole', Numeral.maxWord64]
          by_contra both
          have below : ⌊rounded num den⌋₊ + 2 ≤ n := by omega
          have next : ⌊rounded num den⌋₊ + 2 ≤ ⌊rounded num' den'⌋₊ := by omega
          have floor := Nat.lt_floor_add_one (rounded num den)
          revert below next floor
          generalize ⌊rounded num den⌋₊ = k
          intro below next floor
          have product : (n * (m * 2 ^ e) : ℚ) < k + 1 := by
            rw [← value]
            exact_mod_cast lt_of_rounded_lt positive (by omega) (by exact_mod_cast floor)
          have apart := product_succ_le below (by omega) product
          rw [← value'] at apart
          have rounding : rounded num' den' ≤ ((k + 2) * 2 ^ 26 - 1 : Nat) / 2 ^ 26 := by
            rw [← rounded_dyadic (by omega) (by decide)]
            refine rounded_mono positive' (Nat.two_pow_pos _) ?_
            exact_mod_cast apart
          have reached : ((k + 2 : Nat) : ℚ) ≤ ((k + 2) * 2 ^ 26 - 1 : Nat) / 2 ^ 26 :=
            ((Nat.le_floor_iff (rounded_nonneg num' den')).mp next).trans rounding
          rw [le_div_iff₀ (by positivity)] at reached
          have crossed : (k + 2) * 2 ^ 26 ≤ (k + 2) * 2 ^ 26 - 1 := by exact_mod_cast reached
          omega

end Binary64

/-- **No share takes an invoker from a pool of a fleet that grows up to `2 ^ 26`.** -/
theorem grows_poolSizes (fraction : Binary64) :
    PoolSizes.Grows (poolSizes · fraction) (2 ^ 26) := by
  refine PoolSizes.grows_parted (fun n small => ?_) fun n small => ?_
  · exact Binary64.clampNat_mul_mono (Nat.le_succ n) (by omega) (by decide) fraction
  · exact Binary64.wanted_succ small fraction

/-! ## Registrations -/

/-- What an invoker has served up to now: nothing before it had a position, then the blackbox pool,
then the managed one. -/
def Settles (served : List (Option Pool)) : Prop :=
  ∃ i j k, served = List.replicate i none ++ List.replicate j (some .blackbox) ++
    List.replicate k (some .managed)

/-- How far an invoker has come. -/
def standing : Option Pool → Nat
  | none => 0
  | some .blackbox => 1
  | some .managed => 2

theorem settles_cons {pool : Option Pool} {served : List (Option Pool)} (settles : Settles served)
    (first : ∀ next ∈ served, standing pool ≤ standing next) : Settles (pool :: served) := by
  obtain ⟨i, j, k, rfl⟩ := settles
  have unplaced (back : 0 < standing pool) : i = 0 := by
    by_contra some'
    have next := first none (by simp [some'])
    exact absurd back (Nat.not_lt.mpr next)
  match pool with
  | none => exact ⟨i + 1, j, k, rfl⟩
  | some .blackbox =>
      obtain rfl := unplaced Nat.one_pos
      exact ⟨0, j + 1, k, rfl⟩
  | some .managed =>
      obtain rfl := unplaced Nat.two_pos
      have left : j = 0 := by
        by_contra some'
        have next := first (some .blackbox) (by simp [some'])
        exact absurd next (by decide)
      subst left
      exact ⟨0, 0, k + 1, rfl⟩

theorem settles_of_pairwise {served : List (Option Pool)}
    (rising : served.Pairwise fun pool next => standing pool ≤ standing next) :
    Settles served := by
  induction rising with
  | nil => exact ⟨0, 0, 0, rfl⟩
  | cons first _ ih => exact settles_cons ih first

namespace Registry

variable {r : Registry} {ids : List InvokerId}

/-- The registry and what it is after each of the registrations. -/
def trail (r : Registry) (ids : List InvokerId) : List Registry :=
  ids.scanl (fun r id => (r.register id).1) r

/-- The pool that an invoker serves if the fleet is parted by these sizes. -/
def poolUnder (sizes : Nat → PoolSizes) (r : Registry) (id : InvokerId) : Option Pool :=
  if r.size ≤ id.ordinal.toNat then none
  else if id.ordinal.toNat < (sizes r.size).managed then some .managed
  else some .blackbox

/-- The fleet is parted by a share that stands for a rational number, and its product is exact. -/
structure Exact (r : Registry) (share : ℚ) : Prop where
  word : r.size ≤ Numeral.maxWord64
  fraction : r.fraction.Stands share
  product : ((Binary64.ofNat r.size).mul r.fraction).Stands (r.size * share)

instance (r : Registry) (share : ℚ) : Decidable (r.Exact share) :=
  decidable_of_iff (r.size ≤ Numeral.maxWord64 ∧ r.fraction.Stands share ∧
      ((Binary64.ofNat r.size).mul r.fraction).Stands (r.size * share))
    ⟨fun ⟨word, fraction, product⟩ => ⟨word, fraction, product⟩,
      fun ⟨word, fraction, product⟩ => ⟨word, fraction, product⟩⟩

theorem fraction_register (r : Registry) (id : InvokerId) :
    (r.register id).1.fraction = r.fraction := by
  obtain ⟨size, version, moved⟩ := r.register_keeps id
  rw [moved]

/-- Where the sizes grow, nobody falls back as the fleet does. -/
theorem standing_poolUnder_mono {sizes : Nat → PoolSizes} {bound : Nat}
    (grows : PoolSizes.Grows sizes bound) {r' : Registry} (le : r.size ≤ r'.size)
    (within : r'.size ≤ bound) (id : InvokerId) :
    standing (r.poolUnder sizes id) ≤ standing (r'.poolUnder sizes id) := by
  have managed := (grows le within).managed
  unfold poolUnder
  split
  · exact Nat.zero_le _
  · rename_i placed
    rw [if_neg fun beyond => placed (le.trans beyond)]
    split
    · rename_i inside
      rw [if_pos (inside.trans_le managed)]
    · split <;> decide

/-- Along a run of registrations the fleet only grows, to its bound at most, and its share stays. -/
theorem trail_pairwise {bound : Nat} (room : r.size ≤ bound) (words : bound ≤ Numeral.maxWord64)
    (low : ∀ id ∈ ids, id.ordinal.toNat < bound) :
    (r.trail ids).Pairwise (fun before after => before.size ≤ after.size) ∧
      ∀ after ∈ r.trail ids, r.size ≤ after.size ∧ after.size ≤ bound ∧
        after.fraction = r.fraction := by
  induction ids generalizing r with
  | nil => simp [trail, room]
  | cons id ids ih =>
      have here := low id List.mem_cons_self
      have size := r.size_register (here.trans_le words)
      obtain ⟨pairs, all⟩ := @ih (r.register id).1 (by omega)
        fun id mem => low id (List.mem_cons_of_mem _ mem)
      have grown : r.size ≤ (r.register id).1.size := by omega
      have later (after) (mem : after ∈ (r.register id).1.trail ids) :
          r.size ≤ after.size ∧ after.size ≤ bound ∧ after.fraction = r.fraction := by
        obtain ⟨above, below, share⟩ := all after mem
        exact ⟨grown.trans above, below, share.trans (fraction_register r id)⟩
      have unrolled : r.trail (id :: ids) = r :: (r.register id).1.trail ids := List.scanl_cons
      rw [unrolled]
      refine ⟨List.pairwise_cons.mpr ⟨fun after mem => (later after mem).1, pairs⟩, ?_⟩
      rintro after (_ | ⟨_, mem⟩)
      · exact ⟨Nat.le_refl _, room, rfl⟩
      · exact later after mem

/-- **Who is parted by sizes that grow settles.** -/
theorem settles_trail {sizes : Nat → PoolSizes} {bound : Nat}
    (grows : PoolSizes.Grows sizes bound) (room : r.size ≤ bound)
    (words : bound ≤ Numeral.maxWord64) (low : ∀ id ∈ ids, id.ordinal.toNat < bound)
    (id : InvokerId) : Settles ((r.trail ids).map (·.poolUnder sizes id)) := by
  obtain ⟨pairs, all⟩ := trail_pairwise room words low
  refine settles_of_pairwise (List.pairwise_map.mpr ?_)
  refine pairs.imp_of_mem fun _ after le => ?_
  exact standing_poolUnder_mono grows le (all _ after).2.1 id

/-- **Growth never takes an invoker from the managed pool.** A fleet parted by an exact share of at
most one has two pools that make it up, a managed one as soon as there is an invoker, a blackbox
one exactly if there are two and the share is not zero; and neither is smaller in a larger fleet.
So over every run of registrations, with ordinals below the largest word, what an invoker serves
changes at most once after it has a position, and only from the blackbox pool to the managed one.
The registry parts its fleet so wherever its product is exact, and then this is what it answers;
and with any share at all it answers so while there are at most `2 ^ 26` invokers. -/
theorem growth_keeps_managed {share : ℚ} (low : 0 ≤ share) (high : share ≤ 1) :
    (∀ n, (PoolSizes.ofShare share n).managed + (PoolSizes.ofShare share n).blackbox = n ∧
      (1 ≤ n → 1 ≤ (PoolSizes.ofShare share n).managed) ∧
      (1 ≤ (PoolSizes.ofShare share n).blackbox ↔ 2 ≤ n ∧ 0 < share)) ∧
    (∀ n m, n ≤ m → (PoolSizes.ofShare share n).managed ≤ (PoolSizes.ofShare share m).managed ∧
      (PoolSizes.ofShare share n).blackbox ≤ (PoolSizes.ofShare share m).blackbox) ∧
    (∀ (r : Registry) ids, r.size ≤ Numeral.maxWord64 →
      (∀ id ∈ ids, id.ordinal.toNat < Numeral.maxWord64) →
      (∀ id, Settles ((r.trail ids).map (·.poolUnder (PoolSizes.ofShare share) id))) ∧
      ((∀ after ∈ r.trail ids, after.Exact share) →
        (∀ after ∈ r.trail ids,
          poolSizes after.size after.fraction = PoolSizes.ofShare share after.size) ∧
        ∀ id, Settles ((r.trail ids).map (·.poolOf id)))) ∧
    ∀ (r : Registry) ids, r.size ≤ 2 ^ 26 → (∀ id ∈ ids, id.ordinal.toNat < 2 ^ 26) →
      ∀ id, Settles ((r.trail ids).map (·.poolOf id)) := by
  refine ⟨fun n => ⟨PoolSizes.total_parted, PoolSizes.one_le_managed, ?_⟩, fun n m le => ?_,
    fun r ids room words => ?_, fun r ids room small id => ?_⟩
  · rw [← not_le (a := share)]
    exact PoolSizes.one_le_blackbox_iff
  · have within := PoolSizes.grows_ofShare low high m le (Nat.le_refl m)
    exact ⟨within.managed, within.blackbox⟩
  · have settles :=
      settles_trail (PoolSizes.grows_ofShare low high _) room (Nat.le_refl _) words
    refine ⟨settles, fun exact_ => ?_⟩
    have parted (after) (mem : after ∈ r.trail ids) :
        poolSizes after.size after.fraction = PoolSizes.ofShare share after.size :=
      have here := exact_ after mem
      poolSizes_eq_ofShare here.fraction here.product high here.word
    refine ⟨parted, fun id => ?_⟩
    have same : (r.trail ids).map (·.poolOf id) =
        (r.trail ids).map (·.poolUnder (PoolSizes.ofShare share) id) := by
      refine List.map_congr_left fun after mem => ?_
      rw [poolOf, poolUnder, parted after mem]
    rw [same]
    exact settles id
  · have settles := settles_trail (grows_poolSizes r.fraction) room (by decide) small id
    have same : (r.trail ids).map (·.poolOf id) =
        (r.trail ids).map (·.poolUnder (poolSizes · r.fraction) id) := by
      refine List.map_congr_left fun after mem => ?_
      rw [poolOf, poolUnder, ((trail_pairwise room (by decide) small).2 after mem).2.2]
    rwa [same]

/-- A quarter of a fleet that grows to four and then to ten: the invoker with ordinal three is the
last of four, and serves the blackbox pool until there are ten. -/
theorem growth_keeps_managed_quarter :
    let quarter : Binary64 := .finite false (2 ^ 52) (-54)
    let trail := (Registry.new quarter).trail [⟨3⟩, ⟨1⟩, ⟨9⟩]
    (0 : ℚ) ≤ 1 / 4 ∧ (1 / 4 : ℚ) ≤ 1 ∧
      trail.map (·.poolOf ⟨3⟩) = [none, some .blackbox, some .blackbox, some .managed] ∧
      Settles (trail.map (·.poolOf ⟨3⟩)) := by
  intro quarter trail
  have low : (0 : ℚ) ≤ 1 / 4 := by norm_num
  have high : (1 / 4 : ℚ) ≤ 1 := by norm_num
  have runs := (growth_keeps_managed low high).2.2.1 (.new quarter) [⟨3⟩, ⟨1⟩, ⟨9⟩]
    (by decide) (by decide)
  exact ⟨low, high, by decide +kernel, (runs.2 (by decide +kernel)).2 ⟨3⟩⟩

end Registry

/-- Exactness is needed. A share just below one wants `2 ^ 29 - 1` of the first fleet for the
blackbox pool, and of the next one, by rounding, two more. -/
example :
    let share : Binary64 := (Binary64.ofNat (2 ^ 29 - 5)).div (.ofNat (2 ^ 29))
    (poolSizes (2 ^ 29 + 5) share).managed = 6 ∧ (poolSizes (2 ^ 29 + 6) share).managed = 5 := by
  decide +kernel

end Dispatch
