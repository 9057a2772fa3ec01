import Dispatch.Proofs.Resolutions
import Mathlib.Data.List.Nodup

/-!
# Timers of the activations in flight

A timer fires by identifier, whatever is then registered under it. So a deadline is kept only if
the timers that are armed belong to the registrations in flight. `Armed` says how far they do: every
registration in flight has its own timer, and the other timers are `stray`. `Armed.close`,
`Armed.add` and `Armed.fire` say what an ending, a registration and a timer that fires do to this,
`mem_fireDue_timers` and `fireDue_pending` what is left when everything due has fired.
-/

set_option autoImplicit false

namespace Dispatch

/-- The timer that a registration arms. -/
def Registered.timer (r : Registered) : Timer := ⟨r.activation.deadline, r.activation.id, r.number⟩

namespace InFlight

variable {f : InFlight} {id : ActivationId} {r : Registered} {t : Timer} {now : Instant}

/-! ## What is armed -/

/-- A deadline is the time limit and the grace after the submission. -/
theorem deadline?_nanos {submittedAt deadline : Instant} {limit : Duration}
    (named : f.deadline? submittedAt limit = some deadline) :
    deadline.nanos = submittedAt.nanos + limit.nanos + f.grace.nanos := by
  obtain ⟨limited, first, second⟩ := Option.bind_eq_some_iff.mp named
  simp only [Instant.after?, Option.ite_none_right_eq_some, Option.some.injEq] at first second
  rw [← second.2, ← first.2]

theorem insertTimer_perm (t : Timer) (timers : List Timer) :
    (insertTimer t timers).Perm (t :: timers) := by
  induction timers with
  | nil => exact .refl _
  | cons u rest ih =>
      rw [insertTimer]
      split
      · exact .refl _
      · exact (ih.cons u).trans (.swap t u rest)

theorem fire_of_pending (pending : Table.get? t.id f.pending = some r) :
    f.fire t = { f.close t.id r .timedOut with
      timers := f.timers.filter (·.number ≠ t.number) } := by
  rw [fire, expire_of_pending (f := f.disarm t.number) pending]
  rfl

theorem fire_of_absent (absent : Table.get? t.id f.pending = none) :
    f.fire t = f.disarm t.number := by
  rw [fire, expire_of_absent (f := f.disarm t.number) absent]

theorem fire_timers (f : InFlight) (t : Timer) :
    (f.fire t).timers = f.timers.filter (·.number ≠ t.number) := by
  cases pending : Table.get? t.id f.pending with
  | none => rw [fire_of_absent pending, disarm]
  | some r => rw [fire_of_pending pending]

theorem fire_pending (f : InFlight) (t : Timer) (id : ActivationId) :
    Table.get? id (f.fire t).pending = if t.id = id then none else Table.get? id f.pending := by
  cases pending : Table.get? t.id f.pending with
  | none =>
      rw [fire_of_absent pending, disarm]
      split
      · rename_i same
        rw [← same, pending]
      · rfl
  | some r =>
      rw [fire_of_pending pending]
      exact Table.get?_erase _ _ _

/-- The armed timers are those of the registrations in flight, and some that are `stray`. -/
structure Armed (f : InFlight) (stray : Timer → Prop) : Prop where
  keyed : ∀ id r, Table.get? id f.pending = some r → r.activation.id = id
  once : (f.timers.map (·.number)).Nodup
  made : ∀ t ∈ f.timers, t.number < f.registered
  own : ∀ id r, Table.get? id f.pending = some r → r.timer ∈ f.timers
  known : ∀ t ∈ f.timers,
    (∃ r, Table.get? t.id f.pending = some r ∧ t = r.timer) ∨ stray t

variable {stray : Timer → Prop}

theorem armed_new (grace : Duration) (ledger : Ledger) (stray : Timer → Prop) :
    Armed (new grace ledger) stray where
  keyed _ _ there := by cases there
  once := List.nodup_nil
  made _ there := by cases there
  own _ _ there := by cases there
  known _ there := by cases there

/-- What is armed reads the table, the timers and the number of registrations only. -/
theorem Armed.congr (armed : Armed f stray) {g : InFlight} (pending : g.pending = f.pending)
    (timers : g.timers = f.timers) (registered : g.registered = f.registered) : Armed g stray where
  keyed := pending ▸ armed.keyed
  once := timers ▸ armed.once
  made := timers ▸ registered ▸ armed.made
  own := pending ▸ timers ▸ armed.own
  known := pending ▸ timers ▸ armed.known

theorem Armed.mono (armed : Armed f stray) {more : Timer → Prop} (le : ∀ t, stray t → more t) :
    Armed f more :=
  { armed with known := fun t there => (armed.known t there).imp_right (le t) }

/-- An armed timer is told by its number. -/
theorem Armed.eq_of_number (armed : Armed f stray) {u : Timer} (there : t ∈ f.timers)
    (other : u ∈ f.timers) (same : t.number = u.number) : t = u :=
  List.inj_on_of_nodup_map armed.once there other same

/-- Registrations of different identifiers have different numbers. -/
theorem Armed.apart (armed : Armed f stray) {other : ActivationId} {s : Registered}
    (pending : Table.get? id f.pending = some r)
    (pendingOther : Table.get? other f.pending = some s) (apart : id ≠ other) :
    r.number ≠ s.number := by
  intro same
  have timers := armed.eq_of_number (armed.own id r pending) (armed.own other s pendingOther) same
  apply apart
  rw [← armed.keyed id r pending, ← armed.keyed other s pendingOther]
  exact congrArg Timer.id timers

/-- A registration that ends takes its timer along, unless it times out: then its timer strays. -/
theorem Armed.close (armed : Armed f stray) (pending : Table.get? id f.pending = some r)
    (how : Ending) :
    Armed (f.close id r how) fun t => stray t ∨ (how = .timedOut ∧ t = r.timer) := by
  have still : ∀ other s, Table.get? other (f.close id r how).pending = some s →
      id ≠ other ∧ Table.get? other f.pending = some s := by
    intro other s there
    rw [InFlight.close, Table.get?_erase] at there
    split at there
    · cases there
    · rename_i apart
      exact ⟨apart, there⟩
  constructor
  case keyed => exact fun other s there => armed.keyed other s (still other s there).2
  case once =>
    simp only [InFlight.close]
    split
    · exact armed.once.sublist (List.filter_sublist.map _)
    · exact armed.once
  case made => exact fun t there => armed.made t ((shrinks_close f id r how).timers t there)
  case own =>
    intro other s there
    obtain ⟨apart, before⟩ := still other s there
    have armedBefore := armed.own other s before
    simp only [InFlight.close]
    split
    · exact List.mem_filter.mpr ⟨armedBefore,
        decide_eq_true (armed.apart pending before apart).symm⟩
    · exact armedBefore
  case known =>
    intro t there
    have before := (shrinks_close f id r how).timers t there
    rcases armed.known t before with ⟨s, pendingOf, rfl⟩ | known
    · by_cases same : id = s.timer.id
      · rw [← same, pending] at pendingOf
        obtain rfl := Option.some.inj pendingOf
        refine .inr (.inr ⟨?_, rfl⟩)
        cases how with
        | timedOut => rfl
        | completed | withdrawn | replaced =>
            have number := (List.mem_filter.mp there).2
            exact absurd rfl (of_decide_eq_true number)
      · refine .inl ⟨s, ?_, rfl⟩
        rw [InFlight.close, Table.get?_erase, if_neg same, pendingOf]
    · exact .inr (.inl known)

theorem Armed.close_inTime (armed : Armed f stray) (pending : Table.get? id f.pending = some r)
    {how : Ending} (inTime : how ≠ .timedOut) : Armed (f.close id r how) stray :=
  (armed.close pending how).mono fun _ left => left.elim (fun strays => strays)
    fun timedOut => absurd timedOut.1 inTime

/-- A new registration arms its own timer. -/
theorem Armed.add (armed : Armed f stray) {a : Activation}
    (absent : Table.get? a.id f.pending = none) : Armed (f.add a) stray := by
  rw [add_of_absent absent]
  constructor
  case keyed =>
    intro id r there
    rw [Table.get?_set] at there
    split at there
    · rename_i same
      obtain rfl := Option.some.inj there
      exact same
    · exact armed.keyed id r there
  case once =>
    refine ((insertTimer_perm _ _).map _).nodup_iff.mpr (List.nodup_cons.mpr ⟨?_, armed.once⟩)
    intro member
    obtain ⟨t, there, number⟩ := List.mem_map.mp member
    exact absurd (armed.made t there) (by rw [number]; exact Nat.lt_irrefl _)
  case made =>
    intro t there
    rcases mem_insertTimer.mp there with rfl | before
    · exact Nat.lt_succ_self _
    · exact Nat.lt_succ_of_lt (armed.made t before)
  case own =>
    intro id r there
    rw [Table.get?_set] at there
    split at there
    · obtain rfl := Option.some.inj there
      exact mem_insertTimer.mpr (.inl rfl)
    · exact mem_insertTimer.mpr (.inr (armed.own id r there))
  case known =>
    intro t there
    rcases mem_insertTimer.mp there with rfl | before
    · exact .inl ⟨⟨f.registered, a⟩, by rw [Table.get?_set, if_pos rfl], rfl⟩
    · rcases armed.known t before with ⟨r, pending, own⟩ | known
      · refine .inl ⟨r, ?_, own⟩
        rw [Table.get?_set, if_neg, pending]
        intro same
        rw [same, pending] at absent
        cases absent
      · exact .inr known

/-- A timer that fires is gone; whatever it expires without being its own timer leaves one that
strays. -/
theorem Armed.fire (armed : Armed f stray) (there : t ∈ f.timers) :
    Armed (f.fire t) fun u => stray u ∨
      (u ≠ t ∧ ∃ r, Table.get? t.id f.pending = some r ∧ u = r.timer) := by
  have left : ∀ u ∈ (f.fire t).timers, u ∈ f.timers ∧ u ≠ t := by
    intro u member
    rw [fire_timers] at member
    obtain ⟨before, number⟩ := List.mem_filter.mp member
    refine ⟨before, ?_⟩
    rintro rfl
    exact absurd rfl (of_decide_eq_true number)
  have still : ∀ other s, Table.get? other (f.fire t).pending = some s →
      t.id ≠ other ∧ Table.get? other f.pending = some s := by
    intro other s pending
    rw [fire_pending] at pending
    split at pending
    · cases pending
    · rename_i apart
      exact ⟨apart, pending⟩
  constructor
  case keyed => exact fun other s pending => armed.keyed other s (still other s pending).2
  case once =>
    rw [fire_timers]
    exact armed.once.sublist (List.filter_sublist.map _)
  case made =>
    intro u member
    rw [(shrinks_fire f t).registered]
    exact armed.made u (left u member).1
  case own =>
    intro other s pending
    obtain ⟨apart, before⟩ := still other s pending
    have armedBefore := armed.own other s before
    rw [fire_timers]
    refine List.mem_filter.mpr ⟨armedBefore, decide_eq_true fun same => apart ?_⟩
    rw [← armed.eq_of_number armedBefore there same]
    exact armed.keyed other s before
  case known =>
    intro u member
    obtain ⟨before, apart⟩ := left u member
    rcases armed.known u before with ⟨s, pending, own⟩ | known
    · by_cases same : t.id = u.id
      · exact .inr (.inr ⟨apart, s, same ▸ pending, own⟩)
      · refine .inl ⟨s, ?_, own⟩
        rw [fire_pending, if_neg same, pending]
    · exact .inr (.inl known)

/-- Where no timer strays, the one that fires is that of the registration it times out. -/
theorem Armed.fire_own (armed : Armed f fun _ => False) (there : t ∈ f.timers) :
    Armed (f.fire t) fun _ => False := by
  obtain ⟨r, pending, own⟩ := (armed.known t there).resolve_right id
  refine (armed.fire there).mono ?_
  rintro u (stray | ⟨apart, s, pendingToo, rfl⟩)
  · exact stray
  · rw [pending] at pendingToo
    obtain rfl := Option.some.inj pendingToo
    exact apart own.symm

/-! ## What is due -/

theorem fireAll_pending (timers : List Timer) (f : InFlight) (id : ActivationId) :
    Table.get? id (timers.foldl InFlight.fire f).pending =
      if ∃ t ∈ timers, t.id = id then none else Table.get? id f.pending := by
  induction timers generalizing f with
  | nil => simp
  | cons t rest ih =>
      rw [List.foldl_cons, ih, fire_pending]
      by_cases first : t.id = id
      · simp [first]
      · simp [first]

theorem fireAll_timers (timers : List Timer) (f : InFlight) :
    (timers.foldl InFlight.fire f).timers =
      f.timers.filter fun u => ∀ t ∈ timers, u.number ≠ t.number := by
  induction timers generalizing f with
  | nil => exact (List.filter_eq_self.mpr fun _ _ => by simp).symm
  | cons t rest ih =>
      rw [List.foldl_cons, ih, fire_timers, List.filter_filter]
      refine List.filter_congr fun u _ => ?_
      simp [Bool.and_comm]

/-- What is not due stays armed, and what is due does not. -/
theorem mem_fireDue_timers {u : Timer} (armed : Armed f stray) :
    u ∈ (f.fireDue now).timers ↔ u ∈ f.timers ∧ now < u.due := by
  rw [fireDue, fireAll_timers, List.mem_filter]
  refine and_congr_right fun there => ?_
  rw [decide_eq_true_iff]
  constructor
  · intro others
    by_contra due
    have passed : u.due ≤ now := Nat.not_lt.mp due
    exact others u (List.mem_filter.mpr ⟨there, decide_eq_true passed⟩) rfl
  · intro ahead t member same
    obtain ⟨other, due⟩ := List.mem_filter.mp member
    obtain rfl := armed.eq_of_number there other same
    exact absurd ahead (Nat.not_lt.mpr (of_decide_eq_true due))

theorem fireDue_pending (f : InFlight) (now : Instant) (id : ActivationId) :
    Table.get? id (f.fireDue now).pending =
      if ∃ t ∈ f.timers, t.due ≤ now ∧ t.id = id then none else Table.get? id f.pending := by
  simp only [fireDue, fireAll_pending, List.mem_filter, decide_eq_true_eq, and_assoc]

theorem Armed.fireAll (armed : Armed f fun _ => False) {timers : List Timer}
    (there : ∀ t ∈ timers, t ∈ f.timers) (distinct : (timers.map (·.number)).Nodup) :
    Armed (timers.foldl InFlight.fire f) fun _ => False := by
  induction timers generalizing f with
  | nil => exact armed
  | cons t rest ih =>
      obtain ⟨apart, distinct⟩ := List.nodup_cons.mp distinct
      refine ih (armed.fire_own (there t List.mem_cons_self)) (fun u member => ?_) distinct
      rw [fire_timers]
      refine List.mem_filter.mpr ⟨there u (List.mem_cons_of_mem _ member), decide_eq_true ?_⟩
      intro same
      exact apart (List.mem_map.mpr ⟨u, member, same⟩)

/-- **Time that passes leaves no timer to stray.** -/
theorem Armed.fireDue (armed : Armed f fun _ => False) (now : Instant) :
    Armed (f.fireDue now) fun _ => False :=
  armed.fireAll (fun _ member => (List.mem_filter.mp member).1)
    (armed.once.sublist (List.filter_sublist.map _))

theorem Attempt.grace {g : InFlight} (attempt : Attempt f id g) : g.grace = f.grace := by
  cases attempt <;> rfl

theorem fireDue_grace (f : InFlight) (now : Instant) : (f.fireDue now).grace = f.grace := by
  unfold fireDue
  generalize f.timers.filter (·.due ≤ now) = due
  induction due generalizing f with
  | nil => rfl
  | cons t rest ih => exact (ih (f.fire t)).trans (attempt_expire (f.disarm t.number) t.id).grace

end InFlight

end Dispatch
