import Dispatch.InFlight
import Dispatch.Proofs.Accounts

/-!
# Endings of a registration

A registration ends in one of four ways, and all of them are one step, `close`: the entry leaves
the table, what the activation had reserved is given back on the invoker it was placed on, its
caller is answered, and the ending is counted if it has a status. `resolve_of_pending`,
`expire_of_pending`, `abandon_of_pending` and `replaced_of_pending` say that each operation closes
the entry it finds; where there is none, nothing moves but the count of duplicates. So each of them
is an `Attempt`, and what attempts keep is proved once for all four.

`Balanced` says that the accounts hold exactly what the activations in flight have reserved.
Closing an entry keeps the balance (`Balanced.close`), and so does registering an activation whose
reservation was just made (`Balanced.add_reserved`).
-/

set_option autoImplicit false

namespace Dispatch

/-- How a registration ends. -/
inductive Ending where
  | completed (result : ActivationResult)
  | timedOut
  | withdrawn
  | replaced
deriving Repr

namespace Ending

/-- What a waiting caller gets of an ending. -/
def answer (id : ActivationId) : Ending → Answer
  | .completed result => .result result
  | .timedOut => .result (.timeout id)
  | .withdrawn => .closed
  | .replaced => .closed

/-- The status under which an ending is counted. -/
def status? : Ending → Option ActivationStatus
  | .completed result => some result.status
  | .timedOut => some .timeout
  | .withdrawn => none
  | .replaced => none

/-- An activation that times out leaves its timer armed. -/
def disarms : Ending → Bool
  | .timedOut => false
  | _ => true

def record (e : Ending) (c : Counters) : Counters :=
  match e.status? with
  | some status => c.record (.resolved status)
  | none => c

end Ending

namespace InFlight

/-- Ends a registration. -/
def close (f : InFlight) (id : ActivationId) (r : Registered) (e : Ending) : InFlight where
  grace := f.grace
  ledger := f.ledger.release r.activation.invoker r.activation.memory
  counters := e.record f.counters
  pending := Table.erase id f.pending
  timers := if e.disarms then f.timers.filter (·.number ≠ r.number) else f.timers
  answers :=
    if r.activation.blocking then Table.set r.number (e.answer id) f.answers else f.answers
  registered := f.registered

variable {f : InFlight} {id : ActivationId} {r : Registered}

theorem answer_eq (r : Registered) (a : Answer) (f : InFlight) :
    f.answer r a = { f with
      answers := if r.activation.blocking then Table.set r.number a f.answers else f.answers } := by
  unfold answer
  split <;> rfl

theorem resolve_of_pending {c : Completion} (pending : Table.get? c.id f.pending = some r) :
    f.resolve c =
      (f.close c.id r (.completed (.ofCompletion c)),
        .completed r.activation (.ofCompletion c)) := by
  simp only [resolve, pending, answer_eq]
  rfl

theorem resolve_of_absent {c : Completion} (absent : Table.get? c.id f.pending = none) :
    f.resolve c = (f.count .duplicate, .duplicate) := by
  simp only [resolve, absent]

theorem expire_of_pending (pending : Table.get? id f.pending = some r) :
    f.expire id = (f.close id r .timedOut, true) := by
  simp only [expire, pending, answer_eq]
  rfl

theorem expire_of_absent (absent : Table.get? id f.pending = none) : f.expire id = (f, false) := by
  simp only [expire, absent]

theorem abandon_of_pending (pending : Table.get? id f.pending = some r) :
    f.abandon id = (f.close id r .withdrawn, true) := by
  simp only [abandon, pending, answer_eq]
  rfl

theorem abandon_of_absent (absent : Table.get? id f.pending = none) :
    f.abandon id = (f, false) := by
  simp only [abandon, absent]

theorem replaced_of_pending (pending : Table.get? id f.pending = some r) :
    f.replaced id = f.close id r .replaced := by
  simp only [replaced, pending, answer_eq]
  rfl

theorem replaced_of_absent (absent : Table.get? id f.pending = none) : f.replaced id = f := by
  simp only [replaced, absent]

/-- An identifier that is not in flight is registered beside the others. -/
theorem add_of_absent {a : Activation} (absent : Table.get? a.id f.pending = none) :
    f.add a = { f with
      pending := Table.set a.id ⟨f.registered, a⟩ f.pending
      timers := insertTimer ⟨a.deadline, a.id, f.registered⟩ f.timers
      registered := f.registered + 1 } := by
  simp only [add, replaced_of_absent absent]

theorem get?_eq_some_iff {a : Activation} :
    f.get? id = some a ↔ ∃ r, Table.get? id f.pending = some r ∧ r.activation = a :=
  Option.map_eq_some_iff

/-! ## Attempts -/

/-- `g` is `f` after an attempt to end what is registered under an identifier. -/
inductive Attempt (f : InFlight) (id : ActivationId) : InFlight → Prop where
  | closed {r : Registered} (pending : Table.get? id f.pending = some r) (how : Ending) :
      Attempt f id (f.close id r how)
  /-- Nothing was registered; at most the count of duplicates moves. -/
  | missed (absent : Table.get? id f.pending = none) (duplicateCompletions : Nat) :
      Attempt f id { f with counters := { f.counters with duplicateCompletions } }

theorem attempt_resolve (f : InFlight) (c : Completion) : Attempt f c.id (f.resolve c).1 := by
  cases pending : Table.get? c.id f.pending with
  | none =>
      rw [resolve_of_absent pending]
      exact .missed pending (f.counters.duplicateCompletions + 1)
  | some r =>
      rw [resolve_of_pending pending]
      exact .closed pending _

theorem attempt_expire (f : InFlight) (id : ActivationId) : Attempt f id (f.expire id).1 := by
  cases pending : Table.get? id f.pending with
  | none =>
      rw [expire_of_absent pending]
      exact .missed pending f.counters.duplicateCompletions
  | some r =>
      rw [expire_of_pending pending]
      exact .closed pending _

theorem attempt_abandon (f : InFlight) (id : ActivationId) : Attempt f id (f.abandon id).1 := by
  cases pending : Table.get? id f.pending with
  | none =>
      rw [abandon_of_absent pending]
      exact .missed pending f.counters.duplicateCompletions
  | some r =>
      rw [abandon_of_pending pending]
      exact .closed pending _

theorem attempt_replaced (f : InFlight) (id : ActivationId) : Attempt f id (f.replaced id) := by
  cases pending : Table.get? id f.pending with
  | none =>
      rw [replaced_of_absent pending]
      exact .missed pending f.counters.duplicateCompletions
  | some r =>
      rw [replaced_of_pending pending]
      exact .closed pending _

/-! ## What attempts leave -/

/-- `g` is `f` after some endings: nothing was registered, and no timer was armed. -/
structure Shrinks (f g : InFlight) : Prop where
  pending : ∀ id r, Table.get? id g.pending = some r → Table.get? id f.pending = some r
  timers : ∀ t ∈ g.timers, t ∈ f.timers
  registered : g.registered = f.registered

theorem Shrinks.refl (f : InFlight) : Shrinks f f := ⟨fun _ _ => id, fun _ => id, rfl⟩

/-- Accounts, counters and answers may move on their own. -/
theorem Shrinks.of_eq {f g : InFlight} (pending : g.pending = f.pending)
    (timers : g.timers = f.timers) (registered : g.registered = f.registered) : Shrinks f g :=
  ⟨fun _ _ there => pending ▸ there, fun _ there => timers ▸ there, registered⟩

theorem Shrinks.trans {f g h : InFlight} (first : Shrinks f g) (second : Shrinks g h) :
    Shrinks f h := by
  constructor
  · intro id r there
    exact first.pending id r (second.pending id r there)
  · intro t there
    exact first.timers t (second.timers t there)
  · rw [second.registered, first.registered]

theorem shrinks_close (f : InFlight) (id : ActivationId) (r : Registered) (e : Ending) :
    Shrinks f (f.close id r e) := by
  constructor
  · intro other s there
    simp only [close, Table.get?_erase] at there
    split at there
    · cases there
    · exact there
  · intro t there
    simp only [close] at there
    split at there
    · exact (List.mem_filter.mp there).1
    · exact there
  · rfl

theorem Attempt.shrinks {g : InFlight} (attempt : Attempt f id g) : Shrinks f g := by
  cases attempt with
  | closed pending how => exact shrinks_close f id _ how
  | missed => exact .of_eq rfl rfl rfl

theorem shrinks_fire (f : InFlight) (t : Timer) : Shrinks f (f.fire t) := by
  have disarmed : Shrinks f (f.disarm t.number) :=
    ⟨fun _ _ => id, fun _ there => (List.mem_filter.mp there).1, rfl⟩
  exact disarmed.trans (attempt_expire _ t.id).shrinks

theorem shrinks_fireDue (f : InFlight) (now : Instant) : Shrinks f (f.fireDue now) := by
  unfold fireDue
  generalize f.timers.filter (·.due ≤ now) = due
  induction due generalizing f with
  | nil => exact .refl f
  | cons t rest ih => exact (shrinks_fire f t).trans (ih (f.fire t))

theorem mem_insertTimer {t u : Timer} {timers : List Timer} :
    u ∈ insertTimer t timers ↔ u = t ∨ u ∈ timers := by
  induction timers with
  | nil => simp [insertTimer]
  | cons v rest ih =>
      rw [insertTimer]
      split
      · rw [List.mem_cons]
      · rw [List.mem_cons, ih, List.mem_cons]
        exact or_left_comm

/-! ## Balance -/

/-- Memory that the activations in flight on an invoker have reserved. -/
def memoryOn (f : InFlight) (invoker : InvokerId) : Nat :=
  Table.total (fun r => if r.activation.invoker = invoker then r.activation.memory.toNat else 0)
    f.pending

/-- The accounts hold what the activations in flight have reserved, and nothing else. -/
structure Balanced (f : InFlight) : Prop where
  distinct : Table.Distinct f.pending
  memory : ∀ invoker, f.ledger.usedMemory invoker = f.memoryOn invoker
  slots : ∀ invoker, f.ledger.usedSlots invoker = f.inFlightOn invoker

theorem inFlightOn_eq_total (f : InFlight) (invoker : InvokerId) :
    f.inFlightOn invoker =
      Table.total (fun r => if r.activation.invoker = invoker then 1 else 0) f.pending := by
  have counted := Table.countP_eq_total
    (fun r : Registered => decide (r.activation.invoker = invoker)) f.pending
  simpa [inFlightOn, countWhere] using counted

/-- The balance reads the accounts and the table only. -/
theorem Balanced.congr {g : InFlight} (balanced : f.Balanced) (pending : g.pending = f.pending)
    (memory : ∀ i, g.ledger.usedMemory i = f.ledger.usedMemory i)
    (slots : ∀ i, g.ledger.usedSlots i = f.ledger.usedSlots i) : g.Balanced where
  distinct := pending ▸ balanced.distinct
  memory i := by rw [memory, balanced.memory, memoryOn, memoryOn, pending]
  slots i := by rw [slots, balanced.slots, inFlightOn, inFlightOn, countWhere, countWhere, pending]

theorem balanced_new (grace : Duration) (factor : Binary64) : (new grace (.new factor)).Balanced :=
  ⟨Table.distinct_nil, fun _ => rfl, fun _ => rfl⟩

/-- What an activation in flight has reserved can be given back in full. -/
theorem Balanced.holds (balanced : f.Balanced) (pending : Table.get? id f.pending = some r) :
    f.ledger.Holds r.activation.invoker r.activation.memory := by
  apply Ledger.holds_of_used
  · rw [balanced.memory, memoryOn]
    have part := Table.weight_le_total
      (fun s : Registered => if s.activation.invoker = r.activation.invoker
        then s.activation.memory.toNat else 0) pending
    simpa using part
  · rw [balanced.slots, inFlightOn_eq_total]
    have part := Table.weight_le_total
      (fun s : Registered => if s.activation.invoker = r.activation.invoker then 1 else 0) pending
    simpa [Nat.pos_iff_ne_zero, Nat.one_le_iff_ne_zero] using part

/-- **Ending a registration keeps the balance.** -/
theorem Balanced.close (balanced : f.Balanced) (pending : Table.get? id f.pending = some r)
    (e : Ending) : (f.close id r e).Balanced where
  distinct := Table.distinct_erase balanced.distinct id
  memory i := by
    have released := (Ledger.release_moves (balanced.holds pending) i).1
    have taken := Table.total_erase (fun s : Registered => if s.activation.invoker = i
      then s.activation.memory.toNat else 0) balanced.distinct pending
    rw [balanced.memory, memoryOn] at released
    show (f.ledger.release r.activation.invoker r.activation.memory).usedMemory i =
      Table.total _ (Table.erase id f.pending)
    omega
  slots i := by
    have released := (Ledger.release_moves (balanced.holds pending) i).2
    have taken := Table.total_erase (fun s : Registered => if s.activation.invoker = i
      then 1 else 0) balanced.distinct pending
    rw [balanced.slots, inFlightOn_eq_total] at released
    rw [inFlightOn_eq_total]
    show (f.ledger.release r.activation.invoker r.activation.memory).usedSlots i =
      Table.total _ (Table.erase id f.pending)
    omega

theorem Balanced.attempt (balanced : f.Balanced) {g : InFlight} (attempt : Attempt f id g) :
    g.Balanced := by
  cases attempt with
  | closed pending how => exact balanced.close pending how
  | missed => exact balanced.congr rfl (fun _ => rfl) (fun _ => rfl)

theorem Balanced.fire (balanced : f.Balanced) (t : Timer) : (f.fire t).Balanced := by
  have disarmed : (f.disarm t.number).Balanced :=
    balanced.congr rfl (fun _ => rfl) (fun _ => rfl)
  exact disarmed.attempt (attempt_expire _ t.id)

theorem Balanced.fireAll (balanced : f.Balanced) (timers : List Timer) :
    (timers.foldl InFlight.fire f).Balanced := by
  induction timers generalizing f with
  | nil => exact balanced
  | cons t rest ih => exact ih (balanced.fire t)

/-- **Registering an activation whose capacity was just reserved keeps the balance.** -/
theorem Balanced.add_reserved (balanced : f.Balanced) {a : Activation}
    (fresh : Table.get? a.id f.pending = none)
    (room : f.ledger.accepts a.invoker a.memory = true) :
    ({ f with ledger := (f.ledger.reserve a.invoker a.memory).1 }.add a).Balanced := by
  have reserved := Ledger.reserve_moves room
  rw [add_of_absent (f := { f with ledger := (f.ledger.reserve a.invoker a.memory).1 }) fresh]
  refine ⟨Table.distinct_set balanced.distinct _ _, fun i => ?_, fun i => ?_⟩
  · rw [memoryOn, Table.total_set_of_fresh _ fresh, (reserved i).1, balanced.memory, memoryOn]
  · rw [inFlightOn_eq_total, Table.total_set_of_fresh _ fresh, (reserved i).2, balanced.slots,
      inFlightOn_eq_total]

end InFlight

end Dispatch
