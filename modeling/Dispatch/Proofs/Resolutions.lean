import Dispatch.Proofs.Endings

/-!
# The first resolution wins

`Event` is what can happen to the table of activations in flight; identifiers may come again, also
while they are in flight, and the timers that are due fire as one event each (`fireDue_eq_history`).
`History` is a run of events together with the registrations that were made and the endings that the
operations reported. `Recorded` ties the two to the table: every registration is either in flight or
has ended, and it has ended once. `recorded_step` says that every event keeps this, and
`first_resolution_wins` is what follows for whole runs, together with what a winner does and that a
loser does nothing.
-/

set_option autoImplicit false

namespace Dispatch

namespace Ending

/-- What a waiting caller reads after an ending. -/
def reading (id : ActivationId) : Ending → Waiter.Reading
  | .completed result => .result result
  | .timedOut => .result (.timeout id)
  | .withdrawn => .closed
  | .replaced => .closed

end Ending

namespace InFlight

/-- What can happen to the table of activations in flight. -/
inductive Event where
  | register (a : Activation) (limit : Duration)
  | resolve (c : Completion)
  | expire (id : ActivationId)
  | abandon (id : ActivationId)
  /-- A timer fires. -/
  | fire (t : Timer)
  /-- Others have moved the accounts. -/
  | account (ledger : Ledger)

def step (f : InFlight) : Event → InFlight
  | .register a limit => (f.register? a limit).getD f
  | .resolve c => (f.resolve c).1
  | .expire id => (f.expire id).1
  | .abandon id => (f.abandon id).1
  | .fire t => f.fire t
  | .account ledger => { f with ledger }

/-- A registration that has ended, and how. -/
structure Ended where
  entry : Registered
  ending : Ending

/-- The registration that an event makes. -/
def registered? (f : InFlight) : Event → Option Activation
  | .register a limit => (f.deadline? a.submittedAt limit).map fun deadline => { a with deadline }
  | _ => none

/-- The registration that an event ends, going by what the operation reports. -/
def ended? (f : InFlight) : Event → Option Ended
  | .register a limit =>
      (f.register? a limit).bind fun _ => (Table.get? a.id f.pending).map (⟨·, .replaced⟩)
  | .resolve c =>
      match (f.resolve c).2 with
      | .completed _ result => (Table.get? c.id f.pending).map (⟨·, .completed result⟩)
      | .duplicate => none
  | .expire id =>
      if (f.expire id).2 then (Table.get? id f.pending).map (⟨·, .timedOut⟩) else none
  | .abandon id =>
      if (f.abandon id).2 then (Table.get? id f.pending).map (⟨·, .withdrawn⟩) else none
  | .fire t =>
      if ((f.disarm t.number).expire t.id).2 then
        (Table.get? t.id f.pending).map (⟨·, .timedOut⟩)
      else none
  | .account _ => none

/-- A table with the registrations made so far, by number, and the endings in their order. -/
structure History where
  flight : InFlight
  registrations : List Activation
  endings : List Ended

namespace History

def step (h : History) (e : Event) : History where
  flight := h.flight.step e
  registrations := h.registrations ++ (h.flight.registered? e).toList
  endings := h.endings ++ (h.flight.ended? e).toList

/-- The numbers of the registrations that have ended. -/
def endedNumbers (h : History) : List Nat := h.endings.map (·.entry.number)

end History

/-- The history of a run. -/
def history (f : InFlight) (events : List Event) : History :=
  events.foldl History.step ⟨f, [], []⟩

/-- The due timers fire one after the other. -/
theorem fireDue_eq_history (f : InFlight) (now : Instant) :
    f.fireDue now =
      (f.history ((f.timers.filter (·.due ≤ now)).map .fire)).flight := by
  unfold fireDue history
  generalize f.timers.filter (·.due ≤ now) = due
  suffices ∀ h : History, due.foldl fire h.flight = ((due.map .fire).foldl History.step h).flight
    from this ⟨f, [], []⟩
  induction due with
  | nil => exact fun _ => rfl
  | cons t rest ih => exact fun h => ih (h.step (.fire t))

/-! ## What one event does -/

variable {f : InFlight} {id : ActivationId} {r : Registered}

theorem close_absent (f : InFlight) (id : ActivationId) (r : Registered) (how : Ending) :
    Table.get? id (f.close id r how).pending = none := by
  rw [close, Table.get?_erase, if_pos rfl]

theorem close_answers (f : InFlight) (id : ActivationId) (r : Registered) (how : Ending) (n : Nat) :
    Table.get? n (f.close id r how).answers =
      if r.number = n ∧ r.activation.blocking then some (how.answer id)
      else Table.get? n f.answers := by
  rw [close]
  by_cases blocking : r.activation.blocking = true
  · simp [blocking, Table.get?_set]
  · simp [blocking]

/-- Registering is registering after the entry of the same identifier has ended. -/
theorem add_eq_add_replaced (f : InFlight) (a : Activation) :
    f.add a = (f.replaced a.id).add a := by
  have absent : Table.get? a.id (f.replaced a.id).pending = none := by
    cases pending : Table.get? a.id f.pending with
    | none => rw [replaced_of_absent pending, pending]
    | some r => rw [replaced_of_pending pending, close_absent]
  rw [add, add, replaced_of_absent absent, (attempt_replaced f a.id).shrinks.registered]

/-- A winner gets what it asked for. -/
structure Wins (f : InFlight) (id : ActivationId) (r : Registered) : Prop where
  resolve : ∀ c, c.id = id → (f.resolve c).2 = .completed r.activation (.ofCompletion c)
  expire : (f.expire id).2 = true
  abandon : (f.abandon id).2 = true

/-- A loser is told so, and changes nothing but the count of duplicates. -/
structure Loses (f : InFlight) (id : ActivationId) : Prop where
  resolve : ∀ c, c.id = id → f.resolve c =
    ({ f with counters := { f.counters with
        duplicateCompletions := f.counters.duplicateCompletions + 1 } }, .duplicate)
  expire : f.expire id = (f, false)
  abandon : f.abandon id = (f, false)
  fire : ∀ t, t.id = id → f.fire t = f.disarm t.number

theorem wins_of_pending (pending : Table.get? id f.pending = some r) : Wins f id r where
  resolve c same := by
    subst same
    rw [resolve_of_pending pending]
  expire := by rw [expire_of_pending pending]
  abandon := by rw [abandon_of_pending pending]

theorem loses_of_absent (absent : Table.get? id f.pending = none) : Loses f id where
  resolve c same := by
    subst same
    rw [resolve_of_absent absent]
    rfl
  expire := expire_of_absent absent
  abandon := abandon_of_absent absent
  fire t same := by
    subst same
    rw [fire, expire_of_absent (f := f.disarm t.number) absent]

/-- What an event comes to: the table after it, the registration it makes and the one it ends. -/
inductive Move (f : InFlight) : Event → InFlight → Option Activation → Option Ended → Prop where
  | account (ledger : Ledger) : Move f (.account ledger) { f with ledger } none none
  /-- At most timers and the count of duplicates move. -/
  | ignored {e : Event} (timers : List Timer) (duplicateCompletions : Nat) :
      Move f e { f with timers, counters := { f.counters with duplicateCompletions } } none none
  | ended {e : Event} {id : ActivationId} {r : Registered}
      (pending : Table.get? id f.pending = some r) (how : Ending) (timers : List Timer) :
      Move f e { f.close id r how with timers } none (some ⟨r, how⟩)
  | registered {e : Event} {a : Activation} (absent : Table.get? a.id f.pending = none) :
      Move f e (f.add a) (some a) none
  | replaced {e : Event} {a : Activation} {r : Registered}
      (pending : Table.get? a.id f.pending = some r) :
      Move f e ((f.close a.id r .replaced).add a) (some a) (some ⟨r, .replaced⟩)

theorem Move.closed {e : Event} (pending : Table.get? id f.pending = some r) (how : Ending) :
    Move f e (f.close id r how) none (some ⟨r, how⟩) :=
  .ended pending how (f.close id r how).timers

/-- **Every event is one of these moves.** -/
theorem step_move (f : InFlight) (e : Event) :
    Move f e (f.step e) (f.registered? e) (f.ended? e) := by
  cases e with
  | register a limit =>
      cases named : f.deadline? a.submittedAt limit with
      | none =>
          simp only [step, registered?, ended?, register?, named, Option.map_none,
            Option.getD_none, Option.bind_none]
          exact .ignored f.timers f.counters.duplicateCompletions
      | some deadline =>
          simp only [step, registered?, ended?, register?, named, Option.map_some,
            Option.getD_some, Option.bind_some]
          cases pending : Table.get? a.id f.pending with
          | none => exact .registered (a := { a with deadline }) pending
          | some r =>
              have replaced : f.replaced a.id = f.close a.id r .replaced :=
                replaced_of_pending pending
              rw [add_eq_add_replaced, replaced]
              exact .replaced (a := { a with deadline }) pending
  | resolve c =>
      cases pending : Table.get? c.id f.pending with
      | none =>
          simp only [step, registered?, ended?, resolve_of_absent pending]
          exact .ignored f.timers (f.counters.duplicateCompletions + 1)
      | some r =>
          simp only [step, registered?, ended?, resolve_of_pending pending, pending,
            Option.map_some]
          exact .closed pending _
  | expire id =>
      cases pending : Table.get? id f.pending with
      | none =>
          simp only [step, registered?, ended?, expire_of_absent pending]
          exact .ignored f.timers f.counters.duplicateCompletions
      | some r =>
          simp only [step, registered?, ended?, expire_of_pending pending, pending,
            Option.map_some, if_true]
          exact .closed pending _
  | abandon id =>
      cases pending : Table.get? id f.pending with
      | none =>
          simp only [step, registered?, ended?, abandon_of_absent pending]
          exact .ignored f.timers f.counters.duplicateCompletions
      | some r =>
          simp only [step, registered?, ended?, abandon_of_pending pending, pending,
            Option.map_some, if_true]
          exact .closed pending _
  | fire t =>
      cases pending : Table.get? t.id f.pending with
      | none =>
          simp only [step, registered?, ended?, fire,
            expire_of_absent (f := f.disarm t.number) pending]
          exact .ignored _ f.counters.duplicateCompletions
      | some r =>
          simp only [step, registered?, ended?, fire,
            expire_of_pending (f := f.disarm t.number) pending, pending, Option.map_some, if_true]
          exact .ended pending .timedOut _
  | account ledger => exact .account ledger

/-- What an event does to accounts, counters and answers. -/
structure Effect (f : InFlight) (e : Event) : Prop where
  /-- An ending gives back what the registration had reserved, on the invoker it was placed on,
  counts its status if it has one, and answers no other caller. -/
  ended : ∀ r how, f.ended? e = some ⟨r, how⟩ →
    (f.step e).ledger = f.ledger.release r.activation.invoker r.activation.memory ∧
      (f.step e).counters = how.record f.counters ∧
      ∀ n ≠ r.number, Table.get? n (f.step e).answers = Table.get? n f.answers
  /-- An event that ends nothing moves none of them, duplicates aside. -/
  unended : f.ended? e = none → (∀ ledger, e ≠ .account ledger) →
    (f.step e).ledger = f.ledger ∧ (f.step e).answers = f.answers ∧
      ∃ duplicateCompletions, (f.step e).counters = { f.counters with duplicateCompletions }

theorem effect_of_step (f : InFlight) (e : Event) : Effect f e := by
  have move := step_move f e
  constructor
  · intro r how ended
    rw [ended] at move
    generalize f.step e = after, f.registered? e = made at move ⊢
    cases move with
    | ended pending how timers =>
        refine ⟨rfl, rfl, ?_⟩
        intro n apart
        exact (close_answers f _ r how n).trans (if_neg fun same => apart same.1.symm)
    | replaced pending =>
        rw [add_of_absent (close_absent f _ r .replaced)]
        refine ⟨rfl, rfl, ?_⟩
        intro n apart
        exact (close_answers f _ r _ n).trans (if_neg fun same => apart same.1.symm)
  · intro unended others
    rw [unended] at move
    generalize f.step e = after, f.registered? e = made at move ⊢
    cases move with
    | account ledger => exact absurd rfl (others ledger)
    | ignored timers duplicateCompletions => exact ⟨rfl, rfl, _, rfl⟩
    | registered absent =>
        rw [add_of_absent absent]
        exact ⟨rfl, rfl, _, rfl⟩

/-! ## What a run records -/

/-- What ties the registrations and the endings of a history to its table. -/
structure Recorded (h : History) : Prop where
  registered : h.flight.registered = h.registrations.length
  pending : ∀ id r, Table.get? id h.flight.pending = some r →
    h.registrations[r.number]? = some r.activation ∧ r.activation.id = id ∧
      r.number ∉ h.endedNumbers
  ended : ∀ e ∈ h.endings, h.registrations[e.entry.number]? = some e.entry.activation
  once : h.endedNumbers.Nodup
  waiting : ∀ n a, h.registrations[n]? = some a → n ∉ h.endedNumbers →
    Table.get? a.id h.flight.pending = some ⟨n, a⟩
  answered : ∀ e ∈ h.endings, Table.get? e.entry.number h.flight.answers =
    if e.entry.activation.blocking then some (e.ending.answer e.entry.activation.id) else none
  unanswered : ∀ n, n ∉ h.endedNumbers → Table.get? n h.flight.answers = none

variable {h : History}

theorem recorded_new (grace : Duration) (ledger : Ledger) :
    Recorded ⟨new grace ledger, [], []⟩ where
  registered := rfl
  pending _ _ there := by cases there
  ended _ member := by cases member
  once := List.nodup_nil
  waiting _ _ there := by cases there
  answered _ member := by cases member
  unanswered _ _ := rfl

/-- The record reads the table, the answers and the number of registrations only. -/
theorem Recorded.congr (recorded : Recorded h) {g : InFlight}
    (pending : g.pending = h.flight.pending) (answers : g.answers = h.flight.answers)
    (registered : g.registered = h.flight.registered) : Recorded { h with flight := g } where
  registered := registered.trans recorded.registered
  pending id r there := recorded.pending id r (pending ▸ there)
  ended := recorded.ended
  once := recorded.once
  waiting n a there unended := pending ▸ recorded.waiting n a there unended
  answered e member := answers ▸ recorded.answered e member
  unanswered n unended := answers ▸ recorded.unanswered n unended

theorem endedNumbers_append (flight : InFlight) (registrations : List Activation)
    (endings : List Ended) (e : Ended) :
    (⟨flight, registrations, endings ++ [e]⟩ : History).endedNumbers =
      (⟨flight, registrations, endings⟩ : History).endedNumbers ++ [e.entry.number] :=
  List.map_append

/-- Closing an entry is recorded as one more ending. -/
theorem Recorded.close (recorded : Recorded h)
    (pending : Table.get? id h.flight.pending = some r) (how : Ending) :
    Recorded ⟨h.flight.close id r how, h.registrations, h.endings ++ [⟨r, how⟩]⟩ := by
  obtain ⟨known, key, unended⟩ := recorded.pending id r pending
  have numbers := endedNumbers_append (h.flight.close id r how) h.registrations h.endings ⟨r, how⟩
  change _ = h.endedNumbers ++ [r.number] at numbers
  constructor
  case registered => exact recorded.registered
  case pending =>
    intro other s there
    simp only [InFlight.close, Table.get?_erase] at there
    split at there
    · cases there
    · rename_i apart
      obtain ⟨knownOther, keyOther, unendedOther⟩ := recorded.pending other s there
      refine ⟨knownOther, keyOther, ?_⟩
      rw [numbers, List.mem_append, List.mem_singleton, not_or]
      refine ⟨unendedOther, fun same => apart ?_⟩
      rw [same, known, Option.some.injEq] at knownOther
      rw [← key, knownOther, keyOther]
  case ended =>
    intro e member
    rcases List.mem_append.mp member with before | last
    · exact recorded.ended e before
    · obtain rfl := List.mem_singleton.mp last
      exact known
  case once =>
    rw [numbers]
    refine List.nodup_append.mpr ⟨recorded.once, List.pairwise_singleton _ _, ?_⟩
    rintro n before m last rfl
    exact unended (List.mem_singleton.mp last ▸ before)
  case waiting =>
    intro n a registered open_
    rw [numbers, List.mem_append, List.mem_singleton, not_or] at open_
    have there := recorded.waiting n a registered open_.1
    have apart : id ≠ a.id := by
      rintro rfl
      rw [pending, Option.some.injEq] at there
      exact open_.2 (congrArg Registered.number there).symm
    rw [InFlight.close, Table.get?_erase, if_neg apart, there]
  case answered =>
    intro e member
    rw [close_answers]
    rcases List.mem_append.mp member with before | last
    · have apart : r.number ≠ e.entry.number := fun same =>
        unended (same ▸ List.mem_map_of_mem before)
      rw [if_neg fun both => apart both.1]
      exact recorded.answered e before
    · obtain rfl := List.mem_singleton.mp last
      rw [recorded.unanswered _ unended, key]
      simp
  case unanswered =>
    intro n open_
    rw [numbers, List.mem_append, List.mem_singleton, not_or] at open_
    rw [close_answers, if_neg fun both => open_.2 both.1.symm]
    exact recorded.unanswered n open_.1

/-- A new registration takes the next number. -/
theorem Recorded.add (recorded : Recorded h) {a : Activation}
    (absent : Table.get? a.id h.flight.pending = none) :
    Recorded ⟨h.flight.add a, h.registrations ++ [a], h.endings⟩ := by
  have next := recorded.registered
  have earlier : ∀ n b, h.registrations[n]? = some b → n < h.registrations.length :=
    fun n b there => (List.getElem?_eq_some_iff.mp there).1
  have kept : ∀ n b, h.registrations[n]? = some b → (h.registrations ++ [a])[n]? = some b :=
    fun n b there => by rw [List.getElem?_append_left (earlier n b there), there]
  have unended : h.registrations.length ∉ h.endedNumbers := by
    intro member
    obtain ⟨e, before, number⟩ := List.mem_map.mp member
    exact absurd (earlier _ _ (recorded.ended e before)) (by rw [number]; exact Nat.lt_irrefl _)
  rw [add_of_absent absent]
  constructor
  case registered => simp [next]
  case pending =>
    intro id r there
    rw [Table.get?_set] at there
    split at there
    · rename_i same
      obtain rfl := Option.some.inj there
      exact ⟨by simp [next], same, by rw [next]; exact unended⟩
    · obtain ⟨known, key, open_⟩ := recorded.pending id r there
      exact ⟨kept _ _ known, key, open_⟩
  case ended => exact fun e member => kept _ _ (recorded.ended e member)
  case once => exact recorded.once
  case waiting =>
    intro n b registered open_
    rw [Table.get?_set]
    rcases Nat.lt_or_ge n h.registrations.length with before | last
    · rw [List.getElem?_append_left before] at registered
      have there := recorded.waiting n b registered open_
      rw [if_neg, there]
      rintro same
      rw [same, there] at absent
      cases absent
    · have bound := (List.getElem?_eq_some_iff.mp registered).1
      rw [List.length_append, List.length_singleton] at bound
      obtain rfl : n = h.registrations.length := Nat.le_antisymm (Nat.le_of_lt_succ bound) last
      rw [List.getElem?_concat_length, Option.some.injEq] at registered
      rw [if_pos (congrArg Activation.id registered), next, registered]
  case answered => exact recorded.answered
  case unanswered => exact recorded.unanswered

/-- **Every event is recorded.** -/
theorem recorded_step (recorded : Recorded h) (e : Event) : Recorded (h.step e) := by
  have move := step_move h.flight e
  unfold History.step
  generalize h.flight.step e = after, h.flight.registered? e = made, h.flight.ended? e = ended
    at move ⊢
  cases move with
  | account | ignored =>
      simp only [Option.toList_none, List.append_nil]
      exact recorded.congr rfl rfl rfl
  | ended pending how timers =>
      simp only [Option.toList_none, List.append_nil, Option.toList_some]
      exact (recorded.close pending how).congr rfl rfl rfl
  | registered absent =>
      simp only [Option.toList_none, List.append_nil, Option.toList_some]
      exact recorded.add absent
  | replaced pending =>
      simp only [Option.toList_some]
      exact (recorded.close pending .replaced).add (close_absent _ _ _ _)

theorem recorded_history (grace : Duration) (ledger : Ledger) (events : List Event) :
    Recorded ((new grace ledger).history events) := by
  have steps : ∀ h : History, Recorded h → Recorded (events.foldl History.step h) := by
    induction events with
    | nil => exact fun h recorded => recorded
    | cons e rest ih => exact fun h recorded => ih (h.step e) (recorded_step recorded e)
  exact steps _ (recorded_new grace ledger)

theorem poll_eq (f : InFlight) (n : Nat) :
    ((Waiter.open n).poll f).2 =
      match Table.get? n f.answers with
      | none => .waiting
      | some (.result result) => .result result
      | some .closed => .closed := by
  simp only [Waiter.poll]
  cases Table.get? n f.answers with
  | none => rfl
  | some answer => cases answer <;> rfl

/-- What a caller reads who waits for a registration that has ended. -/
theorem Recorded.poll_ended (recorded : Recorded h) {e : Ended} (ended : e ∈ h.endings)
    (blocking : e.entry.activation.blocking = true) :
    ((Waiter.open e.entry.number).poll h.flight).2 =
      e.ending.reading e.entry.activation.id := by
  rw [poll_eq, recorded.answered e ended, if_pos blocking]
  cases e.ending <;> rfl

/-- A caller waits while its registration is in flight. -/
theorem Recorded.poll_pending (recorded : Recorded h)
    (pending : Table.get? id h.flight.pending = some r) :
    ((Waiter.open r.number).poll h.flight).2 = .waiting := by
  rw [poll_eq, recorded.unanswered _ (recorded.pending id r pending).2.2]

/-- **The first resolution wins.** In the history of any run, every registration has ended at most
once, and is in flight exactly if it has not ended; the caller who waits for it gets what its one
ending says, and waits until then. Whatever comes next, an identifier that is in flight wins and one
that is not loses, and an event gives back, counts and answers what it ends and nothing else. -/
theorem first_resolution_wins (grace : Duration) (ledger : Ledger) (events : List Event) :
    let h := (new grace ledger).history events
    h.endedNumbers.Nodup ∧
    (∀ e ∈ h.endings, h.registrations[e.entry.number]? = some e.entry.activation) ∧
    (∀ n a, h.registrations[n]? = some a →
      (Table.get? a.id h.flight.pending = some ⟨n, a⟩ ↔ n ∉ h.endedNumbers)) ∧
    (∀ id r, Table.get? id h.flight.pending = some r →
      h.registrations[r.number]? = some r.activation ∧ r.activation.id = id) ∧
    (∀ e ∈ h.endings, e.entry.activation.blocking = true →
      ((Waiter.open e.entry.number).poll h.flight).2 =
        e.ending.reading e.entry.activation.id) ∧
    (∀ id r, Table.get? id h.flight.pending = some r →
      Wins h.flight id r ∧ ((Waiter.open r.number).poll h.flight).2 = .waiting) ∧
    (∀ id, Table.get? id h.flight.pending = none → Loses h.flight id) ∧
    ∀ e, Effect h.flight e := by
  intro h
  have recorded : Recorded h := recorded_history grace ledger events
  refine ⟨recorded.once, recorded.ended, ?_, ?_, ?_, ?_, ?_, ?_⟩
  · intro n a registered
    constructor
    · intro pending
      exact (recorded.pending a.id ⟨n, a⟩ pending).2.2
    · intro unended
      exact recorded.waiting n a registered unended
  · intro id r pending
    obtain ⟨known, key, -⟩ := recorded.pending id r pending
    exact ⟨known, key⟩
  · intro e ended blocking
    exact recorded.poll_ended ended blocking
  · intro id r pending
    exact ⟨wins_of_pending pending, recorded.poll_pending pending⟩
  · intro id absent
    exact loses_of_absent absent
  · intro e
    exact effect_of_step h.flight e

/-- An activation whose caller waits. -/
def demoRival (id : String) : Activation :=
  ⟨⟨id⟩, "guest", ⟨"guest", "sleep"⟩, ⟨0⟩, .managed, 256, true, .origin, .origin⟩

/-- An identifier that is registered twice and then completed twice, next to one that is in flight
all the while. -/
def demoRivals : List Event :=
  let done : Completion := ⟨⟨"a"⟩, ⟨0⟩, true, false, none⟩
  [.register (demoRival "a") .zero, .register (demoRival "b") .zero,
    .register (demoRival "a") .zero, .resolve done, .resolve done]

/-- The first registration is replaced, the second is completed once, and whatever comes for it
later loses. The one beside it is in flight, its caller waits, and whatever comes first wins. -/
theorem first_resolution_wins_demoRivals :
    let h := (new .zero (.new .one)).history demoRivals
    h.endedNumbers = [0, 2] ∧
    (∃ e ∈ h.endings, e.entry.activation = demoRival "a" ∧ e.ending = .replaced ∧
      ((Waiter.open e.entry.number).poll h.flight).2 = .closed) ∧
    (∃ e ∈ h.endings, e.entry.activation = demoRival "a" ∧
      ((Waiter.open e.entry.number).poll h.flight).2 = .result ⟨⟨"a"⟩, .success, none⟩) ∧
    Loses h.flight ⟨"a"⟩ ∧
    Table.get? ⟨"b"⟩ h.flight.pending = some ⟨1, demoRival "b"⟩ ∧
      Wins h.flight ⟨"b"⟩ ⟨1, demoRival "b"⟩ ∧
      ((Waiter.open 1).poll h.flight).2 = .waiting := by
  intro h
  have replaced : h.endings[0]? = some ⟨⟨0, demoRival "a"⟩, .replaced⟩ := rfl
  have completed : h.endings[1]? =
      some ⟨⟨2, demoRival "a"⟩, .completed ⟨⟨"a"⟩, .success, none⟩⟩ := rfl
  have absent : Table.get? ⟨"a"⟩ h.flight.pending = none := by decide +kernel
  have unended : 1 ∉ h.endedNumbers := by decide +kernel
  have made : h.registrations[1]? = some (demoRival "b") := by decide +kernel
  obtain ⟨-, -, open_, -, reads, wins, loses, -⟩ :=
    first_resolution_wins .zero (.new .one) demoRivals
  have pending := (open_ 1 _ made).mpr unended
  exact ⟨by decide +kernel,
    ⟨_, List.mem_of_getElem? replaced, rfl, rfl, reads _ (List.mem_of_getElem? replaced) rfl⟩,
    ⟨_, List.mem_of_getElem? completed, rfl, reads _ (List.mem_of_getElem? completed) rfl⟩,
    loses _ absent, pending, wins _ _ pending⟩

end InFlight

end Dispatch
