import Dispatch.Proofs.Chronicle
import Dispatch.Proofs.Settling

/-!
# An activation in flight is watched

`Flow` says what becomes of a gateway at one time; here is what becomes meanwhile of one activation
in flight. `Course` says that it stays in flight as it is, or that its registration is answered as
it `Ends`: by its deadline, which has come, or by a completion that is taken in while the deadline
is ahead. An answer that is there stays. `Gateway.Flow.course` is that law for everything that can
happen, and `Gateway.Tended` is what a gateway keeps on the way; part of it is that the accounts
cover what is in flight, however the submissions between have ended (`InFlight.Covered`).
-/

set_option autoImplicit false

namespace Dispatch

namespace InFlight

variable {f g h : InFlight} {id : ActivationId} {r : Registered} {now : Instant}

/-! ## Reservations -/

/-- The accounts hold at least what the activations in flight have reserved. -/
structure Covered (f : InFlight) : Prop where
  distinct : Table.Distinct f.pending
  memory : ∀ invoker, f.memoryOn invoker ≤ f.ledger.usedMemory invoker
  slots : ∀ invoker, f.inFlightOn invoker ≤ f.ledger.usedSlots invoker

theorem covered_new (grace : Duration) (ledger : Ledger) : Covered (new grace ledger) :=
  ⟨Table.distinct_nil, fun _ => Nat.zero_le _, fun _ => Nat.zero_le _⟩

/-- Accounts that hold no less cover the same table. -/
theorem Covered.mono (covered : Covered f) (pending : g.pending = f.pending)
    (memory : ∀ i, f.ledger.usedMemory i ≤ g.ledger.usedMemory i)
    (slots : ∀ i, f.ledger.usedSlots i ≤ g.ledger.usedSlots i) : Covered g where
  distinct := pending ▸ covered.distinct
  memory i := by
    rw [memoryOn, pending]
    exact Nat.le_trans (covered.memory i) (memory i)
  slots i := by
    rw [inFlightOn, countWhere, pending]
    exact Nat.le_trans (covered.slots i) (slots i)

/-- What an activation in flight has reserved can be given back in full. -/
theorem Covered.holds (covered : Covered f) (pending : Table.get? id f.pending = some r) :
    f.ledger.Holds r.activation.invoker r.activation.memory := by
  apply Ledger.holds_of_used
  · have part := Table.weight_le_total
      (fun s : Registered => if s.activation.invoker = r.activation.invoker
        then s.activation.memory.toNat else 0) pending
    rw [if_pos rfl] at part
    exact Nat.le_trans part (covered.memory _)
  · have part := Table.weight_le_total
      (fun s : Registered => if s.activation.invoker = r.activation.invoker then 1 else 0) pending
    rw [if_pos rfl, ← inFlightOn_eq_total] at part
    exact Nat.le_trans part (covered.slots _)

theorem Covered.close (covered : Covered f) (pending : Table.get? id f.pending = some r)
    (how : Ending) : Covered (f.close id r how) where
  distinct := Table.distinct_erase covered.distinct id
  memory i := by
    have released := (Ledger.release_moves (covered.holds pending) i).1
    have taken := Table.total_erase (fun s : Registered => if s.activation.invoker = i
      then s.activation.memory.toNat else 0) covered.distinct pending
    have before := covered.memory i
    rw [memoryOn] at before
    show Table.total _ (Table.erase id f.pending) ≤
      (f.ledger.release r.activation.invoker r.activation.memory).usedMemory i
    omega
  slots i := by
    have released := (Ledger.release_moves (covered.holds pending) i).2
    have taken := Table.total_erase (fun s : Registered => if s.activation.invoker = i
      then 1 else 0) covered.distinct pending
    have before := covered.slots i
    rw [inFlightOn_eq_total] at before ⊢
    show Table.total _ (Table.erase id f.pending) ≤
      (f.ledger.release r.activation.invoker r.activation.memory).usedSlots i
    omega

theorem Covered.attempt (covered : Covered f) (attempt : Attempt f id g) : Covered g := by
  cases attempt with
  | closed pending how => exact covered.close pending how
  | missed => exact covered.mono rfl (fun _ => Nat.le_refl _) (fun _ => Nat.le_refl _)

theorem Covered.fireAll (covered : Covered f) (timers : List Timer) :
    Covered (timers.foldl InFlight.fire f) := by
  induction timers generalizing f with
  | nil => exact covered
  | cons t rest ih =>
      have disarmed : Covered (f.disarm t.number) :=
        covered.mono rfl (fun _ => Nat.le_refl _) (fun _ => Nat.le_refl _)
      exact ih (disarmed.attempt (attempt_expire _ t.id))

/-- Accounts with a reservation more cover the table as before. -/
theorem Covered.reserved (covered : Covered f) {invoker : InvokerId} {memory : UInt64}
    (room : f.ledger.accepts invoker memory = true) :
    Covered { f with ledger := (f.ledger.reserve invoker memory).1 } := by
  have moves := Ledger.reserve_moves room
  refine covered.mono rfl (fun i => ?_) (fun i => ?_)
  · rw [(moves i).1]
    exact Nat.le_add_right _ _
  · rw [(moves i).2]
    exact Nat.le_add_right _ _

/-- **An activation whose capacity was just reserved is covered as well.** -/
theorem Covered.add_reserved (covered : Covered f) {a : Activation}
    (fresh : Table.get? a.id f.pending = none)
    (room : f.ledger.accepts a.invoker a.memory = true) :
    Covered ({ f with ledger := (f.ledger.reserve a.invoker a.memory).1 }.add a) := by
  have moves := Ledger.reserve_moves room
  rw [add_of_absent (f := { f with ledger := (f.ledger.reserve a.invoker a.memory).1 }) fresh]
  refine ⟨Table.distinct_set covered.distinct _ _, fun i => ?_, fun i => ?_⟩
  · have before := covered.memory i
    rw [memoryOn, Table.total_set_of_fresh _ fresh, (moves i).1]
    exact Nat.add_le_add_right before _
  · have before := covered.slots i
    rw [inFlightOn_eq_total, Table.total_set_of_fresh _ fresh, (moves i).2,
      ← inFlightOn_eq_total]
    exact Nat.add_le_add_right before _

/-! ## Answers -/

/-- What is kept about timers and answers: every timer is that of a registration in flight, and
answered are registrations that were in flight and are no more. -/
structure Tended (f : InFlight) : Prop where
  armed : Armed f fun _ => False
  unanswered : ∀ n, f.registered ≤ n → Table.get? n f.answers = none
  awaited : ∀ id r, Table.get? id f.pending = some r → Table.get? r.number f.answers = none

theorem tended_new (grace : Duration) (ledger : Ledger) : Tended (new grace ledger) :=
  ⟨armed_new _ _ _, fun _ _ => rfl, nofun⟩

theorem Tended.numbered (tended : Tended f) (pending : Table.get? id f.pending = some r) :
    r.number < f.registered :=
  tended.armed.made _ (tended.armed.own id r pending)

/-- How an activation may end at a time, if no completions but those that are `taken` come. -/
inductive Ends (taken : Completion → Prop) (now : Instant) (id : ActivationId) (a : Activation) :
    Ending → Prop where
  | timedOut (due : a.deadline ≤ now) : Ends taken now id a .timedOut
  | completed {c : Completion} (took : taken c) (own : c.id = id) (ahead : now < a.deadline) :
      Ends taken now id a (.completed (.ofCompletion c))

variable {taken : Completion → Prop}

/-- What becomes, from `f` to `g`, of the activations in flight and of the answers. -/
structure Course (taken : Completion → Prop) (now : Instant) (f g : InFlight) : Prop where
  tended : Tended g
  answered : ∀ n a, Table.get? n f.answers = some a → Table.get? n g.answers = some a
  watched : ∀ id r, Table.get? id f.pending = some r →
    Table.get? id g.pending = some r ∨
      ∃ how, Ends taken now id r.activation how ∧ (r.activation.blocking = true →
        Table.get? r.number g.answers = some (how.answer id))

theorem Tended.course (tended : Tended f) (now : Instant) : Course taken now f f :=
  ⟨tended, fun _ _ => id, fun _ _ => .inl⟩

theorem Course.trans (first : Course taken now f g) (second : Course taken now g h) :
    Course taken now f h where
  tended := second.tended
  answered n a there := second.answered n a (first.answered n a there)
  watched id r pending := by
    rcases first.watched id r pending with still | ⟨how, ends, answered⟩
    · exact second.watched id r still
    · exact .inr ⟨how, ends, fun blocking => second.answered _ _ (answered blocking)⟩

theorem Tended.aside (tended : Tended f) (aside : f.Aside g) : Course taken now f g where
  tended :=
    { armed := tended.armed.aside aside
      unanswered := fun n late => by
        rw [aside.answers n (.inr late)]
        exact tended.unanswered n (Nat.le_trans aside.registered late)
      awaited := fun id r pending => by
        rw [aside.pending] at pending
        rw [aside.answers _ (.inl (tended.numbered pending))]
        exact tended.awaited id r pending }
  answered n a there := by
    rw [aside.answers n, there]
    by_contra outside
    rw [tended.unanswered n (Nat.not_lt.mp fun early => outside (.inl early))] at there
    cases there
  watched id r pending := .inl (aside.pending ▸ pending)

theorem Tended.joined (tended : Tended f) {a : Activation} (joined : f.Joined a g) :
    Course taken now f g where
  tended :=
    { armed := tended.armed.joined joined
      unanswered := fun n late => by
        rw [joined.registered] at late
        rw [joined.answers]
        exact tended.unanswered n (Nat.le_of_succ_le late)
      awaited := fun id r pending => by
        rw [joined.answers]
        rw [joined.pending, Table.get?_set] at pending
        split at pending
        · rw [← Option.some.inj pending]
          exact tended.unanswered _ (Nat.le_refl _)
        · exact tended.awaited id r pending }
  answered n a there := by rw [joined.answers, there]
  watched id r pending := by
    refine .inl ?_
    rw [joined.pending, Table.get?_set, if_neg, pending]
    rintro rfl
    rw [joined.fresh] at pending
    cases pending

/-- What is in flight ends; at most timers and counters move besides. -/
theorem Tended.closed (tended : Tended f) (pending : Table.get? id f.pending = some r)
    {how : Ending} (ends : Ends taken now id r.activation how) (armed : Armed g fun _ => False)
    (erased : g.pending = (f.close id r how).pending)
    (answers : g.answers = (f.close id r how).answers) (registered : g.registered = f.registered) :
    Course taken now f g := by
  have others : ∀ other s, Table.get? other g.pending = some s →
      id ≠ other ∧ Table.get? other f.pending = some s := by
    intro other s there
    rw [erased, close, Table.get?_erase] at there
    split at there
    · cases there
    · rename_i apart
      exact ⟨apart, there⟩
  refine ⟨⟨armed, fun n late => ?_, fun other s there => ?_⟩, fun n a there => ?_,
    fun other s there => ?_⟩
  · rw [registered] at late
    rw [answers, close_answers, if_neg]
    · exact tended.unanswered n late
    · rintro ⟨rfl, -⟩
      exact absurd (tended.numbered pending) (Nat.not_lt.mpr late)
  · obtain ⟨apart, before⟩ := others other s there
    rw [answers, close_answers, if_neg]
    · exact tended.awaited other s before
    · exact fun same => tended.armed.apart pending before apart same.1
  · rw [answers, close_answers, if_neg, there]
    rintro ⟨rfl, -⟩
    rw [tended.awaited id r pending] at there
    cases there
  · by_cases same : id = other
    · subst same
      rw [pending] at there
      obtain rfl := Option.some.inj there
      refine .inr ⟨how, ends, fun blocking => ?_⟩
      rw [answers, close_answers, if_pos ⟨rfl, blocking⟩]
    · refine .inl ?_
      rw [erased, close, Table.get?_erase, if_neg same, there]

/-- **A timer that is due times out the activation that it was armed for.** -/
theorem Tended.fire (tended : Tended f) {t : Timer} (there : t ∈ f.timers) (due : t.due ≤ now) :
    Course taken now f (f.fire t) := by
  obtain ⟨s, pending, own⟩ := (tended.armed.known t there).resolve_right id
  have armed := tended.armed.fire_own there
  have timely : s.activation.deadline ≤ now := by
    rw [own] at due
    exact due
  rw [fire_of_pending pending] at armed ⊢
  exact tended.closed pending (.timedOut timely) armed rfl rfl rfl

theorem Tended.fireAll (tended : Tended f) {timers : List Timer}
    (there : ∀ t ∈ timers, t ∈ f.timers ∧ t.due ≤ now) (distinct : (timers.map (·.number)).Nodup) :
    Course taken now f (timers.foldl InFlight.fire f) := by
  induction timers generalizing f with
  | nil => exact tended.course now
  | cons t rest ih =>
      obtain ⟨apart, distinct⟩ := List.nodup_cons.mp distinct
      obtain ⟨armed, due⟩ := there t List.mem_cons_self
      have fired : Course taken now f (f.fire t) := tended.fire armed due
      refine fired.trans (ih fired.tended (fun u member => ?_) distinct)
      obtain ⟨before, dueToo⟩ := there u (List.mem_cons_of_mem _ member)
      refine ⟨?_, dueToo⟩
      rw [fire_timers]
      refine List.mem_filter.mpr ⟨before, decide_eq_true fun same => ?_⟩
      exact apart (List.mem_map.mpr ⟨u, member, same⟩)

theorem Tended.fireDue (tended : Tended f) (now : Instant) :
    Course taken now f (f.fireDue now) := by
  refine tended.fireAll (fun t member => ?_)
    (tended.armed.once.sublist (List.filter_sublist.map _))
  obtain ⟨there, due⟩ := List.mem_filter.mp member
  exact ⟨there, of_decide_eq_true due⟩

/-- **A completion that comes when no deadline has passed ends its activation.** -/
theorem Tended.resolve (tended : Tended f) (ahead : ∀ t ∈ f.timers, now < t.due)
    {c : Completion} (took : taken c) : Course taken now f (f.resolve c).1 := by
  cases pending : Table.get? c.id f.pending with
  | none =>
      rw [resolve_of_absent pending]
      exact tended.aside ⟨rfl, rfl, rfl, rfl, Nat.le_refl _, fun _ _ => rfl⟩
  | some r =>
      have early : now < r.activation.deadline := ahead _ (tended.armed.own _ r pending)
      rw [resolve_of_pending pending]
      exact tended.closed pending (.completed took rfl early)
        (tended.armed.close_inTime pending nofun) rfl rfl rfl

end InFlight

namespace Gateway

variable {taken : Completion → Prop} {g h : Gateway} {now : Instant}

/-- What a gateway keeps while nothing is timed out by hand. -/
structure Tended (g : Gateway) : Prop where
  supply : Function.Injective g.mint
  orderly : Orderly g
  covered : g.flight.Covered
  flight : g.flight.Tended

theorem tended_new (config : Config) (store : Store) (bus : Bus) {mint : Nat → ActivationId}
    (supply : Function.Injective mint) : Tended (new config store bus mint) :=
  ⟨supply, orderly_new config store bus mint, InFlight.covered_new _ _, InFlight.tended_new _ _⟩

theorem Tended.covered_enlist (tended : Tended g) {enlisted : Gateway} {r : Request} {a : Action}
    {invoker : InvokerId} (room : g.ledger.accepts invoker a.limits.memory = true)
    (enlist : (g.refreshed.reserved invoker a.limits.memory).enlist r a invoker now =
      some enlisted) : enlisted.flight.Covered := by
  obtain ⟨deadline, -, rfl⟩ := enlist_eq_some enlist
  exact tended.covered.add_reserved (tended.orderly.fresh tended.supply) room

theorem Tended.covered_submit (tended : Tended g) (r : Request) (calendar : UInt64) :
    (g.submit r now calendar).1.flight.Covered := by
  have outcome := submit_outcome g r now calendar
  generalize (g.submit r now calendar).1 = after, (g.submit r now calendar).2 = result at outcome ⊢
  cases outcome with
  | unknown => exact tended.covered
  | overloaded => exact tended.covered.mono rfl (fun _ => Nat.le_refl _) (fun _ => Nat.le_refl _)
  | unnamed _ target _ => exact tended.covered.reserved (accepts_of_target target)
  | unpublished _ target enlist _ =>
      have added := tended.covered_enlist (accepts_of_target target) enlist
      have withdrawn := added.attempt (InFlight.attempt_abandon _ (g.mint g.minted))
      exact withdrawn.mono rfl (fun _ => Nat.le_refl _) (fun _ => Nat.le_refl _)
  | published _ target enlist _ =>
      have added := tended.covered_enlist (accepts_of_target target) enlist
      exact added.mono rfl (fun _ => Nat.le_refl _) (fun _ => Nat.le_refl _)

theorem covered_plain (covered : g.flight.Covered) {e : Event} (plain : e.isPlain = true) :
    (g.step e).flight.Covered := by
  cases e with
  | heartbeat h now =>
      simp only [step, processHeartbeat]
      split
      · exact covered
      · have kept := Ledger.setCapacity_keeps g.ledger h.invoker h.capacity.totalMemory
          h.capacity.totalSlots
        exact covered.mono rfl (fun i => Nat.le_of_eq (kept i).1.symm)
          (fun i => Nat.le_of_eq (kept i).2.symm)
  | remove id =>
      simp only [step, removeInvoker]
      split <;> exact covered
  | sweep | list | store | bus => exact covered
  | submit | complete | elapse | expire => cases plain

theorem aside_plain (g : Gateway) {e : Event} (plain : e.isPlain = true) :
    g.flight.Aside (g.step e).flight := by
  cases e with
  | heartbeat h now => exact aside_heartbeat g h now
  | remove id => exact aside_remove g id
  | sweep | list | store | bus => exact .refl _
  | submit | complete | elapse | expire => cases plain

theorem Tended.course_submit (tended : Tended g) (r : Request) (calendar : UInt64) :
    InFlight.Course taken now g.flight (g.submit r now calendar).1.flight := by
  cases told : (g.submit r now calendar).2 with
  | error fault =>
      exact tended.flight.aside (aside_of_refused tended.orderly tended.supply told)
  | ok p =>
      obtain ⟨a, activation, -, joined, -⟩ :=
        launched_of_published tended.orderly tended.supply told
      exact tended.flight.joined joined

/-- What an event keeps of a gateway, where it has kept the activations in flight in order. -/
theorem Tended.step (tended : Tended g) (e : Event) (covered : (g.step e).flight.Covered)
    (course : InFlight.Course taken now g.flight (g.step e).flight) : Tended (g.step e) where
  supply := by
    rw [(step_settings g e).1]
    exact tended.supply
  orderly := orderly_step g e tended.orderly
  covered := covered
  flight := course.tended

/-- **Whatever happens at one time, the activations in flight take their course.** -/
theorem Flow.course (flow : Flow taken now g h) (tended : Tended g) :
    Tended h ∧ InFlight.Course taken now g.flight h.flight := by
  induction flow with
  | refl => exact ⟨tended, tended.flight.course now⟩
  | @elapse h _ ih =>
      obtain ⟨before, course⟩ := ih
      have fired : InFlight.Course taken now _ _ := before.flight.fireDue now
      exact ⟨before.step (.elapse now) (before.covered.fireAll _) fired, course.trans fired⟩
  | @complete h _ ahead c took calendar ih =>
      obtain ⟨before, course⟩ := ih
      have resolved := before.flight.resolve ahead took
      exact ⟨before.step (.complete c calendar)
        (before.covered.attempt (InFlight.attempt_resolve _ c)) resolved, course.trans resolved⟩
  | @submit h _ r calendar ih =>
      obtain ⟨before, course⟩ := ih
      have submitted : InFlight.Course taken now _ _ := before.course_submit r calendar
      exact ⟨before.step (.submit r now calendar) (before.covered_submit r calendar) submitted,
        course.trans submitted⟩
  | @plain h _ e plain ih =>
      obtain ⟨before, course⟩ := ih
      have left : InFlight.Course taken now _ _ := before.flight.aside (aside_plain h plain)
      exact ⟨before.step e (covered_plain before.covered plain) left, course.trans left⟩
  | bus _ _ ih => exact ⟨⟨ih.1.supply, ⟨ih.1.orderly.issued, ih.1.orderly.numbered⟩, ih.1.covered,
      ih.1.flight⟩, ih.2⟩

end Gateway

end Dispatch
