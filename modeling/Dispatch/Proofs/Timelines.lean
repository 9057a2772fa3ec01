import Dispatch.Proofs.Timers

/-!
# One timer for each registration

`Timeline` is the history of the activations in flight on a clock: calls, and time that passes.
Each registration in flight has its own timer, and the timers beside them are those of
registrations that timed out early, while their deadline is still to come (`Strays`). Such a timer
is left by whoever times an activation out by hand, and it fires at whatever is registered under the
identifier by then. `timers_of_run` is this closed form, with what an advance of the clock times
out, and what follows as long as nothing is timed out by hand: one timer for each registration in
flight, and no registration timed out before its deadline.
-/

set_option autoImplicit false

namespace Dispatch

namespace InFlight

/-- What is done to the activations in flight on a clock. -/
inductive Act where
  | register (a : Activation) (limit : Duration)
  | resolve (c : Completion)
  /-- Somebody times an activation out. -/
  | expire (id : ActivationId)
  | abandon (id : ActivationId)
  /-- Others have moved the accounts. -/
  | account (ledger : Ledger)
  /-- Time passes. -/
  | advance (span : Duration)

/-- The event of an act, if time does not pass. -/
def Act.event? : Act → Option Event
  | .register a limit => some (.register a limit)
  | .resolve c => some (.resolve c)
  | .expire id => some (.expire id)
  | .abandon id => some (.abandon id)
  | .account ledger => some (.account ledger)
  | .advance _ => none

/-- What the clock reads after an act. -/
def Act.clock (now : Instant) : Act → Instant
  | .advance span => ⟨now.nanos + span.nanos⟩
  | _ => now

/-- Whether an act times an activation out by hand. -/
def Act.byHand : Act → Bool
  | .expire _ => true
  | _ => false

/-- A history, and what the clock reads. -/
structure Timeline where
  history : History
  now : Instant

/-- Timers fire, one after the other. -/
def History.fireAll (timers : List Timer) (h : History) : History :=
  (timers.map Event.fire).foldl History.step h

/-- Every timer fires that is due. -/
def History.fireDue (h : History) (now : Instant) : History :=
  h.fireAll (h.flight.timers.filter (·.due ≤ now))

namespace Timeline

/-- A table that has seen nothing yet, at the origin of the clock. -/
def start (grace : Duration) (ledger : Ledger) : Timeline := ⟨⟨new grace ledger, [], []⟩, .origin⟩

def flight (t : Timeline) : InFlight := t.history.flight

/-- The timeline after an act; then every timer fires that is due. -/
def step (t : Timeline) (act : Act) : Timeline :=
  let history := act.event?.elim t.history t.history.step
  let now := act.clock t.now
  ⟨history.fireDue now, now⟩

def run (t : Timeline) (acts : List Act) : Timeline := acts.foldl step t

end Timeline

/-- Each registration in flight has one armed timer, at its own deadline, and no other timer is
armed. -/
structure OneTimerEach (f : InFlight) : Prop where
  once : (f.timers.map (·.number)).Nodup
  own : ∀ t, t ∈ f.timers ↔ ∃ r, Table.get? t.id f.pending = some r ∧ t = r.timer

/-- `timer` belongs to a registration that has timed out. -/
def History.Stray (h : History) (timer : Timer) : Prop :=
  ∃ e ∈ h.endings, e.ending = .timedOut ∧ timer = e.entry.timer

/-- `timer` belongs to a registration that timed out early: its deadline is still to come. -/
def Timeline.Stray (t : Timeline) (timer : Timer) : Prop :=
  t.history.Stray timer ∧ t.now < timer.due

/-! ## What an event does to a history -/

variable {h : History} {id : ActivationId} {r : Registered} {now : Instant}

/-- What an event that is no timer comes to. -/
inductive Turn (h : History) : Event → History → Prop where
  /-- At most accounts and counters move. -/
  | idle {e : Event} {g : InFlight} (pending : g.pending = h.flight.pending)
      (timers : g.timers = h.flight.timers) (answers : g.answers = h.flight.answers)
      (registered : g.registered = h.flight.registered) :
      Turn h e ⟨g, h.registrations, h.endings⟩
  /-- A registration ends; it times out only by hand. -/
  | closed {e : Event} {id : ActivationId} {r : Registered} {how : Ending}
      (pending : Table.get? id h.flight.pending = some r)
      (hand : how = .timedOut → e = .expire id) :
      Turn h e ⟨h.flight.close id r how, h.registrations, h.endings ++ [⟨r, how⟩]⟩
  | added {e : Event} {a : Activation} (absent : Table.get? a.id h.flight.pending = none) :
      Turn h e ⟨h.flight.add a, h.registrations ++ [a], h.endings⟩
  | replaced {e : Event} {a : Activation} {r : Registered}
      (pending : Table.get? a.id h.flight.pending = some r) :
      Turn h e ⟨(h.flight.close a.id r .replaced).add a, h.registrations ++ [a],
        h.endings ++ [⟨r, .replaced⟩]⟩

theorem turn_of_register (h : History) (a : Activation) (limit : Duration) :
    Turn h (.register a limit) (h.step (.register a limit)) := by
  cases named : h.flight.deadline? a.submittedAt limit with
  | none =>
      simp only [History.step, step, registered?, ended?, register?, named, Option.map_none,
        Option.getD_none, Option.bind_none, Option.toList_none, List.append_nil]
      exact .idle rfl rfl rfl rfl
  | some deadline =>
      simp only [History.step, step, registered?, ended?, register?, named, Option.map_some,
        Option.getD_some, Option.bind_some]
      cases pending : Table.get? a.id h.flight.pending with
      | none =>
          simp only [Option.map_none, Option.toList_none, Option.toList_some, List.append_nil]
          exact .added (a := { a with deadline }) pending
      | some r =>
          have replaced : h.flight.replaced a.id = h.flight.close a.id r .replaced :=
            replaced_of_pending pending
          rw [add_eq_add_replaced, replaced]
          exact .replaced (a := { a with deadline }) pending

theorem turn_of_resolve (h : History) (c : Completion) :
    Turn h (.resolve c) (h.step (.resolve c)) := by
  cases pending : Table.get? c.id h.flight.pending with
  | none =>
      simp only [History.step, step, registered?, ended?, resolve_of_absent pending,
        Option.toList_none, List.append_nil]
      exact .idle rfl rfl rfl rfl
  | some r =>
      simp only [History.step, step, registered?, ended?, resolve_of_pending pending, pending,
        Option.map_some, Option.toList_none, Option.toList_some, List.append_nil]
      exact .closed pending (fun same => by cases same)

theorem turn_of_expire (h : History) (id : ActivationId) :
    Turn h (.expire id) (h.step (.expire id)) := by
  cases pending : Table.get? id h.flight.pending with
  | none =>
      simp only [History.step, step, registered?, ended?, expire_of_absent pending,
        Bool.false_eq_true, if_false, Option.toList_none, List.append_nil]
      exact .idle rfl rfl rfl rfl
  | some r =>
      simp only [History.step, step, registered?, ended?, expire_of_pending pending, pending,
        Option.map_some, if_true, Option.toList_none, Option.toList_some, List.append_nil]
      exact .closed pending fun _ => rfl

theorem turn_of_abandon (h : History) (id : ActivationId) :
    Turn h (.abandon id) (h.step (.abandon id)) := by
  cases pending : Table.get? id h.flight.pending with
  | none =>
      simp only [History.step, step, registered?, ended?, abandon_of_absent pending,
        Bool.false_eq_true, if_false, Option.toList_none, List.append_nil]
      exact .idle rfl rfl rfl rfl
  | some r =>
      simp only [History.step, step, registered?, ended?, abandon_of_pending pending, pending,
        Option.map_some, if_true, Option.toList_none, Option.toList_some, List.append_nil]
      exact .closed pending (fun same => by cases same)

/-- **Every act but the passing of time is a turn.** -/
theorem turn_of_act (h : History) {act : Act} {e : Event} (event : act.event? = some e) :
    Turn h e (h.step e) := by
  cases act with
  | register a limit =>
      obtain rfl := Option.some.inj event
      exact turn_of_register h a limit
  | resolve c =>
      obtain rfl := Option.some.inj event
      exact turn_of_resolve h c
  | expire id =>
      obtain rfl := Option.some.inj event
      exact turn_of_expire h id
  | abandon id =>
      obtain rfl := Option.some.inj event
      exact turn_of_abandon h id
  | account ledger =>
      obtain rfl := Option.some.inj event
      simp only [History.step, step, registered?, ended?, Option.toList_none, List.append_nil]
      exact .idle rfl rfl rfl rfl
  | advance => cases event

/-- A timer that fires times out what is registered under its identifier. -/
theorem step_fire (h : History) (t : Timer) :
    h.step (.fire t) = ⟨h.flight.fire t, h.registrations,
      h.endings ++ ((Table.get? t.id h.flight.pending).map (⟨·, .timedOut⟩)).toList⟩ := by
  cases pending : Table.get? t.id h.flight.pending with
  | none =>
      simp only [History.step, step, registered?, ended?,
        expire_of_absent (f := h.flight.disarm t.number) pending, Bool.false_eq_true, if_false,
        Option.toList_none, Option.map_none, List.append_nil]
  | some r =>
      simp only [History.step, step, registered?, ended?,
        expire_of_pending (f := h.flight.disarm t.number) pending, if_true, pending,
        Option.toList_none, List.append_nil]

theorem fireAll_flight (timers : List Timer) (h : History) :
    (h.fireAll timers).flight = timers.foldl fire h.flight := by
  induction timers generalizing h with
  | nil => rfl
  | cons t rest ih => exact ih (h.step (.fire t))

theorem fireDue_flight (h : History) (now : Instant) :
    (h.fireDue now).flight = h.flight.fireDue now := fireAll_flight _ h

/-- The grace is set once and for all. -/
theorem history_grace (events : List Event) (h : History) :
    (events.foldl History.step h).flight.grace = h.flight.grace := by
  induction events generalizing h with
  | nil => rfl
  | cons e rest ih =>
      refine (ih (h.step e)).trans ?_
      have move := step_move h.flight e
      change (h.flight.step e).grace = h.flight.grace
      generalize h.flight.step e = after, h.flight.registered? e = made, h.flight.ended? e = ended
        at move ⊢
      cases move with
      | account | ignored | ended => rfl
      | registered absent => rw [add_of_absent absent]
      | replaced =>
          rw [add_of_absent (close_absent _ _ _ _)]
          rfl

/-! ## What the clock keeps -/

/-- What a timeline keeps: registrations in flight have their timers, and what has timed out strays
at most until its deadline. -/
structure Ticking (h : History) (now : Instant) : Prop where
  recorded : Recorded h
  armed : Armed h.flight h.Stray
  passed : ∀ e ∈ h.endings, e.ending = .timedOut →
    e.entry.timer ∈ h.flight.timers ∨ e.entry.activation.deadline ≤ now

theorem ticking_new (grace : Duration) (ledger : Ledger) (now : Instant) :
    Ticking ⟨new grace ledger, [], []⟩ now where
  recorded := recorded_new grace ledger
  armed := armed_new grace ledger _
  passed _ member := by cases member

theorem Ticking.later (ticking : Ticking h now) {later : Instant} (le : now ≤ later) :
    Ticking h later :=
  { ticking with
    passed := fun e member timedOut =>
      (ticking.passed e member timedOut).imp_right fun due => Nat.le_trans due le }

theorem Ticking.close (ticking : Ticking h now) (pending : Table.get? id h.flight.pending = some r)
    (how : Ending) :
    Ticking ⟨h.flight.close id r how, h.registrations, h.endings ++ [⟨r, how⟩]⟩ now where
  recorded := ticking.recorded.close pending how
  armed := by
    refine (ticking.armed.close pending how).mono ?_
    rintro t (⟨e, member, timedOut, own⟩ | ⟨timedOut, own⟩)
    · exact ⟨e, List.mem_append_left _ member, timedOut, own⟩
    · exact ⟨⟨r, how⟩, List.mem_append_right _ (List.mem_singleton.mpr rfl), timedOut, own⟩
  passed := by
    intro e member timedOut
    rcases List.mem_append.mp member with before | last
    · refine (ticking.passed e before timedOut).imp_left fun there => ?_
      have unended := (ticking.recorded.pending id r pending).2.2
      have apart : e.entry.number ≠ r.number := fun same =>
        unended (same ▸ List.mem_map_of_mem before)
      simp only [InFlight.close]
      split
      · exact List.mem_filter.mpr ⟨there, decide_eq_true apart⟩
      · exact there
    · obtain rfl := List.mem_singleton.mp last
      obtain rfl : how = .timedOut := timedOut
      exact .inl (ticking.armed.own id r pending)

theorem Ticking.add (ticking : Ticking h now) {a : Activation}
    (absent : Table.get? a.id h.flight.pending = none) :
    Ticking ⟨h.flight.add a, h.registrations ++ [a], h.endings⟩ now where
  recorded := ticking.recorded.add absent
  armed := ticking.armed.add absent
  passed := by
    intro e member timedOut
    refine (ticking.passed e member timedOut).imp_left fun there => ?_
    show e.entry.timer ∈ (h.flight.add a).timers
    rw [add_of_absent absent]
    exact mem_insertTimer.mpr (.inr there)

theorem Ticking.turn (ticking : Ticking h now) {e : Event} {after : History}
    (turn : Turn h e after) : Ticking after now := by
  cases turn with
  | idle pending timers answers registered =>
      exact ⟨ticking.recorded.congr pending answers registered,
        ticking.armed.congr pending timers registered,
        fun e member timedOut => by
          rw [timers]
          exact ticking.passed e member timedOut⟩
  | closed pending => exact ticking.close pending _
  | added absent => exact ticking.add absent
  | replaced pending => exact (ticking.close pending .replaced).add (close_absent _ _ _ _)

theorem Ticking.fire (ticking : Ticking h now) {t : Timer} (there : t ∈ h.flight.timers)
    (due : t.due ≤ now) : Ticking (h.step (.fire t)) now := by
  refine ⟨recorded_step ticking.recorded (.fire t), ?_, ?_⟩
  · have fired := ticking.armed.fire there
    rw [step_fire]
    refine fired.mono ?_
    rintro u (⟨e, member, timedOut, own⟩ | ⟨-, r, pending, own⟩)
    · exact ⟨e, List.mem_append_left _ member, timedOut, own⟩
    · exact ⟨⟨r, .timedOut⟩, List.mem_append_right _ (by simp [pending]), rfl, own⟩
  · rw [step_fire]
    intro e member timedOut
    -- A timer that is still armed stays so, unless it is the one that fired, whose time has come.
    have kept : e.entry.timer ∈ h.flight.timers →
        e.entry.timer ∈ (h.flight.fire t).timers ∨ e.entry.activation.deadline ≤ now := by
      intro armed
      by_cases same : e.entry.timer.number = t.number
      · have equal := ticking.armed.eq_of_number armed there same
        rw [← equal] at due
        exact .inr due
      · rw [fire_timers]
        exact .inl (List.mem_filter.mpr ⟨armed, decide_eq_true same⟩)
    rcases List.mem_append.mp member with before | last
    · exact (ticking.passed e before timedOut).elim kept .inr
    · cases pending : Table.get? t.id h.flight.pending with
      | none =>
          rw [pending] at last
          cases last
      | some r =>
          rw [pending] at last
          obtain rfl := List.mem_singleton.mp last
          exact kept (ticking.armed.own t.id r pending)

/-- What a timer that fires in due time keeps, all timers keep that are due. -/
theorem fireDue_keeps {P : History → Prop}
    (keeps : ∀ h t, P h → t ∈ h.flight.timers → t.due ≤ now → P (h.step (.fire t)))
    (once : (h.flight.timers.map (·.number)).Nodup) (holds : P h) : P (h.fireDue now) := by
  have due : ∀ t ∈ h.flight.timers.filter (·.due ≤ now), t ∈ h.flight.timers ∧ t.due ≤ now :=
    fun t member =>
      ⟨(List.mem_filter.mp member).1, of_decide_eq_true (List.mem_filter.mp member).2⟩
  have apart := once.sublist
    ((List.filter_sublist (p := fun t : Timer => decide (t.due ≤ now))).map (·.number))
  unfold History.fireDue
  generalize h.flight.timers.filter (·.due ≤ now) = timers at due apart ⊢
  induction timers generalizing h with
  | nil => exact holds
  | cons t rest ih =>
      obtain ⟨there, dueFirst⟩ := due t List.mem_cons_self
      obtain ⟨first, apart⟩ := List.nodup_cons.mp apart
      have once : ((h.flight.fire t).timers.map (·.number)).Nodup := by
        rw [fire_timers]
        exact once.sublist (List.filter_sublist.map _)
      refine ih (h := h.step (.fire t)) ?_ (keeps h t holds there dueFirst) ?_ apart
      · rw [step_fire]
        exact once
      · intro u later
        obtain ⟨armed, dueLater⟩ := due u (List.mem_cons_of_mem _ later)
        refine ⟨?_, dueLater⟩
        rw [step_fire]
        show u ∈ (h.flight.fire t).timers
        rw [fire_timers]
        refine List.mem_filter.mpr ⟨armed, decide_eq_true fun same => first ?_⟩
        exact List.mem_map.mpr ⟨u, later, same⟩

theorem Ticking.fireDue (ticking : Ticking h now) : Ticking (h.fireDue now) now :=
  fireDue_keeps (P := (Ticking · now)) (fun _ _ ticking there due => ticking.fire there due)
    ticking.armed.once ticking

/-- Timers that fire register nothing, and end what they end as timed out. -/
theorem fireDue_endings (h : History) (now : Instant) :
    (h.fireDue now).registrations = h.registrations ∧
      ∃ fired, (h.fireDue now).endings = h.endings ++ fired ∧
        ∀ e ∈ fired, e.ending = .timedOut := by
  unfold History.fireDue
  generalize h.flight.timers.filter (·.due ≤ now) = timers
  induction timers generalizing h with
  | nil => exact ⟨rfl, [], (List.append_nil _).symm, fun _ member => by cases member⟩
  | cons t rest ih =>
      obtain ⟨registrations, fired, endings, timedOut⟩ := ih (h.step (.fire t))
      change (h.fireAll (t :: rest)).registrations = _ at registrations
      change (h.fireAll (t :: rest)).endings = _ at endings
      rw [step_fire] at registrations
      rw [step_fire, List.append_assoc] at endings
      refine ⟨registrations, _, endings, fun e member => ?_⟩
      rcases List.mem_append.mp member with first | later
      · obtain ⟨r, -, rfl⟩ := Option.map_eq_some_iff.mp (Option.mem_toList.mp first)
        rfl
      · exact timedOut e later

/-! ## Nothing timed out by hand -/

/-- Nothing strays, and whatever has timed out did so at its deadline. -/
structure Punctual (h : History) (now : Instant) : Prop where
  armed : Armed h.flight fun _ => False
  due : ∀ e ∈ h.endings, e.ending = .timedOut → e.entry.activation.deadline ≤ now

theorem Punctual.turn (punctual : Punctual h now) {e : Event} {after : History}
    (turn : Turn h e after) (byItself : ∀ id, e ≠ .expire id) : Punctual after now := by
  cases turn with
  | idle pending timers answers registered =>
      exact ⟨punctual.armed.congr pending timers registered, punctual.due⟩
  | @closed id r how pending hand =>
      have inTime : how ≠ .timedOut := fun same => byItself id (hand same)
      refine ⟨punctual.armed.close_inTime pending inTime, fun e member timedOut => ?_⟩
      rcases List.mem_append.mp member with before | last
      · exact punctual.due e before timedOut
      · obtain rfl := List.mem_singleton.mp last
        exact absurd timedOut inTime
  | added absent => exact ⟨punctual.armed.add absent, punctual.due⟩
  | @replaced a r pending =>
      have closed := punctual.armed.close_inTime pending (nofun : Ending.replaced ≠ .timedOut)
      refine ⟨closed.add (close_absent _ _ _ _), fun e member timedOut => ?_⟩
      rcases List.mem_append.mp member with before | last
      · exact punctual.due e before timedOut
      · obtain rfl := List.mem_singleton.mp last
        cases timedOut

theorem Punctual.fire (punctual : Punctual h now) {t : Timer} (there : t ∈ h.flight.timers)
    (due : t.due ≤ now) : Punctual (h.step (.fire t)) now := by
  obtain ⟨r, pending, own⟩ := (punctual.armed.known t there).resolve_right id
  rw [step_fire, pending]
  refine ⟨punctual.armed.fire_own there, fun e member timedOut => ?_⟩
  rcases List.mem_append.mp member with before | last
  · exact punctual.due e before timedOut
  · obtain rfl := List.mem_singleton.mp last
    rw [own] at due
    exact due

theorem Punctual.later (punctual : Punctual h now) {later : Instant} (le : now ≤ later) :
    Punctual h later :=
  ⟨punctual.armed, fun e member timedOut => Nat.le_trans (punctual.due e member timedOut) le⟩

theorem Punctual.fireDue (punctual : Punctual h now) : Punctual (h.fireDue now) now :=
  fireDue_keeps (P := (Punctual · now)) (fun _ _ punctual there due => punctual.fire there due)
    punctual.armed.once punctual

namespace Timeline

/-- What a timeline keeps, and that whatever is due has fired. -/
structure Sound (t : Timeline) : Prop where
  ticking : Ticking t.history t.now
  ahead : ∀ timer ∈ t.flight.timers, t.now < timer.due

theorem sound_start (grace : Duration) (ledger : Ledger) : Sound (start grace ledger) :=
  ⟨ticking_new grace ledger .origin, fun _ there => by cases there⟩

theorem clock_le (act : Act) (now : Instant) : now ≤ act.clock now := by
  cases act with
  | advance span => exact Nat.le_add_right _ _
  | register | resolve | expire | abandon | account => exact Nat.le_refl _

variable {t : Timeline}

/-- What a timeline keeps until its timers fire. -/
theorem Sound.unfired (sound : Sound t) (act : Act) :
    Ticking (act.event?.elim t.history t.history.step) (act.clock t.now) := by
  have later := sound.ticking.later (clock_le act t.now)
  cases event : act.event? with
  | none => exact later
  | some e => exact later.turn (turn_of_act t.history event)

/-- **Every act keeps the timers in order.** -/
theorem sound_step (sound : Sound t) (act : Act) : Sound (t.step act) := by
  have unfired := sound.unfired act
  refine ⟨unfired.fireDue, fun timer there => ?_⟩
  change timer ∈ (History.fireDue _ _).flight.timers at there
  rw [fireDue_flight] at there
  exact ((mem_fireDue_timers unfired.armed).mp there).2

theorem sound_run (sound : Sound t) (acts : List Act) : Sound (t.run acts) := by
  induction acts generalizing t with
  | nil => exact sound
  | cons act rest ih => exact ih (sound_step sound act)

/-- **The armed timers are those of the registrations in flight and those that stray.** -/
theorem Sound.mem_timers (sound : Sound t) (timer : Timer) :
    timer ∈ t.flight.timers ↔
      (∃ r, Table.get? timer.id t.flight.pending = some r ∧ timer = r.timer) ∨ t.Stray timer := by
  constructor
  · intro there
    exact (sound.ticking.armed.known timer there).imp_right
      fun stray => ⟨stray, sound.ahead timer there⟩
  · rintro (⟨r, pending, rfl⟩ | ⟨⟨e, member, timedOut, rfl⟩, ahead⟩)
    · exact sound.ticking.armed.own _ r pending
    · exact (sound.ticking.passed e member timedOut).resolve_right (Nat.not_le.mpr ahead)

/-- A timer that strays is not that of a registration in flight. -/
theorem Sound.stray_apart (sound : Sound t) {timer : Timer} (stray : t.Stray timer)
    {id : ActivationId} {r : Registered} (pending : Table.get? id t.flight.pending = some r) :
    timer ≠ r.timer := by
  obtain ⟨⟨e, member, -, rfl⟩, -⟩ := stray
  intro same
  have unended := (sound.ticking.recorded.pending id r pending).2.2
  have number : e.entry.number = r.number := congrArg Timer.number same
  exact unended (number ▸ List.mem_map_of_mem member)

/-- **Each registration has its own timer alone exactly if no timer strays.** -/
theorem Sound.oneTimerEach_iff (sound : Sound t) :
    OneTimerEach t.flight ↔ ∀ timer, ¬ t.Stray timer := by
  constructor
  · intro own timer stray
    obtain ⟨r, pending, same⟩ := (own.own timer).mp ((sound.mem_timers timer).mpr (.inr stray))
    exact sound.stray_apart stray pending same
  · intro none
    refine ⟨sound.ticking.armed.once, fun timer => ?_⟩
    rw [sound.mem_timers]
    exact or_iff_left (none timer)

/-- Whether the clock at `target` has passed the deadline of a registration in flight, or that of a
timer that strays under its identifier. -/
def Due (t : Timeline) (target : Instant) (id : ActivationId) (r : Registered) : Prop :=
  r.activation.deadline ≤ target ∨ ∃ timer, t.Stray timer ∧ timer.id = id ∧ timer.due ≤ target

/-- **An advance of the clock times out what is due, and leaves alone what is not.** -/
theorem Sound.advance (sound : Sound t) (span : Duration) {id : ActivationId} {r : Registered}
    (pending : Table.get? id t.flight.pending = some r) :
    let after := t.step (.advance span)
    (Table.get? id after.flight.pending = some r ↔ ¬ t.Due after.now id r) ∧
      (⟨r, .timedOut⟩ ∈ after.history.endings ↔ t.Due after.now id r) := by
  intro after
  have recorded := (sound_step sound (.advance span)).ticking.recorded
  have keyed := sound.ticking.armed.keyed id r pending
  obtain ⟨known, -, open_⟩ := sound.ticking.recorded.pending id r pending
  obtain ⟨registrations, fired, endings, timedOut⟩ := fireDue_endings t.history after.now
  change after.history.registrations = t.history.registrations at registrations
  change after.history.endings = t.history.endings ++ fired at endings
  have due : (∃ timer ∈ t.flight.timers, timer.due ≤ after.now ∧ timer.id = id) ↔
      t.Due after.now id r := by
    constructor
    · rintro ⟨timer, there, due, rfl⟩
      rcases (sound.mem_timers timer).mp there with ⟨s, pendingToo, rfl⟩ | stray
      · rw [pending] at pendingToo
        obtain rfl := Option.some.inj pendingToo
        exact .inl due
      · exact .inr ⟨timer, stray, rfl, due⟩
    · rintro (due | ⟨timer, stray, same, due⟩)
      · exact ⟨r.timer, sound.ticking.armed.own id r pending, due, keyed⟩
      · exact ⟨timer, (sound.mem_timers timer).mpr (.inr stray), due, same⟩
  have table : Table.get? id after.flight.pending =
      if ∃ timer ∈ t.flight.timers, timer.due ≤ after.now ∧ timer.id = id then none
      else some r := by
    change Table.get? id (History.fireDue _ _).flight.pending = _
    rw [fireDue_flight, fireDue_pending]
    exact if_congr Iff.rfl rfl pending
  rw [← due, table]
  by_cases isDue : ∃ timer ∈ t.flight.timers, timer.due ≤ after.now ∧ timer.id = id
  · rw [if_pos isDue] at table ⊢
    refine ⟨iff_of_false (by simp) (not_not.mpr isDue), iff_of_true ?_ isDue⟩
    -- The registration was made, so it has ended; it had not before, so a timer has ended it.
    have ended : r.number ∈ after.history.endedNumbers := by
      by_contra unended
      have there := recorded.waiting _ _ (registrations ▸ known) unended
      rw [keyed] at there
      cases table.symm.trans there
    obtain ⟨e, member, number⟩ := List.mem_map.mp ended
    have entry : e.entry = r := by
      have activation := recorded.ended e member
      rw [registrations, number, known] at activation
      exact congrArg₂ Registered.mk number (Option.some.inj activation).symm
    rw [endings] at member ⊢
    rcases List.mem_append.mp member with before | fresh
    · exact absurd (entry ▸ List.mem_map_of_mem before) open_
    · rw [← entry, ← timedOut e fresh]
      exact List.mem_append_right _ fresh
  · rw [if_neg isDue] at table ⊢
    refine ⟨iff_of_true rfl isDue, iff_of_false (fun ended => ?_) isDue⟩
    exact (recorded.pending id r table).2.2 (List.mem_map_of_mem ended)

/-- As long as nothing is timed out by hand, nothing strays. -/
theorem punctual_step (punctual : Punctual t.history t.now) {act : Act}
    (byItself : act.byHand = false) : Punctual (t.step act).history (t.step act).now := by
  have later := punctual.later (clock_le act t.now)
  refine Punctual.fireDue ?_
  cases event : act.event? with
  | none => exact later
  | some e =>
      refine later.turn (turn_of_act t.history event) fun id same => ?_
      subst same
      cases act <;> cases event
      cases byItself

theorem punctual_run (punctual : Punctual t.history t.now) {acts : List Act}
    (byItself : ∀ act ∈ acts, act.byHand = false) :
    Punctual (t.run acts).history (t.run acts).now := by
  induction acts generalizing t with
  | nil => exact punctual
  | cons act rest ih =>
      have first := punctual_step punctual (byItself act List.mem_cons_self)
      exact ih first fun later member => byItself later (List.mem_cons_of_mem _ member)

theorem step_grace (t : Timeline) (act : Act) : (t.step act).flight.grace = t.flight.grace := by
  refine (history_grace _ _).trans ?_
  cases act.event? with
  | none => rfl
  | some e => exact history_grace [e] t.history

theorem run_grace (t : Timeline) (acts : List Act) :
    (t.run acts).flight.grace = t.flight.grace := by
  induction acts generalizing t with
  | nil => rfl
  | cons act rest ih => exact (ih (t.step act)).trans (step_grace t act)

/-- A registration gets the next number, and its deadline is its time limit and the grace later. -/
theorem register_pending (f : InFlight) {a : Activation} {limit : Duration} {deadline : Instant}
    (named : f.deadline? a.submittedAt limit = some deadline) :
    deadline.nanos = a.submittedAt.nanos + limit.nanos + f.grace.nanos ∧
      Table.get? a.id (f.step (.register a limit)).pending =
        some ⟨f.registered, { a with deadline }⟩ := by
  refine ⟨deadline?_nanos named, ?_⟩
  simp only [InFlight.step, register?, named, Option.map_some, Option.getD_some, InFlight.add,
    Table.get?_set, if_true]

/-- **The timers of a run.** After any calls and any time that passes on a new table, a registration
is made with the deadline its limit and the grace give; no two armed timers have one number, and the
armed ones are those of the registrations in flight and those that stray. So every registration has
its own timer and no other is armed exactly if none strays. An advance of the clock times out
exactly what it passes the deadline of, or that of a timer that strays under the same identifier.
And as long as nothing is timed out by hand, no timer strays, and nothing is timed out before its
deadline. -/
theorem timers_of_run (grace : Duration) (ledger : Ledger) (acts : List Act) :
    let t := (start grace ledger).run acts
    (∀ a limit deadline, t.flight.deadline? a.submittedAt limit = some deadline →
      deadline.nanos = a.submittedAt.nanos + limit.nanos + grace.nanos ∧
        Table.get? a.id (t.flight.step (.register a limit)).pending =
          some ⟨t.flight.registered, { a with deadline }⟩) ∧
    (t.flight.timers.map (·.number)).Nodup ∧
    (∀ timer, timer ∈ t.flight.timers ↔
      (∃ r, Table.get? timer.id t.flight.pending = some r ∧ timer = r.timer) ∨ t.Stray timer) ∧
    (OneTimerEach t.flight ↔ ∀ timer, ¬ t.Stray timer) ∧
    (∀ id r span, Table.get? id t.flight.pending = some r →
      let after := t.step (.advance span)
      (Table.get? id after.flight.pending = some r ↔ ¬ t.Due after.now id r) ∧
        (⟨r, .timedOut⟩ ∈ after.history.endings ↔ t.Due after.now id r)) ∧
    ((∀ act ∈ acts, act.byHand = false) →
      OneTimerEach t.flight ∧
        ∀ e ∈ t.history.endings, e.ending = .timedOut → e.entry.activation.deadline ≤ t.now) := by
  intro t
  have sound : Sound t := sound_run (sound_start grace ledger) acts
  refine ⟨?_, sound.ticking.armed.once, sound.mem_timers, sound.oneTimerEach_iff, ?_, ?_⟩
  · intro a limit deadline named
    obtain ⟨sum, pending⟩ := register_pending t.flight named
    have grace : t.flight.grace = grace := run_grace (start grace ledger) acts
    rw [grace] at sum
    exact ⟨sum, pending⟩
  · intro id r span pending
    exact sound.advance span pending
  · intro byItself
    have punctual : Punctual t.history t.now :=
      punctual_run ⟨armed_new grace ledger _, fun _ member => by cases member⟩ byItself
    refine ⟨sound.oneTimerEach_iff.mpr fun timer stray => ?_, punctual.due⟩
    obtain ⟨⟨e, member, timedOut, rfl⟩, ahead⟩ := stray
    exact absurd ahead (Nat.not_lt.mpr (punctual.due e member timedOut))

/-- An activation that is submitted at some time. -/
def demoJob (id : String) (submittedAt : Instant) : Activation :=
  ⟨⟨id⟩, "guest", ⟨"guest", "sleep"⟩, ⟨0⟩, .managed, 256, false, submittedAt, .origin⟩

/-- One is registered for ten seconds, and a second later another one for a hundred. -/
def demoPair : List Act :=
  [.register (demoJob "a" .origin) (.ofSecs 10), .advance (.ofSecs 1),
    .register (demoJob "b" (.ofMillis 1000)) (.ofSecs 100)]

/-- With a grace of a second each has its own timer and no other is armed, and when eleven seconds
have passed, the first is timed out and the second is in flight. -/
theorem timers_of_run_demoPair :
    let t := (start (.ofSecs 1) (.new .one)).run demoPair
    let after := t.step (.advance (.ofSecs 10))
    let a : Registered := ⟨0, { demoJob "a" .origin with deadline := .ofMillis 11_000 }⟩
    let b : Registered :=
      ⟨1, { demoJob "b" (.ofMillis 1000) with deadline := .ofMillis 102_000 }⟩
    (∀ act ∈ demoPair, act.byHand = false) ∧ OneTimerEach t.flight ∧
      Table.get? ⟨"a"⟩ t.flight.pending = some a ∧
      Table.get? ⟨"b"⟩ t.flight.pending = some b ∧
      after.now = .ofMillis 11_000 ∧ ⟨a, .timedOut⟩ ∈ after.history.endings ∧
      Table.get? ⟨"b"⟩ after.flight.pending = some b := by
  intro t after a b
  have byItself : ∀ act ∈ demoPair, act.byHand = false := by decide
  have pendingA : Table.get? ⟨"a"⟩ t.flight.pending = some a := by decide +kernel
  have pendingB : Table.get? ⟨"b"⟩ t.flight.pending = some b := by decide +kernel
  have now : after.now = .ofMillis 11_000 := by decide +kernel
  obtain ⟨-, -, -, own, advance, alone⟩ := timers_of_run (.ofSecs 1) (.new .one) demoPair
  have each : OneTimerEach t.flight := (alone byItself).1
  have dueA : t.Due after.now ⟨"a"⟩ a := by
    rw [now]
    exact .inl (by decide)
  have early : ¬ t.Due after.now ⟨"b"⟩ b := by
    rw [now]
    rintro (passed | ⟨timer, stray, -⟩)
    · exact absurd passed (by decide)
    · exact own.mp each timer stray
  exact ⟨byItself, each, pendingA, pendingB, now, (advance _ a (.ofSecs 10) pendingA).2.mpr dueA,
    (advance _ b (.ofSecs 10) pendingB).1.mpr early⟩

/-- An identifier that is registered for ten seconds, timed out by hand, and registered again for
a hundred. -/
def demoReuse : List Act :=
  let a : Activation :=
    ⟨⟨"a"⟩, "guest", ⟨"guest", "sleep"⟩, ⟨0⟩, .managed, 256, false, .origin, .origin⟩
  [.register a (.ofSecs 10), .expire ⟨"a"⟩, .register a (.ofSecs 100)]

/-- **The timer of the first registration times out the second, ninety seconds early.** -/
theorem timed_out_by_stray :
    let t := (start (.ofSecs 1) (.new .one)).run demoReuse
    let after := t.step (.advance (.ofSecs 11))
    ¬ OneTimerEach t.flight ∧
      (t.flight.get? ⟨"a"⟩).map (·.deadline) = some (.ofMillis 101_000) ∧
      after.now = .ofMillis 11_000 ∧ after.flight.get? ⟨"a"⟩ = none ∧
      after.flight.counters.timedOut = 2 := by
  refine ⟨fun each => ?_, by decide +kernel, by decide +kernel, by decide +kernel,
    by decide +kernel⟩
  have stray : (⟨.ofMillis 11_000, ⟨"a"⟩, 0⟩ : Timer) ∈
      ((start (.ofSecs 1) (.new .one)).run demoReuse).flight.timers := by decide +kernel
  have second : (Table.get? ⟨"a"⟩
      ((start (.ofSecs 1) (.new .one)).run demoReuse).flight.pending).map (·.number) = some 1 := by
    decide +kernel
  obtain ⟨r, pending, same⟩ := (each.own _).mp stray
  rw [pending, Option.map_some, Option.some.injEq] at second
  have number : 0 = r.number := congrArg Timer.number same
  rw [second] at number
  cases number

end Timeline

end InFlight

end Dispatch
