import Dispatch.Proofs.Chronicle

/-!
# Deadlines are exact

`Clocked` is a gateway on a clock: what is done to it happens at the time the clock reads, then
every timer fires that is due, and the chronicle notes what was published and which completions
came. `exact_step` says that after each operation nothing is due any more and the chronicle is
right; `deadlines_exact` is what follows for whole runs.
-/

set_option autoImplicit false

namespace Dispatch

namespace Gateway

/-! ## Runs on a clock -/

/-- A gateway on a clock, and the chronicle of what it has published. -/
structure Clocked where
  gateway : Gateway
  now : Instant
  chronicle : List Entry

namespace Clocked

/-- What is done to a gateway on a clock. -/
inductive Op where
  | submit (r : Request) (calendar : UInt64)
  | complete (c : Completion) (calendar : UInt64)
  | heartbeat (h : Heartbeat)
  | remove (id : InvokerId)
  | sweep
  | list
  | store (a : Action)
  | bus (act : Bus.Act)
  /-- Time passes. -/
  | advance (span : Duration)

/-- The event of an operation, if time does not pass. -/
def Op.event? (now : Instant) : Op → Option Event
  | .submit r calendar => some (.submit r now calendar)
  | .complete c calendar => some (.complete c calendar)
  | .heartbeat h => some (.heartbeat h now)
  | .remove id => some (.remove id)
  | .sweep => some (.sweep now)
  | .list => some .list
  | .store a => some (.store a)
  | .bus act => some (.bus act)
  | .advance _ => none

/-- What the clock reads after an operation. -/
def Op.clock (now : Instant) : Op → Instant
  | .advance span => ⟨now.nanos + span.nanos⟩
  | _ => now

/-- A gateway that has seen nothing yet, at the origin of the clock. -/
def start (config : Config) (store : Store) (bus : Bus) (mint : Nat → ActivationId) : Clocked :=
  ⟨.new config store bus mint, .origin, []⟩

def flight (t : Clocked) : InFlight := t.gateway.flight

/-- What the chronicle notes of a submission, if it is published. -/
def noted? (t : Clocked) (r : Request) (calendar : UInt64) : Option Entry :=
  match t.gateway.lookUp r.action, (t.gateway.submit r t.now calendar).2 with
  | .ok a, .ok p => some ⟨p, t.now, a.limits.timeout, none⟩
  | _, _ => none

/-- The chronicle after an operation. -/
def chronicled (t : Clocked) : Op → List Entry
  | .submit r calendar => t.chronicle ++ (t.noted? r calendar).toList
  | .complete c _ => t.chronicle.map (·.receive t.now c)
  | _ => t.chronicle

/-- The gateway after an operation; then every timer fires that is due. -/
def step (t : Clocked) (op : Op) : Clocked :=
  let gateway := (op.event? t.now).elim t.gateway t.gateway.step
  ⟨gateway.step (.elapse (op.clock t.now)), op.clock t.now, t.chronicled op⟩

def run (t : Clocked) (ops : List Op) : Clocked := ops.foldl step t

/-- What a gateway and its chronicle keep, whether or not what is due has fired. -/
structure Kept (grace : Duration) (g : Gateway) (now : Instant) (chronicle : List Entry) :
    Prop where
  graced : g.flight.grace = grace
  supply : Function.Injective g.mint
  orderly : Orderly g
  armed : InFlight.Armed g.flight fun _ => False
  issued : ∀ e ∈ chronicle, ∃ k, k < g.minted ∧ e.published.id = g.mint k
  past : ∀ e ∈ chronicle, ∀ t d, e.first = some (t, d) → t ≤ now
  reflects : ∃ ended, Reflects grace g.flight chronicle ended ∧ Lags grace now chronicle ended

/-- What a clocked gateway keeps: everything that is due has fired. -/
structure Exact (grace : Duration) (t : Clocked) : Prop where
  kept : Kept grace t.gateway t.now t.chronicle
  ahead : ∀ timer ∈ t.flight.timers, t.now < timer.due
  reflects : Reflects grace t.flight t.chronicle (Entry.ended? grace t.now)

section Steps

variable {grace : Duration} {g : Gateway} {now : Instant} {chronicle : List Entry} {t : Clocked}

theorem kept_new (config : Config) (store : Store) (bus : Bus) {mint : Nat → ActivationId}
    (supply : Function.Injective mint) (now : Instant) :
    Kept config.balancer.grace (new config store bus mint) now [] where
  graced := rfl
  supply := supply
  orderly := orderly_new config store bus mint
  armed := InFlight.armed_new _ _ _
  issued _ member := by cases member
  past _ member := by cases member
  reflects := ⟨fun _ => none, reflects_new _ _ _, ⟨nofun, nofun⟩⟩

theorem exact_start (config : Config) (store : Store) (bus : Bus) {mint : Nat → ActivationId}
    (supply : Function.Injective mint) :
    Exact config.balancer.grace (start config store bus mint) where
  kept := kept_new config store bus supply .origin
  ahead _ there := by cases there
  reflects := reflects_new _ _ _

/-- What leaves the activations in flight alone keeps what is kept. -/
theorem Kept.aside (kept : Kept grace g now chronicle) {e : Event}
    (aside : g.flight.Aside (g.step e).flight) : Kept grace (g.step e) now chronicle where
  graced := aside.grace.trans kept.graced
  supply := by
    rw [(step_settings g e).1]
    exact kept.supply
  orderly := orderly_step g e kept.orderly
  armed := kept.armed.aside aside
  issued entry member := by
    obtain ⟨k, early, own⟩ := kept.issued entry member
    rw [(step_settings g e).1]
    exact ⟨k, Nat.lt_of_lt_of_le early (minted_le_step g e), own⟩
  past := kept.past
  reflects := by
    obtain ⟨ended, reflects, lags⟩ := kept.reflects
    exact ⟨ended, reflects.aside aside, lags⟩

/-- A published submission is noted; it has not ended before its timer fires. -/
theorem Kept.launched (kept : Kept grace g now chronicle)
    (reflects : Reflects grace g.flight chronicle (Entry.ended? grace now)) {r : Request}
    {calendar : UInt64} {p : Published} {a : Action} (lookUp : g.lookUp r.action = .ok a)
    (told : (g.submit r now calendar).2 = .ok p) :
    Kept grace (g.submit r now calendar).1 now
      (chronicle ++ [⟨p, now, a.limits.timeout, none⟩]) := by
  obtain ⟨b, activation, launched, joined, minted⟩ :=
    launched_of_published kept.orderly kept.supply told
  obtain rfl : a = b := Except.ok.inj (lookUp.symm.trans launched.lookUp)
  have settings := step_settings g (.submit r now calendar)
  have own : p.id = g.mint g.minted := by rw [launched.published, launched.id]
  have apart : ∀ e ∈ chronicle, e.published.id ≠ p.id := by
    intro e member same
    obtain ⟨k, early, issued⟩ := kept.issued e member
    rw [same, own] at issued
    exact Nat.ne_of_gt early (kept.supply issued)
  constructor
  case graced => exact joined.grace.trans kept.graced
  case supply =>
    change Function.Injective (g.step (.submit r now calendar)).mint
    rw [settings.1]
    exact kept.supply
  case orderly => exact orderly_step g (.submit r now calendar) kept.orderly
  case armed => exact kept.armed.joined joined
  case issued =>
    intro e member
    change ∃ k, _ ∧ _ = (g.step (.submit r now calendar)).mint k
    rw [settings.1, minted]
    rcases List.mem_append.mp member with before | last
    · obtain ⟨k, early, issued⟩ := kept.issued e before
      exact ⟨k, Nat.lt_succ_of_lt early, issued⟩
    · obtain rfl := List.mem_singleton.mp last
      exact ⟨g.minted, Nat.lt_succ_self _, own⟩
  case past =>
    intro e member time c first
    rcases List.mem_append.mp member with before | last
    · exact kept.past e before time c first
    · obtain rfl := List.mem_singleton.mp last
      cases first
  case reflects =>
    -- An activation without any time is due at once, but its timer has not fired yet.
    refine ⟨fun e => if e.published.id = p.id then none else e.ended? grace now, ?_, ?_, ?_⟩
    · refine (reflects.congr fun e member => (if_neg (apart e member)).symm).joined joined
        launched.published ?_ (if_pos rfl) ?_
      · have deadline := launched.deadline
        rw [kept.graced] at deadline
        exact congrArg Instant.mk deadline
      · intro member
        obtain ⟨e, there, same⟩ := List.mem_map.mp member
        exact apart e there (same.trans (launched.id.trans own.symm))
    · intro e _ how ended
      rw [Option.ite_none_left_eq_some] at ended
      exact ended.2
    · intro e member opened
      rcases List.mem_append.mp member with before | last
      · rw [if_neg (apart e before)] at opened
        exact (lags_ended? (Nat.le_refl _)).open_ e before opened
      · obtain rfl := List.mem_singleton.mp last
        rfl

/-- A completion is noted where it is the first. -/
theorem Kept.complete (kept : Kept grace g now chronicle)
    (reflects : Reflects grace g.flight chronicle (Entry.ended? grace now)) (c : Completion)
    (calendar : UInt64) :
    Kept grace (g.processCompletion c calendar).1 now (chronicle.map (·.receive now c)) := by
  have published : ∀ e : Entry, (e.receive now c).published = e.published := by
    intro e
    unfold Entry.receive
    split <;> rfl
  have deadline : ∀ e : Entry, (e.receive now c).deadline grace = e.deadline grace := by
    intro e
    unfold Entry.receive
    split <;> rfl
  constructor
  case graced =>
    exact (InFlight.attempt_resolve g.flight c).grace.trans kept.graced
  case supply => exact kept.supply
  case orderly => exact orderly_step g (.complete c calendar) kept.orderly
  case armed =>
    change InFlight.Armed (g.flight.resolve c).1 _
    cases pending : Table.get? c.id g.flight.pending with
    | none =>
        rw [InFlight.resolve_of_absent pending]
        exact kept.armed.congr rfl rfl rfl
    | some r =>
        rw [InFlight.resolve_of_pending pending]
        exact kept.armed.close_inTime pending nofun
  case issued =>
    simp only [List.forall_mem_map, published]
    exact kept.issued
  case past =>
    simp only [List.forall_mem_map]
    intro e member time d first
    unfold Entry.receive at first
    split at first
    · obtain ⟨rfl, -⟩ := Prod.mk.inj (Option.some.inj first)
      exact Nat.le_refl _
    · exact kept.past e member time d first
  case reflects =>
    refine ⟨Entry.ended? grace now, ?_, lags_ended? (Nat.le_refl _)⟩
    refine Reflects.map ?_ published deadline
    exact (reflects.resolve c).congr fun e member => Entry.ended?_receive (kept.past e member)

/-- **Whatever is done to a gateway at one time, the chronicle follows.** -/
theorem Exact.unfired (sound : Exact grace t) (op : Op) :
    Kept grace ((op.event? t.now).elim t.gateway t.gateway.step) t.now (t.chronicled op) := by
  have kept := sound.kept
  cases op with
  | submit r calendar =>
      show Kept grace (t.gateway.submit r t.now calendar).1 t.now
        (t.chronicle ++ (t.noted? r calendar).toList)
      cases told : (t.gateway.submit r t.now calendar).2 with
      | error fault =>
          have none : t.noted? r calendar = none := by
            rw [noted?, told]
            split <;> trivial
          rw [none, Option.toList_none, List.append_nil]
          exact kept.aside (e := .submit r t.now calendar)
            (aside_of_refused kept.orderly kept.supply told)
      | ok p =>
          obtain ⟨a, activation, launched, -⟩ :=
            launched_of_published kept.orderly kept.supply told
          have entry : t.noted? r calendar = some ⟨p, t.now, a.limits.timeout, none⟩ := by
            rw [noted?, launched.lookUp, told]
          rw [entry, Option.toList_some]
          exact kept.launched sound.reflects launched.lookUp told
  | complete c calendar => exact kept.complete sound.reflects c calendar
  | heartbeat h => exact kept.aside (e := .heartbeat h t.now) (aside_heartbeat _ h t.now)
  | remove id => exact kept.aside (e := .remove id) (aside_remove _ id)
  | sweep => exact kept.aside (e := .sweep t.now) (.refl _)
  | list => exact kept.aside (e := .list) (.refl _)
  | store a => exact kept.aside (e := .store a) (.refl _)
  | bus act => exact kept.aside (e := .bus act) (.refl _)
  | advance => exact kept

theorem clock_le (op : Op) (now : Instant) : now ≤ op.clock now := by
  cases op with
  | advance span => exact Nat.le_add_right _ _
  | submit | complete | heartbeat | remove | sweep | list | store | bus => exact Nat.le_refl _

/-- Time that passes fires what is due. -/
theorem Kept.elapse (kept : Kept grace g now chronicle) {later : Instant} (le : now ≤ later) :
    Exact grace ⟨g.step (.elapse later), later, chronicle⟩ := by
  obtain ⟨ended, reflects, lags⟩ := kept.reflects
  have lagsLater : Lags grace later chronicle ended :=
    ⟨fun e member how ended => Entry.ended?_later le (lags.settled e member how ended), lags.open_⟩
  have fired := reflects.fireDue kept.armed lagsLater
  refine ⟨?_, fun timer there => ((InFlight.mem_fireDue_timers kept.armed).mp there).2, fired⟩
  constructor
  case graced => exact (InFlight.fireDue_grace g.flight later).trans kept.graced
  case supply => exact kept.supply
  case orderly => exact orderly_step g (.elapse later) kept.orderly
  case armed => exact kept.armed.fireDue later
  case issued => exact kept.issued
  case past => exact fun e member time c first => Nat.le_trans (kept.past e member time c first) le
  case reflects => exact ⟨_, fired, lags_ended? (Nat.le_refl _)⟩

/-- **After every operation nothing is due, and the chronicle is right.** -/
theorem exact_step (sound : Exact grace t) (op : Op) : Exact grace (t.step op) :=
  (sound.unfired op).elapse (clock_le op t.now)

theorem exact_run (sound : Exact grace t) (ops : List Op) : Exact grace (t.run ops) := by
  induction ops generalizing t with
  | nil => exact sound
  | cons op rest ih => exact ih (exact_step sound op)

end Steps

/-! ## Deadlines -/

section Deadlines

variable {grace : Duration} {t : Clocked}

/-- What is in flight is in the chronicle, without a completion, and its deadline is ahead. -/
theorem Exact.inFlight (sound : Exact grace t) {id : ActivationId} {a : Activation}
    (there : t.flight.get? id = some a) :
    t.now < a.deadline ∧
      ∃ e ∈ t.chronicle, e.published.id = id ∧ a.deadline = e.deadline grace ∧ e.first = none := by
  obtain ⟨r, pending, rfl⟩ := InFlight.get?_eq_some_iff.mp there
  obtain ⟨e, member, rfl, opened⟩ := sound.reflects.known id r pending
  obtain ⟨s, pendingToo, made⟩ := sound.reflects.waiting e member opened
  rw [pending] at pendingToo
  obtain rfl := Option.some.inj pendingToo
  have ahead := sound.ahead r.timer (sound.kept.armed.own _ r pending)
  refine ⟨ahead, e, member, rfl, made.deadline, ?_⟩
  cases first : e.first with
  | none => rfl
  | some noted =>
      obtain ⟨time, c⟩ := noted
      have early : time < e.deadline grace := by
        rw [← made.deadline]
        exact Nat.lt_of_le_of_lt (sound.kept.past e member time c first) ahead
      have inTime : e.inTime? grace = some c := by simp [Entry.inTime?, first, early]
      rw [Entry.ended?, inTime] at opened
      cases opened

/-- What has ended is not in flight, and whoever waits for it has the answer. -/
theorem Exact.settled (sound : Exact grace t) {e : Entry} (member : e ∈ t.chronicle) {how : Ending}
    (settled : e.ended? grace t.now = some how) :
    t.flight.get? e.published.id = none ∧
      ∀ n, e.published.awaits = some n →
        Table.get? n t.flight.answers = some (how.answer e.published.id) := by
  constructor
  · cases there : t.flight.get? e.published.id with
    | none => rfl
    | some a =>
        obtain ⟨r, pending, -⟩ := InFlight.get?_eq_some_iff.mp there
        obtain ⟨other, too, same, opened⟩ := sound.reflects.known _ r pending
        rw [sound.reflects.eq_of_id too member same, settled] at opened
        cases opened
  · intro n awaits
    rw [sound.reflects.answered e member n awaits, settled, Option.map_some]

/-- What has not ended is in flight, and whoever waits for it has no answer. -/
theorem Exact.opened (sound : Exact grace t) {e : Entry} (member : e ∈ t.chronicle)
    (opened : e.ended? grace t.now = none) :
    (∃ a, t.flight.get? e.published.id = some a ∧ a.deadline = e.deadline grace) ∧
      ∀ n, e.published.awaits = some n → Table.get? n t.flight.answers = none := by
  obtain ⟨r, pending, made⟩ := sound.reflects.waiting e member opened
  refine ⟨⟨r.activation, InFlight.get?_eq_some_iff.mpr ⟨r, pending, rfl⟩, made.deadline⟩, ?_⟩
  intro n awaits
  rw [sound.reflects.answered e member n awaits, opened, Option.map_none]

/-- The timeouts counted are the entries past their deadline that were not completed in time. -/
theorem Exact.timedOut (sound : Exact grace t) :
    t.flight.counters.timedOut =
      t.chronicle.countP fun e => (e.inTime? grace).isNone && e.deadline grace ≤ t.now := by
  rw [sound.reflects.timedOut]
  refine List.countP_congr fun e _ => ?_
  rw [isTimedOut, Entry.ended?]
  cases e.inTime? grace with
  | some c => simp [Ending.status?, ActivationResult.ofCompletion_status]
  | none =>
      by_cases due : e.deadline grace ≤ t.now
      · simp [due, Ending.status?]
      · simp [due]

end Deadlines

/-- The same operation for a caller with other patience. -/
inductive Op.Alike : Op → Op → Prop where
  | same (op : Op) : Op.Alike op op
  | submit (r : Request) (patience : Option Duration) (calendar : UInt64) :
      Op.Alike (.submit r calendar) (.submit { r with patience } calendar)

theorem run_alike {ops others : List Op} (alike : List.Forall₂ Op.Alike ops others)
    (t : Clocked) : t.run ops = t.run others := by
  induction alike generalizing t with
  | nil => rfl
  | cons first _ ih =>
      cases first with
      | same op => exact ih _
      | submit r patience calendar => exact ih (t.step (.submit r calendar))

/-- **Deadlines are exact.** In any run of a new gateway with fresh identifiers, on a clock:

* whatever is in flight was published, no completion has come for it, and its deadline, which is
  the time of its publication with the time limit of its action and the grace added, is ahead;
* what was completed before its deadline is not in flight, and its completion is its result;
* what was not is in flight until its deadline, and from then on it has timed out;
* the count of timeouts is the number of these last.

How long the callers wait changes nothing at all. -/
theorem deadlines_exact (config : Config) (store : Store) (bus : Bus) {mint : Nat → ActivationId}
    (supply : Function.Injective mint) (ops : List Op) :
    let grace := config.balancer.grace
    let t := (start config store bus mint).run ops
    (∀ id a, t.flight.get? id = some a → t.now < a.deadline ∧
      ∃ e ∈ t.chronicle, e.published.id = id ∧ a.deadline = e.deadline grace ∧ e.first = none) ∧
    (∀ e ∈ t.chronicle, ∀ c, e.inTime? grace = some c →
      t.flight.get? e.published.id = none ∧
        ∀ n, e.published.awaits = some n →
          Table.get? n t.flight.answers = some (.result (.ofCompletion c))) ∧
    (∀ e ∈ t.chronicle, e.inTime? grace = none →
      (t.now < e.deadline grace →
        (∃ a, t.flight.get? e.published.id = some a ∧ a.deadline = e.deadline grace) ∧
          ∀ n, e.published.awaits = some n → Table.get? n t.flight.answers = none) ∧
      (e.deadline grace ≤ t.now →
        t.flight.get? e.published.id = none ∧
          ∀ n, e.published.awaits = some n →
            Table.get? n t.flight.answers = some (.result (.timeout e.published.id)))) ∧
    t.flight.counters.timedOut =
      t.chronicle.countP (fun e => (e.inTime? grace).isNone && e.deadline grace ≤ t.now) ∧
    ∀ others, List.Forall₂ Op.Alike ops others →
      (start config store bus mint).run others = t := by
  intro grace t
  have sound : Exact grace t := exact_run (exact_start config store bus supply) ops
  refine ⟨fun _ _ => sound.inFlight, fun e member c inTime => ?_, fun e member late => ⟨?_, ?_⟩,
    sound.timedOut, fun others alike => (run_alike alike _).symm⟩
  · exact sound.settled member (by rw [Entry.ended?, inTime])
  · intro early
    refine sound.opened member ?_
    rw [Entry.ended?, late]
    exact if_neg (Nat.not_le.mpr early)
  · intro due
    refine sound.settled member (?_ : _ = some .timedOut)
    rw [Entry.ended?, late]
    exact if_pos due

/-- A day at the demonstration gateway, whose actions may run for a minute, with a minute of grace:
one activation is completed in time, one too late, and a third is still running. -/
def demoDay : List Op :=
  let completion (n : Nat) : Completion := ⟨counting n, ⟨0⟩, true, false, none⟩
  [.heartbeat ⟨⟨0⟩, ⟨1024, 77, 3, 9⟩, 0, .up⟩, .submit demoRequest 0, .submit demoRequest 0,
    .advance (.ofSecs 100), .complete (completion 0) 0, .bus (.receive "invoker0"),
    .submit demoRequest 0, .advance (.ofSecs 20), .complete (completion 1) 0]

/-- The second has timed out at the end of that day, and the third has not. -/
theorem deadlines_exact_demoDay :
    let t := (start .standard (Standalone.seedAll Standalone.demoActions (.new .standard)).1
      (.new 2) counting).run demoDay
    Function.Injective counting ∧ t.now = .ofMillis 120_000 ∧
      t.chronicle.map (·.published.id) = [counting 0, counting 1, counting 2] ∧
      t.flight.counters.timedOut = 1 ∧
      (∀ e ∈ t.chronicle, e.deadline Config.standard.balancer.grace ≤ t.now →
        e.inTime? Config.standard.balancer.grace = none →
          t.flight.get? e.published.id = none) ∧
      (t.flight.get? (counting 2)).map (·.deadline) = some (.ofMillis 220_000) := by
  intro t
  have exactly := deadlines_exact .standard
    (Standalone.seedAll Standalone.demoActions (.new .standard)).1 (.new 2) counting_injective
    demoDay
  refine ⟨counting_injective, by decide +kernel, by decide +kernel, by decide +kernel, ?_,
    by decide +kernel⟩
  intro e member due late
  exact ((exactly.2.2.1 e member late).2 due).1

end Clocked

end Gateway

end Dispatch
