import Dispatch.Proofs.Settling

/-!
# From one moment to the next

In a `Quiet` moment nothing is due and no caller who waits could be answered. Whatever happens leads
to one (`settle_outcome`), and there everything stays as it is (`settle_of_quiet`). `Turn` is the
step from a quiet moment to the next: nothing was due in between, the gateway went along a `Flow` on
which no completions came but those that may be `Taken`, and a call that waits became what the
answers and the time make of it (`later`). The clock stops wherever something is due
(`turn_arrive`), so an advance of the clock is a list of `Turns` (`turns_advance`).
-/

set_option autoImplicit false

namespace Dispatch

namespace Gateway

/-! ## Timers in order -/

theorem insertTimer_sorted {timers : List Timer} (t : Timer)
    (sorted : timers.Pairwise fun t u => t.due ≤ u.due) :
    (InFlight.insertTimer t timers).Pairwise fun t u => t.due ≤ u.due := by
  induction timers with
  | nil => exact List.pairwise_singleton _ _
  | cons u rest ih =>
      obtain ⟨first, sortedRest⟩ := List.pairwise_cons.mp sorted
      rw [InFlight.insertTimer]
      split
      · rename_i earlier
        have le : t.due ≤ u.due := Nat.le_of_lt earlier
        refine List.pairwise_cons.mpr ⟨fun v member => ?_, sorted⟩
        rcases List.mem_cons.mp member with rfl | later
        · exact le
        · exact Nat.le_trans le (first v later)
      · rename_i later
        refine List.pairwise_cons.mpr ⟨fun v member => ?_, ih sortedRest⟩
        rcases InFlight.mem_insertTimer.mp member with rfl | behind
        · exact Nat.not_lt.mp later
        · exact first v behind

theorem attempt_timers {f g : InFlight} {id : ActivationId} (attempt : InFlight.Attempt f id g) :
    g.timers.Sublist f.timers := by
  cases attempt with
  | closed pending how =>
      simp only [InFlight.close]
      split
      · exact List.filter_sublist
      · exact List.Sublist.refl _
  | missed => exact List.Sublist.refl _

/-- The timers are in order. -/
def Sorted (g : Gateway) : Prop := g.flight.timers.Pairwise fun t u => t.due ≤ u.due

theorem sorted_enlist {g enlisted : Gateway} (sorted : Sorted g) {r : Request} {a : Action}
    {invoker : InvokerId} {now : Instant} (enlist : g.enlist r a invoker now = some enlisted) :
    Sorted enlisted := by
  obtain ⟨deadline, -, rfl⟩ := enlist_eq_some enlist
  exact insertTimer_sorted _ (sorted.sublist (attempt_timers (InFlight.attempt_replaced _ _)))

theorem sorted_submit {g : Gateway} (sorted : Sorted g) (r : Request) (now : Instant)
    (calendar : UInt64) : Sorted (g.submit r now calendar).1 := by
  have outcome := submit_outcome g r now calendar
  generalize (g.submit r now calendar).1 = after, (g.submit r now calendar).2 = result at outcome ⊢
  cases outcome with
  | unknown | overloaded | unnamed => exact sorted
  | @unpublished a slot enlisted _ _ _ enlist _ =>
      have kept : Sorted enlisted :=
        sorted_enlist (g := g.refreshed.reserved slot.id a.limits.memory) sorted enlist
      have withdrawn := attempt_timers (InFlight.attempt_abandon enlisted.flight (g.mint g.minted))
      exact kept.sublist withdrawn
  | @published a slot enlisted _ _ _ enlist _ =>
      have kept : Sorted enlisted :=
        sorted_enlist (g := g.refreshed.reserved slot.id a.limits.memory) sorted enlist
      exact kept

theorem plain_flight (g : Gateway) {e : Event} (plain : e.isPlain = true) :
    (g.step e).flight.timers = g.flight.timers := by
  cases e with
  | heartbeat h now => exact Simulation.heartbeat_timers g h now
  | remove id =>
      simp only [step, removeInvoker]
      split <;> rfl
  | sweep | list | store | bus => rfl
  | submit | complete | elapse | expire => cases plain

theorem Flow.sorted {taken : Completion → Prop} {now : Instant} {g h : Gateway}
    (flow : Flow taken now g h) (sorted : Sorted g) : Sorted h := by
  induction flow with
  | refl => exact sorted
  | elapse _ ih => exact ih.sublist (Simulation.fireDue_timers _ _).1
  | @complete _ _ _ c _ _ ih => exact ih.sublist (Simulation.resolve_timers _ c)
  | submit _ r calendar ih => exact sorted_submit ih r now calendar
  | @plain h _ e plain ih =>
      unfold Sorted
      rw [plain_flight h plain]
      exact ih
  | bus _ _ ih => exact ih

end Gateway

namespace Simulation

open Gateway (Flow)

variable {s : Simulation}

/-! ## Quiet moments -/

/-- Nothing is due, and no caller who waits could be answered. -/
structure Quiet (s : Simulation) : Prop where
  idle : Idle s
  patient : ∀ k w, (k, .waiting w) ∈ s.calls → ∀ l, w.lapse = some l → s.now < l
  unanswered : ∀ k w, (k, .waiting w) ∈ s.calls →
    Table.get? w.number s.gateway.flight.answers = none

/-- What a simulation keeps from one moment to the next. -/
structure Sound (s : Simulation) : Prop where
  quiet : Quiet s
  regular : Regular s

theorem sound_new (gateway : Gateway) (timer : SleepTimer) (fresh : gateway.flight.timers = []) :
    Sound (.new gateway timer) where
  quiet :=
    { idle := ⟨by simp [new, fresh], nofun, nofun, nofun⟩
      patient := nofun
      unanswered := nofun }
  regular := ⟨by simp [new, fresh], Table.distinct_nil, nofun⟩

/-- What becomes of a call when everything has happened. -/
def later (now : Instant) (answers : Table Nat Answer) (c : Call) : Call :=
  endIfAnswered answers (endIfOverdue now c)

theorem endIfOverdue_eq_waiting_iff {now : Instant} {c : Call} {w : Waiting} :
    endIfOverdue now c = .waiting w ↔ c = .waiting w ∧ ∀ l, w.lapse = some l → now < l := by
  cases c with
  | ended r => simp [endIfOverdue]
  | waiting v =>
      cases lapse : v.lapse with
      | none =>
          simp only [endIfOverdue, lapse, Call.waiting.injEq]
          refine ⟨fun same => ⟨same, fun l named => ?_⟩, fun same => same.1⟩
          rw [← same, lapse] at named
          cases named
      | some l =>
          simp only [endIfOverdue, lapse]
          by_cases overdue : l ≤ now
          · rw [if_pos overdue]
            refine iff_of_false nofun ?_
            rintro ⟨same, patient⟩
            obtain rfl := Call.waiting.inj same
            exact absurd (patient l lapse) (Nat.not_lt.mpr overdue)
          · rw [if_neg overdue]
            refine ⟨fun same => ⟨same, fun t named => ?_⟩, fun same => same.1⟩
            rw [← Call.waiting.inj same, lapse] at named
            rw [← Option.some.inj named]
            exact Nat.not_le.mp overdue

theorem endIfAnswered_eq_waiting_iff {answers : Table Nat Answer} {c : Call} {w : Waiting} :
    endIfAnswered answers c = .waiting w ↔
      c = .waiting w ∧ Table.get? w.number answers = none := by
  cases c with
  | ended r => simp [endIfAnswered]
  | waiting v =>
      cases answer : Table.get? v.number answers with
      | none =>
          simp only [endIfAnswered, answer]
          refine ⟨fun same => ⟨same, ?_⟩, fun same => same.1⟩
          rw [← Call.waiting.inj same, answer]
      | some a =>
          have apart : ¬ (Call.waiting v = .waiting w ∧ Table.get? w.number answers = none) := by
            rintro ⟨same, none⟩
            rw [← Call.waiting.inj same, answer] at none
            cases none
          simp only [endIfAnswered, answer]
          cases a <;> exact iff_of_false (fun same => by cases same) apart

theorem later_eq_waiting_iff {now : Instant} {answers : Table Nat Answer} {c : Call} {w : Waiting} :
    later now answers c = .waiting w ↔
      c = .waiting w ∧ (∀ l, w.lapse = some l → now < l) ∧ Table.get? w.number answers = none := by
  rw [later, endIfAnswered_eq_waiting_iff, endIfOverdue_eq_waiting_iff, and_assoc]

/-- **Whatever happens leads to a quiet moment.** -/
theorem settle_outcome (regular : Regular s) (ready : Ready s) :
    ∃ gateway tasks sleepers, s.settle = { s with
        gateway, tasks, sleepers
        calls := s.calls.map fun (k, c) => (k, later s.now gateway.flight.answers c) } ∧
      Sound s.settle ∧ (s.settle.Consuming → s.Consuming) ∧
      Flow (fun _ => s.Consuming) s.now s.gateway gateway := by
  obtain ⟨gateway, tasks, sleepers, proceeded, idle, regularAfter, consuming, flow⟩ :=
    proceed_outcome (s := s.modifyCalls (endIfOverdue s.now)) ⟨regular.sorted, regular.distinct,
      regular.own⟩ ready
  have settled : s.settle = { s with
      gateway, tasks, sleepers
      calls := s.calls.map fun (k, c) => (k, later s.now gateway.flight.answers c) } := by
    rw [settle_eq, proceeded]
    simp only [modifyCalls, List.map_map]
    rfl
  have waits : ∀ k w, (k, .waiting w) ∈ s.settle.calls →
      (∀ l, w.lapse = some l → s.now < l) ∧
        Table.get? w.number gateway.flight.answers = none := by
    intro k w member
    rw [settled] at member
    obtain ⟨⟨k, c⟩, -, same⟩ := List.mem_map.mp member
    exact (later_eq_waiting_iff.mp (Prod.mk.inj same).2).2
  refine ⟨gateway, tasks, sleepers, settled, ⟨⟨?_, ?_, ?_⟩, ?_⟩, ?_, flow⟩
  · rw [settled]
    exact ⟨idle.timers, idle.beats, idle.taken, idle.asleep⟩
  · intro k w member
    rw [settled] at member ⊢
    exact (waits k w (by rw [settled]; exact member)).1
  · intro k w member
    rw [settled] at member ⊢
    exact (waits k w (by rw [settled]; exact member)).2
  · rw [settled]
    exact ⟨regularAfter.sorted, regularAfter.distinct, regularAfter.own⟩
  · rw [settled]
    exact consuming

theorem settle_now (regular : Regular s) (ready : Ready s) : s.settle.now = s.now := by
  obtain ⟨gateway, tasks, sleepers, settled, -⟩ := settle_outcome regular ready
  rw [settled]

theorem modifyCalls_of_fixed {f : Call → Call} (fixed : ∀ k c, (k, c) ∈ s.calls → f c = c) :
    s.modifyCalls f = s := by
  have same : s.calls.map (fun (k, c) => (k, f c)) = s.calls :=
    (List.map_congr_left fun entry member =>
      congrArg (Prod.mk entry.1) (fixed entry.1 entry.2 member)).trans (List.map_id _)
  rw [modifyCalls, same]

/-- **A quiet simulation stays as it is.** -/
theorem settle_of_quiet (quiet : Quiet s) : s.settle = s := by
  have patient : s.modifyCalls (endIfOverdue s.now) = s := by
    refine modifyCalls_of_fixed fun k c member => ?_
    cases c with
    | ended r => rfl
    | waiting w => exact endIfOverdue_eq_waiting_iff.mpr ⟨rfl, quiet.patient k w member⟩
  have answered : s.modifyCalls (endIfAnswered s.gateway.flight.answers) = s := by
    refine modifyCalls_of_fixed fun k c member => ?_
    cases c with
    | ended r => rfl
    | waiting w => exact endIfAnswered_eq_waiting_iff.mpr ⟨rfl, quiet.unanswered k w member⟩
  rw [settle_eq]
  simp only [patient, proceed_of_idle quiet.idle, answered]

/-! ## What is due -/

/-- Something of the simulation is due at that time. -/
inductive Due (s : Simulation) : Instant → Prop where
  | timer {t : Timer} (there : t ∈ s.gateway.flight.timers) : Due s t.due
  | lapse {k : Nat} {w : Waiting} {l : Instant} (there : (k, .waiting w) ∈ s.calls)
      (lapse : w.lapse = some l) : Due s l
  | beat {topic : String} {i : SimulatedInvoker} (there : (topic, .invoker i) ∈ s.tasks) :
      Due s i.nextHeartbeat
  | sleeper {d : Sleeper} (there : d ∈ s.sleepers) : Due s d.due

/-- `first` is the first of the times that satisfy `p`, if there is one. -/
structure Earliest (first : Option Instant) (p : Instant → Prop) : Prop where
  attained : ∀ t, first = some t → p t
  least : ∀ d, p d → ∃ t, first = some t ∧ t ≤ d

theorem Earliest.not_of_none {p : Instant → Prop} (earliest : Earliest none p) (d : Instant) :
    ¬ p d := fun holds => by
  obtain ⟨t, impossible, -⟩ := earliest.least d holds
  cases impossible

theorem Earliest.le {p : Instant → Prop} {t d : Instant} (earliest : Earliest (some t) p)
    (holds : p d) : t ≤ d := by
  obtain ⟨first, same, le⟩ := earliest.least d holds
  rwa [Option.some.inj same]

theorem earliest_earlier? {first : Option Instant} {p : Instant → Prop}
    (earliest : Earliest first p) (other : Option Instant) :
    Earliest (earlier? first other) fun d => p d ∨ other = some d := by
  cases first with
  | none =>
      exact ⟨fun t same => .inr same,
        fun d either => ⟨d, either.resolve_left (earliest.not_of_none d), Nat.le_refl _⟩⟩
  | some a =>
      cases other with
      | none =>
          exact ⟨fun t same => .inl (earliest.attained t same),
            fun d either => earliest.least d (either.resolve_right nofun)⟩
      | some b =>
          constructor
          · intro t same
            obtain rfl := Option.some.inj same
            split
            · exact .inr rfl
            · exact .inl (earliest.attained a rfl)
          · intro d either
            refine ⟨_, rfl, ?_⟩
            split
            · rename_i sooner
              rcases either with holds | same
              · exact Nat.le_trans (Nat.le_of_lt sooner) (earliest.le holds)
              · rw [Option.some.inj same]
                exact Nat.le_refl _
            · rename_i notSooner
              rcases either with holds | same
              · exact earliest.le holds
              · rw [← Option.some.inj same]
                exact Nat.not_lt.mp notSooner

theorem earliest_foldl (others : List (Option Instant)) {first : Option Instant}
    {p : Instant → Prop} (earliest : Earliest first p) :
    Earliest (others.foldl earlier? first) fun d => p d ∨ some d ∈ others := by
  induction others generalizing first p with
  | nil => simpa using earliest
  | cons other rest ih =>
      have both := ih (earliest_earlier? earliest other)
      refine ⟨fun t same => ?_, fun d either => both.least d ?_⟩
      · rcases both.attained t same with (holds | own) | later
        · exact .inl holds
        · exact .inr (own ▸ List.mem_cons_self)
        · exact .inr (List.mem_cons_of_mem _ later)
      · rcases either with holds | member
        · exact .inl (.inl holds)
        · rcases List.mem_cons.mp member with own | later
          · exact .inl (.inr own.symm)
          · exact .inr later

/-- **The next due time is the first time at which something is due.** -/
theorem earliest_nextDue? (sorted : s.gateway.flight.timers.Pairwise fun t u => t.due ≤ u.due) :
    Earliest s.nextDue? (Due s) := by
  have timers : Earliest s.gateway.flight.nextDue? fun d =>
      ∃ t ∈ s.gateway.flight.timers, t.due = d := by
    unfold InFlight.nextDue?
    cases armed : s.gateway.flight.timers with
    | nil => exact ⟨nofun, by rintro d ⟨t, there, -⟩; cases there⟩
    | cons first rest =>
        rw [armed] at sorted
        refine ⟨fun t same => ⟨first, List.mem_cons_self, Option.some.inj same⟩, ?_⟩
        rintro d ⟨t, there, rfl⟩
        refine ⟨first.due, rfl, ?_⟩
        rcases List.mem_cons.mp there with rfl | later
        · exact Nat.le_refl _
        · exact (List.pairwise_cons.mp sorted).1 t later
  have all := earliest_foldl (s.calls.map (callDue? ·.2) ++ s.tasks.map (taskDue? ·.2) ++
    s.sleepers.map (some ·.due)) timers
  have exhausted : ∀ d, Due s d ↔ (∃ t ∈ s.gateway.flight.timers, t.due = d) ∨
      some d ∈ s.calls.map (callDue? ·.2) ++ s.tasks.map (taskDue? ·.2) ++
        s.sleepers.map (some ·.due) := by
    intro d
    simp only [List.mem_append, List.mem_map]
    constructor
    · rintro (there | ⟨there, lapse⟩ | there | there)
      · exact .inl ⟨_, there, rfl⟩
      · exact .inr (.inl (.inl ⟨_, there, lapse⟩))
      · exact .inr (.inl (.inr ⟨_, there, rfl⟩))
      · exact .inr (.inr ⟨_, there, rfl⟩)
    · rintro (⟨t, there, rfl⟩ | (⟨⟨k, c⟩, there, same⟩ | ⟨⟨topic, t⟩, there, same⟩) |
        ⟨sleeper, there, same⟩)
      · exact .timer there
      · cases c with
        | waiting w => exact .lapse there same
        | ended r => cases same
      · cases t with
        | invoker i =>
            obtain rfl := Option.some.inj same
            exact .beat there
        | consumer | idle => cases same
      · obtain rfl := Option.some.inj same
        exact .sleeper there
  exact ⟨fun t same => (exhausted t).mpr (all.attained t same),
    fun d due => all.least d ((exhausted d).mp due)⟩

/-- In a quiet moment whatever is due is ahead. -/
theorem Quiet.ahead (quiet : Quiet s) {d : Instant} (due : Due s d) : s.now < d := by
  cases due with
  | timer there => exact quiet.idle.timers _ there
  | lapse there lapse => exact quiet.patient _ _ there _ lapse
  | beat there => exact quiet.idle.beats _ _ there
  | sleeper there => exact quiet.idle.asleep _ there

/-- Where there is no next due time, nothing is due. -/
theorem Sound.not_due (sound : Sound s) (none : s.nextDue? = none) (d : Instant) : ¬ Due s d := by
  have earliest := earliest_nextDue? sound.regular.sorted
  rw [none] at earliest
  exact earliest.not_of_none d

/-- The next due time is ahead, and the first at which something is due. -/
theorem Sound.next (sound : Sound s) {t : Instant} (next : s.nextDue? = some t) :
    s.now < t ∧ Due s t ∧ ∀ d, Due s d → t ≤ d := by
  have earliest := earliest_nextDue? sound.regular.sorted
  rw [next] at earliest
  have due := earliest.attained t rfl
  exact ⟨sound.quiet.ahead due, due, fun _ => earliest.le⟩

/-! ## Moments -/

/-- The completions that may be taken in when some operations are done: those that come by an
operation, and where somebody consumes completions, any. -/
def Taken (done : Op → Prop) (s : Simulation) (c : Completion) : Prop :=
  done (.complete c) ∨ done (.startConsumer Completion.topic) ∨ s.Consuming

/-- `x` is `s` after something was done to it, or after time has passed; nothing was due before.
Only calls that are dropped go away while they wait. -/
structure Enters (done : Op → Prop) (s x : Simulation) : Prop where
  le : s.now ≤ x.now
  within : ∀ d, Due s d → x.now ≤ d
  regular : Regular x
  ready : Ready x
  flow : Flow (Taken done s) x.now s.gateway x.gateway
  consuming : x.Consuming → done (.startConsumer Completion.topic) ∨ s.Consuming
  called : s.called ≤ x.called
  calls : ∀ k < s.called, ¬ done (.cancel k) → ∀ w, Table.get? k s.calls = some (.waiting w) →
    Table.get? k x.calls = some (.waiting w)

/-- `m` is the next quiet moment after `s`. -/
structure Turn (done : Op → Prop) (s m : Simulation) : Prop where
  sound : Sound m
  le : s.now ≤ m.now
  within : ∀ d, Due s d → m.now ≤ d
  flow : Flow (Taken done s) m.now s.gateway m.gateway
  consuming : m.Consuming → done (.startConsumer Completion.topic) ∨ s.Consuming
  called : s.called ≤ m.called
  calls : ∀ k < s.called, ¬ done (.cancel k) → ∀ w, Table.get? k s.calls = some (.waiting w) →
    Table.get? k m.calls = some (later m.now m.gateway.flight.answers (.waiting w))

variable {done : Op → Prop}

/-- What may be taken in after a turn may be taken in before it. -/
theorem Turn.taken {m : Simulation} (turn : Turn done s m) {c : Completion}
    (took : Taken done m c) : Taken done s c := by
  rcases took with own | started | consuming
  · exact .inl own
  · exact .inr (.inl started)
  · exact .inr (turn.consuming consuming)

theorem turn_settle {x : Simulation} (enters : Enters done s x) : Turn done s x.settle := by
  obtain ⟨gateway, tasks, sleepers, settled, sound, consuming, flow⟩ :=
    settle_outcome enters.regular enters.ready
  refine ⟨sound, ?_, ?_, ?_, fun consumed => enters.consuming (consuming consumed), ?_, ?_⟩ <;>
    rw [settled]
  · exact enters.le
  · exact enters.within
  · exact enters.flow.trans (flow.mono fun _ consumed => .inr (enters.consuming consumed))
  · exact enters.called
  · intro k early kept w waiting
    show Table.get? k (x.calls.map _) = _
    rw [Table.get?_map, enters.calls k early kept w waiting, Option.map_some]

theorem turn_quiet {x : Simulation} (enters : Enters done s x) (quiet : Quiet x) :
    Turn done s x := by
  have turn := turn_settle enters
  rwa [settle_of_quiet quiet] at turn

/-- What is done at once to the gateway and the calls. -/
theorem enters_atOnce (sound : Sound s) {gateway : Gateway}
    (flow : Flow (Taken done s) s.now s.gateway gateway) {calls : Table Nat Call} {called : Nat}
    (le : s.called ≤ called)
    (kept : ∀ k < s.called, ¬ done (.cancel k) → ∀ w, Table.get? k s.calls = some (.waiting w) →
      Table.get? k calls = some (.waiting w)) (observed : List String) :
    Enters done s { s with gateway, calls, called, observed } where
  le := Nat.le_refl _
  within _ due := Nat.le_of_lt (sound.quiet.ahead due)
  regular := ⟨flow.sorted sound.regular.sorted, sound.regular.distinct, sound.regular.own⟩
  ready topic i member := Nat.le_of_lt (sound.quiet.idle.beats topic i member)
  flow := flow
  consuming := .inr
  called := le
  calls := kept

/-- Time passes until the next thing is due, at most. -/
theorem enters_clock (sound : Sound s) {t : Instant} (le : s.now ≤ t)
    (within : ∀ d, Due s d → t ≤ d) : Enters done s { s with now := t } where
  le := le
  within := within
  regular := ⟨sound.regular.sorted, sound.regular.distinct, sound.regular.own⟩
  ready _ _ member := within _ (.beat member)
  flow := .refl
  consuming := .inr
  called := Nat.le_refl _
  calls _ _ _ _ waiting := waiting

/-! ## Time -/

/-- The moment at which something is due. -/
def arrive (t : Instant) (s : Simulation) : Simulation := { s with now := t }.settle

/-- The moments from one due time to the next, up to `target`. -/
def stops (target : Instant) : Nat → Simulation → List Simulation
  | 0, _ => []
  | fuel + 1, s =>
    match s.nextDue? with
    | none => []
    | some t => if t ≤ target then s.arrive t :: stops target fuel (s.arrive t) else []

/-- Each of the moments is the next one. -/
def Turns (done : Op → Prop) : Simulation → List Simulation → Prop
  | _, [] => True
  | s, m :: rest => Turn done s m ∧ Turns done m rest

theorem Turns.append {s : Simulation} {first second : List Simulation}
    (before : Turns done s first) (after : Turns done (first.getLastD s) second) :
    Turns done s (first ++ second) := by
  induction first generalizing s with
  | nil => exact after
  | cons m rest ih =>
      refine ⟨before.1, ih before.2 ?_⟩
      rwa [List.getLastD_cons] at after

theorem Turns.sound {s : Simulation} {ms : List Simulation} (turns : Turns done s ms)
    (sound : Sound s) : Sound (ms.getLastD s) := by
  induction ms generalizing s with
  | nil => exact sound
  | cons m rest ih =>
      rw [List.getLastD_cons]
      exact ih turns.2 turns.1.sound

theorem arrive_eq (sound : Sound s) {t : Instant} (due : s.nextDue? = some t) :
    { s with now := if t < s.now then s.now else t }.settle = s.arrive t := by
  have notBefore : ¬ t < s.now := Nat.not_lt.mpr (Nat.le_of_lt (sound.next due).1)
  rw [if_neg notBefore, arrive]

theorem enters_arrive (sound : Sound s) {t : Instant} (due : s.nextDue? = some t) :
    Enters done s { s with now := t } := by
  obtain ⟨ahead, -, first⟩ := sound.next due
  exact enters_clock sound (Nat.le_of_lt ahead) first

/-- **The next due time is a moment, later than this one.** -/
theorem turn_arrive (done : Op → Prop) (sound : Sound s) {t : Instant}
    (due : s.nextDue? = some t) :
    Turn done s (s.arrive t) ∧ (s.arrive t).now = t ∧ s.now < t := by
  have enters : Enters done s { s with now := t } := enters_arrive sound due
  exact ⟨turn_settle enters, settle_now enters.regular enters.ready, (sound.next due).1⟩

/-- There is a step to the next due time if it is not behind the target. -/
theorem runTo_succ (sound : Sound s) {t target : Instant} (due : s.nextDue? = some t) (fuel : Nat) :
    runTo target (fuel + 1) s = if t ≤ target then runTo target fuel (s.arrive t) else s := by
  simp only [runTo, due, arrive_eq sound due]

/-- **Going up to a target goes from stop to stop, and nothing is due before it any more.** -/
theorem runTo_outcome (done : Op → Prop) (sound : Sound s) {target : Instant}
    (le : s.now ≤ target) {fuel : Nat} (enough : target.nanos < s.now.nanos + fuel) :
    Turns done s (stops target fuel s) ∧
      runTo target fuel s = (stops target fuel s).getLastD s ∧
      Sound (runTo target fuel s) ∧ (runTo target fuel s).now ≤ target ∧
      ∀ d, Due (runTo target fuel s) d → target < d := by
  induction fuel generalizing s with
  | zero => exact absurd (Nat.lt_of_le_of_lt le enough) (Nat.lt_irrefl _)
  | succ fuel ih =>
      cases due : s.nextDue? with
      | none =>
          simp only [runTo, stops, due]
          exact ⟨trivial, rfl, sound, le, fun d dueToo => absurd dueToo (sound.not_due due d)⟩
      | some t =>
          rw [runTo_succ sound due]
          simp only [stops, due]
          by_cases near : t ≤ target
          · obtain ⟨turn, clock, ahead⟩ := turn_arrive done sound due
            have enoughLater : target.nanos < (s.arrive t).now.nanos + fuel := by
              have further : s.now.nanos < t.nanos := ahead
              rw [clock]
              omega
            rw [if_pos near, if_pos near]
            obtain ⟨turns, last, soundLast, leLast, later⟩ :=
              ih turn.sound (by rw [clock]; exact near) enoughLater
            refine ⟨⟨turn, turns⟩, ?_, soundLast, leLast, later⟩
            rw [last, List.getLastD_cons]
          · rw [if_neg near, if_neg near]
            exact ⟨trivial, rfl, sound, le, fun d dueToo =>
              Nat.lt_of_lt_of_le (Nat.not_le.mp near) ((sound.next due).2.2 d dueToo)⟩

/-- The moments of an advance of the clock. -/
def advanceMoments (s : Simulation) (span : Duration) : List Simulation :=
  stops ⟨s.now.nanos + span.nanos⟩ (span.nanos + 1) s ++ [s.advance span]

/-- **An advance of the clock goes from moment to moment.** -/
theorem turns_advance (sound : Sound s) (span : Duration) :
    Turns done s (s.advanceMoments span) := by
  have le : s.now ≤ ⟨s.now.nanos + span.nanos⟩ := Nat.le_add_right _ _
  have enough : s.now.nanos + span.nanos < s.now.nanos + (span.nanos + 1) := Nat.lt_succ_self _
  obtain ⟨turns, last, soundLast, le, later⟩ := runTo_outcome done sound le enough
  refine turns.append ⟨?_, trivial⟩
  rw [← last]
  exact turn_settle (enters_clock soundLast le fun d due => Nat.le_of_lt (later d due))

end Simulation

end Dispatch
