import Dispatch.Proofs.Moments
import Dispatch.Proofs.Watches

/-!
# Callers who wait

Over the moments of a run, an activation in flight is `Tracked` until its completion or its deadline
resolves it, and the caller who waits for it runs a `Race` with that: the result comes first, or the
end of the caller's patience. `tracked_of_turns` and `race_of_turns` say so for any number of quiet
moments one after the other. `Watch` is what carries the induction: the activation is in flight, and
nobody has answered its caller.
-/

set_option autoImplicit false

namespace Dispatch

open Gateway (Flow)

namespace Simulation

/-! ## Moments that matter -/

/-- Whether a registration has its answer. -/
def isAnswered (n : Nat) (m : Simulation) : Bool :=
  (Table.get? n m.gateway.flight.answers).isSome

/-- Whether a caller still waits. -/
def isWaiting (k : Nat) (m : Simulation) : Bool :=
  match Table.get? k m.calls with
  | some (.waiting _) => true
  | _ => false

/-- The moment at which a registration gets its answer, if it does. -/
def resolution? (n : Nat) (ms : List Simulation) : Option Simulation := ms.find? (isAnswered n)

/-- The moment at which a caller waits no longer, if there is one. -/
def return? (k : Nat) (ms : List Simulation) : Option Simulation := ms.find? (!isWaiting k ·)

/-- What may come of an activation at a time: it times out at its deadline, or has the result of a
completion that may be `taken` before that. -/
inductive EndsWith (taken : Completion → Prop) (now : Instant) (a : Activation) :
    ActivationResult → Prop where
  | timeout (due : now = a.deadline) : EndsWith taken now a (.timeout a.id)
  | completion {c : Completion} (took : taken c) (own : c.id = a.id) (ahead : now < a.deadline) :
      EndsWith taken now a (.ofCompletion c)

/-- An activation is in flight, and its reservation is held. -/
def Holds (a : Activation) (m : Simulation) : Prop :=
  m.gateway.flight.get? a.id = some a ∧ m.gateway.flight.Covered

/-- What becomes of an activation that is waited for under registration `n`. -/
structure Tracked (taken : Completion → Prop) (n : Nat) (a : Activation) (ms : List Simulation) :
    Prop where
  /-- A completion or the deadline resolves it. -/
  resolved : ∀ m, resolution? n ms = some m →
    ∃ r, Table.get? n m.gateway.flight.answers = some (.result r) ∧ EndsWith taken m.now a r
  /-- At the deadline it is resolved. -/
  due : (∃ x ∈ ms, a.deadline ≤ x.now) → (resolution? n ms).isSome
  /-- Until it is resolved it stays in flight, whether or not anyone still waits. -/
  held : ∀ x ∈ ms, isAnswered n x = false → Holds a x

/-- What becomes of call `k`, which waits as `w` says for activation `a`. -/
structure Race (k : Nat) (w : Waiting) (a : Activation) (ms : List Simulation) : Prop where
  /-- If the activation is resolved before the caller's patience ends, the caller gets at that
  moment what it was resolved with. -/
  completed : ∀ m r, resolution? w.number ms = some m →
    Table.get? w.number m.gateway.flight.answers = some (.result r) →
      (∀ l, w.lapse = some l → m.now < l) →
        return? k ms = some m ∧
          Table.get? k m.calls = some (.ended (resultFor w (.completed r)))
  /-- If the patience ends before, the caller gets at that moment the identifier alone, and the
  activation is in flight. -/
  accepted : ∀ l, w.lapse = some l → (∃ x ∈ ms, l ≤ x.now) →
    (∀ m, resolution? w.number ms = some m → l < m.now) →
      ∃ m, return? k ms = some m ∧ m.now = l ∧ isAnswered w.number m = false ∧ Holds a m ∧
        Table.get? k m.calls = some (.ended (resultFor w (.accepted w.id)))
  /-- Otherwise the caller still waits. -/
  waiting : resolution? w.number ms = none → (∀ l, w.lapse = some l → ∀ x ∈ ms, x.now < l) →
    return? k ms = none

variable {s m : Simulation} {ms rest : List Simulation} {done : Op → Prop}
  {taken : Completion → Prop} {n k : Nat} {a : Activation} {w : Waiting} {g : Gateway}

/-! ## Until the activation ends -/

/-- An activation is in flight, and its caller is not answered. -/
structure Watch (n : Nat) (a : Activation) (g : Gateway) : Prop where
  tended : g.Tended
  pending : Table.get? a.id g.flight.pending = some ⟨n, a⟩
  blocking : a.blocking = true

theorem Watch.unanswered (watch : Watch n a m.gateway) : isAnswered n m = false := by
  rw [isAnswered, watch.tended.flight.awaited a.id ⟨n, a⟩ watch.pending]
  rfl

theorem Watch.holds (watch : Watch n a m.gateway) : Holds a m :=
  ⟨InFlight.get?_eq_some_iff.mpr ⟨_, watch.pending, rfl⟩, watch.tended.covered⟩

theorem Watch.due (watch : Watch n a s.gateway) : Due s a.deadline :=
  .timer (watch.tended.flight.armed.own a.id ⟨n, a⟩ watch.pending)

theorem isAnswered_of_get? {x : Answer}
    (answered : Table.get? n m.gateway.flight.answers = some x) : isAnswered n m = true := by
  rw [isAnswered, answered]
  rfl

/-- **An activation stays in flight, or ends by its deadline or a completion.** -/
theorem Watch.next (watch : Watch n a g) (sound : Sound m) (flow : Flow taken m.now g m.gateway)
    (within : m.now ≤ a.deadline) :
    m.gateway.Tended ∧ (Watch n a m.gateway ∧ m.now < a.deadline ∨
      ∃ r, Table.get? n m.gateway.flight.answers = some (.result r) ∧
        EndsWith taken m.now a r) := by
  obtain ⟨tended, course⟩ := flow.course watch.tended
  refine ⟨tended, ?_⟩
  rcases course.watched a.id ⟨n, a⟩ watch.pending with pending | ⟨how, ends, answered⟩
  · exact .inl ⟨⟨tended, pending, watch.blocking⟩,
      sound.quiet.idle.timers _ (tended.flight.armed.own a.id ⟨n, a⟩ pending)⟩
  · have answered := answered watch.blocking
    cases ends with
    | timedOut due =>
        exact .inr ⟨_, answered, .timeout (congrArg Instant.mk (Nat.le_antisymm within due))⟩
    | completed took own ahead => exact .inr ⟨_, answered, .completion took own ahead⟩

theorem turns_answered (tended : s.gateway.Tended) (turns : Turns done s ms) {x : Answer}
    (answered : Table.get? n s.gateway.flight.answers = some x) :
    ∀ m ∈ ms, Table.get? n m.gateway.flight.answers = some x := by
  induction ms generalizing s with
  | nil => exact fun m member => absurd member List.not_mem_nil
  | cons first rest ih =>
      obtain ⟨tended, course⟩ := turns.1.flow.course tended
      have answered := course.answered n x answered
      intro m member
      rcases List.mem_cons.mp member with rfl | later
      · exact answered
      · exact ih tended turns.2 answered m later

theorem turns_le (turns : Turns done s ms) : ∀ m ∈ ms, s.now ≤ m.now := by
  induction ms generalizing s with
  | nil => exact fun m member => absurd member List.not_mem_nil
  | cons first rest ih =>
      intro m member
      rcases List.mem_cons.mp member with rfl | later
      · exact turns.1.le
      · exact Nat.le_trans turns.1.le (ih turns.2 m later)

theorem tracked_nil : Tracked taken n a [] where
  resolved m found := absurd (found : none = some m) (Option.some_ne_none m).symm
  due reached := by
    obtain ⟨x, member, -⟩ := reached
    exact absurd member List.not_mem_nil
  held x member := absurd member List.not_mem_nil

/-- A moment at which nothing has happened to the activation, before others. -/
theorem Tracked.cons_open (tracked : Tracked taken n a rest) (watch : Watch n a m.gateway)
    (ahead : m.now < a.deadline) : Tracked taken n a (m :: rest) := by
  have later : resolution? n (m :: rest) = resolution? n rest :=
    List.find?_cons_of_neg (by rw [watch.unanswered]; nofun)
  refine ⟨fun x resolved => tracked.resolved x (later ▸ resolved), ?_, ?_⟩
  · rintro ⟨x, member, due⟩
    rw [later]
    rcases List.mem_cons.mp member with rfl | after
    · exact absurd ahead (Nat.not_lt.mpr due)
    · exact tracked.due ⟨x, after, due⟩
  · intro x member unanswered
    rcases List.mem_cons.mp member with rfl | after
    · exact watch.holds
    · exact tracked.held x after unanswered

/-- The moment at which the activation ends, before others. -/
theorem tracked_cons_answered {r : ActivationResult}
    (answered : Table.get? n m.gateway.flight.answers = some (.result r))
    (ends : EndsWith taken m.now a r) (after : ∀ x ∈ rest, isAnswered n x = true) :
    Tracked taken n a (m :: rest) := by
  have now : resolution? n (m :: rest) = some m :=
    List.find?_cons_of_pos (isAnswered_of_get? answered)
  refine ⟨?_, fun _ => by rw [now]; rfl, ?_⟩
  · intro x resolved
    rw [now] at resolved
    obtain rfl := Option.some.inj resolved
    exact ⟨r, answered, ends⟩
  · intro x member unanswered
    rcases List.mem_cons.mp member with rfl | later
    · rw [isAnswered_of_get? answered] at unanswered
      cases unanswered
    · rw [after x later] at unanswered
      cases unanswered

/-- The moments after something has become of the activation. -/
theorem Watch.tracked_cons (watch : Watch n a g) (sound : Sound m)
    (flow : Flow taken m.now g m.gateway) (within : m.now ≤ a.deadline) (turns : Turns done m rest)
    (tracked : Watch n a m.gateway → Tracked taken n a rest) : Tracked taken n a (m :: rest) := by
  obtain ⟨tended, ⟨watch, ahead⟩ | ⟨r, answered, ends⟩⟩ := watch.next sound flow within
  · exact (tracked watch).cons_open watch ahead
  · exact tracked_cons_answered answered ends fun x member =>
      isAnswered_of_get? (turns_answered tended turns answered x member)

/-- **An activation in flight is tracked until it ends.** -/
theorem tracked_of_turns (watch : Watch n a s.gateway) (turns : Turns done s ms)
    (le : ∀ c, Taken done s c → taken c) : Tracked taken n a ms := by
  induction ms generalizing s with
  | nil => exact tracked_nil
  | cons m rest ih =>
      exact watch.tracked_cons turns.1.sound (turns.1.flow.mono le) (turns.1.within _ watch.due)
        turns.2 fun watch => ih watch turns.2 fun c took => le c (turns.1.taken took)

theorem Watch.next_open (watch : Watch n a g) (sound : Sound m)
    (flow : Flow taken m.now g m.gateway) (within : m.now ≤ a.deadline)
    (unanswered : isAnswered n m = false) : Watch n a m.gateway := by
  obtain ⟨-, ⟨watch, -⟩ | ⟨r, answered, -⟩⟩ := watch.next sound flow within
  · exact watch
  · rw [isAnswered_of_get? answered] at unanswered
    cases unanswered

/-- An activation that is not resolved is in flight at the end. -/
theorem watch_of_turns (watch : Watch n a s.gateway) (turns : Turns done s ms)
    (unresolved : resolution? n ms = none) : Watch n a (ms.getLastD s).gateway := by
  induction ms generalizing s with
  | nil => exact watch
  | cons m rest ih =>
      have unanswered := List.find?_eq_none.mp unresolved
      rw [List.getLastD_cons]
      refine ih ?_ turns.2 (List.find?_eq_none.mpr fun x member =>
        unanswered x (List.mem_cons_of_mem _ member))
      exact watch.next_open turns.1.sound turns.1.flow (turns.1.within _ watch.due)
        (Bool.eq_false_of_not_eq_true (unanswered m List.mem_cons_self))

/-- **A completion resolves an activation that is in flight.** -/
theorem Watch.complete (watch : Watch n a s.gateway) (sound : Sound s) {c : Completion}
    (own : c.id = a.id) :
    Table.get? n (s.step (.complete c)).gateway.flight.answers =
      some (.result (.ofCompletion c)) := by
  let gateway := (s.gateway.processCompletion c s.calendar).1
  have flow : Flow (Taken (· = .complete c) s) s.now s.gateway gateway :=
    Flow.refl.complete sound.quiet.idle.timers (.inl rfl) s.calendar
  have enters : Enters (· = .complete c) s { s with gateway } :=
    enters_atOnce sound flow (Nat.le_refl _) (fun _ _ _ _ waiting => waiting) s.observed
  obtain ⟨gatewayAfter, tasks, sleepers, settled, -, -, after⟩ :=
    settle_outcome enters.regular enters.ready
  have pending : Table.get? c.id s.gateway.flight.pending = some ⟨n, a⟩ := own ▸ watch.pending
  have answered : Table.get? n gateway.flight.answers = some (.result (.ofCompletion c)) := by
    show Table.get? n (s.gateway.flight.resolve c).1.answers = _
    rw [InFlight.resolve_of_pending pending, InFlight.close_answers, if_pos ⟨rfl, watch.blocking⟩]
    rfl
  show Table.get? n ({ s with gateway } : Simulation).settle.gateway.flight.answers = _
  rw [settled]
  exact (after.course (flow.course watch.tended).1).2.answered n _ answered

/-! ## Until the caller returns -/

/-- A caller whose patience has ended gets the identifier. -/
theorem later_overdue {now l : Instant} (lapse : w.lapse = some l) (overdue : l ≤ now)
    (answers : Table Nat Answer) :
    later now answers (.waiting w) = .ended (resultFor w (.accepted w.id)) := by
  simp only [later, endIfOverdue, lapse, if_pos overdue, endIfAnswered]

/-- A caller with patience left gets the result. -/
theorem later_answered {now : Instant} (patient : ∀ l, w.lapse = some l → now < l)
    {answers : Table Nat Answer} {r : ActivationResult}
    (answered : Table.get? w.number answers = some (.result r)) :
    later now answers (.waiting w) = .ended (resultFor w (.completed r)) := by
  have still := endIfOverdue_eq_waiting_iff.mpr ⟨rfl, patient⟩
  simp only [later, still, endIfAnswered, answered]

theorem isWaiting_of_waiting (waiting : Table.get? k m.calls = some (.waiting w)) :
    isWaiting k m = true := by
  simp only [isWaiting, waiting]

theorem isWaiting_of_ended {r : CallResult} (ended : Table.get? k m.calls = some (.ended r)) :
    isWaiting k m = false := by
  simp only [isWaiting, ended]

/-- A moment at which the caller returns, before others. -/
theorem return?_cons_of_ended {r : CallResult}
    (ended : Table.get? k m.calls = some (.ended r)) : return? k (m :: rest) = some m :=
  List.find?_cons_of_pos (by rw [isWaiting_of_ended ended]; rfl)

theorem race_nil : Race k w a [] where
  completed m _ found := absurd (found : none = some m) (Option.some_ne_none m).symm
  accepted l _ reached := by
    obtain ⟨x, member, -⟩ := reached
    exact absurd member List.not_mem_nil
  waiting _ _ := rfl

theorem race_cons_completed {r : ActivationResult}
    (answered : Table.get? w.number m.gateway.flight.answers = some (.result r))
    (patient : ∀ l, w.lapse = some l → m.now < l)
    (call : Table.get? k m.calls =
      some (later m.now m.gateway.flight.answers (.waiting w))) : Race k w a (m :: rest) := by
  have now : resolution? w.number (m :: rest) = some m :=
    List.find?_cons_of_pos (isAnswered_of_get? answered)
  rw [later_answered patient answered] at call
  refine ⟨?_, ?_, ?_⟩
  · intro x other resolved answeredToo _
    rw [now] at resolved
    obtain rfl := Option.some.inj resolved
    rw [answered] at answeredToo
    obtain rfl := Answer.result.inj (Option.some.inj answeredToo)
    exact ⟨return?_cons_of_ended call, call⟩
  · intro l lapse _ late
    exact absurd (patient l lapse) (Nat.lt_asymm (late m now))
  · intro unresolved
    rw [now] at unresolved
    cases unresolved

theorem race_cons_accepted (tracked : Tracked taken w.number a (m :: rest)) {l : Instant}
    (lapse : w.lapse = some l) (overdue : m.now = l) (times : ∀ x ∈ rest, m.now ≤ x.now)
    (call : Table.get? k m.calls =
      some (later m.now m.gateway.flight.answers (.waiting w))) : Race k w a (m :: rest) := by
  rw [later_overdue lapse (Nat.le_of_eq (congrArg Instant.nanos overdue.symm))] at call
  have own : ∀ {l'}, w.lapse = some l' → l' = m.now := by
    intro l' lapseToo
    rw [lapse] at lapseToo
    rw [← Option.some.inj lapseToo, overdue]
  refine ⟨?_, ?_, ?_⟩
  · intro x r resolved _ early
    have member := List.mem_of_find?_eq_some resolved
    have after : m.now ≤ x.now := by
      rcases List.mem_cons.mp member with rfl | later
      · exact Nat.le_refl _
      · exact times x later
    have before : x.now < l := early l lapse
    rw [← overdue] at before
    exact absurd after (Nat.not_le.mpr before)
  · intro l' lapseToo _ late
    obtain rfl := own lapseToo
    have unanswered : isAnswered w.number m = false := by
      by_contra answered
      have now : resolution? w.number (m :: rest) = some m :=
        List.find?_cons_of_pos (Bool.not_eq_false _ ▸ answered)
      exact absurd (late m now) (Nat.lt_irrefl _)
    exact ⟨m, return?_cons_of_ended call, rfl, unanswered,
      tracked.held m List.mem_cons_self unanswered, call⟩
  · intro _ early
    exact absurd (early _ lapse m List.mem_cons_self) (by rw [overdue]; exact Nat.lt_irrefl _)

/-- A moment at which the caller still waits, before others. -/
theorem Race.cons_waiting (race : Race k w a rest) (unanswered : isAnswered w.number m = false)
    (patient : ∀ l, w.lapse = some l → m.now < l)
    (waiting : Table.get? k m.calls = some (.waiting w)) : Race k w a (m :: rest) := by
  have resolved : resolution? w.number (m :: rest) = resolution? w.number rest :=
    List.find?_cons_of_neg (by rw [unanswered]; nofun)
  have returned : return? k (m :: rest) = return? k rest :=
    List.find?_cons_of_neg (by rw [isWaiting_of_waiting waiting]; nofun)
  refine ⟨?_, ?_, ?_⟩
  · intro x r
    rw [resolved, returned]
    exact race.completed x r
  · intro l lapse reached
    rw [resolved, returned]
    refine race.accepted l lapse ?_
    obtain ⟨x, member, passed⟩ := reached
    rcases List.mem_cons.mp member with rfl | later
    · exact absurd (patient l lapse) (Nat.not_lt.mpr passed)
    · exact ⟨x, later, passed⟩
  · rw [resolved, returned]
    intro unresolved early
    exact race.waiting unresolved fun l lapse x member =>
      early l lapse x (List.mem_cons_of_mem _ member)

/-- The moments after something has become of the activation and of the call. -/
theorem Watch.race_cons (watch : Watch w.number a g) (sound : Sound m)
    (flow : Flow taken m.now g m.gateway) (within : m.now ≤ a.deadline)
    (patient : ∀ l, w.lapse = some l → m.now ≤ l)
    (call : Table.get? k m.calls = some (later m.now m.gateway.flight.answers (.waiting w)))
    (turns : Turns done m rest)
    (race : Watch w.number a m.gateway → Table.get? k m.calls = some (.waiting w) →
      Race k w a rest) : Race k w a (m :: rest) := by
  have tracked : Tracked (fun _ => True) w.number a (m :: rest) :=
    watch.tracked_cons sound (flow.mono fun _ _ => trivial) within turns fun watch =>
      tracked_of_turns watch turns fun _ _ => trivial
  by_cases lapsed : ∃ l, w.lapse = some l ∧ m.now = l
  · obtain ⟨l, lapse, overdue⟩ := lapsed
    exact race_cons_accepted tracked lapse overdue (turns_le turns) call
  · have patient : ∀ l, w.lapse = some l → m.now < l := fun l lapse =>
      Nat.lt_of_le_of_ne (patient l lapse) fun same =>
        lapsed ⟨l, lapse, congrArg Instant.mk same⟩
    obtain ⟨-, ⟨watch, -⟩ | ⟨r, answered, -⟩⟩ := watch.next sound flow within
    · have unanswered := watch.tended.flight.awaited a.id _ watch.pending
      rw [later_eq_waiting_iff.mpr ⟨rfl, patient, unanswered⟩] at call
      exact (race watch call).cons_waiting watch.unanswered patient call
    · exact race_cons_completed answered patient call

/-- **A caller who waits gets the result, or nothing but the identifier.** -/
theorem race_of_turns (watch : Watch w.number a s.gateway)
    (waiting : Table.get? k s.calls = some (.waiting w)) (own : k < s.called)
    (kept : ¬ done (.cancel k)) (turns : Turns done s ms) : Race k w a ms := by
  induction ms generalizing s with
  | nil => exact race_nil
  | cons m rest ih =>
      refine watch.race_cons turns.1.sound turns.1.flow (turns.1.within _ watch.due)
        (fun l lapse => turns.1.within _ (.lapse (Table.mem_of_get? waiting) lapse))
        (turns.1.calls k own kept w waiting) turns.2 fun watch waiting => ?_
      exact ih watch waiting (Nat.lt_of_lt_of_le own turns.1.called) turns.2

end Simulation

end Dispatch
