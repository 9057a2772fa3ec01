import Dispatch.Proofs.FleetHealth
import Mathlib.Data.List.TakeWhile

/-!
# Runs of the health monitor

`Event` is what can happen to a monitor: heartbeats, sweeps, removals, and activations of users
that end. Times are given with each event and need not grow, and a sweep may visit the invokers in
any order. Whatever happens is a series of trackers replaced one after the other (`Moves`), and
`tracker?_step` says what it does to the tracker of one invoker.

An invoker's `own` part of a run is what its heartbeats, its removals, its users and the sweeps
do. `tracker?_run` says that its tracker follows that part and nothing else; so the whole monitor
shows of an invoker what a single tracker shows that is driven by this part alone
(`health_of_own_part`).
-/

set_option autoImplicit false

namespace Dispatch

/-! ## Runs of one tracker -/

namespace HeartbeatTracker

/-- What can happen to a tracker. -/
inductive Event where
  | beat (status : InvokerStatus) (now : Instant)
  | evaluate (now : Instant)
  | takeOffline
  | userAction (time : UInt64)
deriving DecidableEq

def step (t : HeartbeatTracker) : Event → HeartbeatTracker
  | .beat status now => t.beat now status
  | .evaluate now => t.evaluate now
  | .takeOffline => t.takeOffline
  | .userAction time => t.recordUserAction time

def run (t : HeartbeatTracker) (events : List Event) : HeartbeatTracker := events.foldl step t

def Event.isBeat : Event → Bool
  | .beat _ _ => true
  | _ => false

/-- What happens from the first heartbeat on. -/
def sinceFirstBeat (events : List Event) : List Event := events.dropWhile fun e => !e.isBeat

/-- What an event makes of a tracker that is there only from its first heartbeat on. -/
def follow (fresh : HeartbeatTracker) : Option HeartbeatTracker → Event → Option HeartbeatTracker
  | some t, e => some (t.step e)
  | none, e => if e.isBeat then some (fresh.step e) else none

variable {fresh : HeartbeatTracker}

theorem foldl_follow_some (events : List Event) (t : HeartbeatTracker) :
    events.foldl (follow fresh) (some t) = some (t.run events) := by
  induction events generalizing t with
  | nil => rfl
  | cons e rest ih => exact ih (t.step e)

/-- **Before its first heartbeat, nothing has an effect on a tracker.** -/
theorem foldl_follow_none (events : List Event) :
    (events.foldl (follow fresh) none).getD fresh = fresh.run (sinceFirstBeat events) := by
  induction events with
  | nil => rfl
  | cons e rest ih =>
      cases beats : e.isBeat with
      | true =>
          have since : sinceFirstBeat (e :: rest) = e :: rest := by
            simp [sinceFirstBeat, beats]
          have born : follow fresh none e = some (fresh.step e) := by
            simp [follow, beats]
          rw [since, List.foldl_cons, born, foldl_follow_some]
          rfl
      | false =>
          have since : sinceFirstBeat (e :: rest) = sinceFirstBeat rest := by
            simp [sinceFirstBeat, beats]
          have unborn : follow fresh none e = none := by
            simp [follow, beats]
          rw [since, List.foldl_cons, unborn, ih]

end HeartbeatTracker

namespace HealthMonitor

/-! ## Events -/

/-- An order in which a sweep may visit the invokers: all of them, and each of them once. -/
structure VisitOrder where
  visit : List InvokerId → List InvokerId
  perm : ∀ ids, (visit ids).Perm ids

namespace VisitOrder

/-- Whoever came first is visited first. -/
def firstCome : VisitOrder := ⟨id, fun _ => .refl _⟩

def lastCome : VisitOrder := ⟨List.reverse, List.reverse_perm⟩

end VisitOrder

/-- Counts the missed heartbeats of every invoker, visiting them in some order. -/
def sweepIn (order : VisitOrder) (m : HealthMonitor) (now : Instant) :
    HealthMonitor × List Transition :=
  evaluateAll now (order.visit (m.trackers.map (·.1))) m

/-- What can happen to a monitor. -/
inductive Event where
  | beat (id : InvokerId) (status : InvokerStatus) (now : Instant)
  | sweep (now : Instant) (order : VisitOrder)
  | remove (id : InvokerId)
  /-- An activation of a user ends on an invoker. -/
  | userAction (id : InvokerId) (time : UInt64)

/-- What an event makes of a monitor, and the transitions that it reports. -/
def step (m : HealthMonitor) : Event → HealthMonitor × List Transition
  | .beat id status now => ((m.beat id status now).1, (m.beat id status now).2.toList)
  | .sweep now order => m.sweepIn order now
  | .remove id => ((m.remove id).1, (m.remove id).2.toList)
  | .userAction id time => (m.recordUserAction id time, [])

def run (m : HealthMonitor) (events : List Event) : HealthMonitor :=
  events.foldl (fun m e => (m.step e).1) m

theorem run_cons (m : HealthMonitor) (e : Event) (rest : List Event) :
    m.run (e :: rest) = (m.step e).1.run rest := rfl

/-- Every transition of a run, with the event that it came of. -/
def log : HealthMonitor → List Event → List (Event × Transition)
  | _, [] => []
  | m, e :: rest => (m.step e).2.map (e, ·) ++ log (m.step e).1 rest

/-- The transitions of a run, in the order in which they happened. -/
def transitions (m : HealthMonitor) (events : List Event) : List Transition :=
  (m.log events).map (·.2)

theorem transitions_cons (m : HealthMonitor) (e : Event) (rest : List Event) :
    m.transitions (e :: rest) = (m.step e).2 ++ (m.step e).1.transitions rest := by
  rw [transitions, log, List.map_append, List.map_map]
  exact congrArg (· ++ _) (List.map_id _)

/-! ## One tracker replaced -/

/-- Does something to the tracker of an invoker, if it has one. -/
def alter (m : HealthMonitor) (id : InvokerId) (change : HeartbeatTracker → HeartbeatTracker) :
    HealthMonitor × Option Transition :=
  match m.tracker? id with
  | none => (m, none)
  | some t => m.replace id t.status (change t)

theorem evaluate_eq_alter (now : Instant) (m : HealthMonitor) (id : InvokerId) :
    m.evaluate now id = m.alter id (·.evaluate now) := rfl

theorem remove_eq_alter (m : HealthMonitor) (id : InvokerId) :
    m.remove id = m.alter id (·.takeOffline) := rfl

/-- The end of an activation is no transition. -/
theorem recordUserAction_eq_alter (m : HealthMonitor) (id : InvokerId) (time : UInt64) :
    (m.recordUserAction id time, none) = m.alter id (·.recordUserAction time) := by
  cases tracked : m.tracker? id with
  | none => simp only [recordUserAction, alter, tracked]
  | some t =>
      simp only [recordUserAction, alter, tracked]
      exact (if_pos rfl).symm

/-- A monitor after some trackers were replaced one after the other, each with the transition from
the health that its invoker had, if that is one. -/
inductive Moves : HealthMonitor → List Transition → HealthMonitor → Prop where
  | none (m : HealthMonitor) : Moves m [] m
  | one (m : HealthMonitor) (id : InvokerId) (t : HeartbeatTracker) :
      Moves m (m.replace id (m.health id) t).2.toList (m.replace id (m.health id) t).1
  | trans {m n o : HealthMonitor} {ts us : List Transition} (first : Moves m ts n)
      (second : Moves n us o) : Moves m (ts ++ us) o

theorem moves_alter (m : HealthMonitor) (id : InvokerId)
    (change : HeartbeatTracker → HeartbeatTracker) :
    Moves m (m.alter id change).2.toList (m.alter id change).1 := by
  cases tracked : m.tracker? id with
  | none =>
      simp only [alter, tracked]
      exact .none m
  | some t =>
      simp only [alter, tracked]
      rw [← health_of_tracked tracked]
      exact .one m id (change t)

theorem moves_beat (m : HealthMonitor) (id : InvokerId) (status : InvokerStatus)
    (now : Instant) : Moves m (m.beat id status now).2.toList (m.beat id status now).1 := by
  rw [beat, trackerOrNew_status]
  exact .one m id _

theorem moves_evaluateAll (now : Instant) (ids : List InvokerId) (m : HealthMonitor) :
    Moves m (evaluateAll now ids m).2 (evaluateAll now ids m).1 := by
  induction ids generalizing m with
  | nil => exact .none m
  | cons id rest ih =>
      have first := moves_alter m id (·.evaluate now)
      exact first.trans (ih _)

/-- **Whatever happens to a monitor, trackers are replaced one after the other.** -/
theorem moves_step (m : HealthMonitor) (e : Event) : Moves m (m.step e).2 (m.step e).1 := by
  cases e with
  | beat id status now => exact moves_beat m id status now
  | sweep now order => exact moves_evaluateAll now _ m
  | remove id => exact moves_alter m id _
  | userAction id time =>
      have moved := moves_alter m id (·.recordUserAction time)
      rw [← recordUserAction_eq_alter] at moved
      exact moved

variable {m n : HealthMonitor} {ts : List Transition}

theorem Moves.settings (moves : Moves m ts n) : n.settings = m.settings := by
  induction moves with
  | none => rfl
  | one m id t =>
      unfold replace
      split <;> rfl
  | trans _ _ first second => exact second.trans first

theorem Moves.distinct (moves : Moves m ts n) (distinct : Table.Distinct m.trackers) :
    Table.Distinct n.trackers := by
  induction moves with
  | none => exact distinct
  | one m id t =>
      unfold replace
      split <;> exact Table.distinct_set distinct id t
  | trans _ _ first second => exact second (first distinct)

theorem moves_run (m : HealthMonitor) (events : List Event) :
    Moves m (m.transitions events) (m.run events) := by
  induction events generalizing m with
  | nil => exact .none m
  | cons e rest ih =>
      rw [transitions_cons, run_cons]
      exact (moves_step m e).trans (ih _)

/-! ## The tracker of one invoker -/

theorem tracker?_replace (m : HealthMonitor) (id : InvokerId) (before : Health)
    (t : HeartbeatTracker) (other : InvokerId) :
    (m.replace id before t).1.tracker? other = if id = other then some t else m.tracker? other := by
  unfold replace
  split <;> exact Table.get?_set id other t m.trackers

theorem tracker?_alter (m : HealthMonitor) (id : InvokerId)
    (change : HeartbeatTracker → HeartbeatTracker) (other : InvokerId) :
    (m.alter id change).1.tracker? other =
      if id = other then (m.tracker? other).map change else m.tracker? other := by
  cases tracked : m.tracker? id with
  | none =>
      simp only [alter, tracked]
      split
      · rename_i same
        rw [← same, tracked]
        rfl
      · rfl
  | some t =>
      simp only [alter, tracked, tracker?_replace]
      split
      · rename_i same
        rw [← same, tracked]
        rfl
      · rfl

/-- Counting the missed heartbeats of some invokers is counting those of each. -/
theorem tracker?_evaluateAll (now : Instant) {ids : List InvokerId} (once : ids.Nodup)
    (m : HealthMonitor) (i : InvokerId) :
    (evaluateAll now ids m).1.tracker? i =
      if i ∈ ids then (m.tracker? i).map (·.evaluate now) else m.tracker? i := by
  induction ids generalizing m with
  | nil => simp [evaluateAll]
  | cons id rest ih =>
      obtain ⟨apart, once⟩ := List.nodup_cons.mp once
      have later := ih once (m.evaluate now id).1
      rw [evaluate_eq_alter, tracker?_alter] at later
      show (evaluateAll now rest (m.evaluate now id).1).1.tracker? i = _
      by_cases same : id = i
      · subst same
        simpa [apart, evaluate_eq_alter] using later
      · simpa [same, Ne.symm same, evaluate_eq_alter] using later

/-- **A sweep counts the missed heartbeats of every invoker, in whatever order it visits them.** -/
theorem tracker?_sweepIn (distinct : Table.Distinct m.trackers) (order : VisitOrder)
    (now : Instant) (i : InvokerId) :
    (m.sweepIn order now).1.tracker? i = (m.tracker? i).map (·.evaluate now) := by
  have all := order.perm (m.trackers.map (·.1))
  rw [sweepIn, tracker?_evaluateAll now (all.nodup_iff.mpr distinct)]
  split
  · rfl
  · rename_i absent
    have untracked : m.tracker? i = none :=
      Table.get?_eq_none_iff.mpr fun member => absent (all.mem_iff.mpr member)
    rw [untracked]
    rfl

/-! ## An invoker's own part -/

/-- What an event is to the tracker of an invoker, if it concerns that invoker. -/
def Event.share (i : InvokerId) : Event → Option HeartbeatTracker.Event
  | .beat id status now => if id = i then some (.beat status now) else none
  | .sweep now _ => some (.evaluate now)
  | .remove id => if id = i then some .takeOffline else none
  | .userAction id time => if id = i then some (.userAction time) else none

/-- The part of a run that concerns an invoker. -/
def own (i : InvokerId) (events : List Event) : List HeartbeatTracker.Event :=
  events.filterMap (Event.share i)

/-- Whether an event is a heartbeat of an invoker. -/
def Event.IsBeatOf (i : InvokerId) : Event → Prop
  | .beat id _ _ => id = i
  | _ => False

/-- What a tracker that may not be there yet makes of its share of an event. -/
def followShare (fresh : HeartbeatTracker) (tracker : Option HeartbeatTracker)
    (share : Option HeartbeatTracker.Event) : Option HeartbeatTracker :=
  match share with
  | some e => HeartbeatTracker.follow fresh tracker e
  | none => tracker

/-- What is no heartbeat is shared by the trackers that are there. -/
theorem tracker?_alter_step (m : HealthMonitor) (id i : InvokerId) (fresh : HeartbeatTracker)
    {e : HeartbeatTracker.Event} (unheard : e.isBeat = false) :
    (m.alter id (·.step e)).1.tracker? i =
      followShare fresh (m.tracker? i) (if id = i then some e else none) := by
  rw [tracker?_alter]
  split
  · cases m.tracker? i with
    | none => simp [followShare, HeartbeatTracker.follow, unheard]
    | some t => rfl
  · rfl

/-- **The tracker of an invoker follows its share of every event.** -/
theorem tracker?_step (distinct : Table.Distinct m.trackers) (e : Event) (i : InvokerId) :
    (m.step e).1.tracker? i =
      followShare (.new m.settings.thresholds) (m.tracker? i) (e.share i) := by
  cases e with
  | beat id status now =>
      rw [step, beat, tracker?_replace]
      by_cases same : id = i
      · subst same
        cases tracked : m.tracker? id <;>
          simp [Event.share, followShare, HeartbeatTracker.follow, HeartbeatTracker.Event.isBeat,
            HeartbeatTracker.step, trackerOrNew, tracked]
      · simp [Event.share, followShare, same]
  | sweep now order =>
      rw [step, tracker?_sweepIn distinct]
      cases m.tracker? i <;> rfl
  | remove id =>
      rw [step, remove_eq_alter]
      exact m.tracker?_alter_step id i _ (e := .takeOffline) rfl
  | userAction id time =>
      have altered := congrArg Prod.fst (m.recordUserAction_eq_alter id time)
      rw [step, altered]
      exact m.tracker?_alter_step id i _ (e := .userAction time) rfl

theorem tracker?_run (events : List Event) {m : HealthMonitor}
    (distinct : Table.Distinct m.trackers) (i : InvokerId) :
    (m.run events).tracker? i =
      (own i events).foldl (HeartbeatTracker.follow (.new m.settings.thresholds))
        (m.tracker? i) := by
  induction events generalizing m with
  | nil => rfl
  | cons e rest ih =>
      have moved := moves_step m e
      rw [run_cons, ih (moved.distinct distinct), moved.settings, tracker?_step distinct]
      unfold own
      cases share : e.share i with
      | none => rw [List.filterMap_cons_none share, followShare]
      | some shared => rw [List.filterMap_cons_some share, followShare, List.foldl_cons]

theorem trackerOrNew_run (settings : HealthSettings) (events : List Event) (i : InvokerId) :
    ((new settings).run events).trackerOrNew i =
      (HeartbeatTracker.new settings.thresholds).run
        (HeartbeatTracker.sinceFirstBeat (own i events)) := by
  rw [trackerOrNew, (moves_run _ events).settings, tracker?_run events Table.distinct_nil]
  exact HeartbeatTracker.foldl_follow_none _

theorem trackerOrNew_lastUserAction (m : HealthMonitor) (id : InvokerId) :
    (m.trackerOrNew id).lastUserAction = m.lastUserAction id := by
  unfold trackerOrNew lastUserAction
  cases m.tracker? id <;> rfl

theorem sinceFirstBeat_own_eq_nil {events : List Event} {i : InvokerId}
    (unheard : ∀ e ∈ events, ¬ e.IsBeatOf i) :
    HeartbeatTracker.sinceFirstBeat (own i events) = [] := by
  rw [HeartbeatTracker.sinceFirstBeat, List.dropWhile_eq_nil_iff]
  intro shared member
  obtain ⟨e, there, share⟩ := List.mem_filterMap.mp member
  cases e with
  | beat id status now =>
      have other : ¬ id = i := unheard _ there
      rw [Event.share, if_neg other] at share
      cases share
  | sweep now order =>
      cases share
      rfl
  | remove id =>
      simp only [Event.share, Option.ite_none_right_eq_some, Option.some.injEq] at share
      rw [← share.2]
      rfl
  | userAction id time =>
      simp only [Event.share, Option.ite_none_right_eq_some, Option.some.injEq] at share
      rw [← share.2]
      rfl

/-- **Invokers do not influence each other's health.** After any run of a new monitor, an invoker's
health and its last user action are those of a single tracker with the same thresholds that is
driven by the invoker's own part of the run, from its first heartbeat on. An invoker that never
sent a heartbeat is offline and has no user action. So two runs in which an invoker has the same
part agree on it, whatever the other invokers do and in whatever orders they are visited. -/
theorem health_of_own_part (settings : HealthSettings) (events : List Event) (i : InvokerId) :
    let m := (new settings).run events
    let t := (HeartbeatTracker.new settings.thresholds).run
      (HeartbeatTracker.sinceFirstBeat (own i events))
    m.health i = t.status ∧ m.lastUserAction i = t.lastUserAction ∧
      ((∀ e ∈ events, ¬ e.IsBeatOf i) → m.health i = .offline ∧ m.lastUserAction i = none) ∧
      ∀ others : List Event, own i others = own i events →
        ((new settings).run others).health i = m.health i ∧
          ((new settings).run others).lastUserAction i = m.lastUserAction i := by
  intro m t
  have health : ∀ run : List Event, ((new settings).run run).health i =
      ((HeartbeatTracker.new settings.thresholds).run
        (HeartbeatTracker.sinceFirstBeat (own i run))).status := by
    intro run
    rw [← trackerOrNew_status, trackerOrNew_run]
  have lastUserAction : ∀ run : List Event, ((new settings).run run).lastUserAction i =
      ((HeartbeatTracker.new settings.thresholds).run
        (HeartbeatTracker.sinceFirstBeat (own i run))).lastUserAction := by
    intro run
    rw [← trackerOrNew_lastUserAction, trackerOrNew_run]
  refine ⟨health events, lastUserAction events, ?_, ?_⟩
  · intro unheard
    have nothing := sinceFirstBeat_own_eq_nil unheard
    show ((new settings).run events).health i = _ ∧ ((new settings).run events).lastUserAction i = _
    rw [health, lastUserAction, nothing]
    exact ⟨rfl, rfl⟩
  · intro others alike
    rw [health others, lastUserAction others, alike]
    exact ⟨(health events).symm, (lastUserAction events).symm⟩

/-- A shift of two invokers. The second is removed, and a user's activation ends on it, before it
is heard of; it misses four heartbeats of a second each, while the first goes on. -/
def demoShift : List Event :=
  [.beat ⟨0⟩ .up (.ofMillis 0), .userAction ⟨1⟩ 5, .remove ⟨1⟩, .beat ⟨1⟩ .up (.ofMillis 1000),
    .userAction ⟨0⟩ 7, .beat ⟨0⟩ .up (.ofMillis 4000), .sweep (.ofMillis 5000) .lastCome,
    .userAction ⟨1⟩ 3]

/-- What the second invoker has of that shift, with another one in the background. -/
def demoAlone : List Event :=
  [.userAction ⟨1⟩ 5, .remove ⟨1⟩, .remove ⟨2⟩, .beat ⟨1⟩ .up (.ofMillis 1000),
    .sweep (.ofMillis 5000) .firstCome, .beat ⟨2⟩ .up (.ofMillis 6000), .userAction ⟨1⟩ 3]

/-- The two runs agree on the second invoker, and a third one is never heard of in the first. -/
theorem health_of_own_part_demoShift :
    own ⟨1⟩ demoAlone = own ⟨1⟩ demoShift ∧
      ((new .standard).run demoAlone).health ⟨1⟩ = ((new .standard).run demoShift).health ⟨1⟩ ∧
      ((new .standard).run demoShift).health ⟨1⟩ = .unhealthy ∧
      ((new .standard).run demoShift).lastUserAction ⟨1⟩ = some 3 ∧
      ((new .standard).run demoShift).health ⟨2⟩ = .offline := by
  have alike : own ⟨1⟩ demoAlone = own ⟨1⟩ demoShift := by decide
  have unheard : ∀ e ∈ demoShift, ¬ e.IsBeatOf ⟨2⟩ := by simp [demoShift, Event.IsBeatOf]
  obtain ⟨health, lastUserAction, -, agrees⟩ := health_of_own_part .standard demoShift ⟨1⟩
  have third := (health_of_own_part .standard demoShift ⟨2⟩).2.2.1 unheard
  refine ⟨alike, (agrees demoAlone alike).1, ?_, ?_, third.1⟩
  · rw [health]
    decide
  · rw [lastUserAction]
    decide

end HealthMonitor

end Dispatch
