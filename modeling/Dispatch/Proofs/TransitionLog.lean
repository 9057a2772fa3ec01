import Dispatch.Proofs.MonitorRuns
import Mathlib.Data.List.Basic

/-!
# The log of transitions

Subscribers see of a monitor its transitions and nothing else. `Tells` is what makes that enough: a
log `GoesOn` from the version and the health it finds, so that no number is left out or used twice
and every transition starts where the one before it ended, and to `replay` it is to know everybody's
health. `Edge` is the state machine of an invoker, each edge with what can take an invoker along it.

The order in which a sweep visits the invokers decides on the numbers of its transitions only: what
happens to each invoker is read off the monitor as it was before (`changes_evaluateAll`).
`log_complete_and_legal` puts all of this together for whole runs.
-/

set_option autoImplicit false

namespace Dispatch

/-- A transition without its number. -/
def Transition.change (t : Transition) : InvokerId × Health × Health :=
  (t.invoker, t.before, t.after)

/-! ## The state machine -/

/-- Missed heartbeats make the health of an invoker worse, and never take it offline. -/
theorem HeartbeatTracker.evaluate_status (t : HeartbeatTracker) (now : Instant)
    (moved : t.status ≠ (t.evaluate now).status) :
    (t.status = .healthy ∧ (t.evaluate now).status = .unhealthy) ∨
      ((t.status = .healthy ∨ t.status = .unhealthy) ∧
        (t.evaluate now).status = .unresponsive) := by
  unfold evaluate at moved ⊢
  split at moved
  · exact absurd rfl moved
  · rename_i online
    rw [if_neg online]
    generalize derived : t.thresholds.health (t.missed now) = worse at moved ⊢
    have reachable : worse ≠ .offline := by
      rw [← derived, Thresholds.health]
      split
      · decide
      · split <;> decide
    cases was : t.status <;> cases worse <;> simp_all [Health.severity]

namespace HealthMonitor

/-- The edges of the state machine, each with what can take an invoker along it. -/
inductive Edge : Event → Transition → Prop where
  /-- A heartbeat makes an invoker healthy from any other state. -/
  | recovers {id : InvokerId} {before : Health} {now : Instant} {version : Nat}
      (ill : before ≠ .healthy) : Edge (.beat id .up now) ⟨id, before, .healthy, version⟩
  | misses {id : InvokerId} {now : Instant} {order : VisitOrder} {version : Nat} :
      Edge (.sweep now order) ⟨id, .healthy, .unhealthy, version⟩
  | fallsSilent {id : InvokerId} {before : Health} {now : Instant} {order : VisitOrder}
      {version : Nat} (heard : before = .healthy ∨ before = .unhealthy) :
      Edge (.sweep now order) ⟨id, before, .unresponsive, version⟩
  | stops {id : InvokerId} {before : Health} {now : Instant} {version : Nat}
      (online : before ≠ .offline) : Edge (.beat id .shuttingDown now) ⟨id, before, .offline, version⟩
  | removed {id : InvokerId} {before : Health} {version : Nat} (online : before ≠ .offline) :
      Edge (.remove id) ⟨id, before, .offline, version⟩

variable {m n : HealthMonitor} {ts : List Transition} {t : Transition}

theorem mem_replace {id : InvokerId} {before : Health} {tracker : HeartbeatTracker} :
    t ∈ (m.replace id before tracker).2.toList ↔
      before ≠ tracker.status ∧ t = ⟨id, before, tracker.status, m.version + 1⟩ := by
  unfold replace
  split
  · simp [*]
  · rename_i moved
    simp [moved]

theorem mem_alter {id : InvokerId} {change : HeartbeatTracker → HeartbeatTracker}
    (there : t ∈ (m.alter id change).2.toList) :
    ∃ tracker, tracker.status ≠ (change tracker).status ∧
      t = ⟨id, tracker.status, (change tracker).status, m.version + 1⟩ := by
  cases tracked : m.tracker? id with
  | none => simp [alter, tracked] at there
  | some tracker =>
      simp only [alter, tracked] at there
      exact ⟨tracker, mem_replace.mp there⟩

theorem mem_evaluateAll {now : Instant} {ids : List InvokerId}
    (there : t ∈ (evaluateAll now ids m).2) :
    ∃ (tracker : HeartbeatTracker) (id : InvokerId) (version : Nat),
      tracker.status ≠ (tracker.evaluate now).status ∧
        t = ⟨id, tracker.status, (tracker.evaluate now).status, version⟩ := by
  induction ids generalizing m with
  | nil => cases there
  | cons id rest ih =>
      rcases List.mem_append.mp there with first | later
      · obtain ⟨tracker, moved, rfl⟩ := mem_alter first
        exact ⟨tracker, id, _, moved, rfl⟩
      · exact ih later

/-- **Every transition is an edge of the state machine, and comes of what may bring it about.** -/
theorem edge_step {e : Event} (there : t ∈ (m.step e).2) : Edge e t := by
  cases e with
  | beat id status now =>
      obtain ⟨moved, rfl⟩ := mem_replace.mp there
      cases status with
      | up => exact .recovers moved
      | shuttingDown => exact .stops moved
  | sweep now order =>
      obtain ⟨tracker, id, version, moved, rfl⟩ := mem_evaluateAll there
      rcases tracker.evaluate_status now moved with ⟨was, is⟩ | ⟨was, is⟩
      · rw [was, is]
        exact .misses
      · rw [is]
        exact .fallsSilent was
  | remove id =>
      obtain ⟨tracker, moved, rfl⟩ := mem_alter there
      exact .removed moved
  | userAction => cases there

theorem edge_log {events : List Event} {entry : Event × Transition}
    (there : entry ∈ m.log events) : Edge entry.1 entry.2 := by
  induction events generalizing m with
  | nil => cases there
  | cons e rest ih =>
      rcases List.mem_append.mp there with first | later
      · obtain ⟨t, member, rfl⟩ := List.mem_map.mp first
        exact edge_step member
      · exact ih later

/-! ## Replaying a log -/

/-- Everybody's health once some transitions have happened. -/
def replay (health : InvokerId → Health) (log : List Transition) : InvokerId → Health :=
  log.foldl (fun health t => Function.update health t.invoker t.after) health

/-- The last transition of an invoker. -/
def latest? (i : InvokerId) (log : List Transition) : Option Transition :=
  (log.filter (·.invoker = i)).getLast?

theorem latest?_cons (i : InvokerId) (t : Transition) (rest : List Transition) :
    latest? i (t :: rest) =
      if t.invoker = i then some ((latest? i rest).getD t) else latest? i rest := by
  unfold latest?
  by_cases same : t.invoker = i
  · rw [List.filter_cons_of_pos (by simpa using same), List.getLast?_cons, if_pos same]
  · rw [List.filter_cons_of_neg (by simpa using same), if_neg same]

/-- To replay a log is to look for everybody's last transition. -/
theorem replay_apply (health : InvokerId → Health) (log : List Transition) (i : InvokerId) :
    replay health log i = ((latest? i log).map (·.after)).getD (health i) := by
  induction log generalizing health with
  | nil => rfl
  | cons t rest ih =>
      rw [replay, List.foldl_cons, ← replay, ih, latest?_cons]
      by_cases same : t.invoker = i
      · subst same
        rw [Function.update_self, if_pos rfl]
        cases latest? t.invoker rest <;> rfl
      · rw [Function.update_of_ne (Ne.symm same), if_neg same]

/-- A log goes on from a version and everybody's health: each transition has the next number, starts
from the health that its invoker has by then, and leads to another one. -/
def GoesOn : Nat → (InvokerId → Health) → List Transition → Prop
  | _, _, [] => True
  | version, health, t :: rest =>
    t.version = version + 1 ∧ t.before = health t.invoker ∧ t.before ≠ t.after ∧
      GoesOn (version + 1) (Function.update health t.invoker t.after) rest

theorem goesOn_append {version : Nat} {health : InvokerId → Health} {ts us : List Transition} :
    GoesOn version health (ts ++ us) ↔
      GoesOn version health ts ∧ GoesOn (version + ts.length) (replay health ts) us := by
  induction ts generalizing version health with
  | nil => simp [GoesOn, replay]
  | cons t rest ih =>
      have length : version + (t :: rest).length = version + 1 + rest.length := by
        rw [List.length_cons]
        omega
      rw [length]
      simp only [List.cons_append, GoesOn, ih, and_assoc]
      rfl

theorem GoesOn.versions {version : Nat} {health : InvokerId → Health} {log : List Transition}
    (goesOn : GoesOn version health log) :
    log.map (·.version) = List.range' (version + 1) log.length := by
  induction log generalizing version health with
  | nil => rfl
  | cons t rest ih =>
      obtain ⟨numbered, -, -, later⟩ := goesOn
      rw [List.map_cons, ih later, numbered, List.length_cons, List.range'_succ]

/-- A log tells how one monitor became another. -/
structure Tells (m : HealthMonitor) (log : List Transition) (n : HealthMonitor) : Prop where
  goesOn : GoesOn m.version m.health log
  version : n.version = m.version + log.length
  health : n.health = replay m.health log

/-- **The transitions tell all that happens to a monitor, as far as health is concerned.** -/
theorem Moves.tells (moves : Moves m ts n) : Tells m ts n := by
  induction moves with
  | none m => exact ⟨trivial, rfl, rfl⟩
  | one m id tracker =>
      have after : (m.replace id (m.health id) tracker).1.health =
          Function.update m.health id tracker.status := by
        funext other
        rw [health_replace, Function.update_apply]
        simp only [eq_comm]
      unfold replace at after ⊢
      split
      · rename_i same
        -- The health that is written is the one that was there, and nothing is told.
        rw [if_pos same, ← same, Function.update_eq_self] at after
        exact ⟨trivial, rfl, after⟩
      · rename_i moved
        rw [if_neg moved] at after
        exact ⟨⟨rfl, rfl, moved, trivial⟩, rfl, after⟩
  | @trans m n o ts us _ _ first second =>
      refine ⟨goesOn_append.mpr ⟨first.goesOn, ?_⟩, ?_, ?_⟩
      · rw [← first.version, ← first.health]
        exact second.goesOn
      · rw [second.version, first.version, List.length_append, Nat.add_assoc]
      · rw [second.health, first.health, replay, replay, replay, List.foldl_append]

/-! ## The order of a sweep -/

/-- What counting its missed heartbeats does to the health of an invoker, if anything. -/
def drift (now : Instant) (m : HealthMonitor) (id : InvokerId) :
    Option (InvokerId × Health × Health) :=
  (m.tracker? id).bind fun t =>
    if t.status = (t.evaluate now).status then none
    else some (id, t.status, (t.evaluate now).status)

theorem change_evaluate (now : Instant) (m : HealthMonitor) (id : InvokerId) :
    (m.evaluate now id).2.map Transition.change = m.drift now id := by
  cases tracked : m.tracker? id with
  | none => simp [evaluate, drift, tracked]
  | some t =>
      simp only [evaluate, drift, tracked, replace, Option.bind_some]
      split <;> rfl

/-- **What a sweep does to an invoker does not depend on who was visited before.** -/
theorem changes_evaluateAll (now : Instant) {ids : List InvokerId} (once : ids.Nodup)
    (m : HealthMonitor) :
    (evaluateAll now ids m).2.map Transition.change = ids.filterMap (m.drift now) := by
  induction ids generalizing m with
  | nil => rfl
  | cons id rest ih =>
      obtain ⟨apart, once⟩ := List.nodup_cons.mp once
      -- Nobody is visited twice, so whoever comes later is as the sweep found it.
      have untouched : ∀ other ∈ rest, (m.evaluate now id).1.drift now other = m.drift now other := by
        intro other member
        have differ : id ≠ other := fun same => apart (same ▸ member)
        rw [drift, drift, evaluate_eq_alter, tracker?_alter, if_neg differ]
      have first := change_evaluate now m id
      show ((m.evaluate now id).2.toList ++
        (evaluateAll now rest (m.evaluate now id).1).2).map Transition.change = _
      rw [List.map_append, ih once, List.filterMap_congr untouched, List.filterMap_cons, ← first]
      cases (m.evaluate now id).2 <;> rfl

theorem changes_sweepIn_perm (distinct : Table.Distinct m.trackers) (now : Instant)
    (one other : VisitOrder) :
    ((m.sweepIn one now).2.map Transition.change).Perm
      ((m.sweepIn other now).2.map Transition.change) := by
  have first := one.perm (m.trackers.map (·.1))
  have second := other.perm (m.trackers.map (·.1))
  rw [sweepIn, sweepIn, changes_evaluateAll now (first.nodup_iff.mpr distinct),
    changes_evaluateAll now (second.nodup_iff.mpr distinct)]
  exact (first.trans second.symm).filterMap _

end HealthMonitor

/-! ## Subscribers -/

namespace Watched

/-- A monitor with its subscriber, after an event. -/
def step (w : Watched) (e : HealthMonitor.Event) : Watched :=
  w.follow (w.monitor.step e).1 (w.monitor.step e).2

def run (w : Watched) (events : List HealthMonitor.Event) : Watched := events.foldl step w

/-- **A subscriber is fed the transitions of the run, all of them and in their order.** -/
theorem run_eq (w : Watched) (events : List HealthMonitor.Event) :
    w.run events = w.follow (w.monitor.run events) (w.monitor.transitions events) := by
  induction events generalizing w with
  | nil =>
      obtain ⟨monitor, feed⟩ := w
      cases feed <;> rfl
  | cons e rest ih =>
      rw [run, List.foldl_cons, ← run, ih, HealthMonitor.transitions_cons]
      obtain ⟨monitor, feed⟩ := w
      cases feed with
      | none => rfl
      | some feed =>
          simp only [step, follow, Option.map_some, Feed.pushAll, List.foldl_append,
            HealthMonitor.run_cons]

end Watched

namespace HealthMonitor

/-- **The log of transitions is complete and legal.** After any run of a new monitor, with sweeps
that visit the invokers in any order:

* the transitions are numbered from one without a gap, and the version is their number;
* whoever replays them knows everybody's health, and a subscriber is fed just them;
* each leads from one state of health to another one, starts where the last one of its invoker
  ended, or offline if it is the first, and is an edge of the state machine that its cause may take;
* which transitions a sweep at any time would bring, apart from their numbers, does not depend on
  the order of its visits. -/
theorem log_complete_and_legal (settings : HealthSettings) (events : List Event) :
    let m := (new settings).run events
    let log := (new settings).transitions events
    (log.map (·.version) = List.range' 1 log.length ∧ m.version = log.length) ∧
      (∀ i, m.health i = replay (fun _ => .offline) log i) ∧
      (((Watched.new settings).subscribe.run events).monitor = m ∧
        ((Watched.new settings).subscribe.run events).feed = some (Feed.empty.pushAll log)) ∧
      (∀ earlier cause t later, (new settings).log events = earlier ++ (cause, t) :: later →
        t.before ≠ t.after ∧
          t.before = ((latest? t.invoker (earlier.map (·.2))).map (·.after)).getD .offline ∧
          Edge cause t) ∧
      ∀ now one other, ((m.sweepIn one now).2.map Transition.change).Perm
        ((m.sweepIn other now).2.map Transition.change) := by
  intro m log
  have moves : Moves (new settings) log m := moves_run _ events
  have tells : Tells (new settings) log m := moves.tells
  refine ⟨?_, ?_, ?_, ?_, ?_⟩
  · exact ⟨tells.goesOn.versions, tells.version.trans (Nat.zero_add _)⟩
  · exact fun i => congrFun tells.health i
  · rw [Watched.run_eq]
    exact ⟨rfl, rfl⟩
  · intro earlier cause t later split
    have goesOn := tells.goesOn
    have told : log = earlier.map (·.2) ++ t :: later.map (·.2) := by
      show ((new settings).log events).map (·.2) = _
      rw [split, List.map_append, List.map_cons]
    rw [told] at goesOn
    obtain ⟨-, -, starts, moved, -⟩ := goesOn_append.mp goesOn
    rw [replay_apply] at starts
    have there : (cause, t) ∈ (new settings).log events := by
      rw [split]
      exact List.mem_append_right _ List.mem_cons_self
    have edge : Edge cause t := edge_log there
    exact ⟨moved, starts, edge⟩
  · exact changes_sweepIn_perm (moves.distinct Table.distinct_nil)

/-- The log of a shift in which one invoker goes on and the other one misses its heartbeats. -/
theorem log_complete_and_legal_demoShift :
    (new .standard).transitions demoShift =
        [⟨⟨0⟩, .offline, .healthy, 1⟩, ⟨⟨1⟩, .offline, .healthy, 2⟩,
          ⟨⟨1⟩, .healthy, .unhealthy, 3⟩] ∧
      ((new .standard).run demoShift).version = 3 ∧
      ∃ earlier cause t later,
        (new .standard).log demoShift = earlier ++ (cause, t) :: later ∧ t.version = 3 ∧
          t.before = ((latest? t.invoker (earlier.map (·.2))).map (·.after)).getD .offline ∧
          Edge cause t := by
  have told : (new .standard).transitions demoShift =
      [⟨⟨0⟩, .offline, .healthy, 1⟩, ⟨⟨1⟩, .offline, .healthy, 2⟩,
        ⟨⟨1⟩, .healthy, .unhealthy, 3⟩] := by decide
  obtain ⟨⟨-, counted⟩, -, -, legal, -⟩ := log_complete_and_legal .standard demoShift
  have last : (⟨⟨1⟩, .healthy, .unhealthy, 3⟩ : Transition) ∈
      ((new .standard).log demoShift).map (·.2) := by
    show _ ∈ (new .standard).transitions demoShift
    simp [told]
  obtain ⟨⟨cause, t⟩, there, same⟩ := List.mem_map.mp last
  obtain ⟨earlier, later, split⟩ := List.append_of_mem there
  obtain ⟨-, starts, edge⟩ := legal earlier cause t later split
  refine ⟨told, ?_, earlier, cause, t, later, split, congrArg Transition.version same, starts, edge⟩
  rw [counted, told]
  rfl

end HealthMonitor

end Dispatch
