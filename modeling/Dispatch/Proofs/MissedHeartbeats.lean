import Dispatch.Proofs.MonitorRuns
import Mathlib.Data.List.Induction
import Mathlib.Order.Bounds.Basic

/-!
# Missed heartbeats in closed form

A tracker is driven step by step: a heartbeat makes it healthy, evaluations only ever make it
worse, and their times need not grow. What comes of it can be read off the history all the same
(`status_of_history`). While a tracker is up it is `Counted`: its health is that of the heartbeats
missed between the latest heartbeat and the latest instant to which anybody has looked. A later
look moves that instant, an earlier one changes nothing, so only the greatest of the times matters.
-/

set_option autoImplicit false

namespace Dispatch

/-- Thresholds that can be told apart, and an interval of whole milliseconds. -/
structure Thresholds.Accepted (t : Thresholds) : Prop where
  unhealthy : 1 ≤ t.unhealthyAfter.toNat
  ordered : t.unhealthyAfter.toNat < t.unresponsiveAfter.toNat
  whole : 1_000_000 ∣ t.interval.nanos
  positive : 0 < t.interval.nanos

/-- The thresholds of a configuration that passes validation are such, if its interval is one of
whole milliseconds. -/
theorem Config.accepted_thresholds {c : Config} (sound : c.violation? = none)
    (whole : 1_000_000 ∣ c.health.heartbeatInterval.nanos) : c.health.thresholds.Accepted := by
  unfold violation? at sound
  dsimp only at sound
  split at sound
  · cases sound
  split at sound
  · cases sound
  split at sound
  · cases sound
  rename_i some_missed
  split at sound
  · cases sound
  rename_i ordered
  split at sound
  · cases sound
  rename_i some_time
  refine ⟨?_, ?_, whole, ?_⟩
  · exact Nat.pos_of_ne_zero fun none => some_missed (UInt32.toNat_inj.mp none)
  · rwa [UInt32.le_iff_toNat_le, Nat.not_le] at ordered
  · exact Nat.pos_of_ne_zero fun zero => some_time (decide_eq_true zero)

namespace HeartbeatTracker

/-! ## Histories -/

/-- An event that is neither a heartbeat nor the end of the heartbeats. -/
def Event.isQuiet : Event → Bool
  | .evaluate _ => true
  | .userAction _ => true
  | _ => false

/-- The invoker is up: after the heartbeat at `start`, which is its latest, it neither reported its
shutdown nor was it taken offline. -/
def UpSince (events : List Event) (start : Instant) (since : List Event) : Prop :=
  ∃ before, events = before ++ .beat .up start :: since ∧ ∀ e ∈ since, e.isQuiet = true

variable {t : Thresholds} {h : HeartbeatTracker} {start reached now : Instant}

theorem run_append (h : HeartbeatTracker) (first second : List Event) :
    h.run (first ++ second) = (h.run first).run second :=
  List.foldl_append

/-- An evaluation changes nothing but the health. -/
theorem evaluate_eq (h : HeartbeatTracker) (now : Instant) :
    h.evaluate now = { h with status := (h.evaluate now).status } := by
  unfold evaluate
  split
  · rfl
  · dsimp only
    split <;> rfl

theorem run_thresholds (h : HeartbeatTracker) (events : List Event) :
    (h.run events).thresholds = h.thresholds := by
  induction events generalizing h with
  | nil => rfl
  | cons e rest ih =>
      rw [run, List.foldl_cons, ← run, ih]
      cases e with
      | beat status now => cases status <;> rfl
      | evaluate now => rw [step, evaluate_eq]
      | takeOffline | userAction => rfl

/-! ## Severity -/

theorem severity_injective : Function.Injective Health.severity := by
  intro a b same
  cases a <;> cases b <;> first | rfl | cases same

theorem severity_health_mono (t : Thresholds) {a b : Nat} (le : a ≤ b) :
    (t.health a).severity ≤ (t.health b).severity := by
  unfold Thresholds.health
  split_ifs <;> first | omega | decide

theorem health_ne_offline (t : Thresholds) (missed : Nat) : t.health missed ≠ .offline := by
  unfold Thresholds.health
  split_ifs <;> decide

/-- The thresholds tell the three states apart. -/
theorem health_eq_iff (accepted : t.Accepted) (missed : Nat) :
    (t.health missed = .unresponsive ↔ t.unresponsiveAfter.toNat ≤ missed) ∧
    (t.health missed = .unhealthy ↔
      t.unhealthyAfter.toNat ≤ missed ∧ missed < t.unresponsiveAfter.toNat) ∧
    (t.health missed = .healthy ↔ missed < t.unhealthyAfter.toNat) := by
  have ordered := accepted.ordered
  unfold Thresholds.health
  split_ifs <;> simp <;> omega

theorem evaluate_of_offline (offline : h.status = .offline) (now : Instant) :
    h.evaluate now = h :=
  if_pos offline

/-- **Only a heartbeat makes an invoker better.** -/
theorem up_of_severity_lt {e : Event}
    (better : (h.step e).status.severity < h.status.severity) : ∃ now, e = .beat .up now := by
  have worst : h.status.severity ≤ 3 := by cases h.status <;> decide
  cases e with
  | beat status now =>
      cases status with
      | up => exact ⟨now, rfl⟩
      | shuttingDown => exact absurd worst (Nat.not_le.mpr better)
  | takeOffline => exact absurd worst (Nat.not_le.mpr better)
  | userAction time => exact absurd better (Nat.lt_irrefl _)
  | evaluate now =>
      simp only [step, evaluate] at better
      split at better
      · exact absurd better (Nat.lt_irrefl _)
      · split at better
        · rename_i worse
          exact absurd worse (Nat.lt_asymm better)
        · exact absurd better (Nat.lt_irrefl _)

/-! ## What a tracker that is up has counted -/

/-- The latest heartbeat came at `start`, and the health is that of the heartbeats missed up to
`reached`. -/
structure Counted (h : HeartbeatTracker) (start reached : Instant) : Prop where
  heartbeat : h.lastHeartbeat = some start
  status : h.status = h.thresholds.health (h.missed reached)

theorem missed_mono (h : HeartbeatTracker) {now later : Instant} (le : now ≤ later) :
    h.missed now ≤ h.missed later := by
  unfold missed
  cases h.lastHeartbeat with
  | none => exact Nat.le_refl _
  | some last =>
      have elapsed : now.millisSince last ≤ later.millisSince last :=
        Nat.div_le_div_right (Nat.sub_le_sub_right le _)
      have intervals := Nat.div_le_div_right (c := max h.thresholds.interval.millis 1) elapsed
      dsimp only
      omega

/-- In whole milliseconds nothing is lost: the intervals are counted as they are. -/
theorem missed_eq (accepted : h.thresholds.Accepted) (heartbeat : h.lastHeartbeat = some start)
    (now : Instant) :
    h.missed now =
      min ((now.nanos - start.nanos) / h.thresholds.interval.nanos) 4_294_967_295 := by
  obtain ⟨k, interval⟩ := accepted.whole
  have some_time : 0 < k := by
    have positive := accepted.positive
    omega
  simp only [missed, heartbeat, Instant.millisSince, Duration.millis, interval]
  rw [Nat.mul_div_cancel_left k (by decide), Nat.max_eq_left some_time, Nat.div_div_eq_div_mul]
  rfl

theorem Counted.ne_offline (counted : Counted h start reached) : h.status ≠ .offline := by
  rw [counted.status]
  exact health_ne_offline _ _

/-- **A look back changes nothing.** -/
theorem Counted.evaluate_of_le (counted : Counted h start reached) (le : now ≤ reached) :
    h.evaluate now = h := by
  have no_worse : ¬ h.status.severity < (h.thresholds.health (h.missed now)).severity := by
    rw [counted.status, Nat.not_lt]
    exact severity_health_mono _ (h.missed_mono le)
  rw [evaluate, if_neg counted.ne_offline]
  exact if_neg no_worse

/-- **A later look is the one that counts.** -/
theorem Counted.evaluate_of_ge (counted : Counted h start reached) (le : reached ≤ now) :
    Counted (h.evaluate now) start now := by
  have no_better : h.status.severity ≤ (h.thresholds.health (h.missed now)).severity := by
    rw [counted.status]
    exact severity_health_mono _ (h.missed_mono le)
  rw [evaluate, if_neg counted.ne_offline]
  dsimp only
  split
  · exact ⟨counted.heartbeat, rfl⟩
  · rename_i no_worse
    exact ⟨counted.heartbeat, severity_injective (Nat.le_antisymm no_better (Nat.not_lt.mp no_worse))⟩

theorem Counted.userAction (counted : Counted h start reached) (time : UInt64) :
    Counted (h.recordUserAction time) start reached :=
  ⟨counted.heartbeat, counted.status⟩

theorem counted_beat (accepted : h.thresholds.Accepted) (start : Instant) :
    Counted (h.beat start .up) start start where
  heartbeat := rfl
  status := by
    have none_missed : (h.beat start .up).missed start = 0 := by
      simp [missed, beat, Instant.millisSince]
    have unhealthy := accepted.unhealthy
    have unresponsive := accepted.ordered
    have healthy : h.thresholds.health 0 = .healthy := by
      rw [Thresholds.health, if_neg (by omega), if_neg (by omega)]
    rw [none_missed]
    exact healthy.symm

/-- Looking at `now` takes what was reached to the greater of the two. -/
theorem Counted.evaluate (counted : Counted h start reached) (now : Instant) :
    ∃ next, Counted (h.evaluate now) start next ∧
      reached ≤ next ∧ now ≤ next ∧ (next = reached ∨ next = now) := by
  rcases Nat.le_total reached.nanos now.nanos with ahead | back
  · exact ⟨now, counted.evaluate_of_ge ahead, ahead, Nat.le_refl _, .inr rfl⟩
  · rw [counted.evaluate_of_le back]
    exact ⟨reached, counted, Nat.le_refl _, back, .inl rfl⟩

/-- **A quiet stretch reaches the greatest of the times at which somebody looked.** -/
theorem Counted.run (counted : Counted h start reached) {since : List Event}
    (quiet : ∀ e ∈ since, e.isQuiet = true) :
    ∃ further, Counted (h.run since) start further ∧
      IsGreatest {now | now = reached ∨ .evaluate now ∈ since} further := by
  induction since generalizing h reached with
  | nil =>
      refine ⟨reached, counted, .inl rfl, ?_⟩
      rintro now (rfl | nowhere)
      · exact Nat.le_refl _
      · cases nowhere
  | cons e rest ih =>
      obtain ⟨first, later⟩ := List.forall_mem_cons.mp quiet
      cases e with
      | beat | takeOffline => cases first
      | userAction time =>
          obtain ⟨further, counted, greatest⟩ := ih (counted.userAction time) later
          exact ⟨further, counted, by simpa using greatest⟩
      | evaluate now =>
          obtain ⟨next, counted, reached_le, now_le, which⟩ := counted.evaluate now
          obtain ⟨further, counted, member, bound⟩ := ih counted later
          have next_le : next ≤ further := bound (.inl rfl)
          refine ⟨further, counted, ?_, ?_⟩
          · rcases member with rfl | looked
            · rcases which with rfl | rfl
              · exact .inl rfl
              · exact .inr List.mem_cons_self
            · exact .inr (List.mem_cons_of_mem _ looked)
          · rintro x (rfl | looked)
            · exact Nat.le_trans reached_le next_le
            · rcases List.mem_cons.mp looked with same | looked
              · cases same
                exact Nat.le_trans now_le next_le
              · exact bound (.inr looked)

/-! ## Evaluations in any order -/

theorem run_evaluations (h : HeartbeatTracker) (times : List Instant) :
    h.run (times.map .evaluate) = { h with status := (h.run (times.map .evaluate)).status } := by
  induction times generalizing h with
  | nil => rfl
  | cons now rest ih =>
      have first : h.run ((now :: rest).map .evaluate) =
          (h.evaluate now).run (rest.map .evaluate) := rfl
      rw [first, ih, evaluate_eq]

theorem run_evaluations_of_offline (offline : h.status = .offline) (times : List Instant) :
    h.run (times.map .evaluate) = h := by
  induction times with
  | nil => rfl
  | cons now rest ih =>
      rw [List.map_cons, run, List.foldl_cons, step, evaluate_of_offline offline]
      exact ih

theorem mem_evaluations {times : List Instant} :
    Event.evaluate now ∈ times.map .evaluate ↔ now ∈ times := by
  simp only [List.mem_map, Event.evaluate.injEq, exists_eq_right]

theorem isGreatest_unique {s : Set Instant} {a b : Instant} (first : IsGreatest s a)
    (second : IsGreatest s b) : a = b :=
  congrArg Instant.mk (Nat.le_antisymm (second.2 first.1) (first.2 second.1))

/-- **Neither the order of evaluations matters nor how often they are repeated.** -/
theorem Counted.run_evaluations_congr (counted : Counted h start reached)
    {times times' : List Instant} (same : ∀ now, now ∈ times ↔ now ∈ times') :
    h.run (times.map .evaluate) = h.run (times'.map .evaluate) := by
  have quiet (times : List Instant) : ∀ e ∈ times.map Event.evaluate, e.isQuiet = true := by
    intro e member
    obtain ⟨now, -, rfl⟩ := List.mem_map.mp member
    rfl
  obtain ⟨further, first, greatest⟩ := counted.run (quiet times)
  obtain ⟨further', second, greatest'⟩ := counted.run (quiet times')
  simp only [mem_evaluations, same] at greatest greatest'
  obtain rfl := isGreatest_unique greatest greatest'
  have status {times : List Instant} (counted : Counted (h.run (times.map .evaluate)) start further) :
      (h.run (times.map .evaluate)).status = h.thresholds.health (h.missed further) := by
    have status := counted.status
    rw [run_evaluations] at status
    exact status
  rw [run_evaluations h times, run_evaluations h times', status first, status second]

/-! ## Runs of a new tracker -/

theorem UpSince.counted (accepted : t.Accepted) {events since : List Event}
    (up : UpSince events start since) :
    ∃ reached, Counted ((new t).run events) start reached ∧
      IsGreatest {now | now = start ∨ .evaluate now ∈ since} reached := by
  obtain ⟨before, rfl, quiet⟩ := up
  have thresholds : ((new t).run before).thresholds = t := run_thresholds _ _
  rw [run_append]
  exact (counted_beat (thresholds.symm ▸ accepted) start).run quiet

theorem UpSince.concat {events since : List Event} {e : Event} (up : UpSince events start since)
    (quiet : e.isQuiet = true) : UpSince (events ++ [e]) start (since ++ [e]) := by
  obtain ⟨before, rfl, quiets⟩ := up
  refine ⟨before, by simp, fun e' member => ?_⟩
  rcases List.mem_append.mp member with earlier | last
  · exact quiets e' earlier
  · rwa [List.mem_singleton.mp last]

/-- Who is not up is offline. -/
theorem offline_or_upSince (t : Thresholds) (events : List Event) :
    ((new t).run events).status = .offline ∨ ∃ start since, UpSince events start since := by
  induction events using List.reverseRecOn with
  | nil => exact .inl rfl
  | append_singleton events e ih =>
      rw [run_append]
      cases e with
      | beat status now =>
          cases status with
          | up => exact .inr ⟨now, [], events, rfl, by simp⟩
          | shuttingDown => exact .inl rfl
      | takeOffline => exact .inl rfl
      | evaluate now =>
          rcases ih with offline | ⟨start, since, up⟩
          · left
            show (((new t).run events).evaluate now).status = .offline
            rw [evaluate_of_offline offline, offline]
          · exact .inr ⟨start, _, up.concat rfl⟩
      | userAction time =>
          rcases ih with offline | ⟨start, since, up⟩
          · exact .inl offline
          · exact .inr ⟨start, _, up.concat rfl⟩

/-! ## Actions of users -/

theorem lastUserAction_step {e : Event} (other : ∀ time, e ≠ .userAction time) :
    (h.step e).lastUserAction = h.lastUserAction := by
  cases e with
  | beat status now => cases status <;> rfl
  | evaluate now => rw [step, evaluate_eq]
  | takeOffline => rfl
  | userAction time => exact absurd rfl (other time)

/-- The later of two times, as a tracker keeps it. -/
theorem isGreatest_max {s : Set UInt64} {before : UInt64} (greatest : IsGreatest s before)
    (time : UInt64) : IsGreatest {x | x ∈ s ∨ x = time} (max before time) := by
  have later : max before time = if before ≤ time then time else before := rfl
  rw [later]
  split
  · rename_i ahead
    refine ⟨.inr rfl, ?_⟩
    rintro x (member | rfl)
    · exact UInt64.le_trans (greatest.2 member) ahead
    · exact UInt64.le_refl _
  · rename_i back
    refine ⟨.inl greatest.1, ?_⟩
    rintro x (member | rfl)
    · exact greatest.2 member
    · exact (UInt64.le_total before x).resolve_left back

/-- The times of the users' actions of a history. -/
def recorded (events : List Event) : Set UInt64 := {time | .userAction time ∈ events}

theorem recorded_userAction (events : List Event) (time : UInt64) :
    recorded (events ++ [.userAction time]) = {x | x ∈ recorded events ∨ x = time} := by
  simp [recorded]

theorem recorded_other {e : Event} (events : List Event) (other : ∀ time, e ≠ .userAction time) :
    recorded (events ++ [e]) = recorded events := by
  have apart (time : UInt64) : Event.userAction time ≠ e := (other time).symm
  simp [recorded, apart]

/-- **The last action of a user is the latest one recorded**, whatever became of the health. -/
theorem lastUserAction_run (t : Thresholds) (events : List Event) :
    (((new t).run events).lastUserAction = none → recorded events = ∅) ∧
      ∀ last, ((new t).run events).lastUserAction = some last →
        IsGreatest (recorded events) last := by
  induction events using List.reverseRecOn with
  | nil =>
      refine ⟨fun _ => by simp [recorded], fun last known => ?_⟩
      cases known
  | append_singleton events e ih =>
      obtain ⟨never, latest⟩ := ih
      rw [run_append]
      by_cases records : ∃ time, e = .userAction time
      · obtain ⟨time, rfl⟩ := records
        rw [recorded_userAction]
        constructor
        · intro unknown
          cases unknown
        · intro last known
          obtain rfl := Option.some.inj known
          cases before : ((new t).run events).lastUserAction with
          | none =>
              rw [never before]
              refine ⟨.inr rfl, ?_⟩
              rintro x (nowhere | rfl)
              · exact absurd nowhere (Set.notMem_empty x)
              · exact UInt64.le_refl _
          | some last => exact isGreatest_max (latest last before) time
      · have other : ∀ time, e ≠ .userAction time := fun time same => records ⟨time, same⟩
        have unchanged : (((new t).run events).run [e]).lastUserAction =
            ((new t).run events).lastUserAction := lastUserAction_step other
        rw [unchanged, recorded_other events other]
        exact ⟨never, latest⟩

/-! ## The closed form -/

/-- **A tracker's health in closed form.** A tracker is offline exactly if it is not up: if there was
no heartbeat, or none since a report of shutdown or since it was taken offline. Otherwise its
latest heartbeat came at some `start`. Let `reached` be the greatest of `start` and the times of the
evaluations since, which may have come in any order. Then the health is told by the intervals
between the two, and an evaluation that is no later than `reached` changes nothing. Evaluations may
be repeated and come in another order without any effect on the tracker; only a heartbeat makes the
health better; and the last action of a user is the latest that was recorded. -/
theorem status_of_history {t : Thresholds} (accepted : t.Accepted) (events : List Event) :
    let h := (new t).run events
    (h.status = .offline ↔ ∀ start since, ¬ UpSince events start since) ∧
    (∀ start since, UpSince events start since → ∃ reached,
      IsGreatest {now | now = start ∨ .evaluate now ∈ since} reached ∧
      (let missed := min ((reached.nanos - start.nanos) / t.interval.nanos) 4_294_967_295
       (h.status = .unresponsive ↔ t.unresponsiveAfter.toNat ≤ missed) ∧
       (h.status = .unhealthy ↔
         t.unhealthyAfter.toNat ≤ missed ∧ missed < t.unresponsiveAfter.toNat) ∧
       (h.status = .healthy ↔ missed < t.unhealthyAfter.toNat)) ∧
      ∀ now ≤ reached, h.evaluate now = h) ∧
    (∀ times times' : List Instant, (∀ now, now ∈ times ↔ now ∈ times') →
      h.run (times.map .evaluate) = h.run (times'.map .evaluate)) ∧
    (∀ e, (h.step e).status.severity < h.status.severity → ∃ now, e = .beat .up now) ∧
    (h.lastUserAction = none ↔ recorded events = ∅) ∧
    ∀ last, h.lastUserAction = some last ↔ IsGreatest (recorded events) last := by
  intro h
  obtain ⟨never, latest⟩ := lastUserAction_run t events
  refine ⟨⟨?_, ?_⟩, ?_, ?_, fun e => up_of_severity_lt, ?_, ?_⟩
  · intro offline start since up
    obtain ⟨reached, counted, -⟩ := up.counted accepted
    exact counted.ne_offline offline
  · intro down
    refine (offline_or_upSince t events).resolve_right ?_
    rintro ⟨start, since, up⟩
    exact down start since up
  · intro start since up
    obtain ⟨reached, counted, greatest⟩ := up.counted accepted
    have thresholds : h.thresholds = t := run_thresholds _ _
    have missed := missed_eq (thresholds.symm ▸ accepted) counted.heartbeat reached
    refine ⟨reached, greatest, ?_, fun now => counted.evaluate_of_le⟩
    rw [counted.status, missed, thresholds]
    exact health_eq_iff accepted _
  · intro times times' same
    rcases offline_or_upSince t events with offline | ⟨start, since, up⟩
    · rw [run_evaluations_of_offline offline, run_evaluations_of_offline offline]
    · obtain ⟨reached, counted, -⟩ := up.counted accepted
      exact counted.run_evaluations_congr same
  · refine ⟨never, fun nothing => ?_⟩
    cases known : h.lastUserAction with
    | none => rfl
    | some last => exact absurd (latest last known).1 (nothing ▸ Set.notMem_empty last)
  · refine fun last => ⟨latest last, fun greatest => ?_⟩
    cases known : h.lastUserAction with
    | none => exact absurd greatest.1 (never known ▸ Set.notMem_empty last)
    | some before =>
        have greatest' := latest before known
        exact congrArg some (UInt64.le_antisymm (greatest.2 greatest'.1) (greatest'.2 greatest.1))

/-- Evaluations out of order, one of them twice, and the actions of two users. -/
def demoHistory : List Event :=
  [.beat .up (.ofMillis 1_000), .takeOffline, .beat .up (.ofMillis 5_000), .userAction 70,
    .evaluate (.ofMillis 9_999), .evaluate (.ofMillis 6_000), .userAction 40,
    .evaluate (.ofMillis 9_999), .evaluate (.ofMillis 0)]

theorem status_of_history_demoHistory :
    let h := (new Config.standard.health.thresholds).run demoHistory
    Config.standard.health.thresholds.Accepted ∧
      h.status = .unhealthy ∧ h.evaluate (.ofMillis 9_999) = h ∧ h.lastUserAction = some 70 := by
  have accepted : Config.standard.health.thresholds.Accepted :=
    Config.accepted_thresholds (by decide +kernel) (by decide)
  have up : UpSince demoHistory (.ofMillis 5_000) (demoHistory.drop 3) :=
    ⟨demoHistory.take 2, rfl, by decide⟩
  obtain ⟨-, counted, -⟩ := status_of_history accepted demoHistory
  obtain ⟨reached, greatest, -, back⟩ := counted _ _ up
  have looked : Event.evaluate (.ofMillis 9_999) ∈ demoHistory.drop 3 := by decide
  exact ⟨accepted, by decide, back _ (greatest.2 (.inr looked)), by decide⟩

end HeartbeatTracker

end Dispatch
