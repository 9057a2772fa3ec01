import Dispatch.Health.Monitor
import Dispatch.Proofs.GatewayRuns

/-!
# Health along a run

Each step of the monitor is read as a function from invokers to health: `health_beat`,
`health_remove` and the like. `Follows` says of two monitors that the version tells them apart:
while it stands still, so does everybody's health. For the gateway, `offline_run` says that an
invoker that is offline stays so until it reports up again, and `offline_of_silenced` that a report
of shutdown and an operator's removal take it offline.
-/

set_option autoImplicit false

namespace Dispatch

namespace HealthMonitor

variable {m : HealthMonitor} {id : InvokerId}

theorem trackerOrNew_status (m : HealthMonitor) (id : InvokerId) :
    (m.trackerOrNew id).status = m.health id := by
  unfold trackerOrNew health
  cases m.tracker? id <;> rfl

theorem health_set (m : HealthMonitor) (version : Nat) (id : InvokerId) (t : HeartbeatTracker)
    (other : InvokerId) :
    (⟨m.settings, Table.set id t m.trackers, version⟩ : HealthMonitor).health other =
      if id = other then t.status else m.health other := by
  simp only [health, tracker?, Table.get?_set]
  by_cases same : id = other
  · simp only [same, if_true]
  · simp only [same, if_false]

theorem health_replace (m : HealthMonitor) (id : InvokerId) (before : Health)
    (t : HeartbeatTracker) (other : InvokerId) :
    (m.replace id before t).1.health other = if id = other then t.status else m.health other := by
  unfold replace
  split <;> exact health_set m _ id t other

theorem health_beat (m : HealthMonitor) (id : InvokerId) (status : InvokerStatus) (now : Instant)
    (other : InvokerId) :
    (m.beat id status now).1.health other =
      if id = other then (match status with | .up => .healthy | .shuttingDown => .offline)
      else m.health other := by
  rw [beat, health_replace]
  cases status <;> rfl

theorem health_of_untracked (untracked : m.tracker? id = none) : m.health id = .offline := by
  simp only [health, untracked]

theorem health_of_tracked {t : HeartbeatTracker} (tracked : m.tracker? id = some t) :
    m.health id = t.status := by
  simp only [health, tracked]

theorem health_remove (m : HealthMonitor) (id other : InvokerId) :
    (m.remove id).1.health other = if id = other then .offline else m.health other := by
  cases tracked : m.tracker? id with
  | none =>
      simp only [remove, tracked]
      split
      · rename_i same
        exact same ▸ health_of_untracked tracked
      · rfl
  | some t =>
      simp only [remove, tracked]
      exact health_replace m id t.status t.takeOffline other

theorem health_recordUserAction (m : HealthMonitor) (id : InvokerId) (time : UInt64)
    (other : InvokerId) : (m.recordUserAction id time).health other = m.health other := by
  cases tracked : m.tracker? id with
  | none => simp only [recordUserAction, tracked]
  | some t =>
      simp only [recordUserAction, tracked]
      rw [health_set]
      split
      · rename_i same
        rw [← same, health_of_tracked tracked]
        rfl
      · rfl

/-- Missed heartbeats do not count for an invoker that is offline. -/
theorem health_evaluate_of_offline (now : Instant) {other : InvokerId}
    (offline : m.health other = .offline) (id : InvokerId) :
    (m.evaluate now id).1.health other = .offline := by
  cases tracked : m.tracker? id with
  | none => simpa only [evaluate, tracked] using offline
  | some t =>
      simp only [evaluate, tracked, health_replace]
      split
      · rename_i same
        rw [← same, health_of_tracked tracked] at offline
        rw [HeartbeatTracker.evaluate, if_pos offline, offline]
      · exact offline

/-- What counting the missed heartbeats of any invoker keeps, a sweep keeps. -/
theorem sweep_keeps {P : HealthMonitor → Prop} {now : Instant}
    (keeps : ∀ m id, P m → P (m.evaluate now id).1) (holds : P m) : P (m.sweep now).1 := by
  unfold sweep
  generalize m.trackers.map (·.1) = ids
  induction ids generalizing m with
  | nil => exact holds
  | cons id rest ih => exact ih (keeps m id holds)

theorem health_sweep_of_offline (now : Instant) {other : InvokerId}
    (offline : m.health other = .offline) : (m.sweep now).1.health other = .offline :=
  sweep_keeps (P := fun m => m.health other = .offline)
    (fun _ id offline => health_evaluate_of_offline now offline id) offline

/-! ## Versions tell -/

/-- The version never goes back, and while it stands still nobody's health has changed. -/
structure Follows (m n : HealthMonitor) : Prop where
  version : m.version ≤ n.version
  health : n.version = m.version → ∀ id, n.health id = m.health id

theorem Follows.refl (m : HealthMonitor) : Follows m m := ⟨Nat.le_refl _, fun _ _ => rfl⟩

theorem Follows.trans {m n o : HealthMonitor} (first : Follows m n) (second : Follows n o) :
    Follows m o where
  version := Nat.le_trans first.version second.version
  health still id := by
    have between := first.version
    have onward := second.version
    rw [second.health (by omega), first.health (by omega)]

/-- A tracker is replaced without a new version only if the health stays. -/
theorem follows_replace {before : Health} (was : m.health id = before) (t : HeartbeatTracker) :
    Follows m (m.replace id before t).1 := by
  have after := health_replace m id before t
  unfold replace at after ⊢
  split
  · rename_i same
    simp only [same, if_true] at after
    refine ⟨Nat.le_refl _, ?_⟩
    intro _ other
    rw [after other]
    split
    · rename_i here
      rw [← here, was, same]
    · rfl
  · exact ⟨Nat.le_succ _, fun still => absurd still (Nat.succ_ne_self _)⟩

theorem follows_beat (m : HealthMonitor) (id : InvokerId) (status : InvokerStatus)
    (now : Instant) : Follows m (m.beat id status now).1 :=
  follows_replace (m.trackerOrNew_status id).symm _

theorem follows_evaluate (now : Instant) (m : HealthMonitor) (id : InvokerId) :
    Follows m (m.evaluate now id).1 := by
  cases tracked : m.tracker? id with
  | none =>
      simp only [evaluate, tracked]
      exact .refl m
  | some t =>
      simp only [evaluate, tracked]
      exact follows_replace (health_of_tracked tracked) _

theorem follows_sweep (m : HealthMonitor) (now : Instant) : Follows m (m.sweep now).1 :=
  sweep_keeps (fun n id follows => follows.trans (follows_evaluate now n id)) (.refl m)

theorem follows_remove (m : HealthMonitor) (id : InvokerId) : Follows m (m.remove id).1 := by
  cases tracked : m.tracker? id with
  | none =>
      simp only [remove, tracked]
      exact .refl m
  | some t =>
      simp only [remove, tracked]
      exact follows_replace (health_of_tracked tracked) _

theorem follows_recordUserAction (m : HealthMonitor) (id : InvokerId) (time : UInt64) :
    Follows m (m.recordUserAction id time) where
  version := by
    unfold recordUserAction
    split <;> exact Nat.le_refl _
  health _ other := health_recordUserAction m id time other

end HealthMonitor

namespace Registry

/-- What registering an invoker does: one that is known stays, another one is the last of a fleet
that has grown for it, unless its ordinal is the largest word. -/
theorem register_cases (r : Registry) (id : InvokerId) :
    (id.ordinal.toNat < r.size ∧ r.register id = (r, .known)) ∨
    (r.size ≤ id.ordinal.toNat ∧ id.ordinal.toNat < Numeral.maxWord64 ∧
      r.register id = ({ r with size := id.ordinal.toNat + 1, version := r.version + 1 },
        .grew (id.ordinal.toNat + 1))) ∨
    (r.size ≤ id.ordinal.toNat ∧ Numeral.maxWord64 ≤ id.ordinal.toNat ∧
      r.register id = (r, .sizeOutOfRange)) := by
  simp only [register, wordSize, Numeral.maxWord64]
  by_cases known : id.ordinal.toNat < r.size
  · exact .inl ⟨known, if_pos known⟩
  · rw [if_neg known]
    by_cases room : id.ordinal.toNat + 1 < 18_446_744_073_709_551_616
    · exact .inr (.inl ⟨Nat.not_lt.mp known, Nat.lt_of_succ_lt_succ room, if_pos room⟩)
    · exact .inr (.inr ⟨Nat.not_lt.mp known, Nat.le_of_lt_succ (Nat.not_lt.mp room), if_neg room⟩)

/-- Below the largest word, registering an invoker makes the fleet just large enough for it. -/
theorem size_register (r : Registry) {id : InvokerId}
    (below : id.ordinal.toNat < Numeral.maxWord64) :
    (r.register id).1.size = max r.size (id.ordinal.toNat + 1) := by
  rcases r.register_cases id with ⟨known, same⟩ | ⟨new, -, grown⟩ | ⟨-, last, -⟩
  · rw [same]
    exact (Nat.max_eq_left known).symm
  · rw [grown]
    exact (Nat.max_eq_right (Nat.le_succ_of_le new)).symm
  · exact absurd below (Nat.not_lt.mpr last)

/-- Registering moves the size and the version alone. -/
theorem register_keeps (r : Registry) (id : InvokerId) :
    ∃ size version, (r.register id).1 = { r with size, version } := by
  rcases r.register_cases id with ⟨-, same⟩ | ⟨-, -, grown⟩ | ⟨-, -, same⟩
  · exact ⟨_, _, congrArg Prod.fst same⟩
  · exact ⟨_, _, congrArg Prod.fst grown⟩
  · exact ⟨_, _, congrArg Prod.fst same⟩

/-- The fleet never gets smaller. -/
theorem size_le_register (r : Registry) (id : InvokerId) : r.size ≤ (r.register id).1.size := by
  rcases r.register_cases id with ⟨-, same⟩ | ⟨new, -, grown⟩ | ⟨-, -, same⟩
  · exact Nat.le_of_eq (by rw [same])
  · exact grown ▸ Nat.le_succ_of_le new
  · exact Nat.le_of_eq (by rw [same])

/-- The version of the membership goes up exactly if the fleet grows. -/
theorem version_register (r : Registry) (id : InvokerId) :
    (r.register id).1.version =
      r.version + if r.size < (r.register id).1.size then 1 else 0 := by
  rcases r.register_cases id with ⟨-, same⟩ | ⟨new, -, grown⟩ | ⟨-, -, same⟩
  · rw [same, if_neg (Nat.lt_irrefl _), Nat.add_zero]
  · rw [grown, if_pos (Nat.lt_succ_of_le new)]
  · rw [same, if_neg (Nat.lt_irrefl _), Nat.add_zero]

theorem poolOf_eq_none_iff {r : Registry} {id : InvokerId} :
    r.poolOf id = none ↔ r.size ≤ id.ordinal.toNat := by
  unfold poolOf
  split
  · rename_i beyond
    exact iff_of_true rfl beyond
  · rename_i within
    split <;> simp [within]

end Registry

namespace Gateway

variable {g : Gateway} {i : InvokerId}

/-- An invoker reports that it is up. -/
def Event.Revives (i : InvokerId) : Event → Prop
  | .heartbeat h _ => h.invoker = i ∧ h.status = .up
  | _ => False

/-- An invoker reports that it is shutting down, or an operator removes it. -/
def Event.Silences (i : InvokerId) : Event → Prop
  | .heartbeat h _ => h.invoker = i ∧ h.status = .shuttingDown
  | .remove id => id = i
  | _ => False

/-- Whoever reports has an ordinal below the largest word. -/
def Event.Listed : Event → Prop
  | .heartbeat h _ => h.invoker.ordinal.toNat < Numeral.maxWord64
  | _ => True

theorem heartbeat_registry (g : Gateway) (h : Heartbeat) (now : Instant) :
    (g.processHeartbeat h now).registry = (g.registry.register h.invoker).1 := by
  simp only [processHeartbeat]
  split <;> rfl

/-- A heartbeat of an invoker that has a position reaches the monitor. -/
theorem heartbeat_monitor (g : Gateway) (h : Heartbeat) (now : Instant) :
    (g.processHeartbeat h now).monitor =
      if (g.registry.register h.invoker).1.poolOf h.invoker = none then g.monitor
      else (g.monitor.beat h.invoker h.status now).1 := by
  simp only [processHeartbeat]
  split
  · rename_i nowhere
    rw [if_pos nowhere]
  · rename_i pool there
    rw [if_neg (by rw [there]; exact Option.some_ne_none pool)]

/-- A heartbeat of an ordinal below the largest word gives its invoker a position. -/
theorem registered_of_lt (g : Gateway) {h : Heartbeat}
    (below : h.invoker.ordinal.toNat < Numeral.maxWord64) :
    (g.registry.register h.invoker).1.poolOf h.invoker ≠ none := by
  rw [Ne, Registry.poolOf_eq_none_iff, Registry.size_register _ below]
  omega

theorem complete_health (g : Gateway) (c : Completion) (calendar : UInt64) (i : InvokerId) :
    (g.processCompletion c calendar).1.monitor.health i = g.monitor.health i := by
  simp only [processCompletion]
  split
  · exact HealthMonitor.health_recordUserAction _ _ _ i
  · rfl

theorem remove_health (g : Gateway) (id i : InvokerId) :
    (g.removeInvoker id).1.monitor.health i =
      if g.registry.poolOf id ≠ none ∧ id = i then .offline else g.monitor.health i := by
  simp only [removeInvoker]
  split
  · rename_i nowhere
    rw [if_neg fun both => both.1 nowhere]
  · rename_i pool there
    rw [HealthMonitor.health_remove]
    simp [there]

/-- **Who is offline stays offline until it reports that it is up.** -/
theorem offline_step (offline : g.monitor.health i = .offline) {e : Event}
    (quiet : ¬ e.Revives i) : (g.step e).monitor.health i = .offline := by
  cases e with
  | submit r now calendar =>
      rw [step, (submit_frame g r now calendar).monitor]
      exact offline
  | complete c calendar =>
      rw [step, complete_health]
      exact offline
  | heartbeat h now =>
      rw [step, heartbeat_monitor]
      split
      · exact offline
      · rw [HealthMonitor.health_beat]
        split
        · rename_i same
          cases status : h.status with
          | up => exact absurd ⟨same, status⟩ quiet
          | shuttingDown => rfl
        · exact offline
  | remove id =>
      rw [step, remove_health]
      split
      · rfl
      · exact offline
  | sweep now => exact HealthMonitor.health_sweep_of_offline now offline
  | elapse | expire | list | store | bus => exact offline

theorem offline_run {events : List Event} (quiet : ∀ e ∈ events, ¬ e.Revives i) {g : Gateway}
    (offline : g.monitor.health i = .offline) : (g.run events).monitor.health i = .offline :=
  run_keeps_where (P := fun g => g.monitor.health i = .offline)
    (fun _ _ offline quiet => offline_step offline quiet) quiet offline

/-! ## Positions -/

/-- Who has no position is offline. -/
def Positioned (g : Gateway) : Prop :=
  ∀ i, g.registry.size ≤ i.ordinal.toNat → g.monitor.health i = .offline

/-- Apart from the snapshot handed out last, the registry moves with heartbeats alone. -/
theorem registry_step (g : Gateway) (e : Event) :
    (∃ h now, e = .heartbeat h now ∧
      (g.step e).registry = (g.registry.register h.invoker).1) ∨
    ∃ current builds, (g.step e).registry = { g.registry with current, builds } := by
  cases e with
  | submit r now calendar => exact .inr (submit_frame g r now calendar).membership
  | heartbeat h now => exact .inl ⟨h, now, rfl, g.heartbeat_registry h now⟩
  | remove id =>
      simp only [step, removeInvoker]
      split <;> exact .inr ⟨_, _, rfl⟩
  | list => exact .inr g.refreshed_registry
  | complete | elapse | expire | sweep | store | bus => exact .inr ⟨_, _, rfl⟩

theorem size_le_step (g : Gateway) (e : Event) :
    g.registry.size ≤ (g.step e).registry.size := by
  rcases g.registry_step e with ⟨h, now, -, registered⟩ | ⟨current, builds, same⟩
  · rw [registered]
    exact g.registry.size_le_register h.invoker
  · exact Nat.le_of_eq (by rw [same])

theorem positioned_step (positioned : Positioned g) {e : Event} (listed : e.Listed) :
    Positioned (g.step e) := by
  intro i beyond
  have before := positioned i (Nat.le_trans (g.size_le_step e) beyond)
  apply offline_step before
  intro revives
  cases e with
  | heartbeat h now =>
      obtain ⟨rfl, -⟩ := revives
      rw [step, heartbeat_registry, Registry.size_register _ listed] at beyond
      omega
  | _ => exact revives

theorem positioned_run {events : List Event} (listed : ∀ e ∈ events, e.Listed) {g : Gateway}
    (positioned : Positioned g) : Positioned (g.run events) :=
  run_keeps_where (P := Positioned) (fun _ _ positioned listed => positioned_step positioned listed)
    listed positioned

/-- **A report of shutdown and a removal take an invoker offline.** -/
theorem offline_of_silenced (positioned : Positioned g) {e : Event} (listed : e.Listed)
    (silences : e.Silences i) : (g.step e).monitor.health i = .offline := by
  cases e with
  | heartbeat h now =>
      obtain ⟨rfl, status⟩ := silences
      have there := g.registered_of_lt listed
      rw [step, heartbeat_monitor, if_neg there, HealthMonitor.health_beat, if_pos rfl, status]
  | remove id =>
      obtain rfl := silences
      rw [step, remove_health]
      by_cases nowhere : g.registry.poolOf id = none
      · rw [if_neg fun both => both.1 nowhere]
        exact positioned id (Registry.poolOf_eq_none_iff.mp nowhere)
      · rw [if_pos ⟨nowhere, rfl⟩]
  | _ => exact absurd silences id

end Gateway

end Dispatch
