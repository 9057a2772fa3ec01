import Dispatch.Proofs.GatewayRuns

/-!
# Conservation of capacity

The reservation of an activation is made by the placement, kept by the table of activations in
flight, and given back on one of several ways out, while heartbeats change the totals in between.
What ties the ledger to the table is `InFlight.Balanced`; `balanced_step` says that every event
keeps it, and `capacity_conserved` reads it off after a whole run: no invoker ever has more or less
in use than its activations in flight have reserved, so no release is ever cut short.
-/

set_option autoImplicit false

namespace Dispatch.Gateway

/-- Every activation in flight can be given back in full: its invoker has an account, with as much
in use. -/
def Repayable (g : Gateway) : Prop :=
  ∀ id a, g.flight.get? id = some a → g.ledger.Holds a.invoker a.memory

/-- What a run keeps: identifiers are given out once, and the accounts are balanced. -/
structure Sound (g : Gateway) : Prop where
  supply : Function.Injective g.mint
  orderly : Orderly g
  balanced : g.flight.Balanced

theorem repayable_of_balanced {g : Gateway} (balanced : g.flight.Balanced) : Repayable g := by
  intro id a there
  obtain ⟨r, pending, rfl⟩ := InFlight.get?_eq_some_iff.mp there
  exact balanced.holds pending

theorem sound_new (config : Config) (store : Store) (bus : Bus) {mint : Nat → ActivationId}
    (supply : Function.Injective mint) : Sound (new config store bus mint) :=
  ⟨supply, orderly_new config store bus mint, InFlight.balanced_new _ _⟩

/-- Reserving for an activation and registering it keeps the accounts balanced. -/
theorem Sound.enlist {g enlisted : Gateway} (sound : Sound g) {r : Request} {a : Action}
    {invoker : InvokerId} {now : Instant}
    (room : g.ledger.accepts invoker a.limits.memory = true)
    (enlist : (g.refreshed.reserved invoker a.limits.memory).enlist r a invoker now =
      some enlisted) : Sound enlisted := by
  have orderly := (sound.orderly.reserved invoker a.limits.memory).enlist enlist
  obtain ⟨deadline, -, rfl⟩ := enlist_eq_some enlist
  exact ⟨sound.supply, orderly,
    sound.balanced.add_reserved (sound.orderly.fresh sound.supply) room⟩

theorem balanced_submit {g : Gateway} (sound : Sound g) {r : Request} {now : Instant}
    {calendar : UInt64} (timely : (g.submit r now calendar).2 ≠ .error .deadlineOutOfRange) :
    (g.submit r now calendar).1.flight.Balanced := by
  have outcome := submit_outcome g r now calendar
  generalize (g.submit r now calendar).1 = after, (g.submit r now calendar).2 = result
    at outcome timely ⊢
  cases outcome with
  | unknown => exact sound.balanced
  | overloaded => exact sound.balanced.congr rfl (fun _ => rfl) (fun _ => rfl)
  | unnamed => exact absurd rfl timely
  | unpublished _ target enlist _ =>
      have enlisted := sound.enlist (accepts_of_target target) enlist
      have withdrawn := enlisted.balanced.attempt (InFlight.attempt_abandon _ (g.mint g.minted))
      exact withdrawn.congr rfl (fun _ => rfl) (fun _ => rfl)
  | published _ target enlist _ =>
      have enlisted := sound.enlist (accepts_of_target target) enlist
      exact enlisted.balanced.congr rfl (fun _ => rfl) (fun _ => rfl)

theorem balanced_heartbeat {g : Gateway} (balanced : g.flight.Balanced) (h : Heartbeat)
    (now : Instant) : (g.processHeartbeat h now).flight.Balanced := by
  simp only [processHeartbeat]
  split
  · exact balanced
  · have kept := Ledger.setCapacity_keeps g.ledger h.invoker h.capacity.totalMemory
      h.capacity.totalSlots
    exact balanced.congr rfl (fun i => (kept i).1) (fun i => (kept i).2)

/-- **Every event keeps the accounts balanced.** -/
theorem balanced_step {g : Gateway} (sound : Sound g) (e : Event) (timely : e.Timely g) :
    (g.step e).flight.Balanced := by
  cases e with
  | submit r now calendar => exact balanced_submit sound timely
  | complete c calendar => exact sound.balanced.attempt (InFlight.attempt_resolve _ c)
  | elapse now => exact sound.balanced.fireAll _
  | expire id => exact sound.balanced.attempt (InFlight.attempt_expire _ id)
  | heartbeat h now => exact balanced_heartbeat sound.balanced h now
  | remove id =>
      simp only [step, removeInvoker]
      split <;> exact sound.balanced
  | sweep | list | store | bus => exact sound.balanced

theorem sound_run {g : Gateway} (sound : Sound g) (events : List Event)
    (timely : Timely g events) : Sound (g.run events) :=
  run_keeps (P := Sound)
    (fun h e sound timely => ⟨by rw [(step_settings h e).1]; exact sound.supply,
      orderly_step h e sound.orderly, balanced_step sound e timely⟩) events sound timely

/-- **Capacity is conserved.** After any run of a new gateway with fresh identifiers, the memory and
the slots in use on every invoker are those of the activations in flight on it. So no release is
cut short at zero or meets an unknown account: what is in flight can be given back in full, also
between the timers that go off at one instant, and in the middle of a submission, where an
activation is registered whose publication may yet fail. -/
theorem capacity_conserved (config : Config) (store : Store) (bus : Bus)
    {mint : Nat → ActivationId} (supply : Function.Injective mint) (events : List Event)
    (timely : Timely (new config store bus mint) events) :
    let g := (new config store bus mint).run events
    (∀ i, g.ledger.usedMemory i = g.flight.memoryOn i ∧
      g.ledger.usedSlots i = g.flight.inFlightOn i) ∧
    (∀ fired : List Timer, Repayable { g with flight := fired.foldl InFlight.fire g.flight }) ∧
    ∀ r a now placed invoker enlisted, g.place r a = (placed, some invoker) →
      placed.enlist r a invoker now = some enlisted → Repayable enlisted := by
  have sound := sound_run (sound_new config store bus supply) events timely
  refine ⟨?_, ?_, ?_⟩
  · intro i
    exact ⟨sound.balanced.memory i, sound.balanced.slots i⟩
  · intro fired
    exact repayable_of_balanced (sound.balanced.fireAll fired)
  · intro r a now placed invoker enlisted place enlist
    rw [place_eq] at place
    split at place
    · cases place
    · rename_i slot target
      obtain ⟨rfl, same⟩ := Prod.mk.inj place
      obtain rfl := Option.some.inj same
      exact repayable_of_balanced (sound.enlist (accepts_of_target target) enlist).balanced

/-- A day at the demonstration gateway: an invoker whose totals come and go, two activations that
are published, one that finds no room and one that finds its topic full, and a completion that
comes twice, each time from the wrong invoker. -/
def demoDay : List Event :=
  let report (memory : UInt64) : Heartbeat := ⟨⟨0⟩, ⟨memory, 77, 3, 9⟩, 0, .up⟩
  let completion : Completion := ⟨counting 0, ⟨7⟩, true, false, none⟩
  [.heartbeat (report 1024) .origin, .submit demoRequest .origin 0,
    .submit demoRequest .origin 0, .heartbeat (report 100) .origin,
    .submit demoRequest .origin 0, .complete completion 0, .complete completion 0,
    .heartbeat (report 1024) .origin, .submit demoRequest .origin 0, .remove ⟨0⟩, .sweep .origin]

/-- At the end of that day one activation is in flight, and its memory is in use. -/
theorem capacity_conserved_demoDay :
    Function.Injective counting ∧ Timely demo demoDay ∧
      (demo.run demoDay).ledger.usedMemory ⟨0⟩ = (demo.run demoDay).flight.memoryOn ⟨0⟩ ∧
      (demo.run demoDay).flight.memoryOn ⟨0⟩ = 256 := by
  have timely : Timely demo demoDay := by decide +kernel
  have conserved := capacity_conserved .standard _ (.new 2) counting_injective demoDay timely
  exact ⟨counting_injective, timely, (conserved.1 ⟨0⟩).1, by decide +kernel⟩

end Dispatch.Gateway
