import Dispatch.Proofs.FleetSnapshots

/-!
# Joining the fleet

What a heartbeat is for is said by `Joined`: its invoker has a position, nobody loses one, and
totals and health are those of the report. `joined_iff` says for which ordinals a heartbeat does
all that, in every state that a gateway can reach. The largest ordinal is the exception: a fleet
that had a position for it would have a size that is no word, so the heartbeat breaks off
(`breaksOff_iff`), and nothing of it is taken in (`heartbeat_of_breaksOff`).
-/

set_option autoImplicit false

namespace Dispatch

/-- The health that a report stands for. -/
def InvokerStatus.health : InvokerStatus → Health
  | .up => .healthy
  | .shuttingDown => .offline

namespace Gateway

/-- A heartbeat was taken in: the fleet is just large enough for its invoker, which has a position
now, everybody who had a position still has one, and totals and health are those of the report. -/
structure Joined (g after : Gateway) (h : Heartbeat) : Prop where
  size : after.registry.size = max g.registry.size (h.invoker.ordinal.toNat + 1)
  positioned : (after.registry.poolOf h.invoker).isSome = true
  kept : ∀ id, (g.registry.poolOf id).isSome = true → (after.registry.poolOf id).isSome = true
  totals : ∃ account, after.ledger.account? h.invoker = some account ∧
    account.totalMemory = h.capacity.totalMemory ∧ account.totalSlots = h.capacity.totalSlots
  health : after.monitor.health h.invoker = h.status.health

theorem isSome_poolOf {r : Registry} {id : InvokerId} :
    (r.poolOf id).isSome = true ↔ id.ordinal.toNat < r.size := by
  rw [Option.isSome_iff_ne_none, Ne, Registry.poolOf_eq_none_iff, Nat.not_le]

/-- A heartbeat of an invoker that gets a position tells the ledger its totals. -/
theorem heartbeat_ledger {g : Gateway} {h : Heartbeat}
    (positioned : (g.registry.register h.invoker).1.poolOf h.invoker ≠ none) (now : Instant) :
    (g.processHeartbeat h now).ledger =
      g.ledger.setCapacity h.invoker h.capacity.totalMemory h.capacity.totalSlots := by
  simp only [processHeartbeat]
  split
  · rename_i nowhere
    exact absurd nowhere positioned
  · rfl

theorem heartbeat_account? {g : Gateway} {h : Heartbeat} {now : Instant}
    (positioned : (g.registry.register h.invoker).1.poolOf h.invoker ≠ none) :
    (g.processHeartbeat h now).ledger.account? h.invoker =
      some { (g.ledger.account? h.invoker).getD .none with
        totalMemory := h.capacity.totalMemory
        totalSlots := h.capacity.totalSlots } := by
  rw [heartbeat_ledger positioned]
  exact (Ledger.account?_set _ _ _ _).trans (if_pos rfl)

theorem joined_of_lt (g : Gateway) {h : Heartbeat} (now : Instant)
    (below : h.invoker.ordinal.toNat < Numeral.maxWord64) :
    Joined g (g.processHeartbeat h now) h := by
  have registry := g.heartbeat_registry h now
  have size : (g.processHeartbeat h now).registry.size =
      max g.registry.size (h.invoker.ordinal.toNat + 1) := by
    rw [registry, Registry.size_register _ below]
  have positioned : ((g.processHeartbeat h now).registry.poolOf h.invoker).isSome = true := by
    rw [isSome_poolOf, size]
    omega
  have there := g.registered_of_lt below
  refine ⟨size, positioned, ?_, ⟨_, heartbeat_account? there, rfl, rfl⟩, ?_⟩
  · intro id before
    rw [isSome_poolOf] at before ⊢
    rw [size]
    omega
  · rw [heartbeat_monitor, if_neg there, HealthMonitor.health_beat, if_pos rfl]
    cases h.status <;> rfl

/-- **A heartbeat breaks off at the largest ordinal alone.** -/
theorem breaksOff_iff {g : Gateway} (bounded : g.registry.size < wordSize) {h : Heartbeat} :
    g.breaksOff h = true ↔ ¬ h.invoker.ordinal.toNat < Numeral.maxWord64 := by
  rw [wordSize] at bounded
  rw [breaksOff, decide_eq_true_iff, Numeral.maxWord64]
  rcases g.registry.register_cases h.invoker with
    ⟨known, same⟩ | ⟨-, below, grown⟩ | ⟨-, last, same⟩
  · rw [same]
    exact iff_of_false (fun broken => by cases broken) (by omega)
  · rw [grown]
    exact iff_of_false (fun broken => by cases broken) (not_not_intro below)
  · rw [same]
    exact iff_of_true rfl (Nat.not_lt.mpr last)

/-- **Of a heartbeat that breaks off nothing is taken in.** -/
theorem heartbeat_of_breaksOff {g : Gateway} {h : Heartbeat} (broken : g.breaksOff h = true)
    (now : Instant) : g.processHeartbeat h now = g := by
  rw [breaksOff, decide_eq_true_iff] at broken
  rcases g.registry.register_cases h.invoker with ⟨-, same⟩ | ⟨-, -, grown⟩ | ⟨beyond, -, same⟩
  · rw [same] at broken
    cases broken
  · rw [grown] at broken
    cases broken
  · simp only [processHeartbeat, same, Registry.poolOf_eq_none_iff.mpr beyond]

/-- **A heartbeat is taken in exactly if its ordinal is below the largest word.** After any run of
a new gateway, such a heartbeat makes the fleet as large as it was or just large enough for its
invoker, whichever is more; nobody loses a position, and totals and health are those of the report.
The heartbeat of the largest ordinal breaks off, and leaves the gateway as it was. -/
theorem joined_iff (config : Config) (store : Store) (bus : Bus) (mint : Nat → ActivationId)
    (events : List Event) (h : Heartbeat) (now : Instant) :
    let g := (new config store bus mint).run events
    (Joined g (g.processHeartbeat h now) h ↔ h.invoker.ordinal.toNat < Numeral.maxWord64) ∧
    (g.breaksOff h = true ↔ ¬ h.invoker.ordinal.toNat < Numeral.maxWord64) ∧
    (g.breaksOff h = true → g.processHeartbeat h now = g) := by
  intro g
  have bounded : g.registry.size < wordSize := size_run_lt config store bus mint events
  refine ⟨⟨fun joined => ?_, joined_of_lt g now⟩, breaksOff_iff bounded,
    fun broken => heartbeat_of_breaksOff broken now⟩
  by_contra last
  have grown := joined.size
  rw [heartbeat_of_breaksOff ((breaksOff_iff bounded).mpr last)] at grown
  have large := Nat.le_of_not_lt last
  rw [Numeral.maxWord64] at large
  rw [wordSize] at bounded
  omega

/-- A report with the largest ordinal, as it travels. -/
def lastOrdinalReport : Bytes :=
  Json.ascii ("\x7b\"invoker\":18446744073709551615,\"capacity\":\x7b\"total_memory_mb\":1024," ++
    "\"used_memory_mb\":0,\"total_slots\":4,\"used_slots\":0\x7d,\"timestamp_ms\":0," ++
    "\"status\":\"up\"\x7d")

/-- It can be read, and it breaks off: its invoker gets no position, no totals and no health. -/
theorem broken_off_by_last_ordinal :
    ∃ h, Heartbeat.codec.decode lastOrdinalReport = .ok h ∧
      h.invoker.ordinal.toNat = Numeral.maxWord64 ∧ h.status = .up ∧
      let g := demo.run [.heartbeat ⟨⟨0⟩, ⟨1024, 0, 4, 0⟩, 0, .up⟩ .origin]
      let after := g.processHeartbeat h .origin
      g.breaksOff h = true ∧ after.registry.size = 1 ∧
        after.registry.poolOf h.invoker = none ∧ after.ledger.account? h.invoker = none ∧
        after.monitor.health h.invoker = .offline ∧ ¬ Joined g after h := by
  refine ⟨⟨⟨18446744073709551615⟩, ⟨1024, 0, 4, 0⟩, 0, .up⟩, by decide +kernel, rfl, rfl, ?_⟩
  refine ⟨by decide +kernel, by decide +kernel, by decide +kernel, by decide +kernel,
    by decide +kernel, ?_⟩
  intro joined
  have positioned := joined.positioned
  revert positioned
  decide +kernel

end Gateway

end Dispatch
