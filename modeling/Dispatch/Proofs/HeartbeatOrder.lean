import Dispatch.Proofs.Listing
import Dispatch.Proofs.Membership
import Dispatch.Proofs.MonitorRuns

/-!
# The order of heartbeats

An `Outline` is what heartbeats move, as far as anybody can see it: the size of the fleet, the
accounts, everybody's health, and the version of the health. A heartbeat acts on the outline in a
closed form, `Outline.hear`, from which the time of its arrival has dropped out
(`outline_heartbeat`). There, heartbeats of different invokers commute, so a batch may be taken in in
any order that keeps each invoker's own heartbeats in theirs (`foldl_eq_of_filter_eq`). The version
of the membership is no part of the outline: it counts growths, and fewer of them are needed if the
largest ordinal comes first.
-/

set_option autoImplicit false

namespace Dispatch

/-- **Steps that commute unless they have the same key may be taken in any order that keeps the
steps of each key in theirs.** -/
theorem foldl_eq_of_filter_eq {σ α κ : Type} [DecidableEq κ] {f : σ → α → σ} {key : α → κ}
    (comm : ∀ s a b, key a ≠ key b → f (f s a) b = f (f s b) a) {one other : List α}
    (alike : ∀ k, one.filter (key · = k) = other.filter (key · = k)) (s : σ) :
    one.foldl f s = other.foldl f s := by
  have pulled : ∀ (a : α) (before : List α), (∀ b ∈ before, key b ≠ key a) → ∀ s,
      f (before.foldl f s) a = before.foldl f (f s a) := by
    intro a before apart
    induction before with
    | nil => exact fun _ => rfl
    | cons b rest ih =>
        intro s
        have swapped := comm s b a (apart b List.mem_cons_self)
        have later := ih (fun c member => apart c (List.mem_cons_of_mem b member)) (f s b)
        rw [List.foldl_cons, later, swapped, List.foldl_cons]
  induction one generalizing other s with
  | nil =>
      have empty : other = [] := by
        rw [List.eq_nil_iff_forall_not_mem]
        intro a member
        have own : a ∈ other.filter (key · = key a) := List.mem_filter.mpr ⟨member, by simp⟩
        rw [← alike] at own
        cases own
      rw [empty]
  | cons a rest ih =>
      -- The first item is the first of its key in the other list, too: it is pulled to the front.
      have first := (alike (key a)).symm
      rw [List.filter_cons_of_pos (by simp)] at first
      obtain ⟨before, after, rfl, apart, -, same⟩ := List.filter_eq_cons_iff.mp first
      have others : ∀ b ∈ before, key b ≠ key a := by simpa using apart
      have alike' : ∀ k, rest.filter (key · = k) = (before ++ after).filter (key · = k) := by
        intro k
        by_cases own : key a = k
        · have absent : before.filter (key · = k) = [] := by
            rw [List.filter_eq_nil_iff]
            intro b member
            simpa [← own] using others b member
          rw [List.filter_append, absent, List.nil_append, ← own]
          exact same.symm
        · have both := alike k
          rw [List.filter_cons_of_neg (by simpa using own), List.filter_append,
            List.filter_cons_of_neg (by simpa using own), ← List.filter_append] at both
          exact both
      rw [List.foldl_cons, ih alike' (f s a), List.foldl_append, List.foldl_append, List.foldl_cons,
        pulled a before others]

/-! ## What a heartbeat does -/

namespace HealthMonitor

/-- A heartbeat is a transition exactly if its invoker had another health. -/
theorem version_beat_eq (m : HealthMonitor) (id : InvokerId) (status : InvokerStatus)
    (now : Instant) :
    (m.beat id status now).1.version =
      if m.health id = status.health then m.version else m.version + 1 := by
  have after : ((m.trackerOrNew id).beat now status).status = status.health := by
    cases status <;> rfl
  rw [beat, trackerOrNew_status, replace, after]
  split <;> rfl

theorem lastUserAction_beat (m : HealthMonitor) (id : InvokerId) (status : InvokerStatus)
    (now : Instant) (i : InvokerId) :
    (m.beat id status now).1.lastUserAction i = m.lastUserAction i := by
  have kept : ((m.trackerOrNew id).beat now status).lastUserAction = m.lastUserAction id := by
    rw [← trackerOrNew_lastUserAction]
    cases status <;> rfl
  rw [lastUserAction, beat, tracker?_replace]
  split
  · rename_i same
    rw [← same]
    exact kept
  · rfl

end HealthMonitor

namespace Gateway

variable {g : Gateway} {h : Heartbeat}

/-- What heartbeats move, as far as anybody can see it. -/
@[ext]
structure Outline where
  size : Nat
  account : InvokerId → Option Capacity
  health : InvokerId → Health
  /-- How many transitions of health there were. -/
  version : Nat

def outline (g : Gateway) : Outline :=
  ⟨g.registry.size, g.ledger.account?, g.monitor.health, g.monitor.version⟩

/-- The fleet is made large enough, the totals and the health are those of the report, and a change
of health is counted. -/
def Outline.hear (o : Outline) (h : Heartbeat) : Outline where
  size := max o.size (h.invoker.ordinal.toNat + 1)
  account := Function.update o.account h.invoker (some { (o.account h.invoker).getD .none with
    totalMemory := h.capacity.totalMemory
    totalSlots := h.capacity.totalSlots })
  health := Function.update o.health h.invoker h.status.health
  version := if o.health h.invoker = h.status.health then o.version else o.version + 1

/-- **Heartbeats of different invokers commute.** -/
theorem Outline.hear_comm (o : Outline) (h k : Heartbeat) (apart : h.invoker ≠ k.invoker) :
    (o.hear h).hear k = (o.hear k).hear h := by
  simp only [hear, Function.update_of_ne apart, Function.update_of_ne apart.symm]
  ext1
  · show max (max _ _) _ = max (max _ _) _
    omega
  · exact Function.update_comm apart _ _ _
  · exact Function.update_comm apart _ _ _
  · dsimp only
    split <;> split <;> rfl

/-- **A heartbeat acts on the outline alone, whenever it arrives.** -/
theorem outline_heartbeat (g : Gateway) (now : Instant)
    (below : h.invoker.ordinal.toNat < Numeral.maxWord64) :
    (g.processHeartbeat h now).outline = g.outline.hear h := by
  have positioned := g.registered_of_lt below
  have monitor := g.heartbeat_monitor h now
  rw [if_neg positioned] at monitor
  ext1
  · exact (joined_of_lt g now below).size
  · funext i
    show (g.processHeartbeat h now).ledger.account? i = Function.update g.ledger.account? _ _ i
    rw [heartbeat_ledger positioned, Ledger.setCapacity, Ledger.account?_set, Function.update_apply]
    simp only [eq_comm]
    rfl
  · funext i
    show (g.processHeartbeat h now).monitor.health i = Function.update g.monitor.health _ _ i
    rw [monitor, HealthMonitor.health_beat, Function.update_apply]
    simp only [eq_comm]
    rfl
  · show (g.processHeartbeat h now).monitor.version = _
    rw [monitor, HealthMonitor.version_beat_eq]
    rfl

/-! ## Batches -/

/-- A batch of heartbeats as it comes in, each with the time of its arrival. -/
def heartbeats (batch : List (Heartbeat × Instant)) : List Event :=
  batch.map fun (h, now) => .heartbeat h now

/-- The heartbeats of an invoker in a batch. -/
def sentBy (i : InvokerId) (batch : List (Heartbeat × Instant)) : List Heartbeat :=
  (batch.map (·.1)).filter (·.invoker = i)

theorem outline_run (batch : List (Heartbeat × Instant)) (g : Gateway)
    (below : ∀ entry ∈ batch, entry.1.invoker.ordinal.toNat < Numeral.maxWord64) :
    (g.run (heartbeats batch)).outline = (batch.map (·.1)).foldl Outline.hear g.outline := by
  induction batch generalizing g with
  | nil => rfl
  | cons entry rest ih =>
      obtain ⟨h, now⟩ := entry
      have heard := g.outline_heartbeat now (below _ List.mem_cons_self)
      have later := ih (g.processHeartbeat h now)
        (fun e member => below e (List.mem_cons_of_mem _ member))
      rw [heard] at later
      exact later

/-- What no heartbeat touches, of what the listing shows. -/
theorem heartbeats_keep (batch : List (Heartbeat × Instant)) (g : Gateway) :
    (g.run (heartbeats batch)).registry.fraction = g.registry.fraction ∧
      ∀ i, (g.run (heartbeats batch)).monitor.lastUserAction i = g.monitor.lastUserAction i := by
  induction batch generalizing g with
  | nil => exact ⟨rfl, fun _ => rfl⟩
  | cons entry rest ih =>
      obtain ⟨h, now⟩ := entry
      obtain ⟨fraction, lastUserAction⟩ := ih (g.processHeartbeat h now)
      refine ⟨fraction.trans ?_, fun i => (lastUserAction i).trans ?_⟩
      · obtain ⟨size, version, moved⟩ := g.registry.register_keeps h.invoker
        rw [heartbeat_registry, moved]
      · rw [heartbeat_monitor]
        split
        · rfl
        · exact HealthMonitor.lastUserAction_beat _ _ _ _ i

/-- A row of the listing depends on the outline, the share of the blackbox pool and the last user
action of its invoker. -/
theorem row_congr {first second : Gateway} (outline : first.outline = second.outline)
    (fraction : first.registry.fraction = second.registry.fraction)
    (lastUserAction : ∀ i, first.monitor.lastUserAction i = second.monitor.lastUserAction i) :
    (∀ i, first.registry.poolOf i = second.registry.poolOf i) ∧ first.row = second.row := by
  have size : first.registry.size = second.registry.size := congrArg Outline.size outline
  have account : first.ledger.account? = second.ledger.account? :=
    congrArg Outline.account outline
  have health : first.monitor.health = second.monitor.health := congrArg Outline.health outline
  have poolOf : ∀ i, first.registry.poolOf i = second.registry.poolOf i := by
    intro i
    rw [Registry.poolOf, Registry.poolOf, size, fraction]
  refine ⟨poolOf, ?_⟩
  funext i
  simp only [row, infoOf, poolOf, health, account, lastUserAction]

/-- **Heartbeats of different invokers commute.** In any state that a gateway can reach, two
batches of heartbeats in which every invoker sends the same ones in the same order lead to the same
listing, the same pools, the same accounts and the same version of the health, however the
heartbeats of different invokers are mixed and whenever they arrive. -/
theorem heartbeats_commute (config : Config) (store : Store) (bus : Bus)
    (mint : Nat → ActivationId) (events : List Event) {one other : List (Heartbeat × Instant)}
    (below : ∀ entry ∈ one, entry.1.invoker.ordinal.toNat < Numeral.maxWord64)
    (alike : ∀ i, sentBy i one = sentBy i other) :
    let g := (new config store bus mint).run events
    let first := g.run (heartbeats one)
    let second := g.run (heartbeats other)
    first.listInvokers.2 = second.listInvokers.2 ∧
      (∀ i, first.registry.poolOf i = second.registry.poolOf i) ∧
      (∀ i, first.ledger.account? i = second.ledger.account? i) ∧
      first.monitor.version = second.monitor.version := by
  intro g first second
  have below' : ∀ entry ∈ other, entry.1.invoker.ordinal.toNat < Numeral.maxWord64 := by
    intro entry member
    have sent : entry.1 ∈ sentBy entry.1.invoker other :=
      List.mem_filter.mpr ⟨List.mem_map_of_mem member, by simp⟩
    rw [← alike] at sent
    obtain ⟨same, there, heard⟩ := List.mem_map.mp (List.mem_filter.mp sent).1
    exact heard ▸ below same there
  have outline : first.outline = second.outline := by
    rw [outline_run one g below, outline_run other g below']
    exact foldl_eq_of_filter_eq Outline.hear_comm alike g.outline
  -- What a row shows beyond the outline, no heartbeat moves.
  obtain ⟨fraction, lastUserAction⟩ := heartbeats_keep one g
  obtain ⟨fraction', lastUserAction'⟩ := heartbeats_keep other g
  obtain ⟨poolOf, row⟩ := row_congr outline (fraction.trans fraction'.symm)
    (fun i => (lastUserAction i).trans (lastUserAction' i).symm)
  have size : first.registry.size = second.registry.size := congrArg Outline.size outline
  have listing : ∀ batch, (g.run (heartbeats batch)).listInvokers.2 =
      (g.run (heartbeats batch)).registry.ids.filterMap (g.run (heartbeats batch)).row := by
    intro batch
    apply listInvokers_eq
    · exact run_keeps_always coherent_step _ (coherent_run config store bus mint events)
    · exact run_keeps_always size_step_lt _ (size_run_lt config store bus mint events)
  refine ⟨?_, poolOf, fun i => congrFun (congrArg Outline.account outline) i,
    congrArg Outline.version outline⟩
  rw [listing one, listing other, Registry.ids, Registry.ids, size, row]

/-- Two invokers come up, and the first of them shuts down again. -/
def demoMix : List (Heartbeat × Instant) :=
  [(⟨⟨1⟩, ⟨1024, 0, 4, 0⟩, 0, .up⟩, .ofMillis 0), (⟨⟨3⟩, ⟨512, 0, 2, 0⟩, 0, .up⟩, .ofMillis 1),
    (⟨⟨1⟩, ⟨2048, 0, 8, 0⟩, 0, .shuttingDown⟩, .ofMillis 2)]

/-- The same reports, that of the second invoker first. -/
def demoRemix : List (Heartbeat × Instant) :=
  [(⟨⟨3⟩, ⟨512, 0, 2, 0⟩, 0, .up⟩, .ofMillis 5), (⟨⟨1⟩, ⟨1024, 0, 4, 0⟩, 0, .up⟩, .ofMillis 3),
    (⟨⟨1⟩, ⟨2048, 0, 8, 0⟩, 0, .shuttingDown⟩, .ofMillis 3)]

/-- Both orders make the same fleet of four out of a fleet of one, but one of them in two steps. -/
theorem heartbeats_commute_demoMix :
    let g := demo.run [.heartbeat ⟨⟨0⟩, ⟨256, 0, 1, 0⟩, 0, .up⟩ .origin]
    let first := g.run (heartbeats demoMix)
    let second := g.run (heartbeats demoRemix)
    (∀ i, sentBy i demoMix = sentBy i demoRemix) ∧
      first.listInvokers.2 = second.listInvokers.2 ∧ first.listInvokers.2.length = 4 ∧
      (∀ i, first.registry.poolOf i = second.registry.poolOf i) ∧
      (∀ i, first.ledger.account? i = second.ledger.account? i) ∧
      first.registry.version = 3 ∧ second.registry.version = 2 := by
  intro g first second
  have below : ∀ entry ∈ demoMix, entry.1.invoker.ordinal.toNat < Numeral.maxWord64 := by decide
  have alike : ∀ i, sentBy i demoMix = sentBy i demoRemix := by
    intro i
    by_cases former : (⟨1⟩ : InvokerId) = i
    · subst former
      decide
    · by_cases latter : (⟨3⟩ : InvokerId) = i
      · subst latter
        decide
      · simp [sentBy, demoMix, demoRemix, former, latter]
  obtain ⟨listing, pools, accounts, -⟩ := heartbeats_commute .standard
    (Standalone.seedAll Standalone.demoActions (.new .standard)).1 (.new 2) counting
    [.heartbeat ⟨⟨0⟩, ⟨256, 0, 1, 0⟩, 0, .up⟩ .origin] below alike
  exact ⟨alike, listing, by decide +kernel, pools, accounts, by decide +kernel, by decide +kernel⟩

end Gateway

end Dispatch
