import Dispatch.Proofs.Bursts
import Dispatch.Proofs.Notation
import Dispatch.Proofs.Outputs

/-!
# What simulated invokers publish

A text that a running invoker gets is `owed` a completion if it is an activation, at the time when
that has slept; how long it sleeps is up to the timer, and `owed_of_read` says when that is as long
as it asked for. The books are kept burst by burst: what an invoker publishes while a simulation
settles, and what those of its activations report who sleep on, is what those reported who slept
before and what is owed for the texts that were delivered (`account_burst`). So over a run it
publishes what is owed until then, and nothing else (`account_run`).
-/

set_option autoImplicit false

namespace Dispatch

open Json (Value)

namespace Table

variable {κ α β : Type} [DecidableEq κ]

/-- Whatever is listed for one key alone is listed once. -/
theorem flatMap_own {entries : Table κ α} (distinct : Distinct entries) (key : κ)
    (f : α → List β) :
    entries.flatMap (fun entry => if entry.1 = key then f entry.2 else []) =
      ((get? key entries).map f).getD [] := by
  induction entries with
  | nil => rfl
  | cons entry rest ih =>
      obtain ⟨apart, distinctRest⟩ := distinct_cons.mp distinct
      rw [List.flatMap_cons, ih distinctRest, get?]
      by_cases own : entry.1 = key
      · have behind : get? key rest = none := get?_eq_none_iff.mpr (own ▸ apart)
        rw [if_pos own, if_pos own, behind]
        exact List.append_nil _
      · rw [if_neg own, if_neg own]
        rfl

end Table

namespace SimulatedInvoker

theorem sleepMillis_le (content : Value) : sleepMillis content ≤ Numeral.maxWord64 := by
  unfold sleepMillis
  split
  · split
    · assumption
    · exact Nat.zero_le _
  · exact Nat.zero_le _

end SimulatedInvoker

/-! ## What is owed -/

/-- When an activation reports, and what. -/
def Sleeper.report (d : Sleeper) : Instant × Completion := (d.due, d.completion)

/-- Those activations of some that an invoker runs. -/
def Sleeper.own (id : InvokerId) (sleepers : List Sleeper) : List Sleeper :=
  sleepers.filter (·.completion.invoker = id)

/-- What an activation reports is read as it is written. -/
def Sleeper.Legible (d : Sleeper) : Prop :=
  Completion.codec.decode (Completion.codec.encode d.completion) = .ok d.completion

/-- How long an activation asks to sleep. -/
def ActivationMessage.nap (m : ActivationMessage) : Duration :=
  .ofMillis (SimulatedInvoker.sleepMillis m.content).toUInt64

theorem ActivationMessage.nanos_nap (m : ActivationMessage) :
    m.nap.nanos = 1_000_000 * SimulatedInvoker.sleepMillis m.content :=
  Duration.nanos_ofMillis (SimulatedInvoker.sleepMillis_le m.content)

/-- The completion of an activation that an invoker runs: it succeeds, and its result names the
invoker and how long the activation asked to sleep. -/
def ActivationMessage.wellRested (m : ActivationMessage) (id : InvokerId) : Completion :=
  ⟨m.id, id, true, false,
    some (.object [("invoker", .ofNat id.ordinal.toNat),
      ("slept_ms", .ofNat (SimulatedInvoker.sleepMillis m.content))])⟩

/-- What a text that an invoker got at some time comes to: for an activation its completion, when it
has slept as long as the timer lets it; otherwise nothing. -/
def owed (timer : SleepTimer) (id : InvokerId) : Instant × Bytes → Option (Instant × Completion)
  | (t, text) =>
    match ActivationMessage.codec.decode text with
    | .error _ => none
    | .ok m => some (t + timer.lasts m.nap, m.wellRested id)

/-- **An activation is completed when it has slept as long as it asked to exactly if the timer keeps
its sleep.** -/
theorem owed_of_read (timer : SleepTimer) (id : InvokerId) (t : Instant) {text : Bytes}
    {m : ActivationMessage} (read : ActivationMessage.codec.decode text = .ok m) :
    ∃ due, owed timer id (t, text) = some (due, m.wellRested id) ∧
      (due.nanos = t.nanos + 1_000_000 * SimulatedInvoker.sleepMillis m.content ↔
        timer.lasts m.nap = m.nap) := by
  refine ⟨t + timer.lasts m.nap, by simp only [owed, read], ?_⟩
  rw [← m.nanos_nap]
  exact ⟨fun same => Duration.mk.injEq .. ▸ Nat.add_left_cancel same,
    fun kept => congrArg (fun d : Duration => t.nanos + d.nanos) kept⟩

/-- The result of a completion that is owed is held as it is. -/
theorem held_report (id : InvokerId) {millis : Nat} (fits : millis ≤ Numeral.maxWord64) :
    (Value.object [("invoker", .ofNat id.ordinal.toNat), ("slept_ms", .ofNat millis)]).Held
      126 where
  canonical := by
    have sorted : Json.bytesLt (Utf8.ofString "slept_ms") (Utf8.ofString "invoker") = false := by
      decide +kernel
    simp [Value.canonical, Json.canonicalMembers, Json.sortMembers, Json.insertMember, sorted,
      Value.ofNat]
  integral := by
    have word (n : Nat) (fits : n ≤ Numeral.maxWord64) : (Value.ofNat n).Integral := by
      rintro _ (_ | ⟨_, ⟨⟩⟩)
      exact ⟨Int.le_trans (by decide) (Int.natCast_nonneg n), Int.ofNat_le.mpr fits⟩
    refine Json.integral_object.mpr fun member listed => ?_
    rcases List.mem_pair.mp listed with rfl | rfl
    · exact word _ (Nat.le_of_lt_succ id.ordinal.toNat_lt)
    · exact word _ fits
  shallow := by simp [Value.depth, Json.membersDepth, Value.ofNat]

namespace SimulatedInvoker

variable {i : SimulatedInvoker} {timer : SleepTimer} {now : Instant} {text : Bytes} {d : Sleeper}

/-- **An invoker that accepts a text will report what is owed.** -/
theorem report_accept? (i : SimulatedInvoker) (timer : SleepTimer) (now : Instant) (text : Bytes) :
    (i.accept? timer now text).map Sleeper.report = owed timer i.id (now, text) := by
  unfold accept? owed
  dsimp only
  cases ActivationMessage.codec.decode text <;> rfl

theorem accept?_eq_some (accepted : i.accept? timer now text = some d) :
    d.completion.invoker = i.id ∧ now ≤ d.due ∧ d.Legible := by
  unfold accept? at accepted
  cases read : ActivationMessage.codec.decode text with
  | error f =>
      rw [read] at accepted
      cases accepted
  | ok m =>
      rw [read] at accepted
      obtain rfl := Option.some.inj accepted
      refine ⟨rfl, Nat.le_add_right _ _, ?_⟩
      have held : ∀ v ∈ (i.completionOf m).result, v.Held 126 := by
        rintro _ ⟨⟩
        exact held_report i.id (sleepMillis_le m.content)
      exact Completion.decode_encode held

/-- An invoker reports in its own name, and in no other. -/
theorem own_accepted (i : SimulatedInvoker) (timer : SleepTimer) (now : Instant)
    (texts : List Bytes) (id : InvokerId) :
    (Sleeper.own id (texts.filterMap (i.accept? timer now))).map Sleeper.report =
      if i.id = id then texts.filterMap fun text => owed timer id (now, text) else [] := by
  have names : ∀ d ∈ texts.filterMap (i.accept? timer now), d.completion.invoker = i.id := by
    intro d member
    obtain ⟨text, -, accepted⟩ := List.mem_filterMap.mp member
    exact (accept?_eq_some accepted).1
  by_cases same : i.id = id
  · have all : Sleeper.own id (texts.filterMap (i.accept? timer now)) = _ :=
      List.filter_eq_self.mpr fun d member => decide_eq_true ((names d member).trans same)
    rw [if_pos same, all, List.map_filterMap]
    refine List.filterMap_congr fun text _ => ?_
    rw [report_accept?, same]
  · have none : Sleeper.own id (texts.filterMap (i.accept? timer now)) = [] :=
      List.filter_eq_nil_iff.mpr fun d member named =>
        same ((names d member).symm.trans (of_decide_eq_true named))
    rw [if_neg same, none]
    rfl

end SimulatedInvoker

/-! ## What a topic gets -/

theorem Bus.capacity_publish (b : Bus) (name : String) (message : Bytes) :
    (b.act (.publish name message)).capacity = b.capacity := by
  show ((b.publish name message).toOption.getD b).capacity = b.capacity
  cases outcome : b.publish name message with
  | error fault => rfl
  | ok after =>
      obtain ⟨-, rfl⟩ := publish_eq_ok_iff.mp outcome
      rfl

/-- The topic of completions after an activation has reported, if it may hold so many texts. -/
def Topic.announced (capacity : Nat) (t : Topic) (d : Sleeper) : Topic :=
  if t.receiver ≠ .dropped ∧ t.queue.length < capacity then
    { t with queue := t.queue ++ [Completion.codec.encode d.completion] }
  else t

namespace Simulation

variable {s x : Simulation} {id : InvokerId} {genuine : Prop}

/-- The topic of completions. -/
def completed (s : Simulation) : Topic := s.gateway.bus.topic Completion.topic

theorem topic_announce (b : Bus) (d : Sleeper) :
    (announce b d).topic Completion.topic =
      (b.topic Completion.topic).announced b.capacity d := by
  show ((b.publish _ _).toOption.getD b).topic _ = _
  unfold Topic.announced
  cases outcome : b.publish Completion.topic (Completion.codec.encode d.completion) with
  | error fault =>
      rw [if_neg]
      · rfl
      · intro room
        rw [Bus.publish_eq_ok_iff.mpr ⟨room, rfl⟩] at outcome
        cases outcome
  | ok after =>
      obtain ⟨room, rfl⟩ := Bus.publish_eq_ok_iff.mp outcome
      rw [if_pos room]
      exact (Bus.topic_put _ _ _ _).trans (if_pos rfl)

theorem topic_announces (ds : List Sleeper) (b : Bus) :
    (ds.foldl announce b).topic Completion.topic =
        ds.foldl (Topic.announced b.capacity) (b.topic Completion.topic) ∧
      (ds.foldl announce b).capacity = b.capacity := by
  induction ds generalizing b with
  | nil => exact ⟨rfl, rfl⟩
  | cons d rest ih =>
      have capacity : (announce b d).capacity = b.capacity := b.capacity_publish _ _
      have later := ih (announce b d)
      rw [topic_announce, capacity] at later
      exact later

/-- **Where the topic is open and never full, all reports get there.** -/
theorem announced_all {capacity : Nat} (ds : List Sleeper) {t : Topic}
    (opened : t.receiver ≠ .dropped)
    (room : (ds.foldl (Topic.announced capacity) t).queue.length < capacity) :
    (ds.foldl (Topic.announced capacity) t).queue =
      t.queue ++ ds.map fun d => Completion.codec.encode d.completion := by
  induction ds generalizing t with
  | nil => exact (List.append_nil _).symm
  | cons d rest ih =>
      have space : t.queue.length < capacity := by
        by_contra full
        have refused (d : Sleeper) : t.announced capacity d = t := if_neg fun fits => full fits.2
        rw [foldl_of_fixed fun d _ => refused d] at room
        exact full room
      have accepted : t.announced capacity d =
          { t with queue := t.queue ++ [Completion.codec.encode d.completion] } :=
        if_pos ⟨opened, space⟩
      rw [List.foldl_cons, accepted] at room ⊢
      rw [ih (t := { t with queue := t.queue ++ [_] }) opened room, List.append_assoc]
      rfl

/-! ## What happens before anything is consumed -/

/-- Every timer that is due has fired. -/
def fired (s : Simulation) : Simulation :=
  s.modifyGateway fun g => { g with flight := g.flight.fireDue s.now }

/-- What happens by itself until consumers take in what was published. -/
def worked (s : Simulation) : Simulation :=
  ((s.fired.forTasks beatIfDue).wake.forTasks startActivations).wake

theorem proceed_eq (s : Simulation) : s.proceed = s.worked.forTasks consume := rfl

theorem eq_of_mute (same : s.mute = x.mute) :
    s.gateway = x.gateway ∧ s.sleepers = x.sleepers := by
  have gateway : s.mute.gateway = x.mute.gateway := by rw [same]
  have sleepers : s.mute.sleepers = x.mute.sleepers := by rw [same]
  exact ⟨gateway, sleepers⟩

/-- What settles is what happens by itself, apart from the calls. -/
theorem settle_proceed (s : Simulation) :
    s.settle.gateway = s.proceed.gateway ∧ s.settle.sleepers = s.proceed.sleepers :=
  eq_of_mute ((settle_mute s).trans (proceed_mute s))

/-- Settling changes no timer. -/
theorem Onset.settle_timer (onset : Onset genuine s x) : x.settle.timer = x.timer := by
  obtain ⟨gateway, tasks, sleepers, settled, -⟩ := settle_outcome onset.regular onset.ready
  rw [settled]

/-- Consumers wake nobody. -/
theorem settle_sleepers (s : Simulation) : s.settle.sleepers = s.worked.sleepers := by
  obtain ⟨gateway, consumed, -⟩ := consume_keeps (s := s.worked) (P := fun _ => True)
    (fun _ _ _ => trivial) (fun _ _ _ _ _ => trivial) (fun _ _ _ => trivial) rfl trivial
  rw [(settle_proceed s).2, proceed_eq, consumed]

/-- Heartbeats move one topic alone. -/
theorem beats_bus (s : Simulation) :
    (s.forTasks beatIfDue).gateway.bus.capacity = s.gateway.bus.capacity ∧
      ∀ other, Heartbeat.topic ≠ other →
        (s.forTasks beatIfDue).gateway.bus.topic other = s.gateway.bus.topic other := by
  refine forTasks_keeps (P := fun y => y.gateway.bus.capacity = s.gateway.bus.capacity ∧
    ∀ other, Heartbeat.topic ≠ other → y.gateway.bus.topic other = s.gateway.bus.topic other)
    ?_ ⟨rfl, fun _ _ => rfl⟩
  rintro y topic t - kept
  cases t with
  | invoker i =>
      simp only [beatIfDue, publishHeartbeat, tryPublish_eq]
      split
      · exact ⟨(Bus.capacity_publish _ _ _).trans kept.1, fun other apart =>
          (topic_act_publish apart _ _).trans (kept.2 other apart)⟩
      · exact kept
  | consumer | idle => exact kept

/-- Whoever has reported serves its own topic, as before. -/
theorem own_beaten (regular : Regular x) (ready : Ready x) :
    Table.Distinct (x.fired.forTasks beatIfDue).tasks ∧
      ∀ topic i, (topic, .invoker i) ∈ (x.fired.forTasks beatIfDue).tasks →
        topic = i.id.topic := by
  obtain ⟨bus, tasks, beaten, distinct, tasksOf⟩ := beats_eq (s := x.fired) regular.distinct
  rw [beaten]
  exact ⟨distinct, fun _ _ member => (beaten_ahead regular ready distinct tasksOf member).1.1⟩

/-- Those whom a task starts on the texts of its topic. -/
def starts (timer : SleepTimer) (now : Instant) (b : Bus) : String × Task → List Sleeper
  | (topic, .invoker i) => (b.topic topic).queue.filterMap (i.accept? timer now)
  | _ => []

theorem starts_fold {entries : Table String Task} (distinct : Table.Distinct entries)
    (s : Simulation) :
    (entries.foldl (fun s entry => startActivations entry.1 entry.2 s) s).sleepers =
      s.sleepers ++ entries.flatMap (starts s.timer s.now s.gateway.bus) := by
  induction entries generalizing s with
  | nil => exact (List.append_nil _).symm
  | cons entry rest ih =>
      obtain ⟨topic, t⟩ := entry
      obtain ⟨apart, distinctRest⟩ := Table.distinct_cons.mp distinct
      have elsewhere : rest.flatMap (starts s.timer s.now (emptied topic s.gateway.bus)) =
          rest.flatMap (starts s.timer s.now s.gateway.bus) := by
        refine List.flatMap_congr fun later member => ?_
        obtain ⟨other, u⟩ := later
        have ne : topic ≠ other := fun same =>
          apart (List.mem_map.mpr ⟨_, member, same.symm⟩)
        cases u with
        | invoker i =>
            show ((emptied topic s.gateway.bus).topic other).queue.filterMap _ = _
            rw [topic_emptied, if_neg ne]
            rfl
        | consumer | idle => rfl
      rw [List.foldl_cons, ih distinctRest, List.flatMap_cons]
      cases t with
      | invoker i =>
          simp only [startActivations, takeAll_eq, modifyGateway, elsewhere, List.append_assoc]
          rfl
      | consumer | idle => rfl

/-- Starting activations takes the texts of the invokers alone. -/
theorem starts_bus (own : ∀ topic i, (topic, .invoker i) ∈ s.tasks → topic = i.id.topic) :
    (s.forTasks startActivations).gateway.bus.capacity = s.gateway.bus.capacity ∧
      (s.forTasks startActivations).completed = s.completed := by
  refine forTasks_keeps (P := fun y => y.gateway.bus.capacity = s.gateway.bus.capacity ∧
    y.completed = s.completed) ?_ ⟨rfl, rfl⟩
  rintro y topic t member kept
  cases t with
  | invoker i =>
      have apart : topic ≠ Completion.topic := by
        rw [own topic i member]
        exact i.id.topic_ne_completion
      simp only [startActivations, takeAll_eq, modifyGateway, completed, emptied]
      split
      · exact kept
      · exact ⟨kept.1, (Bus.topic_put _ _ _ _).trans ((if_neg apart).trans kept.2)⟩
  | consumer | idle => exact kept

/-! ## Bursts -/

/-- The completions that an invoker publishes while a simulation settles, and when. -/
def publishedBy (id : InvokerId) (x : Simulation) : List (Instant × Completion) :=
  (x.worked.completed.queue.drop x.completed.queue.length).filterMap fun text =>
    match Completion.codec.decode text with
    | .ok c => if c.invoker = id then some (x.now, c) else none
    | .error _ => none

/-- Whether a simulated invoker runs. -/
def runs (id : InvokerId) (s : Simulation) : Bool :=
  match Table.get? id.topic s.tasks with
  | some (.invoker _) => true
  | _ => false

/-- The texts that an invoker gets while a simulation settles, if it runs, and when. -/
def delivered (id : InvokerId) (x : Simulation) : List (Instant × Bytes) :=
  if x.runs id then (x.gateway.bus.topic id.topic).queue.map (x.now, ·) else []

/-- The topic of completions is open while a simulation settles, and never full. -/
structure Roomy (x : Simulation) : Prop where
  opened : x.completed.receiver ≠ .dropped
  room : x.worked.completed.queue.length < x.gateway.bus.capacity

instance (x : Simulation) : Decidable (Roomy x) :=
  decidable_of_iff (x.completed.receiver ≠ .dropped ∧
    x.worked.completed.queue.length < x.gateway.bus.capacity)
    ⟨fun ⟨opened, room⟩ => ⟨opened, room⟩, fun ⟨opened, room⟩ => ⟨opened, room⟩⟩

/-- Those who are started while a simulation settles: they report what is owed. -/
structure Started (x : Simulation) (ds : List Sleeper) : Prop where
  owed : ∀ id, (Sleeper.own id ds).map Sleeper.report = (x.delivered id).filterMap (owed x.timer id)
  later : ∀ d ∈ ds, x.now ≤ d.due
  legible : ∀ d ∈ ds, d.Legible

theorem accepted_of_starts {tasks : Table String Task} {timer : SleepTimer} {now : Instant}
    {b : Bus} {d : Sleeper} (member : d ∈ tasks.flatMap (starts timer now b)) :
    ∃ (i : SimulatedInvoker) (text : Bytes), i.accept? timer now text = some d := by
  obtain ⟨⟨topic, t⟩, -, started⟩ := List.mem_flatMap.mp member
  cases t with
  | invoker i =>
      obtain ⟨text, -, accepted⟩ := List.mem_filterMap.mp started
      exact ⟨i, text, accepted⟩
  | consumer | idle => cases started

/-- What an invoker owes for the texts that it gets at a time, if this task is the invoker. -/
def owes (timer : SleepTimer) (id : InvokerId) (now : Instant) (texts : List Bytes) :
    Task → List (Instant × Completion)
  | .invoker _ => (texts.map (now, ·)).filterMap (owed timer id)
  | .consumer | .idle => []

/-- What the tasks start when they have been beaten, on what the bus then holds. -/
theorem started_tasks {tasks : Table String Task} (distinct : Table.Distinct tasks)
    (own : ∀ topic i, (topic, .invoker i) ∈ tasks → topic = i.id.topic)
    (tasksOf : ∀ topic, Table.get? topic tasks = (Table.get? topic x.tasks).map (beaten x.now))
    {b : Bus} (topics : ∀ id : InvokerId, b.topic id.topic = x.gateway.bus.topic id.topic) :
    Started x (tasks.flatMap (starts x.timer x.now b)) where
  owed id := by
    let due := owes x.timer id x.now (x.gateway.bus.topic id.topic).queue
    have mine : ∀ entry ∈ tasks,
        (Sleeper.own id (starts x.timer x.now b entry)).map Sleeper.report =
          if entry.1 = id.topic then due entry.2 else [] := by
      rintro ⟨topic, t⟩ member
      cases t with
      | invoker i =>
          have named := own topic i member
          have same : i.id = id ↔ topic = id.topic :=
            ⟨fun same => same ▸ named, fun same => InvokerId.topic_injective (named ▸ same)⟩
          rw [starts, SimulatedInvoker.own_accepted]
          by_cases here : topic = id.topic
          · rw [if_pos (same.mpr here), if_pos here, here, topics id]
            show _ = (List.map (x.now, ·) _).filterMap (Dispatch.owed x.timer id)
            rw [List.filterMap_map]
            rfl
          · rw [if_neg (same.not.mpr here), if_neg here]
      | consumer | idle => exact (ite_self _).symm
    calc (Sleeper.own id (tasks.flatMap (starts x.timer x.now b))).map Sleeper.report
      _ = tasks.flatMap fun entry => if entry.1 = id.topic then due entry.2 else [] := by
          rw [Sleeper.own, List.filter_flatMap, List.map_flatMap]
          exact List.flatMap_congr mine
      _ = ((Table.get? id.topic tasks).map due).getD [] :=
          Table.flatMap_own distinct id.topic due
      _ = (x.delivered id).filterMap (Dispatch.owed x.timer id) := by
          rw [tasksOf, delivered, runs]
          cases Table.get? id.topic x.tasks with
          | none => rfl
          | some t => cases t <;> rfl
  later d member := by
    obtain ⟨i, text, accepted⟩ := accepted_of_starts member
    exact (SimulatedInvoker.accept?_eq_some accepted).2.1
  legible d member := by
    obtain ⟨i, text, accepted⟩ := accepted_of_starts member
    exact (SimulatedInvoker.accept?_eq_some accepted).2.2

/-- Whoever sleeps or is started reports when it has slept, and the others sleep on. -/
theorem rests_outcome (distinct : Table.Distinct s.tasks)
    (own : ∀ topic i, (topic, .invoker i) ∈ s.tasks → topic = i.id.topic) :
    let ds := s.tasks.flatMap (starts s.timer s.now s.wake.gateway.bus)
    (s.wake.forTasks startActivations).wake.sleepers =
        (s.sleepers ++ ds).filter (¬ ·.due ≤ s.now) ∧
      (s.wake.forTasks startActivations).wake.completed =
        ((s.sleepers ++ ds).filter (·.due ≤ s.now)).foldl
          (Topic.announced s.gateway.bus.capacity) s.completed := by
  intro ds
  obtain ⟨bus, sleepers, started⟩ := starts_eq s.wake
  have tasks : s.wake.tasks = s.tasks := by rw [wake_eq]
  have timer : s.wake.timer = s.timer := by rw [wake_eq]
  have now : s.wake.now = s.now := by rw [wake_eq]
  have asleep : s.wake.sleepers = s.sleepers.filter (¬ ·.due ≤ s.now) := by rw [wake_eq]
  have first : s.wake.gateway.bus =
      (s.sleepers.filter (·.due ≤ s.now)).foldl announce s.gateway.bus := by rw [wake_eq]
  have begun : (s.wake.forTasks startActivations).sleepers =
      s.wake.sleepers ++
        s.wake.tasks.flatMap (starts s.wake.timer s.wake.now s.wake.gateway.bus) :=
    starts_fold (tasks ▸ distinct) s.wake
  rw [started, asleep, tasks, timer, now] at begun
  replace begun : sleepers = s.sleepers.filter (¬ ·.due ≤ s.now) ++ ds := begun
  have kept := starts_bus (s := s.wake) (tasks ▸ own)
  rw [started, completed, completed, first] at kept
  obtain ⟨announced, capacity⟩ :=
    topic_announces (s.sleepers.filter (·.due ≤ s.now)) s.gateway.bus
  have due : sleepers.filter (·.due ≤ s.now) = ds.filter (·.due ≤ s.now) := by
    have none : (s.sleepers.filter (¬ ·.due ≤ s.now)).filter (·.due ≤ s.now) = [] :=
      filter_due_of_ahead fun d member =>
        Nat.not_le.mp (of_decide_eq_true (List.mem_filter.mp member).2)
    rw [begun, List.filter_append, none, List.nil_append]
  have ahead : sleepers.filter (¬ ·.due ≤ s.now) =
      (s.sleepers ++ ds).filter (¬ ·.due ≤ s.now) := by
    rw [begun, List.filter_append, List.filter_filter, List.filter_append]
    simp only [Bool.and_self]
  rw [started, wake_eq]
  refine ⟨?_, ?_⟩
  · show sleepers.filter (¬ ·.due ≤ s.wake.now) = _
    rw [now, ahead]
  · show ((sleepers.filter (·.due ≤ s.wake.now)).foldl announce bus).topic Completion.topic = _
    have completed : bus.topic Completion.topic = _ := kept.2
    have room : bus.capacity = s.gateway.bus.capacity := kept.1.trans capacity
    rw [now, due, (topic_announces _ bus).1, List.filter_append, List.foldl_append, completed,
      room, announced]
    rfl

/-- **What happens until completions are consumed.** Some are started on what was delivered;
whoever has slept reports, and the others sleep on. -/
theorem worked_outcome (regular : Regular x) (ready : Ready x) :
    ∃ ds, Started x ds ∧
      x.worked.sleepers = (x.sleepers ++ ds).filter (¬ ·.due ≤ x.now) ∧
      x.worked.completed = ((x.sleepers ++ ds).filter (·.due ≤ x.now)).foldl
        (Topic.announced x.gateway.bus.capacity) x.completed := by
  obtain ⟨distinct, own⟩ := own_beaten regular ready
  obtain ⟨bus, tasks, beaten, -, tasksOf⟩ := beats_eq (s := x.fired) regular.distinct
  obtain ⟨capacity, topics⟩ := beats_bus x.fired
  have outcome := rests_outcome distinct own
  have named (id : InvokerId) : (x.fired.forTasks beatIfDue).wake.gateway.bus.topic id.topic =
      x.gateway.bus.topic id.topic := by
    rw [wake_eq]
    exact (topic_announced id.topic_ne_completion.symm _ _).trans
      (topics id.topic id.topic_ne_heartbeat.symm)
  have completed : (x.fired.forTasks beatIfDue).completed = x.completed :=
    topics Completion.topic (by decide)
  rw [completed, capacity] at outcome
  rw [beaten] at distinct own outcome named
  rw [worked, beaten]
  exact ⟨_, started_tasks (x := x) distinct own tasksOf named, outcome.1, outcome.2⟩

/-! ## The books -/

/-- What is published of some reports is what the invoker reports of them. -/
theorem publishedBy_eq {ds : List Sleeper} (id : InvokerId)
    (texts : x.worked.completed.queue =
      x.completed.queue ++ ds.map fun d => Completion.codec.encode d.completion)
    (legible : ∀ d ∈ ds, d.Legible) (due : ∀ d ∈ ds, d.due = x.now) :
    x.publishedBy id = (Sleeper.own id ds).map Sleeper.report := by
  rw [publishedBy, texts, List.drop_left, List.filterMap_map, Sleeper.own]
  clear texts
  induction ds with
  | nil => rfl
  | cons d rest ih =>
      have later := ih (fun d member => legible d (List.mem_cons_of_mem _ member))
        fun d member => due d (List.mem_cons_of_mem _ member)
      have read : Completion.codec.decode (Completion.codec.encode d.completion) = _ :=
        legible d List.mem_cons_self
      rw [List.filterMap_cons, later]
      by_cases own : d.completion.invoker = id
      · have report : d.report = (x.now, d.completion) :=
          congrArg (·, d.completion) (due d List.mem_cons_self)
        simp only [Function.comp, read, own, if_true, decide_true, List.filter_cons_of_pos,
          List.map_cons, report]
      · simp only [Function.comp, read, own, if_false, decide_false, Bool.false_eq_true,
          not_false_eq_true, List.filter_cons_of_neg]

/-- **Burst by burst the books are kept.** -/
theorem account_burst (onset : Onset genuine s x) (roomy : Roomy x)
    (legible : ∀ d ∈ s.sleepers, d.Legible) (id : InvokerId) :
    (x.publishedBy id ++ (Sleeper.own id x.settle.sleepers).map Sleeper.report).Perm
        ((Sleeper.own id s.sleepers).map Sleeper.report ++
          (x.delivered id).filterMap (owed s.timer id)) ∧
      x.settle.timer = s.timer ∧ ∀ d ∈ x.settle.sleepers, d.Legible := by
  obtain ⟨ds, started, asleep, announced⟩ := worked_outcome onset.regular onset.ready
  rw [settle_sleepers, asleep]
  rw [onset.sleepers] at announced ⊢
  have legibleAll : ∀ d ∈ s.sleepers ++ ds, d.Legible := fun d member =>
    (List.mem_append.mp member).elim (legible d) (started.legible d)
  have notBefore : ∀ d ∈ s.sleepers ++ ds, x.now ≤ d.due := fun d member =>
    (List.mem_append.mp member).elim (onset.within d) (started.later d)
  have texts := announced_all _ roomy.opened (announced ▸ roomy.room)
  rw [← announced] at texts
  have published := publishedBy_eq id texts
    (fun d member => legibleAll d (List.mem_of_mem_filter member)) fun d member => by
      obtain ⟨there, due⟩ := List.mem_filter.mp member
      have same : d.due.nanos = x.now.nanos :=
        Nat.le_antisymm (of_decide_eq_true due) (notBefore d there)
      exact congrArg Instant.mk same
  refine ⟨?_, (onset.settle_timer).trans onset.timer,
    fun d member => legibleAll d (List.mem_of_mem_filter member)⟩
  rw [published, ← onset.timer, ← started.owed id, ← List.map_append, ← List.map_append]
  simp only [Sleeper.own, ← List.filter_append]
  have parted := List.filter_append_perm (fun d : Sleeper => d.due ≤ x.now) (s.sleepers ++ ds)
  simp only [← decide_not] at parted
  exact (parted.filter _).map _

/-- **Over a run an invoker publishes what is owed.** -/
theorem account_run {xs : List Simulation} {t : Simulation} (passes : Passes genuine s xs t)
    (roomy : ∀ x ∈ xs, x.Roomy) (legible : ∀ d ∈ s.sleepers, d.Legible) (id : InvokerId) :
    (xs.flatMap (publishedBy id) ++ (Sleeper.own id t.sleepers).map Sleeper.report).Perm
      ((Sleeper.own id s.sleepers).map Sleeper.report ++
        (xs.flatMap (delivered id)).filterMap (owed s.timer id)) := by
  induction xs generalizing s with
  | nil =>
      obtain rfl : t = s := passes
      simp
  | cons x rest ih =>
      obtain ⟨onset, later⟩ := passes
      obtain ⟨here, timer, legibleLater⟩ :=
        account_burst onset (roomy x List.mem_cons_self) legible id
      have after := ih later (fun y member => roomy y (List.mem_cons_of_mem x member))
        legibleLater
      rw [timer] at after
      rw [List.flatMap_cons, List.flatMap_cons, List.append_assoc, List.filterMap_append]
      refine (after.append_left (x.publishedBy id)).trans ?_
      rw [← List.append_assoc, ← List.append_assoc]
      exact here.append_right _

/-- **At every time an invoker has published what was owed until then, and nothing else**, where
nobody sleeps to begin with. -/
theorem published_until (sound : Sound s) (fresh : s.sleepers = []) (ops : List Op)
    (roomy : ∀ x ∈ s.runBursts ops, x.Roomy) (id : InvokerId) {t : Instant}
    (le : t ≤ (s.run ops).now) :
    (((s.runBursts ops).flatMap (publishedBy id)).filter (·.1 ≤ t)).Perm
      ((((s.runBursts ops).flatMap (delivered id)).filterMap (owed s.timer id)).filter
        (·.1 ≤ t)) := by
  have books := account_run (passes_run sound ops) roomy (fresh ▸ nofun) id
  have asleep : ((Sleeper.own id (s.run ops).sleepers).map Sleeper.report).filter (·.1 ≤ t) = [] :=
    filter_due_of_ahead fun entry member => by
      obtain ⟨d, own, rfl⟩ := List.mem_map.mp member
      have ahead := (sound_run sound ops).quiet.idle.asleep d (List.mem_of_mem_filter own)
      exact Nat.lt_of_le_of_lt le ahead
  have nobody : (Sleeper.own id s.sleepers).map Sleeper.report = [] := by rw [fresh]; rfl
  have both := books.filter (·.1 ≤ t)
  rw [nobody, List.nil_append, List.filter_append, asleep, List.append_nil] at both
  exact both

/-- **A text that a running invoker's topic accepts is delivered at once.** -/
theorem delivered_publish (sound : Sound s) (running : s.runs id) {text : Bytes}
    (accepted : (s.gateway.bus.publish id.topic text).isOk) :
    (s.bursts (.publish id.topic text)).flatMap (delivered id) = [(s.now, text)] := by
  have empty : (s.gateway.bus.topic id.topic).queue = [] := by
    unfold runs at running
    split at running
    · rename_i i there
      exact sound.quiet.idle.taken _ _ (Table.mem_of_get? there) nofun
    · cases running
  cases outcome : s.gateway.bus.publish id.topic text with
  | error fault =>
      rw [outcome] at accepted
      cases accepted
  | ok bus =>
      obtain ⟨-, rfl⟩ := Bus.publish_eq_ok_iff.mp outcome
      have queue : ((s.gateway.bus.act (.publish id.topic text)).topic id.topic).queue =
          [text] := by
        rw [Bus.act, outcome]
        show ((Bus.put _ _ _).topic _).queue = _
        rw [Bus.topic_put, if_pos rfl, empty]
        rfl
      rw [bursts, List.flatMap_singleton, delivered]
      refine (if_pos running).trans ?_
      show ((s.gateway.bus.act (.publish id.topic text)).topic id.topic).queue.map _ = _
      rw [queue]
      rfl

end Simulation

end Dispatch
