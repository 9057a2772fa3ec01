import Dispatch.Proofs.Timers
import Dispatch.Proofs.GatewayRuns
import Dispatch.Simulation

/-!
# What happens by itself

Between operations a simulation settles: callers lose patience, timers fire, simulated invokers
report, finish and start activations, consumers take in what was published, and callers get their
results. All of it but the calls is `proceed`, and that does not depend on the calls
(`proceed_mute`, `settle_mute`). A simulation is `Idle` when nothing of it is due: then nothing
happens (`proceed_of_idle`), and it is what everything that happens leads to (`proceed_outcome`).
`Flow` is what becomes of the gateway meanwhile.
-/

set_option autoImplicit false

namespace Dispatch

namespace Gateway

/-- Whether an event has nothing to do with activations. -/
def Event.isPlain : Event → Bool
  | .heartbeat _ _ | .remove _ | .sweep _ | .list | .store _ | .bus _ => true
  | .submit _ _ _ | .complete _ _ | .elapse _ | .expire _ => false

/-- What becomes of a gateway at one time, if nothing is timed out by hand. Only completions that
may be `taken` are taken in, and only when every timer that is due has fired. -/
inductive Flow (taken : Completion → Prop) (now : Instant) (g : Gateway) : Gateway → Prop where
  | refl : Flow taken now g g
  | elapse {h : Gateway} (before : Flow taken now g h) : Flow taken now g (h.step (.elapse now))
  | complete {h : Gateway} (before : Flow taken now g h)
      (ahead : ∀ t ∈ h.flight.timers, now < t.due) {c : Completion} (took : taken c)
      (calendar : UInt64) : Flow taken now g (h.step (.complete c calendar))
  | submit {h : Gateway} (before : Flow taken now g h) (r : Request) (calendar : UInt64) :
      Flow taken now g (h.step (.submit r now calendar))
  | plain {h : Gateway} (before : Flow taken now g h) {e : Event} (plain : e.isPlain = true) :
      Flow taken now g (h.step e)
  | bus {h : Gateway} (before : Flow taken now g h) (bus : Bus) : Flow taken now g { h with bus }

variable {taken more : Completion → Prop} {now : Instant} {f g h : Gateway}

theorem Flow.trans (first : Flow taken now f g) (second : Flow taken now g h) :
    Flow taken now f h := by
  induction second with
  | refl => exact first
  | elapse _ ih => exact ih.elapse
  | complete _ ahead took calendar ih => exact ih.complete ahead took calendar
  | submit _ r calendar ih => exact ih.submit r calendar
  | plain _ plain ih => exact ih.plain plain
  | bus _ bus ih => exact ih.bus bus

theorem Flow.mono (flow : Flow taken now g h) (le : ∀ c, taken c → more c) :
    Flow more now g h := by
  induction flow with
  | refl => exact .refl
  | elapse _ ih => exact ih.elapse
  | complete _ ahead took calendar ih => exact ih.complete ahead (le _ took) calendar
  | submit _ r calendar ih => exact ih.submit r calendar
  | plain _ plain ih => exact ih.plain plain
  | bus _ bus ih => exact ih.bus bus

end Gateway

namespace Simulation

open Gateway (Flow)

/-! ## Operations -/

/-- What is done to a simulation. -/
inductive Op where
  | submit (r : Request)
  | http (r : Http.Request)
  | complete (c : Completion)
  | heartbeat (h : Heartbeat)
  | remove (id : InvokerId)
  | sweep
  | list
  | put (a : Action)
  | publish (topic : String) (text : Bytes)
  | receive (topic : String)
  | close (topic : String)
  | startConsumer (topic : String)
  | startInvoker (id : InvokerId) (capacity : Capacity) (every : Duration)
  | stop (topic : String)
  | poll (number : Nat)
  | cancel (number : Nat)
  | advance (span : Duration)

/-- The simulation after an operation; one that is refused changes nothing. -/
def step (s : Simulation) : Op → Simulation
  | .submit r => (s.submit r).1
  | .http r => (s.http r).1
  | .complete c => (s.complete c).1
  | .heartbeat h => s.heartbeat h
  | .remove id => (s.remove id).1
  | .sweep => s.sweep.1
  | .list => s.list.1
  | .put a => (s.put a).toOption.getD s
  | .publish topic text => (s.publish topic text).toOption.getD s
  | .receive topic => ((s.receive topic).toOption.map (·.1)).getD s
  | .close topic => (s.close topic).toOption.getD s
  | .startConsumer topic => (s.startConsumer topic).toOption.getD s
  | .startInvoker id capacity every => s.startInvoker id capacity every
  | .stop topic => (s.stop topic).1
  | .poll number => (s.poll number).1
  | .cancel number => s.cancel number
  | .advance span => s.advance span

def run (s : Simulation) (ops : List Op) : Simulation := ops.foldl step s

/-- Somebody takes in completions as they are published. -/
def Consuming (s : Simulation) : Prop := (Completion.topic, Task.consumer) ∈ s.tasks

/-! ## Apart from the calls -/

/-- The simulation without its calls. -/
def mute (s : Simulation) : Simulation := { s with calls := [] }

/-- What happens by itself, apart from the calls. -/
def proceed (s : Simulation) : Simulation :=
  let s := s.modifyGateway fun g => { g with flight := g.flight.fireDue s.now }
  let s := s.forTasks beatIfDue
  let s := s.wake
  let s := (s.forTasks startActivations).wake
  s.forTasks consume

theorem settle_eq (s : Simulation) :
    s.settle =
      let after := (s.modifyCalls (endIfOverdue s.now)).proceed
      after.modifyCalls (endIfAnswered after.gateway.flight.answers) := rfl

variable {s : Simulation}

theorem tryPublish_eq (topic : String) (text : Bytes) (s : Simulation) :
    s.tryPublish topic text = s.modifyGateway fun g =>
      { g with bus := g.bus.act (.publish topic text) } := by
  cases outcome : s.gateway.bus.publish topic text with
  | ok bus =>
      simp only [tryPublish, modifyGateway, Bus.act, outcome]
      rfl
  | error fault =>
      simp only [tryPublish, modifyGateway, Bus.act, outcome]
      rfl

/-- The bus after the completion of an activation that has slept was published. -/
def announce (b : Bus) (d : Sleeper) : Bus :=
  b.act (.publish Completion.topic (Completion.codec.encode d.completion))

theorem wake_eq (s : Simulation) :
    s.wake = { s with
      gateway := { s.gateway with
        bus := (s.sleepers.filter (·.due ≤ s.now)).foldl announce s.gateway.bus }
      sleepers := s.sleepers.filter (¬ ·.due ≤ s.now) } := by
  have published : ∀ (due : List Sleeper) (s : Simulation),
      due.foldl
        (fun s d => s.tryPublish Completion.topic (Completion.codec.encode d.completion)) s =
        s.modifyGateway fun g => { g with bus := due.foldl announce g.bus } := by
    intro due
    induction due with
    | nil => exact fun _ => rfl
    | cons d rest ih =>
        intro s
        rw [List.foldl_cons, tryPublish_eq, ih]
        rfl
  have asleep : (not ∘ fun d : Sleeper => decide (d.due ≤ s.now)) =
      fun d : Sleeper => decide (¬ d.due ≤ s.now) := by
    funext d
    exact decide_not.symm
  simp only [wake, List.partition_eq_filter_filter, published, asleep]
  rfl

/-- The bus after all messages of a topic were taken. -/
def emptied (topic : String) (b : Bus) : Bus :=
  if (b.topic topic).queue.isEmpty then b else b.put topic { b.topic topic with queue := [] }

theorem takeAll_eq (topic : String) (s : Simulation) :
    s.takeAll topic =
      (s.modifyGateway fun g => { g with bus := emptied topic g.bus },
        (s.gateway.bus.topic topic).queue) := by
  show s.takeAll topic =
    ({ s with gateway := { s.gateway with bus := emptied topic s.gateway.bus } }, _)
  unfold takeAll emptied
  by_cases empty : (s.gateway.bus.topic topic).queue.isEmpty = true
  · rw [if_pos empty, if_pos empty, List.isEmpty_iff.mp empty]
  · rw [if_neg empty, if_neg empty]
    rfl

theorem foldl_mute {α : Type} {f : Simulation → α → Simulation}
    (blind : ∀ s a, f (mute s) a = (f s a).mute) (l : List α) (s : Simulation) :
    l.foldl f s.mute = (l.foldl f s).mute :=
  List.foldl_hom mute blind

theorem forTasks_mute {f : String → Task → Simulation → Simulation}
    (blind : ∀ topic t s, f topic t (mute s) = (f topic t s).mute) (s : Simulation) :
    s.mute.forTasks f = (s.forTasks f).mute :=
  foldl_mute (fun s entry => blind entry.1 entry.2 s) s.tasks s

theorem beatIfDue_mute (topic : String) (t : Task) (s : Simulation) :
    s.mute.beatIfDue topic t = (s.beatIfDue topic t).mute := by
  cases t with
  | invoker i =>
      simp only [beatIfDue, publishHeartbeat, tryPublish_eq]
      show (if i.nextHeartbeat ≤ s.now then _ else _) =
        mute (if i.nextHeartbeat ≤ s.now then _ else _)
      split <;> rfl
  | consumer | idle => rfl

theorem wake_mute (s : Simulation) : s.mute.wake = s.wake.mute := by
  rw [wake_eq, wake_eq]
  rfl

theorem startActivations_mute (topic : String) (t : Task) (s : Simulation) :
    s.mute.startActivations topic t = (s.startActivations topic t).mute := by
  cases t with
  | invoker i =>
      simp only [startActivations, takeAll_eq]
      rfl
  | consumer | idle => rfl

theorem consumeMessage_mute (topic : String) (text : Bytes) (s : Simulation) :
    s.mute.consumeMessage topic text = (s.consumeMessage topic text).mute := by
  simp only [consumeMessage]
  repeat' split
  all_goals rfl

theorem consumeAll_mute (topic : String) (texts : List Bytes) (s : Simulation) :
    s.mute.consumeAll topic texts = (s.consumeAll topic texts).mute := by
  induction texts generalizing s with
  | nil => rfl
  | cons text rest ih =>
      rw [consumeAll, consumeAll, consumeMessage_mute, ih]
      show (if s.breaksOff topic text then _ else _) =
        mute (if s.breaksOff topic text then _ else _)
      split <;> rfl

theorem consume_mute (topic : String) (t : Task) (s : Simulation) :
    s.mute.consume topic t = (s.consume topic t).mute := by
  cases t with
  | consumer =>
      simp only [consume, takeAll_eq]
      exact consumeAll_mute topic _ (s.modifyGateway fun g => { g with bus := emptied topic g.bus })
  | invoker | idle => rfl

/-- **What happens by itself does not depend on the calls.** -/
theorem proceed_mute (s : Simulation) : s.mute.proceed = s.proceed.mute := by
  simp only [proceed]
  rw [← forTasks_mute consume_mute, ← wake_mute, ← forTasks_mute startActivations_mute,
    ← wake_mute, ← forTasks_mute beatIfDue_mute]
  rfl

theorem modifyCalls_mute (f : Call → Call) (s : Simulation) : (s.modifyCalls f).mute = s.mute := rfl

theorem settle_mute (s : Simulation) : s.settle.mute = s.mute.proceed := by
  rw [settle_eq]
  calc _ = (s.modifyCalls (endIfOverdue s.now)).proceed.mute := modifyCalls_mute _ _
    _ = (s.modifyCalls (endIfOverdue s.now)).mute.proceed := (proceed_mute _).symm
    _ = s.mute.proceed := by rw [modifyCalls_mute]

/-! ## Nothing left to happen -/

/-- Nothing is due, and no task has a message to take in. -/
structure Idle (s : Simulation) : Prop where
  timers : ∀ t ∈ s.gateway.flight.timers, s.now < t.due
  beats : ∀ topic i, (topic, .invoker i) ∈ s.tasks → s.now < i.nextHeartbeat
  taken : ∀ topic t, (topic, t) ∈ s.tasks → t ≠ .idle →
    (s.gateway.bus.topic topic).queue = []
  asleep : ∀ d ∈ s.sleepers, s.now < d.due

theorem foldl_of_fixed {α β : Type} {f : β → α → β} {b : β} {l : List α}
    (fixed : ∀ a ∈ l, f b a = b) : l.foldl f b = b := by
  induction l with
  | nil => rfl
  | cons a rest ih =>
      rw [List.foldl_cons, fixed a List.mem_cons_self]
      exact ih fun later member => fixed later (List.mem_cons_of_mem _ member)

theorem filter_due_of_ahead {α : Type} {due : α → Instant} {now : Instant} {l : List α}
    (ahead : ∀ a ∈ l, now < due a) : l.filter (fun a => due a ≤ now) = [] :=
  List.filter_eq_nil_iff.mpr fun a member =>
    (decide_eq_true_iff (p := due a ≤ now)).not.mpr (Nat.not_le.mpr (ahead a member))

theorem emptied_of_empty {topic : String} {b : Bus} (empty : (b.topic topic).queue = []) :
    emptied topic b = b := if_pos (List.isEmpty_iff.mpr empty)

/-- **Nothing happens by itself while nothing is due.** -/
theorem proceed_of_idle (idle : Idle s) : s.proceed = s := by
  have fired : s.gateway.flight.fireDue s.now = s.gateway.flight := by
    rw [InFlight.fireDue, filter_due_of_ahead idle.timers, List.foldl_nil]
  have beaten : s.forTasks beatIfDue = s := by
    refine foldl_of_fixed fun entry member => ?_
    obtain ⟨topic, t⟩ := entry
    cases t with
    | invoker i => exact if_neg (Nat.not_le.mpr (idle.beats topic i member))
    | consumer | idle => rfl
  have woken : s.wake = s := by
    have none := filter_due_of_ahead idle.asleep
    have all : s.sleepers.filter (¬ ·.due ≤ s.now) = s.sleepers :=
      List.filter_eq_self.mpr fun d member =>
        decide_eq_true (Nat.not_le.mpr (idle.asleep d member))
    rw [wake_eq, none, all, List.foldl_nil]
  have started : s.forTasks startActivations = s := by
    refine foldl_of_fixed fun entry member => ?_
    obtain ⟨topic, t⟩ := entry
    cases t with
    | invoker i =>
        have empty := idle.taken topic _ member (fun same => by cases same)
        simp only [startActivations, takeAll_eq, modifyGateway, emptied_of_empty empty, empty,
          List.filterMap_nil, List.append_nil]
    | consumer | idle => rfl
  have consumed : s.forTasks consume = s := by
    refine foldl_of_fixed fun entry member => ?_
    obtain ⟨topic, t⟩ := entry
    cases t with
    | consumer =>
        have empty := idle.taken topic _ member (fun same => by cases same)
        simp only [consume, takeAll_eq, modifyGateway, emptied_of_empty empty, empty, consumeAll]
    | invoker | idle => rfl
  simp only [proceed, modifyGateway, fired, beaten, woken, started, consumed]

/-! ## Until nothing is left to happen -/

/-- The timers are in order, and the simulated invokers have topics and times of their own. -/
structure Regular (s : Simulation) : Prop where
  sorted : s.gateway.flight.timers.Pairwise fun t u => t.due ≤ u.due
  distinct : Table.Distinct s.tasks
  own : ∀ topic i, (topic, .invoker i) ∈ s.tasks → topic = i.id.topic ∧ 0 < i.every.nanos

/-- No heartbeat is late. -/
def Ready (s : Simulation) : Prop :=
  ∀ topic i, (topic, .invoker i) ∈ s.tasks → s.now ≤ i.nextHeartbeat

theorem forTasks_keeps {f : String → Task → Simulation → Simulation} {P : Simulation → Prop}
    (keeps : ∀ x topic t, (topic, t) ∈ s.tasks → P x → P (f topic t x)) (holds : P s) :
    P (s.forTasks f) :=
  List.foldlRecOn s.tasks _ holds fun x kept entry member => keeps x entry.1 entry.2 member kept

/-- What is done for a task holds of it afterwards, if what is done for others keeps it. -/
theorem forTasks_reaches {f : String → Task → Simulation → Simulation}
    {Q : String → Task → Simulation → Prop} (reaches : ∀ s topic t, Q topic t (f topic t s))
    (keeps : ∀ s topic t other u, Q topic t s → Q topic t (f other u s)) {topic : String} {t : Task}
    (member : (topic, t) ∈ s.tasks) : Q topic t (s.forTasks f) := by
  unfold forTasks
  generalize s.tasks = entries at member
  induction entries generalizing s with
  | nil => cases member
  | cons entry rest ih =>
      rcases List.mem_cons.mp member with rfl | later
      · have kept : ∀ (l : Table String Task) (s : Simulation), Q topic t s →
            Q topic t (l.foldl (fun s entry => f entry.1 entry.2 s) s) := by
          intro l
          induction l with
          | nil => exact fun _ holds => holds
          | cons entry rest ih =>
              exact fun s holds => ih _ (keeps s topic t entry.1 entry.2 holds)
        exact kept rest _ (reaches s topic t)
      · exact ih later

/-- A task after its heartbeat, if it is time for one. -/
def beaten (now : Instant) : Task → Task
  | .invoker i => .invoker (if i.nextHeartbeat ≤ now then i.rearmed else i)
  | t => t

/-- A heartbeat moves the bus and its own task. -/
theorem beatIfDue_eq {topic : String} {t : Task} (distinct : Table.Distinct s.tasks)
    (there : Table.get? topic s.tasks = some t) :
    ∃ bus tasks, s.beatIfDue topic t = { s with gateway := { s.gateway with bus }, tasks } ∧
      Table.Distinct tasks ∧
      ∀ other, Table.get? other tasks =
        if topic = other then some (beaten s.now t) else Table.get? other s.tasks := by
  have untouched : ∀ other, Table.get? other s.tasks =
      if topic = other then some t else Table.get? other s.tasks := by
    intro other
    split
    · rename_i same
      rw [← same, there]
    · rfl
  cases t with
  | invoker i =>
      simp only [beatIfDue, beaten, publishHeartbeat, tryPublish_eq]
      split
      · refine ⟨_, _, rfl, Table.distinct_set (Table.distinct_erase distinct _) _ _, ?_⟩
        intro other
        rw [Table.get?_set, Table.get?_erase]
        split <;> rfl
      · exact ⟨_, _, rfl, distinct, untouched⟩
  | consumer | idle => exact ⟨_, _, rfl, distinct, untouched⟩

/-- The tasks still to come are as they were, and those behind have been beaten. -/
theorem beats_fold (entries : Table String Task) (s : Simulation)
    (distinctEntries : Table.Distinct entries) (distinct : Table.Distinct s.tasks)
    (there : ∀ topic t, Table.get? topic entries = some t → Table.get? topic s.tasks = some t) :
    ∃ bus tasks, entries.foldl (fun s (topic, t) => beatIfDue topic t s) s =
        { s with gateway := { s.gateway with bus }, tasks } ∧ Table.Distinct tasks ∧
      ∀ topic, Table.get? topic tasks =
        ((Table.get? topic entries).map (beaten s.now)).or (Table.get? topic s.tasks) := by
  induction entries generalizing s with
  | nil => exact ⟨_, _, rfl, distinct, fun _ => rfl⟩
  | cons entry rest ih =>
      obtain ⟨key, t⟩ := entry
      obtain ⟨apart, distinctRest⟩ := Table.distinct_cons.mp distinctEntries
      have behind : Table.get? key rest = none := Table.get?_eq_none_iff.mpr apart
      obtain ⟨bus, tasks, first, distinctFirst, tasksFirst⟩ :=
        beatIfDue_eq distinct (there key t (if_pos rfl))
      have thereRest : ∀ topic u, Table.get? topic rest = some u →
          Table.get? topic tasks = some u := by
        intro topic u member
        have ne : key ≠ topic := by
          rintro rfl
          rw [behind] at member
          cases member
        rw [tasksFirst topic, if_neg ne]
        exact there topic u ((if_neg ne).trans member)
      obtain ⟨busLast, tasksLast, last, distinctLast, tasksOf⟩ :=
        ih { s with gateway := { s.gateway with bus }, tasks } distinctRest distinctFirst thereRest
      refine ⟨busLast, tasksLast, ?_, distinctLast, fun topic => ?_⟩
      · show rest.foldl _ (s.beatIfDue key t) = _
        rw [first, last]
      · rw [tasksOf topic, Table.get?]
        show Option.or _ (Table.get? topic tasks) = _
        rw [tasksFirst topic]
        by_cases own : key = topic
        · subst own
          rw [behind, if_pos rfl, if_pos rfl]
          rfl
        · rw [if_neg own, if_neg own]

/-- **Heartbeats move the bus and the tasks that are due for one.** -/
theorem beats_eq (distinct : Table.Distinct s.tasks) :
    ∃ bus tasks, s.forTasks beatIfDue = { s with gateway := { s.gateway with bus }, tasks } ∧
      Table.Distinct tasks ∧
      ∀ topic, Table.get? topic tasks = (Table.get? topic s.tasks).map (beaten s.now) := by
  obtain ⟨bus, tasks, equal, distinctTasks, tasksOf⟩ :=
    beats_fold s.tasks s distinct distinct fun _ _ => id
  refine ⟨bus, tasks, equal, distinctTasks, fun topic => (tasksOf topic).trans ?_⟩
  cases Table.get? topic s.tasks <;> rfl

theorem startActivations_eq (topic : String) (t : Task) (s : Simulation) :
    ∃ bus sleepers, s.startActivations topic t =
      { s with gateway := { s.gateway with bus }, sleepers } := by
  cases t with
  | invoker i =>
      simp only [startActivations, takeAll_eq]
      exact ⟨_, _, rfl⟩
  | consumer | idle => exact ⟨_, _, rfl⟩

/-- Starting activations moves the bus and those who sleep. -/
theorem starts_eq (s : Simulation) :
    ∃ bus sleepers, s.forTasks startActivations =
      { s with gateway := { s.gateway with bus }, sleepers } := by
  refine forTasks_keeps (P := fun x => ∃ bus sleepers, x =
    { s with gateway := { s.gateway with bus }, sleepers }) ?_ ⟨_, _, rfl⟩
  rintro x topic t - ⟨bus, sleepers, rfl⟩
  obtain ⟨busLast, sleepersLast, equal⟩ := startActivations_eq topic t
    { s with gateway := { s.gateway with bus }, sleepers }
  exact ⟨busLast, sleepersLast, equal⟩

theorem topic_emptied (topic other : String) (b : Bus) :
    ((emptied topic b).topic other).queue =
      if topic = other then [] else (b.topic other).queue := by
  unfold emptied
  split
  · rename_i empty
    split
    · rename_i same
      rw [← same, List.isEmpty_iff.mp empty]
    · rfl
  · rw [Bus.topic_put]
    split <;> rfl

theorem topic_act_publish {name other : String} (apart : name ≠ other) (message : Bytes) (b : Bus) :
    (b.act (.publish name message)).topic other = b.topic other := by
  show ((b.publish name message).toOption.getD b).topic other = b.topic other
  cases outcome : b.publish name message with
  | ok after =>
      obtain ⟨-, rfl⟩ := Bus.publish_eq_ok_iff.mp outcome
      exact (Bus.topic_put b name other _).trans (if_neg apart)
  | error fault => rfl

theorem topic_announced {other : String} (apart : Completion.topic ≠ other) (due : List Sleeper)
    (b : Bus) : (due.foldl announce b).topic other = b.topic other := by
  induction due generalizing b with
  | nil => rfl
  | cons d rest ih => exact (ih _).trans (topic_act_publish apart _ b)

/-- What a consumer does with a message. -/
theorem consumeMessage_eq (topic : String) (text : Bytes) (s : Simulation) :
    ∃ gateway, s.consumeMessage topic text = { s with gateway } ∧
      (gateway = s.gateway ∨
        (topic = Completion.topic ∧
          ∃ c, gateway = (s.gateway.processCompletion c s.calendar).1) ∨
        ∃ h, gateway = s.gateway.processHeartbeat h s.now) := by
  simp only [consumeMessage]
  split
  · rename_i own
    split
    · rename_i c decoded
      exact ⟨_, rfl, .inr (.inl ⟨own, c, rfl⟩)⟩
    · exact ⟨_, rfl, .inl rfl⟩
  · split
    · rename_i h decoded
      exact ⟨_, rfl, .inr (.inr ⟨h, rfl⟩)⟩
    · exact ⟨_, rfl, .inl rfl⟩

/-- What a message keeps and the end of a consumer keeps, taking in messages keeps. -/
theorem consumeAll_keeps {P : Simulation → Prop} {topic : String}
    (message : ∀ x text, P x → P (x.consumeMessage topic text))
    (ends : ∀ x, P x → P (x.dropReceiver topic)) (texts : List Bytes) (holds : P s) :
    P (s.consumeAll topic texts) := by
  induction texts generalizing s with
  | nil => exact holds
  | cons text rest ih =>
      rw [consumeAll]
      split
      · exact ends s holds
      · exact ih (message s text holds)

/-- What completions, heartbeats and the bus keep of the gateway, consumers keep. -/
theorem consume_keeps {P : Gateway → Prop} {now : Instant}
    (bus : ∀ g bus, P g → P { g with bus })
    (complete : s.Consuming → ∀ g c calendar, P g → P (g.processCompletion c calendar).1)
    (heartbeat : ∀ g h, P g → P (g.processHeartbeat h now)) (clock : s.now = now)
    (holds : P s.gateway) :
    ∃ gateway, s.forTasks consume = { s with gateway } ∧ P gateway := by
  refine forTasks_keeps (P := fun x => ∃ gateway, x = { s with gateway } ∧ P gateway) ?_
    ⟨_, rfl, holds⟩
  rintro x topic t member ⟨gateway, rfl, holds⟩
  cases t with
  | consumer =>
      simp only [consume, takeAll_eq]
      refine consumeAll_keeps (P := fun x => ∃ gateway, x = { s with gateway } ∧ P gateway) ?_ ?_ _
        ⟨_, rfl, bus _ _ holds⟩
      · rintro x text ⟨gateway, rfl, holds⟩
        obtain ⟨after, equal, how⟩ := consumeMessage_eq topic text { s with gateway }
        refine ⟨after, equal, ?_⟩
        rcases how with rfl | ⟨rfl, c, rfl⟩ | ⟨h, rfl⟩
        · exact holds
        · exact complete member _ c _ holds
        · exact clock ▸ heartbeat _ h holds
      · rintro x ⟨gateway, rfl, holds⟩
        exact ⟨_, rfl, bus _ _ holds⟩
  | invoker | idle => exact ⟨gateway, rfl, holds⟩

theorem resolve_timers (f : InFlight) (c : Completion) :
    (f.resolve c).1.timers.Sublist f.timers := by
  cases pending : Table.get? c.id f.pending with
  | none =>
      rw [InFlight.resolve_of_absent pending]
      exact List.Sublist.refl _
  | some r =>
      rw [InFlight.resolve_of_pending pending]
      exact List.filter_sublist

theorem fireDue_timers (f : InFlight) (now : Instant) :
    (f.fireDue now).timers.Sublist f.timers ∧ ∀ t ∈ (f.fireDue now).timers, now < t.due := by
  rw [InFlight.fireDue, InFlight.fireAll_timers]
  refine ⟨List.filter_sublist, fun t member => ?_⟩
  obtain ⟨there, others⟩ := List.mem_filter.mp member
  by_contra due
  have passed : t.due ≤ now := Nat.not_lt.mp due
  exact of_decide_eq_true others t (List.mem_filter.mpr ⟨there, decide_eq_true passed⟩) rfl

/-- The timers of a gateway that has let fire what is due. -/
structure Fired (now : Instant) (g : Gateway) : Prop where
  sorted : g.flight.timers.Pairwise fun t u => t.due ≤ u.due
  ahead : ∀ t ∈ g.flight.timers, now < t.due

theorem Fired.sublist {now : Instant} {g h : Gateway} (fired : Fired now g)
    (sublist : h.flight.timers.Sublist g.flight.timers) : Fired now h where
  sorted := fired.sorted.sublist sublist
  ahead t there := fired.ahead t (sublist.subset there)

theorem heartbeat_timers (g : Gateway) (h : Heartbeat) (now : Instant) :
    (g.processHeartbeat h now).flight.timers = g.flight.timers := by
  simp only [Gateway.processHeartbeat]
  split <;> rfl

theorem rearmed_ahead {i : SimulatedInvoker} {now : Instant} (ready : now ≤ i.nextHeartbeat)
    (every : 0 < i.every.nanos) : now < i.rearmed.nextHeartbeat := by
  have far : 0 < Duration.farFuture.nanos := by decide
  show now < (i.nextHeartbeat.after? i.every).getD (i.nextHeartbeat + Duration.farFuture)
  simp only [Instant.after?]
  split
  · exact Nat.lt_of_le_of_lt ready (Nat.lt_add_of_pos_right every)
  · exact Nat.lt_of_le_of_lt ready (Nat.lt_add_of_pos_right far)

theorem consumeMessage_bus (topic : String) (text : Bytes) (s : Simulation) :
    (s.consumeMessage topic text).gateway.bus = s.gateway.bus := by
  obtain ⟨gateway, equal, rfl | ⟨-, c, rfl⟩ | ⟨h, rfl⟩⟩ := consumeMessage_eq topic text s
  · rw [equal]
  · rw [equal]
    rfl
  · rw [equal]
    simp only [Gateway.processHeartbeat]
    split <;> rfl

/-- Taking in messages leaves empty topics empty. -/
theorem consumeAll_queue (topic other : String) (texts : List Bytes)
    (empty : (s.gateway.bus.topic other).queue = []) :
    ((s.consumeAll topic texts).gateway.bus.topic other).queue = [] := by
  refine consumeAll_keeps (P := fun x => (x.gateway.bus.topic other).queue = []) ?_ ?_ texts empty
  · intro x text empty
    rw [consumeMessage_bus]
    exact empty
  · intro x empty
    show ((x.gateway.bus.put topic ⟨[], .dropped⟩).topic other).queue = []
    rw [Bus.topic_put]
    split
    · rfl
    · exact empty

/-- A consumer empties its topic and leaves empty topics empty. -/
theorem consume_queue (topic : String) (t : Task) {other : String}
    (empty : t = .consumer ∧ topic = other ∨ (s.gateway.bus.topic other).queue = []) :
    ((s.consume topic t).gateway.bus.topic other).queue = [] := by
  cases t with
  | consumer =>
      simp only [consume, takeAll_eq]
      refine consumeAll_queue topic other _ ((topic_emptied topic other _).trans ?_)
      rcases empty with ⟨-, own⟩ | empty
      · exact if_pos own
      · rw [empty, ite_self]
  | invoker | idle => exact empty.resolve_left nofun

/-- An invoker empties its topic and leaves empty topics empty. -/
theorem startActivations_queue (topic : String) (t : Task) {other : String}
    (empty : (∃ i, t = .invoker i) ∧ topic = other ∨ (s.gateway.bus.topic other).queue = []) :
    ((s.startActivations topic t).gateway.bus.topic other).queue = [] := by
  cases t with
  | invoker i =>
      simp only [startActivations, takeAll_eq]
      refine (topic_emptied topic other _).trans ?_
      rcases empty with ⟨-, own⟩ | empty
      · exact if_pos own
      · rw [empty, ite_self]
  | consumer | idle => exact empty.resolve_left nofun

/-- Simulated invokers have no message left when all have started what they were given. -/
theorem started_empty {topic : String} {i : SimulatedInvoker}
    (member : (topic, .invoker i) ∈ s.tasks) :
    ((s.forTasks startActivations).gateway.bus.topic topic).queue = [] := by
  have reached := forTasks_reaches (f := startActivations)
    (Q := fun topic t x => (∃ i, t = .invoker i) → (x.gateway.bus.topic topic).queue = [])
    (fun x topic t working => startActivations_queue topic t (.inl ⟨working, rfl⟩))
    (fun x topic t other u empty working => startActivations_queue other u (.inr (empty working)))
    member
  exact reached ⟨i, rfl⟩

/-- Consumers have no message left when all have taken in what came. -/
theorem consumed_empty {topic : String} (member : (topic, .consumer) ∈ s.tasks) :
    ((s.forTasks consume).gateway.bus.topic topic).queue = [] := by
  have reached := forTasks_reaches (f := consume)
    (Q := fun topic t x => t = .consumer → (x.gateway.bus.topic topic).queue = [])
    (fun x topic t consumer => consume_queue topic t (.inl ⟨consumer, rfl⟩))
    (fun x topic t other u empty consumer => consume_queue other u (.inr (empty consumer))) member
  exact reached rfl

theorem consumed_stays_empty {topic : String} (empty : (s.gateway.bus.topic topic).queue = []) :
    ((s.forTasks consume).gateway.bus.topic topic).queue = [] :=
  forTasks_keeps (P := fun x => (x.gateway.bus.topic topic).queue = [])
    (fun _ other u _ empty => consume_queue other u (.inr empty)) empty

/-- After a heartbeat that was due in time, the next one is ahead. -/
theorem beaten_ahead (regular : Regular s) (ready : Ready s) {tasks : Table String Task}
    (distinct : Table.Distinct tasks)
    (tasksOf : ∀ topic, Table.get? topic tasks = (Table.get? topic s.tasks).map (beaten s.now))
    {topic : String} {i : SimulatedInvoker} (member : (topic, .invoker i) ∈ tasks) :
    (topic = i.id.topic ∧ 0 < i.every.nanos) ∧ s.now < i.nextHeartbeat := by
  have there := Table.get?_of_mem distinct member
  rw [tasksOf, Option.map_eq_some_iff] at there
  obtain ⟨t, before, now⟩ := there
  have memberBefore := Table.mem_of_get? before
  cases t with
  | invoker j =>
      obtain rfl := Task.invoker.inj now
      have own := regular.own topic j memberBefore
      split
      · exact ⟨own, rearmed_ahead (ready topic j memberBefore) own.2⟩
      · rename_i later
        exact ⟨own, Nat.not_le.mp later⟩
  | consumer | idle => cases now

/-- Heartbeats start no consumer. -/
theorem consuming_of_beaten {tasks : Table String Task} (distinct : Table.Distinct tasks)
    (tasksOf : ∀ topic, Table.get? topic tasks = (Table.get? topic s.tasks).map (beaten s.now))
    (consuming : (Completion.topic, .consumer) ∈ tasks) : s.Consuming := by
  have there := Table.get?_of_mem distinct consuming
  rw [tasksOf, Option.map_eq_some_iff] at there
  obtain ⟨t, before, now⟩ := there
  cases t with
  | consumer => exact Table.mem_of_get? before
  | invoker | idle => cases now

/-- Completions are published and activations started until nobody who sleeps is due. -/
theorem rests_eq (s : Simulation) :
    ∃ bus sleepers, (s.wake.forTasks startActivations).wake =
        { s with gateway := { s.gateway with bus }, sleepers } ∧
      (∀ d ∈ sleepers, s.now < d.due) ∧
      ∀ topic i, (topic, .invoker i) ∈ s.tasks → Completion.topic ≠ topic →
        (bus.topic topic).queue = [] := by
  obtain ⟨bus, sleepers, started⟩ := starts_eq s.wake
  have tasks : s.wake.tasks = s.tasks := by rw [wake_eq]
  have empty : ∀ topic i, (topic, .invoker i) ∈ s.tasks → (bus.topic topic).queue = [] := by
    intro topic i member
    rw [← tasks] at member
    have taken := started_empty member
    rw [started] at taken
    exact taken
  refine ⟨(sleepers.filter (·.due ≤ s.now)).foldl announce bus,
    sleepers.filter (¬ ·.due ≤ s.now), ?_, ?_, ?_⟩
  · rw [started, wake_eq s, wake_eq]
  · intro d member
    exact Nat.not_le.mp (of_decide_eq_true (List.mem_filter.mp member).2)
  · intro topic i member apart
    rw [topic_announced apart]
    exact empty topic i member

/-- **When everything has happened, nothing is left to happen.** What happens by itself moves the
gateway, the tasks and those who sleep; completions are taken in by consumers. -/
theorem proceed_outcome (regular : Regular s) (ready : Ready s) :
    ∃ gateway tasks sleepers, s.proceed = { s with gateway, tasks, sleepers } ∧
      Idle { s with gateway, tasks, sleepers } ∧ Regular { s with gateway, tasks, sleepers } ∧
      (Consuming { s with gateway, tasks, sleepers } → s.Consuming) ∧
      Flow (fun _ => s.Consuming) s.now s.gateway gateway := by
  obtain ⟨sublist, ahead⟩ := fireDue_timers s.gateway.flight s.now
  let fired := s.modifyGateway fun g => { g with flight := g.flight.fireDue s.now }
  obtain ⟨busBeaten, tasks, beaten, distinct, tasksOf⟩ := beats_eq (s := fired) regular.distinct
  have own : ∀ topic i, (topic, .invoker i) ∈ tasks →
      (topic = i.id.topic ∧ 0 < i.every.nanos) ∧ s.now < i.nextHeartbeat :=
    fun _ _ member => beaten_ahead regular ready distinct tasksOf member
  obtain ⟨bus, sleepers, rested, asleep, empty⟩ :=
    rests_eq { fired with gateway := { fired.gateway with bus := busBeaten }, tasks }
  let resting : Simulation := { s with gateway := { fired.gateway with bus }, tasks, sleepers }
  have timers : Fired s.now resting.gateway := ⟨regular.sorted.sublist sublist, ahead⟩
  have flow : Flow (fun _ => s.Consuming) s.now s.gateway resting.gateway :=
    Flow.refl.elapse.bus bus
  have consuming : resting.Consuming → s.Consuming := consuming_of_beaten distinct tasksOf
  obtain ⟨gateway, consumed, last, flowed⟩ := consume_keeps (s := resting)
    (P := fun g => Fired s.now g ∧ Flow (fun _ => s.Consuming) s.now s.gateway g)
    (fun _ bus ⟨fired, flow⟩ => ⟨⟨fired.sorted, fired.ahead⟩, flow.bus bus⟩)
    (fun consumed g c calendar ⟨fired, flow⟩ => ⟨fired.sublist (resolve_timers g.flight c),
      flow.complete fired.ahead (consuming consumed) calendar⟩)
    (fun g h ⟨fired, flow⟩ => ⟨fired.sublist (by rw [heartbeat_timers]),
      flow.plain (e := .heartbeat h s.now) rfl⟩) rfl ⟨timers, flow⟩
  have taken : ∀ topic, ((resting.forTasks consume).gateway.bus.topic topic).queue =
      (gateway.bus.topic topic).queue := by
    intro topic
    rw [consumed]
  refine ⟨gateway, tasks, sleepers, ?_, ⟨last.ahead, ?_, ?_, asleep⟩, ⟨last.sorted, distinct, ?_⟩,
    consuming, flowed⟩
  · show ((fired.forTasks beatIfDue).wake.forTasks startActivations).wake.forTasks consume = _
    rw [beaten, rested]
    exact consumed
  · exact fun topic i member => (own topic i member).2
  · intro topic t member working
    show (gateway.bus.topic topic).queue = []
    rw [← taken]
    cases t with
    | consumer => exact consumed_empty (s := resting) member
    | invoker i =>
        refine consumed_stays_empty (s := resting) (empty topic i member ?_)
        rw [(own topic i member).1.1]
        exact (InvokerId.topic_ne_completion _).symm
    | idle => exact absurd rfl working
  · exact fun topic i member => (own topic i member).1

end Simulation

end Dispatch
