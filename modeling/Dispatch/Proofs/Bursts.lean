import Dispatch.Proofs.Moments
import Dispatch.Proofs.Underway

/-!
# What settles in the course of an operation

A quiet moment is what a simulation settles into; `bursts` are the simulations that do so in the
course of an operation, one for each of its moments. Between a quiet moment and the next of them
lies an `Onset`: something was done or time went by, but nobody who sleeps was woken, and unless the
operation brings in messages or completions from outside, a submission is all that can have put a
message on its way. A run `Passes` its bursts one after the other, so what an onset and a settling
keep, every run keeps (`passes_run`).
-/

set_option autoImplicit false

namespace Dispatch

open Gateway (Flow)

/-- `h` has the activations of `g` in flight, and no message on its bus that `g` has not. -/
structure Gateway.Spares (g h : Gateway) : Prop where
  pending : h.flight.pending = g.flight.pending
  mint : h.mint = g.mint
  minted : h.minted = g.minted
  copies : ∀ id, h.bus.copies id ≤ g.bus.copies id

namespace Gateway

variable {g h : Gateway}

theorem Spares.refl (g : Gateway) : Spares g g := ⟨rfl, rfl, rfl, fun _ => Nat.le_refl _⟩

theorem spares_bus {bus : Bus} (copies : ∀ id, bus.copies id ≤ g.bus.copies id) :
    Spares g { g with bus } := ⟨rfl, rfl, rfl, copies⟩

theorem spares_heartbeat (g : Gateway) (h : Heartbeat) (now : Instant) :
    Spares g (g.processHeartbeat h now) := by
  simp only [processHeartbeat]
  split <;> exact ⟨rfl, rfl, rfl, fun _ => Nat.le_refl _⟩

theorem spares_remove (g : Gateway) (id : InvokerId) : Spares g (g.removeInvoker id).1 := by
  simp only [removeInvoker]
  split
  · exact .refl g
  · exact ⟨rfl, rfl, rfl, fun _ => Nat.le_refl _⟩

end Gateway

namespace Simulation

variable {s x : Simulation} {done : Op → Prop} {genuine : Prop}

/-! ## Bursts -/

/-- A task has ended, and nothing else has happened yet. -/
def halted (s : Simulation) (topic : String) : Simulation :=
  match Table.get? topic s.tasks with
  | none => s
  | some t => { s with tasks := Table.erase topic s.tasks }.endTask topic t

/-- The observer has read a message. -/
def drawn (s : Simulation) (topic : String) : Simulation :=
  match s.observe topic with
  | .error _ => s
  | .ok x =>
    match x.gateway.bus.receive? topic with
    | none => x
    | some (_, bus) => x.modifyGateway ({ · with bus })

/-- A consumer has got its topic. -/
def staffed (s : Simulation) (topic : String) : Simulation :=
  match s.gateway.bus.subscribe topic with
  | .error _ => s
  | .ok bus =>
    { s.modifyGateway ({ · with bus }) with tasks := Table.set topic .consumer s.tasks }

/-- The simulations that settle on the way from due time to due time up to `target`. -/
def arrivals (target : Instant) : Nat → Simulation → List Simulation
  | 0, _ => []
  | fuel + 1, s =>
    match s.nextDue? with
    | none => []
    | some t =>
      if t ≤ target then { s with now := t } :: arrivals target fuel (s.arrive t) else []

/-- The simulations that settle in the course of an operation; where nothing can happen by itself,
what the operation leads to. -/
def bursts (s : Simulation) : Op → List Simulation
  | .submit r =>
      [s.opened (s.gateway.submit r s.now s.calendar).1 (s.callOf r), s.step (.submit r)]
  | .http r =>
      [s.opened (Api.handle s.gateway r s.now s.calendar).1 (s.callOfHttp r), s.step (.http r)]
  | .complete c => [s.modifyGateway fun g => (g.processCompletion c s.calendar).1]
  | .heartbeat h => [s.modifyGateway (·.processHeartbeat h s.now)]
  | .publish topic text =>
      [s.modifyGateway fun g => { g with bus := g.bus.act (.publish topic text) }]
  | .receive topic => [s.drawn topic]
  | .startConsumer topic => [s.staffed topic]
  | .startInvoker id capacity every =>
      let (ready, task) := s.prepared id capacity every
      let free := (ready.stop id.topic).1
      [ready, ready.halted id.topic, { free with tasks := Table.set id.topic task free.tasks }]
  | .stop topic => [s.halted topic]
  | .advance span =>
      let target : Instant := ⟨s.now.nanos + span.nanos⟩
      arrivals target (span.nanos + 1) s ++
        [{ runTo target (span.nanos + 1) s with now := target }]
  | op => [s.step op]

/-- All simulations that settle in the course of a run. -/
def runBursts : Simulation → List Op → List Simulation
  | _, [] => []
  | s, op :: rest => s.bursts op ++ (s.step op).runBursts rest

/-! ## From burst to burst -/

/-- The operation brings in no message about an activation, and no completion. -/
def Op.Genuine : Op → Prop
  | .complete _ => False
  | .publish topic text => about topic text = none
  | _ => True

/-- What is in flight and underway was there before, or a request was submitted. -/
def Feeds (s x : Simulation) : Prop :=
  s.gateway.Spares x.gateway ∨ ∃ r, x.gateway = (s.gateway.submit r s.now s.calendar).1

/-- `x` is about to settle, and `s` was the quiet moment before. -/
structure Onset (genuine : Prop) (s x : Simulation) : Prop where
  le : s.now ≤ x.now
  within : ∀ d ∈ s.sleepers, x.now ≤ d.due
  regular : Regular x
  ready : Ready x
  sleepers : x.sleepers = s.sleepers
  timer : x.timer = s.timer
  feeds : genuine → Feeds s x

/-- From `s` on, these simulations settle one after the other, and the last one into `t`. -/
def Passes (genuine : Prop) : Simulation → List Simulation → Simulation → Prop
  | s, [], t => t = s
  | s, x :: rest, t => Onset genuine s x ∧ Passes genuine x.settle rest t

theorem Onset.mono {more : Prop} (onset : Onset genuine s x) (le : more → genuine) :
    Onset more s x := { onset with feeds := onset.feeds ∘ le }

theorem Passes.mono {more : Prop} {xs : List Simulation} {t : Simulation}
    (passes : Passes genuine s xs t) (le : more → genuine) : Passes more s xs t := by
  induction xs generalizing s with
  | nil => exact passes
  | cons x rest ih => exact ⟨passes.1.mono le, ih passes.2⟩

theorem Passes.append {xs ys : List Simulation} {t u : Simulation}
    (first : Passes genuine s xs t) (second : Passes genuine t ys u) :
    Passes genuine s (xs ++ ys) u := by
  induction xs generalizing s with
  | nil => exact first ▸ second
  | cons x rest ih => exact ⟨first.1, ih first.2⟩

theorem Enters.onset (enters : Enters done s x) (sleepers : x.sleepers = s.sleepers)
    (timer : x.timer = s.timer) (feeds : genuine → Feeds s x) : Onset genuine s x where
  le := enters.le
  within _ there := enters.within _ (.sleeper there)
  regular := enters.regular
  ready := enters.ready
  sleepers := sleepers
  timer := timer
  feeds := feeds

/-- A quiet moment settles into itself. -/
theorem Turn.passes {m : Simulation} (turn : Turn done s m) (sleepers : m.sleepers = s.sleepers)
    (timer : m.timer = s.timer) (feeds : genuine → Feeds s m) : Passes genuine s [m] m where
  left :=
    { le := turn.le
      within := fun _ there => turn.within _ (.sleeper there)
      regular := turn.sound.regular
      ready := fun topic i member => Nat.le_of_lt (turn.sound.quiet.idle.beats topic i member)
      sleepers := sleepers
      timer := timer
      feeds := feeds }
  right := (settle_of_quiet turn.sound.quiet).symm

theorem Enters.passes (enters : Enters done s x) (sleepers : x.sleepers = s.sleepers)
    (timer : x.timer = s.timer) (feeds : genuine → Feeds s x) : Passes genuine s [x] x.settle :=
  ⟨enters.onset sleepers timer feeds, rfl⟩

/-! ## Operations -/

/-- Anything may be done. -/
def Any (_ : Op) : Prop := True

/-- A request is given its number, what can happen does, and the request is read. -/
theorem passes_call (sound : Sound s) {gateway : Gateway}
    (flow : Flow (Taken Any s) s.now s.gateway gateway) (c : Call)
    (feeds : s.gateway.Spares gateway ∨ ∃ r, gateway = (s.gateway.submit r s.now s.calendar).1) :
    Passes genuine s [s.opened gateway c, ((s.opened gateway c).settle.poll s.called).1]
      ((s.opened gateway c).settle.poll s.called).1 := by
  have enters := enters_opened sound flow c
  have settled := turn_settle enters
  have read : Turn Any (s.opened gateway c).settle _ := turn_poll settled.sound s.called
  refine (enters.passes rfl rfl fun _ => feeds).append (read.passes ?_ ?_ fun _ => .inl ?_) <;>
    rcases poll_eq (s.opened gateway c).settle s.called with same | ⟨-, same⟩ <;> rw [same]
  · exact .refl _
  · exact .refl _

/-- What is done to the gateway at once, and the observer with it. -/
theorem passes_gateway (sound : Sound s) {gateway : Gateway}
    (flow : Flow (Taken Any s) s.now s.gateway gateway) (observed : List String)
    (feeds : genuine → s.gateway.Spares gateway) :
    Passes genuine s [{ s with gateway, observed }] { s with gateway, observed }.settle :=
  (enters_atOnce sound flow (Nat.le_refl _) (fun _ _ _ _ waiting => waiting) observed).passes
    rfl rfl fun holds => .inl (feeds holds)

theorem passes_same (sound : Sound s) : Passes genuine s [s] s :=
  have turn : Turn Any s s := turn_same sound
  turn.passes rfl rfl fun _ => .inl (.refl _)

/-- Whoever observes a topic at most gets its receiver. -/
theorem observe_copies {topic : String} (observed : s.observe topic = .ok x) (id : ActivationId) :
    x.gateway.bus.copies id ≤ s.gateway.bus.copies id := by
  unfold observe at observed
  split at observed
  · obtain rfl := Except.ok.inj observed
    exact Nat.le_refl _
  · cases subscribed : s.gateway.bus.subscribe topic with
    | error fault =>
        rw [subscribed] at observed
        cases observed
    | ok bus =>
        rw [subscribed] at observed
        obtain rfl := Except.ok.inj observed
        obtain rfl := subscribe_eq_ok subscribed
        exact Bus.copies_subscribe_le id _ topic

theorem passes_receive (sound : Sound s) (topic : String) :
    Passes genuine s [s.drawn topic] (((s.receive topic).toOption.map (·.1)).getD s) := by
  unfold drawn receive
  cases observed : s.observe topic with
  | error fault => exact passes_same sound
  | ok x =>
      have copies := observe_copies observed
      obtain ⟨bus, seen, rfl, queues⟩ := observe_eq observed
      simp only [bind, Except.bind]
      cases received : bus.receive? topic with
      | none =>
          have turn : Turn Any s _ := turn_bus sound bus queues seen
          exact turn.passes rfl rfl fun _ => .inl (Gateway.spares_bus copies)
      | some message =>
          refine passes_gateway sound (Flow.refl.bus message.2) seen fun _ =>
            Gateway.spares_bus fun id => Nat.le_trans ?_ (copies id)
          have fewer := Bus.copies_receive_le id bus topic
          rw [Bus.act, received] at fewer
          exact fewer

theorem passes_close (sound : Sound s) (topic : String) :
    Passes genuine s [(s.close topic).toOption.getD s] ((s.close topic).toOption.getD s) := by
  unfold close
  cases observed : s.observe topic with
  | error fault => exact passes_same sound
  | ok x =>
      have copies := observe_copies observed
      obtain ⟨bus, seen, rfl, queues⟩ := observe_eq observed
      have turn : Turn Any s _ := turn_bus sound (bus.act (.drop topic))
        (fun other empty => act_drop_queue topic other bus (queues other empty))
        (seen.filter (· ≠ topic))
      exact turn.passes rfl rfl fun _ => .inl (Gateway.spares_bus fun id =>
        Nat.le_trans (Bus.copies_drop_le id bus topic) (copies id))

/-- A text that is about no activation puts none underway. -/
theorem passes_publish (sound : Sound s) (topic : String) (text : Bytes) :
    Passes (about topic text = none) s
      [s.modifyGateway fun g => { g with bus := g.bus.act (.publish topic text) }]
      ((s.publish topic text).toOption.getD s) := by
  unfold publish
  cases outcome : s.gateway.bus.publish topic text with
  | error fault =>
      have refused : s.gateway.bus.act (.publish topic text) = s.gateway.bus := by
        rw [Bus.act, outcome]
        rfl
      rw [modifyGateway, refused]
      exact passes_same sound
  | ok bus =>
      have accepted : s.gateway.bus.act (.publish topic text) = bus := by
        rw [Bus.act, outcome]
        rfl
      rw [modifyGateway, accepted]
      refine passes_gateway sound (Flow.refl.bus bus) s.observed fun none =>
        Gateway.spares_bus fun id => ?_
      rw [← accepted]
      exact Bus.copies_publish_none none

theorem passes_startConsumer (sound : Sound s) (topic : String) :
    Passes genuine s [s.staffed topic] ((s.startConsumer topic).toOption.getD s) := by
  unfold staffed startConsumer
  cases subscribed : s.gateway.bus.subscribe topic with
  | error fault => exact passes_same sound
  | ok bus =>
      obtain rfl := subscribe_eq_ok subscribed
      have enters : Enters Any s { s with
          gateway := { s.gateway with bus := s.gateway.bus.act (.subscribe topic) }
          tasks := Table.set topic .consumer s.tasks } :=
        enters_task sound _ nofun fun _ => trivial
      exact enters.passes rfl rfl fun _ =>
        .inl (Gateway.spares_bus fun id => Bus.copies_subscribe_le id _ topic)

/-- Ending a task ends nothing that is underway. -/
theorem endTask_copies (topic : String) (t : Task) (s : Simulation) (id : ActivationId) :
    (s.endTask topic t).gateway.bus.copies id ≤ s.gateway.bus.copies id := by
  cases t with
  | consumer => exact Bus.copies_drop_le id _ topic
  | invoker i =>
      simp only [endTask, publishHeartbeat, tryPublish_eq]
      exact Nat.le_trans (Bus.copies_drop_le id _ topic)
        (Bus.copies_publish_none (about_heartbeat _))
  | idle => exact Nat.le_refl _

/-- Before it settles, a simulation whose task has ended has fewer messages underway. -/
theorem passes_halted (sound : Sound s) (topic : String) :
    Passes genuine s [s.halted topic] (s.stop topic).1 := by
  unfold halted stop
  cases there : Table.get? topic s.tasks with
  | none => exact passes_same sound
  | some t =>
      have copies := endTask_copies topic t { s with tasks := Table.erase topic s.tasks }
      obtain ⟨bus, ended⟩ := endTask_eq topic t { s with tasks := Table.erase topic s.tasks }
      simp only [ended] at copies ⊢
      exact (enters_untask Any sound bus topic).passes rfl rfl fun _ =>
        .inl (Gateway.spares_bus copies)

theorem prepared_eq (s : Simulation) (id : InvokerId) (capacity : Capacity) (every : Duration) :
    ∃ bus, (s.prepared id capacity every).1 = { s with gateway := { s.gateway with bus } } ∧
      ∀ a, bus.copies a ≤ s.gateway.bus.copies a := by
  unfold prepared
  cases subscribed : s.gateway.bus.subscribe id.topic with
  | error fault => exact ⟨_, rfl, fun _ => Nat.le_refl _⟩
  | ok bus =>
      obtain rfl := subscribe_eq_ok subscribed
      have copies (a : ActivationId) := s.gateway.bus.copies_subscribe_le a id.topic
      dsimp only
      split
      · exact ⟨_, rfl, fun a => Nat.le_trans (Bus.copies_drop_le a _ _) (copies a)⟩
      · exact ⟨_, rfl, copies⟩

theorem passes_prepared (sound : Sound s) (id : InvokerId) (capacity : Capacity)
    (every : Duration) :
    Passes genuine s [(s.prepared id capacity every).1] (s.prepared id capacity every).1 := by
  have turn := (turn_prepared Any sound id capacity every).1
  obtain ⟨bus, same, copies⟩ := s.prepared_eq id capacity every
  refine turn.passes ?_ ?_ fun _ => .inl ?_ <;> rw [same]
  exact Gateway.spares_bus copies

theorem passes_startInvoker (sound : Sound s) (id : InvokerId) (capacity : Capacity)
    (every : Duration) :
    Passes genuine s (s.bursts (.startInvoker id capacity every))
      (s.step (.startInvoker id capacity every)) := by
  obtain ⟨ready, other, own⟩ := turn_prepared Any sound id capacity every
  obtain ⟨free, sameTime⟩ := turn_stop Any ready.sound id.topic
  have started : Enters Any _ _ := enters_task free.sound
    ((s.prepared id capacity every).1.stop id.topic).1.gateway.bus
    (fun i running => by
      obtain ⟨topic, often, next⟩ := own i running
      exact ⟨topic, often, Nat.le_of_eq (congrArg Instant.nanos (sameTime.trans next))⟩)
    fun consumer => absurd consumer other
  exact (passes_prepared sound id capacity every).append
    ((passes_halted ready.sound id.topic).append
      (started.passes rfl rfl fun _ => .inl (.refl _)))

theorem passes_arrivals (sound : Sound s) (target : Instant) (fuel : Nat) :
    Passes genuine s (arrivals target fuel s) (runTo target fuel s) := by
  induction fuel generalizing s with
  | zero => exact rfl
  | succ fuel ih =>
      cases due : s.nextDue? with
      | none =>
          simp only [arrivals, runTo, due]
          exact rfl
      | some t =>
          rw [runTo_succ sound due]
          simp only [arrivals, due]
          split
          · have enters : Enters Any s _ := enters_arrive sound due
            exact ⟨enters.onset rfl rfl fun _ => .inl (.refl _), ih (turn_settle enters).sound⟩
          · exact rfl

theorem passes_advance (sound : Sound s) (span : Duration) :
    Passes genuine s (s.bursts (.advance span)) (s.step (.advance span)) := by
  have le : s.now ≤ ⟨s.now.nanos + span.nanos⟩ := Nat.le_add_right _ _
  have enough : s.now.nanos + span.nanos < s.now.nanos + (span.nanos + 1) := Nat.lt_succ_self _
  obtain ⟨-, -, soundLast, le, later⟩ := runTo_outcome Any sound le enough
  have enters : Enters Any _ _ :=
    enters_clock soundLast le fun d due => Nat.le_of_lt (later d due)
  exact (passes_arrivals sound _ _).append (enters.passes rfl rfl fun _ => .inl (.refl _))

/-- What is done to the gateway and has nothing to do with activations or messages. -/
theorem passes_plain (sound : Sound s) {e : Gateway.Event} (plain : e.isPlain = true)
    (flight : (s.gateway.step e).flight = s.gateway.flight)
    (bus : (s.gateway.step e).bus = s.gateway.bus)
    (spares : s.gateway.Spares (s.gateway.step e)) :
    Passes genuine s [{ s with gateway := s.gateway.step e }]
      { s with gateway := s.gateway.step e } :=
  have turn : Turn Any s _ := turn_plain sound plain flight bus
  turn.passes rfl rfl fun _ => .inl spares

/-- **Every operation goes from burst to burst.** -/
theorem passes_bursts (sound : Sound s) (op : Op) :
    Passes op.Genuine s (s.bursts op) (s.step op) := by
  cases op with
  | submit r =>
      rw [bursts, step, submit_eq]
      exact passes_call sound (Flow.refl.submit r s.calendar) (s.callOf r) (.inr ⟨r, rfl⟩)
  | http r =>
      rw [bursts, step, http_eq]
      exact passes_call sound (Api.flow_handle s.gateway r s.now s.calendar) (s.callOfHttp r)
        (Api.keeps_handle (P := fun h => s.gateway.Spares h ∨
            ∃ r, h = (s.gateway.submit r s.now s.calendar).1) (.inl (.refl _))
          (fun r => .inr ⟨r, rfl⟩) (fun id => .inl (Gateway.spares_remove _ id))
          (.inl ⟨rfl, rfl, rfl, fun _ => Nat.le_refl _⟩) r)
  | complete c =>
      exact passes_gateway sound
        (Flow.refl.complete sound.quiet.idle.timers (.inl trivial) s.calendar) s.observed
        False.elim
  | heartbeat h =>
      exact passes_gateway sound (Flow.refl.plain (e := .heartbeat h s.now) rfl) s.observed
        fun _ => Gateway.spares_heartbeat _ h s.now
  | remove id =>
      refine passes_plain sound (e := .remove id) rfl ?_ ?_ (Gateway.spares_remove _ id) <;>
        (simp only [Gateway.step, Gateway.removeInvoker]; split <;> rfl)
  | sweep =>
      exact passes_plain sound (e := .sweep s.now) rfl rfl rfl
        ⟨rfl, rfl, rfl, fun _ => Nat.le_refl _⟩
  | list =>
      exact passes_plain sound (e := .list) rfl rfl rfl ⟨rfl, rfl, rfl, fun _ => Nat.le_refl _⟩
  | put a =>
      have turn : Turn Any s ((s.put a).toOption.getD s) := by
        have plain : Turn Any s _ := turn_plain sound (e := .store a) rfl rfl rfl
        simp only [Gateway.step] at plain
        unfold put
        cases stored : s.gateway.store.put a with
        | error fault => exact turn_same sound
        | ok store =>
            rw [stored] at plain
            exact plain
      refine turn.passes ?_ ?_ fun _ => .inl ?_ <;> unfold put <;>
        cases s.gateway.store.put a <;> first | rfl | exact ⟨rfl, rfl, rfl, fun _ => Nat.le_refl _⟩
  | publish topic text => exact passes_publish sound topic text
  | receive topic => exact passes_receive sound topic
  | close topic => exact passes_close sound topic
  | startConsumer topic => exact passes_startConsumer sound topic
  | startInvoker id capacity every => exact passes_startInvoker sound id capacity every
  | stop topic => exact passes_halted sound topic
  | poll number =>
      have turn : Turn Any s (s.poll number).1 := turn_poll sound number
      refine turn.passes ?_ ?_ fun _ => .inl ?_ <;>
        rcases poll_eq s number with same | ⟨-, same⟩ <;> rw [same]
      · exact .refl _
      · exact .refl _
  | cancel number =>
      have turn : Turn Any s (s.cancel number) := turn_erase sound fun stays => absurd trivial stays
      exact turn.passes rfl rfl fun _ => .inl (.refl _)
  | advance span => exact passes_advance sound span

/-- **Every run goes from burst to burst.** -/
theorem passes_run (sound : Sound s) (ops : List Op) :
    Passes (∀ op ∈ ops, op.Genuine) s (s.runBursts ops) (s.run ops) := by
  induction ops generalizing s with
  | nil => exact rfl
  | cons op rest ih =>
      have first := (passes_bursts sound op).mono fun all : ∀ later ∈ op :: rest, later.Genuine =>
        all op List.mem_cons_self
      have last := (ih (sound_step sound op)).mono fun all : ∀ later ∈ op :: rest, later.Genuine =>
        fun later member => all later (List.mem_cons_of_mem op member)
      exact first.append last

end Simulation

end Dispatch
