import Dispatch.Proofs.Clockwork

/-!
# Moments of an operation

An operation leads from a quiet moment to another, some over others between: a call is opened before
it is read, a simulated invoker ends the one before it, and the clock stops wherever something is
due. `moments` lists them, and `turns_moments` says that each is the next one after the one before,
so that whatever a `Turn` keeps, every run keeps.
-/

set_option autoImplicit false

namespace Dispatch

open Gateway (Flow)

/-! ## Requests over HTTP -/

namespace Api

section Keeps

variable {P : Gateway → Prop} {g : Gateway} {now : Instant} {calendar : UInt64}

theorem keeps_invoke (same : P g) (submit : ∀ r, P (g.submit r now calendar).1)
    (space name query body : Bytes) : P (invoke g space name query body now calendar).1 := by
  unfold invoke
  cases readInvocation space name query body with
  | error response => exact same
  | ok request =>
      have submitted := submit request
      dsimp only
      split
      · rename_i outcome
        rwa [outcome] at submitted
      · rename_i outcome
        rwa [outcome] at submitted

theorem keeps_serve (same : P g) (submit : ∀ r, P (g.submit r now calendar).1)
    (remove : ∀ id, P (g.removeInvoker id).1) (list : P g.listInvokers.1) (e : Http.Endpoint)
    (query body : Bytes) : P (serve g e query body now calendar).1 := by
  cases e with
  | invokers => exact list
  | invoker id =>
      simp only [serve]
      split
      · exact same
      · rename_i ordinal named
        have removed := remove ⟨ordinal⟩
        split <;> rename_i outcome <;> rwa [outcome] at removed
  | activations => exact same
  | action space name => exact keeps_invoke same submit space name query body
  | metrics => exact list

/-- What submissions, removals and listings keep, a request over HTTP keeps. -/
theorem keeps_handle (same : P g) (submit : ∀ r, P (g.submit r now calendar).1)
    (remove : ∀ id, P (g.removeInvoker id).1) (list : P g.listInvokers.1) (r : Http.Request) :
    P (handle g r now calendar).1 := by
  simp only [handle]
  split
  · exact same
  · rename_i e found
    split
    · have served : P _ :=
        keeps_serve same submit remove list e (Http.Target.ofText r.target).query r.body
      split
      · rename_i outcome
        rwa [outcome] at served
      · exact served
    · exact same

end Keeps

/-- **A request over HTTP does nothing to a gateway that it could not do by itself.** -/
theorem flow_handle {taken : Completion → Prop} (g : Gateway) (r : Http.Request) (now : Instant)
    (calendar : UInt64) : Flow taken now g (handle g r now calendar).1 :=
  keeps_handle (P := Flow taken now g) .refl (fun request => Flow.refl.submit request calendar)
    (fun id => Flow.refl.plain (e := .remove id) rfl) (Flow.refl.plain (e := .list) rfl) r

end Api

namespace Simulation

variable {s : Simulation} {done : Op → Prop}

/-! ## Calls -/

/-- The simulation after a call was given its number. -/
def opened (s : Simulation) (gateway : Gateway) (c : Call) : Simulation :=
  { s with gateway, calls := Table.set s.called c s.calls, called := s.called + 1 }

/-- The call of a request. -/
def callOf (s : Simulation) (r : Request) : Call :=
  match (s.gateway.submit r s.now s.calendar).2 with
  | .ok published => s.callFor published r.patience false
  | .error f => .ended (.refused f)

/-- The call of a request over HTTP. -/
def callOfHttp (s : Simulation) (r : Http.Request) : Call :=
  match (Api.handle s.gateway r s.now s.calendar).2 with
  | .done response => .ended (.response response)
  | .submitted published patience => s.callFor published patience true

theorem submit_eq (s : Simulation) (r : Request) :
    s.submit r =
      (s.opened (s.gateway.submit r s.now s.calendar).1 (s.callOf r)).settle.poll s.called := by
  rcases outcome : s.gateway.submit r s.now s.calendar with ⟨gateway, result⟩
  simp only [submit, callOf, outcome]
  cases result <;> rfl

theorem http_eq (s : Simulation) (r : Http.Request) :
    s.http r = (s.opened (Api.handle s.gateway r s.now s.calendar).1
      (s.callOfHttp r)).settle.poll s.called := by
  rcases outcome : Api.handle s.gateway r s.now s.calendar with ⟨gateway, reply⟩
  simp only [http, callOfHttp, outcome]
  cases reply <;> rfl

theorem enters_opened (sound : Sound s) {gateway : Gateway}
    (flow : Flow (Taken done s) s.now s.gateway gateway) (c : Call) :
    Enters done s (s.opened gateway c) := by
  refine enters_atOnce sound flow (Nat.le_succ _) (fun k early _ w waiting => ?_) s.observed
  rw [Table.get?_set, if_neg (Nat.ne_of_gt early)]
  exact waiting

theorem poll_eq (s : Simulation) (number : Nat) :
    (s.poll number).1 = s ∨
      (∃ r, Table.get? number s.calls = some (.ended r)) ∧
        (s.poll number).1 = { s with calls := Table.erase number s.calls } := by
  unfold poll
  split
  · rename_i r there
    exact .inr ⟨⟨r, there⟩, rfl⟩
  · exact .inl rfl
  · exact .inl rfl

/-- Calls that go away leave a quiet simulation quiet. -/
theorem quiet_erase (quiet : Quiet s) (number : Nat) :
    Quiet { s with calls := Table.erase number s.calls } where
  idle := ⟨quiet.idle.timers, quiet.idle.beats, quiet.idle.taken, quiet.idle.asleep⟩
  patient k w member := quiet.patient k w (Table.mem_of_mem_erase member)
  unanswered k w member := quiet.unanswered k w (Table.mem_of_mem_erase member)

theorem enters_same (sound : Sound s) : Enters done s s :=
  enters_atOnce sound .refl (Nat.le_refl _) (fun _ _ _ _ waiting => waiting) s.observed

theorem turn_same (sound : Sound s) : Turn done s s := turn_quiet (enters_same sound) sound.quiet

theorem turn_erase (sound : Sound s) {number : Nat}
    (kept : ¬ done (.cancel number) → ∀ w, Table.get? number s.calls ≠ some (.waiting w)) :
    Turn done s { s with calls := Table.erase number s.calls } := by
  refine turn_quiet (enters_atOnce sound .refl (Nat.le_refl _) ?_ s.observed)
    (quiet_erase sound.quiet number)
  intro k _ stays w waiting
  rw [Table.get?_erase, if_neg, waiting]
  rintro rfl
  exact kept stays w waiting

theorem turn_poll (sound : Sound s) (number : Nat) : Turn done s (s.poll number).1 := by
  rcases poll_eq s number with same | ⟨⟨r, ended⟩, erased⟩
  · rw [same]
    exact turn_same sound
  · rw [erased]
    refine turn_erase sound fun _ w waiting => ?_
    rw [ended] at waiting
    cases waiting

/-! ## The gateway and the topics -/

/-- What is done to the gateway alone, if nothing in flight moves and no message comes. -/
theorem turn_gateway (sound : Sound s) {gateway : Gateway}
    (flow : Flow (Taken done s) s.now s.gateway gateway)
    (flight : gateway.flight = s.gateway.flight)
    (queues : ∀ topic, (s.gateway.bus.topic topic).queue = [] →
      (gateway.bus.topic topic).queue = []) (observed : List String) :
    Turn done s { s with gateway, observed } := by
  refine turn_quiet (enters_atOnce sound flow (Nat.le_refl _) (fun _ _ _ _ waiting => waiting)
    observed) ⟨⟨?_, sound.quiet.idle.beats, ?_, sound.quiet.idle.asleep⟩, sound.quiet.patient, ?_⟩
  · intro t there
    exact sound.quiet.idle.timers t (flight ▸ there)
  · intro topic t member working
    exact queues topic (sound.quiet.idle.taken topic t member working)
  · intro k w member
    show Table.get? w.number gateway.flight.answers = none
    rw [flight]
    exact sound.quiet.unanswered k w member

theorem turn_bus (sound : Sound s) (bus : Bus)
    (queues : ∀ topic, (s.gateway.bus.topic topic).queue = [] → (bus.topic topic).queue = [])
    (observed : List String) :
    Turn done s { s with gateway := { s.gateway with bus }, observed } :=
  turn_gateway sound (Flow.refl.bus bus) rfl queues observed

theorem turn_flow (sound : Sound s) {gateway : Gateway}
    (flow : Flow (Taken done s) s.now s.gateway gateway) :
    Turn done s { s with gateway }.settle :=
  turn_settle (enters_atOnce sound flow (Nat.le_refl _) (fun _ _ _ _ waiting => waiting) s.observed)

theorem act_subscribe_queue (topic other : String) (b : Bus) :
    ((b.act (.subscribe topic)).topic other).queue = (b.topic other).queue := by
  show (((b.subscribe topic).toOption.getD b).topic other).queue = _
  unfold Bus.subscribe
  dsimp only
  split
  · show ((b.put topic _).topic other).queue = _
    rw [Bus.topic_put]
    split
    · rename_i same
      rw [same]
    · rfl
  · rfl

theorem act_drop_queue (topic other : String) (b : Bus) :
    (b.topic other).queue = [] → ((b.act (.drop topic)).topic other).queue = [] := by
  intro empty
  show ((b.put topic ⟨[], .dropped⟩).topic other).queue = []
  rw [Bus.topic_put]
  split
  · rfl
  · exact empty

theorem subscribe_eq_ok {b after : Bus} {topic : String}
    (subscribed : b.subscribe topic = .ok after) : after = b.act (.subscribe topic) := by
  show after = (b.subscribe topic).toOption.getD b
  rw [subscribed]
  rfl

/-- Whoever observes a topic at most gets its receiver. -/
theorem observe_eq {topic : String} {x : Simulation} (observed : s.observe topic = .ok x) :
    ∃ bus observed, x = { s with gateway := { s.gateway with bus }, observed } ∧
      ∀ other, (s.gateway.bus.topic other).queue = [] → (bus.topic other).queue = [] := by
  unfold observe at observed
  split at observed
  · obtain rfl := Except.ok.inj observed
    exact ⟨_, _, rfl, fun _ empty => empty⟩
  · cases subscribed : s.gateway.bus.subscribe topic with
    | error fault =>
        rw [subscribed] at observed
        cases observed
    | ok bus =>
        rw [subscribed] at observed
        obtain rfl := Except.ok.inj observed
        obtain rfl := subscribe_eq_ok subscribed
        exact ⟨_, _, rfl, fun other empty => (act_subscribe_queue topic other _).trans empty⟩

theorem turn_receive (sound : Sound s) (topic : String) :
    Turn done s (((s.receive topic).toOption.map (·.1)).getD s) := by
  unfold receive
  cases observed : s.observe topic with
  | error fault => exact turn_same sound
  | ok x =>
      obtain ⟨bus, seen, rfl, queues⟩ := observe_eq observed
      simp only [bind, Except.bind]
      cases bus.receive? topic with
      | none => exact turn_bus sound bus queues seen
      | some received =>
          exact turn_settle (enters_atOnce sound (Flow.refl.bus received.2) (Nat.le_refl _)
            (fun _ _ _ _ waiting => waiting) seen)

theorem turn_close (sound : Sound s) (topic : String) :
    Turn done s ((s.close topic).toOption.getD s) := by
  unfold close
  cases observed : s.observe topic with
  | error fault => exact turn_same sound
  | ok x =>
      obtain ⟨bus, seen, rfl, queues⟩ := observe_eq observed
      exact turn_bus sound (bus.act (.drop topic))
        (fun other empty => act_drop_queue topic other bus (queues other empty)) _

theorem turn_publish (sound : Sound s) (topic : String) (text : Bytes) :
    Turn done s ((s.publish topic text).toOption.getD s) := by
  unfold publish
  cases s.gateway.bus.publish topic text with
  | error fault => exact turn_same sound
  | ok bus => exact turn_flow sound (Flow.refl.bus bus)

/-! ## Tasks -/

theorem mem_set_task {topic other : String} {t u : Task} {tasks : Table String Task}
    (distinct : Table.Distinct tasks) (member : (other, u) ∈ Table.set topic t tasks) :
    topic = other ∧ t = u ∨ (other, u) ∈ tasks := by
  have there := Table.get?_of_mem (Table.distinct_set distinct topic t) member
  rw [Table.get?_set] at there
  split at there
  · rename_i same
    exact .inl ⟨same, Option.some.inj there⟩
  · exact .inr (Table.mem_of_get? there)

/-- A task is started, and the bus is used meanwhile. -/
theorem enters_task (sound : Sound s) (bus : Bus) {topic : String} {t : Task}
    (own : ∀ i, t = .invoker i → topic = i.id.topic ∧ 0 < i.every.nanos ∧ s.now ≤ i.nextHeartbeat)
    (started : t = .consumer → done (.startConsumer topic)) :
    Enters done s { s with
      gateway := { s.gateway with bus }, tasks := Table.set topic t s.tasks } := by
  refine ⟨Nat.le_refl _, fun _ due => Nat.le_of_lt (sound.quiet.ahead due),
    ⟨sound.regular.sorted, Table.distinct_set sound.regular.distinct topic t, ?_⟩, ?_,
    Flow.refl.bus bus, ?_, Nat.le_refl _, fun _ _ _ _ waiting => waiting⟩
  · intro other i member
    rcases mem_set_task sound.regular.distinct member with ⟨rfl, same⟩ | before
    · exact ⟨(own i same).1, (own i same).2.1⟩
    · exact sound.regular.own other i before
  · intro other i member
    rcases mem_set_task sound.regular.distinct member with ⟨rfl, same⟩ | before
    · exact (own i same).2.2
    · exact Nat.le_of_lt (sound.quiet.idle.beats other i before)
  · intro consuming
    rcases mem_set_task sound.regular.distinct consuming with ⟨rfl, same⟩ | before
    · exact .inl (started same)
    · exact .inr before

/-- A task is ended, and the bus is used meanwhile. -/
theorem enters_untask (done : Op → Prop) (sound : Sound s) (bus : Bus) (topic : String) :
    Enters done s { s with
      gateway := { s.gateway with bus }, tasks := Table.erase topic s.tasks } :=
  ⟨Nat.le_refl _, fun _ due => Nat.le_of_lt (sound.quiet.ahead due),
    ⟨sound.regular.sorted, Table.distinct_erase sound.regular.distinct topic,
      fun other i member => sound.regular.own other i (Table.mem_of_mem_erase member)⟩,
    fun other i member =>
      Nat.le_of_lt (sound.quiet.idle.beats other i (Table.mem_of_mem_erase member)),
    Flow.refl.bus bus, fun consuming => .inr (Table.mem_of_mem_erase consuming), Nat.le_refl _,
    fun _ _ _ _ waiting => waiting⟩

theorem endTask_eq (topic : String) (t : Task) (s : Simulation) :
    ∃ bus, s.endTask topic t = { s with gateway := { s.gateway with bus } } := by
  cases t with
  | consumer => exact ⟨_, rfl⟩
  | invoker i =>
      simp only [endTask, publishHeartbeat, tryPublish_eq]
      exact ⟨_, rfl⟩
  | idle => exact ⟨_, rfl⟩

/-- Ending a task takes no time. -/
theorem turn_stop (done : Op → Prop) (sound : Sound s) (topic : String) :
    Turn done s (s.stop topic).1 ∧ (s.stop topic).1.now = s.now := by
  unfold stop
  split
  · exact ⟨turn_same sound, rfl⟩
  · rename_i t there
    obtain ⟨bus, ended⟩ := endTask_eq topic t { s with tasks := Table.erase topic s.tasks }
    rw [ended]
    have enters := enters_untask done sound bus topic
    exact ⟨turn_settle enters, settle_now enters.regular enters.ready⟩

/-- What a simulated invoker finds when it starts: whether it gets its topic, and its task. -/
def prepared (s : Simulation) (id : InvokerId) (capacity : Capacity) (every : Duration) :
    Simulation × Task :=
  match s.gateway.bus.subscribe id.topic with
  | .ok bus =>
    let s := s.modifyGateway ({ · with bus })
    if every.isZero then (s.dropReceiver id.topic, Task.idle)
    else (s, .invoker ⟨id, capacity, every, s.now⟩)
  | .error _ => (s, .idle)

/-- A simulated invoker takes the place of the one before it. -/
theorem startInvoker_eq (s : Simulation) (id : InvokerId) (capacity : Capacity)
    (every : Duration) :
    s.startInvoker id capacity every =
      let ready := (s.prepared id capacity every).1
      let free := (ready.stop id.topic).1
      { free with
        tasks := Table.set id.topic (s.prepared id capacity every).2 free.tasks }.settle := rfl

theorem turn_prepared (done : Op → Prop) (sound : Sound s) (id : InvokerId)
    (capacity : Capacity) (every : Duration) :
    Turn done s (s.prepared id capacity every).1 ∧
      (s.prepared id capacity every).2 ≠ .consumer ∧
        ∀ i, (s.prepared id capacity every).2 = .invoker i →
          id.topic = i.id.topic ∧ 0 < i.every.nanos ∧
            (s.prepared id capacity every).1.now = i.nextHeartbeat := by
  unfold prepared
  cases subscribed : s.gateway.bus.subscribe id.topic with
  | error fault => exact ⟨turn_same sound, nofun, nofun⟩
  | ok bus =>
      obtain rfl := subscribe_eq_ok subscribed
      dsimp only
      by_cases zero : every.isZero = true
      · rw [if_pos zero]
        refine ⟨turn_bus sound ((s.gateway.bus.act (.subscribe id.topic)).act (.drop id.topic))
          (fun other empty => act_drop_queue _ _ _ ?_) s.observed, nofun, nofun⟩
        exact (act_subscribe_queue id.topic other _).trans empty
      · rw [if_neg zero]
        refine ⟨turn_bus sound _ (fun other empty =>
          (act_subscribe_queue id.topic other _).trans empty) s.observed, nofun, ?_⟩
        rintro i same
        obtain rfl := Task.invoker.inj same
        refine ⟨rfl, Nat.pos_of_ne_zero fun none => zero ?_, rfl⟩
        exact decide_eq_true none

theorem turn_startConsumer (sound : Sound s) {topic : String}
    (started : done (.startConsumer topic)) :
    Turn done s ((s.startConsumer topic).toOption.getD s) := by
  unfold startConsumer
  cases s.gateway.bus.subscribe topic with
  | error fault => exact turn_same sound
  | ok bus => exact turn_settle (enters_task sound bus (t := .consumer) nofun fun _ => started)

/-! ## Operations -/

/-- The moments of an operation; the last one is when it is over. -/
def moments (s : Simulation) : Op → List Simulation
  | .submit r =>
      [(s.opened (s.gateway.submit r s.now s.calendar).1 (s.callOf r)).settle, s.step (.submit r)]
  | .http r =>
      [(s.opened (Api.handle s.gateway r s.now s.calendar).1 (s.callOfHttp r)).settle,
        s.step (.http r)]
  | .startInvoker id capacity every =>
      let ready := (s.prepared id capacity every).1
      [ready, (ready.stop id.topic).1, s.step (.startInvoker id capacity every)]
  | .advance span => s.advanceMoments span
  | op => [s.step op]

theorem moments_last (s : Simulation) (op : Op) : (s.moments op).getLastD s = s.step op := by
  cases op with
  | advance span =>
      rw [moments, advanceMoments, List.getLastD_concat]
      rfl
  | submit | http | complete | heartbeat | remove | sweep | list | put | publish | receive | close
  | startConsumer | startInvoker | stop | poll | cancel => rfl

/-- What is done to the gateway alone, and has nothing to do with activations or messages. -/
theorem turn_plain (sound : Sound s) {e : Gateway.Event} (plain : e.isPlain = true)
    (flight : (s.gateway.step e).flight = s.gateway.flight)
    (bus : (s.gateway.step e).bus = s.gateway.bus) :
    Turn done s { s with gateway := s.gateway.step e } :=
  turn_gateway sound (Flow.refl.plain plain) flight
    (fun topic empty => by rw [bus]; exact empty) s.observed

/-- **Every operation goes from quiet moment to quiet moment.** -/
theorem turns_moments (sound : Sound s) (op : Op) : Turns (· = op) s (s.moments op) := by
  have lone : ∀ {m : Simulation}, Turn (· = op) s m → Turns (· = op) s [m] := fun turn =>
    ⟨turn, trivial⟩
  cases op with
  | submit r =>
      have turn : Turn (· = .submit r) s _ :=
        turn_settle (enters_opened sound (Flow.refl.submit r s.calendar) (s.callOf r))
      refine ⟨turn, ?_, trivial⟩
      rw [step, submit_eq]
      exact turn_poll turn.sound s.called
  | http r =>
      have turn : Turn (· = .http r) s _ :=
        turn_settle (enters_opened sound (Api.flow_handle s.gateway r s.now s.calendar)
          (s.callOfHttp r))
      refine ⟨turn, ?_, trivial⟩
      rw [step, http_eq]
      exact turn_poll turn.sound s.called
  | complete c =>
      have took : Taken (· = .complete c) s c := .inl rfl
      exact lone (turn_flow sound (Flow.refl.complete sound.quiet.idle.timers took s.calendar))
  | heartbeat h => exact lone (turn_flow sound (Flow.refl.plain (e := .heartbeat h s.now) rfl))
  | remove id =>
      refine lone (turn_plain sound (e := .remove id) rfl ?_ ?_) <;>
        (simp only [Gateway.step, Gateway.removeInvoker]; split <;> rfl)
  | sweep => exact lone (turn_plain sound (e := .sweep s.now) rfl rfl rfl)
  | list => exact lone (turn_plain sound (e := .list) rfl rfl rfl)
  | put a =>
      refine lone ?_
      have turn : Turn (· = .put a) s _ := turn_plain sound (e := .store a) rfl rfl rfl
      show Turn _ s ((s.put a).toOption.getD s)
      simp only [Gateway.step] at turn
      unfold put
      cases stored : s.gateway.store.put a with
      | error fault => exact turn_same sound
      | ok store =>
          rw [stored] at turn
          exact turn
  | publish topic text => exact lone (turn_publish sound topic text)
  | receive topic => exact lone (turn_receive sound topic)
  | close topic => exact lone (turn_close sound topic)
  | startConsumer topic => exact lone (turn_startConsumer sound rfl)
  | startInvoker id capacity every =>
      let done := (· = Op.startInvoker id capacity every)
      obtain ⟨ready, other, own⟩ := turn_prepared done sound id capacity every
      obtain ⟨free, sameTime⟩ := turn_stop done ready.sound id.topic
      have started : Enters done _ _ := enters_task free.sound
        ((s.prepared id capacity every).1.stop id.topic).1.gateway.bus
        (fun i running => by
          obtain ⟨topic, often, next⟩ := own i running
          exact ⟨topic, often, Nat.le_of_eq (congrArg Instant.nanos (sameTime.trans next))⟩)
        fun consumer => absurd consumer other
      exact ⟨ready, free, turn_settle started, trivial⟩
  | stop topic => exact lone (turn_stop _ sound topic).1
  | poll number => exact lone (turn_poll sound number)
  | cancel number => exact lone (turn_erase sound fun stays => absurd rfl stays)
  | advance span => exact turns_advance sound span

theorem sound_step (sound : Sound s) (op : Op) : Sound (s.step op) := by
  rw [← moments_last]
  exact (turns_moments sound op).sound sound

theorem sound_run (sound : Sound s) (ops : List Op) : Sound (s.run ops) := by
  induction ops generalizing s with
  | nil => exact sound
  | cons op rest ih => exact ih (sound_step sound op)

end Simulation

end Dispatch
