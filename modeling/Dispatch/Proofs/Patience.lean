import Dispatch.Proofs.Moments

/-!
# The patience of callers decides nothing else

Two runs are `Alike` if they differ only in how long callers wait. `run_alike` says that they then
differ in what callers get, and in nothing else. An operation does to a simulation, apart from the
calls, what it does to the simulation without calls (`step_mute`); among operations only an advance
of the clock looks at the calls at all, because it also stops where somebody loses patience, and
there nothing else is due (`runTo_mute`).
-/

set_option autoImplicit false

namespace Dispatch

/-! ## Requests that differ in patience -/

/-- Requests over HTTP that differ at most in how long their callers wait. -/
structure Http.Request.Alike (r other : Http.Request) : Prop where
  method : other.method = r.method
  path : (Http.Target.ofText other.target).path = (Http.Target.ofText r.target).path
  /-- Their queries have the same fault, or say the same about waiting as such. -/
  blocking : (Http.InvokeOptions.ofQuery (Http.Target.ofText other.target).query).map (·.blocking) =
    (Http.InvokeOptions.ofQuery (Http.Target.ofText r.target).query).map (·.blocking)
  body : other.body = r.body

namespace Api

variable {g : Gateway} {now : Instant} {calendar : UInt64}

/-- A request whose caller waits as long as may be. -/
def patiently (r : Request) : Request := { r with patience := none }

theorem readInvocation_alike {space name query other body : Bytes}
    (blocking : (Http.InvokeOptions.ofQuery other).map (·.blocking) =
      (Http.InvokeOptions.ofQuery query).map (·.blocking)) :
    (readInvocation space name other body).map patiently =
      (readInvocation space name query body).map patiently := by
  have invoked : ∀ (space name : String) (o p : Http.InvokeOptions), o.blocking = p.blocking →
      (invocation space name o body).map patiently =
        (invocation space name p body).map patiently := by
    intro space name o p same
    simp only [invocation, same]
    split
    · rfl
    · cases Json.valueOfText? body <;> rfl
  simp only [readInvocation, bind, Except.bind]
  split
  · rfl
  · generalize Http.InvokeOptions.ofQuery other = p, Http.InvokeOptions.ofQuery query = o
      at blocking
    cases p with
    | error fault =>
        cases o with
        | error faultToo =>
            obtain rfl := Except.error.inj blocking
            rfl
        | ok o => cases blocking
    | ok p =>
        cases o with
        | error fault => cases blocking
        | ok o => exact invoked _ _ p o (Except.ok.inj blocking)

theorem invoke_alike {space name query other body : Bytes}
    (blocking : (Http.InvokeOptions.ofQuery other).map (·.blocking) =
      (Http.InvokeOptions.ofQuery query).map (·.blocking)) :
    (invoke g space name other body now calendar).1 =
      (invoke g space name query body now calendar).1 := by
  have invoked : ∀ query : Bytes, (invoke g space name query body now calendar).1 =
      ((readInvocation space name query body).map patiently).toOption.elim g
        fun r => (g.submit r now calendar).1 := by
    intro query
    unfold invoke
    cases readInvocation space name query body with
    | error response => rfl
    | ok r =>
        show _ = (g.submit r now calendar).1
        dsimp only
        split <;> (rename_i outcome; rw [outcome])
  rw [invoked, invoked, readInvocation_alike blocking]

/-- **Requests that differ in patience do the same to a gateway.** -/
theorem handle_alike {r other : Http.Request} (alike : r.Alike other) :
    (handle g other now calendar).1 = (handle g r now calendar).1 := by
  have handled : ∀ r : Http.Request, (handle g r now calendar).1 =
      (Http.Endpoint.ofPath? (Http.Target.ofText r.target).path).elim g fun e =>
        if e.accepts r.method then
          (serve g e (Http.Target.ofText r.target).query r.body now calendar).1
        else g := by
    intro r
    cases found : Http.Endpoint.ofPath? (Http.Target.ofText r.target).path with
    | none => simp only [handle, found, Option.elim_none]
    | some e =>
        simp only [handle, found, Option.elim_some]
        split
        · rcases serve g e (Http.Target.ofText r.target).query r.body now calendar with
            ⟨after, reply⟩
          cases reply <;> rfl
        · rfl
  rw [handled, handled, alike.path, alike.method, alike.body]
  cases Http.Endpoint.ofPath? (Http.Target.ofText r.target).path with
  | none => rfl
  | some e =>
      simp only [Option.elim_some]
      split
      · cases e with
        | action space name => exact invoke_alike alike.blocking
        | invokers | invoker | activations | metrics => rfl
      · rfl

end Api

namespace Simulation

variable {s : Simulation}

/-- The same operation, but for how long a caller waits. -/
inductive Op.Alike : Op → Op → Prop where
  | same (op : Op) : Op.Alike op op
  | submit (r : Request) (patience : Option Duration) :
      Op.Alike (.submit r) (.submit { r with patience })
  | http {r other : Http.Request} (alike : r.Alike other) : Op.Alike (.http r) (.http other)

/-! ## Operations apart from the calls -/

theorem settle_congr {x y : Simulation} (same : x.mute = y.mute) :
    x.settle.mute = y.settle.mute := by
  rw [settle_mute, settle_mute, same]

theorem opened_mute (s : Simulation) (gateway : Gateway) (c : Call) :
    (s.opened gateway c).mute = { s.mute with gateway, called := s.called + 1 } := rfl

theorem poll_mute (s : Simulation) (number : Nat) : (s.poll number).1.mute = s.mute := by
  rcases poll_eq s number with same | ⟨-, erased⟩
  · rw [same]
  · rw [erased]
    rfl

theorem observe_mute (s : Simulation) (topic : String) :
    s.mute.observe topic = (s.observe topic).map mute := by
  show (if s.observed.contains topic then _ else _) = Except.map mute (if _ then _ else _)
  split
  · rfl
  · show Except.map _ (s.gateway.bus.subscribe topic) = Except.map mute (Except.map _ _)
    cases s.gateway.bus.subscribe topic <;> rfl

theorem endTask_mute (topic : String) (t : Task) (s : Simulation) :
    s.mute.endTask topic t = (s.endTask topic t).mute := by
  cases t with
  | invoker i =>
      simp only [endTask, publishHeartbeat, tryPublish_eq]
      rfl
  | consumer | idle => rfl

theorem stop_mute (s : Simulation) (topic : String) :
    (s.mute.stop topic).1.mute = (s.stop topic).1.mute := by
  cases there : Table.get? topic s.tasks with
  | none =>
      have absent : Table.get? topic s.mute.tasks = none := there
      simp only [stop, there, absent]
      rfl
  | some t =>
      have same : Table.get? topic s.mute.tasks = some t := there
      simp only [stop, there, same]
      have ended := endTask_mute topic t { s with tasks := Table.erase topic s.tasks }
      have settled := congrArg (fun x : Simulation => x.mute.proceed) ended
      rw [settle_mute, settle_mute]
      exact settled

theorem prepared_mute (s : Simulation) (id : InvokerId) (capacity : Capacity) (every : Duration) :
    s.mute.prepared id capacity every =
      ((s.prepared id capacity every).1.mute, (s.prepared id capacity every).2) := by
  have bus : s.mute.gateway.bus = s.gateway.bus := rfl
  simp only [prepared, bus]
  cases s.gateway.bus.subscribe id.topic with
  | error fault => rfl
  | ok bus =>
      dsimp only
      split <;> rfl

theorem sound_mute (sound : Sound s) : Sound s.mute where
  quiet :=
    { idle := ⟨sound.quiet.idle.timers, sound.quiet.idle.beats, sound.quiet.idle.taken,
        sound.quiet.idle.asleep⟩
      patient := nofun
      unanswered := nofun }
  regular := ⟨sound.regular.sorted, sound.regular.distinct, sound.regular.own⟩

/-! ## Time apart from the calls -/

/-- Where there are no calls, only what does not depend on them happens. -/
theorem settle_silent {m : Simulation} (silent : m.mute = m) :
    m.settle = m.proceed ∧ m.settle.mute = m.settle := by
  have still : ∀ (f : Call → Call) (x : Simulation), x.mute = x → x.modifyCalls f = x := by
    rintro f x same
    rw [← same]
    rfl
  have after : m.proceed.mute = m.proceed := by rw [← proceed_mute, silent]
  have settled : m.settle = m.proceed := by
    rw [settle_eq, still _ m silent]
    exact still _ _ after
  exact ⟨settled, by rw [settled, after]⟩

/-- `s` differs from `m`, which has no calls, in its own calls and in the time. -/
structure Covers (s m : Simulation) : Prop where
  silent : m.mute = m
  same : ∀ now : Instant, mute { s with now } = { m with now }

namespace Covers

variable {m : Simulation}

/-- Whatever is due where there are no calls is due where there are. -/
theorem due (covers : Covers s m) {d : Instant} (due : Due m d) : Due s d := by
  have same := covers.same s.now
  have gateway := congrArg (fun x : Simulation => x.gateway) same
  have tasks := congrArg (fun x : Simulation => x.tasks) same
  have sleepers := congrArg (fun x : Simulation => x.sleepers) same
  have silent := congrArg (fun x : Simulation => x.calls) covers.silent
  dsimp only [mute] at gateway tasks sleepers silent
  cases due with
  | timer there => exact .timer (gateway ▸ there)
  | lapse there lapse =>
      rw [← silent] at there
      cases there
  | beat there => exact .beat (tasks ▸ there)
  | sleeper there => exact .sleeper (sleepers ▸ there)

/-- Both come to a time at which something is due for both. -/
theorem arrive (covers : Covers s m) (t : Instant) : (s.arrive t).mute = m.arrive t ∧
    (m.arrive t).mute = m.arrive t := by
  have silent : mute { m with now := t } = { m with now := t } :=
    congrArg (fun x : Simulation => { x with now := t }) covers.silent
  obtain ⟨settled, silentAfter⟩ := settle_silent silent
  refine ⟨?_, silentAfter⟩
  rw [Simulation.arrive, Simulation.arrive, settle_mute, covers.same, settled]

/-- One comes to a time at which nothing is due for the other. -/
theorem arrive_alone (covers : Covers s m) (sound : Sound m) {t : Instant}
    (ahead : ∀ d, Due m d → t < d) : (s.arrive t).mute = { m with now := t } := by
  rw [Simulation.arrive, settle_mute, covers.same]
  exact proceed_of_idle ⟨fun _ there => ahead _ (.timer there),
    fun _ _ there => ahead _ (.beat there), sound.quiet.idle.taken,
    fun _ there => ahead _ (.sleeper there)⟩

/-- If the one without calls has another next due time, nothing is due for it at the other's. -/
theorem apart (covers : Covers s m) (sound : Sound s) (soundToo : Sound m) {t : Instant}
    (next : s.nextDue? = some t) (other : m.nextDue? ≠ some t) : ∀ d, Due m d → t < d := by
  intro d dueToo
  obtain ⟨-, -, first⟩ := sound.next next
  refine Nat.lt_of_le_of_ne (first d (covers.due dueToo)) fun same => other ?_
  cases nextToo : m.nextDue? with
  | none => exact absurd dueToo (soundToo.not_due nextToo d)
  | some u =>
      obtain ⟨-, due, firstToo⟩ := soundToo.next nextToo
      have before : u.nanos ≤ t.nanos := same ▸ firstToo d dueToo
      exact congrArg some (congrArg Instant.mk
        (Nat.le_antisymm before (first u (covers.due due))))

end Covers

/-- Where nothing is due up to the target, there is no stop on the way. -/
theorem runTo_of_later (sound : Sound s) {target : Instant} (later : ∀ d, Due s d → target < d)
    (fuel : Nat) : runTo target fuel s = s := by
  cases fuel with
  | zero => rfl
  | succ fuel =>
      cases due : s.nextDue? with
      | none => simp only [runTo, due]
      | some t =>
          have ahead := later t (sound.next due).2.1
          simp only [runTo, due]
          exact if_neg (Nat.not_le.mpr ahead)

/-- **The clock goes, apart from the calls, the way it goes without calls.** -/
theorem runTo_mute (sound : Sound s) {m : Simulation} (soundToo : Sound m) (covers : Covers s m)
    (behind : m.now ≤ s.now) {target : Instant} (le : s.now ≤ target) {fuel more : Nat}
    (enough : target.nanos < s.now.nanos + fuel) (enoughToo : target.nanos < m.now.nanos + more) :
    mute { runTo target fuel s with now := target } =
      { runTo target more m with now := target } := by
  induction fuel generalizing s m more with
  | zero => exact absurd (Nat.lt_of_le_of_lt le enough) (Nat.lt_irrefl _)
  | succ fuel ih =>
      have stop : (∀ d, Due s d → target < d) →
          mute { runTo target (fuel + 1) s with now := target } =
            { runTo target more m with now := target } := by
        intro later
        rw [runTo_of_later sound later,
          runTo_of_later soundToo (fun d due => later d (covers.due due)), covers.same]
      cases due : s.nextDue? with
      | none => exact stop fun d dueToo => absurd dueToo (sound.not_due due d)
      | some t =>
          by_cases near : t ≤ target
          · obtain ⟨turn, clock, ahead⟩ := turn_arrive (fun _ => False) sound due
            have further : s.now.nanos < t.nanos := ahead
            have enoughAfter : target.nanos < (s.arrive t).now.nanos + fuel := by
              rw [clock]
              omega
            have leAfter : (s.arrive t).now ≤ target := by
              rw [clock]
              exact near
            rw [runTo_succ sound due, if_pos near]
            by_cases both : m.nextDue? = some t
            · -- Something else than a caller's patience ends: both stop.
              obtain ⟨turnToo, clockToo, aheadToo⟩ :=
                turn_arrive (fun _ => False) soundToo both
              have furtherToo : m.now.nanos < t.nanos := aheadToo
              cases more with
              | zero =>
                  have passed : target.nanos < t.nanos := Nat.lt_trans enoughToo furtherToo
                  exact absurd near (Nat.not_le.mpr passed)
              | succ more =>
                  obtain ⟨same, silent⟩ := covers.arrive t
                  rw [runTo_succ soundToo both, if_pos near]
                  refine ih turn.sound turnToo.sound ⟨silent, fun now => ?_⟩ ?_ leAfter
                    enoughAfter ?_
                  · exact congrArg (fun x : Simulation => { x with now }) same
                  · rw [clock, clockToo]
                    exact Nat.le_refl _
                  · rw [clockToo]
                    omega
            · -- Only callers lose patience: the other goes on.
              have alone := covers.arrive_alone soundToo (covers.apart sound soundToo due both)
              refine ih turn.sound soundToo ⟨covers.silent, fun now => ?_⟩ ?_ leAfter enoughAfter
                enoughToo
              · exact congrArg (fun x : Simulation => { x with now }) alone
              · rw [clock]
                exact Nat.le_trans behind (Nat.le_of_lt ahead)
          · exact stop fun d dueToo =>
              Nat.lt_of_lt_of_le (Nat.not_le.mp near) ((sound.next due).2.2 d dueToo)

theorem advance_mute (sound : Sound s) (span : Duration) :
    (s.advance span).mute = (s.mute.advance span).mute := by
  let target : Instant := ⟨s.now.nanos + span.nanos⟩
  have muted := sound_mute sound
  have reached : ∀ x : Simulation, Sound x → Covers x s.mute → x.now = s.now →
      mute { runTo target (span.nanos + 1) x with now := target } =
        { runTo target (span.nanos + 1) s.mute with now := target } := by
    intro x soundToo covers clock
    refine runTo_mute soundToo muted covers (Nat.le_of_eq (congrArg Instant.nanos clock.symm)) ?_ ?_
      (Nat.lt_succ_self _)
    · rw [clock]
      exact Nat.le_add_right _ _
    · rw [clock]
      exact Nat.lt_succ_self _
  exact settle_congr ((reached s sound ⟨rfl, fun _ => rfl⟩ rfl).trans
    (reached s.mute muted ⟨rfl, fun _ => rfl⟩ rfl).symm)

/-! ## Runs -/

/-- An operation that changes nothing when it fails has to be compared only where it succeeds. -/
theorem getD_mute {ε α : Type} (outcome : Except ε α) {f g : α → Simulation}
    (same : ∀ a, (f a).mute = (g a).mute) :
    ((outcome.map f).toOption.getD s).mute = ((outcome.map g).toOption.getD s.mute).mute := by
  cases outcome with
  | error fault => rfl
  | ok a => exact same a

/-- **An operation does, apart from the calls, what it does where there are none.** -/
theorem step_mute (sound : Sound s) (op : Op) : (s.step op).mute = (s.mute.step op).mute := by
  cases op with
  | submit r =>
      simp only [step, submit_eq, poll_mute, settle_mute, opened_mute]
      rfl
  | http r =>
      simp only [step, http_eq, poll_mute, settle_mute, opened_mute]
      rfl
  | complete c =>
      exact settle_congr (x := { s with gateway := (s.gateway.processCompletion c s.calendar).1 })
        rfl
  | heartbeat h => exact settle_congr (x := s.modifyGateway (·.processHeartbeat h s.now)) rfl
  | remove | sweep | list => rfl
  | put a => exact getD_mute (s.gateway.store.put a) fun store => rfl
  | publish topic text =>
      exact getD_mute (s.gateway.bus.publish topic text) fun bus => settle_congr rfl
  | receive topic =>
      simp only [step, receive, observe_mute, bind, Except.bind]
      cases s.observe topic with
      | error fault => rfl
      | ok x =>
          have bus : x.mute.gateway.bus = x.gateway.bus := rfl
          simp only [Except.map, bus]
          cases x.gateway.bus.receive? topic with
          | none => rfl
          | some received =>
              exact settle_congr (x := x.modifyGateway ({ · with bus := received.2 })) rfl
  | close topic =>
      simp only [step, close, observe_mute, bind, Except.bind]
      cases s.observe topic <;> rfl
  | startConsumer topic =>
      exact getD_mute (s.gateway.bus.subscribe topic) fun bus => settle_congr rfl
  | startInvoker id capacity every =>
      have free := stop_mute (s.prepared id capacity every).1 id.topic
      have started := congrArg (fun x : Simulation => { x with
        tasks := Table.set id.topic (s.prepared id capacity every).2 x.tasks }) free
      rw [step, step, startInvoker_eq, startInvoker_eq, prepared_mute]
      exact settle_congr started.symm
  | stop topic => exact (stop_mute s topic).symm
  | poll number => exact (poll_mute s number).trans (poll_mute s.mute number).symm
  | cancel number => rfl
  | advance span => exact advance_mute sound span

/-- **Operations that differ in patience do the same, apart from the calls.** -/
theorem step_alike {t : Simulation} (sound : Sound s) (soundToo : Sound t) (same : s.mute = t.mute)
    {op other : Op} (alike : op.Alike other) : (s.step op).mute = (t.step other).mute := by
  have silent : ∀ m : Simulation, (m.step op).mute = (m.step other).mute := by
    intro m
    cases alike with
    | same op => rfl
    | submit r patience =>
        have same : (m.gateway.submit { r with patience } m.now m.calendar).1 =
            (m.gateway.submit r m.now m.calendar).1 := rfl
        simp only [step, submit_eq, poll_mute, settle_mute, opened_mute, same]
    | http alike =>
        simp only [step, http_eq, poll_mute, settle_mute, opened_mute, Api.handle_alike alike]
  calc (s.step op).mute = (s.mute.step op).mute := step_mute sound op
    _ = (t.mute.step op).mute := by rw [same]
    _ = (t.mute.step other).mute := silent _
    _ = (t.step other).mute := (step_mute soundToo other).symm

/-- **The patience of callers decides nothing but what they get.** -/
theorem run_alike {t : Simulation} (sound : Sound s) (soundToo : Sound t) (same : s.mute = t.mute)
    {ops others : List Op} (alike : List.Forall₂ Op.Alike ops others) :
    (s.run ops).mute = (t.run others).mute := by
  induction alike generalizing s t with
  | nil => exact same
  | cons first _ ih =>
      exact ih (sound_step sound _) (sound_step soundToo _) (step_alike sound soundToo same first)

end Simulation

end Dispatch
