import Dispatch.Proofs.Patience
import Dispatch.Proofs.Waiting

/-!
# What the patience of a caller decides

`patience_decides_answers_only` puts together what `Patience` says about two runs and what `Waiting`
says about one: how long a caller waits decides what that caller gets, and nothing else. A request
that is waited for `Opens` a call; `Opens.race` and `Opens.complete` say what comes of it in the
rest of the run. The patience of a caller ends when its bound has passed (`Opens.lapse`), however
long that is: it is no sleep, and no `SleepTimer` decides about it.
-/

set_option autoImplicit false

namespace Dispatch

open Gateway (Flow)

namespace Api

/-- A submission over HTTP is one of the gateway. -/
theorem submit_of_submitted {g : Gateway} {r : Http.Request} {now : Instant} {calendar : UInt64}
    {p : Published} {patience : Option Duration}
    (told : (handle g r now calendar).2 = .submitted p patience) :
    ∃ request : Request, (g.submit request now calendar).2 = .ok p ∧
      (handle g r now calendar).1 = (g.submit request now calendar).1 := by
  have invoked : ∀ space name query body, (invoke g space name query body now calendar).2 =
      .submitted p patience → ∃ request : Request, (g.submit request now calendar).2 = .ok p ∧
        (invoke g space name query body now calendar).1 = (g.submit request now calendar).1 := by
    intro space name query body told
    unfold invoke at told ⊢
    cases read : readInvocation space name query body with
    | error response =>
        rw [read] at told
        cases told
    | ok request =>
        simp only [read] at told ⊢
        refine ⟨request, ?_⟩
        generalize g.submit request now calendar = outcome at told ⊢
        obtain ⟨after, result⟩ := outcome
        cases result with
        | error fault => cases told
        | ok published =>
            obtain ⟨rfl, -⟩ := Reply.submitted.inj told
            exact ⟨rfl, rfl⟩
  have served : ∀ e query body, (serve g e query body now calendar).2 = .submitted p patience →
      ∃ request : Request, (g.submit request now calendar).2 = .ok p ∧
        (serve g e query body now calendar).1 = (g.submit request now calendar).1 := by
    intro e query body told
    cases e with
    | action space name => exact invoked space name query body told
    | invoker id =>
        simp only [serve] at told
        repeat' split at told
        all_goals cases told
    | invokers | activations | metrics => cases told
  unfold handle at told ⊢
  dsimp only at told ⊢
  split at told
  · cases told
  · rename_i e found
    split at told
    · rename_i accepted
      rw [if_pos accepted]
      have outcome := served e (Http.Target.ofText r.target).query r.body
      generalize serve g e (Http.Target.ofText r.target).query r.body now calendar = after
        at told outcome ⊢
      obtain ⟨after, reply⟩ := after
      cases reply with
      | done response => cases told
      | submitted => exact outcome told
    · cases told

end Api

namespace Simulation

variable {s m : Simulation} {ms rest : List Simulation} {done : Op → Prop} {n k : Nat}
  {a : Activation} {w : Waiting} {g : Gateway}

/-! ## Runs -/

/-- The moments of a run, operation by operation. -/
def trace (s : Simulation) : List Op → List Simulation
  | [] => []
  | op :: rest => s.moments op ++ (s.step op).trace rest

theorem Turn.mono {more : Op → Prop} (turn : Turn done s m) (le : ∀ op, done op → more op) :
    Turn more s m :=
  { turn with
    flow := turn.flow.mono fun _ took => took.imp (le _) (Or.imp_left (le _))
    consuming := fun consumed => (turn.consuming consumed).imp_left (le _)
    calls := fun k early kept => turn.calls k early fun drops => kept (le _ drops) }

theorem Turns.mono {more : Op → Prop} (turns : Turns done s ms)
    (le : ∀ op, done op → more op) : Turns more s ms := by
  induction ms generalizing s with
  | nil => trivial
  | cons m rest ih => exact ⟨turns.1.mono le, ih turns.2⟩

theorem trace_append (s : Simulation) (first second : List Op) :
    s.trace (first ++ second) = s.trace first ++ (s.run first).trace second := by
  induction first generalizing s with
  | nil => rfl
  | cons op rest ih =>
      rw [List.cons_append, trace, trace, ih, List.append_assoc]
      rfl

theorem getLastD_append (first second : List Simulation) (s : Simulation) :
    (first ++ second).getLastD s = second.getLastD (first.getLastD s) := by
  induction first generalizing s with
  | nil => rfl
  | cons m rest ih => rw [List.cons_append, List.getLastD_cons, ih, List.getLastD_cons]

/-- The last moment of a run is when it is over. -/
theorem trace_last (s : Simulation) (ops : List Op) : (s.trace ops).getLastD s = s.run ops := by
  induction ops generalizing s with
  | nil => rfl
  | cons op rest ih =>
      rw [trace, getLastD_append, moments_last, ih]
      rfl

/-- **A run goes from quiet moment to quiet moment.** -/
theorem turns_trace (sound : Sound s) (ops : List Op) : Turns (· ∈ ops) s (s.trace ops) := by
  induction ops generalizing s with
  | nil => trivial
  | cons op rest ih =>
      refine Turns.append ((turns_moments sound op).mono ?_) ?_
      · rintro _ rfl
        exact List.mem_cons_self
      · rw [moments_last]
        exact (ih (sound_step sound op)).mono fun _ => List.mem_cons_of_mem _

theorem Turns.tended (turns : Turns done s ms) (tended : s.gateway.Tended) :
    (ms.getLastD s).gateway.Tended := by
  induction ms generalizing s with
  | nil => exact tended
  | cons m rest ih =>
      rw [List.getLastD_cons]
      exact ih turns.2 (turns.1.flow.course tended).1

theorem tended_run (sound : Sound s) (tended : s.gateway.Tended) (ops : List Op) :
    (s.run ops).gateway.Tended := by
  rw [← trace_last]
  exact (turns_trace sound ops).tended tended

/-! ## A request that is waited for -/

/-- An operation publishes an activation whose caller waits, up to a bound. -/
inductive Opens (s : Simulation) : Op → Option Duration → Waiting → Prop where
  | submit {r : Request} {id : ActivationId} {n : Nat}
      (told : (s.gateway.submit r s.now s.calendar).2 = .ok ⟨id, some n⟩) :
      Opens s (.submit r) r.patience ⟨id, n, r.patience.map (s.now + ·), false⟩
  | http {r : Http.Request} {id : ActivationId} {n : Nat} {patience : Option Duration}
      (told : (Api.handle s.gateway r s.now s.calendar).2 = .submitted ⟨id, some n⟩ patience) :
      Opens s (.http r) patience ⟨id, n, patience.map (s.now + ·), true⟩

variable {op : Op} {bound : Option Duration}

/-- What the operation does: it submits a request, and opens a call. -/
theorem Opens.moments (opens : Opens s op bound w) :
    ∃ r : Request, (s.gateway.submit r s.now s.calendar).2 = .ok ⟨w.id, some w.number⟩ ∧
      s.moments op = [(s.opened (s.gateway.submit r s.now s.calendar).1 (.waiting w)).settle,
        s.step op] := by
  cases opens with
  | @submit r id n told =>
      refine ⟨r, told, ?_⟩
      have call : s.callOf r = .waiting ⟨id, n, r.patience.map (s.now + ·), false⟩ := by
        simp only [callOf, told, callFor]
      rw [Simulation.moments, call]
  | @http r id n _ told =>
      obtain ⟨request, submitted, same⟩ := Api.submit_of_submitted told
      refine ⟨request, submitted, ?_⟩
      have call : s.callOfHttp r = .waiting ⟨id, n, bound.map (s.now + ·), true⟩ := by
        simp only [callOfHttp, told, callFor]
      rw [Simulation.moments, call, same]

theorem Opens.lapse (opens : Opens s op bound w) : w.lapse = bound.map (s.now + ·) := by
  cases opens <;> rfl

/-- It brings no completion, starts no consumer and drops no call. -/
theorem Opens.apart (opens : Opens s op bound w) : (∀ c, .complete c ≠ op) ∧
    (∀ topic, .startConsumer topic ≠ op) ∧ ∀ k, .cancel k ≠ op := by
  cases opens <;> exact ⟨nofun, nofun, nofun⟩

/-- So what may be taken in then comes by the operations after it. -/
theorem Opens.taken (opens : Opens s op bound w) {later : List Op}
    (consuming : m.Consuming → s.Consuming) {c : Completion}
    (took : Taken (· ∈ op :: later) m c) : Taken (· ∈ later) s c := by
  obtain ⟨noCompletion, noConsumer, -⟩ := opens.apart
  rcases took with own | started | consumed
  · exact .inl (List.mem_of_ne_of_mem (noCompletion c) own)
  · exact .inr (.inl (List.mem_of_ne_of_mem (noConsumer _) started))
  · exact .inr (.inr (consuming consumed))

/-- The activation of a request that is waited for. -/
structure Launches (s : Simulation) (w : Waiting) (a : Activation) (action : Action) : Prop where
  id : a.id = w.id
  lookUp : s.gateway.lookUp a.action = .ok action
  deadline : a.deadline.nanos =
    s.now.nanos + action.limits.timeout.nanos + s.gateway.flight.grace.nanos

/-- **A request that is waited for puts its activation in flight.** -/
theorem watch_of_submitted (tended : s.gateway.Tended) {r : Request}
    (told : (s.gateway.submit r s.now s.calendar).2 = .ok ⟨w.id, some w.number⟩) :
    ∃ a action, Launches s w a action ∧
      Watch w.number a (s.gateway.submit r s.now s.calendar).1 := by
  obtain ⟨action, a, launched, joined, -⟩ :=
    Gateway.launched_of_published tended.orderly tended.supply told
  obtain ⟨own, awaits⟩ := Published.mk.inj launched.published
  have blocking : a.blocking = true ∧ w.number = s.gateway.flight.registered := by
    split at awaits
    · rename_i blocking
      exact ⟨blocking, Option.some.inj awaits⟩
    · cases awaits
  have lookUp : s.gateway.lookUp a.action = .ok action := by
    rw [launched.action, launched.lookUp]
  have submitted : Flow (fun _ => False) s.now s.gateway
      (s.gateway.submit r s.now s.calendar).1 := Flow.refl.submit r s.calendar
  refine ⟨a, action, ⟨own.symm, lookUp, launched.deadline⟩,
    ⟨(submitted.course tended).1, ?_, blocking.1⟩⟩
  rw [joined.pending, Table.get?_set, if_pos rfl, blocking.2]

/-- The moment at which the caller begins to wait. -/
theorem opened_outcome (sound : Sound s) (flow : Flow (fun _ => False) s.now s.gateway g)
    (c : Call) :
    (s.opened g c).settle.Sound ∧ (s.opened g c).settle.now = s.now ∧
      ((s.opened g c).settle.Consuming → s.Consuming) ∧
      Flow (fun _ => s.Consuming) s.now g (s.opened g c).settle.gateway ∧
      s.called < (s.opened g c).settle.called ∧
      Table.get? s.called (s.opened g c).settle.calls =
        some (later s.now (s.opened g c).settle.gateway.flight.answers c) := by
  have enters : Enters (fun _ => False) s (s.opened g c) :=
    enters_opened sound (flow.mono fun _ => False.elim) c
  obtain ⟨gateway, tasks, sleepers, settled, soundAfter, consuming, after⟩ :=
    settle_outcome enters.regular enters.ready
  refine ⟨soundAfter, ?_, consuming, ?_, ?_, ?_⟩ <;> rw [settled]
  · rfl
  · exact after
  · exact Nat.lt_succ_self _
  · have there : Table.get? s.called (s.opened g c).calls = some c :=
      (Table.get?_set _ _ _ _).trans (if_pos rfl)
    exact (Table.get?_map _ _ _).trans (congrArg (Option.map _) there)

/-- `m` is the first moment of a caller who waits for an activation, which `g` has just
submitted. -/
structure Begins (s : Simulation) (w : Waiting) (a : Activation) (g : Gateway) (m : Simulation) :
    Prop where
  watch : Watch w.number a g
  sound : Sound m
  consuming : m.Consuming → s.Consuming
  flow : Flow (fun _ => s.Consuming) m.now g m.gateway
  within : m.now ≤ a.deadline
  patient : ∀ l, w.lapse = some l → m.now ≤ l
  own : s.called < m.called
  call : Table.get? s.called m.calls =
    some (later m.now m.gateway.flight.answers (.waiting w))

theorem Opens.begins (opens : Opens s op bound w) (sound : Sound s) (tended : s.gateway.Tended)
    (later : List Op) :
    ∃ a action g m rest, Launches s w a action ∧ Begins s w a g m ∧
      s.trace (op :: later) = m :: rest ∧
        Turns (· ∈ op :: later) m rest := by
  obtain ⟨r, told, moments⟩ := opens.moments
  obtain ⟨a, action, launches, watch⟩ := watch_of_submitted tended told
  have flow : Flow (fun _ => False) s.now s.gateway (s.gateway.submit r s.now s.calendar).1 :=
    Flow.refl.submit r s.calendar
  obtain ⟨soundFirst, clock, consuming, flowFirst, own, call⟩ :=
    opened_outcome sound flow (.waiting w)
  have turns := turns_trace sound (op :: later)
  rw [trace, moments] at turns
  refine ⟨a, action, _, _, _, launches, ⟨watch, soundFirst, consuming, ?_, ?_, ?_, own, ?_⟩, ?_,
    turns.2⟩
  · rw [clock]
    exact flowFirst
  · have deadline := launches.deadline
    show (Simulation.now _).nanos ≤ a.deadline.nanos
    rw [clock]
    omega
  · intro l lapse
    rw [opens.lapse] at lapse
    obtain ⟨d, -, rfl⟩ := Option.map_eq_some_iff.mp lapse
    rw [clock]
    exact Nat.le_add_right _ _
  · rw [clock]
    exact call
  · rw [trace, moments]
    rfl

/-- **Whoever waits for an activation runs a race with its deadline and its completion.** -/
theorem Opens.race (opens : Opens s op bound w) (sound : Sound s) (tended : s.gateway.Tended)
    (later : List Op) :
    ∃ a action, Launches s w a action ∧
      Tracked (Taken (· ∈ later) s) w.number a (s.trace (op :: later)) ∧
        (.cancel s.called ∉ later → Race s.called w a (s.trace (op :: later))) := by
  obtain ⟨a, action, g, m, rest, launches, begins, moments, turns⟩ :=
    opens.begins sound tended later
  rw [moments]
  refine ⟨a, action, launches, ?_, fun stays => ?_⟩
  · have flow : Flow (Taken (· ∈ later) s) m.now g m.gateway :=
      begins.flow.mono fun _ consumed => .inr (.inr consumed)
    exact begins.watch.tracked_cons begins.sound flow begins.within turns fun watch =>
      tracked_of_turns watch turns fun _ => opens.taken begins.consuming
  · refine begins.watch.race_cons begins.sound begins.flow begins.within begins.patient begins.call
      turns fun watch waiting => race_of_turns watch waiting begins.own ?_ turns
    exact fun drops => stays (List.mem_of_ne_of_mem (opens.apart.2.2 _) drops)

/-- **The first completion that comes in time resolves an activation.** -/
theorem Opens.complete (opens : Opens s op bound w) (sound : Sound s) (tended : s.gateway.Tended)
    {before after : List Op} {c : Completion} (own : c.id = w.id)
    (unresolved : resolution? w.number (s.trace (op :: before)) = none) :
    let m := s.run (op :: before ++ [.complete c])
    resolution? w.number (s.trace (op :: before ++ .complete c :: after)) = some m ∧
      Table.get? w.number m.gateway.flight.answers = some (.result (.ofCompletion c)) := by
  obtain ⟨a, action, g, first, rest, launches, begins, moments, turns⟩ :=
    opens.begins sound tended before
  have last := trace_last s (op :: before)
  have unanswered := List.find?_eq_none.mp unresolved
  rw [moments] at last unanswered
  rw [List.getLastD_cons] at last
  have opened : Watch w.number a first.gateway :=
    begins.watch.next_open begins.sound begins.flow begins.within
      (Bool.eq_false_of_not_eq_true (unanswered first List.mem_cons_self))
  have watch : Watch w.number a (s.run (op :: before)).gateway := by
    rw [← last]
    exact watch_of_turns opened turns (List.find?_eq_none.mpr fun x member =>
      unanswered x (List.mem_cons_of_mem _ member))
  have answered := watch.complete (sound_run sound (op :: before)) (own.trans launches.id.symm)
  have last : s.run (op :: before ++ [.complete c]) =
      (s.run (op :: before)).step (.complete c) := List.foldl_append
  rw [last]
  refine ⟨?_, answered⟩
  rw [resolution?] at unresolved
  rw [trace_append, resolution?, List.find?_append, unresolved, Option.none_or]
  exact List.find?_cons_of_pos (isAnswered_of_get? answered)

/-! ## The patience of callers -/

/-- **The patience of callers decides only what they get.** Of a new gateway with fresh identifiers:

* two runs that differ in nothing but how long callers wait are the same after every step, apart
  from the calls: ledger, table, counters, topics, membership and health, clock and tasks;
* a caller who waits up to a bound loses patience when it has passed since the request;
* until it is resolved, by its deadline or by a completion before that, the activation of a caller
  who waits is in flight with its reservation, also if the caller has gone; unless somebody
  consumes completions, that completion is one of the operations;
* a caller who stays gets its result when it is resolved, if that comes first; and if the patience
  ends first, the caller gets the identifier then, while the activation is in flight;
* what resolves it is the first completion that is taken in for it, if that comes in time. -/
theorem patience_decides_answers_only (config : Config) (store : Store) (bus : Bus)
    {mint : Nat → ActivationId} (supply : Function.Injective mint) (timer : SleepTimer)
    (earlier : List Op) :
    let start := Simulation.new (.new config store bus mint) timer
    (∀ others, List.Forall₂ Op.Alike earlier others → ∀ n,
      (start.run (earlier.take n)).mute = (start.run (others.take n)).mute) ∧
    ∀ op bound w later, let s := start.run earlier
      Opens s op bound w →
        w.lapse = bound.map (fun b => ⟨s.now.nanos + b.nanos⟩) ∧
          (∃ a action, Launches s w a action ∧
            Tracked (Taken (· ∈ later) s) w.number a (s.trace (op :: later)) ∧
              (.cancel s.called ∉ later → Race s.called w a (s.trace (op :: later)))) ∧
          ∀ before c after, later = before ++ .complete c :: after → c.id = w.id →
            resolution? w.number (s.trace (op :: before)) = none →
              let m := s.run (op :: before ++ [.complete c])
              resolution? w.number (s.trace (op :: later)) = some m ∧
                Table.get? w.number m.gateway.flight.answers =
                  some (.result (.ofCompletion c)) := by
  intro start
  have sound : Sound start := sound_new _ _ rfl
  have tended : start.gateway.Tended := Gateway.tended_new config store bus supply
  refine ⟨fun others alike n => ?_, fun op bound w later => ?_⟩
  · exact run_alike sound sound rfl (List.forall₂_take n alike)
  · intro s opens
    have soundNow : Sound s := sound_run sound earlier
    have tendedNow : s.gateway.Tended := tended_run sound tended earlier
    refine ⟨opens.lapse, opens.race soundNow tendedNow later, ?_⟩
    rintro before c after rfl own unresolved
    exact opens.complete soundNow tendedNow own unresolved

theorem later_of_resolved {l t : Instant}
    (resolved : (resolution? n ms).map (·.now) = some t) (late : l < t) :
    ∀ m, resolution? n ms = some m → l < m.now := by
  intro m found
  rw [found] at resolved
  have time : m.now = t := Option.some.inj resolved
  rw [time]
  exact late

/-- The demonstration gateway with an invoker. -/
def demoStart : Simulation :=
  (new Gateway.demo .standard).run [.heartbeat ⟨⟨0⟩, ⟨1024, 77, 3, 9⟩, 0, .up⟩]

/-- A caller there who waits for a second. -/
def demoCall : Request := { Gateway.demoRequest with patience := some (.ofSecs 1) }

/-- The result comes after ten seconds. -/
def demoLater : List Op :=
  [.advance (.ofSecs 10), .complete ⟨Gateway.counting 0, ⟨0⟩, true, false, none⟩]

/-- The caller gets the identifier after a second, the activation is in flight then, and its result
comes after ten. -/
theorem patience_decides_answers_only_demoCall :
    let w : Waiting := ⟨Gateway.counting 0, 0, some (.ofMillis 1000), false⟩
    let ms := demoStart.trace (.submit demoCall :: demoLater)
    Function.Injective Gateway.counting ∧ Opens demoStart (.submit demoCall) demoCall.patience w ∧
      .cancel demoStart.called ∉ demoLater ∧
      (resolution? 0 ms).map (·.now) = some (.ofMillis 10_000) ∧
      ∃ m a, return? demoStart.called ms = some m ∧ m.now = .ofMillis 1000 ∧
        a.id = Gateway.counting 0 ∧ Holds a m ∧
        Table.get? demoStart.called m.calls =
          some (.ended (.outcome (.accepted (Gateway.counting 0)))) := by
  intro w ms
  have opens : Opens demoStart (.submit demoCall) demoCall.patience w :=
    .submit (by decide +kernel)
  have stays : .cancel demoStart.called ∉ demoLater := by simp [demoLater]
  have resolved : (resolution? 0 ms).map (·.now) = some (.ofMillis 10_000) := by decide +kernel
  have reached : ms.any (Instant.ofMillis 1000 ≤ ·.now) = true := by decide +kernel
  obtain ⟨a, action, launches, -, race⟩ : ∃ a action, Launches demoStart w a action ∧
      Tracked (Taken (· ∈ demoLater) demoStart) w.number a ms ∧
        (Op.cancel demoStart.called ∉ demoLater → Race demoStart.called w a ms) :=
    ((patience_decides_answers_only .standard
      (Standalone.seedAll Standalone.demoActions (.new .standard)).1 (.new 2)
      Gateway.counting_injective .standard [.heartbeat ⟨⟨0⟩, ⟨1024, 77, 3, 9⟩, 0, .up⟩]).2
        (.submit demoCall) demoCall.patience w demoLater opens).2.1
  obtain ⟨x, member, passed⟩ := List.any_eq_true.mp reached
  obtain ⟨m, returned, lapsed, -, holds, call⟩ :=
    (race stays).accepted (.ofMillis 1000) rfl ⟨x, member, of_decide_eq_true passed⟩
      (later_of_resolved resolved (by decide))
  exact ⟨Gateway.counting_injective, opens, stays, resolved, m, a, returned, lapsed, launches.id,
    holds, call⟩

end Simulation

end Dispatch
