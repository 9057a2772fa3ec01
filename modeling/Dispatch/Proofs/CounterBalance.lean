import Dispatch.Proofs.Conservation
import Dispatch.Proofs.Submission
import Mathlib.Algebra.BigOperators.Finprod

/-!
# The counters balance

Eight counters are moved by the gateway and by the table of activations in flight. `Counts` says
what a stretch of a run adds to those that follow from what callers were told and from how many
completions came; `accountedFor` is what the other four and the table hold together. Publishing
adds one to it, an ending that is counted leaves it alone, and a withdrawal takes its registration
off again, so it stays equal to the number of published activations (`accounted_step`).
`counters_balance` puts both together for whole runs.
-/

set_option autoImplicit false

namespace Dispatch

namespace Counters

theorem resolved_record (c : Counters) (status : ActivationStatus) :
    (c.record (.resolved status)).resolved = c.resolved + 1 := by
  cases status <;> simp only [record, resolved] <;> omega

/-- Completions that have come. -/
def answered (c : Counters) : Nat :=
  c.succeeded + c.applicationErrors + c.systemErrors + c.duplicateCompletions

end Counters

namespace InFlight

variable {f : InFlight} {id : ActivationId} {r : Registered}

theorem countWhere_eq_total (f : InFlight) (p : Activation → Bool) :
    f.countWhere p = Table.total (fun r => if p r.activation then 1 else 0) f.pending :=
  Table.countP_eq_total (fun r : Registered => p r.activation) f.pending

theorem inFlight_eq_total (f : InFlight) : f.inFlight = Table.total (fun _ => 1) f.pending :=
  f.countWhere_eq_total fun _ => true

/-- **Counting the activations in flight by a property of theirs counts each of them once.** -/
theorem finsum_countWhere {κ : Type} [DecidableEq κ] (f : InFlight) (key : Activation → κ) :
    ∑ᶠ k, f.countWhere (fun a => key a = k) = f.inFlight := by
  let keys := f.pending.map fun entry => key entry.2.activation
  have count : ∀ k, f.countWhere (fun a => key a = k) = keys.count k := by
    intro k
    rw [List.count, List.countP_map]
    exact List.countP_congr fun entry _ => by simp
  have support : Function.support (fun k => keys.count k) ⊆ ↑keys.toFinset := by
    intro k counted
    exact List.mem_toFinset.mpr (List.count_pos_iff.mp (Nat.pos_of_ne_zero counted))
  calc ∑ᶠ k, f.countWhere (fun a => key a = k)
      = ∑ᶠ k, keys.count k := finsum_congr count
    _ = ∑ k ∈ keys.toFinset, keys.count k := finsum_eq_sum_of_support_subset _ support
    _ = keys.length := List.sum_toFinset_count_eq_length keys
    _ = f.inFlight := by simp [keys, inFlight, countWhere]

/-! ## What is accounted for -/

/-- Activations that have ended under some status, and those that have yet to end. -/
def accountedFor (f : InFlight) : Nat := f.counters.resolved + f.inFlight

/-- An ending under a status moves an activation from the table to the counters. -/
theorem accountedFor_close (distinct : Table.Distinct f.pending)
    (pending : Table.get? id f.pending = some r) {e : Ending} {status : ActivationStatus}
    (counted : e.status? = some status) : (f.close id r e).accountedFor = f.accountedFor := by
  have taken := Table.total_erase (fun _ : Registered => 1) distinct pending
  simp only [accountedFor, inFlight_eq_total, close, Ending.record, counted,
    Counters.resolved_record]
  omega

theorem accountedFor_resolve (distinct : Table.Distinct f.pending) (c : Completion) :
    (f.resolve c).1.accountedFor = f.accountedFor := by
  cases pending : Table.get? c.id f.pending with
  | none =>
      rw [resolve_of_absent pending]
      rfl
  | some r =>
      rw [resolve_of_pending pending]
      exact accountedFor_close distinct pending rfl

theorem accountedFor_expire (distinct : Table.Distinct f.pending) (id : ActivationId) :
    (f.expire id).1.accountedFor = f.accountedFor := by
  cases pending : Table.get? id f.pending with
  | none => rw [expire_of_absent pending]
  | some r =>
      rw [expire_of_pending pending]
      exact accountedFor_close distinct pending rfl

theorem Attempt.distinct (distinct : Table.Distinct f.pending) {g : InFlight}
    (attempt : Attempt f id g) : Table.Distinct g.pending := by
  cases attempt with
  | closed => exact Table.distinct_erase distinct id
  | missed => exact distinct

/-- Timers that fire keep what is accounted for. -/
theorem accountedFor_fireAll (distinct : Table.Distinct f.pending) (timers : List Timer) :
    Table.Distinct (timers.foldl fire f).pending ∧
      (timers.foldl fire f).accountedFor = f.accountedFor := by
  induction timers generalizing f with
  | nil => exact ⟨distinct, rfl⟩
  | cons t rest ih =>
      have expired := accountedFor_expire (f := f.disarm t.number) distinct t.id
      have left : Table.Distinct (f.fire t).pending :=
        Attempt.distinct (f := f.disarm t.number) distinct (attempt_expire _ t.id)
      obtain ⟨kept, equal⟩ := ih left
      exact ⟨kept, equal.trans expired⟩

/-! ## What endings count -/

/-- Timing out moves no counter but its own. -/
theorem expire_counters (f : InFlight) (id : ActivationId) :
    ∃ timedOut, (f.expire id).1.counters = { f.counters with timedOut } := by
  cases pending : Table.get? id f.pending with
  | none =>
      rw [expire_of_absent pending]
      exact ⟨_, rfl⟩
  | some r =>
      rw [expire_of_pending pending]
      exact ⟨_, rfl⟩

theorem fireAll_counters (f : InFlight) (timers : List Timer) :
    ∃ timedOut, (timers.foldl fire f).counters = { f.counters with timedOut } := by
  induction timers generalizing f with
  | nil => exact ⟨_, rfl⟩
  | cons t rest ih =>
      obtain ⟨first, expired⟩ := expire_counters (f.disarm t.number) t.id
      obtain ⟨last, equal⟩ := ih (f.fire t)
      refine ⟨last, ?_⟩
      rw [List.foldl_cons, equal, fire, expired]
      rfl

end InFlight

/-- No completion reports that time has run out. -/
theorem ActivationResult.ofCompletion_status (c : Completion) :
    (ofCompletion c).status ≠ .timeout := by
  simp only [ofCompletion, ActivationStatus.ofFlags]
  split
  · decide
  · split <;> decide

namespace Counters

/-- A status that a completion reports is counted among the answers. -/
theorem answered_record {status : ActivationStatus} (reported : status ≠ .timeout) (c : Counters) :
    (c.record (.resolved status)).answered = c.answered + 1 ∧
      (c.record (.resolved status)).submitted = c.submitted ∧
      (c.record (.resolved status)).overloaded = c.overloaded ∧
      (c.record (.resolved status)).dispatchFailures = c.dispatchFailures := by
  cases status with
  | timeout => exact absurd rfl reported
  | success | applicationError | systemError =>
      refine ⟨?_, rfl, rfl, rfl⟩
      simp only [record, answered]
      omega

end Counters

namespace Gateway

/-! ## What callers are told -/

/-- What an event tells a caller, if it submits for one. -/
def Event.reply? (g : Gateway) : Event → Option (Except SubmitFault Published)
  | .submit r now calendar => some (g.submit r now calendar).2
  | _ => none

/-- What the submissions of a run came to, in their order. -/
def replies : Gateway → List Event → List (Except SubmitFault Published)
  | _, [] => []
  | g, e :: rest => (e.reply? g).toList ++ replies (g.step e) rest

/-- Whether an event brings a completion. -/
def Event.isCompletion : Event → Bool
  | .complete _ _ => true
  | _ => false

/-- How many completions a run brings. -/
def completions (events : List Event) : Nat := events.countP Event.isCompletion

/-- Whether a submission was refused for want of room. -/
def isOverload : Except SubmitFault Published → Bool
  | .error (.overload _ _ _) => true
  | _ => false

/-- Whether a submission failed because it could not be published. -/
def isDispatchFailure : Except SubmitFault Published → Bool
  | .error (.dispatch _) => true
  | _ => false

/-- Whether a submission was published. -/
def isPublished : Except SubmitFault Published → Bool
  | .ok _ => true
  | .error _ => false

/-- What a stretch of a run adds to the counters, in which callers were told `told` and `came`
completions came. -/
structure Counts (before after : Counters) (told : List (Except SubmitFault Published))
    (came : Nat) : Prop where
  submitted : after.submitted = before.submitted + told.countP isPublished
  overloaded : after.overloaded = before.overloaded + told.countP isOverload
  dispatchFailures :
    after.dispatchFailures = before.dispatchFailures + told.countP isDispatchFailure
  answered : after.answered = before.answered + came

theorem Counts.refl (c : Counters) : Counts c c [] 0 := ⟨rfl, rfl, rfl, rfl⟩

theorem Counts.trans {a b c : Counters} {told later : List (Except SubmitFault Published)}
    {came more : Nat} (first : Counts a b told came) (second : Counts b c later more) :
    Counts a c (told ++ later) (came + more) where
  submitted := by rw [second.submitted, first.submitted, List.countP_append, Nat.add_assoc]
  overloaded := by rw [second.overloaded, first.overloaded, List.countP_append, Nat.add_assoc]
  dispatchFailures := by
    rw [second.dispatchFailures, first.dispatchFailures, List.countP_append, Nat.add_assoc]
  answered := by rw [second.answered, first.answered, Nat.add_assoc]

variable {g : Gateway}

/-- What a submission does to the counters and to the table of activations in flight. -/
theorem submit_effect (orderly : Orderly g) (supply : Function.Injective g.mint) (r : Request)
    (now : Instant) (calendar : UInt64) :
    let after := (g.submit r now calendar).1
    (∃ p id entry, (g.submit r now calendar).2 = .ok p ∧
        after.counters = { g.counters with submitted := g.counters.submitted + 1 } ∧
        Table.get? id g.flight.pending = none ∧
        after.flight.pending = Table.set id entry g.flight.pending) ∨
      ∃ fault, (g.submit r now calendar).2 = .error fault ∧
        after.counters = fault.counted g.counters ∧ after.flight.pending = g.flight.pending := by
  intro after
  cases told : (g.submit r now calendar).2 with
  | ok p =>
      obtain ⟨a, activation, message, -, -, -, -, -, dispatched⟩ :=
        dispatched_of_published orderly supply told
      have fresh := Option.map_eq_none_iff.mp dispatched.fresh
      refine .inl ⟨p, activation.id, ⟨g.flight.registered, activation⟩, rfl,
        dispatched.counters, fresh, ?_⟩
      rw [Table.set_of_fresh fresh]
      exact dispatched.pending
  | error fault =>
      refine .inr ⟨fault, rfl, ?_⟩
      by_cases named : fault = .deadlineOutOfRange
      · subst named
        have outcome := submit_outcome g r now calendar
        rw [told] at outcome
        change (g.submit r now calendar).1.counters = _ ∧
          (g.submit r now calendar).1.flight.pending = _
        generalize (g.submit r now calendar).1 = final at outcome ⊢
        -- A failed look-up leaves the gateway as it is, and a deadline that cannot be named comes
        -- up before anything is counted or registered.
        cases outcome with
        | unknown lookUp => exact ⟨rfl, rfl⟩
        | unnamed => exact ⟨rfl, rfl⟩
      · obtain ⟨untouched, counters⟩ := untouched_of_refused orderly supply told named
        exact ⟨counters, untouched.pending⟩

theorem counts_submit (orderly : Orderly g) (supply : Function.Injective g.mint) (r : Request)
    (now : Instant) (calendar : UInt64) :
    Counts g.counters (g.submit r now calendar).1.counters [(g.submit r now calendar).2] 0 := by
  rcases submit_effect orderly supply r now calendar with
    ⟨p, id, entry, told, counters, -⟩ | ⟨fault, told, counters, -⟩
  · rw [told, counters]
    exact ⟨rfl, rfl, rfl, rfl⟩
  · rw [told, counters]
    cases fault <;> exact ⟨rfl, rfl, rfl, rfl⟩

theorem counts_complete (g : Gateway) (c : Completion) (calendar : UInt64) :
    Counts g.counters (g.processCompletion c calendar).1.counters [] 1 := by
  show Counts g.flight.counters (g.flight.resolve c).1.counters [] 1
  cases pending : Table.get? c.id g.flight.pending with
  | none =>
      rw [InFlight.resolve_of_absent pending]
      exact ⟨rfl, rfl, rfl, rfl⟩
  | some r =>
      rw [InFlight.resolve_of_pending pending]
      obtain ⟨answered, submitted, overloaded, dispatchFailures⟩ :=
        Counters.answered_record (ActivationResult.ofCompletion_status c) g.flight.counters
      exact ⟨submitted, overloaded, dispatchFailures, answered⟩

/-- **Every event moves the counters by what it tells a caller and what it brings.** -/
theorem counts_step (orderly : Orderly g) (supply : Function.Injective g.mint) (e : Event) :
    Counts g.counters (g.step e).counters (e.reply? g).toList
      (if e.isCompletion then 1 else 0) := by
  cases e with
  | submit r now calendar => exact counts_submit orderly supply r now calendar
  | complete c calendar => exact counts_complete g c calendar
  | elapse now =>
      obtain ⟨timedOut, equal⟩ :=
        InFlight.fireAll_counters g.flight (g.flight.timers.filter (·.due ≤ now))
      change (g.step (.elapse now)).counters = _ at equal
      rw [equal]
      exact ⟨rfl, rfl, rfl, rfl⟩
  | expire id =>
      obtain ⟨timedOut, equal⟩ := InFlight.expire_counters g.flight id
      change (g.step (.expire id)).counters = _ at equal
      rw [equal]
      exact ⟨rfl, rfl, rfl, rfl⟩
  | heartbeat h now =>
      simp only [step, processHeartbeat]
      split <;> exact .refl _
  | remove id =>
      simp only [step, removeInvoker]
      split <;> exact .refl _
  | sweep | list | store | bus => exact .refl _

theorem counts_run (orderly : Orderly g) (supply : Function.Injective g.mint)
    (events : List Event) :
    Counts g.counters (g.run events).counters (g.replies events) (completions events) := by
  induction events generalizing g with
  | nil => exact .refl _
  | cons e rest ih =>
      have first := counts_step orderly supply e
      have later := ih (orderly_step g e orderly) (by rw [(step_settings g e).1]; exact supply)
      rw [completions, List.countP_cons, Nat.add_comm]
      exact first.trans later

/-! ## Balance -/

/-- Every activation that was published has ended under some status or is in flight. -/
structure Accounted (g : Gateway) : Prop where
  distinct : Table.Distinct g.flight.pending
  accounted : g.counters.submitted = g.flight.accountedFor

theorem accounted_new (config : Config) (store : Store) (bus : Bus) (mint : Nat → ActivationId) :
    Accounted (new config store bus mint) := ⟨Table.distinct_nil, rfl⟩

theorem Accounted.submit (accounted : Accounted g) (orderly : Orderly g)
    (supply : Function.Injective g.mint) (r : Request) (now : Instant) (calendar : UInt64) :
    Accounted (g.submit r now calendar).1 := by
  rcases submit_effect orderly supply r now calendar with
    ⟨p, id, entry, -, counters, fresh, pending⟩ | ⟨fault, -, counters, pending⟩
  · constructor
    · rw [pending]
      exact Table.distinct_set accounted.distinct _ _
    · change _ = Counters.resolved (g.submit r now calendar).1.counters + _
      rw [InFlight.inFlight_eq_total, pending, Table.total_set_of_fresh _ fresh, counters,
        ← InFlight.inFlight_eq_total]
      show g.counters.submitted + 1 = g.flight.accountedFor + 1
      rw [accounted.accounted]
  · constructor
    · rw [pending]
      exact accounted.distinct
    · change _ = Counters.resolved (g.submit r now calendar).1.counters + _
      rw [InFlight.inFlight_eq_total, pending, counters, ← InFlight.inFlight_eq_total]
      cases fault <;> exact accounted.accounted

/-- **Every event keeps the balance.** -/
theorem accounted_step (orderly : Orderly g) (supply : Function.Injective g.mint)
    (accounted : Accounted g) (e : Event) : Accounted (g.step e) := by
  cases e with
  | submit r now calendar => exact accounted.submit orderly supply r now calendar
  | complete c calendar =>
      have counts := counts_complete g c calendar
      have kept := InFlight.accountedFor_resolve accounted.distinct c
      refine ⟨(InFlight.attempt_resolve _ c).distinct accounted.distinct, ?_⟩
      exact counts.submitted.trans (accounted.accounted.trans kept.symm)
  | elapse now =>
      have counts := counts_step orderly supply (.elapse now)
      obtain ⟨distinct, kept⟩ := InFlight.accountedFor_fireAll accounted.distinct
        (g.flight.timers.filter (·.due ≤ now))
      exact ⟨distinct, counts.submitted.trans (accounted.accounted.trans kept.symm)⟩
  | expire id =>
      have counts := counts_step orderly supply (.expire id)
      have kept := InFlight.accountedFor_expire accounted.distinct id
      refine ⟨(InFlight.attempt_expire _ id).distinct accounted.distinct, ?_⟩
      exact counts.submitted.trans (accounted.accounted.trans kept.symm)
  | heartbeat h now =>
      simp only [step, processHeartbeat]
      split <;> exact ⟨accounted.distinct, accounted.accounted⟩
  | remove id =>
      simp only [step, removeInvoker]
      split <;> exact ⟨accounted.distinct, accounted.accounted⟩
  | sweep | list | store | bus => exact ⟨accounted.distinct, accounted.accounted⟩

/-- What the balance needs of a run. -/
structure Audited (g : Gateway) : Prop where
  supply : Function.Injective g.mint
  orderly : Orderly g
  accounted : Accounted g

theorem audited_run (audited : Audited g) (events : List Event) : Audited (g.run events) := by
  refine run_keeps_always (fun h e audited => ?_) events audited
  refine ⟨?_, orderly_step h e audited.orderly,
    accounted_step audited.orderly audited.supply audited.accounted e⟩
  rw [(step_settings h e).1]
  exact audited.supply

/-- **The counters balance.** After any run of a new gateway with fresh identifiers, every
activation that was published has ended under one status or is in flight; every completion that
came ended one activation under its status or was a duplicate; a submission is counted by what its
caller was told; and every activation in flight is on one invoker and in one namespace. -/
theorem counters_balance (config : Config) (store : Store) (bus : Bus)
    {mint : Nat → ActivationId} (supply : Function.Injective mint) (events : List Event) :
    let g := (new config store bus mint).run events
    let c := g.counters
    let told := (new config store bus mint).replies events
    c.submitted = c.succeeded + c.applicationErrors + c.systemErrors + c.timedOut +
        g.flight.inFlight ∧
      completions events =
        c.succeeded + c.applicationErrors + c.systemErrors + c.duplicateCompletions ∧
      c.submitted = told.countP isPublished ∧
      c.overloaded = told.countP isOverload ∧
      c.dispatchFailures = told.countP isDispatchFailure ∧
      g.flight.inFlight = ∑ᶠ invoker, g.flight.inFlightOn invoker ∧
      g.flight.inFlight = ∑ᶠ space, g.flight.inFlightIn space := by
  intro g c told
  have orderly := orderly_new config store bus mint
  have audited : Audited g :=
    audited_run ⟨supply, orderly, accounted_new config store bus mint⟩ events
  have counts : Counts .zero c told (completions events) :=
    counts_run (g := new config store bus mint) orderly supply events
  refine ⟨audited.accounted.accounted, ?_, ?_, ?_, ?_, ?_, ?_⟩
  · exact (counts.answered.trans (Nat.zero_add _)).symm
  · exact counts.submitted.trans (Nat.zero_add _)
  · exact counts.overloaded.trans (Nat.zero_add _)
  · exact counts.dispatchFailures.trans (Nat.zero_add _)
  · exact (g.flight.finsum_countWhere (·.invoker)).symm
  · exact (g.flight.finsum_countWhere (·.space)).symm

/-- A day with every kind of entry in the books: two activations are published, one finds no room
and one a full topic; one completion comes twice, and the other activation meets its deadline before
its completion comes. -/
def demoBooks : List Event :=
  demoDay ++ [.elapse ⟨3_600_000_000_000⟩, .complete ⟨counting 1, ⟨0⟩, false, true, none⟩ 0]

/-- At the end of that day nothing is in flight, and all books are closed. -/
theorem counters_balance_demoBooks :
    Function.Injective counting ∧
      (demo.run demoBooks).counters = ⟨2, 1, 1, 1, 0, 0, 1, 2⟩ ∧
      (demo.run demoBooks).flight.inFlight = 0 ∧ completions demoBooks = 3 ∧
      (demo.run demoBooks).counters.submitted =
        (demo.run demoBooks).counters.succeeded +
          (demo.run demoBooks).counters.applicationErrors +
          (demo.run demoBooks).counters.systemErrors + (demo.run demoBooks).counters.timedOut +
          (demo.run demoBooks).flight.inFlight := by
  have balance := counters_balance .standard
    (Standalone.seedAll Standalone.demoActions (.new .standard)).1 (.new 2) counting_injective
    demoBooks
  exact ⟨counting_injective, by decide +kernel, by decide +kernel, by decide +kernel,
    by rw [demo]; exact balance.1⟩

end Gateway

end Dispatch
