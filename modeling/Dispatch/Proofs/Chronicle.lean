import Dispatch.Proofs.CounterBalance
import Dispatch.Proofs.Timers

/-!
# A chronicle of what was published

An `Entry` says when an activation was published, under which time limit, and when its first
completion came. That alone says how the activation has ended (`Entry.ended?`). `Reflects` says that
the table of activations in flight, its answers and its count of timeouts are what the chronicle
says. A registration, a completion and a timer that fires keep it (`Reflects.joined`,
`Reflects.resolve`, `Reflects.fire`), and so does what leaves the activations in flight `Aside`.
`Reflects.fireDue` is the law of the clock: when everything due has fired, the chronicle is right
for the present time.
-/

set_option autoImplicit false

namespace Dispatch

namespace InFlight

variable {f g : InFlight} {id : ActivationId} {r : Registered} {now : Instant}

/-- `g` is `f` after something that leaves what is in flight alone. At most, registrations were
made and withdrawn again. -/
structure Aside (f g : InFlight) : Prop where
  grace : g.grace = f.grace
  pending : g.pending = f.pending
  timers : g.timers = f.timers
  timedOut : g.counters.timedOut = f.counters.timedOut
  registered : f.registered ≤ g.registered
  answers : ∀ n, n < f.registered ∨ g.registered ≤ n →
    Table.get? n g.answers = Table.get? n f.answers

theorem Aside.refl (f : InFlight) : Aside f f :=
  ⟨rfl, rfl, rfl, rfl, Nat.le_refl _, fun _ _ => rfl⟩

theorem Armed.aside {stray : Timer → Prop} (armed : Armed f stray) (aside : Aside f g) :
    Armed g stray where
  keyed := aside.pending ▸ armed.keyed
  once := aside.timers ▸ armed.once
  made t there := by
    rw [aside.timers] at there
    exact Nat.lt_of_lt_of_le (armed.made t there) aside.registered
  own := aside.pending ▸ aside.timers ▸ armed.own
  known := aside.pending ▸ aside.timers ▸ armed.known

/-- `g` is `f` after an activation was registered under an identifier that was not in flight. -/
structure Joined (f : InFlight) (a : Activation) (g : InFlight) : Prop where
  fresh : Table.get? a.id f.pending = none
  grace : g.grace = f.grace
  pending : g.pending = Table.set a.id ⟨f.registered, a⟩ f.pending
  timers : g.timers = insertTimer ⟨a.deadline, a.id, f.registered⟩ f.timers
  timedOut : g.counters.timedOut = f.counters.timedOut
  registered : g.registered = f.registered + 1
  answers : g.answers = f.answers

theorem Armed.joined {stray : Timer → Prop} (armed : Armed f stray) {a : Activation}
    (joined : Joined f a g) : Armed g stray := by
  have added := armed.add joined.fresh
  rw [add_of_absent joined.fresh] at added
  exact added.congr joined.pending joined.timers joined.registered

/-- Registering an activation with reserved capacity, and counting it. -/
theorem joined_add (f : InFlight) (ledger : Ledger) {a : Activation}
    (fresh : Table.get? a.id f.pending = none) :
    Joined f a ((({ f with ledger } : InFlight).add a).count .submitted) := by
  rw [add_of_absent (f := { f with ledger }) fresh]
  exact ⟨fresh, rfl, rfl, rfl, rfl, rfl, rfl⟩

/-- Withdrawing the activation that was just registered, and counting that. -/
theorem aside_abandon_add {a : Activation} (absent : Table.get? a.id f.pending = none)
    (numbered : ∀ t ∈ f.timers, t.number < f.registered)
    (room : f.ledger.accepts a.invoker a.memory = true) :
    Aside f ((({ f with ledger := (f.ledger.reserve a.invoker a.memory).1 }.add a).abandon a.id).1
      |>.count .dispatchFailure) := by
  rw [abandon_add absent numbered room]
  refine ⟨rfl, rfl, rfl, rfl, Nat.le_succ _, fun n other => ?_⟩
  show Table.get? n (if a.blocking then _ else _) = _
  split
  · rw [Table.get?_set, if_neg]
    rintro rfl
    exact other.elim (Nat.lt_irrefl _) (Nat.not_succ_le_self _)
  · rfl

end InFlight

namespace Gateway

/-! ## What events do to the activations in flight -/

variable {g : Gateway} {r : Request} {now : Instant} {calendar : UInt64} {p : Published}

/-- `activation` is what a published submission has put in flight. -/
structure Launched (g : Gateway) (r : Request) (now : Instant) (p : Published) (a : Action)
    (activation : Activation) : Prop where
  lookUp : g.lookUp r.action = .ok a
  action : activation.action = r.action
  id : activation.id = g.mint g.minted
  published :
    p = ⟨activation.id, if activation.blocking then some g.flight.registered else none⟩
  deadline : activation.deadline.nanos = now.nanos + a.limits.timeout.nanos + g.flight.grace.nanos

/-- A published submission registers its activation, and uses one identifier up. -/
theorem launched_of_published (orderly : Orderly g) (supply : Function.Injective g.mint)
    (told : (g.submit r now calendar).2 = .ok p) :
    ∃ a activation, Launched g r now p a activation ∧
      g.flight.Joined activation (g.submit r now calendar).1.flight ∧
      (g.submit r now calendar).1.minted = g.minted + 1 := by
  have outcome := submit_outcome g r now calendar
  rw [told] at outcome
  generalize (g.submit r now calendar).1 = after at outcome ⊢
  cases outcome with
  | @published a slot enlisted bus lookUp target enlist publish =>
      obtain ⟨deadline, named, rfl⟩ := enlist_eq_some enlist
      have fresh := orderly.fresh supply
      exact ⟨a, { g.activationFor r a slot.id now with deadline },
        ⟨lookUp, rfl, rfl, rfl, InFlight.deadline?_nanos (f := g.flight) named⟩,
        InFlight.joined_add g.flight _ fresh, rfl⟩

/-- A refused submission leaves what is in flight alone. -/
theorem aside_of_refused (orderly : Orderly g) (supply : Function.Injective g.mint)
    {fault : SubmitFault} (refused : (g.submit r now calendar).2 = .error fault) :
    g.flight.Aside (g.submit r now calendar).1.flight := by
  have outcome := submit_outcome g r now calendar
  rw [refused] at outcome
  generalize (g.submit r now calendar).1 = after at outcome ⊢
  cases outcome with
  | unknown => exact .refl _
  | overloaded | unnamed => exact ⟨rfl, rfl, rfl, rfl, Nat.le_refl _, fun _ _ => rfl⟩
  | @unpublished a slot enlisted fault lookUp target enlist publish =>
      have room := accepts_of_target target
      obtain ⟨activation, asked, placed, -, rfl⟩ := enlisted_of_reserved enlist
      rw [← placed, ← asked.memory] at room
      have absent := orderly.fresh supply
      rw [← asked.id] at absent ⊢
      exact InFlight.aside_abandon_add absent orderly.numbered room

theorem aside_heartbeat (g : Gateway) (h : Heartbeat) (now : Instant) :
    g.flight.Aside (g.processHeartbeat h now).flight := by
  simp only [processHeartbeat]
  split <;> exact ⟨rfl, rfl, rfl, rfl, Nat.le_refl _, fun _ _ => rfl⟩

theorem aside_remove (g : Gateway) (id : InvokerId) :
    g.flight.Aside (g.removeInvoker id).1.flight := by
  simp only [removeInvoker]
  split <;> exact .refl _

/-- Identifiers are used up one after the other. -/
theorem minted_le_step (g : Gateway) (e : Event) : g.minted ≤ (g.step e).minted := by
  cases e with
  | submit r now calendar =>
      have outcome := submit_outcome g r now calendar
      change g.minted ≤ (g.submit r now calendar).1.minted
      generalize (g.submit r now calendar).1 = after, (g.submit r now calendar).2 = result
        at outcome ⊢
      cases outcome with
      | unknown | overloaded | unnamed => exact Nat.le_refl _
      | unpublished _ _ enlist _ | published _ _ enlist _ =>
          obtain ⟨deadline, -, rfl⟩ := enlist_eq_some enlist
          exact Nat.le_succ _
  | heartbeat h now =>
      simp only [step, processHeartbeat]
      split <;> exact Nat.le_refl _
  | remove id =>
      simp only [step, removeInvoker]
      split <;> exact Nat.le_refl _
  | complete | elapse | expire | sweep | list | store | bus => exact Nat.le_refl _

/-! ## The chronicle -/

/-- A published activation in the chronicle. -/
structure Entry where
  published : Published
  /-- When it was published. -/
  time : Instant
  /-- The time limit of its action. -/
  limit : Duration
  /-- The first completion that came for it, and when. -/
  first : Option (Instant × Completion)

namespace Entry

/-- When an activation is due under a grace. -/
def deadline (grace : Duration) (e : Entry) : Instant :=
  ⟨e.time.nanos + e.limit.nanos + grace.nanos⟩

/-- The completion of an activation, if one came before its deadline. -/
def inTime? (grace : Duration) (e : Entry) : Option Completion :=
  e.first.bind fun (time, c) => if time < e.deadline grace then some c else none

/-- How an activation has ended by `now`, if it has. -/
def ended? (grace : Duration) (now : Instant) (e : Entry) : Option Ending :=
  match e.inTime? grace with
  | some c => some (.completed (.ofCompletion c))
  | none => if e.deadline grace ≤ now then some .timedOut else none

/-- The entry after a completion has come. -/
def receive (now : Instant) (c : Completion) (e : Entry) : Entry :=
  if e.published.id = c.id ∧ e.first.isNone then { e with first := some (now, c) } else e

/-- `r` is the registration that the chronicle has as `e`. -/
structure Made (grace : Duration) (e : Entry) (r : Registered) : Prop where
  deadline : r.activation.deadline = e.deadline grace
  awaits : e.published.awaits = if r.activation.blocking then some r.number else none

end Entry

/-- How activations have ended after what is in flight under `id`, if anything, has ended so. -/
def endedBy (id : ActivationId) (how : Ending) (ended : Entry → Option Ending) (e : Entry) :
    Option Ending :=
  (ended e).or (if e.published.id = id then some how else none)

/-- Whether an activation has timed out. -/
def isTimedOut (ended : Entry → Option Ending) (e : Entry) : Bool :=
  (ended e).bind Ending.status? = some .timeout

/-- In flight are the entries that have not ended, the callers who wait for the others have their
answers, and those that timed out are counted. -/
structure Reflects (grace : Duration) (f : InFlight) (entries : List Entry)
    (ended : Entry → Option Ending) : Prop where
  distinct : (entries.map (·.published.id)).Nodup
  numbered : ∀ e ∈ entries, ∀ n, e.published.awaits = some n → n < f.registered
  apart : ∀ e ∈ entries, ∀ other ∈ entries, ∀ n, e.published.awaits = some n →
    other.published.awaits = some n → e = other
  waiting : ∀ e ∈ entries, ended e = none →
    ∃ r, Table.get? e.published.id f.pending = some r ∧ e.Made grace r
  known : ∀ id r, Table.get? id f.pending = some r →
    ∃ e ∈ entries, e.published.id = id ∧ ended e = none
  answered : ∀ e ∈ entries, ∀ n, e.published.awaits = some n →
    Table.get? n f.answers = (ended e).map (·.answer e.published.id)
  unanswered : ∀ n, f.registered ≤ n → Table.get? n f.answers = none
  timedOut : f.counters.timedOut = entries.countP (isTimedOut ended)

section Reflects

variable {grace : Duration} {f : InFlight} {entries : List Entry} {ended : Entry → Option Ending}
  {id : ActivationId} {how : Ending}

theorem reflects_new (grace : Duration) (ledger : Ledger) (ended : Entry → Option Ending) :
    Reflects grace (.new grace ledger) [] ended where
  distinct := List.nodup_nil
  numbered _ member := by cases member
  apart _ member := by cases member
  waiting _ member := by cases member
  known _ _ there := by cases there
  answered _ member := by cases member
  unanswered _ _ := rfl
  timedOut := rfl

/-- An entry is told by its identifier. -/
theorem Reflects.eq_of_id (reflects : Reflects grace f entries ended) {e other : Entry}
    (member : e ∈ entries) (too : other ∈ entries) (same : e.published.id = other.published.id) :
    e = other :=
  List.inj_on_of_nodup_map reflects.distinct member too same

/-- Only how the entries have ended matters. -/
theorem Reflects.congr (reflects : Reflects grace f entries ended) {also : Entry → Option Ending}
    (same : ∀ e ∈ entries, ended e = also e) : Reflects grace f entries also :=
  { reflects with
    waiting := fun e member open_ => reflects.waiting e member ((same e member).trans open_)
    known := fun id r there => by
      obtain ⟨e, member, own, open_⟩ := reflects.known id r there
      exact ⟨e, member, own, (same e member).symm.trans open_⟩
    answered := fun e member n awaits => by
      rw [← same e member]
      exact reflects.answered e member n awaits
    timedOut := by
      rw [reflects.timedOut]
      exact List.countP_congr fun e member => by rw [isTimedOut, isTimedOut, same e member] }

/-- What the chronicle adds to its entries changes nothing in flight. -/
theorem Reflects.map {note : Entry → Entry} (reflects : Reflects grace f entries (ended ∘ note))
    (published : ∀ e, (note e).published = e.published)
    (deadline : ∀ e, (note e).deadline grace = e.deadline grace) :
    Reflects grace f (entries.map note) ended where
  distinct := by
    rw [List.map_map]
    simpa only [Function.comp_def, published] using reflects.distinct
  numbered := by
    simpa only [List.forall_mem_map, published] using reflects.numbered
  apart := by
    simp only [List.forall_mem_map, published]
    intro e member other too n awaits awaitsToo
    rw [reflects.apart e member other too n awaits awaitsToo]
  waiting := by
    simp only [List.forall_mem_map, published]
    intro e member open_
    obtain ⟨r, pending, made⟩ := reflects.waiting e member open_
    exact ⟨r, pending, made.deadline.trans (deadline e).symm, by rw [published, made.awaits]⟩
  known := by
    intro id r there
    obtain ⟨e, member, own, open_⟩ := reflects.known id r there
    exact ⟨note e, List.mem_map_of_mem member, by rw [published, own], open_⟩
  answered := by
    simpa only [List.forall_mem_map, published, Function.comp_apply] using reflects.answered
  unanswered := reflects.unanswered
  timedOut := by
    rw [reflects.timedOut, List.countP_map]
    rfl

/-- What leaves alone what is in flight keeps it as the chronicle has it. -/
theorem Reflects.aside (reflects : Reflects grace f entries ended) {after : InFlight}
    (aside : f.Aside after) : Reflects grace after entries ended where
  distinct := reflects.distinct
  numbered e member n awaits :=
    Nat.lt_of_lt_of_le (reflects.numbered e member n awaits) aside.registered
  apart := reflects.apart
  waiting := aside.pending ▸ reflects.waiting
  known := aside.pending ▸ reflects.known
  answered e member n awaits := by
    rw [aside.answers n (.inl (reflects.numbered e member n awaits))]
    exact reflects.answered e member n awaits
  unanswered n late := by
    rw [aside.answers n (.inr late)]
    exact reflects.unanswered n (Nat.le_trans aside.registered late)
  timedOut := aside.timedOut.trans reflects.timedOut

/-- A published activation enters the chronicle as one that has not ended. -/
theorem Reflects.joined (reflects : Reflects grace f entries ended) {a : Activation}
    {after : InFlight} (joined : f.Joined a after) {e : Entry}
    (published : e.published = ⟨a.id, if a.blocking then some f.registered else none⟩)
    (deadline : a.deadline = e.deadline grace) (open_ : ended e = none)
    (fresh : a.id ∉ entries.map (·.published.id)) :
    Reflects grace after (entries ++ [e]) ended := by
  have awaits : ∀ n, e.published.awaits = some n → n = f.registered := by
    intro n
    rw [published]
    show (if a.blocking then _ else _) = some n → _
    split
    · rintro ⟨⟩
      rfl
    · nofun
  constructor
  case distinct =>
    rw [List.map_append, List.nodup_append]
    refine ⟨reflects.distinct, List.nodup_singleton _, ?_⟩
    intro id before other last same
    obtain rfl := List.mem_singleton.mp last
    have own : id = a.id := same.trans (congrArg Published.id published)
    exact fresh (own ▸ before)
  case numbered =>
    intro other member n waits
    rw [joined.registered]
    rcases List.mem_append.mp member with before | last
    · exact Nat.lt_succ_of_lt (reflects.numbered other before n waits)
    · obtain rfl := List.mem_singleton.mp last
      rw [awaits n waits]
      exact Nat.lt_succ_self _
  case apart =>
    have older : ∀ other ∈ entries, ∀ n, other.published.awaits = some n →
        e.published.awaits ≠ some n := by
      intro other member n waits same
      exact Nat.ne_of_lt (reflects.numbered other member n waits) (awaits n same)
    intro one member two too n waits waitsToo
    rcases List.mem_append.mp member with before | last <;>
      rcases List.mem_append.mp too with beforeToo | lastToo
    · exact reflects.apart one before two beforeToo n waits waitsToo
    · obtain rfl := List.mem_singleton.mp lastToo
      exact absurd waitsToo (older one before n waits)
    · obtain rfl := List.mem_singleton.mp last
      exact absurd waits (older two beforeToo n waitsToo)
    · rw [List.mem_singleton.mp last, List.mem_singleton.mp lastToo]
  case waiting =>
    intro other member opened
    rw [joined.pending]
    rcases List.mem_append.mp member with before | last
    · obtain ⟨r, pending, made⟩ := reflects.waiting other before opened
      refine ⟨r, ?_, made⟩
      rw [Table.get?_set, if_neg, pending]
      intro same
      exact fresh (same ▸ List.mem_map_of_mem before)
    · obtain rfl := List.mem_singleton.mp last
      refine ⟨⟨f.registered, a⟩, ?_, deadline, by rw [published]⟩
      rw [Table.get?_set, published, if_pos rfl]
  case known =>
    intro id r there
    rw [joined.pending, Table.get?_set] at there
    split at there
    · rename_i same
      exact ⟨e, List.mem_append_right _ (List.mem_singleton.mpr rfl), by rw [published, ← same],
        open_⟩
    · obtain ⟨other, member, own, opened⟩ := reflects.known id r there
      exact ⟨other, List.mem_append_left _ member, own, opened⟩
  case answered =>
    intro other member n waits
    rw [joined.answers]
    rcases List.mem_append.mp member with before | last
    · exact reflects.answered other before n waits
    · obtain rfl := List.mem_singleton.mp last
      rw [open_, awaits n waits]
      exact reflects.unanswered _ (Nat.le_refl _)
  case unanswered =>
    intro n late
    rw [joined.registered] at late
    rw [joined.answers]
    exact reflects.unanswered n (Nat.le_of_succ_le late)
  case timedOut =>
    have counted : isTimedOut ended e = false := by simp [isTimedOut, open_]
    rw [joined.timedOut, reflects.timedOut, List.countP_append, List.countP_singleton, counted]
    rfl

theorem endedBy_eq_none_iff {e : Entry} :
    endedBy id how ended e = none ↔ ended e = none ∧ e.published.id ≠ id := by
  rw [endedBy, Option.or_eq_none_iff]
  simp

theorem endedBy_of_ne {e : Entry} (apart : e.published.id ≠ id) :
    endedBy id how ended e = ended e := by
  rw [endedBy, if_neg apart, Option.or_none]

/-- An entry that ends is one timeout more, if it times out. -/
theorem countP_endedBy (distinct : (entries.map (·.published.id)).Nodup) {e : Entry}
    (member : e ∈ entries) (open_ : ended e = none) :
    entries.countP (isTimedOut (endedBy e.published.id how ended)) =
      entries.countP (isTimedOut ended) + if how.status? = some .timeout then 1 else 0 := by
  induction entries with
  | nil => cases member
  | cons first rest ih =>
      obtain ⟨apart, distinct⟩ := List.nodup_cons.mp distinct
      rw [List.countP_cons, List.countP_cons]
      rcases List.mem_cons.mp member with rfl | later
      · have others : rest.countP (isTimedOut (endedBy e.published.id how ended)) =
            rest.countP (isTimedOut ended) := by
          refine List.countP_congr fun other there => ?_
          have ne : other.published.id ≠ e.published.id := fun same =>
            apart (List.mem_map.mpr ⟨other, there, same⟩)
          rw [isTimedOut, isTimedOut, endedBy_of_ne ne]
        rw [others]
        simp [isTimedOut, endedBy, open_]
      · have ne : first.published.id ≠ e.published.id := fun same =>
          apart (List.mem_map.mpr ⟨e, later, same.symm⟩)
        have same : isTimedOut (endedBy e.published.id how ended) first =
            isTimedOut ended first := by
          rw [isTimedOut, isTimedOut, endedBy_of_ne ne]
        rw [ih distinct later, same]
        omega

/-- What is in flight ends by a completion or a timeout. -/
theorem Reflects.close (reflects : Reflects grace f entries ended) {r : Registered}
    (pending : Table.get? id f.pending = some r)
    (counted : (how.record f.counters).timedOut =
      f.counters.timedOut + if how.status? = some .timeout then 1 else 0) :
    Reflects grace (f.close id r how) entries (endedBy id how ended) := by
  obtain ⟨e, member, rfl, open_⟩ := reflects.known id r pending
  have made : e.Made grace r := by
    obtain ⟨s, pendingToo, made⟩ := reflects.waiting e member open_
    rw [pending] at pendingToo
    obtain rfl := Option.some.inj pendingToo
    exact made
  have awaited : r.activation.blocking = true → e.published.awaits = some r.number := fun waits =>
    made.awaits.trans (if_pos waits)
  constructor
  case distinct => exact reflects.distinct
  case numbered => exact reflects.numbered
  case apart => exact reflects.apart
  case waiting =>
    intro other member opened
    obtain ⟨opened, apart⟩ := endedBy_eq_none_iff.mp opened
    obtain ⟨s, pendingToo, made⟩ := reflects.waiting other member opened
    refine ⟨s, ?_, made⟩
    rw [InFlight.close, Table.get?_erase, if_neg (Ne.symm apart), pendingToo]
  case known =>
    intro other s there
    rw [InFlight.close, Table.get?_erase] at there
    split at there
    · cases there
    · rename_i apart
      obtain ⟨entry, member, rfl, opened⟩ := reflects.known other s there
      exact ⟨entry, member, rfl, endedBy_eq_none_iff.mpr ⟨opened, Ne.symm apart⟩⟩
  case answered =>
    intro other too n waits
    rw [InFlight.close_answers]
    by_cases same : other.published.id = e.published.id
    · obtain rfl := reflects.eq_of_id too member same
      have blocking : r.number = n ∧ r.activation.blocking = true := by
        have awaits := made.awaits
        rw [waits] at awaits
        split at awaits
        · rename_i blocking
          exact ⟨(Option.some.inj awaits).symm, blocking⟩
        · cases awaits
      rw [if_pos blocking, endedBy, open_, if_pos rfl]
      rfl
    · rw [if_neg, endedBy_of_ne same]
      · exact reflects.answered other too n waits
      · rintro ⟨rfl, blocking⟩
        exact same (reflects.apart other too e member _ waits (awaited blocking) ▸ rfl)
  case unanswered =>
    intro n late
    rw [InFlight.close_answers, if_neg]
    · exact reflects.unanswered n late
    · rintro ⟨rfl, blocking⟩
      exact absurd (reflects.numbered e member _ (awaited blocking)) (Nat.not_lt.mpr late)
  case timedOut =>
    show (how.record f.counters).timedOut = _
    rw [counted, reflects.timedOut, countP_endedBy reflects.distinct member open_]

/-- Where nothing is in flight under an identifier, what the chronicle has under it has ended. -/
theorem Reflects.endedBy_of_absent (reflects : Reflects grace f entries ended)
    (absent : Table.get? id f.pending = none) {e : Entry} (member : e ∈ entries) :
    ended e = endedBy id how ended e := by
  cases open_ : ended e with
  | some how => rw [endedBy, open_, Option.some_or]
  | none =>
      rw [endedBy_of_ne, open_]
      rintro rfl
      obtain ⟨r, pending, -⟩ := reflects.waiting e member open_
      rw [absent] at pending
      cases pending

/-- **The first completion ends what is in flight, later ones nothing.** -/
theorem Reflects.resolve (reflects : Reflects grace f entries ended) (c : Completion) :
    Reflects grace (f.resolve c).1 entries
      (endedBy c.id (.completed (.ofCompletion c)) ended) := by
  cases pending : Table.get? c.id f.pending with
  | none =>
      rw [InFlight.resolve_of_absent pending]
      have aside : f.Aside (f.count .duplicate) :=
        ⟨rfl, rfl, rfl, rfl, Nat.le_refl _, fun _ _ => rfl⟩
      exact (reflects.aside aside).congr fun e member =>
        reflects.endedBy_of_absent pending member
  | some r =>
      rw [InFlight.resolve_of_pending pending]
      refine reflects.close pending ?_
      have reported := ActivationResult.ofCompletion_status c
      simp only [Ending.record, Ending.status?, Option.some.injEq, if_neg reported]
      cases status : (ActivationResult.ofCompletion c).status with
      | timeout => exact absurd status reported
      | success | applicationError | systemError => rfl

/-- **A timer that fires times out what is in flight under its identifier.** -/
theorem Reflects.fire (reflects : Reflects grace f entries ended) (t : Timer) :
    Reflects grace (f.fire t) entries (endedBy t.id .timedOut ended) := by
  have disarmed : Reflects grace (f.disarm t.number) entries ended :=
    { reflects with }
  cases pending : Table.get? t.id f.pending with
  | none =>
      rw [InFlight.fire_of_absent pending]
      exact disarmed.congr fun e member => reflects.endedBy_of_absent pending member
  | some r =>
      rw [InFlight.fire, InFlight.expire_of_pending (f := f.disarm t.number) pending]
      exact disarmed.close pending rfl

/-- What has not ended under an identifier of the timers that fire has timed out. -/
theorem Reflects.fireAll (reflects : Reflects grace f entries ended) (timers : List Timer) :
    Reflects grace (timers.foldl InFlight.fire f) entries fun e =>
      (ended e).or (if ∃ t ∈ timers, t.id = e.published.id then some .timedOut else none) := by
  induction timers generalizing f ended with
  | nil => exact reflects.congr fun e _ => by simp
  | cons t rest ih =>
      refine (ih (reflects.fire t)).congr fun e _ => ?_
      rw [endedBy, Option.or_assoc]
      by_cases first : t.id = e.published.id
      · simp [first]
      · simp [first, Ne.symm first]

/-- How the entries have ended goes by the chronicle, but for timeouts that are still to come. -/
structure Lags (grace : Duration) (now : Instant) (entries : List Entry)
    (ended : Entry → Option Ending) : Prop where
  settled : ∀ e ∈ entries, ∀ how, ended e = some how → e.ended? grace now = some how
  open_ : ∀ e ∈ entries, ended e = none → e.inTime? grace = none

theorem Entry.ended?_later {now later : Instant} (le : now ≤ later) {e : Entry}
    (ended : e.ended? grace now = some how) : e.ended? grace later = some how := by
  unfold Entry.ended? at ended ⊢
  cases inTime : e.inTime? grace with
  | some c => simpa only [inTime] using ended
  | none =>
      simp only [inTime, Option.ite_none_right_eq_some] at ended ⊢
      exact ⟨Nat.le_trans ended.1 le, ended.2⟩

theorem lags_ended? {now later : Instant} (le : now ≤ later) :
    Lags grace later entries (Entry.ended? grace now) where
  settled _ _ _ ended := Entry.ended?_later le ended
  open_ e _ opened := by
    unfold Entry.ended? at opened
    cases inTime : e.inTime? grace with
    | some c => simp only [inTime, reduceCtorEq] at opened
    | none => rfl

/-- **When everything due has fired, the chronicle says how every entry has ended.** -/
theorem Reflects.fireDue (reflects : Reflects grace f entries ended)
    (armed : InFlight.Armed f fun _ => False) {now : Instant}
    (lags : Lags grace now entries ended) :
    Reflects grace (f.fireDue now) entries (Entry.ended? grace now) := by
  refine (reflects.fireAll _).congr fun e member => ?_
  cases opened : ended e with
  | some how => rw [Option.some_or, lags.settled e member how opened]
  | none =>
      obtain ⟨r, pending, made⟩ := reflects.waiting e member opened
      have due : (∃ t ∈ f.timers.filter (·.due ≤ now), t.id = e.published.id) ↔
          e.deadline grace ≤ now := by
        constructor
        · rintro ⟨t, there, same⟩
          obtain ⟨armedToo, due⟩ := List.mem_filter.mp there
          obtain ⟨s, pendingToo, rfl⟩ := (armed.known t armedToo).resolve_right id
          rw [same, pending] at pendingToo
          obtain rfl := Option.some.inj pendingToo
          rw [← made.deadline]
          exact of_decide_eq_true due
        · intro due
          rw [← made.deadline] at due
          exact ⟨r.timer, List.mem_filter.mpr ⟨armed.own _ r pending, decide_eq_true due⟩,
            armed.keyed _ r pending⟩
      rw [Option.none_or, Entry.ended?, lags.open_ e member opened]
      exact if_congr due rfl rfl

/-- A completion that comes is what the chronicle notes. -/
theorem Entry.ended?_receive {now : Instant} {e : Entry} {c : Completion}
    (past : ∀ t d, e.first = some (t, d) → t ≤ now) :
    endedBy c.id (.completed (.ofCompletion c)) (Entry.ended? grace now) e =
      (e.receive now c).ended? grace now := by
  by_cases own : e.published.id = c.id
  · cases first : e.first with
    | some noted =>
        obtain ⟨time, d⟩ := noted
        have received : e.receive now c = e := by simp [receive, first]
        have settled : (e.ended? grace now).isSome := by
          unfold ended? inTime?
          rw [first, Option.bind_some]
          by_cases early : time < e.deadline grace
          · simp [early]
          · have due : e.deadline grace ≤ now :=
              Nat.le_trans (Nat.not_lt.mp early) (past time d first)
            simp [early, due]
        rw [received, endedBy, Option.or_of_isSome settled]
    | none =>
        have received : e.receive now c = { e with first := some (now, c) } := by
          simp [receive, own, first]
        rw [received, endedBy, if_pos own]
        unfold ended? inTime?
        rw [first]
        show ((if e.deadline grace ≤ now then some .timedOut else none : Option Ending).or _) =
          match (if now < e.deadline grace then some c else none) with
          | some c => _
          | none => if e.deadline grace ≤ now then _ else _
        by_cases due : e.deadline grace ≤ now
        · have late : ¬ now < e.deadline grace := Nat.not_lt.mpr due
          simp [due, late]
        · have early : now < e.deadline grace := Nat.not_le.mp due
          simp [due, early]
  · rw [endedBy_of_ne own, receive, if_neg (fun both => own both.1)]

end Reflects

end Gateway

end Dispatch
