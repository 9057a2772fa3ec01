import Dispatch.Proofs.SimulatedWork

/-!
# What comes back to the gateway

What simulated invokers complete was published by a gateway, and their completions are taken in by
the same gateway. Of each activation there is at most one message, sleeper or completion `underway`,
and as long as there is one, the activation is in flight or has timed out (`Attended`). A submission
puts one underway with its activation, and whatever happens by itself adds none, so a completion
that finds nothing in flight is one of an activation that has timed out (`attended_burst`).
-/

set_option autoImplicit false

namespace Dispatch

/-! ## What is in flight and what is underway -/

/-- There is one thing underway of each activation at most, and then the activation is in flight or
has lapsed. -/
structure Attended (lapsed : ActivationId → Prop) (g : Gateway) (underway : ActivationId → Nat) :
    Prop where
  supply : Function.Injective g.mint
  known : ∀ a r, Table.get? a g.flight.pending = some r → ∃ k, k < g.minted ∧ a = g.mint k
  issued : ∀ a, 0 < underway a → ∃ k, k < g.minted ∧ a = g.mint k
  single : ∀ a, underway a ≤ 1
  held : ∀ a, 0 < underway a → (Table.get? a g.flight.pending).isSome ∨ lapsed a

namespace Attended

variable {lapsed : ActivationId → Prop} {g h : Gateway} {underway less : ActivationId → Nat}

theorem mono (attended : Attended lapsed g underway) {more : ActivationId → Prop}
    (le : ∀ a, lapsed a → more a) : Attended more g underway :=
  { attended with held := fun a there => (attended.held a there).imp_right (le a) }

/-- Nothing new is in flight or underway, and nothing underway has gone from flight. -/
theorem fewer (attended : Attended lapsed g underway) (mint : h.mint = g.mint)
    (minted : g.minted ≤ h.minted)
    (pending : ∀ a r, Table.get? a h.flight.pending = some r →
      Table.get? a g.flight.pending = some r)
    (le : ∀ a, less a ≤ underway a)
    (kept : ∀ a, 0 < less a → (Table.get? a g.flight.pending).isSome →
      (Table.get? a h.flight.pending).isSome ∨ lapsed a) : Attended lapsed h less where
  supply := mint ▸ attended.supply
  known a r there := by
    obtain ⟨k, early, same⟩ := attended.known a r (pending a r there)
    exact ⟨k, Nat.lt_of_lt_of_le early minted, mint ▸ same⟩
  issued a there := by
    obtain ⟨k, early, same⟩ := attended.issued a (Nat.lt_of_lt_of_le there (le a))
    exact ⟨k, Nat.lt_of_lt_of_le early minted, mint ▸ same⟩
  single a := Nat.le_trans (le a) (attended.single a)
  held a there :=
    (attended.held a (Nat.lt_of_lt_of_le there (le a))).elim (kept a there) .inr

/-- The same is in flight, and nothing new is underway. -/
theorem same (attended : Attended lapsed g underway) (mint : h.mint = g.mint)
    (minted : g.minted ≤ h.minted) (pending : h.flight.pending = g.flight.pending)
    (le : ∀ a, less a ≤ underway a) : Attended lapsed h less :=
  attended.fewer mint minted (fun _ _ there => pending ▸ there) le
    fun _ _ there => .inl (pending ▸ there)

/-- The next identifier is not in flight. -/
theorem fresh (attended : Attended lapsed g underway) :
    Table.get? (g.mint g.minted) g.flight.pending = none ∧ underway (g.mint g.minted) = 0 := by
  have late : ∀ k, k < g.minted → g.mint g.minted ≠ g.mint k := fun k early same =>
    Nat.ne_of_gt early (attended.supply same)
  constructor
  · cases there : Table.get? (g.mint g.minted) g.flight.pending with
    | none => rfl
    | some r =>
        obtain ⟨k, early, same⟩ := attended.known _ r there
        exact absurd same (late k early)
  · by_contra there
    obtain ⟨k, early, same⟩ := attended.issued _ (Nat.pos_of_ne_zero there)
    exact late k early same

/-- An activation has been put in flight, and its message underway. -/
theorem joined (attended : Attended lapsed g underway) {r : Registered} (mint : h.mint = g.mint)
    (minted : h.minted = g.minted + 1)
    (pending : h.flight.pending = Table.set (g.mint g.minted) r g.flight.pending)
    (le : ∀ a, less a ≤ underway a + if g.mint g.minted = a then 1 else 0) :
    Attended lapsed h less := by
  obtain ⟨-, none⟩ := attended.fresh
  have there : ∀ a, Table.get? a h.flight.pending =
      if g.mint g.minted = a then some r else Table.get? a g.flight.pending := fun a => by
    rw [pending, Table.get?_set]
  refine ⟨mint ▸ attended.supply, fun a s found => ?_, fun a found => ?_, fun a => ?_,
    fun a found => ?_⟩ <;> have most := le a
  · rw [there a] at found
    rw [mint, minted]
    split at found
    · rename_i own
      exact ⟨g.minted, Nat.lt_succ_self _, own.symm⟩
    · obtain ⟨k, early, same⟩ := attended.known a s found
      exact ⟨k, Nat.lt_succ_of_lt early, same⟩
  · rw [mint, minted]
    split at most
    · rename_i own
      exact ⟨g.minted, Nat.lt_succ_self _, own.symm⟩
    · obtain ⟨k, early, same⟩ := attended.issued a (Nat.lt_of_lt_of_le found most)
      exact ⟨k, Nat.lt_succ_of_lt early, same⟩
  · split at most
    · rename_i own
      rw [← own, none] at most
      exact own ▸ most
    · exact Nat.le_trans most (attended.single a)
  · rw [there a]
    split
    · exact .inl rfl
    · rename_i other
      rw [if_neg other] at most
      exact attended.held a (Nat.lt_of_lt_of_le found most)

/-- **A submission puts at most what it publishes in flight and underway.** -/
theorem submit (attended : Attended lapsed g underway) (r : Request) (now : Instant)
    (calendar : UInt64)
    (le : ∀ a, less a + g.bus.copies a ≤
      underway a + (g.submit r now calendar).1.bus.copies a) :
    Attended lapsed (g.submit r now calendar).1 less := by
  have outcome := g.submit_outcome r now calendar
  obtain ⟨absent, -⟩ := attended.fresh
  generalize (g.submit r now calendar).1 = after, (g.submit r now calendar).2 = result
    at outcome le ⊢
  cases outcome with
  | unknown | overloaded | unnamed =>
      exact attended.same rfl (Nat.le_refl _) rfl fun a => Nat.le_of_add_le_add_right (le a)
  | @unpublished a slot enlisted _ lookUp target enlist publish =>
      obtain ⟨deadline, -, rfl⟩ := Gateway.enlist_eq_some enlist
      refine attended.same rfl (Nat.le_succ _) ?_ fun a => Nat.le_of_add_le_add_right (le a)
      let activation := { g.activationFor r a slot.id now with deadline }
      let flight := { g.flight with ledger := (g.ledger.reserve slot.id a.limits.memory).1 }
      show ((flight.add activation).abandon activation.id).1.pending = g.flight.pending
      rw [InFlight.add_of_absent (f := flight) (a := activation) absent,
        InFlight.abandon_of_pending (r := ⟨g.flight.registered, activation⟩)
          ((Table.get?_set _ _ _ _).trans (if_pos rfl))]
      exact Table.erase_set_of_fresh absent _
  | @published a slot enlisted bus lookUp target enlist publish =>
      obtain ⟨deadline, -, rfl⟩ := Gateway.enlist_eq_some enlist
      let activation := { g.activationFor r a slot.id now with deadline }
      let flight := { g.flight with ledger := (g.ledger.reserve slot.id a.limits.memory).1 }
      refine attended.joined (r := ⟨g.flight.registered, activation⟩) rfl rfl ?_ fun b => ?_
      · show (flight.add activation).pending = _
        rw [InFlight.add_of_absent (f := flight) (a := activation) absent]
        rfl
      · let text := ActivationMessage.codec.encode
          (Gateway.messageFor (g.activationFor r a slot.id now) r.payload calendar)
        have most : less b + g.bus.copies b ≤ underway b + bus.copies b := le b
        have added : (g.bus.act (.publish slot.id.topic text)).copies b ≤
            g.bus.copies b + if g.mint g.minted = b then 1 else 0 :=
          Bus.copies_publish_of id_of_about_message
        have accepted : g.bus.publish slot.id.topic text = .ok bus := publish
        rw [Bus.act, accepted] at added
        have sent : bus.copies b ≤ g.bus.copies b + if g.mint g.minted = b then 1 else 0 := added
        omega

end Attended

namespace Simulation

variable {s x y : Simulation} {lapsed : ActivationId → Prop}

/-! ## What happens by itself -/

/-- How many messages, sleepers and completions there are of an activation. -/
def underway (s : Simulation) (a : ActivationId) : Nat :=
  s.gateway.bus.copies a + s.sleepers.countP (·.completion.id = a)

/-- `x` is `s` after something that leaves what is in flight alone and puts nothing underway. -/
structure Eases (s x : Simulation) : Prop where
  pending : x.gateway.flight.pending = s.gateway.flight.pending
  mint : x.gateway.mint = s.gateway.mint
  minted : x.gateway.minted = s.gateway.minted
  underway : ∀ a, x.underway a ≤ s.underway a

theorem Eases.refl (s : Simulation) : Eases s s := ⟨rfl, rfl, rfl, fun _ => Nat.le_refl _⟩

theorem Eases.trans (first : Eases s x) (second : Eases x y) : Eases s y where
  pending := second.pending.trans first.pending
  mint := second.mint.trans first.mint
  minted := second.minted.trans first.minted
  underway a := Nat.le_trans (second.underway a) (first.underway a)

theorem attended_eases (attended : Attended lapsed s.gateway s.underway) (eases : Eases s x) :
    Attended lapsed x.gateway x.underway :=
  attended.same eases.mint (Nat.le_of_eq eases.minted.symm) eases.pending eases.underway

theorem eases_spares {gateway : Gateway} (spares : s.gateway.Spares gateway)
    (sleepers : x.sleepers = s.sleepers) (same : x.gateway = gateway) : Eases s x where
  pending := same ▸ spares.pending
  mint := same ▸ spares.mint
  minted := same ▸ spares.minted
  underway a := by
    rw [underway, underway, same, sleepers]
    exact Nat.add_le_add_right (spares.copies a) _

/-- Heartbeats are about no activation. -/
theorem eases_beats (s : Simulation) : Eases s (s.forTasks beatIfDue) := by
  refine forTasks_keeps (P := Eases s) ?_ (.refl s)
  intro y topic t _ eases
  refine eases.trans ?_
  cases t with
  | invoker i =>
      simp only [beatIfDue, publishHeartbeat, tryPublish_eq]
      split
      · exact eases_spares (Gateway.spares_bus fun _ =>
          Bus.copies_publish_none (about_heartbeat _)) rfl rfl
      · exact .refl y
  | consumer | idle => exact .refl y

theorem copies_announced (a : ActivationId) (ds : List Sleeper) (b : Bus) :
    (ds.foldl announce b).copies a ≤ b.copies a + ds.countP (·.completion.id = a) := by
  induction ds generalizing b with
  | nil => exact Nat.le_refl _
  | cons d rest ih =>
      have later := ih (announce b d)
      have added : (announce b d).copies a ≤
          b.copies a + if d.completion.id = a then 1 else 0 :=
        Bus.copies_publish_of id_of_about_completion
      rw [List.foldl_cons, List.countP_cons]
      simp only [decide_eq_true_eq]
      omega

/-- Whoever reports is underway as a completion, if at all. -/
theorem eases_wake (s : Simulation) : Eases s s.wake := by
  rw [wake_eq]
  refine ⟨rfl, rfl, rfl, fun a => ?_⟩
  have sent := copies_announced a (s.sleepers.filter (·.due ≤ s.now)) s.gateway.bus
  have parted := (List.filter_append_perm (fun d : Sleeper => d.due ≤ s.now) s.sleepers).countP_eq
    fun d => d.completion.id = a
  simp only [← decide_not, List.countP_append] at parted
  show Bus.copies a (List.foldl announce s.gateway.bus _) + List.countP _ (List.filter _ _) ≤
    s.gateway.bus.copies a + List.countP _ s.sleepers
  omega

theorem emptied_copies (a : ActivationId) (topic : String) (b : Bus) :
    (emptied topic b).copies a + mentions a topic (b.topic topic).queue = b.copies a := by
  unfold emptied
  split
  · rename_i empty
    rw [List.isEmpty_iff.mp empty]
    rfl
  · exact b.copies_put a topic _

/-- Whoever is started was underway as a message. -/
theorem accepted_le_mentions (i : SimulatedInvoker) (timer : SleepTimer) (now : Instant)
    (a : ActivationId) (texts : List Bytes) :
    (texts.filterMap (i.accept? timer now)).countP (·.completion.id = a) ≤
      mentions a i.id.topic texts := by
  induction texts with
  | nil => exact Nat.le_refl _
  | cons text rest ih =>
      have first : mentions a i.id.topic (text :: rest) =
          (if about i.id.topic text = some a then 1 else 0) + mentions a i.id.topic rest := by
        rw [← mentions_singleton, ← mentions_append]
        rfl
      rw [first, about_invoker]
      cases read : ActivationMessage.codec.decode text with
      | error f =>
          have refused : i.accept? timer now text = none := by
            rw [SimulatedInvoker.accept?, read]
          rw [List.filterMap_cons_none refused]
          exact Nat.le_add_left_of_le ih
      | ok m =>
          have accepted : i.accept? timer now text =
              some ⟨now + timer.lasts m.nap, i.completionOf m⟩ := by
            rw [SimulatedInvoker.accept?, read]
            rfl
          rw [List.filterMap_cons_some accepted, List.countP_cons, Nat.add_comm]
          refine Nat.add_le_add (ite_le_ite fun named => ?_) ih
          exact congrArg some (of_decide_eq_true named)

theorem eases_starts (own : ∀ topic i, (topic, .invoker i) ∈ s.tasks → topic = i.id.topic) :
    Eases s (s.forTasks startActivations) := by
  refine forTasks_keeps (P := Eases s) ?_ (.refl s)
  intro y topic t member eases
  refine eases.trans ?_
  cases t with
  | invoker i =>
      simp only [startActivations, takeAll_eq, own topic i member]
      refine ⟨rfl, rfl, rfl, fun a => ?_⟩
      have taken := emptied_copies a i.id.topic y.gateway.bus
      have begun := accepted_le_mentions i y.timer y.now a (y.gateway.bus.topic i.id.topic).queue
      show Bus.copies a _ + List.countP _ (_ ++ _) ≤ Bus.copies a _ + _
      rw [List.countP_append]
      show Bus.copies a (emptied i.id.topic y.gateway.bus) + (List.countP _ y.sleepers +
        List.countP _ (List.filterMap (i.accept? y.timer y.now) _)) ≤
          y.gateway.bus.copies a + List.countP _ y.sleepers
      omega
  | consumer | idle => exact .refl y

/-- An activation times out while a simulation settles. -/
def TimesOut (x : Simulation) (a : ActivationId) : Prop :=
  (Table.get? a x.gateway.flight.pending).isSome ∧
    Table.get? a (x.gateway.flight.fireDue x.now).pending = none

/-- **Until completions are consumed nothing leaves flight but what times out, and nothing new is
underway.** -/
theorem attended_worked (regular : Regular x) (ready : Ready x)
    (attended : Attended lapsed x.gateway x.underway) :
    Attended (fun a => lapsed a ∨ x.TimesOut a) x.worked.gateway x.worked.underway := by
  have elapsed : Attended (fun a => lapsed a ∨ x.TimesOut a) x.fired.gateway x.fired.underway := by
    refine (attended.mono fun _ => .inl).fewer rfl (Nat.le_refl _) (fun a r there => ?_)
      (fun _ => Nat.le_refl _) fun a _ there => ?_
    · replace there : Table.get? a (x.gateway.flight.fireDue x.now).pending = some r := there
      rw [InFlight.fireDue_pending] at there
      split at there
      · cases there
      · exact there
    · cases left : Table.get? a x.fired.gateway.flight.pending with
      | none => exact .inr (.inr ⟨there, left⟩)
      | some r => exact .inl rfl
  have tasks : (x.fired.forTasks beatIfDue).wake.tasks = (x.fired.forTasks beatIfDue).tasks := by
    rw [wake_eq]
  have starts := eases_starts (s := (x.fired.forTasks beatIfDue).wake)
    (tasks ▸ (own_beaten regular ready).2)
  exact attended_eases elapsed ((eases_beats x.fired).trans
    ((eases_wake _).trans (starts.trans (eases_wake _))))

/-! ## What consumers take in -/

/-- What a gateway reports of texts that it takes in as completions, one after the other: of each
completion, of whose it is, and what it did. -/
def reports : Simulation → List Bytes → List (ActivationId × Resolution)
  | _, [] => []
  | s, text :: rest =>
    let later := reports (s.consumeMessage Completion.topic text) rest
    match Completion.codec.decode text with
    | .ok c => (c.id, (s.gateway.processCompletion c s.calendar).2) :: later
    | .error _ => later

/-- What a gateway reports while tasks consume. -/
def reportsOver : Table String Task → Simulation → List (ActivationId × Resolution)
  | [], _ => []
  | (topic, t) :: rest, s =>
    let later := reportsOver rest (s.consume topic t)
    match t with
    | .consumer =>
      if topic = Completion.topic then
        let (s, texts) := s.takeAll topic
        s.reports texts ++ later
      else later
    | _ => later

/-- What the gateway reports while a simulation settles, of the completions that come back. -/
def reported (x : Simulation) : List (ActivationId × Resolution) :=
  reportsOver x.worked.tasks x.worked

/-- The activations of which the gateway then reports a duplicate. -/
def duplicates (x : Simulation) : List ActivationId :=
  x.reported.filterMap fun (a, r) =>
    match r with
    | .duplicate => some a
    | .completed _ _ => none

theorem mem_duplicates {a : ActivationId} (member : a ∈ x.duplicates) :
    (a, .duplicate) ∈ x.reported := by
  obtain ⟨⟨b, r⟩, reported, own⟩ := List.mem_filterMap.mp member
  cases r with
  | completed activation result => cases own
  | duplicate => exact Option.some.inj own ▸ reported

/-- A completion that is taken in is no longer underway, and it finds its activation in flight
unless that has lapsed. -/
theorem attended_message {text : Bytes} {u : ActivationId → Nat}
    (attended : Attended lapsed s.gateway fun a => u a + mentions a Completion.topic [text]) :
    Attended lapsed (s.consumeMessage Completion.topic text).gateway u ∧
      ∀ c, Completion.codec.decode text = .ok c →
        (s.gateway.processCompletion c s.calendar).2 = .duplicate → lapsed c.id := by
  have le : ∀ a, u a ≤ u a + mentions a Completion.topic [text] := fun a => Nat.le_add_right _ _
  rw [consumeMessage, if_pos rfl]
  cases decoded : Completion.codec.decode text with
  | error f => exact ⟨attended.same rfl (Nat.le_refl _) rfl le, fun c read => by cases read⟩
  | ok c =>
      have mentioned : mentions c.id Completion.topic [text] = 1 := by
        rw [mentions_singleton, about_completed, decoded]
        exact if_pos rfl
      have single := attended.single c.id
      have held := attended.held c.id
      simp only [mentioned] at single held
      simp only [Except.ok.injEq, forall_eq', modifyGateway, Gateway.processCompletion]
      cases pending : Table.get? c.id s.gateway.flight.pending with
      | none =>
          rw [InFlight.resolve_of_absent pending]
          refine ⟨attended.same rfl (Nat.le_refl _) rfl le, fun _ => ?_⟩
          have lapsed := held (Nat.succ_pos _)
          rw [pending] at lapsed
          exact lapsed.resolve_left Bool.false_ne_true
      | some r =>
          rw [InFlight.resolve_of_pending pending]
          have left : ∀ a, Table.get? a (Table.erase c.id s.gateway.flight.pending) =
              if c.id = a then none else Table.get? a s.gateway.flight.pending := fun a =>
            Table.get?_erase _ _ _
          refine ⟨attended.fewer rfl (Nat.le_refl _) (fun a r there => ?_) le
            fun a more there => ?_, fun same => by cases same⟩
          · replace there : Table.get? a (Table.erase c.id s.gateway.flight.pending) = some r :=
              there
            rw [left a] at there
            split at there
            · cases there
            · exact there
          · have other : c.id ≠ a := by
              rintro rfl
              omega
            refine .inl ?_
            show (Table.get? a (Table.erase c.id s.gateway.flight.pending)).isSome
            rw [left a, if_neg other]
            exact there

/-- **Completions that are taken in one after the other find their activations in flight, unless
those have lapsed.** -/
theorem attended_messages {texts : List Bytes} {u : ActivationId → Nat}
    (attended : Attended lapsed s.gateway fun a => u a + mentions a Completion.topic texts) :
    Attended lapsed (texts.foldl (consumeMessage Completion.topic) s).gateway u ∧
      ∀ a, (a, .duplicate) ∈ s.reports texts → lapsed a := by
  induction texts generalizing s with
  | nil => exact ⟨attended, nofun⟩
  | cons text rest ih =>
      have parted : ∀ a, mentions a Completion.topic (text :: rest) =
          mentions a Completion.topic rest + mentions a Completion.topic [text] := fun a =>
        (mentions_append a _ [text] rest).trans (Nat.add_comm _ _)
      simp only [parted, ← Nat.add_assoc] at attended
      obtain ⟨after, first⟩ := attended_message attended
      obtain ⟨last, later⟩ := ih after
      refine ⟨last, fun a reported => ?_⟩
      unfold reports at reported
      cases decoded : Completion.codec.decode text with
      | error f =>
          rw [decoded] at reported
          exact later a reported
      | ok c =>
          rw [decoded] at reported
          rcases List.mem_cons.mp reported with same | member
          · obtain ⟨rfl, duplicate⟩ := Prod.mk.inj same
            exact first c decoded duplicate.symm
          · exact later a member

/-- Whatever else is consumed is about no activation in flight. -/
theorem eases_heartbeats {topic : String} (apart : topic ≠ Completion.topic) (texts : List Bytes)
    (s : Simulation) : Eases s (s.consumeAll topic texts) := by
  refine consumeAll_keeps (P := Eases s) ?_ ?_ texts (.refl s)
  · intro x text eases
    refine eases.trans ?_
    obtain ⟨gateway, same, rfl | ⟨own, -⟩ | ⟨h, rfl⟩⟩ := consumeMessage_eq topic text x
    · rw [same]
      exact .refl x
    · exact absurd own apart
    · rw [same]
      exact eases_spares (Gateway.spares_heartbeat _ h x.now) rfl rfl
  · intro x eases
    exact eases.trans (eases_spares
      (Gateway.spares_bus fun id => Bus.copies_drop_le id _ topic) rfl rfl)

/-- Whoever takes in completions never breaks off. -/
theorem consumeAll_completions (texts : List Bytes) (s : Simulation) :
    s.consumeAll Completion.topic texts = texts.foldl (consumeMessage Completion.topic) s := by
  induction texts generalizing s with
  | nil => rfl
  | cons text rest ih =>
      have goes : s.breaksOff Completion.topic text = false := if_pos rfl
      rw [consumeAll, goes, if_neg Bool.false_ne_true, ih, List.foldl_cons]

theorem underway_consumed (topic : String) (texts : List Bytes) (s : Simulation) :
    (texts.foldl (consumeMessage topic) s).underway = s.underway := by
  induction texts generalizing s with
  | nil => rfl
  | cons text rest ih =>
      obtain ⟨gateway, same, -⟩ := consumeMessage_eq topic text s
      have bus := consumeMessage_bus topic text s
      rw [List.foldl_cons, ih]
      rw [same] at bus ⊢
      funext a
      exact congrArg (·.copies a + _) bus

/-- All messages of a topic are taken. -/
def taken (topic : String) (s : Simulation) : Simulation :=
  s.modifyGateway fun g => { g with bus := emptied topic g.bus }

theorem underway_taken (topic : String) (s : Simulation) (a : ActivationId) :
    (s.taken topic).underway a + mentions a topic (s.gateway.bus.topic topic).queue =
      s.underway a := by
  have emptied := emptied_copies a topic s.gateway.bus
  show Bus.copies a _ + _ + _ = s.gateway.bus.copies a + _
  rw [← emptied]
  exact Nat.add_right_comm _ _ _

/-- Consumers keep the books, and report no duplicate but of activations that have lapsed. -/
theorem attended_tasks {entries : Table String Task}
    (attended : Attended lapsed s.gateway s.underway) :
    let last := entries.foldl (fun s entry => consume entry.1 entry.2 s) s
    Attended lapsed last.gateway last.underway ∧
      ∀ a, (a, .duplicate) ∈ reportsOver entries s → lapsed a := by
  induction entries generalizing s with
  | nil => exact ⟨attended, nofun⟩
  | cons entry rest ih =>
      obtain ⟨topic, t⟩ := entry
      cases t with
      | consumer =>
          let texts := (s.gateway.bus.topic topic).queue
          have consumed : s.consume topic .consumer = (s.taken topic).consumeAll topic texts := by
            simp only [consume, takeAll_eq]
            rfl
          have shed := underway_taken topic s
          by_cases own : topic = Completion.topic
          · subst own
            have hand : Attended lapsed (s.taken Completion.topic).gateway fun a =>
                (s.taken Completion.topic).underway a + mentions a Completion.topic texts :=
              attended.same rfl (Nat.le_refl _) rfl fun a => Nat.le_of_eq (shed a)
            obtain ⟨after, first⟩ := attended_messages hand
            rw [← underway_consumed Completion.topic texts, ← consumeAll_completions,
              ← consumed] at after
            obtain ⟨last, later⟩ := ih after
            refine ⟨last, fun a reported => ?_⟩
            simp only [reportsOver, if_true, takeAll_eq] at reported
            exact (List.mem_append.mp reported).elim (first a) (later a)
          · have eases : Eases s (s.taken topic) :=
              ⟨rfl, rfl, rfl, fun a => Nat.le_of_add_right_le (Nat.le_of_eq (shed a))⟩
            have after := attended_eases attended (eases.trans (eases_heartbeats own texts _))
            rw [← consumed] at after
            obtain ⟨last, later⟩ := ih after
            refine ⟨last, fun a reported => later a ?_⟩
            simp only [reportsOver, if_neg own] at reported
            exact reported
      | invoker | idle => exact ih attended

/-- **While a simulation settles, its gateway reports no duplicate but of activations that have
timed out by then.** -/
theorem attended_burst (onset : Onset True s x)
    (attended : Attended lapsed s.gateway s.underway) :
    Attended (fun a => lapsed a ∨ x.TimesOut a) x.settle.gateway x.settle.underway ∧
      ∀ a ∈ x.duplicates, lapsed a ∨ x.TimesOut a := by
  have begun : Attended lapsed x.gateway x.underway := by
    have grown (a : ActivationId) : x.underway a + s.gateway.bus.copies a =
        s.underway a + x.gateway.bus.copies a := by
      rw [underway, underway, onset.sleepers]
      omega
    rcases onset.feeds trivial with spares | ⟨r, submitted⟩
    · exact attended_eases attended (eases_spares spares onset.sleepers rfl)
    · rw [submitted] at grown ⊢
      exact attended.submit r _ _ fun a => Nat.le_of_eq (grown a)
  have worked := attended_worked onset.regular onset.ready begun
  obtain ⟨last, reports⟩ := attended_tasks (s := x.worked) worked
  refine ⟨?_, fun a duplicate => reports a (mem_duplicates duplicate)⟩
  obtain ⟨gateway, sleepers⟩ := settle_proceed x
  have underway : x.settle.underway = x.proceed.underway := by
    funext a
    rw [Simulation.underway, Simulation.underway, gateway, sleepers]
  rw [gateway, underway, proceed_eq]
  exact last

/-- **Over a run, no duplicate is reported but of activations that have timed out by then.** -/
theorem timed_out_of_duplicate {xs before after : List Simulation} {t : Simulation}
    (passes : Passes True s xs t) (attended : Attended lapsed s.gateway s.underway)
    (parted : xs = before ++ x :: after) {a : ActivationId}
    (duplicate : a ∈ x.duplicates) :
    lapsed a ∨ ∃ y ∈ before ++ [x], y.TimesOut a := by
  induction before generalizing s xs lapsed with
  | nil =>
      subst parted
      obtain ⟨-, lapsed⟩ := attended_burst passes.1 attended
      exact (lapsed a duplicate).imp_right fun timesOut => ⟨x, List.mem_singleton_self x, timesOut⟩
  | cons z rest ih =>
      subst parted
      obtain ⟨settled, -⟩ := attended_burst passes.1 attended
      rcases ih passes.2 settled rfl with (lapsed | timesOut) | ⟨y, member, timesOut⟩
      · exact .inl lapsed
      · exact .inr ⟨z, List.mem_cons_self, timesOut⟩
      · exact .inr ⟨y, List.mem_cons_of_mem z member, timesOut⟩

/-- To begin with nothing is in flight or underway. -/
theorem attended_new (config : Config) (store : Store) (capacity : Nat)
    {mint : Nat → ActivationId} (supply : Function.Injective mint) (timer : SleepTimer) :
    let s := Simulation.new (.new config store (.new capacity) mint) timer
    Attended (fun _ => False) s.gateway s.underway where
  supply := supply
  known := nofun
  issued _ there := absurd there (Nat.lt_irrefl 0)
  single _ := Nat.zero_le 1
  held _ there := absurd there (Nat.lt_irrefl 0)

/-- **A simulated invoker completes each activation once.** In any run of a new gateway, whatever
timer the sleeps are left to:

* if the topic of completions is open and never full, then at every time each invoker has published
  exactly the completions that are owed until then for the texts that it got, each of them once: for
  every text that is an activation the completion that names the activation, the invoker and the
  time that it asked to sleep, when its sleep is over;
* its sleep is over when as much time has passed as it asked for exactly if the timer keeps a sleep
  of that length;
* a running invoker gets a text at once when its topic accepts it;
* if identifiers are given out once, and no message about an activation and no completion comes from
  outside, a completion that comes back is reported as a duplicate only if its activation has timed
  out by then. -/
theorem simulated_work_once (config : Config) (store : Store) (capacity : Nat)
    (mint : Nat → ActivationId) (timer : SleepTimer) (ops : List Op) :
    let s := Simulation.new (.new config store (.new capacity) mint) timer
    (∀ id : InvokerId, (∀ x ∈ s.runBursts ops, x.Roomy) → ∀ t ≤ (s.run ops).now,
      (((s.runBursts ops).flatMap (publishedBy id)).filter (·.1 ≤ t)).Perm
        ((((s.runBursts ops).flatMap (delivered id)).filterMap (owed timer id)).filter
          (·.1 ≤ t))) ∧
    (∀ (id : InvokerId) (t : Instant) (text : Bytes) (m : ActivationMessage),
      ActivationMessage.codec.decode text = .ok m →
      ∃ due, owed timer id (t, text) = some (due, m.wellRested id) ∧
        (due.nanos = t.nanos + 1_000_000 * SimulatedInvoker.sleepMillis m.content ↔
          timer.lasts m.nap = m.nap)) ∧
    (∀ (id : InvokerId) (text : Bytes), (s.run ops).runs id →
      ((s.run ops).gateway.bus.publish id.topic text).isOk →
      ((s.run ops).bursts (.publish id.topic text)).flatMap (delivered id) =
        [((s.run ops).now, text)]) ∧
    (Function.Injective mint → (∀ op ∈ ops, op.Genuine) →
      ∀ before x after, s.runBursts ops = before ++ x :: after →
      ∀ a ∈ x.duplicates, ∃ y ∈ before ++ [x], y.TimesOut a) := by
  intro s
  have sound : Sound s := sound_new _ _ rfl
  refine ⟨fun id roomy t le => ?_, fun id t text m read => owed_of_read timer id t read,
    fun id text runs accepted => ?_, ?_⟩
  · exact published_until sound rfl ops roomy id le
  · exact delivered_publish (sound_run sound ops) runs accepted
  · intro supply genuine before x after parted a duplicate
    have passes : Passes True s (s.runBursts ops) (s.run ops) :=
      (passes_run sound ops).mono fun _ => genuine
    exact (timed_out_of_duplicate passes (attended_new config store capacity supply timer) parted
      duplicate).resolve_left id

/-- A request that asks for so many milliseconds of sleep. -/
def demoNap (millis : Nat) : Request :=
  { Gateway.demoRequest with payload := .object [("sleepTimeInMs", .ofNat millis)] }

/-- The demonstration gateway hears of an invoker, and one is simulated with so much time between
two heartbeats. -/
def demoHiring (every : Duration) : List Op :=
  [.heartbeat ⟨⟨0⟩, ⟨1024, 0, 4, 0⟩, 0, .up⟩, .startInvoker ⟨0⟩ ⟨1024, 0, 4, 0⟩ every]

/-- Completions come back, of two activations side by side. The first sleeps beyond its deadline,
which is two minutes after it was submitted, the second for a second. -/
def demoShift : List Op :=
  .startConsumer Completion.topic :: demoHiring (.ofSecs 1_000) ++
    [.submit (demoNap 130_000), .submit (demoNap 1_000), .advance (.ofSecs 200)]

/-- Both are completed, each in its time, and the first is reported as a duplicate: it has timed
out. -/
theorem simulated_work_once_demoShift :
    let s := Simulation.new Gateway.demo .standard
    let bursts := s.runBursts demoShift
    (∀ x ∈ bursts, x.Roomy) ∧
    (bursts.flatMap (delivered ⟨0⟩)).map
        (fun d => (owed .standard ⟨0⟩ d).map fun c => (c.1, c.2.id)) =
      [some (.ofMillis 130_000, Gateway.counting 0), some (.ofMillis 1_000, Gateway.counting 1)] ∧
    ((bursts.flatMap (publishedBy ⟨0⟩)).filter (·.1 ≤ .ofMillis 200_000)).Perm
      (((bursts.flatMap (delivered ⟨0⟩)).filterMap (owed .standard ⟨0⟩)).filter
        (·.1 ≤ .ofMillis 200_000)) ∧
    ((s.run demoShift).bursts (.publish (InvokerId.topic ⟨0⟩) [])).flatMap (delivered ⟨0⟩) =
      [((s.run demoShift).now, [])] ∧
    (∀ op ∈ demoShift, op.Genuine) ∧
    ∃ x ∈ bursts, Gateway.counting 0 ∈ x.duplicates ∧
      ∃ y ∈ bursts, y.TimesOut (Gateway.counting 0) := by
  intro s bursts
  obtain ⟨roomy, owes, x, member, duplicate⟩ :
      (∀ x ∈ bursts, x.Roomy) ∧
      (bursts.flatMap (delivered ⟨0⟩)).map
          (fun d => (owed .standard ⟨0⟩ d).map fun c => (c.1, c.2.id)) =
        [some (.ofMillis 130_000, Gateway.counting 0),
          some (.ofMillis 1_000, Gateway.counting 1)] ∧
      ∃ x ∈ bursts, Gateway.counting 0 ∈ x.duplicates := by decide +kernel
  obtain ⟨published, -, delivers, lapsed⟩ := simulated_work_once .standard
    (Standalone.seedAll Standalone.demoActions (.new .standard)).1 2 Gateway.counting .standard
    demoShift
  have genuine : ∀ op ∈ demoShift, op.Genuine := by
    simp [demoShift, demoHiring, Op.Genuine]
  obtain ⟨before, after, parted⟩ := List.append_of_mem member
  obtain ⟨y, behind, timesOut⟩ :=
    lapsed Gateway.counting_injective genuine before x after parted _ duplicate
  have among : y ∈ before ++ x :: after := by
    rw [List.append_cons]
    exact List.mem_append_left after behind
  refine ⟨roomy, owes, published ⟨0⟩ roomy _ ?late, delivers ⟨0⟩ [] ?runs ?accepts, genuine, x,
    member, duplicate, y, parted ▸ among, timesOut⟩
  case late | runs | accepts => decide +kernel

/-- **The standard timer wakes whoever sleeps longer than it can count.** The only text that the
invoker gets, at the beginning, asks for as many milliseconds of sleep as a word can name, and the
completion of its activation is published after thirty years. -/
theorem woken_after_thirty_years :
    let bursts := (Simulation.new Gateway.demo .standard).runBursts
      (demoHiring (.ofSecs 3_784_320_000) ++
        [.submit (demoNap 18_446_744_073_709_551_615), .advance (.ofSecs 946_080_000)])
    (∀ x ∈ bursts, x.Roomy) ∧
    ∃ text m c, bursts.flatMap (delivered ⟨0⟩) = [(.origin, text)] ∧
      ActivationMessage.codec.decode text = .ok m ∧
      bursts.flatMap (publishedBy ⟨0⟩) = [(.ofMillis 946_080_000_000, c)] ∧ c.id = m.id ∧
      946_080_000_000 < SimulatedInvoker.sleepMillis m.content := by
  intro bursts
  obtain ⟨roomy, got, gave⟩ :
      (∀ x ∈ bursts, x.Roomy) ∧
      (bursts.flatMap (delivered ⟨0⟩)).map (fun d => (d.1,
          (ActivationMessage.codec.decode d.2).toOption.map fun m =>
            (m.id, SimulatedInvoker.sleepMillis m.content))) =
        [(.origin, some (Gateway.counting 0, 18_446_744_073_709_551_615))] ∧
      (bursts.flatMap (publishedBy ⟨0⟩)).map (fun p => (p.1, p.2.id)) =
        [(.ofMillis 946_080_000_000, Gateway.counting 0)] := by decide +kernel
  obtain ⟨⟨start, text⟩, delivered, read⟩ := List.map_eq_singleton_iff.mp got
  obtain ⟨⟨t, c⟩, published, told⟩ := List.map_eq_singleton_iff.mp gave
  obtain ⟨rfl, named⟩ := Prod.mk.inj read
  obtain ⟨rfl, completed⟩ := Prod.mk.inj told
  cases decoded : ActivationMessage.codec.decode text with
  | error f =>
      rw [decoded] at named
      cases named
  | ok m =>
      rw [decoded] at named
      obtain ⟨own, asked⟩ := Prod.mk.inj (Option.some.inj named)
      refine ⟨roomy, text, m, c, delivered, decoded, published, completed.trans own.symm, ?_⟩
      rw [asked]
      decide

end Simulation

end Dispatch
