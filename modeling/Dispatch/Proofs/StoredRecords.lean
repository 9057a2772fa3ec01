import Dispatch.Proofs.StoredNames

/-!
# The store is a map

A store that is used through its calls alone behaves as a map from keys to actions: what is found
under a key is the action that was put there last, field by field, of those that the bounds of the
day admitted (`refines_map`). `Mirrors` ties the records to the actions that were accepted so far.
A put may extend both and a change of bounds moves neither, so an action stays readable under bounds
that would refuse it now.
-/

set_option autoImplicit false

namespace Dispatch

namespace LimitBounds

variable {b : LimitBounds} {l : ActionLimits}

/-- Limits within the bounds; the bounds belong to them. -/
def Admits (b : LimitBounds) (l : ActionLimits) : Prop :=
  (b.minMemory ≤ l.memory ∧ l.memory ≤ b.maxMemory) ∧
    b.minTimeout ≤ l.timeout ∧ l.timeout ≤ b.maxTimeout

instance (b : LimitBounds) (l : ActionLimits) : Decidable (b.Admits l) :=
  inferInstanceAs (Decidable (_ ∧ _))

theorem admits_iff : b.Admits l ↔ b.fault? l = none := by
  have memory : (b.minMemory ≤ l.memory ∧ l.memory ≤ b.maxMemory) ↔
      ¬(l.memory < b.minMemory ∨ b.maxMemory < l.memory) := by
    rw [not_or, UInt64.not_lt, UInt64.not_lt]
  have timeout : (b.minTimeout ≤ l.timeout ∧ l.timeout ≤ b.maxTimeout) ↔
      ¬(l.timeout < b.minTimeout ∨ b.maxTimeout < l.timeout) :=
    (not_or.trans (and_congr Nat.not_lt Nat.not_lt)).symm
  rw [Admits, memory, timeout, fault?]
  split
  · rename_i outside
    exact iff_of_false (fun within => within.1 outside) nofun
  · rename_i inside
    split
    · rename_i outside
      exact iff_of_false (fun within => within.2 outside) nofun
    · rename_i timely
      exact iff_of_true ⟨inside, timely⟩ rfl

end LimitBounds

namespace Store

/-! ## Calls and what they answer -/

/-- A call of a store. -/
inductive Call where
  | put (a : Action)
  | find (key : String)
  | get (name : QualifiedName)
  /-- The store is closed and opened again with these bounds. -/
  | reopen (bounds : LimitBounds)

/-- What a call answers. -/
inductive Reply where
  | put (outcome : Except StoreFault Unit)
  | found (outcome : Except StoreFault (Option Action))
  | got (outcome : Except StoreFault Action)
  | reopened

/-- The store after a call, and the answer. -/
def respond (s : Store) : Call → Store × Reply
  | .put a => (s.step (.put a), .put ((s.put a).map fun _ => ()))
  | .find key => (s, .found (s.find key))
  | .get name => (s, .got (s.get name))
  | .reopen bounds => (s.step (.reopen bounds), .reopened)

/-- The store after calls. -/
def serve (s : Store) (calls : List Call) : Store :=
  calls.foldl (fun s call => (s.respond call).1) s

/-! ## What the calls say by themselves -/

/-- The bounds in force after calls. -/
def inForce (bounds : LimitBounds) : List Call → LimitBounds
  | [] => bounds
  | .reopen other :: rest => inForce other rest
  | .put _ :: rest | .find _ :: rest | .get _ :: rest => inForce bounds rest

/-- The actions that were put within the bounds in force, in the order of the calls. -/
def accepted (bounds : LimitBounds) : List Call → List Action
  | [] => []
  | .put a :: rest =>
    if bounds.Admits a.limits then a :: accepted bounds rest else accepted bounds rest
  | .reopen other :: rest => accepted other rest
  | .find _ :: rest | .get _ :: rest => accepted bounds rest

/-- The last of some actions that has a key. -/
def lastUnder? (key : String) (filed : List Action) : Option Action :=
  (filed.filter (·.key = key)).getLast?

theorem lastUnder?_concat (key : String) (filed : List Action) (a : Action) :
    lastUnder? key (filed ++ [a]) = if a.key = key then some a else lastUnder? key filed := by
  rw [lastUnder?, List.filter_append]
  by_cases own : a.key = key
  · rw [List.filter_cons_of_pos (by simpa using own), List.filter_nil, List.getLast?_concat,
      if_pos own]
  · rw [List.filter_cons_of_neg (by simpa using own), List.filter_nil, List.append_nil, if_neg own,
      lastUnder?]

/-! ## The records and the accepted actions -/

/-- The store has these bounds, and under each key the record of the last action with that key; its
medium delivers every record. -/
structure Mirrors (s : Store) (bounds : LimitBounds) (filed : List Action) : Prop where
  bounds : s.bounds = bounds
  delivers : s.outages = []
  records : ∀ key, Table.get? key s.records = (lastUnder? key filed).map Action.codec.encode

section Mirrors

variable {s : Store} {bounds : LimitBounds} {filed : List Action}

theorem mirrors_new (bounds : LimitBounds) : Mirrors (new bounds) bounds [] :=
  ⟨rfl, rfl, fun _ => rfl⟩

theorem Mirrors.find (mirrors : Mirrors s bounds filed) (key : String) :
    s.find key = .ok (lastUnder? key filed) := by
  rw [Store.find, mirrors.delivers, mirrors.records]
  cases lastUnder? key filed with
  | none => rfl
  | some a => simp only [Table.get?, Option.map_some, Action.decode_encode]

theorem Mirrors.get (mirrors : Mirrors s bounds filed) (name : QualifiedName) :
    s.get name = (lastUnder? name.text filed).elim (.error ⟨.finding, name.text⟩) .ok := by
  rw [Store.get, mirrors.find]
  cases lastUnder? name.text filed <;> rfl

/-- A put within the bounds files the action behind the others. -/
theorem Mirrors.put (mirrors : Mirrors s bounds filed) {a : Action}
    (admits : bounds.Admits a.limits) :
    ∃ after, s.put a = .ok after ∧ Mirrors after bounds (filed ++ [a]) := by
  have within : s.bounds.fault? a.limits = none := by
    rw [mirrors.bounds]
    exact LimitBounds.admits_iff.mp admits
  refine ⟨s.writeRaw a.key (Action.codec.encode a), by rw [Store.put, within],
    mirrors.bounds, mirrors.delivers, fun key => ?_⟩
  rw [writeRaw, Table.get?_set, lastUnder?_concat, mirrors.records]
  split <;> rfl

/-- A put outside the bounds is refused for its limits. -/
theorem Mirrors.put_refused (mirrors : Mirrors s bounds filed) {a : Action}
    (outside : ¬bounds.Admits a.limits) : ∃ detail, s.put a = .error ⟨.checking, detail⟩ := by
  cases fault : s.bounds.fault? a.limits with
  | none =>
      rw [mirrors.bounds] at fault
      exact absurd (LimitBounds.admits_iff.mpr fault) outside
  | some f => exact ⟨f.detail, by rw [Store.put, fault]; rfl⟩

/-- **Every call keeps the records those of the accepted actions.** -/
theorem Mirrors.respond (mirrors : Mirrors s bounds filed) (call : Call) :
    Mirrors (s.respond call).1 (inForce bounds [call]) (filed ++ accepted bounds [call]) := by
  cases call with
  | put a =>
      by_cases admits : bounds.Admits a.limits
      · obtain ⟨after, stored, mirrors⟩ := mirrors.put admits
        rw [accepted, if_pos admits, Store.respond, step, stored]
        exact mirrors
      · obtain ⟨detail, refused⟩ := mirrors.put_refused admits
        rw [accepted, if_neg admits, Store.respond, step, refused, accepted, List.append_nil]
        exact mirrors
  | find | get =>
      rw [accepted, accepted, List.append_nil]
      exact mirrors
  | reopen other =>
      rw [accepted, accepted, List.append_nil]
      exact ⟨rfl, mirrors.delivers, mirrors.records⟩

theorem inForce_cons (bounds : LimitBounds) (call : Call) (calls : List Call) :
    inForce bounds (call :: calls) = inForce (inForce bounds [call]) calls := by
  cases call <;> rfl

theorem accepted_cons (bounds : LimitBounds) (call : Call) (calls : List Call) :
    accepted bounds (call :: calls) =
      accepted bounds [call] ++ accepted (inForce bounds [call]) calls := by
  cases call with
  | put a =>
      simp only [accepted, inForce]
      split <;> rfl
  | find | get | reopen => rfl

theorem Mirrors.serve (mirrors : Mirrors s bounds filed) (calls : List Call) :
    Mirrors (s.serve calls) (inForce bounds calls) (filed ++ accepted bounds calls) := by
  induction calls generalizing s bounds filed with
  | nil =>
      rw [accepted, List.append_nil]
      exact mirrors
  | cons call calls ih =>
      rw [inForce_cons, accepted_cons, ← List.append_assoc]
      exact ih (mirrors.respond call)

end Mirrors

/-- **A store is a map from keys to actions.** After any calls of a new store, a look-up under a key
finds the very action that was put there last, among those accepted, and none where there is none;
neither look-up changes the store. A put is accepted exactly if its limits are within the bounds in
force; one that is refused is refused for its limits and leaves the store as it was. Opening the
store again, with any bounds, changes no look-up. -/
theorem refines_map (bounds : LimitBounds) (calls : List Call) :
    let s := (new bounds).serve calls
    let filed := accepted bounds calls
    (∀ key, s.respond (.find key) = (s, .found (.ok (lastUnder? key filed)))) ∧
    (∀ name, s.respond (.get name) =
      (s, .got (match lastUnder? name.text filed with
        | some a => .ok a
        | none => .error ⟨.finding, name.text⟩))) ∧
    (∀ a, (inForce bounds calls).Admits a.limits → (s.respond (.put a)).2 = .put (.ok ())) ∧
    (∀ a, ¬(inForce bounds calls).Admits a.limits →
      ∃ detail, s.respond (.put a) = (s, .put (.error ⟨.checking, detail⟩))) ∧
    (∀ other key, (s.respond (.reopen other)).1.find key = s.find key) := by
  intro s filed
  have mirrors : Mirrors s (inForce bounds calls) filed := (mirrors_new bounds).serve calls
  refine ⟨fun key => ?_, fun name => ?_, fun a admits => ?_, fun a outside => ?_, fun _ _ => rfl⟩
  · rw [respond, mirrors.find]
  · rw [respond, mirrors.get]
    cases lastUnder? name.text filed <;> rfl
  · obtain ⟨after, stored, -⟩ := mirrors.put admits
    rw [respond, stored]
    rfl
  · obtain ⟨detail, refused⟩ := mirrors.put_refused outside
    refine ⟨detail, ?_⟩
    rw [respond, step, refused]
    rfl

end Store

end Dispatch
