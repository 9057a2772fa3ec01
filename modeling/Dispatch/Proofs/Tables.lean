import Dispatch.Table

/-!
# Laws of tables

A table whose keys are distinct is a finite map that also remembers an order. An update at a new
key goes to the end, and taking that key out again restores the very list (`erase_set_of_fresh`);
writing an entry back changes nothing (`set_of_get?`). `total` adds up a weight over all entries,
and `total_set_of_fresh` and `total_erase` say by how much an update moves it.
-/

set_option autoImplicit false

namespace Dispatch.Table

variable {κ α : Type}

/-- No key has two entries. -/
def Distinct (t : Table κ α) : Prop := (t.map (·.1)).Nodup

/-- The sum of a weight over all entries. -/
def total (weight : α → Nat) : Table κ α → Nat
  | [] => 0
  | entry :: rest => weight entry.2 + total weight rest

theorem distinct_nil : Distinct ([] : Table κ α) := List.nodup_nil

theorem distinct_cons {entry : κ × α} {rest : Table κ α} :
    Distinct (entry :: rest) ↔ entry.1 ∉ rest.map (·.1) ∧ Distinct rest := List.nodup_cons

theorem total_cons (weight : α → Nat) (entry : κ × α) (rest : Table κ α) :
    total weight (entry :: rest) = weight entry.2 + total weight rest := rfl

theorem total_append (weight : α → Nat) (s t : Table κ α) :
    total weight (s ++ t) = total weight s + total weight t := by
  induction s with
  | nil => exact (Nat.zero_add _).symm
  | cons entry rest ih => rw [List.cons_append, total_cons, total_cons, ih, Nat.add_assoc]

/-- A weight that counts is a count. -/
theorem countP_eq_total (p : α → Bool) (t : Table κ α) :
    t.countP (fun entry => p entry.2) = total (fun a => if p a then 1 else 0) t := by
  induction t with
  | nil => rfl
  | cons entry rest ih =>
      rw [List.countP_cons, total_cons, ih]
      exact Nat.add_comm _ _

variable [DecidableEq κ]

theorem get?_eq_none_iff {key : κ} {t : Table κ α} : get? key t = none ↔ key ∉ t.map (·.1) := by
  induction t with
  | nil => simp [get?]
  | cons entry rest ih =>
      obtain ⟨k, b⟩ := entry
      by_cases same : k = key
      · simp [get?, same]
      · rw [get?, if_neg same, ih]
        simp [Ne.symm same]

theorem mem_of_get? {key : κ} {a : α} {t : Table κ α} (found : get? key t = some a) :
    (key, a) ∈ t := by
  induction t with
  | nil => cases found
  | cons entry rest ih =>
      obtain ⟨k, b⟩ := entry
      rw [get?] at found
      split at found
      · rename_i same
        obtain rfl := Option.some.inj found
        exact same ▸ List.mem_cons_self
      · exact List.mem_cons_of_mem _ (ih found)

theorem get?_of_mem {key : κ} {a : α} {t : Table κ α} (distinct : Distinct t)
    (member : (key, a) ∈ t) : get? key t = some a := by
  induction t with
  | nil => cases member
  | cons entry rest ih =>
      obtain ⟨apart, distinct⟩ := distinct_cons.mp distinct
      rcases List.mem_cons.mp member with rfl | later
      · exact if_pos rfl
      · have ne : entry.1 ≠ key := fun same =>
          apart (List.mem_map.mpr ⟨(key, a), later, same.symm⟩)
        exact (if_neg ne).trans (ih distinct later)

theorem get?_map (key : κ) (f : α → α) (t : Table κ α) :
    get? key (t.map fun (k, a) => (k, f a)) = (get? key t).map f := by
  induction t with
  | nil => rfl
  | cons entry rest ih =>
      rw [List.map_cons, get?, get?, ih]
      split <;> rfl

theorem mem_keys_set {key other : κ} {value : α} {t : Table κ α} :
    other ∈ (set key value t).map (·.1) ↔ other = key ∨ other ∈ t.map (·.1) := by
  induction t with
  | nil => simp [set]
  | cons entry rest ih =>
      obtain ⟨k, b⟩ := entry
      by_cases same : k = key
      · simp [set, same]
      · rw [set, if_neg same, List.map_cons, List.mem_cons, ih, List.map_cons, List.mem_cons]
        exact or_left_comm

theorem mem_of_mem_set {key : κ} {value : α} {t : Table κ α} {entry : κ × α}
    (member : entry ∈ set key value t) : entry = (key, value) ∨ entry ∈ t := by
  induction t with
  | nil => exact .inl (List.mem_singleton.mp member)
  | cons first rest ih =>
      obtain ⟨k, b⟩ := first
      rw [set] at member
      split at member
      · exact (List.mem_cons.mp member).imp_right (List.mem_cons_of_mem _)
      · rcases List.mem_cons.mp member with rfl | later
        · exact .inr List.mem_cons_self
        · exact (ih later).imp_right (List.mem_cons_of_mem _)

theorem distinct_set {t : Table κ α} (distinct : Distinct t) (key : κ) (value : α) :
    Distinct (set key value t) := by
  induction t with
  | nil => simp [Distinct, set]
  | cons entry rest ih =>
      obtain ⟨k, b⟩ := entry
      obtain ⟨absent, distinct⟩ := distinct_cons.mp distinct
      by_cases same : k = key
      · rw [set, if_pos same]
        exact distinct_cons.mpr ⟨same ▸ absent, distinct⟩
      · rw [set, if_neg same]
        refine distinct_cons.mpr ⟨?_, ih distinct⟩
        rw [mem_keys_set, not_or]
        exact ⟨same, absent⟩

theorem erase_eq_filter (key : κ) (t : Table κ α) :
    erase key t = t.filter fun entry => entry.1 ≠ key := by
  induction t with
  | nil => rfl
  | cons entry rest ih =>
      obtain ⟨k, b⟩ := entry
      by_cases same : k = key
      · simp [erase, same, ih]
      · simp [erase, same, ih]

theorem mem_of_mem_erase {key : κ} {t : Table κ α} {entry : κ × α}
    (member : entry ∈ erase key t) : entry ∈ t := by
  rw [erase_eq_filter] at member
  exact (List.mem_filter.mp member).1

theorem distinct_erase {t : Table κ α} (distinct : Distinct t) (key : κ) :
    Distinct (erase key t) := by
  rw [erase_eq_filter]
  exact distinct.sublist (List.filter_sublist.map _)

/-! ## Updates that cancel -/

theorem set_set (key : κ) (first second : α) (t : Table κ α) :
    set key second (set key first t) = set key second t := by
  induction t with
  | nil => simp [set]
  | cons entry rest ih =>
      obtain ⟨k, b⟩ := entry
      by_cases same : k = key
      · simp [set, same]
      · simp [set, same, ih]

/-- Writing an entry back changes nothing. -/
theorem set_of_get? {key : κ} {a : α} {t : Table κ α} (found : get? key t = some a) :
    set key a t = t := by
  induction t with
  | nil => simp [get?] at found
  | cons entry rest ih =>
      obtain ⟨k, b⟩ := entry
      by_cases same : k = key
      · rw [get?, if_pos same, Option.some.injEq] at found
        rw [set, if_pos same, ← same, found]
      · rw [get?, if_neg same] at found
        rw [set, if_neg same, ih found]

/-- A new key goes to the end. -/
theorem set_of_fresh {key : κ} {t : Table κ α} (fresh : get? key t = none) (value : α) :
    set key value t = t ++ [(key, value)] := by
  induction t with
  | nil => rfl
  | cons entry rest ih =>
      obtain ⟨k, b⟩ := entry
      by_cases same : k = key
      · simp [get?, same] at fresh
      · rw [get?, if_neg same] at fresh
        rw [set, if_neg same, ih fresh, List.cons_append]

theorem erase_of_fresh {key : κ} {t : Table κ α} (fresh : get? key t = none) :
    erase key t = t := by
  rw [erase_eq_filter, List.filter_eq_self]
  intro entry member
  have absent := get?_eq_none_iff.mp fresh
  exact decide_eq_true fun same => absent (same ▸ List.mem_map_of_mem member)

/-- What was added at a new key can be taken out without a trace. -/
theorem erase_set_of_fresh {key : κ} {t : Table κ α} (fresh : get? key t = none) (value : α) :
    erase key (set key value t) = t := by
  rw [set_of_fresh fresh, erase_eq_filter, List.filter_append, ← erase_eq_filter,
    erase_of_fresh fresh]
  simp

/-! ## Sums over all entries -/

theorem total_set_of_fresh (weight : α → Nat) {key : κ} {t : Table κ α}
    (fresh : get? key t = none) (value : α) :
    total weight (set key value t) = total weight t + weight value := by
  rw [set_of_fresh fresh, total_append]
  rfl

/-- Taking an entry out takes off its weight. -/
theorem total_erase (weight : α → Nat) {key : κ} {a : α} {t : Table κ α} (distinct : Distinct t)
    (found : get? key t = some a) :
    total weight (erase key t) + weight a = total weight t := by
  induction t with
  | nil => simp [get?] at found
  | cons entry rest ih =>
      obtain ⟨k, b⟩ := entry
      obtain ⟨absent, distinct⟩ := distinct_cons.mp distinct
      by_cases same : k = key
      · subst same
        rw [get?, if_pos rfl, Option.some.injEq] at found
        rw [erase, if_pos rfl, erase_of_fresh (get?_eq_none_iff.mpr absent), total_cons, found,
          Nat.add_comm]
      · rw [get?, if_neg same] at found
        rw [erase, if_neg same, total_cons, total_cons, Nat.add_assoc, ih distinct found]

/-- The weight of one entry is part of the total. -/
theorem weight_le_total (weight : α → Nat) {key : κ} {a : α} {t : Table κ α}
    (found : get? key t = some a) : weight a ≤ total weight t := by
  induction t with
  | nil => simp [get?] at found
  | cons entry rest ih =>
      obtain ⟨k, b⟩ := entry
      rw [total_cons]
      by_cases same : k = key
      · rw [get?, if_pos same, Option.some.injEq] at found
        rw [found]
        exact Nat.le_add_right _ _
      · rw [get?, if_neg same] at found
        exact Nat.le_add_left_of_le (ih found)

end Dispatch.Table
