/-!
# Tables

A finite map as a list of entries with one entry per key, in the order in which the keys first
came. `get?_set` and `get?_erase` say what an update does to a look-up.
-/

set_option autoImplicit false

namespace Dispatch

/-- Entries by key, in order of first insertion. -/
abbrev Table (κ α : Type) := List (κ × α)

namespace Table

variable {κ α : Type} [DecidableEq κ]

/-- The entry of `key`. -/
def get? (key : κ) : Table κ α → Option α
  | [] => none
  | (k, a) :: rest => if k = key then some a else get? key rest

/-- Replaces the entry of `key`, or adds one at the end. -/
def set (key : κ) (value : α) : Table κ α → Table κ α
  | [] => [(key, value)]
  | (k, a) :: rest => if k = key then (key, value) :: rest else (k, a) :: set key value rest

/-- Removes the entry of `key`. -/
def erase (key : κ) : Table κ α → Table κ α
  | [] => []
  | (k, a) :: rest => if k = key then erase key rest else (k, a) :: erase key rest

theorem get?_set (key other : κ) (value : α) (t : Table κ α) :
    get? other (set key value t) = if key = other then some value else get? other t := by
  induction t with
  | nil => simp [set, get?]
  | cons entry rest ih =>
    obtain ⟨k, a⟩ := entry
    simp only [set]
    split <;> simp only [get?] <;> grind

theorem get?_erase (key other : κ) (t : Table κ α) :
    get? other (erase key t) = if key = other then none else get? other t := by
  induction t with
  | nil => simp [erase, get?]
  | cons entry rest ih =>
    obtain ⟨k, a⟩ := entry
    simp only [erase]
    split <;> simp only [get?] <;> grind

end Table

end Dispatch
