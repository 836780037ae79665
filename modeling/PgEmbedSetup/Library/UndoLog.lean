import Mathlib.Logic.Function.Basic

set_option autoImplicit false

/-!
Undo logs over a key-value store. Applying a list of assignments records the value
each one replaced; undoing the record, last entry first, gives the store back. No
assumption is made on repeated keys.
-/

namespace PgEmbedSetup.Library

/-- A store: a key that is not set maps to `none`. -/
abbrev Store (κ ν : Type*) := κ → Option ν

namespace Store

variable {κ ν : Type*} [DecidableEq κ]

def assign (s : Store κ ν) (k : κ) (v : Option ν) : Store κ ν := Function.update s k v

/-- The store after the assignments and, in the same order, the values they replaced. -/
def record (s : Store κ ν) : List (κ × Option ν) → Store κ ν × List (κ × Option ν)
  | [] => (s,[])
  | (k,v) :: rest =>
    let (t,saved) := record (s.assign k v) rest
    (t,(k,s k) :: saved)

/-- Undoes a record from its last entry to its first. -/
def undo (s : Store κ ν) : List (κ × Option ν) → Store κ ν
  | [] => s
  | (k,v) :: rest => (undo s rest).assign k v

@[simp] theorem assign_assign_self (s : Store κ ν) (k : κ) (v : Option ν) :
    (s.assign k v).assign k (s k) = s := by
  simp [assign]

/-- Undoing what was recorded gives the store back, whatever keys repeat. -/
theorem undo_record (s : Store κ ν) (changes : List (κ × Option ν)) :
    (s.record changes).1.undo (s.record changes).2 = s := by
  induction changes generalizing s with
  | nil => rfl
  | cons c rest ih =>
    obtain ⟨k,v⟩ := c
    simp only [record,undo]
    rw [ih (s.assign k v),assign_assign_self]

/-- A stack of records, innermost first, undone one after another. -/
def undoAll (s : Store κ ν) : List (List (κ × Option ν)) → Store κ ν
  | [] => s
  | saved :: rest => (s.undo saved).undoAll rest

theorem undoAll_append (s : Store κ ν) (xs ys : List (List (κ × Option ν))) :
    s.undoAll (xs ++ ys) = (s.undoAll xs).undoAll ys := by
  induction xs generalizing s with
  | nil => rfl
  | cons x xs ih => simp [undoAll,ih]

end Store
end PgEmbedSetup.Library
