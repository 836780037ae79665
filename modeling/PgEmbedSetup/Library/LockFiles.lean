import Mathlib.Data.List.Basic
import Mathlib.Logic.Function.Basic

set_option autoImplicit false

/-!
Advisory file locks. A directory maps file names to inodes; a lock belongs to an inode
and to the open file that took it, so it survives the unlinking of the name. An open file
holds at most one lock and gives it up when it is closed.
-/

namespace PgEmbedSetup.Library

/-- `φ` names files and `η` names open files. -/
structure LockFiles (φ η : Type*) where
  entries : List (φ × Nat)
  next : Nat
  locks : Nat → Option η

namespace LockFiles

variable {φ η : Type*}

def empty : LockFiles φ η := ⟨[],0,fun _ => none⟩

def find [DecidableEq φ] (d : LockFiles φ η) (f : φ) : Option Nat := d.entries.lookup f

/-- `create_new`, for a name that does not exist. -/
def create (d : LockFiles φ η) (f : φ) : LockFiles φ η :=
  { d with entries := (f,d.next) :: d.entries, next := d.next+1 }

/-- `O_CREAT` without `O_EXCL`: the inode opened, and the directory afterwards. -/
def openOrCreate [DecidableEq φ] (d : LockFiles φ η) (f : φ) : Nat × LockFiles φ η :=
  match d.find f with
  | some i => (i,d)
  | none => (d.next,d.create f)

/-- Removes every name that meets the condition. Locks stay with their inodes. -/
def unlink (d : LockFiles φ η) (gone : φ → Bool) : LockFiles φ η :=
  { d with entries := d.entries.filter (fun e => !gone e.1) }

/-- Takes a lock that was seen to be free. -/
def lock (d : LockFiles φ η) (i : Nat) (h : η) : LockFiles φ η :=
  { d with locks := Function.update d.locks i (some h) }

/-- Closes an open file, dropping its lock if it has one. -/
def close [DecidableEq η] (d : LockFiles φ η) (h : η) : LockFiles φ η :=
  { d with locks := fun i => if d.locks i = some h then none else d.locks i }

/-! ### Locks -/

@[simp] theorem locks_create (d : LockFiles φ η) (f : φ) : (d.create f).locks = d.locks := rfl

@[simp] theorem locks_unlink (d : LockFiles φ η) (gone : φ → Bool) :
    (d.unlink gone).locks = d.locks := rfl

@[simp] theorem locks_lock_self (d : LockFiles φ η) (i : Nat) (h : η) :
    (d.lock i h).locks i = some h := by
  simp [lock]

theorem locks_lock_of_some {d : LockFiles φ η} {i j : Nat} {h k : η} (hfree : d.locks i = none)
    (hj : d.locks j = some k) : (d.lock i h).locks j = some k := by
  have hne : j ≠ i := by
    rintro rfl
    simp [hfree] at hj
  simpa [lock,hne] using hj

theorem locks_lock_cases {d : LockFiles φ η} {i j : Nat} {h k : η}
    (hj : (d.lock i h).locks j = some k) : j = i ∧ k = h ∨ d.locks j = some k := by
  by_cases hji : j = i
  · subst hji
    simp only [locks_lock_self,Option.some.injEq] at hj
    exact .inl ⟨rfl,hj.symm⟩
  · exact .inr (by simpa [lock,hji] using hj)

theorem locks_close_of_ne [DecidableEq η] {d : LockFiles φ η} {i : Nat} {h k : η} (hi : d.locks i = some k)
    (hne : k ≠ h) : (d.close h).locks i = some k := by
  simp [close,hi,hne]

theorem locks_of_close [DecidableEq η] {d : LockFiles φ η} {i : Nat} {h k : η}
    (hi : (d.close h).locks i = some k) : d.locks i = some k ∧ k ≠ h := by
  simp only [close] at hi
  split at hi
  · simp at hi
  · next hne =>
    refine ⟨hi,?_⟩
    rintro rfl
    exact hne hi

/-! ### Names -/

section Names
variable [DecidableEq φ]

theorem mem_entries_of_find {d : LockFiles φ η} {f : φ} {i : Nat} (h : d.find f = some i) :
    (f,i) ∈ d.entries := by
  obtain ⟨l₁,l₂,he,-⟩ := List.lookup_eq_some_iff.mp h
  simp [he]

theorem find_create (d : LockFiles φ η) (f g : φ) :
    (d.create f).find g = if g = f then some d.next else d.find g := by
  by_cases h : g = f
  · simp [create,find,h]
  · simp [create,find,h,List.lookup_cons,beq_eq_false_iff_ne.mpr h]

theorem find_create_of_some {d : LockFiles φ η} {f g : φ} {i : Nat} (hf : d.find f = none)
    (hg : d.find g = some i) : (d.create f).find g = some i := by
  have hne : g ≠ f := by
    rintro rfl
    simp [hf] at hg
  rw [find_create,if_neg hne,hg]

theorem find_openOrCreate (d : LockFiles φ η) (f : φ) :
    (d.openOrCreate f).2.find f = some (d.openOrCreate f).1 := by
  unfold openOrCreate
  split
  · next hf => exact hf
  · rw [find_create,if_pos rfl]

theorem find_openOrCreate_of_some {d : LockFiles φ η} {f g : φ} {i : Nat}
    (hg : d.find g = some i) : (d.openOrCreate f).2.find g = some i := by
  unfold openOrCreate
  split
  · exact hg
  · next hf => exact find_create_of_some hf hg

@[simp] theorem locks_openOrCreate (d : LockFiles φ η) (f : φ) :
    (d.openOrCreate f).2.locks = d.locks := by
  unfold openOrCreate
  split <;> rfl

theorem lookup_filter (entries : List (φ × Nat)) (gone : φ → Bool) (f : φ) :
    (entries.filter (fun e => !gone e.1)).lookup f = if gone f then none else entries.lookup f := by
  induction entries with
  | nil => simp
  | cons e rest ih =>
    obtain ⟨g,i⟩ := e
    by_cases hfg : f = g
    · subst hfg
      cases hg : gone f
      · simp [hg]
      · simp [hg,ih]
    · have hne : (f == g) = false := beq_eq_false_iff_ne.mpr hfg
      cases hg : gone g
      · simp [hg,List.lookup_cons,hne,ih]
      · simp [hg,List.lookup_cons,hne,ih]

theorem find_unlink (d : LockFiles φ η) (gone : φ → Bool) (f : φ) :
    (d.unlink gone).find f = if gone f then none else d.find f :=
  lookup_filter d.entries gone f

theorem find_unlink_of_some {d : LockFiles φ η} {gone : φ → Bool} {f : φ} {i : Nat}
    (h : (d.unlink gone).find f = some i) : d.find f = some i := by
  rw [find_unlink] at h
  split at h
  · simp at h
  · exact h

@[simp] theorem find_lock (d : LockFiles φ η) (i : Nat) (h : η) (f : φ) :
    (d.lock i h).find f = d.find f := rfl

@[simp] theorem find_close [DecidableEq η] (d : LockFiles φ η) (h : η) (f : φ) :
    (d.close h).find f = d.find f := rfl

/-! ### Well-formedness -/

/-- Names lead to distinct inodes that were handed out, and so do locks. -/
structure WellFormed (d : LockFiles φ η) : Prop where
  bound : ∀ f i, d.find f = some i → i < d.next
  lockBound : ∀ i h, d.locks i = some h → i < d.next
  injective : ∀ f g i, d.find f = some i → d.find g = some i → f = g

theorem wellFormed_empty : (empty : LockFiles φ η).WellFormed := by
  constructor <;> simp [empty,find]

/-- Nothing has locked an inode that was never handed out. -/
theorem WellFormed.fresh {d : LockFiles φ η} (h : d.WellFormed) : d.locks d.next = none := by
  cases hl : d.locks d.next with
  | none => rfl
  | some k => exact absurd (h.lockBound _ _ hl) (by omega)

theorem WellFormed.create {d : LockFiles φ η} (h : d.WellFormed) (f : φ) :
    (d.create f).WellFormed := by
  have hnext : ∀ g i, d.find g = some i → i ≠ d.next := by
    intro g i hg
    have := h.bound g i hg
    omega
  constructor
  · intro g i hg
    rw [find_create] at hg
    simp only [LockFiles.create]
    split at hg
    · obtain rfl := Option.some.inj hg
      omega
    · have := h.bound g i hg
      omega
  · intro i k hk
    have := h.lockBound i k hk
    simp only [LockFiles.create]
    omega
  · intro g g' i hg hg'
    rw [find_create] at hg hg'
    split at hg <;> split at hg'
    · next hgf hgf' => exact hgf.trans hgf'.symm
    · exact absurd (Option.some.inj hg).symm (hnext _ _ hg')
    · exact absurd (Option.some.inj hg').symm (hnext _ _ hg)
    · exact h.injective g g' i hg hg'

theorem WellFormed.openOrCreate {d : LockFiles φ η} (h : d.WellFormed) (f : φ) :
    (d.openOrCreate f).2.WellFormed := by
  unfold LockFiles.openOrCreate
  split
  · exact h
  · exact h.create f

theorem WellFormed.unlink {d : LockFiles φ η} (h : d.WellFormed) (gone : φ → Bool) :
    (d.unlink gone).WellFormed where
  bound f i hf := h.bound f i (find_unlink_of_some hf)
  lockBound := h.lockBound
  injective f g i hf hg := h.injective f g i (find_unlink_of_some hf) (find_unlink_of_some hg)

theorem WellFormed.lock {d : LockFiles φ η} (h : d.WellFormed) {i : Nat} (hi : i < d.next)
    (k : η) : (d.lock i k).WellFormed where
  bound := h.bound
  injective := h.injective
  lockBound j k' hj := by
    rcases locks_lock_cases hj with ⟨rfl,-⟩ | hj
    · exact hi
    · exact h.lockBound j k' hj

theorem WellFormed.close [DecidableEq η] {d : LockFiles φ η} (h : d.WellFormed) (k : η) :
    (d.close k).WellFormed where
  bound := h.bound
  injective := h.injective
  lockBound i k' hi := h.lockBound i k' (locks_of_close hi).1

end Names
end LockFiles
end PgEmbedSetup.Library
