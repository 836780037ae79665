import Mathlib.Logic.Function.Basic

set_option autoImplicit false

/-!
A mutex with a condition variable, for any number of threads. Who waits has left the mutex; a
notification, or nothing at all, wakes it, and it goes on when it has the mutex again.
-/

namespace PgEmbedSetup.Library

inductive Waiting where
  | no
  | unnotified
  | notified
  deriving DecidableEq, Repr

structure Monitor (ι : Type) where
  holder : Option ι
  waiting : ι → Waiting

namespace Monitor
variable {ι : Type}

def free : Monitor ι := ⟨none,fun _ => .no⟩

def notifyAll (m : Monitor ι) : Monitor ι :=
  { m with waiting := fun i => if m.waiting i = .unnotified then .notified else m.waiting i }

def lock (m : Monitor ι) (i : ι) : Option (Monitor ι) :=
  if m.holder = none then some { m with holder := some i } else none

variable [DecidableEq ι]

def unlock (m : Monitor ι) (i : ι) : Option (Monitor ι) :=
  if m.holder = some i then some { m with holder := none } else none

def wait (m : Monitor ι) (i : ι) : Option (Monitor ι) :=
  if m.holder = some i then some ⟨none,Function.update m.waiting i .unnotified⟩ else none

/-- A wake-up that nobody asked for. -/
def wake (m : Monitor ι) (i : ι) : Option (Monitor ι) :=
  if m.waiting i = .unnotified then
    some { m with waiting := Function.update m.waiting i .notified }
  else none

def resume (m : Monitor ι) (i : ι) : Option (Monitor ι) :=
  if m.waiting i = .notified ∧ m.holder = none then
    some ⟨some i,Function.update m.waiting i .no⟩
  else none

variable {m m' : Monitor ι} {i : ι}

omit [DecidableEq ι] in
theorem lock_eq_some : m.lock i = some m' ↔ m.holder = none ∧ m' = { m with holder := some i } := by
  simp [lock,eq_comm]

theorem unlock_eq_some :
    m.unlock i = some m' ↔ m.holder = some i ∧ m' = { m with holder := none } := by
  simp [unlock,eq_comm]

theorem wait_eq_some :
    m.wait i = some m' ↔
      m.holder = some i ∧ m' = ⟨none,Function.update m.waiting i .unnotified⟩ := by
  simp [wait,eq_comm]

theorem wake_eq_some :
    m.wake i = some m' ↔ m.waiting i = .unnotified ∧
      m' = { m with waiting := Function.update m.waiting i .notified } := by
  simp [wake,eq_comm]

theorem resume_eq_some :
    m.resume i = some m' ↔ (m.waiting i = .notified ∧ m.holder = none) ∧
      m' = ⟨some i,Function.update m.waiting i .no⟩ := by
  simp [resume,eq_comm]

theorem wait_waiting (h : m.wait i = some m') (j : ι) :
    m'.waiting j = if j = i then .unnotified else m.waiting j := by
  obtain ⟨-,rfl⟩ := wait_eq_some.mp h
  simp [Function.update_apply]

theorem wake_waiting (h : m.wake i = some m') (j : ι) :
    m'.waiting j = if j = i then .notified else m.waiting j := by
  obtain ⟨-,rfl⟩ := wake_eq_some.mp h
  simp [Function.update_apply]

theorem resume_waiting (h : m.resume i = some m') (j : ι) :
    m'.waiting j = if j = i then .no else m.waiting j := by
  obtain ⟨-,rfl⟩ := resume_eq_some.mp h
  simp [Function.update_apply]

omit [DecidableEq ι] in
theorem notifyAll_waiting (m : Monitor ι) (i : ι) : m.notifyAll.waiting i ≠ .unnotified := by
  simp only [notifyAll]
  split
  · simp
  · assumption

/-! ### No lost wake-up -/

/-- Whoever waits unnotified waits for something, or will be notified by who has the mutex. -/
def NoneForgotten (m : Monitor ι) (busy : Prop) (owing : ι → Prop) : Prop :=
  ∀ i, m.waiting i = .unnotified → busy ∨ ∃ j, m.holder = some j ∧ owing j

variable {busy busy' : Prop} {owing owing' : ι → Prop}

omit [DecidableEq ι] in
theorem noneForgotten_free : (free : Monitor ι).NoneForgotten busy owing := by
  intro i h
  cases h

omit [DecidableEq ι] in
/-- While nobody has the mutex, whoever waits unnotified waits for something. -/
theorem NoneForgotten.busy_of_free (h : m.NoneForgotten busy owing) (hfree : m.holder = none)
    (hi : m.waiting i = .unnotified) : busy := by
  rcases h i hi with hbusy | ⟨j,hj,-⟩
  · exact hbusy
  · rw [hfree] at hj
    cases hj

omit [DecidableEq ι] in
theorem NoneForgotten.lock (h : m.NoneForgotten busy owing) (hlock : m.lock i = some m') :
    m'.NoneForgotten busy owing' := by
  obtain ⟨hfree,rfl⟩ := lock_eq_some.mp hlock
  exact fun j hj => .inl (h.busy_of_free hfree hj)

theorem NoneForgotten.unlock (h : m.NoneForgotten busy owing) (howing : ¬ owing i)
    (hunlock : m.unlock i = some m') : m'.NoneForgotten busy owing' := by
  obtain ⟨hholder,rfl⟩ := unlock_eq_some.mp hunlock
  intro j hj
  rcases h j hj with hbusy | ⟨k,hk,howes⟩
  · exact .inl hbusy
  · rw [hholder,Option.some.injEq] at hk
    exact absurd (hk ▸ howes) howing

omit [DecidableEq ι] in
theorem noneForgotten_of_busy (h : busy) : m.NoneForgotten busy owing := fun _ _ => .inl h

omit [DecidableEq ι] in
theorem noneForgotten_of_owing (hholder : m.holder = some i) (howing : owing i) :
    m.NoneForgotten busy owing := fun _ _ => .inr ⟨i,hholder,howing⟩

omit [DecidableEq ι] in
theorem noneForgotten_notifyAll : m.notifyAll.NoneForgotten busy owing :=
  fun i h => absurd h (m.notifyAll_waiting i)

theorem NoneForgotten.wake (h : m.NoneForgotten busy owing) (hwake : m.wake i = some m') :
    m'.NoneForgotten busy owing := by
  obtain ⟨-,rfl⟩ := wake_eq_some.mp hwake
  intro j hj
  by_cases hji : j = i
  · simp [hji] at hj
  · exact h j (by simpa [Function.update_of_ne hji] using hj)

theorem NoneForgotten.resume (h : m.NoneForgotten busy owing) (hresume : m.resume i = some m') :
    m'.NoneForgotten busy owing' := by
  obtain ⟨⟨-,hfree⟩,rfl⟩ := resume_eq_some.mp hresume
  intro j hj
  by_cases hji : j = i
  · simp [hji] at hj
  · exact .inl (h.busy_of_free hfree (by simpa [Function.update_of_ne hji] using hj))

end Monitor

end PgEmbedSetup.Library
