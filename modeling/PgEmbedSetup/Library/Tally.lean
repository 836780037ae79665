import Mathlib.Algebra.BigOperators.Group.Finset.Piecewise
import Mathlib.Data.Fintype.Basic
import Mathlib.Logic.Function.Basic

set_option autoImplicit false

/-!
A number added up over all threads, and what one thread's move makes of it.
-/

namespace PgEmbedSetup.Library

variable {ι π : Type} [Fintype ι] {f : π → Nat} {point : ι → π}

def tally (f : π → Nat) (point : ι → π) : Nat := ∑ i, f (point i)

theorem tally_update [DecidableEq ι] (i : ι) (p : π) :
    tally f (Function.update point i p)+f (point i) = tally f point+f p := by
  have hrest : ∑ j ∈ Finset.univ.erase i, f (Function.update point i p j) =
      ∑ j ∈ Finset.univ.erase i, f (point j) := by
    refine Finset.sum_congr rfl fun j hj => ?_
    rw [Function.update_of_ne (Finset.ne_of_mem_erase hj)]
  have hself : f (Function.update point i p i) = f p := by rw [Function.update_self]
  unfold tally
  rw [← Finset.add_sum_erase _ _ (Finset.mem_univ i),hrest,hself,
    ← Finset.add_sum_erase _ (fun j => f (point j)) (Finset.mem_univ i)]
  omega

theorem tally_eq_zero : tally f point = 0 ↔ ∀ i, f (point i) = 0 := by
  simp [tally,Finset.sum_eq_zero_iff]

theorem tally_pos {i : ι} (h : 0 < f (point i)) : 0 < tally f point :=
  Nat.pos_of_ne_zero fun hzero => Nat.ne_of_gt h (tally_eq_zero.mp hzero i)

theorem exists_of_tally_pos (h : 0 < tally f point) : ∃ i, 0 < f (point i) := by
  by_contra hnone
  push Not at hnone
  exact Nat.ne_of_gt h (tally_eq_zero.mpr fun i => Nat.le_zero.mp (hnone i))

end PgEmbedSetup.Library
