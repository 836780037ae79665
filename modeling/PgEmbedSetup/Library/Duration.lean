import Mathlib.Tactic.Ring

set_option autoImplicit false

/-!
Spans of time counted in whole seconds, 64 bits of them, and nanoseconds.
-/

namespace PgEmbedSetup.Library

def nanosPerSec : Nat := 1000000000

def maxSecs : Nat := 2^64-1

structure Duration where
  secs : Nat
  nanos : Nat
  secs_le : secs ≤ maxSecs
  nanos_lt : nanos < nanosPerSec
  deriving DecidableEq

theorem nanosPerSec_pos : 0 < nanosPerSec := by decide

theorem one_le_maxSecs : 1 ≤ maxSecs := by decide

namespace Duration

def max : Duration := ⟨maxSecs,nanosPerSec-1,Nat.le_refl _,by decide⟩

def ofSecs (secs : Nat) (h : secs ≤ maxSecs) : Duration := ⟨secs,0,h,nanosPerSec_pos⟩

def total (d : Duration) : Nat := d.secs*nanosPerSec+d.nanos

theorem total_le (d : Duration) : d.total ≤ max.total := by
  have hsecs : d.secs ≤ 2^64-1 := d.secs_le
  have hnanos : d.nanos < 1000000000 := d.nanos_lt
  simp only [total,max,nanosPerSec,maxSecs]
  omega

/-- The nanoseconds are multiplied first, and what they carry is added to the seconds. -/
def checkedMul (d : Duration) (k : Nat) : Option Duration :=
  let carry := d.nanos*k/nanosPerSec
  if h : d.secs*k+carry ≤ maxSecs then
    some ⟨d.secs*k+carry,d.nanos*k%nanosPerSec,h,Nat.mod_lt _ (by decide)⟩
  else none

def saturatingMul (d : Duration) (k : Nat) : Duration := (d.checkedMul k).getD max

theorem total_mul (d : Duration) (k : Nat) :
    d.total*k = (d.secs*k+d.nanos*k/nanosPerSec)*nanosPerSec+d.nanos*k%nanosPerSec := by
  calc d.total*k = d.secs*k*nanosPerSec+d.nanos*k := by rw [total]; ring
    _ = d.secs*k*nanosPerSec+(nanosPerSec*(d.nanos*k/nanosPerSec)+d.nanos*k%nanosPerSec) := by
      rw [Nat.div_add_mod]
    _ = _ := by ring

theorem total_saturatingMul (d : Duration) (k : Nat) :
    (d.saturatingMul k).total = min (d.total*k) max.total := by
  have htotal := d.total_mul k
  rw [saturatingMul,checkedMul]
  split
  · next hfits =>
    have hvalue : total ⟨d.secs*k+d.nanos*k/nanosPerSec,d.nanos*k%nanosPerSec,hfits,
        Nat.mod_lt _ (by decide)⟩ = d.total*k := htotal.symm
    rw [Option.getD_some,hvalue,Nat.min_eq_left]
    exact hvalue ▸ total_le _
  · next hover =>
    rw [Option.getD_none,Nat.min_eq_right]
    rw [htotal,max,total]
    simp only [nanosPerSec,maxSecs] at hover ⊢
    omega

end Duration
end PgEmbedSetup.Library
