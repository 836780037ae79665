import PgEmbedSetup.Library.Tally
import PgEmbedSetup.Library.Transition

set_option autoImplicit false

/-!
`src/observability.rs`: the process-wide recorder behind its `RwLock`, with any number of threads
that record, install recorders and drop guards, also from inside a recorder's own callback.
-/

namespace PgEmbedSetup.Observability
open Library

/-- A guard knows what it has to put back. -/
structure Guard (ρ : Type) where
  id : Nat
  recorder : ρ
  previous : Option ρ
  deriving DecidableEq

/-- What a thread does once it has the write lock. -/
inductive Write (ρ : Type) where
  | install (recorder : ρ)
  | drop (guard : Guard ρ)
  deriving DecidableEq

/-- Where a thread is, in its own code or in the callback on top of its stack. -/
inductive Point (ρ : Type) where
  | idle
  | toRead
  | reading
  /-- The handle is cloned and the lock still held. -/
  | cloned (installed : Option ρ)
  | unlocked (installed : Option ρ)
  | toWrite (w : Write ρ)
  | writing (w : Write ρ)
  | stored
  deriving DecidableEq

/-- `guards` are those nobody has begun to drop, `installed` those whose drop has not been stored,
the newest first; `owed` and `received` list the recorders of the counts. -/
structure State (ρ ι : Type) where
  slot : Option ρ
  readers : Nat
  writer : Bool
  next : Nat
  guards : List (Guard ρ)
  installed : List (Guard ρ)
  owed : List ρ
  received : List ρ
  point : ι → Point ρ
  callbacks : ι → List ρ

inductive Action (ρ ι : Type) where
  | record (i : ι)
  | install (i : ι) (recorder : ρ)
  | drop (i : ι) (guard : Guard ρ)
  /-- The lock is granted. -/
  | lock (i : ι)
  /-- What is done under the lock. -/
  | access (i : ι)
  | unlock (i : ι)
  | deliver (i : ι)
  | finish (i : ι)

section Step
variable {ρ ι : Type} [DecidableEq ρ] [DecidableEq ι]

def State.initial : State ρ ι := ⟨none,0,false,0,[],[],[],[],fun _ => .idle,fun _ => []⟩

def State.goto (s : State ρ ι) (i : ι) (p : Point ρ) : State ρ ι :=
  { s with point := Function.update s.point i p }

/-- The recorder of the newest guard that is still held. -/
def State.newest (s : State ρ ι) : Option ρ := s.installed.head?.map Guard.recorder

def State.store (s : State ρ ι) : Write ρ → State ρ ι
  | .install recorder =>
    let guard := ⟨s.next,recorder,s.slot⟩
    { s with
      slot := some recorder, next := s.next+1, guards := guard :: s.guards
      installed := guard :: s.installed }
  | .drop guard => { s with slot := guard.previous, installed := s.installed.erase guard }

def step (s : State ρ ι) : Action ρ ι → Option (State ρ ι)
  | .record i => if s.point i = .idle then some (s.goto i .toRead) else none
  | .install i recorder =>
    if s.point i = .idle then some (s.goto i (.toWrite (.install recorder))) else none
  | .drop i guard =>
    if s.point i = .idle ∧ guard ∈ s.guards then
      some ({ s with guards := s.guards.erase guard }.goto i (.toWrite (.drop guard)))
    else none
  | .lock i =>
    match s.point i with
    | .toRead =>
      if s.writer = false then some ({ s with readers := s.readers+1 }.goto i .reading) else none
    | .toWrite w =>
      if s.writer = false ∧ s.readers = 0 then some ({ s with writer := true }.goto i (.writing w))
      else none
    | _ => none
  | .access i =>
    match s.point i with
    | .reading => some ({ s with owed := s.owed ++ s.newest.toList }.goto i (.cloned s.slot))
    | .writing w => some ((s.store w).goto i .stored)
    | _ => none
  | .unlock i =>
    match s.point i with
    | .cloned r => some ({ s with readers := s.readers-1 }.goto i (.unlocked r))
    | .stored => some ({ s with writer := false }.goto i .idle)
    | _ => none
  | .deliver i =>
    match s.point i with
    | .unlocked none => some (s.goto i .idle)
    | .unlocked (some r) =>
      some ({ s with
        received := s.received ++ [r]
        callbacks := Function.update s.callbacks i (r :: s.callbacks i) }.goto i .idle)
    | _ => none
  | .finish i =>
    match s.point i, s.callbacks i with
    | .idle, _ :: rest => some { s with callbacks := Function.update s.callbacks i rest }
    | _, _ => none

def threads : System (State ρ ι) (Action ρ ι) := .ofStep (· = State.initial) step

/-- Guards are dropped newest first, as nested scopes drop them. -/
def isNested (s : State ρ ι) : Action ρ ι → Bool
  | .access i =>
    match s.point i with
    | .writing (.drop guard) => s.installed.head? = some guard
    | _ => true
  | _ => true

def Nested (s : State ρ ι) (a : Action ρ ι) : Prop := isNested s a = true

end Step

/-! ### What a step can do -/

section Moves
variable {ρ ι : Type} [DecidableEq ρ] [DecidableEq ι]

/-- With `nested` every drop that is stored is that of the newest guard. -/
inductive Moves (nested : Prop) (s : State ρ ι) : State ρ ι → Prop where
  | record {i : ι} (hp : s.point i = .idle) : Moves nested s (s.goto i .toRead)
  | install {i : ι} (recorder : ρ) (hp : s.point i = .idle) :
      Moves nested s (s.goto i (.toWrite (.install recorder)))
  | drop {i : ι} {guard : Guard ρ} (hp : s.point i = .idle) (hmem : guard ∈ s.guards) :
      Moves nested s ({ s with guards := s.guards.erase guard }.goto i (.toWrite (.drop guard)))
  | lockRead {i : ι} (hp : s.point i = .toRead) (hfree : s.writer = false) :
      Moves nested s ({ s with readers := s.readers+1 }.goto i .reading)
  | lockWrite {i : ι} {w : Write ρ} (hp : s.point i = .toWrite w) (hfree : s.writer = false)
      (hnone : s.readers = 0) : Moves nested s ({ s with writer := true }.goto i (.writing w))
  | clone {i : ι} (hp : s.point i = .reading) :
      Moves nested s ({ s with owed := s.owed ++ s.newest.toList }.goto i (.cloned s.slot))
  | store {i : ι} {w : Write ρ} (hp : s.point i = .writing w)
      (hnewest : nested → ∀ guard, w = .drop guard → s.installed.head? = some guard) :
      Moves nested s ((s.store w).goto i .stored)
  | unlockRead {i : ι} {r : Option ρ} (hp : s.point i = .cloned r) :
      Moves nested s ({ s with readers := s.readers-1 }.goto i (.unlocked r))
  | unlockWrite {i : ι} (hp : s.point i = .stored) :
      Moves nested s ({ s with writer := false }.goto i .idle)
  | nobody {i : ι} (hp : s.point i = .unlocked none) : Moves nested s (s.goto i .idle)
  | deliver {i : ι} {r : ρ} (hp : s.point i = .unlocked (some r)) :
      Moves nested s ({ s with
        received := s.received ++ [r]
        callbacks := Function.update s.callbacks i (r :: s.callbacks i) }.goto i .idle)
  | finish {i : ι} {r : ρ} {rest : List ρ} (hp : s.point i = .idle)
      (hcallbacks : s.callbacks i = r :: rest) :
      Moves nested s { s with callbacks := Function.update s.callbacks i rest }

theorem step_moves {nested : Prop} {s t : State ρ ι} {a : Action ρ ι}
    (hnested : nested → Nested s a) (h : step s a = some t) : Moves nested s t := by
  cases a with
  | record i =>
    obtain ⟨hp,ht⟩ := Option.ite_none_right_eq_some.mp h
    cases ht
    exact .record hp
  | install i recorder =>
    obtain ⟨hp,ht⟩ := Option.ite_none_right_eq_some.mp h
    cases ht
    exact .install recorder hp
  | drop i guard =>
    obtain ⟨⟨hp,hmem⟩,ht⟩ := Option.ite_none_right_eq_some.mp h
    cases ht
    exact .drop hp hmem
  | lock i =>
    unfold step at h
    dsimp only at h
    split at h
    · next hp =>
      obtain ⟨hfree,ht⟩ := Option.ite_none_right_eq_some.mp h
      cases ht
      exact .lockRead hp hfree
    · next hp =>
      obtain ⟨⟨hfree,hnone⟩,ht⟩ := Option.ite_none_right_eq_some.mp h
      cases ht
      exact .lockWrite hp hfree hnone
    · cases h
  | access i =>
    unfold step at h
    dsimp only at h
    split at h
    · next hp =>
      cases h
      exact .clone hp
    · next w hp =>
      cases h
      refine .store hp fun hn guard hw => ?_
      subst hw
      simpa [Nested,isNested,hp] using hnested hn
    · cases h
  | unlock i =>
    unfold step at h
    dsimp only at h
    split at h
    · next hp =>
      cases h
      exact .unlockRead hp
    · next hp =>
      cases h
      exact .unlockWrite hp
    · cases h
  | deliver i =>
    unfold step at h
    dsimp only at h
    split at h
    · next hp =>
      cases h
      exact .nobody hp
    · next hp =>
      cases h
      exact .deliver hp
    · cases h
  | finish i =>
    unfold step at h
    dsimp only at h
    split at h
    · next hp hcallbacks =>
      cases h
      exact .finish hp hcallbacks
    · cases h

end Moves

/-! ### The lock -/

def Point.holdsRead {ρ : Type} : Point ρ → Nat
  | .reading | .cloned _ => 1
  | .idle | .toRead | .unlocked _ | .toWrite _ | .writing _ | .stored => 0

def Point.holdsWrite {ρ : Type} : Point ρ → Nat
  | .writing _ | .stored => 1
  | .idle | .toRead | .reading | .cloned _ | .unlocked _ | .toWrite _ => 0

section Lock
variable {ρ ι : Type} [DecidableEq ρ] [DecidableEq ι] [Fintype ι] {s t : State ρ ι}

/-- The lock counts the threads that hold it. -/
structure Locked (s : State ρ ι) : Prop where
  readers : s.readers = tally Point.holdsRead s.point
  writer : s.writer.toNat = tally Point.holdsWrite s.point
  exclusive : s.writer = true → s.readers = 0

omit [DecidableEq ρ] in
/-- A thread that moves takes the lock, gives it back or leaves it as it is. -/
theorem Locked.move (hs : Locked s) {u : State ρ ι} {i : ι} {p : Point ρ}
    (hpoint : u.point = s.point)
    (hreaders : u.readers+(s.point i).holdsRead = s.readers+p.holdsRead)
    (hwriter : u.writer.toNat+(s.point i).holdsWrite = s.writer.toNat+p.holdsWrite)
    (hexclusive : u.writer = true → u.readers = 0) : Locked (u.goto i p) := by
  have hread : tally Point.holdsRead (Function.update s.point i p)+(s.point i).holdsRead =
      tally Point.holdsRead s.point+p.holdsRead := tally_update i p
  have hwrite : tally Point.holdsWrite (Function.update s.point i p)+(s.point i).holdsWrite =
      tally Point.holdsWrite s.point+p.holdsWrite := tally_update i p
  have hsreaders := hs.readers
  have hswriter := hs.writer
  refine ⟨?_,?_,hexclusive⟩
  · simp only [State.goto,hpoint]
    omega
  · simp only [State.goto,hpoint]
    omega

omit [DecidableEq ρ] [DecidableEq ι] in
theorem Locked.writer_of_holds (hs : Locked s) {i : ι} (h : 0 < (s.point i).holdsWrite) :
    s.writer = true := by
  have hpos := tally_pos (f := Point.holdsWrite) h
  rw [← hs.writer] at hpos
  cases hw : s.writer with
  | false => simp [hw] at hpos
  | true => rfl

omit [DecidableEq ρ] [DecidableEq ι] in
theorem Locked.readers_pos (hs : Locked s) {i : ι} (h : 0 < (s.point i).holdsRead) :
    0 < s.readers := by
  have hpos := tally_pos (f := Point.holdsRead) h
  rwa [← hs.readers] at hpos

theorem locked_moves {nested : Prop} (hs : Locked s) (hmoves : Moves nested s t) : Locked t := by
  have hexclusive := hs.exclusive
  cases hmoves with
  | record hp | install _ hp | drop hp | clone hp | nobody hp | deliver hp =>
    exact hs.move rfl (by simp [hp,Point.holdsRead]) (by simp [hp,Point.holdsWrite]) hexclusive
  | lockRead hp hfree =>
    refine hs.move rfl ?_ ?_ (by simp [hfree])
    · simp [hp,Point.holdsRead]
    · simp [hp,Point.holdsWrite]
  | lockWrite hp hfree hnone =>
    refine hs.move rfl ?_ ?_ (fun _ => hnone)
    · simp [hp,Point.holdsRead]
    · simp [hp,Point.holdsWrite,hfree]
  | @store i w hp hnewest =>
    cases w <;>
      exact hs.move rfl (by simp [hp,Point.holdsRead,State.store])
        (by simp [hp,Point.holdsWrite,State.store]) hexclusive
  | @unlockRead i r hp =>
    have hpos := hs.readers_pos (i := i) (by simp [hp,Point.holdsRead])
    refine hs.move rfl ?_ ?_ (fun h => ?_)
    · simp only [hp,Point.holdsRead]
      omega
    · simp [hp,Point.holdsWrite]
    · have := hexclusive h
      omega
  | @unlockWrite i hp =>
    have hwriter := hs.writer_of_holds (i := i) (by simp [hp,Point.holdsWrite])
    refine hs.move rfl ?_ ?_ (by simp)
    · simp [hp,Point.holdsRead]
    · simp [hp,Point.holdsWrite,hwriter]
  | finish hp hcallbacks => exact ⟨hs.readers,hs.writer,hs.exclusive⟩

end Lock

/-! ### The newest recorder -/

/-- The slot shows the first guard's recorder, and each guard puts back the one below it. -/
def Chained {ρ : Type} : Option ρ → List (Guard ρ) → Prop
  | slot, [] => slot = none
  | slot, guard :: below => slot = some guard.recorder ∧ Chained guard.previous below

/-- How many counts a thread is about to hand to a recorder. -/
def Point.carries {ρ : Type} [DecidableEq ρ] (r : ρ) : Point ρ → Nat
  | .cloned (some r') | .unlocked (some r') => if r' = r then 1 else 0
  | .cloned none | .unlocked none | .idle | .toRead | .reading | .toWrite _ | .writing _
  | .stored => 0

section Newest
variable {ρ ι : Type} [DecidableEq ρ] [DecidableEq ι] {s t : State ρ ι}

omit [DecidableEq ρ] [DecidableEq ι] in
theorem slot_newest (h : Chained s.slot s.installed) : s.slot = s.newest := by
  unfold State.newest
  cases hinstalled : s.installed with
  | nil =>
    rw [hinstalled] at h
    exact h
  | cons guard below =>
    rw [hinstalled] at h
    exact h.1

omit [DecidableEq ι] in
theorem chained_store {w : Write ρ} (h : Chained s.slot s.installed)
    (hnewest : ∀ guard, w = .drop guard → s.installed.head? = some guard) :
    Chained (s.store w).slot (s.store w).installed := by
  cases w with
  | install recorder => exact ⟨rfl,h⟩
  | drop guard =>
    obtain ⟨below,hinstalled⟩ := List.head?_eq_some_iff.mp (hnewest guard rfl)
    rw [hinstalled] at h
    simp only [State.store,hinstalled,List.erase_cons_head]
    exact h.2

theorem chained_moves (h : Chained s.slot s.installed) (hmoves : Moves True s t) :
    Chained t.slot t.installed := by
  cases hmoves with
  | store hp hnewest => exact chained_store h (hnewest trivial)
  | record | install | drop | lockRead | lockWrite | clone | unlockRead | unlockWrite | nobody
  | deliver | finish => exact h

variable [Fintype ι]

/-- What a recorder has received and is about to receive is what it is owed. -/
def State.Paid (s : State ρ ι) : Prop :=
  ∀ r, s.received.count r+tally (Point.carries r) s.point = s.owed.count r

theorem State.Paid.move (hs : s.Paid) {u : State ρ ι} {i : ι} {p : Point ρ}
    (hpoint : u.point = s.point)
    (hpaid : ∀ r, u.received.count r+p.carries r+s.owed.count r =
      s.received.count r+(s.point i).carries r+u.owed.count r) : (u.goto i p).Paid := by
  intro r
  have hcarried : tally (Point.carries r) (Function.update s.point i p)+(s.point i).carries r =
      tally (Point.carries r) s.point+p.carries r := tally_update i p
  have hbefore := hs r
  have hpay := hpaid r
  simp only [State.goto,hpoint]
  omega

theorem paid_moves (hs : s.Paid) (hchained : Chained s.slot s.installed)
    (hmoves : Moves True s t) : t.Paid := by
  cases hmoves with
  | record hp | install _ hp | drop hp | lockRead hp | lockWrite hp | unlockWrite hp | nobody hp =>
    exact hs.move rfl fun r => by simp [hp,Point.carries]
  | @store i w hp hnewest =>
    cases w <;> exact hs.move rfl fun r => by simp [hp,Point.carries,State.store]
  | clone hp =>
    refine hs.move rfl fun r => ?_
    rw [slot_newest hchained,hp,List.count_append]
    cases s.newest with
    | none => simp [Point.carries]
    | some r' => simp [Point.carries,List.count_singleton]; omega
  | @unlockRead i r' hp =>
    refine hs.move rfl fun r => ?_
    rw [hp]
    cases r' <;> rfl
  | @deliver i r' hp =>
    refine hs.move rfl fun r => ?_
    rw [hp,List.count_append]
    simp [Point.carries,List.count_singleton]
  | finish hp hcallbacks => exact hs

end Newest

section Reachable
variable {ρ ι : Type} [DecidableEq ρ] [DecidableEq ι] [Fintype ι] {s : State ρ ι}

theorem locked_reachable (h : threads.Reachable s) : Locked s := by
  refine threads.invariant ?_ ?_ h
  · rintro s rfl
    exact ⟨by simp [State.initial,tally,Point.holdsRead],by simp [State.initial,tally,Point.holdsWrite],
      by simp [State.initial]⟩
  · intro s a t hs hstep
    have hmoves : Moves False s t := step_moves False.elim hstep
    exact locked_moves hs hmoves

theorem paid_reachable (h : (threads.restrict Nested).Reachable s) :
    Chained s.slot s.installed ∧ s.Paid := by
  refine (threads.restrict Nested).invariant (I := fun s => Chained s.slot s.installed ∧ s.Paid)
    ?_ ?_ h
  · rintro s rfl
    exact ⟨rfl,fun r => by simp [State.initial,tally,Point.carries]⟩
  · rintro s a t ⟨hchained,hpaid⟩ ⟨hnested,hstep⟩
    have hmoves : Moves True s t := step_moves (fun _ => hnested) hstep
    exact ⟨chained_moves hchained hmoves,paid_moves hpaid hchained hmoves⟩

end Reachable

section Progress
variable {ρ ι : Type} [DecidableEq ρ] [DecidableEq ι] [Fintype ι] {s : State ρ ι}

/-- A thread that waits for the lock. -/
def Point.Waits {ρ : Type} (p : Point ρ) : Prop := p = .toRead ∨ ∃ w, p = .toWrite w

/-- A thread that can go on without waiting for anybody. -/
def Advances (s : State ρ ι) (i : ι) : Prop :=
  (step s (.access i)).isSome ∨ (step s (.unlock i)).isSome

omit [Fintype ι] in
theorem advances_of_holdsWrite {i : ι} (h : 0 < (s.point i).holdsWrite) :
    Advances s i ∧ ¬ (s.point i).Waits := by
  cases hp : s.point i with
  | writing w => exact ⟨.inl (by simp [step,hp]),by simp [Point.Waits]⟩
  | stored => exact ⟨.inr (by simp [step,hp]),by simp [Point.Waits]⟩
  | idle | toRead | reading | cloned | unlocked | toWrite => simp [hp,Point.holdsWrite] at h

omit [Fintype ι] in
theorem advances_of_holdsRead {i : ι} (h : 0 < (s.point i).holdsRead) :
    Advances s i ∧ ¬ (s.point i).Waits := by
  cases hp : s.point i with
  | reading => exact ⟨.inl (by simp [step,hp]),by simp [Point.Waits]⟩
  | cloned r => exact ⟨.inr (by simp [step,hp]),by simp [Point.Waits]⟩
  | idle | toRead | unlocked | toWrite | writing | stored => simp [hp,Point.holdsRead] at h

omit [DecidableEq ρ] [DecidableEq ι] in
/-- A lock that is not free is held by some thread. -/
theorem Locked.holder (hs : Locked s) (hbusy : s.writer = true ∨ 0 < s.readers) :
    ∃ j, 0 < (s.point j).holdsWrite ∨ 0 < (s.point j).holdsRead := by
  rcases hbusy with hwriter | hreaders
  · have hpos : 0 < tally Point.holdsWrite s.point := by
      rw [← hs.writer,hwriter]
      decide
    obtain ⟨j,hj⟩ := exists_of_tally_pos hpos
    exact ⟨j,.inl hj⟩
  · rw [hs.readers] at hreaders
    obtain ⟨j,hj⟩ := exists_of_tally_pos hreaders
    exact ⟨j,.inr hj⟩

theorem Locked.waits (hs : Locked s) {i : ι} (h : (s.point i).Waits) :
    (step s (.lock i)).isSome ∨ ∃ j, j ≠ i ∧ Advances s j := by
  have hother : s.writer = true ∨ 0 < s.readers → ∃ j, j ≠ i ∧ Advances s j := by
    intro hbusy
    obtain ⟨j,hj⟩ := hs.holder hbusy
    obtain ⟨hadvances,hnot⟩ := hj.elim advances_of_holdsWrite advances_of_holdsRead
    exact ⟨j,fun hji => hnot (hji ▸ h),hadvances⟩
  cases hwriter : s.writer with
  | true => exact .inr (hother (.inl hwriter))
  | false =>
    rcases h with hp | ⟨w,hp⟩
    · exact .inl (by simp [step,hp,hwriter])
    · by_cases hreaders : s.readers = 0
      · exact .inl (by simp [step,hp,hwriter,hreaders])
      · exact .inr (hother (.inr (Nat.pos_of_ne_zero hreaders)))

end Progress

/-- When guards are dropped newest first, a count goes to the recorder of the newest guard held when
it was read, whatever other threads do meanwhile, and to nobody else. -/
theorem counts_reach_newest {ρ ι : Type} [DecidableEq ρ] [DecidableEq ι] [Fintype ι] {s : State ρ ι}
    (h : (threads.restrict Nested).Reachable s) :
    s.slot = s.newest ∧
      ∀ r, s.received.count r+tally (Point.carries r) s.point = s.owed.count r := by
  obtain ⟨hchained,hpaid⟩ := paid_reachable h
  exact ⟨slot_newest hchained,hpaid⟩

/-- A recorder whose callback installs another one, which gets the count of the second thread. -/
def reentrant : List (Action Nat (Fin 2)) :=
  [.install 0 7,.lock 0,.access 0,.unlock 0,.record 0,.lock 0,.access 0,.unlock 0,.deliver 0,
    .install 0 8,.lock 0,.access 0,.unlock 0,.record 1,.lock 1,.access 1,.install 0 9]

theorem reentrant_reachable : ∃ s : State Nat (Fin 2), (threads.restrict Nested).Reachable s ∧
    decide (s.slot = some 8 ∧ s.point 0 = .toWrite (.install 9) ∧ s.callbacks 0 = [7]) = true :=
  System.runSteps_reaches (· = State.initial) step isNested rfl reentrant _ (by decide)

theorem counts_reach_newest_reentrant : ∃ s : State Nat (Fin 2), s.callbacks 0 = [7] ∧
    s.newest = some 8 := by
  obtain ⟨s,hs,hwanted⟩ := reentrant_reachable
  obtain ⟨hslot,-,hcallbacks⟩ := of_decide_eq_true hwanted
  exact ⟨s,hcallbacks,(counts_reach_newest hs).1.symm.trans hslot⟩

end PgEmbedSetup.Observability
