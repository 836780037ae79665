import PgEmbedSetup.Library.Tally
import PgEmbedSetup.Library.Text
import PgEmbedSetup.Library.Transition

set_option autoImplicit false

/-!
`orphan_watch.rs` and `orphan_watch_registry.rs`: the watchers a process has spawned, and what
becomes of each, with any number of threads that start and release them.
-/

namespace PgEmbedSetup.Prepare.Registry
open Library

inductive Outcome where
  | disabled
  | notASlot
  | slotUnknown
  | spawned
  | spawnFailed
  | released
  | releaseFailed
  deriving DecidableEq, Repr

/-- What `slot_lock_path` says of a data directory. -/
inductive SlotLookup where
  | slot
  | notSlot
  | unknown

/-- Only `off` turns watchers off. -/
def isDisabled (value : Option Bytes) : Bool := value = some (ascii "off")

/-- The outcome of a request that spawns nothing. -/
def skipped (optOut : Option Bytes) (lookup : SlotLookup) : Option Outcome :=
  if isDisabled optOut then some .disabled
  else match lookup with
    | .slot => none
    | .notSlot => some .notASlot
    | .unknown => some .slotUnknown

/-- Why a watcher is ended: another one took its place, or its cluster has stopped. -/
inductive Reason where
  | replaced
  | released
  deriving DecidableEq, Repr

/-- Where a thread is. A watcher it names is a `Child` it holds. -/
inductive Point (δ : Type) where
  | idle
  | watching (dir : δ)
  | spawning (dir : δ)
  | registering (dir : δ) (pid : Nat)
  | removing (dir : δ)
  | killing (pid : Nat) (reason : Reason)
  | waiting (pid : Nat) (reason : Reason) (killed : Bool)
  /-- About to record `Spawned`. -/
  | reporting
  deriving DecidableEq

inductive Status where
  | running
  | exited
  | reaped
  deriving DecidableEq, Repr

/-- `ended` lists the watchers that `end` has dealt with, why, and whether it worked. -/
structure State (δ ι : Type) where
  watchers : δ → Option Nat
  next : Nat
  status : Nat → Status
  ended : List (Nat × Reason × Bool)
  outcomes : List Outcome
  point : ι → Point δ

inductive Action (δ ι : Type) where
  | watch (i : ι) (dir : δ)
  | release (i : ι) (dir : δ)
  | decide (i : ι) (optOut : Option Bytes) (lookup : SlotLookup)
  | spawn (i : ι) (ok : Bool)
  | register (i : ι)
  | remove (i : ι)
  | kill (i : ι) (ok : Bool)
  | wait (i : ι) (ok : Bool)
  | report (i : ι)
  /-- A watcher exits, killed or by itself. -/
  | exit (pid : Nat)

section Step
variable {δ ι : Type} [DecidableEq δ] [DecidableEq ι]

def State.initial : State δ ι := ⟨fun _ => none,0,fun _ => .reaped,[],[],fun _ => .idle⟩

def State.goto (s : State δ ι) (i : ι) (p : Point δ) : State δ ι :=
  { s with point := Function.update s.point i p }

def State.record (s : State δ ι) (o : Outcome) : State δ ι := { s with outcomes := s.outcomes ++ [o] }

/-- What comes after `end`: a failure is recorded, and a success only if it was asked for. -/
def State.finish (s : State δ ι) (i : ι) (pid : Nat) (reason : Reason) (ok : Bool) : State δ ι :=
  let s := { s with ended := s.ended ++ [(pid,reason,ok)] }
  match reason, ok with
  | .replaced, true => s.goto i .reporting
  | .replaced, false => (s.record .releaseFailed).goto i .reporting
  | .released, true => (s.record .released).goto i .idle
  | .released, false => (s.record .releaseFailed).goto i .idle

/-- `HashMap::insert` under the mutex: the watcher that was there before is the thread's now. -/
def State.register (s : State δ ι) (i : ι) (dir : δ) (pid : Nat) : State δ ι :=
  let s' := { s with watchers := Function.update s.watchers dir (some pid) }
  match s.watchers dir with
  | none => s'.goto i .reporting
  | some old => s'.goto i (.killing old .replaced)

def State.remove (s : State δ ι) (i : ι) (dir : δ) : State δ ι :=
  match s.watchers dir with
  | none => s.goto i .idle
  | some old =>
    { s with watchers := Function.update s.watchers dir none }.goto i (.killing old .released)

def step (s : State δ ι) : Action δ ι → Option (State δ ι)
  | .watch i dir => if s.point i = .idle then some (s.goto i (.watching dir)) else none
  | .release i dir => if s.point i = .idle then some (s.goto i (.removing dir)) else none
  | .decide i optOut lookup =>
    match s.point i with
    | .watching dir =>
      match skipped optOut lookup with
      | some o => some ((s.record o).goto i .idle)
      | none => some (s.goto i (.spawning dir))
    | _ => none
  | .spawn i ok =>
    match s.point i with
    | .spawning dir =>
      if ok then
        some ({ s with
          next := s.next+1
          status := Function.update s.status s.next .running }.goto i (.registering dir s.next))
      else some ((s.record .spawnFailed).goto i .idle)
    | _ => none
  | .register i =>
    match s.point i with
    | .registering dir pid => some (s.register i dir pid)
    | _ => none
  | .remove i =>
    match s.point i with
    | .removing dir => some (s.remove i dir)
    | _ => none
  | .kill i ok =>
    match s.point i with
    | .killing pid reason => some (s.goto i (.waiting pid reason ok))
    | _ => none
  | .wait i ok =>
    match s.point i with
    | .waiting pid reason killed =>
      if ok then
        if s.status pid = .exited then
          some ({ s with status := Function.update s.status pid .reaped }.finish i pid reason killed)
        else none
      else some (s.finish i pid reason false)
    | _ => none
  | .report i => if s.point i = .reporting then some ((s.record .spawned).goto i .idle) else none
  | .exit pid =>
    if s.status pid = .running then
      some { s with status := Function.update s.status pid .exited }
    else none

def threads : System (State δ ι) (Action δ ι) := .ofStep (· = State.initial) step

end Step

/-! ### What a step can do -/

section Moves
variable {δ ι : Type} [DecidableEq δ] [DecidableEq ι]

inductive Moves (s : State δ ι) : State δ ι → Prop where
  | watch {i : ι} (dir : δ) (hp : s.point i = .idle) : Moves s (s.goto i (.watching dir))
  | release {i : ι} (dir : δ) (hp : s.point i = .idle) : Moves s (s.goto i (.removing dir))
  | skip {i : ι} {dir : δ} {o : Outcome} (hp : s.point i = .watching dir)
      (ho : o = .disabled ∨ o = .notASlot ∨ o = .slotUnknown) :
      Moves s ((s.record o).goto i .idle)
  | go {i : ι} {dir : δ} (hp : s.point i = .watching dir) : Moves s (s.goto i (.spawning dir))
  | spawn {i : ι} {dir : δ} (hp : s.point i = .spawning dir) :
      Moves s ({ s with
        next := s.next+1
        status := Function.update s.status s.next .running }.goto i (.registering dir s.next))
  | spawnFailed {i : ι} {dir : δ} (hp : s.point i = .spawning dir) :
      Moves s ((s.record .spawnFailed).goto i .idle)
  | register {i : ι} {dir : δ} {pid : Nat} (hp : s.point i = .registering dir pid) :
      Moves s (s.register i dir pid)
  | remove {i : ι} {dir : δ} (hp : s.point i = .removing dir) : Moves s (s.remove i dir)
  | kill {i : ι} {pid : Nat} {reason : Reason} (ok : Bool) (hp : s.point i = .killing pid reason) :
      Moves s (s.goto i (.waiting pid reason ok))
  | reap {i : ι} {pid : Nat} {reason : Reason} {killed : Bool}
      (hp : s.point i = .waiting pid reason killed) :
      Moves s ({ s with status := Function.update s.status pid .reaped }.finish i pid reason killed)
  | waitFailed {i : ι} {pid : Nat} {reason : Reason} {killed : Bool}
      (hp : s.point i = .waiting pid reason killed) : Moves s (s.finish i pid reason false)
  | report {i : ι} (hp : s.point i = .reporting) : Moves s ((s.record .spawned).goto i .idle)
  | exit {pid : Nat} (hrunning : s.status pid = .running) :
      Moves s { s with status := Function.update s.status pid .exited }

theorem skipped_outcome {optOut : Option Bytes} {lookup : SlotLookup} {o : Outcome}
    (h : skipped optOut lookup = some o) :
    o = .disabled ∨ o = .notASlot ∨ o = .slotUnknown := by
  unfold skipped at h
  split at h
  · cases h
    exact .inl rfl
  · cases lookup with
    | slot => cases h
    | notSlot =>
      cases h
      exact .inr (.inl rfl)
    | unknown =>
      cases h
      exact .inr (.inr rfl)

theorem step_moves {s t : State δ ι} {a : Action δ ι} (h : step s a = some t) : Moves s t := by
  cases a with
  | watch i dir =>
    obtain ⟨hp,ht⟩ := Option.ite_none_right_eq_some.mp h
    cases ht
    exact .watch dir hp
  | release i dir =>
    obtain ⟨hp,ht⟩ := Option.ite_none_right_eq_some.mp h
    cases ht
    exact .release dir hp
  | decide i optOut lookup =>
    unfold step at h
    dsimp only at h
    split at h
    · next hp =>
      split at h
      · next ho =>
        cases h
        exact .skip hp (skipped_outcome ho)
      · cases h
        exact .go hp
    · cases h
  | spawn i ok =>
    unfold step at h
    dsimp only at h
    split at h
    · next hp =>
      split at h
      · cases h
        exact .spawn hp
      · cases h
        exact .spawnFailed hp
    · cases h
  | register i =>
    unfold step at h
    dsimp only at h
    split at h
    · next hp =>
      cases h
      exact .register hp
    · cases h
  | remove i =>
    unfold step at h
    dsimp only at h
    split at h
    · next hp =>
      cases h
      exact .remove hp
    · cases h
  | kill i ok =>
    unfold step at h
    dsimp only at h
    split at h
    · next hp =>
      cases h
      exact .kill ok hp
    · cases h
  | wait i ok =>
    unfold step at h
    dsimp only at h
    split at h
    · next hp =>
      split at h
      · split at h
        · cases h
          exact .reap hp
        · cases h
      · cases h
        exact .waitFailed hp
    · cases h
  | report i =>
    obtain ⟨hp,ht⟩ := Option.ite_none_right_eq_some.mp h
    cases ht
    exact .report hp
  | exit pid =>
    obtain ⟨hp,ht⟩ := Option.ite_none_right_eq_some.mp h
    cases ht
    exact .exit hp

theorem moves_invariant {I : State δ ι → Prop} (hinit : I State.initial)
    (hmoves : ∀ s t, I s → Moves s t → I t) {s : State δ ι} (h : threads.Reachable s) : I s := by
  refine threads.invariant ?_ ?_ h
  · rintro s rfl
    exact hinit
  · exact fun s a t hs hstep => hmoves s t hs (step_moves hstep)

end Moves

/-! ### Every watcher is in one place -/

inductive Place (δ ι : Type) where
  | registered (dir : δ)
  | held (i : ι)
  | ended

/-- The `Child` a thread holds. -/
def Point.child {δ : Type} : Point δ → Option Nat
  | .registering _ pid | .killing pid _ | .waiting pid _ _ => some pid
  | .idle | .watching _ | .spawning _ | .removing _ | .reporting => none

def State.At {δ ι : Type} (s : State δ ι) (pid : Nat) : Place δ ι → Prop
  | .registered dir => s.watchers dir = some pid
  | .held i => (s.point i).child = some pid
  | .ended => pid ∈ s.ended.map Prod.fst

section Placement
variable {τ π : Type}

/-- What is known is in exactly one place, and nothing else is anywhere. -/
structure Placed (known : τ → Prop) (At : τ → π → Prop) : Prop where
  known : ∀ q, known q ↔ ∃ p, At q p
  unique : ∀ q p p', At q p → At q p' → p = p'

theorem Placed.put {known : τ → Prop} {At B : τ → π → Prop} (h : Placed known At) {q : τ} {p : π}
    (hat : ∀ r x, B r x ↔ (r = q ∧ x = p) ∨ (r ≠ q ∧ At r x)) :
    Placed (fun r => r = q ∨ known r) B := by
  constructor
  · intro r
    by_cases hr : r = q
    · exact ⟨fun _ => ⟨p,(hat r p).mpr (.inl ⟨hr,rfl⟩)⟩,fun _ => .inl hr⟩
    · rw [or_iff_right hr,h.known r]
      exact exists_congr fun x => by rw [hat]; simp [hr]
  · intro r x x' hx hx'
    rcases (hat r x).mp hx with ⟨rfl,rfl⟩ | ⟨hr,hx⟩
    · rcases (hat r x').mp hx' with ⟨-,rfl⟩ | ⟨hr,-⟩
      · rfl
      · exact absurd rfl hr
    · rcases (hat r x').mp hx' with ⟨rfl,-⟩ | ⟨-,hx'⟩
      · exact absurd rfl hr
      · exact h.unique r x x' hx hx'

/-- What was known before is moved. -/
theorem Placed.move {known : τ → Prop} {At At' : τ → π → Prop} (h : Placed known At) {q : τ} {p : π}
    (hq : known q) (hat : ∀ r x, At' r x ↔ (r = q ∧ x = p) ∨ (r ≠ q ∧ At r x)) :
    Placed known At' := by
  have hput := h.put hat
  have hknown : (fun r => r = q ∨ known r) = known := by
    funext r
    exact propext (or_iff_right_of_imp fun hr => hr ▸ hq)
  rwa [hknown] at hput

end Placement

section Children
variable {δ ι : Type} [DecidableEq ι] {s : State δ ι}

theorem child_goto {i j : ι} {p : Point δ} :
    ((s.goto i p).point j).child = if j = i then p.child else (s.point j).child := by
  simp only [State.goto,Function.update_apply]
  split <;> rfl

/-- A thread that keeps the child it holds, or goes on holding none. -/
theorem at_goto {i : ι} {p : Point δ} (h : p.child = (s.point i).child) :
    (s.goto i p).At = s.At := by
  funext q x
  cases x with
  | registered dir => rfl
  | held j =>
    change (((s.goto i p).point j).child = some q) = ((s.point j).child = some q)
    rw [child_goto]
    split
    · next hj => rw [h,hj]
    · rfl
  | ended => rfl

section Finish
variable {i : ι} {pid : Nat} {reason : Reason} {ok : Bool}

@[simp] theorem finish_watchers : (s.finish i pid reason ok).watchers = s.watchers := by
  cases reason <;> cases ok <;> rfl

@[simp] theorem finish_next : (s.finish i pid reason ok).next = s.next := by
  cases reason <;> cases ok <;> rfl

@[simp] theorem finish_status : (s.finish i pid reason ok).status = s.status := by
  cases reason <;> cases ok <;> rfl

@[simp] theorem finish_ended :
    (s.finish i pid reason ok).ended = s.ended ++ [(pid,reason,ok)] := by
  cases reason <;> cases ok <;> rfl

theorem finish_child (j : ι) : ((s.finish i pid reason ok).point j).child =
    if j = i then none else (s.point j).child := by
  cases reason <;> cases ok <;> exact child_goto

end Finish
end Children

section Places
variable {δ ι : Type} [DecidableEq δ] [DecidableEq ι] {s t : State δ ι}

def State.Tracked (s : State δ ι) : Prop := Placed (· < s.next) s.At

omit [DecidableEq δ] [DecidableEq ι] in
theorem tracked_initial : State.Tracked (State.initial : State δ ι) := by
  have hnone : ∀ pid (p : Place δ ι), ¬ State.initial.At pid p := by
    intro pid p
    cases p <;> simp [State.At,State.initial,Point.child]
  exact ⟨fun q => ⟨fun h => absurd h (Nat.not_lt_zero q),fun ⟨p,hp⟩ => absurd hp (hnone q p)⟩,
    fun q p _ hp => absurd hp (hnone q p)⟩

omit [DecidableEq δ] [DecidableEq ι] in
theorem Tracked.elsewhere (hs : s.Tracked) {pid : Nat} {p x : Place δ ι} (hp : s.At pid p)
    (hne : x ≠ p) {r : Nat} (hx : s.At r x) : r ≠ pid := by
  rintro rfl
  exact hne (hs.unique r x p hx hp)

omit [DecidableEq δ] in
theorem tracked_spawn {i : ι} {p : Point δ} (hs : s.Tracked) (hp : (s.point i).child = none)
    (hchild : p.child = some s.next) (status : Nat → Status) :
    State.Tracked ({ s with next := s.next+1, status := status }.goto i p) := by
  have hnew : ∀ x, ¬ s.At s.next x := fun x hx =>
    absurd ((hs.known s.next).mpr ⟨x,hx⟩) (Nat.lt_irrefl _)
  have hput := hs.put (q := s.next) (p := .held i)
    (B := ({ s with next := s.next+1, status := status }.goto i p).At) ?_
  · unfold State.Tracked
    have hknown : (fun r => r = s.next ∨ r < s.next) = (· < s.next+1) := by
      funext r
      exact propext (by omega)
    rwa [hknown] at hput
  · intro r x
    cases x with
    | registered dir =>
      change s.watchers dir = some r ↔ _
      refine ⟨fun h => .inr ⟨?_,h⟩,fun h => ?_⟩
      · rintro rfl
        exact hnew (.registered dir) h
      · rcases h with ⟨-,h⟩ | ⟨-,h⟩
        · cases h
        · exact h
    | held j =>
      change (((State.goto { s with next := s.next+1, status := status } i p).point j).child
        = some r) ↔ _
      rw [child_goto]
      by_cases hj : j = i
      · subst hj
        simp only [if_true,hchild,Option.some.injEq,and_true,State.At,hp]
        simp [eq_comm]
      · rw [if_neg hj]
        have hne : Place.held j ≠ (Place.held i : Place δ ι) := fun h => hj (by cases h; rfl)
        simp only [hne,and_false,false_or]
        refine ⟨fun h => ⟨?_,h⟩,fun h => h.2⟩
        rintro rfl
        exact hnew (.held j) h
    | ended =>
      change r ∈ s.ended.map Prod.fst ↔ _
      refine ⟨fun h => .inr ⟨?_,h⟩,fun h => ?_⟩
      · rintro rfl
        exact hnew .ended h
      · rcases h with ⟨-,h⟩ | ⟨-,h⟩
        · cases h
        · exact h

omit [DecidableEq δ] in
theorem tracked_finish {i : ι} {pid : Nat} {reason : Reason} {ok : Bool} (hs : s.Tracked)
    (hp : (s.point i).child = some pid) : (s.finish i pid reason ok).Tracked := by
  have hheld : s.At pid (.held i) := hp
  unfold State.Tracked
  rw [finish_next]
  refine hs.move (p := .ended) ((hs.known pid).mpr ⟨_,hheld⟩) fun r x => ?_
  cases x with
  | registered dir =>
    simp only [State.At,finish_watchers,reduceCtorEq,and_false,false_or]
    refine ⟨fun h => ⟨Tracked.elsewhere hs hheld (x := .registered dir) (by simp) h,h⟩,fun h => h.2⟩
  | held j =>
    simp only [State.At,finish_child,reduceCtorEq,and_false,false_or]
    by_cases hj : j = i
    · subst hj
      simp [hp,eq_comm]
    · rw [if_neg hj]
      refine ⟨fun h => ⟨Tracked.elsewhere hs hheld (x := .held j) (by simpa using hj) h,h⟩,
        fun h => h.2⟩
  | ended =>
    simp only [State.At,finish_ended,List.map_append,List.map_cons,List.map_nil,List.mem_append,
      List.mem_singleton,and_true]
    tauto

/-- The mutex is held while the map changes, so the old child passes to the thread at once. -/
theorem tracked_register {i : ι} {dir : δ} {pid : Nat} (hs : s.Tracked)
    (hp : s.point i = .registering dir pid) : (s.register i dir pid).Tracked := by
  have hheld : s.At pid (.held i) := by
    simp only [State.At,hp,Point.child]
  have hknown := (hs.known pid).mpr ⟨_,hheld⟩
  unfold State.register
  cases hold : s.watchers dir with
  | none =>
    refine hs.move (p := .registered dir) hknown fun r x => ?_
    cases x with
    | registered d =>
      simp only [State.At,State.goto,Function.update_apply,Place.registered.injEq]
      by_cases hd : d = dir
      · subst hd
        simp [hold,eq_comm]
      · rw [if_neg hd]
        simp only [hd,and_false,false_or]
        exact ⟨fun h => ⟨Tracked.elsewhere hs hheld (x := .registered d) (by simp) h,h⟩,
          fun h => h.2⟩
    | held j =>
      simp only [State.At,child_goto,reduceCtorEq,and_false,false_or]
      by_cases hj : j = i
      · subst hj
        simp [hp,Point.child,eq_comm]
      · rw [if_neg hj]
        exact ⟨fun h => ⟨Tracked.elsewhere hs hheld (x := .held j) (by simpa using hj) h,h⟩,
          fun h => h.2⟩
    | ended =>
      simp only [State.At,reduceCtorEq,and_false,false_or]
      exact ⟨fun h => ⟨Tracked.elsewhere hs hheld (x := .ended) (by simp) h,h⟩,fun h => h.2⟩
  | some old =>
    have hmap : s.At old (.registered dir) := hold
    have hne : pid ≠ old := Tracked.elsewhere hs hmap (x := .held i) (by simp) hheld
    -- the thread holds both for a moment
    have hboth : Placed (· < s.next)
        (fun r x => (r = old ∧ x = .held i) ∨ (r ≠ old ∧ s.At r x)) :=
      hs.move ((hs.known old).mpr ⟨_,hmap⟩) fun _ _ => Iff.rfl
    refine hboth.move (p := .registered dir) hknown fun r x => ?_
    cases x with
    | registered d =>
      simp only [State.At,State.goto,Function.update_apply,Place.registered.injEq,reduceCtorEq,
        and_false,false_or]
      by_cases hd : d = dir
      · subst hd
        simp only [if_true,hold,Option.some.injEq]
        grind
      · rw [if_neg hd]
        simp only [hd,and_false,false_or]
        exact ⟨fun h => ⟨Tracked.elsewhere hs hheld (x := .registered d) (by simp) h,
          Tracked.elsewhere hs hmap (x := .registered d) (by simpa using hd) h,h⟩,fun h => h.2.2⟩
    | held j =>
      simp only [State.At,child_goto,reduceCtorEq,and_false,false_or,Place.held.injEq]
      by_cases hj : j = i
      · subst hj
        simp only [if_true,hp,Point.child,Option.some.injEq,and_true]
        grind
      · rw [if_neg hj]
        simp only [hj,and_false,false_or]
        exact ⟨fun h => ⟨Tracked.elsewhere hs hheld (x := .held j) (by simpa using hj) h,
          Tracked.elsewhere hs hmap (x := .held j) (by simp) h,h⟩,fun h => h.2.2⟩
    | ended =>
      simp only [State.At,reduceCtorEq,and_false,false_or]
      exact ⟨fun h => ⟨Tracked.elsewhere hs hheld (x := .ended) (by simp) h,
        Tracked.elsewhere hs hmap (x := .ended) (by simp) h,h⟩,fun h => h.2.2⟩

theorem tracked_remove {i : ι} {dir : δ} (hs : s.Tracked) (hp : s.point i = .removing dir) :
    (s.remove i dir).Tracked := by
  unfold State.remove
  cases hold : s.watchers dir with
  | none =>
    change Placed (· < s.next) (s.goto i .idle).At
    rwa [at_goto (by rw [hp]; rfl)]
  | some old =>
    have hmap : s.At old (.registered dir) := hold
    refine hs.move (p := .held i) ((hs.known old).mpr ⟨_,hmap⟩) fun r x => ?_
    cases x with
    | registered d =>
      simp only [State.At,State.goto,Function.update_apply,reduceCtorEq,and_false,false_or]
      by_cases hd : d = dir
      · subst hd
        simp [hold,eq_comm]
      · rw [if_neg hd]
        exact ⟨fun h => ⟨Tracked.elsewhere hs hmap (x := .registered d) (by simpa using hd) h,h⟩,
          fun h => h.2⟩
    | held j =>
      simp only [State.At,child_goto,Place.held.injEq]
      by_cases hj : j = i
      · subst hj
        simp [hp,Point.child,eq_comm]
      · rw [if_neg hj]
        simp only [hj,and_false,false_or]
        exact ⟨fun h => ⟨Tracked.elsewhere hs hmap (x := .held j) (by simp) h,h⟩,fun h => h.2⟩
    | ended =>
      simp only [State.At,reduceCtorEq,and_false,false_or]
      exact ⟨fun h => ⟨Tracked.elsewhere hs hmap (x := .ended) (by simp) h,h⟩,fun h => h.2⟩

omit [DecidableEq δ] in
theorem tracked_goto {i : ι} {p : Point δ} (hs : s.Tracked) (h : p.child = (s.point i).child) :
    (s.goto i p).Tracked := by
  change Placed (· < s.next) (s.goto i p).At
  rwa [at_goto h]

theorem tracked_moves (hs : s.Tracked) (hmoves : Moves s t) : t.Tracked := by
  cases hmoves with
  | watch dir hp => exact tracked_goto hs (by rw [hp]; rfl)
  | release dir hp => exact tracked_goto hs (by rw [hp]; rfl)
  | skip hp ho => exact tracked_goto (s := s.record _) hs (by simp [State.record,hp,Point.child])
  | go hp => exact tracked_goto hs (by rw [hp]; rfl)
  | spawn hp => exact tracked_spawn hs (by rw [hp]; rfl) rfl _
  | spawnFailed hp =>
    exact tracked_goto (s := s.record _) hs (by simp [State.record,hp,Point.child])
  | register hp => exact tracked_register hs hp
  | remove hp => exact tracked_remove hs hp
  | kill ok hp => exact tracked_goto hs (by rw [hp]; rfl)
  | @reap i pid reason killed hp =>
    exact tracked_finish (s := { s with status := Function.update s.status pid .reaped }) hs
      (by simp [hp,Point.child])
  | waitFailed hp => exact tracked_finish hs (by rw [hp]; rfl)
  | report hp => exact tracked_goto (s := s.record _) hs (by simp [State.record,hp,Point.child])
  | exit hrunning => exact hs

end Places

/-! ### What is on record -/

/-- What `end` leaves on record. -/
def Reason.outcome : Reason → Bool → List Outcome
  | .replaced, true => []
  | .released, true => [.released]
  | .replaced, false | .released, false => [.releaseFailed]

/-- Whether the thread has yet to report the watcher it has spawned. -/
def Point.owes {δ : Type} : Point δ → Nat
  | .registering _ _ | .killing _ .replaced | .waiting _ .replaced _ | .reporting => 1
  | .idle | .watching _ | .spawning _ | .removing _ | .killing _ .released
  | .waiting _ .released _ => 0

section Records
variable {δ ι : Type} [DecidableEq δ] [DecidableEq ι] {s t : State δ ι} {i : ι}

omit [DecidableEq δ] in
@[simp] theorem finish_outcomes {pid : Nat} {reason : Reason} {ok : Bool} :
    (s.finish i pid reason ok).outcomes = s.outcomes ++ reason.outcome ok := by
  cases reason <;> cases ok <;> simp [State.finish,State.record,State.goto,Reason.outcome]

section Map
variable {dir : δ} {pid : Nat}

@[simp] theorem register_outcomes : (s.register i dir pid).outcomes = s.outcomes := by
  unfold State.register
  split <;> rfl

@[simp] theorem register_ended : (s.register i dir pid).ended = s.ended := by
  unfold State.register
  split <;> rfl

@[simp] theorem register_status : (s.register i dir pid).status = s.status := by
  unfold State.register
  split <;> rfl

@[simp] theorem register_next : (s.register i dir pid).next = s.next := by
  unfold State.register
  split <;> rfl

@[simp] theorem remove_outcomes : (s.remove i dir).outcomes = s.outcomes := by
  unfold State.remove
  split <;> rfl

@[simp] theorem remove_ended : (s.remove i dir).ended = s.ended := by
  unfold State.remove
  split <;> rfl

@[simp] theorem remove_status : (s.remove i dir).status = s.status := by
  unfold State.remove
  split <;> rfl

@[simp] theorem remove_next : (s.remove i dir).next = s.next := by
  unfold State.remove
  split <;> rfl

end Map

/-- The record says how many watchers were ended as asked and how many could not be. -/
structure Recorded (s : State δ ι) : Prop where
  released : s.outcomes.count .released = s.ended.countP fun e => e.2.1 = .released && e.2.2
  failed : s.outcomes.count .releaseFailed = s.ended.countP fun e => !e.2.2
  once : (s.ended.map Prod.fst).Nodup
  reaped : ∀ pid reason, (pid,reason,true) ∈ s.ended → s.status pid = .reaped

omit [DecidableEq δ] [DecidableEq ι] in
/-- Nothing but the outcomes that say how a watcher ended has changed. -/
theorem Recorded.keep (hs : Recorded s) {o : List Outcome} (ho : t.outcomes = s.outcomes ++ o)
    (hreleased : .released ∉ o) (hfailed : .releaseFailed ∉ o) (hended : t.ended = s.ended)
    (hstatus : ∀ pid, s.status pid = .reaped → pid < s.next → t.status pid = .reaped)
    (htracked : s.Tracked) : Recorded t := by
  refine ⟨?_,?_,?_,fun pid reason hmem => ?_⟩
  · rw [ho,hended,List.count_append,List.count_eq_zero_of_not_mem hreleased,Nat.add_zero]
    exact hs.released
  · rw [ho,hended,List.count_append,List.count_eq_zero_of_not_mem hfailed,Nat.add_zero]
    exact hs.failed
  · rw [hended]
    exact hs.once
  · rw [hended] at hmem
    have hat : s.At pid .ended := List.mem_map_of_mem hmem
    exact hstatus pid (hs.reaped pid reason hmem) ((htracked.known pid).mpr ⟨_,hat⟩)

omit [DecidableEq δ] in
theorem Recorded.finish (hs : Recorded s) (htracked : s.Tracked) {pid : Nat} {reason : Reason}
    {ok : Bool} (hp : (s.point i).child = some pid) {status : Nat → Status}
    (hstatus : ∀ pid, s.status pid = .reaped → status pid = .reaped)
    (hok : ok = true → status pid = .reaped) :
    Recorded ({ s with status := status }.finish i pid reason ok) := by
  refine ⟨?_,?_,?_,fun q r hmem => ?_⟩
  · simp only [finish_outcomes,finish_ended,List.count_append,List.countP_append,hs.released]
    cases reason <;> cases ok <;> rfl
  · simp only [finish_outcomes,finish_ended,List.count_append,List.countP_append,hs.failed]
    cases reason <;> cases ok <;> rfl
  · have hheld : s.At pid (.held i) := hp
    simp only [finish_ended,List.map_append,List.map_cons,List.map_nil]
    refine List.nodup_append'.mpr ⟨hs.once,List.nodup_singleton _,?_⟩
    rw [List.disjoint_singleton]
    intro hmem
    cases htracked.unique pid _ .ended hheld hmem
  · rw [finish_status]
    simp only [finish_ended,List.mem_append,List.mem_singleton,Prod.mk.injEq] at hmem
    rcases hmem with hmem | ⟨rfl,-,rfl⟩
    · exact hstatus q (hs.reaped q r hmem)
    · exact hok rfl

theorem recorded_moves (hs : Recorded s) (htracked : s.Tracked) (hmoves : Moves s t) :
    Recorded t := by
  cases hmoves with
  | watch dir hp | release dir hp | go hp | kill ok hp =>
    exact hs.keep (List.append_nil _).symm (by simp) (by simp) rfl (fun _ h _ => h) htracked
  | @skip i dir o hp ho =>
    have hne : o ≠ .released ∧ o ≠ .releaseFailed := by
      rcases ho with rfl | rfl | rfl <;> simp
    exact hs.keep (o := [o]) rfl (by simpa using hne.1.symm) (by simpa using hne.2.symm) rfl
      (fun _ h _ => h) htracked
  | spawn hp =>
    refine hs.keep (List.append_nil _).symm (by simp) (by simp) rfl (fun pid h hlt => ?_) htracked
    simpa [State.goto,Function.update_of_ne (Nat.ne_of_lt hlt)] using h
  | spawnFailed hp =>
    exact hs.keep (o := [.spawnFailed]) rfl (by simp) (by simp) rfl (fun _ h _ => h) htracked
  | register hp =>
    exact hs.keep (o := []) (by simp) (by simp) (by simp) register_ended
      (fun _ h _ => by rwa [register_status]) htracked
  | remove hp =>
    exact hs.keep (o := []) (by simp) (by simp) (by simp) remove_ended
      (fun _ h _ => by rwa [remove_status]) htracked
  | @reap i pid reason killed hp =>
    refine hs.finish htracked (by rw [hp]; rfl) (fun q hq => ?_)
      (fun _ => Function.update_self pid _ _)
    rw [Function.update_apply]
    split
    · rfl
    · exact hq
  | waitFailed hp =>
    exact hs.finish htracked (by rw [hp]; rfl) (fun _ h => h) (fun h => by cases h)
  | report hp =>
    exact hs.keep (o := [.spawned]) rfl (by simp) (by simp) rfl (fun _ h _ => h) htracked
  | @exit pid hrunning =>
    refine hs.keep (List.append_nil _).symm (by simp) (by simp) rfl (fun q hq _ => ?_) htracked
    have hne : q ≠ pid := by
      rintro rfl
      rw [hq] at hrunning
      cases hrunning
    simpa [Function.update_of_ne hne] using hq

/-- A watcher that has not been dealt with has not been reaped. -/
def State.Unreaped (s : State δ ι) : Prop :=
  ∀ pid p, s.At pid p → p ≠ .ended → s.status pid ≠ .reaped

omit [DecidableEq δ] [DecidableEq ι] in
/-- No watcher comes back from where it was dealt with. -/
theorem State.Unreaped.keep (hs : s.Unreaped) (htracked : s.Tracked) (htracked' : t.Tracked)
    (hended : ∀ e ∈ s.ended, e ∈ t.ended)
    (hstatus : ∀ q, q < t.next → ¬ t.At q .ended → t.status q = .reaped →
      q < s.next ∧ s.status q = .reaped) : t.Unreaped := by
  intro q p hp hne hreaped
  have hnot : ¬ t.At q .ended := fun hq => hne (htracked'.unique q p .ended hp hq)
  obtain ⟨hlt,hreaped⟩ := hstatus q ((htracked'.known q).mpr ⟨p,hp⟩) hnot hreaped
  obtain ⟨x,hx⟩ := (htracked.known q).mp hlt
  refine hs q x hx ?_ hreaped
  rintro rfl
  obtain ⟨e,he,rfl⟩ := List.mem_map.mp hx
  exact hnot (List.mem_map_of_mem (hended e he))

theorem unreaped_moves (hs : s.Unreaped) (htracked : s.Tracked) (hmoves : Moves s t) :
    t.Unreaped := by
  have htracked' := tracked_moves htracked hmoves
  cases hmoves with
  | watch | release | skip | go | spawnFailed | kill | report =>
    exact hs.keep htracked htracked' (fun _ he => he) fun q hlt _ h => ⟨hlt,h⟩
  | spawn hp =>
    refine hs.keep htracked htracked' (fun _ he => he) fun q hlt _ h => ?_
    simp only [State.goto] at h hlt
    have hne : q ≠ s.next := by
      rintro rfl
      simp at h
    exact ⟨by omega,by rwa [Function.update_of_ne hne] at h⟩
  | register hp =>
    refine hs.keep htracked htracked' (fun e he => by rwa [register_ended]) fun q hlt _ h => ?_
    exact ⟨by rwa [register_next] at hlt,by rwa [register_status] at h⟩
  | remove hp =>
    refine hs.keep htracked htracked' (fun e he => by rwa [remove_ended]) fun q hlt _ h => ?_
    exact ⟨by rwa [remove_next] at hlt,by rwa [remove_status] at h⟩
  | @reap i pid reason killed hp =>
    refine hs.keep htracked htracked' (fun e he => by simp [he]) fun q hlt hnot h => ?_
    have hne : q ≠ pid := by
      rintro rfl
      exact hnot (by simp [State.At])
    rw [finish_next] at hlt
    simp only [finish_status,Function.update_of_ne hne] at h
    exact ⟨hlt,h⟩
  | waitFailed hp =>
    refine hs.keep htracked htracked' (fun e he => by simp [he]) fun q hlt _ h => ?_
    exact ⟨by rwa [finish_next] at hlt,by rwa [finish_status] at h⟩
  | @exit pid hrunning =>
    refine hs.keep htracked htracked' (fun _ he => he) fun q hlt _ h => ⟨hlt,?_⟩
    simp only [Function.update_apply] at h
    split at h
    · cases h
    · exact h

variable [Fintype ι]

/-- The watchers that are spawned and not yet reported. -/
def State.owed (s : State δ ι) : Nat := tally Point.owes s.point

/-- Each watcher spawned is reported once. -/
def State.Reported (s : State δ ι) : Prop := s.next = s.outcomes.count .spawned+s.owed

omit [DecidableEq δ] in
/-- A thread that moves pays what it no longer owes with a report. -/
theorem State.Reported.move (hs : s.Reported) {u : State δ ι} {p : Point δ}
    (hpoint : u.point = s.point)
    (hpaid : u.next+(s.point i).owes+s.outcomes.count .spawned =
      s.next+p.owes+u.outcomes.count .spawned) : (u.goto i p).Reported := by
  have howed : tally Point.owes (Function.update s.point i p)+(s.point i).owes =
      tally Point.owes s.point+p.owes := tally_update i p
  unfold State.Reported State.owed at hs ⊢
  simp only [State.goto,hpoint]
  omega

omit [DecidableEq δ] in
theorem State.Reported.finish (hs : s.Reported) {pid : Nat} {reason : Reason} {killed ok : Bool}
    (hp : s.point i = .waiting pid reason killed) (status : Nat → Status) :
    ({ s with status := status }.finish i pid reason ok).Reported := by
  cases reason <;> cases ok <;>
    exact hs.move rfl (by simp [hp,Point.owes,State.record,List.count_append])

theorem reported_moves (hs : s.Reported) (hmoves : Moves s t) : t.Reported := by
  cases hmoves with
  | watch dir hp | release dir hp | go hp => exact hs.move rfl (by simp [hp,Point.owes])
  | @skip i dir o hp ho =>
    have hne : o ≠ .spawned := by rcases ho with rfl | rfl | rfl <;> simp
    exact hs.move rfl (by simp [hp,Point.owes,State.record,List.count_append,hne])
  | spawn hp => exact hs.move rfl (by simp [hp,Point.owes])
  | spawnFailed hp =>
    exact hs.move rfl (by simp [hp,Point.owes,State.record,List.count_append])
  | @register i dir pid hp =>
    unfold State.register
    cases s.watchers dir with
    | none => exact hs.move rfl (by simp [hp,Point.owes])
    | some old => exact hs.move rfl (by simp [hp,Point.owes])
  | @remove i dir hp =>
    unfold State.remove
    cases s.watchers dir with
    | none => exact hs.move rfl (by simp [hp,Point.owes])
    | some old => exact hs.move rfl (by simp [hp,Point.owes])
  | @kill i pid reason ok hp =>
    cases reason <;> exact hs.move rfl (by simp [hp,Point.owes])
  | reap hp => exact hs.finish hp _
  | waitFailed hp => exact hs.finish hp s.status
  | report hp => exact hs.move rfl (by simp [hp,Point.owes,State.record,List.count_append]; omega)
  | exit hrunning => exact hs

end Records

section Reachable
variable {δ ι : Type} [DecidableEq δ] [DecidableEq ι] [Fintype ι] {s : State δ ι}

structure Accounted (s : State δ ι) : Prop where
  tracked : s.Tracked
  recorded : Recorded s
  unreaped : s.Unreaped
  reported : s.Reported

omit [DecidableEq δ] [DecidableEq ι] in
theorem accounted_initial : Accounted (State.initial : State δ ι) := by
  refine ⟨tracked_initial,⟨rfl,rfl,List.nodup_nil,fun _ _ h => by cases h⟩,fun pid p hp _ => ?_,?_⟩
  · exact absurd ((tracked_initial.known pid).mpr ⟨p,hp⟩) (Nat.not_lt_zero pid)
  · simp [State.Reported,State.initial,State.owed,tally,Point.owes]

theorem accounted_reachable (h : threads.Reachable s) : Accounted s :=
  moves_invariant accounted_initial (fun _ _ hs hmoves =>
    ⟨tracked_moves hs.tracked hmoves,recorded_moves hs.recorded hs.tracked hmoves,
      unreaped_moves hs.unreaped hs.tracked hmoves,reported_moves hs.reported hmoves⟩) h

end Reachable

/-- However threads start and release watchers, a watcher is in the registry, in one thread's hands
or dealt with, and in one place only; what is on record adds up; only a watcher that has not been
reaped is killed; and once no thread is busy, one that was neither registered nor reaped has left a
failure on record. -/
theorem watchers_accounted {δ ι : Type} [DecidableEq δ] [DecidableEq ι] [Fintype ι]
    {s : State δ ι} (h : threads.Reachable s) :
    (∀ pid, pid < s.next ↔ ∃ p, s.At pid p) ∧
      (∀ pid p p', s.At pid p → s.At pid p' → p = p') ∧ (s.ended.map Prod.fst).Nodup ∧
      s.outcomes.count .released = s.ended.countP (fun e => e.2.1 = .released && e.2.2) ∧
      s.outcomes.count .releaseFailed = s.ended.countP (fun e => !e.2.2) ∧
      s.next = s.outcomes.count .spawned+s.owed ∧
      (∀ i pid reason, s.point i = .killing pid reason → s.status pid ≠ .reaped) ∧
      ((∀ i, s.point i = .idle) → ∀ pid < s.next, s.status pid ≠ .reaped →
        (∃ dir, s.watchers dir = some pid) ∨ ∃ reason, (pid,reason,false) ∈ s.ended) := by
  obtain ⟨htracked,hrecorded,hunreaped,hreported⟩ := accounted_reachable h
  refine ⟨htracked.known,htracked.unique,hrecorded.once,hrecorded.released,hrecorded.failed,
    hreported,fun i pid reason hp => ?_,fun hidle pid hlt hstatus => ?_⟩
  · refine hunreaped pid (.held i) ?_ (by simp)
    simp only [State.At,hp,Point.child]
  · obtain ⟨p,hp⟩ := (htracked.known pid).mp hlt
    cases p with
    | registered dir => exact .inl ⟨dir,hp⟩
    | held i =>
      simp only [State.At,hidle i,Point.child] at hp
      cases hp
    | ended =>
      obtain ⟨⟨q,reason,ok⟩,hmem,rfl⟩ := List.mem_map.mp hp
      cases ok with
      | true => exact absurd (hrecorded.reaped q reason hmem) hstatus
      | false => exact .inr ⟨reason,hmem⟩

/-- The second thread takes the place of the first one's watcher, which cannot be killed. -/
def replacing : List (Action Unit Bool) :=
  [.watch false (),.decide false none .slot,.spawn false true,.watch true (),
    .decide true none .slot,.spawn true true,.register false,.report false,.register true,
    .kill true false,.wait true false,.report true]

theorem watchers_accounted_replacing : ∃ s : State Unit Bool, s.status 0 = .running ∧
    s.next = 2 ∧ ((∃ dir, s.watchers dir = some 0) ∨ ∃ reason, (0,reason,false) ∈ s.ended) := by
  obtain ⟨s,hs,hwanted⟩ := System.runSteps_reaches (· = State.initial) step (fun _ _ => true) rfl
    replacing (fun s => decide (s.status 0 = .running ∧ s.next = 2 ∧ ∀ i, s.point i = .idle))
    (by decide)
  obtain ⟨hstatus,hnext,hidle⟩ := of_decide_eq_true hwanted
  obtain ⟨-,-,-,-,-,-,-,hquiet⟩ := watchers_accounted (System.reachable_of_restrict _ hs)
  exact ⟨s,hstatus,hnext,hquiet hidle 0 (by omega) (by simp [hstatus])⟩

end PgEmbedSetup.Prepare.Registry
