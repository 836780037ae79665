import PgEmbedSetup.Templates.History

set_option autoImplicit false

/-! The calls of one name take turns, and calls of different names do not wait for each other. -/

namespace PgEmbedSetup.Templates
open Library

variable {calls : List Template} {s : State} {ghosts : List Ghost}

/-- The template an operation between taking and freeing the lock is about. -/
def Op.region : Op → Option Template
  | .databaseExists _ t | .createDatabase _ t | .setupFn _ t | .dropDatabase _ t => some t
  | .entry _ | .lock _ | .unlock _ _ | .ended _ _ _ => none

def nextOp (s : State) (i : Nat) : Option Op := (s.threads[i]?).bind Process.nextCall

/-- The call is at its check, create, setup or rollback drop, for a template of this name. -/
def Inside (s : State) (i : Nat) (name : Text) : Prop :=
  ∃ op t, nextOp s i = some op ∧ op.region = some t ∧ t.name = name

/-- The call cannot go on until others have. -/
def Waits (s : State) (i : Nat) : Prop :=
  ∃ op, nextOp s i = some op ∧ ∀ r, answer s.world op r = none

/-- The call has the lock of its name. -/
def Holds (s : State) (i : Nat) : Prop :=
  ∃ op, nextOp s i = some op ∧ (op.region.isSome = true ∨ ∃ m p, op = .unlock m p)

structure TakesTurns (calls : List Template) (s : State) : Prop where
  exclusive : ∀ i j name, Inside s i name → Inside s j name → i = j
  once : ∀ t, Once s.world.events t
  rollback : DropsOwn s.world.events
  /-- What fails a call is an operation of its own, not a lock that a panic has poisoned. -/
  ends : EndsAccounted s.world.events
  waits : ∀ i, Waits s i → ∃ j t t', j ≠ i ∧ calls[i]? = some t ∧ calls[j]? = some t' ∧
    t'.name = t.name ∧ Holds s j

theorem allows_region {g : Ghost} {op : Op} {t : Template} (hok : g.allows op)
    (ht : op.region = some t) : g.stage.inside = true ∧ t = g.template := by
  cases op with
  | databaseExists c t' => cases ht; exact ⟨by rw [hok.1]; rfl,hok.2.2⟩
  | createDatabase c t' => cases ht; exact ⟨by rw [hok.1]; rfl,hok.2.2⟩
  | setupFn c t' => cases ht; exact ⟨by rw [hok.1]; rfl,hok.2.2⟩
  | dropDatabase c t' =>
    cases ht
    obtain ⟨o,hstage,_⟩ := hok.1
    exact ⟨by rw [hstage]; rfl,hok.2.2⟩
  | _ => cases ht

theorem inside_allows {g : Ghost} {op : Op} (hin : g.stage.inside = true) (hok : g.allows op) :
    op.region.isSome = true ∨ ∃ m p, op = .unlock m p := by
  cases op with
  | entry name => rw [hok.1] at hin; cases hin
  | lock m => rw [hok.1] at hin; cases hin
  | unlock m p => exact .inr ⟨m,p,rfl⟩
  | ended c t r => rw [hok.1] at hin; cases hin
  | _ => exact .inl rfl

theorem inside_exclusive (hthreads : List.Forall₂ stages.Safe s.threads ghosts)
    (hj : Tracked calls s.world ghosts) {i j : Nat} {name : Text} (hi : Inside s i name)
    (hj' : Inside s j name) : i = j := by
  obtain ⟨op,t,hop,ht,rfl⟩ := hi
  obtain ⟨op',t',hop',ht',hname⟩ := hj'
  obtain ⟨g,hg,hok⟩ := nextCall_ok hthreads hop
  obtain ⟨g',hg',hok'⟩ := nextCall_ok hthreads hop'
  obtain ⟨hin,rfl⟩ := allows_region hok ht
  obtain ⟨hin',rfl⟩ := allows_region hok' ht'
  exact hj.locks.same hg hg' hin hin' hname.symm

/-- Only a lock is waited for, and only while it is taken. -/
theorem waits_locked {w : World} {op : Op} (h : ∀ r, answer w op r = none) :
    ∃ m, op = .lock m ∧ (w.mutexes m).locked = true := by
  cases op with
  | entry name =>
    cases hname : w.locks name with
    | some m => exact absurd (h m) (by simp [answer,hname])
    | none => exact absurd (h w.fresh) (by simp [answer,hname])
  | lock m =>
    refine ⟨m,rfl,?_⟩
    by_contra hfree
    exact absurd (h (w.mutexes m).poisoned) (by simp [answer,hfree])
  | unlock m p => exact absurd (h ()) (by simp [answer])
  | databaseExists c t => exact absurd (h (.error (.reported []))) (by simp [answer,admits])
  | createDatabase c t => exact absurd (h (.error (.reported []))) (by simp [answer,admits])
  | setupFn c t => exact absurd (h (.returned (.ok ()))) (by simp [answer])
  | dropDatabase c t => exact absurd (h (.error (.reported []))) (by simp [answer,admits])
  | ended c t r => exact absurd (h ()) (by simp [answer])

theorem waits_for_same_name (hthreads : List.Forall₂ stages.Safe s.threads ghosts)
    (hj : Tracked calls s.world ghosts) {i : Nat} (hi : Waits s i) :
    ∃ j t t', j ≠ i ∧ calls[i]? = some t ∧ calls[j]? = some t' ∧ t'.name = t.name ∧ Holds s j := by
  obtain ⟨op,hop,hnone⟩ := hi
  obtain ⟨m,rfl,hlocked⟩ := waits_locked hnone
  obtain ⟨g,hg,hstage,hm⟩ := nextCall_ok hthreads hop
  obtain ⟨j,g',hg',hin,hm'⟩ := hj.locks.holder m hlocked
  have hname := hj.locks.apart _ _ m (hj.locks.entered j g' m hg' hm')
    (hj.locks.entered i g m hg hm)
  have hnotover : ¬ stages.final g' := by
    intro hover
    rw [show g'.stage = .over from hover] at hin
    cases hin
  obtain ⟨op',hop',hok'⟩ := exists_nextCall hthreads hg' hnotover
  refine ⟨j,g.template,g'.template,?_,(hj.locks.own i g hg).2,(hj.locks.own j g' hg').2,hname,
    op',hop',inside_allows hin hok'⟩
  rintro rfl
  cases hg.symm.trans hg'
  rw [hstage] at hin
  cases hin

/-! ### Runs -/

def uncut : Action → Bool
  | .abort _ => false
  | _ => true

theorem ensures_reach (calls : List Template) (C : State → Action → Prop) (meets : Action → Bool)
    (hC : ∀ s a, meets a = true → C s a) (as : List Action) (wanted : State → Bool)
    (h : (machine.run (fun _ a => uncut a && meets a) (begin calls) as).any wanted = true) :
    ∃ s, ((ensures calls).restrict C).Reachable s ∧ wanted s = true := by
  rw [ensures,System.restrict_restrict]
  refine machine.run_reaches (fun _ a => uncut a && meets a) (fun s a hmeets => ?_) ?_ as wanted h
  · obtain ⟨huncut,hmeets⟩ := Bool.and_eq_true_iff.mp hmeets
    refine ⟨hC s a hmeets,?_⟩
    cases a with
    | abort i => cases huncut
    | _ => trivial
  · rfl

def first : Template := ⟨0,"first".toList⟩

/-- A call whose setup panics, and how its rollback drop ends. -/
def panickingCall (r : BootstrapResult Unit) : List Action :=
  [.advance 0 (.entry first.name) (0 : Nat),.advance 0 (.lock 0) false,
    .advance 0 (.databaseExists 0 first) (.ok false),.advance 0 (.createDatabase 0 first) (.ok ()),
    .advance 0 (.setupFn 0 first) (.panicked .other),.advance 0 (.dropDatabase 0 first) r,
    .advance 0 (.unlock 0 (rollbackResult (.panicked .other) r).isPanic) (),
    .advance 0 (.ended 0 first (rollbackResult (.panicked .other) r)) ()]

/-- A call that finds its mutex poisoned and the database missing. -/
def nextCallSetsUp : List Action :=
  [.advance 1 (.entry first.name) (0 : Nat),.advance 1 (.lock 0) true,
    .advance 1 (.databaseExists 1 first) (.ok false),.advance 1 (.createDatabase 1 first) (.ok ()),
    .advance 1 (.setupFn 1 first) (.returned (.ok ())),.advance 1 (.unlock 0 false) (),
    .advance 1 (.ended 1 first (.returned (.ok ()))) ()]

/-- Whatever the calls, their order and the outcomes of their operations. -/
theorem ensure_takes_turns (calls : List Template) {s : State} (h : (ensures calls).Reachable s) :
    TakesTurns calls s := by
  obtain ⟨ghosts,hthreads,hj⟩ := ensures_tracked h
  exact ⟨fun i j name => inside_exclusive hthreads hj,hj.events.once,hj.events.drops,
    hj.events.ends,fun i => waits_for_same_name hthreads hj⟩

theorem ensure_takes_turns_after_panic :
    ∃ s, (ensures [first,first]).Reachable s ∧ s.settled = true ∧
      .ended 0 first (.panicked .other) none ∈ s.world.events ∧
      .ended 1 first (.returned (.ok ())) (some true) ∈ s.world.events ∧
      TakesTurns [first,first] s := by
  obtain ⟨s,hreach,hwanted⟩ := ensures_reach [first,first] (fun _ _ => True) (fun _ => true)
    (fun _ _ _ => trivial) (panickingCall (.ok ()) ++ nextCallSetsUp)
    (fun s => s.settled ∧ .ended 0 first (.panicked .other) none ∈ s.world.events ∧
      .ended 1 first (.returned (.ok ())) (some true) ∈ s.world.events) (by decide)
  simp only [decide_eq_true_eq] at hwanted
  have hrun := System.reachable_of_restrict _ hreach
  exact ⟨s,hrun,hwanted.1,hwanted.2.1,hwanted.2.2,ensure_takes_turns [first,first] hrun⟩

end PgEmbedSetup.Templates
