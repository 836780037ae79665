import PgEmbedSetup.Env.Transitions
import Mathlib.Data.List.TakeWhile
import Mathlib.Data.List.Count
import Mathlib.Data.List.Induction

set_option autoImplicit false

/-!
The invariant of scoped environments over whole runs: however scopes are entered and
exited, undoing the stack gives back the environment of the last unlocked moment.
-/

namespace PgEmbedSetup.Env
open Library

def unfinished (stack : List GuardState) : Nat := stack.countP (fun g => !g.finished)

/-- `base` is the environment as it was when depth was last zero. -/
structure Inv (base : Environment) (s : State) : Prop where
  depth : s.core.depth = unfinished s.core.stack
  held : s.core.lock.isSome = true ↔ 0 < s.core.depth
  nonempty : s.core.stack ≠ [] ↔ 0 < s.core.depth
  top : ∀ g ∈ s.core.stack.head?, g.finished = false
  owner : s.process.owner = s.core.lock.map (·.thread)
  restorable : Restorable s.core.stack
  undo : s.process.environment.vars.undoAll (recorded s.core.stack) = base.vars

/-! ### Marking and dropping finished scopes -/

theorem unfinished_dropWhile (stack : List GuardState) :
    unfinished (stack.dropWhile (·.finished)) = unfinished stack := by
  induction stack with
  | nil => rfl
  | cons g below ih =>
    cases hf : g.finished with
    | false => simp [hf]
    | true => simpa [unfinished,hf] using ih

theorem dropWhile_eq_nil {stack : List GuardState} (h : unfinished stack = 0) :
    stack.dropWhile (·.finished) = [] := by
  have hall : ∀ g ∈ stack, g.finished = true := by
    simpa [unfinished,List.countP_eq_zero] using h
  exact List.dropWhile_eq_nil_iff.mpr hall

theorem top_dropWhile (stack : List GuardState) :
    ∀ g ∈ (stack.dropWhile (·.finished)).head?, g.finished = false := by
  induction stack with
  | nil => simp
  | cons g below ih =>
    cases hf : g.finished with
    | false => simp [hf]
    | true => simpa [hf] using ih

theorem recorded_markFinished (stack : List GuardState) (index : Nat) :
    recorded (markFinished stack index) = recorded stack := by
  have h : ((stack.reverse.modify index fun g => { g with finished := true }).map (·.saved)) =
      stack.reverse.map (·.saved) := by
    apply List.ext_getElem?
    intro i
    simp only [List.getElem?_map,List.getElem?_modify]
    split <;> cases stack.reverse[i]? <;> rfl
  have hr := congrArg List.reverse h
  simpa [recorded,markFinished] using hr

theorem restorable_markFinished {stack : List GuardState} (h : Restorable stack) (index : Nat) :
    Restorable (markFinished stack index) := by
  intro g hg entry hentry
  have hmem : g.saved ∈ recorded (markFinished stack index) := List.mem_map_of_mem hg
  rw [recorded_markFinished] at hmem
  obtain ⟨g',hg',hs⟩ := List.mem_map.mp hmem
  exact h g' hg' entry (hs ▸ hentry)

theorem countP_modify {α : Type} (p : α → Bool) (f : α → α) (xs : List α) (i : Nat) (x : α)
    (hx : xs[i]? = some x) (hp : p x = true) (hf : p (f x) = false) :
    (xs.modify i f).countP p + 1 = xs.countP p := by
  induction xs generalizing i with
  | nil => simp at hx
  | cons y ys ih =>
    cases i with
    | zero =>
      simp only [List.getElem?_cons_zero,Option.some.injEq] at hx
      subst hx
      simp [hp,hf]
    | succ i =>
      have h := ih i (by simpa using hx)
      simp only [List.modify_succ_cons,List.countP_cons]
      omega

theorem unfinished_markFinished {stack : List GuardState} {index : Nat} {g : GuardState}
    (hg : scopeAt stack index = some g) (hf : g.finished = false) :
    unfinished (markFinished stack index) + 1 = unfinished stack := by
  have h := countP_modify (fun g => !g.finished)
    (fun g : GuardState => { g with finished := true }) stack.reverse index g hg
    (by simp [hf]) (by simp)
  simpa [unfinished,markFinished] using h

/-! ### Entering -/

theorem takeLock_ok {s : State} (h : s.process.owner = none) :
    ∃ p, takeLock s =
        .ok () { s with core := { s.core with lock := some ⟨s.thread⟩ }, process := p } ∧
      p.environment = s.process.environment ∧ p.owner = some s.thread := by
  refine ⟨{ s.process with poisoned := false, owner := some s.thread },?_,rfl,rfl⟩
  simp [takeLock,ensureLockIsClean,lockEnvMutex,h]

/-- After `acquire_lock_if_needed` the guard is there, taken now or held already. -/
theorem acquireLockIfNeeded_ok {base : Environment} {s : State} (h : Inv base s) :
    ∃ l p, acquireLockIfNeeded s =
        .ok () { s with core := { s.core with lock := some l }, process := p } ∧
      p.environment = s.process.environment ∧ p.owner = some l.thread := by
  by_cases hd : 0 < s.core.depth
  · obtain ⟨l,hl⟩ := Option.isSome_iff_exists.mp (h.held.mpr hd)
    refine ⟨l,s.process,?_,rfl,by simp [h.owner,hl]⟩
    simp only [acquireLockIfNeeded,bind_run,get_run,gt_iff_lt,hd,if_true,pure_run,← hl]
  · have hl : s.core.lock = none := by
      have := h.held.not.mpr hd
      simpa using this
    obtain ⟨p,hp,henv,hown⟩ := takeLock_ok (s := s) (by simp [h.owner,hl])
    refine ⟨⟨s.thread⟩,p,?_,henv,hown⟩
    simp [acquireLockIfNeeded,hd,hl,ensure_run,hp]

theorem enterScope_ok {base : Environment} {s : State} (h : Inv base s)
    (vars : List (OsString × Option OsString)) (hv : ∀ c ∈ vars, ValidEntry c) :
    ∃ t, enterScope vars s = .ok s.core.stack.length t ∧ Inv base t := by
  obtain ⟨l,p,hacq,henv,hown⟩ := acquireLockIfNeeded_ok h
  have hval : validateEnvVars vars s = .ok () s := by
    rcases validateEnvVars_run vars s with ⟨hr,_⟩ | ⟨_,_,hn⟩
    · exact hr
    · exact absurd hv hn
  let s₁ : State := { s with core := ⟨s.core.depth+1,some l,s.core.stack⟩, process := p }
  obtain ⟨e,happ,he⟩ := applyLoop_ok s₁ vars hv
  let saved := (s.process.environment.vars.record vars).2
  have hguard : s₁.core.lock.isSome = true := rfl
  have hvars : s₁.process.environment.vars = s.process.environment.vars := by
    rw [show s₁.process.environment = p.environment from rfl,henv]
  rw [hvars] at happ he
  refine ⟨(s₁.withEnv e).withStack (⟨saved,false⟩ :: s.core.stack),?_,?_⟩
  · have happly : applyEnvVars vars s₁ = .ok saved (s₁.withEnv e) :=
      (bind_ok (guardMut_ok hguard _) _).trans happ
    unfold enterScope
    rw [bind_ok hval,bind_ok hacq,bind_ok (modifyCore_run _ _)]
    exact bind_ok happly _
  · have hd := h.depth
    refine ⟨?_,?_,?_,?_,?_,?_,?_⟩
    · simp [s₁,unfinished,hd]
    · simp [s₁]
    · simp [s₁]
    · simp
    · simpa [s₁,State.withEnv] using hown
    · intro g hg
      simp only [State.withStack_core,List.mem_cons] at hg
      rcases hg with rfl | hg
      · exact record_valid s.process.environment vars hv
      · exact h.restorable g hg
    · have hundo := Store.undo_record s.process.environment.vars vars
      simp only [State.withStack_process,State.withEnv_env,State.withStack_core,recorded,
        List.map_cons,Store.undoAll,he,saved,hundo]
      exact h.undo

/-- A scope is entered, or validation rejects it and nothing has changed. -/
theorem enterScope_cases {base : Environment} {s : State} (h : Inv base s)
    (vars : List (OsString × Option OsString)) :
    (∃ t, enterScope vars s = .ok s.core.stack.length t ∧ Inv base t ∧
        ∀ c ∈ vars, ValidEntry c) ∨
      ∃ message, enterScope vars s = .error (.rejected message) s ∧
        ¬ ∀ c ∈ vars, ValidEntry c := by
  rcases validateEnvVars_run vars s with ⟨_,hv⟩ | ⟨m,hm,hn⟩
  · obtain ⟨t,ht,hi⟩ := enterScope_ok h vars hv
    exact .inl ⟨t,ht,hi,hv⟩
  · exact .inr ⟨m,by simp [enterScope,hm],hn⟩

/-! ### Exiting -/

/-- The state after the lock was given up with nothing left on the stack. -/
structure Released (base : Environment) (s : State) : Prop where
  core : s.core = .new
  owner : s.process.owner = none
  environment : s.process.environment = base

theorem Released.inv {base : Environment} {s : State} (h : Released base s) : Inv base s := by
  obtain ⟨hc,ho,he⟩ := h
  constructor <;> simp [hc,ho,he,ThreadStateCore.new,unfinished,Restorable,recorded,
    Store.undoAll]

theorem Inv.released {base : Environment} {s : State} (h : Inv base s)
    (hd : s.core.depth = 0) : Released base s := by
  have hs : s.core.stack = [] := by
    by_contra hne
    have := h.nonempty.mp hne
    omega
  have hl : s.core.lock = none := by
    have := h.held.not.mpr (by omega)
    simpa using this
  refine ⟨?_,by simp [h.owner,hl],?_⟩
  · obtain ⟨thread,panicking,⟨depth,lock,stack⟩,process⟩ := s
    simp_all [ThreadStateCore.new]
  · apply Environment.ext
    have hu := h.undo
    rw [hs] at hu
    exact hu

theorem resetDepthAndUnlock_ok {s : State} (h : s.core.lock.isSome = true)
    (hs : s.core.stack = []) :
    ∃ t, resetDepthAndUnlock s = .ok () t ∧ Released s.process.environment t := by
  obtain ⟨l,hl⟩ := Option.isSome_iff_exists.mp h
  simp only [resetDepthAndUnlock,bind_run,modifyCore_run,get_run,hl,dropGuard,modifyProcess_run]
  exact ⟨_,rfl,by simp [ThreadStateCore.new,hs],rfl,rfl⟩

/-- Recovery from a corrupt index undoes every scope and lets go of the lock. -/
theorem forceRestoreAndReset_ok {base : Environment} {s : State}
    (hlock : s.core.lock.isSome = true) (hne : s.core.stack ≠ [])
    (hr : Restorable s.core.stack)
    (hu : s.process.environment.vars.undoAll (recorded s.core.stack) = base.vars) :
    ∃ t, forceRestoreAndReset s = .ok () t ∧ Released base t := by
  obtain ⟨l,hl⟩ := Option.isSome_iff_exists.mp hlock
  obtain ⟨e,hpop,he⟩ := popAll_ok s s.core.stack hlock hr
  obtain ⟨t,ht,hrel⟩ := resetDepthAndUnlock_ok (s := (s.withEnv e).withStack []) hlock rfl
  have hbase : e = base := Environment.ext (he.trans hu)
  refine ⟨t,?_,?_⟩
  · simp [forceRestoreAndReset,restoreAllScopes,ensureLockForRestore,hne,hl,hpop,ht]
  · simpa [hbase] using hrel

theorem restoreFinishedScopes_ok {s : State} (hlock : s.core.lock.isSome = true)
    (hr : Restorable s.core.stack) :
    ∃ e, restoreFinishedScopes s =
        .ok () ((s.withEnv e).withStack (s.core.stack.dropWhile (·.finished))) ∧
      e.vars.undoAll (recorded (s.core.stack.dropWhile (·.finished))) =
        s.process.environment.vars.undoAll (recorded s.core.stack) := by
  obtain ⟨l,hl⟩ := Option.isSome_iff_exists.mp hlock
  obtain ⟨e,hpop,he⟩ := popFinished_ok s s.core.stack hlock hr
  refine ⟨e,?_,?_⟩
  · by_cases hf : s.core.stack.head?.any (·.finished) = true
    · simp [restoreFinishedScopes,ensureLockForRestore,hf,hl,hpop]
    · simp [restoreFinishedScopes,hf,hpop]
  · rw [he,← Store.undoAll_append,recorded,recorded,← List.map_append,
      List.takeWhile_append_dropWhile]
    rfl

theorem releaseOutermostLock_ok {s : State} (hlock : s.core.lock.isSome = true)
    (hs : s.core.stack = []) (hd : s.core.depth = 0) :
    ∃ t, releaseOutermostLock s = .ok () t ∧ Released s.process.environment t := by
  obtain ⟨l,hl⟩ := Option.isSome_iff_exists.mp hlock
  simp only [releaseOutermostLock,bind_run,get_run,hs,List.isEmpty_nil,ensure_run,hl,
    modifyCore_run,dropGuard,modifyProcess_run]
  exact ⟨_,rfl,by simp [ThreadStateCore.new,hd],rfl,rfl⟩

/-- A corrupt index, after the depth has been counted down. -/
theorem finishScope_corrupt {base : Environment} {s : State} {index : Nat}
    (hlock : s.core.lock.isSome = true) (hne : s.core.stack ≠ [])
    (hr : Restorable s.core.stack)
    (hu : s.process.environment.vars.undoAll (recorded s.core.stack) = base.vars)
    (hbad : ∀ g, scopeAt s.core.stack index = some g → g.finished = true) :
    ∃ t, finishScope index s = .ok false t ∧ Released base t := by
  obtain ⟨t,ht,hrel⟩ := forceRestoreAndReset_ok hlock hne hr hu
  refine ⟨t,?_,hrel⟩
  cases hg : scopeAt s.core.stack index with
  | none => simp [finishScope,hg,ht]
  | some g => simp [finishScope,hg,hbad g hg,ht]

theorem finishScope_live {base : Environment} {s : State} {index : Nat} {g : GuardState}
    (hlock : s.core.lock.isSome = true) (hr : Restorable s.core.stack)
    (hu : s.process.environment.vars.undoAll (recorded s.core.stack) = base.vars)
    (hg : scopeAt s.core.stack index = some g) (hf : g.finished = false) :
    ∃ e stack, finishScope index s = .ok true ((s.withEnv e).withStack stack) ∧
      stack = (markFinished s.core.stack index).dropWhile (·.finished) ∧
      e.vars.undoAll (recorded stack) = base.vars := by
  obtain ⟨e,he,heu⟩ := restoreFinishedScopes_ok
    (s := s.withStack (markFinished s.core.stack index)) hlock (restorable_markFinished hr index)
  refine ⟨e,_,?_,rfl,?_⟩
  · simp only [finishScope,bind_run,get_run,hg,hf,Bool.false_eq_true,if_false,setStack_run,he,
      pure_run]
    rfl
  · simp only [State.withStack_core,State.withStack_process,recorded_markFinished] at heu
    exact heu.trans hu

/-- A scope that is exited while live takes one off the unfinished ones. -/
theorem Inv.unfinished_left {base : Environment} {s : State} (h : Inv base s) {index : Nat}
    {g : GuardState} (hg : scopeAt s.core.stack index = some g) (hf : g.finished = false) :
    unfinished ((markFinished s.core.stack index).dropWhile (·.finished)) = s.core.depth - 1 := by
  have hm := unfinished_markFinished hg hf
  have hdep := h.depth
  rw [unfinished_dropWhile]
  omega

theorem Inv.nothing_left {base : Environment} {s : State} (h : Inv base s) {index : Nat}
    {g : GuardState} (hg : scopeAt s.core.stack index = some g) (hf : g.finished = false)
    (hz : s.core.depth - 1 = 0) :
    (markFinished s.core.stack index).dropWhile (·.finished) = [] := by
  apply dropWhile_eq_nil
  rw [← unfinished_dropWhile,h.unfinished_left hg hf,hz]

/-- Whatever the index, exiting returns and keeps the invariant. -/
theorem exitScope_ok {base : Environment} {s : State} (h : Inv base s) (index : Nat) :
    ∃ t, exitScope index s = .ok () t ∧ Inv base t := by
  by_cases hd : s.core.depth = 0
  · have hrel := h.released hd
    have hc := hrel.core
    refine ⟨{ s with core := { s.core with depth := 0 } },?_,?_⟩
    · simp [exitScope,forceRestoreAndReset,hc,ThreadStateCore.new]
    · exact Released.inv ⟨by simp [hc,ThreadStateCore.new],hrel.owner,hrel.environment⟩
  have hpos : 0 < s.core.depth := by omega
  have hlock := h.held.mpr hpos
  have hne := h.nonempty.mpr hpos
  let s₁ : State := { s with core := { s.core with depth := s.core.depth - 1 } }
  have hexit : exitScope index s = (do
      if ← finishScope index then
        if (← get).core.depth = 0 then releaseOutermostLock) s₁ := by
    simp [exitScope,hd,s₁]
  by_cases hbad : ∀ g, scopeAt s.core.stack index = some g → g.finished = true
  · obtain ⟨t,ht,hrel⟩ := finishScope_corrupt (s := s₁) hlock hne h.restorable h.undo hbad
    exact ⟨t,by simp [hexit,ht],hrel.inv⟩
  push Not at hbad
  obtain ⟨g,hg,hgf⟩ := hbad
  have hf : g.finished = false := by simpa using hgf
  obtain ⟨e,stack,hfin,hstack,hundo⟩ := finishScope_live (s := s₁) hlock h.restorable h.undo hg hf
  have hcount : unfinished stack = s.core.depth - 1 := by
    rw [hstack]
    exact h.unfinished_left hg hf
  have hrest : Restorable stack := by
    intro g' hg'
    rw [hstack] at hg'
    exact restorable_markFinished h.restorable index g' (List.dropWhile_subset _ hg')
  by_cases hz : s.core.depth - 1 = 0
  · have hnil : stack = [] := hstack.trans (h.nothing_left hg hf hz)
    obtain ⟨t,ht,hrel⟩ := releaseOutermostLock_ok (s := (s₁.withEnv e).withStack stack)
      hlock hnil hz
    have hbase : e = base := by
      apply Environment.ext
      simpa [hnil,recorded,Store.undoAll] using hundo
    refine ⟨t,?_,?_⟩
    · rw [hexit,bind_ok hfin]
      simpa [s₁,hz] using ht
    · exact (by simpa [hbase] using hrel : Released base t).inv
  · refine ⟨(s₁.withEnv e).withStack stack,?_,?_⟩
    · rw [hexit,bind_ok hfin]
      simp [s₁,hz]
    have htop := top_dropWhile (markFinished s.core.stack index)
    refine ⟨?_,?_,?_,?_,h.owner,hrest,hundo⟩
    · simpa [s₁] using hcount.symm
    · exact ⟨fun _ => by simp [s₁]; omega,fun _ => hlock⟩
    · constructor
      · intro _
        simp [s₁]
        omega
      · intro _ hnil
        simp only [State.withStack_core] at hnil
        rw [hnil] at hcount
        simp only [unfinished,List.countP_nil] at hcount
        omega
    · simpa [hstack] using htop

/-! ### Runs -/

/-- One use of the core. An exit may come from a `Drop` that runs while unwinding. -/
inductive Call where
  | enter (vars : List (OsString × Option OsString))
  | exit (index : Nat) (panicking : Bool)

def Call.run (s : State) : Call → EStateM.Result Halt State Unit
  | .enter vars => (enterScope vars >>= fun _ => pure () : EnvM Unit) s
  | .exit index panicking => exitScope index { s with panicking }

def stateAfter : EStateM.Result Halt State Unit → State
  | .ok _ s => s
  | .error _ s => s

def State.initial (thread : ThreadId) (environment : Environment) (poisoned : Bool) : State where
  thread
  panicking := false
  core := .new
  process := ⟨environment,none,poisoned⟩

/-- A run, with the environment of the last moment at which depth was zero. -/
def history (start : State) (calls : List Call) : State × Environment :=
  calls.foldl (fun (s,base) call =>
    let t := stateAfter (call.run s)
    (t,if t.core.depth = 0 then t.process.environment else base))
    (start,start.process.environment)

/-- What one call does from a state that meets the invariant. -/
inductive Call.Effect (base : Environment) (s : State) : Call → Prop where
  | entered (vars : List (OsString × Option OsString)) (t : State)
      (valid : ∀ c ∈ vars, ValidEntry c) (result : (Call.enter vars).run s = .ok () t)
      (inv : Inv base t) : Effect base s (.enter vars)
  | rejected (vars : List (OsString × Option OsString)) (message : String)
      (invalid : ¬ ∀ c ∈ vars, ValidEntry c)
      (result : (Call.enter vars).run s = .error (.rejected message) s) :
      Effect base s (.enter vars)
  | exited (index : Nat) (panicking : Bool) (t : State)
      (result : (Call.exit index panicking).run s = .ok () t) (inv : Inv base t) :
      Effect base s (.exit index panicking)

theorem Call.effect {base : Environment} {s : State} (h : Inv base s) (call : Call) :
    call.Effect base s := by
  cases call with
  | enter vars =>
    rcases enterScope_cases h vars with ⟨t,ht,hi,hv⟩ | ⟨m,hm,hn⟩
    · exact .entered vars t hv (by simp [Call.run,ht]) hi
    · exact .rejected vars m hn (by simp [Call.run,hm])
  | exit index panicking =>
    have hp : Inv base { s with panicking } :=
      ⟨h.depth,h.held,h.nonempty,h.top,h.owner,h.restorable,h.undo⟩
    obtain ⟨t,ht,hi⟩ := exitScope_ok hp index
    exact .exited index panicking t ht hi

theorem Call.inv_stateAfter {base : Environment} {s : State} (h : Inv base s) (call : Call) :
    Inv base (stateAfter (call.run s)) := by
  cases call.effect h with
  | entered vars t _ hr hi => rw [hr]; exact hi
  | rejected vars m _ hr => rw [hr]; exact h
  | exited index p t hr hi => rw [hr]; exact hi

theorem inv_initial (thread : ThreadId) (environment : Environment) (poisoned : Bool) :
    Inv environment (State.initial thread environment poisoned) :=
  Released.inv ⟨rfl,rfl,rfl⟩

/-- The induction over a run: the invariant holds for the recorded environment, which
never stops being the one the run started from. -/
theorem history_inv (thread : ThreadId) (environment : Environment) (poisoned : Bool)
    (calls : List Call) :
    Inv environment (history (State.initial thread environment poisoned) calls).1 ∧
      (history (State.initial thread environment poisoned) calls).2 = environment := by
  induction calls using List.reverseRecOn with
  | nil => exact ⟨inv_initial thread environment poisoned,rfl⟩
  | append_singleton calls call ih =>
    obtain ⟨hi,hb⟩ := ih
    simp only [history,List.foldl_append,List.foldl_cons,List.foldl_nil] at hi hb ⊢
    have hnext := call.inv_stateAfter hi
    refine ⟨hnext,?_⟩
    split
    · rename_i hd
      exact (hnext.released hd).environment
    · exact hb

/-- Over every run and its next call: the invariant; an unlocked core means the base
environment and a free mutex; no call halts but by validation, which changes nothing;
and coming back to depth zero restores what was there when depth was last zero. -/
theorem scopedEnv_run (thread : ThreadId) (environment : Environment) (poisoned : Bool)
    (calls : List Call) (next : Call) :
    let r := history (State.initial thread environment poisoned) calls
    let after := stateAfter (next.run r.1)
    Inv r.2 r.1 ∧
    (r.1.core.depth = 0 → r.1.process.environment = r.2 ∧ r.1.process.owner = none) ∧
    (after.core.depth = 0 → after.process.environment = r.2 ∧ after.process.owner = none) ∧
    next.Effect r.2 r.1 := by
  intro r after
  obtain ⟨hi,hb⟩ := history_inv thread environment poisoned calls
  have hinv : Inv r.2 r.1 := hb ▸ hi
  refine ⟨hinv,fun hd => ?_,fun hd => ?_,next.effect hinv⟩
  · exact ⟨(hinv.released hd).environment,(hinv.released hd).owner⟩
  · have hn := (next.inv_stateAfter hinv).released hd
    exact ⟨hn.environment,hn.owner⟩

end PgEmbedSetup.Env
