import PgEmbedSetup.Env.Threads

set_option autoImplicit false

/-!
Whatever the threads and their schedule, every call does what the uninterrupted transition of
the core does, and the thread with active scopes has the environment to itself.
-/

namespace PgEmbedSetup.Env.Threads
open Library

/-! ### What a thread may do -/

structure Ghost where
  me : ThreadId
  core : ThreadStateCore
  /-- The environment, known to the thread that holds the mutex. -/
  held : Option Environment

/-- A call returns or its arguments are rejected. It keeps the mutex while scopes are active. -/
def Ghost.mayEnd (g : Ghost) (result : Except Halt Unit) : Prop :=
  (g.held.isSome ↔ 0 < g.core.depth) ∧ ∀ e, result = .error e → ∃ message, e = .rejected message

theorem ValidValue.valid (value : ValidValue) : isValidEnvValue value.val = true := value.property

section Outline
variable (initial : Environment)

/-- Scopes are active under the mutex only. -/
def Ghost.allows (g : Ghost) : Op → Prop
  | .getCore me => me = g.me
  | .setCore me core => me = g.me ∧ (0 < core.depth → g.held.isSome)
  | .isPoisoned | .clearPoison => True
  | .lock me => me = g.me ∧ g.held = none
  | .unlock me _ => me = g.me ∧ g.held = some initial ∧ g.core.depth = 0
  | .varOs _ => g.held.isSome
  | .changeVar me _ _ => me = g.me ∧ g.held.isSome
  | .ended me result => me = g.me ∧ g.mayEnd result

def Ghost.expects (g : Ghost) : (op : Op) → Reply op → Prop
  | .getCore _, core => core = g.core
  | .varOs key, value => ∀ e, g.held = some e → value = e.vars key
  | _, _ => True

/-- The mutex is always taken in the environment the process has started with. -/
def Ghost.after (g : Ghost) : (op : Op) → Reply op → Ghost
  | .setCore _ core, _ => { g with core := core }
  | .lock _, _ => { g with held := some initial }
  | .unlock _ _, _ => { g with held := none }
  | .changeVar _ key value, _ =>
    { g with held := g.held.map (fun e => e.assign key value.val value.valid) }
  | _, _ => g

def serial : Outline Op Reply Ghost where
  ok := Ghost.allows initial
  next g op r g' := g.expects op r ∧ g' = g.after initial op r
  final _ := True

end Outline

/-- What the uninterrupted transitions see of the process, for a thread and its mutex. -/
def view (s : Env.State) : Ghost :=
  ⟨s.thread,s.core,s.process.owner.map fun _ => s.process.environment⟩

def Matches {α : Type} : EStateM.Result Halt Env.State α → Except Halt α → Ghost → Prop
  | .ok a t, r, g => r = .ok a ∧ g = view t
  | .error e t, r, g => r = .error e ∧ g = view t

/-- The steps end as the uninterrupted transition ends, whatever other threads do meanwhile. -/
def Follows {α : Type} (initial : Environment) (f : StepM α) (F : EnvM α) (s : Env.State) : Prop :=
  (serial initial).wp f.run (Matches (F s)) (view s)

section Follow
variable {initial : Environment} {s t : Env.State} {α β : Type}

theorem wp_call {op : Op} {g : Reply op → StepM β} {post : Except Halt β → Ghost → Prop}
    {ghost : Ghost} : (serial initial).wp (call op >>= g).run post ghost ↔
      ghost.allows initial op ∧ ∀ r, ghost.expects op r →
        (serial initial).wp (g r).run post (ghost.after initial op r) := by
  constructor
  · rintro ⟨hok,hnext⟩
    exact ⟨hok,fun r hr => hnext r _ ⟨hr,rfl⟩⟩
  · rintro ⟨hok,hnext⟩
    refine ⟨hok,?_⟩
    rintro r g' ⟨hr,rfl⟩
    exact hnext r hr

theorem wp_last {op : Op} {post : Except Halt (Reply op) → Ghost → Prop} {ghost : Ghost} :
    (serial initial).wp (call op).run post ghost ↔
      ghost.allows initial op ∧ ∀ r, ghost.expects op r →
        post (.ok r) (ghost.after initial op r) := by
  constructor
  · rintro ⟨hok,hnext⟩
    exact ⟨hok,fun r hr => hnext r _ ⟨hr,rfl⟩⟩
  · rintro ⟨hok,hnext⟩
    refine ⟨hok,?_⟩
    rintro r g' ⟨hr,rfl⟩
    exact hnext r hr

theorem follows_pure (a : α) : Follows initial (pure a) (pure a) s := ⟨rfl,rfl⟩

theorem follows_throw (e : Halt) : Follows initial (throw e : StepM α) (throw e) s := ⟨rfl,rfl⟩

theorem follows_bind {f : StepM α} {F : EnvM α} {g : α → StepM β} {G : α → EnvM β}
    (hf : Follows initial f F s)
    (hg : ∀ a t, F s = .ok a t → Follows initial (g a) (G a) t) :
    Follows initial (f >>= g) (F >>= G) s := by
  refine wp_bind.mpr (wp_mono hf (fun r ghost hr => ?_))
  rw [bind_run]
  cases hF : F s with
  | ok a t =>
    rw [hF] at hr
    obtain ⟨rfl,rfl⟩ := hr
    exact hg a t hF
  | error e t =>
    rw [hF] at hr
    obtain ⟨rfl,rfl⟩ := hr
    exact ⟨rfl,rfl⟩

/-- A first part that is known to succeed. -/
theorem follows_then {f : StepM α} {F : EnvM α} {g : α → StepM β} {G : α → EnvM β} {a : α}
    (hf : Follows initial f F s) (hrun : F s = .ok a t)
    (hg : Follows initial (g a) (G a) t) : Follows initial (f >>= g) (F >>= G) s := by
  refine follows_bind hf (fun b u hu => ?_)
  cases hrun.symm.trans hu
  exact hg

theorem follows_get {g : ThreadStateCore → StepM β} {G : Env.State → EnvM β}
    (h : Follows initial (g s.core) (G s) s) :
    Follows initial (call (.getCore s.thread) >>= g) (get >>= G) s := by
  refine wp_call.mpr ⟨rfl,?_⟩
  rintro core rfl
  exact h

theorem follows_modifyCore (f : ThreadStateCore → ThreadStateCore)
    (hdepth : 0 < (f s.core).depth → s.process.owner.isSome = true) :
    Follows initial (modifyCore s.thread f) (Env.modifyCore f) s := by
  refine wp_call.mpr ⟨rfl,?_⟩
  rintro core rfl
  refine wp_last.mpr ⟨⟨rfl,fun hpos => ?_⟩,fun _ _ => ⟨rfl,rfl⟩⟩
  have hheld : (view s).held.isSome = true := by simpa [view] using hdepth hpos
  exact hheld

theorem follows_setStack (howner : s.process.owner.isSome = true) (stack : List GuardState) :
    Follows initial (setStack s.thread stack) (Env.setStack stack) s :=
  follows_modifyCore _ fun _ => howner

theorem follows_ensure (condition : Bool) (message : String) :
    Follows initial (ensure condition message) (Env.ensure condition message) s := by
  unfold ensure Env.ensure
  split
  · exact follows_pure ()
  · exact follows_throw _

theorem follows_guardMut (context : String) :
    Follows initial (guardMut s.thread context) (Env.guardMut context) s := by
  refine follows_get ?_
  cases s.core.lock with
  | none => exact follows_throw _
  | some l => exact follows_pure ()

/-! ### Changing variables under the mutex -/

theorem follows_writeVar (howner : s.process.owner.isSome = true) (key : OsString)
    (value : Option OsString) :
    Follows initial (writeVar s.thread key value) (Env.writeVar key value) s := by
  refine follows_bind (follows_ensure _ _) (fun _ t ht => ?_)
  have hts : t = s := by
    unfold Env.ensure at ht
    split at ht <;> cases ht
    rfl
  subst hts
  split
  · refine wp_last.mpr ⟨⟨rfl,?_⟩,fun _ _ => ⟨rfl,?_⟩⟩
    · simpa [view] using howner
    · simp only [view,Ghost.after,Option.map_map]
      rfl
  · exact follows_throw _

theorem follows_change (howner : s.process.owner.isSome = true) (key : OsString)
    (value : Option OsString) :
    Follows initial
      (match value with | some v => setVar s.thread key v | none => removeVar s.thread key)
      (match value with | some v => Env.setVar key v | none => Env.removeVar key) s := by
  cases value <;> exact follows_writeVar howner key _

theorem follows_applySingleVar (howner : s.process.owner.isSome = true) {key : OsString}
    {value : Option OsString} (hk : isValidEnvKey key = true)
    (hv : isValidEnvValue value = true) :
    Follows initial (applySingleVar s.thread key value) (Env.applySingleVar key value) s := by
  refine follows_then (follows_ensure _ _) (ensure_run hk _ s) ?_
  refine follows_then (follows_ensure _ _) (ensure_run hv _ s) ?_
  refine wp_call.mpr ⟨by simpa [view,Ghost.allows] using howner,fun previous hprevious => ?_⟩
  obtain ⟨owner,howns⟩ := Option.isSome_iff_exists.mp howner
  have hread : previous = s.process.environment.vars key :=
    hprevious s.process.environment (by simp [view,howns])
  subst hread
  cases value with
  | none => exact follows_bind (follows_writeVar howner key none) (fun _ t _ => follows_pure _)
  | some v =>
    exact follows_bind (follows_writeVar howner key (some v)) (fun _ t _ => follows_pure _)

theorem follows_applyLoop (howner : s.process.owner.isSome = true)
    (changes : List (OsString × Option OsString)) (hv : ∀ c ∈ changes, ValidEntry c) :
    Follows initial (applyLoop s.thread changes) (Env.applyLoop changes) s := by
  induction changes generalizing s with
  | nil => exact follows_pure _
  | cons c rest ih =>
    obtain ⟨key,value⟩ := c
    obtain ⟨hk,hval⟩ := hv (key,value) (by simp)
    refine follows_then (follows_applySingleVar howner hk hval) (applySingleVar_ok s hk hval) ?_
    have hloop := ih (s := s.withEnv (s.process.environment.assign key value hval)) howner
      (fun c hc => hv c (by simp [hc]))
    exact follows_bind hloop (fun saved t _ => follows_pure _)

theorem follows_restoreSaved (howner : s.process.owner.isSome = true)
    (saved : List (OsString × Option OsString)) (hv : ∀ entry ∈ saved, ValidEntry entry) :
    Follows initial (restoreSaved s.thread saved) (Env.restoreSaved saved) s := by
  induction saved with
  | nil => exact follows_pure _
  | cons entry rest ih =>
    obtain ⟨key,value⟩ := entry
    have hrest : ∀ entry ∈ rest, ValidEntry entry := fun entry h => hv entry (by simp [h])
    obtain ⟨e,he,_⟩ := restoreSaved_ok s rest hrest
    refine follows_then (ih hrest) he ?_
    exact follows_change (s := s.withEnv e) howner key value

theorem follows_popFinished (howner : s.process.owner.isSome = true)
    (hlock : s.core.lock.isSome = true) (stack : List GuardState) (hv : Restorable stack) :
    Follows initial (popFinished s.thread stack) (Env.popFinished stack) s := by
  induction stack generalizing s with
  | nil => exact follows_setStack howner _
  | cons g below ih =>
    unfold popFinished Env.popFinished
    split
    · have hbelow : (s.withStack below).core.lock.isSome = true := hlock
      obtain ⟨e,he,_⟩ := restoreSaved_ok (s.withStack below) g.saved (hv g (by simp))
      refine follows_then (follows_setStack howner _) (setStack_run below s) ?_
      refine follows_then (follows_guardMut (s := s.withStack below) _) (guardMut_ok hbelow _) ?_
      refine follows_then (follows_restoreSaved (s := s.withStack below) howner _
        (hv g (by simp))) he ?_
      exact ih (s := (s.withStack below).withEnv e) howner hlock fun g hg => hv g (by simp [hg])
    · exact follows_setStack howner _

theorem follows_popAll (howner : s.process.owner.isSome = true)
    (hlock : s.core.lock.isSome = true) (stack : List GuardState) (hv : Restorable stack) :
    Follows initial (popAll s.thread stack) (Env.popAll stack) s := by
  induction stack generalizing s with
  | nil => exact follows_setStack howner _
  | cons g below ih =>
    have hbelow : (s.withStack below).core.lock.isSome = true := hlock
    obtain ⟨e,he,_⟩ := restoreSaved_ok (s.withStack below) g.saved (hv g (by simp))
    refine follows_then (follows_setStack howner _) (setStack_run below s) ?_
    refine follows_then (follows_guardMut (s := s.withStack below) _) (guardMut_ok hbelow _) ?_
    refine follows_then (follows_restoreSaved (s := s.withStack below) howner _
      (hv g (by simp))) he ?_
    exact ih (s := (s.withStack below).withEnv e) howner hlock fun g hg => hv g (by simp [hg])

/-! ### Entering -/

theorem follows_validateEnvKey (key : OsString) :
    Follows initial (validateEnvKey key) (Env.validateEnvKey key) s := by
  cases h₁ : key.isEmpty <;> cases h₂ : containsNul key <;> cases h₃ : containsEquals key <;>
    simp only [validateEnvKey,Env.validateEnvKey,h₁,h₂,h₃,if_true,if_false,Bool.false_eq_true] <;>
    first | exact follows_pure _ | exact follows_throw _

theorem follows_validateEnvValue (value : Option OsString) :
    Follows initial (validateEnvValue value) (Env.validateEnvValue value) s := by
  cases value with
  | none => exact follows_pure _
  | some v =>
    cases h : containsNul v <;>
      simp only [validateEnvValue,Env.validateEnvValue,h,if_true,if_false,Bool.false_eq_true]
    · exact follows_pure _
    · exact follows_throw _

theorem follows_validateEnvVars (vars : List (OsString × Option OsString)) :
    Follows initial (validateEnvVars vars) (Env.validateEnvVars vars) s := by
  induction vars generalizing s with
  | nil => exact follows_pure _
  | cons c rest ih =>
    obtain ⟨key,value⟩ := c
    refine follows_bind (follows_validateEnvKey key) (fun _ t _ => ?_)
    exact follows_bind (follows_validateEnvValue value) (fun _ u _ => ih)

/-- The mutex is taken in the environment that the uninterrupted transition starts in. -/
theorem follows_takeLock (howner : s.process.owner = none)
    (henv : s.process.environment = initial) :
    Follows initial (takeLock s.thread) Env.takeLock s := by
  have hlocked : (serial initial).wp (lockEnvMutex s.thread >>= fun guard =>
      modifyCore s.thread fun c => { c with lock := some guard }).run (Matches (Env.takeLock s))
      (view s) := by
    refine wp_call.mpr ⟨⟨rfl,by simp [view,howner]⟩,fun _ _ => ?_⟩
    refine wp_call.mpr ⟨rfl,?_⟩
    rintro core rfl
    refine wp_last.mpr ⟨⟨rfl,fun _ => rfl⟩,fun _ _ => ?_⟩
    simp only [Env.takeLock,Env.ensureLockIsClean,Env.lockEnvMutex,bind_run,modifyProcess_run,
      get_run,howner,modifyCore_run,pure_run]
    refine ⟨rfl,?_⟩
    simp [view,Ghost.after,henv]
  refine wp_call.mpr ⟨trivial,fun poisoned _ => ?_⟩
  cases poisoned with
  | false => exact hlocked
  | true => exact wp_call.mpr ⟨trivial,fun _ _ => hlocked⟩

theorem follows_acquireLockIfNeeded (h : Inv initial s) :
    Follows initial (acquireLockIfNeeded s.thread) Env.acquireLockIfNeeded s := by
  refine follows_get ?_
  split
  · exact follows_pure _
  · next hdepth =>
    have hreleased := h.released (by omega)
    have hunlocked : s.core.lock.isNone = true := by
      rw [hreleased.core]
      rfl
    refine follows_then (follows_ensure _ _) (ensure_run hunlocked _ s) ?_
    exact follows_takeLock hreleased.owner hreleased.environment

theorem follows_enterScope (h : Inv initial s) (vars : List (OsString × Option OsString)) :
    Follows initial (enterScope s.thread vars) (Env.enterScope vars) s := by
  refine follows_bind (follows_validateEnvVars vars) (fun _ t ht => ?_)
  rcases validateEnvVars_run vars s with ⟨hok,hvalid⟩ | ⟨m,herror,_⟩
  · cases hok.symm.trans ht
    obtain ⟨l,p,hacquired,henv,howner⟩ := acquireLockIfNeeded_ok h
    refine follows_then (follows_acquireLockIfNeeded h) hacquired ?_
    let s₁ : Env.State := { s with core := ⟨s.core.depth+1,some l,s.core.stack⟩, process := p }
    have howns : s₁.process.owner.isSome = true := by simp [s₁,howner]
    refine follows_then (t := s₁) (follows_modifyCore _ fun _ => howns) (modifyCore_run _ _) ?_
    refine follows_bind (?_ : Follows initial (applyEnvVars s₁.thread vars)
      (Env.applyEnvVars vars) s₁) (fun saved u hu => ?_)
    · refine follows_then (follows_guardMut _) (guardMut_ok rfl _) ?_
      exact follows_applyLoop howns vars hvalid
    · obtain ⟨e,happlied,_⟩ := applyLoop_ok s₁ vars hvalid
      have hu' : Env.applyEnvVars vars s₁ = .ok _ (s₁.withEnv e) :=
        (bind_ok (guardMut_ok rfl _) _).trans happlied
      cases hu'.symm.trans hu
      refine follows_get (s := s₁.withEnv e) ?_
      refine follows_bind (follows_setStack (s := s₁.withEnv e) howns _) (fun _ v _ => ?_)
      exact follows_pure _
  · cases herror.symm.trans ht

/-! ### Exiting -/

/-- The mutex is given up in the environment it was taken in. -/
theorem follows_dropGuard (howner : s.process.owner.isSome = true)
    (henv : s.process.environment = initial) (hdepth : s.core.depth = 0) :
    Follows initial (dropGuard s.thread s.panicking) Env.dropGuard s := by
  obtain ⟨owner,howns⟩ := Option.isSome_iff_exists.mp howner
  refine wp_last.mpr ⟨⟨rfl,by simp [view,howns,henv],hdepth⟩,fun _ _ => ⟨rfl,?_⟩⟩
  simp [view,Ghost.after]

theorem follows_resetDepthAndUnlock (howner : s.process.owner.isSome = true)
    (henv : s.process.environment = initial) :
    Follows initial (resetDepthAndUnlock s.thread s.panicking) Env.resetDepthAndUnlock s := by
  let s₁ : Env.State := { s with core := { s.core with depth := 0 } }
  refine follows_then (t := s₁) (follows_modifyCore _ fun _ => howner) (modifyCore_run _ _) ?_
  refine follows_get (s := s₁) ?_
  cases hlock : s₁.core.lock with
  | none => exact follows_pure _
  | some l =>
    refine follows_then (follows_modifyCore (s := s₁) _ fun _ => howner) (modifyCore_run _ _) ?_
    exact follows_dropGuard (s := { s₁ with core := { s₁.core with lock := none } }) howner henv rfl

theorem follows_ensureLockForRestore (hlock : s.core.lock.isSome = true) :
    Follows initial (ensureLockForRestore s.thread) Env.ensureLockForRestore s ∧
      Env.ensureLockForRestore s = .ok () s := by
  obtain ⟨l,hl⟩ := Option.isSome_iff_exists.mp hlock
  constructor
  · refine follows_get ?_
    simp only [hl]
    exact follows_pure _
  · simp [Env.ensureLockForRestore,hl]

theorem follows_forceRestoreAndReset (howner : s.process.owner.isSome = true)
    (hlock : s.core.lock.isSome = true) (hne : s.core.stack ≠ [])
    (hr : Restorable s.core.stack)
    (hu : s.process.environment.vars.undoAll (recorded s.core.stack) = initial.vars) :
    Follows initial (forceRestoreAndReset s.thread s.panicking) Env.forceRestoreAndReset s := by
  obtain ⟨hfollows,hrun⟩ : Follows initial _ _ s ∧ _ := follows_ensureLockForRestore hlock
  obtain ⟨e,hpop,he⟩ := popAll_ok s s.core.stack hlock hr
  have hrestored : e = initial := Environment.ext (he.trans hu)
  have hempty : s.core.stack.isEmpty = false := by simpa using hne
  have hall : Follows initial (restoreAllScopes s.thread) Env.restoreAllScopes s := by
    refine follows_get ?_
    simp only [hempty,Bool.false_eq_true,if_false]
    exact follows_then hfollows hrun (follows_popAll howner hlock _ hr)
  have hallRun : Env.restoreAllScopes s = .ok () ((s.withEnv e).withStack []) := by
    simp [Env.restoreAllScopes,hne,hrun,hpop]
  refine follows_get ?_
  simp only [hempty,Bool.false_eq_true,if_false]
  refine follows_then hfollows hrun (follows_then hall hallRun ?_)
  exact follows_resetDepthAndUnlock (s := (s.withEnv e).withStack []) howner hrestored

theorem follows_restoreFinishedScopes (howner : s.process.owner.isSome = true)
    (hlock : s.core.lock.isSome = true) (hr : Restorable s.core.stack) :
    Follows initial (restoreFinishedScopes s.thread) Env.restoreFinishedScopes s := by
  obtain ⟨hfollows,hrun⟩ : Follows initial _ _ s ∧ _ := follows_ensureLockForRestore hlock
  refine follows_get ?_
  dsimp only
  split
  · exact follows_then hfollows hrun (follows_popFinished howner hlock _ hr)
  · exact follows_popFinished howner hlock _ hr

theorem follows_releaseOutermostLock (howner : s.process.owner.isSome = true)
    (henv : s.process.environment = initial) (hdepth : s.core.depth = 0) :
    Follows initial (releaseOutermostLock s.thread s.panicking) Env.releaseOutermostLock s := by
  refine follows_get (follows_bind (follows_ensure _ _) (fun _ t ht => ?_))
  have hts : t = s := by
    unfold Env.ensure at ht
    split at ht <;> cases ht
    rfl
  subst hts
  cases hlock : t.core.lock with
  | none => exact follows_throw _
  | some l =>
    refine follows_then (follows_modifyCore _ fun _ => howner) (modifyCore_run _ _) ?_
    exact follows_dropGuard (s := { t with core := { t.core with lock := none } }) howner henv
      hdepth

theorem follows_finishScope (howner : s.process.owner.isSome = true)
    (hlock : s.core.lock.isSome = true) (hne : s.core.stack ≠ [])
    (hr : Restorable s.core.stack)
    (hu : s.process.environment.vars.undoAll (recorded s.core.stack) = initial.vars)
    (index : Nat) :
    Follows initial (finishScope s.thread s.panicking index) (Env.finishScope index) s := by
  have hforce := follows_forceRestoreAndReset howner hlock hne hr hu
  refine follows_get ?_
  cases hg : scopeAt s.core.stack index with
  | none =>
    simp only [hg]
    exact follows_bind hforce (fun _ t _ => follows_pure _)
  | some g =>
    cases hf : g.finished with
    | true =>
      simp only [hg,hf,if_true]
      exact follows_bind hforce (fun _ t _ => follows_pure _)
    | false =>
      simp only [hg,hf,Bool.false_eq_true,if_false]
      let s₁ := s.withStack (markFinished s.core.stack index)
      refine follows_then (follows_setStack howner _) (setStack_run _ s) ?_
      have hrestore : Follows initial _ _ s₁ :=
        follows_restoreFinishedScopes howner hlock (restorable_markFinished hr index)
      exact follows_bind hrestore (fun _ t _ => follows_pure _)

theorem follows_exitScope (h : Inv initial s) (index : Nat) :
    Follows initial (exitScope s.thread s.panicking index) (Env.exitScope index) s := by
  refine follows_get ?_
  split
  · next hdepth =>
    have hcore := (h.released hdepth).core
    refine follows_get ?_
    simp only [hcore,ThreadStateCore.new]
    exact follows_modifyCore _ fun hpos => absurd hpos (by simp)
  · next hdepth =>
    have hpos : 0 < s.core.depth := by omega
    have hlock := h.held.mpr hpos
    have hne := h.nonempty.mpr hpos
    have howner : s.process.owner.isSome = true := by
      rw [h.owner,Option.isSome_map]
      exact hlock
    let s₁ : Env.State := { s with core := { s.core with depth := s.core.depth - 1 } }
    refine follows_then (t := s₁) (follows_modifyCore _ fun _ => howner) (modifyCore_run _ _) ?_
    have hfinish := follows_finishScope (s := s₁) howner hlock hne h.restorable h.undo index
    by_cases hbad : ∀ g, scopeAt s.core.stack index = some g → g.finished = true
    · obtain ⟨t,ht,_⟩ := finishScope_corrupt (s := s₁) hlock hne h.restorable h.undo hbad
      exact follows_then hfinish ht (follows_pure _)
    push Not at hbad
    obtain ⟨g,hg,hgf⟩ := hbad
    have hf : g.finished = false := by simpa using hgf
    obtain ⟨e,stack,ht,hstack,hundo⟩ :=
      finishScope_live (s := s₁) hlock h.restorable h.undo hg hf
    refine follows_then hfinish ht ?_
    refine follows_get (s := (s₁.withEnv e).withStack stack) ?_
    split
    · next hz =>
      have hnil : stack = [] := hstack.trans (h.nothing_left hg hf hz)
      have hrestored : e = initial := by
        apply Environment.ext
        simpa [hnil,recorded,Store.undoAll] using hundo
      exact follows_releaseOutermostLock (s := (s₁.withEnv e).withStack stack) howner hrestored
        hz
    · exact follows_pure _

end Follow

/-! ### Calls and threads -/

section Calls
variable {initial : Environment} {s : Env.State}

theorem call_follows (h : Inv initial s) (c : Call) :
    (serial initial).wp (Call.steps s.thread c).run (Matches (c.run s)) (view s) := by
  cases c with
  | enter vars => exact follows_bind (follows_enterScope h vars) (fun _ t _ => follows_pure _)
  | exit index panicking =>
    have hp : Inv initial { s with panicking } :=
      ⟨h.depth,h.held,h.nonempty,h.top,h.owner,h.restorable,h.undo⟩
    exact follows_exitScope hp index

/-- A program stays with its thread. -/
theorem wp_me {α : Type} {p : Code α} {post : α → Ghost → Prop} {g : Ghost}
    (h : (serial initial).wp p post g) :
    (serial initial).wp p (fun a g' => post a g' ∧ g'.me = g.me) g := by
  induction p generalizing g with
  | pure a => exact ⟨h,rfl⟩
  | call op next ih =>
    refine ⟨h.1,?_⟩
    rintro r g' ⟨hr,rfl⟩
    have hme : (g.after initial op r).me = g.me := by cases op <;> rfl
    rw [← hme]
    exact ih r (h.2 r _ ⟨hr,rfl⟩)

theorem view_mayEnd (h : Inv initial s) {result : Except Halt Unit}
    (hresult : ∀ e, result = .error e → ∃ message, e = .rejected message) :
    (view s).mayEnd result := by
  refine ⟨?_,hresult⟩
  simp only [view,Option.isSome_map,h.owner]
  exact h.held

/-- A call returns or is rejected, with the invariant of the uninterrupted transitions. -/
theorem call_wp (h : Inv initial s) (c : Call) :
    (serial initial).wp (Call.steps s.thread c).run
      (fun r g => g.mayEnd r ∧ ∃ t, Inv initial t ∧ t.thread = s.thread ∧ g = view t) (view s) := by
  refine wp_mono (wp_me (call_follows h c)) (fun r g hr => ?_)
  obtain ⟨hmatches,hme⟩ := hr
  cases c.effect h with
  | entered vars t _ hrun hinv | exited index panicking t hrun hinv =>
    rw [hrun] at hmatches
    obtain ⟨rfl,rfl⟩ := hmatches
    exact ⟨view_mayEnd hinv (fun e he => by cases he),t,hinv,hme,rfl⟩
  | rejected vars message _ hrun =>
    rw [hrun] at hmatches
    obtain ⟨rfl,rfl⟩ := hmatches
    exact ⟨view_mayEnd h (fun e he => by cases he; exact ⟨message,rfl⟩),s,h,rfl,rfl⟩

theorem thread_safe (h : Inv initial s) (calls : List Call) :
    (serial initial).Safe (thread s.thread calls) (view s) := by
  induction calls generalizing s with
  | nil => exact trivial
  | cons c rest ih =>
    refine wp_bind.mpr (wp_mono (call_wp h c) ?_)
    rintro r g ⟨hends,t,hinv,hthread,rfl⟩
    refine wp_perform_bind.mpr ⟨⟨hthread.symm,hends⟩,?_⟩
    rintro _ g' ⟨_,rfl⟩
    rw [← hthread]
    exact ih hinv

end Calls

/-! ### The process -/

section Shared
variable {initial : Environment} {w w' : World} {ghosts : List Ghost} {i : ThreadId} {g : Ghost}

/-- The thread that holds the mutex is the one that knows the environment. -/
structure Fits (initial : Environment) (w : World) (ghosts : List Ghost) : Prop where
  own : ∀ (i : Nat) (g : Ghost), ghosts[i]? = some g → g.me = i ∧ w.cores i = g.core
  active : ∀ (i : Nat) (g : Ghost), ghosts[i]? = some g → 0 < g.core.depth → g.held.isSome
  holder : ∀ (i : Nat) (g : Ghost) e, ghosts[i]? = some g → g.held = some e →
    w.owner = some i ∧ w.environment = e ∧ w.acquired = initial
  owned : ∀ i, w.owner = some i → ∃ g, ghosts[i]? = some g ∧ g.held.isSome
  free : w.owner = none → w.environment = initial
  silent : ∀ i, ghosts.length ≤ i → (w.cores i).depth = 0

theorem Fits.keep (h : Fits initial w ghosts) (hg : ghosts[i]? = some g) {p : Bool} :
    Fits initial { w with poisoned := p } (ghosts.set i g) := by
  obtain ⟨hlt,rfl⟩ := List.getElem?_eq_some_iff.mp hg
  rw [List.set_getElem_self]
  exact ⟨h.own,h.active,h.holder,h.owned,h.free,h.silent⟩

/-- A step of one thread that leaves the environment of another holder alone. -/
theorem Fits.replace (h : Fits initial w ghosts) (hg : ghosts[i]? = some g) {g' : Ghost}
    (hown : g'.me = i ∧ w'.cores i = g'.core) (hactive : 0 < g'.core.depth → g'.held.isSome)
    (hcores : ∀ j, j ≠ i → w'.cores j = w.cores j)
    (hmine : ∀ e, g'.held = some e →
      w'.owner = some i ∧ w'.environment = e ∧ w'.acquired = initial)
    (howned : w'.owner = some i → g'.held.isSome)
    (hothers : ∀ j, j ≠ i → w'.owner = some j → w.owner = some j)
    (hkeep : ∀ j, j ≠ i → w.owner = some j →
      w'.owner = some j ∧ w'.environment = w.environment ∧ w'.acquired = w.acquired)
    (hfree : w'.owner = none → w'.environment = initial) :
    Fits initial w' (ghosts.set i g') := by
  obtain ⟨hlt,_⟩ := List.getElem?_eq_some_iff.mp hg
  refine ⟨?_,?_,?_,?_,hfree,?_⟩
  · intro j k hk
    rcases getElem?_set_some hk with ⟨rfl,rfl⟩ | ⟨hji,hold⟩
    · exact hown
    · rw [hcores j hji]
      exact h.own j k hold
  · intro j k hk
    rcases getElem?_set_some hk with ⟨rfl,rfl⟩ | ⟨_,hold⟩
    · exact hactive
    · exact h.active j k hold
  · intro j k e hk hheld
    rcases getElem?_set_some hk with ⟨rfl,rfl⟩ | ⟨hji,hold⟩
    · exact hmine e hheld
    · obtain ⟨howner,henv,hacquired⟩ := h.holder j k e hold hheld
      obtain ⟨howner',henv',hacquired'⟩ := hkeep j hji howner
      exact ⟨howner',henv'.trans henv,hacquired'.trans hacquired⟩
  · intro j hj
    by_cases hji : j = i
    · subst hji
      exact ⟨g',getElem?_set_here hg,howned hj⟩
    · obtain ⟨k,hk,hheld⟩ := h.owned j (hothers j hji hj)
      exact ⟨k,by rw [List.getElem?_set_ne (Ne.symm hji)]; exact hk,hheld⟩
  · intro j hj
    rw [List.length_set] at hj
    rw [hcores j (Nat.ne_of_gt (Nat.lt_of_lt_of_le hlt hj))]
    exact h.silent j hj

/-- Only the holder changes the environment and gives up the mutex. -/
theorem Fits.step (h : Fits initial w ghosts) (hg : ghosts[i]? = some g) {op : Op} {r : Reply op}
    (hok : g.allows initial op) (ha : w.answer op r = some w') :
    Fits initial w' (ghosts.set i (g.after initial op r)) := by
  have hown := h.own i g hg
  have howner : w.owner = some i → g.held.isSome := by
    intro hi
    obtain ⟨k,hk,hheld⟩ := h.owned i hi
    cases hg.symm.trans hk
    exact hheld
  cases op with
  | getCore me | isPoisoned | varOs key =>
    simp only [World.answer] at ha
    split at ha
    · cases ha
      exact h.keep hg
    · cases ha
  | clearPoison =>
    cases ha
    exact h.keep hg
  | ended me result =>
    cases ha
    exact h.keep hg
  | setCore me core =>
    obtain ⟨hme,hdepth⟩ := hok
    cases ha
    have hmei : me = i := hme.trans hown.1
    subst hmei
    refine h.replace hg ⟨hown.1,Function.update_self ..⟩ hdepth ?_ ?_ howner ?_ ?_ h.free
    · exact fun j hj => Function.update_of_ne hj ..
    · exact fun e he => h.holder me g e hg he
    · exact fun j _ hj => hj
    · exact fun j _ hj => ⟨hj,rfl,rfl⟩
  | lock me =>
    obtain ⟨hme,_⟩ := hok
    simp only [World.answer] at ha
    split at ha
    · next hunowned =>
      cases ha
      have hmei : me = i := hme.trans hown.1
      subst hmei
      have henv := h.free hunowned
      refine h.replace hg hown (fun _ => rfl) (fun j _ => rfl) ?_ (fun _ => rfl) ?_ ?_ ?_
      · intro e he
        cases he
        exact ⟨rfl,henv,henv⟩
      · intro j hj hjme
        exact absurd (Option.some.inj hjme).symm hj
      · intro j _ hj
        rw [hunowned] at hj
        cases hj
      · intro hnone
        cases hnone
    · cases ha
  | unlock me panicking =>
    obtain ⟨hme,hheld,hdepth⟩ := hok
    cases ha
    obtain ⟨howns,henv,_⟩ := h.holder i g initial hg hheld
    refine h.replace hg hown ?_ (fun j _ => rfl) ?_ ?_ ?_ ?_ (fun _ => henv)
    · intro hpos
      exact absurd hpos (by simp [Ghost.after,hdepth])
    · intro e he
      cases he
    · intro hnone
      cases hnone
    · intro j _ hnone
      cases hnone
    · intro j hj hjowns
      rw [howns] at hjowns
      exact absurd (Option.some.inj hjowns).symm hj
  | changeVar me key value =>
    obtain ⟨hme,hheld⟩ := hok
    cases ha
    obtain ⟨e,he⟩ := Option.isSome_iff_exists.mp hheld
    obtain ⟨howns,henv,hacquired⟩ := h.holder i g e hg he
    refine h.replace hg hown ?_ (fun j _ => rfl) ?_ ?_ (fun j _ hj => hj) ?_ ?_
    · intro hpos
      simpa [Ghost.after] using h.active i g hg hpos
    · intro e' he'
      simp only [Ghost.after,he,Option.map_some,Option.some.injEq] at he'
      exact ⟨howns,by rw [← he',← henv],hacquired⟩
    · intro _
      simpa [Ghost.after] using hheld
    · intro j hj hjowns
      rw [howns] at hjowns
      exact absurd (Option.some.inj hjowns).symm hj
    · intro hnone
      rw [howns] at hnone
      cases hnone

end Shared

/-! ### Every run -/

/-- The steps that change the process environment. -/
def Op.changesEnv : Op → Bool
  | .changeVar _ _ _ => true
  | _ => false

/-- What holds between threads at any moment. -/
structure Serialised (initial : Environment) (s : State) : Prop where
  active : ∀ i, 0 < (s.world.cores i).depth → s.world.owner = some i
  exclusive : ∀ i j, 0 < (s.world.cores i).depth → 0 < (s.world.cores j).depth → i = j
  changes : ∀ i op, nextOp s i = some op → op.changesEnv = true → s.world.owner = some i
  restores : ∀ i me panicking, nextOp s i = some (.unlock me panicking) →
    s.world.owner = some i ∧ s.world.environment = s.world.acquired
  free : s.world.owner = none → s.world.environment = initial
  /-- The mutex is free or with another thread: nobody waits for itself. -/
  waits : ∀ i me, nextOp s i = some (.lock me) → s.world.owner ≠ some i
  ends : ∀ i me result, nextOp s i = some (.ended me result) →
    (s.world.owner = some i ↔ 0 < (s.world.cores i).depth) ∧
    ∀ e, result = .error e → ∃ message, e = .rejected message

theorem serial_preserves (initial : Environment) :
    Preserves machine (serial initial) (Fits initial) Uncut := by
  refine ⟨?_,?_,?_⟩
  · intro s i op r w ghosts g _ ha hj hg hok
    have hexpects : g.expects op r := by
      obtain ⟨hme,hcore⟩ := hj.own i g hg
      cases op with
      | getCore me =>
        simp only [machine,World.answer] at ha
        split at ha
        · next hread =>
          have hmei : me = i := (show me = g.me from hok).trans hme
          exact hread.trans (by rw [hmei,hcore])
        · cases ha
      | varOs key =>
        intro e he
        obtain ⟨_,henv,_⟩ := hj.holder i g e hg he
        simp only [machine,World.answer] at ha
        split at ha
        · next hread => exact hread.trans (by rw [henv])
        · cases ha
      | _ => exact trivial
    refine ⟨_,[],⟨hexpects,rfl⟩,.nil,?_⟩
    rw [List.append_nil]
    exact hj.step hg hok ha
  · intro s i ghosts hcut
    exact hcut.elim
  · intro s e
    exact e.elim

theorem begin_outlined (initial : Environment) (poisoned : Bool) (threads : List (List Call)) :
    Outlined (serial initial) (Fits initial) (begin initial poisoned threads) := by
  let ghosts : List Ghost := threads.mapIdx fun i _ => ⟨i,.new,none⟩
  have hghosts : ∀ (i : Nat) (g : Ghost), ghosts[i]? = some g → g = ⟨i,.new,none⟩ := by
    intro i g hg
    rw [List.getElem?_mapIdx,Option.map_eq_some_iff] at hg
    obtain ⟨_,_,rfl⟩ := hg
    rfl
  refine ⟨ghosts,?_,?_,?_,?_,?_,?_,?_⟩
  · rw [begin,List.forall₂_iff_get]
    refine ⟨by simp [ghosts],fun i hi hi' => ?_⟩
    simp only [ghosts,List.get_eq_getElem,List.getElem_mapIdx]
    exact thread_safe (inv_initial i initial poisoned) _
  · intro i g hg
    cases hghosts i g hg
    exact ⟨rfl,rfl⟩
  · intro i g hg hpos
    cases hghosts i g hg
    cases hpos
  · intro i g e hg he
    cases hghosts i g hg
    cases he
  · intro i hi
    cases hi
  · exact fun _ => rfl
  · exact fun _ _ => rfl

/-- Whatever the threads, their calls and the order of their steps. -/
theorem scopes_serialised (initial : Environment) (poisoned : Bool) (threads : List (List Call))
    {s : State} (h : (scopes initial poisoned threads).Reachable s) : Serialised initial s := by
  obtain ⟨ghosts,hthreads,hfits⟩ := outlined_reachable (serial_preserves initial)
    (fun s hs => by
      rw [show s = begin initial poisoned threads from hs]
      exact begin_outlined initial poisoned threads) h
  have hactive : ∀ i, 0 < (s.world.cores i).depth → s.world.owner = some i := by
    intro i hpos
    cases hg : ghosts[i]? with
    | none =>
      rw [hfits.silent i (List.getElem?_eq_none_iff.mp hg)] at hpos
      omega
    | some g =>
      rw [(hfits.own i g hg).2] at hpos
      obtain ⟨e,he⟩ := Option.isSome_iff_exists.mp (hfits.active i g hg hpos)
      exact (hfits.holder i g e hg he).1
  refine ⟨hactive,?_,?_,?_,hfits.free,?_,?_⟩
  · intro i j hi hj
    exact Option.some.inj ((hactive i hi).symm.trans (hactive j hj))
  · intro i op hop hchanges
    obtain ⟨g,hg,hok⟩ := nextCall_ok hthreads hop
    cases op with
    | changeVar me key value =>
      obtain ⟨e,he⟩ := Option.isSome_iff_exists.mp hok.2
      exact (hfits.holder i g e hg he).1
    | _ => cases hchanges
  · intro i me panicking hop
    obtain ⟨g,hg,hok⟩ := nextCall_ok hthreads hop
    obtain ⟨howner,henv,hacquired⟩ := hfits.holder i g initial hg hok.2.1
    exact ⟨howner,henv.trans hacquired.symm⟩
  · intro i me hop hself
    obtain ⟨g,hg,hok⟩ := nextCall_ok hthreads hop
    obtain ⟨k,hk,hheld⟩ := hfits.owned i hself
    cases hg.symm.trans hk
    rw [show g.held = none from hok.2] at hheld
    cases hheld
  · intro i me result hop
    obtain ⟨g,hg,hok⟩ := nextCall_ok hthreads hop
    refine ⟨?_,hok.2.2⟩
    rw [(hfits.own i g hg).2,← hok.2.1]
    constructor
    · intro howns
      obtain ⟨k,hk,hheld⟩ := hfits.owned i howns
      cases hg.symm.trans hk
      exact hheld
    · intro hheld
      obtain ⟨e,he⟩ := Option.isSome_iff_exists.mp hheld
      exact (hfits.holder i g e hg he).1

def uncut : Action → Bool
  | .abort _ => false
  | _ => true

/-- What the process answers. -/
def World.reply (w : World) : (op : Op) → Reply op
  | .getCore me => w.cores me
  | .isPoisoned => w.poisoned
  | .varOs key => w.environment.vars key
  | .setCore _ _ | .clearPoison | .lock _ | .unlock _ _ | .changeVar _ _ _ | .ended _ _ => ()

/-- The steps of a schedule, as far as no thread has to wait. -/
def advances : State → List ThreadId → List Action
  | _, [] => []
  | s, i :: rest =>
    match nextOp s i with
    | none => []
    | some op =>
      match machine.step s (.advance i op (s.world.reply op)) with
      | none => []
      | some t => .advance i op (s.world.reply op) :: advances t rest

theorem scopes_reach (initial : Environment) (threads : List (List Call))
    (schedule : List ThreadId) (wanted : State → Bool)
    (h : (machine.run (fun _ a => uncut a) (begin initial false threads)
      (advances (begin initial false threads) schedule)).any wanted = true) :
    ∃ s, (scopes initial false threads).Reachable s ∧ wanted s = true := by
  refine machine.run_reaches (fun _ a => uncut a) (fun s a hmeets => ?_) ?_ _ wanted h
  · cases a with
    | abort i => cases hmeets
    | _ => trivial
  · rfl

def emptyEnvironment : Environment := ⟨fun _ => none,fun _ => rfl⟩

def twoThreads : List (List Call) :=
  [[.enter [(ascii "PGHOST",some (ascii "first"))],.exit 7 false],[.enter []]]

/-- A thread exits with a corrupt index while another one waits to enter. -/
theorem scopes_serialised_corrupt_exit :
    ∃ s, (scopes emptyEnvironment false twoThreads).Reachable s ∧
      nextOp s 0 = some (.unlock 0 false) ∧ nextOp s 1 = some (.lock 1) ∧
      Serialised emptyEnvironment s := by
  obtain ⟨s,hreach,hwanted⟩ := scopes_reach emptyEnvironment twoThreads
    (List.replicate 14 0 ++ [1,1] ++ List.replicate 19 0)
    (fun s => nextOp s 0 = some (.unlock 0 false) ∧ nextOp s 1 = some (.lock 1)) (by decide)
  simp only [decide_eq_true_eq] at hwanted
  exact ⟨s,hreach,hwanted.1,hwanted.2,scopes_serialised emptyEnvironment false twoThreads hreach⟩

end PgEmbedSetup.Env.Threads
