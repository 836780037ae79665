import PgEmbedSetup.Env.ScopedEnv
import PgEmbedSetup.Library.Process

set_option autoImplicit false

/-!
The scoped-environment core once more, one access to shared or thread-local state at a time,
for several threads of one process.
-/

namespace PgEmbedSetup.Env.Threads
open Library

/-- A value that `std::env` can set, or none to remove the variable. -/
abbrev ValidValue := { value : Option OsString // isValidEnvValue value = true }

/-- What a thread does next. Its core is the `THREAD_STATE` of that thread. -/
inductive Op where
  | getCore (me : ThreadId)
  | setCore (me : ThreadId) (core : ThreadStateCore)
  | isPoisoned
  | clearPoison
  /-- Waits until the mutex is free. -/
  | lock (me : ThreadId)
  /-- Dropping the guard, which poisons the mutex when the thread is unwinding. -/
  | unlock (me : ThreadId) (panicking : Bool)
  | varOs (key : OsString)
  | changeVar (me : ThreadId) (key : OsString) (value : ValidValue)
  /-- A call is over; nothing happens. -/
  | ended (me : ThreadId) (result : Except Halt Unit)
  deriving DecidableEq

abbrev Reply : Op → Type
  | .getCore _ => ThreadStateCore
  | .isPoisoned => Bool
  | .varOs _ => Option OsString
  | .setCore _ _ | .clearPoison | .lock _ | .unlock _ _ | .changeVar _ _ _ | .ended _ _ => Unit

abbrev Code (α : Type) := Library.Process Op Reply α

/-- Code that may panic. -/
abbrev StepM := ExceptT Halt (Library.Process Op Reply)

def call (op : Op) : StepM (Reply op) := ExceptT.lift (Process.perform op)

def ensure (condition : Bool) (message : String) : StepM Unit :=
  if condition then pure () else throw (.assertion message)

/-! ### Validation -/

def validateEnvKey (key : OsString) : StepM Unit :=
  if key.isEmpty then
    throw (.rejected "ScopedEnv received an empty environment variable name")
  else if containsNul key then
    throw (.rejected "ScopedEnv received an environment variable name containing NUL")
  else if containsEquals key then
    throw (.rejected "ScopedEnv received an environment variable name containing '='")
  else pure ()

def validateEnvValue : Option OsString → StepM Unit
  | none => pure ()
  | some v =>
    if containsNul v then
      throw (.rejected "ScopedEnv received an environment variable value containing NUL")
    else pure ()

def validateEnvVars : List (OsString × Option OsString) → StepM Unit
  | [] => pure ()
  | (key,value) :: rest => do
    validateEnvKey key
    validateEnvValue value
    validateEnvVars rest

section Core
variable (me : ThreadId)

def modifyCore (f : ThreadStateCore → ThreadStateCore) : StepM Unit := do
  let core ← call (.getCore me)
  call (.setCore me (f core))

def setStack (stack : List GuardState) : StepM Unit :=
  modifyCore me fun c => { c with stack := stack }

/-! ### `EnvLockOps` for `StdEnvLock` -/

def lockEnvMutex : StepM MutexGuard := do
  call (.lock me)
  pure ⟨me⟩

def ensureLockIsClean : StepM Unit := do
  if ← call .isPoisoned then call .clearPoison else pure ()

def dropGuard (panicking : Bool) : StepM Unit := call (.unlock me panicking)

def writeVar (key : OsString) (value : Option OsString) : StepM Unit := do
  ensure (isValidEnvKey key) "failed to change environment variable"
  if h : isValidEnvValue value = true then call (.changeVar me key ⟨value,h⟩)
  else throw (.assertion "failed to set environment variable")

def setVar (key value : OsString) : StepM Unit := writeVar me key (some value)

def removeVar (key : OsString) : StepM Unit := writeVar me key none

/-! ### Entering -/

def guardMut (context : String) : StepM Unit := do
  match (← call (.getCore me)).lock with
  | some _ => pure ()
  | none => throw (.assertion context)

def takeLock : StepM Unit := do
  ensureLockIsClean
  let guard ← lockEnvMutex me
  modifyCore me fun c => { c with lock := some guard }

def acquireLockIfNeeded : StepM Unit := do
  let core ← call (.getCore me)
  if core.depth > 0 then pure ()
  else do
    ensure core.lock.isNone "ScopedEnv depth desynchronized: mutex still held"
    takeLock me

def applySingleVar (key : OsString) (newValue : Option OsString) : StepM (Option OsString) := do
  ensure (isValidEnvKey key) "invalid env var name"
  ensure (isValidEnvValue newValue) "invalid env var value"
  let previous ← call (.varOs key)
  match newValue with
  | some value => setVar me key value
  | none => removeVar me key
  pure previous

def applyLoop : List (OsString × Option OsString) → StepM (List (OsString × Option OsString))
  | [] => pure []
  | (key,newValue) :: rest => do
    let previous ← applySingleVar me key newValue
    let saved ← applyLoop rest
    pure ((key,previous) :: saved)

def applyEnvVars (vars : List (OsString × Option OsString)) :
    StepM (List (OsString × Option OsString)) := do
  guardMut me "ScopedEnv must hold the mutex before mutating the environment"
  applyLoop me vars

def enterScope (vars : List (OsString × Option OsString)) : StepM Nat := do
  validateEnvVars vars
  acquireLockIfNeeded me
  modifyCore me fun c => { c with depth := c.depth + 1 }
  let saved ← applyEnvVars me vars
  let stack := (← call (.getCore me)).stack
  setStack me (⟨saved,false⟩ :: stack)
  pure stack.length

/-! ### Exiting -/

def restoreSaved : List (OsString × Option OsString) → StepM Unit
  | [] => pure ()
  | (key,value) :: rest => do
    restoreSaved rest
    match value with
    | some previous => setVar me key previous
    | none => removeVar me key

def ensureLockForRestore : StepM Unit := do
  match (← call (.getCore me)).lock with
  | some _ => pure ()
  | none => takeLock me

def popFinished : List GuardState → StepM Unit
  | [] => setStack me []
  | g :: below =>
    if g.finished then do
      setStack me below
      guardMut me "ScopedEnv must hold the mutex before restoring finished environment scopes"
      restoreSaved me g.saved
      popFinished below
    else setStack me (g :: below)

def restoreFinishedScopes : StepM Unit := do
  let stack := (← call (.getCore me)).stack
  if stack.head?.any (·.finished) then ensureLockForRestore me
  popFinished me stack

def popAll : List GuardState → StepM Unit
  | [] => setStack me []
  | g :: below => do
    setStack me below
    guardMut me "ScopedEnv must hold the mutex before restoring all scopes"
    restoreSaved me g.saved
    popAll below

def restoreAllScopes : StepM Unit := do
  let stack := (← call (.getCore me)).stack
  if stack.isEmpty then pure ()
  else do
    ensureLockForRestore me
    popAll me stack

variable (panicking : Bool)

def resetDepthAndUnlock : StepM Unit := do
  modifyCore me fun c => { c with depth := 0 }
  match (← call (.getCore me)).lock with
  | some _ => do
    modifyCore me fun c => { c with lock := none }
    dropGuard me panicking
  | none => pure ()

def forceRestoreAndReset : StepM Unit := do
  let core ← call (.getCore me)
  if core.stack.isEmpty then
    if core.lock.isSome then resetDepthAndUnlock me panicking
    else modifyCore me fun c => { c with depth := 0 }
  else do
    ensureLockForRestore me
    restoreAllScopes me
    resetDepthAndUnlock me panicking

def releaseOutermostLock : StepM Unit := do
  let core ← call (.getCore me)
  ensure core.stack.isEmpty "ScopedEnv stack must be empty once recursion depth reaches zero"
  match core.lock with
  | some _ => do
    modifyCore me fun c => { c with lock := none }
    dropGuard me panicking
  | none => throw (.assertion "ScopedEnv mutex guard missing at depth zero")

def finishScope (index : Nat) : StepM Bool := do
  let stack := (← call (.getCore me)).stack
  match scopeAt stack index with
  | none => do
    forceRestoreAndReset me panicking
    pure false
  | some g =>
    if g.finished then do
      forceRestoreAndReset me panicking
      pure false
    else do
      setStack me (markFinished stack index)
      restoreFinishedScopes me
      pure true

def exitScope (index : Nat) : StepM Unit := do
  let core ← call (.getCore me)
  if core.depth = 0 then forceRestoreAndReset me panicking
  else do
    modifyCore me fun c => { c with depth := c.depth - 1 }
    if ← finishScope me panicking index then do
      let core ← call (.getCore me)
      if core.depth = 0 then releaseOutermostLock me panicking else pure ()
    else pure ()

end Core

/-! ### Threads -/

def Call.steps (me : ThreadId) : Call → StepM Unit
  | .enter vars => do
    let _ ← enterScope me vars
    pure ()
  | .exit index panicking => exitScope me panicking index

/-- A thread makes its calls one after the other, also after one that panicked. It stays what
it is at the end, with the scopes it has left open. -/
def thread (me : ThreadId) : List Call → Code Unit
  | [] => pure ()
  | c :: rest => do
    let result ← (Call.steps me c).run
    Process.perform (Op.ended me result)
    thread me rest

/-- `acquired` records the environment of the moment the mutex was taken last. -/
structure World where
  environment : Environment
  owner : Option ThreadId
  poisoned : Bool
  cores : ThreadId → ThreadStateCore
  acquired : Environment

def World.answer (w : World) : (op : Op) → Reply op → Option World
  | .getCore me, core => if core = w.cores me then some w else none
  | .setCore me core, _ => some { w with cores := Function.update w.cores me core }
  | .isPoisoned, b => if b = w.poisoned then some w else none
  | .clearPoison, _ => some { w with poisoned := false }
  | .lock me, _ =>
    if w.owner = none then some { w with owner := some me, acquired := w.environment } else none
  | .unlock _ panicking, _ => some { w with owner := none, poisoned := w.poisoned || panicking }
  | .varOs key, value => if value = w.environment.vars key then some w else none
  | .changeVar _ key value, _ =>
    some { w with environment := w.environment.assign key value.val value.property }
  | .ended _ _, _ => some w

def machine : Machine Op Reply World Empty where
  answer := World.answer
  spawned _ := []
  env _ e := e.elim
  aborted w := w

abbrev State := Pool Op Reply World

abbrev Action := PoolAction Op Reply Empty

def begin (environment : Environment) (poisoned : Bool) (threads : List (List Call)) : State where
  world := ⟨environment,none,poisoned,fun _ => .new,environment⟩
  threads := threads.mapIdx thread

def Uncut (_ : State) : Action → Prop
  | .abort _ => False
  | _ => True

/-- Any threads with any calls, their steps in any order. -/
def scopes (environment : Environment) (poisoned : Bool) (threads : List (List Call)) :
    System State Action :=
  (machine.system (fun s => s = begin environment poisoned threads)).restrict Uncut

def nextOp (s : State) (i : ThreadId) : Option Op := (s.threads[i]?).bind Process.nextCall

end PgEmbedSetup.Env.Threads
