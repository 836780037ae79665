import PgEmbedSetup.Library.Text
import PgEmbedSetup.Library.UndoLog

set_option autoImplicit false

/-!
`src/env/state`: the thread-local core behind `ScopedEnv`. Its transitions run in a
state monad whose errors keep the state they were raised in, so what a panic leaves
behind can be read off.
-/

namespace PgEmbedSetup.Env
open Library

abbrev OsString := Bytes
abbrev ThreadId := Nat

/-- How a transition ends when it does not return. -/
inductive Halt where
  | rejected (message : String)
  | assertion (message : String)
  | blocked
  deriving DecidableEq, Repr

def containsNul (value : OsString) : Bool := value.contains 0

def containsEquals (key : OsString) : Bool := key.contains 61

def isValidEnvKey (key : OsString) : Bool :=
  !key.isEmpty && !containsNul key && !containsEquals key

def isValidEnvValue (value : Option OsString) : Bool := value.all (fun v => !containsNul v)

/-- The variables of a process. Values are C strings, so none holds a NUL. -/
@[ext] structure Environment where
  vars : Store OsString OsString
  nulFree : ∀ k, isValidEnvValue (vars k) = true

def Environment.assign (e : Environment) (key : OsString) (value : Option OsString)
    (h : isValidEnvValue value = true) : Environment where
  vars := e.vars.assign key value
  nulFree k := by
    by_cases hk : k = key
    · simp [Store.assign,hk,h]
    · simp [Store.assign,hk,e.nulFree k]

@[simp] theorem Environment.assign_vars (e : Environment) (key : OsString)
    (value : Option OsString) (h : isValidEnvValue value = true) :
    (e.assign key value h).vars = e.vars.assign key value := rfl

/-- What the threads of a process share: its environment and `ENV_LOCK`. -/
structure Process where
  environment : Environment
  owner : Option ThreadId
  poisoned : Bool

structure MutexGuard where
  thread : ThreadId
  deriving DecidableEq, Repr

structure GuardState where
  saved : List (OsString × Option OsString)
  finished : Bool
  deriving DecidableEq, Repr

/-- The stack is kept top first; a `Vec` index counts from its other end. -/
structure ThreadStateCore where
  depth : Nat
  lock : Option MutexGuard
  stack : List GuardState
  deriving DecidableEq, Repr

def ThreadStateCore.new : ThreadStateCore := ⟨0,none,[]⟩

/-- One thread's view: its own core, the process, and whether it is unwinding. -/
structure State where
  thread : ThreadId
  panicking : Bool
  core : ThreadStateCore
  process : Process

abbrev EnvM := EStateM Halt State

def modifyCore (f : ThreadStateCore → ThreadStateCore) : EnvM Unit :=
  modify fun s => { s with core := f s.core }

def modifyProcess (f : Process → Process) : EnvM Unit :=
  modify fun s => { s with process := f s.process }

def setStack (stack : List GuardState) : EnvM Unit :=
  modifyCore fun c => { c with stack := stack }

/-- `debug_assert!` and `assert!` inside a transition. -/
def ensure (condition : Bool) (message : String) : EnvM Unit :=
  if condition then pure () else throw (.assertion message)

/-! ### `EnvLockOps` for `StdEnvLock` -/

/-- The mutex is not re-entrant: a thread that holds it already never gets it again. -/
def lockEnvMutex : EnvM MutexGuard := do
  let s ← get
  match s.process.owner with
  | some _ => throw .blocked
  | none =>
    modifyProcess fun p => { p with owner := some s.thread }
    pure ⟨s.thread⟩

def ensureLockIsClean : EnvM Unit := modifyProcess fun p => { p with poisoned := false }

/-- Dropping the guard frees the mutex, and poisons it when the thread is unwinding. -/
def dropGuard : EnvM Unit := do
  let s ← get
  modifyProcess fun p => { p with owner := none, poisoned := p.poisoned || s.panicking }

def varOs (key : OsString) : EnvM (Option OsString) := do
  return (← get).process.environment.vars key

/-- `std::env::set_var` and `remove_var` panic on a key or value they cannot represent. -/
def writeVar (key : OsString) (value : Option OsString) : EnvM Unit := do
  ensure (isValidEnvKey key) "failed to change environment variable"
  if h : isValidEnvValue value = true then
    modifyProcess fun p => { p with environment := p.environment.assign key value h }
  else throw (.assertion "failed to set environment variable")

def setVar (key value : OsString) : EnvM Unit := writeVar key (some value)

def removeVar (key : OsString) : EnvM Unit := writeVar key none

/-! ### Validation -/

def validateEnvKey (key : OsString) : EnvM Unit := do
  if key.isEmpty then
    throw (.rejected "ScopedEnv received an empty environment variable name")
  if containsNul key then
    throw (.rejected "ScopedEnv received an environment variable name containing NUL")
  if containsEquals key then
    throw (.rejected "ScopedEnv received an environment variable name containing '='")

def validateEnvValue : Option OsString → EnvM Unit
  | none => pure ()
  | some v => do
    if containsNul v then
      throw (.rejected "ScopedEnv received an environment variable value containing NUL")

def validateEnvVars : List (OsString × Option OsString) → EnvM Unit
  | [] => pure ()
  | (key,value) :: rest => do
    validateEnvKey key
    validateEnvValue value
    validateEnvVars rest

/-! ### Transitions -/

def guardMut (context : String) : EnvM Unit := do
  match (← get).core.lock with
  | some _ => pure ()
  | none => throw (.assertion context)

def takeLock : EnvM Unit := do
  ensureLockIsClean
  let guard ← lockEnvMutex
  modifyCore fun c => { c with lock := some guard }

def acquireLockIfNeeded : EnvM Unit := do
  let s ← get
  if s.core.depth > 0 then pure ()
  else do
    ensure s.core.lock.isNone "ScopedEnv depth desynchronized: mutex still held"
    takeLock

def applySingleVar (key : OsString) (newValue : Option OsString) :
    EnvM (Option OsString) := do
  ensure (isValidEnvKey key) "invalid env var name"
  ensure (isValidEnvValue newValue) "invalid env var value"
  let previous ← varOs key
  match newValue with
  | some value => setVar key value
  | none => removeVar key
  pure previous

def applyLoop : List (OsString × Option OsString) → EnvM (List (OsString × Option OsString))
  | [] => pure []
  | (key,newValue) :: rest => do
    let previous ← applySingleVar key newValue
    let saved ← applyLoop rest
    pure ((key,previous) :: saved)

def applyEnvVars (vars : List (OsString × Option OsString)) :
    EnvM (List (OsString × Option OsString)) := do
  guardMut "ScopedEnv must hold the mutex before mutating the environment"
  applyLoop vars

def enterScope (vars : List (OsString × Option OsString)) : EnvM Nat := do
  validateEnvVars vars
  acquireLockIfNeeded
  modifyCore fun c => { c with depth := c.depth + 1 }
  let saved ← applyEnvVars vars
  let stack := (← get).core.stack
  setStack (⟨saved,false⟩ :: stack)
  pure stack.length

/-- Entries are written back in reverse order of their application. -/
def restoreSaved : List (OsString × Option OsString) → EnvM Unit
  | [] => pure ()
  | (key,value) :: rest => do
    restoreSaved rest
    match value with
    | some previous => setVar key previous
    | none => removeVar key

def ensureLockForRestore : EnvM Unit := do
  match (← get).core.lock with
  | some _ => pure ()
  | none => takeLock

/-- The `while let` loop of `restore_finished_scopes` over the stack it pops from. -/
def popFinished : List GuardState → EnvM Unit
  | [] => setStack []
  | g :: below =>
    if g.finished then do
      setStack below
      guardMut "ScopedEnv must hold the mutex before restoring finished environment scopes"
      restoreSaved g.saved
      popFinished below
    else setStack (g :: below)

def restoreFinishedScopes : EnvM Unit := do
  let stack := (← get).core.stack
  if stack.head?.any (·.finished) then ensureLockForRestore
  popFinished stack

def popAll : List GuardState → EnvM Unit
  | [] => setStack []
  | g :: below => do
    setStack below
    guardMut "ScopedEnv must hold the mutex before restoring all scopes"
    restoreSaved g.saved
    popAll below

def restoreAllScopes : EnvM Unit := do
  let stack := (← get).core.stack
  if stack.isEmpty then pure ()
  else do
    ensureLockForRestore
    popAll stack

def resetDepthAndUnlock : EnvM Unit := do
  modifyCore fun c => { c with depth := 0 }
  match (← get).core.lock with
  | some _ =>
    modifyCore fun c => { c with lock := none }
    dropGuard
  | none => pure ()

def forceRestoreAndReset : EnvM Unit := do
  let s ← get
  if s.core.stack.isEmpty then
    if s.core.lock.isSome then resetDepthAndUnlock
    else modifyCore fun c => { c with depth := 0 }
  else do
    ensureLockForRestore
    restoreAllScopes
    resetDepthAndUnlock

def releaseOutermostLock : EnvM Unit := do
  let s ← get
  ensure s.core.stack.isEmpty "ScopedEnv stack must be empty once recursion depth reaches zero"
  match s.core.lock with
  | some _ =>
    modifyCore fun c => { c with lock := none }
    dropGuard
  | none => throw (.assertion "ScopedEnv mutex guard missing at depth zero")

/-- `stack.get_mut(index)`: an index counts from the bottom of the stack. -/
def scopeAt (stack : List GuardState) (index : Nat) : Option GuardState := stack.reverse[index]?

def markFinished (stack : List GuardState) (index : Nat) : List GuardState :=
  (stack.reverse.modify index fun g => { g with finished := true }).reverse

def finishScope (index : Nat) : EnvM Bool := do
  let stack := (← get).core.stack
  match scopeAt stack index with
  | none =>
    forceRestoreAndReset
    pure false
  | some g =>
    if g.finished then do
      forceRestoreAndReset
      pure false
    else do
      setStack (markFinished stack index)
      restoreFinishedScopes
      pure true

def exitScope (index : Nat) : EnvM Unit := do
  if (← get).core.depth = 0 then forceRestoreAndReset
  else do
    modifyCore fun c => { c with depth := c.depth - 1 }
    if ← finishScope index then
      if (← get).core.depth = 0 then releaseOutermostLock

end PgEmbedSetup.Env
