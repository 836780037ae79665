import Mathlib.Logic.Function.Basic
import PgEmbedSetup.Library.Process
import PgEmbedSetup.Library.Text

set_option autoImplicit false

/-!
`src/cluster/lifecycle_template/mod.rs`: template databases, each made and set up by one of the
callers that ask for it, under a lock of its name.
-/

namespace PgEmbedSetup.Templates
open Library

/-- A template database. The locks go by the name alone, whatever the cluster. -/
structure Template where
  cluster : Nat
  name : Text
  deriving DecidableEq, Repr

/-- Each call has a number of its own. -/
abbrev Caller := Nat

inductive PanicPayload where
  | message (text : Text)
  | other
  deriving DecidableEq, Repr

inductive TemplateError where
  /-- What a database operation or the setup function reports. -/
  | reported (message : Text)
  | setupRollback (setup rollback : TemplateError)
  | panicRollback (payload : PanicPayload) (rollback : TemplateError)
  deriving DecidableEq, Repr

def panicPayloadMessage : PanicPayload → Text
  | .message text => text
  | .other => "non-string panic payload".toList

def TemplateError.message : TemplateError → Text
  | .reported message => message
  | .setupRollback setup rollback =>
    "template rollback failed after setup error '".toList ++ setup.message ++ "': ".toList ++
      rollback.message
  | .panicRollback payload rollback =>
    "template setup panicked (".toList ++ panicPayloadMessage payload ++
      ") and rollback failed: ".toList ++ rollback.message

abbrev BootstrapResult (α : Type) := Except TemplateError α

instance decidableEqResult {ε α : Type} [DecidableEq ε] [DecidableEq α] :
    DecidableEq (Except ε α)
  | .ok a, .ok b => decidable_of_iff (a = b) ⟨fun h => h ▸ rfl,fun h => Except.ok.inj h⟩
  | .error e, .error e' => decidable_of_iff (e = e') ⟨fun h => h ▸ rfl,fun h => Except.error.inj h⟩
  | .ok _, .error _ => .isFalse (fun h => nomatch h)
  | .error _, .ok _ => .isFalse (fun h => nomatch h)

/-- What `catch_unwind` makes of the setup function. -/
inductive SetupOutcome where
  | returned (r : BootstrapResult Unit)
  | panicked (payload : PanicPayload)
  deriving DecidableEq

/-- How a call ends: it returns, or a panic goes on through it. -/
abbrev Ended := SetupOutcome

def SetupOutcome.isPanic : SetupOutcome → Bool
  | .returned _ => false
  | .panicked _ => true

inductive Op where
  /-- `locks.entry(name).or_insert_with(..).clone()`, for the mutex of the name. -/
  | entry (name : Text)
  /-- `lock.lock()`, for whether the mutex is poisoned. -/
  | lock (mutex : Nat)
  /-- The guard drops, in a thread that panics or does not. -/
  | unlock (mutex : Nat) (panicking : Bool)
  | databaseExists (c : Caller) (t : Template)
  | createDatabase (c : Caller) (t : Template)
  | setupFn (c : Caller) (t : Template)
  | dropDatabase (c : Caller) (t : Template)
  | ended (c : Caller) (t : Template) (r : Ended)
  deriving DecidableEq

abbrev Reply : Op → Type
  | .entry _ => Nat
  | .lock _ => Bool
  | .databaseExists _ _ => BootstrapResult Bool
  | .createDatabase _ _ | .dropDatabase _ _ => BootstrapResult Unit
  | .setupFn _ _ => SetupOutcome
  | .unlock _ _ | .ended _ _ _ => Unit

abbrev Code (α : Type) := Process Op Reply α

def call (op : Op) : Code (Reply op) := Process.perform op

/-- `PoisonError::into_inner`: a poisoned lock serves as well. -/
def withTemplateLock (name : Text) (operation : Code Ended) : Code Ended := do
  let mutex ← call (.entry name)
  let _poisoned ← call (.lock mutex)
  let r ← operation
  call (.unlock mutex r.isPanic)
  pure r

def rollbackAfterSetupError (c : Caller) (t : Template) (setupError : TemplateError) :
    Code Ended := do
  match ← call (.dropDatabase c t) with
  | .ok () => pure (.returned (.error setupError))
  | .error rollbackError => pure (.returned (.error (.setupRollback setupError rollbackError)))

def resumeOrReportRollbackFailure (c : Caller) (t : Template) (payload : PanicPayload) :
    Code Ended := do
  match ← call (.dropDatabase c t) with
  | .ok () => pure (.panicked payload)
  | .error rollbackError => pure (.returned (.error (.panicRollback payload rollbackError)))

def setupTemplateOrRollback (c : Caller) (t : Template) : Code Ended := do
  match ← call (.setupFn c t) with
  | .returned (.ok ()) => pure (.returned (.ok ()))
  | .returned (.error setupError) => rollbackAfterSetupError c t setupError
  | .panicked payload => resumeOrReportRollbackFailure c t payload

def createAndSetupTemplate (c : Caller) (t : Template) : Code Ended := do
  match ← call (.createDatabase c t) with
  | .error e => pure (.returned (.error e))
  | .ok () => setupTemplateOrRollback c t

def ensureTemplateExistsWithLock (c : Caller) (t : Template) : Code Ended :=
  withTemplateLock t.name do
    match ← call (.databaseExists c t) with
    | .error e => pure (.returned (.error e))
    | .ok true => pure (.returned (.ok ()))
    | .ok false => createAndSetupTemplate c t

def ensureTemplateExists (c : Caller) (t : Template) : Code Unit := do
  let r ← ensureTemplateExistsWithLock c t
  call (.ended c t r)

/-! ### The process and its servers -/

structure Mutex where
  locked : Bool
  poisoned : Bool

/-- `ended` also tells what the database was then. -/
inductive Event where
  | checked (c : Caller) (t : Template) (r : BootstrapResult Bool)
  | created (c : Caller) (t : Template) (r : BootstrapResult Unit)
  | ranSetup (c : Caller) (t : Template) (o : SetupOutcome)
  | dropped (c : Caller) (t : Template) (r : BootstrapResult Unit)
  | ended (c : Caller) (t : Template) (r : Ended) (database : Option Bool)
  deriving DecidableEq

/-- `databases` gives for each existing database whether a setup has succeeded on it. -/
structure World where
  locks : Text → Option Nat
  fresh : Nat
  mutexes : Nat → Mutex
  databases : Template → Option Bool
  events : List Event

def World.initial : World where
  locks _ := none
  fresh := 0
  mutexes _ := ⟨false,false⟩
  databases _ := none
  events := []

def World.log (w : World) (e : Event) : World := { w with events := w.events ++ [e] }

def World.setDatabase (w : World) (t : Template) (database : Option Bool) : World :=
  { w with databases := Function.update w.databases t database }

def World.setMutex (w : World) (m : Nat) (mutex : Mutex) : World :=
  { w with mutexes := Function.update w.mutexes m mutex }

@[simp] theorem World.log_events (w : World) (e : Event) : (w.log e).events = w.events ++ [e] := rfl

@[simp] theorem World.log_databases (w : World) (e : Event) :
    (w.log e).databases = w.databases := rfl

@[simp] theorem World.setMutex_events (w : World) (m : Nat) (mutex : Mutex) :
    (w.setMutex m mutex).events = w.events := rfl

@[simp] theorem World.setMutex_databases (w : World) (m : Nat) (mutex : Mutex) :
    (w.setMutex m mutex).databases = w.databases := rfl

/-- What a server may answer. A failed operation has no effect. -/
def admits (w : World) : (op : Op) → Reply op → Bool
  | .databaseExists _ t, .ok found => found = (w.databases t).isSome
  | .createDatabase _ t, .ok () => (w.databases t).isNone
  | .dropDatabase _ t, .ok () => (w.databases t).isSome
  | _, _ => true

def answer (w : World) : (op : Op) → Reply op → Option World
  | .entry name, m =>
    match w.locks name with
    | some mutex => if m = mutex then some w else none
    | none =>
      if m = w.fresh then
        some { w with locks := Function.update w.locks name (some m), fresh := w.fresh+1 }
      else none
  | .lock m, poisoned =>
    if (w.mutexes m).locked then none
    else if poisoned = (w.mutexes m).poisoned then some (w.setMutex m ⟨true,poisoned⟩)
    else none
  | .unlock m panicking, _ =>
    some (w.setMutex m ⟨false,(w.mutexes m).poisoned || panicking⟩)
  | .databaseExists c t, r =>
    if admits w (.databaseExists c t) r then some (w.log (.checked c t r)) else none
  | .createDatabase c t, r =>
    if admits w (.createDatabase c t) r then
      let w := w.log (.created c t r)
      some (if r = .ok () then w.setDatabase t (some false) else w)
    else none
  | .setupFn c t, o =>
    let w := w.log (.ranSetup c t o)
    some (if o = .returned (.ok ()) then w.setDatabase t ((w.databases t).map fun _ => true) else w)
  | .dropDatabase c t, r =>
    if admits w (.dropDatabase c t) r then
      let w := w.log (.dropped c t r)
      some (if r = .ok () then w.setDatabase t none else w)
    else none
  | .ended c t r, _ => some (w.log (.ended c t r (w.databases t)))

/-- Nothing but the calls themselves touches the locks and the databases. -/
def machine : Machine Op Reply World Empty where
  answer := answer
  spawned _ := []
  env _ e := e.elim
  aborted w := w

abbrev State := Pool Op Reply World

abbrev Action := PoolAction Op Reply Empty

def begin (calls : List Template) : State := ⟨World.initial,calls.mapIdx ensureTemplateExists⟩

/-- No call is cut off; one may stop for ever by never being scheduled again. -/
def Uncut (_ : State) : Action → Prop
  | .abort _ => False
  | _ => True

/-- Any number of calls at once, each from a thread of its own. -/
def ensures (calls : List Template) : System State Action :=
  (machine.system (fun s => s = begin calls)).restrict Uncut

end PgEmbedSetup.Templates
