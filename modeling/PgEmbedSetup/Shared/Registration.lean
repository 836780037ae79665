import PgEmbedSetup.Cluster.Shutdown

set_option autoImplicit false

/-!
`src/cluster/shutdown_hook/mod.rs` and `src/test_support/shared_singleton.rs`: the one slot for a
cluster to stop at exit, and the two process-wide clusters and the callers that compete for it.
-/

namespace PgEmbedSetup.Shared
open Library
open Root (CleanupMode)
open Cluster (Settings TestCluster FileRead readPostmasterProcess shutdownCallback)

deriving instance DecidableEq for Settings

/-- What a handle's bootstrap metadata says of its cluster. -/
structure ClusterHandle where
  settings : Settings
  shutdownTimeout : Nat
  cleanupMode : CleanupMode
  deriving DecidableEq

/-- What of a cluster the hook works with. -/
def ClusterHandle.cluster (h : ClusterHandle) : TestCluster :=
  ⟨false,false,h.cleanupMode,h.settings⟩

/-- The reports this code builds, around those it is given. -/
inductive Report where
  /-- `failed to read …`, `malformed postmaster process in …`. -/
  | pidFile (settings : Settings)
  /-- `libc::atexit registration failed (rc=…)`. -/
  | atexit (rc : Int)
  /-- What `TestCluster::new` reports. -/
  | bootstrap (text : Text)
  /-- `bootstrap failed after … attempts; each failure was transient`. -/
  | exhausted (attempts : Nat) (inner : Report)
  | bootstrapFailed (inner : Report)
  | registrationFailed (inner : Report)
  | previouslyFailed (inner : Report)
  deriving DecidableEq

inductive BootstrapErrorKind where
  | other
  | workerBinaryMissing
  | workerBinaryPathNonUtf8
  | clusterPasswordMissing
  | clusterPasswordUnreadable
  | clusterPasswordEmpty
  | extensionConfigInvalid
  | extensionManifestUnavailable
  | extensionManifestDigestMismatch
  | extensionManifestInvalid
  | extensionUnavailable
  | extensionArchiveUnavailable
  | extensionArchiveDigestMismatch
  | extensionArchiveInvalid
  | extensionInstallFailed
  deriving DecidableEq, Repr

structure BootstrapError where
  kind : BootstrapErrorKind
  report : Report
  deriving DecidableEq

inductive ShutdownRegistrationState where
  | empty
  | registering
  | registered (work : ClusterHandle)
  deriving DecidableEq

inductive SharedInitState where
  | uninitialized
  | initialized (h : ClusterHandle)
  | failed (cached : BootstrapError)
  deriving DecidableEq

/-- `SHARED_CLUSTER` and `SHARED_CLUSTER_HANDLE`. -/
inductive Singleton where
  | cluster
  | handle
  deriving DecidableEq, Repr

/-- One `TestCluster::new` or `TestCluster::new_split`, and whether a failure's report has a
transient cause. -/
inductive Attempt where
  | started (h : ClusterHandle)
  | failed (e : BootstrapError) (transientCause : Bool)
  deriving DecidableEq

inductive Op where
  /-- Claims the slot, unless it is taken; waits while another claim is being worked on. -/
  | reserve (h : ClusterHandle)
  | readPidFile (s : Settings)
  /-- `libc::atexit(shutdown_callback)`, for its return code. -/
  | atexit
  | commit (h : ClusterHandle)
  | rollback
  /-- Locks a singleton's mutex and looks at its state. -/
  | lock (k : Singleton)
  /-- Leaves a new state, or none, and unlocks. -/
  | unlock (k : Singleton) (state : Option SharedInitState)
  | start (k : Singleton)
  | sleep (ms : Nat)
  /-- `mem::forget` or `Box::leak` of a cluster's guard. -/
  | leak (h : ClusterHandle)
  | dropGuard (h : ClusterHandle)
  deriving DecidableEq

abbrev Reply : Op → Type
  | .reserve _ => Bool
  | .readPidFile _ => FileRead
  | .atexit => Int
  | .lock _ => SharedInitState
  | .start _ => Attempt
  | .commit _ | .rollback | .unlock _ _ | .sleep _ | .leak _ | .dropGuard _ => Unit

abbrev Code (α : Type) := Process Op Reply α

def call (op : Op) : Code (Reply op) := Process.perform op

/-! ### `shutdown_hook/mod.rs` -/

def registerAtexit : Code (Except BootstrapError Unit) := do
  let rc ← call .atexit
  if rc ≠ 0 then pure (.error ⟨.other,.atexit rc⟩) else pure (.ok ())

/-- Nothing fails once the callback is registered. -/
def buildShutdownState (h : ClusterHandle) : Code (Except BootstrapError ClusterHandle) := do
  let file ← call (.readPidFile h.settings)
  match readPostmasterProcess file with
  | .error () => pure (.error ⟨.other,.pidFile h.settings⟩)
  | .ok _ => do
    match ← registerAtexit with
    | .error e => pure (.error e)
    | .ok () => pure (.ok h)

def registerShutdownHook (h : ClusterHandle) : Code (Except BootstrapError Unit) := do
  if ← call (.reserve h) then do
    match ← buildShutdownState h with
    | .error e => do
      call .rollback
      pure (.error e)
    | .ok state => do
      call (.commit state)
      pure (.ok ())
  else pure (.ok ())

/-! ### `bootstrap_retry/mod.rs` -/

structure RetryPolicy where
  attempts : Nat
  firstDelay : Nat

def RetryPolicy.sharedCluster : RetryPolicy := ⟨3,1000⟩

def RetryPolicy.delayAfter (p : RetryPolicy) (made : Nat) : Nat := p.firstDelay * 2^(made-1)

def isTransient (e : BootstrapError) (transientCause : Bool) : Bool :=
  e.kind = .extensionArchiveUnavailable || transientCause

def exhausted (e : BootstrapError) (attempts : Nat) : BootstrapError :=
  ⟨e.kind,.exhausted attempts e.report⟩

/-- `left` attempts remain after the one with number `made`. -/
def retryFrom (p : RetryPolicy) (k : Singleton) (made : Nat) :
    Nat → Code (Except BootstrapError ClusterHandle)
  | 0 => do
    match ← call (.start k) with
    | .started h => pure (.ok h)
    | .failed e cause => pure (.error (if isTransient e cause then exhausted e made else e))
  | left+1 => do
    match ← call (.start k) with
    | .started h => pure (.ok h)
    | .failed e cause =>
      if isTransient e cause then do
        call (.sleep (p.delayAfter made))
        retryFrom p k (made+1) left
      else pure (.error e)

def retryTransient (p : RetryPolicy) (k : Singleton) : Code (Except BootstrapError ClusterHandle) :=
  retryFrom p k 1 (p.attempts-1)

/-! ### `shared_singleton.rs` -/

def cachedSharedHandleError (original : BootstrapError) : BootstrapError :=
  ⟨original.kind,.previouslyFailed original.report⟩

/-- The error to cache and the one to return. -/
abbrev InitError := BootstrapError × BootstrapError

/-- If the registration fails, the guard drops and stops the cluster. -/
def leakAfterShutdownHook (h : ClusterHandle) : Code (Except InitError ClusterHandle) := do
  match ← registerShutdownHook h with
  | .error e => do
    call (.dropGuard h)
    pure (.error (⟨e.kind,.registrationFailed e.report⟩,e))
  | .ok () => do
    call (.leak h)
    pure (.ok h)

/-- `initialize_shared_cluster` and `initialize_shared_cluster_handle`. -/
def initializeShared (k : Singleton) : Code (Except InitError ClusterHandle) := do
  match ← retryTransient .sharedCluster k with
  | .ok h => leakAfterShutdownHook h
  | .error e => pure (.error (⟨e.kind,.bootstrapFailed e.report⟩,e))

/-- `get_or_try_init_shared` under the singleton's mutex. -/
def shared (k : Singleton) : Code (Except BootstrapError ClusterHandle) := do
  match ← call (.lock k) with
  | .initialized h => do
    call (.unlock k none)
    pure (.ok h)
  | .failed cached => do
    call (.unlock k none)
    pure (.error (cachedSharedHandleError cached))
  | .uninitialized => do
    match ← initializeShared k with
    | .ok h => do
      call (.unlock k (some (.initialized h)))
      pure (.ok h)
    | .error (cached,e) => do
      call (.unlock k (some (.failed cached)))
      pure (.error e)

def sharedCluster : Code (Except BootstrapError ClusterHandle) := shared .cluster

def sharedClusterHandle : Code (Except BootstrapError ClusterHandle) := shared .handle

def registerShutdownOnExit (h : ClusterHandle) : Code (Except BootstrapError Unit) :=
  registerShutdownHook h

/-- What user code calls. It may leak the guard of any cluster at any time. -/
inductive Call where
  | sharedCluster
  | sharedClusterHandle
  | registerShutdownOnExit (h : ClusterHandle)
  | forget (h : ClusterHandle)

def discard {α : Type} (p : Code α) : Code Unit := do
  let _ ← p
  pure ()

def Call.program : Call → Code Unit
  | .sharedCluster => discard Shared.sharedCluster
  | .sharedClusterHandle => discard Shared.sharedClusterHandle
  | .registerShutdownOnExit h => discard (Shared.registerShutdownOnExit h)
  | .forget h => call (.leak h)

def thread : List Call → Code Unit
  | [] => pure ()
  | c :: rest => do
    c.program
    thread rest

/-! ### The process -/

/-- A leaked cluster, and the registrations that had returned `Ok` before. -/
structure Leak where
  cluster : ClusterHandle
  accepted : List ClusterHandle
  deriving DecidableEq

/-- `accepted` lists the registrations that returned `Ok`, in this order. -/
structure World where
  slot : ShutdownRegistrationState
  callbacks : Nat
  shared : Singleton → SharedInitState
  held : Singleton → Bool
  accepted : List ClusterHandle
  leaks : List Leak

def World.initial : World where
  slot := .empty
  callbacks := 0
  shared _ := .uninitialized
  held _ := false
  accepted := []
  leaks := []

def answer (w : World) : (op : Op) → Reply op → Option World
  | .reserve h, first =>
    match w.slot with
    | .empty => if first then some { w with slot := .registering } else none
    | .registered _ => if first then none else some { w with accepted := w.accepted ++ [h] }
    | .registering => none
  | .atexit, rc => some { w with callbacks := if rc = 0 then w.callbacks+1 else w.callbacks }
  | .commit h, _ =>
    some { w with slot := .registered h, accepted := w.accepted ++ [h] }
  | .rollback, _ => some { w with slot := .empty }
  | .lock k, state =>
    if w.held k then none
    else if state = w.shared k then some { w with held := Function.update w.held k true }
    else none
  | .unlock k state, _ =>
    some { w with
      held := Function.update w.held k false
      shared := Function.update w.shared k (state.getD (w.shared k)) }
  | .leak h, _ => some { w with leaks := w.leaks ++ [⟨h,w.accepted⟩] }
  | .readPidFile _, _ | .start _, _ | .sleep _, _ | .dropGuard _, _ => some w

/-- Nothing but the threads' own calls changes the process. -/
def machine : Machine Op Reply World Empty where
  answer := answer
  spawned _ := []
  env _ e := e.elim
  aborted w := w

abbrev State := Pool Op Reply World

abbrev Action := PoolAction Op Reply Empty

/-- Any number of threads, each with any sequence of calls. -/
def processes : System State Action :=
  machine.system (fun s => ∃ calls : List (List Call), s = ⟨World.initial,calls.map thread⟩)

/-- `shutdown_work`. -/
def shutdownWork : ShutdownRegistrationState → Option ClusterHandle
  | .registered work => some work
  | .empty | .registering => none

/-- The clusters the callbacks would work on if the process exited now. -/
def exitTargets (w : World) : List ClusterHandle :=
  (List.replicate w.callbacks ()).filterMap (fun _ => shutdownWork w.slot)

/-- What the callbacks do with them. -/
def exitPrograms (w : World) (polls : Nat) : List (Cluster.Code Unit) :=
  (exitTargets w).map (fun h => shutdownCallback h.cluster polls)

end PgEmbedSetup.Shared
