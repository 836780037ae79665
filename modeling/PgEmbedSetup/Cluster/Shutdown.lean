import PgEmbedSetup.Library.PathWalk
import PgEmbedSetup.Library.Process
import PgEmbedSetup.Library.Text
import PgEmbedSetup.Root.Model

set_option autoImplicit false

/-!
`src/cluster/{shutdown,cleanup,guard,async_api}.rs` and the hook of `shutdown_hook/`: every
way a started cluster is ended, as programs over the calls they make.
-/

namespace PgEmbedSetup.Cluster
open Library
open Root (CleanupMode)

/-- Paths as their components; a `.` stands only in front. -/
structure Settings where
  dataDir : Path Text
  installationDir : Path Text
  passwordFile : Path Text

/-- What a started cluster's guard was built from. -/
structure TestCluster where
  isAsync : Bool
  isManagedViaWorker : Bool
  cleanupMode : CleanupMode
  settings : Settings

/-- `postgres` tells whether the handle is still there. -/
structure ClusterGuard where
  cluster : TestCluster
  postgres : Bool

/-- The worker holds no handle for its parent, an in-process start always leaves one. -/
def ClusterGuard.started (c : TestCluster) : ClusterGuard := ⟨c,!c.isManagedViaWorker⟩

/-! ### Calls -/

inductive DirectoryLabel where
  | data
  | installation
  | installationRoot
  deriving DecidableEq, Repr

inductive Signal where
  | term
  | kill
  deriving DecidableEq, Repr

inductive Task where
  | workerStop
  | inProcessStop
  deriving DecidableEq, Repr

inductive Op where
  /-- `time::timeout(timeout, postgres.stop())`. -/
  | stopHandle
  /-- `invoke_as_root(WorkerOperation::Stop)`. -/
  | workerStop
  /-- `invoke_as_root` of a cleanup, with what the worker then removes. -/
  | workerCleanup (dirs : List DirectoryLabel)
  | releaseWatcher
  /-- The claim guard and the probe for live peers of `plan_cleanup`. -/
  | probePeers
  | removeDirAll (dir : DirectoryLabel)
  /-- `Handle::try_current().is_ok()`. -/
  | tryCurrent
  /-- Whether `Runtime::block_on` may be called here; it panics on a runtime's own thread. -/
  | enterRuntime
  /-- Whether the closure given to `spawn_blocking` is run. -/
  | spawnBlocking
  | buildRuntime
  | spawn (task : Task)
  /-- `stop_async` hands its result to the caller. -/
  | returned
  /-- `SHUTDOWN_STATE` can be locked and is `Registered`. -/
  | shutdownWork
  | readPidFile
  | probe (pid : Nat)
  | signal (pid : Nat) (s : Signal)
  | pollInterval
  | postSigkillGrace
  deriving DecidableEq, Repr

inductive StopReply where
  | ok
  | failed
  | timedOut
  deriving DecidableEq, Repr

/-- How `pg.stop()` ended in the worker, or the worker itself. -/
inductive WorkerReply where
  | ok
  /-- An error that says `postmaster.pid` does not exist. -/
  | missingPid
  | failed
  deriving DecidableEq, Repr

inductive FileRead where
  | missing
  | unreadable
  | contents (bytes : Bytes)
  deriving DecidableEq, Repr

inductive ProbeReply where
  | running
  | noSuchProcess
  | refused
  deriving DecidableEq, Repr

abbrev Reply : Op → Type
  | .stopHandle => StopReply
  | .workerStop => WorkerReply
  | .workerCleanup _ => Nat
  | .probePeers | .tryCurrent | .enterRuntime | .spawnBlocking | .buildRuntime | .shutdownWork =>
    Bool
  | .readPidFile => FileRead
  | .probe _ => ProbeReply
  | .releaseWatcher | .removeDirAll _ | .spawn _ | .returned | .signal _ _ | .pollInterval
    | .postSigkillGrace => Unit

abbrev Code (α : Type) := Process Op Reply α

def call (op : Op) : Code (Reply op) := Process.perform op

/-! ### `cleanup_helpers.rs`, `cleanup.rs` -/

def hasParentDir (p : Path Text) : Bool := p.parts.contains .up

def isEmptyOrRoot (p : Path Text) : Bool := p.parts.isEmpty || p.parts = [.here]

def guardRemovalPath (p : Path Text) : Bool := !isEmptyOrRoot p && !hasParentDir p

def isDangerousCleanupPath (p : Path Text) : Bool := p.parts.isEmpty

def Path.parent (p : Path Text) : Option (Path Text) :=
  if p.parts.isEmpty then none else some { p with parts := p.parts.dropLast }

/-- Every path starts with the empty one. -/
def Path.startsWith (p q : Path Text) : Bool :=
  (p.absolute = q.absolute || (!q.absolute && q.parts.isEmpty)) && q.parts.isPrefixOf p.parts

def shouldRemoveData (mode : CleanupMode) : Bool := mode = .dataOnly || mode = .full

def shouldRemoveInstall (mode : CleanupMode) : Bool := mode = .full

def shouldRemoveInstallRoot (parent : Path Text) (s : Settings) : Bool :=
  parent ≠ s.installationDir && !hasParentDir parent && Path.startsWith parent s.installationDir

def removeDirAllIfExists (path : Path Text) (label : DirectoryLabel) : Code Unit :=
  if isDangerousCleanupPath path || !guardRemovalPath path then pure ()
  else call (.removeDirAll label)

def cleanupDataDir (mode : CleanupMode) (s : Settings) : Code Unit :=
  if shouldRemoveData mode then removeDirAllIfExists s.dataDir .data else pure ()

def cleanupInstallDir (mode : CleanupMode) (s : Settings) : Code Unit :=
  if !shouldRemoveInstall mode then pure ()
  else do
    removeDirAllIfExists s.installationDir .installation
    match Path.parent s.passwordFile with
    | none => pure ()
    | some parent =>
      if shouldRemoveInstallRoot parent s then removeDirAllIfExists parent .installationRoot
      else pure ()

def planCleanup (requested : CleanupMode) : Code CleanupMode :=
  if requested ≠ .full then pure requested
  else do
    let others ← call .probePeers
    pure (if others then .dataOnly else .full)

def cleanupInProcess (c : TestCluster) : Code Unit := do
  call .releaseWatcher
  let mode ← planCleanup c.cleanupMode
  if mode = .none then pure ()
  else do
    cleanupDataDir mode c.settings
    cleanupInstallDir mode c.settings

/-- The directories the worker's cleanup goes through, as its own guard lets it. -/
def workerTargets (mode : CleanupMode) (s : Settings) : List DirectoryLabel :=
  let guarded (path : Path Text) (label : DirectoryLabel) : List DirectoryLabel :=
    if guardRemovalPath path then [label] else []
  let root := match Path.parent s.passwordFile with
    | none => []
    | some parent =>
      if parent.parts.isEmpty || !shouldRemoveInstallRoot parent s then []
      else guarded parent .installationRoot
  match mode with
  | .none => []
  | .dataOnly => guarded s.dataDir .data
  | .full => guarded s.dataDir .data ++ guarded s.installationDir .installation ++ root

def cleanupWorkerManaged (c : TestCluster) : Code Unit := do
  call .releaseWatcher
  let mode ← planCleanup c.cleanupMode
  if mode = .none then pure ()
  else do
    let _ ← call (.workerCleanup (workerTargets mode c.settings))
    pure ()

/-! ### `shutdown.rs`; `true` is `Ok` -/

/-- `execute_stop` in the worker: without a PID file there is nothing to stop. -/
def workerStopOk (r : WorkerReply) : Bool := r ≠ .failed

def stopWorkerManaged (c : TestCluster) : Code Bool := do
  let r ← call .workerStop
  if workerStopOk r then do
    cleanupWorkerManaged c
    cleanupInProcess c
    pure true
  else pure false

def stopViaWorkerSync (c : TestCluster) : Code Bool := do
  if ← call .buildRuntime then stopWorkerManaged c else pure false

def stopWorkerManagedAsync (c : TestCluster) : Code Bool := do
  if ← call .spawnBlocking then stopViaWorkerSync c else pure false

def stopInProcessAsync (c : TestCluster) : Code Bool := do
  match ← call .stopHandle with
  | .ok => do
    cleanupInProcess c
    pure true
  | .failed => pure false
  | .timedOut => pure false

def ignore {α : Type} (p : Code α) : Code Unit := do
  let _ ← p
  pure ()

/-- When `block_on` panics the handle is gone and nothing else is called. -/
def dropSyncCluster (g : ClusterGuard) : Code Unit :=
  if g.cluster.isManagedViaWorker then ignore (stopWorkerManaged g.cluster)
  else if g.postgres then do
    if ← call .enterRuntime then do
      match ← call .stopHandle with
      | .ok => cleanupInProcess g.cluster
      | .failed => pure ()
      | .timedOut => pure ()
    else pure ()
  else pure ()

def dropAsyncWorkerManaged : Code Unit := do
  if ← call .tryCurrent then call (.spawn .workerStop) else pure ()

def dropAsyncInProcess : Code Unit := do
  if ← call .tryCurrent then call (.spawn .inProcessStop) else pure ()

def dropAsyncCluster (g : ClusterGuard) : Code Unit :=
  if g.cluster.isManagedViaWorker then dropAsyncWorkerManaged
  else if g.postgres then dropAsyncInProcess
  else pure ()

/-- `spawn_async_cleanup`'s task. -/
def asyncCleanupTask (c : TestCluster) : Code Unit := do
  match ← call .stopHandle with
  | .ok => cleanupInProcess c
  | .failed => pure ()
  | .timedOut => pure ()

def workerStopSync (c : TestCluster) : Code Unit := do
  if ← call .buildRuntime then ignore (stopWorkerManaged c) else pure ()

def spawnWorkerStopTask (c : TestCluster) : Code Unit := do
  if ← call .spawnBlocking then workerStopSync c else pure ()

def taskBody (c : TestCluster) : Task → Code Unit
  | .workerStop => spawnWorkerStopTask c
  | .inProcessStop => asyncCleanupTask c

/-! ### `guard.rs`, `async_api.rs` -/

def ClusterGuard.shouldSkipShutdown (g : ClusterGuard) : Bool :=
  !g.postgres && !g.cluster.isManagedViaWorker

def ClusterGuard.performShutdown (g : ClusterGuard) : Code Unit :=
  if g.cluster.isAsync then dropAsyncCluster g else dropSyncCluster g

def ClusterGuard.drop (g : ClusterGuard) : Code Unit :=
  if g.shouldSkipShutdown then pure () else g.performShutdown

inductive StopAsyncPath where
  | workerManaged
  | inProcess
  | noop
  deriving DecidableEq, Repr

/-- The path, and the guard without the handle that path takes. -/
def ClusterGuard.stopAsyncPath (g : ClusterGuard) : StopAsyncPath × ClusterGuard :=
  if g.cluster.isManagedViaWorker then (.workerManaged,g)
  else if g.postgres then (.inProcess,{ g with postgres := false })
  else (.noop,g)

/-- The guard `stop_async` owns is dropped before its result is there. -/
def ClusterGuard.stopAsync (g : ClusterGuard) : Code Unit := do
  let (path,g) := g.stopAsyncPath
  let _ ← match path with
    | .workerManaged => stopWorkerManagedAsync g.cluster
    | .inProcess => stopInProcessAsync g.cluster
    | .noop => pure true
  g.drop
  call .returned

/-- A worker-managed guard never had a handle, so nothing tells its drop of the stop. -/
theorem stopAsync_workerManaged {c : TestCluster} (hm : c.isManagedViaWorker = true) :
    (ClusterGuard.started c).stopAsync = (do
      let _ ← stopWorkerManagedAsync c
      ClusterGuard.drop ⟨c,false⟩
      call .returned) := by
  simp [ClusterGuard.stopAsync,ClusterGuard.stopAsyncPath,ClusterGuard.started,hm]

/-- In process, the handle `stop_async` has taken is what the guard's drop would need. -/
theorem stopAsync_inProcess {c : TestCluster} (hm : c.isManagedViaWorker = false) :
    (ClusterGuard.started c).stopAsync = (do
      let _ ← stopInProcessAsync c
      ClusterGuard.drop ⟨c,false⟩
      call .returned) := by
  simp [ClusterGuard.stopAsync,ClusterGuard.stopAsyncPath,ClusterGuard.started,hm]

/-! ### `shutdown_hook/` on Unix -/

def i32Max : Nat := 2^31-1

def parsePid (raw : Text) : Option Nat :=
  match parseSigned i32Max (trim raw) with
  | some pid => if pid > 0 then some pid.toNat else none
  | none => none

/-- `read_postmaster_process_from_dir`: an error, no process, or its PID. -/
def readPostmasterProcess (file : FileRead) : Except Unit (Option Nat) :=
  match file with
  | .unreadable => .error ()
  | .missing => .ok none
  | .contents bytes =>
    match decodeUtf8 bytes with
    | none => .error ()
    | some text =>
      if (trim text).isEmpty then .ok none
      else
        match (firstLine text).bind parsePid with
        | some pid => .ok (some pid)
        | none => .error ()

/-- A probe that fails counts as a running process. -/
def isRunningForShutdown (pid : Nat) : Code Bool := do
  match ← call (.probe pid) with
  | .running => pure true
  | .noSuchProcess => pure false
  | .refused => pure true

/-- `polls` is how many more probes fit before the deadline. -/
def waitForExit (pid : Nat) : Nat → Code Bool
  | 0 => do
    let running ← isRunningForShutdown pid
    pure !running
  | polls+1 => do
    if ← isRunningForShutdown pid then do
      call .pollInterval
      waitForExit pid polls
    else pure true

def stopPostmaster (pid polls : Nat) : Code Unit := do
  call (.signal pid .term)
  if ← waitForExit pid polls then pure ()
  else do
    call (.signal pid .kill)
    call .postSigkillGrace

def bestEffortCleanup (c : TestCluster) : Code Unit := cleanupInProcess c

def shutdownCallback (c : TestCluster) (polls : Nat) : Code Unit := do
  if ← call .shutdownWork then do
    let file ← call .readPidFile
    match readPostmasterProcess file with
    | .error () => pure ()
    | .ok none => bestEffortCleanup c
    | .ok (some pid) => do
      if ← isRunningForShutdown pid then do
        stopPostmaster pid polls
        bestEffortCleanup c
      else bestEffortCleanup c
  else pure ()

/-- The ways a started cluster is ended. -/
inductive Ending where
  | dropGuard
  | stopAsync
  /-- The guard was leaked and the process exits. -/
  | exitHook (polls : Nat)
  deriving DecidableEq, Repr

def Ending.program (c : TestCluster) : Ending → Code Unit
  | .dropGuard => (ClusterGuard.started c).drop
  | .stopAsync => (ClusterGuard.started c).stopAsync
  | .exitHook polls => shutdownCallback c polls

end PgEmbedSetup.Cluster
