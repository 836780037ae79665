import PgEmbedSetup.Library.LockFiles
import PgEmbedSetup.Library.PathWalk
import PgEmbedSetup.Library.Process
import PgEmbedSetup.Library.Text

set_option autoImplicit false

/-!
`src/cluster/{startup,startup_setup_only,setup_lock,extension_hook,cache_integration}.rs`: how a
start, synchronous or not, and a setup-only run go through the shared install tree.
-/

namespace PgEmbedSetup.Startup
open Library

/-- What of `Settings` a start reads and changes. Names are bytes, and need not be text. -/
structure Settings where
  installationDir : Path Bytes
  version : Text
  trustInstallationDir : Bool
  deriving DecidableEq

/-- `extensions` are the names of the declared request. -/
structure Bootstrap where
  settings : Settings
  isRoot : Bool
  extensions : Option (List Text)
  deriving DecidableEq

inductive EntryPoint where
  | startPostgres
  | startPostgresAsync
  | setupLifecycle
  deriving DecidableEq, Repr

/-- One start or setup-only run. Its lock belongs to its open file, so the runs of one process
exclude one another as those of several do. -/
structure Run where
  entry : EntryPoint
  bootstrap : Bootstrap

abbrev RunId := Nat

inductive StartError where
  | installDirNotUtf8
  | setupLock
  | setupLockTask
  | setup
  | noInstallation
  | extensionDirNotUtf8
  | extension
  | start
  | cachedBinariesUsed (inner : StartError)
  deriving DecidableEq, Repr

inductive Op where
  | createDirAll (me : RunId) (dir : Path Bytes)
  /-- Opens or creates the lock file, for its inode. -/
  | openLock (me : RunId) (path : Path Bytes)
  /-- `FileExt::lock`: waits until nobody else has the lock, or fails. -/
  | lockFile (me : RunId) (inode : Nat)
  | closeLock (me : RunId)
  /-- Whether the blocking task that took the lock could be joined. -/
  | joined (me : RunId)
  | findCached (me : RunId) (requirement : Text)
  | lockCache (me : RunId) (version : Text) (exclusive : Bool)
  | unlockCache (me : RunId) (version : Text)
  | checkCache (me : RunId) (version : Text)
  | copyFromCache (me : RunId) (version : Text) (target : Path Bytes)
  /-- `Setup`. After a cache hit the tree is complete, and only `initdb` is run. -/
  | setup (me : RunId) (s : Settings) (cacheHit : Bool)
  | resolveInstalledDir (me : RunId) (s : Settings)
  | populateCache (me : RunId) (version : Text) (source : Path Bytes)
  | installExtensions (me : RunId) (names : List Text) (dir : Path Bytes)
  | start (me : RunId) (s : Settings)
  deriving DecidableEq

abbrev Reply : Op → Type
  | .createDirAll _ _ | .lockFile _ _ | .joined _ | .lockCache _ _ _ | .checkCache _ _
    | .copyFromCache _ _ _ | .setup _ _ _ | .populateCache _ _ _ | .installExtensions _ _ _
    | .start _ _ => Bool
  | .openLock _ _ => Option Nat
  | .findCached _ _ => Option Text
  | .resolveInstalledDir _ _ => Option (Path Bytes)
  | .closeLock _ | .unlockCache _ _ => Unit

abbrev Code (α : Type) := Process Op Reply α

abbrev Result (α : Type) := Except StartError α

def call (op : Op) : Code (Reply op) := Process.perform op

/-! ### `setup_lock.rs` -/

def isUtf8 (p : Path Bytes) : Bool :=
  p.parts.all fun
    | .name n => (decodeUtf8 n).isSome
    | .up | .here => true

def setupLockFile : Bytes := ascii ".pg-embed-setup.lock"

/-- The open lock file; dropping it is `closeLock`. -/
structure SetupLock where
  inode : Nat

def installRoot (b : Bootstrap) : Result (Path Bytes) :=
  if isUtf8 b.settings.installationDir then .ok b.settings.installationDir
  else .error .installDirNotUtf8

def lockTimed (me : RunId) (installDir : Path Bytes) : Code (Result SetupLock) := do
  if ← call (.createDirAll me installDir) then
    match ← call (.openLock me (installDir.join setupLockFile)) with
    | none => pure (.error .setupLock)
    | some inode => do
      if ← call (.lockFile me inode) then pure (.ok ⟨inode⟩)
      else do
        call (.closeLock me)
        pure (.error .setupLock)
  else pure (.error .setupLock)

def acquireAt (me : RunId) (installDir : Path Bytes) : Code (Result SetupLock) := lockTimed me installDir

def dropLock (me : RunId) : Option SetupLock → Code Unit
  | some _ => call (.closeLock me)
  | none => pure ()

/-- What a task that cannot be joined has locked goes with it. -/
def acquireAsyncAt (me : RunId) (installDir : Path Bytes) : Code (Result SetupLock) := do
  let lock ← lockTimed me installDir
  if ← call (.joined me) then pure lock
  else do
    dropLock me lock.toOption
    pure (.error .setupLockTask)

/-- `acquire_at` or its async twin. -/
def acquire (isAsync : Bool) (me : RunId) (installDir : Path Bytes) : Code (Result SetupLock) :=
  if isAsync then acquireAsyncAt me installDir else acquireAt me installDir

inductive InstallLock where
  | held
  | released (root : Path Bytes)
  deriving DecidableEq

def afterCacheLookup (me : RunId) (setup : SetupLock) (cacheHit : Bool) (root : Path Bytes) :
    Code (Option SetupLock × InstallLock) := do
  if cacheHit then do
    dropLock me (some setup)
    pure (none,.released root)
  else pure (some setup,.held)

/-- `for_hook` and `for_hook_async`. -/
def forHook (isAsync : Bool) (me : RunId) : InstallLock → Code (Result (Option SetupLock))
  | .released root => do
    match ← acquire isAsync me root with
    | .ok lock => pure (.ok (some lock))
    | .error e => pure (.error e)
  | .held => pure (.ok none)

/-! ### `cache_integration.rs` -/

def setExactVersion (s : Settings) (version : Text) : Settings := { s with version := '=' :: version }

/-- The settings after the copy, if it succeeds. -/
def copyCachedBinaries (me : RunId) (version : Text) (s : Settings) : Code (Option Settings) := do
  if isUtf8 s.installationDir then do
    let target := s.installationDir.join (encodeUtf8 version)
    if ← call (.copyFromCache me version target) then
      pure (some { s with installationDir := target, trustInstallationDir := true })
    else pure none
  else pure none

def applyCachedBinaries (me : RunId) (version : Text) (b : Bootstrap) : Code (Bool × Bootstrap) := do
  match ← copyCachedBinaries me version b.settings with
  | none => pure (false,b)
  | some s => pure (true,{ b with settings := setExactVersion s version })

def tryUseBinaryCache (me : RunId) (b : Bootstrap) : Code (Bool × Bootstrap) := do
  match ← call (.findCached me b.settings.version) with
  | none => pure (false,b)
  | some version => do
    if ← call (.lockCache me version false) then do
      let hit ← call (.checkCache me version)
      let r ← if hit then applyCachedBinaries me version b else pure (false,b)
      call (.unlockCache me version)
      pure r
    else pure (false,b)

section Populate
-- `Version::parse` accepts the text.
variable (isVersion : Text → Bool)

def extractVersionFromPath (p : Path Bytes) : Option Text :=
  match p.parts.getLast? with
  | some (.name n) => (decodeUtf8 n).filter isVersion
  | _ => none

def tryPopulateBinaryCache (me : RunId) (s : Settings) : Code Unit := do
  match ← call (.resolveInstalledDir me s) with
  | none => pure ()
  | some source =>
    match extractVersionFromPath isVersion source with
    | none => pure ()
    | some version => do
      if ← call (.checkCache me version) then pure ()
      else if ← call (.lockCache me version true) then do
        if ← call (.checkCache me version) then pure ()
        else if isUtf8 source then do
          let _ ← call (.populateCache me version source)
          pure ()
        else pure ()
        call (.unlockCache me version)
      else pure ()

/-! ### `extension_hook.rs` -/

structure PostSetup where
  cacheHit : Bool
  installLock : InstallLock

def populateCacheOnMiss (me : RunId) (post : PostSetup) (b : Bootstrap) : Code Unit :=
  if post.cacheHit then pure () else tryPopulateBinaryCache isVersion me b.settings

/-- Where the declared extensions go, if there are any. -/
def extensionTarget (me : RunId) (b : Bootstrap) :
    Code (Result (Option (List Text × Path Bytes))) := do
  match b.extensions with
  | none => pure (.ok none)
  | some names => do
    match ← call (.resolveInstalledDir me b.settings) with
    | none => pure (.error .noInstallation)
    | some dir => pure (if isUtf8 dir then .ok (some (names,dir)) else .error .extensionDirNotUtf8)

def refreshWorkerInstallationDir (me : RunId) (b : Bootstrap) : Code Bootstrap := do
  if b.isRoot then
    match ← call (.resolveInstalledDir me b.settings) with
    | some dir => pure { b with settings := { b.settings with installationDir := dir } }
    | none => pure b
  else pure b

/-- `run_post_setup` and its async twin. -/
def postSetup (isAsync : Bool) (me : RunId) (b : Bootstrap) (post : PostSetup) :
    Code (Result Bootstrap) := do
  let b ← refreshWorkerInstallationDir me b
  populateCacheOnMiss isVersion me post b
  match ← extensionTarget me b with
  | .error e => pure (.error e)
  | .ok none => pure (.ok b)
  | .ok (some (names,dir)) => do
    match ← forHook isAsync me post.installLock with
    | .error e => pure (.error e)
    | .ok hookLock => do
      let installed ← call (.installExtensions me names dir)
      dropLock me hookLock
      pure (if installed then .ok b else .error .extension)

def runPostSetup (me : RunId) (b : Bootstrap) (post : PostSetup) : Code (Result Bootstrap) :=
  postSetup isVersion false me b post

def runPostSetupAsync (me : RunId) (b : Bootstrap) (post : PostSetup) : Code (Result Bootstrap) :=
  postSetup isVersion true me b post

/-! ### `startup.rs`, `startup_setup_only.rs` -/

/-- `Setup`, the hook, `Start`. -/
def lifecycleSteps (isAsync : Bool) (me : RunId) (b : Bootstrap) (post : PostSetup) :
    Code (Result Bootstrap) := do
  if ← call (.setup me b.settings post.cacheHit) then do
    match ← (if isAsync then runPostSetupAsync isVersion me b post
      else runPostSetup isVersion me b post) with
    | .error e => pure (.error e)
    | .ok b => do
      if ← call (.start me b.settings) then pure (.ok b) else pure (.error .start)
  else pure (.error .setup)

def StartError.isExtension : StartError → Bool
  | .noInstallation | .extensionDirNotUtf8 | .extension => true
  | _ => false

def noteCachedBinaries (cacheHit : Bool) (e : StartError) : StartError :=
  if !cacheHit || e.isExtension then e else .cachedBinariesUsed e

/-- What both kinds of start do; only a synchronous one marks its errors. -/
def startWith (isAsync : Bool) (me : RunId) (b : Bootstrap) : Code (Result Bootstrap) := do
  match installRoot b with
  | .error e => pure (.error e)
  | .ok root => do
    match ← acquire isAsync me root with
    | .error e => pure (.error e)
    | .ok setup => do
      let (cacheHit,b) ← tryUseBinaryCache me b
      let (setup,installLock) ← afterCacheLookup me setup cacheHit root
      let r ← lifecycleSteps isVersion isAsync me b ⟨cacheHit,installLock⟩
      dropLock me setup
      pure (if isAsync then r else r.mapError (noteCachedBinaries cacheHit))

def startPostgres (me : RunId) (b : Bootstrap) : Code (Result Bootstrap) :=
  startWith isVersion false me b

def startPostgresAsync (me : RunId) (b : Bootstrap) : Code (Result Bootstrap) :=
  startWith isVersion true me b

def setupSteps (me : RunId) (b : Bootstrap) (cacheHit : Bool) : Code (Result Bootstrap) := do
  if ← call (.setup me b.settings cacheHit) then
    runPostSetup isVersion me b ⟨cacheHit,.held⟩
  else pure (.error .setup)

def setupLifecycle (me : RunId) (b : Bootstrap) : Code (Result Bootstrap) := do
  match installRoot b with
  | .error e => pure (.error e)
  | .ok root => do
    match ← acquireAt me root with
    | .error e => pure (.error e)
    | .ok setup => do
      let (cacheHit,b) ← tryUseBinaryCache me b
      let r ← setupSteps isVersion me b cacheHit
      dropLock me (some setup)
      pure r

def Run.program (me : RunId) (r : Run) : Code Unit := do
  let _ ← match r.entry with
    | .startPostgres => startPostgres isVersion me r.bootstrap
    | .startPostgresAsync => startPostgresAsync isVersion me r.bootstrap
    | .setupLifecycle => setupLifecycle isVersion me r.bootstrap
  pure ()

end Populate

end PgEmbedSetup.Startup
