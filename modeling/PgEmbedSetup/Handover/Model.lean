import PgEmbedSetup.Handover.Files

set_option autoImplicit false

/-!
`src/bootstrap/prepare/root.rs` and what it calls: everything a bootstrap that runs as root
creates, and everything it hands to `nobody`. Steps that only read (the port, the stored
password, the time zone) are left out.
-/

namespace PgEmbedSetup.Handover
open Library Privileges

inductive Owner where
  | root
  | nobody
  | other (uid : Nat)
  deriving DecidableEq, Repr

structure State where
  fs : FileSystem
  owner : Place Name → Owner
  /-- What the bootstrap has created. -/
  made : List (Place Name)

inductive Failure where
  | slot (path : Place Name) (action : String) (e : Errno)
  | ensureDir (path : Place Name) (e : Errno)
  | chown (path : Place Name) (e : Errno)
  | probe (dataDir : Place Name) (e : Errno)
  | stalePassword (path : Place Name) (e : Errno)
  | pgpass (path : Place Name) (e : Errno)
  | slotLock (path : Place Name) (e : Errno)
  | tree (e : PrivilegeError)
  /-- The walk needed more turns than there are files; it never does. -/
  | turns
  deriving DecidableEq, Repr

def notFound : Errno := .walk .notFound

def notDir : Errno := .walk .notDir

/-- EEXIST. -/
def alreadyExists : Errno := .other 17

/-- EISDIR. -/
def isADirectory : Errno := .other 21

/-! ### System calls -/

def State.isDir (s : State) (p : Place Name) : Bool :=
  match s.fs.locate p with
  | .ok q => s.fs.node q = some .dir
  | .error _ => false

/-- Root owns what it creates. -/
def State.create (s : State) (n : Name) (dir : Place Name) (node : Node)
    (hdir : s.fs.node dir = some .dir) (hfree : s.fs.node (n :: dir) = none) : State where
  fs := s.fs.add n dir node hdir hfree
  owner := Function.update s.owner (n :: dir) .root
  made := (n :: dir) :: s.made

/-- Creates an entry that must not be there. -/
def State.createAt (s : State) (n : Name) (dir : Place Name) (node : Node) : Except Errno State :=
  if hdir : s.fs.node dir = some .dir then
    if hfree : s.fs.node (n :: dir) = none then .ok (s.create n dir node hdir hfree)
    else .error alreadyExists
  else .error notDir

/-- `mkdir`, and opening with `O_CREAT | O_EXCL`: neither follows a link in the last place. -/
def State.createNew (s : State) (node : Node) : Place Name → Except Errno State
  | [] => .error alreadyExists
  | n :: dir =>
    match s.fs.locate dir with
    | .error e => .error e
    | .ok p => s.createAt n p node

/-- Where opening with `O_CREAT` puts a new file: a link is followed even if nothing is there. -/
def creationPlace (fs : FileSystem) : Nat → Place Name → Path Name → Except Errno (Place Name)
  | budget, cwd, path =>
    match path.parts.getLast? with
    | some (.name n) =>
      match fs.layout.resolve followAll cwd { path with parts := path.parts.dropLast } with
      | .error e => .error (.walk e)
      | .ok dir =>
        match fs.node (n :: dir), budget with
        | some (.symlink target), budget+1 => creationPlace fs budget dir target
        | some (.symlink _), 0 => .error (.walk .loop)
        | _, _ => .ok (n :: dir)
    | _ => .error isADirectory

/-- Opening for writing with `O_CREAT`. -/
def State.openCreate (s : State) (p : Place Name) : Except Errno State :=
  match creationPlace s.fs maxLinks [] (spelled p) with
  | .error e => .error e
  | .ok [] => .error isADirectory
  | .ok (n :: dir) =>
    match s.fs.node (n :: dir) with
    | some .file => .ok s
    | some .dir => .error isADirectory
    | some (.symlink _) => .error (.walk .loop)
    | none => s.createAt n dir .file

/-- `chown`, which follows links. -/
def State.chown (s : State) (p : Place Name) : Except Errno State :=
  match s.fs.locate p with
  | .ok q => .ok { s with owner := Function.update s.owner q .nobody }
  | .error e => .error e

def removeFile (fs : FileSystem) (stuck : Place Name → Bool) (p : Place Name) : FileSystem :=
  match fs.node p with
  | some .file | some (.symlink _) => fs.without fun q => q = p && !stuck q
  | some .dir | none => fs

/-- A link is removed itself, and a file is no directory. -/
def removeDirAll (fs : FileSystem) (stuck : Place Name → Bool) (p : Place Name) : FileSystem :=
  match fs.node p with
  | some .dir => fs.without fun q => decide (p <:+ q) && !stuck q
  | some (.symlink _) => removeFile fs stuck p
  | some .file | none => fs

/-! ### Directories -/

def createDirAll (s : State) : Place Name → Except Errno State
  | [] => .ok s
  | n :: dir =>
    match s.createNew .dir (n :: dir) with
    | .ok s' => .ok s'
    | .error e =>
      if e = notFound then
        match createDirAll s dir with
        | .error e => .error e
        | .ok s₁ =>
          match s₁.createNew .dir (n :: dir) with
          | .ok s₂ => .ok s₂
          | .error e => if s₁.isDir (n :: dir) then .ok s₁ else .error e
      else if s.isDir (n :: dir) then .ok s else .error e

/-- `Dir::open_ambient_dir`. -/
def State.openDir (s : State) (p : Place Name) : Except Errno (Place Name) :=
  (machineWith s.fs).openAmbientDir (spelled p)

/-- The nearest ancestor that opens, and the names from there down. -/
def findExistingAncestor (s : State) : Place Name → Except Errno (Place Name × List Name)
  | [] => (s.openDir []).map fun dir => (dir,[])
  | n :: parent =>
    match s.openDir (n :: parent) with
    | .ok dir => .ok (dir,[])
    | .error e =>
      if e = notFound ∨ e = notDir then
        (findExistingAncestor s parent).map fun found => (found.1,found.2 ++ [n])
      else .error e

/-- `Dir::create_dir_all`, below an open directory. -/
def createDirAllIn (s : State) : Place Name → List Name → Except Errno State
  | _, [] => .ok s
  | dir, n :: relative =>
    if s.fs.node (n :: dir) = some .dir then createDirAllIn s (n :: dir) relative
    else
      match s.createAt n dir .dir with
      | .ok s => createDirAllIn s (n :: dir) relative
      | .error e => .error e

def ensureDirExists (s : State) (p : Place Name) : Except Failure State :=
  match findExistingAncestor s p with
  | .error e => .error (.ensureDir p e)
  | .ok (dir,relative) =>
    match createDirAllIn s dir relative with
    | .ok s' => .ok s'
    | .error e => if e = alreadyExists ∧ s.isDir p then .ok s else .error (.ensureDir p e)

def chownEntry (s : State) (p : Place Name) : Except Failure State :=
  (s.chown p).mapError (.chown p)

def ensureDirForUser (s : State) (p : Place Name) : Except Failure State := do
  let s ← ensureDirExists s p
  chownEntry s p

def ensureTreeOwnedByUser (s : State) (top : Place Name) : Except Failure State :=
  match Privileges.ensureTreeOwnedByUser (machineWith s.fs) (s.fs.entries.length+1)
    (spelled top) with
  | none => .error .turns
  | some (_,.error e) => .error (.tree e)
  | some (final,.ok ()) =>
    .ok { s with owner := fun p => if p ∈ final.changed then .nobody else s.owner p }

/-! ### Claiming a slot -/

/-- What the bootstrap meets: its own identity, and what becomes of the slots it sweeps. -/
structure Surroundings where
  pid : Nat
  nanos : Nat
  count : Nat
  /-- Whether a slot's lock could be taken and no server was left in its directory. -/
  abandoned : Name → Bool
  /-- What cannot be removed. -/
  stuck : Place Name → Bool

def claimGuardName : Name := ascii ".claim-guard"

def lockSuffix : Name := ascii ".lock"

def passwordSuffix : Name := ascii ".pgpass"

def slotName (w : Surroundings) : Name :=
  (decimal w.pid ++ '-' :: decimal w.nanos ++ '-' :: decimal w.count).map asciiByte

def lockStem (fileName : Name) : Option Name :=
  if (decodeUtf8 fileName).isSome ∧ lockSuffix <:+ fileName ∧ fileName ≠ lockSuffix then
    some (fileName.take (fileName.length-lockSuffix.length))
  else none

def removeSlot (w : Surroundings) (parent : Place Name) (fs : FileSystem) (name : Name) :
    FileSystem :=
  let fs := removeDirAll fs w.stuck (name :: parent)
  let fs := removeFile fs w.stuck ((name ++ passwordSuffix) :: parent)
  removeFile fs w.stuck ((name ++ lockSuffix) :: parent)

def sweepOne (w : Surroundings) (parent : Place Name) (fs : FileSystem) (name : Name) :
    FileSystem :=
  if w.abandoned name then removeSlot w parent fs name else fs

def sweepDeadSlots (w : Surroundings) (parent : Place Name) (fs : FileSystem) : FileSystem :=
  ((fs.readDir parent).filterMap lockStem).foldl (sweepOne w parent) fs

def claimSlot (w : Surroundings) (parent : Place Name) (s : State) : Except Failure State := do
  let s ← (createDirAll s parent).mapError (.slot parent "create")
  let s ← (s.openCreate (claimGuardName :: parent)).mapError
    (.slot (claimGuardName :: parent) "lock")
  let listed ← (s.openDir parent).mapError (.slot parent "list")
  let s := { s with fs := sweepDeadSlots w listed s.fs }
  let lock := (slotName w ++ lockSuffix) :: parent
  (s.createNew .file lock).mapError (.slot lock "create")

/-! ### The bootstrap -/

inductive DataLayout where
  | perCluster
  | persistent
  deriving DecidableEq, Repr

structure SettingsPaths where
  installDir : Place Name
  /-- The parent of the slots when it is derived and no slot has been claimed. -/
  dataDir : Place Name
  passwordFile : Place Name
  installDefault : Bool
  dataDefault : Bool

/-- The part of the configuration that decides about directories. -/
structure PgEnvCfg where
  /-- `PG_EMBED_ROOT`, or else `nobody`'s default root. -/
  root : Place Name
  runtimeDir : Option (Place Name)
  dataDir : Option (Place Name)

def PgEnvCfg.installDir (cfg : PgEnvCfg) : Place Name :=
  cfg.runtimeDir.getD (ascii "install" :: cfg.root)

def resolveSettingsPaths (cfg : PgEnvCfg) : SettingsPaths where
  installDir := cfg.installDir
  dataDir := cfg.dataDir.getD (ascii "data" :: cfg.root)
  passwordFile := ascii ".pgpass" :: cfg.installDir
  installDefault := cfg.runtimeDir.isNone
  dataDefault := cfg.dataDir.isNone

def claimDerivedSlot (w : Surroundings) (layout : DataLayout) (paths : SettingsPaths) (s : State) :
    Except Failure (Bool × SettingsPaths × State) :=
  if layout = .persistent ∨ !paths.dataDefault then .ok (false,paths,s)
  else do
    let s ← claimSlot w paths.dataDir s
    let paths := { paths with
      dataDir := slotName w :: paths.dataDir
      passwordFile := (slotName w ++ passwordSuffix) :: paths.dataDir }
    return (true,paths,s)

def ensureParentForUser (s : State) : Place Name → Except Failure State
  | [] => .ok s
  | _ :: parent => ensureDirForUser s parent

def ensureParentsForPaths (paths : SettingsPaths) (s : State) : Except Failure State := do
  let s ← if paths.installDefault then ensureParentForUser s paths.installDir else .ok s
  if paths.dataDefault then ensureParentForUser s paths.dataDir else .ok s

structure XdgDirs where
  cache : Place Name
  runtime : Place Name

def prepareXdgDirs (s : State) (installDir : Place Name) : Except Failure (XdgDirs × State) := do
  let xdg : XdgDirs := ⟨ascii "cache" :: installDir,ascii "run" :: installDir⟩
  let s ← ensureDirExists s xdg.cache
  let s ← ensureDirExists s xdg.runtime
  return (xdg,s)

def ensureXdgDirsOwnedByUser (s : State) (xdg : XdgDirs) : Except Failure State := do
  let s ← ensureDirForUser s xdg.cache
  ensureDirForUser s xdg.runtime

def hasClusterMarker (s : State) (dataDir : Place Name) : Except Failure Bool :=
  match s.fs.locate (ascii "PG_VERSION" :: dataDir) with
  | .ok p => .ok (s.fs.node p = some .file)
  | .error e => if e = notFound then .ok false else .error (.probe dataDir e)

def discardOrphanedPasswordFile (s : State) (dataDir : Place Name) :
    Place Name → Except Failure State
  | [] => .error (.stalePassword [] isADirectory)
  | n :: dir => do
    if ← hasClusterMarker s dataDir then .ok s
    else
      match s.fs.locate dir with
      | .error e => if e = notFound then .ok s else .error (.stalePassword (n :: dir) e)
      | .ok p =>
        if s.fs.node p ≠ some .dir then .error (.stalePassword (n :: dir) notDir)
        else if s.fs.node (n :: p) = some .dir then
          .error (.stalePassword (n :: dir) isADirectory)
        else .ok { s with fs := removeFile s.fs (fun _ => false) (n :: p) }

/-- The file is opened without following a link. -/
def ensurePgpassForUser (s : State) : Place Name → Except Failure State
  | [] => .error (.pgpass [] isADirectory)
  | n :: dir =>
    match s.openDir dir with
    | .error e => .error (.pgpass (n :: dir) e)
    | .ok p =>
      match s.fs.node (n :: p) with
      | none => .ok s
      | some .file => .ok { s with owner := Function.update s.owner (n :: p) .nobody }
      | some .dir => .error (.pgpass (n :: dir) isADirectory)
      | some (.symlink _) => .error (.pgpass (n :: dir) (.walk .loop))

/-- `format!("{data_dir}.lock")`. -/
def lockPath : Place Name → Place Name
  | [] => [lockSuffix]
  | n :: dir => (n ++ lockSuffix) :: dir

def ensureSlotLockOwnedByUser (s : State) (dataDir : Place Name) : Except Failure State :=
  (s.chown (lockPath dataDir)).mapError (.slotLock (lockPath dataDir))

def bootstrapWithRoot (w : Surroundings) (layout : DataLayout) (cfg : PgEnvCfg) (s : State) :
    Except Failure State := do
  let (hasSlot,paths,s) ← claimDerivedSlot w layout (resolveSettingsPaths cfg) s
  let s ← ensureParentsForPaths paths s
  let s ← ensureDirForUser s paths.installDir
  let s ← ensureDirForUser s paths.dataDir
  let (xdg,s) ← prepareXdgDirs s paths.installDir
  let s ← ensureXdgDirsOwnedByUser s xdg
  let s ← discardOrphanedPasswordFile s paths.dataDir paths.passwordFile
  let s ← ensurePgpassForUser s paths.passwordFile
  let s ← if hasSlot then ensureSlotLockOwnedByUser s paths.dataDir else .ok s
  let s ← ensureTreeOwnedByUser s paths.installDir
  if paths.dataDefault then ensureTreeOwnedByUser s paths.dataDir else .ok s

end PgEmbedSetup.Handover
