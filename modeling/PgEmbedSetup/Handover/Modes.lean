import PgEmbedSetup.Bootstrap.Mode
import PgEmbedSetup.Handover.Model
import PgEmbedSetup.Library.Beneath

set_option autoImplicit false

/-!
`src/bootstrap/prepare/mod.rs` and the modes in `root.rs`, `unix_user.rs`, `privileges.rs` and
`fs.rs`: both bootstraps with the modes they give. Whoever runs the bootstrap is the owner `root` of
what it makes. A call that is refused ends the bootstrap, so the calls fail only as the files make
them.
-/

namespace PgEmbedSetup.Handover.Modes
open Library Privileges
open Bootstrap (ExecutionPrivileges)

/-- A mode that was given to what the path led to, with the directory it was asked for in. -/
structure Chmod where
  path : Place Name
  dir : Place Name
  place : Place Name
  mode : Nat
  deriving DecidableEq, Repr

structure Permissions where
  state : State
  mode : Place Name → Nat
  /-- What has been given so far, the first one first. -/
  calls : List Chmod

inductive ModeError where
  | prepare (e : Failure)
  | chmod (path : Place Name) (e : Errno)
  deriving DecidableEq, Repr

def Permissions.chmod (m : Permissions) (c : Chmod) : Permissions :=
  { m with mode := Function.update m.mode c.place c.mode, calls := m.calls ++ [c] }

/-! ### `fs.rs` -/

/-- `Dir::set_permissions` finds the name without leaving the directory. -/
def State.beneath (s : State) (dir : Place Name) (n : Name) : Except Errno (Place Name) :=
  if hdir : s.fs.layout.kind dir = some .dir then
    match (s.fs.layout.under dir hdir).resolve ⟨true,true⟩ [] ⟨false,[.name n]⟩ with
    | .ok q => .ok (q ++ dir)
    | .error e => .error (.walk e)
  else .error notDir

def setPermissions (m : Permissions) (mode : Nat) : Place Name → Except ModeError Permissions
  | [] => .ok m
  | n :: dir =>
    match m.state.openDir dir with
    | .error e => .error (.chmod (n :: dir) e)
    | .ok d =>
      match State.beneath m.state d n with
      | .error e => .error (.chmod (n :: dir) e)
      | .ok q => .ok (m.chmod ⟨n :: dir,d,q,mode⟩)

section Initial
-- The mode that the system gives to what is made somewhere.
variable (initial : Place Name → Nat)

def Permissions.advance (m : Permissions) (s : State) : Permissions where
  state := s
  mode q :=
    if m.state.made.contains q then m.mode q else if s.made.contains q then initial q else m.mode q
  calls := m.calls

def Permissions.lift (m : Permissions) : Except Failure State → Except ModeError Permissions
  | .ok s => .ok (m.advance initial s)
  | .error e => .error (.prepare e)

def ensureDirExists (m : Permissions) (p : Place Name) : Except ModeError Permissions :=
  m.lift initial (Handover.ensureDirExists m.state p)

/-! ### `privileges.rs` and `unix_user.rs` -/

def ensureDirForUser (m : Permissions) (p : Place Name) (mode : Nat) :
    Except ModeError Permissions := do
  let m ← m.lift initial (Handover.ensureDirForUser m.state p)
  setPermissions m mode p

def makeDataDirPrivate (m : Permissions) (p : Place Name) : Except ModeError Permissions :=
  ensureDirForUser initial m p 0o700

def ensureInstallDirForUser (m : Permissions) (p : Place Name) : Except ModeError Permissions :=
  ensureDirForUser initial m p 0o755

def pgpassMode : Nat := 0o600

/-- The file that `ensurePgpassForUser` opens. -/
def openedPgpass (s : State) : Place Name → Option (Place Name × Place Name)
  | [] => none
  | n :: dir =>
    match s.openDir dir with
    | .error _ => none
    | .ok d => if s.fs.node (n :: d) = some .file then some (d,n :: d) else none

def ensurePgpassForUser (m : Permissions) (p : Place Name) : Except ModeError Permissions := do
  let opened := openedPgpass m.state p
  let m ← m.lift initial (Handover.ensurePgpassForUser m.state p)
  match opened with
  | none => return m
  | some (d,q) => return m.chmod ⟨p,d,q,pgpassMode⟩

/-! ### `prepare/mod.rs` -/

def claimDerivedSlot (w : Surroundings) (layout : DataLayout) (paths : SettingsPaths)
    (m : Permissions) : Except ModeError (Bool × SettingsPaths × Permissions) :=
  match Handover.claimDerivedSlot w layout paths m.state with
  | .ok (hasSlot,paths,s) => .ok (hasSlot,paths,m.advance initial s)
  | .error e => .error (.prepare e)

def ensureDirWithMode (m : Permissions) (p : Place Name) (mode : Nat) :
    Except ModeError Permissions := do
  let m ← ensureDirExists initial m p
  setPermissions m mode p

def ensureParentExists (m : Permissions) : Place Name → Except ModeError Permissions
  | [] => .ok m
  | _ :: parent => ensureDirExists initial m parent

def ensureParentForUser (m : Permissions) : Place Name → Except ModeError Permissions
  | [] => .ok m
  | _ :: parent => ensureDirForUser initial m parent 0o755

def ensureParentsForPaths (paths : SettingsPaths)
    (ensureParent : Permissions → Place Name → Except ModeError Permissions) (m : Permissions) :
    Except ModeError Permissions := do
  let m ← if paths.installDefault then ensureParent m paths.installDir else .ok m
  if paths.dataDefault then ensureParent m paths.dataDir else .ok m

def ensurePgpassPermissions (m : Permissions) (p : Place Name) : Except ModeError Permissions :=
  match setPermissions m pgpassMode p with
  | .ok m' => .ok m'
  | .error e => if e = .chmod p notFound then .ok m else .error e

def prepareXdgDirs (m : Permissions) (installDir : Place Name) :
    Except ModeError (XdgDirs × Permissions) := do
  let xdg : XdgDirs := ⟨ascii "cache" :: installDir,ascii "run" :: installDir⟩
  let m ← ensureDirWithMode initial m xdg.cache 0o755
  let m ← ensureDirWithMode initial m xdg.runtime 0o700
  return (xdg,m)

def bootstrapUnprivileged (w : Surroundings) (layout : DataLayout) (cfg : PgEnvCfg)
    (m : Permissions) : Except ModeError (SettingsPaths × Permissions) := do
  let (_,paths,m) ← claimDerivedSlot initial w layout (resolveSettingsPaths cfg) m
  let m ← ensureParentsForPaths paths (ensureParentExists initial) m
  let m ← ensureDirWithMode initial m paths.installDir 0o755
  let m ← ensureDirWithMode initial m paths.dataDir 0o700
  let m ← m.lift initial (discardOrphanedPasswordFile m.state paths.dataDir paths.passwordFile)
  let m ← ensurePgpassPermissions m paths.passwordFile
  let (_,m) ← prepareXdgDirs initial m paths.installDir
  return (paths,m)

/-! ### `root.rs` -/

def ensureXdgDirsOwnedByUser (m : Permissions) (xdg : XdgDirs) : Except ModeError Permissions := do
  let m ← ensureDirForUser initial m xdg.cache 0o755
  ensureDirForUser initial m xdg.runtime 0o700

def bootstrapWithRoot (w : Surroundings) (layout : DataLayout) (cfg : PgEnvCfg) (m : Permissions) :
    Except ModeError (SettingsPaths × Permissions) := do
  let (hasSlot,paths,m) ← claimDerivedSlot initial w layout (resolveSettingsPaths cfg) m
  let m ← ensureParentsForPaths paths (ensureParentForUser initial) m
  let m ← ensureInstallDirForUser initial m paths.installDir
  let m ← makeDataDirPrivate initial m paths.dataDir
  let (xdg,m) ← prepareXdgDirs initial m paths.installDir
  let m ← ensureXdgDirsOwnedByUser initial m xdg
  let m ← m.lift initial (discardOrphanedPasswordFile m.state paths.dataDir paths.passwordFile)
  let m ← ensurePgpassForUser initial m paths.passwordFile
  let m ← if hasSlot then m.lift initial (ensureSlotLockOwnedByUser m.state paths.dataDir)
    else .ok m
  let m ← m.lift initial (ensureTreeOwnedByUser m.state paths.installDir)
  let m ← if paths.dataDefault then m.lift initial (ensureTreeOwnedByUser m.state paths.dataDir)
    else .ok m
  return (paths,m)

def prepareBootstrap (privileges : ExecutionPrivileges) (w : Surroundings) (layout : DataLayout)
    (cfg : PgEnvCfg) (m : Permissions) : Except ModeError (SettingsPaths × Permissions) :=
  match privileges with
  | .root => bootstrapWithRoot initial w layout cfg m
  | .unprivileged => bootstrapUnprivileged initial w layout cfg m

end Initial

end PgEmbedSetup.Handover.Modes
