import PgEmbedSetup.Library.Outcome
import PgEmbedSetup.Library.PathWalk
import PgEmbedSetup.Extensions.Layout

set_option autoImplicit false

/-!
`src/extensions/tree.rs`: the install tree as a directory handle. The first half is what
the kernel and `cap_std` do below such a handle, the second half the module itself.
-/

namespace PgEmbedSetup.Extensions
open Library

/-- An entry's name. `raw` is one that is no text; the installer never writes such a name. -/
inductive FileName where
  | text (t : Text)
  | raw (bytes : Bytes)
  deriving DecidableEq, Repr

structure Owner where
  uid : Nat
  gid : Nat
  deriving DecidableEq, Repr

structure FileData where
  bytes : Bytes
  mode : Nat
  owner : Owner
  deriving DecidableEq, Repr

inductive Special where
  | fifo
  | socket
  | device
  deriving DecidableEq, Repr

inductive Node where
  | dir
  | file (data : FileData)
  | symlink (target : Path FileName)
  | special (s : Special)
  deriving DecidableEq, Repr

def Node.kind : Node → Kind FileName
  | .dir => .dir
  | .file _ => .leaf
  | .symlink target => .link target
  | .special _ => .leaf

/-- What lies below the install root. Each file has one name. -/
structure Tree where
  node : Place FileName → Option Node
  root_dir : node [] = some .dir
  parent_dir : ∀ n p k, node (n :: p) = some k → node p = some .dir

def Tree.layout (t : Tree) : Layout FileName where
  kind p := (t.node p).map Node.kind
  root_dir := by simp [t.root_dir,Node.kind]
  parent_dir n p k h := by
    cases hn : t.node (n :: p) with
    | none => simp [hn] at h
    | some node => simp [t.parent_dir n p node hn,Node.kind]

/-- Puts something other than a directory's successor into a directory. -/
def Tree.set (t : Tree) (n : FileName) (dir : Place FileName) (node : Node)
    (hdir : t.node dir = some .dir) (hold : t.node (n :: dir) ≠ some .dir) : Tree where
  node p := if p = n :: dir then some node else t.node p
  root_dir := by simp [t.root_dir]
  parent_dir m p k h := by
    by_cases hp : p = n :: dir
    · subst hp
      rw [if_neg (by simp)] at h
      exact absurd (t.parent_dir m _ k h) hold
    · rw [if_neg hp]
      by_cases hm : m :: p = n :: dir
      · rw [(List.cons.inj hm).2]
        exact hdir
      · rw [if_neg hm] at h
        exact t.parent_dir m p k h

def Tree.erase (t : Tree) (n : FileName) (dir : Place FileName)
    (hold : t.node (n :: dir) ≠ some .dir) : Tree where
  node p := if p = n :: dir then none else t.node p
  root_dir := by simp [t.root_dir]
  parent_dir m p k h := by
    by_cases hm : m :: p = n :: dir
    · simp [hm] at h
    · rw [if_neg hm] at h
      have hp := t.parent_dir m p k h
      rw [if_neg ?_]
      · exact hp
      · rintro rfl
        exact hold hp

/-- Changes a file in place through its open handle. -/
def Tree.modify (t : Tree) (p : Place FileName) (f : FileData → FileData) : Tree where
  node q := if q = p then
      match t.node p with
      | some (.file data) => some (.file (f data))
      | other => other
    else t.node q
  root_dir := by
    by_cases hp : p = []
    · simp [hp,t.root_dir]
    · simp [Ne.symm hp,t.root_dir]
  parent_dir m q k h := by
    have hold : ∃ k', t.node (m :: q) = some k' := by
      by_cases hq : m :: q = p
      · cases hn : t.node p with
        | none => simp [hq,hn] at h
        | some k' => exact ⟨k',by rw [hq,hn]⟩
      · rw [if_neg hq] at h
        exact ⟨k,h⟩
    obtain ⟨k',hk⟩ := hold
    have hdir := t.parent_dir m q k' hk
    by_cases hq : q = p
    · simp [← hq,hdir]
    · rw [if_neg hq]
      exact hdir

/-! ### System calls below the handle -/

inductive Errno where
  | walk (e : WalkError)
  | alreadyExists
  | isDir
  | other (code : Nat)
  deriving DecidableEq, Repr

/-- The real directory a parent path leads to; `cap_std` refuses to leave the handle. -/
def Tree.locateDir (t : Tree) (dir : Place FileName) :
    Except Errno {p : Place FileName // t.node p = some .dir} :=
  match t.layout.walk ⟨true,true⟩ maxLinks [] (namesTo dir) with
  | .error e => .error (.walk e)
  | .ok p => if h : t.node p = some .dir then .ok ⟨p,h⟩ else .error (.walk .notDir)

def Tree.symlinkMetadata (t : Tree) : Place FileName → Except Errno Node
  | [] => .ok .dir
  | n :: dir =>
    match t.locateDir dir with
    | .error e => .error e
    | .ok p =>
      match t.node (n :: p) with
      | none => .error (.walk .notFound)
      | some node => .ok node

/-- `Dir::is_dir`, which follows a link. -/
def Tree.isDir (t : Tree) (place : Place FileName) : Bool :=
  match t.layout.walk ⟨true,true⟩ maxLinks [] (namesTo place) with
  | .error _ => false
  | .ok p => t.node p = some .dir

/-- Opening for reading with `O_NOFOLLOW`: the place of the open file. Without a writer a
FIFO makes the call wait, which is `none`. -/
def Tree.openNoFollow (t : Tree) : Place FileName → Option (Except Errno (Place FileName))
  | [] => some (.ok [])
  | n :: dir =>
    match t.locateDir dir with
    | .error e => some (.error e)
    | .ok p =>
      match t.node (n :: p) with
      | none => some (.error (.walk .notFound))
      | some (.symlink _) => some (.error (.walk .loop))
      | some (.special .fifo) => none
      | some (.special .socket) => some (.error (.other 6))
      | some .dir | some (.file _) | some (.special .device) => some (.ok (n :: p))

/-- `O_CREAT | O_EXCL`. -/
def Tree.createNew (t : Tree) (data : FileData) :
    Place FileName → Except Errno (Place FileName × Tree)
  | [] => .error .alreadyExists
  | n :: dir =>
    match t.locateDir dir with
    | .error e => .error e
    | .ok p =>
      if h : t.node (n :: p.1) = none then
        .ok (n :: p.1,t.set n p.1 (.file data) p.2 (by simp [h]))
      else .error .alreadyExists

def Tree.mkdir (t : Tree) : Place FileName → Except Errno Tree
  | [] => .error .alreadyExists
  | n :: dir =>
    match t.locateDir dir with
    | .error e => .error e
    | .ok p =>
      if h : t.node (n :: p.1) = none then .ok (t.set n p.1 .dir p.2 (by simp [h]))
      else .error .alreadyExists

/-- Moves a file over whatever is at the destination, except a directory. -/
def Tree.rename (t : Tree) : Place FileName → Place FileName → Except Errno Tree
  | n :: dir, m :: dst =>
    match t.locateDir dir, t.locateDir dst with
    | .error e, _ => .error e
    | .ok _, .error e => .error e
    | .ok p, .ok q =>
      match hsrc : t.node (n :: p.1) with
      | none => .error (.walk .notFound)
      | some node =>
        if hdir : node = .dir then .error (.walk .notDir)
        else if hsame : n :: p.1 = m :: q.1 then .ok t
        else if hold : t.node (m :: q.1) = some .dir then .error .isDir
        else .ok ((t.set m q.1 node q.2 hold).erase n p.1 (by
          simpa only [Tree.set,if_neg hsame,hsrc,ne_eq,Option.some.injEq] using hdir))
  | _, _ => .error .isDir

def Tree.unlink (t : Tree) : Place FileName → Except Errno Tree
  | [] => .error .isDir
  | n :: dir =>
    match t.locateDir dir with
    | .error e => .error e
    | .ok p =>
      if t.node (n :: p.1) = none then .error (.walk .notFound)
      else if h : t.node (n :: p.1) = some .dir then .error .isDir
      else .ok (t.erase n p.1 h)

/-- The tree, and how many system calls have been made. -/
structure Disk where
  tree : Tree
  clock : Nat

/-- Everything else a system call's answer depends on, by the call's number. -/
structure Os where
  /-- A call that fails for a reason of its own, such as `EACCES`, `EIO` or `ENOSPC`. -/
  fault : Nat → Option Nat
  tempName : Nat → Text
  /-- How many bytes of a write that fails reach the file. -/
  partialWrite : Nat → Nat
  process : Owner
  creationMode : Nat

abbrev Fs (ε α : Type) := Prog Disk ε α

variable {ε α : Type}

/-- One system call. A call that fails by itself changes nothing. -/
def call (os : Os) (act : Tree → Except Errno (α × Tree)) : Fs ε (Except Errno α) := fun d =>
  match os.fault d.clock with
  | some code => .done (.error (.other code)) ⟨d.tree,d.clock+1⟩
  | none =>
    match act d.tree with
    | .error e => .done (.error e) ⟨d.tree,d.clock+1⟩
    | .ok (a,t) => .done (.ok a) ⟨t,d.clock+1⟩

/-- A call that only looks. -/
def query (os : Os) (f : Tree → Except Errno α) : Fs ε (Except Errno α) :=
  call os (fun t => (f t).map (fun a => (a,t)))

/-- A call that only changes the tree. -/
def change (os : Os) (f : Tree → Except Errno Tree) : Fs ε (Except Errno Unit) :=
  call os (fun t => (f t).map (fun t => ((),t)))

def callOpen (os : Os) (place : Place FileName) : Fs ε (Except Errno (Place FileName)) := fun d =>
  match os.fault d.clock with
  | some code => .done (.error (.other code)) ⟨d.tree,d.clock+1⟩
  | none =>
    match d.tree.openNoFollow place with
    | none => .hangs d
    | some r => .done r ⟨d.tree,d.clock+1⟩

/-- Writes to an open file that is empty so far. -/
def callWrite (os : Os) (file : Place FileName) (bytes : Bytes) : Fs ε (Except Errno Unit) :=
  fun d =>
    match os.fault d.clock with
    | some code =>
      let arrived := bytes.take (os.partialWrite d.clock)
      .done (.error (.other code))
        ⟨d.tree.modify file (fun data => { data with bytes := arrived }),d.clock+1⟩
    | none => .done (.ok ()) ⟨d.tree.modify file (fun data => { data with bytes }),d.clock+1⟩

/-! ### The installation tree -/

/-- What `{:?}` prints of a file type. -/
inductive FileType where
  | dir
  | file
  | symlink
  | special (s : Special)
  deriving DecidableEq, Repr

def Node.fileType : Node → FileType
  | .dir => .dir
  | .file _ => .file
  | .symlink _ => .symlink
  | .special s => .special s

/-- One constructor for each message; paths are given from the install root. -/
inductive Report where
  | routesThrough (path : Place FileName) (fileType : FileType)
  | cannotInspect (path : Place FileName) (e : Errno)
  | cannotCreate (path : Place FileName) (e : Errno)
  | cannotCreateTemp (dir : Place FileName) (e : Errno)
  | noTempName (dir : Place FileName)
  | cannotMove (path : Place FileName) (e : Errno)
  | cannotWrite (path : Place FileName) (e : Errno)
  | cannotSetMode (path : Place FileName) (mode : Nat) (e : Errno)
  | cannotStat (path : Place FileName) (e : Errno)
  | cannotChown (path : Place FileName) (owner : Owner) (e : Errno)
  deriving DecidableEq, Repr

/-- `map_err` on a system call's answer. -/
def orFail {ε : Type} (report : Errno → ε) : Except Errno α → Fs ε α
  | .ok a => pure a
  | .error e => Prog.fail (report e)

inductive Destination where
  | identical (file : Place FileName)
  | absent
  | notRegular
  | different
  | unreadable (e : Errno)
  deriving DecidableEq, Repr

/-- Looks at each parent from the root down. Below one that is missing nothing exists. -/
def requireRealParents (os : Os) (current : Place FileName) : RelPath → Fs Report Unit
  | [] => pure ()
  | [_] => pure ()
  | component :: rest => do
    let current := .text component :: current
    match ← query os (fun t => t.symlinkMetadata current) with
    | .ok .dir => requireRealParents os current rest
    | .ok node => Prog.fail (.routesThrough current node.fileType)
    | .error (.walk .notFound) => pure ()
    | .error e => Prog.fail (.cannotInspect current e)

/-- `if self.is_dir(path) { Ok(()) } else { Err(e) }`. -/
def unlessDir (os : Os) (place : Place FileName) (e : Errno) : Fs ε (Except Errno Unit) := do
  match ← query os (fun t => .ok (t.isDir place)) with
  | .ok true => pure (.ok ())
  | _ => pure (.error e)

/-- `Dir::create_dir_all`. -/
def createDirAll (os : Os) : Place FileName → Fs ε (Except Errno Unit)
  | [] => pure (.ok ())
  | n :: dir => do
    match ← change os (fun t => t.mkdir (n :: dir)) with
    | .ok () => pure (.ok ())
    | .error (.walk .notFound) =>
      match ← createDirAll os dir with
      | .error e => pure (.error e)
      | .ok () =>
        match ← change os (fun t => t.mkdir (n :: dir)) with
        | .ok () => pure (.ok ())
        | .error e => unlessDir os (n :: dir) e
    | .error e => unlessDir os (n :: dir) e

def createParents (os : Os) (relative : Place FileName) : Fs Report Unit :=
  match relative.tail with
  | [] => pure ()
  | parent => do
    let r ← createDirAll os parent
    orFail (.cannotCreate parent) r

def requireRegular (os : Os) (file : Place FileName) : Fs ε (Option Destination) := do
  match ← query os (fun t => .ok (t.node file)) with
  | .ok (some (.file _)) => pure none
  | .ok _ => pure (some .notRegular)
  | .error e => pure (some (.unreadable e))

variable {δ : Type} [DecidableEq δ]

def contentsOf (t : Tree) (file : Place FileName) : Bytes :=
  match t.node file with
  | some (.file data) => data.bytes
  | _ => []

def compareDigest (sha : Bytes → δ) (os : Os) (file : Place FileName) (bytes : Bytes) :
    Fs ε Destination := do
  match ← query os (fun t => .ok (sha (contentsOf t file))) with
  | .ok digest => pure (if digest = sha bytes then .identical file else .different)
  | .error e => pure (.unreadable e)

def inspectDestination (sha : Bytes → δ) (os : Os) (relative : Place FileName) (bytes : Bytes) :
    Fs ε Destination := do
  match ← callOpen os relative with
  | .error (.walk .notFound) => pure .absent
  | .error e => pure (.unreadable e)
  | .ok file =>
    match ← requireRegular os file with
    | some found => pure found
    | none => compareDigest sha os file bytes

def tempNameAttempts : Nat := 16

/-- The temporary file's handle is the place it was created at, `candidate` its path. -/
def createTempAttempt (os : Os) (dir : Place FileName) :
    Nat → Fs Report (Place FileName × Place FileName)
  | 0 => Prog.fail (.noTempName dir)
  | left+1 => do
    let candidate ← (fun d => .done (.text (os.tempName d.clock) :: dir) d : Fs Report _)
    let fresh : FileData := ⟨[],os.creationMode,os.process⟩
    match ← call os (fun t => t.createNew fresh candidate) with
    | .ok file => pure (file,candidate)
    | .error .alreadyExists => createTempAttempt os dir left
    | .error e => Prog.fail (.cannotCreateTemp dir e)

def createTempBeside (os : Os) (relative : Place FileName) :
    Fs Report (Place FileName × Place FileName) :=
  createTempAttempt os relative.tail tempNameAttempts

def place (os : Os) (temp relative : Place FileName) : Fs Report Unit := do
  let r ← change os (fun t => t.rename temp relative)
  orFail (.cannotMove relative) r

def discardTemp (os : Os) (temp : Place FileName) : Fs Report Unit := do
  let _ ← (change os (fun t => t.unlink temp) : Fs Report _)
  pure ()

end PgEmbedSetup.Extensions
