import PgEmbedSetup.Library.Process
import PgEmbedSetup.Library.Text

set_option autoImplicit false

/-!
`src/test_support/worker_env.rs`: test processes that stage the same worker binary at once, with
builds that replace it and other users that meddle in the temporary directory.
-/

namespace PgEmbedSetup.TestSupport.Staging
open Library

abbrev Caller := Nat
abbrev Ino := Nat
abbrev Uid := Nat

structure File where
  bytes : Bytes
  mode : Nat
  mtime : Nat
  deriving DecidableEq, Repr

structure Metadata where
  len : Nat
  modified : Nat
  mode : Nat
  deriving DecidableEq, Repr

def File.metadata (file : File) : Metadata := ⟨file.bytes.length,file.mtime,file.mode⟩

inductive FileType where
  | file
  | dir
  /-- A symbolic link, and whether it leads to a directory. -/
  | symlink (toDir : Bool)
  deriving DecidableEq, Repr

/-- What stands at the path of the staging directory. -/
structure Node where
  fileType : FileType
  uid : Uid
  mode : Nat
  deriving DecidableEq, Repr

inductive StagingError where
  | notRealDirectory
  | ownedBy (uid : Uid)
  | becameNonDirectory
  | ownershipChanged
  | io
  deriving DecidableEq, Repr

abbrev Result := Except StagingError Unit

instance decidableEqStaged : DecidableEq Result
  | .ok (), .ok () => .isTrue rfl
  | .error e, .error e' => decidable_of_iff (e = e') ⟨congrArg _,Except.error.inj⟩
  | .ok _, .error _ => .isFalse (nomatch ·)
  | .error _, .ok _ => .isFalse (nomatch ·)

inductive Looked where
  | found (metadata : Metadata)
  | notFound
  | failed
  deriving DecidableEq, Repr

/-! ### The calls -/

inductive Op where
  | lstatDir
  | mkdir
  | isDir
  | chmodDir (mode : Nat)
  | statStaged
  | statSource
  | newTemp
  | openSource (c : Caller)
  | openTemp (temp : Ino) (mode : Nat)
  /-- The next `size` bytes of the open source, or all that are left. -/
  | copy (temp source : Ino) (offset : Nat) (size : Option Nat)
  | statTemp (temp : Ino)
  | chmodTemp (temp : Ino) (mode : Nat)
  | rename (c : Caller) (temp : Ino)
  | removeTemp (temp : Ino)
  | returned (c : Caller) (r : Result)
  deriving DecidableEq

abbrev Reply : Op → Type
  | .lstatDir => Option Node
  | .statStaged => Looked
  | .statSource => Option Metadata
  | .newTemp => Option Ino
  | .openSource _ => Option (Ino × Nat)
  | .statTemp _ => Option Nat
  | .returned _ _ => Unit
  | .mkdir | .isDir | .chmodDir _ | .openTemp _ _ | .copy _ _ _ _ | .chmodTemp _ _ | .rename _ _
  | .removeTemp _ => Bool

abbrev Code (α : Type) := Process Op Reply α

def call (op : Op) : Code (Reply op) := Process.perform op

section Calls
variable (uid : Uid)

/-- `fs::create_dir_all`, where the temporary directory itself is there. -/
def createDirAll : Code Bool := do
  if ← call .mkdir then pure true else call .isDir

def revalidate : Code Result := do
  match ← call .lstatDir with
  | none => pure (.error .io)
  | some node =>
    if node.fileType ≠ .dir then pure (.error .becameNonDirectory)
    else if node.uid ≠ uid then pure (.error .ownershipChanged)
    else if ← call (.chmodDir 0o755) then pure (.ok ())
    else pure (.error .io)

def createStagingDirectorySecure : Code Result := do
  match ← call .lstatDir with
  | some node =>
    if node.fileType ≠ .dir then pure (.error .notRealDirectory)
    else if node.uid ≠ uid then pure (.error (.ownedBy node.uid))
    else revalidate uid
  | none => if ← createDirAll then revalidate uid else pure (.error .io)

def isUsable (mode : Nat) : Bool := mode &&& 0o777 = 0o755

def isOutdated (source staged : Metadata) : Bool :=
  staged.modified < source.modified || source.len ≠ staged.len || !isUsable staged.mode

def shouldRestage : Code (Except StagingError Bool) := do
  match ← call .statStaged with
  | .notFound => pure (.ok true)
  | .failed => pure (.error .io)
  | .found staged =>
    match ← call .statSource with
    | none => pure (.error .io)
    | some source => pure (.ok (isOutdated source staged))

/-- The copy goes on until the source ends, in pieces of any sizes. -/
def copyFrom (temp source : Ino) : Nat → List Nat → Code Bool
  | offset, [] => call (.copy temp source offset none)
  | offset, size :: sizes => do
    if ← call (.copy temp source offset (some size)) then copyFrom temp source (offset+size) sizes
    else pure false

/-- `fs::copy` to the temporary file, whose permissions it sets to those of the source. -/
def copyWorker (c : Caller) (temp : Ino) (sizes : List Nat) : Code Bool := do
  match ← call (.openSource c) with
  | none => pure false
  | some (source,mode) =>
    if ← call (.openTemp temp mode) then copyFrom temp source 0 sizes else pure false

def fillTemp (c : Caller) (temp : Ino) (sizes : List Nat) : Code Bool := do
  if ← copyWorker c temp sizes then
    match ← call (.statTemp temp) with
    | none => pure false
    | some _ => call (.chmodTemp temp 0o755)
  else pure false

/-- Whatever fails, the temporary file is dropped with its path. -/
def dropTemp (temp : Ino) : Code Result := do
  let _ ← call (.removeTemp temp)
  pure (.error .io)

def replaceStagedWorker (c : Caller) (sizes : List Nat) : Code Result := do
  match ← call .newTemp with
  | none => pure (.error .io)
  | some temp =>
    if ← fillTemp c temp sizes then
      if ← call (.rename c temp) then pure (.ok ()) else dropTemp temp
    else dropTemp temp

def tryStageWorkerBinary (c : Caller) (sizes : List Nat) : Code Result := do
  match ← createStagingDirectorySecure uid with
  | .error e => pure (.error e)
  | .ok () =>
    match ← shouldRestage with
    | .error e => pure (.error e)
    | .ok restage => if restage then replaceStagedWorker c sizes else pure (.ok ())

/-- With an error the caller is left with the path it had. -/
def stageWorkerBinary (c : Caller) (sizes : List Nat) : Code Unit := do
  let r ← tryStageWorkerBinary uid c sizes
  call (.returned c r)

end Calls

/-! ### The file system -/

/-- `found` is what the staging directory held before, `planted` what another user put there. -/
inductive Event where
  | found (ino : Ino) (file : File)
  | planted (ino : Ino) (file : File)
  | opened (c : Caller) (ino : Ino) (build : File) (time : Nat)
  | published (c : Caller) (ino : Ino) (file : File)
  | littered (ino : Ino)
  | crashed
  /-- A call went into a directory that is not the user's own. -/
  | strayed
  | returned (c : Caller) (r : Result)
  deriving DecidableEq

/-- `temps` are the names of temporary files in the staging directory. -/
structure World where
  clock : Nat
  place : Option Node
  staged : Option Ino
  temps : List Ino
  files : List File
  source : Ino
  events : List Event

def World.log (w : World) (e : Event) : World := { w with events := w.events ++ [e] }

def World.put (w : World) (ino : Ino) (file : File) : World :=
  { w with files := w.files.set ino file }

/-- The temporary file takes the place of what was staged. -/
def World.publish (w : World) (c : Caller) (temp : Ino) (file : File) : World :=
  { w with staged := some temp, temps := w.temps.filter (· ≠ temp) }.log (.published c temp file)

inductive Meddling where
  | tick
  | rebuild (bytes : Bytes) (mode : Nat)
  | plant (node : Node)
  | unplant
  | plantStaged (file : File)
  deriving DecidableEq

section World
variable (uid : Uid) (created : Nat)

def Node.own (node : Node) : Bool := node.fileType = .dir && node.uid = uid

def World.inside (w : World) : Bool := w.place.any (Node.own uid)

/-- A call for something in the staging directory. -/
def World.within (w : World) (w' : Option World) : Option World :=
  if w.inside uid then w' else some (w.log .strayed)

def World.isDir (w : World) : Bool :=
  w.place.any fun node => node.fileType = .dir || node.fileType = .symlink true

/-- The write of a file, which leaves it with the time of the last one. -/
def World.write (w : World) (ino : Ino) (file : File) : World :=
  w.put ino { file with mtime := w.clock }

def piece (build : File) (offset : Nat) : Option Nat → Bytes
  | none => build.bytes.drop offset
  | some size => (build.bytes.drop offset).take size

def World.looked (w : World) : Looked → Option World
  | .failed => some w
  | .notFound => if w.staged = none then some w else none
  | .found metadata =>
    if ((w.staged.bind fun ino => w.files[ino]?).map File.metadata) = some metadata then some w
    else none

/-- Any call may fail, and then it has changed nothing. -/
def answer (w : World) : (op : Op) → Reply op → Option World
  | .lstatDir, node => if node = none ∨ node = w.place then some w else none
  | .mkdir, true => if w.place = none then some { w with place := some ⟨.dir,uid,created⟩ } else none
  | .isDir, true => if w.isDir then some w else none
  | .chmodDir mode, true => w.within uid
      (some { w with place := w.place.map fun node => { node with mode := mode } })
  | .statStaged, looked => w.within uid (w.looked looked)
  | .statSource, some metadata =>
    if w.files[w.source]?.map File.metadata = some metadata then some w else none
  | .newTemp, some temp => w.within uid (if temp = w.files.length then
      some { w with files := w.files ++ [⟨[],0o600,w.clock⟩], temps := temp :: w.temps } else none)
  | .openSource c, some (ino,mode) =>
    match w.files[w.source]? with
    | none => none
    | some build =>
      if ino = w.source ∧ mode = build.mode then some (w.log (.opened c ino build w.clock)) else none
  | .openTemp temp mode, true => w.within uid (w.files[temp]?.map fun _ => w.write temp ⟨[],mode,0⟩)
  | .copy temp source offset size, true =>
    match w.files[temp]?, w.files[source]? with
    | some file, some build =>
      some (w.write temp { file with bytes := file.bytes ++ piece build offset size })
    | _, _ => none
  | .statTemp temp, some mode =>
    w.within uid (if w.files[temp]?.map File.mode = some mode then some w else none)
  | .chmodTemp temp mode, true =>
    w.within uid (w.files[temp]?.map fun file => w.put temp { file with mode := mode })
  | .rename c temp, true => w.within uid (w.files[temp]?.map fun file => w.publish c temp file)
  | .removeTemp temp, true => some { w with temps := w.temps.filter (· ≠ temp) }
  | .removeTemp temp, false => some (w.log (.littered temp))
  | .returned c r, _ => some (w.log (.returned c r))
  | .statSource, none | .newTemp, none | .openSource _, none | .statTemp _, none => some w
  | .mkdir, false | .isDir, false | .chmodDir _, false | .openTemp _ _, false
  | .copy _ _ _ _, false | .chmodTemp _ _, false | .rename _ _, false => some w

/-- Other users may not take away what the user owns in the temporary directory, and may write in
a directory of its own if its mode lets them. -/
def meddle (w : World) : Meddling → Option World
  | .tick => some { w with clock := w.clock+1 }
  | .rebuild bytes mode =>
    some { w with files := w.files ++ [⟨bytes,mode,w.clock⟩], source := w.files.length }
  | .plant node =>
    if w.place.all (fun there => there.uid ≠ uid) ∧ node.uid ≠ uid then
      some { w with place := some node }
    else none
  | .unplant => if w.place.all (fun there => there.uid ≠ uid) then some { w with place := none } else none
  | .plantStaged file =>
    if w.place.any (fun node => node.own uid && node.mode &&& 0o022 ≠ 0) then
      some ({ w with staged := some w.files.length, files := w.files ++ [file] }.log
        (.planted w.files.length file))
    else none

def machine : Machine Op Reply World Meddling where
  answer := answer uid created
  spawned _ := []
  env := meddle uid
  aborted w := w.log .crashed

abbrev State := Pool Op Reply World

abbrev Action := PoolAction Op Reply Meddling

def World.found (w : World) : List Event :=
  (w.staged.bind fun ino => w.files[ino]?.map (Event.found ino)).toList

/-- Before the tests start only the user can write in its own staging directory. -/
structure Before (w : World) : Prop where
  source : w.source < w.files.length
  place : ∀ node, w.place = some node → node.uid = uid →
    node.fileType = .dir ∧ node.mode &&& 0o022 = 0
  staged : ∀ ino, w.staged = some ino → w.inside uid = true
  temps : w.temps = []
  events : w.events = w.found
  known : ∀ ino, w.staged = some ino → ino < w.files.length

/-- Each test copies in pieces of its own sizes. The first thread is none of them, since it is the
one that nothing cuts off. -/
def begins (tasks : List (List Nat)) (s : State) : Prop :=
  s.threads = .pure () :: tasks.mapIdx (stageWorkerBinary uid) ∧ Before uid s.world

def stagers (tasks : List (List Nat)) : System State Action :=
  (machine uid created).system (begins uid tasks)

end World

end PgEmbedSetup.TestSupport.Staging
