import PgEmbedSetup.Extensions.Acquired
import PgEmbedSetup.Library.Process

set_option autoImplicit false

/-!
`src/extensions/archive.rs`, one system call after the other, in any number of processes that
share a cache. Each archive is acquired under the lock of its digest.
-/

namespace PgEmbedSetup.Acquire
open Library
open Extensions (ManifestArtifact CacheEntry Cache CachedState ExtensionError ArchiveOrigin)

/-- What `symlink_metadata` tells apart. -/
inductive EntryKind where
  | file
  | dir
  | other
  deriving DecidableEq, Repr

def kindOf : CacheEntry → EntryKind
  | .file _ => .file
  | .dir => .dir
  | .other => .other

inductive Metadata where
  | found (kind : EntryKind)
  | notFound
  | failed
  deriving DecidableEq, Repr

/-- What comes of one more read of the response. -/
inductive Received where
  | byte (b : UInt8)
  | eof
  | failed
  deriving DecidableEq, Repr

inductive Call (δ : Type) where
  | createDirAll
  /-- Opens the digest's lock file and takes the exclusive lock. -/
  | lock
  | symlinkMetadata
  /-- `Sha256Hex::of_file`. -/
  | ofFile
  | removeDirAll
  | removeFile
  /-- `NamedTempFile::new_in`, which creates a name that is not there. -/
  | newTemp
  /-- The URL is checked and requested, with retries. -/
  | request
  /-- One byte of the body goes into the temporary file. -/
  | receive
  | persist
  /-- The temporary file is deleted as its handle drops. -/
  | dropTemp
  /-- `acquire` returns and its lock guard drops. -/
  | returnOk (origin : ArchiveOrigin)
  | returnErr (e : ExtensionError δ)
  deriving DecidableEq

/-- A process's call, for an artifact. -/
structure Op (δ : Type) where
  pid : Nat
  artifact : ManifestArtifact δ
  call : Call δ
  deriving DecidableEq

abbrev Call.Reply {δ : Type} : Call δ → Type
  | .createDirAll | .lock | .removeDirAll | .removeFile | .request | .persist | .dropTemp => Bool
  | .symlinkMetadata => Metadata
  | .ofFile => Option δ
  | .newTemp => Option Text
  | .receive => Received
  | .returnOk _ | .returnErr _ => Unit

abbrev Reply {δ : Type} (op : Op δ) : Type := op.call.Reply

abbrev Code (δ α : Type) := Process (Op δ) Reply α

section Program
variable {δ : Type} [DecidableEq δ] (sha : Bytes → δ) (pid : Nat) (artifact : ManifestArtifact δ)

def call (c : Call δ) : Code δ c.Reply := Process.perform (⟨pid,artifact,c⟩ : Op δ)

def cachedState : Code δ CachedState := do
  match ← call pid artifact .symlinkMetadata with
  | .failed => pure .unreadable
  | .notFound => pure .missing
  | .found .dir | .found .other => pure .unreadable
  | .found .file =>
    match ← call pid artifact .ofFile with
    | none => pure .unreadable
    | some actual => pure (if actual = artifact.sha256 then .valid else .corrupt)

def removed (ok : Bool) : Except (ExtensionError δ) Unit :=
  if ok then .ok () else .error (.cannotRemove artifact.sha256 artifact.file)

def clearUnusableEntry : Code δ (Except (ExtensionError δ) Unit) := do
  match ← call pid artifact .symlinkMetadata with
  | .notFound | .found .file => pure (.ok ())
  | .failed => pure (.error (.cannotInspect artifact.sha256 artifact.file))
  | .found .dir => do pure (removed artifact (← call pid artifact .removeDirAll))
  | .found .other => do pure (removed artifact (← call pid artifact .removeFile))

/-- `io::copy` of what is left of the response's first `cap + 1` bytes. -/
def copyBody : Nat → Bytes → Code δ (Option Bytes)
  | 0, written => pure (some written)
  | left+1, written => do
    match ← call pid artifact .receive with
    | .failed => pure none
    | .eof => pure (some written)
    | .byte b => copyBody left (written ++ [b])

def httpGet : Code δ (Option Bytes) := do
  if ← call pid artifact .request then copyBody pid artifact (artifact.size+1) []
  else pure none

/-- An error on the way drops the temporary file. -/
def abandon (e : ExtensionError δ) : Code δ (Except (ExtensionError δ) Unit) := do
  let _removed ← call pid artifact .dropTemp
  pure (.error e)

def download : Code δ (Except (ExtensionError δ) Unit) := do
  match ← call pid artifact .newTemp with
  | none => pure (.error (.cannotCreateTemp artifact.sha256))
  | some _ =>
    match ← httpGet pid artifact with
    | none => abandon pid artifact (.cannotDownload artifact.url)
    | some written =>
      if written.length ≠ artifact.size ∨ sha written ≠ artifact.sha256 then
        abandon pid artifact (.downloadMismatch artifact.url written.length (sha written)
          artifact.size artifact.sha256)
      else if ← call pid artifact .persist then pure (.ok ())
      else abandon pid artifact (.cannotMove artifact.sha256 artifact.file)

/-- `clear_unusable_entry(&path)?; download(artifact, &entry_dir, &path)?`. -/
def clearAndDownload : Code δ (Except (ExtensionError δ) Unit) := do
  match ← clearUnusableEntry pid artifact with
  | .error e => pure (.error e)
  | .ok () => download sha pid artifact

def acquireLocked : Code δ (Except (ExtensionError δ) ArchiveOrigin) := do
  match ← cachedState pid artifact with
  | .valid => pure (.ok .cached)
  | .missing | .corrupt | .unreadable =>
    match ← clearAndDownload sha pid artifact with
    | .error e => pure (.error e)
    | .ok () => pure (.ok .downloaded)

def acquire : Code δ (Except (ExtensionError δ) ArchiveOrigin) := do
  if ← call pid artifact .createDirAll then
    if ← call pid artifact .lock then acquireLocked sha pid artifact
    else pure (.error (.cannotLock artifact.sha256))
  else pure (.error (.cannotCreateCache artifact.sha256))

def acquisition : Code δ Unit := do
  match ← acquire sha pid artifact with
  | .ok origin => call pid artifact (.returnOk origin)
  | .error e => call pid artifact (.returnErr e)

end Program

/-! ### The cache the processes share -/

/-- What a process has met with so far. -/
structure Seen where
  /-- What was at the archive's path when the process got the lock. -/
  before : Option CacheEntry
  /-- The process could not look at the entry, or not read it. -/
  lookFailed : Bool
  /-- The process has moved its download into place. -/
  placed : Bool
  deriving DecidableEq

structure World (δ : Type) where
  cache : Cache δ
  holder : δ → Option Nat
  /-- The temporary file a process has open. -/
  temps : Nat → Option (δ × Text)
  dead : Nat → Bool
  seen : Nat → Seen

section World
variable {δ : Type} [DecidableEq δ]

def World.setEntry (w : World δ) (digest : δ) (file : Text) (found : Option CacheEntry) : World δ :=
  { w with cache := w.cache.setEntry digest file found }

def World.setTemp (w : World δ) (pid : Nat) (temp : Option (δ × Text)) : World δ :=
  { w with temps := Function.update w.temps pid temp }

def World.note (w : World δ) (pid : Nat) (f : Seen → Seen) : World δ :=
  { w with seen := Function.update w.seen pid (f (w.seen pid)) }

def World.lookFailed (w : World δ) (pid : Nat) : World δ :=
  w.note pid (fun seen => { seen with lookFailed := true })

/-- The locks a process holds go with its open files. -/
def World.release (w : World δ) (pid : Nat) : World δ :=
  { w with holder := fun digest => if w.holder digest = some pid then none else w.holder digest }

def World.createDir (w : World δ) (digest : δ) : World δ :=
  { w with cache := { w.cache with entryDir := Function.update w.cache.entryDir digest true } }

def World.acquireLock (w : World δ) (pid : Nat) (digest : δ) (file : Text) : World δ :=
  { w with
    cache := { w.cache with lockFile := Function.update w.cache.lockFile digest true }
    holder := Function.update w.holder digest (some pid) }.note pid
      (fun seen => { seen with before := w.cache.entry digest file })

def looked (w : World δ) (pid : Nat) (entry : Option CacheEntry) : Metadata → Option (World δ)
  | .failed => some (w.lookFailed pid)
  | .notFound => if entry = none then some w else none
  | .found kind => if entry.map kindOf = some kind then some w else none

/-- The answers a call may get and what it does. A call that fails changes nothing. -/
def act (sha : Bytes → δ) (w : World δ) (pid : Nat) (artifact : ManifestArtifact δ) :
    (c : Call δ) → c.Reply → Option (World δ)
  | .createDirAll, true => some (w.createDir artifact.sha256)
  | .createDirAll, false => some w
  | .lock, true =>
    if w.holder artifact.sha256 = none then
      some (w.acquireLock pid artifact.sha256 artifact.file)
    else none
  | .lock, false => some w
  | .symlinkMetadata, r => looked w pid (w.cache.entry artifact.sha256 artifact.file) r
  | .ofFile, none => some (w.lookFailed pid)
  | .ofFile, some actual =>
    match w.cache.entry artifact.sha256 artifact.file with
    | some (.file bytes) => if actual = sha bytes then some w else none
    | _ => none
  | .removeDirAll, true =>
    if w.cache.entry artifact.sha256 artifact.file = some .dir then
      some (w.setEntry artifact.sha256 artifact.file none)
    else none
  | .removeFile, true =>
    match w.cache.entry artifact.sha256 artifact.file with
    | some (.file _) | some .other => some (w.setEntry artifact.sha256 artifact.file none)
    | _ => none
  | .removeDirAll, false | .removeFile, false => some w
  | .newTemp, none => some w
  | .newTemp, some name =>
    if w.cache.entry artifact.sha256 name = none then
      some ((w.setEntry artifact.sha256 name (some (.file []))).setTemp pid
        (some (artifact.sha256,name)))
    else none
  | .request, _ => some w
  | .receive, .byte b =>
    match w.temps pid with
    | none => none
    | some (digest,name) =>
      match w.cache.entry digest name with
      | some (.file bytes) => some (w.setEntry digest name (some (.file (bytes ++ [b]))))
      | _ => some w
  | .receive, .eof | .receive, .failed => some w
  | .persist, true =>
    match w.temps pid with
    | none => none
    | some (digest,name) =>
      match w.cache.entry digest name, w.cache.entry artifact.sha256 artifact.file with
      | _, some .dir => none
      | some (.file bytes), _ =>
        some ((((w.setEntry digest name none).setEntry artifact.sha256 artifact.file
          (some (.file bytes))).setTemp pid none).note pid
            (fun seen => { seen with placed := true }))
      | _, _ => none
  | .persist, false => some w
  | .dropTemp, removed =>
    match w.temps pid with
    | none => none
    | some (digest,name) =>
      some ((if removed then w.setEntry digest name none else w).setTemp pid none)
  | .returnOk _, _ | .returnErr _, _ => some (w.release pid)

def answer (sha : Bytes → δ) (w : World δ) (op : Op δ) (r : Reply op) : Option (World δ) :=
  if w.dead op.pid then none else act sha w op.pid op.artifact op.call r

/-- A process may be killed at any moment. Its temporary file stays behind. -/
structure Killed where
  pid : Nat
  deriving DecidableEq

def World.kill (w : World δ) (k : Killed) : World δ :=
  { (w.release k.pid).setTemp k.pid none with dead := Function.update w.dead k.pid true }

def machine (sha : Bytes → δ) : Machine (Op δ) Reply (World δ) Killed where
  answer := answer sha
  spawned _ := []
  env w k := some (w.kill k)
  aborted w := w

abbrev State (δ : Type) := Pool (Op δ) Reply (World δ)

abbrev Action (δ : Type) := PoolAction (Op δ) (Reply (δ := δ)) Killed

/-- Whatever the cache holds, nobody is at work on it yet. -/
def World.initial (cache : Cache δ) : World δ where
  cache
  holder _ := none
  temps _ := none
  dead _ := false
  seen _ := ⟨none,false,false⟩

def begin (sha : Bytes → δ) (cache : Cache δ) (artifacts : List (ManifestArtifact δ)) : State δ :=
  ⟨World.initial cache,artifacts.mapIdx (acquisition sha)⟩

/-- A process that ends does so by returning or by being killed. -/
def Uncut (_ : State δ) : Action δ → Prop
  | .abort _ => False
  | _ => True

/-- Any number of processes at once, each after one archive. -/
def acquisitions (sha : Bytes → δ) (cache : Cache δ) (artifacts : List (ManifestArtifact δ)) :
    System (State δ) (Action δ) :=
  ((machine sha).system (fun s => s = begin sha cache artifacts)).restrict Uncut

end World

end PgEmbedSetup.Acquire
