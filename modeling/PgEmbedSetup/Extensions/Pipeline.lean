import PgEmbedSetup.Extensions.Manifest
import PgEmbedSetup.Extensions.Write

set_option autoImplicit false

/-!
`src/extensions/{mod,archive,install}.rs`: the requested names are resolved, then one archive
after the other is acquired, checked and installed.
-/

namespace PgEmbedSetup.Extensions
open Library

structure ExtensionRequest (δ : Type) where
  names : List ExtensionName
  manifest : ManifestSource δ
  deriving DecidableEq

inductive ArchiveOrigin where
  | cached
  | downloaded
  deriving DecidableEq, Repr

structure InstalledExtension (δ : Type) where
  name : ExtensionName
  version : Text
  postgresql : Text
  target : Text
  archiveSha256 : δ
  origin : ArchiveOrigin
  files : List RelPath
  deriving DecidableEq

/-! ### The archive cache -/

/-- What stands at the path of a cached archive. -/
inductive CacheEntry where
  | file (bytes : Bytes)
  | dir
  | other
  deriving DecidableEq, Repr

/-- An archive is kept below the directory of its digest, under its file name. -/
structure Cache (δ : Type) where
  entryDir : δ → Bool
  lockFile : δ → Bool
  entry : δ → Text → Option CacheEntry

structure World (δ : Type) where
  disk : Disk
  cache : Cache δ

def World.tree {δ : Type} (w : World δ) : Tree := w.disk.tree

inductive ExtensionError (δ : Type) where
  | manifest (e : ManifestError δ)
  | cannotCreateCache (digest : δ)
  | cannotLock (digest : δ)
  | cannotInspect (digest : δ) (file : Text)
  | cannotRemove (digest : δ) (file : Text)
  | cannotCreateTemp (digest : δ)
  | cannotDownload (url : Text)
  | downloadMismatch (url : Text) (written : Nat) (actual : δ) (size : Nat) (expected : δ)
  | cannotMove (digest : δ) (file : Text)
  | cannotOpenArchive (digest : δ) (file : Text)
  | cannotReadArchive (digest : δ) (file : Text)
  | archiveMismatch (digest : δ) (file : Text) (actual : δ)
  | invalid (detail : Invalid)
  | install (e : InstallError)
  deriving DecidableEq

def ExtensionError.kind {δ : Type} : ExtensionError δ → ExtensionErrorKind
  | .manifest e => e.kind
  | .downloadMismatch .. | .archiveMismatch .. => .archiveDigestMismatch
  | .cannotOpenArchive .. | .cannotReadArchive .. | .invalid _ => .archiveInvalid
  | .install e =>
    match e.kind with
    | .extensionArchiveInvalid => .archiveInvalid
    | .extensionInstallFailed => .installFailed
  | _ => .archiveUnavailable

/-- What the pipeline runs in: other crates' functions and what the outside answers. -/
structure Surroundings (δ : Type) where
  host : Host δ
  sha : Bytes → δ
  unpack : Bytes → Archive
  os : Os
  /-- The body the URL yields at the given moment, if it yields one. -/
  download : Nat → Text → Option Bytes
  root : InstallRoot

abbrev Inst (δ α : Type) := Prog (World δ) (ExtensionError δ) α

section Calls
variable {δ α : Type}

/-- Runs what happens in the install tree. -/
def onDisk (x : Fs InstallError α) : Inst δ α := fun w =>
  match x w.disk with
  | .done a d => .done a { w with disk := d }
  | .failed e d => .failed (.install e) { w with disk := d }
  | .hangs d => .hangs { w with disk := d }

/-- One system call on the cache; one that fails changes nothing. -/
def cacheCall (os : Os) (error : ExtensionError δ) (act : Cache δ → α × Cache δ) : Inst δ α :=
  fun w =>
    let disk : Disk := { w.disk with clock := w.disk.clock+1 }
    match os.fault w.disk.clock with
    | some _ => .failed error { w with disk := disk }
    | none => .done (act w.cache).1 ⟨disk,(act w.cache).2⟩

/-- A call whose failure is an answer too. -/
def cacheTry (os : Os) (f : Cache δ → α) : Inst δ (Option α) := fun w =>
  let disk : Disk := { w.disk with clock := w.disk.clock+1 }
  match os.fault w.disk.clock with
  | some _ => .done none { w with disk := disk }
  | none => .done (some (f w.cache)) { w with disk := disk }

def liftExcept : Except (ExtensionError δ) α → Inst δ α
  | .ok a => pure a
  | .error e => Prog.fail e

end Calls

section Pipeline
variable {δ : Type} [DecidableEq δ] (s : Surroundings δ)

/-! ### `archive.rs` -/

inductive CachedState where
  | valid
  | missing
  | corrupt
  | unreadable
  deriving DecidableEq, Repr

def cachedState (artifact : ManifestArtifact δ) : Inst δ CachedState := do
  match ← cacheTry s.os (fun c => c.entry artifact.sha256 artifact.file) with
  | none => pure .unreadable
  | some none => pure .missing
  | some (some .dir) | some (some .other) => pure .unreadable
  | some (some (.file bytes)) => do
    match ← cacheTry s.os (fun _ => s.sha bytes) with
    | none => pure .unreadable
    | some actual => pure (if actual = artifact.sha256 then .valid else .corrupt)

def Cache.setEntry (c : Cache δ) (digest : δ) (file : Text) (found : Option CacheEntry) : Cache δ :=
  { c with entry := Function.update c.entry digest (Function.update (c.entry digest) file found) }

/-- A regular file is left for the rename to replace. -/
def clearUnusableEntry (artifact : ManifestArtifact δ) : Inst δ Unit := do
  let digest := artifact.sha256
  let file := artifact.file
  match ← cacheCall s.os (.cannotInspect digest file) (fun c => (c.entry digest file,c)) with
  | none | some (.file _) => pure ()
  | some .dir | some .other =>
    cacheCall s.os (.cannotRemove digest file) (fun c => ((),c.setEntry digest file none))

def httpGet (url : Text) (cap : Nat) : Inst δ (Option Bytes) := fun w =>
  let body := if isPermittedUrl s.host url then s.download w.disk.clock url else none
  .done (body.map fun bytes => bytes.take (cap+1))
    { w with disk := { w.disk with clock := w.disk.clock+1 } }

/-- The temporary file is moved into place or deleted. -/
def download (artifact : ManifestArtifact δ) : Inst δ Unit := do
  let digest := artifact.sha256
  cacheCall s.os (.cannotCreateTemp digest) (fun c => ((),c))
  match ← httpGet s artifact.url artifact.size with
  | none => Prog.fail (.cannotDownload artifact.url)
  | some bytes =>
    if bytes.length ≠ artifact.size ∨ s.sha bytes ≠ digest then
      Prog.fail (.downloadMismatch artifact.url bytes.length (s.sha bytes) artifact.size digest)
    else
      cacheCall s.os (.cannotMove digest artifact.file)
        (fun c => ((),c.setEntry digest artifact.file (some (.file bytes))))

def acquire (artifact : ManifestArtifact δ) : Inst δ ArchiveOrigin := do
  let digest := artifact.sha256
  cacheCall s.os (.cannotCreateCache digest)
    (fun c => ((),{ c with entryDir := Function.update c.entryDir digest true }))
  cacheCall s.os (.cannotLock digest)
    (fun c => ((),{ c with lockFile := Function.update c.lockFile digest true }))
  match ← cachedState s artifact with
  | .valid => pure .cached
  | .missing | .corrupt | .unreadable => do
    clearUnusableEntry s artifact
    download s artifact
    pure .downloaded

/-! ### `install.rs` -/

/-- `acquire` leaves a regular file; what else might be there cannot be read. -/
def readVerified (artifact : ManifestArtifact δ) : Inst δ Bytes := do
  let digest := artifact.sha256
  let file := artifact.file
  match ← cacheCall s.os (.cannotOpenArchive digest file) (fun c => (c.entry digest file,c)) with
  | none => Prog.fail (.cannotOpenArchive digest file)
  | some .dir | some .other => Prog.fail (.cannotReadArchive digest file)
  | some (.file content) => do
    let bytes ← cacheCall s.os (.cannotReadArchive digest file)
      (fun c => (content.take (saturatingAdd artifact.size 1),c))
    if bytes.length ≠ artifact.size ∨ s.sha bytes ≠ digest then
      Prog.fail (.archiveMismatch digest file (s.sha bytes))
    else pure bytes

def installArchive (artifact : ManifestArtifact δ) : Inst δ (List RelPath) := do
  let bytes ← readVerified s artifact
  let planned ← liftExcept ((plan (s.unpack bytes) artifact.files).mapError .invalid)
  onDisk (writeAll s.sha s.os s.root (s.unpack bytes) planned)
  pure (planned.map (·.relative))

/-! ### `mod.rs` -/

def installOne (name : ExtensionName) (selection : Selection δ) :
    Inst δ (InstalledExtension δ) := do
  let artifact := selection.artifact
  let origin ← acquire s artifact
  let files ← installArchive s artifact
  pure ⟨name,selection.extension.version,artifact.postgresql,artifact.target,artifact.sha256,
    origin,files⟩

def selectAll (request : ExtensionRequest δ) (manifest : Manifest δ) (running : Version) :
    Except (ManifestError δ) (List (Selection δ)) :=
  request.names.mapM fun name => manifest.select s.host name running s.host.target

def resolve (request : ExtensionRequest δ) : Except (ManifestError δ) (List (Selection δ)) := do
  let manifest ← load s.host s.sha request.manifest
  let running ← runningVersion s.host
  selectAll s request manifest running

def installEach : List (ExtensionName × Selection δ) → Inst δ (List (InstalledExtension δ))
  | [] => pure []
  | (name,selection) :: rest => do
    let installed ← installOne s name selection
    let others ← installEach rest
    pure (installed :: others)

def installExtensions (request : ExtensionRequest δ) : Inst δ (List (InstalledExtension δ)) := do
  let selections ← liftExcept ((resolve s request).mapError .manifest)
  installEach s (request.names.zip selections)

end Pipeline

end PgEmbedSetup.Extensions
