import PgEmbedSetup.Extensions.Install
import PgEmbedSetup.Extensions.Tree

set_option autoImplicit false

/-!
`src/extensions/write.rs`: pass two writes the planned files into the tree.
-/

namespace PgEmbedSetup.Extensions
open Library

def placeOf (relative : RelPath) : Place FileName := relative.reverse.map .text

/-- `BootstrapError` as far as pass two builds it. -/
inductive InstallError where
  | invalid (detail : Invalid)
  /-- An archive error after some files have been written. -/
  | overCap (relative : RelPath) (written : List RelPath) (detail : Invalid)
  | failed (relative : RelPath) (written : List RelPath) (report : Report)
  | cannotStatRoot (e : Errno)
  | rootNotDir (fileType : FileType)
  | cannotInspectRoot (e : Errno)
  | cannotOpenRoot (e : Errno)
  deriving DecidableEq, Repr

inductive ErrorKind where
  | extensionArchiveInvalid
  | extensionInstallFailed
  deriving DecidableEq, Repr

def InstallError.kind : InstallError → ErrorKind
  | .invalid _ => .extensionArchiveInvalid
  | .overCap .. => .extensionArchiveInvalid
  | _ => .extensionInstallFailed

/-- What the kernel says about the path of the install root itself. -/
structure InstallRoot where
  metadata : Except Errno Owner
  symlinkMetadata : Except Errno FileType
  opened : Except Errno Unit

def treeOwner (root : InstallRoot) : Except InstallError Owner :=
  root.metadata.mapError .cannotStatRoot

def openInstallTree (root : InstallRoot) : Except InstallError Unit :=
  match root.symlinkMetadata with
  | .error e => .error (.cannotInspectRoot e)
  | .ok .dir => root.opened.mapError .cannotOpenRoot
  | .ok fileType => .error (.rootNotDir fileType)

variable {δ : Type} [DecidableEq δ]

def setMode (os : Os) (file destination : Place FileName) (mode : Nat) : Fs Report Unit := do
  let r ← change os (fun t => .ok (t.modify file (fun data => { data with mode })))
  orFail (.cannotSetMode destination mode) r

def ownerOf (t : Tree) (file : Place FileName) : Option Owner :=
  match t.node file with
  | some (.file data) => some data.owner
  | _ => none

def applyOwner (os : Os) (file destination : Place FileName) (owner : Owner) :
    Fs Report Unit := do
  let r ← query os (fun t => .ok (ownerOf t file))
  let current ← orFail (.cannotStat destination) r
  if current = some owner then pure ()
  else do
    let r ← change os (fun t => .ok (t.modify file (fun data => { data with owner })))
    orFail (.cannotChown destination owner) r

def fillTemp (os : Os) (owner : Owner) (destination : Place FileName) (mode : Nat)
    (bytes : Bytes) (temp : Place FileName) : Fs Report Unit := do
  let r ← callWrite os temp bytes
  orFail (.cannotWrite destination) r
  setMode os temp destination mode
  applyOwner os temp destination owner

/-- `temp` is the open file, `tempRelative` its path. -/
def fillAndPlace (os : Os) (owner : Owner) (relative : Place FileName) (mode : Nat)
    (bytes : Bytes) (temp tempRelative : Place FileName) : Fs Report Unit := do
  fillTemp os owner relative mode bytes temp
  place os tempRelative relative

/-- `if placed.is_err() { discard } placed`. -/
def discardOnError (os : Os) (tempRelative : Place FileName) (placed : Fs Report Unit) :
    Fs Report Unit := fun d =>
  match placed d with
  | .done () d => .done () d
  | .hangs d => .hangs d
  | .failed report d =>
    match discardTemp os tempRelative d with
    | .done () d => .failed report d
    | .failed _ d => .failed report d
    | .hangs d => .hangs d

def writeAfresh (os : Os) (owner : Owner) (relative : Place FileName) (mode : Nat)
    (bytes : Bytes) : Fs Report Unit := do
  createParents os relative
  let (temp,tempRelative) ← createTempBeside os relative
  discardOnError os tempRelative (fillAndPlace os owner relative mode bytes temp tempRelative)

def repairExisting (os : Os) (owner : Owner) (relative : Place FileName) (mode : Nat)
    (existing : Place FileName) : Fs Report Unit := do
  setMode os existing relative mode
  applyOwner os existing relative owner

def writeFile (sha : Bytes → δ) (os : Os) (owner : Owner) (file : PlannedFile) (bytes : Bytes) :
    Fs Report Unit := do
  let relative := placeOf file.relative
  requireRealParents os [] file.relative
  match ← inspectDestination sha os relative bytes with
  | .identical existing => repairExisting os owner relative file.mode existing
  | _ => writeAfresh os owner relative file.mode bytes

/-- The entry's data and what is left of the budget. -/
def readEntryBounded (entry : Entry) (relative : RelPath) (budget : Nat) :
    Except Invalid (Bytes × Nat) :=
  let limit := min entryDecompressedCap budget
  if !entry.readable then .error (.cannotRead relative)
  else
    let contents := entry.data.take (saturatingAdd limit 1)
    if contents.length > limit then .error (.pastLimit relative)
    else .ok (contents,budget-contents.length)

def overCapAfterWriting (relative : RelPath) (written : List RelPath) (detail : Invalid) :
    InstallError :=
  if written = [] then .invalid detail else .overCap relative written detail

/-- The planned file an entry of pass two is matched with: by its path alone. -/
def matchPlanned (planned : List PlannedFile) (entry : Entry) : Option PlannedFile :=
  match classifyEntryPath entry.pathBytesLossyPath with
  | none => none
  | some relative => planned.find? (fun file => file.relative = relative)

def writeEntries (sha : Bytes → δ) (os : Os) (owner : Owner) (planned : List PlannedFile)
    (budget : Nat) (written : List RelPath) : List (Option Entry) → Fs InstallError Unit
  | [] => pure ()
  | none :: _ => Prog.fail (.invalid .unreadableEntry)
  | some entry :: rest =>
    match matchPlanned planned entry with
    | none => writeEntries sha os owner planned budget written rest
    | some file =>
      match readEntryBounded entry file.relative budget with
      | .error detail => Prog.fail (overCapAfterWriting file.relative written detail)
      | .ok (contents,budget) => do
        (writeFile sha os owner file contents).mapError (.failed file.relative written)
        writeEntries sha os owner planned budget (written ++ [file.relative]) rest

def writeAll (sha : Bytes → δ) (os : Os) (root : InstallRoot) (archive : Archive)
    (planned : List PlannedFile) : Fs InstallError Unit :=
  match treeOwner root with
  | .error e => Prog.fail e
  | .ok owner =>
    match openInstallTree root with
    | .error e => Prog.fail e
    | .ok () =>
      if !archive.opens then Prog.fail (.invalid .cannotReadEntries)
      else writeEntries sha os owner planned archiveDecompressedCap [] archive.items

end PgEmbedSetup.Extensions
