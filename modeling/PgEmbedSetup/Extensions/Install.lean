import Mathlib.Data.Char
import Mathlib.Data.List.Lex
import Mathlib.Data.List.Sort
import PgEmbedSetup.Extensions.Layout

set_option autoImplicit false

/-!
`src/extensions/install.rs`: pass one reads every entry of the archive and decides, without
writing, which files are installed where.
-/

namespace PgEmbedSetup.Extensions
open Library

/-- `tar::EntryType`. -/
inductive EntryType where
  | regular
  | link
  | symlink
  | char
  | block
  | directory
  | fifo
  | continuous
  | gnuLongName
  | gnuLongLink
  | gnuSparse
  | xGlobalHeader
  | xHeader
  | other (byte : UInt8)
  deriving DecidableEq, Repr

def EntryType.isDir (kind : EntryType) : Bool := kind = .directory

def EntryType.isFile (kind : EntryType) : Bool := kind = .regular

/-- One tar entry as the reader hands it over. The size its header declares need not be
the length of the data that follows. -/
structure Entry where
  kind : EntryType
  name : Bytes
  /-- `none` when the header's size field cannot be read. -/
  size : Option Nat
  data : Bytes
  /-- Whether reading the data works. -/
  readable : Bool
  deriving DecidableEq, Repr

/-- What iterating the archive yields, the same in both passes: `none` is an unreadable
entry. -/
structure Archive where
  opens : Bool
  items : List (Option Entry)
  deriving DecidableEq, Repr

def Archive.entries (archive : Archive) : List Entry := archive.items.filterMap id

def Entry.pathBytesLossy (entry : Entry) : Text := fromUtf8Lossy entry.name

def Entry.pathBytesLossyPath (entry : Entry) : Bytes := encodeUtf8 entry.pathBytesLossy

/-- Where the entry's path leads, whatever its kind. -/
def Entry.relative (entry : Entry) : Option RelPath := classifyEntryPath entry.pathBytesLossyPath

def libMode : Nat := 0o755

def shareMode : Nat := 0o644

def entryDecompressedCap : Nat := 64*1024*1024

def archiveDecompressedCap : Nat := 256*1024*1024

def u64Max : Nat := 2^64-1

def saturatingAdd (a b : Nat) : Nat := min (a+b) u64Max

structure PlannedFile where
  relative : RelPath
  mode : Nat
  deriving DecidableEq, Repr

/-- What makes an archive `ExtensionArchiveInvalid`; the text starts with the archive's path. -/
inductive Invalid where
  | cannotReadEntries
  | unreadableEntry
  | unreadableSize (name : Text)
  | badKind (name : Text) (kind : EntryType)
  | outside (name : Text)
  | duplicate (relative : RelPath)
  | fileTooLarge (relative : RelPath) (size : Nat)
  | archiveTooLarge (relative : RelPath) (total : Nat)
  | differs (actual expected : List Text)
  | cannotRead (relative : RelPath)
  | pastLimit (relative : RelPath)
  deriving DecidableEq, Repr

def modeFor (relative : RelPath) : Nat :=
  if relative.head? = some libDir then libMode else shareMode

def planEntry (entry : Entry) : Except Invalid (Option PlannedFile) :=
  if entry.kind.isDir then .ok none
  else if !entry.kind.isFile then .error (.badKind entry.pathBytesLossy entry.kind)
  else
    match classifyEntryPath (encodeUtf8 entry.pathBytesLossy) with
    | none => .error (.outside entry.pathBytesLossy)
    | some relative => .ok (some ⟨relative,modeFor relative⟩)

def checkDecompressedCaps (relative : RelPath) (size declared : Nat) : Except Invalid Nat :=
  if size > entryDecompressedCap then .error (.fileTooLarge relative size)
  else
    let total := saturatingAdd declared size
    if total > archiveDecompressedCap then .error (.archiveTooLarge relative total)
    else .ok total

/-- `seen` is the set of paths planned so far, `files` the plan itself. -/
def planEntries (seen : List RelPath) (declared : Nat) (files : List PlannedFile) :
    List (Option Entry) → Except Invalid (List PlannedFile)
  | [] => .ok files
  | none :: _ => .error .unreadableEntry
  | some entry :: rest =>
    match entry.size with
    | none => .error (.unreadableSize entry.pathBytesLossy)
    | some size =>
      match planEntry entry with
      | .error e => .error e
      | .ok none => planEntries seen declared files rest
      | .ok (some file) =>
        if file.relative ∈ seen then .error (.duplicate file.relative)
        else
          match checkDecompressedCaps file.relative size declared with
          | .error e => .error e
          | .ok declared =>
            planEntries (file.relative :: seen) declared (files ++ [file]) rest

def checkAgainstManifest (files : List PlannedFile) (manifestFiles : List Text) :
    Except Invalid Unit :=
  let expected := manifestFiles.insertionSort (· ≤ ·)
  let actual := files.map (fun file => RelPath.joined file.relative)
  if actual = expected then .ok () else .error (.differs actual expected)

def plan (archive : Archive) (manifestFiles : List Text) : Except Invalid (List PlannedFile) :=
  if !archive.opens then .error .cannotReadEntries
  else
    match planEntries [] 0 [] archive.items with
    | .error e => .error e
    | .ok files =>
      -- The order of the characters is the byte order of the encoded text.
      let files := files.insertionSort
        (fun a b => RelPath.joined a.relative ≤ RelPath.joined b.relative)
      match checkAgainstManifest files manifestFiles with
      | .error e => .error e
      | .ok () => .ok files

/-! ### What an accepted archive is like -/

/-- The file an entry plans, when it is a regular file. -/
def Entry.planned (entry : Entry) : Option PlannedFile :=
  if entry.kind.isFile then entry.relative.map (fun relative => ⟨relative,modeFor relative⟩)
  else none

theorem planEntry_ok {entry : Entry} {file : Option PlannedFile} (h : planEntry entry = .ok file) :
    entry.planned = file := by
  simp only [planEntry] at h
  split at h
  · rename_i hdir
    have hfile : entry.kind.isFile = false := by
      simp only [EntryType.isDir,decide_eq_true_eq] at hdir
      simp [EntryType.isFile,hdir]
    simpa [Entry.planned,hfile] using h
  · split at h
    · simp at h
    · rename_i hfile
      simp only [Bool.not_eq_true,Bool.not_eq_false'] at hfile
      cases hc : entry.relative with
      | none => simp [show classifyEntryPath (encodeUtf8 entry.pathBytesLossy) = none from hc] at h
      | some relative =>
        simp only [show classifyEntryPath (encodeUtf8 entry.pathBytesLossy) = some relative from hc,
          Except.ok.injEq] at h
        simp [Entry.planned,hfile,hc,← h]

theorem planEntries_ok {seen : List RelPath} {declared : Nat} {files planned : List PlannedFile}
    {items : List (Option Entry)} (h : planEntries seen declared files items = .ok planned) :
    planned = files ++ (items.filterMap id).filterMap Entry.planned := by
  induction items generalizing seen declared files with
  | nil => simpa [planEntries,eq_comm] using h
  | cons item rest ih =>
    cases item with
    | none => simp [planEntries] at h
    | some entry =>
      simp only [planEntries] at h
      split at h
      · simp at h
      · split at h
        · simp at h
        · rename_i he
          rw [ih h]
          simp [planEntry_ok he]
        · rename_i file he
          split at h
          · simp at h
          · split at h
            · simp at h
            · rw [ih h]
              simp [planEntry_ok he]

/-- An accepted archive plans exactly its regular files. -/
theorem mem_plan {archive : Archive} {manifestFiles : List Text} {planned : List PlannedFile}
    (h : plan archive manifestFiles = .ok planned) (file : PlannedFile) :
    file ∈ planned ↔ ∃ entry ∈ archive.entries, entry.planned = some file := by
  simp only [plan] at h
  split at h
  · simp at h
  · split at h
    · simp at h
    · rename_i files hfiles
      split at h
      · simp at h
      · simp only [Except.ok.injEq] at h
        rw [← h,(List.perm_insertionSort _ _).mem_iff,planEntries_ok hfiles,List.nil_append,
          List.mem_filterMap]
        rfl

end PgEmbedSetup.Extensions
