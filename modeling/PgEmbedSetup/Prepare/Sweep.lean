import PgEmbedSetup.Prepare.Orphan

set_option autoImplicit false

/-!
`src/bootstrap/prepare/cluster_slot`: the sweep of the slots whose owners are gone, and what is
left of a slot of which some file cannot be removed.
-/

namespace PgEmbedSetup.Prepare
open Library

/-! ### The slot parent -/

inductive Node where
  | dir (entries : List Text)
  | file
  | symlink
  deriving DecidableEq

def Node.isDir : Node → Bool
  | .dir _ => true
  | .file | .symlink => false

/-- The directory that the slots are in, by name. -/
abbrev SlotParent := Text → Option Node

inductive IoError where
  | notFound
  | other
  deriving DecidableEq, Repr

/-- What a sweep meets: the servers of the data directories, the locks, and the calls that fail.
A failing `remove_dir_all` has removed some entries already. -/
structure Surroundings where
  hosts : Text → Host
  stop : ProcessId → Bool
  opens : Text → Bool
  held : Text → Bool
  dirFault : Text → Option (List Text)
  fileFault : Text → Bool

section Remove
variable (w : Surroundings)

/-- `remove_dir_all` removes a symbolic link, but no regular file. -/
def removeDirAll (s : SlotParent) (p : Text) : SlotParent × Except IoError Unit :=
  match w.dirFault p with
  | some removed =>
    match s p with
    | some (.dir entries) =>
      (Function.update s p (some (.dir (entries.filter (· ∉ removed)))),.error .other)
    | _ => (s,.error .other)
  | none =>
    match s p with
    | none => (s,.error .notFound)
    | some .file => (s,.error .other)
    | some (.dir _) | some .symlink => (Function.update s p none,.ok ())

def removeFile (s : SlotParent) (p : Text) : SlotParent × Except IoError Unit :=
  if w.fileFault p then (s,.error .other)
  else
    match s p with
    | none => (s,.error .notFound)
    | some (.dir _) => (s,.error .other)
    | some .file | some .symlink => (Function.update s p none,.ok ())

/-! ### `removal.rs` -/

structure ClusterSlot where
  dataDir : Text
  passwordFile : Text

def slotPaths (name : Text) : ClusterSlot := ⟨name,name++".pgpass".toList⟩

def lockPath (dataDir : Text) : Text := dataDir++".lock".toList

def removeIfPresent : Except IoError Unit → Except IoError Unit
  | .error .notFound => .ok ()
  | other => other

/-- Every file is tried, and the first failure is reported. -/
def removeSlotFiles (s : SlotParent) (slot : ClusterSlot) : SlotParent × Except IoError Unit :=
  let (s,dir) := removeDirAll w s slot.dataDir
  let (s,password) := removeFile w s slot.passwordFile
  let (s,lock) := removeFile w s (lockPath slot.dataDir)
  (s,do
    removeIfPresent dir
    removeIfPresent password
    removeIfPresent lock)

/-- The failure goes to the log only. -/
def removeSlot (s : SlotParent) (slot : ClusterSlot) : SlotParent := (removeSlotFiles w s slot).1

/-! ### `mod.rs` -/

/-- Whether the slot's lock could be taken. -/
def takeDeadLock (s : SlotParent) (name : Text) : Bool :=
  (s (lockPath name)).any (!·.isDir) && w.opens name && !w.held name

def sweepOne (s : SlotParent) (name : Text) : Bool × SlotParent :=
  if !takeDeadLock w s name then (false,s)
  else
    let slot := slotPaths name
    if !(stopOrphanedServer (w.hosts slot.dataDir) w.stop).1 then (false,s)
    else (true,removeSlot w s slot)

/-- How many were swept, and what is left. -/
def sweepFrom (sofar : Nat × SlotParent) (name : Text) : Nat × SlotParent :=
  let (removed,s) := sweepOne w sofar.2 name
  (if removed then sofar.1+1 else sofar.1,s)

def sweepNames (names : List Text) (s : SlotParent) : Nat × SlotParent :=
  names.foldl (sweepFrom w) (0,s)

def lockStem (fileName : Bytes) : Option Text := do
  let fileName ← decodeUtf8 fileName
  if ".lock".toList <:+ fileName then
    let stem := fileName.take (fileName.length-".lock".toList.length)
    if stem.isEmpty then none else some stem
  else none

/-- Entries that cannot be read are passed over. -/
def sweepDeadSlots (listing : Except IoError (List (Option Bytes))) (s : SlotParent) :
    Except IoError Nat × SlotParent :=
  match listing with
  | .error e => (.error e,s)
  | .ok entries =>
    let (swept,s) := sweepNames w (entries.filterMap fun entry => entry.bind lockStem) s
    (.ok swept,s)

end Remove

/-! ### What goes and what stays -/

section Files
variable {w : Surroundings} {s : SlotParent}

/-- Nothing is there, or it can be removed as a directory. -/
def DirGoes (w : Surroundings) (s : SlotParent) (p : Text) : Prop :=
  s p = none ∨ s p ≠ some .file ∧ w.dirFault p = none

/-- Nothing is there, or it can be removed as a file. -/
def FileGoes (w : Surroundings) (s : SlotParent) (p : Text) : Prop :=
  s p = none ∨ (s p).any Node.isDir = false ∧ w.fileFault p = false

theorem removeDirAll_gone_iff {p : Text} : (removeDirAll w s p).1 p = none ↔ DirGoes w s p := by
  unfold removeDirAll DirGoes
  cases hfault : w.dirFault p with
  | some removed =>
    cases hnode : s p with
    | none => simp [hnode]
    | some node => cases node <;> simp [hnode]
  | none =>
    cases hnode : s p with
    | none => simp [hnode]
    | some node => cases node <;> simp [hnode]

theorem removeDirAll_other {p q : Text} (hq : q ≠ p) : (removeDirAll w s p).1 q = s q := by
  unfold removeDirAll
  split
  · split
    · exact Function.update_of_ne hq _ _
    · rfl
  · split
    · rfl
    · rfl
    all_goals exact Function.update_of_ne hq _ _

theorem removeFile_gone_iff {p : Text} : (removeFile w s p).1 p = none ↔ FileGoes w s p := by
  unfold removeFile FileGoes
  cases hfault : w.fileFault p with
  | true => simp
  | false =>
    cases hnode : s p with
    | none => simp [hnode]
    | some node => cases node <;> simp [hnode,Node.isDir]

theorem removeFile_other {p q : Text} (hq : q ≠ p) : (removeFile w s p).1 q = s q := by
  unfold removeFile
  split
  · rfl
  · split
    · rfl
    · rfl
    all_goals exact Function.update_of_ne hq _ _

theorem FileGoes.congr {s' : SlotParent} {p : Text} (h : s' p = s p) :
    FileGoes w s' p ↔ FileGoes w s p := by
  unfold FileGoes
  rw [h]

/-! ### One slot -/

theorem append_ne {name suffix : Text} (h : suffix ≠ []) : name++suffix ≠ name := by
  simpa using h

theorem password_ne_dir (name : Text) : (slotPaths name).passwordFile ≠ (slotPaths name).dataDir :=
  append_ne (by decide)

theorem lock_ne_dir (name : Text) : lockPath (slotPaths name).dataDir ≠ (slotPaths name).dataDir :=
  append_ne (by decide)

theorem lock_ne_password (name : Text) :
    lockPath (slotPaths name).dataDir ≠ (slotPaths name).passwordFile := by
  intro h
  have hsuffix := List.append_cancel_left h
  exact absurd hsuffix (by decide)

/-- Nothing of the slot is left. -/
def Gone (s : SlotParent) (name : Text) : Prop :=
  s (slotPaths name).dataDir = none ∧ s (slotPaths name).passwordFile = none ∧
    s (lockPath (slotPaths name).dataDir) = none

/-- No call fails on what there is of the slot. -/
def NothingStays (w : Surroundings) (s : SlotParent) (name : Text) : Prop :=
  DirGoes w s (slotPaths name).dataDir ∧ FileGoes w s (slotPaths name).passwordFile ∧
    FileGoes w s (lockPath (slotPaths name).dataDir)

theorem removeSlot_gone_iff {name : Text} :
    Gone (removeSlot w s (slotPaths name)) name ↔ NothingStays w s name := by
  have hpassword := password_ne_dir name
  have hlock := lock_ne_dir name
  have hboth := lock_ne_password name
  unfold Gone NothingStays removeSlot removeSlotFiles
  refine and_congr ?_ (and_congr ?_ ?_)
  · rw [removeFile_other hlock.symm,removeFile_other hpassword.symm]
    exact removeDirAll_gone_iff
  · rw [removeFile_other hboth.symm,removeFile_gone_iff]
    exact FileGoes.congr (removeDirAll_other hpassword)
  · rw [removeFile_gone_iff]
    exact FileGoes.congr ((removeFile_other hboth).trans (removeDirAll_other hlock))

/-- A removal changes nothing but the slot's own files. -/
theorem removeSlot_other {name q : Text} (hdir : q ≠ (slotPaths name).dataDir)
    (hpassword : q ≠ (slotPaths name).passwordFile)
    (hlock : q ≠ lockPath (slotPaths name).dataDir) :
    removeSlot w s (slotPaths name) q = s q :=
  (removeFile_other hlock).trans ((removeFile_other hpassword).trans (removeDirAll_other hdir))

/-- The owner is gone, and the server too. -/
def Abandoned (w : Surroundings) (s : SlotParent) (name : Text) : Prop :=
  takeDeadLock w s name = true ∧ (stopOrphanedServer (w.hosts name) w.stop).1 = true

theorem sweepOne_abandoned {name : Text} (h : Abandoned w s name) :
    sweepOne w s name = (true,removeSlot w s (slotPaths name)) := by
  obtain ⟨hlock,hfree⟩ := h
  have hfree' : (stopOrphanedServer (w.hosts (slotPaths name).dataDir) w.stop).1 = true := hfree
  simp [sweepOne,hlock,hfree']

theorem sweepOne_kept {name : Text} (h : ¬ Abandoned w s name) :
    sweepOne w s name = (false,s) := by
  unfold sweepOne
  split
  · rfl
  · next hlock =>
    dsimp only
    split
    · rfl
    · next hfree => exact absurd ⟨by simpa using hlock,by simpa [slotPaths] using hfree⟩ h

/-! ### The whole sweep -/

theorem sweepNames_snoc (names : List Text) (name : Text) :
    sweepNames w (names++[name]) s = sweepFrom w (sweepNames w names s) name := by
  simp [sweepNames]

/-- A slot with an owner, or with a server that cannot be stopped, is passed over. -/
theorem sweepNames_kept {names : List Text} {name : Text}
    (h : ¬ Abandoned w (sweepNames w names s).2 name) :
    sweepNames w (names++[name]) s = sweepNames w names s := by
  rw [sweepNames_snoc]
  simp [sweepFrom,sweepOne_kept h]

theorem lockStem_eq_some {fileName : Bytes} {name : Text} :
    lockStem fileName = some name ↔ decodeUtf8 fileName = some (lockPath name) ∧ name ≠ [] := by
  unfold lockStem lockPath
  cases decodeUtf8 fileName with
  | none => simp
  | some text =>
    simp only [Option.bind_eq_bind,Option.bind_some,Option.some.injEq]
    by_cases hsuffix : ".lock".toList <:+ text
    · obtain ⟨stem,rfl⟩ := hsuffix
      rw [if_pos (List.suffix_append _ _),List.append_cancel_right_eq]
      have hstem : (stem++".lock".toList).take
          ((stem++".lock".toList).length-".lock".toList.length) = stem := by
        rw [List.length_append,Nat.add_sub_cancel,List.take_left]
      rw [hstem]
      cases stem with
      | nil => simp [eq_comm]
      | cons c rest =>
        simp only [List.isEmpty_cons,Bool.false_eq_true,if_false,Option.some.injEq]
        exact ⟨fun h => ⟨h,h ▸ List.cons_ne_nil c rest⟩,fun h => h.1⟩
    · rw [if_neg hsuffix]
      constructor
      · intro h
        cases h
      · rintro ⟨rfl,-⟩
        exact absurd (List.suffix_append _ _) hsuffix

/-- A sweep finds the slots whose lock files are listed, and no others. -/
theorem mem_listed {entries : List (Option Bytes)} {name : Text} :
    name ∈ (entries.filterMap fun entry => entry.bind lockStem) ↔
      name ≠ [] ∧ ∃ fileName, some fileName ∈ entries ∧
        decodeUtf8 fileName = some (lockPath name) := by
  simp only [List.mem_filterMap,Option.bind_eq_some_iff,lockStem_eq_some]
  constructor
  · rintro ⟨-,hentry,fileName,rfl,hname,hne⟩
    exact ⟨hne,fileName,hentry,hname⟩
  · rintro ⟨hne,fileName,hentry,hname⟩
    exact ⟨_,hentry,fileName,rfl,hname,hne⟩

/-- The slot is gone and counted, or can be found again and is not counted. -/
def Retryable (name : Text) (before after : Nat × SlotParent) : Prop :=
  Gone after.2 name ∧ after.1 = before.1+1 ∨
    (∃ node, after.2 (lockPath name) = some node) ∧ after.1 = before.1

/-- Whatever was swept before it, an abandoned slot is removed and counted, or kept for a later
sweep, exactly when no call fails on what there is of it. -/
theorem sweep_retryable_iff (w : Surroundings) (s : SlotParent) (names : List Text) (name : Text)
    (h : Abandoned w (sweepNames w names s).2 name) :
    Retryable name (sweepNames w names s) (sweepNames w (names++[name]) s) ↔
      NothingStays w (sweepNames w names s).2 name := by
  have hafter : sweepNames w (names++[name]) s =
      ((sweepNames w names s).1+1,removeSlot w (sweepNames w names s).2 (slotPaths name)) := by
    rw [sweepNames_snoc]
    simp [sweepFrom,sweepOne_abandoned h]
  rw [hafter,← removeSlot_gone_iff]
  constructor
  · rintro (⟨hgone,-⟩ | ⟨-,hcount⟩)
    · exact hgone
    · exact absurd hcount (by simp)
  · exact fun hgone => .inl ⟨hgone,rfl⟩

end Files

/-! ### A data directory that stays -/

def emptyTable : ProcessTable := ⟨fun _ => none,by simp⟩

def noServer : Host := ⟨emptyTable,none,false,none,false⟩

def quietSweep : Surroundings where
  hosts _ := noServer
  stop _ := true
  opens _ := true
  held _ := false
  dirFault _ := none
  fileFault _ := false

def slotName : Text := "4711-1-0".toList

def deadSlot : SlotParent := fun p =>
  if p = slotName then some (.dir ["base".toList,"PG_VERSION".toList])
  else if p = slotName++".pgpass".toList ∨ p = lockPath slotName then some .file
  else none

theorem sweep_retryable_iff_quiet :
    Retryable slotName (sweepNames quietSweep [] deadSlot)
        (sweepNames quietSweep ([]++[slotName]) deadSlot) ↔
      NothingStays quietSweep (sweepNames quietSweep [] deadSlot).2 slotName :=
  sweep_retryable_iff quietSweep deadSlot [] slotName ⟨by decide,by decide⟩

/-- One entry of the data directory cannot be removed. -/
def stubbornSweep : Surroundings :=
  { quietSweep with dirFault := fun _ => some ["PG_VERSION".toList] }

/-- The directory is left without its lock file, and the slot is counted as swept. -/
theorem sweep_strands :
    ∃ swept after, sweepDeadSlots stubbornSweep (.ok [some (ascii "4711-1-0.lock")]) deadSlot =
        (.ok swept,after) ∧ swept = 1 ∧ after slotName = some (.dir ["base".toList]) ∧
      after (lockPath slotName) = none ∧
      ¬ Retryable slotName (0,deadSlot) (sweepNames stubbornSweep [slotName] deadSlot) := by
  refine ⟨_,_,rfl,by decide,by decide,by decide,?_⟩
  rintro (⟨⟨hdir,-⟩,-⟩ | ⟨-,hcount⟩)
  · exact absurd hdir (by decide)
  · exact absurd hcount (by decide)

end PgEmbedSetup.Prepare
