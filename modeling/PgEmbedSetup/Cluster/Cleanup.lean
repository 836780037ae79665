import PgEmbedSetup.Cluster.Shutdown

set_option autoImplicit false

/-!
`src/cluster/cleanup.rs` beside `src/bin/pg_worker.rs` and `src/bin/pg_worker/cleanup.rs`: which
directories a cleanup removes, in process and in the worker.
-/

namespace PgEmbedSetup.Cluster
open Library
open Root (CleanupMode)

/-- A removal that was tried and that the guard let through. -/
structure Removal where
  label : DirectoryLabel
  path : Path Text
  deriving DecidableEq, Repr

def tryRemoveDirAll (label : DirectoryLabel) (path : Path Text) : List Removal :=
  if guardRemovalPath path then [⟨label,path⟩] else []

/-! ### In process -/

def removeInProcess (label : DirectoryLabel) (path : Path Text) : List Removal :=
  if isDangerousCleanupPath path then [] else tryRemoveDirAll label path

def dataRemovals (mode : CleanupMode) (s : Settings) : List Removal :=
  if shouldRemoveData mode then removeInProcess .data s.dataDir else []

def installRootRemovals (s : Settings) : List Removal :=
  match Path.parent s.passwordFile with
  | none => []
  | some parent =>
    if shouldRemoveInstallRoot parent s then removeInProcess .installationRoot parent else []

def installRemovals (mode : CleanupMode) (s : Settings) : List Removal :=
  if !shouldRemoveInstall mode then []
  else removeInProcess .installation s.installationDir ++ installRootRemovals s

def inProcessRemovals (mode : CleanupMode) (s : Settings) : List Removal :=
  if mode = .none then [] else dataRemovals mode s ++ installRemovals mode s

/-! ### In the worker -/

inductive CleanupOperation where
  | cleanup
  | cleanupFull
  deriving DecidableEq, Repr

def cleanupOperation : CleanupMode → Option CleanupOperation
  | .dataOnly => some .cleanup
  | .full => some .cleanupFull
  | .none => none

def emptyPath : Path Text := ⟨false,[]⟩

def rootPath : Path Text := ⟨true,[]⟩

def curDirPath : Path Text := ⟨false,[.here]⟩

def extractInstallRoot (s : Settings) (installDir : Path Text) : Option (Path Text) :=
  match Path.parent s.passwordFile with
  | none => none
  | some parent =>
    if parent = emptyPath ∨ parent = rootPath then none
    else if parent = installDir then none
    else if hasParentDir parent then none
    else if !Path.startsWith parent installDir then none
    else some parent

def collectInstallDir : Option (Path Text) → List Removal
  | none => []
  | some path => tryRemoveDirAll .installation path

def collectInstallRoot (installDir : Option (Path Text)) : Option (Path Text) → List Removal
  | none => []
  | some path => if installDir = some path then [] else tryRemoveDirAll .installationRoot path

def executeCleanup (dataDir : Path Text) (installDir installRoot : Option (Path Text)) :
    List Removal :=
  tryRemoveDirAll .data dataDir ++ collectInstallDir installDir ++
    collectInstallRoot installDir installRoot

def runWorkerCleanup (s : Settings) : CleanupOperation → List Removal
  | .cleanup => executeCleanup s.dataDir none none
  | .cleanupFull =>
    executeCleanup s.dataDir (some s.installationDir) (extractInstallRoot s s.installationDir)

def workerRemovals (mode : CleanupMode) (s : Settings) : List Removal :=
  match cleanupOperation mode with
  | none => []
  | some operation => runWorkerCleanup s operation

/-! ### Guards -/

/-- The in-process check for the root and the empty path is one the guard makes too. -/
theorem removeInProcess_eq (label : DirectoryLabel) (path : Path Text) :
    removeInProcess label path = tryRemoveDirAll label path := by
  rw [removeInProcess]
  by_cases hdangerous : isDangerousCleanupPath path
  · have hguard : guardRemovalPath path = false := by
      rw [isDangerousCleanupPath] at hdangerous
      simp [guardRemovalPath,isEmptyOrRoot,hdangerous]
    rw [if_pos hdangerous,tryRemoveDirAll,hguard]
    rfl
  · rw [if_neg hdangerous]

theorem tryRemoveDirAll_empty {label : DirectoryLabel} {path : Path Text}
    (h : path.parts = []) : tryRemoveDirAll label path = [] := by
  simp [tryRemoveDirAll,guardRemovalPath,isEmptyOrRoot,h]

theorem guard_of_mem {label : DirectoryLabel} {path : Path Text} {r : Removal}
    (h : r ∈ tryRemoveDirAll label path) : guardRemovalPath r.path := by
  rw [tryRemoveDirAll] at h
  split at h
  · next hguard =>
    rw [List.mem_singleton.mp h]
    exact hguard
  · cases h

/-- What the guard lets through is no place that others need. -/
theorem safe_of_guard {path : Path Text} (h : guardRemovalPath path) :
    path ≠ rootPath ∧ path ≠ emptyPath ∧ path ≠ curDirPath ∧ .up ∉ path.parts := by
  simp only [guardRemovalPath,isEmptyOrRoot,hasParentDir,Bool.and_eq_true,Bool.not_eq_true',
    Bool.or_eq_false_iff,decide_eq_false_iff_not,List.isEmpty_eq_false_iff] at h
  obtain ⟨⟨hempty,hhere⟩,hup⟩ := h
  refine ⟨?_,?_,?_,?_⟩
  · rintro rfl
    exact hempty rfl
  · rintro rfl
    exact hempty rfl
  · rintro rfl
    exact hhere rfl
  · exact fun hmem => by simp [hmem] at hup

/-! ### Agreement -/

theorem parts_of_emptyOrRoot {path : Path Text} (h : path = emptyPath ∨ path = rootPath) :
    path.parts = [] := by
  rcases h with rfl | rfl <;> rfl

theorem collectInstallRoot_eq (s : Settings) :
    collectInstallRoot (some s.installationDir) (extractInstallRoot s s.installationDir) =
      installRootRemovals s := by
  rw [extractInstallRoot,installRootRemovals]
  cases Path.parent s.passwordFile with
  | none => rfl
  | some parent =>
    simp only [removeInProcess_eq]
    by_cases hplain : parent = emptyPath ∨ parent = rootPath
    · -- In process this parent goes on to the guard, which refuses it.
      rw [if_pos hplain,tryRemoveDirAll_empty (parts_of_emptyOrRoot hplain),ite_self]
      rfl
    rw [if_neg hplain]
    by_cases hsame : parent = s.installationDir
    · simp [hsame,shouldRemoveInstallRoot,collectInstallRoot]
    rw [if_neg hsame]
    by_cases hup : hasParentDir parent
    · simp [hup,shouldRemoveInstallRoot,collectInstallRoot]
    rw [if_neg hup]
    by_cases hstarts : Path.startsWith parent s.installationDir
    · have hneq : ¬ s.installationDir = parent := fun h => hsame h.symm
      simp [hstarts,hup,hsame,hneq,shouldRemoveInstallRoot,collectInstallRoot]
    · simp [hstarts,shouldRemoveInstallRoot,collectInstallRoot]

theorem workerRemovals_eq (mode : CleanupMode) (s : Settings) :
    workerRemovals mode s = inProcessRemovals mode s := by
  cases mode with
  | none => rfl
  | dataOnly =>
    have hworker : workerRemovals .dataOnly s = tryRemoveDirAll .data s.dataDir ++ [] ++ [] := rfl
    have hinProcess : inProcessRemovals .dataOnly s = removeInProcess .data s.dataDir ++ [] := rfl
    rw [hworker,hinProcess,removeInProcess_eq,List.append_nil,List.append_nil]
  | full =>
    have hworker : workerRemovals .full s = tryRemoveDirAll .data s.dataDir ++
        tryRemoveDirAll .installation s.installationDir ++
        collectInstallRoot (some s.installationDir) (extractInstallRoot s s.installationDir) := rfl
    have hinProcess : inProcessRemovals .full s = removeInProcess .data s.dataDir ++
        (removeInProcess .installation s.installationDir ++ installRootRemovals s) := rfl
    rw [hworker,hinProcess,collectInstallRoot_eq,removeInProcess_eq,removeInProcess_eq,
      List.append_assoc]

/-- Every removal of a cleanup has passed the guard. -/
theorem guard_of_removal {mode : CleanupMode} {s : Settings} {r : Removal}
    (h : r ∈ inProcessRemovals mode s) : guardRemovalPath r.path := by
  have hguard : ∀ label path, r ∈ removeInProcess label path → guardRemovalPath r.path :=
    fun label path hmem => guard_of_mem (removeInProcess_eq label path ▸ hmem)
  rw [inProcessRemovals] at h
  split at h
  · cases h
  rcases List.mem_append.mp h with h | h
  · rw [dataRemovals] at h
    split at h
    · exact hguard _ _ h
    · cases h
  · rw [installRemovals] at h
    split at h
    · cases h
    rcases List.mem_append.mp h with h | h
    · exact hguard _ _ h
    · rw [installRootRemovals] at h
      split at h
      · cases h
      split at h
      · exact hguard _ _ h
      · cases h

/-- Both cleanups remove the same directories, none of them a place that others need. -/
theorem cleanup_agrees (mode : CleanupMode) (s : Settings) :
    workerRemovals mode s = inProcessRemovals mode s ∧
      ∀ r ∈ inProcessRemovals mode s,
        r.path ≠ rootPath ∧ r.path ≠ emptyPath ∧ r.path ≠ curDirPath ∧ .up ∉ r.path.parts :=
  ⟨workerRemovals_eq mode s,fun _ hr => safe_of_guard (guard_of_removal hr)⟩

/-- A password file in a directory below the install directory: three removals, in both. -/
example : inProcessRemovals .full ⟨⟨true,[.name ['d']]⟩,⟨true,[.name ['i']]⟩,
    ⟨true,[.name ['i'],.name ['v'],.name ['p']]⟩⟩ =
      [⟨.data,⟨true,[.name ['d']]⟩⟩,⟨.installation,⟨true,[.name ['i']]⟩⟩,
        ⟨.installationRoot,⟨true,[.name ['i'],.name ['v']]⟩⟩] := by
  decide

/-! ### The programs that clean up -/

def removeAll : List Removal → Code Unit
  | [] => pure ()
  | r :: rest => do
    call (.removeDirAll r.label)
    removeAll rest

theorem removeDirAllIfExists_eq (path : Path Text) (label : DirectoryLabel) :
    removeDirAllIfExists path label = removeAll (removeInProcess label path) := by
  rw [removeDirAllIfExists,removeInProcess,tryRemoveDirAll]
  cases isDangerousCleanupPath path
  · cases guardRemovalPath path <;> rfl
  · rfl

theorem removeAll_append (first second : List Removal) :
    removeAll (first ++ second) = (do removeAll first; removeAll second) := by
  induction first with
  | nil => rfl
  | cons r first ih => exact congrArg (Process.call (.removeDirAll r.label)) (funext fun _ => ih)

theorem cleanupDataDir_eq (mode : CleanupMode) (s : Settings) :
    cleanupDataDir mode s = removeAll (dataRemovals mode s) := by
  rw [cleanupDataDir,dataRemovals,removeDirAllIfExists_eq]
  split <;> rfl

theorem cleanupInstallDir_eq (mode : CleanupMode) (s : Settings) :
    cleanupInstallDir mode s = removeAll (installRemovals mode s) := by
  rw [cleanupInstallDir,installRemovals]
  split
  · rfl
  rw [removeAll_append,removeDirAllIfExists_eq,installRootRemovals]
  congr 1
  funext _
  cases Path.parent s.passwordFile with
  | none => rfl
  | some parent =>
    simp only [removeDirAllIfExists_eq]
    split <;> rfl

/-- What the programs of the shutdown paths call is what is removed here. -/
theorem cleanup_program {mode : CleanupMode} (s : Settings) (h : mode ≠ .none) :
    (do cleanupDataDir mode s; cleanupInstallDir mode s) =
      removeAll (inProcessRemovals mode s) := by
  rw [inProcessRemovals,if_neg h,removeAll_append,cleanupDataDir_eq,cleanupInstallDir_eq]

theorem labels_tryRemoveDirAll (label : DirectoryLabel) (path : Path Text) :
    (tryRemoveDirAll label path).map Removal.label =
      if guardRemovalPath path then [label] else [] := by
  rw [tryRemoveDirAll]
  split <;> rfl

theorem workerTargets_eq (mode : CleanupMode) (s : Settings) :
    workerTargets mode s = (workerRemovals mode s).map Removal.label := by
  rw [workerRemovals_eq]
  cases mode with
  | none => rfl
  | dataOnly =>
    have hinProcess : inProcessRemovals .dataOnly s = removeInProcess .data s.dataDir ++ [] := rfl
    rw [hinProcess,List.append_nil,removeInProcess_eq,labels_tryRemoveDirAll]
    rfl
  | full =>
    have hinProcess : inProcessRemovals .full s = removeInProcess .data s.dataDir ++
        (removeInProcess .installation s.installationDir ++ installRootRemovals s) := rfl
    rw [hinProcess,List.map_append,List.map_append,removeInProcess_eq,removeInProcess_eq,
      labels_tryRemoveDirAll,labels_tryRemoveDirAll,← List.append_assoc,installRootRemovals,
      workerTargets.eq_def]
    refine congrArg _ ?_
    cases Path.parent s.passwordFile with
    | none => rfl
    | some parent =>
      by_cases hempty : parent.parts = []
      · simp [hempty,removeInProcess_eq,tryRemoveDirAll_empty hempty]
      · by_cases hroot : shouldRemoveInstallRoot parent s
        · simp [hempty,hroot,removeInProcess_eq,labels_tryRemoveDirAll]
        · simp [hroot]

end PgEmbedSetup.Cluster
