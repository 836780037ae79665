import PgEmbedSetup.Library.Duration
import PgEmbedSetup.Library.Utf8
import PgEmbedSetup.TestSupport.Retry

set_option autoImplicit false

/-!
`src/bootstrap/mod.rs`, `mode.rs` and `env.rs`: what a bootstrap makes of the process's
privileges and environment, before anything is prepared on disk.
-/

namespace PgEmbedSetup.Bootstrap
open Library
open TestSupport (BootstrapErrorKind)

inductive ExecutionPrivileges where
  | root
  | unprivileged
  deriving DecidableEq, Repr

inductive ExecutionMode where
  | inProcess
  | subprocess
  deriving DecidableEq, Repr

inductive BootstrapKind where
  | default
  | test
  deriving DecidableEq, Repr

inductive DataLayout where
  | persistent
  | perCluster
  deriving DecidableEq, Repr

def BootstrapKind.dataLayout : BootstrapKind → DataLayout
  | .default => .persistent
  | .test => .perCluster

inductive CleanupMode where
  | dataOnly
  | full
  | none
  deriving DecidableEq, Repr

structure FileInfo where
  isFile : Bool
  mode : Nat
  deriving DecidableEq, Repr

def FileInfo.executable (info : FileInfo) : Bool := info.mode &&& 0o111 ≠ 0

/-- Why a file could not be looked at; `notFound` when some cause is an I/O error of that kind. -/
structure AccessError where
  notFound : Bool
  text : Text
  deriving DecidableEq, Repr

/-- What the process sees. `stat` follows every link, and `access` only those within the
directory that `ambient_dir_and_path` opens. -/
structure Host where
  /-- `root_privilege_drop_supported`. -/
  dropSupported : Bool
  rootUser : Bool
  var : String → Option Bytes
  stat : Text → Option FileInfo
  access : Text → Except AccessError FileInfo

inductive Failure where
  | unsupportedBackend (value : Text)
  | pathNonUtf8 (entry : Text)
  | workerNonUtf8 (value : Text)
  | workerEmpty
  | workerIsRoot
  | workerAccess (path : Text) (error : AccessError)
  | workerNotRegular (path : Text)
  | workerNotExecutable (path : Text)
  | dropUnsupported
  | workerUnset
  | timeoutNonUtf8 (value : Bytes)
  | timeoutEmpty
  | timeoutInvalid (value : Text)
  | timeoutZero (value : Text)
  | timeoutTooLong (value : Text)
  /-- Of the configuration, the extension request or the preparation. -/
  | other (kind : BootstrapErrorKind) (text : Text)
  deriving DecidableEq

def Failure.kind : Failure → BootstrapErrorKind
  | .pathNonUtf8 _ => .workerBinaryPathNonUtf8
  | .workerAccess _ error => if error.notFound then .workerBinaryMissing else .other
  | .other kind _ => kind
  | _ => .other

/-! ### The worker -/

def workerBinaryName : Text := "pg_worker".toList

/-- `Utf8Path::join`. -/
def joinWorker (dir : Text) : Text :=
  if dir.getLast? = some '/' then dir ++ workerBinaryName else dir ++ '/' :: workerBinaryName

section Worker
variable (host : Host)

def detectExecutionPrivileges : ExecutionPrivileges :=
  if host.rootUser then .root else .unprivileged

def isRunnable (path : Text) : Bool :=
  match host.stat path with
  | some info => info.isFile && info.executable
  | none => false

def discoverIn : List Bytes → Except Failure (Option Text)
  | [] => .ok none
  | entry :: rest =>
    match decodeUtf8 entry with
    | none => .error (.pathNonUtf8 (fromUtf8Lossy entry))
    | some dir =>
      if dir.isEmpty ∨ dir = ['.'] then discoverIn rest
      else if isRunnable host (joinWorker dir) then .ok (some (joinWorker dir))
      else discoverIn rest

/-- `env::split_paths`. -/
def splitPaths (value : Bytes) : List Bytes := value.splitOn 58

def discoverWorkerFromPath : Except Failure (Option Text) :=
  match host.var "PATH" with
  | none => .ok none
  | some value => discoverIn host (splitPaths value)

def validateWorkerBinary (path : Text) : Except Failure Unit :=
  match host.access path with
  | .error e => .error (.workerAccess path e)
  | .ok info =>
    if !info.isFile then .error (.workerNotRegular path)
    else if !info.executable then .error (.workerNotExecutable path)
    else .ok ()

def validateWorkerPath (path : Text) : Except Failure Unit :=
  if path.isEmpty then .error .workerEmpty
  else if path = ['/'] then .error .workerIsRoot
  else validateWorkerBinary host path

def workerBinaryFromEnv (privileges : ExecutionPrivileges) : Except Failure (Option Text) :=
  if privileges ≠ .root ∨ !host.dropSupported then .ok none
  else
    match host.var "PG_EMBEDDED_WORKER" with
    | some raw =>
      match decodeUtf8 raw with
      | none => .error (.workerNonUtf8 (fromUtf8Lossy raw))
      | some path => do
        validateWorkerPath host path
        pure (some path)
    | none => do
      match ← discoverWorkerFromPath host with
      | some worker =>
        validateWorkerPath host worker
        pure (some worker)
      | none => pure none

def determineExecutionMode (privileges : ExecutionPrivileges) (workerBinary : Option Text) :
    Except Failure ExecutionMode :=
  match privileges with
  | .root =>
    if !host.dropSupported then .error .dropUnsupported
    else if workerBinary.isNone then .error .workerUnset
    else .ok .subprocess
  | .unprivileged => .ok .inProcess

/-! ### The other variables -/

def maxShutdownTimeoutSecs : Nat := 600

theorem withinSecs {seconds : Nat} (h : seconds ≤ maxShutdownTimeoutSecs) : seconds ≤ maxSecs :=
  h.trans (by decide)

def validateShutdownTimeoutSecs (seconds : Nat) (trimmed : Text) : Except Failure Duration :=
  if seconds = 0 then .error (.timeoutZero trimmed)
  else if h : maxShutdownTimeoutSecs < seconds then .error (.timeoutTooLong trimmed)
  else .ok (.ofSecs seconds (withinSecs (Nat.le_of_not_lt h)))

def parseShutdownTimeout (trimmed : Text) : Except Failure Duration :=
  if trimmed.isEmpty then .error .timeoutEmpty
  else
    match parseUnsigned (2^64-1) trimmed with
    | none => .error (.timeoutInvalid trimmed)
    | some seconds => validateShutdownTimeoutSecs seconds trimmed

def defaultShutdownTimeout : Duration := .ofSecs 15 (by decide)

def shutdownTimeoutFromEnv : Except Failure Duration :=
  match host.var "PG_SHUTDOWN_TIMEOUT_SECS" with
  | none => .ok defaultShutdownTimeout
  | some raw =>
    match decodeUtf8 raw with
    | none => .error (.timeoutNonUtf8 raw)
    | some value => parseShutdownTimeout (trim value)

def validateBackendSelection : Except Failure Unit :=
  let value := trim (fromUtf8Lossy ((host.var "PG_TEST_BACKEND").getD []))
  if value.isEmpty ∨ value = "postgresql_embedded".toList then .ok ()
  else .error (.unsupportedBackend value)

/-- Only a test bootstrap looks at the backend. -/
def validateBackendFor : BootstrapKind → Except Failure Unit
  | .default => .ok ()
  | .test => validateBackendSelection host

end Worker

/-! ### The bootstrap -/

/-- What the other subsystems make of the configuration; `π` is what `prepare_bootstrap` returns. -/
structure Stages (γ σ ξ π : Type) where
  load : Except Failure γ
  toSettings : BootstrapKind → γ → Except Failure σ
  extensions : γ → Except Failure (Option ξ)
  prepare : ExecutionPrivileges → σ → γ → DataLayout → Except Failure π
  binaryCacheDir : γ → Option Text

def defaultSetupTimeout : Duration := .ofSecs 180 (by decide)

def defaultStartTimeout : Duration := .ofSecs 60 (by decide)

structure TestBootstrapSettings (ξ ι π : Type) where
  privileges : ExecutionPrivileges
  executionMode : ExecutionMode
  prepared : π
  workerBinary : Option Text
  setupTimeout : Duration
  startTimeout : Duration
  shutdownTimeout : Duration
  cleanupMode : CleanupMode
  binaryCacheDir : Option Text
  extensions : Option ξ
  installedExtensions : List ι

def orchestrateBootstrap {γ σ ξ ι π : Type} (host : Host) (stages : Stages γ σ ξ π)
    (kind : BootstrapKind) : Except Failure (TestBootstrapSettings ξ ι π) := do
  validateBackendFor host kind
  let privileges := detectExecutionPrivileges host
  let cfg ← stages.load
  let settings ← stages.toSettings kind cfg
  let workerBinary ← workerBinaryFromEnv host privileges
  let executionMode ← determineExecutionMode host privileges workerBinary
  let shutdownTimeout ← shutdownTimeoutFromEnv host
  let extensions ← stages.extensions cfg
  let prepared ← stages.prepare privileges settings cfg kind.dataLayout
  pure {
    privileges, executionMode, prepared, workerBinary, shutdownTimeout, extensions
    setupTimeout := defaultSetupTimeout
    startTimeout := defaultStartTimeout
    cleanupMode := .dataOnly
    binaryCacheDir := stages.binaryCacheDir cfg
    installedExtensions := [] }

/-! ### Which worker -/

section Chosen
variable {host : Host}

theorem bind_eq_ok_iff {ε α β : Type} {x : Except ε α} {f : α → Except ε β} {b : β} :
    (x >>= f) = .ok b ↔ ∃ a, x = .ok a ∧ f a = .ok b := by
  cases x with
  | error e =>
    constructor
    · intro h
      cases h
    · rintro ⟨a,h,-⟩
      cases h
  | ok a =>
    constructor
    · exact fun h => ⟨a,rfl,h⟩
    · rintro ⟨a',h,hf⟩
      cases h
      exact hf

/-- An executable regular file, looked at without leaving its directory. -/
structure Valid (host : Host) (path : Text) : Prop where
  nonempty : path ≠ []
  notRoot : path ≠ ['/']
  file : ∃ info, host.access path = .ok info ∧ info.isFile = true ∧ info.executable = true

theorem validateWorkerPath_ok {path : Text} :
    validateWorkerPath host path = .ok () ↔ Valid host path := by
  unfold validateWorkerPath
  split
  · next hempty =>
    have hnil : path = [] := List.isEmpty_iff.mp hempty
    exact ⟨fun h => (nomatch h),fun h => absurd hnil h.nonempty⟩
  · next hnonempty =>
    split
    · next hroot => exact ⟨fun h => (nomatch h),fun h => absurd hroot h.notRoot⟩
    · next hnotRoot =>
      have hne : path ≠ [] := fun h => hnonempty (List.isEmpty_iff.mpr h)
      unfold validateWorkerBinary
      cases haccess : host.access path with
      | error e =>
        refine ⟨fun h => (nomatch h),fun h => ?_⟩
        obtain ⟨info,hok,-⟩ := h.file
        rw [haccess] at hok
        cases hok
      | ok info =>
        refine ⟨fun h => ⟨hne,hnotRoot,info,haccess,?_⟩,fun h => ?_⟩
        · cases hfile : info.isFile <;> cases hexec : info.executable <;> simp_all
        · obtain ⟨info',hok,hfile,hexec⟩ := h.file
          rw [haccess] at hok
          cases hok
          simp [hfile,hexec]

/-- An entry of `PATH` without a worker. -/
def PassedOver (host : Host) (entry : Bytes) : Prop :=
  ∃ dir, decodeUtf8 entry = some dir ∧
    (dir = [] ∨ dir = ['.'] ∨ isRunnable host (joinWorker dir) = false)

/-- The worker of the first entry that has one, and no entry before it is malformed. -/
def FirstOnPath (host : Host) (entries : List Bytes) (path : Text) : Prop :=
  ∃ before entry after dir, entries = before ++ entry :: after ∧
    (∀ e ∈ before, PassedOver host e) ∧ decodeUtf8 entry = some dir ∧ dir ≠ [] ∧ dir ≠ ['.'] ∧
    isRunnable host (joinWorker dir) = true ∧ path = joinWorker dir

theorem firstOnPath_cons {entry : Bytes} {rest : List Bytes} {path : Text}
    (h : PassedOver host entry) :
    FirstOnPath host (entry :: rest) path ↔ FirstOnPath host rest path := by
  constructor
  · rintro ⟨before,found,after,dir,hsplit,hbefore,hdecode,hne,hdot,hrun,hpath⟩
    cases before with
    | nil =>
      obtain ⟨rfl,rfl⟩ := List.cons.inj hsplit
      obtain ⟨dir',hdecode',hpass⟩ := h
      rw [hdecode] at hdecode'
      cases hdecode'
      simp_all
    | cons e before =>
      obtain ⟨rfl,rfl⟩ := List.cons.inj hsplit
      exact ⟨before,found,after,dir,rfl,fun e he => hbefore e (List.mem_cons_of_mem _ he),hdecode,
        hne,hdot,hrun,hpath⟩
  · rintro ⟨before,found,after,dir,rfl,hbefore,hrest⟩
    refine ⟨entry :: before,found,after,dir,rfl,?_,hrest⟩
    intro e he
    rcases List.mem_cons.mp he with rfl | he
    · exact h
    · exact hbefore e he

theorem discoverIn_some {entries : List Bytes} {path : Text} :
    discoverIn host entries = .ok (some path) ↔ FirstOnPath host entries path := by
  induction entries with
  | nil =>
    refine ⟨fun h => by simp [discoverIn] at h,fun ⟨before,_,_,_,hsplit,_⟩ => ?_⟩
    cases before <;> cases hsplit
  | cons entry rest ih =>
    rw [discoverIn]
    cases hdecode : decodeUtf8 entry with
    | none =>
      refine ⟨fun h => by simp at h,fun ⟨before,found,_,dir,hsplit,hbefore,hdir,_⟩ => ?_⟩
      cases before with
      | nil =>
        obtain ⟨rfl,-⟩ := List.cons.inj hsplit
        simp_all
      | cons e before =>
        obtain ⟨rfl,-⟩ := List.cons.inj hsplit
        obtain ⟨dir',hdir',-⟩ := hbefore entry List.mem_cons_self
        simp_all
    | some dir =>
      dsimp only
      split
      · next hskip =>
        rw [firstOnPath_cons ⟨dir,hdecode,by simpa [or_assoc] using hskip.imp_right .inl⟩]
        exact ih
      · next hkeep =>
        have hkept : dir ≠ [] ∧ dir ≠ ['.'] := by simpa using hkeep
        split
        · next hrun =>
          refine ⟨fun h => ?_,fun ⟨before,found,after,dir',hsplit,hbefore,hdir',_,_,_,hpath⟩ => ?_⟩
          · cases h
            exact ⟨[],entry,rest,dir,rfl,by simp,hdecode,hkept.1,hkept.2,hrun,rfl⟩
          · cases before with
            | nil =>
              obtain ⟨rfl,-⟩ := List.cons.inj hsplit
              simp_all
            | cons e before =>
              obtain ⟨rfl,-⟩ := List.cons.inj hsplit
              obtain ⟨dir'',hdir'',hpass⟩ := hbefore entry List.mem_cons_self
              simp_all
        · next hrun =>
          rw [firstOnPath_cons ⟨dir,hdecode,.inr (.inr (by simpa using hrun))⟩]
          exact ih

/-- The worker that is named, or else the one on the path. -/
inductive Chosen (host : Host) (path : Text) : Prop where
  | named {raw : Bytes} (hvar : host.var "PG_EMBEDDED_WORKER" = some raw)
      (hdecode : decodeUtf8 raw = some path)
  | discovered {value : Bytes} (hvar : host.var "PG_EMBEDDED_WORKER" = none)
      (hpath : host.var "PATH" = some value) (hfirst : FirstOnPath host (splitPaths value) path)

theorem discoverWorkerFromPath_some {path : Text} :
    discoverWorkerFromPath host = .ok (some path) ↔
      ∃ value, host.var "PATH" = some value ∧ FirstOnPath host (splitPaths value) path := by
  unfold discoverWorkerFromPath
  cases hvar : host.var "PATH" with
  | none => simp
  | some value => simp [discoverIn_some]

theorem workerBinaryFromEnv_some (hdrop : host.dropSupported = true) {path : Text} :
    workerBinaryFromEnv host .root = .ok (some path) ↔ Chosen host path ∧ Valid host path := by
  unfold workerBinaryFromEnv
  rw [if_neg (by simp [hdrop])]
  cases hvar : host.var "PG_EMBEDDED_WORKER" with
  | some raw =>
    dsimp only
    cases hdecode : decodeUtf8 raw with
    | none =>
      refine ⟨fun h => (nomatch h),fun ⟨hchosen,_⟩ => ?_⟩
      cases hchosen with
      | named hraw htext => simp_all
      | discovered hnone => simp_all
    | some named =>
      dsimp only
      rw [bind_eq_ok_iff]
      constructor
      · rintro ⟨u,hvalid,hpath⟩
        cases hpath
        exact ⟨.named hvar hdecode,validateWorkerPath_ok.mp hvalid⟩
      · rintro ⟨hchosen,hvalid⟩
        cases hchosen with
        | named hraw htext =>
          rw [hvar] at hraw
          cases hraw
          rw [hdecode] at htext
          cases htext
          exact ⟨(),validateWorkerPath_ok.mpr hvalid,rfl⟩
        | discovered hnone => simp_all
  | none =>
    dsimp only
    rw [bind_eq_ok_iff]
    constructor
    · rintro ⟨worker,hfound,hrest⟩
      cases worker with
      | none => cases hrest
      | some worker =>
        obtain ⟨u,hvalid,hpath⟩ := bind_eq_ok_iff.mp hrest
        cases hpath
        obtain ⟨value,hpath,hfirst⟩ := discoverWorkerFromPath_some.mp hfound
        exact ⟨.discovered hvar hpath hfirst,validateWorkerPath_ok.mp hvalid⟩
    · rintro ⟨hchosen,hvalid⟩
      cases hchosen with
      | named hraw => simp_all
      | discovered hnone hpath hfirst =>
        refine ⟨some path,discoverWorkerFromPath_some.mpr ⟨_,hpath,hfirst⟩,?_⟩
        exact bind_eq_ok_iff.mpr ⟨(),validateWorkerPath_ok.mpr hvalid,rfl⟩

/-- How the lifecycle operations are to run. -/
inductive Runs (host : Host) : ExecutionPrivileges → ExecutionMode → Option Text → Prop where
  | worker {path : Text} (hroot : host.rootUser = true) (hdrop : host.dropSupported = true)
      (hchosen : Chosen host path) (hvalid : Valid host path) :
      Runs host .root .subprocess (some path)
  | here (huser : host.rootUser = false) : Runs host .unprivileged .inProcess none

theorem determineExecutionMode_ok {worker : Option Text} {mode : ExecutionMode} :
    (workerBinaryFromEnv host (detectExecutionPrivileges host) = .ok worker ∧
      determineExecutionMode host (detectExecutionPrivileges host) worker = .ok mode) ↔
      Runs host (detectExecutionPrivileges host) mode worker := by
  unfold detectExecutionPrivileges
  cases hroot : host.rootUser with
  | false =>
    simp only [Bool.false_eq_true,if_false]
    constructor
    · rintro ⟨hworker,hmode⟩
      cases hworker
      cases hmode
      exact .here hroot
    · intro h
      cases h
      exact ⟨rfl,rfl⟩
  | true =>
    simp only [if_true]
    cases hdrop : host.dropSupported with
    | false =>
      refine ⟨fun ⟨_,hmode⟩ => ?_,fun h => ?_⟩
      · simp [determineExecutionMode,hdrop] at hmode
      · cases h
        simp_all
    | true =>
      constructor
      · rintro ⟨hworker,hmode⟩
        cases worker with
        | none => simp [determineExecutionMode,hdrop] at hmode
        | some path =>
          obtain ⟨hchosen,hvalid⟩ := (workerBinaryFromEnv_some hdrop).mp hworker
          simp only [determineExecutionMode,hdrop,Bool.not_true,Bool.false_eq_true,if_false,
            Option.isNone_some] at hmode
          cases hmode
          exact .worker hroot hdrop hchosen hvalid
      · intro h
        cases h with
        | worker _ _ hchosen hvalid =>
          exact ⟨(workerBinaryFromEnv_some hdrop).mpr ⟨hchosen,hvalid⟩,by
            simp [determineExecutionMode,hdrop]⟩

/-! ### The grace period -/

inductive GracePeriod (host : Host) : Duration → Prop where
  | default (hvar : host.var "PG_SHUTDOWN_TIMEOUT_SECS" = none) :
      GracePeriod host defaultShutdownTimeout
  | given {raw : Bytes} {value : Text} {seconds : Nat}
      (hvar : host.var "PG_SHUTDOWN_TIMEOUT_SECS" = some raw) (hdecode : decodeUtf8 raw = some value)
      (hparse : parseUnsigned (2^64-1) (trim value) = some seconds) (hpos : 1 ≤ seconds)
      (hmax : seconds ≤ maxShutdownTimeoutSecs) :
      GracePeriod host (.ofSecs seconds (withinSecs hmax))

theorem parseShutdownTimeout_ok {text : Text} {timeout : Duration} :
    parseShutdownTimeout text = .ok timeout ↔
      ∃ seconds, parseUnsigned (2^64-1) text = some seconds ∧ 1 ≤ seconds ∧
        ∃ hmax : seconds ≤ maxShutdownTimeoutSecs, timeout = .ofSecs seconds (withinSecs hmax) := by
  unfold parseShutdownTimeout
  split
  · next hempty =>
    rw [List.isEmpty_iff.mp hempty]
    exact ⟨fun h => (nomatch h),fun ⟨_,h,_⟩ => (nomatch h)⟩
  · cases hparse : parseUnsigned (2^64-1) text with
    | none => exact ⟨fun h => (nomatch h),fun ⟨_,h,_⟩ => (nomatch h)⟩
    | some n =>
      dsimp only
      unfold validateShutdownTimeoutSecs
      split
      · next hzero =>
        refine ⟨fun h => (nomatch h),fun ⟨seconds,hsome,hpos,_⟩ => ?_⟩
        cases hsome
        omega
      · next hzero =>
        split
        · next hlong =>
          refine ⟨fun h => (nomatch h),fun ⟨seconds,hsome,_,hmax,_⟩ => ?_⟩
          cases hsome
          omega
        · next hle =>
          refine ⟨fun h => ?_,fun ⟨seconds,hsome,_,hmax,htimeout⟩ => ?_⟩
          · cases h
            exact ⟨n,rfl,Nat.pos_of_ne_zero hzero,Nat.le_of_not_lt hle,rfl⟩
          · cases hsome
            rw [htimeout]

theorem shutdownTimeoutFromEnv_ok {timeout : Duration} :
    shutdownTimeoutFromEnv host = .ok timeout ↔ GracePeriod host timeout := by
  unfold shutdownTimeoutFromEnv
  cases hvar : host.var "PG_SHUTDOWN_TIMEOUT_SECS" with
  | none =>
    refine ⟨fun h => ?_,fun h => ?_⟩
    · cases h
      exact .default hvar
    · cases h with
      | default => rfl
      | given hsome => simp_all
  | some raw =>
    dsimp only
    cases hdecode : decodeUtf8 raw with
    | none =>
      refine ⟨fun h => (nomatch h),fun h => ?_⟩
      cases h <;> simp_all
    | some value =>
      refine ⟨fun h => ?_,fun h => ?_⟩
      · obtain ⟨seconds,hparse,hpos,hmax,rfl⟩ := parseShutdownTimeout_ok.mp h
        exact .given hvar hdecode hparse hpos hmax
      · cases h with
        | default hnone => simp_all
        | given hsome htext hparse hpos hmax =>
          rw [hvar] at hsome
          cases hsome
          rw [hdecode] at htext
          cases htext
          exact parseShutdownTimeout_ok.mpr ⟨_,hparse,hpos,hmax,rfl⟩

theorem gracePeriod_bounds {timeout : Duration} (h : GracePeriod host timeout) :
    1 ≤ timeout.secs ∧ timeout.secs ≤ maxShutdownTimeoutSecs ∧ timeout.nanos = 0 := by
  cases h with
  | default => decide
  | given _ _ _ hpos hmax => exact ⟨hpos,hmax,rfl⟩

def SupportedBackend (host : Host) : Prop :=
  let value := trim (fromUtf8Lossy ((host.var "PG_TEST_BACKEND").getD []))
  value.isEmpty ∨ value = "postgresql_embedded".toList

theorem validateBackendSelection_ok :
    validateBackendSelection host = .ok () ↔ SupportedBackend host := by
  unfold validateBackendSelection SupportedBackend
  dsimp only
  split
  · next h => exact ⟨fun _ => h,fun _ => rfl⟩
  · next h => exact ⟨fun h => (nomatch h),fun h' => absurd h' h⟩

end Chosen

/-! ### What a bootstrap settles -/

/-- The settings a bootstrap ends with, when every stage goes through. -/
structure Settled {γ σ ξ ι π : Type} (host : Host) (stages : Stages γ σ ξ π)
    (kind : BootstrapKind) (b : TestBootstrapSettings ξ ι π) : Prop where
  backend : kind = .test → SupportedBackend host
  runs : Runs host b.privileges b.executionMode b.workerBinary
  grace : GracePeriod host b.shutdownTimeout
  stages : ∃ cfg settings, stages.load = .ok cfg ∧ stages.toSettings kind cfg = .ok settings ∧
    stages.extensions cfg = .ok b.extensions ∧
    stages.prepare b.privileges settings cfg kind.dataLayout = .ok b.prepared ∧
    b.binaryCacheDir = stages.binaryCacheDir cfg
  rest : b.setupTimeout = defaultSetupTimeout ∧ b.startTimeout = defaultStartTimeout ∧
    b.cleanupMode = .dataOnly ∧ b.installedExtensions = []

theorem runs_privileges {host : Host} {privileges : ExecutionPrivileges} {mode : ExecutionMode}
    {worker : Option Text} (h : Runs host privileges mode worker) :
    privileges = detectExecutionPrivileges host := by
  unfold detectExecutionPrivileges
  cases h with
  | worker hroot => rw [hroot]; rfl
  | here huser => rw [huser]; rfl

section Settling
variable {γ σ ξ ι π : Type} {host : Host} {stages : Stages γ σ ξ π} {kind : BootstrapKind}
  {b : TestBootstrapSettings ξ ι π}

theorem validateBackendFor_ok :
    validateBackendFor host kind = .ok () ↔ (kind = .test → SupportedBackend host) := by
  cases kind with
  | default => exact ⟨fun _ h => (nomatch h),fun _ => rfl⟩
  | test => exact validateBackendSelection_ok.trans ⟨fun h _ => h,fun h => h rfl⟩

theorem settled_of_ok (h : orchestrateBootstrap host stages kind = .ok b) :
    Settled host stages kind b := by
  unfold orchestrateBootstrap at h
  simp only [bind_eq_ok_iff] at h
  obtain ⟨_,hkind,cfg,hload,settings,hsettings,worker,hworker,mode,hmode,seconds,hseconds,
    extensions,hextensions,prepared,hprepared,hb⟩ := h
  cases hb
  exact ⟨validateBackendFor_ok.mp hkind,determineExecutionMode_ok.mp ⟨hworker,hmode⟩,
    shutdownTimeoutFromEnv_ok.mp hseconds,
    ⟨cfg,settings,hload,hsettings,hextensions,hprepared,rfl⟩,⟨rfl,rfl,rfl,rfl⟩⟩

theorem ok_of_settled (h : Settled host stages kind b) :
    orchestrateBootstrap host stages kind = .ok b := by
  obtain ⟨hkind,hruns,hgrace,⟨cfg,settings,hload,hsettings,hextensions,hprepared,hcache⟩,hsetup,
    hstart,hcleanup,hinstalled⟩ := h
  have hprivileges := runs_privileges hruns
  rw [hprivileges] at hruns hprepared
  obtain ⟨hworker,hmode⟩ := determineExecutionMode_ok.mpr hruns
  unfold orchestrateBootstrap
  simp only [bind_eq_ok_iff]
  refine ⟨(),validateBackendFor_ok.mpr hkind,cfg,hload,settings,hsettings,_,hworker,_,hmode,_,
    shutdownTimeoutFromEnv_ok.mpr hgrace,_,hextensions,_,hprepared,?_⟩
  rw [← hprivileges,← hsetup,← hstart,← hcleanup,← hinstalled,← hcache]
  rfl

end Settling

/-- A bootstrap succeeds with these settings and no others: as root only with a worker that is an
executable regular file, as anyone else without one, and with a grace period within its bounds. -/
theorem orchestrateBootstrap_ok {γ σ ξ ι π : Type} (host : Host) (stages : Stages γ σ ξ π)
    (kind : BootstrapKind) (b : TestBootstrapSettings ξ ι π) :
    orchestrateBootstrap host stages kind = .ok b ↔ Settled host stages kind b :=
  ⟨settled_of_ok,ok_of_settled⟩

end PgEmbedSetup.Bootstrap
