import PgEmbedSetup.Bootstrap.Mode
import PgEmbedSetup.Worker.Subprocess

set_option autoImplicit false

/-!
`src/cluster/worker_invoker`: where a lifecycle operation runs, on the caller's thread or in a
worker process, and what its failures look like to the retry loop.
-/

namespace PgEmbedSetup.Bootstrap
open Library
open TestSupport (BootstrapError Report Cause EmbeddedError isTransient isTransientEmbedded)
open Worker (Settings)
open Worker.Subprocess (WorkerOperation WorkerRequest)

structure TestBootstrapEnvironment where
  home : Text
  xdgCacheHome : Text
  xdgRuntimeDir : Text
  pgpassFile : Text
  tzDir : Option Text
  timezone : Text

def TestBootstrapEnvironment.toEnv (e : TestBootstrapEnvironment) : List (Text × Option Text) :=
  [("HOME".toList,some e.home),("XDG_CACHE_HOME".toList,some e.xdgCacheHome),
    ("XDG_RUNTIME_DIR".toList,some e.xdgRuntimeDir),("PGPASSFILE".toList,some e.pgpassFile),
    ("TZDIR".toList,e.tzDir),("TZ".toList,some e.timezone)]

structure PreparedBootstrap (V : Type) where
  settings : Settings V
  environment : TestBootstrapEnvironment

/-- What a panic carries. -/
inductive Payload where
  | string (text : Text)
  | str (text : Text)
  | other

/-- How an operation in this process ends, under its time limit. -/
inductive Future where
  | done (r : Except EmbeddedError Unit)
  | elapsed
  | panicked (payload : Payload)

inductive Ending (ε : Type) where
  | returned (r : Except ε Unit)
  | panicked (payload : Payload)

inductive Ran (V : Type) where
  | nothing
  | future (timeout : Duration)
  | worker (binary : Text) (request : WorkerRequest V)

structure Invocation (V : Type) where
  ran : Ran V
  ending : Ending BootstrapError

def plain (text : Text) : BootstrapError := ⟨.other,⟨[.message text],false⟩⟩

def panicPayloadToString : Payload → Text
  | .string text | .str text => text
  | .other => "unknown panic payload".toList

def nestedRuntimeThreadPanic (context operation : Text) (payload : Payload) : BootstrapError :=
  plain (context ++ ": helper thread panicked while running ".toList ++ operation ++ ": ".toList ++
    panicPayloadToString payload)

def timeoutError : BootstrapError := ⟨.other,⟨[.lifecycleTimeout],false⟩⟩

section Invoke
variable {ξ ι V : Type}

def operationTimeout (b : TestBootstrapSettings ξ ι (PreparedBootstrap V)) :
    WorkerOperation → Duration
  | .setup => b.setupTimeout
  | .start => b.startTimeout
  | .stop | .cleanup | .cleanupFull => b.shutdownTimeout

/-- A report of the worker, with what it was wrapped around. -/
def workerError (report : Worker.Subprocess.Report) : BootstrapError :=
  ⟨.other,⟨.message report.message :: report.causes.map .message,false⟩⟩

variable (host : Host) (b : TestBootstrapSettings ξ ι (PreparedBootstrap V))
  (envVars : List (Text × Option Text)) (operation : WorkerOperation)
  (run : Text → WorkerRequest V → Ending Worker.Subprocess.Report)

def spawnWorkerInner : Invocation V :=
  match b.workerBinary with
  | none =>
    ⟨.nothing,.returned (.error (plain
      ("pg_worker binary not found. Install it with 'cargo install --path . --bin pg_worker' ".toList ++
        "and ensure it is in PATH, or set PG_EMBEDDED_WORKER to its absolute path".toList)))⟩
  | some worker =>
    let request := ⟨b.prepared.settings,envVars,operation,operationTimeout b operation⟩
    match run worker request with
    | .returned (.ok ()) => ⟨.worker worker request,.returned (.ok ())⟩
    | .returned (.error report) => ⟨.worker worker request,.returned (.error (workerError report))⟩
    | .panicked payload => ⟨.worker worker request,.panicked payload⟩

def executeRootOperation : Invocation V :=
  if !host.dropSupported then
    ⟨.nothing,.returned (.error (plain
      "privilege drop is not supported on this target; run without root privileges".toList))⟩
  else
    match b.executionMode with
    | .inProcess =>
      ⟨.nothing,.returned (.error (plain
        ("ExecutionMode::InProcess is unsafe for root because process-wide ".toList ++
          "UID/GID changes race in multi-threaded tests; switch to ".toList ++
          "ExecutionMode::Subprocess".toList)))⟩
    | .subprocess => spawnWorkerInner b envVars operation run

/-- `timeout_error` and `.context(ctx)`. -/
def inProcessResult (r : Except EmbeddedError Unit) : Except BootstrapError Unit :=
  match r with
  | .ok () => .ok ()
  | .error e => .error ⟨.other,⟨[.message operation.errorContext,.embedded e],false⟩⟩

/-- On a helper thread when the caller is inside a runtime, and else on the caller's own. -/
def invokeUnprivileged (nested : Bool) : Future → Ending BootstrapError
  | .done r => .returned (inProcessResult operation r)
  | .elapsed => .returned (.error timeoutError)
  | .panicked payload =>
    if nested then
      .returned (.error (nestedRuntimeThreadPanic operation.errorContext
        "nested-runtime operation".toList payload))
    else .panicked payload

/-- `WorkerInvoker::invoke`. -/
def invoke (nested : Bool) (future : Future) : Invocation V :=
  match b.privileges with
  | .unprivileged =>
    ⟨.future (operationTimeout b operation),invokeUnprivileged operation nested future⟩
  | .root => executeRootOperation host b envVars operation run

def invokeUnprivilegedAsync : Future → Ending BootstrapError
  | .done r => .returned (inProcessResult operation r)
  | .elapsed => .returned (.error timeoutError)
  | .panicked payload => .panicked payload

/-- `spawn_blocking`, whose join error shows the panic as `joinText` has it. -/
def spawnBlocking (joinText : Payload → Text) (i : Invocation V) : Invocation V :=
  match i.ending with
  | .returned _ => i
  | .panicked payload =>
    ⟨i.ran,.returned (.error (plain ("worker task panicked: ".toList ++ joinText payload)))⟩

/-- `AsyncInvoker::invoke`. -/
def invokeAsync (joinText : Payload → Text) (future : Future) : Invocation V :=
  match b.privileges with
  | .unprivileged =>
    ⟨.future (operationTimeout b operation),invokeUnprivilegedAsync operation future⟩
  | .root => spawnBlocking joinText (executeRootOperation host b envVars operation run)

end Invoke

/-! ### Where an operation runs -/

/-- An operation that ended in a panic. -/
def Ending.isPanic {ε : Type} : Ending ε → Bool
  | .returned _ => false
  | .panicked _ => true

def Future.isPanic : Future → Bool
  | .panicked _ => true
  | .done _ | .elapsed => false

/-- The operation did not finish in time, or failed in a way that may pass. -/
def Future.transient : Future → Bool
  | .elapsed => true
  | .done (.error e) => isTransientEmbedded e
  | .done (.ok ()) | .panicked _ => false

section Dispatch
variable {ξ ι V : Type} {host : Host} {b : TestBootstrapSettings ξ ι (PreparedBootstrap V)}
  {envVars : List (Text × Option Text)} {operation : WorkerOperation}
  {run : Text → WorkerRequest V → Ending Worker.Subprocess.Report}

theorem isTransient_plain (text : Text) : isTransient (plain text) = false := rfl

theorem isTransient_workerError (report : Worker.Subprocess.Report) :
    isTransient (workerError report) = false := by
  have hcauses : ((report.causes.map Cause.message).any fun cause =>
      TestSupport.isTransientCause cause false) = false := by
    rw [List.any_map]
    exact List.any_eq_false.mpr fun _ _ => by simp [TestSupport.isTransientCause]
  simp only [isTransient,workerError,List.any_cons,hcauses]
  rfl

/-- Nothing a worker reports is taken for a failure that may pass. -/
theorem executeRootOperation_permanent {e : BootstrapError}
    (h : (executeRootOperation host b envVars operation run).ending = .returned (.error e)) :
    isTransient e = false := by
  unfold executeRootOperation spawnWorkerInner at h
  split at h
  · cases h
    exact isTransient_plain _
  · split at h
    · cases h
      exact isTransient_plain _
    · split at h
      · cases h
        exact isTransient_plain _
      · dsimp only at h
        split at h
        · cases h
        · cases h
          exact isTransient_workerError _
        · cases h

theorem invokeUnprivileged_transient {nested : Bool} {future : Future} {e : BootstrapError}
    (h : invokeUnprivileged operation nested future = .returned (.error e)) :
    isTransient e = future.transient := by
  cases future with
  | done r =>
    cases r with
    | ok u => cases h
    | error inner =>
      cases h
      simp [isTransient,TestSupport.isTransientCause,Future.transient]
  | elapsed =>
    cases h
    rfl
  | panicked payload =>
    cases nested with
    | false => cases h
    | true =>
      cases h
      exact isTransient_plain _

/-- The worker that was found runs the operation, with the settings of the bootstrap. -/
theorem executeRootOperation_ran {path : Text} (hdrop : host.dropSupported = true)
    (hmode : b.executionMode = .subprocess) (hworker : b.workerBinary = some path) :
    (executeRootOperation host b envVars operation run).ran =
      .worker path ⟨b.prepared.settings,envVars,operation,operationTimeout b operation⟩ := by
  unfold executeRootOperation spawnWorkerInner
  simp only [hdrop,hmode,hworker,Bool.not_true,Bool.false_eq_true,if_false]
  split <;> rfl

end Dispatch

/-- What a bootstrap has settled holds of every operation after it: as root only the worker runs it,
and none of its failures is tried again; as anyone else it runs in this process and is tried again
when it timed out or failed in a way that may pass. Each is given the time the bootstrap set. -/
theorem invoke_settled {γ σ ξ ι V : Type} {host : Host}
    {stages : Stages γ σ ξ (PreparedBootstrap V)} {kind : BootstrapKind}
    {b : TestBootstrapSettings ξ ι (PreparedBootstrap V)}
    (h : orchestrateBootstrap host stages kind = .ok b) (envVars : List (Text × Option Text))
    (operation : WorkerOperation) (run : Text → WorkerRequest V → Ending Worker.Subprocess.Report)
    (nested : Bool) (future : Future) :
    let i := invoke host b envVars operation run nested future
    (host.rootUser = true → (∃ path, Chosen host path ∧ Valid host path ∧
        i.ran = .worker path ⟨b.prepared.settings,envVars,operation,operationTimeout b operation⟩) ∧
      ∀ e, i.ending = .returned (.error e) → isTransient e = false) ∧
    (host.rootUser = false → i.ran = .future (operationTimeout b operation) ∧
      ∀ e, i.ending = .returned (.error e) → isTransient e = future.transient) ∧
    1 ≤ (operationTimeout b operation).secs ∧ (operationTimeout b operation).secs ≤ 600 := by
  obtain ⟨-,hruns,hgrace,-,hsetup,hstart,-,-⟩ := settled_of_ok h
  obtain ⟨hpos,hmax,-⟩ := gracePeriod_bounds hgrace
  have htime : 1 ≤ (operationTimeout b operation).secs ∧
      (operationTimeout b operation).secs ≤ 600 := by
    cases operation with
    | setup => rw [operationTimeout,hsetup]; decide
    | start => rw [operationTimeout,hstart]; decide
    | stop | cleanup | cleanupFull => exact ⟨hpos,hmax⟩
  dsimp only
  refine ⟨fun hroot => ?_,fun huser => ?_,htime⟩
  · generalize hprivileges : b.privileges = privileges at hruns
    generalize hmode : b.executionMode = mode at hruns
    generalize hworker : b.workerBinary = worker at hruns
    cases hruns with
    | @worker path _ hdrop hchosen hvalid =>
      simp only [invoke,hprivileges]
      exact ⟨⟨path,hchosen,hvalid,executeRootOperation_ran hdrop hmode hworker⟩,
        fun e he => executeRootOperation_permanent he⟩
    | here huser => simp [hroot] at huser
  · have hprivileges : b.privileges = .unprivileged := by
      rw [runs_privileges hruns,detectExecutionPrivileges,huser]
      rfl
    have hinvoke : invoke host b envVars operation run nested future =
        ⟨.future (operationTimeout b operation),invokeUnprivileged operation nested future⟩ := by
      simp only [invoke,hprivileges]
    rw [hinvoke]
    exact ⟨rfl,fun e he => invokeUnprivileged_transient he⟩

/-- The superuser, with a worker that is named. -/
def rootHost : Host where
  dropSupported := true
  rootUser := true
  var name := if name = "PG_EMBEDDED_WORKER" then some (ascii "/pg_worker") else none
  stat _ := none
  access _ := .ok ⟨true,0o755⟩

def samplePrepared : PreparedBootstrap Worker.ExactVersion :=
  ⟨Worker.Subprocess.sampleRequest.settings,⟨[],[],[],[],none,"UTC".toList⟩⟩

def sampleStages : Stages Unit Unit Unit (PreparedBootstrap Worker.ExactVersion) where
  load := .ok ()
  toSettings _ _ := .ok ()
  extensions _ := .ok none
  prepare _ _ _ _ := .ok samplePrepared
  binaryCacheDir _ := none

def sampleBootstrap : TestBootstrapSettings Unit Unit (PreparedBootstrap Worker.ExactVersion) :=
  ⟨.root,.subprocess,samplePrepared,some "/pg_worker".toList,defaultSetupTimeout,
    defaultStartTimeout,defaultShutdownTimeout,.dataOnly,none,none,[]⟩

theorem invoke_settled_root :
    ∃ path request, (invoke rootHost sampleBootstrap [] .stop
      (fun _ _ => .returned (.error ⟨"pg_worker timed out".toList,[]⟩)) false .elapsed).ran =
        .worker path request := by
  have hok : orchestrateBootstrap rootHost sampleStages .default = .ok sampleBootstrap := rfl
  obtain ⟨hroot,-⟩ := invoke_settled hok [] .stop
    (fun _ _ => .returned (.error ⟨"pg_worker timed out".toList,[]⟩)) false .elapsed
  obtain ⟨⟨path,-,-,hran⟩,-⟩ := hroot rfl
  exact ⟨path,_,hran⟩

end PgEmbedSetup.Bootstrap
