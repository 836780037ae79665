import PgEmbedSetup.Worker.Subprocess

set_option autoImplicit false

/-!
`main` of `src/bin/pg_worker.rs` up to the operation: the arguments, the payload file and the
environment, as the other end of `worker_process::run`.
-/

namespace PgEmbedSetup.Worker.PgWorker
open Library Subprocess

inductive WorkerError where
  | invalidArgs (message : Text)
  | configRead (error : Text)
  | configParse
  | settingsConversion (message : String)
  /-- What the operation itself reports. -/
  | operation (message : Text)
  deriving DecidableEq, Repr

inductive Operation where
  | setup
  | start
  | stop
  | cleanup
  | cleanupFull
  deriving DecidableEq, Repr

def unknownOperation (other : Text) : WorkerError :=
  .invalidArgs ("unknown operation '".toList ++ other ++
    "'; expected setup, start, stop, cleanup, or cleanup-full".toList)

def Operation.parse (arg : Bytes) : Except WorkerError Operation :=
  let text := fromUtf8Lossy arg
  if text = "setup".toList then .ok .setup
  else if text = "start".toList then .ok .start
  else if text = "stop".toList then .ok .stop
  else if text = "cleanup".toList then .ok .cleanup
  else if text = "cleanup-full".toList then .ok .cleanupFull
  else .error (unknownOperation text)

/-- The config path, with nothing after it. -/
def parsePath (op : Operation) : List Bytes → Except WorkerError (Operation × Text)
  | [] => .error (.invalidArgs "missing config path".toList)
  | path :: rest =>
    match decodeUtf8 path, rest with
    | none, _ =>
      .error (.invalidArgs ("config path not UTF-8: ".toList ++ fromUtf8Lossy path))
    | some _, extra :: _ =>
      .error (.invalidArgs ("unexpected extra argument: ".toList ++ fromUtf8Lossy extra))
    | some cfg, [] => .ok (op,cfg)

/-- The first argument is the program itself. -/
def parseArgs (args : List Bytes) : Except WorkerError (Operation × Text) :=
  match args.drop 1 with
  | [] => .error (.invalidArgs "missing operation".toList)
  | op :: rest =>
    match Operation.parse op with
    | .error e => .error e
    | .ok op => parsePath op rest

/-! ### The environment -/

abbrev Environment := Text → Option Text

/-- The names that `set_var` and `remove_var` take without a panic. -/
def validName (key : Text) : Bool := !key.isEmpty && key.all fun c => c ≠ '=' && c ≠ '\x00'

def validValue : Option PlainSecret → Bool
  | none => true
  | some v => v.expose.all fun c => c ≠ '\x00'

/-- The variables one after the other; nothing is left of a worker that panics. -/
def applyWorkerEnvironment :
    List (Text × Option PlainSecret) → Environment → Option Environment
  | [], env => some env
  | (key,value) :: rest, env =>
    if validName key && validValue value then
      applyWorkerEnvironment rest (Function.update env key (value.map PlainSecret.expose))
    else none

/-! ### The job -/

structure Job (V : Type) where
  operation : Operation
  settings : Settings V
  dataDir : Text
  environment : Environment

section Main
variable {V : Type} (wire : Wire V) (readConfig : Text → Except Text Bytes)

def loadPayload (path : Text) : Except WorkerError (WorkerPayload V) :=
  match readConfig path with
  | .error e => .error (.configRead e)
  | .ok bytes =>
    match (wire.parse bytes).bind (WorkerPayload.fromJson wire) with
    | none => .error .configParse
    | some payload => .ok payload

def extractDataDir (settings : Settings V) : Except WorkerError Text :=
  match decodeUtf8 settings.dataDir with
  | none => .error (.settingsConversion "data_dir must be valid UTF-8")
  | some text => .ok text

/-- `run_worker` as far as the operation; `none` is a panic. -/
def prepareJob (args : List Bytes) (env : Environment) : Except WorkerError (Option (Job V)) := do
  let (op,cfgPath) ← parseArgs args
  let payload ← loadPayload wire readConfig cfgPath
  let settings := payload.settings.intoSettings
  let dataDir ← extractDataDir settings
  .ok ((applyWorkerEnvironment payload.environment env).map fun environment =>
    ⟨op,settings,dataDir,environment⟩)

/-- `perform` is the operation. An error makes the status 1 and a panic makes it 101. -/
def main (perform : Job V → Except WorkerError Unit) (args : List Bytes) (env : Environment) :
    ExitStatus :=
  match prepareJob wire readConfig args env with
  | .error _ => .code 1
  | .ok none => .code 101
  | .ok (some job) =>
    match perform job with
    | .error _ => .code 1
    | .ok () => .code 0

end Main

/-! ### What the worker is told -/

def operationOf : WorkerOperation → Operation
  | .setup => .setup
  | .start => .start
  | .stop => .stop
  | .cleanup => .cleanup
  | .cleanupFull => .cleanupFull

/-- Each name the parent writes is the one the worker reads. -/
theorem parse_asStr (op : WorkerOperation) :
    Operation.parse (encodeUtf8 op.asStr) = .ok (operationOf op) := by
  rw [Operation.parse,fromUtf8Lossy_encodeUtf8]
  cases op <;> rfl

theorem parseArgs_inv {program path : Bytes} {op : WorkerOperation} {o : Operation} {cfg : Text}
    (h : parseArgs (program :: [encodeUtf8 op.asStr,path]) = .ok (o,cfg)) :
    o = operationOf op ∧ encodeUtf8 cfg = path := by
  simp only [parseArgs,List.drop_one,List.tail_cons,parse_asStr,parsePath] at h
  cases hpath : decodeUtf8 path with
  | none =>
    rw [hpath] at h
    cases h
  | some text =>
    rw [hpath] at h
    cases h
    exact ⟨rfl,encodeUtf8_of_decodeUtf8 hpath⟩

/-- The last assignment of a variable, if there is one. -/
def lastAssigned (vars : List (Text × Option Text)) (key : Text) : Option (Option Text) :=
  match vars with
  | [] => none
  | (name,value) :: rest =>
    (lastAssigned rest key).or (if key = name then some value else none)

/-- The worker has what the request says of a variable, and its parent's value of all others. -/
theorem applyWorkerEnvironment_get {vars : List (Text × Option PlainSecret)} {env env' : Environment}
    (h : applyWorkerEnvironment vars env = some env') (key : Text) :
    env' key = (lastAssigned (vars.map fun entry => (entry.1,entry.2.map PlainSecret.expose))
      key).getD (env key) := by
  induction vars generalizing env with
  | nil =>
    cases h
    rfl
  | cons entry rest ih =>
    obtain ⟨name,value⟩ := entry
    obtain ⟨-,hrest⟩ := Option.ite_none_right_eq_some.mp h
    rw [ih hrest,List.map_cons,lastAssigned]
    cases hlast : lastAssigned (rest.map fun entry => (entry.1,entry.2.map PlainSecret.expose)) key with
    | some v => rfl
    | none =>
      by_cases hkey : key = name
      · simp [hkey]
      · simp [hkey]

section Received
variable {V : Type} {wire : Wire V} {settings : Settings V} {vars : List (Text × Option Text)}

theorem utf8Path_ok_inv {message : String} {path : Bytes} {text : Text}
    (h : utf8Path message path = .ok text) : (decodeUtf8 path).isSome := by
  unfold utf8Path at h
  split at h
  · next hdecoded => simp [hdecoded]
  · cases h

theorem utf8Path_mapM_inv {message : String} {path : Option Bytes} {text : Option Text}
    (h : path.mapM (utf8Path message) = .ok text) : ∀ p ∈ path, (decodeUtf8 p).isSome := by
  rintro p rfl
  rw [Option.mapM_some] at h
  cases hp : utf8Path message p with
  | error e =>
    rw [hp] at h
    cases h
  | ok text => exact utf8Path_ok_inv hp

/-- A payload is only made of settings whose paths are UTF-8. -/
theorem utf8Paths_of_new {payload : WorkerPayload V}
    (h : WorkerPayload.new settings vars = .ok payload) : settings.Utf8Paths := by
  rw [WorkerPayload.new,SettingsSnapshot.tryFrom] at h
  cases hinst : utf8Path "installation_dir must be valid UTF-8" settings.installationDir with
  | error e =>
    rw [hinst] at h
    cases h
  | ok installationDir =>
    cases hpassword : utf8Path "password_file must be valid UTF-8" settings.passwordFile with
    | error e =>
      rw [hinst,hpassword] at h
      cases h
    | ok passwordFile =>
      cases hdata : utf8Path "data_dir must be valid UTF-8" settings.dataDir with
      | error e =>
        rw [hinst,hpassword,hdata] at h
        cases h
      | ok dataDir =>
        cases hsocket : settings.socketDir.mapM (utf8Path "socket_dir must be valid UTF-8") with
        | error e =>
          rw [hinst,hpassword,hdata,hsocket] at h
          cases h
        | ok socketDir =>
          exact ⟨utf8Path_ok_inv hinst,utf8Path_ok_inv hpassword,utf8Path_ok_inv hdata,
            utf8Path_mapM_inv hsocket⟩

/-- Equal but for the timeout, of which a part of a second may be lost. -/
structure SameButFraction (received settings : Settings V) : Prop where
  same : { received with timeout := settings.timeout }.Same settings
  timeout : (∀ d ∈ settings.timeout, d.nanos = 0) → received.timeout = settings.timeout

theorem SameButFraction.dataDir {received : Settings V} (h : SameButFraction received settings) :
    received.dataDir = settings.dataDir := by
  have hdata := congrArg Settings.dataDir h.same.1
  exact hdata

/-- What the worker decodes says what the request says. -/
theorem received_says {payload : WorkerPayload V} (hwire : wire.Faithful settings vars)
    (hnew : WorkerPayload.new settings vars = .ok payload) :
    payload.received wire = some (payload.restored wire) ∧
      SameButFraction (payload.restored wire).settings.intoSettings settings ∧
      (payload.restored wire).exposed = vars := by
  obtain ⟨payload',hnew',hsettings,hexposed⟩ := WorkerPayload.new_eq (utf8Paths_of_new hnew) vars
  obtain rfl := Except.ok.inj (hnew'.symm.trans hnew)
  have htimeout : payload'.settings.timeoutSecs = settings.timeout :=
    congrArg Settings.timeout hsettings
  have hconfiguration : payload'.settings.configuration = settings.configuration :=
    congrArg Settings.configuration hsettings
  refine ⟨WorkerPayload.received_eq hwire hnew hsettings,⟨⟨?_,fun key => ?_⟩,fun hwhole => ?_⟩,
    hexposed⟩
  · rw [← hsettings]
    rfl
  · rw [← hconfiguration]
    exact ofEntries_get payload'.settings.configuration key
  · rw [← htimeout]
    exact (restored_timeout (htimeout ▸ hwire.seconds)).mpr (htimeout ▸ hwhole)

end Received

/-! ### From one end to the other -/

section EndToEnd
variable {V : Type} {wire : Wire V} {readConfig : Text → Except Text Bytes}

/-- What a prepared job was made of. -/
structure Prepared (wire : Wire V) (readConfig : Text → Except Text Bytes) (op : WorkerOperation)
    (path : Bytes) (env : Environment) (bytes : Bytes) (payload : WorkerPayload V) (job : Job V) :
    Prop where
  read : ∃ cfg, encodeUtf8 cfg = path ∧ readConfig cfg = .ok bytes
  parsed : (wire.parse bytes).bind (WorkerPayload.fromJson wire) = some payload
  operation : job.operation = operationOf op
  settings : job.settings = payload.settings.intoSettings
  dataDir : decodeUtf8 job.settings.dataDir = some job.dataDir
  environment : applyWorkerEnvironment payload.environment env = some job.environment

theorem prepareJob_inv {program path : Bytes} {op : WorkerOperation} {env : Environment}
    {job : Job V}
    (h : prepareJob wire readConfig (program :: [encodeUtf8 op.asStr,path]) env = .ok (some job)) :
    ∃ bytes payload, Prepared wire readConfig op path env bytes payload job := by
  unfold prepareJob at h
  cases hargs : parseArgs (program :: [encodeUtf8 op.asStr,path]) with
  | error e =>
    rw [hargs] at h
    cases h
  | ok parsed =>
    obtain ⟨o,cfg⟩ := parsed
    obtain ⟨rfl,hcfg⟩ := parseArgs_inv hargs
    cases hload : loadPayload wire readConfig cfg with
    | error e =>
      simp only [hargs,hload,bind,Except.bind] at h
      cases h
    | ok payload =>
      cases hdata : extractDataDir payload.settings.intoSettings with
      | error e =>
        simp only [hargs,hload,hdata,bind,Except.bind] at h
        cases h
      | ok dataDir =>
        simp only [hargs,hload,hdata,bind,Except.bind,Except.ok.injEq] at h
        obtain ⟨environment,henv,rfl⟩ := Option.map_eq_some_iff.mp h
        unfold loadPayload at hload
        cases hread : readConfig cfg with
        | error e =>
          rw [hread] at hload
          cases hload
        | ok bytes =>
          rw [hread] at hload
          refine ⟨bytes,payload,⟨cfg,hcfg,hread⟩,?_,rfl,rfl,?_,henv⟩
          · dsimp only at hload
            split at hload
            · cases hload
            · next hparsed =>
              cases hload
              exact hparsed
          · unfold extractDataDir at hdata
            split at hdata
            · cases hdata
            · next hdecoded =>
              cases hdata
              exact hdecoded

theorem main_success {perform : Job V → Except WorkerError Unit} {args : List Bytes}
    {env : Environment} (h : (main wire readConfig perform args env).success = true) :
    ∃ job, prepareJob wire readConfig args env = .ok (some job) ∧ perform job = .ok () := by
  unfold main at h
  split at h
  · cases h
  · cases h
  · next job hjob =>
    refine ⟨job,hjob,?_⟩
    split at h
    · cases h
    · next hperform => exact hperform

/-- The payload file is its owner's alone. -/
def mayRead (c : Credentials) (file : PayloadFile) : Prop := c.ids.uid = 0 ∨ c.ids.uid = file.owner.uid

/-- Reading the payload fails, or gives what the file held when the worker was started. -/
def ReadsPayload (path : Bytes) (l : Launch) (readConfig : Text → Except Text Bytes) : Prop :=
  ∀ cfg bytes, encodeUtf8 cfg = path → readConfig cfg = .ok bytes →
    ∃ file, l.payload = some file ∧ file.content = bytes ∧ mayRead l.credentials file

/-- `pg_worker` as a worker: it ends by itself, or a signal ends it. -/
inductive Exits (wire : Wire V) (perform : Job V → Except WorkerError Unit) (program path : Bytes)
    (env : Environment) (l : Launch) : ExitStatus → Prop where
  | main {readConfig : Text → Except Text Bytes} (hread : ReadsPayload path l readConfig) :
      Exits wire perform program path env l
        (PgWorker.main wire readConfig perform (program :: l.args) env)
  | killed (n : Nat) : Exits wire perform program path env l (.signal n)

/-- What the worker has done for the request. -/
structure Performed (perform : Job V → Except WorkerError Unit) (env : Environment)
    (request : WorkerRequest V) (job : Job V) : Prop where
  performed : perform job = .ok ()
  operation : job.operation = operationOf request.operation
  settings : SameButFraction job.settings request.settings
  dataDir : encodeUtf8 job.dataDir = request.settings.dataDir
  environment : ∀ key, job.environment key = (lastAssigned request.envVars key).getD (env key)

theorem performed_of_exit {perform : Job V → Except WorkerError Unit} {program path : Bytes}
    {env : Environment} {request : WorkerRequest V} {parent : Credentials} {kept : Bool}
    {bytes : Bytes} {l : Launch} {status : ExitStatus}
    (hwire : wire.Faithful request.settings request.envVars)
    (hbytes : payloadBytes wire request = .ok bytes)
    (hstarted : Started (workerArgs request path) bytes parent kept l)
    (hexits : Exits wire perform program path env l status) (hsuccess : status.success = true) :
    ∃ job, Performed perform env request job := by
  cases hexits with
  | killed n => cases hsuccess
  | main hread =>
    obtain ⟨job,hjob,hperform⟩ := main_success hsuccess
    rw [hstarted.args] at hjob
    obtain ⟨found,payload,hprepared⟩ := prepareJob_inv hjob
    obtain ⟨cfg,hcfg,hfound⟩ := hprepared.read
    obtain ⟨file,hfile,rfl,-⟩ := hread cfg found hcfg hfound
    rw [hstarted.payload] at hfile
    cases hfile
    -- what the worker parses is what the parent printed
    cases hnew : WorkerPayload.new request.settings request.envVars with
    | error e =>
      rw [payloadBytes,hnew] at hbytes
      cases hbytes
    | ok sent =>
      rw [payloadBytes,hnew] at hbytes
      cases hbytes
      obtain ⟨hreceived,hsame,hexposed⟩ := received_says hwire hnew
      obtain rfl := Option.some.inj (hprepared.parsed.symm.trans hreceived)
      have hsettings := hprepared.settings ▸ hsame
      refine ⟨job,hperform,hprepared.operation,hsettings,?_,fun key => ?_⟩
      · rw [encodeUtf8_of_decodeUtf8 hprepared.dataDir]
        exact hsettings.dataDir
      · rw [applyWorkerEnvironment_get hprepared.environment key]
        exact congrArg (fun vars => (lastAssigned vars key).getD (env key)) hexposed

/-- A worker that can read its payload and may set its variables gets to the operation. -/
theorem main_performs {perform : Job V → Except WorkerError Unit} {program path : Bytes}
    {op : WorkerOperation} {env env' : Environment} {cfg dataDir : Text} {bytes : Bytes}
    {payload : WorkerPayload V} (hcfg : decodeUtf8 path = some cfg)
    (hread : readConfig cfg = .ok bytes)
    (hparsed : (wire.parse bytes).bind (WorkerPayload.fromJson wire) = some payload)
    (hdata : decodeUtf8 payload.settings.intoSettings.dataDir = some dataDir)
    (henv : applyWorkerEnvironment payload.environment env = some env')
    (hperform : ∀ job, perform job = .ok ()) :
    main wire readConfig perform (program :: [encodeUtf8 op.asStr,path]) env = .code 0 := by
  have hargs : parseArgs (program :: [encodeUtf8 op.asStr,path]) = .ok (operationOf op,cfg) := by
    simp only [parseArgs,List.drop_one,List.tail_cons,parse_asStr,parsePath,hcfg]
  have hload : loadPayload wire readConfig cfg = .ok payload := by
    rw [loadPayload,hread]
    dsimp only
    rw [hparsed]
  have hjob : prepareJob wire readConfig (program :: [encodeUtf8 op.asStr,path]) env =
      .ok (some ⟨operationOf op,payload.settings.intoSettings,dataDir,env'⟩) := by
    simp only [prepareJob,hargs,hload,extractDataDir,hdata,henv,bind,Except.bind,Option.map_some]
  simp only [main,hjob,hperform]

end EndToEnd

/-! ### One run -/

def alwaysWorks (_ : Job ExactVersion) : Except WorkerError Unit := .ok ()

theorem sampleWire_faithful :
    sampleWire.Faithful sampleRequest.settings sampleRequest.envVars :=
  sampleSettings_faithful (by decide)

theorem new_environment {V : Type} {settings : Settings V} {vars : List (Text × Option Text)}
    {payload : WorkerPayload V} (h : WorkerPayload.new settings vars = .ok payload) :
    payload.environment = vars.map fun entry => (entry.1,entry.2.map PlainSecret.mk) := by
  rw [WorkerPayload.new] at h
  cases htry : SettingsSnapshot.tryFrom settings with
  | error e =>
    rw [htry] at h
    cases h
  | ok snapshot =>
    rw [htry] at h
    cases h
    rfl

/-- Root asks for a setup, the worker becomes nobody and sets up. -/
theorem sampleRun : ∃ w, (host (Exits sampleWire alwaysWorks (ascii "pg_worker") samplePath
    (fun _ => none)) root).Runs (run sampleWire sampleRequest samplePath)
      Subprocess.World.initial (.ok ()) w := by
  obtain ⟨payload,hnew,hsettings,-⟩ :=
    WorkerPayload.new_eq (sampleSettings_utf8 wholeTimeout) sampleEnvironment
  obtain ⟨hreceived,hsame,-⟩ := received_says sampleWire_faithful hnew
  obtain ⟨cfg,hcfg⟩ : ∃ cfg, decodeUtf8 samplePath = some cfg :=
    Option.isSome_iff_exists.mp (by decide +kernel)
  obtain ⟨dataDir,hdata⟩ : ∃ text, decodeUtf8 sampleRequest.settings.dataDir = some text :=
    Option.isSome_iff_exists.mp (sampleSettings_utf8 wholeTimeout).dataDir
  rw [← hsame.dataDir] at hdata
  obtain ⟨env,henv⟩ : ∃ env, applyWorkerEnvironment
      (payload.restored sampleWire).environment (fun _ => none) = some env := by
    change ∃ env, applyWorkerEnvironment payload.environment (fun _ => none) = some env
    rw [new_environment hnew]
    exact ⟨_,rfl⟩
  have hmain : PgWorker.main sampleWire
      (fun _ => .ok (sampleWire.print (payload.toJson sampleWire))) alwaysWorks
      (ascii "pg_worker" :: workerArgs sampleRequest samplePath) (fun _ => none) = .code 0 :=
    main_performs hcfg rfl hreceived hdata henv (fun _ => rfl)
  have hexits : Exits sampleWire alwaysWorks (ascii "pg_worker") samplePath (fun _ => none)
      ⟨workerArgs sampleRequest samplePath,⟨nobody,[]⟩,
        some ⟨sampleWire.print (payload.toJson sampleWire),nobody⟩⟩ (.code 0) :=
    hmain ▸ .main (fun _ _ _ h => ⟨_,rfl,Except.ok.inj h,.inr rfl⟩)
  exact ⟨_,run_runs hnew rfl hexits⟩

end PgEmbedSetup.Worker.PgWorker
