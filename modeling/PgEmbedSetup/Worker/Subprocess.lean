import PgEmbedSetup.Library.Process
import PgEmbedSetup.Worker.Output
import PgEmbedSetup.Worker.Payload

set_option autoImplicit false

/-!
`src/worker_process/mod.rs` and `privileges.rs`: one operation handed to a worker process, from
the payload file to the exit status. Every call may fail, and the child may exit at any time.
-/

namespace PgEmbedSetup.Worker.Subprocess
open Library

/-- A user and its group. -/
structure Ids where
  uid : Nat
  gid : Nat
  deriving DecidableEq, Repr

structure Credentials where
  ids : Ids
  groups : List Nat
  deriving DecidableEq, Repr

/-- The command as `configure_command` leaves it, and whom its `pre_exec` turns it into. -/
structure Command where
  args : List Bytes
  preExec : Option Ids

structure WorkerRequest (V : Type) where
  settings : Settings V
  envVars : List (Text × Option Text)
  operation : WorkerOperation
  timeout : Duration

inductive KillError where
  | invalidInput
  | other (error : Text)

inductive Call where
  | newTempFile
  | toWriter (content : Bytes)
  | flush
  /-- `skip_privilege_drop_for_tests`. -/
  | skipPrivilegeDrop
  | userFromName
  | chown (owner : Ids)
  | spawn (command : Command)
  | waitTimeout
  | kill
  | waitWithOutput
  /-- `TempPath::close`. -/
  | close
  /-- A `TempPath` that goes out of scope. -/
  | dropPath

abbrev Reply : Call → Type
  | .newTempFile | .toWriter _ | .flush | .chown _ | .spawn _ | .close => Except Text Unit
  | .skipPrivilegeDrop => Bool
  | .userFromName => Except Text (Option Ids)
  | .waitTimeout => Except Text (Option ExitStatus)
  | .kill => Except KillError Unit
  | .waitWithOutput => Except Text Output
  | .dropPath => Bool

abbrev Code (α : Type) := Process Call Reply α

def call (c : Call) : Code (Reply c) := Process.perform c

/-! ### The parent -/

section Parent
variable {V : Type} (wire : Wire V) (request : WorkerRequest V) (path : Bytes)

def writePayload : Code (Except Report Unit) :=
  match WorkerPayload.new request.settings request.envVars with
  | .error message => pure (.error (.new message))
  | .ok payload => do
    match ← call .newTempFile with
    | .error e => pure (.error (.context "failed to create worker payload file" e))
    | .ok () =>
      match ← call (.toWriter (wire.print (payload.toJson wire))) with
      | .error e => do
        let _ ← call .dropPath
        pure (.error (.context "failed to serialize worker payload" e))
      | .ok () =>
        match ← call .flush with
        | .error e => do
          let _ ← call .dropPath
          pure (.error (.context "failed to flush worker payload" e))
        | .ok () => pure (.ok ())

def resolveNobodyIds : Code (Except Report Ids) := do
  match ← call .userFromName with
  | .error e => pure (.error (.context "failed to resolve user 'nobody'" e))
  | .ok none => pure (.error (.new "user 'nobody' not found".toList))
  | .ok (some ids) => pure (.ok ids)

/-- What `apply_privilege_drop` arranges to happen before `exec`. -/
def applyPrivilegeDrop : Code (Except Report (Option Ids)) := do
  match ← resolveNobodyIds with
  | .error e => pure (.error e)
  | .ok ids =>
    match ← call (.chown ids) with
    | .error e => pure (.error (.context "failed to chown worker payload to nobody" e))
    | .ok () => pure (.ok (some ids))

def applyUnix : Code (Except Report (Option Ids)) := do
  if ← call .skipPrivilegeDrop then pure (.ok none) else applyPrivilegeDrop

def configureCommand : Code (Except Report Command) := do
  match ← applyUnix with
  | .error e => pure (.error e)
  | .ok preExec => pure (.ok ⟨[encodeUtf8 request.operation.asStr,path],preExec⟩)

def waitErrorMessage (error : Text) (kill : Except KillError Unit) (output : Except Text Output)
    (killText : KillError → Text) : Text :=
  let message := "failed to wait for worker command: ".toList ++ error
  let message := match kill with
    | .ok () => message
    | .error e => appendErrorContext message "additionally failed to terminate worker" (killText e)
  match output with
  | .ok _ => message
  | .error e => appendErrorContext message "additionally failed to reap worker output" e

/-- How the kill error of a child that has already exited displays. -/
def KillError.text : KillError → Text
  | .invalidInput => "invalid argument: can't kill an exited process".toList
  | .other e => e

def handleWaitError (error : Text) : Code (Except Report Output) := do
  let killResult ← call .kill
  let waitResult ← call .waitWithOutput
  pure (.error (.new (waitErrorMessage error killResult waitResult KillError.text)))

def handleTimeout : Code (Except Report Unit) := do
  match ← call .kill with
  | .ok () | .error .invalidInput => pure (.ok ())
  | .error (.other e) =>
    pure (.error (.new ("failed to terminate worker after ".toList ++
      decimal request.timeout.secs ++ "s: ".toList ++ e)))

def timeoutContext : Text :=
  request.operation.errorContext ++ " timed out after ".toList ++ decimal request.timeout.secs ++
    "s".toList

/-- `wait_with_output` and what is made of it. -/
def collectOutput (timedOut : Bool) : Code (Except Report Output) := do
  match ← call .waitWithOutput with
  | .error e => pure (.error (.context "failed to collect worker output" e))
  | .ok output =>
    if timedOut then pure (.error (renderFailure (timeoutContext request) output))
    else pure (.ok output)

/-- What `run_command_with_timeout` does once the child is there. -/
def awaitOutput : Code (Except Report Output) := do
  match ← call .waitTimeout with
  | .error e => handleWaitError e
  | .ok (some _) => collectOutput request false
  | .ok none => do
    match ← handleTimeout request with
    | .error e => pure (.error e)
    | .ok () => collectOutput request true

def runCommandWithTimeout (command : Command) : Code (Except Report Output) := do
  match ← call (.spawn command) with
  | .error e => pure (.error (.context "failed to spawn worker command" e))
  | .ok () => awaitOutput request

def closePayload : Code (Except Report Unit) := do
  match ← call .close with
  | .error e => pure (.error (.context "failed to clean up worker payload file" e))
  | .ok () => pure (.ok ())

def runWorker (command : Command) : Code (Except Report Output) := do
  let runResult ← runCommandWithTimeout request command
  let cleanupResult ← closePayload
  match runResult, cleanupResult with
  | .ok output, .ok () => pure (.ok output)
  | .error e, .ok () | .ok _, .error e => pure (.error e)
  | .error runErr, .error cleanupErr => pure (.error (combineErrors runErr cleanupErr))

def handleExit (output : Output) : Except Report Unit :=
  if output.status.success then .ok ()
  else .error (renderFailure request.operation.errorContext output)

def exitOf : Except Report Output → Except Report Unit
  | .error e => .error e
  | .ok output => handleExit request output

def run : Code (Except Report Unit) := do
  match ← writePayload wire request with
  | .error e => pure (.error e)
  | .ok () =>
    match ← configureCommand request path with
    | .error e => do
      let _ ← call .dropPath
      pure (.error e)
    | .ok command => do
      let output ← runWorker request command
      pure (exitOf request output)

end Parent

/-! ### The host -/

/-- The kernel lets only root change groups, and others keep what they have. -/
def setgroups (c : Credentials) : Option Credentials :=
  if c.ids.uid = 0 then some { c with groups := [] } else none

def setgid (gid : Nat) (c : Credentials) : Option Credentials :=
  if c.ids.uid = 0 ∨ c.ids.gid = gid then some { c with ids.gid := gid } else none

def setuid (uid : Nat) (c : Credentials) : Option Credentials :=
  if c.ids.uid = 0 ∨ c.ids.uid = uid then some { c with ids.uid := uid } else none

/-- The closure of `configure_pre_exec`. -/
def preExec (ids : Ids) (c : Credentials) : Option Credentials := do
  let c ← setgroups c
  let c ← setgid ids.gid c
  setuid ids.uid c

structure PayloadFile where
  content : Bytes
  owner : Ids
  deriving DecidableEq, Repr

/-- A worker as it begins. -/
structure Launch where
  args : List Bytes
  credentials : Credentials
  payload : Option PayloadFile
  deriving DecidableEq, Repr

inductive Child where
  | none
  | running (l : Launch)
  | exited (l : Launch) (status : ExitStatus)
  | reaped (l : Launch) (status : ExitStatus)
  deriving DecidableEq, Repr

def Child.status : Child → Option ExitStatus
  | .none | .running _ => Option.none
  | .exited _ status | .reaped _ status => some status

def Child.launch : Child → Option Launch
  | .none => Option.none
  | .running l | .exited l _ | .reaped l _ => some l

inductive Fault where
  | create
  | write
  | flush
  | lookup
  | chown
  | spawn
  | wait
  | kill
  | collect
  | close
  | drop
  deriving DecidableEq, Repr

/-- `faults` holds the calls that failed, `timedOut` that a deadline passed and `kept` that the
privileges were to be kept. -/
structure World where
  payload : Option PayloadFile
  child : Child
  faults : List Fault
  timedOut : Bool
  kept : Bool
  deriving DecidableEq, Repr

def World.initial : World := ⟨none,.none,[],false,false⟩

def World.fault (w : World) (f : Fault) : World := { w with faults := w.faults ++ [f] }

def launched (parent : Credentials) (command : Command) : Option Credentials :=
  match command.preExec with
  | none => some parent
  | some ids => preExec ids parent

/-- The child has exited, and its status can be had. -/
def World.waited (w : World) (status : ExitStatus) : Option World :=
  match w.child with
  | .exited l s | .reaped l s =>
    if s = status then some { w with child := .reaped l s } else none
  | .none | .running _ => none

def World.chown (w : World) (owner : Ids) : World :=
  { w with payload := w.payload.map fun file => { file with owner } }

def killed (w : World) : Except KillError Unit → Option World
  | .ok () => some w
  | .error .invalidInput =>
    match w.child with
    | .running _ => none
    | _ => some w
  | .error (.other _) => some (w.fault .kill)

/-- The answers a call may get and what it does. -/
def answer (parent : Credentials) (w : World) : (c : Call) → Reply c → Option World
  | .newTempFile, .ok () => some { w with payload := some ⟨[],parent.ids⟩ }
  | .newTempFile, .error _ => some (w.fault .create)
  | .toWriter content, .ok () =>
    some { w with payload := w.payload.map fun file => { file with content } }
  | .toWriter _, .error _ => some (w.fault .write)
  | .flush, .ok () => some w
  | .flush, .error _ => some (w.fault .flush)
  | .skipPrivilegeDrop, skip => some { w with kept := skip }
  | .userFromName, .ok _ => some w
  | .userFromName, .error _ => some (w.fault .lookup)
  | .chown owner, .ok () => some (w.chown owner)
  | .chown _, .error _ => some (w.fault .chown)
  | .spawn command, .ok () =>
    (launched parent command).map fun credentials =>
      { w with child := .running ⟨command.args,credentials,w.payload⟩ }
  | .spawn _, .error _ => some (w.fault .spawn)
  | .waitTimeout, .ok (some status) => w.waited status
  | .waitTimeout, .ok none => some { w with timedOut := true }
  | .waitTimeout, .error _ => some (w.fault .wait)
  | .kill, r => killed w r
  | .waitWithOutput, .ok output => w.waited output.status
  | .waitWithOutput, .error _ => some (w.fault .collect)
  | .close, .ok () => some { w with payload := none }
  | .close, .error _ => some (w.fault .close)
  | .dropPath, true => some { w with payload := none }
  | .dropPath, false => some (w.fault .drop)

/-- What the child does meanwhile: nothing, or it exits as `worker` allows. -/
inductive Meanwhile (worker : Launch → ExitStatus → Prop) (w : World) : World → Prop where
  | same : Meanwhile worker w w
  | exits {l : Launch} {status : ExitStatus} (hchild : w.child = .running l)
      (hworker : worker l status) : Meanwhile worker w { w with child := .exited l status }

def host (worker : Launch → ExitStatus → Prop) (parent : Credentials) : Outline Call Reply World where
  ok _ _ := True
  next w c r w' := ∃ w₁, Meanwhile worker w w₁ ∧ answer parent w₁ c r = some w'
  final _ := True

/-! ### What a run leaves behind -/

/-- The words by which a failed call can be told from the error. -/
def Fault.label : Fault → Text
  | .create => "failed to create worker payload file".toList
  | .write => "failed to serialize worker payload".toList
  | .flush => "failed to flush worker payload".toList
  | .lookup => "failed to resolve user 'nobody'".toList
  | .chown => "failed to chown worker payload to nobody".toList
  | .spawn => "failed to spawn worker command".toList
  | .wait => "failed to wait for worker command".toList
  | .kill => "failed to terminate worker".toList
  | .collect => "worker output".toList
  | .close => "failed to clean up worker payload file".toList
  | .drop => []

def Reported (w : World) (e : Report) : Prop :=
  ∀ f ∈ w.faults, f ≠ .drop → f.label <:+: e.message

/-- The child as it was started: with the payload, and as the user it belongs to. -/
structure Started (args : List Bytes) (content : Bytes) (parent : Credentials) (kept : Bool)
    (l : Launch) : Prop where
  args : l.args = args
  payload : l.payload = some ⟨content,l.credentials.ids⟩
  credentials : if kept then l.credentials = parent else l.credentials.groups = []

structure Accounted (worker : Launch → ExitStatus → Prop) (args : List Bytes)
    (content : Except Text Bytes) (parent : Credentials) (r : Except Report Unit) (w : World) :
    Prop where
  /-- The payload goes with the run, unless its removal fails. -/
  payload : w.payload.isSome → .close ∈ w.faults ∨ .drop ∈ w.faults
  /-- So does the child, unless it cannot be ended or waited for. -/
  child : w.child = .none ∨ (∃ l status, w.child = .reaped l status) ∨
    .kill ∈ w.faults ∨ .collect ∈ w.faults
  started : ∀ l, w.child.launch = some l → ∃ bytes, content = .ok bytes ∧
    Started args bytes parent w.kept l
  exited : ∀ l status, w.child = .reaped l status → worker l status
  ok : r = .ok () ↔ w.faults = [] ∧ w.timedOut = false ∧
    ∃ l status, w.child = .reaped l status ∧ status.success = true
  reported : ∀ e, r = .error e → Reported w e

section Specs
variable {worker : Launch → ExitStatus → Prop} {parent : Credentials} {α : Type} {w : World}

theorem wp_call {c : Call} {f : Reply c → Code α} {post : α → World → Prop} :
    (host worker parent).wp (call c >>= f) post w ↔
      ∀ r w₁ w', Meanwhile worker w w₁ → answer parent w₁ c r = some w' →
        (host worker parent).wp (f r) post w' := by
  rw [call,wp_perform_bind]
  constructor
  · intro h r w₁ w' hmean hanswer
    exact h.2 r w' ⟨w₁,hmean,hanswer⟩
  · exact fun h => ⟨trivial,fun r w' ⟨w₁,hmean,hanswer⟩ => h r w₁ w' hmean hanswer⟩

/-- While no child runs nothing else happens. -/
theorem wp_call_alone {c : Call} {f : Reply c → Code α} {post : α → World → Prop}
    (hchild : ∀ l, w.child ≠ .running l)
    (h : ∀ r w', answer parent w c r = some w' → (host worker parent).wp (f r) post w') :
    (host worker parent).wp (call c >>= f) post w := by
  refine wp_call.mpr fun r w₁ w' hmean hanswer => ?_
  cases hmean with
  | same => exact h r w' hanswer
  | exits hrunning => exact absurd hrunning (hchild _)

/-! ### Up to the command -/

variable {V : Type} {wire : Wire V} {request : WorkerRequest V} {path : Bytes}

/-- What the payload file is to hold. -/
def payloadBytes (wire : Wire V) (request : WorkerRequest V) : Except Text Bytes :=
  (WorkerPayload.new request.settings request.envVars).map fun payload =>
    wire.print (payload.toJson wire)

def workerArgs (request : WorkerRequest V) (path : Bytes) : List Bytes :=
  [encodeUtf8 request.operation.asStr,path]

inductive Written (wire : Wire V) (request : WorkerRequest V) (parent : Credentials) :
    Except Report Unit → World → Prop where
  | ok {bytes : Bytes} (hbytes : payloadBytes wire request = .ok bytes) :
      Written wire request parent (.ok ()) ⟨some ⟨bytes,parent.ids⟩,.none,[],false,false⟩
  | error {e : Report} {w : World} (hchild : w.child = .none)
      (hpayload : w.payload.isSome → .drop ∈ w.faults) (hreported : Reported w e) :
      Written wire request parent (.error e) w

theorem reported_one {f : Fault} {e : Report} {w : World} (hfaults : w.faults = [f])
    (h : f.label <:+: e.message) : Reported w e := by
  intro g hg _
  rw [hfaults] at hg
  rwa [List.mem_singleton.mp hg]

/-- The file is taken away again, and whether it goes or stays no more need be said. -/
theorem reported_drop {f : Fault} {e : Report} {w w' : World} {removed : Bool}
    (hfaults : w.faults = [f]) (h : f.label <:+: e.message)
    (hanswer : answer parent w .dropPath removed = some w') : Reported w' e ∧
      (w'.payload.isSome → .drop ∈ w'.faults) ∧ w'.child = w.child := by
  cases removed with
  | true =>
    cases hanswer
    exact ⟨reported_one hfaults h,fun hsome => absurd hsome (by simp),rfl⟩
  | false =>
    cases hanswer
    refine ⟨fun g hg hne => ?_,fun _ => by simp [World.fault],rfl⟩
    rw [World.fault,hfaults] at hg
    rcases List.mem_cons.mp hg with rfl | hg
    · exact h
    · exact absurd (List.mem_singleton.mp hg) hne

theorem writePayload_spec : (host worker parent).wp (writePayload wire request)
    (fun r w => Written wire request parent r w) World.initial := by
  unfold writePayload
  cases hnew : WorkerPayload.new request.settings request.envVars with
  | error message => exact .error rfl (fun h => by cases h) (fun f hf => by cases hf)
  | ok payload =>
    have hbytes : payloadBytes wire request = .ok (wire.print (payload.toJson wire)) := by
      rw [payloadBytes,hnew]
      rfl
    refine wp_call_alone (fun _ h => by cases h) fun r w₁ h₁ => ?_
    cases r with
    | error e =>
      cases h₁
      exact .error rfl (fun h => by cases h) (reported_one rfl List.infix_rfl)
    | ok u =>
      cases h₁
      refine wp_call_alone (fun _ h => by cases h) fun r w₂ h₂ => ?_
      cases r with
      | error e =>
        cases h₂
        refine wp_call_alone (fun _ h => by cases h) fun removed w₃ h₃ => ?_
        obtain ⟨hreported,hpayload,hchild⟩ :=
          reported_drop (f := .write) (e := .context "failed to serialize worker payload" e) rfl
            List.infix_rfl h₃
        exact .error hchild hpayload hreported
      | ok u =>
        cases h₂
        refine wp_call_alone (fun _ h => by cases h) fun r w₃ h₃ => ?_
        cases r with
        | error e =>
          cases h₃
          refine wp_call_alone (fun _ h => by cases h) fun removed w₄ h₄ => ?_
          obtain ⟨hreported,hpayload,hchild⟩ :=
            reported_drop (f := .flush) (e := .context "failed to flush worker payload" e) rfl
              List.infix_rfl h₄
          exact .error hchild hpayload hreported
        | ok u =>
          cases h₃
          exact .ok hbytes

/-- Either the privileges are kept, or the file is given to the user the worker will be. -/
inductive Configured (args : List Bytes) (bytes : Bytes) (parent : Credentials) :
    Except Report Command → World → Prop where
  | kept : Configured args bytes parent (.ok ⟨args,none⟩)
      ⟨some ⟨bytes,parent.ids⟩,.none,[],false,true⟩
  | demoted (ids : Ids) : Configured args bytes parent (.ok ⟨args,some ids⟩)
      ⟨some ⟨bytes,ids⟩,.none,[],false,false⟩
  | error {e : Report} {w : World} (hchild : w.child = .none) (hreported : Reported w e) :
      Configured args bytes parent (.error e) w

theorem configureCommand_spec (bytes : Bytes) :
    (host worker parent).wp (configureCommand request path)
      (fun r w => Configured (workerArgs request path) bytes parent r w)
      ⟨some ⟨bytes,parent.ids⟩,.none,[],false,false⟩ := by
  unfold configureCommand applyUnix
  refine wp_bind.mpr (wp_call_alone (fun _ h => by cases h) fun skip w₁ h₁ => ?_)
  cases skip with
  | true =>
    cases h₁
    exact .kept
  | false =>
    cases h₁
    refine wp_bind.mpr (wp_bind.mpr (wp_call_alone (fun _ h => by cases h) fun r w₂ h₂ => ?_))
    cases r with
    | error e =>
      cases h₂
      exact .error rfl (reported_one rfl List.infix_rfl)
    | ok found =>
      cases h₂
      cases found with
      | none => exact .error rfl (fun f hf => by cases hf)
      | some ids =>
        refine wp_call_alone (fun _ h => by cases h) fun r w₃ h₃ => ?_
        cases r with
        | error e =>
          cases h₃
          exact .error rfl (reported_one rfl List.infix_rfl)
        | ok u =>
          cases h₃
          exact .demoted ids

/-! ### The child -/

/-- The child `l` has been started with `file` for its payload. -/
structure Living (worker : Launch → ExitStatus → Prop) (file : PayloadFile) (kept : Bool)
    (l : Launch) (w : World) : Prop where
  payload : w.payload = some file
  kept : w.kept = kept
  launch : w.child.launch = some l
  exited : ∀ status, w.child.status = some status → worker l status

theorem Living.meanwhile {file : PayloadFile} {kept : Bool} {l : Launch} {w₁ : World}
    (hw : Living worker file kept l w) (hmean : Meanwhile worker w w₁) :
    Living worker file kept l w₁ ∧ w₁.faults = w.faults ∧ w₁.timedOut = w.timedOut := by
  cases hmean with
  | same => exact ⟨hw,rfl,rfl⟩
  | exits hchild hworker =>
    have hlaunch := hw.launch
    rw [hchild] at hlaunch
    cases hlaunch
    refine ⟨⟨hw.payload,hw.kept,rfl,?_⟩,rfl,rfl⟩
    rintro _ ⟨⟩
    exact hworker

/-- Who has been waited for has exited. -/
theorem Living.waited {file : PayloadFile} {kept : Bool} {w' : World} {l : Launch}
    {status : ExitStatus} (hw : Living worker file kept l w) (h : w.waited status = some w') :
    w' = { w with child := .reaped l status } ∧ worker l status := by
  have hlaunch := hw.launch
  have hexited := hw.exited
  unfold World.waited at h
  split at h
  · next hchild =>
    obtain ⟨rfl,hw'⟩ := Option.ite_none_right_eq_some.mp h
    rw [hchild] at hlaunch hexited
    cases hlaunch
    exact ⟨(Option.some.inj hw').symm,hexited _ rfl⟩
  · next hchild =>
    obtain ⟨rfl,hw'⟩ := Option.ite_none_right_eq_some.mp h
    rw [hchild] at hlaunch hexited
    cases hlaunch
    exact ⟨(Option.some.inj hw').symm,hexited _ rfl⟩
  · cases h
  · cases h

/-- How `run_command_with_timeout` may end, for a child `l` that is started if one is. -/
structure RanTo (worker : Launch → ExitStatus → Prop) (file : PayloadFile) (kept : Bool)
    (l : Launch) (r : Except Report Output) (w : World) : Prop where
  payload : w.payload = some file
  kept : w.kept = kept
  launch : w.child = .none ∨ w.child.launch = some l
  child : w.child = .none ∨ (∃ status, w.child = .reaped l status) ∨
    .kill ∈ w.faults ∨ .collect ∈ w.faults
  exited : ∀ status, w.child.status = some status → worker l status
  ok : ∀ output, r = .ok output →
    w.faults = [] ∧ w.timedOut = false ∧ w.child = .reaped l output.status
  error : ∀ e, r = .error e → Reported w e ∧ (w.faults ≠ [] ∨ w.timedOut = true)

variable {file : PayloadFile} {kept : Bool} {l : Launch}

theorem infix_middle {α : Type} (first middle last : List α) : middle <:+: first ++ middle ++ last :=
  ⟨first,last,rfl⟩

theorem collect_label (e : Text) :
    Fault.collect.label <:+: (Report.context "failed to collect worker output" e).message :=
  ⟨"failed to collect ".toList,[],rfl⟩

theorem collectOutput_spec {timedOut : Bool} (hw : Living worker file kept l w) (hfaults : w.faults = [])
    (htimedOut : w.timedOut = timedOut) :
    (host worker parent).wp (collectOutput request timedOut)
      (fun r w => RanTo worker file kept l r w) w := by
  unfold collectOutput
  refine wp_call.mpr fun r w₁ w' hmean hanswer => ?_
  obtain ⟨hw₁,hsame,htime⟩ := hw.meanwhile hmean
  cases r with
  | error e =>
    cases hanswer
    have hcollect : Fault.collect ∈ (w₁.fault .collect).faults := by simp [World.fault]
    refine ⟨hw₁.payload,hw₁.kept,.inr hw₁.launch,.inr (.inr (.inr hcollect)),hw₁.exited,?_,?_⟩
    · intro output h
      cases h
    · rintro _ ⟨⟩
      have hone : (w₁.fault .collect).faults = [.collect] := by
        rw [World.fault,hsame,hfaults]
        rfl
      refine ⟨reported_one hone (collect_label e),.inl (by rw [hone]; simp)⟩
  | ok output =>
    obtain ⟨rfl,hworker⟩ := hw₁.waited hanswer
    have hclean : w₁.faults = [] := hsame.trans hfaults
    have hexited : ∀ status, some output.status = some status → worker l status := by
      rintro _ ⟨⟩
      exact hworker
    cases timedOut with
    | true =>
      refine ⟨hw₁.payload,hw₁.kept,.inr rfl,.inr (.inl ⟨_,rfl⟩),hexited,?_,?_⟩
      · intro _ h
        cases h
      · rintro _ ⟨⟩
        refine ⟨fun f hf => ?_,.inr (htime.trans htimedOut)⟩
        rw [hclean] at hf
        cases hf
    | false =>
      refine ⟨hw₁.payload,hw₁.kept,.inr rfl,.inr (.inl ⟨_,rfl⟩),hexited,?_,?_⟩
      · rintro _ ⟨⟩
        exact ⟨hclean,htime.trans htimedOut,rfl⟩
      · intro _ h
        cases h

/-- The message names the wait that failed, and what failed after it. -/
theorem waitErrorMessage_names (e : Text) (kill : Except KillError Unit)
    (output : Except Text Output) :
    Fault.wait.label <:+: waitErrorMessage e kill output KillError.text ∧
      (∀ err, kill = .error err →
        Fault.kill.label <:+: waitErrorMessage e kill output KillError.text) ∧
      ∀ err, output = .error err →
        Fault.collect.label <:+: waitErrorMessage e kill output KillError.text := by
  have hwait : Fault.wait.label <:+: "failed to wait for worker command: ".toList :=
    ⟨[],": ".toList,rfl⟩
  have hkill : Fault.kill.label <:+: "additionally failed to terminate worker".toList :=
    ⟨"additionally ".toList,[],rfl⟩
  have hcollect : Fault.collect.label <:+: "additionally failed to reap worker output".toList :=
    ⟨"additionally failed to reap ".toList,[],rfl⟩
  have hgrow : ∀ (message : Text) (detail : String) (error : Text),
      message <:+: appendErrorContext message detail error ∧
        detail.toList <:+: appendErrorContext message detail error := by
    intro message detail error
    simp only [appendErrorContext]
    refine ⟨⟨[],"; ".toList ++ detail.toList ++ ": ".toList ++ error,?_⟩,
      ⟨message ++ "; ".toList,": ".toList ++ error,?_⟩⟩ <;>
      simp only [List.nil_append,List.append_assoc]
  have hbase : Fault.wait.label <:+: "failed to wait for worker command: ".toList ++ e :=
    hwait.trans (List.prefix_append _ _).isInfix
  cases kill with
  | ok u =>
    cases output with
    | ok out => exact ⟨hbase,fun _ h => (by cases h),fun _ h => (by cases h)⟩
    | error err =>
      have hout := hgrow ("failed to wait for worker command: ".toList ++ e)
        "additionally failed to reap worker output" err
      exact ⟨hbase.trans hout.1,fun _ h => (by cases h),fun _ _ => hcollect.trans hout.2⟩
  | error killErr =>
    have hkilled := hgrow ("failed to wait for worker command: ".toList ++ e)
      "additionally failed to terminate worker" killErr.text
    cases output with
    | ok out =>
      exact ⟨hbase.trans hkilled.1,fun _ _ => hkill.trans hkilled.2,fun _ h => (by cases h)⟩
    | error err =>
      have hout := hgrow (appendErrorContext ("failed to wait for worker command: ".toList ++ e)
        "additionally failed to terminate worker" killErr.text)
        "additionally failed to reap worker output" err
      exact ⟨(hbase.trans hkilled.1).trans hout.1,fun _ _ => (hkill.trans hkilled.2).trans hout.1,
        fun _ _ => hcollect.trans hout.2⟩

/-- A kill that does not work is on record, unless the child had exited before. -/
theorem killed_some {w' : World} {r : Except KillError Unit} (h : killed w r = some w') :
    w' = w ∧ (∀ e, r ≠ .error (.other e)) ∨ ∃ e, r = .error (.other e) ∧ w' = w.fault .kill := by
  unfold killed at h
  split at h
  · exact .inl ⟨(Option.some.inj h).symm,fun e he => (by cases he)⟩
  · split at h
    · cases h
    · exact .inl ⟨(Option.some.inj h).symm,fun e he => (by cases he)⟩
  · next e => exact .inr ⟨e,rfl,(Option.some.inj h).symm⟩

theorem Living.killed {w' : World} {r : Except KillError Unit} (hw : Living worker file kept l w)
    (h : killed w r = some w') : Living worker file kept l w' ∧ w'.timedOut = w.timedOut ∧
      (w'.faults = w.faults ∨ (∃ e, r = .error e) ∧ w'.faults = w.faults ++ [.kill]) := by
  rcases killed_some h with ⟨rfl,-⟩ | ⟨e,rfl,rfl⟩
  · exact ⟨hw,rfl,.inl rfl⟩
  · exact ⟨⟨hw.payload,hw.kept,hw.launch,hw.exited⟩,rfl,.inr ⟨⟨_,rfl⟩,rfl⟩⟩

theorem handleWaitError_spec {e : Text} (hw : Living worker file kept l w) (hfaults : w.faults = [.wait]) :
    (host worker parent).wp (handleWaitError e) (fun r w => RanTo worker file kept l r w) w := by
  unfold handleWaitError
  refine wp_call.mpr fun kill w₁ w₂ hmean hanswer => ?_
  obtain ⟨hw₁,hsame₁,-⟩ := hw.meanwhile hmean
  obtain ⟨hw₂,-,hkill⟩ := hw₁.killed hanswer
  refine wp_call.mpr fun output w₃ w₄ hmean₃ hanswer₃ => ?_
  obtain ⟨hw₃,hsame₃,-⟩ := hw₂.meanwhile hmean₃
  obtain ⟨hwait,hkillName,hcollectName⟩ := waitErrorMessage_names e kill output
  -- what is on record by now is named by the message
  have hnamed : ∀ f ∈ w₃.faults, f.label <:+: waitErrorMessage e kill output KillError.text := by
    intro f hf
    rw [hsame₃] at hf
    rcases hkill with hsame | ⟨⟨err,herr⟩,hsame⟩
    · rw [hsame,hsame₁,hfaults] at hf
      rw [List.mem_singleton.mp hf]
      exact hwait
    · rw [hsame,hsame₁,hfaults] at hf
      rcases List.mem_append.mp hf with hf | hf
      · rw [List.mem_singleton.mp hf]
        exact hwait
      · rw [List.mem_singleton.mp hf]
        exact hkillName err herr
  have hrecorded : w₃.faults ≠ [] := by
    rw [hsame₃]
    rcases hkill with hsame | ⟨-,hsame⟩ <;> rw [hsame,hsame₁,hfaults] <;> simp
  cases output with
  | ok out =>
    obtain ⟨rfl,hworker⟩ := hw₃.waited hanswer₃
    refine ⟨hw₃.payload,hw₃.kept,.inr rfl,.inr (.inl ⟨_,rfl⟩),?_,fun _ h => (by cases h),?_⟩
    · rintro _ ⟨⟩
      exact hworker
    rintro _ ⟨⟩
    exact ⟨fun f hf _ => hnamed f hf,.inl hrecorded⟩
  | error err =>
    cases hanswer₃
    have hcollect : Fault.collect ∈ (w₃.fault .collect).faults := by simp [World.fault]
    refine ⟨hw₃.payload,hw₃.kept,.inr hw₃.launch,.inr (.inr (.inr hcollect)),hw₃.exited,
      fun _ h => (by cases h),?_⟩
    rintro _ ⟨⟩
    refine ⟨fun f hf _ => ?_,.inl (fun h => by rw [h] at hcollect; cases hcollect)⟩
    rcases List.mem_append.mp hf with hf | hf
    · exact hnamed f hf
    · rw [List.mem_singleton.mp hf]
      exact hcollectName err rfl

/-- A child that is past its deadline and cannot be killed is left alone. -/
theorem handleTimeout_spec (hw : Living worker file kept l w) (hfaults : w.faults = [])
    (htimedOut : w.timedOut = true) :
    (host worker parent).wp (handleTimeout request) (fun r w =>
      Living worker file kept l w ∧ w.timedOut = true ∧ (r = .ok () ∧ w.faults = [] ∨
        ∃ e, r = .error e ∧ w.faults = [.kill] ∧ Fault.kill.label <:+: e.message)) w := by
  unfold handleTimeout
  refine wp_call.mpr fun kill w₁ w₂ hmean hanswer => ?_
  obtain ⟨hw₁,hsame,htime⟩ := hw.meanwhile hmean
  have hclean : w₁.faults = [] := hsame.trans hfaults
  have hlate : w₁.timedOut = true := htime.trans htimedOut
  cases kill with
  | ok u =>
    cases hanswer
    exact ⟨hw₁,hlate,.inl ⟨rfl,hclean⟩⟩
  | error err =>
    cases err with
    | invalidInput =>
      have hkilled : killed w₁ (.error .invalidInput) = some w₂ := hanswer
      obtain ⟨rfl,-⟩ | ⟨_,hother,-⟩ := killed_some hkilled
      · exact ⟨hw₁,hlate,.inl ⟨rfl,hclean⟩⟩
      · cases hother
    | other e =>
      cases hanswer
      refine ⟨⟨hw₁.payload,hw₁.kept,hw₁.launch,hw₁.exited⟩,hlate,.inr ⟨_,rfl,?_,?_⟩⟩
      · rw [World.fault,hclean]
        rfl
      · have hlabel : Fault.kill.label <:+: "failed to terminate worker after ".toList :=
          ⟨[]," after ".toList,rfl⟩
        refine hlabel.trans ?_
        simp only [Report.new,List.append_assoc]
        exact (List.prefix_append _ _).isInfix

theorem awaitOutput_spec (hw : Living worker file kept l w) (hfaults : w.faults = [])
    (htimedOut : w.timedOut = false) :
    (host worker parent).wp (awaitOutput request) (fun r w => RanTo worker file kept l r w) w := by
  unfold awaitOutput
  refine wp_call.mpr fun r w₁ w₂ hmean hanswer => ?_
  obtain ⟨hw₁,hsame,htime⟩ := hw.meanwhile hmean
  have hclean : w₁.faults = [] := hsame.trans hfaults
  cases r with
  | error e =>
    cases hanswer
    refine handleWaitError_spec ⟨hw₁.payload,hw₁.kept,hw₁.launch,hw₁.exited⟩ ?_
    rw [World.fault,hclean]
    rfl
  | ok waited =>
    cases waited with
    | some status =>
      obtain ⟨rfl,hworker⟩ := hw₁.waited hanswer
      refine collectOutput_spec ⟨hw₁.payload,hw₁.kept,rfl,?_⟩ hclean (htime.trans htimedOut)
      rintro _ ⟨⟩
      exact hworker
    | none =>
      cases hanswer
      refine wp_bind.mpr (wp_mono (handleTimeout_spec
        ⟨hw₁.payload,hw₁.kept,hw₁.launch,hw₁.exited⟩ hclean rfl) fun r w₃ h₃ => ?_)
      obtain ⟨hw₃,hlate,⟨rfl,hclean₃⟩ | ⟨e,rfl,hkill,hlabel⟩⟩ := h₃
      · exact collectOutput_spec hw₃ hclean₃ hlate
      · have hmem : Fault.kill ∈ w₃.faults := by simp [hkill]
        refine ⟨hw₃.payload,hw₃.kept,.inr hw₃.launch,.inr (.inr (.inl hmem)),hw₃.exited,
          fun _ h => (by cases h),?_⟩
        rintro _ ⟨⟩
        exact ⟨reported_one hkill hlabel,.inr hlate⟩

theorem runCommandWithTimeout_spec {command : Command} :
    (host worker parent).wp (runCommandWithTimeout request command)
      (fun r w => ∃ credentials, (w.child ≠ .none → launched parent command = some credentials) ∧
        RanTo worker file kept ⟨command.args,credentials,some file⟩ r w)
      ⟨some file,.none,[],false,kept⟩ := by
  unfold runCommandWithTimeout
  refine wp_call_alone (fun _ h => by cases h) fun r w₁ h₁ => ?_
  cases r with
  | error e =>
    cases h₁
    refine ⟨parent,fun h => absurd rfl h,rfl,rfl,.inl rfl,.inl rfl,fun _ h => (by cases h),
      fun _ h => (by cases h),?_⟩
    rintro _ ⟨⟩
    exact ⟨reported_one rfl List.infix_rfl,.inl (by simp [World.fault])⟩
  | ok u =>
    obtain ⟨credentials,hlaunched,rfl⟩ := Option.map_eq_some_iff.mp h₁
    have hliving : Living worker file kept ⟨command.args,credentials,some file⟩
        ⟨some file,.running ⟨command.args,credentials,some file⟩,[],false,kept⟩ :=
      ⟨rfl,rfl,rfl,fun _ h => (by cases h)⟩
    exact wp_mono (awaitOutput_spec hliving rfl rfl)
      fun r w hran => ⟨credentials,fun _ => hlaunched,hran⟩

/-! ### The whole run -/

/-- `run_worker` adds the removal of the payload, whatever became of the child. -/
structure Finished (worker : Launch → ExitStatus → Prop) (file : PayloadFile) (kept : Bool)
    (l : Launch) (r : Except Report Output) (w : World) : Prop where
  payload : w.payload.isSome → .close ∈ w.faults
  kept : w.kept = kept
  launch : w.child = .none ∨ w.child.launch = some l
  child : w.child = .none ∨ (∃ status, w.child = .reaped l status) ∨
    .kill ∈ w.faults ∨ .collect ∈ w.faults
  exited : ∀ status, w.child.status = some status → worker l status
  ok : ∀ output, r = .ok output →
    w.faults = [] ∧ w.timedOut = false ∧ w.child = .reaped l output.status
  error : ∀ e, r = .error e → Reported w e ∧ (w.faults ≠ [] ∨ w.timedOut = true)

theorem RanTo.meanwhile {r : Except Report Output} {w₁ : World} (hran : RanTo worker file kept l r w)
    (hmean : Meanwhile worker w w₁) : RanTo worker file kept l r w₁ := by
  cases hmean with
  | same => exact hran
  | @exits l' status hchild hworker =>
    have hlaunch : some l' = some l := by
      rcases hran.launch with h | h
      · rw [hchild] at h
        cases h
      · rw [hchild] at h
        exact h
    cases hlaunch
    refine ⟨hran.payload,hran.kept,.inr rfl,.inr (.inr ?_),?_,fun output hok => ?_,hran.error⟩
    · rcases hran.child with h | ⟨_,h⟩ | h
      · rw [hchild] at h
        cases h
      · rw [hchild] at h
        cases h
      · exact h
    · rintro _ ⟨⟩
      exact hworker
    · have h := (hran.ok output hok).2.2
      rw [hchild] at h
      cases h

theorem Meanwhile.child_none {w₁ : World} (hmean : Meanwhile worker w w₁)
    (hchild : w.child = .none) : w₁.child = .none := by
  cases hmean with
  | same => exact hchild
  | exits hrunning _ =>
    rw [hchild] at hrunning
    cases hrunning

theorem closePayload_spec {r : Except Report Output} (hran : RanTo worker file kept l r w) :
    (host worker parent).wp closePayload (fun closed w' => ∃ w₁, RanTo worker file kept l r w₁ ∧
      (w.child = .none → w₁.child = .none) ∧
      (closed = .ok () ∧ w' = { w₁ with payload := none } ∨
        ∃ e, closed = .error e ∧ w' = w₁.fault .close ∧ e.message = Fault.close.label)) w := by
  unfold closePayload
  refine wp_call.mpr fun r w₁ w₂ hmean hanswer => ?_
  cases r with
  | ok u =>
    cases hanswer
    exact ⟨w₁,hran.meanwhile hmean,hmean.child_none,.inl ⟨rfl,rfl⟩⟩
  | error e =>
    cases hanswer
    exact ⟨w₁,hran.meanwhile hmean,hmean.child_none,.inr ⟨_,rfl,rfl,rfl⟩⟩

/-- A failed removal is reported by itself, or beside what failed before. -/
theorem reported_close {e e' : Report} (hreported : Reported w e)
    (hclose : e'.message = Fault.close.label) :
    Reported (w.fault .close) (combineErrors e e') := by
  obtain ⟨hfirst,hsecond⟩ := combineErrors_both e e'
  intro f hf hne
  rcases List.mem_append.mp hf with hf | hf
  · exact (hreported f hf hne).trans hfirst
  · rw [List.mem_singleton.mp hf,← hclose]
    exact hsecond

theorem fault_mem {f g : Fault} (h : f ∈ w.faults) : f ∈ (w.fault g).faults :=
  List.mem_append_left _ h

/-- The payload is gone, and the outcome is that of the child. -/
theorem RanTo.closed {r : Except Report Output} (hran : RanTo worker file kept l r w) :
    Finished worker file kept l r { w with payload := none } :=
  ⟨fun h => (by cases h),hran.kept,hran.launch,hran.child,hran.exited,hran.ok,hran.error⟩

theorem RanTo.unclosed {r : Except Report Output} {e : Report} (hran : RanTo worker file kept l r w)
    (hreported : Reported (w.fault .close) e) :
    Finished worker file kept l (.error e) (w.fault .close) := by
  have hclose : Fault.close ∈ (w.fault .close).faults := by simp [World.fault]
  refine ⟨fun _ => hclose,hran.kept,hran.launch,?_,hran.exited,fun _ h => (by cases h),?_⟩
  · rcases hran.child with h | h | h | h
    · exact .inl h
    · exact .inr (.inl h)
    · exact .inr (.inr (.inl (fault_mem h)))
    · exact .inr (.inr (.inr (fault_mem h)))
  · rintro _ ⟨⟩
    exact ⟨hreported,.inl (fun h => by rw [h] at hclose; cases hclose)⟩

theorem runWorker_spec {command : Command} :
    (host worker parent).wp (runWorker request command)
      (fun r w => ∃ credentials, (w.child ≠ .none → launched parent command = some credentials) ∧
        Finished worker file kept ⟨command.args,credentials,some file⟩ r w)
      ⟨some file,.none,[],false,kept⟩ := by
  unfold runWorker
  refine wp_bind.mpr (wp_mono runCommandWithTimeout_spec fun r w ⟨credentials,hlaunched,hran⟩ => ?_)
  refine wp_bind.mpr (wp_mono (closePayload_spec hran) fun closed w' ⟨w₁,hran₁,hnone,hclosed⟩ => ?_)
  have hlaunched₁ : w₁.child ≠ .none → launched parent command = some credentials :=
    fun h => hlaunched (mt hnone h)
  cases r with
  | ok output =>
    rcases hclosed with ⟨rfl,rfl⟩ | ⟨e',rfl,rfl,hlabel⟩
    · exact ⟨credentials,hlaunched₁,hran₁.closed⟩
    · have hclean := (hran₁.ok output rfl).1
      refine ⟨credentials,hlaunched₁,hran₁.unclosed (reported_one (f := .close) ?_ ?_)⟩
      · rw [World.fault,hclean]
        rfl
      · exact hlabel ▸ List.infix_rfl
  | error e =>
    rcases hclosed with ⟨rfl,rfl⟩ | ⟨e',rfl,rfl,hlabel⟩
    · exact ⟨credentials,hlaunched₁,hran₁.closed⟩
    · exact ⟨credentials,hlaunched₁,
        hran₁.unclosed (reported_close (hran₁.error e rfl).1 hlabel)⟩

/-- `pre_exec` that comes to its end has turned the child into the user it was given. -/
theorem preExec_some {ids : Ids} {c c' : Credentials} (h : preExec ids c = some c') :
    c' = ⟨ids,[]⟩ := by
  unfold preExec at h
  obtain ⟨c₁,h₁,h⟩ := Option.bind_eq_some_iff.mp h
  obtain ⟨c₂,h₂,h₃⟩ := Option.bind_eq_some_iff.mp h
  obtain ⟨-,h₁⟩ := Option.ite_none_right_eq_some.mp h₁
  obtain ⟨-,h₂⟩ := Option.ite_none_right_eq_some.mp h₂
  obtain ⟨-,h₃⟩ := Option.ite_none_right_eq_some.mp h₃
  cases h₁
  cases h₂
  cases h₃
  rfl

/-- Root can always be demoted this way: the user goes last. -/
theorem preExec_root (ids : Ids) (gid : Nat) (groups : List Nat) :
    preExec ids ⟨⟨0,gid⟩,groups⟩ = some ⟨ids,[]⟩ := by
  simp [preExec,setgroups,setgid,setuid]

variable (request) in
theorem Finished.accounted {args : List Bytes} {bytes : Bytes} {r : Except Report Output}
    (hfinished : Finished worker file kept l r w)
    (hstarted : w.child ≠ .none → Started args bytes parent kept l) :
    (∀ e, r = .error e → Accounted worker args (.ok bytes) parent (.error e) w) ∧
      ∀ output, r = .ok output →
        Accounted worker args (.ok bytes) parent (handleExit request output) w := by
  have hlaunch : ∀ l', w.child.launch = some l' → ∃ b, Except.ok bytes = (.ok b : Except Text _) ∧
      Started args b parent w.kept l' := by
    intro l' hl'
    have hsome : w.child ≠ .none := fun h => by
      rw [h] at hl'
      cases hl'
    have hl : w.child.launch = some l := hfinished.launch.resolve_left hsome
    obtain rfl := Option.some.inj (hl'.symm.trans hl)
    exact ⟨bytes,rfl,hfinished.kept ▸ hstarted hsome⟩
  have hchild : w.child = .none ∨ (∃ l status, w.child = .reaped l status) ∨
      .kill ∈ w.faults ∨ .collect ∈ w.faults :=
    hfinished.child.imp_right (Or.imp_left fun ⟨status,h⟩ => ⟨l,status,h⟩)
  have hexited : ∀ l' status, w.child = .reaped l' status → worker l' status := by
    intro l' status hl'
    have hl := hfinished.launch.resolve_left (by simp [hl'])
    rw [hl'] at hl
    cases hl
    exact hfinished.exited status (by rw [hl']; rfl)
  constructor
  · rintro e rfl
    obtain ⟨hreported,hbad⟩ := hfinished.error e rfl
    refine ⟨fun h => .inl (hfinished.payload h),hchild,hlaunch,hexited,⟨fun h => (by cases h),?_⟩,
      ?_⟩
    · rintro ⟨hclean,htime,-⟩
      rcases hbad with hbad | hbad
      · exact absurd hclean hbad
      · rw [htime] at hbad
        cases hbad
    · rintro _ ⟨⟩
      exact hreported
  · rintro output rfl
    obtain ⟨hclean,htime,hreaped⟩ := hfinished.ok output rfl
    refine ⟨fun h => .inl (hfinished.payload h),hchild,hlaunch,hexited,⟨?_,?_⟩,?_⟩
    · intro h
      unfold handleExit at h
      split at h
      · next hsuccess => exact ⟨hclean,htime,l,output.status,hreaped,hsuccess⟩
      · cases h
    · rintro ⟨-,-,l',status,hreaped',hsuccess⟩
      rw [hreaped] at hreaped'
      cases hreaped'
      unfold handleExit
      rw [if_pos hsuccess]
    · intro e _ f hf
      rw [hclean] at hf
      cases hf

theorem Written.accounted {args : List Bytes} {content : Except Text Bytes} {e : Report}
    (h : Written wire request parent (.error e) w) :
    Accounted worker args content parent (.error e) w := by
  cases h with
  | error hchild hpayload hreported =>
    refine ⟨fun h => .inr (hpayload h),.inl hchild,fun l hl => ?_,fun l status hl => ?_,
      ⟨fun h => (by cases h),?_⟩,?_⟩
    · rw [hchild] at hl
      cases hl
    · rw [hchild] at hl
      cases hl
    · rintro ⟨-,-,l,status,hreaped,-⟩
      rw [hchild] at hreaped
      cases hreaped
    · rintro _ ⟨⟩
      exact hreported

/-- No command, no child: the payload is dropped with the error. -/
theorem dropped_accounted {args : List Bytes} {content : Except Text Bytes} {e : Report}
    {removed : Bool} {w' : World} (hchild : w.child = .none) (hreported : Reported w e)
    (hanswer : answer parent w .dropPath removed = some w') :
    Accounted worker args content parent (.error e) w' := by
  have hsame : w'.child = .none ∧ (w'.payload.isSome → .drop ∈ w'.faults) ∧ Reported w' e := by
    cases removed with
    | true =>
      cases hanswer
      exact ⟨hchild,fun h => (by cases h),hreported⟩
    | false =>
      cases hanswer
      refine ⟨hchild,fun _ => by simp [World.fault],fun f hf hne => ?_⟩
      rcases List.mem_append.mp hf with hf | hf
      · exact hreported f hf hne
      · exact absurd (List.mem_singleton.mp hf) hne
  obtain ⟨hchild',hpayload,hreported'⟩ := hsame
  refine ⟨fun h => .inr (hpayload h),.inl hchild',fun l hl => ?_,fun l status hl => ?_,
    ⟨fun h => (by cases h),?_⟩,?_⟩
  · rw [hchild'] at hl
    cases hl
  · rw [hchild'] at hl
    cases hl
  · rintro ⟨-,-,l,status,hreaped,-⟩
    rw [hchild'] at hreaped
    cases hreaped
  · rintro _ ⟨⟩
    exact hreported'

theorem runWorker_accounted {args : List Bytes} {bytes : Bytes} {command : Command}
    (hargs : command.args = args)
    (hstarted : ∀ credentials, launched parent command = some credentials →
      Started args bytes parent kept ⟨args,credentials,some file⟩) :
    (host worker parent).wp (runWorker request command >>= fun r => pure (exitOf request r))
      (fun r w => Accounted worker args (.ok bytes) parent r w) ⟨some file,.none,[],false,kept⟩ := by
  subst hargs
  refine wp_bind.mpr (wp_mono runWorker_spec fun r w ⟨credentials,hlaunched,hfinished⟩ => ?_)
  obtain ⟨herror,hok⟩ := hfinished.accounted request
    (fun h => hstarted credentials (hlaunched h))
  cases r with
  | error e => exact herror e rfl
  | ok output => exact hok output rfl

end Specs

theorem run_spec {V : Type} (wire : Wire V) (request : WorkerRequest V) (path : Bytes)
    (worker : Launch → ExitStatus → Prop) (parent : Credentials) :
    (host worker parent).wp (run wire request path)
      (fun r w => Accounted worker (workerArgs request path) (payloadBytes wire request) parent r w)
      World.initial := by
  unfold run
  refine wp_bind.mpr (wp_mono writePayload_spec fun r w hwritten => ?_)
  cases r with
  | error e => exact hwritten.accounted
  | ok u =>
    cases hwritten with
    | @ok bytes hbytes =>
      rw [hbytes]
      refine wp_bind.mpr (wp_mono (configureCommand_spec bytes) fun r w hconfigured => ?_)
      cases hconfigured with
      | kept =>
        refine runWorker_accounted rfl fun credentials hlaunched => ?_
        cases hlaunched
        exact ⟨rfl,rfl,rfl⟩
      | demoted ids =>
        refine runWorker_accounted rfl fun credentials hlaunched => ?_
        obtain rfl := preExec_some hlaunched
        exact ⟨rfl,rfl,rfl⟩
      | error hchild hreported =>
        refine wp_call_alone (fun l h => ?_) fun removed w' hanswer =>
          dropped_accounted hchild hreported hanswer
        rw [hchild] at h
        cases h

def sampleRequest : WorkerRequest ExactVersion where
  settings := sampleSettings wholeTimeout
  envVars := sampleEnvironment
  operation := .setup
  timeout := wholeTimeout

def sampleWire : Wire ExactVersion := wireFor (sampleSettings wholeTimeout) sampleEnvironment

def samplePath : Bytes := ascii "/tmp/.tmpPayload"

def root : Credentials := ⟨⟨0,0⟩,[0]⟩

def nobody : Ids := ⟨65534,65534⟩

section SampleRun
variable {worker : Launch → ExitStatus → Prop} {payload : WorkerPayload ExactVersion}

theorem writePayload_runs
    (hnew : WorkerPayload.new sampleRequest.settings sampleRequest.envVars = .ok payload) :
    (host worker root).Runs (writePayload sampleWire sampleRequest) World.initial (.ok ())
      ⟨some ⟨sampleWire.print (payload.toJson sampleWire),root.ids⟩,.none,[],false,false⟩ := by
  unfold writePayload
  rw [hnew]
  refine runs_perform_bind (.ok ()) ⟨_,.same,rfl⟩ ?_
  refine runs_perform_bind (.ok ()) ⟨_,.same,rfl⟩ ?_
  exact runs_perform_bind (.ok ()) ⟨_,.same,rfl⟩ (.done _ _)

theorem configureCommand_runs (bytes : Bytes) :
    (host worker root).Runs (configureCommand sampleRequest samplePath)
      ⟨some ⟨bytes,root.ids⟩,.none,[],false,false⟩
      (.ok ⟨workerArgs sampleRequest samplePath,some nobody⟩)
      ⟨some ⟨bytes,nobody⟩,.none,[],false,false⟩ := by
  have hids : (host worker root).Runs resolveNobodyIds
      ⟨some ⟨bytes,root.ids⟩,.none,[],false,false⟩ (.ok nobody)
      ⟨some ⟨bytes,root.ids⟩,.none,[],false,false⟩ :=
    runs_perform_bind (.ok (some nobody)) ⟨_,.same,rfl⟩ (.done _ _)
  have hdrop : (host worker root).Runs applyPrivilegeDrop
      ⟨some ⟨bytes,root.ids⟩,.none,[],false,false⟩ (.ok (some nobody))
      ⟨some ⟨bytes,nobody⟩,.none,[],false,false⟩ :=
    runs_bind hids (runs_perform_bind (.ok ()) ⟨_,.same,rfl⟩ (.done _ _))
  have hunix : (host worker root).Runs applyUnix
      ⟨some ⟨bytes,root.ids⟩,.none,[],false,false⟩ (.ok (some nobody))
      ⟨some ⟨bytes,nobody⟩,.none,[],false,false⟩ :=
    runs_perform_bind false ⟨_,.same,rfl⟩ hdrop
  exact runs_bind hunix (.done _ _)

theorem runWorker_runs {bytes : Bytes} {l : Launch}
    (hl : l = ⟨workerArgs sampleRequest samplePath,⟨nobody,[]⟩,some ⟨bytes,nobody⟩⟩)
    (hexits : worker l (.code 0)) :
    (host worker root).Runs
      (runWorker sampleRequest ⟨workerArgs sampleRequest samplePath,some nobody⟩)
      ⟨some ⟨bytes,nobody⟩,.none,[],false,false⟩ (.ok ⟨.code 0,[],[]⟩)
      ⟨none,.reaped l (.code 0),[],false,false⟩ := by
  subst hl
  have hcommand : (host worker root).Runs
      (runCommandWithTimeout sampleRequest ⟨workerArgs sampleRequest samplePath,some nobody⟩)
      ⟨some ⟨bytes,nobody⟩,.none,[],false,false⟩ (.ok ⟨.code 0,[],[]⟩)
      ⟨some ⟨bytes,nobody⟩,.reaped ⟨workerArgs sampleRequest samplePath,⟨nobody,[]⟩,
        some ⟨bytes,nobody⟩⟩ (.code 0),[],false,false⟩ := by
    refine runs_perform_bind (.ok ()) ⟨_,.same,rfl⟩ ?_
    -- the child exits before it is waited for
    refine runs_perform_bind (.ok (some (.code 0))) ⟨_,.exits rfl hexits,rfl⟩ ?_
    exact runs_perform_bind (.ok ⟨.code 0,[],[]⟩) ⟨_,.same,rfl⟩ (.done _ _)
  have hclose : (host worker root).Runs closePayload
      ⟨some ⟨bytes,nobody⟩,.reaped ⟨workerArgs sampleRequest samplePath,⟨nobody,[]⟩,
        some ⟨bytes,nobody⟩⟩ (.code 0),[],false,false⟩ (.ok ())
      ⟨none,.reaped ⟨workerArgs sampleRequest samplePath,⟨nobody,[]⟩,
        some ⟨bytes,nobody⟩⟩ (.code 0),[],false,false⟩ :=
    runs_perform_bind (.ok ()) ⟨_,.same,rfl⟩ (.done _ _)
  exact runs_bind hcommand (runs_bind hclose (.done _ _))

/-- Root asks for a setup, and a worker that has become nobody ends well. -/
theorem run_runs
    (hnew : WorkerPayload.new sampleRequest.settings sampleRequest.envVars = .ok payload)
    {l : Launch} (hl : l = ⟨workerArgs sampleRequest samplePath,⟨nobody,[]⟩,
      some ⟨sampleWire.print (payload.toJson sampleWire),nobody⟩⟩) (hexits : worker l (.code 0)) :
    (host worker root).Runs (run sampleWire sampleRequest samplePath) World.initial (.ok ())
      ⟨none,.reaped l (.code 0),[],false,false⟩ :=
  runs_bind (writePayload_runs hnew) (runs_bind (configureCommand_runs _)
    (runs_bind (runWorker_runs hl hexits) (.done _ _)))

end SampleRun

end PgEmbedSetup.Worker.Subprocess
