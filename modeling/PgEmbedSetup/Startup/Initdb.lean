import PgEmbedSetup.Library.Transition

set_option autoImplicit false

/-!
`setup_disposable` of `src/durability.rs`: a future that waits for a blocking task, the task that
runs `initdb` and watches it, and `initdb` itself, each going at its own pace.
-/

namespace PgEmbedSetup.Startup.Initdb
open Library

/-- The settings as far as they are read here. -/
structure Settings where
  isDisposable : Bool
  /-- `installed_initdb` finds one. -/
  installed : Bool
  timeout : Option Nat
  deriving DecidableEq, Repr

inductive ExitStatus where
  | code (n : Nat)
  | signal (n : Nat)
  deriving DecidableEq, Repr

def ExitStatus.success : ExitStatus → Bool
  | .code n => n = 0
  | .signal _ => false

def sigkill : Nat := 9

inductive Reason where
  | cancelled
  | timedOut
  deriving DecidableEq, Repr

inductive TaskError where
  | io
  | failed (status : ExitStatus)
  | stopped (reason : Reason)
  deriving DecidableEq, Repr

/-- What the loop is left with. -/
inductive Outcome where
  | exited (status : ExitStatus)
  | stopped (reason : Reason)
  deriving DecidableEq, Repr

def Outcome.result : Outcome → Except TaskError Bool
  | .exited status => if status.success then .ok true else .error (.failed status)
  | .stopped reason => .error (.stopped reason)

/-- The blocking task. `lost`: the runtime was shut down before it began. -/
inductive Task where
  | queued
  | writing
  | spawning
  | arming
  | polling (deadline : Option Nat)
  | checkingCancel (deadline : Option Nat)
  | checkingDeadline (deadline : Option Nat)
  | sleeping (wakes : Nat) (deadline : Option Nat)
  | killing (reason : Reason)
  | waiting (reason : Reason)
  | joining (outcome : Outcome)
  | returned (r : Except TaskError Bool)
  | lost
  deriving DecidableEq

inductive Child where
  | none
  | running
  | exited (status : ExitStatus)
  | reaped (status : ExitStatus)
  deriving DecidableEq, Repr

inductive FutureError where
  | initdb (e : TaskError)
  | join
  | setup
  deriving DecidableEq, Repr

inductive Future where
  | awaiting
  | settingUp
  | ready (r : Except FutureError Unit)
  | dropped
  deriving DecidableEq

/-- `leftBehind`: a `try_wait` or `wait` failed. -/
inductive Event where
  | spawned
  | armed (time : Nat)
  | polled
  | killed
  | wrote
  | leftBehind
  | setup
  | dropped
  deriving DecidableEq, Repr

/-- `conf`: the data directory holds `postgresql.conf`. -/
structure State where
  clock : Nat
  cancel : Bool
  future : Future
  task : Task
  child : Child
  stderrOpen : Bool
  conf : Bool
  passwordFile : Bool
  events : List Event
  deriving DecidableEq

def State.goto (s : State) (task : Task) : State := { s with task := task }

def State.log (s : State) (e : Event) : State := { s with events := s.events ++ [e] }

/-- `Drop` of the guard that the future holds. -/
def State.leave (s : State) (future : Future) : State :=
  { s with future := future, cancel := true }

inductive Action where
  | examine
  | write (ok : Bool)
  | spawn (ok : Bool)
  | arm
  | tryWait (ok : Bool)
  | checkCancel
  | checkDeadline
  | wake
  | kill (ok : Bool)
  | wait (ok : Bool)
  | join
  | resume
  | finish (ok : Bool)
  | drop
  | lose
  | exit (status : ExitStatus)
  | childWrites
  | eof
  | tick
  deriving DecidableEq, Repr

/-- The steps of the blocking task. -/
def Action.own : Action → Bool
  | .examine | .write _ | .spawn _ | .arm | .tryWait _ | .checkCancel | .checkDeadline | .wake
  | .kill _ | .wait _ | .join => true
  | .resume | .finish _ | .drop | .lose | .exit _ | .childWrites | .eof | .tick => false

def pollInterval : Nat := 20

def examined (c : Settings) (s : State) : Task :=
  if !c.isDisposable || s.conf then .returned (.ok false)
  else if !c.installed then .returned (.ok false)
  else if s.passwordFile then .spawning
  else .writing

/-- A child that is gone already is not killed again. -/
def Child.kill : Child → Child
  | .running => .exited (.signal sigkill)
  | child => child

def step (c : Settings) (s : State) : Action → Option State
  | .examine => if s.task = .queued then some (s.goto (examined c s)) else none
  | .write ok =>
    if s.task = .writing then
      some (if ok then { s with passwordFile := true, task := .spawning }
        else s.goto (.returned (.error .io)))
    else none
  | .spawn ok =>
    if s.task = .spawning then
      some (if ok then { s with child := .running, stderrOpen := true, task := .arming }.log .spawned
        else s.goto (.returned (.error .io)))
    else none
  | .arm =>
    if s.task = .arming then
      some ((s.goto (.polling (c.timeout.map (s.clock + ·)))).log (.armed s.clock))
    else none
  | .tryWait ok =>
    match s.task, s.child with
    | .polling deadline, .running =>
      some (if ok then (s.goto (.checkingCancel deadline)).log .polled
        else (s.goto (.returned (.error .io))).log .leftBehind)
    | .polling _, .exited status =>
      some (if ok then { s with child := .reaped status, task := .joining (.exited status) }
        else (s.goto (.returned (.error .io))).log .leftBehind)
    | _, _ => none
  | .checkCancel =>
    match s.task with
    | .checkingCancel deadline =>
      some (s.goto (if s.cancel then .killing .cancelled else .checkingDeadline deadline))
    | _ => none
  | .checkDeadline =>
    match s.task with
    | .checkingDeadline deadline =>
      some (s.goto (if deadline.any (· ≤ s.clock) then .killing .timedOut
        else .sleeping (s.clock+pollInterval) deadline))
    | _ => none
  | .wake =>
    match s.task with
    | .sleeping wakes deadline => if wakes ≤ s.clock then some (s.goto (.polling deadline)) else none
    | _ => none
  | .kill ok =>
    match s.task with
    | .killing reason =>
      some (if ok then { s with child := s.child.kill, task := .waiting reason }.log .killed
        else s.goto (.waiting reason))
    | _ => none
  | .wait ok =>
    match s.task, s.child with
    | .waiting reason, .exited status =>
      some (if ok then { s with child := .reaped status, task := .joining (.stopped reason) }
        else (s.goto (.joining (.stopped reason))).log .leftBehind)
    | .waiting reason, .running =>
      if ok then none else some ((s.goto (.joining (.stopped reason))).log .leftBehind)
    | _, _ => none
  | .join =>
    match s.task with
    | .joining outcome => if s.stderrOpen then none else some (s.goto (.returned outcome.result))
    | _ => none
  | .resume =>
    match s.future, s.task with
    | .awaiting, .returned (.ok _) => some ({ s with future := .settingUp }.log .setup)
    | .awaiting, .returned (.error e) => some (s.leave (.ready (.error (.initdb e))))
    | .awaiting, .lost => some (s.leave (.ready (.error .join)))
    | _, _ => none
  | .finish ok =>
    if s.future = .settingUp then
      some (s.leave (.ready (if ok then .ok () else .error .setup)))
    else none
  | .drop =>
    if s.future = .awaiting ∨ s.future = .settingUp then some ((s.leave .dropped).log .dropped)
    else none
  | .lose => if s.task = .queued then some (s.goto .lost) else none
  | .exit status => if s.child = .running then some { s with child := .exited status } else none
  | .childWrites =>
    if s.child = .running then some ({ s with conf := true }.log .wrote) else none
  | .eof => if s.stderrOpen then some { s with stderrOpen := false } else none
  | .tick => some { s with clock := s.clock+1 }

def State.initial (s : State) : Prop :=
  s.cancel = false ∧ s.future = .awaiting ∧ s.task = .queued ∧ s.child = .none ∧
    s.stderrOpen = false ∧ s.events = []

def setups (c : Settings) : System State Action := System.ofStep State.initial (step c)

/-! ### What one step can do -/

/-- The task's own moves, and those of the others. -/
inductive Moves (c : Settings) (s : State) : Bool → State → Prop where
  | examine (htask : s.task = .queued) : Moves c s true (s.goto (examined c s))
  | write (htask : s.task = .writing) :
      Moves c s true { s with passwordFile := true, task := .spawning }
  | fail (htask : s.task = .writing ∨ s.task = .spawning) :
      Moves c s true (s.goto (.returned (.error .io)))
  | spawn (htask : s.task = .spawning) :
      Moves c s true ({ s with child := .running, stderrOpen := true, task := .arming }.log .spawned)
  | arm (htask : s.task = .arming) :
      Moves c s true ((s.goto (.polling (c.timeout.map (s.clock + ·)))).log (.armed s.clock))
  | poll {deadline : Option Nat} (htask : s.task = .polling deadline) (hchild : s.child = .running) :
      Moves c s true ((s.goto (.checkingCancel deadline)).log .polled)
  | collect {deadline : Option Nat} {status : ExitStatus} (htask : s.task = .polling deadline)
      (hchild : s.child = .exited status) :
      Moves c s true { s with child := .reaped status, task := .joining (.exited status) }
  | leave {deadline : Option Nat} (htask : s.task = .polling deadline) :
      Moves c s true ((s.goto (.returned (.error .io))).log .leftBehind)
  | cancel {deadline : Option Nat} (htask : s.task = .checkingCancel deadline)
      (hcancel : s.cancel = true) : Moves c s true (s.goto (.killing .cancelled))
  | proceed {deadline : Option Nat} (htask : s.task = .checkingCancel deadline)
      (hcancel : s.cancel = false) : Moves c s true (s.goto (.checkingDeadline deadline))
  | expire {deadline : Option Nat} (htask : s.task = .checkingDeadline deadline)
      (hdeadline : deadline.any (· ≤ s.clock) = true) : Moves c s true (s.goto (.killing .timedOut))
  | sleep {deadline : Option Nat} (htask : s.task = .checkingDeadline deadline) :
      Moves c s true (s.goto (.sleeping (s.clock+pollInterval) deadline))
  | wake {wakes : Nat} {deadline : Option Nat} (htask : s.task = .sleeping wakes deadline) :
      Moves c s true (s.goto (.polling deadline))
  | kill {reason : Reason} (htask : s.task = .killing reason) :
      Moves c s true ({ s with child := s.child.kill, task := .waiting reason }.log .killed)
  | killFails {reason : Reason} (htask : s.task = .killing reason) :
      Moves c s true (s.goto (.waiting reason))
  | reap {reason : Reason} {status : ExitStatus} (htask : s.task = .waiting reason)
      (hchild : s.child = .exited status) :
      Moves c s true { s with child := .reaped status, task := .joining (.stopped reason) }
  | waitFails {reason : Reason} (htask : s.task = .waiting reason) :
      Moves c s true ((s.goto (.joining (.stopped reason))).log .leftBehind)
  | join {outcome : Outcome} (htask : s.task = .joining outcome) :
      Moves c s true (s.goto (.returned outcome.result))
  | resume {b : Bool} (hfuture : s.future = .awaiting) (htask : s.task = .returned (.ok b)) :
      Moves c s false ({ s with future := .settingUp }.log .setup)
  | settle {r : Except FutureError Unit} (hfuture : s.future = .awaiting ∨ s.future = .settingUp) :
      Moves c s false (s.leave (.ready r))
  | drop (hfuture : s.future = .awaiting ∨ s.future = .settingUp) :
      Moves c s false ((s.leave .dropped).log .dropped)
  | lose (htask : s.task = .queued) : Moves c s false (s.goto .lost)
  | exit {status : ExitStatus} (hchild : s.child = .running) :
      Moves c s false { s with child := .exited status }
  | childWrites (hchild : s.child = .running) : Moves c s false ({ s with conf := true }.log .wrote)
  | eof : Moves c s false { s with stderrOpen := false }
  | tick : Moves c s false { s with clock := s.clock+1 }

theorem step_moves {c : Settings} {s t : State} {a : Action} (h : step c s a = some t) :
    Moves c s a.own t := by
  cases a with
  | examine =>
    obtain ⟨htask,h⟩ := Option.ite_none_right_eq_some.mp h
    cases h
    exact .examine htask
  | write ok =>
    obtain ⟨htask,h⟩ := Option.ite_none_right_eq_some.mp h
    cases ok with
    | true => cases h; exact .write htask
    | false => cases h; exact .fail (.inl htask)
  | spawn ok =>
    obtain ⟨htask,h⟩ := Option.ite_none_right_eq_some.mp h
    cases ok with
    | true => cases h; exact .spawn htask
    | false => cases h; exact .fail (.inr htask)
  | arm =>
    obtain ⟨htask,h⟩ := Option.ite_none_right_eq_some.mp h
    cases h
    exact .arm htask
  | tryWait ok =>
    simp only [step] at h
    split at h
    · next deadline htask hchild =>
      cases ok with
      | true => cases h; exact .poll htask hchild
      | false => cases h; exact .leave htask
    · next deadline status htask hchild =>
      cases ok with
      | true => cases h; exact .collect htask hchild
      | false => cases h; exact .leave htask
    · cases h
  | checkCancel =>
    simp only [step] at h
    split at h
    · next deadline htask =>
      cases hcancel : s.cancel with
      | true =>
        rw [hcancel] at h
        cases h
        exact .cancel htask hcancel
      | false =>
        rw [hcancel] at h
        cases h
        exact .proceed htask hcancel
    · cases h
  | checkDeadline =>
    simp only [step] at h
    split at h
    · next deadline htask =>
      split at h
      · next hdeadline => cases h; exact .expire htask hdeadline
      · cases h; exact .sleep htask
    · cases h
  | wake =>
    simp only [step] at h
    split at h
    · next wakes deadline htask =>
      obtain ⟨_,h⟩ := Option.ite_none_right_eq_some.mp h
      cases h
      exact .wake htask
    · cases h
  | kill ok =>
    simp only [step] at h
    split at h
    · next reason htask =>
      cases ok with
      | true => cases h; exact .kill htask
      | false => cases h; exact .killFails htask
    · cases h
  | wait ok =>
    simp only [step] at h
    split at h
    · next reason status htask hchild =>
      cases ok with
      | true => cases h; exact .reap htask hchild
      | false => cases h; exact .waitFails htask
    · next reason htask hchild =>
      cases ok with
      | true => cases h
      | false => cases h; exact .waitFails htask
    · cases h
  | join =>
    simp only [step] at h
    split at h
    · next outcome htask =>
      split at h
      · cases h
      · cases h; exact .join htask
    · cases h
  | resume =>
    simp only [step] at h
    split at h
    · next b hfuture htask => cases h; exact .resume hfuture htask
    · next e hfuture htask => cases h; exact .settle (.inl hfuture)
    · next hfuture htask => cases h; exact .settle (.inl hfuture)
    · cases h
  | finish ok =>
    obtain ⟨hfuture,h⟩ := Option.ite_none_right_eq_some.mp h
    cases h
    exact .settle (.inr hfuture)
  | drop =>
    obtain ⟨hfuture,h⟩ := Option.ite_none_right_eq_some.mp h
    cases h
    exact .drop hfuture
  | lose =>
    obtain ⟨htask,h⟩ := Option.ite_none_right_eq_some.mp h
    cases h
    exact .lose htask
  | exit status =>
    obtain ⟨hchild,h⟩ := Option.ite_none_right_eq_some.mp h
    cases h
    exact .exit hchild
  | childWrites =>
    obtain ⟨hchild,h⟩ := Option.ite_none_right_eq_some.mp h
    cases h
    exact .childWrites hchild
  | eof =>
    obtain ⟨_,h⟩ := Option.ite_none_right_eq_some.mp h
    cases h
    exact .eof
  | tick =>
    cases h
    exact .tick

end PgEmbedSetup.Startup.Initdb
