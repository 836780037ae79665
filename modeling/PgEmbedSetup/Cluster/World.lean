import PgEmbedSetup.Cluster.Shutdown

set_option autoImplicit false

/-!
What the shutdown code runs in: one data directory, the server that serves it, and a record
of every stop and cleanup step with the server it found.
-/

namespace PgEmbedSetup.Cluster
open Library
open Root (CleanupMode)

structure Pid where
  val : Nat
  positive : 0 < val
  bound : val ≤ i32Max
  deriving DecidableEq, Repr

inductive Origin where
  | own
  /-- Started after the first server was gone, and whether `stop_async` had returned. -/
  | second (afterReturn : Bool)
  deriving DecidableEq, Repr

structure Server where
  pid : Pid
  origin : Origin
  deriving DecidableEq, Repr

inductive Act where
  | stop
  | releaseWatcher
  | planCleanup
  | workerCleanup
  | remove (dir : DirectoryLabel)
  deriving DecidableEq, Repr

/-- A step of a shutdown and what held as it began. -/
structure Event where
  act : Act
  found : Option Server
  afterReturn : Bool
  stopFailed : Bool
  deriving DecidableEq, Repr

structure World where
  server : Option Server
  returned : Bool
  /-- Whether the last stop succeeded. -/
  lastStop : Option Bool
  /-- The runtime refused a call or dropped a task it had accepted. -/
  forgone : Bool
  events : List Event

def World.started (pid : Pid) : World := ⟨some ⟨pid,.own⟩,false,none,false,[]⟩

def World.log (w : World) (act : Act) : World :=
  { w with events := w.events ++ [⟨act,w.server,w.returned,w.lastStop = some false⟩] }

/-- A stop that succeeds has ended the server. -/
def World.stopEnded (w : World) (ok : Bool) : World :=
  { w with server := if ok then none else w.server, lastStop := some ok }

def World.asked (w : World) (granted : Bool) : World := { w with forgone := w.forgone || !granted }

def World.stops (w : World) : Nat := w.events.countP (fun e => e.act = .stop)

/-- The PID is the file's first line. -/
def recordsPid (pid : Nat) (bytes : Bytes) : Bool :=
  let line := (decimal pid).map asciiByte
  line.isPrefixOf bytes && (bytes.drop line.length).head?.all (· = 10)

/-- What a read of `postmaster.pid` may return; a dead server's file may say anything. -/
def mayRead (server : Option Server) : FileRead → Bool
  | .missing => server.isNone
  | .unreadable => true
  | .contents bytes => server.all (fun s => recordsPid s.pid.val bytes)

/-- The answers a call may have, and what it makes of the world. -/
def answer (w : World) : (op : Op) → Reply op → Option World
  | .stopHandle, r => some ((w.log .stop).stopEnded (r = .ok))
  | .workerStop, r =>
    if r = .missingPid && w.server.isSome then none
    else some ((w.log .stop).stopEnded (workerStopOk r))
  | .workerCleanup dirs, n =>
    some ((dirs.take n).foldl (fun v dir => v.log (.remove dir)) (w.log .workerCleanup))
  | .releaseWatcher, _ => some (w.log .releaseWatcher)
  | .probePeers, _ => some (w.log .planCleanup)
  | .removeDirAll dir, _ => some (w.log (.remove dir))
  | .tryCurrent, r | .enterRuntime, r | .spawnBlocking, r | .buildRuntime, r => some (w.asked r)
  | .returned, _ => some { w with returned := true }
  | .readPidFile, r => if mayRead w.server r then some w else none
  | .probe pid, r =>
    -- Another process may have a dead server's PID, so a probe proves only its own absence.
    if r = .noSuchProcess && w.server.any (fun s => s.pid.val = pid) then none else some w
  | .spawn _, _ | .shutdownWork, _ | .signal _ _, _ | .pollInterval, _ | .postSigkillGrace, _ =>
    some w

inductive Happening where
  | serverExits
  | serverStarts (pid : Pid)
  deriving DecidableEq, Repr

/-- A data directory has one server at a time. -/
def happen (w : World) : Happening → Option World
  | .serverExits => some { w with server := none }
  | .serverStarts pid =>
    match w.server with
    | none => some { w with server := some ⟨pid,.second w.returned⟩ }
    | some _ => none

def spawned (c : TestCluster) : Op → List (Code Unit)
  | .spawn task => [taskBody c task]
  | _ => []

def machine (c : TestCluster) : Machine Op Reply World Happening where
  answer := answer
  spawned := spawned c
  env := happen
  aborted w := w.asked false

abbrev State := Pool Op Reply World

abbrev Action := PoolAction Op Reply Happening

def begin (c : TestCluster) (ending : Ending) (pid : Pid) : State :=
  ⟨.started pid,[ending.program c]⟩

/-- Every run of one way of ending a started cluster. -/
def shutdowns (c : TestCluster) (ending : Ending) : System State Action :=
  (machine c).system (fun s => ∃ pid, s = begin c ending pid)

theorem shutdowns_reach (c : TestCluster) (ending : Ending) (meets : State → Action → Bool)
    (pid : Pid) (as : List Action) (wanted : State → Bool)
    (h : ((machine c).run meets (begin c ending pid) as).any wanted = true) :
    ∃ s, ((shutdowns c ending).restrict (fun s a => meets s a = true)).Reachable s ∧
      wanted s = true :=
  (machine c).run_reaches meets (fun _ _ hmeets => hmeets) ⟨pid,rfl⟩ as wanted h

/-! ### The record -/

@[simp] theorem World.log_server (w : World) (act : Act) : (w.log act).server = w.server := rfl

@[simp] theorem World.log_returned (w : World) (act : Act) : (w.log act).returned = w.returned :=
  rfl

@[simp] theorem World.log_lastStop (w : World) (act : Act) : (w.log act).lastStop = w.lastStop :=
  rfl

@[simp] theorem World.log_forgone (w : World) (act : Act) : (w.log act).forgone = w.forgone := rfl

@[simp] theorem World.log_stops (w : World) (act : Act) :
    (w.log act).stops = w.stops + if act = .stop then 1 else 0 := by
  simp [World.stops,World.log,List.countP_append,List.countP_singleton]

@[simp] theorem World.stopEnded_events (w : World) (ok : Bool) :
    (w.stopEnded ok).events = w.events := rfl

@[simp] theorem World.stopEnded_returned (w : World) (ok : Bool) :
    (w.stopEnded ok).returned = w.returned := rfl

@[simp] theorem World.stopEnded_forgone (w : World) (ok : Bool) :
    (w.stopEnded ok).forgone = w.forgone := rfl

@[simp] theorem World.stopEnded_stops (w : World) (ok : Bool) : (w.stopEnded ok).stops = w.stops :=
  rfl

theorem World.stopEnded_server {w : World} {ok : Bool} {s : Server}
    (h : (w.stopEnded ok).server = some s) : ok = false ∧ w.server = some s := by
  cases ok with
  | false => exact ⟨rfl,h⟩
  | true => simp [World.stopEnded] at h

@[simp] theorem World.asked_server (w : World) (granted : Bool) :
    (w.asked granted).server = w.server := rfl

@[simp] theorem World.asked_returned (w : World) (granted : Bool) :
    (w.asked granted).returned = w.returned := rfl

@[simp] theorem World.asked_lastStop (w : World) (granted : Bool) :
    (w.asked granted).lastStop = w.lastStop := rfl

@[simp] theorem World.asked_events (w : World) (granted : Bool) :
    (w.asked granted).events = w.events := rfl

@[simp] theorem World.asked_stops (w : World) (granted : Bool) :
    (w.asked granted).stops = w.stops := rfl

@[simp] theorem World.asked_true (w : World) : w.asked true = w := by
  simp [World.asked]

theorem set_self {α : Type} {xs : List α} {i : Nat} {x : α} (h : xs[i]? = some x) :
    xs.set i x = xs := by
  obtain ⟨hlt,rfl⟩ := List.getElem?_eq_some_iff.mp h
  exact List.set_getElem_self hlt

/-- What is kept by each logged removal is kept by the worker's whole cleanup. -/
theorem foldl_log {P : World → Prop} (h : ∀ v dir, P v → P (v.log (.remove dir)))
    (dirs : List DirectoryLabel) {w : World} (hw : P w) :
    P (dirs.foldl (fun v dir => v.log (.remove dir)) w) := by
  induction dirs generalizing w with
  | nil => exact hw
  | cons dir rest ih => exact ih (h w dir hw)

/-! ### Reading the PID file -/

theorem recordsPid_split {pid : Nat} {bytes : Bytes} (h : recordsPid pid bytes = true) :
    ∃ rest, bytes = (decimal pid).map asciiByte ++ rest ∧ ∀ b ∈ rest.head?, b = 10 := by
  simp only [recordsPid,Bool.and_eq_true,List.isPrefixOf_iff_prefix] at h
  obtain ⟨⟨rest,rfl⟩,hhead⟩ := h
  refine ⟨rest,rfl,?_⟩
  intro b hb
  rw [List.drop_left] at hhead
  rw [Option.mem_def.mp hb] at hhead
  simpa using hhead

theorem parsePid_decimal (pid : Pid) : parsePid (decimal pid.val) = some pid.val := by
  have htrim := trim_of_none (fun c (hc : c ∈ decimal pid.val) => decimal_visible hc)
  have hminus : (decimal pid.val).head? ≠ some '-' := by
    intro hhead
    have hdigit := decimal_isDigit (List.mem_of_head? hhead)
    exact absurd hdigit (by decide)
  have hpositive := pid.positive
  simp [parsePid,htrim,parseSigned,hminus,parseUnsigned_decimal pid.bound,hpositive]

/-- A running server's PID is read back, or nothing at all. -/
theorem readPostmasterProcess_live {s : Server} {file : FileRead}
    (h : mayRead (some s) file = true) :
    readPostmasterProcess file = .error () ∨ readPostmasterProcess file = .ok (some s.pid.val) := by
  cases file with
  | missing => simp [mayRead] at h
  | unreadable => exact .inl rfl
  | contents bytes =>
    simp only [mayRead,Option.all_some] at h
    obtain ⟨rest,rfl,hrest⟩ := recordsPid_split h
    cases hd : decodeUtf8 ((decimal s.pid.val).map asciiByte ++ rest) with
    | none => exact .inl (by simp [readPostmasterProcess,hd])
    | some text =>
      obtain ⟨hstart,hfirst⟩ := firstLine_decoded (decimal_ne_nil s.pid.val)
        (fun c hc => decimal_ascii hc) (fun c hc => decimal_visible hc) hrest hd
      obtain ⟨digit,hdigit⟩ := List.exists_mem_of_ne_nil _ (decimal_ne_nil s.pid.val)
      have hempty := trim_isEmpty (hstart.subset hdigit) (decimal_visible hdigit)
      simp [readPostmasterProcess,hd,hempty,hfirst,parsePid_decimal]

/-! ### Programs that clean up -/

def Op.isCleanup : Op → Bool
  | .workerCleanup _ | .releaseWatcher | .probePeers | .removeDirAll _ => true
  | _ => false

section Cleanup
variable {A : Type} {O : Outline Op Reply A} {g : A}

/-- With this piece of ghost state every cleanup call is allowed and leaves it as it is. -/
structure CleansUp (O : Outline Op Reply A) (g : A) : Prop where
  ok : ∀ op, op.isCleanup = true → O.ok g op
  keeps : ∀ op r g', op.isCleanup = true → O.next g op r g' → g' = g

theorem CleansUp.call (h : CleansUp O g) {op : Op} (hop : op.isCleanup = true)
    {post : Reply op → A → Prop} (hpost : ∀ r, post r g) : O.wp (call op) post g := by
  refine ⟨h.ok op hop,?_⟩
  intro r g' hnext
  rw [h.keeps op r g' hop hnext]
  exact hpost r

theorem removeDirAllIfExists_wp (h : CleansUp O g) (path : Path Text) (label : DirectoryLabel)
    {post : Unit → A → Prop} (hpost : post () g) :
    O.wp (removeDirAllIfExists path label) post g := by
  unfold removeDirAllIfExists
  split
  · exact hpost
  · exact h.call rfl (fun _ => hpost)

theorem cleanupDataDir_wp (h : CleansUp O g) (mode : CleanupMode) (s : Settings)
    {post : Unit → A → Prop} (hpost : post () g) : O.wp (cleanupDataDir mode s) post g := by
  unfold cleanupDataDir
  split
  · exact removeDirAllIfExists_wp h _ _ hpost
  · exact hpost

theorem cleanupInstallDir_wp (h : CleansUp O g) (mode : CleanupMode) (s : Settings)
    {post : Unit → A → Prop} (hpost : post () g) : O.wp (cleanupInstallDir mode s) post g := by
  unfold cleanupInstallDir
  split
  · exact hpost
  · refine wp_bind.mpr (removeDirAllIfExists_wp h _ _ ?_)
    cases Path.parent s.passwordFile with
    | none => exact hpost
    | some parent =>
      by_cases hroot : shouldRemoveInstallRoot parent s = true
      · simp only [hroot,if_true]
        exact removeDirAllIfExists_wp h _ _ hpost
      · simp only [hroot]
        exact hpost

theorem planCleanup_wp (h : CleansUp O g) (requested : CleanupMode)
    {post : CleanupMode → A → Prop} (hpost : ∀ mode, post mode g) :
    O.wp (planCleanup requested) post g := by
  unfold planCleanup
  split
  · exact hpost requested
  · exact wp_bind.mpr (h.call rfl (fun others => hpost (if others then .dataOnly else .full)))

theorem cleanupInProcess_wp (h : CleansUp O g) (c : TestCluster) {post : Unit → A → Prop}
    (hpost : post () g) : O.wp (cleanupInProcess c) post g := by
  refine wp_bind.mpr (h.call rfl (fun _ => wp_bind.mpr (planCleanup_wp h _ ?_)))
  intro mode
  split
  · exact hpost
  · exact wp_bind.mpr (cleanupDataDir_wp h _ _ (cleanupInstallDir_wp h _ _ hpost))

theorem cleanupWorkerManaged_wp (h : CleansUp O g) (c : TestCluster) {post : Unit → A → Prop}
    (hpost : post () g) : O.wp (cleanupWorkerManaged c) post g := by
  refine wp_bind.mpr (h.call rfl (fun _ => wp_bind.mpr (planCleanup_wp h _ ?_)))
  intro mode
  split
  · exact hpost
  · exact wp_bind.mpr (h.call rfl (fun _ => hpost))

end Cleanup
end PgEmbedSetup.Cluster
