import PgEmbedSetup.Library.Text

set_option autoImplicit false

/-!
`src/bootstrap/prepare/orphan.rs` on Linux: before a dead owner's slot is deleted, the
server its `postmaster.pid` names is looked up in the process table and stopped.
-/

namespace PgEmbedSetup.Prepare
open Library

/-- What a process named `postgres` does in its directory. A child of a postmaster shares
the directory without serving it. -/
inductive Role where
  | postmaster
  | standalone
  | child
  deriving DecidableEq, Repr

structure Proc where
  comm : Bytes
  commReadable : Bool
  cwd : Bytes
  cwdReadable : Bool
  zombie : Bool
  /-- Whether this user may signal it. -/
  permitted : Bool
  role : Role
  deriving DecidableEq, Repr

/-- Process IDs are positive `pid_t` values. -/
structure ProcessTable where
  lookup : Nat → Option Proc
  bound : ∀ pid p, lookup pid = some p → 0 < pid ∧ pid < 2^31

/-- What the sweep can observe about one data directory. -/
structure Host where
  table : ProcessTable
  /-- Where the data directory really is; `none` when there is no such directory. -/
  realDir : Option Bytes
  canonicalizable : Bool
  pidFile : Option Bytes
  pidFileReadable : Bool

abbrev ProcessId := Nat

def i32Max : Nat := 2^31-1

def u32Max : Nat := 2^32-1

/-! ### The operating system's answers -/

def readToString (file : Option Bytes) (readable : Bool) : Option Text :=
  if readable then file.bind decodeUtf8 else none

inductive Errno where
  | eperm
  | esrch
  deriving DecidableEq, Repr

/-- `kill(pid, None)`: a zombie still answers. -/
def probe (table : ProcessTable) (pid : ProcessId) : Except Errno Unit :=
  match table.lookup pid with
  | some p => if p.permitted then .ok () else .error .eperm
  | none => .error .esrch

/-- The kernel ends the name it reports with a newline. -/
def readComm (table : ProcessTable) (pid : ProcessId) : Option Text :=
  (table.lookup pid).bind fun p => readToString (some (p.comm ++ [10])) p.commReadable

/-- The link cannot be read once the process has exited, even before it is reaped. -/
def readCwd (table : ProcessTable) (pid : ProcessId) : Option Bytes :=
  (table.lookup pid).bind fun p => if p.cwdReadable && !p.zombie then some p.cwd else none

def Host.canonicalize (h : Host) : Option Bytes := if h.canonicalizable then h.realDir else none

/-! ### Classifying the server -/

inductive ServerState where
  | absent
  | running (pid : ProcessId)
  | unconfirmed (pid : ProcessId)
  deriving DecidableEq, Repr

def postmasterPid (h : Host) : Option ProcessId := do
  let text ← readToString h.pidFile h.pidFileReadable
  let raw ← parseUnsigned u32Max (trim (← firstLine text))
  if raw > 0 then some raw else none

def processAlive (table : ProcessTable) (pid : ProcessId) : Bool :=
  if pid ≤ i32Max then
    match probe table pid with
    | .ok () => true
    | .error .eperm => true
    | .error _ => false
  else false

/-- `name.rsplit('/').next()`. -/
def afterLastSlash (name : Text) : Text := (name.reverse.takeWhile (· != '/')).reverse

def namesPostgres (comm : Text) : Bool := afterLastSlash (trim comm) = "postgres".toList

def isServerFor (h : Host) (pid : ProcessId) : Option Bool := do
  let comm ← readComm h.table pid
  if !namesPostgres comm then some false
  else do
    let cwd ← readCwd h.table pid
    let dir ← h.canonicalize
    some (cwd = dir)

def serverState (h : Host) : ServerState :=
  match postmasterPid h with
  | none => .absent
  | some pid =>
    if !processAlive h.table pid then .absent
    else
      match isServerFor h pid with
      | some true => .running pid
      | some false => .absent
      | none => .unconfirmed pid

/-- The answer, and the processes a stop was asked of. -/
def stopOrphanedServer (h : Host) (stop : ProcessId → Bool) : Bool × List ProcessId :=
  match serverState h with
  | .absent => (true,[])
  | .unconfirmed _ => (false,[])
  | .running pid => (stop pid,[pid])

/-! ### Servers -/

/-- A live `postgres` process, by the name the kernel keeps for it. -/
structure Proc.Live (p : Proc) : Prop where
  running : p.zombie = false
  named : ∃ comm, decodeUtf8 (p.comm ++ [10]) = some comm ∧ namesPostgres comm = true

/-- A live postmaster, or standalone or bootstrap backend, working in the directory. -/
structure Serves (h : Host) (pid : ProcessId) (p : Proc) : Prop where
  present : h.table.lookup pid = some p
  live : p.Live
  cwd : h.realDir = some p.cwd
  role : p.role ≠ .child

/-- The line a server of this role writes first in its `postmaster.pid`. -/
def recordedLine (pid : ProcessId) (role : Role) : Text :=
  if role = .standalone then '-' :: decimal pid else decimal pid

/-- Every server of the directory has its line first in the PID file. -/
def RecordsServers (h : Host) : Prop :=
  ∀ pid p, Serves h pid p → ∃ rest : Bytes, (∀ b ∈ rest.head?, b = 10) ∧
    h.pidFile = some ((recordedLine pid p.role).map asciiByte ++ rest)

/-- Freed only with no server left, or with the server's stop having succeeded. -/
def SweepSafe (h : Host) (stop : ProcessId → Bool) : Prop :=
  (stopOrphanedServer h stop).1 = true →
    ∀ pid p, Serves h pid p → pid ∈ (stopOrphanedServer h stop).2 ∧ stop pid = true

/-- When a sweep of the directory is safe: no standalone or bootstrap backend works in it,
and a server's PID file is text. -/
structure Sweepable (h : Host) : Prop where
  noStandalone : ∀ pid p, Serves h pid p → p.role ≠ .standalone
  utf8 : ∀ pid p, Serves h pid p → ∀ bytes ∈ h.pidFile, (decodeUtf8 bytes).isSome = true

/-! ### Reading the PID file -/

theorem recordedLine_mem {pid : ProcessId} {role : Role} {c : Char}
    (h : c ∈ recordedLine pid role) : c = '-' ∨ c.isDigit = true := by
  unfold recordedLine at h
  split at h
  · rcases List.mem_cons.mp h with hc | hc
    · exact .inl hc
    · exact .inr (decimal_isDigit hc)
  · exact .inr (decimal_isDigit h)

theorem recordedLine_ascii {pid : ProcessId} {role : Role} {c : Char}
    (h : c ∈ recordedLine pid role) : c.toNat < 128 := by
  rcases recordedLine_mem h with rfl | hd
  · decide
  · have hb := isDigit_bounds hd
    omega

theorem recordedLine_visible {pid : ProcessId} {role : Role} {c : Char}
    (h : c ∈ recordedLine pid role) : isWhitespace c = false := by
  rcases recordedLine_mem h with rfl | hd
  · decide
  · exact isWhitespace_of_isDigit hd

theorem recordedLine_ne_nil (pid : ProcessId) (role : Role) : recordedLine pid role ≠ [] := by
  unfold recordedLine
  split
  · simp
  · exact decimal_ne_nil pid

theorem postmasterPid_eq_some {h : Host} {pid : ProcessId} :
    postmasterPid h = some pid ↔ ∃ file text line, h.pidFileReadable = true ∧
      h.pidFile = some file ∧ decodeUtf8 file = some text ∧ firstLine text = some line ∧
      parseUnsigned u32Max (trim line) = some pid ∧ 0 < pid := by
  simp only [postmasterPid,readToString,Option.bind_eq_bind,Option.bind_eq_some_iff]
  constructor
  · rintro ⟨text,htext,line,hline,raw,hparse,hraw⟩
    split at htext
    · next hreadable =>
      obtain ⟨file,hfile,hdec⟩ := Option.bind_eq_some_iff.mp htext
      split at hraw
      · next hpos =>
        rw [Option.some.injEq] at hraw
        subst hraw
        exact ⟨file,text,line,hreadable,hfile,hdec,hline,hparse,hpos⟩
      · cases hraw
    · cases htext
  · rintro ⟨file,text,line,hreadable,hfile,hdec,hline,hparse,hpos⟩
    exact ⟨text,by simp [hreadable,hfile,hdec],line,hline,pid,hparse,if_pos hpos⟩

/-- What `postmaster_pid` makes of a file that begins with a server's line. -/
theorem postmasterPid_recorded {h : Host} {pid : ProcessId} {role : Role} {rest : Bytes}
    (hread : h.pidFileReadable = true) (hrest : ∀ b ∈ rest.head?, b = 10)
    (hfile : h.pidFile = some ((recordedLine pid role).map asciiByte ++ rest)) :
    postmasterPid h =
      (decodeUtf8 rest).bind fun _ =>
        (parseUnsigned u32Max (recordedLine pid role)).bind fun raw =>
          if raw > 0 then some raw else none := by
  have hdec := decodeUtf8_ascii_append (recordedLine pid role) rest
    (fun c hc => recordedLine_ascii hc)
  cases hd : decodeUtf8 rest with
  | none => simp [postmasterPid,readToString,hread,hfile,hdec,hd]
  | some text =>
    have hfirst : firstLine (recordedLine pid role ++ text) = some (recordedLine pid role) :=
      (firstLine_decoded (recordedLine_ne_nil pid role) (fun c hc => recordedLine_ascii hc)
        (fun c hc => recordedLine_visible hc) hrest (by rw [hdec,hd]; rfl)).2
    have htrim := trim_of_none (fun c (hc : c ∈ recordedLine pid role) => recordedLine_visible hc)
    simp [postmasterPid,readToString,hread,hfile,hdec,hd,hfirst,htrim]

/-- The first failing kind: a minus sign does not parse, so the server goes unseen. -/
theorem postmasterPid_standalone {h : Host} {pid : ProcessId} {p : Proc}
    (hread : h.pidFileReadable = true) (hrec : RecordsServers h) (hs : Serves h pid p)
    (hrole : p.role = .standalone) : postmasterPid h = none := by
  obtain ⟨rest,hrest,hfile⟩ := hrec pid p hs
  rw [postmasterPid_recorded hread hrest hfile,hrole]
  have hparse : parseUnsigned u32Max (recordedLine pid .standalone) = none := by
    simp [recordedLine,parseUnsigned_minus]
  cases decodeUtf8 rest <;> simp [hparse]

theorem postmasterPid_postmaster {h : Host} {pid : ProcessId} {p : Proc}
    (hread : h.pidFileReadable = true) (hrec : RecordsServers h) (hs : Serves h pid p)
    (hrole : p.role ≠ .standalone) (hutf8 : ∀ bytes ∈ h.pidFile, (decodeUtf8 bytes).isSome = true) :
    postmasterPid h = some pid := by
  obtain ⟨rest,hrest,hfile⟩ := hrec pid p hs
  have hpid := h.table.bound pid p hs.present
  have hdec := decodeUtf8_ascii_append (recordedLine pid p.role) rest
    (fun c hc => recordedLine_ascii hc)
  have hsome := hutf8 _ hfile
  rw [hdec,Option.isSome_map] at hsome
  obtain ⟨text,htext⟩ := Option.isSome_iff_exists.mp hsome
  have hparse : parseUnsigned u32Max (recordedLine pid p.role) = some pid := by
    have hle : pid ≤ u32Max := (Nat.le_sub_one_of_lt hpid.2).trans (by decide)
    rw [recordedLine,if_neg hrole]
    exact parseUnsigned_decimal hle
  rw [postmasterPid_recorded hread hrest hfile,htext,hparse]
  simp [hpid.1]

/-! ### Looking the process up -/

theorem processAlive_present {table : ProcessTable} {pid : ProcessId} {p : Proc}
    (h : table.lookup pid = some p) : processAlive table pid = true := by
  have hle : pid ≤ i32Max := Nat.le_sub_one_of_lt (table.bound pid p h).2
  cases hp : p.permitted <;> simp [processAlive,probe,h,hle,hp]

/-- A process confirmed as the server. -/
theorem isServerFor_eq_true {h : Host} {pid : ProcessId} :
    isServerFor h pid = some true ↔ ∃ p comm dir, h.table.lookup pid = some p ∧
      p.commReadable = true ∧ decodeUtf8 (p.comm ++ [10]) = some comm ∧
      namesPostgres comm = true ∧ p.cwdReadable = true ∧ p.zombie = false ∧
      h.canonicalize = some dir ∧ p.cwd = dir := by
  constructor
  · intro hs
    simp only [isServerFor,readComm,readToString,readCwd,Option.bind_eq_bind,
      Option.bind_eq_some_iff] at hs
    obtain ⟨comm,⟨p,hp,hcomm⟩,hs⟩ := hs
    split at hcomm
    · next hcr =>
      cases hname : namesPostgres comm with
      | false => simp [hname] at hs
      | true =>
        simp only [hname,Bool.not_true,Bool.false_eq_true,if_false,Option.bind_eq_some_iff] at hs
        obtain ⟨cwd,⟨p',hp',hcwd⟩,dir,hdir,heq⟩ := hs
        obtain rfl : p = p' := Option.some.inj (hp.symm.trans hp')
        split at hcwd
        · next hw =>
          rw [Bool.and_eq_true,Bool.not_eq_true'] at hw
          rw [Option.some.injEq] at hcwd
          subst hcwd
          exact ⟨p,comm,dir,hp,hcr,hcomm,hname,hw.1,hw.2,hdir,by simpa using heq⟩
        · cases hcwd
    · cases hcomm
  · rintro ⟨p,comm,dir,hp,hcr,hcomm,hname,hwr,hz,hdir,rfl⟩
    simp [isServerFor,readComm,readToString,readCwd,hp,hcr,hcomm,hname,hwr,hz,hdir]

/-- A server is confirmed or left unconfirmed, never taken for another process. -/
theorem isServerFor_serves {h : Host} {pid : ProcessId} {p : Proc} (hs : Serves h pid p) :
    isServerFor h pid ≠ some false := by
  obtain ⟨comm,hcomm,hname⟩ := hs.live.named
  have hzombie := hs.live.running
  cases hcr : p.commReadable with
  | false => simp [isServerFor,readComm,readToString,hs.present,hcr]
  | true =>
    cases hwr : p.cwdReadable with
    | false => simp [isServerFor,readComm,readToString,readCwd,hs.present,hcr,hcomm,hname,hwr]
    | true =>
      cases hc : h.canonicalizable <;>
        simp [isServerFor,readComm,readToString,readCwd,Host.canonicalize,hs.present,hcr,hcomm,
          hname,hwr,hzombie,hc,hs.cwd]

theorem stopOrphanedServer_absent {h : Host} (stop : ProcessId → Bool)
    (hp : postmasterPid h = none) : stopOrphanedServer h stop = (true,[]) := by
  simp [stopOrphanedServer,serverState,hp]

/-- With the server's own PID read back, the directory is freed only by stopping it. -/
theorem stopOrphanedServer_serves {h : Host} {pid : ProcessId} {p : Proc} (hs : Serves h pid p)
    (hp : postmasterPid h = some pid) (stop : ProcessId → Bool) :
    stopOrphanedServer h stop = (false,[]) ∨ stopOrphanedServer h stop = (stop pid,[pid]) := by
  have hne := isServerFor_serves hs
  simp only [stopOrphanedServer,serverState,hp,processAlive_present hs.present,Bool.not_true,
    Bool.false_eq_true,if_false]
  rcases hi : isServerFor h pid with _ | ⟨_ | _⟩
  · exact .inl rfl
  · exact absurd hi hne
  · exact .inr rfl

/-- One live process of the given role, with the text `postgres` writes for it. -/
def loneServer (role : Role) : Host where
  table := {
    lookup := fun pid =>
      if pid = 4242 then some ⟨ascii "postgres",true,ascii "/srv/data/slot",true,false,true,role⟩
      else none
    bound := by
      intro pid p h
      by_cases hp : pid = 4242
      · subst hp
        decide
      · simp [hp] at h }
  realDir := some (ascii "/srv/data/slot")
  canonicalizable := true
  pidFile := some ((recordedLine 4242 role).map asciiByte ++ ascii "\n/srv/data/slot\n")
  pidFileReadable := true

theorem loneServer_serves {role : Role} {pid : ProcessId} {p : Proc}
    (h : Serves (loneServer role) pid p) : pid = 4242 ∧ p.role = role := by
  have hp := h.present
  simp only [loneServer] at hp
  split at hp
  · next heq => exact ⟨heq,by rw [← Option.some.inj hp]⟩
  · cases hp

theorem loneServer_present (role : Role) (hrole : role ≠ .child) :
    Serves (loneServer role) 4242
      ⟨ascii "postgres",true,ascii "/srv/data/slot",true,false,true,role⟩ := by
  have hcomm : decodeUtf8 (ascii "postgres" ++ [10]) = some "postgres\n".toList := by
    decide +kernel
  exact ⟨rfl,⟨rfl,_,hcomm,by decide⟩,rfl,hrole⟩

theorem loneServer_records (role : Role) : RecordsServers (loneServer role) := by
  intro pid p hs
  obtain ⟨rfl,hrole⟩ := loneServer_serves hs
  refine ⟨ascii "\n/srv/data/slot\n",?_,by rw [hrole]; rfl⟩
  exact fun _ hb => (Option.some.inj hb).symm

end PgEmbedSetup.Prepare
