import PgEmbedSetup.Prepare.Orphan

set_option autoImplicit false

/-!
`src/bootstrap/prepare/orphan_watch_process.rs`: the shell script that stops an orphaned
server once its owner is dead, and when the script and the sweep name the same process.
-/

namespace PgEmbedSetup.Prepare
open Library

/-- What command substitution makes of output with a NUL byte in it: POSIX leaves it open. -/
structure Shell where
  nuls : Bytes → Bytes

/-! ### The tools -/

/-- Without the newlines at its end. -/
def stripped (output : Bytes) : Bytes := output.rdropWhile (· == 10)

/-- `$(…)`. -/
def Shell.substituted (sh : Shell) (output : Bytes) : Bytes :=
  if 0 ∈ output then sh.nuls output else stripped output

def headLine (file : Bytes) : Bytes := file.takeWhile (· != 10) ++ if 10 ∈ file then [10] else []

/-- `head -n 1`, which fails without a file to read. -/
def Host.head (h : Host) : Option Bytes :=
  if h.pidFileReadable then h.pidFile.map headLine else none

def isDigits (word : Bytes) : Bool := !word.isEmpty && word.all fun b => 48 ≤ b && b ≤ 57

def wordValue (word : Bytes) : Option ProcessId :=
  digitsValue (word.map fun b => Char.ofNat b.toNat)

def pidBytes (pid : ProcessId) : Bytes := (decimal pid).map asciiByte

/-- `/proc/<pid>` is named in decimal, without leading zeros. -/
def procDir (table : ProcessTable) (word : Bytes) : Option Proc :=
  (wordValue word).bind fun pid => if pidBytes pid = word then table.lookup pid else none

def catComm (table : ProcessTable) (word : Bytes) : Bytes :=
  match procDir table word with
  | some p => if p.commReadable then p.comm ++ [10] else []
  | none => []

def readlinkCwd (table : ProcessTable) (word : Bytes) : Bytes :=
  match procDir table word with
  | some p => if p.cwdReadable && !p.zombie then p.cwd ++ [10] else []
  | none => []

/-- The process the script asks `kill -QUIT` for, if it gets there. -/
def watcherScript (sh : Shell) (h : Host) : Option ProcessId := do
  let line ← h.head
  let pid := sh.substituted line
  if !isDigits pid then none
  else if sh.substituted (catComm h.table pid) ≠ ascii "postgres" then none
  else do
    -- `cd` and `pwd -P` arrive where `canonicalize` does.
    let dir ← h.canonicalize
    let real := sh.substituted (dir ++ [10])
    if sh.substituted (readlinkCwd h.table pid) ≠ real then none
    else wordValue pid

/-! ### Two readings -/

/-- Names and links are C strings, and a real path begins with a slash. -/
structure KernelStrings (h : Host) : Prop where
  comm : ∀ pid p, h.table.lookup pid = some p → 0 ∉ p.comm
  cwd : ∀ pid p, h.table.lookup pid = some p → 0 ∉ p.cwd
  realDir : ∀ dir, h.realDir = some dir → 0 ∉ dir ∧ dir.head? = some 47

/-- What both can look at: the file, and a process that has not exited. -/
structure Visible (h : Host) (pid : ProcessId) (p : Proc) (file dir : Bytes) : Prop where
  readable : h.pidFileReadable = true
  file : h.pidFile = some file
  present : h.table.lookup pid = some p
  comm : p.commReadable = true
  cwd : p.cwdReadable = true
  running : p.zombie = false
  dir : h.canonicalize = some dir

theorem Visible.unique {h : Host} {pid : ProcessId} {p p' : Proc} {file file' dir dir' : Bytes}
    (hv : Visible h pid p file dir) (hv' : Visible h pid p' file' dir') :
    p = p' ∧ file = file' ∧ dir = dir' :=
  ⟨Option.some.inj (hv.present.symm.trans hv'.present),
    Option.some.inj (hv.file.symm.trans hv'.file),Option.some.inj (hv.dir.symm.trans hv'.dir)⟩

/-- In the shell's reading the file names the process, and it serves the directory. -/
structure ShellNames (sh : Shell) (pid : ProcessId) (p : Proc) (file dir : Bytes) : Prop where
  line : sh.substituted (headLine file) = pidBytes pid
  comm : stripped p.comm = ascii "postgres"
  cwd : stripped p.cwd = stripped dir

/-- The same in the sweep's reading. -/
structure SweepNames (pid : ProcessId) (p : Proc) (file dir : Bytes) : Prop where
  line : ∃ text line, decodeUtf8 file = some text ∧ firstLine text = some line ∧
    parseUnsigned u32Max (trim line) = some pid
  comm : ∃ comm, decodeUtf8 (p.comm ++ [10]) = some comm ∧ namesPostgres comm = true
  cwd : p.cwd = dir

def WatcherAgrees (sh : Shell) (h : Host) : Prop :=
  ∀ pid, watcherScript sh h = some pid ↔ serverState h = .running pid

/-- The PID file of a server is text whose first line is the bare PID, and the names are the
plain ones. -/
structure Agreeable (sh : Shell) (h : Host) : Prop where
  text : ∀ pid p file dir, Visible h pid p file dir → ShellNames sh pid p file dir →
    (decodeUtf8 file).isSome = true ∧ 0 ∉ file.takeWhile (· != 10)
  directory : ∀ pid p file dir, Visible h pid p file dir → ShellNames sh pid p file dir →
    p.cwd = dir
  bare : ∀ pid p file dir, Visible h pid p file dir → SweepNames pid p file dir →
    file.takeWhile (· != 10) = pidBytes pid
  name : ∀ pid p file dir, Visible h pid p file dir → SweepNames pid p file dir →
    stripped p.comm = ascii "postgres"

variable {sh : Shell} {h : Host} {pid : ProcessId} {p : Proc} {file dir : Bytes}

/-! ### Words and lines -/

@[simp] theorem stripped_newline (bytes : Bytes) : stripped (bytes ++ [10]) = stripped bytes :=
  List.rdropWhile_concat_pos _ _ _ rfl

theorem substituted_newline {bytes : Bytes} (h0 : 0 ∉ bytes) :
    sh.substituted (bytes ++ [10]) = stripped bytes := by
  have h0' : 0 ∉ bytes ++ [10] := by
    simpa using h0
  rw [Shell.substituted,if_neg h0',stripped_newline]

theorem substituted_nil : sh.substituted [] = [] := by
  rfl

theorem stripped_of_not_mem {bytes : Bytes} (h10 : 10 ∉ bytes) : stripped bytes = bytes := by
  refine List.rdropWhile_eq_self_iff.mpr fun hne => ?_
  have hlast : bytes.getLast hne ≠ 10 := fun he => h10 (he ▸ List.getLast_mem hne)
  simpa using hlast

theorem stripped_ne_nil {bytes : Bytes} {b : UInt8} (hmem : b ∈ bytes) (hb : b ≠ 10) :
    stripped bytes ≠ [] := by
  intro hnil
  have hall := List.rdropWhile_eq_nil_iff.mp hnil b hmem
  exact hb (by simpa using hall)

theorem exists_newlines (bytes : Bytes) : ∃ n, bytes = stripped bytes ++ List.replicate n 10 := by
  refine ⟨(bytes.rtakeWhile (· == 10)).length,?_⟩
  have hall : bytes.rtakeWhile (· == 10) =
      List.replicate (bytes.rtakeWhile (· == 10)).length 10 := by
    refine List.eq_replicate_iff.mpr ⟨rfl,fun b hb => ?_⟩
    simpa using List.mem_rtakeWhile_imp hb
  rw [← hall,stripped,List.rdropWhile_append_rtakeWhile]

theorem isDigits_pidBytes (pid : ProcessId) : isDigits (pidBytes pid) = true := by
  simp only [isDigits,pidBytes,Bool.and_eq_true,Bool.not_eq_true',List.all_eq_true,
    decide_eq_true_eq,List.mem_map]
  refine ⟨by simpa using decimal_ne_nil pid,?_⟩
  rintro b ⟨c,hc,rfl⟩
  have hb := isDigit_bounds (decimal_isDigit hc)
  have htoNat := asciiByte_toNat (decimal_ascii hc)
  simp only [UInt8.le_iff_toNat_le,htoNat,UInt8.reduceToNat]
  exact hb

theorem wordValue_pidBytes (pid : ProcessId) : wordValue (pidBytes pid) = some pid := by
  have hmap : (pidBytes pid).map (fun b => Char.ofNat b.toNat) = decimal pid := by
    rw [pidBytes,List.map_map]
    refine (List.map_congr_left fun c hc => ?_).trans (List.map_id _)
    simp [asciiByte_toNat (decimal_ascii hc)]
  rw [wordValue,hmap,digitsValue_decimal]

theorem procDir_pidBytes (table : ProcessTable) (pid : ProcessId) :
    procDir table (pidBytes pid) = table.lookup pid := by
  simp [procDir,wordValue_pidBytes]

theorem procDir_some {table : ProcessTable} {word : Bytes} (hdir : procDir table word = some p) :
    ∃ pid, word = pidBytes pid ∧ table.lookup pid = some p := by
  obtain ⟨pid,-,hpid⟩ := Option.bind_eq_some_iff.mp hdir
  split at hpid
  · next hword => exact ⟨pid,hword.symm,hpid⟩
  · cases hpid

/-- A first line without NUL is read as it stands. -/
theorem substituted_headLine (sh : Shell) (h0 : 0 ∉ file.takeWhile (· != 10)) :
    sh.substituted (headLine file) = file.takeWhile (· != 10) := by
  have h10 : 10 ∉ file.takeWhile (· != 10) := by
    intro hmem
    simpa using List.mem_takeWhile_imp hmem
  rw [headLine]
  split
  · rw [substituted_newline h0,stripped_of_not_mem h10]
  · rw [List.append_nil,Shell.substituted,if_neg h0,stripped_of_not_mem h10]

/-! ### The script -/

theorem substituted_catComm (sh : Shell) (hk : KernelStrings h) (hp : h.table.lookup pid = some p) :
    sh.substituted (catComm h.table (pidBytes pid)) = ascii "postgres" ↔
      p.commReadable = true ∧ stripped p.comm = ascii "postgres" := by
  rw [catComm,procDir_pidBytes,hp]
  cases hc : p.commReadable with
  | false => simp [hc,substituted_nil]; decide
  | true => simp [hc,substituted_newline (hk.comm pid p hp)]

theorem substituted_readlinkCwd (sh : Shell) (hk : KernelStrings h)
    (hp : h.table.lookup pid = some p) (hdir : h.realDir = some dir) :
    sh.substituted (readlinkCwd h.table (pidBytes pid)) = sh.substituted (dir ++ [10]) ↔
      p.cwdReadable = true ∧ p.zombie = false ∧ stripped p.cwd = stripped dir := by
  obtain ⟨hdir0,hslash⟩ := hk.realDir dir hdir
  have hne : stripped dir ≠ [] := stripped_ne_nil (List.mem_of_head? hslash) (by decide)
  rw [substituted_newline hdir0,readlinkCwd,procDir_pidBytes,hp]
  cases hc : p.cwdReadable with
  | false => simp [hc,substituted_nil,hne.symm]
  | true =>
    cases hz : p.zombie with
    | true => simp [hc,hz,substituted_nil,hne.symm]
    | false => simp [hc,hz,substituted_newline (hk.cwd pid p hp)]

theorem catComm_found {word : Bytes}
    (hcomm : sh.substituted (catComm h.table word) = ascii "postgres") :
    ∃ pid p, word = pidBytes pid ∧ h.table.lookup pid = some p := by
  cases hdir : procDir h.table word with
  | none =>
    rw [catComm,hdir] at hcomm
    exact absurd hcomm (by rw [substituted_nil]; decide)
  | some p =>
    obtain ⟨pid,hword,hp⟩ := procDir_some hdir
    exact ⟨pid,p,hword,hp⟩

theorem canonicalize_realDir (hdir : h.canonicalize = some dir) : h.realDir = some dir := by
  rw [Host.canonicalize] at hdir
  split at hdir
  · exact hdir
  · cases hdir

theorem watcherScript_eq_some (hk : KernelStrings h) :
    watcherScript sh h = some pid ↔
      ∃ p file dir, Visible h pid p file dir ∧ ShellNames sh pid p file dir := by
  constructor
  · intro hs
    rw [watcherScript] at hs
    obtain ⟨line,hline,hs⟩ := Option.bind_eq_some_iff.mp hs
    rw [Host.head] at hline
    split at hline
    · next hreadable =>
      obtain ⟨file,hfile,rfl⟩ := Option.map_eq_some_iff.mp hline
      dsimp only at hs
      split at hs
      · cases hs
      · split at hs
        · cases hs
        · next hcomm =>
          obtain ⟨dir,hdir,hs⟩ := Option.bind_eq_some_iff.mp hs
          split at hs
          · cases hs
          · next hcwd =>
            rw [ne_eq,not_not] at hcomm hcwd
            obtain ⟨pid',p,hword,hp⟩ := catComm_found hcomm
            rw [hword] at hcomm hcwd hs
            rw [wordValue_pidBytes,Option.some.injEq] at hs
            subst hs
            obtain ⟨hcr,hname⟩ := (substituted_catComm sh hk hp).mp hcomm
            obtain ⟨hwr,hz,hserves⟩ :=
              (substituted_readlinkCwd sh hk hp (canonicalize_realDir hdir)).mp hcwd
            exact ⟨p,file,dir,⟨hreadable,hfile,hp,hcr,hwr,hz,hdir⟩,⟨hword,hname,hserves⟩⟩
    · cases hline
  · rintro ⟨p,file,dir,hv,hs⟩
    have hcomm := (substituted_catComm sh hk hv.present).mpr ⟨hv.comm,hs.comm⟩
    have hcwd := (substituted_readlinkCwd sh hk hv.present
      (canonicalize_realDir hv.dir)).mpr ⟨hv.cwd,hv.running,hs.cwd⟩
    simp [watcherScript,Host.head,hv.readable,hv.file,hs.line,isDigits_pidBytes,hcomm,hv.dir,hcwd,
      wordValue_pidBytes]

/-! ### The sweep -/

theorem serverState_running :
    serverState h = .running pid ↔
      ∃ p file dir, Visible h pid p file dir ∧ SweepNames pid p file dir := by
  constructor
  · intro hs
    rw [serverState] at hs
    split at hs
    · cases hs
    · next pid' hpid =>
      split at hs
      · cases hs
      · split at hs
        · next hserver =>
          rw [ServerState.running.injEq] at hs
          subst hs
          obtain ⟨file,text,line,hreadable,hfile,htext,hline,hparse,-⟩ :=
            postmasterPid_eq_some.mp hpid
          obtain ⟨p,comm,dir,hp,hcr,hcomm,hname,hwr,hz,hdir,hcwd⟩ :=
            isServerFor_eq_true.mp hserver
          exact ⟨p,file,dir,⟨hreadable,hfile,hp,hcr,hwr,hz,hdir⟩,
            ⟨⟨text,line,htext,hline,hparse⟩,⟨comm,hcomm,hname⟩,hcwd⟩⟩
        · cases hs
        · cases hs
  · rintro ⟨p,file,dir,hv,⟨text,line,htext,hline,hparse⟩,⟨comm,hcomm,hname⟩,hcwd⟩
    have hpid : postmasterPid h = some pid := postmasterPid_eq_some.mpr
      ⟨file,text,line,hv.readable,hv.file,htext,hline,hparse,(h.table.bound pid p hv.present).1⟩
    have hserver : isServerFor h pid = some true := isServerFor_eq_true.mpr
      ⟨p,comm,dir,hv.present,hv.comm,hcomm,hname,hv.cwd,hv.running,hv.dir,hcwd⟩
    simp [serverState,hpid,processAlive_present hv.present,hserver]

/-! ### Where they differ -/

/-- Newlines at its end do not hide the name. -/
theorem namesPostgres_stripped {comm : Bytes} (hname : stripped comm = ascii "postgres") :
    ∃ text, decodeUtf8 (comm ++ [10]) = some text ∧ namesPostgres text = true := by
  obtain ⟨n,hn⟩ := exists_newlines comm
  have hcomm : comm ++ [10] = ("postgres".toList ++ List.replicate (n+1) '\n').map asciiByte := by
    rw [hn,hname,List.append_assoc,← List.replicate_succ',List.map_append,List.map_replicate]
    rfl
  have hletters : ∀ c ∈ "postgres".toList, c.toNat < 128 ∧ isWhitespace c = false := by
    have hall : "postgres".toList.all (fun c => c.toNat < 128 && !isWhitespace c) = true := by decide
    simpa only [List.all_eq_true,Bool.and_eq_true,decide_eq_true_eq,Bool.not_eq_true'] using hall
  have hascii : ∀ c ∈ "postgres".toList ++ List.replicate (n+1) '\n', c.toNat < 128 := by
    intro c hc
    rcases List.mem_append.mp hc with hc | hc
    · exact (hletters c hc).1
    · rw [List.eq_of_mem_replicate hc]
      decide
  have hdec := decodeUtf8_ascii_append _ [] hascii
  rw [List.append_nil,← hcomm] at hdec
  refine ⟨_,hdec,?_⟩
  have htrim : trim ("postgres".toList ++ List.replicate (n+1) '\n') = "postgres".toList :=
    trim_newlines _ (by decide) fun c hc => (hletters c hc).2
  simp only [List.append_nil,namesPostgres,htrim]
  decide

theorem SweepNames.noNul (hs : SweepNames pid p file dir) : 0 ∉ file.takeWhile (· != 10) := by
  intro hmem
  obtain ⟨text,line,htext,hline,hparse⟩ := hs.line
  have hnul := decodeFrom_nul (s := .start) trivial htext hmem
  have hin : Char.ofNat 0 ∈ trim line := mem_trim (mem_firstLine hline hnul (by decide)) (by decide)
  rcases parseUnsigned_mem hparse hin with hdigit | hplus
  · exact absurd hdigit (by decide)
  · exact absurd hplus (by decide)

theorem SweepNames.shell (hs : SweepNames pid p file dir)
    (hbare : file.takeWhile (· != 10) = pidBytes pid) (hname : stripped p.comm = ascii "postgres") :
    ShellNames sh pid p file dir := by
  have h0 : 0 ∉ file.takeWhile (· != 10) := hs.noNul
  refine ⟨?_,hname,by rw [hs.cwd]⟩
  rw [substituted_headLine sh h0,hbare]

theorem ShellNames.sweep (hs : ShellNames sh pid p file dir) (hv : Visible h pid p file dir)
    (htext : (decodeUtf8 file).isSome = true) (h0 : 0 ∉ file.takeWhile (· != 10))
    (hdir : p.cwd = dir) : SweepNames pid p file dir := by
  have hline : file.takeWhile (· != 10) = pidBytes pid := by
    rw [← substituted_headLine sh h0]
    exact hs.line
  refine ⟨?_,namesPostgres_stripped hs.comm,hdir⟩
  obtain ⟨text,htext⟩ := Option.isSome_iff_exists.mp htext
  refine ⟨text,decimal pid,htext,?_,?_⟩
  · have hfile : (decimal pid).map asciiByte ++ file.dropWhile (· != 10) = file := by
      have hsplit := List.takeWhile_append_dropWhile (p := (· != 10)) (l := file)
      rwa [hline] at hsplit
    rw [← hfile] at htext
    refine (firstLine_decoded (decimal_ne_nil pid) (fun c hc => decimal_ascii hc)
      (fun c hc => decimal_visible hc) (fun b hb => ?_) htext).2
    have hfirst := List.head?_dropWhile_not (· != 10) file
    rw [hb] at hfirst
    simpa using hfirst
  · rw [trim_of_none fun c hc => decimal_visible hc]
    have hbound := (h.table.bound pid p hv.present).2
    exact parseUnsigned_decimal (by unfold u32Max; omega)

/-- The script and the sweep name the same process exactly when the host is agreeable. -/
theorem watcher_agrees_iff (sh : Shell) (h : Host) (hk : KernelStrings h) :
    WatcherAgrees sh h ↔ Agreeable sh h := by
  constructor
  · intro hagree
    have hsweep : ∀ pid p file dir, Visible h pid p file dir → ShellNames sh pid p file dir →
        SweepNames pid p file dir := by
      intro pid p file dir hv hs
      obtain ⟨p',file',dir',hv',hs'⟩ := serverState_running.mp
        ((hagree pid).mp ((watcherScript_eq_some hk).mpr ⟨p,file,dir,hv,hs⟩))
      obtain ⟨rfl,rfl,rfl⟩ := hv.unique hv'
      exact hs'
    have hshell : ∀ pid p file dir, Visible h pid p file dir → SweepNames pid p file dir →
        ShellNames sh pid p file dir := by
      intro pid p file dir hv hs
      obtain ⟨p',file',dir',hv',hs'⟩ := (watcherScript_eq_some hk).mp
        ((hagree pid).mpr (serverState_running.mpr ⟨p,file,dir,hv,hs⟩))
      obtain ⟨rfl,rfl,rfl⟩ := hv.unique hv'
      exact hs'
    refine ⟨fun pid p file dir hv hs => ?_,fun pid p file dir hv hs => ?_,
      fun pid p file dir hv hs => ?_,fun pid p file dir hv hs => ?_⟩
    · have hs' := hsweep pid p file dir hv hs
      obtain ⟨text,-,htext,-⟩ := hs'.line
      exact ⟨by rw [htext]; rfl,hs'.noNul⟩
    · exact (hsweep pid p file dir hv hs).cwd
    · rw [← substituted_headLine sh hs.noNul]
      exact (hshell pid p file dir hv hs).line
    · exact (hshell pid p file dir hv hs).comm
  · intro hag pid
    rw [watcherScript_eq_some hk,serverState_running]
    constructor
    · rintro ⟨p,file,dir,hv,hs⟩
      obtain ⟨htext,h0⟩ := hag.text pid p file dir hv hs
      exact ⟨p,file,dir,hv,hs.sweep hv htext h0 (hag.directory pid p file dir hv hs)⟩
    · rintro ⟨p,file,dir,hv,hs⟩
      exact ⟨p,file,dir,hv,hs.shell (hag.bare pid p file dir hv hs) (hag.name pid p file dir hv hs)⟩

/-- A live postmaster at 4242, and this for its PID file. -/
def recorded (file : Bytes) : Host := { loneServer .postmaster with pidFile := some file }

theorem recorded_lookup {file : Bytes} {pid : ProcessId} {p : Proc}
    (hp : (recorded file).table.lookup pid = some p) :
    pid = 4242 ∧ p = ⟨ascii "postgres",true,ascii "/srv/data/slot",true,false,true,.postmaster⟩ := by
  simp only [recorded,loneServer] at hp
  split at hp
  · next heq => exact ⟨heq,(Option.some.inj hp).symm⟩
  · cases hp

theorem recorded_strings (file : Bytes) : KernelStrings (recorded file) where
  comm pid p hp := by
    rw [(recorded_lookup hp).2]
    decide
  cwd pid p hp := by
    rw [(recorded_lookup hp).2]
    decide
  realDir dir hdir := by
    obtain rfl : ascii "/srv/data/slot" = dir := Option.some.inj hdir
    decide

/-- What dash and bash make of NUL bytes. -/
def dropping : Shell := ⟨fun output => stripped (output.filter (· != 0))⟩

theorem watcher_agrees_iff_recorded :
    WatcherAgrees dropping (recorded (ascii "4242\n/srv/data/slot\n")) := by
  refine (watcher_agrees_iff _ _ (recorded_strings _)).mpr ⟨?_,?_,?_,?_⟩
  · rintro pid p file dir hv -
    obtain rfl : ascii "4242\n/srv/data/slot\n" = file := Option.some.inj hv.file
    decide
  · rintro pid p file dir hv -
    rw [(recorded_lookup hv.present).2]
    exact Option.some.inj hv.dir
  · rintro pid p file dir hv -
    obtain rfl : ascii "4242\n/srv/data/slot\n" = file := Option.some.inj hv.file
    rw [(recorded_lookup hv.present).1]
    decide
  · rintro pid p file dir hv -
    rw [(recorded_lookup hv.present).2]
    decide

/-- A byte on a later line that is not UTF-8 hides the server from the sweep only; a blank
before the PID hides it from the script only. -/
theorem watcher_agrees_not :
    ¬ WatcherAgrees dropping
      (recorded (ascii "4242\n/srv/data/slot\n1700000000\n5432\n/run/" ++ [255,10])) ∧
    ¬ WatcherAgrees dropping (recorded (ascii " 4242\n/srv/data/slot\n")) := by
  refine ⟨fun hagree => ?_,fun hagree => ?_⟩
  · exact absurd ((hagree 4242).mp (by decide +kernel)) (by decide +kernel)
  · exact absurd ((hagree 4242).mpr (by decide +kernel)) (by decide +kernel)

end PgEmbedSetup.Prepare
