import PgEmbedSetup.Library.LockFiles
import PgEmbedSetup.Library.Transition

set_option autoImplicit false

/-!
Clusters sharing one derived root. `<root>/data` holds the claim guard and, for each slot,
a lock file, a data directory and a password file; `<root>/install` is the tree all
clusters run from. Every system call on a lock file is a step of its own, and so is every
removal.
-/

namespace PgEmbedSetup.Root
open Library

/-- One cluster, driven by one thread of its process at a time. -/
structure ClusterId where
  pid : Nat
  index : Nat
  deriving DecidableEq, Repr

abbrev Name := String
abbrev Path := List String

inductive CleanupMode where
  | none
  | dataOnly
  | full
  deriving DecidableEq, Repr

inductive DataLayout where
  | perCluster
  | persistent
  deriving DecidableEq, Repr

structure Config where
  layout : DataLayout
  /-- `PG_DATA_DIR`, by its real path. -/
  explicitDir : Option Path
  cleanupMode : CleanupMode
  /-- Whether the operations go through the root worker. -/
  worker : Bool
  /-- Whether the in-process handle removes its files when it is dropped. -/
  temporary : Bool
  /-- Whether a data directory outside `<root>/data` has a regular `<dir>.lock` beside it. -/
  lockBeside : Bool
  deriving DecidableEq, Repr

structure Layout where
  path : Path
  config : ClusterId → Config

def Layout.dataParent (r : Layout) : Path := r.path ++ ["data"]

def Layout.installDir (r : Layout) : Path := r.path ++ ["install"]

def Layout.slotDir (r : Layout) (n : Name) : Path := r.dataParent ++ [n]

def Layout.slotPassword (r : Layout) (n : Name) : Path := r.dataParent ++ [n ++ ".pgpass"]

/-- `claim_derived_slot` takes a slot only for a derived, per-cluster directory. -/
def Layout.claims (r : Layout) (c : ClusterId) : Bool :=
  !((r.config c).layout = .persistent || (r.config c).explicitDir.isSome)

/-! ### Lock files -/

inductive LockFile where
  | claimGuard
  | slot (n : Name)
  | setup
  deriving DecidableEq, Repr

def Layout.lockPath (r : Layout) : LockFile → Path
  | .claimGuard => r.dataParent ++ [".claim-guard"]
  | .slot n => r.dataParent ++ [n ++ ".lock"]
  | .setup => r.installDir ++ [".pg-embed-setup.lock"]

/-- The open files that can hold a lock. -/
inductive Holder where
  | guard (c : ClusterId)
  /-- The claimed slot's own lock, kept in `HELD` until the process ends. -/
  | claim (c : ClusterId)
  | sweep (c : ClusterId)
  | probe (c : ClusterId)
  | setup (c : ClusterId)
  | watcher (w : Nat)
  deriving DecidableEq, Repr

def Holder.cluster : Holder → Option ClusterId
  | .guard c | .claim c | .sweep c | .probe c | .setup c => some c
  | .watcher _ => none

/-! ### Where a cluster is -/

inductive Purpose where
  | claim
  | cleanup (own : Option Name)
  deriving DecidableEq, Repr

inductive Leftover where
  | data
  | password
  | lockFile
  deriving DecidableEq, Repr

/-- `remove_slot_files` goes on to the next file whether or not this one went. -/
def Leftover.next : Leftover → Option Leftover
  | .data => some .password
  | .password => some .lockFile
  | .lockFile => none

inductive Stage where
  | setup
  | initdb
  | ready
  deriving DecidableEq, Repr

/-- `g` is the inode of the claim guard a cluster waits for or holds, `todo` what is left of
a directory listing, and `n` and `i` a slot and the inode its lock file opened to. -/
inductive Phase where
  | idle
  | waiting (why : Purpose) (g : Nat)
  | listing (g : Nat)
  | sweeping (g : Nat) (todo : List Name)
  | sweepOpened (g : Nat) (todo : List Name) (n : Name) (i : Nat)
  | sweepLocked (g : Nat) (todo : List Name) (n : Name) (i : Nat)
  | removing (g : Nat) (todo : List Name) (n : Name) (i : Nat) (next : Option Leftover)
  | naming (g : Nat)
  | created (g : Nat) (n : Name) (i : Nat)
  | claimed (g : Nat)
  | bootstrapped
  | preparing (locked : Bool) (stage : Stage)
  | running
  | stopped
  | peers (g : Nat) (own : Option Name)
  | probing (g : Nat) (own : Option Name) (todo : List Name)
  | probeOpened (g : Nat) (own : Option Name) (todo : List Name) (n : Name) (i : Nat)
  | probeLocked (g : Nat) (own : Option Name) (todo : List Name)
  | cleaning (guard : Option Nat) (mode : CleanupMode)
  | cleanedData (guard : Option Nat)
  | cleaned (guard : Option Nat)
  | finished
  | dead
  deriving DecidableEq, Repr

inductive Watcher where
  | absent
  | spawned (n : Name)
  | opened (i : Nat)
  | locked (i : Nat)
  deriving DecidableEq, Repr

structure State where
  files : LockFiles LockFile Holder
  data : List Path
  valid : List Path
  passwords : List Path
  install : Bool
  exited : List Nat
  phase : ClusterId → Phase
  /-- The slot a cluster of a live process has claimed, with its lock file's inode. -/
  slot : ClusterId → Option (Name × Nat)
  watcher : Nat → Watcher

def State.init : State where
  files := .empty
  data := []
  valid := []
  passwords := []
  install := false
  exited := []
  phase _ := .idle
  slot _ := none
  watcher _ := .absent

/-- `settings.data_dir`. -/
def State.dataDir (s : State) (r : Layout) (c : ClusterId) : Path :=
  if r.claims c then
    match s.slot c with
    | some (n,_) => r.slotDir n
    | none => r.dataParent
  else (r.config c).explicitDir.getD r.dataParent

/-- `settings.password_file`. -/
def State.passwordFile (s : State) (r : Layout) (c : ClusterId) : Path :=
  if r.claims c then
    match s.slot c with
    | some (n,_) => r.slotPassword n
    | none => r.installDir ++ [".pgpass"]
  else r.installDir ++ [".pgpass"]

/-! ### What one system call changes -/

namespace State

def setPhase (s : State) (c : ClusterId) (p : Phase) : State :=
  { s with phase := Function.update s.phase c p }

def lock (s : State) (i : Nat) (h : Holder) : State := { s with files := s.files.lock i h }

def close (s : State) (h : Holder) : State := { s with files := s.files.close h }

def create (s : State) (f : LockFile) : State := { s with files := s.files.create f }

def setSlot (s : State) (c : ClusterId) (x : Option (Name × Nat)) : State :=
  { s with slot := Function.update s.slot c x }

def setWatcher (s : State) (w : Nat) (x : Watcher) : State :=
  { s with watcher := Function.update s.watcher w x }

def unlinkSlot (s : State) (n : Name) : State :=
  { s with files := s.files.unlink (fun f => f = .slot n) }

/-- Whether removing the tree at `p` takes the path along. -/
def below (p q : Path) : Bool := p.isPrefixOf q

def removeData (s : State) (p : Path) : State :=
  { s with data := s.data.filter (fun q => !below p q), valid := s.valid.filter (fun q => !below p q) }

/-- `remove_dir_all`: a lock file or a password file goes with a directory above it. -/
def removeTree (s : State) (r : Layout) (p : Path) : State :=
  { s.removeData p with
    files := s.files.unlink (fun f => below p (r.lockPath f) && p != r.lockPath f)
    passwords := s.passwords.filter (fun q => !(below p q && p != q))
    install := s.install && !below p r.installDir }

def removePassword (s : State) (q : Path) : State :=
  { s with passwords := s.passwords.filter (· != q) }

/-- `discard_orphaned_password_file`: without a cluster the password file is stale. -/
def discardPassword (s : State) (r : Layout) (c : ClusterId) : State :=
  if s.valid.contains (s.dataDir r c) then s else s.removePassword (s.passwordFile r c)

/-- Whether the directory at `p` has anything in it. -/
def nonEmpty (s : State) (r : Layout) (p : Path) : Bool :=
  s.data.any (below p) || s.passwords.any (below p) ||
    s.files.entries.any (fun e => below p (r.lockPath e.1))

/-- The slots a listing of `<root>/data` shows: the names before `.lock`. -/
def lockNames (s : State) : List Name :=
  s.files.entries.filterMap fun e =>
    match e.1 with
    | .slot n => some n
    | _ => none

end State

/-! ### Claiming a slot -/

inductive ClaimMove where
  | openGuard
  | lockGuard
  | list (names : List Name)
  | sweepSkip
  | sweepOpen
  | sweepTryLock
  | sweepStop (freed : Bool)
  | sweepRemove (ok : Bool)
  | sweepClose
  | sweepEnd
  | createSlot (n : Name)
  | lockSlot
  | keepSlot
  | fail
  deriving DecidableEq, Repr

/-- `ClaimGuard::acquire` up to its blocking lock. -/
def openGuard (s : State) (c : ClusterId) (why : Purpose) : State :=
  match s.files.find .claimGuard with
  | some g => s.setPhase c (.waiting why g)
  | none => (s.create .claimGuard).setPhase c (.waiting why s.files.next)

def removeLeftover (r : Layout) (s : State) (n : Name) : Leftover → State
  | .data => s.removeTree r (r.slotDir n)
  | .password => s.removePassword (r.slotPassword n)
  | .lockFile => s.unlinkSlot n

/-- `claim_slot_with_hooks` and `sweep_dead_slots`. `read_dir` is no snapshot, so a sweep's
listing may hold names that are gone by now and miss others. -/
def claimStep (r : Layout) (s : State) (c : ClusterId) : ClaimMove → Phase → Option State
  | .openGuard, .idle => if r.claims c then some (openGuard s c .claim) else none
  | .lockGuard, .waiting .claim g =>
    if s.files.locks g = none then some ((s.lock g (.guard c)).setPhase c (.listing g)) else none
  | .list names, .listing g => some (s.setPhase c (.sweeping g names))
  | .sweepSkip, .sweeping g (_ :: todo) => some (s.setPhase c (.sweeping g todo))
  | .sweepOpen, .sweeping g (n :: todo) =>
    match s.files.find (.slot n) with
    | some i => some (s.setPhase c (.sweepOpened g todo n i))
    | none => some (s.setPhase c (.sweeping g todo))
  | .sweepSkip, .sweepOpened g todo _ _ => some (s.setPhase c (.sweeping g todo))
  | .sweepTryLock, .sweepOpened g todo n i =>
    if s.files.locks i = none then
      some ((s.lock i (.sweep c)).setPhase c (.sweepLocked g todo n i))
    else some (s.setPhase c (.sweeping g todo))
  | .sweepStop freed, .sweepLocked g todo n i =>
    -- A server that could not be stopped keeps its directory.
    if freed then some (s.setPhase c (.removing g todo n i (some .data)))
    else some ((s.close (.sweep c)).setPhase c (.sweeping g todo))
  | .sweepRemove ok, .removing g todo n i (some f) =>
    let t := if ok then removeLeftover r s n f else s
    some (t.setPhase c (.removing g todo n i f.next))
  | .sweepClose, .removing g todo _ _ none =>
    some ((s.close (.sweep c)).setPhase c (.sweeping g todo))
  | .sweepEnd, .sweeping g [] => some (s.setPhase c (.naming g))
  | .createSlot n, .naming g =>
    match s.files.find (.slot n) with
    | some _ => some ((s.close (.guard c)).setPhase c .finished)
    | none => some ((s.create (.slot n)).setPhase c (.created g n s.files.next))
  | .lockSlot, .created g n i =>
    if s.files.locks i = none then
      some (((s.lock i (.claim c)).setSlot c (some (n,i))).setPhase c (.claimed g))
    else some ((s.close (.guard c)).setPhase c .finished)
  | .keepSlot, .claimed _ =>
    some (((s.close (.guard c)).discardPassword r c).setPhase c .bootstrapped)
  | .fail, .idle | .fail, .waiting .claim _ => some (s.setPhase c .finished)
  | .fail, .listing _ | .fail, .sweeping _ _ | .fail, .naming _ | .fail, .created _ _ _ =>
    some ((s.close (.guard c)).setPhase c .finished)
  | _, _ => none

/-! ### Setting up and running -/

inductive LifeMove where
  | bootstrap
  | lockSetup
  | closeSetup
  | recover
  | skipSetup
  | initdb
  | initdbEnd (ok : Bool)
  | start
  | stop
  | dropHandle
  | finish
  deriving DecidableEq, Repr

def openSetup (s : State) : Nat × State :=
  let (i,files) := s.files.openOrCreate .setup
  (i,{ s with files := files, install := true })

def lifeStep (r : Layout) (s : State) (c : ClusterId) : LifeMove → Phase → Option State
  | .bootstrap, .idle =>
    if r.claims c then none else some ((s.discardPassword r c).setPhase c .bootstrapped)
  | .lockSetup, .bootstrapped =>
    let (i,t) := openSetup s
    if t.files.locks i = none then
      some ((t.lock i (.setup c)).setPhase c (.preparing true .setup))
    else none
  | .closeSetup, .preparing true stage =>
    some ((s.close (.setup c)).setPhase c (.preparing false stage))
  | .recover, .preparing _ .setup =>
    -- The marker is missing and the directory is not empty: the worker resets it.
    if (r.config c).worker && !s.valid.contains (s.dataDir r c) && s.nonEmpty r (s.dataDir r c) then
      some (s.removeTree r (s.dataDir r c))
    else none
  | .skipSetup, .preparing locked .setup =>
    if s.valid.contains (s.dataDir r c) then some (s.setPhase c (.preparing locked .ready))
    else none
  | .initdb, .preparing locked .setup =>
    if !s.valid.contains (s.dataDir r c) && !s.nonEmpty r (s.dataDir r c) then
      some ({ s with
        data := s.dataDir r c :: s.data
        passwords := s.passwordFile r c :: s.passwords }.setPhase c (.preparing locked .initdb))
    else none
  | .initdbEnd ok, .preparing locked .initdb =>
    -- A failed `initdb` removes what it wrote into a directory it found empty.
    if ok then
      some ({ s with valid := s.dataDir r c :: s.valid }.setPhase c (.preparing locked .ready))
    else some (((s.removeTree r (s.dataDir r c)).close (.setup c)).setPhase c .stopped)
  | .start, .preparing _ .ready =>
    if (r.config c).layout = .perCluster then some ((s.close (.setup c)).setPhase c .running)
    else none
  | .stop, .preparing _ _ => some ((s.close (.setup c)).setPhase c .stopped)
  | .stop, .running => some (s.setPhase c .stopped)
  | .dropHandle, .stopped =>
    if !(r.config c).worker && (r.config c).temporary then
      some ((s.removeTree r (s.dataDir r c)).removePassword (s.passwordFile r c))
    else none
  | .finish, .stopped => some (s.setPhase c .finished)
  | _, _ => none

/-! ### Cleaning up -/

inductive CleanMove where
  /-- The plan; the flag says whether looking for the lock file, or taking the guard, failed. -/
  | plan (failed : Bool)
  /-- The plan when the guard and the peers are those of another root. -/
  | planElsewhere (peers : Bool)
  | lockGuard
  | list (names : List Name)
  | probeOpen
  | probeTryLock
  | probeClose
  | probeDoubt
  | probeEnd
  | removeData (ok : Bool)
  | removeInstall (ok : Bool)
  | leave
  deriving DecidableEq, Repr

/-- The name of a directory directly under `<root>/data`. -/
def Layout.ownName (r : Layout) (p : Path) : Option Name :=
  if p.dropLast = r.dataParent then p.getLast? else none

/-- `slot_lookup` for a directory whose lock file would sit in `<root>/data`. -/
def State.lookup (s : State) (r : Layout) (p : Path) : Option Name :=
  match r.ownName p with
  | some n => if (s.files.find (.slot n)).isSome then some n else none
  | none => none

/-- Whether `slot_lookup` finds a slot of some other parent. -/
def Layout.elsewhere (r : Layout) (s : State) (c : ClusterId) : Bool :=
  (r.ownName (s.dataDir r c)).isNone && (r.config c).lockBeside

/-- `plan_cleanup`, `plan_for_unslotted` and the removals they lead to. -/
def cleanStep (r : Layout) (s : State) (c : ClusterId) : CleanMove → Phase → Option State
  | .plan failed, .stopped =>
    match (r.config c).cleanupMode with
    | .none => some (s.setPhase c .finished)
    | .dataOnly => some (s.setPhase c (.cleaning none .dataOnly))
    | .full =>
      if failed then some (s.setPhase c (.cleaning none .dataOnly))
      else if r.elsewhere s c then none
      else
        match s.lookup r (s.dataDir r c) with
        | some n => some (openGuard s c (.cleanup (some n)))
        | none =>
          if s.dataDir r c = r.dataParent then some (s.setPhase c (.cleaning none .full))
          else some (openGuard s c (.cleanup none))
  | .planElsewhere peers, .stopped =>
    if (r.config c).cleanupMode = .full && r.elsewhere s c then
      some (s.setPhase c (.cleaning none (if peers then .dataOnly else .full)))
    else none
  | .lockGuard, .waiting (.cleanup own) g =>
    if s.files.locks g = none then some ((s.lock g (.guard c)).setPhase c (.peers g own)) else none
  | .list names, .peers g own =>
    -- `has_live_peers` looks the own lock file up again before it lists. Every lock file that
    -- is there comes up; an entry that cannot be read is a doubt.
    if own.any (fun n => (s.files.find (.slot n)).isNone) then
      some (s.setPhase c (.cleaning (some g) .full))
    else if s.lockNames.all (names.contains ·) then some (s.setPhase c (.probing g own names))
    else none
  | .probeOpen, .probing g own (n :: todo) =>
    if some n = own then some (s.setPhase c (.probing g own todo))
    else
      match s.files.find (.slot n) with
      | some i => some (s.setPhase c (.probeOpened g own todo n i))
      | none => some ((s.close (.guard c)).setPhase c (.cleaning none .dataOnly))
  | .probeTryLock, .probeOpened g own todo _ i =>
    if s.files.locks i = none then
      some ((s.lock i (.probe c)).setPhase c (.probeLocked g own todo))
    else some ((s.close (.guard c)).setPhase c (.cleaning none .dataOnly))
  | .probeClose, .probeLocked g own todo =>
    some ((s.close (.probe c)).setPhase c (.probing g own todo))
  | .probeDoubt, .peers _ _ | .probeDoubt, .probing _ _ _ | .probeDoubt, .probeOpened _ _ _ _ _ =>
    some ((s.close (.guard c)).setPhase c (.cleaning none .dataOnly))
  | .probeEnd, .probing g _ [] => some (s.setPhase c (.cleaning (some g) .full))
  | .removeData ok, .cleaning guard mode =>
    let t := if ok then s.removeTree r (s.dataDir r c) else s
    some (t.setPhase c (if mode = .full then .cleanedData guard else .cleaned guard))
  | .removeInstall ok, .cleanedData guard =>
    let t := if ok then s.removeTree r r.installDir else s
    some (t.setPhase c (.cleaned guard))
  | .leave, .cleaned guard =>
    -- A worker-managed shutdown cleans up once through the worker and once in process.
    let t := if guard.isSome then s.close (.guard c) else s
    some (t.setPhase c .stopped)
  | _, _ => none

/-! ### Watchers, exits and the whole system -/

inductive WatchMove where
  | spawn (c : ClusterId)
  | openLock
  | lock
  | exit
  deriving DecidableEq, Repr

/-- `flock <slot.lock>` creates a missing file and waits for its lock. -/
def watchStep (r : Layout) (s : State) (w : Nat) : WatchMove → Watcher → Option State
  | .spawn c, .absent =>
    if s.exited.contains c.pid then none
    else
      match s.lookup r (s.dataDir r c) with
      | some n => some (s.setWatcher w (.spawned n))
      | none => none
  | .openLock, .spawned n =>
    match s.files.find (.slot n) with
    | some i => some (s.setWatcher w (.opened i))
    | none => some ((s.create (.slot n)).setWatcher w (.opened s.files.next))
  | .lock, .opened i =>
    if s.files.locks i = none then some ((s.lock i (.watcher w)).setWatcher w (.locked i)) else none
  | .exit, _ => some ((s.close (.watcher w)).setWatcher w .absent)
  | _, _ => none

inductive Action where
  | claim (c : ClusterId) (m : ClaimMove)
  | life (c : ClusterId) (m : LifeMove)
  | clean (c : ClusterId) (m : CleanMove)
  | watch (w : Nat) (m : WatchMove)
  | die (pid : Nat)
  | release (h : Holder)
  deriving DecidableEq, Repr

def Action.actor : Action → Option ClusterId
  | .claim c _ | .life c _ | .clean c _ => some c
  | _ => none

/-- The cluster whose data directory an action removes, or tries to. -/
def Action.removesDataOf : Action → Option ClusterId
  | .life c .recover | .life c (.initdbEnd false) | .life c .dropHandle
  | .clean c (.removeData _) => some c
  | _ => none

/-- A process ends: its threads stop where they are and its claims are no longer live. The
kernel drops its locks one by one, in any order. -/
def State.die (s : State) (pid : Nat) : State :=
  { s with
    exited := pid :: s.exited
    phase := fun c => if c.pid = pid then .dead else s.phase c
    slot := fun c => if c.pid = pid then none else s.slot c }

def step (r : Layout) (s : State) : Action → Option State
  | .claim c m => claimStep r s c m (s.phase c)
  | .life c m => lifeStep r s c m (s.phase c)
  | .clean c m => cleanStep r s c m (s.phase c)
  | .watch w m => watchStep r s w m (s.watcher w)
  | .die pid => some (s.die pid)
  | .release h =>
    match h.cluster with
    | some c => if s.exited.contains c.pid then some (s.close h) else none
    | none => none

def run (r : Layout) : State → List Action → Option State
  | s, [] => some s
  | s, a :: rest => (step r s a).bind fun t => run r t rest

/-- A fresh root, and any interleaving of the steps. -/
def system (r : Layout) : System State Action where
  init s := s = .init
  step s a t := step r s a = some t

end PgEmbedSetup.Root
