import PgEmbedSetup.Library.Text
import PgEmbedSetup.Library.Transition

set_option autoImplicit false

/-!
`src/bootstrap/prepare/{password,stale_password}.rs` and the setup after them: which password
a bootstrap reports, and which one `initdb` was given.
-/

namespace PgEmbedSetup.Prepare
open Library

variable {δ : Type}

/-- The file a bootstrap of a data directory uses: the install tree's, shared by all that were
named by `PG_DATA_DIR`, or a slot's own beside its directory. -/
inductive PasswordFile (δ : Type) where
  | shared
  | beside (slot : δ)
  deriving DecidableEq, Repr

/-- What is found at a password file's path. -/
inductive Stored where
  | text (content : Text)
  | notUtf8 (len : Nat)
  /-- Not a regular file. -/
  | special
  deriving DecidableEq, Repr

/-- A cluster in its data directory: its password, and the file `initdb` had it from. -/
structure ClusterDir (δ : Type) where
  password : Text
  source : PasswordFile δ
  deriving DecidableEq, Repr

/-- `cluster` tells which data directories hold a `PG_VERSION` file. -/
structure Disk (δ : Type) where
  cluster : δ → Option (ClusterDir δ)
  stored : PasswordFile δ → Option Stored

section Update
variable [DecidableEq δ]

def Disk.setCluster (k : Disk δ) (d : δ) (c : Option (ClusterDir δ)) : Disk δ :=
  { k with cluster := fun e => if e = d then c else k.cluster e }

def Disk.setStored (k : Disk δ) (file : PasswordFile δ) (s : Option Stored) : Disk δ :=
  { k with stored := fun f => if f = file then s else k.stored f }

@[simp] theorem setCluster_stored (k : Disk δ) (d : δ) (c : Option (ClusterDir δ)) :
    (k.setCluster d c).stored = k.stored := rfl

@[simp] theorem setStored_cluster (k : Disk δ) (file : PasswordFile δ) (s : Option Stored) :
    (k.setStored file s).cluster = k.cluster := rfl

end Update

/-! ### `password.rs`, `stale_password.rs` -/

inductive PasswordFailure where
  | probeFailed
  | missingFile
  | unreadableFile
  | emptyFile
  | removalFailed
  deriving DecidableEq, Repr

inductive PasswordReuseOutcome where
  | reused
  | explicitPassword
  | noCluster
  deriving DecidableEq, Repr

inductive ErrorKind where
  | notFound
  | other
  deriving DecidableEq, Repr

def maxPasswordFileBytes : Nat := 4096

def utf8Len (text : Text) : Nat := (text.map Char.utf8Size).sum

def isLineEnd (c : Char) : Bool := c = '\n' || c = '\r'

/-- Which calls of one bootstrap fail, beyond what the disk makes fail. -/
structure Faults where
  claim : Bool
  probe : Bool
  read : Bool
  /-- A directory between the reuse and the discard. -/
  directories : Bool
  probeAgain : Bool
  remove : Bool
  /-- Permissions, owners and XDG directories after the discard. -/
  rest : Bool
  deriving DecidableEq, Repr

def hasClusterMarker (k : Disk δ) (dataDir : δ) (fails : Bool) : Except PasswordFailure Bool :=
  if fails then .error .probeFailed else .ok (k.cluster dataDir).isSome

def readBounded (node : Option Stored) (fails : Bool) : Except ErrorKind Text :=
  match node with
  | none => .error .notFound
  | some (.text content) =>
    if fails || utf8Len content > maxPasswordFileBytes then .error .other else .ok content
  | some (.notUtf8 _) => .error .other
  | some .special => .error .other

def readStoredPassword (k : Disk δ) (file : PasswordFile δ) (fails : Bool) :
    Except PasswordFailure Text :=
  match readBounded (k.stored file) fails with
  | .error .notFound => .error .missingFile
  | .error .other => .error .unreadableFile
  | .ok raw =>
    let stored := trimEnd isLineEnd raw
    if stored.isEmpty then .error .emptyFile else .ok stored

def queryStoredPassword (k : Disk δ) (dataDir : δ) (file : PasswordFile δ) (f : Faults) :
    Except PasswordFailure (Option Text) := do
  if !(← hasClusterMarker k dataDir f.probe) then pure none
  else
    let stored ← readStoredPassword k file f.read
    pure (some stored)

/-- The settings' password afterwards, and the outcome. -/
def reuseExistingPassword (k : Disk δ) (password : Text) (dataDir : δ) (file : PasswordFile δ)
    (isPasswordExplicit : Bool) (f : Faults) :
    Except PasswordFailure (Text × PasswordReuseOutcome) :=
  if isPasswordExplicit then .ok (password,.explicitPassword)
  else
    match queryStoredPassword k dataDir file f with
    | .ok (some stored) => .ok (stored,.reused)
    | .ok none => .ok (password,.noCluster)
    | .error e => .error e

/-! ### What a reuse reports -/

section Reuse
variable {k : Disk δ} {dataDir : δ} {file : PasswordFile δ}

theorem readBounded_ok {node : Option Stored} {fails : Bool} {content : Text}
    (h : readBounded node fails = .ok content) : node = some (.text content) := by
  cases node with
  | none => cases h
  | some node =>
    cases node with
    | text t =>
      simp only [readBounded] at h
      split at h
      · cases h
      · cases h
        rfl
    | notUtf8 len => cases h
    | special => cases h

theorem readStoredPassword_ok {fails : Bool} {stored : Text}
    (h : readStoredPassword k file fails = .ok stored) :
    ∃ content, k.stored file = some (.text content) ∧ stored = trimEnd isLineEnd content := by
  unfold readStoredPassword at h
  cases hread : readBounded (k.stored file) fails with
  | error e =>
    rw [hread] at h
    cases e <;> cases h
  | ok raw =>
    simp only [hread] at h
    split at h
    · cases h
    · cases h
      exact ⟨raw,readBounded_ok hread,rfl⟩

theorem queryStoredPassword_ok {f : Faults} {found : Option Text}
    (h : queryStoredPassword k dataDir file f = .ok found) :
    (k.cluster dataDir = none ∧ found = none) ∨
      ((k.cluster dataDir).isSome = true ∧ ∃ content, k.stored file = some (.text content) ∧
        found = some (trimEnd isLineEnd content)) := by
  unfold queryStoredPassword hasClusterMarker at h
  cases hprobe : f.probe with
  | true =>
    rw [hprobe] at h
    cases h
  | false =>
    cases hcluster : k.cluster dataDir with
    | none =>
      simp only [hprobe,hcluster] at h
      cases h
      exact .inl ⟨rfl,rfl⟩
    | some c =>
      simp only [hprobe,hcluster] at h
      cases hstored : readStoredPassword k file f.read with
      | error e =>
        rw [hstored] at h
        cases h
      | ok stored =>
        rw [hstored] at h
        cases h
        obtain ⟨content,hcontent,rfl⟩ := readStoredPassword_ok hstored
        exact .inr ⟨rfl,content,hcontent,rfl⟩

theorem reuseExistingPassword_ok {password reported : Text} {explicit : Bool} {f : Faults}
    {outcome : PasswordReuseOutcome}
    (h : reuseExistingPassword k password dataDir file explicit f = .ok (reported,outcome)) :
    (k.cluster dataDir = none → reported = password) ∧
      (explicit = false → (k.cluster dataDir).isSome = true →
        ∃ content, k.stored file = some (.text content) ∧
          reported = trimEnd isLineEnd content) := by
  cases explicit with
  | true =>
    cases h
    exact ⟨fun _ => rfl,fun he => by cases he⟩
  | false =>
    simp only [reuseExistingPassword,Bool.false_eq_true,if_false] at h
    cases hquery : queryStoredPassword k dataDir file f with
    | error e =>
      rw [hquery] at h
      cases h
    | ok found =>
      rw [hquery] at h
      rcases queryStoredPassword_ok hquery with ⟨hnone,rfl⟩ | ⟨hsome,content,hcontent,rfl⟩
      · cases h
        refine ⟨fun _ => rfl,?_⟩
        intro _ hsome
        simp [hnone] at hsome
      · cases h
        refine ⟨?_,fun _ _ => ⟨content,hcontent,rfl⟩⟩
        intro hnone
        simp [hnone] at hsome

end Reuse

/-- The data directory `PG_DATA_DIR` names (for `run`, the derived one), or a slot's. -/
inductive DataChoice (δ : Type) where
  | named (dataDir : δ)
  | slot (dataDir : δ)
  deriving DecidableEq, Repr

def DataChoice.dataDir : DataChoice δ → δ
  | .named d => d
  | .slot d => d

def DataChoice.passwordFile : DataChoice δ → PasswordFile δ
  | .named _ => .shared
  | .slot d => .beside d

theorem DataChoice.passwordFile_own (choice : DataChoice δ) :
    choice.passwordFile = .shared ∨ choice.passwordFile = .beside choice.dataDir := by
  cases choice with
  | named d => exact .inl rfl
  | slot d => exact .inr rfl

variable [DecidableEq δ]

/-- The disk afterwards, and whether a file was removed. -/
def discardOrphanedPasswordFile (k : Disk δ) (dataDir : δ) (file : PasswordFile δ) (f : Faults) :
    Disk δ × Except PasswordFailure Bool :=
  match hasClusterMarker k dataDir f.probeAgain with
  | .error e => (k,.error e)
  | .ok true => (k,.ok false)
  | .ok false =>
    match k.stored file with
    | none => (k,.ok false)
    | some _ => if f.remove then (k,.error .removalFailed) else (k.setStored file none,.ok true)

/-! ### A bootstrap -/

structure Request (δ : Type) where
  choice : DataChoice δ
  /-- `PG_PASSWORD`. -/
  supplied : Option Text
  /-- What `Settings::default` makes up. -/
  generated : Text
  deriving DecidableEq, Repr

/-- The password in the settings as the bootstrap begins. -/
def Request.password (r : Request δ) : Text := r.supplied.getD r.generated

/-- What a sweep makes of one dead slot. -/
def freeSlot (k : Disk δ) (slot : δ) : Disk δ :=
  (k.setCluster slot none).setStored (.beside slot) none

/-- `claim_derived_slot`, whose sweep comes first; a named directory triggers none. -/
def claimDerivedSlot (k : Disk δ) (choice : DataChoice δ) (dead : List δ) : Disk δ :=
  match choice with
  | .named _ => k
  | .slot _ => dead.foldl freeSlot k

inductive BootstrapFailure where
  | password (e : PasswordFailure)
  | other
  deriving DecidableEq, Repr

/-- `bootstrap_unprivileged`, and `bootstrap_with_root`, on a disk already swept: the password
in the settings it hands over. -/
def prepareBootstrap (k : Disk δ) (r : Request δ) (f : Faults) :
    Disk δ × Except BootstrapFailure Text :=
  if f.claim then (k,.error .other)
  else
    match reuseExistingPassword k r.password r.choice.dataDir r.choice.passwordFile
        r.supplied.isSome f with
    | .error e => (k,.error (.password e))
    | .ok (password,_) =>
      if f.directories then (k,.error .other)
      else
        match discardOrphanedPasswordFile k r.choice.dataDir r.choice.passwordFile f with
        | (k,.error e) => (k,.error (.password e))
        | (k,.ok _) => (k,if f.rest then .error .other else .ok password)

/-! ### The setup that follows -/

def SingleLine (text : Text) : Prop := '\n' ∉ trimEnd isLineEnd text

/-- `initdb --pwfile`: from a file of one line it takes that line, or nothing. -/
structure Initdb where
  read : Text → Option Text
  line : ∀ content password, SingleLine content → read content = some password →
    password = trimEnd isLineEnd content

/-- How far one setup step comes. -/
inductive SetupStage where
  | skipped
  /-- The password file has been written, if it was absent. -/
  | fileWritten
  | initdbRun
  deriving DecidableEq, Repr

def writeIfAbsent (k : Disk δ) (file : PasswordFile δ) (password : Text) : Disk δ :=
  match k.stored file with
  | none => k.setStored file (some (.text password))
  | some _ => k

/-- `initdb` refuses a directory that holds a cluster. -/
def runInitdb (i : Initdb) (k : Disk δ) (dataDir : δ) (file : PasswordFile δ) : Disk δ :=
  match k.cluster dataDir, k.stored file with
  | none, some (.text content) =>
    match i.read content with
    | some password => k.setCluster dataDir (some ⟨password,file⟩)
    | none => k
  | _, _ => k

def setupTo (i : Initdb) (k : Disk δ) (dataDir : δ) (file : PasswordFile δ) (password : Text) :
    SetupStage → Disk δ
  | .skipped => k
  | .fileWritten => writeIfAbsent k file password
  | .initdbRun => runInitdb i (writeIfAbsent k file password) dataDir file

/-- `initialize_cancellable` leaves an initialized directory alone. -/
def initializeCancellable (i : Initdb) (k : Disk δ) (dataDir : δ) (file : PasswordFile δ)
    (password : Text) (stage : SetupStage) : Disk δ :=
  if (k.cluster dataDir).isSome then k else setupTo i k dataDir file password stage

/-- A disposable cluster's own `initdb`, then `PostgreSQL::setup`. -/
def setup (i : Initdb) (k : Disk δ) (dataDir : δ) (file : PasswordFile δ) (password : Text)
    (own upstream : SetupStage) : Disk δ :=
  setupTo i (initializeCancellable i k dataDir file password own) dataDir file password upstream

/-! ### Runs -/

structure Attempt (δ : Type) where
  request : Request δ
  /-- The slots whose owners are dead. -/
  dead : List δ
  faults : Faults
  own : SetupStage
  upstream : SetupStage
  deriving DecidableEq, Repr

inductive Action (δ : Type) where
  | bootstrap (a : Attempt δ)
  /-- A data directory goes, by a cleanup or by hand; no password file goes with it. -/
  | removed (dataDir : δ)
  deriving DecidableEq, Repr

/-- The disk as the attempt's bootstrap finds it, its slot claimed. -/
def Attempt.claimed (a : Attempt δ) (k : Disk δ) : Disk δ :=
  claimDerivedSlot k a.request.choice a.dead

def Attempt.prepared (a : Attempt δ) (k : Disk δ) : Disk δ × Except BootstrapFailure Text :=
  prepareBootstrap (a.claimed k) a.request a.faults

def Attempt.dataDir (a : Attempt δ) : δ := a.request.choice.dataDir

def Attempt.passwordFile (a : Attempt δ) : PasswordFile δ := a.request.choice.passwordFile

def Attempt.run (i : Initdb) (a : Attempt δ) (k : Disk δ) : Disk δ :=
  match a.prepared k with
  | (k,.error _) => k
  | (k,.ok password) => setup i k a.dataDir a.passwordFile password a.own a.upstream

def Action.run (i : Initdb) (k : Disk δ) : Action δ → Disk δ
  | .bootstrap a => a.run i k
  | .removed d => k.setCluster d none

/-- All sequences of bootstraps that share an install directory, which may hold stale password
files but begins with no cluster. -/
def bootstraps (i : Initdb) : System (Disk δ) (Action δ) where
  init k := ∀ d, k.cluster d = none
  step k a l := l = a.run i k

/-- A bootstrap of `d` that succeeds, finds its cluster and was given no password reports the
cluster's. -/
def Agrees (d : δ) (k : Disk δ) : Action δ → Prop
  | .bootstrap a => a.dataDir = d → a.request.supplied = none →
    ∀ c, (a.claimed k).cluster d = some c → ∀ password, (a.prepared k).2 = .ok password →
      password = c.password
  | .removed _ => True

/-- What keeps the password file of the cluster in `d`: `initdb` is given one line in it, and
while the cluster is there no directory without one is bootstrapped with the same file. -/
def KeepsFile (d : δ) (k : Disk δ) : Action δ → Prop
  | .bootstrap a =>
    (a.dataDir = d → (a.claimed k).cluster d = none → SingleLine a.request.password) ∧
      ∀ c, (a.claimed k).cluster d = some c → a.passwordFile = c.source →
        ((a.claimed k).cluster a.dataDir).isSome = true
  | .removed _ => True

/-- A slot's directory is not opened by name, nor a named one as a slot. -/
def OpenedAsMade (d : δ) (k : Disk δ) : Action δ → Prop
  | .bootstrap a => a.dataDir = d → ∀ c, (a.claimed k).cluster d = some c →
    a.passwordFile = c.source
  | .removed _ => True

/-! ### The file holds the cluster's password -/

/-- A cluster's password file is still as `initdb` read it. -/
def Recorded (d : δ) (k : Disk δ) : Prop :=
  ∀ c, k.cluster d = some c → (c.source = .shared ∨ c.source = .beside d) ∧
    ∃ content, k.stored c.source = some (.text content) ∧
      c.password = trimEnd isLineEnd content

section Steps
variable {d dataDir : δ} {k : Disk δ} {file : PasswordFile δ}

theorem Recorded.setCluster_none (h : Recorded d k) (e : δ) : Recorded d (k.setCluster e none) := by
  intro c hc
  by_cases he : d = e
  · simp [Disk.setCluster,he] at hc
  · simp only [Disk.setCluster,he,if_false] at hc
    exact h c hc

theorem Recorded.setStored (h : Recorded d k) (s : Option Stored)
    (hother : ∀ c, k.cluster d = some c → file ≠ c.source) : Recorded d (k.setStored file s) := by
  intro c hc
  obtain ⟨hsource,content,hstored,hpassword⟩ := h c hc
  refine ⟨hsource,content,?_,hpassword⟩
  have hne := hother c hc
  simpa [Disk.setStored,Ne.symm hne] using hstored

theorem Recorded.freeSlot (h : Recorded d k) (slot : δ) : Recorded d (freeSlot k slot) := by
  refine (h.setCluster_none slot).setStored none ?_
  intro c hc hsource
  by_cases hd : d = slot
  · simp [Disk.setCluster,hd] at hc
  · simp only [Disk.setCluster,hd,if_false] at hc
    rcases (h c hc).1 with hs | hs
    · rw [hs] at hsource
      cases hsource
    · rw [hs] at hsource
      exact hd (PasswordFile.beside.inj hsource).symm

theorem Recorded.claimed (h : Recorded d k) (a : Attempt δ) : Recorded d (a.claimed k) := by
  unfold Attempt.claimed claimDerivedSlot
  cases a.request.choice with
  | named e => exact h
  | slot e =>
    induction a.dead generalizing k with
    | nil => exact h
    | cons slot rest ih => exact ih (h.freeSlot slot)

/-- The discard leaves the disk alone or removes the file of a directory without a cluster;
when it is through, such a directory has no file. -/
theorem discardOrphanedPasswordFile_cases (k : Disk δ) (dataDir : δ) (file : PasswordFile δ)
    (f : Faults) :
    ((discardOrphanedPasswordFile k dataDir file f).1 = k ∨ k.cluster dataDir = none ∧
      (discardOrphanedPasswordFile k dataDir file f).1 = k.setStored file none) ∧
    ∀ removed, (discardOrphanedPasswordFile k dataDir file f).2 = .ok removed →
      k.cluster dataDir = none →
        (discardOrphanedPasswordFile k dataDir file f).1.stored file = none := by
  unfold discardOrphanedPasswordFile hasClusterMarker
  cases hprobe : f.probeAgain with
  | true => exact ⟨.inl rfl,fun removed h => by cases h⟩
  | false =>
    cases hcluster : k.cluster dataDir with
    | some c => exact ⟨.inl rfl,fun _ _ hnone => by cases hnone⟩
    | none =>
      cases hstored : k.stored file with
      | none => exact ⟨.inl rfl,fun _ _ _ => hstored⟩
      | some node =>
        cases hremove : f.remove with
        | true => exact ⟨.inl rfl,fun removed h => by cases h⟩
        | false => exact ⟨.inr ⟨rfl,rfl⟩,fun _ _ _ => by simp [Disk.setStored]⟩

/-- All a bootstrap does to the disk, and what it reports. -/
theorem prepareBootstrap_cases (k : Disk δ) (r : Request δ) (f : Faults) :
    ((prepareBootstrap k r f).1 = k ∨ k.cluster r.choice.dataDir = none ∧
      (prepareBootstrap k r f).1 = k.setStored r.choice.passwordFile none) ∧
    ∀ password, (prepareBootstrap k r f).2 = .ok password →
      (k.cluster r.choice.dataDir = none → password = r.password ∧
        (prepareBootstrap k r f).1.stored r.choice.passwordFile = none) ∧
      (r.supplied = none → (k.cluster r.choice.dataDir).isSome = true →
        ∃ content, k.stored r.choice.passwordFile = some (.text content) ∧
          password = trimEnd isLineEnd content) := by
  unfold prepareBootstrap
  cases hclaim : f.claim with
  | true => exact ⟨.inl rfl,fun password h => by cases h⟩
  | false =>
    simp only [Bool.false_eq_true,if_false]
    cases hreuse : reuseExistingPassword k r.password r.choice.dataDir r.choice.passwordFile
        r.supplied.isSome f with
    | error e => exact ⟨.inl rfl,fun password h => by cases h⟩
    | ok reused =>
      obtain ⟨reported,outcome⟩ := reused
      cases hdirs : f.directories with
      | true => exact ⟨.inl rfl,fun password h => by cases h⟩
      | false =>
        have hdiscard := discardOrphanedPasswordFile_cases k r.choice.dataDir
          r.choice.passwordFile f
        have hreported := reuseExistingPassword_ok hreuse
        simp only [Bool.false_eq_true,if_false]
        cases hd : discardOrphanedPasswordFile k r.choice.dataDir r.choice.passwordFile f with
        | mk after result =>
          rw [hd] at hdiscard
          cases result with
          | error e => exact ⟨hdiscard.1,fun password h => by cases h⟩
          | ok removed =>
            refine ⟨hdiscard.1,?_⟩
            intro password h
            cases hrest : f.rest with
            | true =>
              simp only [hrest,if_true] at h
              cases h
            | false =>
              simp only [hrest,Bool.false_eq_true,if_false,Except.ok.injEq] at h
              subst h
              refine ⟨?_,?_⟩
              · intro hnone
                exact ⟨hreported.1 hnone,hdiscard.2 removed rfl hnone⟩
              · intro hsupplied
                exact hreported.2 (by rw [hsupplied]; rfl)

/-- What a setup of `dataDir` may rely on, and keeps. -/
structure Prepared (d dataDir : δ) (file : PasswordFile δ) (k : Disk δ) : Prop where
  recorded : Recorded d k
  own : file = .shared ∨ file = .beside dataDir
  line : dataDir = d → k.cluster d = none → ∀ node, k.stored file = some node →
    ∃ content, node = .text content ∧ SingleLine content

theorem Prepared.writeIfAbsent (h : Prepared d dataDir file k) {password : Text}
    (hline : dataDir = d → k.cluster d = none → SingleLine password) :
    Prepared d dataDir file (writeIfAbsent k file password) := by
  unfold Prepare.writeIfAbsent
  cases hstored : k.stored file with
  | some node => exact h
  | none =>
    refine ⟨h.recorded.setStored _ ?_,h.own,?_⟩
    · intro c hc hsource
      obtain ⟨-,content,hcontent,-⟩ := h.recorded c hc
      rw [← hsource,hstored] at hcontent
      cases hcontent
    · intro hd hnone node hnode
      simp only [Disk.setStored,if_true,Option.some.injEq] at hnode
      exact ⟨password,hnode.symm,hline hd hnone⟩

theorem Prepared.runInitdb (h : Prepared d dataDir file k) (i : Initdb) :
    Prepared d dataDir file (runInitdb i k dataDir file) := by
  unfold Prepare.runInitdb
  cases hcluster : k.cluster dataDir with
  | some c => exact h
  | none =>
    cases hstored : k.stored file with
    | none => exact h
    | some node =>
      cases node with
      | notUtf8 len => exact h
      | special => exact h
      | text content =>
        cases hread : i.read content with
        | none => simpa only [hread] using h
        | some password =>
          simp only [hread]
          by_cases hd : dataDir = d
          · subst hd
            obtain ⟨content',heq,hsingle⟩ := h.line rfl hcluster _ hstored
            obtain rfl := Stored.text.inj heq
            refine ⟨?_,h.own,?_⟩
            · intro c hc
              simp only [Disk.setCluster,if_true,Option.some.injEq] at hc
              subst hc
              exact ⟨h.own,content,hstored,i.line content password hsingle hread⟩
            · intro _ hnone
              simp [Disk.setCluster] at hnone
          · refine ⟨?_,h.own,fun he => absurd he hd⟩
            intro c hc
            simp only [Disk.setCluster,Ne.symm hd,if_false] at hc
            exact h.recorded c hc

theorem Prepared.setupTo (h : Prepared d dataDir file k) (i : Initdb) {password : Text}
    (hline : dataDir = d → k.cluster d = none → SingleLine password) (stage : SetupStage) :
    Prepared d dataDir file (setupTo i k dataDir file password stage) := by
  cases stage with
  | skipped => exact h
  | fileWritten => exact h.writeIfAbsent hline
  | initdbRun => exact (h.writeIfAbsent hline).runInitdb i

theorem writeIfAbsent_cluster (password : Text) :
    (Prepare.writeIfAbsent k file password).cluster = k.cluster := by
  unfold Prepare.writeIfAbsent
  split <;> rfl

theorem runInitdb_cluster (i : Initdb) (hsome : (k.cluster d).isSome = true) :
    ((Prepare.runInitdb i k dataDir file).cluster d).isSome = true := by
  unfold Prepare.runInitdb
  split
  · split
    · simp only [Disk.setCluster]
      split
      · rfl
      · exact hsome
    · exact hsome
  · exact hsome

/-- A setup removes no cluster. -/
theorem setupTo_cluster (i : Initdb) (password : Text) (stage : SetupStage)
    (hsome : (k.cluster d).isSome = true) :
    ((Prepare.setupTo i k dataDir file password stage).cluster d).isSome = true := by
  have hwritten : ((Prepare.writeIfAbsent k file password).cluster d).isSome = true := by
    rw [writeIfAbsent_cluster]
    exact hsome
  cases stage with
  | skipped => exact hsome
  | fileWritten => exact hwritten
  | initdbRun => exact runInitdb_cluster i hwritten

theorem Prepared.initializeCancellable (h : Prepared d dataDir file k) (i : Initdb)
    {password : Text} (hline : dataDir = d → k.cluster d = none → SingleLine password)
    (stage : SetupStage) :
    Prepared d dataDir file (initializeCancellable i k dataDir file password stage) := by
  unfold Prepare.initializeCancellable
  split
  · exact h
  · exact h.setupTo i hline stage

theorem initializeCancellable_cluster (i : Initdb) (password : Text) (stage : SetupStage)
    (hsome : (k.cluster d).isSome = true) :
    ((Prepare.initializeCancellable i k dataDir file password stage).cluster d).isSome = true := by
  unfold Prepare.initializeCancellable
  split
  · exact hsome
  · exact setupTo_cluster i password stage hsome

theorem Prepared.setup (h : Prepared d dataDir file k) (i : Initdb) {password : Text}
    (hline : dataDir = d → k.cluster d = none → SingleLine password) (own upstream : SetupStage) :
    Prepared d dataDir file (setup i k dataDir file password own upstream) := by
  refine (h.initializeCancellable i hline own).setupTo i ?_ upstream
  intro hd hnone
  refine hline hd ?_
  cases hcluster : k.cluster d with
  | none => rfl
  | some c =>
    have hbefore : (k.cluster d).isSome = true := by
      rw [hcluster]
      rfl
    have hsome : ((Prepare.initializeCancellable i k dataDir file password own).cluster d).isSome =
        true := initializeCancellable_cluster i password own hbefore
    rw [hnone] at hsome
    cases hsome

end Steps

theorem Recorded.attempt {d : δ} {k : Disk δ} (h : Recorded d k) (i : Initdb) (a : Attempt δ)
    (hkeeps : KeepsFile d k (.bootstrap a)) : Recorded d (a.run i k) := by
  have hclaimed := h.claimed a
  obtain ⟨hdisk,hreport⟩ := prepareBootstrap_cases (a.claimed k) a.request a.faults
  have hprepared : Recorded d (a.prepared k).1 := by
    rcases hdisk with hsame | ⟨hnone,hdiscarded⟩
    · rw [Attempt.prepared,hsame]
      exact hclaimed
    · rw [Attempt.prepared,hdiscarded]
      refine hclaimed.setStored none ?_
      intro c hc hsource
      have hsome := hkeeps.2 c hc hsource
      rw [Attempt.dataDir,hnone] at hsome
      cases hsome
  have hcluster : (a.prepared k).1.cluster = (a.claimed k).cluster := by
    rcases hdisk with hsame | ⟨-,hdiscarded⟩
    · rw [Attempt.prepared,hsame]
    · rw [Attempt.prepared,hdiscarded,setStored_cluster]
  unfold Attempt.run
  cases hresult : a.prepared k with
  | mk after result =>
    rw [hresult] at hprepared hcluster
    cases result with
    | error e => exact hprepared
    | ok password =>
      have hok := hreport password (by rw [← Attempt.prepared,hresult])
      rw [← Attempt.prepared,hresult] at hok
      have hready : Prepared d a.dataDir a.passwordFile after := by
        refine ⟨hprepared,a.request.choice.passwordFile_own,?_⟩
        intro hd hnone node hnode
        have hbefore : (a.claimed k).cluster a.request.choice.dataDir = none := by
          rw [← hcluster]
          exact (congrArg after.cluster hd).trans hnone
        have habsent := (hok.1 hbefore).2
        have hnode' : after.stored a.request.choice.passwordFile = some node := hnode
        rw [habsent] at hnode'
        cases hnode'
      refine (hready.setup i ?_ a.own a.upstream).recorded
      intro hd hnone
      have hnone' : (a.claimed k).cluster d = none := by
        rw [← hcluster]
        exact hnone
      have hbefore : (a.claimed k).cluster a.request.choice.dataDir = none :=
        (congrArg (a.claimed k).cluster hd).trans hnone'
      rw [(hok.1 hbefore).1]
      exact hkeeps.1 hd hnone'

/-! ### `initdb` as it is, and runs with it -/

theorem trimEnd_append {p : Char → Bool} (xs : Text) {ys : Text} (h : ∀ c ∈ ys, p c = true) :
    trimEnd p (xs ++ ys) = trimEnd p xs := by
  rw [trimEnd,trimEnd,List.rdropWhile,List.rdropWhile,List.reverse_append]
  rw [List.dropWhile_append_of_pos]
  intro c hc
  exact h c (List.mem_reverse.mp hc)

theorem trimEnd_split (p : Char → Bool) (text : Text) :
    ∃ rest, text = trimEnd p text ++ rest ∧ ∀ c ∈ rest, p c = true := by
  refine ⟨(text.reverse.takeWhile p).reverse,?_,?_⟩
  · rw [trimEnd,List.rdropWhile,← List.reverse_append,List.takeWhile_append_dropWhile,
      List.reverse_reverse]
  · intro c hc
    exact List.mem_takeWhile_imp (List.mem_reverse.mp hc)

/-- `initdb` as it is: the first line without its line end. -/
def firstLineInitdb : Initdb where
  read content :=
    if content.isEmpty then none
    else some (trimEnd isLineEnd (content.takeWhile (· != '\n')))
  line := by
    intro content password hsingle hread
    split at hread
    · cases hread
    · cases hread
      obtain ⟨rest,hsplit,hrest⟩ := trimEnd_split isLineEnd content
      have hcore : ∀ c ∈ trimEnd isLineEnd content, (c != '\n') = true := by
        intro c hc
        have hne : c ≠ '\n' := fun he => hsingle (he ▸ hc)
        simpa using hne
      have htail : ∀ c ∈ rest.takeWhile (· != '\n'), isLineEnd c = true :=
        fun c hc => hrest c ((List.takeWhile_prefix _).subset hc)
      have htrim : trimEnd isLineEnd (trimEnd isLineEnd content) = trimEnd isLineEnd content :=
        List.rdropWhile_idempotent _ _
      conv_lhs => rw [hsplit]
      rw [List.takeWhile_append_of_pos hcore,trimEnd_append _ htail,htrim]

def emptyDisk : Disk Text := ⟨fun _ => none,fun _ => none⟩

def attempt (choice : DataChoice Text) (supplied : Option Text) (generated : Text) :
    Attempt Text where
  request := ⟨choice,supplied,generated⟩
  dead := []
  faults := ⟨false,false,false,false,false,false,false⟩
  own := .skipped
  upstream := .initdbRun

def afterAttempts (as : List (Attempt Text)) : Disk Text :=
  as.foldl (fun k a => a.run firstLineInitdb k) emptyDisk

theorem afterAttempts_reachable (as : List (Attempt Text)) :
    (bootstraps firstLineInitdb).Reachable (afterAttempts as) := by
  have hall : ∀ k, (bootstraps firstLineInitdb).Reachable k →
      (bootstraps firstLineInitdb).Reachable
        (as.foldl (fun k a => a.run firstLineInitdb k) k) := by
    induction as with
    | nil => exact fun _ h => h
    | cons a rest ih =>
      intro k h
      exact ih _ (System.reachable_step _ h (a := .bootstrap a) rfl)
  exact hall _ (System.reachable_init _ (fun _ => rfl))

/-- A run in which the last attempt reports what its cluster was not given. -/
theorem not_agrees (as : List (Attempt Text)) {a : Attempt Text} (given reported : Text)
    (hne : reported ≠ given) (hsupplied : a.request.supplied = none)
    (hcluster : ((a.claimed (afterAttempts as)).cluster a.dataDir).map ClusterDir.password =
      some given)
    (hreported : (a.prepared (afterAttempts as)).2 = .ok reported) :
    ∃ k, (bootstraps firstLineInitdb).Reachable k ∧ ¬ Agrees a.dataDir k (.bootstrap a) := by
  refine ⟨afterAttempts as,afterAttempts_reachable as,?_⟩
  intro hagrees
  obtain ⟨c,hc,rfl⟩ := Option.map_eq_some_iff.mp hcluster
  exact hne (hagrees rfl hsupplied c hc reported hreported)

def firstDir : Text := "first".toList

def secondDir : Text := "second".toList

/-! ### Every run -/

/-- In every run that keeps the password file of the cluster in `d`, each bootstrap that opens
it as it was made reports its password. -/
theorem password_agreement (i : Initdb) (d : δ) {k : Disk δ} {a : Action δ}
    (h : ((bootstraps i).restrict (KeepsFile d)).Reachable k) (hopen : OpenedAsMade d k a) :
    Agrees d k a := by
  have hrecorded : Recorded d k := by
    refine System.invariant _ ?_ ?_ h
    · intro k hinit c hc
      rw [hinit d] at hc
      cases hc
    · rintro k a _ hk ⟨hkeeps,rfl⟩
      cases a with
      | bootstrap a => exact hk.attempt i a hkeeps
      | removed e => exact hk.setCluster_none e
  cases a with
  | removed e => trivial
  | bootstrap a =>
    intro hd hsupplied c hc password hok
    obtain ⟨-,content,hcontent,hpassword⟩ := hrecorded.claimed a c hc
    have hsome : ((a.claimed k).cluster a.request.choice.dataDir).isSome = true := by
      have hdir := congrArg (a.claimed k).cluster hd
      rw [Attempt.dataDir,hc] at hdir
      rw [hdir]
      rfl
    obtain ⟨found,hfound,hreported⟩ :=
      ((prepareBootstrap_cases (a.claimed k) a.request a.faults).2 password hok).2 hsupplied hsome
    have hsource := hopen hd c hc
    rw [Attempt.passwordFile] at hsource
    rw [hsource,hcontent] at hfound
    obtain rfl := Stored.text.inj (Option.some.inj hfound)
    rw [hreported,hpassword]

/-- Made and opened again, with nothing else in between. -/
theorem password_agreement_reopened :
    ∃ k, (attempt (.named firstDir) none "beta".toList).prepared k =
        (k,.ok "alpha".toList) ∧
      Agrees firstDir k (.bootstrap (attempt (.named firstDir) none "beta".toList)) := by
  let made := attempt (.named firstDir) none "alpha".toList
  have hkeeps : KeepsFile firstDir emptyDisk (.bootstrap made) := by
    refine ⟨fun _ _ => by unfold SingleLine; decide,?_⟩
    intro c hc
    cases hc
  have hreach : ((bootstraps firstLineInitdb).restrict (KeepsFile firstDir)).Reachable
      (afterAttempts [made]) :=
    System.reachable_step _ (System.reachable_init _ (fun _ => rfl)) ⟨hkeeps,rfl⟩
  refine ⟨afterAttempts [made],by rfl,password_agreement firstLineInitdb firstDir hreach ?_⟩
  intro _ c hc
  cases hc
  rfl

/-- Two named directories share a file: the second cluster's bootstrap discards the first one's
password and the first is opened with the second's. A slot's directory opened by name is given
the named ones' password, and of two lines `initdb` takes the first. -/
theorem password_not_shared :
    (∃ k, (bootstraps firstLineInitdb).Reachable k ∧ ¬ Agrees firstDir k
      (.bootstrap (attempt (.named firstDir) none "gamma".toList))) ∧
    (∃ k, (bootstraps firstLineInitdb).Reachable k ∧ ¬ Agrees secondDir k
      (.bootstrap (attempt (.named secondDir) none "gamma".toList))) ∧
    (∃ k, (bootstraps firstLineInitdb).Reachable k ∧ ¬ Agrees firstDir k
      (.bootstrap (attempt (.named firstDir) none "gamma".toList))) := by
  refine ⟨?_,?_,?_⟩
  · exact not_agrees [attempt (.named firstDir) none "alpha".toList,
      attempt (.named secondDir) none "beta".toList] "alpha".toList
      "beta".toList (by decide) rfl (by decide +kernel) (by decide +kernel)
  · exact not_agrees [attempt (.slot secondDir) none "alpha".toList,
      attempt (.named firstDir) none "beta".toList] "alpha".toList
      "beta".toList (by decide) rfl (by decide +kernel) (by decide +kernel)
  · exact not_agrees [attempt (.named firstDir) (some "alpha\nbeta".toList) []]
      "alpha".toList "alpha\nbeta".toList (by decide) rfl
      (by decide +kernel) (by decide +kernel)

end PgEmbedSetup.Prepare
