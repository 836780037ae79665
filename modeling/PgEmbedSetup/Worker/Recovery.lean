import PgEmbedSetup.Library.StateRun

set_option autoImplicit false

/-!
`src/bin/pg_worker.rs` and `src/durability.rs`: how the worker sets a data directory up, and
what it does with one that an interrupted setup has left half made.
-/

namespace PgEmbedSetup.Worker
open Library

/-- A file or directory below the data directory, by its path from there. -/
abbrev Entry := List String

inductive DataDir where
  | missing
  | notDirectory
  | dir (entries : List Entry)
  deriving DecidableEq, Repr

def DataDir.isDir : DataDir → Bool
  | .dir _ => true
  | .missing | .notDirectory => false

def DataDir.contains : DataDir → Entry → Bool
  | .dir entries, e => entries.contains e
  | .missing, _ | .notDirectory, _ => false

def pgFilenodeMapMarker : Entry := ["global","pg_filenode.map"]

def pgVersion : Entry := ["PG_VERSION"]

def postgresqlConf : Entry := ["postgresql.conf"]

inductive Status where
  | notInstalled
  | installed
  | stopped
  | started
  deriving DecidableEq, Repr

inductive WorkerError where
  | postgresOperation (detail : String)
  | dataDirRecovery (detail : String)
  deriving DecidableEq, Repr

/-- The two operations that set a cluster up. -/
inductive Operation where
  | setup
  | start
  deriving DecidableEq, Repr

/-- `resets` and `starts` record the data directory as each removal and server start found it. -/
structure World (ι : Type) where
  installation : ι
  dataDir : DataDir
  resets : List DataDir
  starts : List DataDir

def World.initial {ι : Type} (installation : ι) (dataDir : DataDir) : World ι :=
  ⟨installation,dataDir,[],[]⟩

/-- What is not this crate's own code: `postgresql_embedded` and `initdb`. A call returns its
error, if any, and what it leaves behind. -/
structure Postgres (ι : Type) where
  status : ι → DataDir → Status
  /-- `installed_initdb` finds the program. -/
  installedInitdb : ι → Bool
  initdb : DataDir → Option String × DataDir
  setup : ι → DataDir → Option String × ι × DataDir
  start : ι → DataDir → Option String × DataDir

inductive Probe where
  | validation
  | emptyCheck
  | reset
  deriving DecidableEq, Repr

/-- The settings and faults one run of the worker meets. -/
structure Host where
  /-- `fsync = off` in the configuration. -/
  disposable : Bool
  /-- Why the password file cannot be written, when it is not there and cannot. -/
  passwordFile : Option String
  joinError : Option String
  ambientDir : Probe → Option String
  readDir : Option String
  /-- The data directory is a root, so its relative path is empty. -/
  isRoot : Bool
  /-- Why a removal stops, and which entries it leaves. -/
  removeDirAll : Option (String × (Entry → Bool))

section
variable {ι : Type}

abbrev WorkerM (ι : Type) := EStateM WorkerError (World ι)

abbrev IoM (ι : Type) := EStateM String (World ι)

def mapErr {α : Type} (f : String → WorkerError) (x : IoM ι α) : WorkerM ι α := x.adaptExcept f

def attempt (fault : Option String) : IoM ι Unit :=
  match fault with
  | none => pure ()
  | some e => throw e

/-! ### `durability.rs` -/

def runToCompletion (p : Postgres ι) : IoM ι Unit := fun w =>
  match p.initdb w.dataDir with
  | (none,d) => .ok () { w with dataDir := d }
  | (some e,d) => .error e { w with dataDir := d }

def initializeWithoutSync (p : Postgres ι) (h : Host) : IoM ι Bool := do
  let w ← get
  if !h.disposable || w.dataDir.contains postgresqlConf then pure false
  else if !p.installedInitdb w.installation then pure false
  else do
    attempt h.passwordFile
    runToCompletion p
    pure true

/-! ### `pg_worker.rs` -/

def isSetupComplete (p : Postgres ι) (w : World ι) : Bool :=
  w.dataDir.isDir && w.dataDir.contains pgVersion &&
    p.status w.installation w.dataDir ≠ .notInstalled

def pgSetup (p : Postgres ι) : IoM ι Unit := fun w =>
  match p.setup w.installation w.dataDir with
  | (none,i,d) => .ok () { w with installation := i, dataDir := d }
  | (some e,i,d) => .error e { w with installation := i, dataDir := d }

def runSetup (p : Postgres ι) (h : Host) : WorkerM ι Unit := do
  mapErr (fun e => .postgresOperation ("initdb task failed: " ++ e)) (attempt h.joinError)
  let _ ← mapErr (fun e => .postgresOperation ("setup failed: " ++ e)) (initializeWithoutSync p h)
  mapErr (fun e => .postgresOperation ("setup failed: " ++ e)) (pgSetup p)

def hasValidDataDir (h : Host) : IoM ι Bool := do
  attempt (h.ambientDir .validation)
  return (← get).dataDir.contains pgFilenodeMapMarker

def isDirEmpty (h : Host) : IoM ι Bool := do
  attempt (h.ambientDir .emptyCheck)
  match (← get).dataDir with
  | .missing => throw "No such file or directory (os error 2)"
  | .notDirectory => throw "Not a directory (os error 20)"
  | .dir entries => do
    attempt h.readDir
    pure entries.isEmpty

def removeDirAll (h : Host) : IoM ι Unit := fun w =>
  match w.dataDir with
  | .missing => .ok () w
  | .notDirectory => .error "Not a directory (os error 20)" w
  | .dir entries =>
    let resets := w.resets ++ [w.dataDir]
    match h.removeDirAll with
    | none => .ok () { w with dataDir := .missing, resets }
    | some (e,left) => .error e { w with dataDir := .dir (entries.filter left), resets }

def resetDataDir (h : Host) : IoM ι Unit := do
  attempt (h.ambientDir .reset)
  if h.isRoot then throw "cannot reset root directory"
  else removeDirAll h

def performDataDirReset (h : Host) : WorkerM ι Unit :=
  mapErr (fun e => .dataDirRecovery ("reset: " ++ e)) (resetDataDir h)

def recoverInvalidDataDir (h : Host) : WorkerM ι Unit := do
  if (← get).dataDir = .missing then pure ()
  else do
    let isValid ← mapErr (fun e => .dataDirRecovery ("validation: " ++ e)) (hasValidDataDir h)
    let isEmpty ← mapErr (fun e => .dataDirRecovery ("empty check: " ++ e)) (isDirEmpty h)
    if !isValid && !isEmpty then performDataDirReset h else pure ()

def runPostgresSetup (p : Postgres ι) (h : Host) : WorkerM ι Unit := do
  if isSetupComplete p (← get) then pure ()
  else do
    recoverInvalidDataDir h
    runSetup p h

def pgStart (p : Postgres ι) : IoM ι Unit := fun w =>
  let starts := w.starts ++ [w.dataDir]
  match p.start w.installation w.dataDir with
  | (none,d) => .ok () { w with dataDir := d, starts }
  | (some e,d) => .error e { w with dataDir := d, starts }

def startIfNotStarted (p : Postgres ι) : WorkerM ι Unit := do
  let w ← get
  if p.status w.installation w.dataDir = .started then pure ()
  else mapErr (fun e => .postgresOperation ("start failed: " ++ e)) (pgStart p)

def ensurePostgresStarted (p : Postgres ι) (h : Host) : WorkerM ι Unit := do
  runPostgresSetup p h
  startIfNotStarted p

def execute (p : Postgres ι) (h : Host) : Operation → WorkerM ι Unit
  | .setup => runPostgresSetup p h
  | .start => ensurePostgresStarted p h

end

/-! ### What the worker relies on -/

def DataDir.Fresh (d : DataDir) : Prop := d = .missing ∨ d = .dir []

/-- Left by a setup that was interrupted before the marker. -/
def DataDir.HalfMade (d : DataDir) : Prop :=
  d.isDir = true ∧ d ≠ .dir [] ∧ d.contains pgFilenodeMapMarker = false

/-- `initdb` and `setup` leave the marker in a directory they have initialised. `initdb` refuses
a directory that is not empty, and `setup` leaves one that is initialised as it is. -/
structure Postgres.Documented {ι : Type} (p : Postgres ι) : Prop where
  initdb_fresh : ∀ d d', d.Fresh → p.initdb d = (none,d') →
    d'.contains pgFilenodeMapMarker = true
  setup_fresh : ∀ i d i' d', d.Fresh → p.setup i d = (none,i',d') →
    d'.contains pgFilenodeMapMarker = true
  initdb_keeps : ∀ d, d.contains pgFilenodeMapMarker = true →
    (p.initdb d).2.contains pgFilenodeMapMarker = true
  setup_keeps : ∀ i d, d.contains pgFilenodeMapMarker = true →
    (p.setup i d).2.2.contains pgFilenodeMapMarker = true
  start_keeps : ∀ i d, d.contains pgFilenodeMapMarker = true →
    (p.start i d).2.contains pgFilenodeMapMarker = true

/-- What an operation owes to a data directory it finds in state `d`. -/
structure Recovers {ι : Type} (p : Postgres ι) (h : Host) (op : Operation) (i : ι) (d : DataDir) :
    Prop where
  spares : d.contains pgFilenodeMapMarker = true →
    (stateOf (execute p h op (.initial i d))).dataDir.contains pgFilenodeMapMarker = true
  resets : ∀ found ∈ (stateOf (execute p h op (.initial i d))).resets,
    found.contains pgFilenodeMapMarker = false
  setUp : ∀ t, runPostgresSetup p h (.initial i d) = .ok () t →
    t.dataDir.contains pgFilenodeMapMarker = true ∧ (d.HalfMade → d ∈ t.resets)
  starts : ∀ found ∈ (stateOf (execute p h op (.initial i d))).starts,
    found.contains pgFilenodeMapMarker = true

/-! ### What each step leaves alone -/

section
variable {ι α β : Type} {p : Postgres ι} {h : Host} {w t : World ι}

@[simp] theorem mapErr_run (f : String → WorkerError) (x : IoM ι α) (w : World ι) :
    mapErr f x w = match x w with | .ok a t => .ok a t | .error e t => .error (f e) t := by
  unfold mapErr EStateM.adaptExcept
  cases x w <;> rfl

theorem changes_mapErr_at {R : World ι → World ι → Prop} {x : IoM ι α}
    (hx : R w (stateOf (x w))) (f : String → WorkerError) : R w (stateOf (mapErr f x w)) := by
  rw [mapErr_run]
  cases hrun : x w with
  | ok a t =>
    rw [hrun] at hx
    exact hx
  | error e t =>
    rw [hrun] at hx
    exact hx

theorem changes_mapErr {R : World ι → World ι → Prop} {x : IoM ι α} (hx : Changes R x)
    (f : String → WorkerError) : Changes R (mapErr f x) :=
  fun w => changes_mapErr_at (hx w) f

/-- A marker survives, and nothing with a marker is removed. -/
structure Spares (w t : World ι) : Prop where
  marker : w.dataDir.contains pgFilenodeMapMarker = true →
    t.dataDir.contains pgFilenodeMapMarker = true
  resets : ∀ d ∈ t.resets, d ∈ w.resets ∨ d.contains pgFilenodeMapMarker = false

theorem Spares.refl (w : World ι) : Spares w w := ⟨id,fun _ hd => .inl hd⟩

theorem Spares.trans (w t u : World ι) (h₁ : Spares w t) (h₂ : Spares t u) : Spares w u := by
  refine ⟨fun hm => h₂.marker (h₁.marker hm),fun d hd => ?_⟩
  rcases h₂.resets d hd with hold | hnew
  · exact h₁.resets d hold
  · exact .inr hnew

theorem attempt_state (fault : Option String) (w : World ι) : stateOf (attempt fault w) = w := by
  cases fault <;> rfl

theorem attempt_spares (fault : Option String) : Changes Spares (attempt fault : IoM ι Unit) := by
  intro w
  rw [attempt_state]
  exact .refl w

theorem runToCompletion_spares (hp : p.Documented) : Changes Spares (runToCompletion p) := by
  intro w
  have hk := hp.initdb_keeps w.dataDir
  unfold runToCompletion
  rcases hrun : p.initdb w.dataDir with ⟨_ | e,d⟩ <;> rw [hrun] at hk <;>
    exact ⟨hk,fun _ hd => .inl hd⟩

theorem pgSetup_spares (hp : p.Documented) : Changes Spares (pgSetup p) := by
  intro w
  have hk := hp.setup_keeps w.installation w.dataDir
  unfold pgSetup
  rcases hrun : p.setup w.installation w.dataDir with ⟨_ | e,i,d⟩ <;> rw [hrun] at hk <;>
    exact ⟨hk,fun _ hd => .inl hd⟩

theorem pgStart_spares (hp : p.Documented) : Changes Spares (pgStart p) := by
  intro w
  have hk := hp.start_keeps w.installation w.dataDir
  unfold pgStart
  rcases hrun : p.start w.installation w.dataDir with ⟨_ | e,d⟩ <;> rw [hrun] at hk <;>
    exact ⟨hk,fun _ hd => .inl hd⟩

theorem initializeWithoutSync_spares (hp : p.Documented) :
    Changes Spares (initializeWithoutSync p h) := by
  intro w
  simp only [initializeWithoutSync,bind_run,get_run,ite_run,pure_run]
  split
  · exact .refl w
  · split
    · exact .refl w
    · exact (attempt_spares _).bind Spares.trans (fun _ =>
        (runToCompletion_spares hp).bind Spares.trans (fun _ => .pure Spares.refl true)) w

theorem runSetup_spares (hp : p.Documented) : Changes Spares (runSetup p h) :=
  (changes_mapErr (attempt_spares _) _).bind Spares.trans fun _ =>
    (changes_mapErr (initializeWithoutSync_spares hp) _).bind Spares.trans fun _ =>
      changes_mapErr (pgSetup_spares hp) _

theorem hasValidDataDir_run (w : World ι) :
    hasValidDataDir h w = .ok (w.dataDir.contains pgFilenodeMapMarker) w ∨
      ∃ e, hasValidDataDir h w = .error e w := by
  cases hf : h.ambientDir .validation with
  | none => exact .inl (by simp [hasValidDataDir,attempt,hf])
  | some e => exact .inr ⟨e,by simp [hasValidDataDir,attempt,hf]⟩

theorem isDirEmpty_run (w : World ι) :
    (∃ entries, w.dataDir = .dir entries ∧ isDirEmpty h w = .ok entries.isEmpty w) ∨
      ∃ e, isDirEmpty h w = .error e w := by
  cases hf : h.ambientDir .emptyCheck with
  | some e => exact .inr ⟨e,by simp [isDirEmpty,attempt,hf]⟩
  | none =>
    cases hd : w.dataDir with
    | missing => exact .inr ⟨_,by simp [isDirEmpty,attempt,hf,hd]; rfl⟩
    | notDirectory => exact .inr ⟨_,by simp [isDirEmpty,attempt,hf,hd]; rfl⟩
    | dir entries =>
      cases hr : h.readDir with
      | some e => exact .inr ⟨e,by simp [isDirEmpty,attempt,hf,hd,hr]⟩
      | none => exact .inl ⟨entries,rfl,by simp [isDirEmpty,attempt,hf,hd,hr]⟩

/-- A removal records what it found, and afterwards the directory is gone. -/
theorem resetDataDir_run (w : World ι) :
    stateOf (resetDataDir h w) = w ∨
      (stateOf (resetDataDir h w)).resets = w.resets ++ [w.dataDir] := by
  cases hf : h.ambientDir .reset with
  | some e => exact .inl (by simp [resetDataDir,attempt,hf,stateOf])
  | none =>
    cases hr : h.isRoot with
    | true => exact .inl (by simp [resetDataDir,attempt,hf,hr,stateOf])
    | false =>
      cases hd : w.dataDir with
      | missing => exact .inl (by simp [resetDataDir,attempt,hf,hr,removeDirAll,hd,stateOf])
      | notDirectory => exact .inl (by simp [resetDataDir,attempt,hf,hr,removeDirAll,hd,stateOf])
      | dir entries =>
        cases hrm : h.removeDirAll <;>
          exact .inr (by simp [resetDataDir,attempt,hf,hr,removeDirAll,hd,hrm,stateOf])

theorem recoverInvalidDataDir_spares : Changes Spares (recoverInvalidDataDir h : WorkerM ι Unit) := by
  intro w
  simp only [recoverInvalidDataDir,bind_run,get_run,ite_run,pure_run,mapErr_run]
  by_cases hd : w.dataDir = .missing
  · simpa [hd] using Spares.refl w
  rcases hasValidDataDir_run (h := h) w with hv | ⟨e,hv⟩
  · rcases isDirEmpty_run (h := h) w with ⟨entries,hentries,he⟩ | ⟨e,he⟩
    · simp only [hd,if_false,hv,he]
      cases hm : w.dataDir.contains pgFilenodeMapMarker with
      | true => simpa using Spares.refl w
      | false =>
        by_cases hempty : entries.isEmpty = true
        · simpa [hempty] using Spares.refl w
        · have hreset := resetDataDir_run (h := h) w
          simp only [hempty,Bool.not_false,Bool.and_self,if_true,performDataDirReset]
          refine changes_mapErr_at ?_ _
          rcases hreset with hsame | hrecord
          · rw [hsame]
            exact .refl w
          · refine ⟨fun hmarker => ?_,fun d hdm => ?_⟩
            · rw [hm] at hmarker
              cases hmarker
            · rw [hrecord] at hdm
              rcases List.mem_append.mp hdm with hold | hnew
              · exact .inl hold
              · rw [List.mem_singleton.mp hnew]
                exact .inr hm
    · simpa [hd,hv,he] using Spares.refl w
  · simpa [hd,hv] using Spares.refl w

theorem runPostgresSetup_spares (hp : p.Documented) :
    Changes Spares (runPostgresSetup p h) := by
  intro w
  simp only [runPostgresSetup,bind_run,get_run,ite_run,pure_run]
  split
  · exact .refl w
  · exact recoverInvalidDataDir_spares.bind Spares.trans (fun _ => runSetup_spares hp) w

theorem startIfNotStarted_spares (hp : p.Documented) : Changes Spares (startIfNotStarted p) := by
  intro w
  simp only [startIfNotStarted,bind_run,get_run,ite_run,pure_run]
  split
  · exact .refl w
  · exact changes_mapErr (pgStart_spares hp) _ w

theorem execute_spares (hp : p.Documented) (op : Operation) : Changes Spares (execute p h op) := by
  cases op with
  | setup => exact runPostgresSetup_spares hp
  | start =>
    exact (runPostgresSetup_spares hp).bind Spares.trans (fun _ => startIfNotStarted_spares hp)

/-! ### What a setup that succeeds has made of the directory -/

/-- Setup proper writes no record. -/
def Unrecorded (w t : World ι) : Prop := t.resets = w.resets ∧ t.starts = w.starts

theorem runSetup_unrecorded : Changes Unrecorded (runSetup p h) := by
  have htrans : ∀ w t u : World ι, Unrecorded w t → Unrecorded t u → Unrecorded w u :=
    fun _ _ _ h₁ h₂ => ⟨h₂.1.trans h₁.1,h₂.2.trans h₁.2⟩
  have hattempt (fault : Option String) : Changes Unrecorded (attempt fault : IoM ι Unit) := by
    intro w
    rw [attempt_state]
    exact ⟨rfl,rfl⟩
  have hrun : Changes Unrecorded (runToCompletion p) := by
    intro w
    unfold runToCompletion
    rcases p.initdb w.dataDir with ⟨_ | e,d⟩ <;> exact ⟨rfl,rfl⟩
  have hsetup : Changes Unrecorded (pgSetup p) := by
    intro w
    unfold pgSetup
    rcases p.setup w.installation w.dataDir with ⟨_ | e,i,d⟩ <;> exact ⟨rfl,rfl⟩
  have hinit : Changes Unrecorded (initializeWithoutSync p h) := by
    intro w
    simp only [initializeWithoutSync,bind_run,get_run,ite_run,pure_run]
    split
    · exact ⟨rfl,rfl⟩
    · split
      · exact ⟨rfl,rfl⟩
      · exact (hattempt _).bind htrans (fun _ => hrun.bind htrans
          (fun _ => .pure (fun _ => ⟨rfl,rfl⟩) true)) w
  exact (changes_mapErr (hattempt _) _).bind htrans fun _ =>
    (changes_mapErr hinit _).bind htrans fun _ => changes_mapErr hsetup _

/-- Recovery goes on with a directory that has the marker, as it is, or with a fresh one. -/
theorem recoverInvalidDataDir_ok (hr : recoverInvalidDataDir h w = .ok () t) :
    (w.dataDir.contains pgFilenodeMapMarker = true ∧ t = w) ∨
      (t.dataDir.Fresh ∧ t.starts = w.starts ∧ (w.dataDir.HalfMade → w.dataDir ∈ t.resets)) := by
  simp only [recoverInvalidDataDir,bind_run,get_run,ite_run,pure_run,mapErr_run] at hr
  by_cases hd : w.dataDir = .missing
  · simp only [hd,if_true,EStateM.Result.ok.injEq,true_and] at hr
    subst hr
    exact .inr ⟨.inl hd,rfl,fun hhalf => by simp [DataDir.HalfMade,DataDir.isDir,hd] at hhalf⟩
  rcases hasValidDataDir_run (h := h) w with hv | ⟨e,hv⟩
  · rcases isDirEmpty_run (h := h) w with ⟨entries,hentries,he⟩ | ⟨e,he⟩
    · simp only [hd,if_false,hv,he] at hr
      cases hm : w.dataDir.contains pgFilenodeMapMarker with
      | true => exact .inl ⟨rfl,by simpa [hm,eq_comm] using hr⟩
      | false =>
        right
        by_cases hempty : entries.isEmpty = true
        · have ht : t = w := by simpa [hm,hempty,eq_comm] using hr
          have hnil : w.dataDir = .dir [] := by rw [hentries,List.isEmpty_iff.mp hempty]
          subst ht
          exact ⟨.inr hnil,rfl,fun hhalf => absurd hnil hhalf.2.1⟩
        · simp only [hm,hempty,Bool.not_false,Bool.and_self,if_true,performDataDirReset,
            mapErr_run,resetDataDir,bind_run] at hr
          cases hf : h.ambientDir .reset <;> cases hroot : h.isRoot <;>
            cases hrm : h.removeDirAll <;>
            simp [hf,hroot,hrm,attempt,removeDirAll,hentries] at hr
          subst hr
          exact ⟨.inl rfl,rfl,fun _ => by simp [hentries]⟩
    · simp [hd,hv,he] at hr
  · simp [hd,hv] at hr

/-- After a setup without error a directory that was fresh, or had the marker, has it. -/
theorem runSetup_ok (hp : p.Documented) (hr : runSetup p h w = .ok () t)
    (hw : w.dataDir.contains pgFilenodeMapMarker = true ∨ w.dataDir.Fresh) :
    t.dataDir.contains pgFilenodeMapMarker = true := by
  obtain ⟨_,u,hattempt,hr⟩ := bind_eq_ok hr
  obtain ⟨ran,v,hinit,hsetup⟩ := bind_eq_ok hr
  have hu : u = w := by
    cases hj : h.joinError <;> simp [hj,attempt] at hattempt
    exact hattempt.symm
  subst hu
  have hv : v.dataDir.contains pgFilenodeMapMarker = true ∨ v.dataDir.Fresh := by
    simp only [mapErr_run] at hinit
    cases hi : initializeWithoutSync p h u with
    | error e x => simp [hi] at hinit
    | ok b x =>
      simp only [hi,EStateM.Result.ok.injEq] at hinit
      obtain ⟨rfl,rfl⟩ := hinit
      rcases hw with hm | hfresh
      · left
        have := (initializeWithoutSync_spares (h := h) hp u).marker hm
        rwa [hi] at this
      · simp only [initializeWithoutSync,bind_run,get_run,ite_run,pure_run] at hi
        split at hi
        · simp only [EStateM.Result.ok.injEq] at hi
          rw [← hi.2]
          exact .inr hfresh
        · split at hi
          · simp only [EStateM.Result.ok.injEq] at hi
            rw [← hi.2]
            exact .inr hfresh
          · left
            cases hpw : h.passwordFile with
            | some e => simp [hpw,attempt] at hi
            | none =>
              simp only [hpw,attempt,pure_run,runToCompletion] at hi
              rcases hdb : p.initdb u.dataDir with ⟨_ | e,d⟩
              · simp only [hdb,EStateM.Result.ok.injEq] at hi
                rw [← hi.2]
                exact hp.initdb_fresh _ _ hfresh hdb
              · simp [hdb] at hi
  simp only [mapErr_run,pgSetup] at hsetup
  rcases hset : p.setup v.installation v.dataDir with ⟨_ | e,i,d⟩
  · simp only [hset,EStateM.Result.ok.injEq,true_and] at hsetup
    subst hsetup
    rcases hv with hm | hfresh
    · have := hp.setup_keeps v.installation v.dataDir hm
      rwa [hset] at this
    · exact hp.setup_fresh _ _ _ _ hfresh hset
  · simp [hset] at hsetup

theorem runPostgresSetup_ok (hp : p.Documented)
    (hcomplete : isSetupComplete p w = true → w.dataDir.contains pgFilenodeMapMarker = true)
    (hr : runPostgresSetup p h w = .ok () t) :
    t.dataDir.contains pgFilenodeMapMarker = true ∧ t.starts = w.starts ∧
      (w.dataDir.HalfMade → w.dataDir ∈ t.resets) := by
  simp only [runPostgresSetup,bind_run,get_run,ite_run,pure_run] at hr
  split at hr
  · rename_i hc
    simp only [EStateM.Result.ok.injEq,true_and] at hr
    subst hr
    have hm := hcomplete hc
    exact ⟨hm,rfl,fun hhalf => by rw [hhalf.2.2] at hm; cases hm⟩
  · cases hrec : recoverInvalidDataDir h w with
    | error e u => simp [hrec] at hr
    | ok _ u =>
      simp only [hrec] at hr
      have hquiet := runSetup_unrecorded (p := p) (h := h) u
      rw [hr] at hquiet
      rcases recoverInvalidDataDir_ok hrec with ⟨hm,rfl⟩ | ⟨hfresh,hstarts,hreset⟩
      · refine ⟨runSetup_ok hp hr (.inl hm),hquiet.2,fun hhalf => ?_⟩
        rw [hhalf.2.2] at hm
        cases hm
      · refine ⟨runSetup_ok hp hr (.inr hfresh),hquiet.2.trans hstarts,fun hhalf => ?_⟩
        rw [show t.resets = u.resets from hquiet.1]
        exact hreset hhalf

theorem recoverInvalidDataDir_starts (w : World ι) :
    (stateOf (recoverInvalidDataDir h w)).starts = w.starts := by
  simp only [recoverInvalidDataDir,bind_run,get_run,ite_run,pure_run,mapErr_run]
  by_cases hd : w.dataDir = .missing
  · simp [hd]
  rcases hasValidDataDir_run (h := h) w with hv | ⟨e,hv⟩
  · rcases isDirEmpty_run (h := h) w with ⟨entries,hentries,he⟩ | ⟨e,he⟩
    · simp only [hd,if_false,hv,he]
      split
      · refine changes_mapErr_at (R := fun w t => t.starts = w.starts) ?_ _
        cases hf : h.ambientDir .reset <;> cases hroot : h.isRoot <;>
          cases hrm : h.removeDirAll <;>
          simp [hf,hroot,hrm,resetDataDir,attempt,removeDirAll,hentries]
      · rfl
    · simp [hd,hv,he]
  · simp [hd,hv]

/-- A setup that fails has started nothing. -/
theorem runPostgresSetup_error {e : WorkerError} (hr : runPostgresSetup p h w = .error e t) :
    t.starts = w.starts := by
  simp only [runPostgresSetup,bind_run,get_run,ite_run,pure_run] at hr
  split at hr
  · cases hr
  · have hstarts := recoverInvalidDataDir_starts (h := h) w
    cases hrec : recoverInvalidDataDir h w with
    | error e' u =>
      simp only [hrec,EStateM.Result.error.injEq] at hr
      rw [hrec] at hstarts
      rw [← hr.2]
      exact hstarts
    | ok _ u =>
      simp only [hrec] at hr
      rw [hrec] at hstarts
      have hquiet := runSetup_unrecorded (p := p) (h := h) u
      rw [hr] at hquiet
      exact hquiet.2.trans hstarts

theorem startIfNotStarted_starts (w : World ι) :
    (stateOf (startIfNotStarted p w)).starts =
      if p.status w.installation w.dataDir = .started then w.starts
      else w.starts ++ [w.dataDir] := by
  simp only [startIfNotStarted,bind_run,get_run,ite_run,pure_run]
  split
  · rfl
  · refine changes_mapErr_at (R := fun w t => t.starts = w.starts ++ [w.dataDir]) ?_ _
    unfold pgStart
    rcases p.start w.installation w.dataDir with ⟨_ | e,d⟩ <;> rfl

end

/-- The setup phase takes `PG_VERSION` and installed binaries for a complete directory, so it
does what it should exactly where that test does not pass over a missing marker. -/
theorem recovers_iff {ι : Type} (p : Postgres ι) (hp : p.Documented) (h : Host) (op : Operation)
    (i : ι) (d : DataDir) :
    Recovers p h op i d ↔
      (isSetupComplete p (.initial i d) = true → d.contains pgFilenodeMapMarker = true) := by
  constructor
  · intro hrec hcomplete
    exact (hrec.setUp (.initial i d) (by simp [runPostgresSetup,hcomplete])).1
  · intro hcomplete
    have hspares := execute_spares (h := h) hp op (.initial i d)
    refine ⟨hspares.marker,fun found hf => ?_,fun t ht => ?_,?_⟩
    · rcases hspares.resets found hf with hold | hnew
      · cases hold
      · exact hnew
    · have hok := runPostgresSetup_ok hp hcomplete ht
      exact ⟨hok.1,hok.2.2⟩
    · intro found hf
      cases hset : runPostgresSetup p h (.initial i d) with
      | error e t =>
        have hnone : (stateOf (execute p h op (.initial i d))).starts = t.starts := by
          cases op <;> simp [execute,ensurePostgresStarted,hset]
        rw [hnone,runPostgresSetup_error hset] at hf
        cases hf
      | ok _ t =>
        obtain ⟨hmarker,hstarts,-⟩ := runPostgresSetup_ok hp hcomplete hset
        have hall : ∀ found ∈ (stateOf (startIfNotStarted p t)).starts, found = t.dataDir := by
          intro found hf
          rw [startIfNotStarted_starts,hstarts] at hf
          split at hf
          · cases hf
          · simpa [World.initial] using hf
        cases op with
        | setup =>
          simp only [execute,hset,stateOf_ok,hstarts] at hf
          cases hf
        | start =>
          simp only [execute,ensurePostgresStarted,bind_run,hset] at hf
          rw [hall found hf]
          exact hmarker

/-! ### The upstream crate and a setup killed after `PG_VERSION` -/

def initialised : List Entry :=
  [pgVersion,["base"],["global"],pgFilenodeMapMarker,postgresqlConf]

def upstreamInitdb : DataDir → Option String × DataDir
  | .missing | .dir [] => (none,.dir initialised)
  | d => (some "initdb: error: directory exists but is not empty",d)

/-- The installation is whether the binaries are there. -/
def upstream : Postgres Bool where
  status installed d :=
    if d.contains ["postmaster.pid"] then .started
    else if d.contains postgresqlConf then .stopped
    else if installed then .installed
    else .notInstalled
  installedInitdb installed := installed
  initdb := upstreamInitdb
  setup _ d :=
    if d.contains postgresqlConf then (none,true,d)
    else ((upstreamInitdb d).1,true,(upstreamInitdb d).2)
  start _ d :=
    match d with
    | .dir entries => (none,.dir (["postmaster.pid"] :: entries))
    | d => (some "could not start server",d)

theorem upstreamInitdb_keeps {d : DataDir} (hm : d.contains pgFilenodeMapMarker = true) :
    (upstreamInitdb d).2.contains pgFilenodeMapMarker = true := by
  rcases d with _ | _ | ⟨_ | ⟨e,rest⟩⟩
  · cases hm
  · cases hm
  · cases hm
  · exact hm

theorem upstreamInitdb_fresh {d : DataDir} (hd : d.Fresh) :
    upstreamInitdb d = (none,.dir initialised) := by
  rcases hd with rfl | rfl <;> rfl

theorem upstream_documented : upstream.Documented where
  initdb_fresh d d' hd h := by
    rw [show upstream.initdb d = _ from upstreamInitdb_fresh hd,Prod.mk.injEq] at h
    rw [← h.2]
    decide
  setup_fresh i d i' d' hd h := by
    have hconf : d.contains postgresqlConf = false := by rcases hd with rfl | rfl <;> rfl
    simp only [upstream,hconf,Bool.false_eq_true,if_false,upstreamInitdb_fresh hd,
      Prod.mk.injEq] at h
    rw [← h.2.2]
    decide
  initdb_keeps d hm := upstreamInitdb_keeps hm
  setup_keeps i d hm := by
    by_cases hconf : d.contains postgresqlConf = true
    · simpa [upstream,hconf] using hm
    · simpa [upstream,hconf] using upstreamInitdb_keeps hm
  start_keeps i d hm := by
    cases d with
    | missing => cases hm
    | notDirectory => cases hm
    | dir entries =>
      simp only [upstream,DataDir.contains,List.contains_cons,Bool.or_eq_true] at hm ⊢
      exact .inr hm

def quiet : Host := ⟨true,none,none,fun _ => none,none,false,none⟩

/-- Without `PG_VERSION` a half made directory is reset and made anew. -/
theorem recovers_iff_reset : Recovers upstream quiet .start true (.dir [["base"],["global"]]) :=
  (recovers_iff upstream upstream_documented quiet .start true _).mpr (by decide)

def interrupted : DataDir := .dir [pgVersion,["base"],["global"]]

/-- With it, setup returns at once and the server is started on what is there. -/
theorem setup_passes_interrupted :
    upstream.Documented ∧
      (∃ t, runPostgresSetup upstream quiet (.initial true interrupted) = .ok () t ∧
        t.dataDir = interrupted ∧ t.resets = []) ∧
      (stateOf (execute upstream quiet .start (.initial true interrupted))).starts = [interrupted] ∧
      ∀ op, ¬ Recovers upstream quiet op true interrupted := by
  refine ⟨upstream_documented,⟨_,rfl,rfl,rfl⟩,rfl,?_⟩
  intro op hrec
  exact absurd (hrec.setUp _ rfl).1 (by decide)

end PgEmbedSetup.Worker
