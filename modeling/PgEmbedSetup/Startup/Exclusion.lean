import PgEmbedSetup.Startup.Model

set_option autoImplicit false

/-!
Whatever changes a shared installation does so under the one setup lock of its install root.
-/

namespace PgEmbedSetup.Startup
open Library

/-- The steps that change the shared installation. -/
def Op.changes : Op → Bool
  | .copyFromCache _ _ _ | .installExtensions _ _ _ => true
  | .setup _ _ cacheHit => !cacheHit
  | _ => false

def Op.me : Op → RunId
  | .createDirAll me _ | .openLock me _ | .lockFile me _ | .closeLock me | .joined me
    | .findCached me _ | .lockCache me _ _ | .unlockCache me _ | .checkCache me _
    | .copyFromCache me _ _ | .setup me _ _ | .resolveInstalledDir me _ | .populateCache me _ _
    | .installExtensions me _ _ | .start me _ => me

/-- The lock files of the machine, and which run has locked which. -/
abbrev Locks := LockFiles (Path Bytes) RunId

def answer (d : Locks) : (op : Op) → Reply op → Option Locks
  | .openLock _ path, some inode =>
    let opened := d.openOrCreate path
    if inode = opened.1 then some opened.2 else none
  | .lockFile me inode, true => if d.locks inode = none then some (d.lock inode me) else none
  | .closeLock me, _ => some (d.close me)
  | _, _ => some d

/-- Nothing else removes the lock files or locks them. -/
def machine : Machine Op Reply Locks Empty where
  answer := answer
  spawned _ := []
  env _ e := e.elim
  aborted d := d

abbrev State := Pool Op Reply Locks

abbrev Action := PoolAction Op Reply Empty

/-- No run is cut off; one may stop for ever by never being scheduled again. -/
def Uncut (_ : State) : Action → Prop
  | .abort _ => False
  | _ => True

section Runs
variable (isVersion : Text → Bool)

def begin (runs : List Run) : State := ⟨.empty,runs.mapIdx (Run.program isVersion)⟩

/-- Any starts and setup-only runs, in any processes, interleaved. -/
def startups (runs : List Run) : System State Action :=
  (machine.system (fun s => s = begin isVersion runs)).restrict Uncut

end Runs

/-- The install root the run's settings name before a cache hit moves them. -/
def Run.root (r : Run) : Path Bytes := r.bootstrap.settings.installationDir

/-! ### How far a run is with its lock -/

inductive Holding where
  | nothing
  | opened (inode : Nat)
  | locked (inode : Nat)
  deriving DecidableEq

structure Ghost where
  me : RunId
  root : Path Bytes
  holding : Holding

def Ghost.allows (g : Ghost) : Op → Prop
  | .openLock me path => me = g.me ∧ path = g.root.join setupLockFile ∧ g.holding = .nothing
  | .lockFile me inode => me = g.me ∧ g.holding = .opened inode
  | .closeLock me => me = g.me
  | op => op.changes = true → op.me = g.me ∧ ∃ inode, g.holding = .locked inode

def Holding.after : Holding → (op : Op) → Reply op → Holding
  | _, .openLock _ _, some inode => .opened inode
  | _, .lockFile _ inode, true => .locked inode
  | _, .closeLock _, _ => .nothing
  | h, _, _ => h

def Ghost.after (g : Ghost) (op : Op) (r : Reply op) : Ghost :=
  { g with holding := g.holding.after op r }

def holds : Outline Op Reply Ghost where
  ok := Ghost.allows
  next g op r g' := g' = g.after op r
  final g := g.holding = .nothing

def Op.fillsCache : Op → Bool
  | .populateCache _ _ _ => true
  | _ => false

/-- The cache is filled from the shared installation under its lock as well. -/
def Ghost.admits (g : Ghost) (op : Op) : Prop :=
  g.allows op ∧ (op.fillsCache = true → ∃ inode, g.holding = .locked inode)

def guarded : Outline Op Reply Ghost where
  ok := Ghost.admits
  next g op r g' := g' = g.after op r
  final g := g.holding = .nothing

theorem guarded_call {α : Type} {g : Ghost} {op : Op} {f : Reply op → Code α}
    {post : α → Ghost → Prop} (hok : g.allows op) (hfills : op.fillsCache = false)
    (hnext : ∀ r, guarded.wp (f r) post (g.after op r)) :
    guarded.wp (call op >>= f) post g := by
  have hadmits : g.admits op := ⟨hok,fun h => by rw [hfills] at h; cases h⟩
  refine wp_perform_bind.mpr ⟨hadmits,?_⟩
  rintro r g' rfl
  exact hnext r

/-- A call that neither changes the installation nor touches the lock. -/
def Op.quiet : Op → Bool
  | .openLock _ _ | .lockFile _ _ | .closeLock _ => false
  | op => !op.changes

theorem guarded_quiet {α : Type} {g : Ghost} {op : Op} {f : Reply op → Code α}
    {post : α → Ghost → Prop} (hcalm : (op.quiet && !op.fillsCache) = true)
    (hnext : ∀ r, guarded.wp (f r) post g) : guarded.wp (call op >>= f) post g := by
  obtain ⟨hquiet,hfills⟩ := Bool.and_eq_true_iff.mp hcalm
  have hok : g.allows op := by
    cases op with
    | openLock | lockFile | closeLock | copyFromCache | installExtensions => cases hquiet
    | setup me s cacheHit =>
      intro hchanges
      simp only [Op.quiet,hchanges] at hquiet
      cases hquiet
    | _ => exact fun hchanges => by cases hchanges
  have hafter : ∀ r, g.after op r = g := by
    intro r
    cases op <;> first | rfl | cases hquiet
  refine guarded_call hok (by simpa using hfills) (fun r => ?_)
  rw [hafter]
  exact hnext r

/-! ### Each function -/

variable {me : RunId} {root : Path Bytes} {α : Type}

/-- A run that has the lock, and one that has not. -/
def Locked (me : RunId) (root : Path Bytes) (g : Ghost) : Prop :=
  ∃ inode, g = ⟨me,root,.locked inode⟩

def Free (me : RunId) (root : Path Bytes) (g : Ghost) : Prop := g = ⟨me,root,.nothing⟩

theorem lockTimed_wp : guarded.wp (lockTimed me root)
    (fun r g => match r with | .ok _ => Locked me root g | .error _ => Free me root g)
    ⟨me,root,.nothing⟩ := by
  refine guarded_quiet rfl (fun created => ?_)
  cases created with
  | false => exact rfl
  | true =>
    refine guarded_call ⟨rfl,rfl,rfl⟩ rfl (fun opened => ?_)
    cases opened with
    | none => exact rfl
    | some inode =>
      refine guarded_call ⟨rfl,rfl⟩ rfl (fun locked => ?_)
      cases locked with
      | true => exact ⟨inode,rfl⟩
      | false => exact guarded_call rfl rfl (fun _ => rfl)

theorem dropLock_wp {g : Ghost} (l : SetupLock) {post : Unit → Ghost → Prop}
    (hg : Locked me root g) (hpost : post () ⟨me,root,.nothing⟩) :
    guarded.wp (dropLock me (some l)) post g := by
  obtain ⟨inode,rfl⟩ := hg
  refine wp_perform.mpr ⟨⟨rfl,fun hfills => by cases hfills⟩,?_⟩
  rintro _ g' rfl
  exact hpost

theorem acquire_wp (isAsync : Bool) : guarded.wp (acquire isAsync me root)
    (fun r g => match r with | .ok _ => Locked me root g | .error _ => Free me root g)
    ⟨me,root,.nothing⟩ := by
  cases isAsync with
  | false => exact lockTimed_wp
  | true =>
    refine wp_bind.mpr (wp_mono lockTimed_wp (fun lock g hlock => ?_))
    refine guarded_quiet rfl (fun joined => ?_)
    cases joined with
    | true => exact hlock
    | false =>
      refine wp_bind.mpr ?_
      cases lock with
      | ok l => exact dropLock_wp l hlock rfl
      | error e => exact hlock

theorem copyCachedBinaries_wp {g : Ghost} (hg : Locked me root g) (version : Text) (s : Settings) :
    guarded.wp (copyCachedBinaries me version s) (fun _ g' => Locked me root g') g := by
  unfold copyCachedBinaries
  split
  · obtain ⟨inode,rfl⟩ := hg
    refine guarded_call (fun _ => ⟨rfl,inode,rfl⟩) rfl (fun copied => ?_)
    cases copied <;> exact ⟨inode,rfl⟩
  · exact hg

theorem tryUseBinaryCache_wp {g : Ghost} (hg : Locked me root g) (b : Bootstrap) :
    guarded.wp (tryUseBinaryCache me b) (fun _ g' => Locked me root g') g := by
  refine guarded_quiet rfl (fun found => ?_)
  cases found with
  | none => exact hg
  | some version =>
    refine guarded_quiet rfl (fun locked => ?_)
    cases locked with
    | false => exact hg
    | true =>
      refine guarded_quiet rfl (fun hit => ?_)
      have hunlock : ∀ (r : Bool × Bootstrap) g', Locked me root g' →
          guarded.wp (call (.unlockCache me version) >>= fun _ => pure r)
            (fun _ g' => Locked me root g') g' :=
        fun r g' hg' => guarded_quiet rfl (fun _ => hg')
      cases hit with
      | false => exact hunlock _ g hg
      | true =>
        refine wp_bind.mpr (wp_bind.mpr (wp_mono (copyCachedBinaries_wp hg version b.settings) ?_))
        intro s g' hg'
        cases s with
        | none => exact hunlock _ g' hg'
        | some s => exact hunlock _ g' hg'

/-- What the hook is told of the lock is so. It is released only after a cache hit. -/
def Agrees (me : RunId) (root : Path Bytes) (post : PostSetup) (g : Ghost) : Prop :=
  post.installLock = .held ∧ Locked me root g ∨
    post.installLock = .released root ∧ post.cacheHit = true ∧ Free me root g

theorem tryPopulateBinaryCache_wp (isVersion : Text → Bool) {g : Ghost} (hg : Locked me root g)
    (s : Settings) {post : Unit → Ghost → Prop} (hpost : post () g) :
    guarded.wp (tryPopulateBinaryCache isVersion me s) post g := by
  refine guarded_quiet rfl (fun source => ?_)
  cases source with
  | none => exact hpost
  | some source =>
    dsimp only
    split
    · exact hpost
    · next version _ =>
      refine guarded_quiet rfl (fun cached => ?_)
      cases cached with
      | true => exact hpost
      | false =>
        refine guarded_quiet rfl (fun locked => ?_)
        cases locked with
        | false => exact hpost
        | true =>
          refine guarded_quiet rfl (fun cached => ?_)
          cases cached with
          | true => exact guarded_quiet rfl (fun _ => hpost)
          | false =>
            have hunlock : guarded.wp (call (.unlockCache me version)) post g :=
              guarded_quiet (f := fun _ => pure ()) rfl (fun _ => hpost)
            simp only [Bool.false_eq_true,if_false]
            split
            · obtain ⟨inode,rfl⟩ := hg
              refine wp_perform_bind.mpr ⟨⟨(fun hchanges => by cases hchanges),fun _ => ⟨inode,rfl⟩⟩,?_⟩
              rintro _ g' rfl
              exact hunlock
            · exact hunlock

theorem populateCacheOnMiss_wp (isVersion : Text → Bool) {g : Ghost} {post : PostSetup}
    (hg : Agrees me root post g) (b : Bootstrap) {after : Unit → Ghost → Prop} (hafter : after () g) :
    guarded.wp (populateCacheOnMiss isVersion me post b) after g := by
  unfold populateCacheOnMiss
  split
  · exact hafter
  · next hmiss =>
    rcases hg with ⟨_,hlocked⟩ | ⟨_,hhit,_⟩
    · exact tryPopulateBinaryCache_wp isVersion hlocked b.settings hafter
    · exact absurd hhit hmiss

theorem refreshWorkerInstallationDir_wp (g : Ghost) (b : Bootstrap)
    {post : Bootstrap → Ghost → Prop} (hpost : ∀ b, post b g) :
    guarded.wp (refreshWorkerInstallationDir me b) post g := by
  unfold refreshWorkerInstallationDir
  split
  · refine guarded_quiet rfl (fun dir => ?_)
    cases dir <;> exact hpost _
  · exact hpost b

theorem extensionTarget_wp (g : Ghost) (b : Bootstrap)
    {post : Result (Option (List Text × Path Bytes)) → Ghost → Prop} (hpost : ∀ r, post r g) :
    guarded.wp (extensionTarget me b) post g := by
  unfold extensionTarget
  split
  · exact hpost _
  · refine guarded_quiet rfl (fun dir => ?_)
    cases dir <;> exact hpost _

/-- The hook installs with the start's lock or with one of its own. -/
theorem installExtensions_wp (isAsync : Bool) {g : Ghost} {post : PostSetup}
    (hg : Agrees me root post g) (names : List Text) (dir : Path Bytes) (b : Bootstrap) :
    guarded.wp (do
      match ← forHook isAsync me post.installLock with
      | .error e => pure (.error e)
      | .ok hookLock => do
        let installed ← call (.installExtensions me names dir)
        dropLock me hookLock
        pure (if installed then .ok b else .error .extension) : Code (Result Bootstrap))
      (fun _ g' => Agrees me root post g') g := by
  rcases hg with ⟨hheld,hlocked⟩ | ⟨hreleased,hhit,hfree⟩
  · rw [hheld]
    obtain ⟨inode,rfl⟩ := hlocked
    refine guarded_call (fun _ => ⟨rfl,inode,rfl⟩) rfl (fun installed => ?_)
    exact .inl ⟨hheld,inode,rfl⟩
  · rw [hreleased]
    obtain rfl := hfree
    refine wp_bind.mpr (wp_bind.mpr (wp_mono (acquire_wp isAsync) (fun lock g hlock => ?_)))
    cases lock with
    | error e => exact .inr ⟨hreleased,hhit,hlock⟩
    | ok lock =>
      obtain ⟨inode,rfl⟩ := hlock
      refine guarded_call (fun _ => ⟨rfl,inode,rfl⟩) rfl (fun installed => ?_)
      exact wp_bind.mpr (dropLock_wp lock ⟨inode,rfl⟩ (.inr ⟨hreleased,hhit,rfl⟩))

theorem postSetup_wp (isVersion : Text → Bool) (isAsync : Bool) {g : Ghost} {post : PostSetup}
    (hg : Agrees me root post g) (b : Bootstrap) :
    guarded.wp (postSetup isVersion isAsync me b post) (fun _ g' => Agrees me root post g') g := by
  refine wp_bind.mpr (refreshWorkerInstallationDir_wp g b (fun b => ?_))
  refine wp_bind.mpr (populateCacheOnMiss_wp isVersion hg b ?_)
  refine wp_bind.mpr (extensionTarget_wp g b (fun target => ?_))
  rcases target with e | _ | ⟨names,dir⟩
  · exact hg
  · exact hg
  · exact installExtensions_wp isAsync hg names dir b

theorem setup_allowed {g : Ghost} {post : PostSetup} (hg : Agrees me root post g) (s : Settings) :
    g.allows (.setup me s post.cacheHit) := by
  intro hchanges
  rcases hg with ⟨_,inode,rfl⟩ | ⟨_,hhit,_⟩
  · exact ⟨rfl,inode,rfl⟩
  · simp [Op.changes,hhit] at hchanges

theorem lifecycleSteps_wp (isVersion : Text → Bool) (isAsync : Bool) {g : Ghost}
    {post : PostSetup} (hg : Agrees me root post g) (b : Bootstrap) :
    guarded.wp (lifecycleSteps isVersion isAsync me b post) (fun _ g' => Agrees me root post g') g := by
  refine guarded_call (setup_allowed hg b.settings) rfl (fun done => ?_)
  cases done with
  | false => exact hg
  | true =>
    have hhook : guarded.wp (if isAsync then runPostSetupAsync isVersion me b post
        else runPostSetup isVersion me b post) (fun _ g' => Agrees me root post g') g := by
      cases isAsync
      · exact postSetup_wp isVersion false hg b
      · exact postSetup_wp isVersion true hg b
    refine wp_bind.mpr (wp_mono hhook (fun r g' hg' => ?_))
    cases r with
    | error e => exact hg'
    | ok b =>
      refine guarded_quiet rfl (fun started => ?_)
      cases started <;> exact hg'

theorem setupSteps_wp (isVersion : Text → Bool) {g : Ghost} (hg : Locked me root g) (b : Bootstrap)
    (cacheHit : Bool) :
    guarded.wp (setupSteps isVersion me b cacheHit) (fun _ g' => Locked me root g') g := by
  have hagrees : Agrees me root ⟨cacheHit,.held⟩ g := .inl ⟨rfl,hg⟩
  refine guarded_call (setup_allowed hagrees b.settings) rfl (fun done => ?_)
  cases done with
  | false => exact hg
  | true =>
    refine wp_mono (postSetup_wp isVersion false hagrees b) (fun _ g' hg' => ?_)
    rcases hg' with ⟨_,hlocked⟩ | ⟨hreleased,_⟩
    · exact hlocked
    · cases hreleased

theorem startWith_wp (isVersion : Text → Bool) (isAsync : Bool) (b : Bootstrap)
    (hroot : root = b.settings.installationDir) :
    guarded.wp (startWith isVersion isAsync me b) (fun _ g => Free me root g) ⟨me,root,.nothing⟩ := by
  subst hroot
  unfold startWith installRoot
  split
  · rfl
  · next root hinstall =>
    split at hinstall
    · cases hinstall
      refine wp_bind.mpr (wp_mono (acquire_wp isAsync) (fun setup g hsetup => ?_))
      cases setup with
      | error e => exact hsetup
      | ok setup =>
        refine wp_bind.mpr (wp_mono (tryUseBinaryCache_wp hsetup b) (fun found g hg => ?_))
        obtain ⟨cacheHit,b'⟩ := found
        cases cacheHit with
        | false =>
          have hagrees : Agrees me b.settings.installationDir ⟨false,.held⟩ g := .inl ⟨rfl,hg⟩
          refine wp_bind.mpr (wp_pure.mpr (wp_bind.mpr
            (wp_mono (lifecycleSteps_wp isVersion isAsync hagrees b') (fun r g hg => ?_))))
          rcases hg with ⟨_,hlocked⟩ | ⟨hreleased,_⟩
          · exact wp_bind.mpr (dropLock_wp setup hlocked rfl)
          · cases hreleased
        | true =>
          refine wp_bind.mpr (wp_bind.mpr (dropLock_wp setup hg ?_))
          have hagrees : Agrees me b.settings.installationDir
              ⟨true,.released b.settings.installationDir⟩ ⟨me,b.settings.installationDir,.nothing⟩ :=
            .inr ⟨rfl,rfl,rfl⟩
          refine wp_bind.mpr (wp_mono (lifecycleSteps_wp isVersion isAsync hagrees b')
            (fun r g hg => ?_))
          rcases hg with ⟨hheld,_⟩ | ⟨_,_,hfree⟩
          · cases hheld
          · exact hfree
    · cases hinstall

theorem setupLifecycle_wp (isVersion : Text → Bool) (b : Bootstrap)
    (hroot : root = b.settings.installationDir) :
    guarded.wp (setupLifecycle isVersion me b) (fun _ g => Free me root g) ⟨me,root,.nothing⟩ := by
  subst hroot
  unfold setupLifecycle installRoot
  split
  · rfl
  · next root hinstall =>
    split at hinstall
    · cases hinstall
      refine wp_bind.mpr (wp_mono lockTimed_wp (fun setup g hsetup => ?_))
      cases setup with
      | error e => exact hsetup
      | ok setup =>
        refine wp_bind.mpr (wp_mono (tryUseBinaryCache_wp hsetup b) (fun found g hg => ?_))
        refine wp_bind.mpr (wp_mono (setupSteps_wp isVersion hg found.2 found.1) ?_)
        exact fun r g hlocked => wp_bind.mpr (dropLock_wp setup hlocked rfl)
    · cases hinstall

theorem program_safe (isVersion : Text → Bool) (me : RunId) (r : Run) :
    guarded.Safe (Run.program isVersion me r) ⟨me,r.root,.nothing⟩ := by
  have hrun : ∀ {p : Code (Result Bootstrap)},
      guarded.wp p (fun _ g => Free me r.root g) ⟨me,r.root,.nothing⟩ →
      guarded.wp (p >>= fun _ => (pure () : Code Unit)) (fun _ g => guarded.final g)
        ⟨me,r.root,.nothing⟩ := by
    intro p hp
    refine wp_bind.mpr (wp_mono hp ?_)
    rintro _ g rfl
    rfl
  unfold Run.program
  cases r.entry with
  | startPostgres => exact hrun (startWith_wp isVersion false r.bootstrap rfl)
  | startPostgresAsync => exact hrun (startWith_wp isVersion true r.bootstrap rfl)
  | setupLifecycle => exact hrun (setupLifecycle_wp isVersion r.bootstrap rfl)

/-! ### The lock files -/

section Locks
variable {runs : List Run} {d d' : Locks} {ghosts : List Ghost} {i : Nat} {g : Ghost}

/-- A run's open lock file is the one of its install root, and it is locked by the run that
holds it. -/
structure Fits (runs : List Run) (d : Locks) (ghosts : List Ghost) : Prop where
  wellFormed : d.WellFormed
  own : ∀ (i : Nat) (g : Ghost), ghosts[i]? = some g → g.me = i ∧
    ∃ r, runs[i]? = some r ∧ g.root = r.root
  found : ∀ (i : Nat) (g : Ghost) inode, ghosts[i]? = some g →
    g.holding = .opened inode ∨ g.holding = .locked inode →
      d.find (g.root.join setupLockFile) = some inode
  locked : ∀ (i : Nat) (g : Ghost) inode, ghosts[i]? = some g → g.holding = .locked inode →
    d.locks inode = some i

/-- A step that leaves the names of the lock files, with what it makes of the locks. -/
theorem Fits.relock (h : Fits runs d ghosts) (hg : ghosts[i]? = some g) {holding : Holding}
    (hwell : d'.WellFormed) (hfind : ∀ f inode, d.find f = some inode → d'.find f = some inode)
    (hopen : ∀ inode, holding = .opened inode ∨ holding = .locked inode →
      d'.find (g.root.join setupLockFile) = some inode)
    (hmine : ∀ inode, holding = .locked inode → d'.locks inode = some i)
    (hothers : ∀ j inode, j ≠ i → d.locks inode = some j → d'.locks inode = some j) :
    Fits runs d' (ghosts.set i { g with holding := holding }) := by
  refine ⟨hwell,?_,?_,?_⟩
  · intro j k hk
    rcases getElem?_set_some hk with ⟨rfl,rfl⟩ | ⟨_,hold⟩
    · exact h.own j g hg
    · exact h.own j k hold
  · intro j k inode hk hholding
    rcases getElem?_set_some hk with ⟨rfl,rfl⟩ | ⟨_,hold⟩
    · exact hopen inode hholding
    · exact hfind _ _ (h.found j k inode hold hholding)
  · intro j k inode hk hholding
    rcases getElem?_set_some hk with ⟨rfl,rfl⟩ | ⟨hji,hold⟩
    · exact hmine inode hholding
    · exact hothers j inode hji (h.locked j k inode hold hholding)

/-- A step that touches no lock. -/
theorem Fits.keep (h : Fits runs d ghosts) (hg : ghosts[i]? = some g) {op : Op} {r : Reply op}
    (hafter : g.after op r = g) : Fits runs d (ghosts.set i (g.after op r)) := by
  rwa [hafter,set_same hg]

theorem Fits.step (h : Fits runs d ghosts) (hg : ghosts[i]? = some g) {op : Op} {r : Reply op}
    (hok : g.allows op) (ha : answer d op r = some d') :
    Fits runs d' (ghosts.set i (g.after op r)) := by
  cases op with
  | openLock me path =>
    obtain ⟨_,rfl,_⟩ := hok
    cases r with
    | none =>
      cases ha
      exact h.keep hg rfl
    | some inode =>
      simp only [answer] at ha
      split at ha
      · next hinode =>
        cases ha
        subst hinode
        refine h.relock hg (h.wellFormed.openOrCreate _)
          (fun _ _ hf => LockFiles.find_openOrCreate_of_some hf) ?_ ?_ ?_
        · intro inode hopened
          rcases hopened with hopened | hopened
          · cases hopened
            exact LockFiles.find_openOrCreate _ _
          · cases hopened
        · intro inode hlocked
          cases hlocked
        · intro j inode _ hj
          rwa [LockFiles.locks_openOrCreate]
      · cases ha
  | lockFile me inode =>
    obtain ⟨rfl,hopened⟩ := hok
    cases r with
    | false =>
      cases ha
      exact h.keep hg rfl
    | true =>
      simp only [answer] at ha
      split at ha
      · next hfree =>
        cases ha
        have hfound := h.found i g inode hg (.inl hopened)
        refine h.relock hg (h.wellFormed.lock (h.wellFormed.bound _ _ hfound) _)
          (fun _ _ hf => hf) ?_ ?_ ?_
        · intro inode' hlocked
          rcases hlocked with hlocked | hlocked
          · cases hlocked
          · cases hlocked
            exact hfound
        · intro inode' hlocked
          cases hlocked
          rw [LockFiles.locks_lock_self,(h.own i g hg).1]
        · intro j inode' _ hj
          exact LockFiles.locks_lock_of_some hfree hj
      · cases ha
  | closeLock me =>
    obtain rfl := hok
    cases ha
    refine h.relock hg (h.wellFormed.close _) (fun _ _ hf => hf) ?_ ?_ ?_
    · intro inode hopened
      rcases hopened with hopened | hopened <;> cases hopened
    · intro inode hlocked
      cases hlocked
    · intro j inode hji hj
      refine LockFiles.locks_close_of_ne hj ?_
      rw [(h.own i g hg).1]
      exact hji
  | _ =>
    cases ha
    exact h.keep hg rfl

/-- Of the runs of one install root, one has the lock. -/
theorem Fits.alone (h : Fits runs d ghosts) {j : Nat} {g' : Ghost} (hi : ghosts[i]? = some g)
    (hj : ghosts[j]? = some g') (hroot : g.root = g'.root) (hlocked : ∃ inode, g.holding = .locked inode)
    (hlocked' : ∃ inode, g'.holding = .locked inode) : i = j := by
  obtain ⟨inode,hinode⟩ := hlocked
  obtain ⟨inode',hinode'⟩ := hlocked'
  have hfound := h.found i g inode hi (.inr hinode)
  rw [hroot,h.found j g' inode' hj (.inr hinode')] at hfound
  cases hfound
  have hlocks := h.locked i g inode hi hinode
  rw [h.locked j g' inode hj hinode'] at hlocks
  exact (Option.some.inj hlocks).symm

end Locks

/-! ### Every run -/

def nextOp (s : State) (i : Nat) : Option Op := (s.threads[i]?).bind Process.nextCall

/-- The run is at a step that changes the shared installation. -/
def Changing (s : State) (i : Nat) : Prop :=
  ∃ op, nextOp s i = some op ∧ op.changes = true

/-- Steps that change one installation never overlap, each under the one lock of its root. -/
structure InstallExclusive (runs : List Run) (s : State) : Prop where
  locked : ∀ i r, runs[i]? = some r → Changing s i →
    ∃ inode, s.world.find (r.root.join setupLockFile) = some inode ∧
      s.world.locks inode = some i
  exclusive : ∀ i j r r', runs[i]? = some r → runs[j]? = some r' → r.root = r'.root →
    Changing s i → Changing s j → i = j

theorem changing_locked {runs : List Run} {s : State} {ghosts : List Ghost}
    (hthreads : List.Forall₂ holds.Safe s.threads ghosts) (hj : Fits runs s.world ghosts)
    {i : Nat} {r : Run} (hr : runs[i]? = some r) (hi : Changing s i) :
    ∃ inode, s.world.find (r.root.join setupLockFile) = some inode ∧
      s.world.locks inode = some i := by
  obtain ⟨op,hop,hchanges⟩ := hi
  obtain ⟨g,hg,hok⟩ := nextCall_ok hthreads hop
  have hlocked : ∃ inode, g.holding = .locked inode := by
    cases op with
    | copyFromCache | setup | installExtensions => exact (hok hchanges).2
    | _ => cases hchanges
  obtain ⟨inode,hholding⟩ := hlocked
  obtain ⟨_,r',hr',hroot⟩ := hj.own i g hg
  cases hr.symm.trans hr'
  rw [← hroot]
  exact ⟨inode,hj.found i g inode hg (.inr hholding),hj.locked i g inode hg hholding⟩

theorem holds_preserves (runs : List Run) : Preserves machine holds (Fits runs) Uncut := by
  refine ⟨?_,?_,?_⟩
  · intro s i op r d ghosts g _ ha hj hg hok
    exact ⟨_,[],rfl,.nil,by rw [List.append_nil]; exact hj.step hg hok ha⟩
  · intro s i ghosts hcut
    exact hcut.elim
  · intro s e
    exact e.elim

/-- Where each run is before its first step. -/
def outside (runs : List Run) : List Ghost := runs.mapIdx fun me r => ⟨me,r.root,.nothing⟩

theorem fits_outside (runs : List Run) : Fits runs .empty (outside runs) := by
  have hghosts : ∀ (i : Nat) (g : Ghost), (outside runs)[i]? = some g →
      ∃ r, runs[i]? = some r ∧ g = ⟨i,r.root,.nothing⟩ := by
    intro i g hg
    rw [outside,List.getElem?_mapIdx,Option.map_eq_some_iff] at hg
    obtain ⟨r,hr,rfl⟩ := hg
    exact ⟨r,hr,rfl⟩
  refine ⟨LockFiles.wellFormed_empty,?_,?_,?_⟩
  · intro i g hg
    obtain ⟨r,hr,rfl⟩ := hghosts i g hg
    exact ⟨rfl,r,hr,rfl⟩
  · intro i g inode hg hholding
    obtain ⟨r,hr,rfl⟩ := hghosts i g hg
    rcases hholding with hholding | hholding <;> cases hholding
  · intro i g inode hg hholding
    obtain ⟨r,hr,rfl⟩ := hghosts i g hg
    cases hholding

theorem begin_outlined (isVersion : Text → Bool) (runs : List Run) :
    Outlined holds (Fits runs) (begin isVersion runs) := by
  refine ⟨outside runs,?_,fits_outside runs⟩
  rw [begin,outside,List.forall₂_iff_get]
  refine ⟨by simp,fun i hi hi' => ?_⟩
  simp only [List.get_eq_getElem,List.getElem_mapIdx]
  exact wp_weaken (fun _ _ h => h.1) (program_safe isVersion i _)

def uncut : Action → Bool
  | .abort _ => false
  | _ => true

theorem startups_reach (isVersion : Text → Bool) (runs : List Run) (as : List Action)
    (wanted : State → Bool)
    (h : (machine.run (fun _ a => uncut a) (begin isVersion runs) as).any wanted = true) :
    ∃ s, (startups isVersion runs).Reachable s ∧ wanted s = true := by
  refine machine.run_reaches (fun _ a => uncut a) (fun s a hmeets => ?_) ?_ as wanted h
  · cases a with
    | abort i => cases hmeets
    | _ => trivial
  · rfl

def sharedRoot : Path Bytes := ⟨true,[.name (ascii "i")]⟩

def withVector (entry : EntryPoint) : Run :=
  ⟨entry,⟨⟨sharedRoot,"^16".toList,false⟩,false,some ["vector".toList]⟩⟩

def twoRuns : List Run := [withVector .startPostgresAsync,withVector .setupLifecycle]

def movedSettings : Settings :=
  ⟨sharedRoot.join (ascii "16.1"),"=16.1".toList,true⟩

/-- A start finds its binaries in the cache, which moves its settings to the version directory,
and comes to its extensions while a setup-only run waits. -/
def hitThenHook : List Action :=
  let root := sharedRoot
  let lock := root.join setupLockFile
  let dir := root.join (ascii "16.1")
  let version := "16.1".toList
  [.advance 0 (.createDirAll 0 root) true,.advance 0 (.openLock 0 lock) (some 0),
    .advance 0 (.lockFile 0 0) true,.advance 0 (.joined 0) true,
    .advance 0 (.findCached 0 "^16".toList) (some version),
    .advance 0 (.lockCache 0 version false) true,.advance 0 (.checkCache 0 version) true,
    .advance 0 (.copyFromCache 0 version dir) true,.advance 0 (.unlockCache 0 version) (),
    .advance 0 (.closeLock 0) (),.advance 0 (.setup 0 movedSettings true) true,
    .advance 0 (.resolveInstalledDir 0 movedSettings) (some dir),
    .advance 1 (.createDirAll 1 root) true,.advance 1 (.openLock 1 lock) (some 0),
    .advance 0 (.createDirAll 0 root) true,.advance 0 (.openLock 0 lock) (some 0),
    .advance 0 (.lockFile 0 0) true,.advance 0 (.joined 0) true]

end PgEmbedSetup.Startup
