import PgEmbedSetup.Handover.Claim
import PgEmbedSetup.Handover.Directories
import PgEmbedSetup.Handover.Finish

set_option autoImplicit false

/-!
When a bootstrap as root leaves everything it has made to `nobody`, so that one running as
`nobody` can use the same root afterwards.
-/

namespace PgEmbedSetup.Handover
open Library Privileges

variable {w : Surroundings} {layout : DataLayout} {cfg : PgEnvCfg} {s s' s₁ s₂ : State}
  {q D : Place Name} {paths : SettingsPaths} {hasSlot : Bool} {d : Dirs}

/-! ### What is asked for -/

/-- Whether the data directory becomes a slot. -/
def TakesSlot (layout : DataLayout) (cfg : PgEnvCfg) : Prop :=
  layout = .perCluster ∧ cfg.dataDir = none

/-- Where the configured directories are; `data` is the parent of the slots, or else the data
directory itself. -/
structure Places where
  install : Place Name
  installParent : Place Name
  data : Place Name

structure Located (cfg : PgEnvCfg) (fs : FileSystem) (pl : Places) : Prop where
  install : fs.locate cfg.installDir = .ok pl.install
  installParent : cfg.runtimeDir = none → fs.locate cfg.root = .ok pl.installParent
  data : fs.locate (resolveSettingsPaths cfg).dataDir = .ok pl.data

/-- A bootstrap as `nobody` can open the guard and the lock, empty the slot and remove it, and
make a slot of its own. -/
structure Reusable (w : Surroundings) (D : Place Name) (s : State) : Prop where
  guard : s.fs.node (claimGuardName :: D) = some .file ∧ s.owner (claimGuardName :: D) = .nobody
  lock : s.fs.node ((slotName w ++ lockSuffix) :: D) = some .file ∧
    s.owner ((slotName w ++ lockSuffix) :: D) = .nobody
  slot : ∀ q, slotName w :: D <:+ q → s.fs.node q = some .dir → s.owner q = .nobody
  parent : s.fs.node D = some .dir ∧ s.owner D = .nobody

structure HandsOver (w : Surroundings) (layout : DataLayout) (cfg : PgEnvCfg) (pl : Places)
    (s' : State) : Prop where
  made : ∀ q ∈ s'.made, s'.fs.node q ≠ none → pl.install <:+ q ∨ pl.data <:+ q →
    s'.owner q = .nobody
  reusable : TakesSlot layout cfg → Reusable w pl.data s'

/-! ### When it is given -/

instance takesSlotDecidable (layout : DataLayout) (cfg : PgEnvCfg) :
    Decidable (TakesSlot layout cfg) := inferInstanceAs (Decidable (_ ∧ _))

/-- The files when the directories are made. -/
def swept (w : Surroundings) (layout : DataLayout) (cfg : PgEnvCfg) (pl : Places)
    (fs : FileSystem) : FileSystem :=
  if TakesSlot layout cfg then sweepDeadSlots w pl.data fs else fs

/-- The condition on the files that the bootstrap finds. -/
structure Ready (w : Surroundings) (layout : DataLayout) (cfg : PgEnvCfg) (pl : Places)
    (s : State) : Prop where
  /-- The guard is `nobody`'s already, or is reached by the walk of the install directory. -/
  guard : TakesSlot layout cfg →
    (∀ target, s.fs.node (claimGuardName :: pl.data) ≠ some (.symlink target)) ∧
      (pl.install <:+ pl.data ∨ s.fs.node (claimGuardName :: pl.data) = some .file ∧
        s.owner (claimGuardName :: pl.data) = .nobody)
  /-- No directory has to be made on the way from the data directory to the install directory,
  unless it is handed over by name or lies in the slot. -/
  between : TakesSlot layout cfg ∨ cfg.dataDir ≠ none → ∀ q, Below pl.data q →
    q <:+ pl.install ∨ cfg.runtimeDir = none ∧ q <:+ pl.installParent →
    (swept w layout cfg pl s.fs).node q = none →
    pl.install <:+ q ∨ cfg.runtimeDir = none ∧ q = pl.installParent ∨
      TakesSlot layout cfg ∧ slotName w :: pl.data <:+ q

/-! ### The bootstrap in three parts -/

theorem dataDir_of_none (h : cfg.dataDir = none) :
    (resolveSettingsPaths cfg).dataDir = ascii "data" :: cfg.root := by
  simp [resolveSettingsPaths,h]

theorem claimDerivedSlot_ok
    (h : claimDerivedSlot w layout (resolveSettingsPaths cfg) s = .ok (hasSlot,paths,s')) :
    hasSlot = false ∧ paths = resolveSettingsPaths cfg ∧ s' = s ∧ ¬ TakesSlot layout cfg ∨
    hasSlot = true ∧ TakesSlot layout cfg ∧
      claimSlot w (ascii "data" :: cfg.root) s = .ok s' ∧
      paths = { resolveSettingsPaths cfg with
        dataDir := slotName w :: ascii "data" :: cfg.root
        passwordFile := (slotName w ++ passwordSuffix) :: ascii "data" :: cfg.root } := by
  rw [claimDerivedSlot] at h
  split at h
  · next hcond =>
    simp only [Except.ok.injEq,Prod.mk.injEq] at h
    obtain ⟨rfl,rfl,rfl⟩ := h
    refine .inl ⟨rfl,rfl,rfl,?_⟩
    rintro ⟨rfl,hnone⟩
    simp [resolveSettingsPaths,hnone] at hcond
  · next hcond =>
    rw [not_or] at hcond
    have hnone : cfg.dataDir = none := by simpa [resolveSettingsPaths] using hcond.2
    have hlayout : layout = .perCluster := by
      cases layout with
      | perCluster => rfl
      | persistent => exact absurd rfl hcond.1
    obtain ⟨t,ht,h⟩ := except_bind_ok.mp h
    simp only [pure,Except.pure,Except.ok.injEq,Prod.mk.injEq] at h
    obtain ⟨rfl,rfl,rfl⟩ := h
    rw [dataDir_of_none hnone] at ht ⊢
    exact .inr ⟨rfl,⟨hlayout,hnone⟩,ht,rfl⟩

theorem installDir_of_none (h : cfg.runtimeDir = none) :
    cfg.installDir = ascii "install" :: cfg.root := by simp [PgEnvCfg.installDir,h]

/-- Claiming a slot changes neither the install directory nor what is derived. -/
structure Derived (cfg : PgEnvCfg) (paths : SettingsPaths) : Prop where
  installDir : paths.installDir = cfg.installDir
  installDefault : paths.installDefault = true ↔ cfg.runtimeDir = none
  dataDefault : paths.dataDefault = true ↔ cfg.dataDir = none
  data_cons : paths.dataDefault = true → paths.dataDir ≠ []

theorem derived_of
    (h : claimDerivedSlot w layout (resolveSettingsPaths cfg) s = .ok (hasSlot,paths,s')) :
    Derived cfg paths := by
  rcases claimDerivedSlot_ok h with ⟨-,rfl,-,-⟩ | ⟨-,-,-,rfl⟩
  · refine ⟨rfl,by simp [resolveSettingsPaths],by simp [resolveSettingsPaths],fun hb => ?_⟩
    rw [dataDir_of_none (by simpa [resolveSettingsPaths] using hb)]
    simp
  · exact ⟨rfl,by simp [resolveSettingsPaths],by simp [resolveSettingsPaths],by simp⟩

theorem bootstrapWithRoot_ok (h : bootstrapWithRoot w layout cfg s = .ok s') :
    ∃ hasSlot paths s₁ s₂ d,
      claimDerivedSlot w layout (resolveSettingsPaths cfg) s = .ok (hasSlot,paths,s₁) ∧
        Prepared paths s₁ s₂ d ∧ Finished paths hasSlot s₂ s' := by
  rw [bootstrapWithRoot] at h
  obtain ⟨⟨hasSlot,paths,s₁⟩,hclaim,h⟩ := except_bind_ok.mp h
  obtain ⟨a,ha,h⟩ := except_bind_ok.mp h
  obtain ⟨b,hb,h⟩ := except_bind_ok.mp h
  obtain ⟨c,hc,h⟩ := except_bind_ok.mp h
  obtain ⟨⟨xdg,e⟩,he,h⟩ := except_bind_ok.mp h
  obtain ⟨s₂,hs₂,h⟩ := except_bind_ok.mp h
  obtain ⟨f,hf,h⟩ := except_bind_ok.mp h
  obtain ⟨g,hg,h⟩ := except_bind_ok.mp h
  obtain ⟨k,hk,h⟩ := ite_bind_ok h
  obtain ⟨l,hl,h⟩ := except_bind_ok.mp h
  have hdirs : ∃ d, Prepared paths s₁ s₂ d := by
    have hderived := derived_of hclaim
    refine prepared_of (fun hi => ?_) hderived.data_cons ha hb hc he hs₂
    rw [hderived.installDir,installDir_of_none (hderived.installDefault.mp hi)]
    simp
  obtain ⟨d,hd⟩ := hdirs
  exact ⟨hasSlot,paths,s₁,s₂,d,hclaim,hd,finished_of hf hg hk hl h⟩

/-! ### Where things are -/

/-- One bootstrap that has gone through, with the states between its parts. -/
structure Run (w : Surroundings) (layout : DataLayout) (cfg : PgEnvCfg) (pl : Places)
    (hasSlot : Bool) (paths : SettingsPaths) (d : Dirs) (s s₁ s₂ s' : State) : Prop where
  fresh : s.made = []
  claim : claimDerivedSlot w layout (resolveSettingsPaths cfg) s = .ok (hasSlot,paths,s₁)
  prepared : Prepared paths s₁ s₂ d
  finished : Finished paths hasSlot s₂ s'
  located : Located cfg s'.fs pl

section Run
variable {pl : Places}

theorem Run.locate_before (r : Run w layout cfg pl hasSlot paths d s s₁ s₂ s') {p q q' : Place Name}
    (h : s'.fs.locate p = .ok q) (h' : s₂.fs.locate p = .ok q') : q' = q :=
  Except.ok.inj (h'.symm.trans (locate_mono r.finished.less h))

theorem Run.install (r : Run w layout cfg pl hasSlot paths d s s₁ s₂ s') :
    d.install = pl.install := by
  refine r.locate_before r.located.install ?_
  rw [← (derived_of r.claim).installDir]
  exact r.prepared.install

theorem Run.installParent (r : Run w layout cfg pl hasSlot paths d s s₁ s₂ s')
    (hnone : cfg.runtimeDir = none) : d.installParent = pl.installParent := by
  have hderived := derived_of r.claim
  have hparent := r.prepared.installParent (hderived.installDefault.mpr hnone)
  rw [hderived.installDir,installDir_of_none hnone] at hparent
  exact r.locate_before (r.located.installParent hnone) hparent

theorem Run.handed (r : Run w layout cfg pl hasSlot paths d s s₁ s₂ s')
    (hq : d.Handed paths q) : s'.fs.node q = some .dir ∧ s'.owner q = .nobody := by
  have hdir := r.prepared.dirs q hq
  refine ⟨?_,r.finished.stays q (r.prepared.does.given q hq).1⟩
  rw [r.finished.same q (.inr hdir),hdir]

theorem Run.install_dir (r : Run w layout cfg pl hasSlot paths d s s₁ s₂ s') :
    s'.fs.node pl.install = some .dir ∧ s'.owner pl.install = .nobody :=
  r.handed (.inr (.inr (.inl r.install.symm)))

/-- Without a slot the data directory is the configured one, and nothing comes before. -/
theorem Run.without_slot (r : Run w layout cfg pl hasSlot paths d s s₁ s₂ s')
    (hno : ¬ TakesSlot layout cfg) :
    s₁ = s ∧ hasSlot = false ∧ paths = resolveSettingsPaths cfg ∧ d.data = pl.data := by
  rcases claimDerivedSlot_ok r.claim with ⟨rfl,rfl,rfl,-⟩ | ⟨-,htakes,-,-⟩
  · exact ⟨rfl,rfl,rfl,r.locate_before r.located.data r.prepared.data⟩
  · exact absurd htakes hno

theorem Run.with_slot (r : Run w layout cfg pl hasSlot paths d s s₁ s₂ s')
    (htakes : TakesSlot layout cfg) :
    hasSlot = true ∧ paths.dataDir = slotName w :: ascii "data" :: cfg.root ∧
      paths.passwordFile.head? = some (slotName w ++ passwordSuffix) ∧ d.dataParent = pl.data ∧
      ((∀ target, s.fs.node (claimGuardName :: pl.data) ≠ some (.symlink target)) →
        Claimed w s s₁ pl.data) := by
  rcases claimDerivedSlot_ok r.claim with ⟨-,-,-,hno⟩ | ⟨rfl,-,hclaim,rfl⟩
  · exact absurd htakes hno
  · have hdefault : (resolveSettingsPaths cfg).dataDefault = true := by
      simp [resolveSettingsPaths,htakes.2]
    have hdata := r.located.data
    rw [dataDir_of_none htakes.2] at hdata
    obtain ⟨D,hD,-,hclaimed⟩ := claimSlot_ok r.fresh hclaim
    obtain rfl : D = pl.data := r.locate_before hdata (r.prepared.does.locate hD)
    exact ⟨rfl,rfl,rfl,r.locate_before hdata (r.prepared.dataParent hdefault),hclaimed⟩

theorem Run.slot_parent (r : Run w layout cfg pl hasSlot paths d s s₁ s₂ s')
    (htakes : TakesSlot layout cfg) :
    s'.fs.node pl.data = some .dir ∧ s'.owner pl.data = .nobody := by
  obtain ⟨-,-,-,hparent,-⟩ := r.with_slot htakes
  exact r.handed (.inr (.inl ⟨(derived_of r.claim).dataDefault.mpr htakes.2,hparent.symm⟩))

/-- What is a directory in the data parent is where its path says. -/
theorem Run.locate_in_data (r : Run w layout cfg pl hasSlot paths d s s₁ s₂ s')
    (htakes : TakesSlot layout cfg) {n : Name} (hn : Settled s'.fs (n :: pl.data)) :
    s'.fs.locate (n :: ascii "data" :: cfg.root) = .ok (n :: pl.data) := by
  have hdata := r.located.data
  rw [dataDir_of_none htakes.2] at hdata
  exact locate_child hdata (r.slot_parent htakes).1 hn

theorem Run.slot_dir (r : Run w layout cfg pl hasSlot paths d s s₁ s₂ s')
    (htakes : TakesSlot layout cfg) (hdir : s'.fs.node (slotName w :: pl.data) = some .dir) :
    s'.fs.locate paths.dataDir = .ok (slotName w :: pl.data) ∧
      d.data = slotName w :: pl.data := by
  obtain ⟨-,hpath,-,-,-⟩ := r.with_slot htakes
  have hloc := r.locate_in_data htakes (.inl hdir)
  rw [← hpath] at hloc
  exact ⟨hloc,r.locate_before hloc r.prepared.data⟩

/-- All there is in the slot is `nobody`'s. -/
theorem Run.slot_given (r : Run w layout cfg pl hasSlot paths d s s₁ s₂ s')
    (htakes : TakesSlot layout cfg) (hq : slotName w :: pl.data <:+ q)
    (hdir : s'.fs.node q = some .dir) : s'.owner q = .nobody := by
  have hslot := dir_of_suffix hdir hq
  obtain ⟨hloc,hdata⟩ := r.slot_dir htakes hslot
  by_cases heq : q = slotName w :: pl.data
  · exact (r.handed (.inr (.inr (.inr (.inl (heq.trans hdata.symm)))))).2
  · exact r.finished.data ((derived_of r.claim).dataDefault.mpr htakes.2) _ hloc hslot q ⟨hq,heq⟩
      (.inl hdir)

/-! ### Enough -/

theorem suffixed_ne (name : Name) : name ++ lockSuffix ≠ name ++ passwordSuffix :=
  fun h => absurd (List.append_cancel_left h) (by decide)

theorem Run.claimed (r : Run w layout cfg pl hasSlot paths d s s₁ s₂ s')
    (hready : Ready w layout cfg pl s) (htakes : TakesSlot layout cfg) :
    Claimed w s s₁ pl.data := by
  obtain ⟨-,-,-,-,hclaimed⟩ := r.with_slot htakes
  exact hclaimed (hready.guard htakes).1

/-- The files of the claim stay to the end. -/
theorem Run.file_stays (r : Run w layout cfg pl hasSlot paths d s s₁ s₂ s')
    (htakes : TakesSlot layout cfg) {n : Name} (hn : n ≠ slotName w ++ passwordSuffix)
    (hfile : s₁.fs.node (n :: pl.data) = some .file) :
    s'.fs.node (n :: pl.data) = some .file := by
  obtain ⟨-,-,hpassword,-,-⟩ := r.with_slot htakes
  rw [r.finished.same _ (.inl ?_)]
  · exact r.prepared.does.old _ _ hfile
  · rw [hpassword]
    exact fun he => hn (Option.some.inj he)

theorem Run.given_in_install (r : Run w layout cfg pl hasSlot paths d s s₁ s₂ s')
    (hq : pl.install <:+ q) (hset : Settled s'.fs q) : s'.owner q = .nobody := by
  by_cases heq : q = pl.install
  · exact heq ▸ r.install_dir.2
  · have hinstall := r.located.install
    rw [← (derived_of r.claim).installDir] at hinstall
    exact r.finished.install _ hinstall r.install_dir.1 q ⟨hq,heq⟩ hset

theorem Run.guard_given (r : Run w layout cfg pl hasSlot paths d s s₁ s₂ s')
    (hready : Ready w layout cfg pl s) (htakes : TakesSlot layout cfg) :
    s'.fs.node (claimGuardName :: pl.data) = some .file ∧
      s'.owner (claimGuardName :: pl.data) = .nobody := by
  have hclaimed := r.claimed hready htakes
  have hfile := r.file_stays htakes (suffixed_ne_guard _).1.symm hclaimed.guard
  refine ⟨hfile,?_⟩
  rcases (hready.guard htakes).2 with hinside | ⟨hold,hnobody⟩
  · exact r.given_in_install (hinside.trans (List.suffix_cons _ _)) (.inr hfile)
  · refine r.finished.stays _ ?_
    by_cases hh : d.Handed paths (claimGuardName :: pl.data)
    · exact (r.prepared.does.given _ hh).1
    · rw [r.prepared.does.kept _ hh fun _ => by rw [hclaimed.guard]; simp,(hclaimed.old hold).1]
      exact hnobody

theorem Run.lock_file (r : Run w layout cfg pl hasSlot paths d s s₁ s₂ s')
    (htakes : TakesSlot layout cfg) (hclaimed : Claimed w s s₁ pl.data) :
    s'.fs.node ((slotName w ++ lockSuffix) :: pl.data) = some .file ∧
      s'.fs.locate (lockPath paths.dataDir) = .ok ((slotName w ++ lockSuffix) :: pl.data) := by
  obtain ⟨-,hpath,-,-,-⟩ := r.with_slot htakes
  have hfile := r.file_stays htakes (suffixed_ne _) hclaimed.lock
  rw [hpath]
  exact ⟨hfile,r.locate_in_data htakes (.inr hfile)⟩

theorem Run.lock_given (r : Run w layout cfg pl hasSlot paths d s s₁ s₂ s')
    (hready : Ready w layout cfg pl s) (htakes : TakesSlot layout cfg) :
    s'.fs.node ((slotName w ++ lockSuffix) :: pl.data) = some .file ∧
      s'.owner ((slotName w ++ lockSuffix) :: pl.data) = .nobody := by
  obtain ⟨hslot,-,-,-,-⟩ := r.with_slot htakes
  obtain ⟨hfile,hloc⟩ := r.lock_file htakes (r.claimed hready htakes)
  exact ⟨hfile,r.finished.lock hslot _ hloc⟩

theorem Run.reusable (r : Run w layout cfg pl hasSlot paths d s s₁ s₂ s')
    (hready : Ready w layout cfg pl s) (htakes : TakesSlot layout cfg) :
    Reusable w pl.data s' where
  guard := r.guard_given hready htakes
  lock := r.lock_given hready htakes
  slot _ hq hdir := r.slot_given htakes hq hdir
  parent := r.slot_parent htakes

theorem Run.plain (r : Run w layout cfg pl hasSlot paths d s s₁ s₂ s')
    (hready : Ready w layout cfg pl s) : s'.Plain := by
  have hplain₁ : s₁.Plain := by
    by_cases htakes : TakesSlot layout cfg
    · exact (r.claimed hready htakes).plain
    · obtain ⟨rfl,-⟩ := r.without_slot htakes
      exact fun q hq => absurd hq (by simp [r.fresh])
  intro q hq target hlink
  exact r.prepared.does.plain hplain₁ q ((r.finished.made q).mp hq) target
    (r.finished.less q _ hlink)

theorem settled_of_plain (hplain : s.Plain) (hq : q ∈ s.made) (hex : s.fs.node q ≠ none) :
    Settled s.fs q := by
  obtain ⟨node,hnode⟩ := Option.ne_none_iff_exists'.mp hex
  cases node with
  | dir => exact .inl hnode
  | file => exact .inr hnode
  | symlink target => exact absurd hnode (hplain q hq target)

theorem not_suffix_of_below {p q : Place Name} (h : Below p q) : ¬ q <:+ p :=
  fun hs => h.2 (hs.eq_of_length (Nat.le_antisymm hs.length_le h.1.length_le))

/-- What is missing when the directories are made was missing after the sweep. -/
theorem Run.swept_none (r : Run w layout cfg pl hasSlot paths d s s₁ s₂ s')
    (hready : Ready w layout cfg pl s) (hin : ¬ pl.install <:+ pl.data)
    (hnone : s₁.fs.node q = none) : (swept w layout cfg pl s.fs).node q = none := by
  rw [swept]
  split
  · next htakes =>
    have hclaimed := r.claimed hready htakes
    obtain ⟨hold,-⟩ := (hready.guard htakes).2.resolve_left hin
    rw [← (hclaimed.old hold).2 q ?_,hnone]
    rintro rfl
    rw [hclaimed.lock] at hnone
    cases hnone
  · next hno =>
    obtain ⟨rfl,-⟩ := r.without_slot hno
    exact hnone

theorem Run.between_given (r : Run w layout cfg pl hasSlot paths d s s₁ s₂ s')
    (hready : Ready w layout cfg pl s) (hkind : TakesSlot layout cfg ∨ cfg.dataDir ≠ none)
    (hq : Below pl.data q)
    (hway : q <:+ pl.install ∨ cfg.runtimeDir = none ∧ q <:+ pl.installParent)
    (hin : ¬ pl.install <:+ q) (hnone : s₁.fs.node q = none) (hdir : s'.fs.node q = some .dir) :
    s'.owner q = .nobody := by
  have hswept := r.swept_none hready (fun hs => hin (hs.trans hq.1)) hnone
  rcases hready.between hkind q hq hway hswept with hs | ⟨hdefault,rfl⟩ | ⟨htakes,hslot⟩
  · exact absurd hs hin
  · refine (r.handed (.inl ⟨(derived_of r.claim).installDefault.mpr hdefault,?_⟩)).2
    exact (r.installParent hdefault).symm
  · exact r.slot_given htakes hslot hdir

theorem Run.data_given (r : Run w layout cfg pl hasSlot paths d s s₁ s₂ s') :
    s'.fs.node pl.data = some .dir ∧ s'.owner pl.data = .nobody := by
  by_cases htakes : TakesSlot layout cfg
  · exact r.slot_parent htakes
  · obtain ⟨-,-,-,hdata⟩ := r.without_slot htakes
    exact r.handed (.inr (.inr (.inr (.inl hdata.symm))))

theorem Run.wanted_given (r : Run w layout cfg pl hasSlot paths d s s₁ s₂ s')
    (hready : Ready w layout cfg pl s) (hkind : TakesSlot layout cfg ∨ cfg.dataDir ≠ none)
    (hq : Below pl.data q) (hin : ¬ pl.install <:+ q) (hwanted : d.Wanted paths q)
    (hnone : s₁.fs.node q = none) : s'.owner q = .nobody := by
  have hderived := derived_of r.claim
  have hdir₂ := r.prepared.does.new q hnone hwanted
  have hdir : s'.fs.node q = some .dir := by rw [r.finished.same q (.inr hdir₂),hdir₂]
  rcases hwanted with ⟨hdefault,hs⟩ | ⟨hdefault,hs⟩ | hs | ⟨hs,hslot⟩ | ⟨-,rfl⟩ | ⟨-,rfl⟩
  · have hruntime := hderived.installDefault.mp hdefault
    rw [r.installParent hruntime] at hs
    exact r.between_given hready hkind hq (.inr ⟨hruntime,hs⟩) hin hnone hdir
  · have htakes := hkind.resolve_right fun hne => hne (hderived.dataDefault.mp hdefault)
    obtain ⟨-,-,-,hparent,-⟩ := r.with_slot htakes
    exact absurd (hparent ▸ hs) (not_suffix_of_below hq)
  · rw [r.install] at hs
    exact r.between_given hready hkind hq (.inl hs) hin hnone hdir
  · by_cases htakes : TakesSlot layout cfg
    · obtain ⟨-,hpath,-,hparent,-⟩ := r.with_slot htakes
      obtain rfl := hslot (hderived.dataDefault.mpr htakes.2) _ _ hpath
      rw [hparent] at hdir ⊢
      exact r.slot_given htakes (List.suffix_refl _) hdir
    · obtain ⟨-,-,-,hdata⟩ := r.without_slot htakes
      exact absurd (hdata ▸ hs) (not_suffix_of_below hq)
  · exact absurd (r.install ▸ List.suffix_cons _ _) hin
  · exact absurd (r.install ▸ List.suffix_cons _ _) hin

theorem Run.made_given (r : Run w layout cfg pl hasSlot paths d s s₁ s₂ s')
    (hready : Ready w layout cfg pl s) (hq : q ∈ s'.made) (hex : s'.fs.node q ≠ none)
    (hplace : pl.install <:+ q ∨ pl.data <:+ q) : s'.owner q = .nobody := by
  have hset := settled_of_plain (r.plain hready) hq hex
  by_cases hin : pl.install <:+ q
  · exact r.given_in_install hin hset
  by_cases heq : q = pl.data
  · exact heq ▸ r.data_given.2
  have hbelow : Below pl.data q := ⟨hplace.resolve_left hin,heq⟩
  by_cases hkind : TakesSlot layout cfg ∨ cfg.dataDir ≠ none
  · rcases (r.prepared.does.made q).mp ((r.finished.made q).mp hq) with hq₁ | ⟨hwanted,hnone⟩
    · by_cases htakes : TakesSlot layout cfg
      · rcases (r.claimed hready htakes).made q hq₁ with hs | rfl | rfl
        · exact absurd hs (not_suffix_of_below hbelow)
        · exact (r.guard_given hready htakes).2
        · exact (r.lock_given hready htakes).2
      · obtain ⟨rfl,-⟩ := r.without_slot htakes
        rw [r.fresh] at hq₁
        cases hq₁
    · exact r.wanted_given hready hkind hbelow hin hwanted hnone
  · -- A derived data directory that is no slot is walked as a whole.
    rw [not_or,not_not] at hkind
    obtain ⟨-,-,rfl,-⟩ := r.without_slot hkind.1
    exact r.finished.data ((derived_of r.claim).dataDefault.mpr hkind.2) _ r.located.data
      r.data_given.1 q hbelow hset

end Run

end PgEmbedSetup.Handover
