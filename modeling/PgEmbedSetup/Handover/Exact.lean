import PgEmbedSetup.Handover.Complete

set_option autoImplicit false

/-!
The condition is also necessary where no link lies in the two directories: a link could make
the walk hand over what it leads to.
-/

namespace PgEmbedSetup.Handover
open Library Privileges

variable {w : Surroundings} {layout : DataLayout} {cfg : PgEnvCfg} {s s' s₁ s₂ : State}
  {q D : Place Name} {paths : SettingsPaths} {hasSlot : Bool} {d : Dirs} {pl : Places}

/-- No links below the install directory or the data parent. -/
def LinkFree (pl : Places) (fs : FileSystem) : Prop :=
  ∀ q, pl.install <:+ q ∨ pl.data <:+ q → ∀ target, fs.node q ≠ some (.symlink target)

theorem Run.claimed_of_free (r : Run w layout cfg pl hasSlot paths d s s₁ s₂ s')
    (hfree : LinkFree pl s.fs) (htakes : TakesSlot layout cfg) : Claimed w s s₁ pl.data := by
  obtain ⟨-,-,-,-,hclaimed⟩ := r.with_slot htakes
  exact hclaimed (hfree _ (.inr (List.suffix_cons _ _)))

theorem Run.free_before (r : Run w layout cfg pl hasSlot paths d s s₁ s₂ s')
    (hfree : LinkFree pl s.fs) : LinkFree pl s₂.fs := by
  intro q hq target hlink
  rcases r.prepared.does.came hlink with hlink₁ | ⟨-,-,hdir⟩
  · by_cases htakes : TakesSlot layout cfg
    · exact hfree q hq target ((r.claimed_of_free hfree htakes).links q target hlink₁)
    · obtain ⟨rfl,-⟩ := r.without_slot htakes
      exact hfree q hq target hlink₁
  · cases hdir

theorem Run.install_before (r : Run w layout cfg pl hasSlot paths d s s₁ s₂ s') :
    s₂.fs.locate cfg.installDir = .ok pl.install ∧ s₂.fs.node pl.install = some .dir := by
  have hinstall := r.prepared.install
  rw [(derived_of r.claim).installDir,r.install] at hinstall
  exact ⟨hinstall,r.prepared.dirs _ (.inr (.inr (.inl r.install.symm)))⟩

/-- Without links the XDG directories are in the install directory. -/
theorem Run.xdg_inside (r : Run w layout cfg pl hasSlot paths d s s₁ s₂ s')
    (hfree : LinkFree pl s.fs) : pl.install <:+ d.cache ∧ pl.install <:+ d.run := by
  obtain ⟨hloc,hdir⟩ := r.install_before
  have hno : ∀ n : Name, ∀ target, s₂.fs.node (n :: pl.install) ≠ some (.symlink target) :=
    fun n => r.free_before hfree _ (.inl (List.suffix_cons _ _))
  have hcache := r.prepared.cache
  have hrun := r.prepared.run
  rw [(derived_of r.claim).installDir] at hcache hrun
  rw [locate_no_link hloc hdir (hno _) hcache,locate_no_link hloc hdir (hno _) hrun]
  exact ⟨List.suffix_cons _ _,List.suffix_cons _ _⟩

/-- Without links the slot's directory is in the data parent. -/
theorem Run.slot_there (r : Run w layout cfg pl hasSlot paths d s s₁ s₂ s')
    (hfree : LinkFree pl s.fs) (htakes : TakesSlot layout cfg) :
    d.data = slotName w :: pl.data ∧ s'.fs.node (slotName w :: pl.data) = some .dir := by
  obtain ⟨-,hpath,-,hparent,-⟩ := r.with_slot htakes
  have hdefault := (derived_of r.claim).dataDefault.mpr htakes.2
  have hloc := r.prepared.dataParent hdefault
  have hdata := r.prepared.data
  rw [hpath,hparent,List.tail_cons] at hloc
  rw [hpath] at hdata
  have hdir := r.prepared.dirs pl.data (.inr (.inl ⟨hdefault,hparent.symm⟩))
  have hslot := locate_no_link hloc hdir
    (r.free_before hfree _ (.inr (List.suffix_cons _ _))) hdata
  refine ⟨hslot,?_⟩
  rw [← hslot]
  exact (r.handed (.inr (.inr (.inr (.inl rfl))))).1

theorem Run.data_located (r : Run w layout cfg pl hasSlot paths d s s₁ s₂ s')
    (hfree : LinkFree pl s.fs) :
    s'.fs.locate paths.dataDir = .ok d.data ∧ pl.data <:+ d.data := by
  by_cases htakes : TakesSlot layout cfg
  · obtain ⟨hdata,hdir⟩ := r.slot_there hfree htakes
    rw [hdata]
    exact ⟨(r.slot_dir htakes hdir).1,List.suffix_cons _ _⟩
  · obtain ⟨-,-,rfl,hdata⟩ := r.without_slot htakes
    rw [hdata]
    exact ⟨r.located.data,List.suffix_refl _⟩

/-- Without links nothing is handed over but the directories, the password file, the lock and
what is below the two tops. -/
theorem Run.only (r : Run w layout cfg pl hasSlot paths d s s₁ s₂ s') (hfree : LinkFree pl s.fs)
    (hq : s'.owner q = .nobody) : s₂.owner q = .nobody ∨
      q.head? = paths.passwordFile.head? ∧ s'.fs.node q = some .file ∨
      hasSlot = true ∧ s'.fs.locate (lockPath paths.dataDir) = .ok q ∨
      Below pl.install q ∨ paths.dataDefault = true ∧ Below d.data q := by
  have hinstall := r.located.install
  rw [← (derived_of r.claim).installDir] at hinstall
  obtain ⟨hloc,hbelow⟩ := r.data_located hfree
  have hdir := (r.handed (.inr (.inr (.inr (.inl rfl))))).1
  refine r.finished.only _ _ hinstall r.install_dir.1 hloc hdir (fun x node hx hnode => ?_) q hq
  have hplace : pl.install <:+ x ∨ pl.data <:+ x := hx.imp And.left fun hx => hbelow.trans hx.1
  cases node with
  | dir => exact .inl hnode
  | file => exact .inr hnode
  | symlink target =>
    exact absurd (r.finished.less x _ hnode) (r.free_before hfree x hplace target)

theorem not_below_sibling {m n : Name} {D : Place Name} : ¬ Below (m :: D) (n :: D) :=
  fun h => h.2 (h.1.eq_of_length (by simp)).symm

theorem Run.guard_needed (r : Run w layout cfg pl hasSlot paths d s s₁ s₂ s')
    (hfree : LinkFree pl s.fs) (htakes : TakesSlot layout cfg) (hreuse : Reusable w pl.data s')
    (hin : ¬ pl.install <:+ pl.data) :
    s.fs.node (claimGuardName :: pl.data) = some .file ∧
      s.owner (claimGuardName :: pl.data) = .nobody := by
  have hclaimed := r.claimed_of_free hfree htakes
  obtain ⟨-,-,hpassword,-,-⟩ := r.with_slot htakes
  obtain ⟨hfile,howner⟩ := hreuse.guard
  have howner₂ : s₂.owner (claimGuardName :: pl.data) = .nobody := by
    rcases r.only hfree howner with h | ⟨h,-⟩ | ⟨-,h⟩ | h | ⟨-,h⟩
    · exact h
    · rw [hpassword] at h
      exact absurd (Option.some.inj h).symm (suffixed_ne_guard _).1
    · rw [(r.lock_file htakes hclaimed).2] at h
      exact absurd (Except.ok.inj h).symm (lock_ne_guard w pl.data)
    · rcases List.suffix_cons_iff.mp h.1 with he | hs
      · exact absurd he.symm h.2
      · exact absurd hs hin
    · rw [(r.slot_there hfree htakes).1] at h
      exact absurd h not_below_sibling
  have hnot : ¬ d.Handed paths (claimGuardName :: pl.data) := by
    intro hh
    rw [(r.handed hh).1] at hfile
    cases hfile
  rw [r.prepared.does.kept _ hnot fun _ => by rw [hclaimed.guard]; simp] at howner₂
  by_cases hold : s.fs.node (claimGuardName :: pl.data) = some .file
  · exact ⟨hold,(hclaimed.old hold).1 ▸ howner₂⟩
  · rw [hclaimed.new hold] at howner₂
    cases howner₂

theorem Run.missing (r : Run w layout cfg pl hasSlot paths d s s₁ s₂ s')
    (hfree : LinkFree pl s.fs)
    (hguard : TakesSlot layout cfg → s.fs.node (claimGuardName :: pl.data) = some .file)
    (hnone : (swept w layout cfg pl s.fs).node q = none) (hdir : s₂.fs.node q = some .dir) :
    s₁.fs.node q = none := by
  rw [swept] at hnone
  split at hnone
  · next htakes =>
    have hclaimed := r.claimed_of_free hfree htakes
    rw [(hclaimed.old (hguard htakes)).2 q ?_,hnone]
    rintro rfl
    rw [r.prepared.does.old _ _ hclaimed.lock] at hdir
    cases hdir
  · next hno =>
    obtain ⟨rfl,-⟩ := r.without_slot hno
    exact hnone

/-- The ways from the data directory down are made, and not everything on them is handed over. -/
theorem Run.between_needed (r : Run w layout cfg pl hasSlot paths d s s₁ s₂ s')
    (hfree : LinkFree pl s.fs) (hover : HandsOver w layout cfg pl s')
    (hkind : TakesSlot layout cfg ∨ cfg.dataDir ≠ none) (hq : Below pl.data q)
    (hway : q <:+ pl.install ∨ cfg.runtimeDir = none ∧ q <:+ pl.installParent)
    (hnone : (swept w layout cfg pl s.fs).node q = none) :
    pl.install <:+ q ∨ cfg.runtimeDir = none ∧ q = pl.installParent ∨
      TakesSlot layout cfg ∧ slotName w :: pl.data <:+ q := by
  by_contra hnot
  rw [not_or,not_or] at hnot
  obtain ⟨hin,hparent,hslot⟩ := hnot
  have hderived := derived_of r.claim
  have hwanted : d.Wanted paths q := by
    rcases hway with hs | ⟨hdefault,hs⟩
    · exact .inr (.inr (.inl (r.install ▸ hs)))
    · exact .inl ⟨hderived.installDefault.mpr hdefault,r.installParent hdefault ▸ hs⟩
  have hdir₂ : s₂.fs.node q = some .dir := by
    rcases hway with hs | ⟨hdefault,hs⟩
    · exact dir_of_suffix r.install_before.2 hs
    · refine dir_of_suffix (r.prepared.dirs pl.installParent (.inl ?_)) hs
      exact ⟨hderived.installDefault.mpr hdefault,(r.installParent hdefault).symm⟩
  have hguard : TakesSlot layout cfg → s.fs.node (claimGuardName :: pl.data) = some .file :=
    fun htakes => (r.guard_needed hfree htakes (hover.reusable htakes)
      fun hs => hin (hs.trans hq.1)).1
  have hnone₁ := r.missing hfree hguard hnone hdir₂
  have htakes_of : paths.dataDefault = true → TakesSlot layout cfg :=
    fun hdefault => hkind.resolve_right fun hne => hne (hderived.dataDefault.mp hdefault)
  have hdata : q ≠ d.data := by
    rintro rfl
    by_cases htakes : TakesSlot layout cfg
    · exact hslot ⟨htakes,(r.slot_there hfree htakes).1 ▸ List.suffix_refl _⟩
    · exact hq.2 (r.without_slot htakes).2.2.2
  have hnot : ¬ d.Handed paths q := by
    rintro (⟨hdefault,rfl⟩ | ⟨hdefault,rfl⟩ | rfl | h | rfl | rfl)
    · have hruntime := hderived.installDefault.mp hdefault
      exact hparent ⟨hruntime,r.installParent hruntime⟩
    · exact hq.2 (r.with_slot (htakes_of hdefault)).2.2.2.1
    · exact hin (r.install ▸ List.suffix_refl _)
    · exact hdata h
    · exact hin (r.xdg_inside hfree).1
    · exact hin (r.xdg_inside hfree).2
  have hroot := r.prepared.does.root q hnot hwanted hnone₁
  have hmade := (r.finished.made q).mpr ((r.prepared.does.made q).mpr (.inr ⟨hwanted,hnone₁⟩))
  have hdir : s'.fs.node q = some .dir := by rw [r.finished.same q (.inr hdir₂),hdir₂]
  have howner := hover.made q hmade (by simp [hdir]) (.inr hq.1)
  rcases r.only hfree howner with h | ⟨-,h⟩ | ⟨hb,h⟩ | h | ⟨hdefault,h⟩
  · rw [hroot] at h
    cases h
  · rw [hdir] at h
    cases h
  · by_cases htakes : TakesSlot layout cfg
    · obtain ⟨hfile,hloc⟩ := r.lock_file htakes (r.claimed_of_free hfree htakes)
      obtain rfl := Except.ok.inj (hloc.symm.trans h)
      rw [hdir] at hfile
      cases hfile
    · rw [(r.without_slot htakes).2.1] at hb
      cases hb
  · exact hin h.1
  · have htakes := htakes_of hdefault
    exact hslot ⟨htakes,(r.slot_there hfree htakes).1 ▸ h.1⟩

theorem Run.ready (r : Run w layout cfg pl hasSlot paths d s s₁ s₂ s')
    (hfree : LinkFree pl s.fs) (hover : HandsOver w layout cfg pl s') :
    Ready w layout cfg pl s where
  guard htakes := by
    refine ⟨hfree _ (.inr (List.suffix_cons _ _)),?_⟩
    by_cases hin : pl.install <:+ pl.data
    · exact .inl hin
    · exact .inr (r.guard_needed hfree htakes (hover.reusable htakes) hin)
  between hkind _ hq hway hnone := r.between_needed hfree hover hkind hq hway hnone

/-! ### The whole bootstrap -/

/-- The files before anything has been made. -/
def start (fs : FileSystem) (owner : Place Name → Owner) : State := ⟨fs,owner,[]⟩

theorem bootstrapWithRoot_hands_over (w : Surroundings) (layout : DataLayout) (cfg : PgEnvCfg)
    (fs : FileSystem) (owner : Place Name → Owner) (s' : State) (pl : Places)
    (hrun : bootstrapWithRoot w layout cfg (start fs owner) = .ok s')
    (hloc : Located cfg s'.fs pl) :
    (Ready w layout cfg pl (start fs owner) → HandsOver w layout cfg pl s') ∧
      (LinkFree pl fs → HandsOver w layout cfg pl s' →
        Ready w layout cfg pl (start fs owner)) := by
  obtain ⟨hasSlot,paths,s₁,s₂,d,hclaim,hprepared,hfinished⟩ := bootstrapWithRoot_ok hrun
  have r : Run w layout cfg pl hasSlot paths d (start fs owner) s₁ s₂ s' :=
    ⟨rfl,hclaim,hprepared,hfinished,hloc⟩
  exact ⟨fun hready => ⟨fun q hq hex hin => r.made_given hready hq hex hin,
    fun htakes => r.reusable hready htakes⟩,fun hfree hover => r.ready hfree hover⟩

/-! ### The first bootstrap in a root, and one after the guard has been handed over -/

def alone : Surroundings := ⟨7,8,9,fun _ => false,fun _ => false⟩

def srv : Place Name := [ascii "srv"]

def srvOnly : PgEnvCfg := ⟨srv,none,none⟩

def srvPlaces : Places := ⟨ascii "install" :: srv,srv,ascii "data" :: srv⟩

def srvGuard : Place Name := claimGuardName :: ascii "data" :: srv

def emptyFiles : FileSystem := ⟨[],by decide,by decide⟩

def guardedFiles : FileSystem where
  entries := [(srv,.dir),(ascii "data" :: srv,.dir),(srvGuard,.file)]
  nodup := by decide
  closed := by decide

theorem ok_of_map {ε α β : Type} {x : Except ε α} {f : α → β} {b : β} (h : x.map f = .ok b) :
    ∃ a, x = .ok a ∧ f a = b := by
  cases x with
  | error e => cases h
  | ok a => exact ⟨a,rfl,Except.ok.inj h⟩

def atSrv (s' : State) : Bool :=
  decide (s'.fs.locate srvOnly.installDir = .ok srvPlaces.install ∧
    s'.fs.locate srvOnly.root = .ok srvPlaces.installParent ∧
    s'.fs.locate (resolveSettingsPaths srvOnly).dataDir = .ok srvPlaces.data)

theorem located_of_srv (h : atSrv s' = true) : Located srvOnly s'.fs srvPlaces := by
  obtain ⟨hinstall,hparent,hdata⟩ := of_decide_eq_true h
  exact ⟨hinstall,fun _ => hparent,hdata⟩

theorem bootstrapWithRoot_hands_over_guarded : ∃ s',
    bootstrapWithRoot alone .perCluster srvOnly (start guardedFiles fun _ => .nobody) = .ok s' ∧
      HandsOver alone .perCluster srvOnly srvPlaces s' ∧
      Ready alone .perCluster srvOnly srvPlaces (start guardedFiles fun _ => .nobody) := by
  obtain ⟨s',hrun,hloc⟩ := ok_of_map (show (bootstrapWithRoot alone .perCluster srvOnly
    (start guardedFiles fun _ => .nobody)).map atSrv = .ok true by decide +kernel)
  have hiff := bootstrapWithRoot_hands_over alone .perCluster srvOnly guardedFiles
    (fun _ => .nobody) s' srvPlaces hrun (located_of_srv hloc)
  have hfile : guardedFiles.node (claimGuardName :: srvPlaces.data) = some .file := by
    decide +kernel
  have hready : Ready alone .perCluster srvOnly srvPlaces
      (start guardedFiles fun _ => .nobody) := by
    refine ⟨fun _ => ⟨fun target hlink => ?_,.inr ⟨hfile,rfl⟩⟩,fun _ q hq hway _ => ?_⟩
    · rw [show (start guardedFiles fun _ => .nobody).fs = guardedFiles from rfl,hfile] at hlink
      cases hlink
    · -- Nothing below the data parent is on the way to the install directory.
      exfalso
      have hlong := hq.1.length_le
      have hne : q.length ≠ srvPlaces.data.length :=
        fun he => hq.2 (hq.1.eq_of_length he.symm).symm
      have hshort : q.length ≤ 2 := by
        rcases hway with hs | ⟨-,hs⟩
        · exact hs.length_le
        · exact hs.length_le.trans (by decide)
      simp [srvPlaces,srv] at hlong hne
      omega
  exact ⟨s',hrun,hiff.1 hready,hready⟩

/-- The first bootstrap leaves the guard to root. -/
theorem bootstrapWithRoot_keeps_guard : ∃ s',
    bootstrapWithRoot alone .perCluster srvOnly (start emptyFiles fun _ => .root) = .ok s' ∧
      Located srvOnly s'.fs srvPlaces ∧ srvGuard ∈ s'.made ∧
      s'.fs.node srvGuard = some .file ∧ s'.owner srvGuard = .root ∧
      ¬ HandsOver alone .perCluster srvOnly srvPlaces s' := by
  obtain ⟨s',hrun,hend⟩ := ok_of_map (show (bootstrapWithRoot alone .perCluster srvOnly
    (start emptyFiles fun _ => .root)).map (fun s' => (atSrv s',decide (srvGuard ∈ s'.made ∧
      s'.fs.node srvGuard = some .file ∧ s'.owner srvGuard = .root))) = .ok (true,true)
      by decide +kernel)
  obtain ⟨hloc,hguard⟩ := Prod.mk.inj hend
  obtain ⟨hmade,hfile,howner⟩ := of_decide_eq_true hguard
  refine ⟨s',hrun,located_of_srv hloc,hmade,hfile,howner,fun hover => ?_⟩
  have hnobody := hover.made srvGuard hmade (by simp [hfile]) (.inr (List.suffix_cons _ _))
  rw [howner] at hnobody
  cases hnobody

end PgEmbedSetup.Handover
