import PgEmbedSetup.Root.Invariant

set_option autoImplicit false

/-!
What a step leaves alone: the phases of other clusters, the claims, and the files of slots
other clusters have claimed.
-/

namespace PgEmbedSetup.Root
open Library

/-- A slot's data directory, password file and lock file are where they were. -/
structure Spares (r : Layout) (s t : State) (n : Name) : Prop where
  data : r.slotDir n ∈ s.data → r.slotDir n ∈ t.data
  password : r.slotPassword n ∈ s.passwords → r.slotPassword n ∈ t.passwords
  lockFile : ∀ i, s.files.find (.slot n) = some i → t.files.find (.slot n) = some i

variable {r : Layout} {s t : State} {c : ClusterId} {n : Name}

theorem Spares.refl (r : Layout) (s : State) (n : Name) : Spares r s s n :=
  ⟨fun h => h,fun h => h,fun _ h => h⟩

theorem Spares.trans {u : State} (h : Spares r s t n) (h' : Spares r t u n) : Spares r s u n :=
  ⟨fun hd => h'.data (h.data hd),fun hp => h'.password (h.password hp),
    fun i hi => h'.lockFile i (h.lockFile i hi)⟩

/-! ### Removals -/

theorem below_parent_append {p : Path} {x : String}
    (h : State.below p r.dataParent = false) (hne : p ≠ r.dataParent ++ [x]) :
    State.below p (r.dataParent ++ [x]) = false := by
  have ha := below_append p r.dataParent x
  rw [h] at ha
  have hb : (p != r.dataParent ++ [x]) = true := by simpa using hne
  rwa [hb,Bool.and_true] at ha

/-- Removing a directory that is neither the slot's own nor above it. -/
theorem spares_removeTree {p : Path} (h : State.below p r.dataParent = false)
    (hne : p ≠ r.slotDir n) : Spares r s (s.removeTree r p) n := by
  refine ⟨?_,?_,?_⟩
  · intro hd
    have hb : State.below p (r.slotDir n) = false := below_parent_append h hne
    simpa [State.removeTree,State.removeData,hb] using hd
  · intro hp
    have hb : (State.below p (r.slotPassword n) && p != r.slotPassword n) = false := by
      rw [Layout.slotPassword,below_append]
      exact h
    simp only [State.removeTree,List.mem_filter,hb]
    exact ⟨hp,rfl⟩
  · intro i hi
    simpa [find_removeTree_slot,h] using hi

theorem spares_removePassword {q : Path} (hne : q ≠ r.slotPassword n) :
    Spares r s (s.removePassword q) n := by
  refine ⟨fun h => h,?_,fun _ h => h⟩
  intro hp
  simpa [State.removePassword,hp] using hne.symm

theorem spares_unlinkSlot {m : Name} (hne : n ≠ m) : Spares r s (s.unlinkSlot m) n := by
  refine ⟨fun h => h,fun h => h,?_⟩
  intro i hi
  simpa [State.unlinkSlot,LockFiles.find_unlink,hne] using hi

theorem slotDir_inj {m : Name} (h : r.slotDir m = r.slotDir n) : m = n := by
  simpa [Layout.slotDir] using h

theorem slotPassword_inj {m : Name} (h : r.slotPassword m = r.slotPassword n) : m = n := by
  have hs : m ++ ".pgpass" = n ++ ".pgpass" := by simpa [Layout.slotPassword] using h
  exact (String.append_left_inj _).mp hs

theorem spares_removeLeftover {m : Name} (hne : n ≠ m) (f : Leftover) :
    Spares r s (removeLeftover r s m f) n := by
  cases f with
  | data => exact spares_removeTree (below_slotDir r m) (fun h => hne (slotDir_inj h).symm)
  | password => exact spares_removePassword (fun h => hne (slotPassword_inj h).symm)
  | lockFile => exact spares_unlinkSlot hne

/-! ### Claims and phases -/

theorem discardPassword_slot (s : State) (r : Layout) (c : ClusterId) :
    (s.discardPassword r c).slot = s.slot := by
  unfold State.discardPassword
  split <;> rfl

theorem openGuard_slot (s : State) (c : ClusterId) (why : Purpose) :
    (openGuard s c why).slot = s.slot := by
  unfold openGuard
  split <;> rfl

theorem removeLeftover_slot (s : State) (m : Name) (f : Leftover) :
    (removeLeftover r s m f).slot = s.slot := by
  cases f <;> rfl

theorem openSetup_other {i : Nat} (h : openSetup s = (i,t)) :
    t.slot = s.slot ∧ t.phase = s.phase ∧ t.data = s.data ∧ t.passwords = s.passwords := by
  unfold openSetup at h
  cases h
  exact ⟨rfl,rfl,rfl,rfl⟩

/-- The only new claim is that of a cluster locking the file it created. -/
theorem claimStep_slot {m : ClaimMove} (hs : claimStep r s c m (s.phase c) = some t) :
    t.slot = s.slot ∨
      ∃ g n i, s.phase c = .created g n i ∧ t.slot = Function.update s.slot c (some (n,i)) := by
  unfold claimStep at hs
  repeat' split at hs
  all_goals cases hs
  all_goals first
    | exact .inl rfl
    | exact .inl (openGuard_slot s c _)
    | exact .inl (removeLeftover_slot s _ _)
    | exact .inl (discardPassword_slot _ r c)
    | exact .inr ⟨_,_,_,‹_›,rfl⟩

theorem lifeStep_slot {m : LifeMove} (hs : lifeStep r s c m (s.phase c) = some t) :
    t.slot = s.slot := by
  unfold lifeStep at hs
  repeat' split at hs
  all_goals cases hs
  all_goals first
    | rfl
    | exact discardPassword_slot s r c
    | (have h := openSetup_other ‹openSetup s = _›
       exact h.1)

theorem cleanStep_slot {m : CleanMove} (hs : cleanStep r s c m (s.phase c) = some t) :
    t.slot = s.slot := by
  unfold cleanStep at hs
  repeat' split at hs
  all_goals cases hs
  all_goals first
    | rfl
    | exact openGuard_slot s c _

theorem setPhase_other {p : Phase} {d : ClusterId} (hd : d ≠ c) (hs : s.phase d = t.phase d) :
    (s.setPhase c p).phase d = t.phase d := by
  simpa [State.setPhase,hd] using hs

theorem openGuard_phase {why : Purpose} {d : ClusterId} (hd : d ≠ c) :
    (openGuard s c why).phase d = s.phase d := by
  unfold openGuard
  split <;> exact setPhase_other hd rfl

theorem removeLeftover_phase (s : State) (m : Name) (f : Leftover) :
    (removeLeftover r s m f).phase = s.phase := by
  cases f <;> rfl

theorem claimStep_phase {m : ClaimMove} (hs : claimStep r s c m (s.phase c) = some t)
    {d : ClusterId} (hd : d ≠ c) : t.phase d = s.phase d := by
  unfold claimStep at hs
  repeat' split at hs
  all_goals cases hs
  all_goals first
    | exact openGuard_phase hd
    | exact setPhase_other hd rfl
    | exact setPhase_other hd (congrFun (Inv.discardPassword_view _ r c).2.1 d)
    | exact setPhase_other hd (congrFun (removeLeftover_phase s _ _) d)

theorem lifeStep_phase {m : LifeMove} (hs : lifeStep r s c m (s.phase c) = some t)
    {d : ClusterId} (hd : d ≠ c) : t.phase d = s.phase d := by
  unfold lifeStep at hs
  repeat' split at hs
  all_goals cases hs
  all_goals first
    | rfl
    | exact setPhase_other hd rfl
    | exact setPhase_other hd (congrFun (Inv.discardPassword_view _ r c).2.1 d)
    | (have h := openSetup_other ‹openSetup s = _›
       exact setPhase_other hd (congrFun h.2.1 d))

theorem cleanStep_phase {m : CleanMove} (hs : cleanStep r s c m (s.phase c) = some t)
    {d : ClusterId} (hd : d ≠ c) : t.phase d = s.phase d := by
  unfold cleanStep at hs
  repeat' split at hs
  all_goals cases hs
  all_goals first
    | exact openGuard_phase hd
    | exact setPhase_other hd rfl

/-! ### Slots of other clusters -/

/-- Two live claims never share a name: the name has one inode and that one lock. -/
theorem Inv.names (h : Inv r s) {d : ClusterId} {i j : Nat} (hc : s.slot c = some (n,i))
    (hd : s.slot d = some (n,j)) : c = d := by
  obtain ⟨hf,hl,-⟩ := h.shared.slots c n i hc
  obtain ⟨hf',hl',-⟩ := h.shared.slots d n j hd
  obtain rfl : i = j := by
    rw [hf] at hf'
    exact Option.some.inj hf'
  rw [hl] at hl'
  exact Holder.claim.inj (Option.some.inj hl')

theorem Inv.passwordFile_ne (h : Inv r s) {d : ClusterId} {i : Nat}
    (hd : s.slot d = some (n,i)) (hdc : d ≠ c) : s.passwordFile r c ≠ r.slotPassword n := by
  have hinstall : r.installDir ++ [".pgpass"] ≠ r.slotPassword n := by
    simp [Layout.installDir,Layout.slotPassword,Layout.dataParent]
  unfold State.passwordFile
  split
  · split
    · next m j hc =>
      intro he
      obtain rfl := slotPassword_inj he
      exact hdc (h.names hd hc)
    · exact hinstall
  · exact hinstall

theorem spares_of_files {u : State} (hu : Spares r s u n) (hd : t.data = u.data)
    (hp : t.passwords = u.passwords) (hf : t.files.entries = u.files.entries) :
    Spares r s t n := by
  refine ⟨fun h => hd ▸ hu.data h,fun h => hp ▸ hu.password h,fun i hi => ?_⟩
  have := hu.lockFile i hi
  simpa [LockFiles.find,hf] using this

theorem spares_create {f : LockFile} (hf : s.files.find f = none) : Spares r s (s.create f) n :=
  ⟨fun h => h,fun h => h,fun _ hi => LockFiles.find_create_of_some hf hi⟩

theorem spares_openGuard (s : State) (c : ClusterId) (why : Purpose) :
    Spares r s (openGuard s c why) n := by
  unfold openGuard
  split
  · exact spares_of_files (Spares.refl r s n) rfl rfl rfl
  · next hf => exact spares_of_files (spares_create hf) rfl rfl rfl

theorem spares_discardPassword (hne : s.passwordFile r c ≠ r.slotPassword n) :
    Spares r s (s.discardPassword r c) n := by
  unfold State.discardPassword
  split
  · exact Spares.refl r s n
  · exact spares_removePassword hne

theorem spares_openSetup {i : Nat} (h : openSetup s = (i,t)) : Spares r s t n := by
  unfold openSetup LockFiles.openOrCreate at h
  cases hf : s.files.find .setup with
  | some j =>
    rw [hf] at h
    cases h
    exact spares_of_files (Spares.refl r s n) rfl rfl rfl
  | none =>
    rw [hf] at h
    cases h
    exact spares_of_files (spares_create hf) rfl rfl rfl

/-- A sweep removes the files of slots nobody holds. -/
theorem sweepRemove_spares (h : Inv r s) {ok : Bool}
    (hs : claimStep r s c (.sweepRemove ok) (s.phase c) = some t) {d : ClusterId} {i : Nat}
    (hd : s.slot d = some (n,i)) : Spares r s t n := by
  unfold claimStep at hs
  split at hs
  all_goals try contradiction
  next ok' g todo m j f _ hp =>
  cases hs
  have hn := h.unclaimed_of_swept (c := c) (n := m) (i := j) (by rw [hp]; rfl) (by rw [hp]; rfl)
  have hne : n ≠ m := by
    rintro rfl
    exact hn d i hd
  cases ok' with
  | false => exact spares_of_files (Spares.refl r s n) rfl rfl rfl
  | true => exact spares_of_files (spares_removeLeftover hne f) rfl rfl rfl

theorem claimStep_spares (h : Inv r s) {m : ClaimMove}
    (hs : claimStep r s c m (s.phase c) = some t) {d : ClusterId} {i : Nat}
    (hd : s.slot d = some (n,i)) (hdc : d ≠ c) : Spares r s t n := by
  by_cases hm : ∃ ok, m = .sweepRemove ok
  · obtain ⟨ok,rfl⟩ := hm
    exact sweepRemove_spares h hs hd
  have hkeep : Spares r s ((s.close (.guard c)).discardPassword r c) n := by
    have hclose : Spares r s (s.close (.guard c)) n :=
      spares_of_files (Spares.refl r s n) rfl rfl rfl
    have hpass : (s.close (.guard c)).passwordFile r c ≠ r.slotPassword n :=
      h.passwordFile_ne hd hdc
    exact hclose.trans (spares_discardPassword hpass)
  unfold claimStep at hs
  repeat' split at hs
  all_goals cases hs
  all_goals first
    | exact spares_of_files (Spares.refl r s n) rfl rfl rfl
    | exact spares_openGuard s c _
    | exact spares_of_files (spares_create ‹_›) rfl rfl rfl
    | exact spares_of_files hkeep rfl rfl rfl
    | exact absurd ⟨_,rfl⟩ hm

theorem lifeStep_spares (h : Inv r s) {m : LifeMove}
    (hs : lifeStep r s c m (s.phase c) = some t) {d : ClusterId} {i : Nat}
    (hd : s.slot d = some (n,i)) (hdc : d ≠ c)
    (hrem : (Action.life c m).removesDataOf = some c →
      Spares r s (s.removeTree r (s.dataDir r c)) n) : Spares r s t n := by
  have hpass := h.passwordFile_ne hd hdc
  unfold lifeStep at hs
  repeat' split at hs
  all_goals cases hs
  all_goals first
    | exact spares_of_files (Spares.refl r s n) rfl rfl rfl
    | exact spares_of_files (spares_discardPassword hpass) rfl rfl rfl
    | exact spares_of_files (hrem rfl) rfl rfl rfl
    | exact spares_of_files ((hrem rfl).trans (spares_removePassword hpass)) rfl rfl rfl
    | exact ⟨fun h => List.mem_cons_of_mem _ h,fun h => List.mem_cons_of_mem _ h,fun _ h => h⟩
    | (have h := spares_openSetup (r := r) (n := n) ‹openSetup s = _›
       exact spares_of_files h rfl rfl rfl)
    | (obtain rfl := Bool.eq_false_iff.mpr ‹¬_ = true›
       exact spares_of_files (hrem rfl) rfl rfl rfl)

theorem cleanStep_spares {m : CleanMove} (hs : cleanStep r s c m (s.phase c) = some t)
    (hdata : (Action.clean c m).removesDataOf = some c →
      Spares r s (s.removeTree r (s.dataDir r c)) n)
    (hne : r.installDir ≠ r.slotDir n) : Spares r s t n := by
  have hinstall : Spares r s (s.removeTree r r.installDir) n :=
    spares_removeTree (below_installDir r) hne
  unfold cleanStep at hs
  repeat' split at hs
  all_goals cases hs
  all_goals first
    | exact spares_of_files (Spares.refl r s n) rfl rfl rfl
    | exact spares_openGuard s c _
    | exact spares_of_files (hdata rfl) rfl rfl rfl
    | exact spares_of_files hinstall rfl rfl rfl

/-! ### The claim guard -/

theorem guardKept_create {f : LockFile} (hf : s.files.find f = none) : GuardKept s (s.create f) :=
  fun _ hg => LockFiles.find_create_of_some hf hg

theorem guardKept_openGuard (s : State) (c : ClusterId) (why : Purpose) :
    GuardKept s (openGuard s c why) := by
  unfold openGuard
  split
  · exact fun _ hg => hg
  · next hf => exact guardKept_create hf

theorem guardKept_discardPassword (s : State) (r : Layout) (c : ClusterId) :
    GuardKept s (s.discardPassword r c) := by
  unfold State.discardPassword
  split <;> exact fun _ hg => hg

theorem guardKept_removeLeftover (s : State) (m : Name) (f : Leftover) :
    GuardKept s (removeLeftover r s m f) := by
  cases f with
  | data => exact guardKept_of_above (below_slotDir r m)
  | password => exact fun _ hg => hg
  | lockFile =>
    intro g hg
    simpa [removeLeftover,State.unlinkSlot,LockFiles.find_unlink] using hg

theorem guardKept_openSetup {i : Nat} (h : openSetup s = (i,t)) : GuardKept s t := by
  unfold openSetup LockFiles.openOrCreate at h
  cases hf : s.files.find .setup with
  | some j =>
    rw [hf] at h
    cases h
    exact fun _ hg => hg
  | none =>
    rw [hf] at h
    cases h
    exact guardKept_create hf

/-- Only the removal of a data directory can take the claim guard along. -/
theorem step_guardKept {a : Action} (hs : step r s a = some t)
    (hrem : ∀ c, a.removesDataOf = some c → GuardKept s (s.removeTree r (s.dataDir r c))) :
    GuardKept s t := by
  cases a with
  | claim c m =>
    simp only [step] at hs
    unfold claimStep at hs
    repeat' split at hs
    all_goals cases hs
    all_goals first
      | exact fun _ hg => hg
      | exact guardKept_openGuard s c _
      | exact guardKept_create ‹_›
      | exact guardKept_removeLeftover s _ _
      | exact guardKept_discardPassword (s.close (.guard c)) r c
  | life c m =>
    simp only [step] at hs
    unfold lifeStep at hs
    repeat' split at hs
    all_goals cases hs
    all_goals first
      | exact fun _ hg => hg
      | exact hrem c rfl
      | exact guardKept_discardPassword s r c
      | (have h := guardKept_openSetup ‹openSetup s = _›
         exact h)
      | (obtain rfl := Bool.eq_false_iff.mpr ‹¬_ = true›
         exact hrem c rfl)
  | clean c m =>
    simp only [step] at hs
    unfold cleanStep at hs
    repeat' split at hs
    all_goals cases hs
    all_goals first
      | exact fun _ hg => hg
      | exact guardKept_openGuard s c _
      | exact hrem c rfl
      | exact guardKept_of_above (below_installDir r)
  | watch w m =>
    simp only [step] at hs
    unfold watchStep at hs
    repeat' split at hs
    all_goals cases hs
    all_goals exact fun _ hg => hg
  | die pid =>
    cases hs
    exact fun _ hg => hg
  | release k =>
    simp only [step] at hs
    repeat' split at hs
    all_goals cases hs
    all_goals exact fun _ hg => hg

end PgEmbedSetup.Root
