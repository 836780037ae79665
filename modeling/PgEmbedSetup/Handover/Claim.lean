import PgEmbedSetup.Handover.Steps

set_option autoImplicit false

/-!
What the claim of a slot leaves: the guard, the slot's lock file, and what the sweep of the
dead slots did not take.
-/

namespace PgEmbedSetup.Handover
open Library Privileges

variable {w : Surroundings} {s s' : State} {fs : FileSystem} {p q parent : Place Name}
  {name : Name}

/-! ### The sweep -/

theorem Shrinks.trans {fs₁ fs₂ : FileSystem} (h : Shrinks fs fs₁) (h' : Shrinks fs₁ fs₂) :
    Shrinks fs fs₂ := fun q node hq => h q node (h' q node hq)

theorem removeSlot_shrinks : Shrinks fs (removeSlot w parent fs name) :=
  (removeDirAll_shrinks.trans removeFile_shrinks).trans removeFile_shrinks

theorem sweepOne_shrinks : Shrinks fs (sweepOne w parent fs name) := by
  rw [sweepOne]
  split
  · exact removeSlot_shrinks
  · exact fun _ _ hq => hq

/-- What a sweep leaves alone one slot after the other, it leaves alone. -/
theorem sweep_induction (P : FileSystem → Prop) (hfs : P fs)
    (hone : ∀ fs name, P fs → P (sweepOne w parent fs name)) : P (sweepDeadSlots w parent fs) := by
  rw [sweepDeadSlots]
  generalize (fs.readDir parent).filterMap lockStem = names
  induction names generalizing fs with
  | nil => exact hfs
  | cons name names ih => exact ih (hone fs name hfs)

theorem sweepDeadSlots_shrinks : Shrinks fs (sweepDeadSlots w parent fs) :=
  sweep_induction (Shrinks fs) (fun _ _ hq => hq) fun _ _ h => h.trans sweepOne_shrinks

/-- A sweep touches nothing but what is below the data parent. -/
theorem node_sweepDeadSlots (hq : ¬ Below parent q) :
    (sweepDeadSlots w parent fs).node q = fs.node q := by
  have hne : ∀ n : Name, ¬ n :: parent <:+ q := by
    intro n hs
    refine hq ⟨(List.suffix_cons n parent).trans hs,?_⟩
    rintro rfl
    have hlen := hs.length_le
    simp at hlen
  have hne' : ∀ n : Name, q ≠ n :: parent := fun n he => hne n (he ▸ List.suffix_refl _)
  refine sweep_induction (fun fs' => fs'.node q = fs.node q) rfl fun fs' name h => ?_
  rw [sweepOne]
  split
  · rw [removeSlot,node_removeFile (.inl (hne' _)),node_removeFile (.inl (hne' _)),
      node_removeDirAll (.inl (hne _)),h]
  · exact h

theorem suffixed_ne_guard (name : Name) :
    name ++ passwordSuffix ≠ claimGuardName ∧ name ++ lockSuffix ≠ claimGuardName := by
  refine ⟨fun h => ?_,fun h => ?_⟩
  · have hlast := congrArg List.getLast? h
    simp [passwordSuffix,claimGuardName,ascii] at hlast
  · have hlast := congrArg List.getLast? h
    simp [lockSuffix,claimGuardName,ascii] at hlast

/-- The guard is no slot's directory, password file or lock. -/
theorem sweepDeadSlots_guard (hguard : fs.node (claimGuardName :: parent) = some .file) :
    (sweepDeadSlots w parent fs).node (claimGuardName :: parent) = some .file := by
  refine sweep_induction (fun fs' => fs'.node (claimGuardName :: parent) = some .file) hguard
    fun fs' name h => ?_
  rw [sweepOne]
  split
  · have hpassword : claimGuardName :: parent ≠ (name ++ passwordSuffix) :: parent :=
      fun he => (suffixed_ne_guard name).1 (List.cons.inj he).1.symm
    have hlock : claimGuardName :: parent ≠ (name ++ lockSuffix) :: parent :=
      fun he => (suffixed_ne_guard name).2 (List.cons.inj he).1.symm
    rw [removeSlot,node_removeFile (.inl hlock),node_removeFile (.inl hpassword),
      node_removeDirAll ?_,h]
    by_cases hname : name :: parent <:+ claimGuardName :: parent
    · have heq := hname.eq_of_length (by simp)
      exact .inr (heq ▸ h)
    · exact .inl hname
  · exact h

/-! ### The guard and the lock -/

theorem creationPlace_of_dir {dir d : Place Name} {n : Name} {budget : Nat}
    (hloc : fs.locate dir = .ok d) (hno : ∀ target, fs.node (n :: d) ≠ some (.symlink target)) :
    creationPlace fs budget [] (spelled (n :: dir)) = .ok (n :: d) := by
  have hwalk := locate_eq_ok.mp hloc
  unfold creationPlace
  simp only [spelled,namesTo_cons,List.getLast?_append,List.getLast?_singleton,Option.some_or,
    List.dropLast_concat,Layout.resolve,if_true,followAll,Bool.false_eq_true,if_false] at hwalk ⊢
  rw [hwalk]
  cases hn : fs.node (n :: d) with
  | none => simp [hn]
  | some node =>
    cases node with
    | symlink target => exact absurd hn (hno target)
    | dir => simp [hn]
    | file => simp [hn]

theorem openCreate_ok {dir d : Place Name} {n : Name} (hloc : s.fs.locate dir = .ok d)
    (hno : ∀ target, s.fs.node (n :: d) ≠ some (.symlink target))
    (h : s.openCreate (n :: dir) = .ok s') :
    s.fs.node (n :: d) = some .file ∧ s' = s ∨ s.createAt n d .file = .ok s' := by
  rw [State.openCreate,creationPlace_of_dir hloc hno] at h
  cases hn : s.fs.node (n :: d) with
  | none => simpa [hn] using h
  | some node =>
    cases node with
    | file =>
      simp only [hn,Except.ok.injEq] at h
      exact .inl ⟨rfl,h.symm⟩
    | dir => simp [hn] at h
    | symlink target => exact absurd hn (hno target)

/-! ### The claim -/

/-- What the bootstrap has made is no link. -/
def State.Plain (s : State) : Prop := ∀ q ∈ s.made, ∀ target, s.fs.node q ≠ some (.symlink target)

theorem Does.plain {wanted handed : Place Name → Prop} (h : Does s s' wanted handed)
    (hs : s.Plain) : s'.Plain := by
  intro q hq target hnode
  rcases h.came hnode with hold | ⟨-,-,hdir⟩
  · rcases (h.made q).mp hq with hq | ⟨-,hnone⟩
    · exact hs q hq target hold
    · rw [hnone] at hold
      cases hold
  · cases hdir

theorem createAt_plain {dir : Place Name} {n : Name} (h : s.createAt n dir .file = .ok s')
    (hs : s.Plain) : s'.Plain := by
  obtain ⟨-,-,hnode,-,hmade⟩ := createAt_ok h
  intro q hq target hlink
  rw [hnode] at hlink
  split at hlink
  · cases hlink
  · next hne =>
    rw [hmade,List.mem_cons] at hq
    exact hs q (hq.resolve_left hne) target hlink

/-- A slot claimed below `D`, where the guard was no link. -/
structure Claimed (w : Surroundings) (s s' : State) (D : Place Name) : Prop where
  plain : s'.Plain
  made : ∀ q ∈ s'.made, q <:+ D ∨ q = claimGuardName :: D ∨ q = (slotName w ++ lockSuffix) :: D
  guard : s'.fs.node (claimGuardName :: D) = some .file
  lock : s'.fs.node ((slotName w ++ lockSuffix) :: D) = some .file
  links : ∀ q target, s'.fs.node q = some (.symlink target) → s.fs.node q = some (.symlink target)
  /-- A guard that was there already leaves only the sweep and the lock to be done. -/
  old : s.fs.node (claimGuardName :: D) = some .file →
    s'.owner (claimGuardName :: D) = s.owner (claimGuardName :: D) ∧
      ∀ q, q ≠ (slotName w ++ lockSuffix) :: D →
        s'.fs.node q = (sweepDeadSlots w D s.fs).node q
  new : s.fs.node (claimGuardName :: D) ≠ some .file → s'.owner (claimGuardName :: D) = .root

theorem openCreate_grows (h : s.openCreate p = .ok s') {q : Place Name} {node : Node}
    (hq : s.fs.node q = some node) : s'.fs.node q = some node := by
  rw [State.openCreate] at h
  split at h
  · cases h
  · cases h
  · split at h
    · exact Except.ok.inj h ▸ hq
    · cases h
    · cases h
    · next hfree =>
      rw [(createAt_ok h).2.2.1,if_neg]
      · exact hq
      · rintro rfl
        rw [hfree] at hq
        cases hq

theorem lock_ne_guard (w : Surroundings) (D : Place Name) :
    claimGuardName :: D ≠ (slotName w ++ lockSuffix) :: D :=
  fun he => (suffixed_ne_guard (slotName w)).2 (List.cons.inj he).1.symm

/-- The sweep and the lock, on what holding the guard has left. -/
theorem claimed_of {D : Place Name} {s₁ : State} (hplain : s₁.Plain)
    (hguard : s₁.fs.node (claimGuardName :: D) = some .file)
    (h : ({ s₁ with fs := sweepDeadSlots w D s₁.fs } : State).createAt
      (slotName w ++ lockSuffix) D .file = .ok s') :
    s'.Plain ∧ s'.fs.node (claimGuardName :: D) = some .file ∧
      s'.fs.node ((slotName w ++ lockSuffix) :: D) = some .file ∧
      s'.owner (claimGuardName :: D) = s₁.owner (claimGuardName :: D) ∧
      s'.made = ((slotName w ++ lockSuffix) :: D) :: s₁.made ∧
      ∀ q, q ≠ (slotName w ++ lockSuffix) :: D →
        s'.fs.node q = (sweepDeadSlots w D s₁.fs).node q := by
  obtain ⟨-,-,hnode,howner,hmade⟩ := createAt_ok h
  have hswept : State.Plain { s₁ with fs := sweepDeadSlots w D s₁.fs } :=
    fun q hq target hlink => hplain q hq target (sweepDeadSlots_shrinks q _ hlink)
  refine ⟨createAt_plain h hswept,?_,?_,?_,hmade,fun q hq => ?_⟩
  · rw [hnode,if_neg (lock_ne_guard w D)]
    exact sweepDeadSlots_guard hguard
  · rw [hnode,if_pos rfl]
  · rw [howner,Function.update_of_ne (lock_ne_guard w D)]
  · rw [hnode,if_neg hq]

theorem claimSlot_ok (hfresh : s.made = []) (h : claimSlot w parent s = .ok s') :
    ∃ D, s'.fs.locate parent = .ok D ∧ s'.fs.node D = some .dir ∧
      ((∀ target, s.fs.node (claimGuardName :: D) ≠ some (.symlink target)) →
        Claimed w s s' D) := by
  rw [claimSlot] at h
  obtain ⟨s₁,hmake,h⟩ := except_bind_ok.mp h
  obtain ⟨s₂,hopen,h⟩ := except_bind_ok.mp h
  obtain ⟨listed,hlist,h⟩ := except_bind_ok.mp h
  obtain ⟨d,hd,hat⟩ := createNew_ok (mapError_ok h)
  obtain ⟨hlisted,-⟩ := openDir_ok.mp (mapError_ok hlist)
  obtain ⟨D,hleads,hsame⟩ := createDirAll_leads (mapError_ok hmake)
  -- Nothing that the claim does changes where the data parent is.
  obtain rfl : listed = d :=
    Except.ok.inj (hlisted.symm.trans (locate_mono sweepDeadSlots_shrinks hd))
  obtain rfl : D = listed :=
    Except.ok.inj ((locate_mono (fun _ _ => openCreate_grows (mapError_ok hopen))
      hleads.locate).symm.trans hlisted)
  obtain ⟨hdir,-,hnode,-,-⟩ := createAt_ok hat
  have hmore : ∀ q node, (sweepDeadSlots w D s₂.fs).node q = some node →
      s'.fs.node q = some node := by
    intro q node hq
    rw [hnode,if_neg]
    · exact hq
    · rintro rfl
      rw [show (sweepDeadSlots w D s₂.fs).node _ = none from (createAt_ok hat).2.1] at hq
      cases hq
  refine ⟨D,locate_mono hmore hd,hmore D _ hdir,fun hno => ?_⟩
  have hplain : s₁.Plain := hleads.does.plain fun q hq => absurd hq (by simp [hfresh])
  have hmade₁ : ∀ q ∈ s₁.made, q <:+ D := by
    intro q hq
    rcases (hleads.does.made q).mp hq with hq | hq
    · simp [hfresh] at hq
    · exact hq.1
  have hlinks₁ : ∀ q target, s₁.fs.node q = some (.symlink target) →
      s.fs.node q = some (.symlink target) := by
    intro q target hq
    rcases hleads.does.came hq with hold | ⟨-,-,hnew⟩
    · exact hold
    · cases hnew
  rcases openCreate_ok hleads.locate (fun target hq => hno target (hlinks₁ _ target hq))
    (mapError_ok hopen) with ⟨hfile,rfl⟩ | hnew
  · -- The guard was there, and so the data parent was: nothing but the lock is new.
    have hold : s.fs.node (claimGuardName :: D) = some .file := by
      rcases hleads.does.came hfile with hold | ⟨-,-,hnew⟩
      · exact hold
      · cases hnew
    obtain rfl : s₂ = s := by
      rcases hsame with rfl | hnone
      · rfl
      · rw [s.fs.node_parent hold] at hnone
        cases hnone
    obtain ⟨hplain',hguard,hlock,howner,hmade,hswept⟩ := claimed_of hplain hfile hat
    refine ⟨hplain',?_,hguard,hlock,?_,fun _ => ⟨howner,hswept⟩,fun hne => absurd hold hne⟩
    · intro q hq
      rw [hmade,hfresh,List.mem_singleton] at hq
      exact .inr (.inr hq)
    · intro q target hq
      rw [hswept q (fun he => by rw [he,hlock] at hq; cases hq)] at hq
      exact sweepDeadSlots_shrinks q _ hq
  · obtain ⟨-,hfree,hnode₂,howner₂,hmade₂⟩ := createAt_ok hnew
    have hguard₂ : s₂.fs.node (claimGuardName :: D) = some .file := by rw [hnode₂,if_pos rfl]
    obtain ⟨hplain',hguard,hlock,howner,hmade,hswept⟩ :=
      claimed_of (createAt_plain hnew hplain) hguard₂ hat
    refine ⟨hplain',?_,hguard,hlock,?_,fun hold => ?_,fun _ => ?_⟩
    · intro q hq
      rw [hmade,hmade₂,List.mem_cons,List.mem_cons] at hq
      rcases hq with hq | hq | hq
      · exact .inr (.inr hq)
      · exact .inr (.inl hq)
      · exact .inl (hmade₁ q hq)
    · intro q target hq
      rw [hswept q (fun he => by rw [he,hlock] at hq; cases hq)] at hq
      have hq₂ := sweepDeadSlots_shrinks q _ hq
      rw [hnode₂] at hq₂
      split at hq₂
      · cases hq₂
      · exact hlinks₁ q target hq₂
    · rw [hleads.does.old _ _ hold] at hfree
      cases hfree
    · rw [howner,howner₂,Function.update_self]

end PgEmbedSetup.Handover
