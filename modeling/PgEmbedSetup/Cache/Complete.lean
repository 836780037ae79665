import PgEmbedSetup.Cache.Model

set_option autoImplicit false

/-!
A cache entry that counts as complete has all of the installation it was populated from, in
every run in which no population meets a marker, a link or another file of the same size.
-/

namespace PgEmbedSetup.Cache
open Library

/-! ### What a process at work has made of the entry -/

def Phase.tree : Phase → Option TreeId
  | .idle => none
  | .ready i | .look _ i _ | .acquire _ i | .check _ i _ | .create _ i | .copy _ i _
    | .writeMarker i | .release _ i => some i

/-- Whether a process has the exclusive lock. -/
def Phase.writing : Phase → Bool
  | .check .populate _ _ | .create .populate _ | .copy .populate _ _ | .writeMarker _
    | .release .populate _ => true
  | _ => false

/-- The entry is being populated from the tree. Neither has a marker yet. -/
structure Building (s : State) (i : TreeId) : Prop where
  source : s.populatedFrom = some (s.trees i)
  treeUnmarked : (s.trees i).node completionMarker = none
  unmarked : s.entry.node completionMarker = none

def Phase.Done (s : State) : Phase → Prop
  | .copy .populate i c => Building s i ∧ c.Known (s.trees i) ∧ Copied (s.trees i) s.entry c
  | .writeMarker i => Building s i ∧ Covers (s.trees i) s.entry
  | _ => True

structure PhaseOk (s : State) (p : Pid) (phase : Phase) : Prop where
  setupLock : ∀ i, phase.tree = some i → s.setupLock i = some p
  exclusive : phase.writing = true → s.exclusive = some p
  done : phase.Done s

/-- What holds between any two steps. -/
structure Sound (s : State) : Prop where
  phases : ∀ p, PhaseOk s p (s.phase p)
  marked : s.entry.node completionMarker ≠ none →
    ∃ source, s.populatedFrom = some source ∧ Covers source s.entry
  rootPlain : ∀ x, s.entry.node [] ≠ some (.symlink x)

/-! ### What a step leaves to the other processes -/

structure Keeps (s t : State) (q : Pid) : Prop where
  setupLock : ∀ i, s.setupLock i = some q → t.setupLock i = some q
  exclusive : s.exclusive = some q → t.exclusive = some q
  entry : s.exclusive = some q → t.entry = s.entry ∧ t.populatedFrom = s.populatedFrom
  trees : ∀ i, s.setupLock i = some q → t.trees i = s.trees i

theorem PhaseOk.keep {s t : State} {q : Pid} {phase : Phase} (h : PhaseOk s q phase)
    (hk : Keeps s t q) : PhaseOk t q phase := by
  refine ⟨fun i hi => hk.setupLock i (h.setupLock i hi),
    fun hw => hk.exclusive (h.exclusive hw),?_⟩
  have hdone := h.done
  have hbuilding : ∀ i, phase.tree = some i → phase.writing = true → Building s i →
      Building t i := by
    intro i hi hw hb
    obtain ⟨hentry,hsource⟩ := hk.entry (h.exclusive hw)
    have htree := hk.trees i (h.setupLock i hi)
    exact ⟨by rw [hsource,htree]; exact hb.source,by rw [htree]; exact hb.treeUnmarked,
      by rw [hentry]; exact hb.unmarked⟩
  unfold Phase.Done at hdone ⊢
  split
  · next i c =>
    obtain ⟨hentry,_⟩ := hk.entry (h.exclusive rfl)
    rw [hentry,hk.trees i (h.setupLock i rfl)]
    exact ⟨hbuilding i rfl rfl hdone.1,hdone.2⟩
  · next i =>
    obtain ⟨hentry,_⟩ := hk.entry (h.exclusive rfl)
    rw [hentry,hk.trees i (h.setupLock i rfl)]
    exact ⟨hbuilding i rfl rfl hdone.1,hdone.2⟩
  · trivial

theorem keeps_goto (s : State) (p q : Pid) (phase : Phase) : Keeps s (s.goto p phase) q :=
  ⟨fun _ h => h,fun h => h,fun _ => ⟨rfl,rfl⟩,fun _ _ => rfl⟩

theorem Keeps.refl (s : State) (q : Pid) : Keeps s s q :=
  ⟨fun _ h => h,fun h => h,fun _ => ⟨rfl,rfl⟩,fun _ _ => rfl⟩

theorem Keeps.trans {s t u : State} {q : Pid} (h : Keeps s t q) (h' : Keeps t u q) : Keeps s u q where
  setupLock i hi := h'.setupLock i (h.setupLock i hi)
  exclusive he := h'.exclusive (h.exclusive he)
  entry he := ⟨(h'.entry (h.exclusive he)).1.trans (h.entry he).1,
    (h'.entry (h.exclusive he)).2.trans (h.entry he).2⟩
  trees i hi := (h'.trees i (h.setupLock i hi)).trans (h.trees i hi)

/-- A tree is changed by who has its setup lock. -/
theorem keeps_setTree {s : State} {q : Pid} {i : TreeId} (t : Tree) (h : s.setupLock i ≠ some q) :
    Keeps s (s.setTree i t) q := by
  refine ⟨fun _ hi => hi,fun he => he,fun _ => ⟨rfl,rfl⟩,fun j hj => ?_⟩
  have hne : j ≠ i := by
    rintro rfl
    exact h hj
  simp [State.setTree,hne]

theorem keeps_unlock {s : State} {p q : Pid} (hne : q ≠ p) : Keeps s (s.unlock p) q := by
  refine ⟨fun _ hi => hi,fun he => ?_,fun _ => ⟨rfl,rfl⟩,fun _ _ => rfl⟩
  simp [State.unlock,he,hne]

theorem keeps_unlockSetup {s : State} {p q : Pid} (hne : q ≠ p) : Keeps s (s.unlockSetup p) q := by
  refine ⟨fun i hi => ?_,fun he => he,fun _ => ⟨rfl,rfl⟩,fun _ _ => rfl⟩
  simp [State.unlockSetup,hi,hne]

/-- The entry is changed by who has its exclusive lock. -/
theorem keeps_entry {s t : State} {p q : Pid} (hne : q ≠ p) (hp : s.exclusive = some p)
    (hexclusive : t.exclusive = s.exclusive) (hsetup : t.setupLock = s.setupLock)
    (htrees : t.trees = s.trees) : Keeps s t q := by
  refine ⟨fun i hi => by rw [hsetup]; exact hi,fun he => by rw [hexclusive]; exact he,
    fun he => ?_,fun i _ => by rw [htrees]⟩
  rw [hp] at he
  exact absurd (Option.some.inj he).symm hne

/-! ### Each step -/

theorem Sound.next {s t : State} (h : Sound s)
    (hphases : ∀ q, t.phase q = s.phase q ∧ Keeps s t q ∨ PhaseOk t q (t.phase q))
    (hmarked : t.entry.node completionMarker ≠ none →
      ∃ source, t.populatedFrom = some source ∧ Covers source t.entry)
    (hroot : ∀ x, t.entry.node [] ≠ some (.symlink x)) : Sound t := by
  refine ⟨fun q => ?_,hmarked,hroot⟩
  rcases hphases q with ⟨hsame,hk⟩ | hok
  · rw [hsame]
    exact (h.phases q).keep hk
  · exact hok

/-- A process comes to another phase, and the others see nothing of it. -/
theorem Sound.act {s s' : State} {p : Pid} {phase : Phase} (h : Sound s)
    (hsame : s'.phase = s.phase) (hkeep : ∀ q, q ≠ p → Keeps s s' q) (hp : PhaseOk s' p phase)
    (hmarked : s'.entry.node completionMarker ≠ none →
      ∃ source, s'.populatedFrom = some source ∧ Covers source s'.entry)
    (hroot : ∀ x, s'.entry.node [] ≠ some (.symlink x)) : Sound (s'.goto p phase) := by
  refine h.next (fun q => ?_) hmarked hroot
  by_cases hq : q = p
  · subst hq
    refine .inr ?_
    simp only [State.goto,Function.update_self]
    exact hp.keep (keeps_goto s' q q phase)
  · refine .inl ⟨?_,(hkeep q hq).trans (keeps_goto s' p q phase)⟩
    simp only [State.goto,Function.update_of_ne hq,hsame]

/-- The same for a step that leaves the entry alone. -/
theorem Sound.move {s s' : State} {p : Pid} {phase : Phase} (h : Sound s)
    (hsame : s'.phase = s.phase) (hentry : s'.entry = s.entry)
    (hsource : s'.populatedFrom = s.populatedFrom) (hkeep : ∀ q, q ≠ p → Keeps s s' q)
    (hp : PhaseOk s' p phase) : Sound (s'.goto p phase) := by
  refine h.act hsame hkeep hp ?_ ?_
  · rw [hentry,hsource]
    exact h.marked
  · rw [hentry]
    exact h.rootPlain

theorem Sound.goto {s : State} {p : Pid} {phase : Phase} (h : Sound s) (hp : PhaseOk s p phase) :
    Sound (s.goto p phase) :=
  h.move rfl rfl rfl (fun q _ => Keeps.refl s q) hp

/-- A phase that has nothing more to show than the locks of the one before. -/
theorem PhaseOk.to {s : State} {p : Pid} {old new : Phase} (h : PhaseOk s p old)
    (htree : new.tree = old.tree) (hwriting : new.writing = true → old.writing = true)
    (hdone : new.Done s) : PhaseOk s p new :=
  ⟨fun i hi => h.setupLock i (htree ▸ hi),fun hw => h.exclusive (hwriting hw),hdone⟩

theorem PhaseOk.looked {s : State} {p : Pid} {task : Task} {i : TreeId} {marked : Bool}
    (h : PhaseOk s p (.look task i marked)) (hit : Bool) :
    PhaseOk s p (looked task i hit) := by
  unfold Cache.looked
  split
  · exact h.to rfl (fun hw => by cases hw) trivial
  · exact h.to rfl (fun hw => by cases hw) trivial

theorem PhaseOk.checked {s : State} {p : Pid} {task : Task} {i : TreeId} {marked : Bool}
    (h : PhaseOk s p (.check task i marked)) (hit : Bool) :
    PhaseOk s p (checked task i hit) := by
  unfold Cache.checked
  split
  · cases task
    · exact h.to rfl (fun hw => by cases hw) trivial
    · exact h.to rfl (fun _ => rfl) trivial
  · cases task
    · exact h.to rfl (fun hw => by cases hw) trivial
    · exact h.to rfl (fun _ => rfl) trivial

theorem createDirAll_cases {follow : Follow} {t t' : Tree} (h : createDirAll follow t = some t') :
    (∀ q, q ≠ [] → t'.node q = t.node q) ∧
      ∀ x, t'.node [] = some (.symlink x) → t.node [] = some (.symlink x) := by
  unfold createDirAll at h
  split at h
  · cases h
    exact ⟨fun _ _ => rfl,fun _ hx => hx⟩
  · cases h
  · split at h
    · rename_i htakes
      cases h
      refine ⟨fun q hq => FileTree.node_put_of_ne _ hq,fun x hx => ?_⟩
      rw [FileTree.node_put htakes.2,if_pos rfl] at hx
      cases hx
    · cases h

/-- A step that changes the process's own tree and ends in a phase of `use`. -/
theorem Sound.useTree {s : State} {p : Pid} {i : TreeId} {old new : Phase} (h : Sound s) (t : Tree)
    (hp : PhaseOk s p old) (hold : old.tree = some i) (hnew : new.tree = some i)
    (hwriting : new.writing = false) (hdone : new.Done (s.setTree i t)) :
    Sound ((s.setTree i t).goto p new) := by
  refine h.move rfl rfl rfl (fun q hq => keeps_setTree t ?_) ⟨?_,?_,hdone⟩
  · intro hlock
    rw [hp.setupLock i hold] at hlock
    exact hq (Option.some.inj hlock).symm
  · intro j hj
    rw [hnew] at hj
    exact Option.some.inj hj ▸ hp.setupLock i hold
  · intro hw
    rw [hwriting] at hw
    cases hw

/-- A step that changes the entry as its only writer. -/
theorem Sound.populateEntry {s : State} {p : Pid} {i : TreeId} {old new : Phase} (h : Sound s)
    (t : Tree) (source : Option Tree) (hp : PhaseOk s p old) (hold : old.tree = some i)
    (hwriting : old.writing = true) (hnew : new.tree = some i)
    (hdone : new.Done { s with entry := t, populatedFrom := source })
    (hmarked : t.node completionMarker ≠ none → ∃ src, source = some src ∧ Covers src t)
    (hroot : ∀ x, t.node [] = some (.symlink x) → s.entry.node [] = some (.symlink x)) :
    Sound ({ s with entry := t, populatedFrom := source }.goto p new) := by
  have hexclusive := hp.exclusive hwriting
  refine h.act rfl (fun q hq => keeps_entry hq hexclusive rfl rfl rfl)
    ⟨fun j hj => ?_,fun _ => hexclusive,hdone⟩ hmarked (fun x hx => h.rootPlain x (hroot x hx))
  rw [hnew] at hj
  exact Option.some.inj hj ▸ hp.setupLock i hold

theorem Sound.create {follow : Follow} {s : State} {p : Pid} {task : Task} {i : TreeId} {t : Tree}
    (h : Sound s) (hp : PhaseOk s p (.create task i))
    (hmeets : task = .populate → (s.trees i).node completionMarker = none ∧
      s.entry.node completionMarker = none)
    (ht : createDirAll follow (s.copyTo task i) = some t) :
    Sound (((s.setCopyTo t task i).began task i).goto p (.copy task i (.enter [] []))) := by
  cases task with
  | use => exact h.useTree t hp rfl rfl rfl trivial
  | populate =>
    obtain ⟨htree,hentry⟩ := hmeets rfl
    obtain ⟨hsame,hroot⟩ := createDirAll_cases ht
    have hunmarked : t.node completionMarker = none := (hsame _ (by simp [completionMarker])).trans hentry
    exact h.populateEntry t (some (s.trees i)) hp rfl rfl rfl
      ⟨⟨rfl,htree,hunmarked⟩,.inl rfl,copied_start _ _⟩ (fun hm => absurd hunmarked hm) hroot

theorem Sound.copy {follow : Follow} {s : State} {p : Pid} {task : Task} {i : TreeId}
    {c c' : Copying} {choice : Choice} {t : Tree} (h : Sound s) (hp : PhaseOk s p (.copy task i c))
    (hclear : task = .populate → c.clear (s.trees i) s.entry = true)
    (hstep : copyStep follow (s.copyFrom task i) (s.copyTo task i) c choice = some (c',t)) :
    Sound ((s.setCopyTo t task i).goto p (.copy task i c')) := by
  cases task with
  | use => exact h.useTree t hp rfl rfl rfl trivial
  | populate =>
    obtain ⟨hbuilding,hknown,hcopied⟩ := hp.done
    have hrule : CopyStep (s.trees i) s.entry c c' t := copyStep_clear (hclear rfl) hstep
    have hunmarked : t.node completionMarker = none := by
      rcases copyStep_at hknown hrule completionMarker with hsame | ⟨hnil,_⟩ | ⟨_,e,he⟩
      · exact hsame.trans hbuilding.unmarked
      · cases hnil
      · rw [hbuilding.treeUnmarked] at he
        cases he
    refine h.populateEntry t s.populatedFrom hp rfl rfl rfl
      ⟨⟨hbuilding.source,hbuilding.treeUnmarked,hunmarked⟩,known_step hrule,
        copied_step hcopied hrule⟩ (fun hm => absurd hunmarked hm) (fun x hx => ?_)
    rcases copyStep_at hknown hrule [] with hsame | ⟨_,hdir⟩ | ⟨hne,_⟩
    · exact hsame ▸ hx
    · rw [hdir] at hx
      cases hx
    · exact absurd rfl hne

theorem Sound.copyEnds {s : State} {p : Pid} {task : Task} {i : TreeId} (h : Sound s)
    (hp : PhaseOk s p (.copy task i (.next []))) : Sound (s.goto p (afterCopy task i)) := by
  cases task with
  | use => exact h.goto (hp.to rfl (fun hw => by cases hw) trivial)
  | populate =>
    obtain ⟨hbuilding,_,hcopied⟩ := hp.done
    exact h.goto (hp.to rfl (fun _ => rfl) ⟨hbuilding,covers_of_copied hcopied⟩)

/-- The marker comes last, and is no file of the installation. -/
theorem Sound.writeMarker {s : State} {p : Pid} {i : TreeId} (h : Sound s)
    (hp : PhaseOk s p (.writeMarker i)) :
    Sound ({ s with entry := s.entry.put completionMarker (.file []) }.goto p
      (.release .populate i)) := by
  obtain ⟨hbuilding,hcovers⟩ := hp.done
  refine h.populateEntry (s.entry.put completionMarker (.file [])) s.populatedFrom hp rfl rfl rfl
    trivial (fun _ => ⟨_,hbuilding.source,fun q e hq he => ?_⟩) (fun x hx => ?_)
  · have hne : q ≠ completionMarker := by
      rintro rfl
      rw [hbuilding.treeUnmarked] at hq
      cases hq
    rw [FileTree.node_put_of_ne _ hne]
    exact hcovers q e hq he
  · rwa [FileTree.node_put_of_ne _ (by simp [completionMarker])] at hx

/-- Without a marker, and in a real directory, its path goes through no link. -/
theorem Sound.marker_unlinked {s : State} (h : Sound s)
    (hunmarked : s.entry.node completionMarker = none) :
    s.entry.linked completionMarker = false := by
  cases hlinked : s.entry.linked completionMarker with
  | false => rfl
  | true =>
    obtain ⟨q,x,hq,hx⟩ := FileTree.exists_link hlinked
    rcases List.suffix_cons_iff.mp hq with rfl | hnil
    · have hnone : none = some (Entry.symlink x) := hunmarked.symm.trans hx
      cases hnone
    · rw [List.suffix_nil.mp hnil] at hx
      exact absurd hx (h.rootPlain x)

theorem Sound.phaseStep {follow : Follow} {s t : State} {p : Pid} {choice : Choice} (h : Sound s)
    (hmeets : meets s (.step p choice) = true)
    (hs : phaseStep follow s p (s.phase p) choice = some t) : Sound t := by
  have hp := h.phases p
  simp only [meets] at hmeets
  generalize s.phase p = phase at hp hmeets hs
  unfold Cache.phaseStep at hs
  split at hs
  · split at hs
    · cases hs
      exact h.goto (hp.to rfl (fun hw => by cases hw) trivial)
    · cases hs
      exact h.goto (hp.looked false)
  · cases hs
    exact h.goto (hp.looked _)
  · split at hs
    · cases hs
      exact h.move rfl rfl rfl (fun q _ => ⟨fun _ hi => hi,fun he => he,fun _ => ⟨rfl,rfl⟩,fun _ _ => rfl⟩)
        ⟨fun j hj => hp.setupLock j hj,(fun hw => by cases hw),trivial⟩
    · cases hs
  · split at hs
    · rename_i hfree
      cases hs
      refine h.move rfl rfl rfl (fun q _ => ⟨fun _ hi => hi,fun he => ?_,fun he => ?_,fun _ _ => rfl⟩)
        ⟨fun j hj => hp.setupLock j hj,fun _ => rfl,trivial⟩
      · rw [hfree.1] at he
        cases he
      · rw [hfree.1] at he
        cases he
    · cases hs
  · rename_i task i
    split at hs
    · cases hs
      exact h.goto (hp.to rfl (fun hw => by cases task <;> exact hw) trivial)
    · cases hs
      exact h.goto (hp.checked false)
  · cases hs
    exact h.goto (hp.checked _)
  · rename_i task i
    obtain ⟨tree,htree,rfl⟩ := Option.map_eq_some_iff.mp hs
    refine h.create hp (fun htask => ?_) htree
    subst htask
    simpa using hmeets
  · cases hs
    exact h.copyEnds hp
  · rename_i task i c _
    obtain ⟨⟨c',tree⟩,hcopy,rfl⟩ := Option.map_eq_some_iff.mp hs
    refine h.copy hp (fun htask => ?_) hcopy
    subst htask
    exact hmeets
  · split at hs
    · cases hs
      exact h.writeMarker hp
    · cases hs
  · split at hs
    · rename_i hlinked
      rw [h.marker_unlinked hp.done.1.unmarked] at hlinked
      cases hlinked
    · cases hs
  · cases hs
    exact h.move rfl rfl rfl (fun q hq => keeps_unlock hq)
      ⟨fun j hj => hp.setupLock j hj,(fun hw => by cases hw),trivial⟩
  · cases hs

theorem Sound.failStep {s t : State} {p : Pid} (h : Sound s)
    (hs : failStep s p (s.phase p) = some t) : Sound t := by
  have hp := h.phases p
  generalize s.phase p = phase at hp hs
  cases phase with
  | idle => cases hs
  | ready i => cases hs
  | release task i => cases hs
  | look task i marked =>
    cases hs
    exact h.goto (hp.looked false)
  | acquire task i =>
    cases hs
    exact h.goto (hp.to rfl (fun hw => by cases hw) trivial)
  | check task i marked =>
    cases hs
    exact h.goto (hp.checked false)
  | create task i =>
    cases hs
    exact h.goto (hp.to rfl (fun hw => by cases task <;> exact hw) trivial)
  | copy task i c =>
    cases hs
    exact h.goto (hp.to rfl (fun hw => by cases task <;> exact hw) trivial)
  | writeMarker i =>
    cases hs
    exact h.goto (hp.to rfl (fun hw => hw) trivial)

/-- A step of nobody, which leaves to everybody what is theirs. -/
theorem Sound.outside {s t : State} (h : Sound s) (hsame : t.phase = s.phase)
    (hkeep : ∀ q, Keeps s t q)
    (hmarked : t.entry.node completionMarker ≠ none →
      ∃ source, t.populatedFrom = some source ∧ Covers source t.entry)
    (hroot : ∀ x, t.entry.node [] ≠ some (.symlink x)) : Sound t :=
  h.next (fun q => .inl ⟨congrFun hsame q,hkeep q⟩) hmarked hroot

theorem Sound.step {follow : Follow} {s t : State} {a : Action} (h : Sound s)
    (hmeets : meets s a = true) (hs : step follow s a = some t) : Sound t := by
  cases a with
  | takeSetupLock p i =>
    simp only [Cache.step] at hs
    split at hs
    · rename_i hidle hfree
      cases hs
      refine h.move rfl rfl rfl (fun q hq => ⟨fun j hj => ?_,fun he => he,fun _ => ⟨rfl,rfl⟩,
        fun _ _ => rfl⟩) ⟨fun j hj => ?_,(fun hw => by cases hw),trivial⟩
      · have hne : j ≠ i := by
          rintro rfl
          rw [hfree] at hj
          cases hj
        simpa [hne] using hj
      · cases hj
        simp
    · cases hs
  | dropSetupLock p =>
    simp only [Cache.step] at hs
    split at hs
    · cases hs
      exact h.move rfl rfl rfl (fun q hq => keeps_unlockSetup hq)
        ⟨(fun j hj => by cases hj),(fun hw => by cases hw),trivial⟩
    · cases hs
  | begin p task =>
    simp only [Cache.step] at hs
    split at hs
    · rename_i i hready
      cases hs
      have hp := h.phases p
      rw [hready] at hp
      exact h.goto (hp.to rfl (fun hw => by cases hw) trivial)
    · cases hs
  | install p tree =>
    simp only [Cache.step] at hs
    split at hs
    · rename_i i hready
      cases hs
      have hp := h.phases p
      rw [hready] at hp
      refine h.next (fun q => ?_) h.marked h.rootPlain
      by_cases hq : q = p
      · subst hq
        refine .inr ?_
        rw [show (s.setTree i tree).phase q = .ready i from hready]
        exact ⟨fun j hj => hp.setupLock j hj,(fun hw => by cases hw),trivial⟩
      · refine .inl ⟨rfl,keeps_setTree tree ?_⟩
        rw [hp.setupLock i rfl]
        simpa using Ne.symm hq
    · cases hs
  | step p choice => exact h.phaseStep hmeets hs
  | fail p => exact h.failStep hs
  | crash p =>
    cases hs
    refine h.move rfl rfl rfl (fun q hq => (keeps_unlock hq).trans (keeps_unlockSetup hq)) ?_
    exact ⟨(fun j hj => by cases hj),(fun hw => by cases hw),trivial⟩
  | alter i tree =>
    simp only [Cache.step] at hs
    split at hs
    · rename_i hfree
      cases hs
      exact h.outside rfl (fun q => keeps_setTree tree (by rw [hfree]; simp)) h.marked h.rootPlain
    · cases hs
  | deleteEntry =>
    simp only [Cache.step] at hs
    split at hs
    · rename_i hfree
      cases hs
      refine h.outside rfl (fun q => ⟨fun _ hi => hi,fun he => he,fun he => ?_,fun _ _ => rfl⟩) ?_ ?_
      · rw [hfree.1] at he
        cases he
      · exact fun hm => absurd rfl hm
      · exact fun x hx => by cases hx
    · cases hs

theorem sound_initial (trees : TreeId → Tree) : Sound (.initial trees) where
  phases _ := ⟨(fun i hi => by cases hi),(fun hw => by cases hw),trivial⟩
  marked hm := absurd rfl hm
  rootPlain x hx := by cases hx

theorem Sound.complete {s : State} (h : Sound s) (follow : Follow) : Complete follow s := by
  intro _ hhit
  have hmarked : (s.entry.stat follow completionMarker).isSome = true := (Bool.and_eq_true_iff.mp hhit).1
  refine h.marked (fun hnone => ?_)
  rw [FileTree.stat_of_unlinked (h.marker_unlinked hnone),hnone] at hmarked
  cases hmarked

/-- Whatever the interleaving, the crashes, the failures and the deletions. -/
theorem cache_complete (follow : Follow) {s : State}
    (h : ((system follow).restrict (fun s a => meets s a = true)).Reachable s) :
    Complete follow s := by
  have hsound : Sound s := by
    refine System.invariant _ ?_ (fun u a v hu hstep => hu.step hstep.1 hstep.2) h
    rintro _ ⟨trees,rfl⟩
    exact sound_initial trees
  exact hsound.complete follow

/-! ### Runs -/

def noLinks : Follow := fun _ _ => none

def postgresFile : Place Text := ["postgres".toList,"bin".toList]

/-- An installation with one binary. -/
def installation : Tree :=
  ((FileTree.absent.put [] .dir).put binDir .dir).put postgresFile (.file [1])

/-- One tree holds the installation, the others do not exist yet. -/
def firstInstalled (i : TreeId) : Tree := if i = 0 then installation else .absent

def proceeds (p : Pid) (count : Nat) : List Action := List.replicate count (.step p .proceed)

def reads (p : Pid) (names : List String) : Action := .step p (.order (names.map String.toList))

/-- `bin` and its file, from the loop that comes to it. -/
def copiesBin (p : Pid) : List Action :=
  proceeds p 2 ++ [reads p ["postgres"]] ++ proceeds p 2 ++ [.step p (.wrote 1)] ++ proceeds p 1

def copiesMarker (p : Pid) : List Action := proceeds p 2 ++ [.step p (.wrote 0)]

def firstPopulates : List Action :=
  [.takeSetupLock 0 0,.begin 0 .populate] ++ proceeds 0 5 ++ [reads 0 ["bin"]] ++ copiesBin 0 ++
    proceeds 0 4

theorem cache_complete_populated :
    ∃ s, ((system noLinks).restrict (fun s a => meets s a = true)).Reachable s ∧
      (s.exclusive = none ∧ isCacheEntryComplete noLinks s.entry = true ∧
        s.entry.node postgresFile = some (.file [1])) ∧ Complete noLinks s := by
  obtain ⟨s,hreach,hwanted⟩ := System.runSteps_reaches (fun s => ∃ trees, s = .initial trees)
    (step noLinks) meets ⟨firstInstalled,rfl⟩ firstPopulates
    (fun s => s.exclusive = none ∧ isCacheEntryComplete noLinks s.entry = true ∧
      s.entry.node postgresFile = some (.file [1])) (by decide +kernel)
  simp only [decide_eq_true_eq] at hwanted
  exact ⟨s,hreach,hwanted,cache_complete noLinks hreach⟩

/-- The second process copies the entry, marker included, into its own tree. -/
def secondUses : List Action :=
  [.takeSetupLock 1 1,.begin 1 .use] ++ proceeds 1 7 ++ [reads 1 [".complete","bin"]] ++
    copiesMarker 1 ++ copiesBin 1 ++ proceeds 1 3

/-- It populates from that tree, and dies before it comes to the binary. -/
def secondPopulates : List Action :=
  [.begin 1 .populate] ++ proceeds 1 5 ++ [reads 1 [".complete","bin"]] ++ copiesMarker 1 ++
    proceeds 1 2 ++ [.crash 1]

theorem copied_marker_incomplete :
    ¬ ∀ (follow : Follow) (s : State), (system follow).Reachable s → Complete follow s := by
  intro hall
  obtain ⟨s,hreach,hwanted⟩ := System.runSteps_reaches (fun s => ∃ trees, s = .initial trees)
    (step noLinks) (fun _ _ => true) ⟨firstInstalled,rfl⟩
    (firstPopulates ++ [.dropSetupLock 0] ++ secondUses ++ [.deleteEntry] ++ secondPopulates)
    (fun s => s.exclusive = none ∧ isCacheEntryComplete noLinks s.entry = true ∧
      (s.populatedFrom.bind fun t => t.node postgresFile) = some (.file [1]) ∧
      s.entry.node postgresFile = none) (by decide +kernel)
  simp only [decide_eq_true_eq] at hwanted
  obtain ⟨hfree,hhit,hsource,hmissing⟩ := hwanted
  obtain ⟨source,hfrom,hcovers⟩ :=
    hall noLinks s (System.reachable_of_restrict _ hreach) hfree hhit
  rw [hfrom] at hsource
  have hthere := hcovers postgresFile _ hsource (by simp)
  rw [hmissing] at hthere
  cases hthere

end PgEmbedSetup.Cache
