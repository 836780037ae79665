import PgEmbedSetup.Root.Safety

set_option autoImplicit false

/-!
The shared install tree: what a full cleanup knows of its peers, and when its removal of
the tree takes it from nobody.
-/

namespace PgEmbedSetup.Root
open Library

variable {r : Layout} {s t : State} {c : ClusterId}

/-! ### What a cleanup knows of its peers -/

def Phase.own : Phase → Option Name
  | .waiting (.cleanup own) _ | .peers _ own | .probing _ own _ | .probeOpened _ own _ _ _
  | .probeLocked _ own _ => own
  | _ => none

/-- The slots a cleanup under the guard has not found free yet. -/
def Phase.unseen : Phase → Option (List Name)
  | .probing _ _ todo | .probeLocked _ _ todo => some todo
  | .probeOpened _ _ todo n _ => some (n :: todo)
  | .cleaning (some _) .full | .cleanedData (some _) => some []
  | _ => none

/-- A full cleanup that took no guard and probed nobody. -/
def Phase.unguardedFull : Phase → Bool
  | .cleaning none .full | .cleanedData none => true
  | _ => false

theorem Phase.guard_of_unseen {p : Phase} {todo : List Name} (h : p.unseen = some todo) :
    ∃ g, p.guard = some g := by
  unfold unseen at h
  split at h
  all_goals first
    | exact ⟨_,rfl⟩
    | cases h

structure PeersFit (r : Layout) (slot : ClusterId → Option (Name × Nat)) (c : ClusterId)
    (p : Phase) : Prop where
  own : ∀ n, p.own = some n → r.claims c = true ∧ ∃ i, slot c = some (n,i)
  unseen : ∀ todo, p.unseen = some todo → ∀ d n i, d ≠ c → slot d = some (n,i) → n ∈ todo
  guarded : p.unguardedFull = false

theorem PeersFit.plain {slot : ClusterId → Option (Name × Nat)} {p : Phase}
    (ho : p.own = none) (hu : p.unseen = none) (hg : p.unguardedFull = false) :
    PeersFit r slot c p :=
  ⟨by simp [ho],by simp [hu],hg⟩

def PeersKnown (r : Layout) (s : State) : Prop := ∀ c, PeersFit r s.slot c (s.phase c)

theorem mem_lockNames {n : Name} {i : Nat} (h : s.files.find (.slot n) = some i) :
    n ∈ s.lockNames := by
  exact List.mem_filterMap.mpr ⟨_,LockFiles.mem_entries_of_find h,rfl⟩

theorem ownName_slotDir (r : Layout) (n : Name) : r.ownName (r.slotDir n) = some n := by
  simp [Layout.ownName,Layout.slotDir]

/-! ### When the tree is safe -/

/-- `d` runs from the tree, or another process's `d` populates it under the setup lock. -/
def State.Uses (s : State) (c d : ClusterId) : Prop :=
  d ≠ c ∧ (s.phase d = .running ∨ d.pid ≠ c.pid ∧ ∃ stage, s.phase d = .preparing true stage)

/-- The steps under which the tree is safe. -/
structure InstallKept (r : Layout) (s : State) (a : Action) : Prop where
  alive : ∀ pid, a ≠ .die pid
  /-- Unslotted data directories that are removed lie beside `<root>/data` and the tree. -/
  apart : ∀ c, a.removesDataOf = some c → r.claims c = false →
    State.below (s.dataDir r c) r.dataParent = false ∧
      State.below (s.dataDir r c) r.installDir = false
  /-- An unslotted directory with a full cleanup is not `<root>/data`, nor is there a
  `<dir>.lock` beside it. -/
  plans : ∀ c, (a = .clean c (.plan false) ∨ ∃ p, a = .clean c (.planElsewhere p)) →
    (r.config c).cleanupMode = .full → r.claims c = false →
      s.dataDir r c ≠ r.dataParent ∧ s.lookup r (s.dataDir r c) = none ∧
        r.elsewhere s c = false
  /-- While the tree is removed no other unslotted cluster uses it. -/
  users : ∀ c ok, a = .clean c (.removeInstall ok) → ∀ d, r.claims d = false → ¬ s.Uses c d

theorem InstallKept.guardKept {a : Action} (h : Inv r s) (hC : InstallKept r s a)
    (hs : step r s a = some t) : GuardKept s t := by
  refine step_guardKept hs fun c ha => guardKept_of_above ?_
  cases hc : r.claims c with
  | false => exact (hC.apart c ha hc).1
  | true =>
    obtain ⟨n,_,-,hdir⟩ := h.dataDir_slotted (removal_beyondClaim hs ha) hc
    rw [hdir]
    exact below_slotDir r n

/-! ### Steps of the cleanup -/

theorem slotted_plan (h : Inv r s) (hp : s.phase c = .stopped) (hc : r.claims c = true) :
    ∃ n i, s.slot c = some (n,i) ∧ s.dataDir r c = r.slotDir n ∧ r.elsewhere s c = false := by
  obtain ⟨n,i,hslot,hdir⟩ := h.dataDir_slotted (by rw [hp]; rfl) hc
  exact ⟨n,i,hslot,hdir,by simp [Layout.elsewhere,hdir,ownName_slotDir]⟩

theorem openGuard_phase_self (s : State) (c : ClusterId) (why : Purpose) :
    ∃ g, (openGuard s c why).phase c = .waiting why g := by
  unfold openGuard
  split
  · next g _ => exact ⟨g,by simp [State.setPhase]⟩
  · exact ⟨s.files.next,by simp [State.setPhase]⟩

theorem setPhase_self (s : State) (c : ClusterId) (p : Phase) : (s.setPhase c p).phase c = p := by
  simp [State.setPhase]

/-- A phase that holds nothing of a cleanup fits any layout. -/
theorem plain_setPhase {slot : ClusterId → Option (Name × Nat)} {p : Phase}
    (ho : p.own = none) (hu : p.unseen = none) (hg : p.unguardedFull = false) :
    PeersFit r slot c ((s.setPhase c p).phase c) := by
  rw [setPhase_self]
  exact .plain ho hu hg

/-- A plan without failure knows its own slot by name, or knows it has none. -/
theorem openGuard_peers {own : Option Name} {slot : ClusterId → Option (Name × Nat)}
    (ho : ∀ n, own = some n → r.claims c = true ∧ ∃ i, slot c = some (n,i)) :
    PeersFit r slot c ((openGuard s c (.cleanup own)).phase c) := by
  obtain ⟨g,hg⟩ := openGuard_phase_self s c (.cleanup own)
  rw [hg]
  exact ⟨ho,by simp [Phase.unseen],rfl⟩

theorem plan_peers (h : Inv r s) (hp : s.phase c = .stopped) {failed : Bool}
    (hC : InstallKept r s (.clean c (.plan failed)))
    (hs : cleanStep r s c (.plan failed) .stopped = some t) :
    PeersFit r s.slot c (t.phase c) := by
  simp only [cleanStep] at hs
  split at hs
  · cases hs
    exact plain_setPhase rfl rfl rfl
  · cases hs
    exact plain_setPhase rfl rfl rfl
  · next hmode =>
    split at hs
    · cases hs
      exact plain_setPhase rfl rfl rfl
    · next hfailed =>
      obtain rfl := Bool.eq_false_iff.mpr hfailed
      split at hs
      · cases hs
      · cases hc : r.claims c with
        | true =>
          obtain ⟨n,i,hslot,hdir,-⟩ := slotted_plan h hp hc
          have hfind := (h.shared.slots c n i hslot).1
          have hlookup : s.lookup r (s.dataDir r c) = some n := by
            simp [hdir,State.lookup,ownName_slotDir,show s.files.find (.slot n) = some i from hfind]
          rw [hlookup] at hs
          cases hs
          refine openGuard_peers fun m hm => ⟨hc,i,?_⟩
          rw [← Option.some.inj hm]
          exact hslot
        | false =>
          obtain ⟨hne,hlookup,-⟩ := hC.plans c (.inl rfl) hmode hc
          rw [hlookup] at hs
          simp only [if_neg hne] at hs
          cases hs
          exact openGuard_peers (by simp)

theorem probe_list_peers {g : Nat} {own : Option Name} {names : List Name} (h : Inv r s)
    (hown : ∀ n, own = some n → r.claims c = true ∧ ∃ i, s.slot c = some (n,i))
    (hall : s.lockNames.all (names.contains ·) = true) :
    PeersFit r s.slot c (.probing g own names) := by
  refine ⟨hown,?_,rfl⟩
  intro todo htodo d n i _ hd
  obtain rfl : names = todo := by simpa [Phase.unseen] using htodo
  have hmem := mem_lockNames (h.shared.slots d n i hd).1
  simpa using List.all_eq_true.mp hall n hmem

/-- A name passed over as the cleanup's own is no other cluster's slot. -/
theorem probe_own_peers {g : Nat} {own : Option Name} {todo : List Name} {n : Name} (h : Inv r s)
    (hfit : PeersFit r s.slot c (.probing g own (n :: todo))) (hn : some n = own) :
    PeersFit r s.slot c (.probing g own todo) := by
  refine ⟨hfit.own,?_,rfl⟩
  intro todo' htodo d m i hdc hd
  obtain rfl : todo = todo' := by simpa [Phase.unseen] using htodo
  rcases List.mem_cons.mp (hfit.unseen _ rfl d m i hdc hd) with rfl | hm
  · obtain ⟨-,j,hj⟩ := hfit.own m hn.symm
    exact absurd (h.names hd hj) hdc
  · exact hm

/-- A lock that was free belongs to no live slot. -/
theorem probe_free_peers {g i : Nat} {own : Option Name} {todo : List Name} {n : Name}
    (h : Inv r s) (hp : s.phase c = .probeOpened g own todo n i)
    (hfit : PeersFit r s.slot c (.probeOpened g own todo n i)) (hfree : s.files.locks i = none) :
    PeersFit r s.slot c (.probeLocked g own todo) := by
  refine ⟨hfit.own,?_,rfl⟩
  intro todo' htodo d m j hdc hd
  obtain rfl : todo = todo' := by simpa [Phase.unseen] using htodo
  rcases List.mem_cons.mp (hfit.unseen _ rfl d m j hdc hd) with rfl | hm
  · obtain ⟨hfind,hlock,-⟩ := h.shared.slots d m j hd
    have hopened := (h.fits c).target m i (by rw [hp]; rfl)
    rw [hopened] at hfind
    obtain rfl := Option.some.inj hfind
    rw [show s.view.files.locks i = none from hfree] at hlock
    cases hlock
  · exact hm

theorem cleanStep_peers (h : Inv r s) {m : CleanMove} (hC : InstallKept r s (.clean c m))
    (hfit : PeersFit r s.slot c (s.phase c)) (hs : cleanStep r s c m (s.phase c) = some t) :
    PeersFit r s.slot c (t.phase c) := by
  generalize hp : s.phase c = p at hs hfit
  have hs' := hs
  unfold cleanStep at hs
  split at hs
  · exact plan_peers h hp hC hs'
  · split at hs
    · next peers hcond =>
      -- An elsewhere plan belongs to an unslotted cluster, which the condition rules out.
      simp only [Bool.and_eq_true,decide_eq_true_eq] at hcond
      cases hc : r.claims c with
      | true =>
        obtain ⟨_,_,_,_,he⟩ := slotted_plan h hp hc
        rw [he] at hcond
        simp at hcond
      | false =>
        have he := (hC.plans c (.inr ⟨peers,rfl⟩) hcond.1 hc).2.2
        rw [he] at hcond
        simp at hcond
    · cases hs
  · split at hs
    · cases hs
      rw [setPhase_self]
      exact ⟨hfit.own,by simp [Phase.unseen],rfl⟩
    · cases hs
  · next names g own =>
    split at hs
    · next hgone =>
      -- The own slot's lock file is still there when it is looked up again.
      cases own with
      | none => simp at hgone
      | some n =>
        obtain ⟨-,i,hslot⟩ := hfit.own n rfl
        have hfind := (h.shared.slots c n i hslot).1
        simp [show s.files.find (.slot n) = some i from hfind] at hgone
    · split at hs
      · next hall =>
        cases hs
        rw [setPhase_self]
        exact probe_list_peers h hfit.own hall
      · cases hs
  · split at hs
    · next hn =>
      cases hs
      rw [setPhase_self]
      exact probe_own_peers h hfit hn
    · split at hs
      · cases hs
        rw [setPhase_self]
        exact ⟨hfit.own,hfit.unseen,rfl⟩
      · cases hs
        exact plain_setPhase rfl rfl rfl
  · split at hs
    · next hfree =>
      cases hs
      rw [setPhase_self]
      exact probe_free_peers h hp hfit hfree
    · cases hs
      exact plain_setPhase rfl rfl rfl
  · cases hs
    rw [setPhase_self]
    exact ⟨hfit.own,hfit.unseen,rfl⟩
  · cases hs
    exact plain_setPhase rfl rfl rfl
  · cases hs
    exact plain_setPhase rfl rfl rfl
  · cases hs
    exact plain_setPhase rfl rfl rfl
  · cases hs
    rw [setPhase_self]
    exact ⟨by simp [Phase.own],hfit.unseen,rfl⟩
  · next ok guard mode =>
    cases hs
    rw [setPhase_self]
    split
    · next hmode =>
      subst hmode
      cases guard with
      | none => exact absurd hfit.guarded (by simp [Phase.unguardedFull])
      | some g => exact ⟨by simp [Phase.own],hfit.unseen,rfl⟩
    · exact .plain rfl rfl rfl
  · cases hs
    exact plain_setPhase rfl rfl rfl
  · cases hs
    exact plain_setPhase rfl rfl rfl
  · cases hs

/-! ### Steps of every cluster -/

theorem claimStep_peers {slot : ClusterId → Option (Name × Nat)} {m : ClaimMove}
    (hs : claimStep r s c m (s.phase c) = some t) : PeersFit r slot c (t.phase c) := by
  unfold claimStep at hs
  repeat' split at hs
  all_goals cases hs
  all_goals first
    | exact plain_setPhase rfl rfl rfl
    | (obtain ⟨g,hg⟩ := openGuard_phase_self s c .claim
       rw [hg]
       exact .plain rfl rfl rfl)

theorem lifeStep_peers {slot : ClusterId → Option (Name × Nat)} {m : LifeMove}
    (hs : lifeStep r s c m (s.phase c) = some t) : PeersFit r slot c (t.phase c) := by
  unfold lifeStep at hs
  repeat' split at hs
  all_goals cases hs
  all_goals first
    | exact plain_setPhase rfl rfl rfl
    | (refine .plain ?_ ?_ ?_ <;>
         simp [State.removeTree,State.removePassword,State.removeData,‹s.phase c = _›,Phase.own,
           Phase.unseen,Phase.unguardedFull])

/-- Another cluster's step leaves what a cleanup knows: it can neither claim a slot while the
cleanup is inside the guard nor give up the cleanup's own. -/
theorem other_peers (h : Inv r s) {a : Action} {d : ClusterId} (hs : step r s a = some t)
    (hp : t.phase d = s.phase d) (hslot : t.slot d = s.slot d)
    (hfit : PeersFit r s.slot d (s.phase d)) : PeersFit r t.slot d (t.phase d) := by
  rw [hp]
  refine ⟨?_,?_,hfit.guarded⟩
  · intro n hn
    rw [hslot]
    exact hfit.own n hn
  · intro todo htodo e n i hed he
    rcases step_slot hs he with hold | ⟨g,m,j,hcreated,-⟩
    · exact hfit.unseen todo htodo e n i hed hold
    · obtain ⟨g',hg'⟩ := Phase.guard_of_unseen htodo
      have hnone := h.alone hg' e hed
      rw [hcreated] at hnone
      cases hnone

theorem PeersKnown.step (h : Inv r s) (hk : PeersKnown r s) {a : Action}
    (hC : InstallKept r s a) (hs : step r s a = some t) : PeersKnown r t := by
  intro d
  cases a with
  | claim c m =>
    by_cases hd : d = c
    · subst hd
      exact claimStep_peers hs
    · refine other_peers h hs (claimStep_phase hs hd) ?_ (hk d)
      rcases claimStep_slot hs with hslot | ⟨_,_,_,-,hslot⟩
      · rw [hslot]
      · rw [hslot,Function.update_of_ne hd]
  | life c m =>
    by_cases hd : d = c
    · subst hd
      exact lifeStep_peers hs
    · exact other_peers h hs (lifeStep_phase hs hd) (congrFun (lifeStep_slot hs) d) (hk d)
  | clean c m =>
    by_cases hd : d = c
    · subst hd
      rw [cleanStep_slot hs]
      exact cleanStep_peers h hC (hk d) hs
    · exact other_peers h hs (cleanStep_phase hs hd) (congrFun (cleanStep_slot hs) d) (hk d)
  | watch w m =>
    have hsame : t.phase = s.phase ∧ t.slot = s.slot := by
      simp only [Root.step] at hs
      unfold watchStep at hs
      repeat' split at hs
      all_goals cases hs
      all_goals exact ⟨rfl,rfl⟩
    exact other_peers h hs (congrFun hsame.1 d) (congrFun hsame.2 d) (hk d)
  | die pid => exact absurd rfl (hC.alive pid)
  | release k =>
    have hsame : t.phase = s.phase ∧ t.slot = s.slot := by
      simp only [Root.step] at hs
      repeat' split at hs
      all_goals cases hs
      all_goals exact ⟨rfl,rfl⟩
    exact other_peers h hs (congrFun hsame.1 d) (congrFun hsame.2 d) (hk d)

theorem peersKnown_reachable
    (h : ((system r).restrict (InstallKept r)).Reachable s) : PeersKnown r s := by
  refine ((system r).restrict (InstallKept r)).invariant_of (J := Inv r) ?_ ?_ ?_ h
  · intro u hu
    exact inv_reachable (fun _ _ _ hi hc hs => hc.guardKept hi hs) hu
  · rintro u rfl c
    exact .plain rfl rfl rfl
  · rintro u a v hu _ hk ⟨hc,hs⟩
    exact hk.step hu hc hs

/-! ### The removal of the tree -/

/-- The step of `c` takes the install tree, or tries to. -/
def TakesInstall (s : State) (a : Action) (t : State) (c : ClusterId) : Prop :=
  a.actor = some c ∧
    (s.install = true ∧ t.install = false ∨ ∃ ok, a = .clean c (.removeInstall ok))

theorem install_of_apart {p : Path} (hin : s.install = true)
    (hb : State.below p r.installDir = false) : (s.removeTree r p).install = true := by
  simp [State.removeTree,hb,hin]

theorem slotDir_apart (r : Layout) (n : Name) :
    State.below (r.slotDir n) r.installDir = false := by
  have h : ¬ r.slotDir n <+: r.installDir := by
    intro hp
    have := hp.length_le
    simp [Layout.slotDir,Layout.dataParent,Layout.installDir] at this
  rw [← Bool.not_eq_true,State.below,List.isPrefixOf_iff_prefix]
  exact h

/-- The tree goes by its own removal or under a data directory above it. -/
theorem step_install {a : Action} (hs : step r s a = some t) (hin : s.install = true)
    (hrem : ∀ c, a.removesDataOf = some c → State.below (s.dataDir r c) r.installDir = false)
    (hno : ∀ c ok, a ≠ .clean c (.removeInstall ok)) : t.install = true := by
  cases a with
  | claim c m =>
    simp only [step] at hs
    have hdiscard : ∀ u : State, (u.discardPassword r c).install = u.install := by
      intro u
      unfold State.discardPassword
      split <;> rfl
    have hopen : ∀ why, (openGuard s c why).install = s.install := by
      intro why
      unfold openGuard
      split <;> rfl
    have hleft : ∀ n f, (removeLeftover r s n f).install = true := by
      intro n f
      cases f with
      | data => exact install_of_apart hin (slotDir_apart r n)
      | password => exact hin
      | lockFile => exact hin
    unfold claimStep at hs
    repeat' split at hs
    all_goals cases hs
    all_goals first
      | exact hin
      | exact (hopen _).trans hin
      | exact hleft _ _
      | exact (hdiscard _).trans hin
  | life c m =>
    simp only [step] at hs
    have hdiscard : (s.discardPassword r c).install = true := by
      unfold State.discardPassword
      split <;> exact hin
    unfold lifeStep at hs
    repeat' split at hs
    all_goals cases hs
    all_goals first
      | exact hin
      | exact hdiscard
      | exact install_of_apart hin (hrem c rfl)
      | (obtain rfl := Bool.eq_false_iff.mpr ‹¬_ = true›
         exact install_of_apart hin (hrem c rfl))
      | (have h := congrArg (fun x => x.2.install) ‹openSetup s = _›
         exact h.symm)
  | clean c m =>
    simp only [step] at hs
    have hopen : ∀ why, (openGuard s c why).install = true := by
      intro why
      unfold openGuard
      split <;> exact hin
    unfold cleanStep at hs
    repeat' split at hs
    all_goals cases hs
    all_goals first
      | exact hin
      | exact hopen _
      | exact install_of_apart hin (hrem c rfl)
      | exact absurd rfl (hno c _)
  | watch w m =>
    simp only [step] at hs
    unfold watchStep at hs
    repeat' split at hs
    all_goals cases hs
    all_goals exact hin
  | die pid =>
    cases hs
    exact hin
  | release k =>
    simp only [step] at hs
    repeat' split at hs
    all_goals cases hs
    all_goals exact hin

theorem InstallKept.takes {a : Action} (h : Inv r s) (hC : InstallKept r s a)
    (hs : step r s a = some t) (ht : TakesInstall s a t c) :
    ∃ ok, a = .clean c (.removeInstall ok) := by
  obtain ⟨hactor,⟨hin,hout⟩ | hremove⟩ := ht
  · by_contra hno
    have hrem : ∀ d, a.removesDataOf = some d →
        State.below (s.dataDir r d) r.installDir = false := by
      intro d ha
      cases hc : r.claims d with
      | false => exact (hC.apart d ha hc).2
      | true =>
        obtain ⟨n,_,-,hdir⟩ := h.dataDir_slotted (removal_beyondClaim hs ha) hc
        rw [hdir]
        exact slotDir_apart r n
    have hkept := step_install hs hin hrem (by
      rintro d ok rfl
      obtain rfl : d = c := by simpa [Action.actor] using hactor
      exact hno ⟨ok,rfl⟩)
    rw [hkept] at hout
    cases hout
  · exact hremove

/-- In every run that meets the conditions, the install tree is taken only when no other
cluster uses it. -/
theorem installation_kept (r : Layout) (s : State) (a : Action) (t : State) (c : ClusterId)
    (h : ((system r).restrict (InstallKept r)).Reachable s)
    (hs : ((system r).restrict (InstallKept r)).step s a t) (ht : TakesInstall s a t c) :
    ∀ d, ¬ s.Uses c d := by
  obtain ⟨hC,hstep⟩ := hs
  have hi : Inv r s := inv_reachable (fun _ _ _ hi hc hs => hc.guardKept hi hs) h
  have hk := peersKnown_reachable h c
  obtain ⟨ok,rfl⟩ := hC.takes hi hstep ht
  intro d huse
  cases hd : r.claims d with
  | false => exact hC.users c ok rfl d hd huse
  | true =>
    -- A slotted user holds its slot, and the cleanup has found every other slot free.
    have hbeyond : (s.phase d).beyondClaim = true := by
      obtain ⟨-,hrun | ⟨-,stage,hprep⟩⟩ := huse
      · rw [hrun]
        rfl
      · rw [hprep]
        rfl
    obtain ⟨n,i,hslot,-⟩ := hi.dataDir_slotted hbeyond hd
    have hunseen : (s.phase c).unseen = some [] := by
      have hg := hk.guarded
      have hclean : cleanStep r s c (.removeInstall ok) (s.phase c) = some t := hstep
      cases hp : s.phase c with
      | cleanedData guard =>
        cases guard with
        | none =>
          rw [hp] at hg
          cases hg
        | some g => rfl
      | _ => simp [cleanStep,hp] at hclean
    have hmem := hk.unseen [] hunseen d n i huse.1 hslot
    cases hmem

/-- A slotted cluster starts and stops, and its full cleanup reaches the removal of the tree
after probing its only slot's peers. -/
def fullCleanupRun : List Action :=
  claimRun ++ [.life owner .lockSetup,.life owner .initdb,.life owner (.initdbEnd true),
    .life owner .start,.life owner .stop,.clean owner (.plan false),.clean owner .lockGuard,
    .clean owner (.list ["s"]),.clean owner .probeOpen,.clean owner .probeEnd,
    .clean owner (.removeData true)]

theorem installKept_owner {a : Action} (ha : a.actor = some owner)
    (hrem : ∀ ok, a ≠ .clean owner (.removeInstall ok)) (s : State) :
    InstallKept sharedRoot s a := by
  have hclaims : sharedRoot.claims owner = true := by decide
  refine ⟨?_,?_,?_,?_⟩
  · rintro pid rfl
    cases ha
  · intro c hc hno
    obtain rfl : c = owner := by
      unfold Action.removesDataOf at hc
      split at hc
      all_goals cases hc
      all_goals simpa [Action.actor] using ha
    rw [hclaims] at hno
    cases hno
  · rintro c (rfl | ⟨p,rfl⟩) _ hno
    all_goals
      obtain rfl : c = owner := by simpa [Action.actor] using ha
      rw [hclaims] at hno
      cases hno
  · rintro c ok rfl
    obtain rfl : c = owner := by simpa [Action.actor] using ha
    exact absurd rfl (hrem ok)

/-- A run of one cluster leaves every other where it is. -/
theorem run_phase_other {as : List Action} (hact : ∀ a ∈ as, a.actor = some c)
    (hr : run r s as = some t) {d : ClusterId} (hd : d ≠ c) : t.phase d = s.phase d := by
  induction as generalizing s with
  | nil =>
    cases hr
    rfl
  | cons a rest ih =>
    obtain ⟨u,hu,hrest⟩ := Option.bind_eq_some_iff.mp hr
    have ha := hact a (by simp)
    refine (ih (fun b hb => hact b (by simp [hb])) hrest).trans ?_
    cases a with
    | claim e m =>
      obtain rfl : e = c := by simpa [Action.actor] using ha
      exact claimStep_phase hu hd
    | life e m =>
      obtain rfl : e = c := by simpa [Action.actor] using ha
      exact lifeStep_phase hu hd
    | clean e m =>
      obtain rfl : e = c := by simpa [Action.actor] using ha
      exact cleanStep_phase hu hd
    | _ => simp [Action.actor] at ha

theorem installation_kept_owner :
    (∀ d, ¬ (after fullCleanupRun).Uses owner d) ∧
      TakesInstall (after fullCleanupRun) (.clean owner (.removeInstall true))
        (after (fullCleanupRun ++ [.clean owner (.removeInstall true)])) owner := by
  have hrun := step_after fullCleanupRun (.clean owner (.removeInstall true)) (by decide)
  have htakes : TakesInstall (after fullCleanupRun) (.clean owner (.removeInstall true))
      (after (fullCleanupRun ++ [.clean owner (.removeInstall true)])) owner :=
    ⟨rfl,.inr ⟨true,rfl⟩⟩
  have hacts : ∀ a ∈ fullCleanupRun, a.actor = some owner ∧
      a ≠ .clean owner (.removeInstall true) ∧ a ≠ .clean owner (.removeInstall false) := by
    decide
  refine ⟨installation_kept sharedRoot _ _ _ owner ?_ ⟨?_,hrun⟩ htakes,htakes⟩
  · refine reachable_run ?_ (run_after (by decide)) (System.reachable_init _ rfl)
    intro a ha
    obtain ⟨hactor,ht,hf⟩ := hacts a ha
    exact installKept_owner hactor (by rintro (_ | _); exacts [hf,ht])
  · refine ⟨by simp,by simp [Action.removesDataOf],by simp,?_⟩
    rintro c ok hc d - ⟨hd,huse⟩
    obtain rfl : owner = c := by
      injection hc
    have hidle := run_phase_other (fun a ha => (hacts a ha).1) (run_after (by decide)) hd
    rw [show State.init.phase d = .idle from rfl] at hidle
    simp [hidle] at huse

/-- A server on an explicit `PG_DATA_DIR` holds no slot, so the same cleanup takes the tree it
runs from. -/
def outsiderRunning : List Action :=
  [.life outsider .bootstrap,.life outsider .lockSetup,.life outsider .initdb,
    .life outsider (.initdbEnd true),.life outsider .start] ++ fullCleanupRun

theorem cleanup_takes_used_installation :
    ¬ ∀ s a t c, (system sharedRoot).Reachable s → (system sharedRoot).step s a t →
      TakesInstall s a t c → ∀ d, ¬ s.Uses c d := by
  intro h
  have hreach : (system sharedRoot).Reachable (after outsiderRunning) :=
    reachable_of_run (run_after (by decide)) (System.reachable_init _ rfl)
  have hstep := step_after outsiderRunning (.clean owner (.removeInstall true)) (by decide)
  have hno := h _ _ _ owner hreach hstep ⟨rfl,.inl ⟨by decide,by decide⟩⟩ outsider
  exact hno ⟨by decide,.inl (by decide)⟩

end PgEmbedSetup.Root
