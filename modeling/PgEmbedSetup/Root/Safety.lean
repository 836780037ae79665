import PgEmbedSetup.Root.Effects

set_option autoImplicit false

/-!
The slot protocol over every run: what its steps promise a live claim, and when the steps
of other clusters keep that promise.
-/

namespace PgEmbedSetup.Root
open Library

variable {r : Layout} {s t : State} {c : ClusterId}

/-- The invariant holds along every run whose steps keep the claim guard. -/
theorem inv_reachable {C : State → Action → Prop}
    (hC : ∀ s a t, Inv r s → C s a → step r s a = some t → GuardKept s t)
    (h : ((system r).restrict C).Reachable s) : Inv r s := by
  refine ((system r).restrict C).invariant ?_ ?_ h
  · rintro s rfl
    exact inv_init r
  · rintro s a t hi ⟨hc,hs⟩
    exact hi.step_inv hs (hC s a t hi hc hs)

/-- A computed run is a run of any system that allows its steps. -/
theorem reachable_of_steps {T : System State Action} {as : List Action}
    (hT : ∀ a ∈ as, ∀ s t, step r s a = some t → T.step s a t) (hr : run r s as = some t)
    (h : T.Reachable s) : T.Reachable t := by
  induction as generalizing s with
  | nil =>
    cases hr
    exact h
  | cons a rest ih =>
    obtain ⟨u,hu,hrest⟩ := Option.bind_eq_some_iff.mp hr
    exact ih (fun b hb => hT b (by simp [hb])) hrest (T.reachable_step h (hT a (by simp) s u hu))

theorem reachable_of_run {as : List Action} (hr : run r s as = some t)
    (h : (system r).Reachable s) : (system r).Reachable t :=
  reachable_of_steps (fun _ _ _ _ hs => hs) hr h

theorem reachable_run {C : State → Action → Prop} {as : List Action}
    (hC : ∀ a ∈ as, ∀ s, C s a) (hr : run r s as = some t)
    (h : ((system r).restrict C).Reachable s) : ((system r).restrict C).Reachable t :=
  reachable_of_steps (fun a ha s _ hs => ⟨hC a ha s,hs⟩) hr h

theorem run_append (s : State) (as bs : List Action) :
    run r s (as ++ bs) = (run r s as).bind fun t => run r t bs := by
  induction as generalizing s with
  | nil => rfl
  | cons a rest ih =>
    simp only [List.cons_append,run]
    cases step r s a with
    | none => rfl
    | some u => exact ih u

/-! ### The protocol itself -/

/-- A full cleanup from its probe for live peers to the end of its removal. -/
def Phase.inFullCleanup : Phase → Bool
  | .peers _ _ | .probing _ _ _ | .probeOpened _ _ _ _ _ | .probeLocked _ _ _
  | .cleaning (some _) _ | .cleanedData (some _) | .cleaned (some _) => true
  | _ => false

/-- What the protocol promises in a state, and of the steps that leave it. -/
structure SlotSafe (r : Layout) (s : State) : Prop where
  /-- No sweep removes a file of a slot whose owner lives. -/
  sweeps : ∀ c ok t d n i, step r s (.claim c (.sweepRemove ok)) = some t →
    s.slot d = some (n,i) → Spares r s t n
  names : ∀ c d n i j, s.slot c = some (n,i) → s.slot d = some (n,j) → c = d
  /-- A claim keeps its lock file and its lock. -/
  kept : ∀ c n i, s.slot c = some (n,i) →
    s.files.find (.slot n) = some i ∧ s.files.locks i = some (.claim c)
  /-- A lock file just created is in place, and no sweep or probe is in its way. -/
  fresh : ∀ c g n i, s.phase c = .created g n i → s.files.find (.slot n) = some i ∧
    ∀ h, s.files.locks i = some h → ∃ w, h = .watcher w
  /-- During a full cleanup nobody claims a slot. -/
  excluded : ∀ c, (s.phase c).inFullCleanup = true → ∀ a t d x, step r s a = some t →
    t.slot d = some x → s.slot d = some x

theorem Phase.guard_of_inFullCleanup {p : Phase} (h : p.inFullCleanup = true) :
    ∃ g, p.guard = some g := by
  unfold inFullCleanup at h
  split at h
  all_goals first
    | exact ⟨_,rfl⟩
    | cases h

/-- A step adds a claim only for the cluster that holds the guard and created its file. -/
theorem step_slot {a : Action} (hs : step r s a = some t) {d : ClusterId} {x : Name × Nat}
    (hd : t.slot d = some x) :
    s.slot d = some x ∨ ∃ g n i, s.phase d = .created g n i ∧ x = (n,i) := by
  cases a with
  | claim c m =>
    rcases claimStep_slot hs with hslot | ⟨g,n,i,hp,hslot⟩
    · rw [hslot] at hd
      exact .inl hd
    · rw [hslot] at hd
      by_cases hdc : d = c
      · subst hdc
        simp only [Function.update_self,Option.some.injEq] at hd
        exact .inr ⟨g,n,i,hp,hd.symm⟩
      · exact .inl (by simpa [hdc] using hd)
  | life c m =>
    rw [lifeStep_slot hs] at hd
    exact .inl hd
  | clean c m =>
    rw [cleanStep_slot hs] at hd
    exact .inl hd
  | watch w m =>
    simp only [step] at hs
    unfold watchStep at hs
    repeat' split at hs
    all_goals cases hs
    all_goals exact .inl hd
  | die pid =>
    cases hs
    simp only [State.die] at hd
    split at hd
    · cases hd
    · exact .inl hd
  | release k =>
    simp only [step] at hs
    repeat' split at hs
    all_goals cases hs
    all_goals exact .inl hd

theorem Inv.slotSafe (h : Inv r s) : SlotSafe r s where
  sweeps c ok t d n i hs hd := sweepRemove_spares h hs hd
  names c d n i j hc hd := h.names hc hd
  kept c n i hc := ⟨(h.shared.slots c n i hc).1,(h.shared.slots c n i hc).2.1⟩
  fresh c g n i hp := by
    have hfit := h.fits c
    rw [hp] at hfit
    exact ⟨hfit.target n i rfl,fun k hk => hfit.fresh i k rfl hk⟩
  excluded c hc a t d x hs hd := by
    obtain ⟨g,hg⟩ := Phase.guard_of_inFullCleanup hc
    rcases step_slot hs hd with hold | ⟨g',n,i,hp,-⟩
    · exact hold
    · -- The claiming cluster would be inside the guard as well.
      by_cases hdc : d = c
      · subst hdc
        rw [hp] at hc
        cases hc
      · have hnone := h.alone hg d hdc
        rw [hp] at hnone
        cases hnone

/-- One process starts a slotted cluster, another is a `run` by root over the same root, and
a third has a data directory of its own. -/
def sharedRoot : Layout where
  path := ["srv"]
  config c :=
    if c.pid = 1 then ⟨.perCluster,none,.full,false,false,false⟩
    else if c.pid = 2 then ⟨.persistent,none,.none,true,false,false⟩
    else ⟨.perCluster,some ["elsewhere"],.dataOnly,false,false,false⟩

def owner : ClusterId := ⟨1,0⟩

def runner : ClusterId := ⟨2,0⟩

def outsider : ClusterId := ⟨3,0⟩

def claimRun : List Action :=
  [.claim owner .openGuard,.claim owner .lockGuard,.claim owner (.list []),.claim owner .sweepEnd,
    .claim owner (.createSlot "s"),.claim owner .lockSlot,.claim owner .keepSlot]

/-- The state a run of the shared root ends in. -/
def after (as : List Action) : State := (run sharedRoot .init as).getD .init

theorem run_after {as : List Action} (h : (run sharedRoot .init as).isSome = true) :
    run sharedRoot .init as = some (after as) := by
  obtain ⟨u,hu⟩ := Option.isSome_iff_exists.mp h
  rw [after,hu,Option.getD_some]

theorem step_after (as : List Action) (a : Action)
    (h : (run sharedRoot .init (as ++ [a])).isSome = true) :
    step sharedRoot (after as) a = some (after (as ++ [a])) := by
  have hrun := run_after h
  rw [run_append] at hrun
  obtain ⟨u,hu,hstep⟩ := Option.bind_eq_some_iff.mp hrun
  have hafter : after as = u := by rw [after,hu,Option.getD_some]
  obtain ⟨v,hv,hlast⟩ := Option.bind_eq_some_iff.mp hstep
  rw [hafter,hv]
  exact hlast

/-- An unslotted cluster's data directory, when it is removed, is neither `<root>/data` nor a
directory above it nor the directory of a live slot. -/
def RemovalsApart (r : Layout) (s : State) (a : Action) : Prop :=
  ∀ c, a.removesDataOf = some c → r.claims c = false →
    State.below (s.dataDir r c) r.dataParent = false ∧
      ∀ d n i, s.slot d = some (n,i) → s.dataDir r c ≠ r.slotDir n

/-- The claim guard stays, and so does every live slot the acting cluster does not own. -/
def LiveSlotsKept (r : Layout) (s : State) (a : Action) (t : State) : Prop :=
  GuardKept s t ∧ ∀ d n i, a.actor ≠ some d → s.slot d = some (n,i) → Spares r s t n

theorem lifeStep_beyondClaim {m : LifeMove} (hs : lifeStep r s c m (s.phase c) = some t)
    (hm : m ≠ .bootstrap) : (s.phase c).beyondClaim = true := by
  generalize hp : s.phase c = p at hs
  unfold lifeStep at hs
  split at hs
  all_goals first
    | rfl
    | exact absurd rfl hm
    | cases hs

theorem cleanStep_beyondClaim {m : CleanMove} (hs : cleanStep r s c m (s.phase c) = some t) :
    (s.phase c).beyondClaim = true := by
  generalize hp : s.phase c = p at hs
  unfold cleanStep at hs
  split at hs
  all_goals first
    | rfl
    | cases hs

theorem removal_beyondClaim {a : Action} (hs : step r s a = some t)
    (ha : a.removesDataOf = some c) : (s.phase c).beyondClaim = true := by
  unfold Action.removesDataOf at ha
  split at ha
  all_goals cases ha
  · exact lifeStep_beyondClaim hs (by simp)
  · exact lifeStep_beyondClaim hs (by simp)
  · exact lifeStep_beyondClaim hs (by simp)
  · exact cleanStep_beyondClaim hs

/-- A slotted cluster only ever removes its own slot's directory. -/
theorem Inv.dataDir_slotted (h : Inv r s) (hb : (s.phase c).beyondClaim = true)
    (hc : r.claims c = true) :
    ∃ n i, s.slot c = some (n,i) ∧ s.dataDir r c = r.slotDir n := by
  obtain ⟨⟨n,i⟩,hslot⟩ := Option.isSome_iff_exists.mp ((h.fits c).slotted hb hc)
  refine ⟨n,i,hslot,?_⟩
  simp [State.dataDir,hc,show s.slot c = some (n,i) from hslot]

theorem Inv.removal_apart (h : Inv r s) {a : Action} (hs : step r s a = some t)
    (hC : RemovalsApart r s a) (ha : a.removesDataOf = some c) :
    State.below (s.dataDir r c) r.dataParent = false ∧
      ∀ d n i, d ≠ c → s.slot d = some (n,i) → s.dataDir r c ≠ r.slotDir n := by
  cases hc : r.claims c with
  | false =>
    obtain ⟨hb,hne⟩ := hC c ha hc
    exact ⟨hb,fun d n i _ hd => hne d n i hd⟩
  | true =>
    obtain ⟨m,j,hslot,hdir⟩ := h.dataDir_slotted (removal_beyondClaim hs ha) hc
    rw [hdir]
    refine ⟨below_slotDir r m,?_⟩
    intro d n i hdc hd he
    obtain rfl := slotDir_inj he
    exact hdc (h.names hd hslot)

theorem Inv.liveSlotsKept (h : Inv r s) {a : Action} (hs : step r s a = some t)
    (hC : RemovalsApart r s a) : LiveSlotsKept r s a t := by
  have hremove : ∀ c, a.removesDataOf = some c → ∀ d n i, d ≠ c → s.slot d = some (n,i) →
      Spares r s (s.removeTree r (s.dataDir r c)) n := by
    intro c ha d n i hdc hd
    obtain ⟨hb,hne⟩ := h.removal_apart hs hC ha
    exact spares_removeTree hb (hne d n i hdc hd)
  refine ⟨step_guardKept hs fun c ha => guardKept_of_above (h.removal_apart hs hC ha).1,?_⟩
  intro d n i hactor hd
  cases a with
  | claim c m =>
    have hdc : d ≠ c := fun he => hactor (by rw [he]; rfl)
    exact claimStep_spares h hs hd hdc
  | life c m =>
    have hdc : d ≠ c := fun he => hactor (by rw [he]; rfl)
    exact lifeStep_spares h hs hd hdc fun ha => hremove c ha d n i hdc hd
  | clean c m =>
    have hdc : d ≠ c := fun he => hactor (by rw [he]; rfl)
    have hne : r.installDir ≠ r.slotDir n := by
      simp [Layout.installDir,Layout.slotDir,Layout.dataParent]
    exact cleanStep_spares hs (fun ha => hremove c ha d n i hdc hd) hne
  | watch w m =>
    simp only [step] at hs
    unfold watchStep at hs
    repeat' split at hs
    all_goals cases hs
    all_goals first
      | exact spares_of_files (Spares.refl r s n) rfl rfl rfl
      | exact spares_of_files (spares_create ‹_›) rfl rfl rfl
  | die pid =>
    cases hs
    exact spares_of_files (Spares.refl r s n) rfl rfl rfl
  | release k =>
    simp only [step] at hs
    repeat' split at hs
    all_goals cases hs
    all_goals exact spares_of_files (Spares.refl r s n) rfl rfl rfl

theorem removalsApart_guardKept {a : Action} (h : Inv r s) (hC : RemovalsApart r s a)
    (hs : step r s a = some t) : GuardKept s t :=
  (h.liveSlotsKept hs hC).1

/-- In every run whose removals keep apart, no step of one cluster takes a file of another's
live slot, or the claim guard. -/
theorem live_slots_kept (r : Layout) (s : State) (a : Action) (t : State)
    (h : ((system r).restrict (RemovalsApart r)).Reachable s)
    (hs : ((system r).restrict (RemovalsApart r)).step s a t) : LiveSlotsKept r s a t :=
  (inv_reachable (fun _ _ _ hi hc hs => removalsApart_guardKept hi hc hs) h).liveSlotsKept
    hs.2 hs.1

/-- The outsider's `initdb` fails and is cleaned up beside a claimed slot. -/
def outsiderRun : List Action :=
  claimRun ++ [.life outsider .bootstrap,.life outsider .lockSetup,.life outsider .initdb]

theorem live_slots_kept_outsider :
    LiveSlotsKept sharedRoot (after outsiderRun) (.life outsider (.initdbEnd false))
        (after (outsiderRun ++ [.life outsider (.initdbEnd false)])) ∧
      (after outsiderRun).slot owner = some ("s",1) := by
  refine ⟨live_slots_kept sharedRoot _ _ _ ?_ ⟨?_,?_⟩,by decide⟩
  · have hno : ∀ a ∈ outsiderRun, a.removesDataOf = none := by decide
    refine reachable_run ?_ (run_after (by decide)) (System.reachable_init _ rfl)
    intro a ha s c hc
    simp [hno a ha] at hc
  · intro c hc _
    cases hc
    refine ⟨by decide,?_⟩
    intro d n i _ he
    have hdir : (after outsiderRun).dataDir sharedRoot outsider = ["elsewhere"] := by decide
    rw [hdir] at he
    simp [Layout.slotDir,Layout.dataParent,sharedRoot] at he
  · exact step_after _ _ (by decide)

/-- `run` by root finds `<root>/data` without a cluster but not empty, and the recovery of its
worker removes it with the slot another process has just claimed. -/
def recoveryRun : List Action := claimRun ++ [.life runner .bootstrap,.life runner .lockSetup]

theorem recovery_removes_live_slot :
    ¬ ∀ s a t, (system sharedRoot).Reachable s → (system sharedRoot).step s a t →
      LiveSlotsKept sharedRoot s a t := by
  intro h
  have hreach : (system sharedRoot).Reachable (after recoveryRun) :=
    reachable_of_run (run_after (by decide)) (System.reachable_init _ rfl)
  have hkept := (h _ _ _ hreach (step_after _ (.life runner .recover) (by decide))).2
  have hfile := (hkept owner "s" 1 (by decide) (by decide)).lockFile 1 (by decide)
  exact absurd hfile (by decide)

end PgEmbedSetup.Root
