import PgEmbedSetup.Root.Frame

set_option autoImplicit false

/-!
The invariant of the slot protocol and its preservation by every step that keeps the claim
guard.
-/

namespace PgEmbedSetup.Root
open Library

structure Inv (r : Layout) (s : State) : Prop where
  shared : Shared s.view
  fits : ∀ c, Fits r s.view c (s.phase c)
  exited : ∀ c, c.pid ∈ s.exited → s.phase c = .dead ∧ s.slot c = none
  opened : ∀ w i, s.watcher w = .opened i → i < s.files.next

theorem inv_init (r : Layout) : Inv r .init where
  shared := ⟨LockFiles.wellFormed_empty,by simp [State.view,State.init]⟩
  fits c := by
    constructor <;> simp [State.view,State.init,Phase.guard,Phase.awaited,Phase.target,
      Phase.swept,Phase.fresh,Phase.beyondClaim]
  exited := by simp [State.init]
  opened := by simp [State.init]

namespace Inv

variable {r : Layout} {s : State} {c : ClusterId}

theorem guardFile (h : Inv r s) (d : ClusterId) (g : Nat) (hg : (s.phase d).guard = some g) :
    s.files.find .claimGuard = some g :=
  ((h.fits d).guard g hg).1

/-- The guard's lock has one holder, so nobody else is inside. -/
theorem alone (h : Inv r s) {g : Nat} (hg : (s.phase c).guard = some g) : Alone s c := by
  intro d hd
  cases hd' : (s.phase d).guard with
  | none => rfl
  | some g' =>
    obtain ⟨hf,hl⟩ := (h.fits c).guard g hg
    obtain ⟨hf',hl'⟩ := (h.fits d).guard g' hd'
    obtain rfl : g = g' := by
      rw [hf] at hf'
      exact Option.some.inj hf'
    rw [hl] at hl'
    exact absurd (Holder.guard.inj (Option.some.inj hl')).symm hd

/-- After quiet calls the cluster may be in any phase it fits. -/
theorem of_quiet {t : State} (h : Inv r s) (hq : Quiet s t c) (halive : s.phase c ≠ .dead)
    (hfit : Fits r t.view c (t.phase c)) : Inv r t := by
  refine ⟨hq.shared h.shared,?_,?_,?_⟩
  · intro d
    by_cases hd : d = c
    · subst hd
      exact hfit
    · rw [hq.phase d hd]
      exact (h.fits d).frame (hq.frame d hd)
  · intro d hd
    rw [hq.exited] at hd
    obtain ⟨hdead,hnone⟩ := h.exited d hd
    have hne : d ≠ c := by
      rintro rfl
      exact halive hdead
    exact ⟨(hq.phase d hne).trans hdead,(hq.frame d hne).slot.trans hnone⟩
  · intro w i hw
    rw [hq.watcher] at hw
    exact Nat.lt_of_lt_of_le (h.opened w i hw) hq.next

theorem move {u : State} {p : Phase} (h : Inv r s) (hq : Quiet s u c)
    (halive : s.phase c ≠ .dead) (hfit : Fits r u.view c p) : Inv r (u.setPhase c p) := by
  refine h.of_quiet (hq.trans (quiet_setPhase u c p)) halive ?_
  have hp : (u.setPhase c p).phase c = p := by simp [State.setPhase]
  rw [hp]
  exact hfit

theorem goto {p : Phase} (h : Inv r s) (halive : s.phase c ≠ .dead)
    (hfit : Fits r s.view c p) : Inv r (s.setPhase c p) :=
  h.move (quiet_refl s c) halive hfit

/-- Entering a phase that relies on no lock file. -/
theorem enter {u : State} {p : Phase} (h : Inv r s) (hq : Quiet s u c)
    (halive : s.phase c ≠ .dead)
    (hp : p.guard = none ∧ p.awaited = none ∧ p.target = none ∧ p.swept = none ∧ p.fresh = none)
    (hu : p.unclaimed = true → u.slot c = none)
    (hb : p.beyondClaim = true → r.claims c = true → (u.slot c).isSome = true) :
    Inv r (u.setPhase c p) := by
  obtain ⟨hg,ha,ht,hs,hf⟩ := hp
  refine h.move hq halive ?_
  exact ⟨by simp [hg],by simp [ha],by simp [ht],by simp [hs],by simp [hf],hu,hb⟩

theorem leaveGuard {p : Phase} (h : Inv r s) (halive : s.phase c ≠ .dead)
    (hp : p.guard = none ∧ p.awaited = none ∧ p.target = none ∧ p.swept = none ∧ p.fresh = none)
    (hu : p.unclaimed = true → s.slot c = none)
    (hb : p.beyondClaim = true → r.claims c = true → (s.slot c).isSome = true) :
    Inv r ((s.close (.guard c)).setPhase c p) :=
  h.enter (quiet_close rfl (by simp)) halive hp hu hb

theorem openGuard {why : Purpose} (h : Inv r s) (halive : s.phase c ≠ .dead)
    (hu : why = .claim → s.slot c = none)
    (hb : why ≠ .claim → r.claims c = true → (s.slot c).isSome = true) :
    Inv r (openGuard s c why) := by
  have hfit : ∀ (v : View) (g : Nat), v.slot = s.slot → v.files.find .claimGuard = some g →
      Fits r v c (.waiting why g) := by
    intro v g hv hg
    refine ⟨by simp [Phase.guard],by simp [Phase.awaited,hg],by simp [Phase.target],
      by simp [Phase.swept],by simp [Phase.fresh],?_,?_⟩
    · cases why with
      | claim => simp [hv,hu]
      | cleanup own => simp [Phase.unclaimed]
    · cases why with
      | claim => simp [Phase.beyondClaim]
      | cleanup own =>
        rw [hv]
        exact fun _ => hb (by simp)
  unfold Root.openGuard
  split
  · next g hg => exact h.goto halive (hfit _ g rfl hg)
  · next hg =>
    refine h.move (quiet_create hg) halive (hfit _ _ rfl ?_)
    simp [State.view,State.create,LockFiles.find_create]

theorem lockGuard {why : Purpose} {g : Nat} {p : Phase} (h : Inv r s)
    (hw : s.phase c = .waiting why g) (hfree : s.files.locks g = none)
    (hp : p.guard = some g ∧ p.awaited = none ∧ p.target = none ∧ p.swept = none ∧ p.fresh = none)
    (hu : p.unclaimed = true → s.slot c = none)
    (hb : p.beyondClaim = true → r.claims c = true → (s.slot c).isSome = true) :
    Inv r ((s.lock g (.guard c)).setPhase c p) := by
  obtain ⟨hg,ha,ht,hs,hf⟩ := hp
  have hfile := (h.fits c).awaited g (by simp [hw,Phase.awaited])
  have hq : Quiet s (s.lock g (.guard c)) c := by
    refine quiet_lock hfree (h.shared.wf.bound _ _ hfile) (.inr ?_)
    intro n hn
    exact absurd (h.shared.wf.injective _ _ _ hfile hn) (by simp)
  refine h.move hq (by simp [hw]) ?_
  have hl : (s.lock g (.guard c)).view.files.locks g = some (.guard c) :=
    LockFiles.locks_lock_self _ _ _
  refine ⟨?_,by simp [ha],by simp [ht],by simp [hs],by simp [hf],hu,hb⟩
  intro g' hg'
  rw [hg] at hg'
  obtain rfl := Option.some.inj hg'
  exact ⟨hfile,hl⟩

/-! ### Claiming -/

/-- A slot a sweep is about to remove has no live claim. -/
theorem unclaimed_of_swept (h : Inv r s) {n : Name} {i : Nat}
    (ht : (s.phase c).target = some (n,i)) (hs : (s.phase c).swept = some i) (d : ClusterId)
    (j : Nat) : s.slot d ≠ some (n,j) := by
  intro hd
  have hfind := (h.fits c).target n i ht
  have hlock := (h.fits c).swept i hs
  obtain ⟨hfind',hlock',-⟩ := h.shared.slots d n j hd
  have hij : i = j := by
    rw [show s.view.files.find (.slot n) = some i from hfind] at hfind'
    exact Option.some.inj hfind'
  subst hij
  rw [show s.view.files.locks i = some (.sweep c) from hlock] at hlock'
  simp at hlock'

theorem guardHeld (h : Inv r s) {p : Phase} {g : Nat} (hp : s.phase c = p)
    (hg : p.guard = some g) :
    s.files.find .claimGuard = some g ∧ s.files.locks g = some (.guard c) :=
  (h.fits c).guard g (by rw [hp,hg])

/-- Going on inside the guard, with nothing opened by name. -/
theorem goInside {u : State} {p q : Phase} {g : Nat} (h : Inv r s) (hp : s.phase c = p)
    (hg : p.guard = some g) (hq : Quiet s u c)
    (hl : u.files.find .claimGuard = some g ∧ u.files.locks g = some (.guard c))
    (hplain : q.guard = some g ∧ q.awaited = none ∧ q.target = none ∧ q.swept = none ∧
      q.fresh = none)
    (hslot : u.slot c = s.slot c) (hu : q.unclaimed = true → p.unclaimed = true)
    (hb : q.beyondClaim = true → p.beyondClaim = true) : Inv r (u.setPhase c q) := by
  obtain ⟨hqg,ha,ht,hs,hf⟩ := hplain
  have hfit := h.fits c
  rw [hp] at hfit
  have halive : s.phase c ≠ .dead := by
    rintro hd
    rw [hp] at hd
    subst hd
    simp [Phase.guard] at hg
  refine h.move hq halive ⟨?_,by simp [ha],by simp [ht],by simp [hs],by simp [hf],?_,?_⟩
  · intro g' hg'
    rw [hqg] at hg'
    obtain rfl := Option.some.inj hg'
    exact hl
  · intro hq'
    exact hslot.trans (hfit.unclaimed (hu hq'))
  · intro hq' hc
    rw [show u.view.slot c = s.slot c from hslot]
    exact hfit.slotted (hb hq') hc

/-- Going on inside the guard changes no file. -/
theorem goOn {p q : Phase} {g : Nat} (h : Inv r s) (hp : s.phase c = p) (hg : p.guard = some g)
    (hplain : q.guard = some g ∧ q.awaited = none ∧ q.target = none ∧ q.swept = none ∧
      q.fresh = none)
    (hu : q.unclaimed = true → p.unclaimed = true)
    (hb : q.beyondClaim = true → p.beyondClaim = true) : Inv r (s.setPhase c q) :=
  h.goInside hp hg (quiet_refl s c) (h.guardHeld hp hg) hplain rfl hu hb

theorem closeSweep_inv {p : Phase} {g : Nat} {todo : List Name} (h : Inv r s)
    (hp : s.phase c = p) (hg : p.guard = some g) (hu : p.unclaimed = true) :
    Inv r ((s.close (.sweep c)).setPhase c (.sweeping g todo)) := by
  obtain ⟨hf,hl⟩ := h.guardHeld hp hg
  exact h.goInside hp hg (quiet_close rfl (by simp))
    ⟨hf,LockFiles.locks_close_of_ne hl (by simp)⟩ ⟨rfl,rfl,rfl,rfl,rfl⟩ rfl (fun _ => hu)
    (by simp [Phase.beyondClaim])

theorem sweepOpen_inv {g i : Nat} {todo : List Name} {n : Name} (h : Inv r s)
    (hp : s.phase c = .sweeping g (n :: todo)) (hf : s.files.find (.slot n) = some i) :
    Inv r (s.setPhase c (.sweepOpened g todo n i)) := by
  have hfit := h.fits c
  rw [hp] at hfit
  refine h.goto (by simp [hp]) ⟨hfit.guard,by simp [Phase.awaited],?_,by simp [Phase.swept],
    by simp [Phase.fresh],fun _ => hfit.unclaimed rfl,by simp [Phase.beyondClaim]⟩
  intro m j hm
  simp only [Phase.target,Option.some.injEq,Prod.mk.injEq] at hm
  obtain ⟨rfl,rfl⟩ := hm
  exact hf

theorem sweepTryLock_inv {g i : Nat} {todo : List Name} {n : Name} (h : Inv r s)
    (hp : s.phase c = .sweepOpened g todo n i) (hfree : s.files.locks i = none) :
    Inv r ((s.lock i (.sweep c)).setPhase c (.sweepLocked g todo n i)) := by
  have hfit := h.fits c
  rw [hp] at hfit
  have hn := hfit.target n i rfl
  obtain ⟨hf,hl⟩ := h.guardHeld hp rfl
  have hq : Quiet s (s.lock i (.sweep c)) c :=
    quiet_lock hfree (h.shared.wf.bound _ _ hn) (.inl (h.alone (by rw [hp]; rfl)))
  refine h.move hq (by simp [hp]) ⟨?_,by simp [Phase.awaited],hfit.target,?_,
    by simp [Phase.fresh],fun _ => hfit.unclaimed rfl,by simp [Phase.beyondClaim]⟩
  · intro g' hg'
    obtain rfl : g = g' := by simpa [Phase.guard] using hg'
    exact ⟨hf,LockFiles.locks_lock_of_some hfree hl⟩
  · intro j hj
    obtain rfl : i = j := by simpa [Phase.swept] using hj
    exact LockFiles.locks_lock_self _ _ _

theorem sweepStop_inv {g i : Nat} {todo : List Name} {n : Name} (h : Inv r s)
    (hp : s.phase c = .sweepLocked g todo n i) :
    Inv r (s.setPhase c (.removing g todo n i (some .data))) := by
  have hfit := h.fits c
  rw [hp] at hfit
  exact h.goto (by simp [hp]) ⟨hfit.guard,hfit.awaited,hfit.target,hfit.swept,hfit.fresh,
    hfit.unclaimed,hfit.slotted⟩

theorem removeLeftover_quiet {n : Name} (h : Inv r s) {g : Nat}
    (hg : (s.phase c).guard = some g) (hn : ∀ d j, s.slot d ≠ some (n,j)) (f : Leftover) :
    Quiet s (removeLeftover r s n f) c ∧ (removeLeftover r s n f).slot = s.slot ∧
      (removeLeftover r s n f).files.locks = s.files.locks ∧
      (removeLeftover r s n f).files.find .claimGuard = s.files.find .claimGuard ∧
      (f.next.isSome = true → ∀ m, (removeLeftover r s n f).files.find (.slot m) =
        s.files.find (.slot m)) := by
  cases f with
  | data =>
    have hkept := guardKept_of_above (s := s) (below_slotDir r n)
    refine ⟨quiet_removeTree hkept h.guardFile,rfl,rfl,?_,fun _ m => ?_⟩
    · simp [removeLeftover,find_removeTree_guard,below_slotDir]
    · simp [removeLeftover,find_removeTree_slot,below_slotDir]
  | password => exact ⟨quiet_of_view rfl (fun _ _ => rfl) rfl rfl,rfl,rfl,rfl,fun _ _ => rfl⟩
  | lockFile =>
    refine ⟨quiet_unlinkSlot (h.alone hg) hn,rfl,rfl,?_,by simp [Leftover.next]⟩
    simp [removeLeftover,State.unlinkSlot,LockFiles.find_unlink]

theorem sweepRemove_inv {g i : Nat} {todo : List Name} {n : Name} {f : Leftover} (h : Inv r s)
    (hp : s.phase c = .removing g todo n i (some f)) (ok : Bool) :
    Inv r ((if ok then removeLeftover r s n f else s).setPhase c
      (.removing g todo n i f.next)) := by
  have hfit := h.fits c
  have hn := h.unclaimed_of_swept (c := c) (n := n) (i := i) (by rw [hp]; rfl) (by rw [hp]; rfl)
  rw [hp] at hfit
  cases ok with
  | false =>
    refine h.goto (by simp [hp]) ⟨hfit.guard,hfit.awaited,?_,hfit.swept,hfit.fresh,
      hfit.unclaimed,hfit.slotted⟩
    intro m j hm
    cases f with
    | lockFile => simp [Leftover.next,Phase.target] at hm
    | data => exact hfit.target m j hm
    | password => exact hfit.target m j hm
  | true =>
    have hg : (s.phase c).guard = some g := by rw [hp]; rfl
    obtain ⟨hq,hslot,hlocks,hfind,hkeep⟩ := h.removeLeftover_quiet hg hn f
    refine h.move hq (by simp [hp]) ⟨?_,by simp [Phase.awaited],?_,?_,by simp [Phase.fresh],?_,
      by simp [Phase.beyondClaim]⟩
    · intro g' hg'
      simpa [State.view,hlocks,hfind] using hfit.guard g' hg'
    · intro m j hm
      have hnext : f.next.isSome = true := by
        cases f <;> simp_all [Leftover.next,Phase.target]
      have ht := hfit.target m j (by cases f <;> simp_all [Leftover.next,Phase.target])
      simpa [State.view,hkeep hnext m] using ht
    · intro j hj
      simpa [State.view,hlocks] using hfit.swept j hj
    · intro _
      simpa [State.view,hslot] using hfit.unclaimed rfl

theorem createSlot_inv {g : Nat} {n : Name} (h : Inv r s) (hp : s.phase c = .naming g)
    (hn : s.files.find (.slot n) = none) :
    Inv r ((s.create (.slot n)).setPhase c (.created g n s.files.next)) := by
  have hfit := h.fits c
  rw [hp] at hfit
  obtain ⟨hf,hl⟩ := h.guardHeld hp rfl
  refine h.move (quiet_create hn) (by simp [hp]) ⟨?_,by simp [Phase.awaited],?_,
    by simp [Phase.swept],?_,fun _ => hfit.unclaimed rfl,by simp [Phase.beyondClaim]⟩
  · intro g' hg'
    obtain rfl : g = g' := by simpa [Phase.guard] using hg'
    exact ⟨LockFiles.find_create_of_some hn hf,hl⟩
  · intro m j hm
    simp only [Phase.target,Option.some.injEq,Prod.mk.injEq] at hm
    obtain ⟨rfl,rfl⟩ := hm
    simp [State.view,State.create,LockFiles.find_create]
  · intro j k hj hk
    -- The inode is new, so it carries no lock at all yet.
    obtain rfl : s.files.next = j := by simpa [Phase.fresh] using hj
    simp [State.view,State.create,show s.files.locks s.files.next = none from
      h.shared.wf.fresh] at hk

theorem lockSlot_inv {g i : Nat} {n : Name} (h : Inv r s) (hp : s.phase c = .created g n i)
    (hfree : s.files.locks i = none) :
    Inv r (((s.lock i (.claim c)).setSlot c (some (n,i))).setPhase c (.claimed g)) := by
  have hfit := h.fits c
  rw [hp] at hfit
  have hn := hfit.target n i rfl
  obtain ⟨hf,hl⟩ := h.guardHeld hp rfl
  have hlock : Quiet s (s.lock i (.claim c)) c :=
    quiet_lock hfree (h.shared.wf.bound _ _ hn) (.inl (h.alone (by rw [hp]; rfl)))
  have hslot := quiet_setSlot (s := s.lock i (.claim c)) (c := c) hn
    (LockFiles.locks_lock_self _ _ _) hf
  refine h.move (hlock.trans hslot) (by simp [hp]) ⟨?_,by simp [Phase.awaited],
    by simp [Phase.target],by simp [Phase.swept],by simp [Phase.fresh],
    by simp [Phase.unclaimed],?_⟩
  · intro g' hg'
    obtain rfl : g = g' := by simpa [Phase.guard] using hg'
    exact ⟨hf,LockFiles.locks_lock_of_some hfree hl⟩
  · simp [State.view,State.setSlot]

theorem discardPassword_view (s : State) (r : Layout) (c : ClusterId) :
    (s.discardPassword r c).view = s.view ∧ (s.discardPassword r c).phase = s.phase ∧
      (s.discardPassword r c).exited = s.exited ∧
      (s.discardPassword r c).watcher = s.watcher := by
  unfold State.discardPassword
  split <;> exact ⟨rfl,rfl,rfl,rfl⟩

theorem quiet_discardPassword (s : State) (r : Layout) (c : ClusterId) :
    Quiet s (s.discardPassword r c) c := by
  obtain ⟨hv,hp,he,hw⟩ := discardPassword_view s r c
  exact quiet_of_view hv (fun _ _ => by rw [hp]) he hw

theorem keepSlot_inv {g : Nat} (h : Inv r s) (hp : s.phase c = .claimed g) :
    Inv r (((s.close (.guard c)).discardPassword r c).setPhase c .bootstrapped) := by
  have hfit := h.fits c
  rw [hp] at hfit
  have hq : Quiet s ((s.close (.guard c)).discardPassword r c) c :=
    (quiet_close rfl (by simp)).trans (quiet_discardPassword _ r c)
  have hview := (discardPassword_view (s.close (.guard c)) r c).1
  refine h.move hq (by simp [hp]) ?_
  rw [hview]
  exact ⟨by simp [Phase.guard],by simp [Phase.awaited],by simp [Phase.target],
    by simp [Phase.swept],by simp [Phase.fresh],by simp [Phase.unclaimed],
    fun _ => hfit.slotted rfl⟩

theorem claimStep_inv {m : ClaimMove} {t : State} (h : Inv r s)
    (hs : claimStep r s c m (s.phase c) = some t) : Inv r t := by
  have hfit := h.fits c
  generalize hp : s.phase c = p at hs hfit
  -- One case per arm of `claimStep`, in its order.
  unfold claimStep at hs
  split at hs
  · split at hs
    · cases hs
      exact h.openGuard (by simp [hp]) (fun _ => hfit.unclaimed rfl) (by simp)
    · cases hs
  · split at hs
    · next hfree =>
      cases hs
      exact h.lockGuard hp hfree ⟨rfl,rfl,rfl,rfl,rfl⟩ (fun _ => hfit.unclaimed rfl)
        (by simp [Phase.beyondClaim])
    · cases hs
  · cases hs
    exact h.goOn hp rfl ⟨rfl,rfl,rfl,rfl,rfl⟩ (fun _ => rfl) (by simp [Phase.beyondClaim])
  · cases hs
    exact h.goOn hp rfl ⟨rfl,rfl,rfl,rfl,rfl⟩ (fun _ => rfl) (by simp [Phase.beyondClaim])
  · split at hs
    · next hf =>
      cases hs
      exact h.sweepOpen_inv hp hf
    · cases hs
      exact h.goOn hp rfl ⟨rfl,rfl,rfl,rfl,rfl⟩ (fun _ => rfl) (by simp [Phase.beyondClaim])
  · cases hs
    exact h.goOn hp rfl ⟨rfl,rfl,rfl,rfl,rfl⟩ (fun _ => rfl) (by simp [Phase.beyondClaim])
  · split at hs
    · next hfree =>
      cases hs
      exact h.sweepTryLock_inv hp hfree
    · cases hs
      exact h.goOn hp rfl ⟨rfl,rfl,rfl,rfl,rfl⟩ (fun _ => rfl) (by simp [Phase.beyondClaim])
  · split at hs
    · cases hs
      exact h.sweepStop_inv hp
    · cases hs
      exact h.closeSweep_inv hp rfl rfl
  · cases hs
    exact h.sweepRemove_inv hp _
  · cases hs
    exact h.closeSweep_inv hp rfl rfl
  · cases hs
    exact h.goOn hp rfl ⟨rfl,rfl,rfl,rfl,rfl⟩ (fun _ => rfl) (by simp [Phase.beyondClaim])
  · split at hs
    · cases hs
      exact h.leaveGuard (by simp [hp]) ⟨rfl,rfl,rfl,rfl,rfl⟩ (by simp [Phase.unclaimed])
        (by simp [Phase.beyondClaim])
    · next hn =>
      cases hs
      exact h.createSlot_inv hp hn
  · split at hs
    · next hfree =>
      cases hs
      exact h.lockSlot_inv hp hfree
    · cases hs
      exact h.leaveGuard (by simp [hp]) ⟨rfl,rfl,rfl,rfl,rfl⟩ (by simp [Phase.unclaimed])
        (by simp [Phase.beyondClaim])
  · cases hs
    exact h.keepSlot_inv hp
  · cases hs
    exact h.enter (quiet_refl s c) (by simp [hp]) ⟨rfl,rfl,rfl,rfl,rfl⟩ (by simp [Phase.unclaimed])
      (by simp [Phase.beyondClaim])
  · cases hs
    exact h.enter (quiet_refl s c) (by simp [hp]) ⟨rfl,rfl,rfl,rfl,rfl⟩ (by simp [Phase.unclaimed])
      (by simp [Phase.beyondClaim])
  · cases hs
    exact h.leaveGuard (by simp [hp]) ⟨rfl,rfl,rfl,rfl,rfl⟩ (by simp [Phase.unclaimed])
      (by simp [Phase.beyondClaim])
  · cases hs
    exact h.leaveGuard (by simp [hp]) ⟨rfl,rfl,rfl,rfl,rfl⟩ (by simp [Phase.unclaimed])
      (by simp [Phase.beyondClaim])
  · cases hs
    exact h.leaveGuard (by simp [hp]) ⟨rfl,rfl,rfl,rfl,rfl⟩ (by simp [Phase.unclaimed])
      (by simp [Phase.beyondClaim])
  · cases hs
    exact h.leaveGuard (by simp [hp]) ⟨rfl,rfl,rfl,rfl,rfl⟩ (by simp [Phase.unclaimed])
      (by simp [Phase.beyondClaim])
  · cases hs

/-! ### Setting up and running -/

/-- Past its claim and outside the guard, a cluster's phases rely on its slot alone. -/
theorem advance {u : State} {p q : Phase} (h : Inv r s) (hp : s.phase c = p)
    (hq : Quiet s u c) (hslot : u.slot c = s.slot c) (hb : p.beyondClaim = true)
    (hplain : q.guard = none ∧ q.awaited = none ∧ q.target = none ∧ q.swept = none ∧
      q.fresh = none) (hu : q.unclaimed = false) : Inv r (u.setPhase c q) := by
  have halive : s.phase c ≠ .dead := by
    intro hd
    rw [← hp,hd] at hb
    simp [Phase.beyondClaim] at hb
  refine h.enter hq halive hplain (by simp [hu]) ?_
  intro _ hclaims
  rw [hslot]
  exact (h.fits c).slotted (by rw [hp]; exact hb) hclaims

theorem openSetup_quiet {i : Nat} {t : State} (ht : openSetup s = (i,t)) :
    Quiet s t c ∧ t.slot = s.slot ∧ t.files.find .setup = some i := by
  unfold openSetup LockFiles.openOrCreate at ht
  cases hf : s.files.find .setup with
  | some j =>
    rw [hf] at ht
    cases ht
    exact ⟨quiet_of_view rfl (fun _ _ => rfl) rfl rfl,rfl,hf⟩
  | none =>
    rw [hf] at ht
    cases ht
    refine ⟨?_,rfl,by simp [LockFiles.find_create]⟩
    exact (quiet_create hf).trans (quiet_of_view rfl (fun _ _ => rfl) rfl rfl)

/-- Taking the setup lock, which is no slot's. -/
theorem lockSetup_quiet {i : Nat} {t : State} (h : Inv r s) (ht : openSetup s = (i,t))
    (hfree : t.files.locks i = none) : Quiet s (t.lock i (.setup c)) c := by
  obtain ⟨hq,-,hf⟩ := openSetup_quiet (c := c) ht
  have hwf := (hq.shared h.shared).wf
  refine hq.trans (quiet_lock hfree (hwf.bound _ _ hf) (.inr ?_))
  intro n hn
  exact absurd (hwf.injective _ _ _ hf hn) (by simp)

theorem lifeStep_inv {m : LifeMove} {t : State} (h : Inv r s)
    (hs : lifeStep r s c m (s.phase c) = some t) (hkept : GuardKept s t) : Inv r t := by
  have hfit := h.fits c
  generalize hp : s.phase c = p at hs hfit
  -- One case per arm of `lifeStep`, in its order.
  unfold lifeStep at hs
  split at hs
  · split at hs
    · cases hs
    · next hc =>
      cases hs
      refine h.enter (quiet_discardPassword s r c) (by simp [hp]) ⟨rfl,rfl,rfl,rfl,rfl⟩
        (by simp [Phase.unclaimed]) ?_
      intro _ hclaims
      exact absurd hclaims hc
  · split at hs
    next i u hu =>
    split at hs
    · next hfree =>
      cases hs
      have hslot := congrFun (openSetup_quiet (c := c) hu).2.1 c
      exact h.advance hp (h.lockSetup_quiet hu hfree) hslot rfl ⟨rfl,rfl,rfl,rfl,rfl⟩ rfl
    · cases hs
  · cases hs
    exact h.advance hp (quiet_close rfl (by simp)) rfl rfl ⟨rfl,rfl,rfl,rfl,rfl⟩ rfl
  · split at hs
    · cases hs
      have hfit' : Fits r (s.removeTree r (s.dataDir r c)).view c (s.phase c) := by
        rw [hp]
        exact ⟨by simp [Phase.guard],by simp [Phase.awaited],by simp [Phase.target],
          by simp [Phase.swept],by simp [Phase.fresh],by simp [Phase.unclaimed],
          fun _ => hfit.slotted rfl⟩
      exact h.of_quiet (quiet_removeTree hkept h.guardFile) (by simp [hp]) hfit'
    · cases hs
  · split at hs
    · cases hs
      exact h.advance hp (quiet_refl s c) rfl rfl ⟨rfl,rfl,rfl,rfl,rfl⟩ rfl
    · cases hs
  · split at hs
    · cases hs
      exact h.advance hp (quiet_of_view rfl (fun _ _ => rfl) rfl rfl) rfl rfl
        ⟨rfl,rfl,rfl,rfl,rfl⟩ rfl
    · cases hs
  · split at hs
    · cases hs
      exact h.advance hp (quiet_of_view rfl (fun _ _ => rfl) rfl rfl) rfl rfl
        ⟨rfl,rfl,rfl,rfl,rfl⟩ rfl
    · cases hs
      have hq := quiet_removeTree (c := c) (p := s.dataDir r c) hkept h.guardFile
      exact h.advance hp (hq.trans (quiet_close rfl (by simp))) rfl rfl ⟨rfl,rfl,rfl,rfl,rfl⟩ rfl
  · split at hs
    · cases hs
      exact h.advance hp (quiet_close rfl (by simp)) rfl rfl ⟨rfl,rfl,rfl,rfl,rfl⟩ rfl
    · cases hs
  · cases hs
    exact h.advance hp (quiet_close rfl (by simp)) rfl rfl ⟨rfl,rfl,rfl,rfl,rfl⟩ rfl
  · cases hs
    exact h.advance hp (quiet_refl s c) rfl rfl ⟨rfl,rfl,rfl,rfl,rfl⟩ rfl
  · split at hs
    · cases hs
      have hq := quiet_removeTree (c := c) (p := s.dataDir r c) hkept h.guardFile
      have hfit' : Fits r (s.removeTree r (s.dataDir r c)).view c (s.phase c) := by
        rw [hp]
        exact ⟨by simp [Phase.guard],by simp [Phase.awaited],by simp [Phase.target],
          by simp [Phase.swept],by simp [Phase.fresh],by simp [Phase.unclaimed],
          fun _ => hfit.slotted rfl⟩
      exact h.of_quiet (hq.trans (quiet_of_view rfl (fun _ _ => rfl) rfl rfl)) (by simp [hp]) hfit'
    · cases hs
  · cases hs
    exact h.enter (quiet_refl s c) (by simp [hp]) ⟨rfl,rfl,rfl,rfl,rfl⟩
      (by simp [Phase.unclaimed]) (by simp [Phase.beyondClaim])
  · cases hs

/-! ### Cleaning up -/

theorem probeOpen_inv {g i : Nat} {own : Option Name} {todo : List Name} {n : Name} (h : Inv r s)
    (hp : s.phase c = .probing g own (n :: todo)) (hf : s.files.find (.slot n) = some i) :
    Inv r (s.setPhase c (.probeOpened g own todo n i)) := by
  have hfit := h.fits c
  rw [hp] at hfit
  refine h.goto (by simp [hp]) ⟨hfit.guard,by simp [Phase.awaited],?_,by simp [Phase.swept],
    by simp [Phase.fresh],by simp [Phase.unclaimed],fun _ => hfit.slotted rfl⟩
  intro m j hm
  simp only [Phase.target,Option.some.injEq,Prod.mk.injEq] at hm
  obtain ⟨rfl,rfl⟩ := hm
  exact hf

theorem probeTryLock_inv {g i : Nat} {own : Option Name} {todo : List Name} {n : Name}
    (h : Inv r s) (hp : s.phase c = .probeOpened g own todo n i)
    (hfree : s.files.locks i = none) :
    Inv r ((s.lock i (.probe c)).setPhase c (.probeLocked g own todo)) := by
  have hfit := h.fits c
  rw [hp] at hfit
  obtain ⟨hf,hl⟩ := h.guardHeld hp rfl
  have hq : Quiet s (s.lock i (.probe c)) c :=
    quiet_lock hfree (h.shared.wf.bound _ _ (hfit.target n i rfl))
      (.inl (h.alone (by rw [hp]; rfl)))
  exact h.goInside hp rfl hq ⟨hf,LockFiles.locks_lock_of_some hfree hl⟩ ⟨rfl,rfl,rfl,rfl,rfl⟩ rfl
    (by simp [Phase.unclaimed]) (fun _ => rfl)

/-- A demoted cleanup goes on without the guard. -/
theorem demote_inv {p : Phase} (h : Inv r s) (hp : s.phase c = p) (hb : p.beyondClaim = true) :
    Inv r ((s.close (.guard c)).setPhase c (.cleaning none .dataOnly)) :=
  h.advance hp (quiet_close rfl (by simp)) rfl hb ⟨rfl,rfl,rfl,rfl,rfl⟩ rfl

/-- A removal leaves the guard with the cluster that cleans up under it. -/
theorem cleaning_inv {u : State} {p q : Phase} (h : Inv r s) (hp : s.phase c = p)
    (hq : Quiet s u c) (hkept : GuardKept s u) (hlocks : u.files.locks = s.files.locks)
    (hslot : u.slot c = s.slot c) (hb : p.beyondClaim = true) (hg : q.guard = p.guard)
    (hplain : q.awaited = none ∧ q.target = none ∧ q.swept = none ∧ q.fresh = none)
    (hu : q.unclaimed = false) : Inv r (u.setPhase c q) := by
  obtain ⟨ha,ht,hs,hf⟩ := hplain
  have hfit := h.fits c
  rw [hp] at hfit
  have halive : s.phase c ≠ .dead := by
    intro hd
    rw [← hp,hd] at hb
    simp [Phase.beyondClaim] at hb
  refine h.move hq halive ⟨?_,by simp [ha],by simp [ht],by simp [hs],by simp [hf],
    by simp [hu],?_⟩
  · intro g hqg
    rw [hg] at hqg
    obtain ⟨hfile,hl⟩ := hfit.guard g hqg
    refine ⟨hkept g hfile,?_⟩
    rw [show u.view.files.locks = s.files.locks from hlocks]
    exact hl
  · intro _ hclaims
    rw [show u.view.slot c = s.slot c from hslot]
    exact hfit.slotted hb hclaims

theorem cleanStep_inv {m : CleanMove} {t : State} (h : Inv r s)
    (hs : cleanStep r s c m (s.phase c) = some t) (hkept : GuardKept s t) : Inv r t := by
  have hfit := h.fits c
  generalize hp : s.phase c = p at hs hfit
  -- One case per arm of `cleanStep`, in its order.
  unfold cleanStep at hs
  split at hs
  · split at hs
    · cases hs
      exact h.advance hp (quiet_refl s c) rfl rfl ⟨rfl,rfl,rfl,rfl,rfl⟩ rfl
    · cases hs
      exact h.advance hp (quiet_refl s c) rfl rfl ⟨rfl,rfl,rfl,rfl,rfl⟩ rfl
    · split at hs
      · cases hs
        exact h.advance hp (quiet_refl s c) rfl rfl ⟨rfl,rfl,rfl,rfl,rfl⟩ rfl
      · split at hs
        · cases hs
        · split at hs
          · cases hs
            exact h.openGuard (by simp [hp]) (by simp) (fun _ => hfit.slotted rfl)
          · split at hs
            · cases hs
              exact h.advance hp (quiet_refl s c) rfl rfl ⟨rfl,rfl,rfl,rfl,rfl⟩ rfl
            · cases hs
              exact h.openGuard (by simp [hp]) (by simp) (fun _ => hfit.slotted rfl)
  · split at hs
    · cases hs
      exact h.advance hp (quiet_refl s c) rfl rfl ⟨rfl,rfl,rfl,rfl,rfl⟩ rfl
    · cases hs
  · split at hs
    · next hfree =>
      cases hs
      exact h.lockGuard hp hfree ⟨rfl,rfl,rfl,rfl,rfl⟩ (by simp [Phase.unclaimed])
        (fun _ => hfit.slotted rfl)
    · cases hs
  · have hheld := h.guardHeld hp rfl
    split at hs
    · cases hs
      exact h.goInside hp rfl (quiet_refl s c) hheld ⟨rfl,rfl,rfl,rfl,rfl⟩ rfl
        (by simp [Phase.unclaimed]) (fun _ => rfl)
    · split at hs
      · cases hs
        exact h.goInside hp rfl (quiet_refl s c) hheld ⟨rfl,rfl,rfl,rfl,rfl⟩ rfl
          (by simp [Phase.unclaimed]) (fun _ => rfl)
      · cases hs
  · split at hs
    · cases hs
      exact h.goInside hp rfl (quiet_refl s c) (h.guardHeld hp rfl) ⟨rfl,rfl,rfl,rfl,rfl⟩ rfl
        (by simp [Phase.unclaimed]) (fun _ => rfl)
    · split at hs
      · next hf =>
        cases hs
        exact h.probeOpen_inv hp hf
      · cases hs
        exact h.demote_inv hp rfl
  · split at hs
    · next hfree =>
      cases hs
      exact h.probeTryLock_inv hp hfree
    · cases hs
      exact h.demote_inv hp rfl
  · cases hs
    obtain ⟨hf,hl⟩ := h.guardHeld hp rfl
    exact h.goInside hp rfl (quiet_close rfl (by simp))
      ⟨hf,LockFiles.locks_close_of_ne hl (by simp)⟩ ⟨rfl,rfl,rfl,rfl,rfl⟩ rfl
      (by simp [Phase.unclaimed]) (fun _ => rfl)
  · cases hs
    exact h.demote_inv hp rfl
  · cases hs
    exact h.demote_inv hp rfl
  · cases hs
    exact h.demote_inv hp rfl
  · cases hs
    exact h.goInside hp rfl (quiet_refl s c) (h.guardHeld hp rfl) ⟨rfl,rfl,rfl,rfl,rfl⟩ rfl
      (by simp [Phase.unclaimed]) (fun _ => rfl)
  · next ok guard mode =>
    cases hs
    have hguard : (if mode = .full then Phase.cleanedData guard else .cleaned guard).guard =
        (Phase.cleaning guard mode).guard := by
      split <;> rfl
    have hplain : ∀ q, q = Phase.cleanedData guard ∨ q = .cleaned guard →
        (q.awaited = none ∧ q.target = none ∧ q.swept = none ∧ q.fresh = none) ∧
          q.unclaimed = false := by
      rintro q (rfl | rfl) <;> exact ⟨⟨rfl,rfl,rfl,rfl⟩,rfl⟩
    have hq := hplain (if mode = .full then .cleanedData guard else .cleaned guard)
      (by split <;> simp)
    cases ok with
    | false =>
      exact h.cleaning_inv hp (quiet_refl s c) (fun _ hg => hg) rfl rfl rfl hguard hq.1 hq.2
    | true =>
      exact h.cleaning_inv hp (quiet_removeTree hkept h.guardFile) hkept rfl rfl rfl hguard
        hq.1 hq.2
  · next ok guard =>
    cases hs
    cases ok with
    | false =>
      exact h.cleaning_inv hp (quiet_refl s c) (fun _ hg => hg) rfl rfl rfl rfl
        ⟨rfl,rfl,rfl,rfl⟩ rfl
    | true =>
      exact h.cleaning_inv hp (quiet_removeTree hkept h.guardFile) hkept rfl rfl rfl rfl
        ⟨rfl,rfl,rfl,rfl⟩ rfl
  · next guard =>
    cases hs
    have hq : Quiet s (if guard.isSome = true then s.close (.guard c) else s) c := by
      split
      · exact quiet_close rfl (by simp)
      · exact quiet_refl s c
    exact h.advance hp hq (by split <;> rfl) rfl ⟨rfl,rfl,rfl,rfl,rfl⟩ rfl
  · cases hs

/-! ### Watchers and exits -/

/-- A step no cluster takes. -/
theorem of_frame {t : State} (h : Inv r s) (hshared : Shared t.view)
    (hphase : t.phase = s.phase) (hframe : ∀ d, Frame s.view t.view d (s.phase d))
    (hexited : t.exited = s.exited)
    (hopened : ∀ w i, t.watcher w = .opened i → i < t.files.next) : Inv r t := by
  refine ⟨hshared,?_,?_,hopened⟩
  · intro d
    rw [hphase]
    exact (h.fits d).frame (hframe d)
  · intro d hd
    rw [hexited] at hd
    obtain ⟨hdead,hnone⟩ := h.exited d hd
    exact ⟨(congrFun hphase d).trans hdead,(hframe d).slot.trans hnone⟩

theorem frame_refl (v : View) (d : ClusterId) (p : Phase) : Frame v v d p :=
  ⟨fun _ h => h,rfl,fun _ _ _ h => h,fun _ _ _ h => h,fun _ _ _ _ _ h => .inl h⟩

/-- A watcher's own state, and what it may have opened. -/
theorem opened_setWatcher {t : State} {w : Nat} {x : Watcher}
    (hs : ∀ v i, s.watcher v = .opened i → i < s.files.next)
    (hw : t.watcher = Function.update s.watcher w x) (hnext : s.files.next ≤ t.files.next)
    (hx : ∀ i, x = .opened i → i < t.files.next) :
    ∀ v i, t.watcher v = .opened i → i < t.files.next := by
  intro v i hv
  rw [hw] at hv
  by_cases hvw : v = w
  · subst hvw
    exact hx i (by simpa using hv)
  · exact Nat.lt_of_lt_of_le (hs v i (by simpa [hvw] using hv)) hnext

theorem watchStep_inv {w : Nat} {m : WatchMove} {t : State} (h : Inv r s)
    (hs : watchStep r s w m (s.watcher w) = some t) : Inv r t := by
  generalize hw : s.watcher w = x at hs
  unfold watchStep at hs
  split at hs
  · split at hs
    · cases hs
    · split at hs
      · cases hs
        exact h.of_frame h.shared rfl (fun d => frame_refl _ d _) rfl
          (opened_setWatcher h.opened rfl (Nat.le_refl _) (by simp))
      · cases hs
  · split at hs
    · next i hf =>
      cases hs
      refine h.of_frame h.shared rfl (fun d => frame_refl _ d _) rfl
        (opened_setWatcher h.opened rfl (Nat.le_refl _) ?_)
      intro j hj
      obtain rfl : i = j := by simpa using hj
      exact h.shared.wf.bound _ _ hf
    · next hf =>
      cases hs
      refine h.of_frame (shared_create hf h.shared) rfl (fun d => frame_create hf d _) rfl
        (opened_setWatcher h.opened rfl (Nat.le_succ _) ?_)
      intro j hj
      obtain rfl : s.files.next = j := by simpa using hj
      exact Nat.lt_succ_self _
  · split at hs
    · next i hfree =>
      cases hs
      have hi := h.opened w i hw
      refine h.of_frame ?_ rfl (fun d => ?_) rfl
        (opened_setWatcher h.opened rfl (Nat.le_refl _) (by simp))
      · refine ⟨h.shared.wf.lock hi _,?_⟩
        intro d n j hd
        obtain ⟨hf,hl,hg⟩ := h.shared.slots d n j hd
        exact ⟨hf,LockFiles.locks_lock_of_some hfree hl,hg⟩
      · refine ⟨fun _ hg => hg,rfl,fun j k _ hk => LockFiles.locks_lock_of_some hfree hk,
          fun _ _ _ hn => hn,?_⟩
        intro _ n j k _ hk
        rcases LockFiles.locks_lock_cases hk with ⟨-,rfl⟩ | hk
        · exact .inr ⟨w,rfl⟩
        · exact .inl hk
    · cases hs
  · cases hs
    refine h.of_frame ?_ rfl (fun d => ?_) rfl
      (opened_setWatcher h.opened rfl (Nat.le_refl _) (by simp))
    · refine ⟨h.shared.wf.close _,?_⟩
      intro d n j hd
      obtain ⟨hf,hl,hg⟩ := h.shared.slots d n j hd
      exact ⟨hf,LockFiles.locks_close_of_ne hl (by simp),hg⟩
    · refine ⟨fun _ hg => hg,rfl,?_,fun _ _ _ hn => hn,
        fun _ _ _ _ _ hk => .inl (LockFiles.locks_of_close hk).1⟩
      intro i k hk hi
      refine LockFiles.locks_close_of_ne hi ?_
      rintro rfl
      simp [Holder.cluster] at hk
  · cases hs

theorem die_inv (h : Inv r s) (pid : Nat) : Inv r (s.die pid) := by
  refine ⟨⟨h.shared.wf,?_⟩,?_,?_,h.opened⟩
  · intro d n i hd
    simp only [State.view,State.die] at hd
    split at hd
    · simp at hd
    · exact h.shared.slots d n i hd
  · intro d
    by_cases hd : d.pid = pid
    · have hp : (s.die pid).phase d = .dead := by simp [State.die,hd]
      rw [hp]
      constructor <;> simp [Phase.guard,Phase.awaited,Phase.target,Phase.swept,Phase.fresh,
        Phase.unclaimed,Phase.beyondClaim]
    · have hp : (s.die pid).phase d = s.phase d := by simp [State.die,hd]
      rw [hp]
      refine (h.fits d).frame ⟨fun _ hg => hg,?_,fun _ _ _ hi => hi,fun _ _ _ hn => hn,
        fun _ _ _ _ _ hk => .inl hk⟩
      simp [State.view,State.die,hd]
  · intro d hd
    by_cases hpid : d.pid = pid
    · simp [State.die,hpid]
    · have hd' : d.pid ∈ s.exited := by
        simpa [State.die,hpid] using hd
      simpa [State.die,hpid] using h.exited d hd'

/-- The kernel drops a lock of a process that is gone. -/
theorem release_inv {k : Holder} (h : Inv r s) (hk : k.cluster = some c)
    (hc : c.pid ∈ s.exited) : Inv r (s.close k) := by
  obtain ⟨hdead,hnone⟩ := h.exited c hc
  have hother : ∀ d, d ≠ c → ∀ k', k'.cluster = some d → k' ≠ k := by
    rintro d hd k' hk' rfl
    rw [hk] at hk'
    exact hd (Option.some.inj hk').symm
  refine ⟨⟨h.shared.wf.close k,?_⟩,?_,h.exited,h.opened⟩
  · intro d n i hd
    obtain ⟨hf,hl,hg⟩ := h.shared.slots d n i hd
    have hdc : d ≠ c := by
      rintro rfl
      rw [show (s.close k).view.slot d = none from hnone] at hd
      simp at hd
    exact ⟨hf,LockFiles.locks_close_of_ne hl (hother d hdc _ rfl),hg⟩
  · intro d
    by_cases hd : d = c
    · subst hd
      rw [show (s.close k).phase d = .dead from hdead]
      constructor <;> simp [Phase.guard,Phase.awaited,Phase.target,Phase.swept,Phase.fresh,
        Phase.unclaimed,Phase.beyondClaim]
    · refine (h.fits d).frame ⟨fun _ hg => hg,rfl,?_,fun _ _ _ hn => hn,
        fun _ _ _ _ _ hj => .inl (LockFiles.locks_of_close hj).1⟩
      intro i k' hk' hi
      exact LockFiles.locks_close_of_ne hi (hother d hd k' hk')

/-- Every step that keeps the claim guard keeps the invariant. -/
theorem step_inv {a : Action} {t : State} (h : Inv r s) (hs : step r s a = some t)
    (hkept : GuardKept s t) : Inv r t := by
  cases a with
  | claim c m => exact h.claimStep_inv hs
  | life c m => exact h.lifeStep_inv hs hkept
  | clean c m => exact h.cleanStep_inv hs hkept
  | watch w m => exact h.watchStep_inv hs
  | die pid =>
    cases hs
    exact h.die_inv pid
  | release k =>
    simp only [step] at hs
    split at hs
    · next c hc =>
      split at hs
      · next he =>
        cases hs
        exact h.release_inv hc (by simpa using he)
      · cases hs
    · cases hs

end Inv
end PgEmbedSetup.Root
