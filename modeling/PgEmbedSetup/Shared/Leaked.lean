import PgEmbedSetup.Shared.Registration

set_option autoImplicit false

/-! Which of the leaked clusters the process stops when it exits. -/

namespace PgEmbedSetup.Shared
open Library
open Cluster (readPostmasterProcess shutdownCallback)

/-! ### How far a thread's registration is -/

inductive Phase where
  | idle
  | claimed
  /-- The callback is registered, the slot not yet filled. -/
  | hooked
  deriving DecidableEq, Repr

def Phase.callbacks : Phase → Nat
  | .idle | .claimed => 0
  | .hooked => 1

def phases : Outline Op Reply Phase where
  ok
    | g, .reserve _ => g = .idle
    | g, .atexit | g, .rollback => g = .claimed
    | g, .commit _ => g = .hooked
    | _, _ => True
  next
    | _, .reserve _, first, g' => g' = if first then .claimed else .idle
    | _, .atexit, rc, g' => g' = if rc = 0 then .hooked else .claimed
    | _, .commit _, _, g' | _, .rollback, _, g' => g' = .idle
    | g, _, _, g' => g' = g
  final _ := True

variable {α : Type}

/-- A program that leaves the slot to others, or claims it and lets it go. -/
def Registers (p : Code α) : Prop := phases.wp p (fun _ g => g = .idle) .idle

theorem Registers.pure (a : α) : Registers (pure a : Code α) := rfl

theorem Registers.bind {β : Type} {p : Code α} {f : α → Code β} (hp : Registers p)
    (hf : ∀ a, Registers (f a)) : Registers (p >>= f) := by
  refine wp_bind.mpr (wp_mono hp ?_)
  intro a g hg
  subst hg
  exact hf a

theorem buildShutdownState_wp (h : ClusterHandle) : phases.wp (buildShutdownState h)
    (fun r g => g = match r with | .ok _ => .hooked | .error _ => .claimed) .claimed := by
  refine wp_perform_bind.mpr ⟨trivial,fun file g hg => ?_⟩
  have hclaimed : g = .claimed := hg
  subst hclaimed
  cases readPostmasterProcess file with
  | error e => rfl
  | ok pid =>
    refine wp_bind.mpr (wp_perform_bind.mpr ⟨rfl,fun rc g hg => ?_⟩)
    have hphase : g = if rc = 0 then .hooked else .claimed := hg
    subst hphase
    by_cases hrc : rc = 0
    · simp only [hrc,if_true,ne_eq,not_true_eq_false,if_false]
      rfl
    · simp only [hrc,if_false,ne_eq,not_false_eq_true,if_true]
      rfl

theorem registerShutdownHook_registers (h : ClusterHandle) :
    Registers (registerShutdownHook h) := by
  refine wp_perform_bind.mpr ⟨rfl,fun first g hg => ?_⟩
  have hphase : g = if first then .claimed else .idle := hg
  subst hphase
  cases first with
  | false => rfl
  | true =>
    refine wp_bind.mpr (wp_mono (buildShutdownState_wp h) ?_)
    intro r g hg
    subst hg
    cases r with
    | error e => exact ⟨rfl,fun _ g hg => hg⟩
    | ok state => exact ⟨rfl,fun _ g hg => hg⟩

theorem retryFrom_registers (p : RetryPolicy) (k : Singleton) (made left : Nat) :
    Registers (retryFrom p k made left) := by
  have hstart : Registers (call (.start k)) := ⟨trivial,fun _ g hg => hg⟩
  induction left generalizing made with
  | zero =>
    refine hstart.bind (fun r => ?_)
    cases r <;> exact Registers.pure _
  | succ left ih =>
    refine hstart.bind (fun r => ?_)
    cases r with
    | started h => exact Registers.pure _
    | failed e cause =>
      dsimp only
      split
      · exact Registers.bind ⟨trivial,fun _ g hg => hg⟩ (fun _ => ih (made+1))
      · exact Registers.pure _

theorem leakAfterShutdownHook_registers (h : ClusterHandle) :
    Registers (leakAfterShutdownHook h) := by
  refine (registerShutdownHook_registers h).bind (fun r => ?_)
  cases r with
  | error e => exact Registers.bind ⟨trivial,fun _ g hg => hg⟩ (fun _ => Registers.pure _)
  | ok u => exact Registers.bind ⟨trivial,fun _ g hg => hg⟩ (fun _ => Registers.pure _)

theorem initializeShared_registers (k : Singleton) : Registers (initializeShared k) := by
  refine (retryFrom_registers _ k _ _).bind (fun r => ?_)
  cases r with
  | error e => exact Registers.pure _
  | ok h => exact leakAfterShutdownHook_registers h

theorem shared_registers (k : Singleton) : Registers (shared k) := by
  have hunlock : ∀ state, Registers (call (.unlock k state)) :=
    fun state => ⟨trivial,fun _ g hg => hg⟩
  refine Registers.bind (p := call (.lock k)) ⟨trivial,fun _ g hg => hg⟩ (fun state => ?_)
  cases state with
  | initialized h => exact (hunlock _).bind (fun _ => Registers.pure _)
  | failed cached => exact (hunlock _).bind (fun _ => Registers.pure _)
  | uninitialized =>
    refine (initializeShared_registers k).bind (fun r => ?_)
    rcases r with ⟨cached,e⟩ | h
    · exact (hunlock _).bind (fun _ => Registers.pure _)
    · exact (hunlock _).bind (fun _ => Registers.pure _)

theorem thread_registers (calls : List Call) : Registers (thread calls) := by
  induction calls with
  | nil => exact Registers.pure ()
  | cons c rest ih =>
    refine Registers.bind ?_ (fun _ => ih)
    cases c with
    | sharedCluster => exact (shared_registers _).bind (fun _ => Registers.pure _)
    | sharedClusterHandle => exact (shared_registers _).bind (fun _ => Registers.pure _)
    | registerShutdownOnExit h =>
      exact (registerShutdownHook_registers h).bind (fun _ => Registers.pure _)
    | forget h => exact ⟨trivial,fun _ g hg => hg⟩

theorem thread_safe (calls : List Call) : phases.Safe (thread calls) .idle :=
  wp_mono (thread_registers calls) (fun _ _ _ => trivial)

/-! ### The slot and the threads -/

def AllIdle (ghosts : List Phase) : Prop := ∀ g ∈ ghosts, g = .idle

/-- One thread at most is busy with the slot, and what the process keeps fits the slot. -/
def Fits (w : World) (ghosts : List Phase) : Prop :=
  match w.slot with
  | .empty => w.callbacks = 0 ∧ w.accepted = [] ∧ AllIdle ghosts
  | .registering => w.accepted = [] ∧ ∃ i g, ghosts[i]? = some g ∧ g ≠ .idle ∧
      w.callbacks = g.callbacks ∧ AllIdle (ghosts.set i .idle)
  | .registered h => w.callbacks = 1 ∧ w.accepted.head? = some h ∧ AllIdle ghosts

/-- What had been accepted at a leak still is, in the same order. -/
def LeaksFit (w : World) : Prop := ∀ l ∈ w.leaks, ∃ later, w.accepted = l.accepted ++ later

theorem set_self {ghosts : List Phase} {i : Nat} {g : Phase} (h : ghosts[i]? = some g) :
    ghosts.set i g = ghosts := by
  obtain ⟨hi,rfl⟩ := List.getElem?_eq_some_iff.mp h
  exact List.set_getElem_self hi

theorem AllIdle.set {ghosts : List Phase} (h : AllIdle ghosts) (i : Nat) :
    AllIdle (ghosts.set i .idle) := by
  intro g hg
  rcases List.mem_or_eq_of_mem_set hg with hmem | rfl
  · exact h g hmem
  · rfl

/-- A thread that has claimed the slot is the only one that is busy. -/
theorem Fits.claimed {w : World} {ghosts : List Phase} {i : Nat} {g : Phase} (h : Fits w ghosts)
    (hg : ghosts[i]? = some g) (hbusy : g ≠ .idle) :
    w.slot = .registering ∧ w.accepted = [] ∧ w.callbacks = g.callbacks ∧
      AllIdle (ghosts.set i .idle) := by
  have hmem := List.mem_of_getElem? hg
  unfold Fits at h
  split at h
  · exact absurd (h.2.2 g hmem) hbusy
  · next hslot =>
    obtain ⟨haccepted,j,g',hg',hbusy',hcallbacks,hrest⟩ := h
    obtain rfl : j = i := by
      by_contra hne
      refine hbusy (hrest g (List.mem_of_getElem? (i := i) ?_))
      rw [List.getElem?_set_ne hne,hg]
    rw [hg] at hg'
    cases hg'
    exact ⟨hslot,haccepted,hcallbacks,hrest⟩
  · exact absurd (h.2.2 g hmem) hbusy

theorem LeaksFit.append {w w' : World} (h : LeaksFit w) (hleaks : w'.leaks = w.leaks)
    {new : List ClusterHandle} (haccepted : w'.accepted = w.accepted ++ new) : LeaksFit w' := by
  intro l hl
  rw [hleaks] at hl
  obtain ⟨later,hlater⟩ := h l hl
  exact ⟨later ++ new,by rw [haccepted,hlater,List.append_assoc]⟩

theorem LeaksFit.keep {w w' : World} (h : LeaksFit w) (hleaks : w'.leaks = w.leaks)
    (haccepted : w'.accepted = w.accepted) : LeaksFit w' :=
  h.append hleaks (haccepted.trans (List.append_nil _).symm)

theorem leaksFit_leak {w : World} (h : LeaksFit w) (c : ClusterHandle) :
    LeaksFit { w with leaks := w.leaks ++ [⟨c,w.accepted⟩] } := by
  intro l hl
  rcases List.mem_append.mp hl with hold | hnew
  · exact h l hold
  · obtain rfl := List.mem_singleton.mp hnew
    exact ⟨[],(List.append_nil _).symm⟩

def Tracked (w : World) (ghosts : List Phase) : Prop := LeaksFit w ∧ Fits w ghosts

theorem tracked_reserve {w w' : World} {ghosts : List Phase} {i : Nat} {h : ClusterHandle}
    {first : Bool} (hj : Tracked w ghosts) (hg : ghosts[i]? = some .idle)
    (ha : answer w (.reserve h) first = some w') :
    Tracked w' (ghosts.set i (if first then .claimed else .idle)) := by
  obtain ⟨hleaks,hfits⟩ := hj
  obtain ⟨hlt,_⟩ := List.getElem?_eq_some_iff.mp hg
  unfold Fits at hfits
  simp only [answer] at ha
  split at ha
  · next hslot =>
    rw [hslot] at hfits
    obtain ⟨hcallbacks,haccepted,hidle⟩ := hfits
    split at ha
    · next hfirst =>
      cases ha
      refine ⟨hleaks,haccepted,i,.claimed,?_,by decide,hcallbacks,?_⟩
      · rw [if_pos hfirst,List.getElem?_set_self hlt]
      · rw [List.set_set]
        exact hidle.set i
    · cases ha
  · next c hslot =>
    rw [hslot] at hfits
    obtain ⟨hcallbacks,hhead,hidle⟩ := hfits
    split at ha
    · cases ha
    · next hfirst =>
      cases ha
      refine ⟨hleaks.append rfl rfl,?_⟩
      rw [if_neg hfirst,set_self hg]
      simp only [Fits,hslot]
      exact ⟨hcallbacks,by simp [List.head?_append,hhead],hidle⟩
  · cases ha

theorem tracked_atexit {w : World} {ghosts : List Phase} {i : Nat} {rc : Int}
    (hj : Tracked w ghosts) (hg : ghosts[i]? = some .claimed) :
    Tracked { w with callbacks := if rc = 0 then w.callbacks+1 else w.callbacks }
      (ghosts.set i (if rc = 0 then .hooked else .claimed)) := by
  obtain ⟨hleaks,hfits⟩ := hj
  obtain ⟨hlt,_⟩ := List.getElem?_eq_some_iff.mp hg
  obtain ⟨hslot,haccepted,hcallbacks,hidle⟩ := hfits.claimed hg (by decide)
  refine ⟨hleaks.keep rfl rfl,?_⟩
  simp only [Fits,hslot]
  refine ⟨haccepted,i,_,List.getElem?_set_self hlt,?_,?_,?_⟩
  · split <;> decide
  · rw [hcallbacks]
    split <;> rfl
  · rwa [List.set_set]

theorem tracked_commit {w : World} {ghosts : List Phase} {i : Nat} {h : ClusterHandle}
    (hj : Tracked w ghosts) (hg : ghosts[i]? = some .hooked) :
    Tracked { w with slot := .registered h, accepted := w.accepted ++ [h] }
      (ghosts.set i .idle) := by
  obtain ⟨hleaks,hfits⟩ := hj
  obtain ⟨_,haccepted,hcallbacks,hidle⟩ := hfits.claimed hg (by decide)
  exact ⟨hleaks.append rfl rfl,hcallbacks,by simp [haccepted],hidle⟩

theorem tracked_rollback {w : World} {ghosts : List Phase} {i : Nat} (hj : Tracked w ghosts)
    (hg : ghosts[i]? = some .claimed) :
    Tracked { w with slot := .empty } (ghosts.set i .idle) := by
  obtain ⟨hleaks,hfits⟩ := hj
  obtain ⟨_,haccepted,hcallbacks,hidle⟩ := hfits.claimed hg (by decide)
  exact ⟨hleaks.keep rfl rfl,hcallbacks,haccepted,hidle⟩

theorem phases_preserves : Preserves machine phases Tracked (fun _ _ => True) := by
  refine ⟨?_,?_,?_⟩
  · intro s i op r w ghosts g _ ha hj hg hok
    have hkeep : ∀ w', Tracked w' ghosts → ∃ g' new, g' = g ∧ List.Forall₂ phases.Safe [] new ∧
        Tracked w' (ghosts.set i g' ++ new) := by
      intro w' hw
      exact ⟨g,[],rfl,.nil,by rwa [set_self hg,List.append_nil]⟩
    cases op with
    | reserve h =>
      cases (show g = .idle from hok)
      exact ⟨_,[],rfl,.nil,by rw [List.append_nil]; exact tracked_reserve hj hg ha⟩
    | atexit =>
      cases (show g = .claimed from hok)
      cases ha
      exact ⟨_,[],rfl,.nil,by rw [List.append_nil]; exact tracked_atexit hj hg⟩
    | commit h =>
      cases (show g = .hooked from hok)
      cases ha
      exact ⟨_,[],rfl,.nil,by rw [List.append_nil]; exact tracked_commit hj hg⟩
    | rollback =>
      cases (show g = .claimed from hok)
      cases ha
      exact ⟨_,[],rfl,.nil,by rw [List.append_nil]; exact tracked_rollback hj hg⟩
    | leak h =>
      cases ha
      exact hkeep _ ⟨leaksFit_leak hj.1 h,hj.2⟩
    | lock k =>
      simp only [machine,answer] at ha
      split at ha
      · cases ha
      · split at ha
        · cases ha
          exact hkeep _ hj
        · cases ha
    | _ =>
      cases ha
      exact hkeep _ hj
  · intro s i ghosts _ hj
    -- A thread that ends within its registration keeps the slot to itself.
    by_cases hi : i < ghosts.length
    · refine ⟨ghosts[i],trivial,?_⟩
      rw [List.set_getElem_self]
      exact hj
    · refine ⟨.idle,trivial,?_⟩
      rw [List.set_eq_of_length_le (by omega)]
      exact hj
  · intro s e
    exact e.elim

theorem processes_tracked {s : State} (h : processes.Reachable s) :
    ∃ ghosts, Tracked s.world ghosts := by
  have hinit : ∀ s, processes.init s → Outlined phases Tracked s := by
    rintro s ⟨calls,rfl⟩
    refine ⟨calls.map (fun _ => .idle),?_,?_,rfl,rfl,?_⟩
    · induction calls with
      | nil => exact .nil
      | cons c rest ih => exact .cons (thread_safe c) ih
    · exact fun l hl => by cases hl
    · intro g hg
      obtain ⟨_,_,rfl⟩ := List.mem_map.mp hg
      rfl
  obtain ⟨ghosts,_,hj⟩ := outlined_reachable phases_preserves hinit
    (processes.reachable_restrict (fun _ _ => trivial) h)
  exact ⟨ghosts,hj⟩

/-! ### At exit -/

/-- The callback works on the cluster registered first, and there is one callback at most. -/
theorem exitTargets_fits {w : World} {ghosts : List Phase} (h : Fits w ghosts) :
    exitTargets w = w.accepted.head?.toList := by
  unfold Fits at h
  split at h
  · next hslot => simp [exitTargets,shutdownWork,hslot,h.2.1]
  · next hslot => simp [exitTargets,shutdownWork,hslot,h.1]
  · next hslot => simp [exitTargets,shutdownWork,hslot,h.1,h.2.1]

/-- The `n`th cluster a process starts. -/
def clusterAt (n : Nat) : ClusterHandle where
  settings := {
    dataDir := ⟨true,[.name "clusters".toList,.name (decimal n)]⟩
    installationDir := ⟨true,[.name "install".toList]⟩
    passwordFile := ⟨true,[.name "clusters".toList,.name ".pgpass".toList]⟩ }
  shutdownTimeout := 15000
  cleanupMode := .dataOnly

/-- The steps of a first and of a later singleton's initialisation. -/
def firstSingleton (k : Singleton) (h : ClusterHandle) : List Action :=
  [.advance 0 (.lock k) .uninitialized,.advance 0 (.start k) (.started h),
    .advance 0 (.reserve h) true,.advance 0 (.readPidFile h.settings) .missing,
    .advance 0 .atexit (0 : Int),.advance 0 (.commit h) (),.advance 0 (.leak h) (),
    .advance 0 (.unlock k (some (.initialized h))) ()]

def laterSingleton (k : Singleton) (h : ClusterHandle) : List Action :=
  [.advance 0 (.lock k) .uninitialized,.advance 0 (.start k) (.started h),
    .advance 0 (.reserve h) false,.advance 0 (.leak h) (),
    .advance 0 (.unlock k (some (.initialized h))) ()]

theorem processes_reach (calls : List (List Call)) (as : List Action) (wanted : State → Bool)
    (h : (machine.run (fun _ _ => true) ⟨World.initial,calls.map thread⟩ as).any wanted = true) :
    ∃ s, (processes.restrict (fun _ _ => true = true)).Reachable s ∧ wanted s = true :=
  machine.run_reaches (fun _ _ => true) (fun _ _ hmeets => hmeets) ⟨calls,rfl⟩ as wanted h

theorem bothSingletons_run : ∃ s, processes.Reachable s ∧
    s.world.leaks = [⟨clusterAt 1,[clusterAt 1]⟩,⟨clusterAt 2,[clusterAt 1,clusterAt 2]⟩] ∧
    exitTargets s.world = [clusterAt 1] := by
  obtain ⟨s,hreach,hwanted⟩ := processes_reach [[.sharedCluster,.sharedClusterHandle]]
    (firstSingleton .cluster (clusterAt 1) ++ laterSingleton .handle (clusterAt 2))
    (fun s => s.world.leaks =
      [⟨clusterAt 1,[clusterAt 1]⟩,⟨clusterAt 2,[clusterAt 1,clusterAt 2]⟩] ∧
      exitTargets s.world = [clusterAt 1]) (by decide)
  simp only [decide_eq_true_eq] at hwanted
  exact ⟨s,System.reachable_of_restrict _ hreach,hwanted⟩

end PgEmbedSetup.Shared
