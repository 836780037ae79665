import PgEmbedSetup.Library.Monitor
import PgEmbedSetup.Shared.Registration

set_option autoImplicit false

/-!
`register_shutdown_hook` in any number of threads, step by step: the mutex over the slot, the
condition variable, and the work in between that is done without the mutex.
-/

namespace PgEmbedSetup.Shared.Hook
open Library
open Cluster (FileRead readPostmasterProcess)

/-- Where a thread is. `o` is how its attempt ended. -/
inductive Point where
  | idle
  /-- `SHUTDOWN_STATE.lock()` of `reserve`. -/
  | reserving (h : ClusterHandle)
  /-- At the head of the loop, with the mutex. -/
  | inspecting (h : ClusterHandle)
  | waiting (h : ClusterHandle)
  /-- `reserve` returns and drops the mutex. -/
  | reserved (h : ClusterHandle)
  | declined (h : ClusterHandle)
  | preflight (h : ClusterHandle)
  | atexit (h : ClusterHandle)
  /-- `SHUTDOWN_STATE.lock()` of `commit` or `rollback`. -/
  | settling (h : ClusterHandle) (o : Except BootstrapError Unit)
  | storing (h : ClusterHandle) (o : Except BootstrapError Unit)
  | stored (h : ClusterHandle) (o : Except BootstrapError Unit)
  | notified (h : ClusterHandle) (o : Except BootstrapError Unit)
  | returned (h : ClusterHandle) (o : Except BootstrapError Unit)

def commitShutdownRegistration (h : ClusterHandle) : Point := .settling h (.ok ())

def rollbackShutdownRegistration (h : ClusterHandle) (e : BootstrapError) : Point :=
  .settling h (.error e)

/-- What `commit` and `rollback` leave in the slot. -/
def left (h : ClusterHandle) : Except BootstrapError Unit → ShutdownRegistrationState
  | .ok () => .registered h
  | .error _ => .empty

/-- `callbacks` counts the calls of `atexit` that succeeded. -/
structure State (ι : Type) where
  slot : ShutdownRegistrationState
  callbacks : Nat
  monitor : Monitor ι
  point : ι → Point

inductive Action (ι : Type) where
  | call (i : ι) (h : ClusterHandle)
  /-- The thread goes on with what only the mutex and the slot decide. -/
  | advance (i : ι)
  | readPidFile (i : ι) (file : FileRead)
  | atexit (i : ι) (rc : Int)
  /-- A spurious wake-up. -/
  | wake (i : ι)

section Step
variable {ι : Type} [DecidableEq ι]

def State.goto (s : State ι) (i : ι) (p : Point) : State ι :=
  { s with point := Function.update s.point i p }

@[simp] theorem goto_point (s : State ι) (i j : ι) (p : Point) :
    (s.goto i p).point j = if j = i then p else s.point j := by
  simp [State.goto,Function.update_apply]

@[simp] theorem goto_slot (s : State ι) (i : ι) (p : Point) : (s.goto i p).slot = s.slot := rfl

@[simp] theorem goto_monitor (s : State ι) (i : ι) (p : Point) :
    (s.goto i p).monitor = s.monitor := rfl

@[simp] theorem goto_callbacks (s : State ι) (i : ι) (p : Point) :
    (s.goto i p).callbacks = s.callbacks := rfl

def State.enter (s : State ι) (i : ι) (p : Point) (m : Option (Monitor ι)) : Option (State ι) :=
  m.map fun m => { s with monitor := m, point := Function.update s.point i p }

def advance (s : State ι) (i : ι) : Option (State ι) :=
  match s.point i with
  | .reserving h => s.enter i (.inspecting h) (s.monitor.lock i)
  | .inspecting h =>
    match s.slot with
    | .empty => some { s.goto i (.reserved h) with slot := .registering }
    | .registered _ => some (s.goto i (.declined h))
    | .registering => s.enter i (.waiting h) (s.monitor.wait i)
  | .waiting h => s.enter i (.inspecting h) (s.monitor.resume i)
  | .reserved h => s.enter i (.preflight h) (s.monitor.unlock i)
  | .declined h => s.enter i (.returned h (.ok ())) (s.monitor.unlock i)
  | .settling h o => s.enter i (.storing h o) (s.monitor.lock i)
  | .storing h o => some { s.goto i (.stored h o) with slot := left h o }
  | .stored h o => some { s.goto i (.notified h o) with monitor := s.monitor.notifyAll }
  | .notified h o => s.enter i (.returned h o) (s.monitor.unlock i)
  | .idle | .preflight _ | .atexit _ | .returned _ _ => none

def step (s : State ι) : Action ι → Option (State ι)
  | .call i h =>
    match s.point i with
    | .idle | .returned _ _ => some (s.goto i (.reserving h))
    | _ => none
  | .advance i => advance s i
  | .readPidFile i file =>
    match s.point i with
    | .preflight h =>
      match readPostmasterProcess file with
      | .error () => some (s.goto i (rollbackShutdownRegistration h ⟨.other,.pidFile h.settings⟩))
      | .ok _ => some (s.goto i (.atexit h))
    | _ => none
  | .atexit i rc =>
    match s.point i with
    | .atexit h =>
      if rc ≠ 0 then some (s.goto i (rollbackShutdownRegistration h ⟨.other,.atexit rc⟩))
      else some { s.goto i (commitShutdownRegistration h) with callbacks := s.callbacks+1 }
    | _ => none
  | .wake i => (s.monitor.wake i).map fun m => { s with monitor := m }

def State.initial : State ι := ⟨.empty,0,.free,fun _ => .idle⟩

def threads : System (State ι) (Action ι) := .ofStep (· = State.initial) step

end Step

/-! ### What a step can do -/

section Moves
variable {ι : Type} [DecidableEq ι]

inductive Moves (s : State ι) : State ι → Prop where
  | call {i : ι} (h : ClusterHandle)
      (hp : s.point i = .idle ∨ ∃ h' o, s.point i = .returned h' o) :
      Moves s (s.goto i (.reserving h))
  | lock {i : ι} {h : ClusterHandle} {m : Monitor ι} (hp : s.point i = .reserving h)
      (hm : s.monitor.lock i = some m) : Moves s { s.goto i (.inspecting h) with monitor := m }
  | claim {i : ι} {h : ClusterHandle} (hp : s.point i = .inspecting h) (hslot : s.slot = .empty) :
      Moves s { s.goto i (.reserved h) with slot := .registering }
  | decline {i : ι} {h w : ClusterHandle} (hp : s.point i = .inspecting h)
      (hslot : s.slot = .registered w) : Moves s (s.goto i (.declined h))
  | wait {i : ι} {h : ClusterHandle} {m : Monitor ι} (hp : s.point i = .inspecting h)
      (hslot : s.slot = .registering) (hm : s.monitor.wait i = some m) :
      Moves s { s.goto i (.waiting h) with monitor := m }
  | resume {i : ι} {h : ClusterHandle} {m : Monitor ι} (hp : s.point i = .waiting h)
      (hm : s.monitor.resume i = some m) : Moves s { s.goto i (.inspecting h) with monitor := m }
  | reserve {i : ι} {h : ClusterHandle} {m : Monitor ι} (hp : s.point i = .reserved h)
      (hm : s.monitor.unlock i = some m) : Moves s { s.goto i (.preflight h) with monitor := m }
  | skip {i : ι} {h : ClusterHandle} {m : Monitor ι} (hp : s.point i = .declined h)
      (hm : s.monitor.unlock i = some m) :
      Moves s { s.goto i (.returned h (.ok ())) with monitor := m }
  | settle {i : ι} {h : ClusterHandle} {o : Except BootstrapError Unit} {m : Monitor ι}
      (hp : s.point i = .settling h o) (hm : s.monitor.lock i = some m) :
      Moves s { s.goto i (.storing h o) with monitor := m }
  | store {i : ι} {h : ClusterHandle} {o : Except BootstrapError Unit}
      (hp : s.point i = .storing h o) : Moves s { s.goto i (.stored h o) with slot := left h o }
  | notify {i : ι} {h : ClusterHandle} {o : Except BootstrapError Unit}
      (hp : s.point i = .stored h o) :
      Moves s { s.goto i (.notified h o) with monitor := s.monitor.notifyAll }
  | leave {i : ι} {h : ClusterHandle} {o : Except BootstrapError Unit} {m : Monitor ι}
      (hp : s.point i = .notified h o) (hm : s.monitor.unlock i = some m) :
      Moves s { s.goto i (.returned h o) with monitor := m }
  | unreadable {i : ι} {h : ClusterHandle} (hp : s.point i = .preflight h) :
      Moves s (s.goto i (rollbackShutdownRegistration h ⟨.other,.pidFile h.settings⟩))
  | readable {i : ι} {h : ClusterHandle} (hp : s.point i = .preflight h) :
      Moves s (s.goto i (.atexit h))
  | refused {i : ι} {h : ClusterHandle} {rc : Int} (hp : s.point i = .atexit h) (hrc : rc ≠ 0) :
      Moves s (s.goto i (rollbackShutdownRegistration h ⟨.other,.atexit rc⟩))
  | registered {i : ι} {h : ClusterHandle} (hp : s.point i = .atexit h) :
      Moves s { s.goto i (commitShutdownRegistration h) with callbacks := s.callbacks+1 }
  | wake {i : ι} {m : Monitor ι} (hm : s.monitor.wake i = some m) :
      Moves s { s with monitor := m }

theorem enter_eq_some {s t : State ι} {i : ι} {p : Point} {m : Option (Monitor ι)} :
    s.enter i p m = some t ↔ ∃ m', m = some m' ∧ t = { s.goto i p with monitor := m' } := by
  simp [State.enter,State.goto,eq_comm]

theorem advance_moves {s t : State ι} {i : ι} (h : advance s i = some t) : Moves s t := by
  unfold advance at h
  split at h
  · next hp =>
    obtain ⟨m,hm,rfl⟩ := enter_eq_some.mp h
    exact .lock hp hm
  · next hp =>
    split at h
    · next hslot =>
      cases h
      exact .claim hp hslot
    · next hslot =>
      cases h
      exact .decline hp hslot
    · next hslot =>
      obtain ⟨m,hm,rfl⟩ := enter_eq_some.mp h
      exact .wait hp hslot hm
  · next hp =>
    obtain ⟨m,hm,rfl⟩ := enter_eq_some.mp h
    exact .resume hp hm
  · next hp =>
    obtain ⟨m,hm,rfl⟩ := enter_eq_some.mp h
    exact .reserve hp hm
  · next hp =>
    obtain ⟨m,hm,rfl⟩ := enter_eq_some.mp h
    exact .skip hp hm
  · next hp =>
    obtain ⟨m,hm,rfl⟩ := enter_eq_some.mp h
    exact .settle hp hm
  · next hp =>
    cases h
    exact .store hp
  · next hp =>
    cases h
    exact .notify hp
  · next hp =>
    obtain ⟨m,hm,rfl⟩ := enter_eq_some.mp h
    exact .leave hp hm
  all_goals cases h

theorem step_moves {s t : State ι} {a : Action ι} (h : step s a = some t) : Moves s t := by
  cases a with
  | call i c =>
    unfold step at h
    dsimp only at h
    split at h
    · next hp =>
      cases h
      exact .call c (.inl hp)
    · next hp =>
      cases h
      exact .call c (.inr ⟨_,_,hp⟩)
    · cases h
  | advance i => exact advance_moves h
  | readPidFile i file =>
    unfold step at h
    dsimp only at h
    split at h
    · next hp =>
      split at h
      · cases h
        exact .unreadable hp
      · cases h
        exact .readable hp
    · cases h
  | atexit i rc =>
    unfold step at h
    dsimp only at h
    split at h
    · next hp =>
      split at h
      · next hrc =>
        cases h
        exact .refused hp hrc
      · cases h
        exact .registered hp
    · cases h
  | wake i =>
    obtain ⟨m,hm,rfl⟩ := Option.map_eq_some_iff.mp h
    exact .wake hm

end Moves

/-! ### The invariant -/

/-- With the mutex. -/
def Point.holds : Point → Bool
  | .inspecting _ | .reserved _ | .declined _ | .storing _ _ | .stored _ _ | .notified _ _ => true
  | .idle | .reserving _ | .waiting _ | .preflight _ | .atexit _ | .settling _ _
  | .returned _ _ => false

/-- With the slot. -/
def Point.claims : Point → Bool
  | .reserved _ | .preflight _ | .atexit _ | .settling _ _ | .storing _ _ => true
  | .idle | .reserving _ | .inspecting _ | .waiting _ | .declined _ | .stored _ _ | .notified _ _
  | .returned _ _ => false

def Point.waits : Point → Bool
  | .waiting _ => true
  | .idle | .reserving _ | .inspecting _ | .reserved _ | .declined _ | .preflight _ | .atexit _
  | .settling _ _ | .storing _ _ | .stored _ _ | .notified _ _ | .returned _ _ => false

/-- What the point says of the slot. -/
def Point.Shows (slot : ShutdownRegistrationState) : Point → Prop
  | .reserved _ | .preflight _ | .atexit _ | .settling _ _ | .storing _ _ => slot = .registering
  | .stored h o | .notified h o => slot = left h o
  | .declined _ | .returned _ (.ok ()) => ∃ w, slot = .registered w
  | .idle | .reserving _ | .inspecting _ | .waiting _ | .returned _ (.error _) => True

/-- How many callbacks there are while the thread has the slot. -/
def Point.callbacks : Point → Nat
  | .settling _ (.ok ()) | .storing _ (.ok ()) => 1
  | .settling _ (.error _) | .storing _ (.error _) | .idle | .reserving _ | .inspecting _
  | .waiting _ | .reserved _ | .declined _ | .preflight _ | .atexit _ | .stored _ _
  | .notified _ _ | .returned _ _ => 0

/-- How many callbacks there are while no thread has the slot. -/
def settledCallbacks : ShutdownRegistrationState → Nat
  | .registered _ => 1
  | .empty | .registering => 0

attribute [grind =] Point.holds Point.claims Point.waits Monitor.lock_eq_some
  Monitor.unlock_eq_some Monitor.wait_eq_some Monitor.wake_eq_some Monitor.resume_eq_some
  goto_point goto_monitor

attribute [simp] Point.claims Point.Shows Point.callbacks

theorem left_ne_registering (h : ClusterHandle) (o : Except BootstrapError Unit) :
    left h o ≠ .registering := by
  cases o <;> simp [left]

theorem Point.shows_of_claims {p : Point} (hp : p.claims = true)
    {slot : ShutdownRegistrationState} (h : p.Shows slot) : slot = .registering := by
  cases p <;> simp_all

theorem Point.shows_of_registering {p : Point} (hp : p.claims = true)
    {slot : ShutdownRegistrationState} (h : slot = .registering) : p.Shows slot := by
  cases p <;> simp_all

/-- Who neither has the slot nor the mutex says no more of the slot than that it is registered. -/
theorem Point.shows_of_idle {p : Point} (hclaims : p.claims = false) (hholds : p.holds = false)
    {slot slot' : ShutdownRegistrationState} (hslot : ∀ w, slot ≠ .registered w)
    (h : p.Shows slot) : p.Shows slot' := by
  cases p with
  | returned c o =>
    cases o with
    | error e => trivial
    | ok u =>
      obtain ⟨w,hw⟩ := h
      exact absurd hw (hslot w)
  | idle | reserving | waiting => trivial
  | inspecting | reserved | declined | storing | stored | notified => cases hholds
  | preflight | atexit | settling => cases hclaims

section Invariant
variable {ι : Type} [DecidableEq ι]

structure Sound (s : State ι) : Prop where
  holder : ∀ i, s.monitor.holder = some i ↔ (s.point i).holds = true
  waits : ∀ i, s.monitor.waiting i = .no ↔ (s.point i).waits = false
  claimed : s.slot = .registering → ∃ i, (s.point i).claims = true
  alone : ∀ i j, (s.point i).claims = true → (s.point j).claims = true → i = j
  shows : ∀ i, (s.point i).Shows s.slot
  claiming : ∀ i, (s.point i).claims = true → s.callbacks = (s.point i).callbacks
  settled : s.slot ≠ .registering → s.callbacks = settledCallbacks s.slot
  remembered : s.monitor.NoneForgotten (s.slot = .registering)
    (fun i => ∃ h o, s.point i = .stored h o)
  quiet : ∀ i h o, s.point i = .notified h o → ∀ j, s.monitor.waiting j ≠ .unnotified

variable {s t : State ι}

omit [DecidableEq ι] in
theorem Sound.registering (hs : Sound s) {i : ι} (hi : (s.point i).claims = true) :
    s.slot = .registering :=
  Point.shows_of_claims hi (hs.shows i)

theorem holder_moves (hs : Sound s) (hmoves : Moves s t) :
    ∀ i, t.monitor.holder = some i ↔ (t.point i).holds = true := by
  have hholder := hs.holder
  cases hmoves <;>
    grind [commitShutdownRegistration,rollbackShutdownRegistration,Monitor.notifyAll]

theorem waits_moves (hs : Sound s) (hmoves : Moves s t) :
    ∀ i, t.monitor.waiting i = .no ↔ (t.point i).waits = false := by
  have hwaits := hs.waits
  cases hmoves with
  | wait hp hslot hm =>
    have hwaiting := Monitor.wait_waiting hm
    grind
  | resume hp hm =>
    have hwaiting := Monitor.resume_waiting hm
    grind
  | wake hm =>
    have hwaiting := Monitor.wake_waiting hm
    grind
  | _ => grind [commitShutdownRegistration,rollbackShutdownRegistration,Monitor.notifyAll]

/-- The slot is claimed while it is empty, and given back by who has it. -/
theorem slot_moves (hmoves : Moves s t) :
    (t.slot = s.slot ∧ ∀ j, (t.point j).claims = (s.point j).claims) ∨
    (s.slot = .empty ∧ t.slot = .registering ∧ ∃ i h, s.point i = .inspecting h ∧
      ∀ j, t.point j = if j = i then .reserved h else s.point j) ∨
    ∃ i h o, s.point i = .storing h o ∧ t.slot = left h o ∧
      ∀ j, t.point j = if j = i then .stored h o else s.point j := by
  cases hmoves with
  | claim hp hslot => exact .inr (.inl ⟨hslot,rfl,_,_,hp,fun j => goto_point s _ j _⟩)
  | store hp => exact .inr (.inr ⟨_,_,_,hp,rfl,fun j => goto_point s _ j _⟩)
  | _ => exact .inl ⟨rfl,by grind [commitShutdownRegistration,rollbackShutdownRegistration]⟩

theorem claimed_moves (hs : Sound s) (hmoves : Moves s t) (hslot : t.slot = .registering) :
    ∃ i, (t.point i).claims = true := by
  rcases slot_moves hmoves with ⟨hsame,hclaims⟩ | ⟨-,-,i,h,-,hpoint⟩ | ⟨i,h,o,-,hleft,-⟩
  · obtain ⟨i,hi⟩ := hs.claimed (hsame ▸ hslot)
    exact ⟨i,(hclaims i).trans hi⟩
  · exact ⟨i,by simp [hpoint]⟩
  · exact absurd (hleft ▸ hslot) (left_ne_registering h o)

theorem alone_moves (hs : Sound s) (hmoves : Moves s t) :
    ∀ i j, (t.point i).claims = true → (t.point j).claims = true → i = j := by
  intro j k hj hk
  rcases slot_moves hmoves with ⟨-,hclaims⟩ | ⟨hempty,-,i,h,-,hpoint⟩ | ⟨i,h,o,-,-,hpoint⟩
  · exact hs.alone j k ((hclaims j).symm.trans hj) ((hclaims k).symm.trans hk)
  · -- nobody had the slot while it was empty
    have honly : ∀ l, (t.point l).claims = true → l = i := by
      intro l hl
      by_contra hne
      rw [hpoint,if_neg hne] at hl
      exact absurd (hs.registering hl) (by simp [hempty])
    rw [honly j hj,honly k hk]
  · have hbefore : ∀ l, (t.point l).claims = true → (s.point l).claims = true := by
      intro l hl
      rw [hpoint] at hl
      split at hl
      · cases hl
      · exact hl
    exact hs.alone j k (hbefore j hj) (hbefore k hk)

theorem shows_goto (hs : Sound s) {i : ι} {p : Point} (hp : p.Shows s.slot) (j : ι) :
    ((s.goto i p).point j).Shows s.slot := by
  rw [goto_point]
  split
  · exact hp
  · exact hs.shows j

/-- Who has the slot goes on with it. -/
theorem shows_claiming (hs : Sound s) {i : ι} (hi : (s.point i).claims = true) (p : Point)
    (hp : p.claims = true) (j : ι) : ((s.goto i p).point j).Shows s.slot :=
  shows_goto hs (Point.shows_of_registering hp (hs.registering hi)) j

omit [DecidableEq ι] in
/-- While one thread has the mutex and the slot is not registered, the others say nothing. -/
theorem shows_other (hs : Sound s) {i j : ι} (hi : (s.point i).holds = true) (hj : j ≠ i)
    (hclaims : (s.point j).claims = false) (hslot : ∀ w, s.slot ≠ .registered w)
    (slot : ShutdownRegistrationState) : (s.point j).Shows slot := by
  refine Point.shows_of_idle hclaims ?_ hslot (hs.shows j)
  by_contra hholds
  have hholder := (hs.holder j).mpr (by simpa using hholds)
  rw [(hs.holder i).mpr hi,Option.some.injEq] at hholder
  exact hj hholder.symm

theorem shows_moves (hs : Sound s) (hmoves : Moves s t) : ∀ i, (t.point i).Shows t.slot := by
  intro j
  cases hmoves with
  | call h hp => exact shows_goto hs (p := .reserving h) trivial j
  | @lock i h m hp hm => exact shows_goto hs (p := .inspecting h) trivial j
  | @claim i h hp hslot =>
    change ((s.goto i (.reserved h)).point j).Shows .registering
    rw [goto_point]
    split
    · rfl
    · next hj =>
      refine shows_other hs (by rw [hp]; rfl) hj ?_ (by simp [hslot]) _
      by_contra hclaims
      exact absurd (hs.registering (by simpa using hclaims)) (by simp [hslot])
  | @decline i h w hp hslot => exact shows_goto hs (p := .declined h) ⟨w,hslot⟩ j
  | @wait i h m hp hslot hm => exact shows_goto hs (p := .waiting h) trivial j
  | @resume i h m hp hm => exact shows_goto hs (p := .inspecting h) trivial j
  | @reserve i h m hp hm => exact shows_claiming hs (by rw [hp]; rfl) (.preflight h) rfl j
  | @skip i h m hp hm =>
    have hi := hs.shows i
    rw [hp] at hi
    exact shows_goto hs (p := .returned h (.ok ())) hi j
  | @settle i h o m hp hm => exact shows_claiming hs (by rw [hp]; rfl) (.storing h o) rfl j
  | @store i h o hp =>
    change ((s.goto i (.stored h o)).point j).Shows (left h o)
    have hi : (s.point i).claims = true := by rw [hp]; rfl
    rw [goto_point]
    split
    · rfl
    · next hj =>
      refine shows_other hs (by rw [hp]; rfl) hj ?_ (by simp [hs.registering hi]) _
      by_contra hclaims
      exact hj (hs.alone j i (by simpa using hclaims) hi)
  | @notify i h o hp =>
    have hi := hs.shows i
    rw [hp] at hi
    exact shows_goto hs (p := .notified h o) hi j
  | @leave i h o m hp hm =>
    have hi := hs.shows i
    rw [hp] at hi
    refine shows_goto hs (p := .returned h o) ?_ j
    cases o with
    | error e => trivial
    | ok u => exact ⟨h,hi⟩
  | unreadable hp => exact shows_claiming hs (by rw [hp]; rfl) _ rfl j
  | readable hp => exact shows_claiming hs (by rw [hp]; rfl) _ rfl j
  | refused hp hrc => exact shows_claiming hs (by rw [hp]; rfl) _ rfl j
  | @registered i h hp =>
    exact shows_claiming hs (by rw [hp]; rfl) (commitShutdownRegistration h) rfl j
  | wake hm => exact hs.shows j

/-- One callback is registered by who has the slot and does not fail. -/
theorem callbacks_moves (hmoves : Moves s t) :
    (t.callbacks = s.callbacks ∧ ∀ j, (t.point j).claims = true →
      (s.point j).claims = true → (t.point j).callbacks = (s.point j).callbacks) ∨
    ∃ i h, s.point i = .atexit h ∧ t.callbacks = s.callbacks+1 ∧ t.slot = s.slot ∧
      ∀ j, t.point j = if j = i then .settling h (.ok ()) else s.point j := by
  cases hmoves with
  | registered hp => exact .inr ⟨_,_,hp,rfl,rfl,fun j => goto_point s _ j _⟩
  | @settle i h o m hp hm =>
    refine .inl ⟨rfl,fun j hj _ => ?_⟩
    simp only [goto_point] at hj ⊢
    split
    · next hji =>
      rw [hji,hp]
      cases o <;> rfl
    · rfl
  | _ =>
    refine .inl ⟨rfl,?_⟩
    grind [commitShutdownRegistration,rollbackShutdownRegistration,Point.callbacks]

theorem claiming_moves (hs : Sound s) (hmoves : Moves s t) :
    ∀ i, (t.point i).claims = true → t.callbacks = (t.point i).callbacks := by
  intro j hj
  rcases callbacks_moves hmoves with ⟨hsame,hpoints⟩ | ⟨i,h,hp,hone,-,hpoint⟩
  · by_cases hbefore : (s.point j).claims = true
    · rw [hsame,hpoints j hj hbefore,hs.claiming j hbefore]
    · -- the slot was empty until this step
      rcases slot_moves hmoves with ⟨-,hclaims⟩ | ⟨hempty,-,i,h,-,hpoint⟩ | ⟨i,h,o,hp,-,hpoint⟩
      · exact absurd ((hclaims j).symm.trans hj) hbefore
      · rw [hsame,hs.settled (by simp [hempty]),hempty]
        rw [hpoint] at hj ⊢
        by_cases hji : j = i
        · rw [if_pos hji]
          rfl
        · rw [if_neg hji] at hj
          exact absurd hj hbefore
      · rw [hpoint] at hj
        split at hj
        · cases hj
        · exact absurd hj hbefore
  · rw [hpoint] at hj ⊢
    have hi : (s.point i).claims = true := by rw [hp]; rfl
    by_cases hji : j = i
    · rw [if_pos hji,hone,hs.claiming i hi,hp]
      rfl
    · rw [if_neg hji] at hj
      exact absurd (hs.alone j i hj hi) hji

theorem settled_moves (hs : Sound s) (hmoves : Moves s t) (hslot : t.slot ≠ .registering) :
    t.callbacks = settledCallbacks t.slot := by
  rcases callbacks_moves hmoves with ⟨hsame,-⟩ | ⟨i,h,hp,-,hsame,-⟩
  · rcases slot_moves hmoves with ⟨hslot',-⟩ | ⟨-,hreg,-⟩ | ⟨i,h,o,hp,hleft,-⟩
    · rw [hsame,hslot']
      exact hs.settled (hslot' ▸ hslot)
    · exact absurd hreg hslot
    · rw [hsame,hs.claiming i (by rw [hp]; rfl),hp,hleft]
      cases o <;> rfl
  · exact absurd (hsame.trans (hs.registering (i := i) (by rw [hp]; rfl))) hslot

/-- Only `stored` owes a notification, and only a slot that is not settled is waited for. -/
theorem remembered_moves (hs : Sound s) (hmoves : Moves s t) :
    t.monitor.NoneForgotten (t.slot = .registering) (fun i => ∃ h o, t.point i = .stored h o) := by
  have hforgets := hs.remembered
  have hsame : ∀ {i : ι} {p : Point}, (∀ h o, s.point i ≠ .stored h o) →
      s.monitor.NoneForgotten (s.slot = .registering)
        (fun j => ∃ h o, (s.goto i p).point j = .stored h o) := by
    intro i p hp j hj
    rcases hforgets j hj with hbusy | ⟨k,hk,h,o,hstored⟩
    · exact .inl hbusy
    · refine .inr ⟨k,hk,h,o,?_⟩
      rw [goto_point,if_neg]
      · exact hstored
      · rintro rfl
        exact hp h o hstored
  cases hmoves with
  | call h hp => exact hsame (by rcases hp with hp | ⟨h',o,hp⟩ <;> simp [hp])
  | lock hp hm => exact hforgets.lock hm
  | claim hp hslot => exact Monitor.noneForgotten_of_busy rfl
  | decline hp hslot => exact hsame (by simp [hp])
  | wait hp hslot hm => exact Monitor.noneForgotten_of_busy hslot
  | resume hp hm => exact hforgets.resume hm
  | reserve hp hm => exact hforgets.unlock (by simp [hp]) hm
  | skip hp hm => exact hforgets.unlock (by simp [hp]) hm
  | settle hp hm => exact hforgets.lock hm
  | @store i h o hp =>
    have hholder : s.monitor.holder = some i := (hs.holder i).mpr (by rw [hp]; rfl)
    exact Monitor.noneForgotten_of_owing hholder ⟨h,o,by simp⟩
  | notify hp => exact Monitor.noneForgotten_notifyAll
  | leave hp hm => exact hforgets.unlock (by simp [hp]) hm
  | unreadable hp => exact hsame (by simp [hp])
  | readable hp => exact hsame (by simp [hp])
  | refused hp hrc => exact hsame (by simp [hp])
  | registered hp => exact hsame (by simp [hp])
  | wake hm => exact hforgets.wake hm

/-- Nobody begins to wait while another thread has the mutex. -/
theorem quiet_moves (hs : Sound s) (hmoves : Moves s t) :
    ∀ i h o, t.point i = .notified h o → ∀ j, t.monitor.waiting j ≠ .unnotified := by
  have hquiet := hs.quiet
  have hholder := hs.holder
  cases hmoves with
  | notify hp => exact fun i h o _ j => s.monitor.notifyAll_waiting j
  | wait hp hslot hm =>
    have hheld := (Monitor.wait_eq_some.mp hm).1
    grind
  | resume hp hm =>
    have hwaiting := Monitor.resume_waiting hm
    grind
  | wake hm =>
    have hwaiting := Monitor.wake_waiting hm
    grind
  | _ => grind [commitShutdownRegistration,rollbackShutdownRegistration]

theorem Sound.moves (hs : Sound s) (hmoves : Moves s t) : Sound t where
  holder := holder_moves hs hmoves
  waits := waits_moves hs hmoves
  claimed := claimed_moves hs hmoves
  alone := alone_moves hs hmoves
  shows := shows_moves hs hmoves
  claiming := claiming_moves hs hmoves
  settled := settled_moves hs hmoves
  remembered := remembered_moves hs hmoves
  quiet := quiet_moves hs hmoves

omit [DecidableEq ι] in
theorem sound_initial : Sound (State.initial : State ι) where
  holder _ := by simp [State.initial,Monitor.free,Point.holds]
  waits _ := by simp [State.initial,Monitor.free,Point.waits]
  claimed h := by cases h
  alone _ _ h := by cases h
  shows _ := trivial
  claiming _ h := by cases h
  settled _ := rfl
  remembered := Monitor.noneForgotten_free
  quiet _ _ _ h := by cases h

theorem sound_of_reachable (h : (threads (ι := ι)).Reachable s) : Sound s :=
  threads.invariant (fun _ hinit => hinit ▸ sound_initial)
    (fun _ _ _ hs hstep => hs.moves (step_moves hstep)) h

/-! ### What callers may rely on -/

/-- From the claim of the slot to the end of `commit` or `rollback`. -/
def Point.between : Point → Bool
  | .reserved _ | .preflight _ | .atexit _ | .settling _ _ | .storing _ _ | .stored _ _
  | .notified _ _ => true
  | .idle | .reserving _ | .inspecting _ | .waiting _ | .declined _ | .returned _ _ => false

/-- How an attempt that is not over yet has ended. -/
def Point.ended : Point → Option (ClusterHandle × Except BootstrapError Unit)
  | .settling h o | .storing h o | .stored h o | .notified h o => some (h,o)
  | .idle | .reserving _ | .inspecting _ | .waiting _ | .reserved _ | .declined _ | .preflight _
  | .atexit _ | .returned _ _ => none

theorem Point.between_cases {p : Point} (hp : p.between = true) :
    p.claims = true ∨ p.holds = true ∧ ∃ h o, p = .stored h o ∨ p = .notified h o := by
  cases p <;> simp_all [Point.between,Point.holds]

omit [DecidableEq ι] in
theorem between_alone (hs : Sound s) {i j : ι} (hi : (s.point i).between = true)
    (hj : (s.point j).between = true) : i = j := by
  -- what was stored is not `registering`, so a second thread would have the mutex too
  have hleft : ∀ k, (∃ h o, s.point k = .stored h o ∨ s.point k = .notified h o) →
      s.slot ≠ .registering := by
    rintro k ⟨h,o,hk⟩
    have hshows := hs.shows k
    rcases hk with hk | hk <;>
    · rw [hk] at hshows
      exact hshows ▸ left_ne_registering h o
  rcases Point.between_cases hi with hi | ⟨hi,hi'⟩ <;>
    rcases Point.between_cases hj with hj | ⟨hj,hj'⟩
  · exact hs.alone i j hi hj
  · exact absurd (hs.registering hi) (hleft j hj')
  · exact absurd (hs.registering hj) (hleft i hi')
  · have hholder := (hs.holder j).mpr hj
    rw [(hs.holder i).mpr hi,Option.some.injEq] at hholder
    exact hholder

omit [DecidableEq ι] in
theorem callbacks_le_one (hs : Sound s) : s.callbacks ≤ 1 := by
  by_cases hslot : s.slot = .registering
  · obtain ⟨i,hi⟩ := hs.claimed hslot
    rw [hs.claiming i hi]
    unfold Point.callbacks
    split <;> decide
  · rw [hs.settled hslot]
    unfold settledCallbacks
    split <;> decide

/-- An attempt that failed goes on until the slot is empty and whoever waited is woken. -/
theorem ended_moves (hs : Sound s) (hmoves : Moves s t) {i : ι} {h : ClusterHandle}
    {e : BootstrapError} (hi : (s.point i).ended = some (h,.error e)) :
    (t.point i).ended = some (h,.error e) ∨ t.point i = .returned h (.error e) ∧
      t.slot = .empty ∧ ∀ j, t.monitor.waiting j ≠ .unnotified := by
  have hkept : ∀ {j : ι} {p : Point}, ((s.point j).ended = some (h,.error e) →
      p.ended = some (h,.error e)) → ((s.goto j p).point i).ended = some (h,.error e) := by
    intro j p hp
    rw [goto_point]
    split
    · next hij => exact hp (hij ▸ hi)
    · exact hi
  cases hmoves with
  | call h hp => exact .inl (hkept (by rcases hp with hp | ⟨h',o,hp⟩ <;> simp [hp,Point.ended]))
  | @leave j h' o m hp hm =>
    by_cases hij : i = j
    · subst hij
      rw [hp] at hi
      cases hi
      obtain ⟨-,rfl⟩ := Monitor.unlock_eq_some.mp hm
      have hshows := hs.shows i
      rw [hp] at hshows
      exact .inr ⟨by simp,hshows,hs.quiet i h _ hp⟩
    · left
      change ((s.goto j _).point i).ended = _
      rw [goto_point,if_neg hij]
      exact hi
  | wake hm => exact .inl hi
  | lock hp | claim hp | decline hp | wait hp | resume hp | reserve hp | skip hp | settle hp
  | store hp | notify hp | unreadable hp | readable hp | refused hp | registered hp =>
    exact .inl (hkept (by simp [hp,Point.ended]))

theorem registered_moves (hs : Sound s) (hmoves : Moves s t) {w : ClusterHandle}
    (hslot : s.slot = .registered w) : t.slot = .registered w := by
  rcases slot_moves hmoves with ⟨hsame,-⟩ | ⟨hempty,-⟩ | ⟨i,h,o,hp,-,-⟩
  · exact hsame.trans hslot
  · rw [hempty] at hslot
    cases hslot
  · rw [hs.registering (i := i) (by rw [hp]; rfl)] at hslot
    cases hslot

theorem registered_run (hs : Sound s) {w : ClusterHandle} (hslot : s.slot = .registered w)
    {as : List (Action ι)} (hrun : threads.Run s as t) : Sound t ∧ t.slot = .registered w := by
  induction hrun with
  | nil => exact ⟨hs,hslot⟩
  | snoc _ hstep ih =>
    obtain ⟨ht,hslot'⟩ := ih
    exact ⟨ht.moves (step_moves hstep),registered_moves ht (step_moves hstep) hslot'⟩

/-- What is left of a failure is the caller's own. -/
theorem returned_moves (hmoves : Moves s t) {i : ι} {h : ClusterHandle} {e : BootstrapError}
    (hi : t.point i = .returned h (.error e)) :
    s.point i = .returned h (.error e) ∨ (s.point i).ended = some (h,.error e) := by
  have hkept : ∀ {j : ι} {p : Point}, (s.goto j p).point i = .returned h (.error e) →
      p ≠ .returned h (.error e) → s.point i = .returned h (.error e) := by
    intro j p hgoto hp
    rw [goto_point] at hgoto
    split at hgoto
    · exact absurd hgoto hp
    · exact hgoto
  cases hmoves with
  | @leave j h' o m hp hm =>
    change (s.goto j (.returned h' o)).point i = _ at hi
    rw [goto_point] at hi
    split at hi
    · next hij =>
      cases hi
      rw [hij,hp]
      exact .inr rfl
    · exact .inl hi
  | wake hm => exact .inl hi
  | call h hp => exact .inl (hkept hi (by simp))
  | lock hp | claim hp | decline hp | wait hp | resume hp | reserve hp | skip hp | settle hp
  | store hp | notify hp | unreadable hp | readable hp | refused hp | registered hp =>
    exact .inl (hkept hi (by simp [commitShutdownRegistration,rollbackShutdownRegistration]))

omit [DecidableEq ι] in
theorem waiter_remembered (hs : Sound s) {j : ι} (hj : s.monitor.waiting j = .unnotified) :
    ∃ i, (s.point i).between = true ∧ ∀ h o, s.point i ≠ .notified h o := by
  rcases hs.remembered j hj with hslot | ⟨i,-,h,o,hi⟩
  · obtain ⟨i,hi⟩ := hs.claimed hslot
    refine ⟨i,?_,?_⟩ <;> cases hp : s.point i <;> simp_all [Point.between]
  · exact ⟨i,by rw [hi]; rfl,by simp [hi]⟩

/-- The attempt of the thread fails in this step. -/
def Fails (i : ι) : Action ι → Prop
  | .readPidFile j file => j = i ∧ readPostmasterProcess file = .error ()
  | .atexit j rc => j = i ∧ rc ≠ 0
  | .call _ _ | .advance _ | .wake _ => False

theorem ended_of_fails {i : ι} {a : Action ι} (hfails : Fails i a) (hstep : step s a = some t) :
    ∃ h e, (t.point i).ended = some (h,.error e) := by
  cases a with
  | readPidFile j file =>
    obtain ⟨rfl,hfile⟩ := hfails
    unfold step at hstep
    dsimp only at hstep
    split at hstep
    · next h hp =>
      rw [hfile] at hstep
      cases hstep
      exact ⟨h,_,by simp [rollbackShutdownRegistration,Point.ended]; rfl⟩
    · cases hstep
  | atexit j rc =>
    obtain ⟨rfl,hrc⟩ := hfails
    unfold step at hstep
    dsimp only at hstep
    split at hstep
    · next h hp =>
      rw [if_pos hrc] at hstep
      cases hstep
      exact ⟨h,_,by simp [rollbackShutdownRegistration,Point.ended]; rfl⟩
    · cases hstep
  | call | advance | wake => cases hfails

/-- The registration, for every schedule that led to this state and every step from it. -/
structure RegistersOnce (s : State ι) : Prop where
  one_between : ∀ i j, (s.point i).between = true → (s.point j).between = true → i = j
  one_callback : s.callbacks ≤ 1
  ok_registered : ∀ i h, s.point i = .returned h (.ok ()) → ∃ w, s.slot = .registered w
  fails_ended : ∀ i a t, Fails i a → step s a = some t →
    ∃ h e, (t.point i).ended = some (h,.error e)
  ended_restores : ∀ i h e a t, (s.point i).ended = some (h,.error e) → step s a = some t →
    (t.point i).ended = some (h,.error e) ∨ t.point i = .returned h (.error e) ∧
      t.slot = .empty ∧ ∀ j, t.monitor.waiting j ≠ .unnotified
  error_own : ∀ i h e a t, step s a = some t → t.point i = .returned h (.error e) →
    s.point i = .returned h (.error e) ∨ (s.point i).ended = some (h,.error e)
  waiter_remembered : ∀ j, s.monitor.waiting j = .unnotified →
    ∃ i, (s.point i).between = true ∧ ∀ h o, s.point i ≠ .notified h o
  kept : ∀ w as t, s.slot = .registered w → threads.Run s as t → t.slot = .registered w

theorem registers_once (h : (threads (ι := ι)).Reachable s) : RegistersOnce s where
  one_between _ _ := between_alone (sound_of_reachable h)
  one_callback := callbacks_le_one (sound_of_reachable h)
  ok_registered i c hi := by
    have hshows := (sound_of_reachable h).shows i
    rw [hi] at hshows
    exact hshows
  fails_ended _ _ _ := ended_of_fails
  ended_restores _ _ _ _ _ hi hstep := ended_moves (sound_of_reachable h) (step_moves hstep) hi
  error_own _ _ _ _ _ hstep := returned_moves (step_moves hstep)
  waiter_remembered _ := waiter_remembered (sound_of_reachable h)
  kept _ _ _ hslot hrun := (registered_run (sound_of_reachable h) hslot hrun).2

end Invariant

/-! ### Two threads, of which the first fails -/

def sampleHandle : ClusterHandle := ⟨⟨⟨true,[]⟩,⟨true,[]⟩,⟨true,[]⟩⟩,0,.none⟩

/-- The second thread waits for the first, whose `postmaster.pid` cannot be read. -/
def secondRegisters : List (Action Bool) :=
  [.call false sampleHandle,.advance false,.advance false,.advance false,
    .call true sampleHandle,.advance true,.advance true,
    .readPidFile false .unreadable,.advance false,.advance false,.advance false,.advance false,
    .advance true,.advance true,.advance true,.readPidFile true .missing,.atexit true 0,
    .advance true,.advance true,.advance true,.advance true]

def secondAlone (s : State Bool) : Bool :=
  match s.point false, s.point true with
  | .returned _ (.error _), .returned _ (.ok ()) => true
  | _, _ => false

theorem registers_once_second :
    ∃ s : State Bool, secondAlone s = true ∧ RegistersOnce s := by
  obtain ⟨s,hreachable,hs⟩ := System.runSteps_reaches (· = State.initial) step (fun _ _ => true)
    rfl secondRegisters secondAlone (by decide +kernel)
  exact ⟨s,hs,registers_once (System.reachable_of_restrict _ hreachable)⟩

/-! ### The registration as one program -/

section Refine
variable {ι : Type} [DecidableEq ι] {s t : State ι}

/-- The end of `register_shutdown_hook`. -/
def conclude : Except BootstrapError ClusterHandle → Code (Except BootstrapError Unit)
  | .error e => do
    call .rollback
    pure (.error e)
  | .ok state => do
    call (.commit state)
    pure (.ok ())

/-- The end of `build_shutdown_state`. -/
def finishBuild (h : ClusterHandle) : Code (Except BootstrapError ClusterHandle) := do
  match ← registerAtexit with
  | .error e => pure (.error e)
  | .ok () => pure (.ok h)

/-- What is left to do of `registerShutdownHook`. -/
def Point.rest : Point → Code (Except BootstrapError Unit)
  | .idle => pure (.ok ())
  | .reserving h | .inspecting h | .waiting h => registerShutdownHook h
  | .reserved h | .preflight h => buildShutdownState h >>= conclude
  | .atexit h => finishBuild h >>= conclude
  | .settling h o | .storing h o => conclude (o.map fun _ => h)
  | .stored _ o | .notified _ o | .returned _ o => pure o
  | .declined _ => pure (.ok ())

/-- The slot and the number of callbacks. -/
def Views (w : World) (s : State ι) : Prop := w.slot = s.slot ∧ w.callbacks = s.callbacks

/-- The thread's next call is answered as `answer` allows. -/
def Answered (s t : State ι) (i : ι) : Prop :=
  ∃ op r k, (s.point i).rest = .call op k ∧ (t.point i).rest = k r ∧
    ∀ w, Views w s → ∃ w', answer w op r = some w' ∧ Views w' t

/-- The step is one of waiting, or of the mutex. -/
def Silent (s t : State ι) (i : ι) : Prop :=
  (t.point i).rest = (s.point i).rest ∧ ∀ w, Views w s → Views w t

/-- A step at a monitor that leaves the same calls to make. -/
theorem silent_enter {i : ι} {p : Point} {m : Option (Monitor ι)}
    (hrest : p.rest = (s.point i).rest) (h : s.enter i p m = some t) : Silent s t i := by
  obtain ⟨m,hm,rfl⟩ := enter_eq_some.mp h
  exact ⟨by simp [hrest],fun w hw => hw⟩

theorem advance_refines {i : ι} (h : advance s i = some t) : Silent s t i ∨ Answered s t i := by
  unfold advance at h
  split at h
  · next hp =>
    exact .inl (silent_enter (by simp [hp,Point.rest]) h)
  · next c hp =>
    split at h
    · next hslot =>
      cases h
      refine .inr ⟨.reserve c,true,_,by rw [hp]; rfl,by simp [Point.rest]; rfl,fun w hw => ?_⟩
      exact ⟨{ w with slot := .registering },by simp [answer,hw.1,hslot],rfl,hw.2⟩
    · next other hslot =>
      cases h
      refine .inr ⟨.reserve c,false,_,by rw [hp]; rfl,by simp [Point.rest]; rfl,fun w hw => ?_⟩
      exact ⟨{ w with accepted := w.accepted ++ [c] },by simp [answer,hw.1,hslot],hw⟩
    · next hslot =>
      exact .inl (silent_enter (by simp [hp,Point.rest]) h)
  · next hp =>
    exact .inl (silent_enter (by simp [hp,Point.rest]) h)
  · next hp =>
    exact .inl (silent_enter (by simp [hp,Point.rest]) h)
  · next hp =>
    exact .inl (silent_enter (by simp [hp,Point.rest]) h)
  · next hp =>
    exact .inl (silent_enter (by simp [hp,Point.rest]) h)
  · next c o hp =>
    cases h
    cases o with
    | error e =>
      refine .inr ⟨.rollback,(),_,by rw [hp]; rfl,by simp [Point.rest]; rfl,fun w hw => ?_⟩
      exact ⟨{ w with slot := .empty },rfl,rfl,hw.2⟩
    | ok u =>
      refine .inr ⟨.commit c,(),_,by rw [hp]; rfl,by simp [Point.rest]; rfl,fun w hw => ?_⟩
      exact ⟨{ w with slot := .registered c, accepted := w.accepted ++ [c] },rfl,rfl,hw.2⟩
  · next hp =>
    cases h
    exact .inl ⟨by simp [hp,Point.rest],fun w hw => hw⟩
  · next hp =>
    exact .inl (silent_enter (by simp [hp,Point.rest]) h)
  all_goals cases h

/-- Whose step it is. -/
def Action.thread : Action ι → ι
  | .call i _ | .advance i | .readPidFile i _ | .atexit i _ | .wake i => i

/-- Between the call and its return a thread does what `registerShutdownHook` does, with a
`reserve` that waits as long as the slot is claimed. -/
theorem step_refines {a : Action ι} (h : step s a = some t)
    (hcall : ∀ i c, a ≠ .call i c) : Silent s t a.thread ∨ Answered s t a.thread := by
  cases a with
  | call i c => exact absurd rfl (hcall i c)
  | advance i => exact advance_refines h
  | readPidFile i file =>
    unfold step at h
    dsimp only at h
    split at h
    · next c hp =>
      right
      split at h
      · next hfile =>
        cases h
        refine ⟨.readPidFile c.settings,file,_,by rw [Action.thread,hp]; rfl,?_,
          fun w hw => ⟨w,rfl,hw⟩⟩
        simp only [Action.thread,goto_point,if_true,rollbackShutdownRegistration,Point.rest,
          Process.bind]
        rw [hfile]
        rfl
      · next found hfile =>
        cases h
        refine ⟨.readPidFile c.settings,file,_,by rw [Action.thread,hp]; rfl,?_,
          fun w hw => ⟨w,rfl,hw⟩⟩
        simp only [Action.thread,goto_point,if_true,Point.rest,Process.bind]
        rw [hfile]
        rfl
    · cases h
  | atexit i rc =>
    unfold step at h
    dsimp only at h
    split at h
    · next c hp =>
      right
      split at h
      · next hrc =>
        cases h
        refine ⟨.atexit,rc,_,by rw [Action.thread,hp]; rfl,?_,
          fun w hw => ⟨w,by simp [answer,hrc],hw⟩⟩
        simp only [Action.thread,goto_point,if_true,rollbackShutdownRegistration,Point.rest,
          Process.bind]
        rw [if_pos hrc]
        rfl
      · next hrc =>
        cases h
        have hzero : rc = 0 := not_not.mp hrc
        refine ⟨.atexit,rc,_,by rw [Action.thread,hp]; rfl,?_,
          fun w hw => ⟨{ w with callbacks := w.callbacks+1 },by simp [answer,hzero],hw.1,?_⟩⟩
        · simp only [Action.thread,goto_point,if_true,commitShutdownRegistration,Point.rest,
            Process.bind]
          rw [if_neg hrc]
          rfl
        · exact congrArg (·+1) hw.2
    · cases h
  | wake i =>
    obtain ⟨m,hm,rfl⟩ := Option.map_eq_some_iff.mp h
    exact .inl ⟨rfl,fun w hw => hw⟩

end Refine

end PgEmbedSetup.Shared.Hook
