import PgEmbedSetup.Root.Model

set_option autoImplicit false

/-!
What each cluster relies on in the lock files and claimed slots, and what the system calls
of another cluster leave of it.
-/

namespace PgEmbedSetup.Root
open Library

/-- The lock files and the live claims. -/
structure View where
  files : LockFiles LockFile Holder
  slot : ClusterId → Option (Name × Nat)

def State.view (s : State) : View := ⟨s.files,s.slot⟩

/-! ### Reading a phase -/

/-- The inode of the claim guard a phase holds. -/
def Phase.guard : Phase → Option Nat
  | .listing g | .sweeping g _ | .sweepOpened g _ _ _ | .sweepLocked g _ _ _
  | .removing g _ _ _ _ | .naming g | .created g _ _ | .claimed g | .peers g _
  | .probing g _ _ | .probeOpened g _ _ _ _ | .probeLocked g _ _ => some g
  | .cleaning g _ | .cleanedData g | .cleaned g => g
  | _ => none

def Phase.awaited : Phase → Option Nat
  | .waiting _ g => some g
  | _ => none

/-- The slot a phase has opened by name, while its lock file must still be there. -/
def Phase.target : Phase → Option (Name × Nat)
  | .sweepOpened _ _ n i | .sweepLocked _ _ n i | .removing _ _ n i (some _) | .created _ n i
  | .probeOpened _ _ _ n i => some (n,i)
  | _ => none

def Phase.swept : Phase → Option Nat
  | .sweepLocked _ _ _ i | .removing _ _ _ i _ => some i
  | _ => none

def Phase.fresh : Phase → Option Nat
  | .created _ _ i => some i
  | _ => none

def Phase.unclaimed : Phase → Bool
  | .idle | .waiting .claim _ | .listing _ | .sweeping _ _ | .sweepOpened _ _ _ _
  | .sweepLocked _ _ _ _ | .removing _ _ _ _ _ | .naming _ | .created _ _ _ => true
  | _ => false

/-- From its claim to its end a slotted cluster keeps its slot. -/
def Phase.beyondClaim : Phase → Bool
  | .claimed _ | .bootstrapped | .preparing _ _ | .running | .stopped
  | .waiting (.cleanup _) _ | .peers _ _ | .probing _ _ _ | .probeOpened _ _ _ _ _
  | .probeLocked _ _ _ | .cleaning _ _ | .cleanedData _ | .cleaned _ => true
  | _ => false

theorem Phase.guard_of_target {p : Phase} {x : Name × Nat} (h : p.target = some x) :
    p.guard.isSome = true := by
  unfold target at h
  split at h <;> simp_all [guard]

theorem Phase.guard_of_fresh {p : Phase} {i : Nat} (h : p.fresh = some i) :
    p.guard.isSome = true ∧ ∃ n, p.target = some (n,i) := by
  unfold fresh at h
  split at h
  · simp_all [guard,target]
  · simp at h

/-! ### What a cluster relies on -/

structure Fits (r : Layout) (v : View) (c : ClusterId) (p : Phase) : Prop where
  guard : ∀ g, p.guard = some g →
    v.files.find .claimGuard = some g ∧ v.files.locks g = some (.guard c)
  awaited : ∀ g, p.awaited = some g → v.files.find .claimGuard = some g
  target : ∀ n i, p.target = some (n,i) → v.files.find (.slot n) = some i
  swept : ∀ i, p.swept = some i → v.files.locks i = some (.sweep c)
  /-- Nobody but a watcher has locked a file just created. -/
  fresh : ∀ i h, p.fresh = some i → v.files.locks i = some h → ∃ w, h = .watcher w
  unclaimed : p.unclaimed = true → v.slot c = none
  slotted : p.beyondClaim = true → r.claims c = true → (v.slot c).isSome = true

/-- A live claim has its own lock file under its name, locked by itself. -/
structure Shared (v : View) : Prop where
  wf : v.files.WellFormed
  slots : ∀ c n i, v.slot c = some (n,i) →
    v.files.find (.slot n) = some i ∧ v.files.locks i = some (.claim c) ∧
      ∃ g, v.files.find .claimGuard = some g

/-- What stays for a cluster in phase `p` when others move. -/
structure Frame (v w : View) (d : ClusterId) (p : Phase) : Prop where
  guardFile : ∀ g, v.files.find .claimGuard = some g → w.files.find .claimGuard = some g
  slot : w.slot d = v.slot d
  own : ∀ i h, h.cluster = some d → v.files.locks i = some h → w.files.locks i = some h
  entry : p.guard.isSome = true → ∀ n i, v.files.find (.slot n) = some i →
    w.files.find (.slot n) = some i
  fresh : p.guard.isSome = true → ∀ n i h, v.files.find (.slot n) = some i →
    w.files.locks i = some h → v.files.locks i = some h ∨ ∃ k, h = .watcher k

theorem Fits.frame {r : Layout} {v w : View} {d : ClusterId} {p : Phase} (h : Fits r v d p)
    (hf : Frame v w d p) : Fits r w d p where
  guard g hg :=
    ⟨hf.guardFile g (h.guard g hg).1,hf.own g (.guard d) rfl (h.guard g hg).2⟩
  awaited g hg := hf.guardFile g (h.awaited g hg)
  target n i hn := hf.entry (Phase.guard_of_target hn) n i (h.target n i hn)
  swept i hi := hf.own i (.sweep d) rfl (h.swept i hi)
  fresh i k hi hk := by
    obtain ⟨hg,n,hn⟩ := Phase.guard_of_fresh hi
    rcases hf.fresh hg n i k (h.target n i hn) hk with hold | hwatch
    · exact h.fresh i k hi hold
    · exact hwatch
  unclaimed hp := by
    rw [hf.slot]
    exact h.unclaimed hp
  slotted hp hc := by
    rw [hf.slot]
    exact h.slotted hp hc

theorem Frame.trans {u v w : View} {d : ClusterId} {p : Phase} (h : Frame u v d p)
    (h' : Frame v w d p) : Frame u w d p where
  guardFile g hg := h'.guardFile g (h.guardFile g hg)
  slot := h'.slot.trans h.slot
  own i k hk hi := h'.own i k hk (h.own i k hk hi)
  entry hg n i hn := h'.entry hg n i (h.entry hg n i hn)
  fresh hg n i k hn hk := by
    rcases h'.fresh hg n i k (h.entry hg n i hn) hk with hold | hwatch
    · exact h.fresh hg n i k hn hold
    · exact .inr hwatch

/-! ### The system calls of one cluster -/

/-- From `s` to `t` only cluster `c` has moved, and nothing others rely on has changed. -/
structure Quiet (s t : State) (c : ClusterId) : Prop where
  phase : ∀ d, d ≠ c → t.phase d = s.phase d
  frame : ∀ d, d ≠ c → Frame s.view t.view d (s.phase d)
  shared : Shared s.view → Shared t.view
  exited : t.exited = s.exited
  next : s.files.next ≤ t.files.next
  watcher : t.watcher = s.watcher

/-- No other cluster is inside the claim guard. -/
def Alone (s : State) (c : ClusterId) : Prop := ∀ d, d ≠ c → (s.phase d).guard = none

theorem Quiet.trans {s t u : State} {c : ClusterId} (h : Quiet s t c) (h' : Quiet t u c) :
    Quiet s u c where
  phase d hd := (h'.phase d hd).trans (h.phase d hd)
  frame d hd := by
    have hf := h'.frame d hd
    rw [h.phase d hd] at hf
    exact (h.frame d hd).trans hf
  shared hs := h'.shared (h.shared hs)
  exited := h'.exited.trans h.exited
  next := Nat.le_trans h.next h'.next
  watcher := h'.watcher.trans h.watcher

/-- A step that leaves lock files and claims alone. -/
theorem quiet_of_view {s t : State} {c : ClusterId} (hv : t.view = s.view)
    (hp : ∀ d, d ≠ c → t.phase d = s.phase d) (he : t.exited = s.exited)
    (hw : t.watcher = s.watcher) : Quiet s t c where
  phase := hp
  frame d _ := by
    rw [hv]
    exact ⟨fun _ h => h,rfl,fun _ _ _ h => h,fun _ _ _ h => h,fun _ _ _ _ _ h => .inl h⟩
  shared hs := by
    rw [hv]
    exact hs
  exited := he
  next := Nat.le_of_eq (congrArg (fun v => v.files.next) hv).symm
  watcher := hw

theorem quiet_refl (s : State) (c : ClusterId) : Quiet s s c :=
  quiet_of_view rfl (fun _ _ => rfl) rfl rfl

theorem quiet_setPhase (s : State) (c : ClusterId) (p : Phase) : Quiet s (s.setPhase c p) c :=
  quiet_of_view rfl (fun d hd => by simp [State.setPhase,hd]) rfl rfl

theorem quiet_lock {s : State} {c : ClusterId} {i : Nat} {h : Holder}
    (hfree : s.files.locks i = none) (hbound : i < s.files.next)
    (hslot : Alone s c ∨ ∀ n, s.files.find (.slot n) ≠ some i) : Quiet s (s.lock i h) c where
  phase _ _ := rfl
  frame d hd := by
    refine ⟨fun _ hg => hg,rfl,fun j k _ hk => LockFiles.locks_lock_of_some hfree hk,
      fun _ _ _ hn => hn,?_⟩
    intro hg n j k hn hk
    rcases LockFiles.locks_lock_cases hk with ⟨rfl,-⟩ | hk
    · rcases hslot with ha | hne
      · simp [ha d hd] at hg
      · exact absurd hn (hne n)
    · exact .inl hk
  shared hs := by
    refine ⟨hs.wf.lock hbound h,?_⟩
    intro d n j hd
    obtain ⟨hf,hl,hg⟩ := hs.slots d n j hd
    exact ⟨hf,LockFiles.locks_lock_of_some hfree hl,hg⟩
  exited := rfl
  next := Nat.le_refl _
  watcher := rfl

theorem quiet_close {s : State} {c : ClusterId} {h : Holder} (hc : h.cluster = some c)
    (hclaim : h ≠ .claim c) : Quiet s (s.close h) c where
  phase _ _ := rfl
  frame d hd := by
    refine ⟨fun _ hg => hg,rfl,?_,fun _ _ _ hn => hn,
      fun _ n i k _ hk => .inl (LockFiles.locks_of_close hk).1⟩
    intro i k hk hi
    refine LockFiles.locks_close_of_ne hi ?_
    rintro rfl
    rw [hk] at hc
    exact hd (Option.some.inj hc)
  shared hs := by
    refine ⟨hs.wf.close h,?_⟩
    intro d n i hd
    obtain ⟨hf,hl,hg⟩ := hs.slots d n i hd
    refine ⟨hf,LockFiles.locks_close_of_ne hl ?_,hg⟩
    rintro rfl
    obtain rfl : d = c := by simpa [Holder.cluster] using hc
    exact hclaim rfl
  exited := rfl
  next := Nat.le_refl _
  watcher := rfl

theorem frame_create {v : View} {f : LockFile} (hf : v.files.find f = none) (d : ClusterId)
    (p : Phase) : Frame v { v with files := v.files.create f } d p :=
  ⟨fun _ hg => LockFiles.find_create_of_some hf hg,rfl,fun _ _ _ h => h,
    fun _ _ _ hn => LockFiles.find_create_of_some hf hn,fun _ _ _ _ _ h => .inl h⟩

theorem shared_create {v : View} {f : LockFile} (hf : v.files.find f = none) (hs : Shared v) :
    Shared { v with files := v.files.create f } := by
  refine ⟨hs.wf.create f,?_⟩
  intro d n i hd
  obtain ⟨hn,hl,g,hg⟩ := hs.slots d n i hd
  exact ⟨LockFiles.find_create_of_some hf hn,hl,g,LockFiles.find_create_of_some hf hg⟩

theorem quiet_create {s : State} {c : ClusterId} {f : LockFile} (hf : s.files.find f = none) :
    Quiet s (s.create f) c where
  phase _ _ := rfl
  frame d _ := frame_create hf d _
  shared := shared_create hf
  exited := rfl
  next := Nat.le_succ _
  watcher := rfl

/-- Unlinking a slot's lock file under the guard, when no live claim has that name. -/
theorem quiet_unlinkSlot {s : State} {c : ClusterId} {n : Name} (ha : Alone s c)
    (hn : ∀ d i, s.slot d ≠ some (n,i)) : Quiet s (s.unlinkSlot n) c where
  phase _ _ := rfl
  frame d hd := by
    have hg := ha d hd
    refine ⟨?_,rfl,fun _ _ _ h => h,by simp [hg],by simp [hg]⟩
    intro g hg
    simpa [State.view,State.unlinkSlot,LockFiles.find_unlink] using hg
  shared hs := by
    refine ⟨hs.wf.unlink (fun f => f = .slot n),?_⟩
    intro d m i hd
    obtain ⟨hf,hl,g,hg⟩ := hs.slots d m i hd
    have hne : m ≠ n := by
      rintro rfl
      exact hn d i hd
    refine ⟨?_,hl,g,?_⟩
    · simpa [State.view,State.unlinkSlot,LockFiles.find_unlink,hne] using hf
    · simpa [State.view,State.unlinkSlot,LockFiles.find_unlink] using hg
  exited := rfl
  next := Nat.le_refl _
  watcher := rfl

theorem quiet_setSlot {s : State} {c : ClusterId} {n : Name} {i g : Nat}
    (hf : s.files.find (.slot n) = some i) (hl : s.files.locks i = some (.claim c))
    (hg : s.files.find .claimGuard = some g) : Quiet s (s.setSlot c (some (n,i))) c where
  phase _ _ := rfl
  frame d hd := by
    refine ⟨fun _ h => h,?_,fun _ _ _ h => h,fun _ _ _ h => h,fun _ _ _ _ _ h => .inl h⟩
    simp [State.view,State.setSlot,hd]
  shared hs := by
    refine ⟨hs.wf,?_⟩
    intro d m j hd
    by_cases hdc : d = c
    · subst hdc
      simp only [State.view,State.setSlot,Function.update_self,Option.some.injEq,
        Prod.mk.injEq] at hd
      obtain ⟨rfl,rfl⟩ := hd
      exact ⟨hf,hl,g,hg⟩
    · exact hs.slots d m j (by simpa [State.view,State.setSlot,hdc] using hd)
  exited := rfl
  next := Nat.le_refl _
  watcher := rfl

/-! ### Removing a directory -/

theorem below_append (p q : Path) (x : String) :
    (State.below p (q ++ [x]) && p != q ++ [x]) = State.below p q := by
  have h : (p <+: q ++ [x] ∧ p ≠ q ++ [x]) ↔ p <+: q := by
    rw [List.prefix_concat_iff]
    constructor
    · rintro ⟨he | hp,hne⟩
      · exact absurd he hne
      · exact hp
    · intro hp
      refine ⟨.inr hp,?_⟩
      rintro rfl
      have := hp.length_le
      rw [List.length_append,List.length_singleton] at this
      omega
  rw [Bool.eq_iff_iff]
  simpa [State.below,List.isPrefixOf_iff_prefix] using h

theorem below_slotDir (r : Layout) (n : Name) : State.below (r.slotDir n) r.dataParent = false := by
  have h : ¬ r.slotDir n <+: r.dataParent := by
    intro hp
    have := hp.length_le
    rw [Layout.slotDir,List.length_append,List.length_singleton] at this
    omega
  rw [← Bool.not_eq_true,State.below,List.isPrefixOf_iff_prefix]
  exact h

theorem below_installDir (r : Layout) : State.below r.installDir r.dataParent = false := by
  have h : ¬ r.installDir <+: r.dataParent := by
    intro hp
    have := hp.eq_of_length (by simp [Layout.installDir,Layout.dataParent])
    simp [Layout.installDir,Layout.dataParent] at this
  rw [← Bool.not_eq_true,State.below,List.isPrefixOf_iff_prefix]
  exact h

theorem find_removeTree (s : State) (r : Layout) (p : Path) (f : LockFile) :
    (s.removeTree r p).files.find f =
      if State.below p (r.lockPath f) && p != r.lockPath f then none else s.files.find f :=
  LockFiles.find_unlink s.files _ f

theorem find_removeTree_guard (s : State) (r : Layout) (p : Path) :
    (s.removeTree r p).files.find .claimGuard =
      if State.below p r.dataParent then none else s.files.find .claimGuard := by
  rw [find_removeTree]
  simp only [Layout.lockPath,below_append]

theorem find_removeTree_slot (s : State) (r : Layout) (p : Path) (n : Name) :
    (s.removeTree r p).files.find (.slot n) =
      if State.below p r.dataParent then none else s.files.find (.slot n) := by
  rw [find_removeTree]
  simp only [Layout.lockPath,below_append]

/-- The claim guard, once it is there, is not removed. -/
def GuardKept (s t : State) : Prop :=
  ∀ g, s.files.find .claimGuard = some g → t.files.find .claimGuard = some g

theorem guardKept_of_above {s : State} {r : Layout} {p : Path}
    (h : State.below p r.dataParent = false) : GuardKept s (s.removeTree r p) := by
  intro g hg
  simpa [find_removeTree_guard,h] using hg

/-- A removal that keeps the guard keeps every lock file beside it. Before there is a guard
there is nothing to keep. -/
theorem quiet_removeTree {s : State} {r : Layout} {c : ClusterId} {p : Path}
    (hkept : GuardKept s (s.removeTree r p))
    (hguard : ∀ d g, (s.phase d).guard = some g → s.files.find .claimGuard = some g) :
    Quiet s (s.removeTree r p) c := by
  have hslot : ∀ g, s.files.find .claimGuard = some g →
      ∀ n, (s.removeTree r p).files.find (.slot n) = s.files.find (.slot n) := by
    intro g hg n
    have hk := hkept g hg
    rw [find_removeTree_guard] at hk
    cases hb : State.below p r.dataParent with
    | true => simp [hb] at hk
    | false => simp [find_removeTree_slot,hb]
  refine ⟨fun _ _ => rfl,?_,?_,rfl,Nat.le_refl _,rfl⟩
  · intro d _
    refine ⟨hkept,rfl,fun _ _ _ h => h,?_,fun _ _ _ _ _ h => .inl h⟩
    intro hd n i hn
    obtain ⟨g,hg⟩ := Option.isSome_iff_exists.mp hd
    exact (hslot g (hguard d g hg) n).trans hn
  · intro hs
    refine ⟨hs.wf.unlink (fun f => State.below p (r.lockPath f) && p != r.lockPath f),?_⟩
    intro d n i hd
    obtain ⟨hf,hl,g,hg⟩ := hs.slots d n i hd
    exact ⟨(hslot g hg n).trans hf,hl,g,hkept g hg⟩

end PgEmbedSetup.Root
