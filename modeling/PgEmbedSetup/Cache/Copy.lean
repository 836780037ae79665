import Mathlib.Data.List.Perm.Basic
import PgEmbedSetup.Library.FileTree
import PgEmbedSetup.Library.Text

set_option autoImplicit false

/-!
`src/cache/operations/copy.rs`, one system call after the other. The call stack of
`copy_dir_recursive` is the list of directories being copied, the innermost first.
-/

namespace PgEmbedSetup.Cache
open Library

abbrev Node := Entry Bytes Text

/-- A cache entry or a version's installation; places are counted from its own root. -/
abbrev Tree := FileTree Text Bytes Text

/-- Where paths through links lead depends on the rest of the file system. -/
abbrev Follow := Tree → Place Text → Option Node

/-- A `read_dir` loop, with the names it has not come to. -/
structure Frame where
  dir : Place Text
  rest : List Text

inductive Copying where
  /-- `dst.exists()`, and `create_dir_all` if not. -/
  | enter (p : Place Text) (stack : List Frame)
  | readDir (p : Place Text) (stack : List Frame)
  | next (stack : List Frame)
  | isAlreadyInstalled (n : Text) (p : Place Text) (stack : List Frame)
  | copyFile (n : Text) (p : Place Text) (stack : List Frame)
  | copySymlink (n : Text) (p : Place Text) (stack : List Frame)
  /-- The link's place is free now. -/
  | symlink (n : Text) (p : Place Text) (stack : List Frame)

/-- What the kernel decides about a step. -/
inductive Choice where
  | proceed
  /-- In which order a directory is read. -/
  | order (names : List Text)
  /-- How much of a file is written so far. -/
  | wrote (count : Nat)
  /-- A path led through a link, and the target is now so. -/
  | through (t : Tree)

def copyStep (follow : Follow) (src dst : Tree) : Copying → Choice → Option (Copying × Tree)
  | .enter p stack, .proceed =>
    match dst.stat follow p with
    | some _ => some (.readDir p stack,dst)
    | none =>
      if dst.linked p = false ∧ dst.takes p = true then some (.readDir p stack,dst.put p .dir)
      else none
  | .enter p stack, .through t =>
    if dst.linked p = true ∧ follow dst p = none then some (.readDir p stack,t) else none
  | .readDir p stack, .order names =>
    if src.node p = some .dir ∧ names.Perm (src.listing p) then
      some (.next (⟨p,names⟩ :: stack),dst)
    else none
  | .next (⟨_,[]⟩ :: stack), .proceed => some (.next stack,dst)
  | .next (⟨p,n :: rest⟩ :: stack), .proceed =>
    match src.node (n :: p) with
    | some .dir => some (.enter (n :: p) (⟨p,rest⟩ :: stack),dst)
    | some (.symlink _) => some (.copySymlink n p (⟨p,rest⟩ :: stack),dst)
    | some (.file _) => some (.isAlreadyInstalled n p (⟨p,rest⟩ :: stack),dst)
    | none => none
  | .isAlreadyInstalled n p stack, .proceed =>
    match src.node (n :: p), dst.stat follow (n :: p) with
    | some (.file data), some (.file there) =>
      if data.length = there.length then some (.next stack,dst) else some (.copyFile n p stack,dst)
    | some (.file _), _ => some (.copyFile n p stack,dst)
    | _, _ => none
  | .copyFile n p stack, .wrote count =>
    match src.node (n :: p) with
    | some (.file data) =>
      if dst.linked (n :: p) = false ∧ dst.takes (n :: p) = true then
        some (if data.length ≤ count then .next stack else .copyFile n p stack,
          dst.put (n :: p) (.file (data.take count)))
      else none
    | _ => none
  | .copyFile n p stack, .through t =>
    if dst.linked (n :: p) = true then some (.next stack,t) else none
  | .copySymlink n p stack, .proceed =>
    match src.node (n :: p), dst.linked p, dst.node (n :: p) with
    | some (.symlink target), false, some (.symlink existing) =>
      if existing = target then some (.next stack,dst)
      else some (.symlink n p stack,dst.remove (n :: p))
    | some (.symlink _), false, some (.file _) => some (.symlink n p stack,dst.remove (n :: p))
    | some (.symlink _), false, none => some (.symlink n p stack,dst)
    | _, _, _ => none
  | .copySymlink _ p stack, .through t =>
    if dst.linked p = true then some (.next stack,t) else none
  | .symlink n p stack, .proceed =>
    match src.node (n :: p), dst.node (n :: p) with
    | some (.symlink target), none =>
      if dst.takes (n :: p) = true then
        some (.next stack,dst.put (n :: p) (.symlink target))
      else none
    | _, _ => none
  | _, _ => none

/-- The copy is not led through a link, and what it takes for installed is the same file. -/
def Copying.clear (src dst : Tree) : Copying → Bool
  | .enter p _ => !dst.linked p
  | .isAlreadyInstalled n p _ =>
    !dst.linked (n :: p) &&
      match src.node (n :: p), dst.node (n :: p) with
      | some (.file data), some (.file there) => decide (data.length = there.length → there = data)
      | _, _ => true
  | .copyFile n p _ => !dst.linked (n :: p)
  | .copySymlink _ p _ => !dst.linked p
  | .readDir _ _ | .next _ | .symlink _ _ _ => true

/-- What a step can do while the copy is clear. -/
inductive CopyStep (src dst : Tree) : Copying → Copying → Tree → Prop where
  | present {p stack} : CopyStep src dst (.enter p stack) (.readDir p stack) dst
  | createDir {p stack} : dst.node p = none → dst.takes p = true →
      CopyStep src dst (.enter p stack) (.readDir p stack) (dst.put p .dir)
  | readDir {p stack} {names : List Text} : src.node p = some .dir →
      (∀ n, (src.node (n :: p)).isSome = true → n ∈ names) →
      CopyStep src dst (.readDir p stack) (.next (⟨p,names⟩ :: stack)) dst
  | leave {p stack} : CopyStep src dst (.next (⟨p,[]⟩ :: stack)) (.next stack) dst
  | dir {n p rest stack} : src.node (n :: p) = some .dir →
      CopyStep src dst (.next (⟨p,n :: rest⟩ :: stack)) (.enter (n :: p) (⟨p,rest⟩ :: stack)) dst
  | link {n p rest stack} : CopyStep src dst (.next (⟨p,n :: rest⟩ :: stack))
      (.copySymlink n p (⟨p,rest⟩ :: stack)) dst
  | file {n p rest stack} : CopyStep src dst (.next (⟨p,n :: rest⟩ :: stack))
      (.isAlreadyInstalled n p (⟨p,rest⟩ :: stack)) dst
  | installed {n p stack data} : src.node (n :: p) = some (.file data) →
      dst.node (n :: p) = some (.file data) →
      CopyStep src dst (.isAlreadyInstalled n p stack) (.next stack) dst
  | differs {n p stack} :
      CopyStep src dst (.isAlreadyInstalled n p stack) (.copyFile n p stack) dst
  | writing {n p stack data} (count : Nat) : src.node (n :: p) = some (.file data) →
      dst.takes (n :: p) = true →
      CopyStep src dst (.copyFile n p stack) (.copyFile n p stack)
        (dst.put (n :: p) (.file (data.take count)))
  | written {n p stack data} : src.node (n :: p) = some (.file data) →
      dst.takes (n :: p) = true →
      CopyStep src dst (.copyFile n p stack) (.next stack) (dst.put (n :: p) (.file data))
  | linked {n p stack target} : src.node (n :: p) = some (.symlink target) →
      dst.node (n :: p) = some (.symlink target) →
      CopyStep src dst (.copySymlink n p stack) (.next stack) dst
  | removed {n p stack target} : src.node (n :: p) = some (.symlink target) →
      CopyStep src dst (.copySymlink n p stack) (.symlink n p stack) (dst.remove (n :: p))
  | free {n p stack} : CopyStep src dst (.copySymlink n p stack) (.symlink n p stack) dst
  | symlink {n p stack target} : src.node (n :: p) = some (.symlink target) →
      dst.takes (n :: p) = true →
      CopyStep src dst (.symlink n p stack) (.next stack) (dst.put (n :: p) (.symlink target))

variable {follow : Follow} {src dst dst' : Tree} {c c' : Copying} {choice : Choice}

theorem copyStep_clear (hclear : c.clear src dst = true)
    (h : copyStep follow src dst c choice = some (c',dst')) : CopyStep src dst c c' dst' := by
  unfold copyStep at h
  split at h
  · rename_i p stack
    simp only [Copying.clear,Bool.not_eq_true'] at hclear
    simp only [FileTree.stat_of_unlinked hclear] at h
    split at h
    · cases h
      exact .present
    · rename_i hnone
      split at h
      · rename_i htakes
        cases h
        exact .createDir hnone htakes.2
      · cases h
  · rename_i p stack t
    simp only [Copying.clear,Bool.not_eq_true'] at hclear
    simp [hclear] at h
  · rename_i p stack names
    split at h
    · rename_i hdir
      cases h
      exact .readDir hdir.1 (fun n hn => hdir.2.mem_iff.mpr (FileTree.mem_listing.mpr hn))
    · cases h
  · cases h
    exact .leave
  · rename_i p n rest stack
    split at h <;> cases h
    · rename_i hsrc
      exact .dir hsrc
    · exact .link
    · exact .file
  · rename_i n p stack
    simp only [Copying.clear,Bool.and_eq_true,Bool.not_eq_true'] at hclear
    simp only [FileTree.stat_of_unlinked hclear.1] at h
    split at h
    · rename_i data there hsrc hdst
      split at h
      · rename_i hlength
        have hsame : there = data := by simpa [hsrc,hdst,hlength] using hclear.2
        cases h
        exact .installed hsrc (hsame ▸ hdst)
      · cases h
        exact .differs
    · cases h
      exact .differs
    · cases h
  · rename_i n p stack count
    split at h
    · rename_i data hsrc
      split at h
      · rename_i htakes
        split at h
        · rename_i hall
          cases h
          rw [List.take_of_length_le hall]
          exact .written hsrc htakes.2
        · cases h
          exact .writing count hsrc htakes.2
      · cases h
    · cases h
  · rename_i n p stack t
    simp only [Copying.clear,Bool.not_eq_true'] at hclear
    simp [hclear] at h
  · rename_i n p stack
    split at h
    · rename_i target existing hsrc _ hdst
      split at h
      · rename_i hsame
        cases h
        exact .linked hsrc (hsame ▸ hdst)
      · cases h
        exact .removed hsrc
    · rename_i hsrc _ _
      cases h
      exact .removed hsrc
    · cases h
      exact .free
    · cases h
  · rename_i n p stack t
    simp only [Copying.clear,Bool.not_eq_true'] at hclear
    simp [hclear] at h
  · rename_i n p stack
    split at h
    · rename_i target hsrc _
      split at h
      · rename_i htakes
        cases h
        exact .symlink hsrc htakes
      · cases h
    · cases h
  · cases h

/-! ### Where a copy writes -/

/-- Below the root, a directory is only entered if the source has it. -/
def Copying.Known (src : Tree) : Copying → Prop
  | .enter p _ => p = [] ∨ src.node p = some .dir
  | _ => True

theorem known_step (hstep : CopyStep src dst c c' dst') : c'.Known src := by
  cases hstep with
  | dir hsrc => exact .inr hsrc
  | _ => trivial

/-- Wherever a step changes the target, the source has something, or it is the target's root. -/
theorem copyStep_at (hknown : c.Known src) (hstep : CopyStep src dst c c' dst') (q : Place Text) :
    dst'.node q = dst.node q ∨ q = [] ∧ dst'.node q = some .dir ∨
      q ≠ [] ∧ ∃ e, src.node q = some e := by
  have hput : ∀ {n p e e'}, src.node (n :: p) = some e' → (dst.put (n :: p) e).node q = dst.node q ∨
      q = [] ∧ (dst.put (n :: p) e).node q = some .dir ∨ q ≠ [] ∧ ∃ e, src.node q = some e := by
    intro n p e e' hsrc
    rcases FileTree.node_put_cases (n :: p) q e with hsame | ⟨rfl,_⟩
    · exact .inl hsame
    · exact .inr (.inr ⟨by simp,e',hsrc⟩)
  cases hstep with
  | @createDir p stack hnone htakes =>
    rcases FileTree.node_put_cases p q .dir with hsame | ⟨rfl,hdir⟩
    · exact .inl hsame
    · rcases hknown with hroot | hsrc
      · exact .inr (.inl ⟨hroot,hdir⟩)
      · by_cases hq : q = []
        · exact .inr (.inl ⟨hq,hdir⟩)
        · exact .inr (.inr ⟨hq,.dir,hsrc⟩)
  | writing count hsrc htakes => exact hput hsrc
  | written hsrc htakes => exact hput hsrc
  | symlink hsrc htakes => exact hput hsrc
  | @removed n p stack target hsrc =>
    by_cases hq : q = n :: p
    · exact .inr (.inr ⟨by simp [hq],.symlink target,hq ▸ hsrc⟩)
    · exact .inl (FileTree.node_remove_of_ne hq)
  | _ => exact .inl rfl

/-! ### What is copied -/

/-- Every file and link of the source is in the target. -/
def Covers (src dst : Tree) : Prop :=
  ∀ p e, src.node p = some e → e ≠ .dir → dst.node p = some e

def Stacked (stack : List Frame) (q : Place Text) : Prop :=
  ∃ f ∈ stack, ∃ n ∈ f.rest, (n :: f.dir) <:+ q

/-- The copy is still to come to a place. -/
def Copying.Pending : Copying → Place Text → Prop
  | .enter p stack, q | .readDir p stack, q => p <:+ q ∨ Stacked stack q
  | .next stack, q => Stacked stack q
  | .isAlreadyInstalled n p stack, q | .copyFile n p stack, q | .copySymlink n p stack, q
    | .symlink n p stack, q => (n :: p) <:+ q ∨ Stacked stack q

def Copied (src dst : Tree) (c : Copying) : Prop :=
  ∀ q e, src.node q = some e → e ≠ .dir → c.Pending q ∨ dst.node q = some e

theorem stacked_cons {f : Frame} {stack : List Frame} {q : Place Text} :
    Stacked (f :: stack) q ↔ (∃ n ∈ f.rest, (n :: f.dir) <:+ q) ∨ Stacked stack q := by
  simp only [Stacked,List.exists_mem_cons_iff]

theorem stacked_next {p : Place Text} {n : Text} {rest : List Text} {stack : List Frame}
    {q : Place Text} (h : Stacked (⟨p,n :: rest⟩ :: stack) q) :
    (n :: p) <:+ q ∨ Stacked (⟨p,rest⟩ :: stack) q := by
  rcases stacked_cons.mp h with ⟨m,hm,hq⟩ | hlater
  · rcases List.mem_cons.mp hm with rfl | hm
    · exact .inl hq
    · exact .inr (stacked_cons.mpr (.inl ⟨m,hm,hq⟩))
  · exact .inr (stacked_cons.mpr (.inr hlater))

theorem copied_start (src dst : Tree) : Copied src dst (.enter [] []) :=
  fun _ _ _ _ => .inl (.inl (List.nil_suffix))

theorem covers_of_copied (h : Copied src dst (.next [])) : Covers src dst := by
  intro q e hq he
  rcases h q e hq he with ⟨f,hf,_⟩ | hdst
  · cases hf
  · exact hdst

/-- Nothing of the source lies below a file or a link. -/
theorem eq_of_leaf {p q : Place Text} {e e' : Node} (hp : src.node p = some e') (hleaf : e' ≠ .dir)
    (hsuffix : p <:+ q) (hq : src.node q = some e) : q = p := by
  by_contra hne
  have hdir := FileTree.node_above hsuffix (Ne.symm hne) hq
  rw [hp] at hdir
  exact hleaf (Option.some.inj hdir)

/-- A place is done once the target holds there what the source does. -/
theorem copied_leaf {n : Text} {p : Place Text} {stack : List Frame} {e : Node}
    (hsrc : src.node (n :: p) = some e) (hleaf : e ≠ .dir) (hdst : dst'.node (n :: p) = some e)
    (hother : ∀ q, q ≠ n :: p → dst'.node q = dst.node q)
    (h : ∀ q e, src.node q = some e → e ≠ .dir →
      ((n :: p) <:+ q ∨ Stacked stack q) ∨ dst.node q = some e) :
    Copied src dst' (.next stack) := by
  intro q e' hq he'
  by_cases heq : q = n :: p
  · subst heq
    rw [hsrc] at hq
    exact .inr (hq ▸ hdst)
  · rcases h q e' hq he' with (hbelow | hlater) | hthere
    · exact absurd (eq_of_leaf hsrc hleaf hbelow hq) heq
    · exact .inl hlater
    · exact .inr ((hother q heq).trans hthere)

/-- A change at a place the copy is still to come to. -/
theorem copied_pending {p : Place Text} (h : Copied src dst c)
    (hsame : ∀ q, c.Pending q → c'.Pending q) (hp : c'.Pending p)
    (hother : ∀ q, q ≠ p → dst'.node q = dst.node q) : Copied src dst' c' := by
  intro q e hq he
  by_cases heq : q = p
  · exact .inl (heq ▸ hp)
  · rcases h q e hq he with hlater | hthere
    · exact .inl (hsame q hlater)
    · exact .inr ((hother q heq).trans hthere)

theorem copied_same (h : Copied src dst c) (hsame : ∀ q, c.Pending q → c'.Pending q) :
    Copied src dst c' :=
  fun q e hq he => (h q e hq he).imp_left (hsame q)

theorem copied_step (h : Copied src dst c) (hstep : CopyStep src dst c c' dst') :
    Copied src dst' c' := by
  cases hstep with
  | present => exact copied_same h (fun q hq => hq)
  | createDir hnone htakes =>
    exact copied_pending h (fun q hq => hq) (.inl (List.suffix_refl _))
      (fun q hne => FileTree.node_put_of_ne _ hne)
  | @readDir p stack names hdir hnames =>
    intro q e hq he
    rcases h q e hq he with (hbelow | hlater) | hthere
    · -- The place is below the directory, and so below one of its names.
      have hne : p ≠ q := by
        rintro rfl
        exact he (Option.some.inj (hq.symm.trans hdir))
      obtain ⟨n,hn⟩ := FileTree.exists_next hbelow hne
      obtain ⟨e',he'⟩ := FileTree.exists_above hn hq
      exact .inl (stacked_cons.mpr (.inl ⟨n,hnames n (by rw [he']; rfl),hn⟩))
    · exact .inl (stacked_cons.mpr (.inr hlater))
    · exact .inr hthere
  | leave =>
    refine copied_same h (fun q hq => ?_)
    rcases stacked_cons.mp hq with ⟨n,hn,_⟩ | hlater
    · cases hn
    · exact hlater
  | dir hsrc => exact copied_same h (fun q hq => stacked_next hq)
  | link => exact copied_same h (fun q hq => stacked_next hq)
  | file => exact copied_same h (fun q hq => stacked_next hq)
  | installed hsrc hdst => exact copied_leaf hsrc (by simp) hdst (fun q _ => rfl) h
  | differs => exact copied_same h (fun q hq => hq)
  | writing count hsrc htakes =>
    exact copied_pending h (fun q hq => hq) (.inl (List.suffix_refl _))
      (fun q hne => FileTree.node_put_of_ne _ hne)
  | written hsrc htakes =>
    exact copied_leaf hsrc (by simp) (by simp [FileTree.node_put htakes])
      (fun q hne => FileTree.node_put_of_ne _ hne) h
  | linked hsrc hdst => exact copied_leaf hsrc (by simp) hdst (fun q _ => rfl) h
  | removed hsrc =>
    exact copied_pending h (fun q hq => hq) (.inl (List.suffix_refl _))
      (fun q hne => FileTree.node_remove_of_ne hne)
  | free => exact copied_same h (fun q hq => hq)
  | symlink hsrc htakes =>
    exact copied_leaf hsrc (by simp) (by simp [FileTree.node_put htakes])
      (fun q hne => FileTree.node_put_of_ne _ hne) h

end PgEmbedSetup.Cache
