import Mathlib.Data.List.Infix
import PgEmbedSetup.Cache.Copy
import PgEmbedSetup.Library.Transition

set_option autoImplicit false

/-!
A copy into what earlier copies of the same source have left. Whatever they got done is a part
of the source, every branch of the copy brings a part nearer to the whole, and the whole is
left alone.
-/

namespace PgEmbedSetup.Cache
open Library

/-! ### A part of the source -/

/-- What the target may hold where the source has an entry: of a file the beginning. -/
def Entails : Node → Node → Prop
  | .file data, .file there => there <+: data
  | e, there => there = e

theorem entails_refl (e : Node) : Entails e e := by
  cases e with
  | file data => exact List.prefix_rfl
  | dir => rfl
  | symlink target => rfl

theorem entails_dir {e : Node} (h : Entails .dir e) : e = .dir := h

theorem entails_symlink {e : Node} {target : Text} (h : Entails (.symlink target) e) :
    e = .symlink target := h

theorem entails_file {e : Node} {data : Bytes} (h : Entails (.file data) e) :
    ∃ there, e = .file there ∧ there <+: data := by
  cases e with
  | file there => exact ⟨there,rfl,h⟩
  | dir => cases h
  | symlink target => cases h

structure PartialCopy (src dst : Tree) : Prop where
  root : ∀ e, dst.node [] = some e → e = .dir
  part : ∀ p e, p ≠ [] → dst.node p = some e → ∃ e', src.node p = some e' ∧ Entails e' e

variable {follow : Follow} {src dst dst' : Tree} {c c' : Copying} {choice : Choice}

theorem PartialCopy.put (h : PartialCopy src dst) {p : Place Text} {e e' : Node} (hp : p ≠ [])
    (hsrc : src.node p = some e') (he : Entails e' e) : PartialCopy src (dst.put p e) := by
  refine ⟨fun x hx => ?_,fun q x hq hx => ?_⟩
  · rw [FileTree.node_put_of_ne e hp.symm] at hx
    exact h.root x hx
  · rcases FileTree.node_put_cases p q e with hsame | ⟨rfl,hnew⟩
    · rw [hsame] at hx
      exact h.part q x hq hx
    · rw [hnew] at hx
      exact ⟨e',hsrc,Option.some.inj hx ▸ he⟩

theorem PartialCopy.putDir (h : PartialCopy src dst) {p : Place Text}
    (hsrc : p = [] ∨ src.node p = some .dir) : PartialCopy src (dst.put p .dir) := by
  by_cases hp : p = []
  · refine ⟨fun x hx => ?_,fun q x hq hx => ?_⟩
    · rcases FileTree.node_put_cases p [] (.dir : Node) with hsame | ⟨-,hnew⟩
      · rw [hsame] at hx
        exact h.root x hx
      · rw [hnew] at hx
        exact (Option.some.inj hx).symm
    · rw [FileTree.node_put_of_ne _ (hp ▸ hq)] at hx
      exact h.part q x hq hx
  · exact h.put hp (hsrc.resolve_left hp) rfl

/-- Where the source has a directory or a file, no path of the target leads through a link. -/
theorem PartialCopy.unlinked (h : PartialCopy src dst) {p : Place Text} {e : Node}
    (hsrc : src.node p = some e) (he : ∀ target, e ≠ .symlink target) : dst.linked p = false := by
  by_contra hlinked
  obtain ⟨q,target,hqp,hlink⟩ := FileTree.exists_link (Bool.not_eq_false _ ▸ hlinked)
  have hq : q ≠ [] := by
    rintro rfl
    cases h.root _ hlink
  obtain ⟨e',hsrc',hentails⟩ := h.part q _ hq hlink
  have hkind : e' = .symlink target := by
    cases e' with
    | dir => cases hentails
    | file data => cases hentails
    | symlink other => rw [entails_symlink hentails]
  by_cases heq : q = p
  · rw [heq,hsrc,Option.some.injEq] at hsrc'
    exact he target (hsrc'.trans hkind)
  · have hdir := FileTree.node_above hqp heq hsrc
    rw [hdir,Option.some.injEq,hkind] at hsrc'
    cases hsrc'

theorem PartialCopy.unlinked_root (h : PartialCopy src dst) : dst.linked [] = false := by
  by_contra hlinked
  obtain ⟨q,target,hq,hlink⟩ := FileTree.exists_link (Bool.not_eq_false _ ▸ hlinked)
  rw [List.suffix_nil.mp hq] at hlink
  cases h.root _ hlink

/-- Once the target is the whole of the source it is also a part of it. -/
theorem partialCopy_of_same (hroot : src.node [] = some .dir) (h : dst.node = src.node) :
    PartialCopy src dst := by
  refine ⟨fun e he => ?_,fun p e _ he => ⟨e,h ▸ he,entails_refl e⟩⟩
  rw [h,hroot] at he
  exact (Option.some.inj he).symm

/-! ### What a step can do with a part -/

/-- What the copy knows of the source where it stands. -/
def Copying.Knows (src : Tree) : Copying → Prop
  | .enter p _ | .readDir p _ => p = [] ∨ src.node p = some .dir
  | .next _ => src.node [] = some .dir
  | .isAlreadyInstalled n p _ | .copyFile n p _ => ∃ data, src.node (n :: p) = some (.file data)
  | .copySymlink n p _ | .symlink n p _ => ∃ target, src.node (n :: p) = some (.symlink target)

inductive PartStep (src dst : Tree) : Copying → Copying → Tree → Prop where
  | present {p stack} : dst.node p = some .dir → PartStep src dst (.enter p stack) (.readDir p stack) dst
  | createDir {p stack} : dst.node p = none → dst.takes p = true →
      PartStep src dst (.enter p stack) (.readDir p stack) (dst.put p .dir)
  | readDir {p stack} {names : List Text} : src.node p = some .dir → names.Perm (src.listing p) →
      PartStep src dst (.readDir p stack) (.next (⟨p,names⟩ :: stack)) dst
  | leave {p stack} : PartStep src dst (.next (⟨p,[]⟩ :: stack)) (.next stack) dst
  | dir {n p rest stack} : src.node (n :: p) = some .dir →
      PartStep src dst (.next (⟨p,n :: rest⟩ :: stack)) (.enter (n :: p) (⟨p,rest⟩ :: stack)) dst
  | link {n p rest stack target} : src.node (n :: p) = some (.symlink target) →
      PartStep src dst (.next (⟨p,n :: rest⟩ :: stack)) (.copySymlink n p (⟨p,rest⟩ :: stack)) dst
  | file {n p rest stack data} : src.node (n :: p) = some (.file data) →
      PartStep src dst (.next (⟨p,n :: rest⟩ :: stack))
        (.isAlreadyInstalled n p (⟨p,rest⟩ :: stack)) dst
  | installed {n p stack data} : src.node (n :: p) = some (.file data) →
      dst.node (n :: p) = some (.file data) →
      PartStep src dst (.isAlreadyInstalled n p stack) (.next stack) dst
  | differs {n p stack data} : src.node (n :: p) = some (.file data) →
      dst.node (n :: p) ≠ some (.file data) →
      PartStep src dst (.isAlreadyInstalled n p stack) (.copyFile n p stack) dst
  | writing {n p stack data} (count : Nat) : src.node (n :: p) = some (.file data) →
      dst.takes (n :: p) = true →
      PartStep src dst (.copyFile n p stack) (.copyFile n p stack)
        (dst.put (n :: p) (.file (data.take count)))
  | written {n p stack data} : src.node (n :: p) = some (.file data) →
      dst.takes (n :: p) = true →
      PartStep src dst (.copyFile n p stack) (.next stack) (dst.put (n :: p) (.file data))
  | linked {n p stack target} : src.node (n :: p) = some (.symlink target) →
      dst.node (n :: p) = some (.symlink target) →
      PartStep src dst (.copySymlink n p stack) (.next stack) dst
  | free {n p stack target} : src.node (n :: p) = some (.symlink target) →
      dst.node (n :: p) = none →
      PartStep src dst (.copySymlink n p stack) (.symlink n p stack) dst
  | symlink {n p stack target} : src.node (n :: p) = some (.symlink target) →
      dst.takes (n :: p) = true →
      PartStep src dst (.symlink n p stack) (.next stack) (dst.put (n :: p) (.symlink target))

theorem PartialCopy.dir (h : PartialCopy src dst) {p : Place Text} {e : Node}
    (hsrc : p = [] ∨ src.node p = some .dir) (hdst : dst.node p = some e) : e = .dir := by
  by_cases hp : p = []
  · exact h.root e (hp ▸ hdst)
  · obtain ⟨e',hsrc',hentails⟩ := h.part p e hp hdst
    rw [hsrc.resolve_left hp,Option.some.injEq] at hsrc'
    exact entails_dir (hsrc' ▸ hentails)

theorem PartialCopy.entered (h : PartialCopy src dst) {p : Place Text}
    (hsrc : p = [] ∨ src.node p = some .dir) : dst.linked p = false := by
  rcases hsrc with rfl | hsrc
  · exact h.unlinked_root
  · exact h.unlinked hsrc (by simp)

/-- No part of a source leads the copy through a link, and what it takes for installed is. -/
theorem copyStep_part (hpart : PartialCopy src dst) (hknows : c.Knows src)
    (h : copyStep follow src dst c choice = some (c',dst')) : PartStep src dst c c' dst' := by
  unfold copyStep at h
  split at h
  · rename_i p stack
    rw [FileTree.stat_of_unlinked (hpart.entered hknows)] at h
    split at h
    · rename_i e hdst
      cases h
      exact .present (hpart.dir hknows hdst ▸ hdst)
    · rename_i hnone
      split at h
      · rename_i htakes
        cases h
        exact .createDir hnone htakes.2
      · cases h
  · rename_i p stack t
    simp [hpart.entered hknows] at h
  · rename_i p stack names
    split at h
    · rename_i hdir
      cases h
      exact .readDir hdir.1 hdir.2
    · cases h
  · cases h
    exact .leave
  · rename_i p n rest stack
    split at h
    · rename_i hsrc
      cases h
      exact .dir hsrc
    · rename_i target hsrc
      cases h
      exact .link hsrc
    · rename_i data hsrc
      cases h
      exact .file hsrc
    · cases h
  · rename_i n p stack
    obtain ⟨data,hsrc⟩ := hknows
    rw [FileTree.stat_of_unlinked (hpart.unlinked hsrc (by simp)),hsrc] at h
    cases hdst : dst.node (n :: p) with
    | none =>
      rw [hdst] at h
      cases h
      exact .differs hsrc (by simp [hdst])
    | some e =>
      obtain ⟨e',hsrc',hentails⟩ := hpart.part (n :: p) e (by simp) hdst
      rw [hsrc,Option.some.injEq] at hsrc'
      subst hsrc'
      obtain ⟨there,rfl,hstart⟩ := entails_file hentails
      rw [hdst] at h
      dsimp only at h
      split at h
      · rename_i hlength
        cases h
        exact .installed hsrc (hstart.eq_of_length hlength.symm ▸ hdst)
      · rename_i hlength
        cases h
        refine .differs hsrc (fun hsame => hlength ?_)
        rw [hdst,Option.some.injEq,Entry.file.injEq] at hsame
        rw [hsame]
  · rename_i n p stack count
    obtain ⟨data,hsrc⟩ := hknows
    rw [hsrc] at h
    dsimp only at h
    split at h
    · rename_i htakes
      split at h
      · rename_i hall
        cases h
        rw [List.take_of_length_le hall]
        exact .written hsrc htakes.2
      · cases h
        exact .writing count hsrc htakes.2
    · cases h
  · rename_i n p stack t
    obtain ⟨data,hsrc⟩ := hknows
    simp [hpart.unlinked hsrc (by simp)] at h
  · rename_i n p stack
    obtain ⟨target,hsrc⟩ := hknows
    have hsame : ∀ e, dst.node (n :: p) = some e → e = .symlink target := by
      intro e hdst
      obtain ⟨e',hsrc',hentails⟩ := hpart.part (n :: p) e (by simp) hdst
      rw [hsrc,Option.some.injEq] at hsrc'
      exact entails_symlink (hsrc' ▸ hentails)
    split at h
    · rename_i target' existing hsrc' _ hdst
      rw [hsrc,Option.some.injEq,Entry.symlink.injEq] at hsrc'
      have hexisting := Entry.symlink.inj (hsame _ hdst)
      rw [if_pos (hexisting.trans hsrc')] at h
      cases h
      exact .linked hsrc (hexisting ▸ hdst)
    · rename_i hdst
      cases hsame _ hdst
    · rename_i hdst
      cases h
      exact .free hsrc hdst
    · cases h
  · rename_i n p stack t
    obtain ⟨target,hsrc⟩ := hknows
    have hdir := src.parent_dir n p _ hsrc
    simp [hpart.unlinked hdir (by simp)] at h
  · rename_i n p stack
    obtain ⟨target,hsrc⟩ := hknows
    rw [hsrc] at h
    split at h
    · rename_i target' hsrc' _
      rw [Option.some.injEq,Entry.symlink.injEq] at hsrc'
      split at h
      · rename_i htakes
        cases h
        exact .symlink (hsrc' ▸ hsrc) htakes
      · cases h
    · cases h
  · cases h

theorem root_dir_of_node {p : Place Text} {e : Node} (hp : p ≠ []) (h : src.node p = some e) :
    src.node [] = some .dir := FileTree.node_above List.nil_suffix hp.symm h

theorem knows_step (hknows : c.Knows src) (hstep : PartStep src dst c c' dst') : c'.Knows src := by
  cases hstep with
  | present hdst => exact hknows
  | createDir hnone htakes => exact hknows
  | @readDir p stack names hdir hnames =>
    by_cases hp : p = []
    · exact hp ▸ hdir
    · exact root_dir_of_node hp hdir
  | leave => exact hknows
  | dir hsrc => exact .inr hsrc
  | link hsrc => exact ⟨_,hsrc⟩
  | file hsrc => exact ⟨_,hsrc⟩
  | installed hsrc hdst => exact root_dir_of_node (by simp) hsrc
  | differs hsrc hdst => exact ⟨_,hsrc⟩
  | writing count hsrc htakes => exact ⟨_,hsrc⟩
  | written hsrc htakes => exact root_dir_of_node (by simp) hsrc
  | linked hsrc hdst => exact root_dir_of_node (by simp) hsrc
  | free hsrc hdst => exact ⟨_,hsrc⟩
  | symlink hsrc htakes => exact root_dir_of_node (by simp) hsrc

theorem partialCopy_step (hpart : PartialCopy src dst) (hknows : c.Knows src)
    (hstep : PartStep src dst c c' dst') : PartialCopy src dst' := by
  cases hstep with
  | createDir hnone htakes => exact hpart.putDir hknows
  | writing count hsrc htakes => exact hpart.put (by simp) hsrc (List.take_prefix _ _)
  | written hsrc htakes => exact hpart.put (by simp) hsrc (entails_refl _)
  | symlink hsrc htakes => exact hpart.put (by simp) hsrc rfl
  | _ => exact hpart

theorem PartStep.copyStep (hstep : PartStep src dst c c' dst') : CopyStep src dst c c' dst' := by
  cases hstep with
  | present hdst => exact .present
  | createDir hnone htakes => exact .createDir hnone htakes
  | readDir hdir hnames =>
    exact .readDir hdir (fun n hn => hnames.mem_iff.mpr (FileTree.mem_listing.mpr hn))
  | leave => exact .leave
  | dir hsrc => exact .dir hsrc
  | link hsrc => exact .link
  | file hsrc => exact .file
  | installed hsrc hdst => exact .installed hsrc hdst
  | differs hsrc hdst => exact .differs
  | writing count hsrc htakes => exact .writing count hsrc htakes
  | written hsrc htakes => exact .written hsrc htakes
  | linked hsrc hdst => exact .linked hsrc hdst
  | free hsrc hdst => exact .free
  | symlink hsrc htakes => exact .symlink hsrc htakes

/-! ### Directories -/

/-- The copy is still to create a directory. Unlike a file below it, the one being read is
there. -/
def Copying.Due : Copying → Place Text → Prop
  | .enter p stack, q => p <:+ q ∨ Stacked stack q
  | .readDir p stack, q => (p <:+ q ∧ p ≠ q) ∨ Stacked stack q
  | .next stack, q | .isAlreadyInstalled _ _ stack, q | .copyFile _ _ stack, q
    | .copySymlink _ _ stack, q | .symlink _ _ stack, q => Stacked stack q

def Made (src dst : Tree) (c : Copying) : Prop :=
  ∀ q, src.node q = some .dir → c.Due q ∨ dst.node q = some .dir

theorem made_same (h : Made src dst c) (hsame : ∀ q, src.node q = some .dir → c.Due q → c'.Due q) :
    Made src dst c' :=
  fun q hq => (h q hq).imp_left (hsame q hq)

/-- Where the source has a file or a link nothing changes for directories. -/
theorem made_leaf {p : Place Text} {e e' : Node} (h : Made src dst c) (hsrc : src.node p = some e')
    (hleaf : e' ≠ .dir) (hsame : ∀ q, c.Due q → c'.Due q) : Made src (dst.put p e) c' := by
  intro q hq
  refine (h q hq).imp (hsame q) (fun hdst => ?_)
  rw [FileTree.node_put_of_ne]
  · exact hdst
  · rintro rfl
    rw [hsrc] at hq
    exact hleaf (Option.some.inj hq)

theorem due_stacked {n : Text} {p q : Place Text} {rest : List Text} {stack : List Frame} {e : Node}
    (hsrc : src.node (n :: p) = some e) (hleaf : e ≠ .dir) (hq : src.node q = some .dir)
    (h : Stacked (⟨p,n :: rest⟩ :: stack) q) : Stacked (⟨p,rest⟩ :: stack) q := by
  refine (stacked_next h).resolve_left (fun hbelow => ?_)
  have heq := eq_of_leaf hsrc hleaf hbelow hq
  rw [heq,hsrc] at hq
  exact hleaf (Option.some.inj hq)

theorem made_step (h : Made src dst c) (hstep : PartStep src dst c c' dst') :
    Made src dst' c' := by
  -- A directory entered is there from then on, and what lies below it is still due.
  have henter : ∀ {p stack dst''}, (∀ q, q ≠ p → dst''.node q = dst.node q) →
      dst''.node p = some .dir → Made src dst (.enter p stack) →
      Made src dst'' (.readDir p stack) := by
    intro p stack dst'' hother hdir h q hq
    by_cases hqp : q = p
    · exact .inr (hqp ▸ hdir)
    · rcases h q hq with (hbelow | hlater) | hdst
      · exact .inl (.inl ⟨hbelow,Ne.symm hqp⟩)
      · exact .inl (.inr hlater)
      · exact .inr ((hother q hqp).trans hdst)
  cases hstep with
  | present hdst => exact henter (fun q _ => rfl) hdst h
  | createDir hnone htakes =>
    exact henter (fun q hne => FileTree.node_put_of_ne _ hne) (by simp [FileTree.node_put htakes]) h
  | @readDir p stack names hdir hnames =>
    refine made_same h (fun q hq hdue => ?_)
    rcases hdue with ⟨hbelow,hne⟩ | hlater
    · obtain ⟨n,hn⟩ := FileTree.exists_next hbelow hne
      obtain ⟨e,he⟩ := FileTree.exists_above hn hq
      have hmem : n ∈ names := hnames.mem_iff.mpr (FileTree.mem_listing.mpr (by rw [he]; rfl))
      exact stacked_cons.mpr (.inl ⟨n,hmem,hn⟩)
    · exact stacked_cons.mpr (.inr hlater)
  | leave =>
    refine made_same h (fun q _ hdue => ?_)
    rcases stacked_cons.mp hdue with ⟨n,hn,_⟩ | hlater
    · cases hn
    · exact hlater
  | dir hsrc => exact made_same h (fun q _ hdue => stacked_next hdue)
  | link hsrc => exact made_same h (fun q hq hdue => due_stacked hsrc (by simp) hq hdue)
  | file hsrc => exact made_same h (fun q hq hdue => due_stacked hsrc (by simp) hq hdue)
  | installed hsrc hdst => exact made_same h (fun q _ hdue => hdue)
  | differs hsrc hdst => exact made_same h (fun q _ hdue => hdue)
  | writing count hsrc htakes => exact made_leaf h hsrc (by simp) (fun q hdue => hdue)
  | written hsrc htakes => exact made_leaf h hsrc (by simp) (fun q hdue => hdue)
  | linked hsrc hdst => exact made_same h (fun q _ hdue => hdue)
  | free hsrc hdst => exact made_same h (fun q _ hdue => hdue)
  | symlink hsrc htakes => exact made_leaf h hsrc (by simp) (fun q hdue => hdue)

/-! ### One copy after the other -/

/-- A copy goes on, or it is interrupted wherever it stands, or has ended, and another one
begins with the target as it is. -/
inductive CopyAction where
  | step (choice : Choice)
  | again

def copiesStep (follow : Follow) (src : Tree) (s : Copying × Tree) :
    CopyAction → Option (Copying × Tree)
  | .step choice => copyStep follow src s.2 s.1 choice
  | .again => some (.enter [] [],s.2)

/-- Nothing, or an empty directory. -/
def Fresh (t : Tree) : Prop := ∀ p e, t.node p = some e → p = [] ∧ e = .dir

def copies (follow : Follow) (src : Tree) : System (Copying × Tree) CopyAction :=
  .ofStep (fun s => s.1 = .enter [] [] ∧ Fresh s.2) (copiesStep follow src)

/-- What holds of the copy that is going on, whatever the earlier ones have come to. -/
structure Converging (src : Tree) (s : Copying × Tree) : Prop where
  part : PartialCopy src s.2
  knows : s.1.Knows src
  copied : Copied src s.2 s.1
  made : Made src s.2 s.1

theorem converging_start (hpart : PartialCopy src dst) : Converging src (.enter [] [],dst) :=
  ⟨hpart,.inl rfl,copied_start src dst,fun _ _ => .inl (.inl List.nil_suffix)⟩

theorem partialCopy_of_fresh (h : Fresh dst) : PartialCopy src dst :=
  ⟨fun e he => (h [] e he).2,fun p e hp he => absurd (h p e he).1 hp⟩

theorem converging_step {s t : Copying × Tree} {action : CopyAction} (h : Converging src s)
    (hstep : copiesStep follow src s action = some t) : Converging src t := by
  cases action with
  | step choice =>
    have hpart := copyStep_part h.part h.knows hstep
    exact ⟨partialCopy_step h.part h.knows hpart,knows_step h.knows hpart,
      copied_step h.copied hpart.copyStep,made_step h.made hpart⟩
  | again =>
    rw [← Option.some.inj hstep]
    exact converging_start h.part

theorem converging {s : Copying × Tree} (h : (copies follow src).Reachable s) :
    Converging src s := by
  refine (copies follow src).invariant ?_ (fun _ _ _ hs hstep => converging_step hs hstep) h
  rintro ⟨c,t⟩ ⟨rfl,hfresh⟩
  exact converging_start (partialCopy_of_fresh hfresh)

/-- A copy that is through has made the target the same as the source. -/
theorem same_of_finished (h : Converging src (.next [],dst)) : dst.node = src.node := by
  funext p
  cases hsrc : src.node p with
  | none =>
    cases hdst : dst.node p with
    | none => rfl
    | some e =>
      have hp : p ≠ [] := by
        rintro rfl
        rw [show src.node [] = some .dir from h.knows] at hsrc
        cases hsrc
      obtain ⟨e',hsrc',-⟩ := h.part.part p e hp hdst
      rw [hsrc] at hsrc'
      cases hsrc'
  | some e =>
    by_cases he : e = .dir
    · rw [he] at hsrc ⊢
      rcases h.made p hsrc with ⟨f,hf,-⟩ | hdst
      · cases hf
      · exact hdst
    · exact covers_of_copied h.copied p e hsrc he

/-! ### The whole is left alone -/

/-- The copy is about to write a file or a link. -/
def Copying.rewrites : Copying → Bool
  | .copyFile .. | .symlink .. => true
  | _ => false

theorem rewrites_nothing (hroot : src.node [] = some .dir) (hsame : dst.node = src.node)
    (hknows : c.Knows src) (hquiet : c.rewrites = false) (hstep : PartStep src dst c c' dst') :
    dst' = dst ∧ c'.rewrites = false := by
  cases hstep with
  | @createDir p stack hnone htakes =>
    have hdir : src.node p = some .dir := hknows.elim (fun hp => hp ▸ hroot) id
    rw [hsame,hdir] at hnone
    cases hnone
  | differs hsrc hdst => exact absurd (hsame ▸ hsrc) hdst
  | free hsrc hdst =>
    rw [hsame,hsrc] at hdst
    cases hdst
  | writing count hsrc htakes => cases hquiet
  | written hsrc htakes => cases hquiet
  | symlink hsrc htakes => cases hquiet
  | _ => exact ⟨rfl,rfl⟩

theorem again_unchanged (hroot : src.node [] = some .dir) (hsame : dst.node = src.node)
    {as : List CopyAction} {t : Copying × Tree}
    (hrun : (copies follow src).Run (.enter [] [],dst) as t) :
    t.2 = dst ∧ t.1.rewrites = false := by
  have hpart := partialCopy_of_same hroot hsame
  have hall : t.1.Knows src ∧ t.2 = dst ∧ t.1.rewrites = false := by
    induction hrun with
    | nil => exact ⟨.inl rfl,rfl,rfl⟩
    | @snoc t u as action _ hstep ih =>
      obtain ⟨hknows,htree,hquiet⟩ := ih
      cases action with
      | step choice =>
        obtain ⟨c,there⟩ := t
        subst htree
        have hrule := copyStep_part hpart hknows hstep
        obtain ⟨hkept,hquiet'⟩ := rewrites_nothing hroot hsame hknows hquiet hrule
        exact ⟨knows_step hknows hrule,hkept,hquiet'⟩
      | again =>
        rw [← Option.some.inj hstep]
        exact ⟨.inl rfl,htree,rfl⟩
  exact hall.2

/-- However many copies have been interrupted before, and wherever, one that gets through has
made the target the same as the source, and those after it write no file and no link. -/
theorem copy_converges (follow : Follow) (src dst : Tree)
    (h : (copies follow src).Reachable (.next [],dst)) :
    dst.node = src.node ∧
    ∀ as t, (copies follow src).Run (.enter [] [],dst) as t → t.2 = dst ∧ t.1.rewrites = false := by
  have hinv := converging h
  have hsame := same_of_finished hinv
  exact ⟨hsame,fun as t hrun => again_unchanged hinv.knows hsame hrun⟩

/-! ### A copy that is interrupted in the middle of a file -/

def sampleSource : Tree :=
  let bin : Place Text := ["bin".toList]
  (((FileTree.absent.put [] .dir).put bin .dir).put ("postgres".toList :: bin) (.file [1,2])).put
    ("postgres-link".toList :: bin) (.symlink "postgres".toList)

def interruptedCopy : List CopyAction :=
  let names := ["postgres-link".toList,"postgres".toList]
  [.step .proceed,.step (.order ["bin".toList]),.step .proceed,.step .proceed,.step (.order names),
    .step .proceed,.step .proceed,.step .proceed,.step .proceed,.step .proceed,.step (.wrote 1)]

def secondCopy : List CopyAction :=
  let names := ["postgres".toList,"postgres-link".toList]
  [.again,.step .proceed,.step (.order ["bin".toList]),.step .proceed,.step .proceed,
    .step (.order names),.step .proceed,.step .proceed,.step (.wrote 2),.step .proceed,
    .step .proceed,.step .proceed,.step .proceed]

def Copying.finished : Copying → Bool
  | .next [] => true
  | _ => false

theorem eq_of_finished (h : c.finished = true) : c = .next [] := by
  unfold Copying.finished at h
  split at h
  · rfl
  · cases h

theorem copy_converges_interrupted : ∃ dst,
    (copies (fun _ _ => none) sampleSource).Reachable (.next [],dst) ∧
      dst.node = sampleSource.node ∧
      ∀ as t, (copies (fun _ _ => none) sampleSource).Run (.enter [] [],dst) as t →
        t.2 = dst ∧ t.1.rewrites = false := by
  obtain ⟨⟨c,dst⟩,hreach,hwanted⟩ := System.runSteps_reaches
    (fun s => s.1 = .enter [] [] ∧ Fresh s.2) (copiesStep (fun _ _ => none) sampleSource)
    (fun _ _ => true) (s := (.enter [] [],FileTree.absent)) ⟨rfl,fun p e h => by cases h⟩
    (interruptedCopy ++ secondCopy) (fun s => s.1.finished) (by decide +kernel)
  have hdone := eq_of_finished hwanted
  subst hdone
  have hcopies := System.reachable_of_restrict _ hreach
  exact ⟨dst,hcopies,copy_converges (fun _ _ => none) sampleSource dst hcopies⟩

end PgEmbedSetup.Cache
