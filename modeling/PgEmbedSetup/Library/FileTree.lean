import Mathlib.Data.List.Dedup
import Mathlib.Data.List.Infix
import Mathlib.Logic.Function.Basic
import PgEmbedSetup.Library.PathWalk

set_option autoImplicit false

/-!
Finite file trees that may be absent, rooted at `[]`. Whatever exists lies in a directory.
-/

namespace PgEmbedSetup.Library

variable {ν δ τ : Type}

/-- A file holds `δ`, and a link says `τ`. -/
inductive Entry (δ τ : Type) where
  | dir
  | file (data : δ)
  | symlink (target : τ)
  deriving DecidableEq, Repr

namespace Entry

def isDir : Entry δ τ → Bool
  | .dir => true
  | _ => false

def isSymlink : Entry δ τ → Bool
  | .symlink _ => true
  | _ => false

end Entry

structure FileTree (ν δ τ : Type) where
  node : Place ν → Option (Entry δ τ)
  /-- Among others, every place where something is. -/
  places : List (Place ν)
  parent_dir : ∀ n p e, node (n :: p) = some e → node p = some .dir
  listed : ∀ p e, node p = some e → p ∈ places

namespace FileTree

def absent : FileTree ν δ τ := ⟨fun _ => none,[],by simp,by simp⟩

theorem isDir_iff {o : Option (Entry δ τ)} : o.any Entry.isDir = true ↔ o = some .dir := by
  cases o with
  | none => simp
  | some e => cases e <;> simp [Entry.isDir]

/-- Whether a place is the root or lies in a directory. -/
def inDir (t : FileTree ν δ τ) : Place ν → Bool
  | [] => true
  | _ :: p => (t.node p).any Entry.isDir

/-- Whether something other than a directory's successor can be put there. -/
def takes (t : FileTree ν δ τ) (p : Place ν) : Bool :=
  t.inDir p && !(t.node p).any Entry.isDir

theorem inDir_cons {t : FileTree ν δ τ} {n : ν} {p : Place ν} :
    t.inDir (n :: p) = true ↔ t.node p = some .dir := isDir_iff

theorem takes_iff {t : FileTree ν δ τ} {p : Place ν} :
    t.takes p = true ↔ t.inDir p = true ∧ t.node p ≠ some .dir := by
  simp only [takes,Bool.and_eq_true,Bool.not_eq_true',← isDir_iff,ne_eq,Bool.not_eq_true]

theorem cons_ne (n : ν) (p : Place ν) : p ≠ n :: p := by
  intro h
  have := congrArg List.length h
  simp at this

section Changes
variable [DecidableEq ν]

/-- Puts an entry where the tree takes it, and does nothing elsewhere. -/
def put (t : FileTree ν δ τ) (p : Place ν) (e : Entry δ τ) : FileTree ν δ τ :=
  if h : t.takes p = true then
    { node := Function.update t.node p (some e)
      places := p :: t.places
      parent_dir := by
        obtain ⟨hin,hold⟩ := takes_iff.mp h
        intro n q e' he'
        by_cases hn : n :: q = p
        · subst hn
          rw [Function.update_of_ne (cons_ne n q)]
          exact inDir_cons.mp hin
        · rw [Function.update_of_ne hn] at he'
          have hdir := t.parent_dir n q e' he'
          rw [Function.update_of_ne ?_]
          · exact hdir
          · rintro rfl
            exact hold hdir
      listed := by
        intro q e' he'
        by_cases hq : q = p
        · exact hq ▸ List.mem_cons_self
        · rw [Function.update_of_ne hq] at he'
          exact List.mem_cons_of_mem p (t.listed q e' he') }
  else t

/-- Removes what is not a directory. -/
def remove (t : FileTree ν δ τ) (p : Place ν) : FileTree ν δ τ :=
  if h : (t.node p).any Entry.isDir = true then t
  else
    { node := Function.update t.node p none
      places := t.places
      parent_dir := by
        intro n q e' he'
        by_cases hn : n :: q = p
        · simp [hn] at he'
        · rw [Function.update_of_ne hn] at he'
          have hdir := t.parent_dir n q e' he'
          rw [Function.update_of_ne ?_]
          · exact hdir
          · rintro rfl
            exact h (isDir_iff.mpr hdir)
      listed := by
        intro q e' he'
        by_cases hq : q = p
        · simp [hq] at he'
        · rw [Function.update_of_ne hq] at he'
          exact t.listed q e' he' }

theorem node_put {t : FileTree ν δ τ} {p : Place ν} (h : t.takes p = true) (e : Entry δ τ)
    (q : Place ν) : (t.put p e).node q = if q = p then some e else t.node q := by
  simp only [put,dif_pos h,Function.update_apply]

theorem node_put_of_ne {t : FileTree ν δ τ} {p q : Place ν} (e : Entry δ τ) (hne : q ≠ p) :
    (t.put p e).node q = t.node q := by
  unfold put
  split
  · exact Function.update_of_ne hne _ _
  · rfl

theorem node_put_cases {t : FileTree ν δ τ} (p q : Place ν) (e : Entry δ τ) :
    (t.put p e).node q = t.node q ∨ q = p ∧ (t.put p e).node q = some e := by
  unfold put
  split
  · by_cases hq : q = p
    · exact .inr ⟨hq,by simp [hq]⟩
    · exact .inl (Function.update_of_ne hq _ _)
  · exact .inl rfl

theorem node_remove_of_ne {t : FileTree ν δ τ} {p q : Place ν} (hne : q ≠ p) :
    (t.remove p).node q = t.node q := by
  unfold remove
  split
  · rfl
  · exact Function.update_of_ne hne _ _

/-- The names in a directory, each once. -/
def listing (t : FileTree ν δ τ) (p : Place ν) : List ν :=
  (t.places.filterMap fun q =>
    match q with
    | [] => none
    | n :: r => if r = p then some n else none).dedup.filter fun n => (t.node (n :: p)).isSome

theorem mem_listing {t : FileTree ν δ τ} {p : Place ν} {n : ν} :
    n ∈ t.listing p ↔ (t.node (n :: p)).isSome = true := by
  refine ⟨fun h => (List.mem_filter.mp h).2,fun h => List.mem_filter.mpr ⟨?_,h⟩⟩
  obtain ⟨e,he⟩ := Option.isSome_iff_exists.mp h
  refine List.mem_dedup.mpr (List.mem_filterMap.mpr ⟨n :: p,t.listed _ _ he,?_⟩)
  simp

end Changes

/-! ### Above and below -/

/-- One name further down on the way to a place below. -/
theorem exists_next {p q : Place ν} (h : p <:+ q) (hne : p ≠ q) : ∃ n, n :: p <:+ q := by
  obtain ⟨r,rfl⟩ := h
  rcases List.eq_nil_or_concat r with rfl | ⟨r,n,rfl⟩
  · exact absurd rfl hne
  · exact ⟨n,r,by simp⟩

/-- Above whatever exists are directories. -/
theorem node_above {t : FileTree ν δ τ} {p q : Place ν} {e : Entry δ τ} (h : p <:+ q) (hne : p ≠ q)
    (hq : t.node q = some e) : t.node p = some .dir := by
  induction q generalizing e with
  | nil => exact absurd (List.suffix_nil.mp h) hne
  | cons n q ih =>
    have hdir := t.parent_dir n q e hq
    rcases List.suffix_cons_iff.mp h with heq | hsuffix
    · exact absurd heq hne
    · by_cases hpq : p = q
      · exact hpq ▸ hdir
      · exact ih hsuffix hpq hdir

/-- Something lies at or below a place only if something is there. -/
theorem exists_above {t : FileTree ν δ τ} {p q : Place ν} {e : Entry δ τ} (h : p <:+ q)
    (hq : t.node q = some e) : ∃ e', t.node p = some e' := by
  by_cases hne : p = q
  · exact ⟨e,hne ▸ hq⟩
  · exact ⟨.dir,node_above h hne hq⟩

/-! ### Links -/

/-- Whether a path goes through a link or ends in one. -/
def linked (t : FileTree ν δ τ) (p : Place ν) : Bool :=
  p.tails.any fun q => (t.node q).any Entry.isSymlink

/-- What is found at the end of a path, links followed. `follow` tells where paths lead that
go through links. -/
def stat (follow : FileTree ν δ τ → Place ν → Option (Entry δ τ)) (t : FileTree ν δ τ)
    (p : Place ν) : Option (Entry δ τ) :=
  if t.linked p then follow t p else t.node p

theorem stat_of_unlinked {follow : FileTree ν δ τ → Place ν → Option (Entry δ τ)}
    {t : FileTree ν δ τ} {p : Place ν} (h : t.linked p = false) : t.stat follow p = t.node p := by
  simp [stat,h]

theorem exists_link {t : FileTree ν δ τ} {p : Place ν} (h : t.linked p = true) :
    ∃ q x, q <:+ p ∧ t.node q = some (.symlink x) := by
  obtain ⟨q,hq,hlink⟩ := List.any_eq_true.mp h
  refine ⟨q,?_⟩
  cases hn : t.node q with
  | none => simp [hn] at hlink
  | some e =>
    cases e with
    | symlink x => exact ⟨x,(List.mem_tails _ _).mp hq,rfl⟩
    | dir => simp [hn,Entry.isSymlink] at hlink
    | file data => simp [hn,Entry.isSymlink] at hlink

end FileTree
end PgEmbedSetup.Library
