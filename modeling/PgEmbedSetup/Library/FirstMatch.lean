import Mathlib.Data.List.Forall2
import Mathlib.Data.List.Nodup
import Mathlib.Data.List.Perm.Basic

set_option autoImplicit false

/-!
Two searches for the first match, one inside the other: the first group of a key, then the first
of its rows that fits.
-/

namespace PgEmbedSetup.Library

/-- Groups have a key and rows, and the rows can be replaced. -/
structure Grouping (γ κ ρ : Type) where
  key : γ → κ
  rows : γ → List ρ
  withRows : γ → List ρ → γ
  key_withRows : ∀ g l, key (withRows g l) = key g
  rows_withRows : ∀ g l, rows (withRows g l) = l
  withRows_rows : ∀ g, withRows g (rows g) = g

namespace Grouping
variable {γ κ ρ δ : Type} (grouping : Grouping γ κ ρ)

/-! ### Other orders -/

def ReorderedGroup (g g' : γ) : Prop :=
  ∃ l, (grouping.rows g).Perm l ∧ g' = grouping.withRows g l

/-- The groups in another order, and the rows of each in another order. -/
def Reordered (groups groups' : List γ) : Prop :=
  ∃ middle, groups.Perm middle ∧ List.Forall₂ grouping.ReorderedGroup middle groups'

variable {grouping} {groups groups' : List γ}

theorem ReorderedGroup.key_eq {g g' : γ} (h : grouping.ReorderedGroup g g') :
    grouping.key g' = grouping.key g := by
  obtain ⟨l,-,rfl⟩ := h
  exact grouping.key_withRows g l

theorem ReorderedGroup.mem_rows {g g' : γ} (h : grouping.ReorderedGroup g g') {r : ρ} :
    r ∈ grouping.rows g' ↔ r ∈ grouping.rows g := by
  obtain ⟨l,hperm,rfl⟩ := h
  rw [grouping.rows_withRows]
  exact hperm.mem_iff.symm

theorem reorderedGroup_refl (g : γ) : grouping.ReorderedGroup g g :=
  ⟨grouping.rows g,.refl _,(grouping.withRows_rows g).symm⟩

theorem reordered_refl (groups : List γ) : grouping.Reordered groups groups :=
  ⟨groups,.refl _,List.forall₂_same.mpr fun g _ => reorderedGroup_refl g⟩

theorem forall₂_mem_right {α β : Type} {R : α → β → Prop} {xs : List α} {ys : List β}
    (h : List.Forall₂ R xs ys) {y : β} (hy : y ∈ ys) : ∃ x ∈ xs, R x y := by
  induction h with
  | nil => cases hy
  | cons hR _ ih =>
    cases hy with
    | head => exact ⟨_,List.mem_cons_self,hR⟩
    | tail _ hy =>
      obtain ⟨x,hx,hxy⟩ := ih hy
      exact ⟨x,List.mem_cons_of_mem _ hx,hxy⟩

theorem forall₂_mem_left {α β : Type} {R : α → β → Prop} {xs : List α} {ys : List β}
    (h : List.Forall₂ R xs ys) {x : α} (hx : x ∈ xs) : ∃ y ∈ ys, R x y :=
  forall₂_mem_right h.flip hx

theorem Reordered.exists_source (h : grouping.Reordered groups groups') {g' : γ}
    (hmem : g' ∈ groups') : ∃ g ∈ groups, grouping.ReorderedGroup g g' := by
  obtain ⟨middle,hperm,hall⟩ := h
  obtain ⟨g,hg,hsame⟩ := forall₂_mem_right hall hmem
  exact ⟨g,hperm.mem_iff.mpr hg,hsame⟩

theorem Reordered.exists_target (h : grouping.Reordered groups groups') {g : γ}
    (hmem : g ∈ groups) : ∃ g' ∈ groups', grouping.ReorderedGroup g g' := by
  obtain ⟨middle,hperm,hall⟩ := h
  exact forall₂_mem_left hall (hperm.mem_iff.mp hmem)

/-- Any group can come first, with its rows in any order. -/
theorem exists_reordered_first {g : γ} (hmem : g ∈ groups) {l : List ρ}
    (hl : (grouping.rows g).Perm l) :
    ∃ rest, grouping.Reordered groups (grouping.withRows g l :: rest) := by
  obtain ⟨before,after,rfl⟩ := List.append_of_mem hmem
  refine ⟨before++after,g :: (before++after),List.perm_middle,.cons ⟨l,hl,rfl⟩ ?_⟩
  exact List.forall₂_same.mpr fun g _ => reorderedGroup_refl g

/-! ### The search -/

variable (grouping) [DecidableEq κ] (k : κ) (fits : ρ → Bool)

def firstMatch (groups : List γ) : Option (γ × ρ) :=
  (groups.find? (fun g => grouping.key g = k)).bind fun g =>
    ((grouping.rows g).find? fits).map fun r => (g,r)

def Carries (g : γ) : Prop := ∃ r ∈ grouping.rows g, fits r = true

/-- No later group of the key is needed. -/
def FirstCarries (groups : List γ) : Prop :=
  ∀ g, groups.find? (fun g => grouping.key g = k) = some g →
    (∃ g' ∈ groups, grouping.key g' = k ∧ grouping.Carries fits g') → grouping.Carries fits g

variable {grouping k fits}

theorem firstMatch_eq_some {found : γ × ρ} :
    grouping.firstMatch k fits groups = some found ↔
      groups.find? (fun g => grouping.key g = k) = some found.1 ∧
        (grouping.rows found.1).find? fits = some found.2 := by
  obtain ⟨g,r⟩ := found
  simp only [firstMatch,Option.bind_eq_some_iff,Option.map_eq_some_iff,Prod.mk.injEq]
  constructor
  · rintro ⟨g',hg,r',hr,rfl,rfl⟩
    exact ⟨hg,hr⟩
  · rintro ⟨hg,hr⟩
    exact ⟨g,hg,r,hr,rfl,rfl⟩

theorem firstMatch_sound {found : γ × ρ} (h : grouping.firstMatch k fits groups = some found) :
    found.1 ∈ groups ∧ grouping.key found.1 = k ∧
      found.2 ∈ grouping.rows found.1 ∧ fits found.2 = true := by
  obtain ⟨hg,hr⟩ := firstMatch_eq_some.mp h
  exact ⟨List.mem_of_find?_eq_some hg,by simpa using List.find?_some hg,
    List.mem_of_find?_eq_some hr,List.find?_some hr⟩

theorem exists_find?_of_mem {α : Type} {p : α → Bool} {l : List α} {x : α} (hmem : x ∈ l)
    (hx : p x = true) : ∃ y, l.find? p = some y :=
  Option.isSome_iff_exists.mp (List.find?_isSome.mpr ⟨x,hmem,hx⟩)

theorem firstMatch_of_carries {g : γ} (hfirst : groups.find? (fun g => grouping.key g = k) = some g)
    (hcarries : grouping.Carries fits g) :
    ∃ found, grouping.firstMatch k fits groups = some found := by
  obtain ⟨r,hmem,hr⟩ := hcarries
  obtain ⟨r',hr'⟩ := exists_find?_of_mem hmem hr
  exact ⟨(g,r'),firstMatch_eq_some.mpr ⟨hfirst,hr'⟩⟩

/-- The search finds a match whenever there is one exactly when the first group carries one. -/
theorem firstMatch_complete_iff :
    ((∃ found, grouping.firstMatch k fits groups = some found) ↔
      ∃ g ∈ groups, grouping.key g = k ∧ grouping.Carries fits g) ↔
    grouping.FirstCarries k fits groups := by
  constructor
  · intro hcomplete g hfirst hsome
    obtain ⟨found,hfound⟩ := hcomplete.mpr hsome
    obtain ⟨hg,hr⟩ := firstMatch_eq_some.mp hfound
    rw [hfirst,Option.some.injEq] at hg
    subst hg
    exact ⟨found.2,List.mem_of_find?_eq_some hr,List.find?_some hr⟩
  · intro hcarries
    constructor
    · rintro ⟨found,hfound⟩
      obtain ⟨hmem,hkey,hr,hfits⟩ := firstMatch_sound hfound
      exact ⟨found.1,hmem,hkey,found.2,hr,hfits⟩
    · rintro ⟨g,hmem,hkey,hg⟩
      obtain ⟨first,hfirst⟩ := exists_find?_of_mem
        (p := fun g => decide (grouping.key g = k)) hmem (decide_eq_true hkey)
      exact firstMatch_of_carries hfirst (hcarries first hfirst ⟨g,hmem,hkey,hg⟩)

/-- Distinct keys leave no later group to be missed. -/
theorem firstCarries_of_nodup (h : (groups.map grouping.key).Nodup) :
    grouping.FirstCarries k fits groups := by
  rintro g hfirst ⟨g',hmem,hkey,hcarries⟩
  have hg : grouping.key g = k := by simpa using List.find?_some hfirst
  have hsame : g = g' := List.inj_on_of_nodup_map h (List.mem_of_find?_eq_some hfirst) hmem
    (hg.trans hkey.symm)
  exact hsame ▸ hcarries

/-! ### Other orders give the same value -/

variable (grouping k fits) in
/-- All groups of the key carry a match or none does, and all matches have one value. -/
def OneValue (value : ρ → δ) (groups : List γ) : Prop :=
  ∀ g₁ ∈ groups, grouping.key g₁ = k → ∀ g₂ ∈ groups, grouping.key g₂ = k →
    ∀ r₁ ∈ grouping.rows g₁, fits r₁ = true →
      grouping.Carries fits g₂ ∧ ∀ r₂ ∈ grouping.rows g₂, fits r₂ = true → value r₁ = value r₂

variable {value : ρ → δ}

/-- What is found in another order is of a group and a row that were there before. -/
theorem firstMatch_reordered (h : grouping.Reordered groups groups') {found : γ × ρ}
    (hfound : grouping.firstMatch k fits groups' = some found) :
    ∃ g ∈ groups, grouping.key g = k ∧ found.2 ∈ grouping.rows g ∧ fits found.2 = true := by
  obtain ⟨hmem,hkey,hr,hfits⟩ := firstMatch_sound hfound
  obtain ⟨g,hg,hsame⟩ := h.exists_source hmem
  exact ⟨g,hg,hsame.key_eq ▸ hkey,hsame.mem_rows.mp hr,hfits⟩

/-- A match anywhere is found in every order. -/
theorem exists_firstMatch_of_oneValue (hone : grouping.OneValue k fits value groups)
    (h : grouping.Reordered groups groups') {g : γ} (hg : g ∈ groups) (hkey : grouping.key g = k)
    {r : ρ} (hr : r ∈ grouping.rows g) (hfits : fits r = true) :
    ∃ found, grouping.firstMatch k fits groups' = some found ∧ value found.2 = value r := by
  obtain ⟨g',hg',hsame⟩ := h.exists_target hg
  obtain ⟨first,hfirst⟩ := exists_find?_of_mem (p := fun g => decide (grouping.key g = k)) hg'
    (decide_eq_true (hsame.key_eq.trans hkey))
  obtain ⟨source,hsource,hsame'⟩ := h.exists_source (List.mem_of_find?_eq_some hfirst)
  have hkey' : grouping.key source = k := by
    have hfirst' : grouping.key first = k := by simpa using List.find?_some hfirst
    exact hsame'.key_eq.symm.trans hfirst'
  obtain ⟨r',hr',hfits'⟩ := (hone g hg hkey source hsource hkey' r hr hfits).1
  obtain ⟨found,hfound⟩ := firstMatch_of_carries hfirst ⟨r',hsame'.mem_rows.mpr hr',hfits'⟩
  obtain ⟨g₂,hg₂,hkey₂,hr₂,hfits₂⟩ := firstMatch_reordered h hfound
  exact ⟨found,hfound,((hone g hg hkey g₂ hg₂ hkey₂ r hr hfits).2 found.2 hr₂ hfits₂).symm⟩

theorem value_reordered (hone : grouping.OneValue k fits value groups)
    (h : grouping.Reordered groups groups') :
    (grouping.firstMatch k fits groups').map (fun found => value found.2) =
      (grouping.firstMatch k fits groups).map (fun found => value found.2) := by
  cases hfound : grouping.firstMatch k fits groups' with
  | some found =>
    obtain ⟨g,hg,hkey,hr,hfits⟩ := firstMatch_reordered h hfound
    obtain ⟨found',hfound',hvalue⟩ :=
      exists_firstMatch_of_oneValue hone (reordered_refl groups) hg hkey hr hfits
    simp [hfound',hvalue]
  | none =>
    cases hfound' : grouping.firstMatch k fits groups with
    | none => rfl
    | some found' =>
      obtain ⟨hg,hkey,hr,hfits⟩ := firstMatch_sound hfound'
      obtain ⟨found,hother,-⟩ := exists_firstMatch_of_oneValue hone h hg hkey hr hfits
      rw [hfound] at hother
      cases hother

theorem firstMatch_cons {g : γ} (hkey : grouping.key g = k) (rest : List γ) :
    grouping.firstMatch k fits (g :: rest) =
      ((grouping.rows g).find? fits).map fun r => (g,r) := by
  simp [firstMatch,hkey]

variable (value) in
/-- Any row of the key that fits is what some order finds. -/
theorem exists_reordered_finds {g : γ} (hg : g ∈ groups) (hkey : grouping.key g = k) {r : ρ}
    (hr : r ∈ grouping.rows g) (hfits : fits r = true) :
    ∃ groups', grouping.Reordered groups groups' ∧
      (grouping.firstMatch k fits groups').map (fun found => value found.2) = some (value r) := by
  obtain ⟨before,after,hrows⟩ := List.append_of_mem hr
  obtain ⟨rest,hreordered⟩ := exists_reordered_first hg (l := r :: (before++after))
    (hrows ▸ List.perm_middle)
  refine ⟨_,hreordered,?_⟩
  rw [firstMatch_cons ((grouping.key_withRows g _).trans hkey),grouping.rows_withRows,
    List.find?_cons_of_pos hfits]
  rfl

/-- A group of the key that carries no match can come first. -/
theorem exists_reordered_misses {g : γ} (hg : g ∈ groups) (hkey : grouping.key g = k)
    (hnone : ¬ grouping.Carries fits g) :
    ∃ groups', grouping.Reordered groups groups' ∧ grouping.firstMatch k fits groups' = none := by
  obtain ⟨rest,hreordered⟩ := exists_reordered_first hg (.refl (grouping.rows g))
  refine ⟨_,hreordered,?_⟩
  rw [grouping.withRows_rows,firstMatch_cons hkey,Option.map_eq_none_iff,List.find?_eq_none]
  exact fun r hr hfits => hnone ⟨r,hr,hfits⟩

theorem value_reordered_iff :
    (∀ groups', grouping.Reordered groups groups' →
      (grouping.firstMatch k fits groups').map (fun found => value found.2) =
        (grouping.firstMatch k fits groups).map (fun found => value found.2)) ↔
    grouping.OneValue k fits value groups := by
  refine ⟨fun hsame g₁ hg₁ hkey₁ g₂ hg₂ hkey₂ r₁ hr₁ hfits₁ => ?_,
    fun hone groups' h => value_reordered hone h⟩
  obtain ⟨groups₁,hreordered₁,hfinds₁⟩ :=
    exists_reordered_finds value hg₁ hkey₁ hr₁ hfits₁
  have hvalue := hfinds₁.symm.trans (hsame groups₁ hreordered₁)
  constructor
  · by_contra hnone
    obtain ⟨groups₂,hreordered₂,hmisses⟩ := exists_reordered_misses hg₂ hkey₂ hnone
    have hlost := hvalue.trans (hsame groups₂ hreordered₂).symm
    rw [hmisses] at hlost
    cases hlost
  · intro r₂ hr₂ hfits₂
    obtain ⟨groups₂,hreordered₂,hfinds₂⟩ :=
      exists_reordered_finds value hg₂ hkey₂ hr₂ hfits₂
    have heq := hvalue.trans ((hfinds₂.symm.trans (hsame groups₂ hreordered₂)).symm)
    exact Option.some.inj heq

end Grouping

end PgEmbedSetup.Library
