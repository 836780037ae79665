import PgEmbedSetup.Startup.Resolvers

set_option autoImplicit false

/-! The choice of `select_versioned_installation` among the children of an install root. -/

namespace PgEmbedSetup.Startup.Resolvers
open Library

variable {V R : Type} (semver : Semver V R) (s : Settings R) (root : InstallRoot)

/-- A child directory that has a `bin` directory. -/
def Installed (name : Bytes) : Prop :=
  ∃ entry ∈ root.entries, entry.fileType = some .dir ∧ entry.name = name ∧
    root.binIsDir (.child name)

def Matching (name : Bytes) (version : V) : Prop :=
  Installed root name ∧ versionOf semver name = some version ∧ semver.isMatch s.version version

def Unversioned (name : Bytes) : Prop := Installed root name ∧ versionOf semver name = none

/-- The order of paths in one directory. -/
def NotAfter (left right : Bytes) : Prop := left.map UInt8.toNat ≤ right.map UInt8.toNat

/-! ### Candidates -/

section Candidates
variable {semver} {s} {root}

theorem mem_eligible {c : Candidate V} :
    c ∈ eligibleCandidates semver s root ↔ Installed root c.name ∧
      versionOf semver c.name = c.version ∧
      ∀ v, c.version = some v → semver.isMatch s.version v := by
  rw [eligibleCandidates,List.mem_filterMap]
  constructor
  · rintro ⟨entry,hentry,hsome⟩
    obtain ⟨⟨hdir,hbin⟩,rfl,hmatch⟩ := eligibleCandidate_eq_some.mp hsome
    exact ⟨⟨entry,hentry,hdir,rfl,hbin⟩,rfl,hmatch⟩
  · rintro ⟨⟨entry,hentry,hdir,hname,hbin⟩,hversion,hmatch⟩
    rw [← hname] at hbin hversion
    refine ⟨entry,hentry,eligibleCandidate_eq_some.mpr ⟨⟨hdir,hbin⟩,?_,?_⟩⟩
    · rw [hversion,hname]
    · rwa [hversion]

theorem matching_iff {name : Bytes} {v : V} :
    Matching semver s root name v ↔ ⟨some v,name⟩ ∈ eligibleCandidates semver s root := by
  rw [mem_eligible,Matching]
  simp

theorem unversioned_iff {name : Bytes} :
    Unversioned semver root name ↔ ⟨none,name⟩ ∈ eligibleCandidates semver s root := by
  rw [mem_eligible,Unversioned]
  simp

theorem key_injective {left right : Candidate V} (h : left.key = right.key) : left = right := by
  obtain ⟨version,name⟩ := left
  obtain ⟨version',name'⟩ := right
  obtain ⟨hversion,hname⟩ := Prod.mk.inj (toLex.injective h)
  have hsame : name = name' := List.map_injective_iff.mpr (fun _ _ => UInt8.toNat_inj.mp) hname
  rw [hsame,show version = version' from hversion]

end Candidates

variable [LinearOrder V]

theorem key_le_none {name name' : Bytes}
    (h : (⟨none,name⟩ : Candidate V).key ≤ (⟨none,name'⟩ : Candidate V).key) :
    NotAfter name name' := by
  rcases Prod.Lex.toLex_le_toLex.mp h with h | ⟨-,h⟩
  · exact absurd h (lt_irrefl _)
  · exact h

/-! ### The choice -/

def popCandidate : Option (Candidate V) :=
  ((eligibleCandidates semver s root).insertionSort fun left right =>
    left.key ≤ right.key).getLast?

/-- `select_versioned_installation` with the outcome that its caller logs. -/
def selectWithOutcome : Option Dir × String :=
  match popCandidate semver s root with
  | some ⟨some _,name⟩ => (some (.child name),"versioned")
  | some ⟨none,name⟩ => (some (.child name),"unversioned")
  | none => (none,"not_found")

theorem selectWithOutcome_fst :
    (selectWithOutcome semver s root).1 = selectVersionedInstallation semver s root := by
  rw [selectWithOutcome,selectVersionedInstallation,← popCandidate]
  rcases popCandidate semver s root with _ | ⟨_ | _,_⟩ <;> rfl

/-- The highest matching version; without any, the last of the names that are no version; or
nothing. -/
inductive Choice : Option Dir × String → Prop
  | versioned {name : Bytes} {v : V} : Matching semver s root name v →
      (∀ other w, Matching semver s root other w → w ≤ v) →
      Choice (some (.child name),"versioned")
  | unversioned {name : Bytes} : (∀ other w, ¬ Matching semver s root other w) →
      Unversioned semver root name →
      (∀ other, Unversioned semver root other → NotAfter other name) →
      Choice (some (.child name),"unversioned")
  | notFound : (∀ other w, ¬ Matching semver s root other w) →
      (∀ other, ¬ Unversioned semver root other) → Choice (none,"not_found")

section Chosen
variable {semver} {s} {root}

/-- Nothing is popped if there are no candidates, else the one with the greatest key. -/
theorem popCandidate_eq_none :
    popCandidate semver s root = none ↔ eligibleCandidates semver s root = [] := by
  rw [popCandidate,List.getLast?_eq_none_iff,← List.length_eq_zero_iff,List.length_insertionSort,
    List.length_eq_zero_iff]

theorem choice_popped : Choice semver s root (selectWithOutcome semver s root) := by
  rw [selectWithOutcome]
  cases hpop : popCandidate semver s root with
  | none =>
    have hempty := popCandidate_eq_none.mp hpop
    refine .notFound (fun other w hother => ?_) fun other hother => ?_
    · rw [matching_iff,hempty] at hother
      cases hother
    · rw [unversioned_iff,hempty] at hother
      cases hother
  | some last =>
    obtain ⟨hmem,hgreatest⟩ := getLast_sorted hpop
    obtain ⟨version,name⟩ := last
    cases version with
    | some v =>
      exact .versioned (matching_iff.mpr hmem) fun other w hother =>
        key_le_some (hgreatest _ (matching_iff.mp hother))
    | none =>
      refine .unversioned (fun other w hother => ?_) (unversioned_iff.mpr hmem)
        fun other hother => key_le_none (hgreatest _ (unversioned_iff.mp hother))
      exact not_key_le_none (hgreatest _ (matching_iff.mp hother))

/-- A version is only chosen if the requirement matches it. -/
theorem Choice.matched {chosen : Option Dir × String} (h : Choice semver s root chosen)
    {name : Bytes} (hname : chosen.1 = some (.child name)) {v : V}
    (hversion : versionOf semver name = some v) : semver.isMatch s.version v := by
  cases h with
  | versioned hmatching =>
    cases hname
    obtain rfl := Option.some.inj (hmatching.2.1.symm.trans hversion)
    exact hmatching.2.2
  | unversioned _ hunversioned =>
    cases hname
    cases hunversioned.2.symm.trans hversion
  | notFound => cases hname

/-- Candidates with different keys are told apart, so the last does not depend on their order. -/
theorem popCandidate_eq {root' : InstallRoot}
    (h : ∀ c, c ∈ eligibleCandidates semver s root ↔ c ∈ eligibleCandidates semver s root') :
    popCandidate semver s root = popCandidate semver s root' := by
  cases hpop : popCandidate semver s root with
  | none =>
    have hempty := popCandidate_eq_none.mp hpop
    refine (popCandidate_eq_none.mpr (List.eq_nil_iff_forall_not_mem.mpr fun c hc => ?_)).symm
    have hmem := (h c).mpr hc
    rw [hempty] at hmem
    cases hmem
  | some last =>
    obtain ⟨hmem,hgreatest⟩ := getLast_sorted hpop
    cases hpop' : popCandidate semver s root' with
    | none =>
      have hmem' := (h last).mp hmem
      rw [popCandidate_eq_none.mp hpop'] at hmem'
      cases hmem'
    | some last' =>
      obtain ⟨hmem',hgreatest'⟩ := getLast_sorted hpop'
      have hkeys := le_antisymm (hgreatest' last ((h last).mp hmem))
        (hgreatest last' ((h last').mpr hmem'))
      rw [key_injective hkeys]

theorem select_perm {listed listed' : List (Option DirEntry)} (h : listed.Perm listed') :
    selectWithOutcome semver s { root with readDir := some listed } =
      selectWithOutcome semver s { root with readDir := some listed' } := by
  have hperm : (eligibleCandidates semver s { root with readDir := some listed }).Perm
      (eligibleCandidates semver s { root with readDir := some listed' }) :=
    (h.filterMap id).filterMap (eligibleCandidate semver s root)
  rw [selectWithOutcome,popCandidate_eq fun c => hperm.mem_iff,← selectWithOutcome]

end Chosen

/-- The choice is the best there is, honours the requirement, and is the same for every order of
the listing. -/
theorem selection_optimal :
    Choice semver s root (selectWithOutcome semver s root) ∧
    (∀ name v, (selectWithOutcome semver s root).1 = some (.child name) →
      versionOf semver name = some v → semver.isMatch s.version v) ∧
    ∀ listed listed' : List (Option DirEntry), listed.Perm listed' →
      selectWithOutcome semver s { root with readDir := some listed } =
        selectWithOutcome semver s { root with readDir := some listed' } :=
  ⟨choice_popped,fun _ _ hname hversion => choice_popped.matched hname hversion,
    fun _ _ hperm => select_perm hperm⟩

/-- A release beside a newer one, a file and a name that is no version. -/
def shelf : InstallRoot where
  fileName := none
  found := true
  binIsDir := fun d => d ≠ .root
  initdbIsFile := fun _ => false
  readDir := some [some ⟨ascii "19.0.0",some .dir⟩,none,some ⟨ascii "18.6.0",some .dir⟩,
    some ⟨ascii "local",some .dir⟩,some ⟨ascii "README",some .file⟩,some ⟨ascii "old",none⟩]
  bin_of_initdb := fun _ h => absurd h Bool.false_ne_true
  found_of_bin := fun _ => rfl

theorem selection_optimal_shelf :
    Choice releases pinned shelf (some (.child (ascii "18.6.0")),"versioned") := by
  have hrun : selectWithOutcome releases pinned shelf =
      (some (.child (ascii "18.6.0")),"versioned") := by decide +kernel
  exact hrun ▸ (selection_optimal releases pinned shelf).1

end PgEmbedSetup.Startup.Resolvers
