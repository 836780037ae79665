import PgEmbedSetup.Extensions.Manifest

set_option autoImplicit false

/-!
Which outputs of `pg_config --version` are read as a release they do not name.
-/

namespace PgEmbedSetup.Extensions
open Library

variable {text token part : Text} {version : Version} {n : Nat}

/-- The word the version stands in. -/
def versionWord (text : Text) : Option Text :=
  ((text.splitOnP isWhitespace).filter (fun word => !word.isEmpty))[1]?

def numericPrefix (token : Text) : Text := token.takeWhile (fun c => c.isDigit || c = '.')

def numericParts (token : Text) : List Text :=
  ((numericPrefix token).splitOn '.').filter (fun part => !part.isEmpty)

def tokenVersion (token : Text) : Option Version := do
  let major ← (numericParts token)[0]?.bind (parseUnsigned u64Max)
  let minor ← match (numericParts token)[1]? with
    | none => some 0
    | some part => parseUnsigned u64Max part
  some ⟨major,minor⟩

theorem parsePgConfigVersion_eq (text : Text) :
    parsePgConfigVersion text = (versionWord text).bind tokenVersion := rfl

/-! ### What a release is called -/

def isNumber (part : Text) : Bool := !part.isEmpty && part.all Char.isDigit

def numberValue (part : Text) : Nat := Nat.ofDigitChars 10 part 0

/-- `major` or `major.minor`, with numeric components after them at most. -/
def isRelease (token : Text) : Bool := (token.splitOn '.').all isNumber

structure Denotes (token : Text) (version : Version) : Prop where
  release : isRelease token = true
  major : (token.splitOn '.').head?.map numberValue = some version.major
  minor : ((token.splitOn '.')[1]?.map numberValue).getD 0 = version.minor
  bound : version.major ≤ u64Max ∧ version.minor ≤ u64Max

/-- A version is read only from a release's name, as the numbers of that release. -/
def FailsClosed (text : Text) : Prop :=
  ∀ version, parsePgConfigVersion text = some version →
    ∃ token, versionWord text = some token ∧ Denotes token version

/-! ### Numbers -/

theorem parseUnsigned_number (h : isNumber part = true) :
    parseUnsigned u64Max part = if numberValue part ≤ u64Max then some (numberValue part) else none := by
  simp only [isNumber,Bool.and_eq_true,Bool.not_eq_true'] at h
  obtain ⟨hne,hdigits⟩ := h
  have hplus : part.head? ≠ some '+' := by
    intro hhead
    have hmem := List.mem_of_head? hhead
    exact absurd (List.all_eq_true.mp hdigits _ hmem) (by decide)
  rw [parseUnsigned,if_neg hplus,hne,digitsValue,if_pos hdigits,numberValue]
  simp only [Bool.false_eq_true,if_false,Option.filter,decide_eq_true_eq]

theorem isNumber_of_mem_numericParts (h : part ∈ numericParts token) : isNumber part = true := by
  obtain ⟨hpart,hne⟩ := List.mem_filter.mp h
  rw [isNumber,hne,Bool.true_and,List.all_eq_true]
  intro c hc
  obtain ⟨hmem,hdot⟩ := exists_mem_splitOn.mp ⟨part,hpart,hc⟩
  simpa [hdot] using List.mem_takeWhile_imp hmem

/-- A release's name is read to its end. -/
theorem numericParts_release (h : isRelease token = true) : numericParts token = token.splitOn '.' := by
  have hnumbers := List.all_eq_true.mp h
  have hall : ∀ c ∈ token, (c.isDigit || decide (c = '.')) = true := by
    intro c hc
    by_cases hdot : c = '.'
    · simp [hdot]
    · obtain ⟨part,hpart,hmem⟩ := exists_mem_splitOn.mpr ⟨hc,hdot⟩
      have hnumber := hnumbers part hpart
      simp only [isNumber,Bool.and_eq_true,List.all_eq_true] at hnumber
      simp [hnumber.2 c hmem]
  rw [numericParts,numericPrefix,List.takeWhile_eq_self_iff.mpr hall,List.filter_eq_self]
  intro part hpart
  have hnumber := hnumbers part hpart
  simp only [isNumber,Bool.and_eq_true] at hnumber
  exact hnumber.1

/-! ### Reading a word -/

/-- No number where the major version is looked for, or one of the two too large. -/
def Unreadable (token : Text) : Prop :=
  numericParts token = [] ∨ ∃ part ∈ (numericParts token).take 2, u64Max < numberValue part

theorem tokenVersion_some (h : tokenVersion token = some version) :
    (numericParts token).head?.map numberValue = some version.major ∧
      ((numericParts token)[1]?.map numberValue).getD 0 = version.minor ∧
      version.major ≤ u64Max ∧ version.minor ≤ u64Max := by
  have hnumber : ∀ part ∈ numericParts token, isNumber part = true :=
    fun part => isNumber_of_mem_numericParts
  unfold tokenVersion at h
  cases hparts : numericParts token with
  | nil => simp [hparts] at h
  | cons first rest =>
    rw [hparts] at h hnumber
    simp only [List.length_cons,Nat.zero_lt_succ,getElem?_pos,List.getElem_cons_zero,
      Option.bind_some,parseUnsigned_number (hnumber first List.mem_cons_self)] at h
    split at h
    · next hmajor =>
      cases rest with
      | nil =>
        obtain rfl : (⟨numberValue first,0⟩ : Version) = version := by simpa using h
        exact ⟨rfl,rfl,hmajor,Nat.zero_le _⟩
      | cons second later =>
        have hsecond := hnumber second (by simp)
        by_cases hminor : numberValue second ≤ u64Max
        · obtain rfl : (⟨numberValue first,numberValue second⟩ : Version) = version := by
            simpa [parseUnsigned_number hsecond,hminor] using h
          exact ⟨rfl,rfl,hmajor,hminor⟩
        · simp [parseUnsigned_number hsecond,hminor] at h
    · simp at h

theorem tokenVersion_none (h : tokenVersion token = none) : Unreadable token := by
  have hnumber : ∀ part ∈ numericParts token, isNumber part = true :=
    fun part => isNumber_of_mem_numericParts
  unfold tokenVersion at h
  cases hparts : numericParts token with
  | nil => exact .inl hparts
  | cons first rest =>
    rw [hparts] at h hnumber
    refine .inr ?_
    rw [hparts]
    by_cases hmajor : numberValue first ≤ u64Max
    · cases rest with
      | nil => simp [parseUnsigned_number (hnumber first (by simp)),hmajor] at h
      | cons second later =>
        by_cases hminor : numberValue second ≤ u64Max
        · simp [parseUnsigned_number (hnumber first (by simp)),hmajor,
            parseUnsigned_number (hnumber second (by simp)),hminor] at h
        · exact ⟨second,by simp,by omega⟩
    · exact ⟨first,by simp,by omega⟩

theorem not_unreadable (hmajor : (numericParts token).head?.map numberValue = some version.major)
    (hminor : ((numericParts token)[1]?.map numberValue).getD 0 = version.minor)
    (hbound : version.major ≤ u64Max ∧ version.minor ≤ u64Max) : ¬ Unreadable token := by
  rintro (hnil | ⟨part,hpart,hlarge⟩)
  · simp [hnil] at hmajor
  · cases hparts : numericParts token with
    | nil => simp [hparts] at hpart
    | cons first rest =>
      rw [hparts] at hmajor hminor hpart
      have hfirst : numberValue first = version.major := by simpa using hmajor
      cases rest with
      | nil =>
        obtain rfl : part = first := by simpa using hpart
        omega
      | cons second later =>
        have hsecond : numberValue second = version.minor := by simpa using hminor
        have hcase : part = first ∨ part = second := by simpa using hpart
        rcases hcase with rfl | rfl <;> omega

theorem denotes_of_release (hrelease : isRelease token = true)
    (h : tokenVersion token = some version) : Denotes token version := by
  obtain ⟨hmajor,hminor,hbound⟩ := tokenVersion_some h
  rw [numericParts_release hrelease] at hmajor hminor
  exact ⟨hrelease,hmajor,hminor,hbound⟩

/-- The name of a release is read, unless its numbers are too large. -/
theorem parsePgConfigVersion_of_release (hword : versionWord text = some token)
    (hdenotes : Denotes token version) : parsePgConfigVersion text = some version := by
  have hsplit := numericParts_release hdenotes.release
  rw [parsePgConfigVersion_eq,hword,Option.bind_some]
  cases h : tokenVersion token with
  | none =>
    refine absurd (tokenVersion_none h) (not_unreadable ?_ ?_ hdenotes.bound)
    · rw [hsplit]
      exact hdenotes.major
    · rw [hsplit]
      exact hdenotes.minor
  | some found =>
    have hfound := denotes_of_release hdenotes.release h
    have hmajor := Option.some.inj (hfound.major.symm.trans hdenotes.major)
    have hminor := hfound.minor.symm.trans hdenotes.minor
    cases found
    cases version
    cases hmajor
    cases hminor
    rfl

end PgEmbedSetup.Extensions
