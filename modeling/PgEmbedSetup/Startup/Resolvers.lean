import Mathlib.Data.List.Sort
import Mathlib.Data.List.Lex
import Mathlib.Data.Prod.Lex
import Mathlib.Order.WithBot
import PgEmbedSetup.Library.Utf8

set_option autoImplicit false

/-!
`installed_initdb` of `src/durability.rs` beside `resolve_installed_dir` of
`src/cluster/installation.rs`: two searches through one install root.
-/

namespace PgEmbedSetup.Startup.Resolvers
open Library

/-! ### The install root -/

/-- A directory an installation may be in: the root itself or one of its entries. -/
inductive Dir where
  | root
  | child (name : Bytes)
  deriving DecidableEq, Repr

inductive FileType where
  | dir
  | file
  | symlink
  deriving DecidableEq, Repr

/-- No `fileType` where `DirEntry::file_type` fails. -/
structure DirEntry where
  name : Bytes
  fileType : Option FileType
  deriving DecidableEq, Repr

/-- `bin` and `initdb` are looked up through symbolic links, `fileType` is not. -/
structure InstallRoot where
  fileName : Option Bytes
  found : Bool
  binIsDir : Dir → Bool
  initdbIsFile : Dir → Bool
  readDir : Option (List (Option DirEntry))
  bin_of_initdb : ∀ d, initdbIsFile d = true → binIsDir d = true
  found_of_bin : binIsDir .root = true → found = true

/-- The `semver` crate. -/
structure Semver (V R : Type) where
  parse : Text → Option V
  isMatch : R → V → Bool

/-- A version is written in one way, in ASCII. -/
structure Semver.Lawful {V R : Type} (semver : Semver V R) : Prop where
  ascii : ∀ text v, semver.parse text = some v → ∀ c ∈ text, c.toNat < 128
  injective : ∀ first second v, semver.parse first = some v → semver.parse second = some v →
    first = second

structure Settings (R : Type) where
  trustInstallationDir : Bool
  version : R

variable {V R : Type} (semver : Semver V R) (s : Settings R) (root : InstallRoot)

def InstallRoot.entries : List DirEntry := (root.readDir.getD []).reduceOption

section Searches
variable [LinearOrder V]

/-! ### `durability.rs` -/

/-- `named_version`, of a path's last name. -/
def namedVersion (fileName : Option Bytes) : Option V :=
  (fileName.bind fun name => semver.parse (fromUtf8Lossy name)).filter
    (semver.isMatch s.version)

/-- `Iterator::max_by`: of equals the later one. -/
def laterMax {α : Type} (left right : V × α) : V × α := if right.1 < left.1 then left else right

def maxBy {α : Type} : List (V × α) → Option (V × α)
  | [] => none
  | first :: rest => some (rest.foldl laterMax first)

def versionedEntry (entry : DirEntry) : Option (V × Dir) :=
  if entry.fileType = some .dir then
    (namedVersion semver s (some entry.name)).map fun version => (version,.child entry.name)
  else none

def installedDir : Option Dir :=
  if s.trustInstallationDir then some .root
  else if (namedVersion semver s root.fileName).isSome && root.found then some .root
  else root.readDir.bind fun listed =>
    (maxBy (listed.reduceOption.filterMap (versionedEntry semver s))).map Prod.snd

def installedInitdb : Option Dir :=
  (installedDir semver s root).filter root.initdbIsFile

/-! ### `installation.rs` -/

structure Candidate (V : Type) where
  version : Option V
  name : Bytes

/-- `None` comes before every version, and equal versions are told apart by their path. -/
def Candidate.key (c : Candidate V) : Lex (WithBot V × List Nat) :=
  toLex ((c.version : WithBot V),c.name.map UInt8.toNat)

def eligibleCandidate (entry : DirEntry) : Option (Candidate V) :=
  if entry.fileType ≠ some .dir then none
  else if !root.binIsDir (.child entry.name) then none
  else match decodeUtf8 entry.name with
    | none => some ⟨none,entry.name⟩
    | some directoryName =>
      match semver.parse directoryName with
      | some version =>
        if semver.isMatch s.version version then some ⟨some version,entry.name⟩ else none
      | none => some ⟨none,entry.name⟩

def eligibleCandidates : List (Candidate V) :=
  root.entries.filterMap (eligibleCandidate semver s root)

def selectVersionedInstallation : Option Dir :=
  let candidates := (eligibleCandidates semver s root).insertionSort fun left right =>
    left.key ≤ right.key
  candidates.getLast?.map fun candidate => .child candidate.name

def resolveInstalledDir : Option Dir :=
  if root.binIsDir .root then some .root
  else if s.trustInstallationDir then some .root
  else selectVersionedInstallation semver s root

end Searches

/-! ### Names -/

/-- The semantic version that a name is. -/
def versionOf (name : Bytes) : Option V := (decodeUtf8 name).bind semver.parse

/-- An entry named for a version the requirement matches. -/
def VersionedChild (name : Bytes) (version : V) : Prop :=
  ∃ entry ∈ root.entries, entry.fileType = some .dir ∧ entry.name = name ∧
    namedVersion semver s (some name) = some version

variable {semver} {s} {root}

/-- What is read leniently and is a version was ASCII, so it is read the same strictly. -/
theorem namedVersion_eq_some (hsemver : semver.Lawful) {name : Bytes} {v : V} :
    namedVersion semver s (some name) = some v ↔
      versionOf semver name = some v ∧ semver.isMatch s.version v := by
  rw [namedVersion,Option.filter_eq_some_iff,Option.bind_some,versionOf,Option.bind_eq_some_iff]
  constructor
  · rintro ⟨hparse,hmatch⟩
    exact ⟨⟨_,fromUtf8Lossy_ascii (hsemver.ascii _ v hparse),hparse⟩,hmatch⟩
  · rintro ⟨⟨text,htext,hparse⟩,hmatch⟩
    rw [fromUtf8Lossy,lossyFrom_of_decodeFrom htext]
    exact ⟨hparse,hmatch⟩

theorem versionOf_injective (hsemver : semver.Lawful) {first second : Bytes} {v : V}
    (hfirst : versionOf semver first = some v) (hsecond : versionOf semver second = some v) :
    first = second := by
  obtain ⟨text,htext,hparse⟩ := Option.bind_eq_some_iff.mp hfirst
  obtain ⟨text',htext',hparse'⟩ := Option.bind_eq_some_iff.mp hsecond
  obtain rfl := hsemver.injective _ _ v hparse hparse'
  exact (encodeUtf8_of_decodeUtf8 htext).symm.trans (encodeUtf8_of_decodeUtf8 htext')

/-- No two names stand for one version. -/
theorem versionedChild_injective (hsemver : semver.Lawful) {first second : Bytes} {v : V}
    (hfirst : VersionedChild semver s root first v)
    (hsecond : VersionedChild semver s root second v) : first = second := by
  obtain ⟨-,-,-,-,hfirst⟩ := hfirst
  obtain ⟨-,-,-,-,hsecond⟩ := hsecond
  exact versionOf_injective hsemver ((namedVersion_eq_some hsemver).mp hfirst).1
    ((namedVersion_eq_some hsemver).mp hsecond).1

theorem mem_versioned {v : V} {d : Dir} :
    (v,d) ∈ root.entries.filterMap (versionedEntry semver s) ↔
      ∃ name, d = .child name ∧ VersionedChild semver s root name v := by
  simp only [List.mem_filterMap,versionedEntry]
  constructor
  · rintro ⟨entry,hentry,hsome⟩
    split at hsome
    · next hdir =>
      obtain ⟨w,hw,heq⟩ := Option.map_eq_some_iff.mp hsome
      cases heq
      exact ⟨entry.name,rfl,entry,hentry,hdir,rfl,hw⟩
    · cases hsome
  · rintro ⟨name,rfl,entry,hentry,hdir,rfl,hnamed⟩
    exact ⟨entry,hentry,by rw [if_pos hdir,hnamed]; rfl⟩

theorem eligibleCandidate_eq_some {entry : DirEntry} {c : Candidate V} :
    eligibleCandidate semver s root entry = some c ↔
      (entry.fileType = some .dir ∧ root.binIsDir (.child entry.name)) ∧
      ⟨versionOf semver entry.name,entry.name⟩ = c ∧
      ∀ v, versionOf semver entry.name = some v → semver.isMatch s.version v := by
  rw [eligibleCandidate,versionOf]
  by_cases hdir : entry.fileType = some .dir
  · cases hbin : root.binIsDir (.child entry.name) with
    | false => simp [hdir]
    | true =>
      cases decodeUtf8 entry.name with
      | none => simp [hdir]
      | some text =>
        cases hparse : semver.parse text with
        | none => simp [hdir,hparse]
        | some v => simp [hdir,hparse,and_comm]
  · simp [hdir]

/-- A candidate with a version is a versioned entry that has a `bin`. -/
theorem mem_candidates (hsemver : semver.Lawful) {name : Bytes} {v : V} :
    ⟨some v,name⟩ ∈ eligibleCandidates semver s root ↔
      VersionedChild semver s root name v ∧ root.binIsDir (.child name) := by
  rw [eligibleCandidates,List.mem_filterMap]
  constructor
  · rintro ⟨entry,hentry,hsome⟩
    obtain ⟨⟨hdir,hbin⟩,hc,hmatch⟩ := eligibleCandidate_eq_some.mp hsome
    obtain ⟨hversion,rfl⟩ := Candidate.mk.inj hc
    have hnamed := (namedVersion_eq_some hsemver).mpr ⟨hversion,hmatch v hversion⟩
    exact ⟨⟨entry,hentry,hdir,rfl,hnamed⟩,hbin⟩
  · rintro ⟨⟨entry,hentry,hdir,rfl,hnamed⟩,hbin⟩
    obtain ⟨hversion,hmatch⟩ := (namedVersion_eq_some hsemver).mp hnamed
    refine ⟨entry,hentry,eligibleCandidate_eq_some.mpr ⟨⟨hdir,hbin⟩,by rw [hversion],?_⟩⟩
    intro w hw
    rw [hversion] at hw
    exact Option.some.inj hw ▸ hmatch

section Agreement
variable [LinearOrder V]

/-! ### Greatest elements -/

theorem laterMax_spec {α : Type} (left right : V × α) :
    (laterMax left right = left ∨ laterMax left right = right) ∧
      left.1 ≤ (laterMax left right).1 ∧ right.1 ≤ (laterMax left right).1 := by
  rw [laterMax]
  split
  · next hlt => exact ⟨.inl rfl,le_rfl,hlt.le⟩
  · next hle => exact ⟨.inr rfl,not_lt.mp hle,le_rfl⟩

theorem foldl_laterMax {α : Type} (first : V × α) (rest : List (V × α)) :
    rest.foldl laterMax first ∈ first :: rest ∧
      ∀ x ∈ first :: rest, x.1 ≤ (rest.foldl laterMax first).1 := by
  induction rest generalizing first with
  | nil => simp
  | cons second rest ih =>
    obtain ⟨hor,hleft,hright⟩ := laterMax_spec first second
    obtain ⟨hmem,hmax⟩ := ih (laterMax first second)
    have hhead := hmax _ List.mem_cons_self
    rw [List.foldl_cons]
    constructor
    · rcases List.mem_cons.mp hmem with heq | hmem
      · rw [heq]
        rcases hor with hor | hor <;> rw [hor] <;> simp
      · exact List.mem_cons_of_mem _ (List.mem_cons_of_mem _ hmem)
    · intro x hx
      rcases List.mem_cons.mp hx with rfl | hx
      · exact hleft.trans hhead
      rcases List.mem_cons.mp hx with rfl | hx
      · exact hright.trans hhead
      · exact hmax x (List.mem_cons_of_mem _ hx)

theorem maxBy_spec {α : Type} {list : List (V × α)} {best : V × α} (h : maxBy list = some best) :
    best ∈ list ∧ ∀ x ∈ list, x.1 ≤ best.1 := by
  cases list with
  | nil => cases h
  | cons first rest =>
    cases h
    exact foldl_laterMax first rest

theorem maxBy_isSome {α : Type} {list : List (V × α)} {x : V × α} (h : x ∈ list) :
    ∃ best, maxBy list = some best := by
  cases list with
  | nil => cases h
  | cons first rest => exact ⟨_,rfl⟩

instance keyTotal : Std.Total fun left right : Candidate V => left.key ≤ right.key :=
  ⟨fun left right => le_total left.key right.key⟩

instance keyTrans : IsTrans (Candidate V) fun left right => left.key ≤ right.key :=
  ⟨fun _ _ _ => le_trans⟩

/-- The last of the sorted candidates has the greatest key. -/
theorem getLast_sorted {candidates : List (Candidate V)} {last : Candidate V}
    (h : (candidates.insertionSort fun left right => left.key ≤ right.key).getLast? = some last) :
    last ∈ candidates ∧ ∀ c ∈ candidates, c.key ≤ last.key := by
  obtain ⟨front,hfront⟩ := List.getLast?_eq_some_iff.mp h
  have hmem : ∀ c, c ∈ candidates ↔ c ∈ front ++ [last] := fun c => by
    rw [← hfront,List.mem_insertionSort]
  have hsorted := List.pairwise_insertionSort
    (fun left right : Candidate V => left.key ≤ right.key) candidates
  rw [hfront,List.pairwise_append] at hsorted
  refine ⟨(hmem last).mpr (by simp),fun c hc => ?_⟩
  rcases List.mem_append.mp ((hmem c).mp hc) with hc | hc
  · exact hsorted.2.2 c hc last (by simp)
  · rw [List.mem_singleton.mp hc]

theorem key_le_some {v w : V} {name name' : Bytes}
    (h : (⟨some v,name⟩ : Candidate V).key ≤ (⟨some w,name'⟩ : Candidate V).key) : v ≤ w := by
  rcases Prod.Lex.toLex_le_toLex.mp h with h | ⟨h,-⟩
  · exact (WithBot.coe_lt_coe.mp h).le
  · exact (WithBot.coe_inj.mp h).le

theorem not_key_le_none {v : V} {name name' : Bytes} :
    ¬ (⟨some v,name⟩ : Candidate V).key ≤ (⟨none,name'⟩ : Candidate V).key := by
  intro h
  rcases Prod.Lex.toLex_le_toLex.mp h with h | ⟨h,-⟩
  · exact absurd h not_lt_bot
  · cases h

/-! ### Agreement -/

/-- What `installed_initdb` prefers to the `bin` in the root: the highest matching version. -/
structure Shadowed (semver : Semver V R) (s : Settings R) (root : InstallRoot) : Prop where
  untrusted : s.trustInstallationDir = false
  unnamed : namedVersion semver s root.fileName = none
  bin : root.binIsDir .root = true
  highest : ∃ name v, VersionedChild semver s root name v ∧ root.initdbIsFile (.child name) ∧
    ∀ other w, VersionedChild semver s root other w → w ≤ v

theorem installedDir_listed (htrust : s.trustInstallationDir = false)
    (hnamed : ((namedVersion semver s root.fileName).isSome && root.found) = false) :
    installedDir semver s root =
      (maxBy (root.entries.filterMap (versionedEntry semver s))).map Prod.snd := by
  rw [installedDir,htrust,if_neg (by decide),hnamed,if_neg (by decide),InstallRoot.entries]
  cases root.readDir <;> rfl

theorem installedDir_child {d : Dir} (htrust : s.trustInstallationDir = false)
    (hnamed : ((namedVersion semver s root.fileName).isSome && root.found) = false)
    (h : installedDir semver s root = some d) :
    ∃ name v, d = .child name ∧ VersionedChild semver s root name v ∧
      ∀ other w, VersionedChild semver s root other w → w ≤ v := by
  rw [installedDir_listed htrust hnamed,Option.map_eq_some_iff] at h
  obtain ⟨⟨v,d⟩,hbest,rfl⟩ := h
  obtain ⟨hmem,hmax⟩ := maxBy_spec hbest
  obtain ⟨name,rfl,hchild⟩ := mem_versioned.mp hmem
  exact ⟨name,v,rfl,hchild,fun other w hw => hmax _ (mem_versioned.mpr ⟨other,rfl,hw⟩)⟩

theorem installedDir_highest (hsemver : semver.Lawful) {name : Bytes} {v : V}
    (htrust : s.trustInstallationDir = false)
    (hnamed : ((namedVersion semver s root.fileName).isSome && root.found) = false)
    (hchild : VersionedChild semver s root name v)
    (hmax : ∀ other w, VersionedChild semver s root other w → w ≤ v) :
    installedDir semver s root = some (.child name) := by
  have hmem := mem_versioned.mpr ⟨name,rfl,hchild⟩
  obtain ⟨best,hbest⟩ := maxBy_isSome hmem
  obtain ⟨d,hd⟩ : ∃ d, installedDir semver s root = some d :=
    ⟨best.2,by rw [installedDir_listed htrust hnamed,hbest]; rfl⟩
  obtain ⟨other,w,rfl,hother,hw⟩ := installedDir_child htrust hnamed hd
  obtain rfl := le_antisymm (hmax other w hother) (hw name v hchild)
  rw [hd,versionedChild_injective hsemver hother hchild]

/-- The highest matching version is selected, if it has a `bin`. -/
theorem selected_highest (hsemver : semver.Lawful) {name : Bytes} {v : V}
    (hchild : VersionedChild semver s root name v) (hbin : root.binIsDir (.child name))
    (hmax : ∀ other w, VersionedChild semver s root other w → w ≤ v) :
    selectVersionedInstallation semver s root = some (.child name) := by
  have hmem : ⟨some v,name⟩ ∈ eligibleCandidates semver s root :=
    (mem_candidates hsemver).mpr ⟨hchild,hbin⟩
  obtain ⟨last,hlast⟩ : ∃ last, ((eligibleCandidates semver s root).insertionSort
      fun left right => left.key ≤ right.key).getLast? = some last := by
    have hsorted := (List.mem_insertionSort fun left right : Candidate V =>
      left.key ≤ right.key).mpr hmem
    exact ⟨_,List.getLast?_eq_some_getLast (List.ne_nil_of_mem hsorted)⟩
  obtain ⟨hlastmem,hgreatest⟩ := getLast_sorted hlast
  have hkey := hgreatest _ hmem
  rw [selectVersionedInstallation,hlast]
  obtain ⟨version,other⟩ := last
  cases version with
  | none => exact absurd hkey not_key_le_none
  | some w =>
    have hother := ((mem_candidates hsemver).mp hlastmem).1
    obtain rfl := le_antisymm (key_le_some hkey) (hmax other w hother)
    rw [Option.map_some,versionedChild_injective hsemver hother hchild]

/-- The resolvers agree on every tree but those where a `bin` in the root hides the version that
`installed_initdb` takes. -/
theorem resolvers_agree_iff (hsemver : semver.Lawful) :
    (∀ dir, installedInitdb semver s root = some dir →
        resolveInstalledDir semver s root = some dir) ↔ ¬ Shadowed semver s root := by
  constructor
  · rintro hagree ⟨htrust,hunnamed,hbin,name,v,hchild,hinitdb,hmax⟩
    have hnamed : ((namedVersion semver s root.fileName).isSome && root.found) = false := by
      rw [hunnamed]
      rfl
    have hdir := installedDir_highest hsemver htrust hnamed hchild hmax
    have hfound : installedInitdb semver s root = some (.child name) := by
      rw [installedInitdb,hdir,Option.filter_some,hinitdb,if_pos rfl]
    have hresolved := hagree _ hfound
    rw [resolveInstalledDir,hbin,if_pos rfl] at hresolved
    cases hresolved
  · intro hclear dir hfound
    obtain ⟨hdir,hinitdb⟩ := Option.filter_eq_some_iff.mp hfound
    have hbin := root.bin_of_initdb dir hinitdb
    have hroot : dir = .root → resolveInstalledDir semver s root = some dir := by
      rintro rfl
      rw [resolveInstalledDir,if_pos hbin]
    cases htrust : s.trustInstallationDir with
    | true =>
      rw [installedDir,htrust,if_pos rfl] at hdir
      exact hroot (Option.some.inj hdir).symm
    | false =>
      cases hnamed : ((namedVersion semver s root.fileName).isSome && root.found) with
      | true =>
        rw [installedDir,htrust,if_neg (by decide),hnamed,if_pos rfl] at hdir
        exact hroot (Option.some.inj hdir).symm
      | false =>
        obtain ⟨name,v,rfl,hchild,hmax⟩ := installedDir_child htrust hnamed hdir
        have hnobin : root.binIsDir .root ≠ true := by
          intro hrootbin
          rw [root.found_of_bin hrootbin,Bool.and_true,Option.isSome_eq_false_iff,
            Option.isNone_iff_eq_none] at hnamed
          exact hclear ⟨htrust,hnamed,hrootbin,name,v,hchild,hinitdb,hmax⟩
        rw [resolveInstalledDir,if_neg hnobin,htrust,if_neg (by decide)]
        exact selected_highest hsemver hchild hbin hmax

end Agreement
/-! ### Releases -/

/-- A number as it is printed. -/
def releaseNumber (part : Text) : Option Nat :=
  (digitsValue part).filter fun n => decimal n = part

/-- Versions without a pre-release or build part, and requirements that name one of them. -/
def releases : Semver (Nat ×ₗ Nat ×ₗ Nat) (Nat ×ₗ Nat ×ₗ Nat) where
  parse := fun text =>
    match text.splitOn '.' with
    | [major,minor,patch] => do
      let major ← releaseNumber major
      let minor ← releaseNumber minor
      let patch ← releaseNumber patch
      some (toLex (major,toLex (minor,patch)))
    | _ => none
  isMatch := fun required version => required = version

theorem releaseNumber_eq {part : Text} {n : Nat} (h : releaseNumber part = some n) :
    part = decimal n := by
  have hprinted := (Option.filter_eq_some_iff.mp h).2
  exact (of_decide_eq_true hprinted).symm

theorem releases_parse {text : Text} {v : Nat ×ₗ Nat ×ₗ Nat} (h : releases.parse text = some v) :
    text = List.intercalate ['.']
      [decimal (ofLex v).1,decimal (ofLex (ofLex v).2).1,decimal (ofLex (ofLex v).2).2] := by
  have hjoined : List.intercalate ['.'] (text.splitOn '.') = text := List.intercalate_splitOn '.'
  simp only [releases] at h
  split at h
  · next major minor patch hparts =>
    simp only [Option.bind_eq_bind,Option.bind_eq_some_iff,Option.some.injEq] at h
    obtain ⟨x,hx,y,hy,z,hz,rfl⟩ := h
    rw [← hjoined,hparts,releaseNumber_eq hx,releaseNumber_eq hy,releaseNumber_eq hz]
    rfl
  · cases h

theorem releases_lawful : releases.Lawful where
  ascii := by
    intro text v h c hc
    rw [releases_parse h,List.intercalate_cons_cons,List.intercalate_cons_cons,
      List.intercalate_singleton] at hc
    simp only [List.mem_append,List.mem_singleton] at hc
    rcases hc with (hc | rfl) | (hc | rfl) | hc
    · exact decimal_ascii hc
    · decide
    · exact decimal_ascii hc
    · decide
    · exact decimal_ascii hc
  injective := by
    intro first second v hfirst hsecond
    rw [releases_parse hfirst,releases_parse hsecond]

/-- A release below the root, and a `bin` beside it. -/
def crowded : InstallRoot where
  fileName := some (ascii "install")
  found := true
  binIsDir := fun d => d = .root || d = .child (ascii "18.6.0")
  initdbIsFile := fun d => d = .child (ascii "18.6.0")
  readDir := some [some ⟨ascii "bin",some .dir⟩,some ⟨ascii "18.6.0",some .dir⟩]
  bin_of_initdb := fun d h => by rw [h,Bool.or_true]
  found_of_bin := fun _ => rfl

def pinned : Settings (Nat ×ₗ Nat ×ₗ Nat) := ⟨false,toLex (18,toLex (6,0))⟩

theorem crowded_disagrees :
    ¬ ∀ dir, installedInitdb releases pinned crowded = some dir →
      resolveInstalledDir releases pinned crowded = some dir := by
  have hinitdb : installedInitdb releases pinned crowded = some (.child (ascii "18.6.0")) := by
    decide +kernel
  have hresolved : resolveInstalledDir releases pinned crowded = some .root := by decide +kernel
  intro hagree
  have hsame := hagree _ hinitdb
  rw [hresolved] at hsame
  cases hsame

theorem resolvers_agree_releases :
    releases.Lawful ∧ ((∀ dir, installedInitdb releases pinned crowded = some dir →
      resolveInstalledDir releases pinned crowded = some dir) ↔ ¬ Shadowed releases pinned crowded) :=
  ⟨releases_lawful,resolvers_agree_iff releases_lawful⟩

end PgEmbedSetup.Startup.Resolvers
