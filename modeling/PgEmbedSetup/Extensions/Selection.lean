import PgEmbedSetup.Extensions.Acquired
import PgEmbedSetup.Library.FirstMatch

set_option autoImplicit false

/-!
Which artifact of an accepted manifest is chosen, and what an accepted manifest may repeat: the
name of an extension, and the row of an artifact.
-/

namespace PgEmbedSetup.Extensions
open Library

section Select
variable {δ : Type} (host : Host δ)

/-- A manifest as groups of rows. -/
def artifactsByName : Grouping (ManifestExtension δ) Text (ManifestArtifact δ) where
  key extension := extension.name
  rows extension := extension.artifacts
  withRows extension artifacts := { extension with artifacts := artifacts }
  key_withRows _ _ := rfl
  rows_withRows _ _ := rfl
  withRows_rows _ := rfl

/-- The artifact is built for the major and the minor that run, and for the target. -/
def BuiltFor (artifact : ManifestArtifact δ) (running : Version) (target : Text) : Prop :=
  ∃ built, artifactVersion host artifact = some built ∧
    built.major = running.major ∧ built.minor = running.minor ∧ artifact.target = target

theorem artifactMatches_iff {artifact : ManifestArtifact δ} {running : Version} {target : Text} :
    artifactMatches host artifact running target = true ↔ BuiltFor host artifact running target := by
  simp [artifactMatches,BuiltFor,Option.any_eq_true]

variable (manifest : Manifest δ) (name : ExtensionName) (running : Version) (target : Text)

def found : Option (ManifestExtension δ × ManifestArtifact δ) :=
  artifactsByName.firstMatch name.text (fun a => artifactMatches host a running target)
    manifest.extensions

theorem select_ok_iff {selection : Selection δ} :
    manifest.select host name running target = .ok selection ↔
      found host manifest name running target = some (selection.extension,selection.artifact) := by
  unfold found
  rw [Grouping.firstMatch_eq_some]
  change _ ↔ manifest.extensions.find? (fun extension => extension.name = name.text) =
      some selection.extension ∧
    selection.extension.artifacts.find? (fun a => artifactMatches host a running target) =
      some selection.artifact
  unfold Manifest.select
  constructor
  · intro h
    split at h
    · cases h
    · next extension hextension =>
      split at h
      · cases h
      · next artifact hartifact =>
        cases h
        exact ⟨hextension,hartifact⟩
  · rintro ⟨hextension,hartifact⟩
    simp [hextension,hartifact]

theorem select_error_kind {e : ManifestError δ}
    (h : manifest.select host name running target = .error e) : e.kind = .unavailable := by
  unfold Manifest.select at h
  split at h
  · cases h
    rfl
  · split at h <;> cases h
    rfl

/-- What the caller learns: the digest, or what kind of failure it is. -/
def chosenDigest : Except ExtensionErrorKind δ :=
  match manifest.select host name running target with
  | .ok selection => .ok selection.artifact.sha256
  | .error e => .error e.kind

theorem chosenDigest_eq :
    chosenDigest host manifest name running target =
      ((found host manifest name running target).map (fun pair => pair.2.sha256)).elim
        (.error .unavailable) .ok := by
  unfold chosenDigest
  cases hselect : manifest.select host name running target with
  | ok selection =>
    rw [(select_ok_iff host manifest name running target).mp hselect]
    rfl
  | error e =>
    cases hfound : found host manifest name running target with
    | none => exact congrArg Except.error (select_error_kind host manifest name running target hselect)
    | some pair =>
      have hok : manifest.select host name running target = .ok ⟨pair.1,pair.2⟩ :=
        (select_ok_iff host manifest name running target).mpr hfound
      rw [hselect] at hok
      cases hok

/-! ### Sound and complete -/

/-- `select` succeeds when the manifest has what is asked for, and then with just that. -/
def SelectsRight : Prop :=
  ((∃ selection, manifest.select host name running target = .ok selection) ↔
    ∃ extension ∈ manifest.extensions, extension.name = name.text ∧
      ∃ artifact ∈ extension.artifacts, BuiltFor host artifact running target) ∧
  ∀ selection, manifest.select host name running target = .ok selection →
    selection.extension ∈ manifest.extensions ∧ selection.extension.name = name.text ∧
      selection.artifact ∈ selection.extension.artifacts ∧
      BuiltFor host selection.artifact running target

/-- No later entry of the name has a build that the first entry of the name lacks. -/
def FirstEntrySuffices : Prop :=
  ∀ first, manifest.extensions.find? (fun extension => extension.name = name.text) = some first →
    (∃ extension ∈ manifest.extensions, extension.name = name.text ∧
      ∃ artifact ∈ extension.artifacts, BuiltFor host artifact running target) →
    ∃ artifact ∈ first.artifacts, BuiltFor host artifact running target

theorem carries_iff {extension : ManifestExtension δ} :
    artifactsByName.Carries (fun a => artifactMatches host a running target) extension ↔
      ∃ artifact ∈ extension.artifacts, BuiltFor host artifact running target := by
  simp only [Grouping.Carries,artifactMatches_iff]
  rfl

theorem firstEntrySuffices_iff :
    FirstEntrySuffices host manifest name running target ↔
      artifactsByName.FirstCarries name.text (fun a => artifactMatches host a running target)
        manifest.extensions := by
  unfold FirstEntrySuffices Grouping.FirstCarries
  simp only [carries_iff]
  rfl

/-- `select` is always sound, so it is right when it is complete. -/
theorem selectsRight_iff_complete :
    SelectsRight host manifest name running target ↔
      ((∃ pair, found host manifest name running target = some pair) ↔
        ∃ extension ∈ manifest.extensions, artifactsByName.key extension = name.text ∧
          artifactsByName.Carries (fun a => artifactMatches host a running target) extension) := by
  have hfinds : (∃ selection, manifest.select host name running target = .ok selection) ↔
      ∃ pair, found host manifest name running target = some pair := by
    constructor
    · rintro ⟨selection,hselect⟩
      exact ⟨_,(select_ok_iff host manifest name running target).mp hselect⟩
    · rintro ⟨pair,hfound⟩
      exact ⟨⟨pair.1,pair.2⟩,(select_ok_iff host manifest name running target).mpr hfound⟩
  have hsound : ∀ selection, manifest.select host name running target = .ok selection →
      selection.extension ∈ manifest.extensions ∧ selection.extension.name = name.text ∧
        selection.artifact ∈ selection.extension.artifacts ∧
        BuiltFor host selection.artifact running target := by
    intro selection hselect
    have hfound := (select_ok_iff host manifest name running target).mp hselect
    obtain ⟨hmem,hname,hartifact,hfits⟩ := Grouping.firstMatch_sound hfound
    exact ⟨hmem,hname,hartifact,(artifactMatches_iff host).mp hfits⟩
  unfold SelectsRight
  rw [hfinds,and_iff_left hsound]
  simp only [carries_iff]
  rfl

/-- Where no name is repeated there is no later entry to be missed. -/
theorem selectsRight_of_distinct (h : (manifest.extensions.map (·.name)).Nodup) :
    SelectsRight host manifest name running target := by
  rw [selectsRight_iff_complete]
  exact Grouping.firstMatch_complete_iff.mpr (Grouping.firstCarries_of_nodup h)

theorem selectsRight_iff :
    SelectsRight host manifest name running target ↔
      FirstEntrySuffices host manifest name running target := by
  rw [selectsRight_iff_complete,firstEntrySuffices_iff]
  exact Grouping.firstMatch_complete_iff

end Select

/-! ### One digest for each row -/

section Rows
variable {δ : Type} (host : Host δ)

/-- The extensions in another order, and the artifacts of each in another order. -/
def Manifest.Reordered (manifest manifest' : Manifest δ) : Prop :=
  manifest'.schemaVersion = manifest.schemaVersion ∧
    artifactsByName.Reordered manifest.extensions manifest'.extensions

/-- The manifest has this digest for the row. -/
def Offers (manifest : Manifest δ) (name : ExtensionName) (running : Version) (target : Text)
    (digest : δ) : Prop :=
  ∃ extension ∈ manifest.extensions, extension.name = name.text ∧
    ∃ artifact ∈ extension.artifacts, BuiltFor host artifact running target ∧
      artifact.sha256 = digest

/-- The order of a manifest does not matter, as it has one digest at most for each row. -/
def DigestPinned (manifest : Manifest δ) : Prop :=
  (∀ manifest', manifest.Reordered manifest' → ∀ name running target,
    chosenDigest host manifest' name running target =
      chosenDigest host manifest name running target) ∧
  ∀ name running target digest₁ digest₂, Offers host manifest name running target digest₁ →
    Offers host manifest name running target digest₂ → digest₁ = digest₂

/-- Two artifacts that a query cannot tell apart. -/
def SameRow (artifact₁ artifact₂ : ManifestArtifact δ) : Prop :=
  ∃ built₁ built₂, artifactVersion host artifact₁ = some built₁ ∧
    artifactVersion host artifact₂ = some built₂ ∧ built₁.major = built₂.major ∧
    built₁.minor = built₂.minor ∧ artifact₁.target = artifact₂.target

/-- Entries of one name have the same rows, with the same digests. -/
def EntriesAgree (manifest : Manifest δ) : Prop :=
  ∀ entry₁ ∈ manifest.extensions, ∀ entry₂ ∈ manifest.extensions, entry₁.name = entry₂.name →
    ∀ artifact₁ ∈ entry₁.artifacts,
      (∃ artifact₂ ∈ entry₂.artifacts, SameRow host artifact₁ artifact₂) ∧
      ∀ artifact₂ ∈ entry₂.artifacts, SameRow host artifact₁ artifact₂ →
        artifact₁.sha256 = artifact₂.sha256

variable {host} {manifest : Manifest δ}

theorem SameRow.builtFor {artifact₁ artifact₂ : ManifestArtifact δ}
    (h : SameRow host artifact₁ artifact₂) {running : Version} {target : Text}
    (hbuilt : BuiltFor host artifact₁ running target) : BuiltFor host artifact₂ running target := by
  obtain ⟨built₁,built₂,h₁,h₂,hmajor,hminor,htarget⟩ := h
  obtain ⟨built,hversion,hmajor',hminor',htarget'⟩ := hbuilt
  rw [h₁,Option.some.injEq] at hversion
  subst hversion
  exact ⟨built₂,h₂,hmajor.symm.trans hmajor',hminor.symm.trans hminor',
    htarget.symm.trans htarget'⟩

theorem BuiltFor.sameRow {artifact₁ artifact₂ : ManifestArtifact δ} {running : Version}
    {target : Text} (h₁ : BuiltFor host artifact₁ running target)
    (h₂ : BuiltFor host artifact₂ running target) : SameRow host artifact₁ artifact₂ := by
  obtain ⟨built₁,hversion₁,hmajor₁,hminor₁,htarget₁⟩ := h₁
  obtain ⟨built₂,hversion₂,hmajor₂,hminor₂,htarget₂⟩ := h₂
  exact ⟨built₁,built₂,hversion₁,hversion₂,hmajor₁.trans hmajor₂.symm,
    hminor₁.trans hminor₂.symm,htarget₁.trans htarget₂.symm⟩

/-- One query asks for one value of each entry of its name. -/
theorem oneValue_of_entriesAgree (h : EntriesAgree host manifest) (name : ExtensionName)
    (running : Version) (target : Text) :
    artifactsByName.OneValue name.text (fun a => artifactMatches host a running target)
      (·.sha256) manifest.extensions := by
  intro entry₁ hentry₁ hname₁ entry₂ hentry₂ hname₂ artifact₁ hartifact₁ hfits₁
  have hbuilt₁ := (artifactMatches_iff host).mp hfits₁
  obtain ⟨⟨artifact₂,hartifact₂,hrow⟩,hdigest⟩ :=
    h entry₁ hentry₁ entry₂ hentry₂ (hname₁.trans hname₂.symm) artifact₁ hartifact₁
  refine ⟨⟨artifact₂,hartifact₂,(artifactMatches_iff host).mpr (hrow.builtFor hbuilt₁)⟩,?_⟩
  intro artifact hartifact hfits
  exact hdigest artifact hartifact (hbuilt₁.sameRow ((artifactMatches_iff host).mp hfits))

/-- What every query asks for together is what the entries of an accepted manifest agree on. -/
theorem entriesAgree_of_oneValue {bytes : Bytes} (hparse : Manifest.parse host bytes = .ok manifest)
    (h : ∀ (name : ExtensionName) running target, artifactsByName.OneValue name.text
      (fun a => artifactMatches host a running target) (·.sha256) manifest.extensions) :
    EntriesAgree host manifest := by
  intro entry₁ hentry₁ entry₂ hentry₂ hname artifact₁ hartifact₁
  obtain ⟨hvalid,hchecked⟩ := validated_of_parse hparse hentry₁
  obtain ⟨built,hbuilt⟩ := (validateArtifact_ok (hchecked artifact₁ hartifact₁)).1
  have hbuilt₁ : BuiltFor host artifact₁ built artifact₁.target := ⟨built,hbuilt,rfl,rfl,rfl⟩
  obtain ⟨⟨artifact₂,hartifact₂,hfits₂⟩,hdigest⟩ := h ⟨entry₁.name,hvalid⟩ built artifact₁.target
    entry₁ hentry₁ rfl entry₂ hentry₂ hname.symm artifact₁ hartifact₁
    ((artifactMatches_iff host).mpr hbuilt₁)
  refine ⟨⟨artifact₂,hartifact₂,hbuilt₁.sameRow ((artifactMatches_iff host).mp hfits₂)⟩,?_⟩
  intro artifact hartifact hrow
  exact hdigest artifact hartifact ((artifactMatches_iff host).mpr (hrow.builtFor hbuilt₁))

theorem chosenDigest_eq_iff {manifest' : Manifest δ} {name : ExtensionName} {running : Version}
    {target : Text} :
    chosenDigest host manifest' name running target =
        chosenDigest host manifest name running target ↔
      (found host manifest' name running target).map (fun pair => pair.2.sha256) =
        (found host manifest name running target).map (fun pair => pair.2.sha256) := by
  rw [chosenDigest_eq,chosenDigest_eq]
  refine ⟨fun h => ?_,fun h => by rw [h]⟩
  cases h₁ : (found host manifest' name running target).map (fun pair => pair.2.sha256) <;>
    cases h₂ : (found host manifest name running target).map (fun pair => pair.2.sha256) <;>
    simp_all

/-- The digest that an accepted manifest gives does not depend on its order exactly when entries
of one name have the same rows, with the same digests. -/
theorem digestPinned_iff {bytes : Bytes} (hparse : Manifest.parse host bytes = .ok manifest) :
    DigestPinned host manifest ↔ EntriesAgree host manifest := by
  constructor
  · rintro ⟨hsame,-⟩
    refine entriesAgree_of_oneValue hparse fun name running target => ?_
    rw [← Grouping.value_reordered_iff]
    intro extensions hreordered
    exact chosenDigest_eq_iff.mp
      (hsame { manifest with extensions := extensions } ⟨rfl,hreordered⟩ name running target)
  · intro hagree
    refine ⟨fun manifest' hreordered name running target => ?_,?_⟩
    · exact chosenDigest_eq_iff.mpr
        (Grouping.value_reordered (oneValue_of_entriesAgree hagree name running target) hreordered.2)
    · rintro name running target - - ⟨entry₁,hentry₁,hname₁,artifact₁,hartifact₁,hbuilt₁,rfl⟩
        ⟨entry₂,hentry₂,hname₂,artifact₂,hartifact₂,hbuilt₂,rfl⟩
      exact (hagree entry₁ hentry₁ entry₂ hentry₂ (hname₁.trans hname₂.symm) artifact₁
        hartifact₁).2 artifact₂ hartifact₂ (hbuilt₁.sameRow hbuilt₂)

end Rows

/-! ### Two manifests that are accepted -/

def quoted (value : Text) : Text := '"' :: (value++['"'])

def jsonField (key : String) (value : Text) : Text := quoted key.toList ++ ':' :: value

def jsonArray (values : List Text) : Text := '[' :: ([','].intercalate values++[']'])

def jsonObject (fields : List Text) : Text := '\x7b' :: ([','].intercalate fields++['\x7d'])

def ManifestArtifact.json (artifact : ManifestArtifact Text) : Text :=
  jsonObject [jsonField "postgresql" (quoted artifact.postgresql),
    jsonField "target" (quoted artifact.target),jsonField "file" (quoted artifact.file),
    jsonField "url" (quoted artifact.url),jsonField "sha256" (quoted artifact.sha256),
    jsonField "size" (decimal artifact.size),
    jsonField "files" (jsonArray (artifact.files.map quoted))]

def ManifestExtension.json (extension : ManifestExtension Text) : Text :=
  jsonObject [jsonField "name" (quoted extension.name),
    jsonField "package" (quoted extension.name),jsonField "version" (quoted extension.version),
    jsonField "source" (jsonObject [jsonField "repository" (quoted extension.name),
      jsonField "tag" (quoted extension.version),jsonField "commit" (quoted extension.version)]),
    jsonField "artifacts" (jsonArray (extension.artifacts.map (·.json)))]

def Manifest.json (manifest : Manifest Text) : Text :=
  jsonObject [jsonField "schema_version" (decimal manifest.schemaVersion),
    jsonField "release" (quoted "v1.0.0".toList),
    jsonField "generated_at" (quoted "2026-09-05T00:00:00+00:00".toList),
    jsonField "extensions" (jsonArray (manifest.extensions.map (·.json)))]

def linuxTarget : Text := "x86_64-unknown-linux-gnu".toList

def vectorUrl : Text := "https://example.com/vector.tar.gz".toList

def vectorBuild (postgresql : String) (digit : Char) : ManifestArtifact Text where
  postgresql := postgresql.toList
  target := linuxTarget
  file := "vector.tar.gz".toList
  url := vectorUrl
  sha256 := List.replicate 64 digit
  size := 1024
  files := ["lib/vector.so".toList]

def vectorExtension (artifacts : List (ManifestArtifact Text)) : ManifestExtension Text :=
  ⟨"vector".toList,"0.8.6".toList,artifacts⟩

def parseDotted (text : Text) : Option Version :=
  match text.splitOn '.' with
  | [major,minor,_] => do
    let major ← parseUnsigned u64Max major
    let minor ← parseUnsigned u64Max minor
    some ⟨major,minor⟩
  | _ => none

/-- A host on which the JSON text of this one manifest is read. -/
def hostReading (manifest : Manifest Text) : Host Text where
  target := linuxTarget
  parseVersion := parseDotted
  parseUrl := fun url =>
    if url = vectorUrl then some ⟨"https".toList,some "example.com".toList⟩ else none
  isLoopbackIp := fun _ => false
  parseJson := fun bytes => if bytes = encodeUtf8 manifest.json then some manifest else none
  readFile := fun _ => none
  fetch := fun _ => none
  dirName := some "17.11.0".toList
  pgConfig := none

def vectorName : ExtensionName := ⟨"vector".toList,by decide⟩

/-- One entry for each release. -/
def twiceNamed : Manifest Text :=
  ⟨1,[vectorExtension [vectorBuild "16.4.0" '0'],vectorExtension [vectorBuild "17.11.0" '1']]⟩

/-- One release, built twice. -/
def rebuilt : Manifest Text :=
  ⟨1,[vectorExtension [vectorBuild "17.11.0" '0',vectorBuild "17.11.1" '1']]⟩

theorem twiceNamed_parsed :
    Manifest.parse (hostReading twiceNamed) (encodeUtf8 twiceNamed.json) = .ok twiceNamed := by
  decide +kernel

theorem select_misses_later_entry :
    Manifest.parse (hostReading twiceNamed) (encodeUtf8 twiceNamed.json) = .ok twiceNamed ∧
      ¬ SelectsRight (hostReading twiceNamed) twiceNamed vectorName ⟨17,11⟩ linuxTarget := by
  refine ⟨twiceNamed_parsed,fun hright => ?_⟩
  have hbuilt : BuiltFor (hostReading twiceNamed) (vectorBuild "17.11.0" '1') ⟨17,11⟩ linuxTarget :=
    ⟨⟨17,11⟩,by decide +kernel,rfl,rfl,rfl⟩
  obtain ⟨selection,hselect⟩ := hright.1.mpr
    ⟨vectorExtension [vectorBuild "17.11.0" '1'],List.mem_cons_of_mem _ List.mem_cons_self,rfl,_,
      List.mem_cons_self,hbuilt⟩
  have hfails : (twiceNamed.select (hostReading twiceNamed) vectorName ⟨17,11⟩
      linuxTarget).toOption = none := by decide +kernel
  rw [hselect] at hfails
  cases hfails

theorem rebuilt_not_pinned :
    Manifest.parse (hostReading rebuilt) (encodeUtf8 rebuilt.json) = .ok rebuilt ∧
      ¬ DigestPinned (hostReading rebuilt) rebuilt := by
  refine ⟨by decide +kernel,fun hpinned => ?_⟩
  have hsame := hpinned.2 vectorName ⟨17,11⟩ linuxTarget (List.replicate 64 '0')
    (List.replicate 64 '1')
    ⟨_,List.mem_cons_self,rfl,vectorBuild "17.11.0" '0',List.mem_cons_self,
      ⟨⟨17,11⟩,by decide +kernel,rfl,rfl,rfl⟩,rfl⟩
    ⟨_,List.mem_cons_self,rfl,vectorBuild "17.11.1" '1',List.mem_cons_of_mem _ List.mem_cons_self,
      ⟨⟨17,11⟩,by decide +kernel,rfl,rfl,rfl⟩,rfl⟩
  exact absurd hsame (by decide)

theorem twiceNamed_pinned_iff :
    DigestPinned (hostReading twiceNamed) twiceNamed ↔
      EntriesAgree (hostReading twiceNamed) twiceNamed :=
  digestPinned_iff twiceNamed_parsed

end PgEmbedSetup.Extensions
