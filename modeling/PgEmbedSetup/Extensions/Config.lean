import Mathlib.Data.List.Infix
import PgEmbedSetup.Extensions.Pipeline

set_option autoImplicit false

/-!
`src/extensions/config.rs` and the digests of `digest.rs`: what `PG_EXTENSIONS` and the variables
beside it ask for.
-/

namespace PgEmbedSetup.Extensions.Config
open Library

/-! ### `digest.rs` -/

def isHexDigit (c : Char) : Bool := c.isDigit || ('a' ≤ c && c ≤ 'f')

def isSha256Hex (value : Text) : Bool := value.length = 64 && value.all isHexDigit

structure Sha256Hex where
  text : Text
  valid : isSha256Hex text = true
  deriving DecidableEq

/-- The error tells the value, cut for messages. -/
def Sha256Hex.parse (value : Text) : Except Text Sha256Hex :=
  if h : isSha256Hex value = true then .ok ⟨value,h⟩ else .error (value.take 80)

/-! ### `config.rs` -/

/-- The variables of `PgEnvCfg` that are about extensions. -/
structure PgEnvCfg where
  extensions : Option Text
  extensionsManifest : Option Text
  extensionsManifestSha256 : Option Text
  extensionsCacheDir : Option Text
  deriving DecidableEq

/-- Texts that are not Unicode count as absent, and the temporary directory is read lossily. -/
structure Env where
  var : Text → Option Text
  homeDir : Option Text
  tempDir : Text

inductive ConfigError where
  | badName (value : Text)
  | noManifest
  | badDigest (value : Text)
  | unpinned
  | badLocation
  deriving DecidableEq, Repr

/-- `debug` is the quoted rendering of a text. -/
def ConfigError.message (debug : Text → Text) : ConfigError → Text
  | .badName value => "extension name ".toList ++ debug value ++
      " is invalid; names use lower-case letters, digits and underscores".toList
  | .noManifest => ("PG_EXTENSIONS is set but PG_EXTENSIONS_MANIFEST is not; the manifest pins " ++
      "which archives may be installed").toList
  | .badDigest value => "PG_EXTENSIONS_MANIFEST_SHA256: digest ".toList ++ debug value ++
      " must be 64 lower-case hex characters".toList
  | .unpinned => ("PG_EXTENSIONS_MANIFEST is a URL, so PG_EXTENSIONS_MANIFEST_SHA256 is required " ++
      "to pin it").toList
  | .badLocation => ("PG_EXTENSIONS_MANIFEST must be an https:// URL, a loopback http:// URL, or " ++
      "a filesystem path").toList

def nonBlank (value : Option Text) : Option Text :=
  (value.map trim).filter fun text => !text.isEmpty

def cacheSubdir : Text := "pg-embedded/extensions".toList

/-- `Utf8Path::join` for a second part that is relative. -/
def joinPath (base rest : Text) : Text :=
  if base.isEmpty || base.getLast? = some '/' then base ++ rest else base ++ '/' :: rest

def resolveExtensionCacheDir (env : Env) : Text :=
  (nonBlank (env.var "PG_EXTENSIONS_CACHE_DIR".toList) <|>
    (nonBlank (env.var "XDG_CACHE_HOME".toList)).map (joinPath · cacheSubdir) <|>
    env.homeDir.map fun home => joinPath (joinPath home ".cache".toList) cacheSubdir).getD
  (joinPath (joinPath env.tempDir "pg-embedded".toList) "extensions".toList)

/-- The items of a comma-separated list. -/
def items (raw : Text) : List Text :=
  ((raw.splitOn ',').map trim).filter fun item => !item.isEmpty

def addNames (names : List ExtensionName) : List Text → Except ConfigError (List ExtensionName)
  | [] => .ok names
  | item :: rest =>
    if h : isExtensionName item = true then
      addNames (if ⟨item,h⟩ ∈ names then names else names ++ [⟨item,h⟩]) rest
    else .error (.badName item)

def parseNames (raw : Text) : Except ConfigError (List ExtensionName) := addNames [] (items raw)

section Host
variable (host : Host Sha256Hex)

def parseDigest (value : Text) : Except ConfigError Sha256Hex :=
  (Sha256Hex.parse value).mapError .badDigest

def parsePin (digest : Option Text) : Except ConfigError (Option Sha256Hex) :=
  match nonBlank digest with
  | none => .ok none
  | some value => (parseDigest value).map some

def hasScheme (location : Text) : Bool := "://".toList <:+: location

def parseManifestSource (rawLocation digest : Option Text) :
    Except ConfigError (ManifestSource Sha256Hex) :=
  match nonBlank rawLocation with
  | none => .error .noManifest
  | some location =>
    match parsePin digest with
    | .error e => .error e
    | .ok pinned =>
      if isPermittedUrl host location then
        match pinned with
        | none => .error .unpinned
        | some sha256 => .ok (.url location sha256)
      else if hasScheme location then .error .badLocation
      else .ok (.path location pinned)

/-- `ExtensionRequest` as it is declared, with the directory of its archives. -/
structure Declared where
  request : ExtensionRequest Sha256Hex
  cacheDir : Text
  deriving DecidableEq

def fromConfig (env : Env) (cfg : PgEnvCfg) : Except ConfigError (Option Declared) :=
  match parseNames (cfg.extensions.getD []) with
  | .error e => .error e
  | .ok [] => .ok none
  | .ok names =>
    (parseManifestSource host cfg.extensionsManifest cfg.extensionsManifestSha256).map fun manifest =>
      some ⟨⟨names,manifest⟩,cfg.extensionsCacheDir.getD (resolveExtensionCacheDir env)⟩

end Host

/-! ### Trimming and names -/

theorem trim_trim (text : Text) : trim (trim text) = trim text := by
  have hstart : (trim text).dropWhile isWhitespace = trim text := by
    refine List.dropWhile_eq_self_iff.mpr fun hpos => ?_
    have hlead : trim text <+: text.dropWhile isWhitespace := List.rdropWhile_prefix _ _
    have hlong := lt_of_lt_of_le hpos hlead.length_le
    rw [hlead.getElem hpos]
    exact List.dropWhile_get_zero_not _ _ hlong
  rw [trim,hstart]
  exact List.rdropWhile_idempotent ..

theorem eraseDups_cons_filter {seen : Text} {rest : List Text} :
    (seen :: rest).eraseDups = seen :: (rest.filter fun t => t ≠ seen).eraseDups := by
  rw [List.eraseDups_cons]
  congr 2
  refine List.filter_congr fun t _ => ?_
  rw [Bool.eq_iff_iff]
  simp

theorem addNames_ok {names found : List ExtensionName} {texts : List Text}
    (h : addNames names texts = .ok found) (hnodup : names.Nodup) :
    found.Nodup ∧ found.map (·.text) = names.map (·.text) ++
      (texts.filter fun t => t ∉ names.map (·.text)).eraseDups := by
  induction texts generalizing names with
  | nil =>
    cases h
    exact ⟨hnodup,by simp⟩
  | cons item rest ih =>
    rw [addNames] at h
    split at h
    · next hvalid =>
      split at h
      · next hmem =>
        have hitem : item ∈ names.map (·.text) := List.mem_map.mpr ⟨_,hmem,rfl⟩
        rw [List.filter_cons_of_neg (by simpa using hitem)]
        exact ih h hnodup
      · next hnew =>
        have hitem : item ∉ names.map (·.text) := by
          intro hmem
          obtain ⟨name,hname,rfl⟩ := List.mem_map.mp hmem
          exact hnew hname
        have hnames : (names ++ [(⟨item,hvalid⟩ : ExtensionName)]).map (·.text) =
            names.map (·.text) ++ [item] := by
          rw [List.map_append,List.map_singleton]
        obtain ⟨hfound,htexts⟩ := ih h (List.nodup_append.mpr ⟨hnodup,List.nodup_singleton _,by
          rintro a ha b hb rfl
          cases List.mem_singleton.mp hb
          exact hnew ha⟩)
        refine ⟨hfound,?_⟩
        rw [htexts,hnames,List.filter_cons_of_pos (by simpa using hitem),eraseDups_cons_filter,
          List.filter_filter,List.append_assoc,List.singleton_append]
        congr 4
        funext t
        rw [Bool.eq_iff_iff]
        simp [and_comm]
    · cases h

theorem addNames_texts (names : List ExtensionName) {more : List ExtensionName}
    (hnodup : (names ++ more).Nodup) :
    addNames names (more.map (·.text)) = .ok (names ++ more) := by
  induction more generalizing names with
  | nil => simp [addNames]
  | cons name more ih =>
    rw [List.append_cons] at hnodup ⊢
    have hnew : name ∉ names := fun hmem =>
      (List.nodup_append.mp (List.nodup_append.mp hnodup).1).2.2 name hmem name
        (List.mem_singleton_self name) rfl
    rw [List.map_cons,addNames,dif_pos name.valid,if_neg hnew]
    exact ih _ hnodup

/-! ### What is accepted -/

theorem visible_of_range {c : Char} (hlow : 33 ≤ c.toNat) (hhigh : c.toNat ≤ 126) :
    isWhitespace c = false := by
  simp [isWhitespace]
  omega

def Trimmed (text : Text) : Prop := text ≠ [] ∧ trim text = text

theorem nonBlank_trimmed {value : Option Text} {text : Text} (h : nonBlank value = some text) :
    Trimmed text := by
  obtain ⟨hmap,hne⟩ := Option.filter_eq_some_iff.mp h
  obtain ⟨raw,_,rfl⟩ := Option.map_eq_some_iff.mp hmap
  exact ⟨by simpa using hne,trim_trim raw⟩

theorem nonBlank_of_trimmed {text : Text} (h : Trimmed text) : nonBlank (some text) = some text := by
  simp [nonBlank,h.2,h.1]

theorem trimmed_of_visible {text : Text} (hne : text ≠ [])
    (h : ∀ c ∈ text, isWhitespace c = false) : Trimmed text := ⟨hne,trim_of_none h⟩

section Host
variable (host : Host Sha256Hex)

def SourceWellFormed : ManifestSource Sha256Hex → Prop
  | .url url _ => Trimmed url ∧ isPermittedUrl host url = true
  | .path path _ => Trimmed path ∧ isPermittedUrl host path = false ∧ hasScheme path = false

structure WellFormed (request : ExtensionRequest Sha256Hex) : Prop where
  some : request.names ≠ []
  distinct : request.names.Nodup
  source : SourceWellFormed host request.manifest

/-- The variables that ask for a request. -/
def render (request : ExtensionRequest Sha256Hex) (cacheDir : Text) : PgEnvCfg :=
  let (location,digest) := match request.manifest with
    | .url url sha256 => (url,some sha256)
    | .path path sha256 => (path,sha256)
  ⟨some ([','].intercalate (request.names.map (·.text))),some location,digest.map (·.text),
    some cacheDir⟩

theorem parseDigest_ok {value : Text} {digest : Sha256Hex} (h : parseDigest value = .ok digest) :
    digest.text = value := by
  rw [parseDigest,Sha256Hex.parse] at h
  split at h
  · cases h
    rfl
  · cases h

theorem parseDigest_text (digest : Sha256Hex) : parseDigest digest.text = .ok digest := by
  rw [parseDigest,Sha256Hex.parse,dif_pos digest.valid]
  rfl

theorem parseManifestSource_wellFormed {location digest : Option Text}
    {source : ManifestSource Sha256Hex} (h : parseManifestSource host location digest = .ok source) :
    SourceWellFormed host source := by
  rw [parseManifestSource] at h
  split at h
  · cases h
  · next text htext =>
    have htrimmed := nonBlank_trimmed htext
    split at h
    · cases h
    · next pinned hpinned =>
      split at h
      · next hpermitted =>
        cases pinned with
        | none => cases h
        | some sha256 =>
          cases h
          exact ⟨htrimmed,hpermitted⟩
      · next hpermitted =>
        split at h
        · cases h
        · next hscheme =>
          cases h
          exact ⟨htrimmed,Bool.eq_false_iff.mpr hpermitted,Bool.eq_false_iff.mpr hscheme⟩

def sourcePin : ManifestSource Sha256Hex → Option Sha256Hex
  | .url _ sha256 => some sha256
  | .path _ sha256 => sha256

/-- The variable's digest is the source's, and a URL never goes without. -/
theorem parseManifestSource_pin {location digest : Option Text} {source : ManifestSource Sha256Hex}
    (h : parseManifestSource host location digest = .ok source) :
    parsePin digest = .ok (sourcePin source) := by
  rw [parseManifestSource] at h
  split at h
  · cases h
  · split at h
    · cases h
    · next pinned hpinned =>
      rw [hpinned]
      split at h
      · cases pinned <;> cases h
        rfl
      · split at h <;> cases h
        rfl

theorem paired_ok {ε α β : Type} {x : Except ε α} {a : α} {b b' : β}
    (h : x.map (·,b) = .ok (a,b')) : b' = b := by
  cases x with
  | error e => cases h
  | ok checked =>
    cases h
    rfl

theorem readSource_pin {source : ManifestSource Sha256Hex} {bytes : Bytes}
    {pinned : Option Sha256Hex} (h : readSource host source = .ok (bytes,pinned)) :
    pinned = sourcePin source := by
  unfold readSource at h
  cases source with
  | url url sha256 =>
    dsimp only at h
    split at h
    · cases h
    · exact paired_ok h
  | path path sha256 =>
    dsimp only at h
    split at h
    · cases h
    · exact paired_ok h

theorem load_pinned {sha : Bytes → Sha256Hex} {source : ManifestSource Sha256Hex}
    {manifest : Manifest Sha256Hex} (h : load host sha source = .ok manifest) :
    ∃ bytes, Manifest.parse host bytes = .ok manifest ∧
      ∀ pin, sourcePin source = some pin → sha bytes = pin := by
  unfold load at h
  cases hread : readSource host source with
  | error e =>
    rw [hread] at h
    cases h
  | ok found =>
    obtain ⟨bytes,pinned⟩ := found
    rw [hread] at h
    have hpinned := readSource_pin host hread
    subst hpinned
    refine ⟨bytes,?_⟩
    cases hpin : sourcePin source with
    | none =>
      simp only [hpin] at h
      exact ⟨h,fun pin hpin => nomatch hpin⟩
    | some expected =>
      simp only [hpin] at h
      change (verifyDigest sha bytes expected source >>= fun _ => Manifest.parse host bytes) =
        .ok manifest at h
      by_cases hsha : sha bytes = expected
      · rw [verifyDigest,if_pos hsha] at h
        exact ⟨h,fun pin hpin => Option.some.inj hpin ▸ hsha⟩
      · rw [verifyDigest,if_neg hsha] at h
        cases h

theorem hexDigit_visible {c : Char} (h : isHexDigit c = true) : isWhitespace c = false := by
  rw [isHexDigit,Bool.or_eq_true] at h
  rcases h with hdigit | hletter
  · exact isWhitespace_of_isDigit hdigit
  · simp only [Bool.and_eq_true,decide_eq_true_eq,Char.le_def,UInt32.le_iff_toNat_le] at hletter
    exact visible_of_range (Nat.le_trans (by decide) hletter.1) (Nat.le_trans hletter.2 (by decide))

theorem parsePin_text (digest : Option Sha256Hex) : parsePin (digest.map (·.text)) = .ok digest := by
  cases digest with
  | none => rfl
  | some digest =>
    have hvalid := digest.valid
    rw [isSha256Hex,Bool.and_eq_true,decide_eq_true_eq,List.all_eq_true] at hvalid
    have hne : digest.text ≠ [] := by
      intro hnil
      simp [hnil] at hvalid
    have htrimmed := trimmed_of_visible hne fun c hc => hexDigit_visible (hvalid.2 c hc)
    rw [Option.map_some,parsePin,nonBlank_of_trimmed htrimmed]
    simp only [parseDigest_text]
    rfl

theorem parseManifestSource_render {request : ExtensionRequest Sha256Hex} (cacheDir : Text)
    (h : SourceWellFormed host request.manifest) :
    parseManifestSource host (render request cacheDir).extensionsManifest
      (render request cacheDir).extensionsManifestSha256 = .ok request.manifest := by
  cases hsource : request.manifest with
  | url url sha256 =>
    rw [hsource] at h
    obtain ⟨htrimmed,hpermitted⟩ := h
    have hpin := parsePin_text (some sha256)
    simp only [render,hsource,parseManifestSource,nonBlank_of_trimmed htrimmed,hpin,hpermitted,
      if_true]
  | path path sha256 =>
    rw [hsource] at h
    obtain ⟨htrimmed,hpermitted,hscheme⟩ := h
    simp [render,hsource,parseManifestSource,nonBlank_of_trimmed htrimmed,parsePin_text,hpermitted,
      hscheme]

theorem nameChar_visible {c : Char} (h : isNameChar c = true) : isWhitespace c = false ∧ c ≠ ',' := by
  rw [isNameChar,Bool.or_eq_true,Bool.or_eq_true,decide_eq_true_eq] at h
  have hrange : 48 ≤ c.toNat ∧ c.toNat ≤ 126 := by
    rcases h with (hlower | hdigit) | rfl
    · change (decide (c.val ≥ 'a'.val) && decide (c.val ≤ 'z'.val)) = true at hlower
      simp only [Bool.and_eq_true,decide_eq_true_eq,ge_iff_le,UInt32.le_iff_toNat_le] at hlower
      exact ⟨Nat.le_trans (by decide) hlower.1,Nat.le_trans hlower.2 (by decide)⟩
    · have hbounds := isDigit_bounds hdigit
      omega
    · decide
  refine ⟨visible_of_range (by omega) hrange.2,?_⟩
  rintro rfl
  exact absurd hrange.1 (by decide)

theorem items_render {names : List ExtensionName} (hne : names ≠ []) :
    items ([','].intercalate (names.map (·.text))) = names.map (·.text) := by
  have hchars (name : ExtensionName) : name.text ≠ [] ∧ ∀ c ∈ name.text, isNameChar c = true := by
    simpa [isExtensionName] using name.valid
  rw [items,List.splitOn_intercalate]
  · have htrim : (names.map (·.text)).map trim = names.map (·.text) := by
      rw [List.map_map]
      exact List.map_congr_left fun name _ =>
        trim_of_none fun c hc => (nameChar_visible ((hchars name).2 c hc)).1
    rw [htrim]
    refine List.filter_eq_self.mpr fun text htext => ?_
    obtain ⟨name,_,rfl⟩ := List.mem_map.mp htext
    simpa using (hchars name).1
  · intro text htext hcomma
    obtain ⟨name,_,rfl⟩ := List.mem_map.mp htext
    exact (nameChar_visible ((hchars name).2 _ hcomma)).2 rfl
  · simpa using hne

/-! ### The request -/

theorem parseNames_ok {raw : Text} {names : List ExtensionName} (h : parseNames raw = .ok names) :
    names.Nodup ∧ names.map (·.text) = (items raw).eraseDups := by
  simpa using addNames_ok h List.nodup_nil

theorem parseNames_nil {raw : Text} : parseNames raw = .ok [] ↔ items raw = [] := by
  refine ⟨fun h => ?_,fun h => by rw [parseNames,h,addNames]⟩
  have htexts := (parseNames_ok h).2
  cases hitems : items raw with
  | nil => rfl
  | cons item rest =>
    rw [hitems,List.eraseDups_cons] at htexts
    cases htexts

theorem parseNames_render {names : List ExtensionName} (hne : names ≠ []) (hnodup : names.Nodup) :
    parseNames ([','].intercalate (names.map (·.text))) = .ok names := by
  rw [parseNames,items_render hne]
  exact addNames_texts [] hnodup

/-- What a declaration comes to, and which declarations there are. -/
theorem fromConfig_exact (env : Env) :
    (∀ cfg declared, fromConfig host env cfg = .ok (some declared) →
      WellFormed host declared.request ∧
        declared.request.names.map (·.text) = (items (cfg.extensions.getD [])).eraseDups ∧
        ∀ sha manifest, load host sha declared.request.manifest = .ok manifest →
          ∃ bytes, Manifest.parse host bytes = .ok manifest ∧
            ∀ pin, parsePin cfg.extensionsManifestSha256 = .ok (some pin) → sha bytes = pin) ∧
      (∀ request cacheDir, WellFormed host request →
        fromConfig host env (render request cacheDir) = .ok (some ⟨request,cacheDir⟩)) ∧
      ∀ cfg, fromConfig host env cfg = .ok none ↔ items (cfg.extensions.getD []) = [] := by
  refine ⟨fun cfg declared h => ?_,fun request cacheDir h => ?_,fun cfg => ?_⟩
  · rw [fromConfig] at h
    split at h
    · cases h
    · cases h
    · next names hempty hnames =>
      obtain ⟨hnodup,htexts⟩ := parseNames_ok hnames
      cases hsource : parseManifestSource host cfg.extensionsManifest cfg.extensionsManifestSha256 with
      | error e =>
        rw [hsource] at h
        cases h
      | ok manifest =>
        rw [hsource] at h
        cases h
        refine ⟨⟨hempty,hnodup,parseManifestSource_wellFormed host hsource⟩,htexts,?_⟩
        intro sha found hload
        obtain ⟨bytes,hparse,hpins⟩ := load_pinned host hload
        refine ⟨bytes,hparse,fun pin hpin => hpins pin ?_⟩
        rw [parseManifestSource_pin host hsource] at hpin
        exact Except.ok.inj hpin
  · have hnames : parseNames ((render request cacheDir).extensions.getD []) = .ok request.names :=
      parseNames_render h.some h.distinct
    have hsource := parseManifestSource_render host cacheDir h.source
    rw [fromConfig,hnames]
    cases hlist : request.names with
    | nil => exact absurd hlist h.some
    | cons name rest =>
      simp only [hsource,← hlist]
      rfl
  · rw [← parseNames_nil,fromConfig]
    cases hnames : parseNames (cfg.extensions.getD []) with
    | error e => simp
    | ok names =>
      cases names with
      | nil => simp
      | cons name rest =>
        cases parseManifestSource host cfg.extensionsManifest cfg.extensionsManifestSha256 <;>
          simp [Except.map]

end Host

end PgEmbedSetup.Extensions.Config
