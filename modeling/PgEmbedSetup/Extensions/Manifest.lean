import PgEmbedSetup.Extensions.Install

set_option autoImplicit false

/-!
`src/extensions/{manifest,version,name,http}`: what a manifest is, which manifests are accepted,
and which artifact of one is chosen for a name.
-/

namespace PgEmbedSetup.Extensions
open Library

/-! ### `name.rs` -/

def isNameChar (c : Char) : Bool := c.isLower || c.isDigit || c = '_'

def isExtensionName (value : Text) : Bool := !value.isEmpty && value.all isNameChar

structure ExtensionName where
  text : Text
  valid : isExtensionName text = true
  deriving DecidableEq

/-! ### The schema -/

/-- The third number of a version is never compared. -/
structure Version where
  major : Nat
  minor : Nat
  deriving DecidableEq, Repr

/-- `δ` are the digests, of which the code asks no more than whether two are equal. -/
structure ManifestArtifact (δ : Type) where
  postgresql : Text
  target : Text
  file : Text
  url : Text
  sha256 : δ
  size : Nat
  files : List Text
  deriving DecidableEq, Repr

structure ManifestExtension (δ : Type) where
  name : Text
  version : Text
  artifacts : List (ManifestArtifact δ)
  deriving DecidableEq, Repr

structure Manifest (δ : Type) where
  schemaVersion : Nat
  extensions : List (ManifestExtension δ)
  deriving DecidableEq, Repr

inductive ManifestSource (δ : Type) where
  | url (url : Text) (sha256 : δ)
  | path (path : Text) (sha256 : Option δ)
  deriving DecidableEq, Repr

/-- A parsed URL, as far as it is looked at. -/
structure Url where
  scheme : Text
  host : Option Text
  deriving DecidableEq, Repr

/-- What comes from outside: parsers of other crates, the compile target, the manifest's bytes
as read or fetched, and what `pg_config --version` prints if it succeeds. -/
structure Host (δ : Type) where
  target : Text
  parseVersion : Text → Option Version
  parseUrl : Text → Option Url
  isLoopbackIp : Text → Bool
  parseJson : Bytes → Option (Manifest δ)
  readFile : Text → Option Bytes
  fetch : Text → Option Bytes
  dirName : Option Text
  pgConfig : Option Text

inductive ManifestError (δ : Type) where
  | cannotRead (source : ManifestSource δ)
  | tooLarge
  | digestMismatch (source : ManifestSource δ) (actual expected : δ)
  | notJson
  | schema (version : Nat)
  | badName (name : Text)
  | badVersion (name postgresql : Text)
  | badFile (name file : Text)
  | badSize (name file : Text) (size : Nat)
  | noFiles (name file : Text)
  | badUrl (name url : Text)
  | noExtension (name : Text) (offered : List Text)
  | noArtifact (name : Text) (running : Version) (target : Text) (offered : List (Text × Text))
  | unknownVersion
  deriving DecidableEq, Repr

inductive ExtensionErrorKind where
  | manifestUnavailable
  | manifestDigestMismatch
  | manifestInvalid
  | unavailable
  | archiveUnavailable
  | archiveDigestMismatch
  | archiveInvalid
  | installFailed
  deriving DecidableEq, Repr

def ManifestError.kind {δ : Type} : ManifestError δ → ExtensionErrorKind
  | .cannotRead _ => .manifestUnavailable
  | .digestMismatch _ _ _ => .manifestDigestMismatch
  | .noExtension _ _ | .noArtifact _ _ _ _ | .unknownVersion => .unavailable
  | _ => .manifestInvalid

def supportedSchemaVersion : Nat := 1

def manifestSizeCap : Nat := 1024*1024

def archiveSizeCap : Nat := 256*1024*1024

section Host
variable {δ : Type} (host : Host δ)

/-! ### `http.rs` -/

def isBracket (c : Char) : Bool := c = '[' || c = ']'

def isLoopbackHost (name : Text) : Bool :=
  name = "localhost".toList ||
    host.isLoopbackIp (trimEnd isBracket (name.dropWhile isBracket))

def isPermitted (url : Url) : Bool :=
  if url.scheme = "https".toList then true
  else if url.scheme = "http".toList then url.host.any (isLoopbackHost host)
  else false

def isPermittedUrl (url : Text) : Bool := (host.parseUrl url).any (isPermitted host)

/-! ### Validation -/

def artifactVersion (artifact : ManifestArtifact δ) : Option Version :=
  host.parseVersion artifact.postgresql

def isSingleComponent (file : Text) : Bool :=
  !file.isEmpty && '/' ∉ file && '\\' ∉ file && file ≠ ['.'] && file ≠ ['.','.']

def validateArtifact (name : Text) (artifact : ManifestArtifact δ) :
    Except (ManifestError δ) Unit :=
  if (artifactVersion host artifact).isNone then .error (.badVersion name artifact.postgresql)
  else if !isSingleComponent artifact.file then .error (.badFile name artifact.file)
  else if artifact.size = 0 ∨ artifact.size > archiveSizeCap then
    .error (.badSize name artifact.file artifact.size)
  else if artifact.files.isEmpty then .error (.noFiles name artifact.file)
  else if !isPermittedUrl host artifact.url then .error (.badUrl name artifact.url)
  else .ok ()

def validateExtension (extension : ManifestExtension δ) : Except (ManifestError δ) Unit :=
  if !isExtensionName extension.name then .error (.badName extension.name)
  else extension.artifacts.forM (validateArtifact host extension.name)

def Manifest.validate (manifest : Manifest δ) : Except (ManifestError δ) Unit :=
  if manifest.schemaVersion ≠ supportedSchemaVersion then
    .error (.schema manifest.schemaVersion)
  else manifest.extensions.forM (validateExtension host)

def Manifest.parse (bytes : Bytes) : Except (ManifestError δ) (Manifest δ) :=
  match host.parseJson bytes with
  | none => .error .notJson
  | some manifest => (manifest.validate host).map fun _ => manifest

/-! ### `fetch.rs` -/

def checkSize (bytes : Bytes) : Except (ManifestError δ) Bytes :=
  if bytes.length > manifestSizeCap then .error .tooLarge else .ok bytes

/-- Both ways of reading stop one byte past the cap. -/
def readSource (source : ManifestSource δ) : Except (ManifestError δ) (Bytes × Option δ) :=
  let (found,pinned) := match source with
    | .path path sha256 => (host.readFile path,sha256)
    | .url url sha256 =>
      (if isPermittedUrl host url then host.fetch url else none,some sha256)
  match found with
  | none => .error (.cannotRead source)
  | some bytes => (checkSize (bytes.take (manifestSizeCap+1))).map fun bytes => (bytes,pinned)

variable [DecidableEq δ]

def verifyDigest (sha : Bytes → δ) (bytes : Bytes) (expected : δ) (source : ManifestSource δ) :
    Except (ManifestError δ) Unit :=
  if sha bytes = expected then .ok ()
  else .error (.digestMismatch source (sha bytes) expected)

def load (sha : Bytes → δ) (source : ManifestSource δ) : Except (ManifestError δ) (Manifest δ) := do
  let (bytes,pinned) ← readSource host source
  match pinned with
  | some expected => verifyDigest sha bytes expected source
  | none => pure ()
  Manifest.parse host bytes

/-! ### `version.rs` -/

/-- The first number that is not there, or is no `u64`, ends the parse. -/
def parsePgConfigVersion (text : Text) : Option Version := do
  let token ← ((text.splitOnP isWhitespace).filter (fun word => !word.isEmpty))[1]?
  let numeric := token.takeWhile (fun c => c.isDigit || c = '.')
  let parts := (numeric.splitOn '.').filter (fun part => !part.isEmpty)
  let major ← parts[0]?.bind (parseUnsigned u64Max)
  let minor ← match parts[1]? with
    | none => some 0
    | some part => parseUnsigned u64Max part
  some ⟨major,minor⟩

def runningVersion : Except (ManifestError δ) Version :=
  match host.dirName.bind host.parseVersion with
  | some version => .ok version
  | none =>
    match host.pgConfig.bind parsePgConfigVersion with
    | some version => .ok version
    | none => .error .unknownVersion

/-! ### `select.rs` -/

structure Selection (δ : Type) where
  extension : ManifestExtension δ
  artifact : ManifestArtifact δ
  deriving DecidableEq

def artifactMatches (artifact : ManifestArtifact δ) (running : Version) (target : Text) : Bool :=
  (artifactVersion host artifact).any fun built =>
    built.major = running.major ∧ built.minor = running.minor ∧ artifact.target = target

def Manifest.select (manifest : Manifest δ) (name : ExtensionName) (running : Version)
    (target : Text) : Except (ManifestError δ) (Selection δ) :=
  match manifest.extensions.find? (fun extension => extension.name = name.text) with
  | none => .error (.noExtension name.text (manifest.extensions.map (·.name)))
  | some extension =>
    match extension.artifacts.find? (fun a => artifactMatches host a running target) with
    | none => .error (.noArtifact extension.name running target
        (extension.artifacts.map fun a => (a.postgresql,a.target)))
    | some artifact => .ok ⟨extension,artifact⟩

end Host

end PgEmbedSetup.Extensions
