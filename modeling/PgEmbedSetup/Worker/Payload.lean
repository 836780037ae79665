import PgEmbedSetup.Library.Duration
import PgEmbedSetup.Library.Utf8

set_option autoImplicit false

/-!
`src/worker.rs`: the settings and the environment as they go to the worker, and back.
-/

namespace PgEmbedSetup.Worker
open Library

/-! ### Settings -/

/-- `HashMap<String, String>`, in the order it happens to be walked. -/
structure Configuration where
  entries : List (Text × Text)
  keys_nodup : (entries.map Prod.fst).Nodup

def lookup (entries : List (Text × Text)) (key : Text) : Option Text :=
  (entries.find? fun entry => entry.1 = key).map Prod.snd

def Configuration.get (c : Configuration) (key : Text) : Option Text := lookup c.entries key

/-- `HashMap::insert`. -/
def insertEntry (entries : List (Text × Text)) (entry : Text × Text) : List (Text × Text) :=
  entry :: entries.filter fun other => other.1 ≠ entry.1

/-- `postgresql_embedded::Settings`; paths are byte strings, `V` is `VersionReq`. -/
structure Settings (V : Type) where
  releasesUrl : Text
  version : V
  installationDir : Bytes
  passwordFile : Bytes
  dataDir : Bytes
  host : Text
  port : UInt16
  username : Text
  password : Text
  temporary : Bool
  timeout : Option Duration
  configuration : Configuration
  trustInstallationDir : Bool
  socketDir : Option Bytes

structure PlainSecret where
  secret : Text
  deriving DecidableEq

def PlainSecret.expose (s : PlainSecret) : Text := s.secret

structure SettingsSnapshot (V : Type) where
  releasesUrl : Text
  version : V
  installationDir : Text
  passwordFile : Text
  dataDir : Text
  host : Text
  port : UInt16
  username : Text
  password : PlainSecret
  temporary : Bool
  timeoutSecs : Option Duration
  configuration : Configuration
  trustInstallationDir : Bool
  socketDir : Option Text

structure WorkerPayload (V : Type) where
  settings : SettingsSnapshot V
  environment : List (Text × Option PlainSecret)

variable {V : Type}

/-- `Utf8PathBuf::from_path_buf`. -/
def utf8Path (message : String) (path : Bytes) : Except Text Text :=
  match decodeUtf8 path with
  | some text => .ok text
  | none => .error message.toList

def SettingsSnapshot.tryFrom (settings : Settings V) : Except Text (SettingsSnapshot V) := do
  let installationDir ← utf8Path "installation_dir must be valid UTF-8" settings.installationDir
  let passwordFile ← utf8Path "password_file must be valid UTF-8" settings.passwordFile
  let dataDir ← utf8Path "data_dir must be valid UTF-8" settings.dataDir
  let socketDir ← settings.socketDir.mapM (utf8Path "socket_dir must be valid UTF-8")
  .ok {
    releasesUrl := settings.releasesUrl
    version := settings.version
    installationDir := installationDir
    passwordFile := passwordFile
    dataDir := dataDir
    host := settings.host
    port := settings.port
    username := settings.username
    password := ⟨settings.password⟩
    temporary := settings.temporary
    timeoutSecs := settings.timeout
    configuration := settings.configuration
    trustInstallationDir := settings.trustInstallationDir
    socketDir := socketDir }

def SettingsSnapshot.intoSettings (snapshot : SettingsSnapshot V) : Settings V where
  releasesUrl := snapshot.releasesUrl
  version := snapshot.version
  installationDir := encodeUtf8 snapshot.installationDir
  passwordFile := encodeUtf8 snapshot.passwordFile
  dataDir := encodeUtf8 snapshot.dataDir
  host := snapshot.host
  port := snapshot.port
  username := snapshot.username
  password := snapshot.password.expose
  temporary := snapshot.temporary
  timeout := snapshot.timeoutSecs
  configuration := snapshot.configuration
  trustInstallationDir := snapshot.trustInstallationDir
  socketDir := snapshot.socketDir.map encodeUtf8

def WorkerPayload.new (settings : Settings V) (environment : List (Text × Option Text)) :
    Except Text (WorkerPayload V) := do
  let snapshot ← SettingsSnapshot.tryFrom settings
  .ok ⟨snapshot,environment.map fun entry => (entry.1,entry.2.map PlainSecret.mk)⟩

/-! ### On the wire -/

inductive Json where
  | null
  | bool (b : Bool)
  | number (n : Nat)
  | string (text : Text)
  | array (items : List Json)
  | object (fields : List (Text × Json))

/-- `serde_json`, the text form of `VersionReq`, and the seconds `DurationSeconds` writes. -/
structure Wire (V : Type) where
  print : Json → Bytes
  parse : Bytes → Option Json
  display : V → Text
  fromStr : Text → Option V
  roundSecs : Duration → UInt64

namespace Json

def asBool : Json → Option Bool
  | .bool b => some b
  | _ => none

def asString : Json → Option Text
  | .string text => some text
  | _ => none

def asNumber (max : Nat) : Json → Option Nat
  | .number n => if n ≤ max then some n else none
  | _ => none

def asArray : Json → Option (List Json)
  | .array items => some items
  | _ => none

def asObject : Json → Option (List (Text × Json))
  | .object fields => some fields
  | _ => none

def ofOption {α : Type} (write : α → Json) : Option α → Json
  | none => .null
  | some a => write a

def asOption {α : Type} (read : Json → Option α) : Json → Option (Option α)
  | .null => some none
  | json => (read json).map some

end Json

/-- A field that is missing or there twice is an error. -/
def field (fields : List (Text × Json)) (name : String) : Option Json :=
  match fields.filter fun entry => entry.1 = name.toList with
  | [entry] => some entry.2
  | _ => none

/-- A field whose type is an `Option` may be missing. -/
def optionalField (fields : List (Text × Json)) (name : String) : Option Json :=
  match fields.filter fun entry => entry.1 = name.toList with
  | [] => some .null
  | [entry] => some entry.2
  | _ => none

theorem keys_insertEntry {entries : List (Text × Text)} (entry : Text × Text)
    (h : (entries.map Prod.fst).Nodup) : ((insertEntry entries entry).map Prod.fst).Nodup := by
  rw [insertEntry,List.map_cons,List.nodup_cons]
  refine ⟨fun hmem => ?_,h.sublist (List.filter_sublist.map Prod.fst)⟩
  obtain ⟨other,hother,hkey⟩ := List.mem_map.mp hmem
  simp [hkey] at hother

theorem keys_foldl_insertEntry (entries : List (Text × Text)) {found : List (Text × Text)}
    (h : (found.map Prod.fst).Nodup) :
    ((entries.foldl insertEntry found).map Prod.fst).Nodup := by
  induction entries generalizing found with
  | nil => exact h
  | cons entry entries ih => exact ih (keys_insertEntry entry h)

/-- Entries read one after another: of a key's values the last stays. -/
def Configuration.ofEntries (entries : List (Text × Text)) : Configuration where
  entries := entries.foldl insertEntry []
  keys_nodup := keys_foldl_insertEntry entries List.nodup_nil

def writeConfiguration (c : Configuration) : Json :=
  .object (c.entries.map fun entry => (entry.1,.string entry.2))

def readConfiguration (json : Json) : Option Configuration := do
  let fields ← json.asObject
  let entries ← fields.mapM fun entry => entry.2.asString.map fun value => (entry.1,value)
  some (.ofEntries entries)

def writeVariable (entry : Text × Option PlainSecret) : Json :=
  .array [.string entry.1,.ofOption (fun secret => .string secret.expose) entry.2]

def readVariable (json : Json) : Option (Text × Option PlainSecret) := do
  match ← json.asArray with
  | [name,value] => do
    let name ← name.asString
    let value ← value.asOption fun json => json.asString.map PlainSecret.mk
    some (name,value)
  | _ => none

def u16Max : Nat := 2^16-1

def SettingsSnapshot.toJson (wire : Wire V) (s : SettingsSnapshot V) : Json :=
  .object [
    ("releases_url".toList,.string s.releasesUrl),
    ("version".toList,.string (wire.display s.version)),
    ("installation_dir".toList,.string s.installationDir),
    ("password_file".toList,.string s.passwordFile),
    ("data_dir".toList,.string s.dataDir),
    ("host".toList,.string s.host),
    ("port".toList,.number s.port.toNat),
    ("username".toList,.string s.username),
    ("password".toList,.string s.password.expose),
    ("temporary".toList,.bool s.temporary),
    ("timeout_secs".toList,.ofOption (fun d => .number (wire.roundSecs d).toNat) s.timeoutSecs),
    ("configuration".toList,writeConfiguration s.configuration),
    ("trust_installation_dir".toList,.bool s.trustInstallationDir),
    ("socket_dir".toList,.ofOption .string s.socketDir)]

def readSecs (json : Json) : Option Duration :=
  match json with
  | .number n => if h : n ≤ maxSecs then some (.ofSecs n h) else none
  | _ => none

def SettingsSnapshot.fromJson (wire : Wire V) (json : Json) : Option (SettingsSnapshot V) := do
  let fields ← json.asObject
  let releasesUrl ← (field fields "releases_url").bind Json.asString
  let version ← ((field fields "version").bind Json.asString).bind wire.fromStr
  let installationDir ← (field fields "installation_dir").bind Json.asString
  let passwordFile ← (field fields "password_file").bind Json.asString
  let dataDir ← (field fields "data_dir").bind Json.asString
  let host ← (field fields "host").bind Json.asString
  let port ← (field fields "port").bind (Json.asNumber u16Max)
  let username ← (field fields "username").bind Json.asString
  let password ← (field fields "password").bind Json.asString
  let temporary ← (field fields "temporary").bind Json.asBool
  let timeoutSecs ← (optionalField fields "timeout_secs").bind (Json.asOption readSecs)
  let configuration ← (field fields "configuration").bind readConfiguration
  let trustInstallationDir ← (field fields "trust_installation_dir").bind Json.asBool
  let socketDir ← (optionalField fields "socket_dir").bind (Json.asOption Json.asString)
  some {
    releasesUrl := releasesUrl
    version := version
    installationDir := installationDir
    passwordFile := passwordFile
    dataDir := dataDir
    host := host
    port := .ofNat port
    username := username
    password := ⟨password⟩
    temporary := temporary
    timeoutSecs := timeoutSecs
    configuration := configuration
    trustInstallationDir := trustInstallationDir
    socketDir := socketDir }

def WorkerPayload.toJson (wire : Wire V) (payload : WorkerPayload V) : Json :=
  .object [
    ("settings".toList,payload.settings.toJson wire),
    ("environment".toList,.array (payload.environment.map writeVariable))]

def WorkerPayload.fromJson (wire : Wire V) (json : Json) : Option (WorkerPayload V) := do
  let fields ← json.asObject
  let settings ← (field fields "settings").bind (SettingsSnapshot.fromJson wire)
  let environment ← ((field fields "environment").bind Json.asArray).bind fun items =>
    items.mapM readVariable
  some ⟨settings,environment⟩

/-! ### Reading what was written -/

theorem asOption_ofOption {α β : Type} {write : α → Json} {read : Json → Option β} {f : α → β}
    (o : Option α) (hnull : ∀ a, write a ≠ .null) (h : ∀ a, read (write a) = some (f a)) :
    (Json.ofOption write o).asOption read = some (o.map f) := by
  cases o with
  | none => rfl
  | some a =>
    rw [Json.ofOption,Json.asOption.eq_def]
    split
    · next hjson => exact absurd hjson (hnull a)
    · rw [h a]
      rfl

theorem readVariable_write (entry : Text × Option PlainSecret) :
    readVariable (writeVariable entry) = some entry := by
  obtain ⟨name,value⟩ := entry
  cases value <;> rfl

theorem mapM_readVariable (environment : List (Text × Option PlainSecret)) :
    (environment.map writeVariable).mapM readVariable = some environment := by
  induction environment with
  | nil => rfl
  | cons entry environment ih =>
    rw [List.map_cons,List.mapM_cons,readVariable_write,ih]
    rfl

theorem lookup_cons (entry : Text × Text) (entries : List (Text × Text)) (key : Text) :
    lookup (entry :: entries) key = if entry.1 = key then some entry.2 else lookup entries key := by
  rw [lookup,List.find?_cons]
  by_cases hkey : entry.1 = key
  · simp [hkey]
  · rw [decide_eq_false hkey,if_neg hkey,lookup]

theorem lookup_eq_none {entries : List (Text × Text)} {key : Text}
    (h : key ∉ entries.map Prod.fst) : lookup entries key = none := by
  rw [lookup,Option.map_eq_none_iff,List.find?_eq_none]
  intro entry hentry hkey
  exact h (of_decide_eq_true hkey ▸ List.mem_map_of_mem hentry)

theorem lookup_insertEntry (entries : List (Text × Text)) (entry : Text × Text) (key : Text) :
    lookup (insertEntry entries entry) key =
      if entry.1 = key then some entry.2 else lookup entries key := by
  rw [lookup,insertEntry,List.find?_cons]
  by_cases hkey : entry.1 = key
  · simp [hkey]
  · rw [decide_eq_false hkey,if_neg hkey,List.find?_filter,lookup]
    refine congrArg (Option.map Prod.snd) (congrArg (List.find? · entries) (funext fun other => ?_))
    by_cases hother : other.1 = key
    · simp [hother,Ne.symm hkey]
    · simp [hother]

theorem lookup_foldl (entries found : List (Text × Text)) (key : Text)
    (h : (entries.map Prod.fst).Nodup) :
    lookup (entries.foldl insertEntry found) key =
      (lookup entries key).or (lookup found key) := by
  induction entries generalizing found with
  | nil => rfl
  | cons entry entries ih =>
    obtain ⟨hnot,hrest⟩ := List.nodup_cons.mp h
    rw [List.foldl_cons,ih _ hrest,lookup_insertEntry,lookup_cons]
    by_cases hkey : entry.1 = key
    · have hnone : lookup entries key = none := lookup_eq_none (hkey ▸ hnot)
      rw [if_pos hkey,if_pos hkey,hnone]
      rfl
    · rw [if_neg hkey,if_neg hkey]

theorem ofEntries_get (c : Configuration) (key : Text) :
    (Configuration.ofEntries c.entries).get key = c.get key := by
  rw [Configuration.get,Configuration.ofEntries,lookup_foldl _ _ _ c.keys_nodup]
  exact Option.or_none

theorem readConfiguration_write (c : Configuration) :
    readConfiguration (writeConfiguration c) = some (.ofEntries c.entries) := by
  have hentries : (c.entries.map fun entry => (entry.1,Json.string entry.2)).mapM
      (fun entry => entry.2.asString.map fun value => (entry.1,value)) = some c.entries := by
    induction c.entries with
    | nil => rfl
    | cons entry entries ih =>
      rw [List.map_cons,List.mapM_cons,ih]
      rfl
  rw [readConfiguration,writeConfiguration,Json.asObject]
  simp only [Option.bind_eq_bind,Option.bind_some,hentries]

/-- What reaches the worker of a snapshot. -/
def SettingsSnapshot.restored (wire : Wire V) (s : SettingsSnapshot V) : SettingsSnapshot V :=
  { s with
    timeoutSecs := s.timeoutSecs.map fun d =>
      .ofSecs (wire.roundSecs d).toNat (Nat.le_of_lt_succ (wire.roundSecs d).toNat_lt)
    configuration := .ofEntries s.configuration.entries }

theorem SettingsSnapshot.fromJson_toJson {wire : Wire V} (s : SettingsSnapshot V)
    (hversion : wire.fromStr (wire.display s.version) = some s.version) :
    SettingsSnapshot.fromJson wire (s.toJson wire) = some (s.restored wire) := by
  have hport : Json.asNumber u16Max (.number s.port.toNat) = some s.port.toNat :=
    if_pos (Nat.le_of_lt_succ s.port.toNat_lt)
  have htimeout : (Json.ofOption (fun d => .number (wire.roundSecs d).toNat)
      s.timeoutSecs).asOption readSecs = some (s.restored wire).timeoutSecs :=
    asOption_ofOption _ (fun _ h => Json.noConfusion h) fun d =>
      dif_pos (Nat.le_of_lt_succ (wire.roundSecs d).toNat_lt)
  have hsocket : (Json.ofOption .string s.socketDir).asOption Json.asString = some s.socketDir := by
    cases s.socketDir <;> rfl
  have hread : SettingsSnapshot.fromJson wire (s.toJson wire) =
      (wire.fromStr (wire.display s.version)).bind fun version =>
        (Json.asNumber u16Max (.number s.port.toNat)).bind fun port =>
          ((Json.ofOption (fun d => .number (wire.roundSecs d).toNat) s.timeoutSecs).asOption
              readSecs).bind fun timeoutSecs =>
            (readConfiguration (writeConfiguration s.configuration)).bind fun configuration =>
              ((Json.ofOption .string s.socketDir).asOption Json.asString).bind fun socketDir =>
                some { s with
                  version := version
                  port := .ofNat port
                  timeoutSecs := timeoutSecs
                  configuration := configuration
                  socketDir := socketDir } := rfl
  rw [hread,hversion,hport,htimeout,hsocket,readConfiguration_write]
  simp only [Option.bind_some,UInt16.ofNat_toNat]
  rfl

/-! ### There and back -/

def WorkerPayload.restored (wire : Wire V) (payload : WorkerPayload V) : WorkerPayload V :=
  { payload with settings := payload.settings.restored wire }

/-- What the worker makes of the bytes it is given. -/
def WorkerPayload.received (wire : Wire V) (payload : WorkerPayload V) : Option (WorkerPayload V) :=
  (wire.parse (wire.print (payload.toJson wire))).bind (WorkerPayload.fromJson wire)

def WorkerPayload.exposed (payload : WorkerPayload V) : List (Text × Option Text) :=
  payload.environment.map fun entry => (entry.1,entry.2.map PlainSecret.expose)

/-- Equal in every field; maps are equal when they give the same values. -/
def Settings.Same (a b : Settings V) : Prop :=
  { a with configuration := b.configuration } = b ∧
    ∀ key, a.configuration.get key = b.configuration.get key

structure Settings.Utf8Paths (settings : Settings V) : Prop where
  installationDir : (decodeUtf8 settings.installationDir).isSome
  passwordFile : (decodeUtf8 settings.passwordFile).isSome
  dataDir : (decodeUtf8 settings.dataDir).isSome
  socketDir : ∀ path ∈ settings.socketDir, (decodeUtf8 path).isSome

/-- What is relied on at these settings: the JSON text is read back, so is the requirement, and a
whole number of seconds is written as it is. -/
structure Wire.Faithful (wire : Wire V) (settings : Settings V)
    (environment : List (Text × Option Text)) : Prop where
  json : ∀ payload, WorkerPayload.new settings environment = .ok payload →
    wire.parse (wire.print (payload.toJson wire)) = some (payload.toJson wire)
  version : wire.fromStr (wire.display settings.version) = some settings.version
  seconds : ∀ d ∈ settings.timeout, d.nanos = 0 → (wire.roundSecs d).toNat = d.secs

def RoundTrips (wire : Wire V) (settings : Settings V) (environment : List (Text × Option Text)) :
    Prop :=
  ∃ payload decoded, WorkerPayload.new settings environment = .ok payload ∧
    payload.received wire = some decoded ∧ decoded.settings.intoSettings.Same settings ∧
    decoded.exposed = environment

theorem WorkerPayload.fromJson_toJson {wire : Wire V} (payload : WorkerPayload V)
    (hversion : wire.fromStr (wire.display payload.settings.version) =
      some payload.settings.version) :
    WorkerPayload.fromJson wire (payload.toJson wire) = some (payload.restored wire) := by
  have hread : WorkerPayload.fromJson wire (payload.toJson wire) =
      (SettingsSnapshot.fromJson wire (payload.settings.toJson wire)).bind fun settings =>
        ((payload.environment.map writeVariable).mapM readVariable).bind fun environment =>
          some ⟨settings,environment⟩ := rfl
  rw [hread,SettingsSnapshot.fromJson_toJson _ hversion,mapM_readVariable]
  rfl

theorem utf8Path_ok {path : Bytes} (message : String) (h : (decodeUtf8 path).isSome) :
    ∃ text, utf8Path message path = .ok text ∧ encodeUtf8 text = path := by
  obtain ⟨text,htext⟩ := Option.isSome_iff_exists.mp h
  exact ⟨text,by rw [utf8Path,htext],encodeUtf8_of_decodeUtf8 htext⟩

theorem utf8Path_mapM {path : Option Bytes} (message : String)
    (h : ∀ p ∈ path, (decodeUtf8 p).isSome) :
    ∃ text, path.mapM (utf8Path message) = .ok text ∧ text.map encodeUtf8 = path := by
  cases path with
  | none => exact ⟨none,rfl,rfl⟩
  | some p =>
    obtain ⟨text,hok,hencoded⟩ := utf8Path_ok message (h p rfl)
    exact ⟨some text,by rw [Option.mapM_some,hok]; rfl,congrArg some hencoded⟩

theorem expose_secret (environment : List (Text × Option Text)) :
    (environment.map fun entry => (entry.1,entry.2.map PlainSecret.mk)).map
      (fun entry => (entry.1,entry.2.map PlainSecret.expose)) = environment := by
  rw [List.map_map]
  refine List.map_id'' (fun entry => ?_) environment
  obtain ⟨name,value⟩ := entry
  cases value <;> rfl

theorem SettingsSnapshot.tryFrom_eq {settings : Settings V} (hutf8 : settings.Utf8Paths) :
    ∃ snapshot, SettingsSnapshot.tryFrom settings = .ok snapshot ∧
      snapshot.intoSettings = settings := by
  obtain ⟨inst,hinst,hinst'⟩ :=
    utf8Path_ok "installation_dir must be valid UTF-8" hutf8.installationDir
  obtain ⟨password,hpassword,hpassword'⟩ :=
    utf8Path_ok "password_file must be valid UTF-8" hutf8.passwordFile
  obtain ⟨data,hdata,hdata'⟩ := utf8Path_ok "data_dir must be valid UTF-8" hutf8.dataDir
  obtain ⟨socket,hsocket,hsocket'⟩ :=
    utf8Path_mapM "socket_dir must be valid UTF-8" hutf8.socketDir
  refine ⟨⟨settings.releasesUrl,settings.version,inst,password,data,settings.host,settings.port,
    settings.username,⟨settings.password⟩,settings.temporary,settings.timeout,
    settings.configuration,settings.trustInstallationDir,socket⟩,?_,?_⟩
  · rw [SettingsSnapshot.tryFrom,hinst,hpassword,hdata,hsocket]
    rfl
  · rw [SettingsSnapshot.intoSettings,hinst',hpassword',hdata',hsocket']
    rfl

/-- With UTF-8 paths there is a payload, and it says what the settings say. -/
theorem WorkerPayload.new_eq {settings : Settings V} (hutf8 : settings.Utf8Paths)
    (environment : List (Text × Option Text)) :
    ∃ payload, WorkerPayload.new settings environment = .ok payload ∧
      payload.settings.intoSettings = settings ∧ payload.exposed = environment := by
  obtain ⟨snapshot,htry,hinto⟩ := SettingsSnapshot.tryFrom_eq hutf8
  refine ⟨⟨snapshot,_⟩,?_,hinto,expose_secret environment⟩
  rw [WorkerPayload.new,htry]
  rfl

/-- What is received is the payload as `restored` says. -/
theorem WorkerPayload.received_eq {wire : Wire V} {settings : Settings V}
    {environment : List (Text × Option Text)} {payload : WorkerPayload V}
    (hwire : wire.Faithful settings environment)
    (hnew : WorkerPayload.new settings environment = .ok payload)
    (hsettings : payload.settings.intoSettings = settings) :
    payload.received wire = some (payload.restored wire) := by
  have hversion : payload.settings.version = settings.version :=
    congrArg Settings.version hsettings
  rw [WorkerPayload.received,hwire.json payload hnew]
  exact WorkerPayload.fromJson_toJson payload (hversion ▸ hwire.version)

/-- A duration comes back when it is a whole number of seconds. -/
theorem ofSecs_eq_iff {wire : Wire V} {d : Duration}
    (hwhole : d.nanos = 0 → (wire.roundSecs d).toNat = d.secs)
    (h : (wire.roundSecs d).toNat ≤ maxSecs) :
    Duration.ofSecs (wire.roundSecs d).toNat h = d ↔ d.nanos = 0 := by
  constructor
  · intro heq
    exact (congrArg Duration.nanos heq).symm
  · intro hnanos
    obtain ⟨secs,nanos,hsecs,hlt⟩ := d
    simp only [Duration.ofSecs,Duration.mk.injEq]
    exact ⟨hwhole hnanos,hnanos.symm⟩

theorem restored_timeout {wire : Wire V} {snapshot : SettingsSnapshot V}
    (h : ∀ d ∈ snapshot.timeoutSecs, d.nanos = 0 → (wire.roundSecs d).toNat = d.secs) :
    (snapshot.restored wire).timeoutSecs = snapshot.timeoutSecs ↔
      ∀ d ∈ snapshot.timeoutSecs, d.nanos = 0 := by
  rw [SettingsSnapshot.restored]
  cases hsome : snapshot.timeoutSecs with
  | none => simp
  | some d =>
    rw [Option.map_some,Option.some.injEq,ofSecs_eq_iff (h d hsome)]
    simp

theorem timeout_of_roundTrips {wire : Wire V} {settings : Settings V}
    {environment : List (Text × Option Text)} (hutf8 : settings.Utf8Paths)
    (hwire : wire.Faithful settings environment) (h : RoundTrips wire settings environment) :
    ∀ d ∈ settings.timeout, d.nanos = 0 := by
  obtain ⟨payload,hnew,hsettings,-⟩ := WorkerPayload.new_eq hutf8 environment
  obtain ⟨payload',decoded,hnew',hreceived,⟨hsame,-⟩,-⟩ := h
  obtain rfl := Except.ok.inj (hnew'.symm.trans hnew)
  obtain rfl := Option.some.inj ((WorkerPayload.received_eq hwire hnew hsettings).symm.trans hreceived)
  have htimeout : payload'.settings.timeoutSecs = settings.timeout :=
    congrArg Settings.timeout hsettings
  have hback : (payload'.settings.restored wire).timeoutSecs = payload'.settings.timeoutSecs :=
    (congrArg Settings.timeout hsame).trans htimeout.symm
  rw [← htimeout]
  exact (restored_timeout (htimeout ▸ hwire.seconds)).mp hback

/-- The worker gets the caller's settings and environment, except for a part of a second. -/
theorem roundTrips_iff {wire : Wire V} {settings : Settings V}
    {environment : List (Text × Option Text)} (hutf8 : settings.Utf8Paths)
    (hwire : wire.Faithful settings environment) :
    RoundTrips wire settings environment ↔ ∀ d ∈ settings.timeout, d.nanos = 0 := by
  refine ⟨timeout_of_roundTrips hutf8 hwire,fun hwhole => ?_⟩
  obtain ⟨payload,hnew,hsettings,hexposed⟩ := WorkerPayload.new_eq hutf8 environment
  have htimeout : payload.settings.timeoutSecs = settings.timeout :=
    congrArg Settings.timeout hsettings
  have hback : (payload.restored wire).settings.timeoutSecs = payload.settings.timeoutSecs :=
    (restored_timeout (htimeout ▸ hwire.seconds)).mpr (htimeout ▸ hwhole)
  have hconfiguration : payload.settings.configuration = settings.configuration :=
    congrArg Settings.configuration hsettings
  refine ⟨payload,_,hnew,WorkerPayload.received_eq hwire hnew hsettings,⟨?_,fun key => ?_⟩,hexposed⟩
  · rw [SettingsSnapshot.intoSettings,hback,← hsettings]
    rfl
  · rw [← hconfiguration]
    exact ofEntries_get payload.settings.configuration key

/-! ### One wire -/

def escapeJson (c : Char) : Text :=
  if c = '"' then ['\\','"']
  else if c = '\\' then ['\\','\\']
  else if c = '\n' then ['\\','n']
  else if c = '\r' then ['\\','r']
  else if c = '\t' then ['\\','t']
  else if c.toNat = 8 then ['\\','b']
  else if c.toNat = 12 then ['\\','f']
  else if c.toNat < 32 then
    ['\\','u','0','0',Nat.digitChar (c.toNat/16),Nat.digitChar (c.toNat%16)]
  else [c]

def jsonString (text : Text) : Text := '"' :: text.flatMap escapeJson ++ ['"']

mutual

def Json.text : Json → Text
  | .null => "null".toList
  | .bool true => "true".toList
  | .bool false => "false".toList
  | .number n => decimal n
  | .string text => jsonString text
  | .array items => '[' :: itemsText items ++ [']']
  | .object fields => '\x7b' :: fieldsText fields ++ ['\x7d']

def itemsText : List Json → Text
  | [] => []
  | [item] => item.text
  | item :: rest => item.text ++ ',' :: itemsText rest

def fieldsText : List (Text × Json) → Text
  | [] => []
  | [(name,value)] => jsonString name ++ ':' :: value.text
  | (name,value) :: rest => jsonString name ++ ':' :: value.text ++ ',' :: fieldsText rest

end

/-- A requirement that names one release. -/
structure ExactVersion where
  major : Nat
  minor : Nat
  patch : Nat
  deriving DecidableEq

def ExactVersion.display (v : ExactVersion) : Text :=
  '=' :: decimal v.major ++ '.' :: decimal v.minor ++ '.' :: decimal v.patch

def ExactVersion.fromStr (text : Text) : Option ExactVersion :=
  match text with
  | '=' :: release =>
    match release.splitOn '.' with
    | [major,minor,patch] => do
      some ⟨← digitsValue major,← digitsValue minor,← digitsValue patch⟩
    | _ => none
  | _ => none

def roundHalfUp (d : Duration) : UInt64 := .ofNat (d.secs+if 500000000 ≤ d.nanos then 1 else 0)

/-- Compact JSON, of which one value is read back. -/
def exactWire (known : Option Json) : Wire ExactVersion where
  print := fun json => encodeUtf8 json.text
  parse := fun bytes => known.filter fun json => encodeUtf8 json.text = bytes
  display := ExactVersion.display
  fromStr := ExactVersion.fromStr
  roundSecs := roundHalfUp

theorem exactWire_parse (json : Json) :
    (exactWire (some json)).parse ((exactWire (some json)).print json) = some json := by
  simp [exactWire]

/-- The wire on which the payload of these settings is read back. -/
def wireFor (settings : Settings ExactVersion) (environment : List (Text × Option Text)) :
    Wire ExactVersion :=
  exactWire ((WorkerPayload.new settings environment).toOption.map
    (WorkerPayload.toJson (exactWire none)))

theorem wireFor_fromStr (settings : Settings ExactVersion)
    (environment : List (Text × Option Text)) :
    (wireFor settings environment).fromStr = ExactVersion.fromStr := rfl

theorem wireFor_display (settings : Settings ExactVersion)
    (environment : List (Text × Option Text)) :
    (wireFor settings environment).display = ExactVersion.display := rfl

theorem wireFor_json (settings : Settings ExactVersion) (environment : List (Text × Option Text))
    (payload : WorkerPayload ExactVersion)
    (hnew : WorkerPayload.new settings environment = .ok payload) :
    (wireFor settings environment).parse ((wireFor settings environment).print
        (payload.toJson (wireFor settings environment))) =
      some (payload.toJson (wireFor settings environment)) := by
  rw [wireFor,hnew]
  exact exactWire_parse _

def sampleSettings (timeout : Duration) : Settings ExactVersion where
  releasesUrl := "https://example.invalid/releases".toList
  version := ⟨16,4,0⟩
  installationDir := ascii "/var/lib/postgres/install"
  passwordFile := ascii "/var/lib/postgres/.pgpass"
  dataDir := ascii "/var/lib/postgres/data"
  host := "127.0.0.1".toList
  port := 54321
  username := "postgres".toList
  password := "secret".toList
  temporary := true
  timeout := some timeout
  configuration := ⟨[("log_min_messages".toList,"debug".toList)],by decide⟩
  trustInstallationDir := true
  socketDir := some (ascii "/var/run/postgresql")

def sampleEnvironment : List (Text × Option Text) :=
  [("RUST_LOG".toList,some "debug".toList),("EMPTY".toList,none)]

theorem sampleSettings_utf8 (timeout : Duration) : (sampleSettings timeout).Utf8Paths where
  installationDir :=
    (by decide +kernel : (decodeUtf8 (ascii "/var/lib/postgres/install")).isSome = true)
  passwordFile :=
    (by decide +kernel : (decodeUtf8 (ascii "/var/lib/postgres/.pgpass")).isSome = true)
  dataDir := (by decide +kernel : (decodeUtf8 (ascii "/var/lib/postgres/data")).isSome = true)
  socketDir := by
    have hsocket : (decodeUtf8 (ascii "/var/run/postgresql")).isSome = true := by decide +kernel
    rintro path ⟨⟩
    exact hsocket

theorem sampleVersion_read : ExactVersion.fromStr (ExactVersion.display ⟨16,4,0⟩) =
    some ⟨16,4,0⟩ := by
  decide +kernel

theorem sampleSettings_faithful {timeout : Duration}
    (h : timeout.nanos = 0 → (roundHalfUp timeout).toNat = timeout.secs) :
    (wireFor (sampleSettings timeout) sampleEnvironment).Faithful (sampleSettings timeout)
      sampleEnvironment where
  json := wireFor_json _ _
  version := by
    rw [wireFor_fromStr,wireFor_display]
    exact sampleVersion_read
  seconds := by
    rintro d ⟨⟩
    exact h

def wholeTimeout : Duration := ⟨45,0,by decide,nanosPerSec_pos⟩

def halfTimeout : Duration := ⟨1,500000000,one_le_maxSecs,by decide⟩

theorem roundTrips_whole :
    (sampleSettings wholeTimeout).Utf8Paths ∧
      (wireFor (sampleSettings wholeTimeout) sampleEnvironment).Faithful
        (sampleSettings wholeTimeout) sampleEnvironment ∧
      (RoundTrips (wireFor (sampleSettings wholeTimeout) sampleEnvironment)
          (sampleSettings wholeTimeout) sampleEnvironment ↔
        ∀ d ∈ (sampleSettings wholeTimeout).timeout, d.nanos = 0) := by
  have hwire : (wireFor (sampleSettings wholeTimeout) sampleEnvironment).Faithful
      (sampleSettings wholeTimeout) sampleEnvironment :=
    sampleSettings_faithful (by decide)
  exact ⟨sampleSettings_utf8 _,hwire,roundTrips_iff (sampleSettings_utf8 _) hwire⟩

/-- A second and a half does not come back. -/
theorem half_second_lost :
    (sampleSettings halfTimeout).Utf8Paths ∧
      (wireFor (sampleSettings halfTimeout) sampleEnvironment).Faithful
        (sampleSettings halfTimeout) sampleEnvironment ∧
      ¬ RoundTrips (wireFor (sampleSettings halfTimeout) sampleEnvironment)
        (sampleSettings halfTimeout) sampleEnvironment := by
  have hwire : (wireFor (sampleSettings halfTimeout) sampleEnvironment).Faithful
      (sampleSettings halfTimeout) sampleEnvironment :=
    sampleSettings_faithful (by decide)
  refine ⟨sampleSettings_utf8 _,hwire,fun h => ?_⟩
  have hnanos := timeout_of_roundTrips (sampleSettings_utf8 _) hwire h halfTimeout rfl
  cases hnanos

end PgEmbedSetup.Worker
