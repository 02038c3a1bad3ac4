/-
  File:      CccStorage/MountdConfig.lean
  Subject:   The configuration of mountd (`mountd/config.py`): the built-in defaults, the TOML file
             over them (`MountdConfig.from_file`) and the environment over both (`with_env`).

  A configuration is read field by field, and `replace(cfg, **{attr: value})` is an update at one
  field. The fields of the `ColdStorageConfig` inside are fields of the configuration here.

  * `ConfigField`, `ConfigField.Value` -- the fields by what they hold, and their values;
  * `TomlSection`, `EnvRule` -- which keys and which variables a field is read from, in the order of
    the source;
  * `withMapping`, `fromFile`, `withEnv` -- the two layers.
-/
import CccStorage.ConfigValues
import CccStorage.Lib.Layers

namespace CccStorage.Mountd

/-! ## 1. The fields -/

inductive TextField where
  | nfsRoot | runDir | socket | readyFile | managedParent | observeRoot | observeMountpoint
  | localOverlayRoot | socketMode | packLevels
  | coldBackend | coldPrefix
  deriving DecidableEq, Repr

/-- Where the backend is: the keys of `[cold_storage.s3]`, and of a top-level `[s3]`. -/
inductive LocationField where
  | bucket | endpointUrl | regionName | addressingStyle
  deriving DecidableEq, Repr

inductive SecondsField where
  | observeReadyTimeout | idleUnmountTtl | idleReapInterval | dirtyPublishInterval
  | compactionInterval | coldIdle | coldInterval
  deriving DecidableEq, Repr

inductive SwitchField where
  | preferKernel | allowBaseCompaction | compactAfterCommit | coldMirrorAfterCommit | coldRemoveHot
  deriving DecidableEq, Repr

/-- `enabled` and `archive_enabled` of the cold storage. -/
inductive EnabledField where
  | enabled | archiveEnabled
  deriving DecidableEq, Repr

inductive OwnerField where
  | storageUid | storageGid
  deriving DecidableEq, Repr

inductive ConfigField where
  | text (t : TextField)
  | location (l : LocationField)
  | seconds (s : SecondsField)
  | switch (s : SwitchField)
  | enabled (e : EnabledField)
  | owner (o : OwnerField)
  | defaultWritePolicy
  | maxPacksPerLevel
  | maxOnlineCompactionBytes
  | observationDirs
  deriving DecidableEq, Repr

structure ObservationDirConfig where
  path : String
  stateSubdir : String := ".ccc-storage"
  deriving DecidableEq, Repr

/-- What a field holds. -/
def ConfigField.Value (F : Type) : ConfigField → Type
  | .text _ | .location _ => String
  | .seconds _ => F
  | .switch _ | .enabled _ => Bool
  | .owner _ => Option Nat
  | .defaultWritePolicy => WritePolicy
  | .maxPacksPerLevel => { n : Nat // 0 < n }
  | .maxOnlineCompactionBytes => HumanBytes
  | .observationDirs => List ObservationDirConfig

abbrev MountdConfig (F : Type) := ∀ f : ConfigField, f.Value F

def TextField.builtin : TextField → String
  | .runDir => "/run/ccc-storage"
  | .socketMode => "0600"
  | .packLevels => "0:100G,1:10G,2:1G,3:100M,4:10M"
  | .coldBackend => "s3"
  | .coldPrefix => "ccc-storage/cold"
  | .nfsRoot | .socket | .readyFile | .managedParent | .observeRoot | .observeMountpoint
  | .localOverlayRoot => ""

def LocationField.builtin : LocationField → String
  | .bucket | .endpointUrl => ""
  | .regionName => "us-east-1"
  | .addressingStyle => "auto"

def SecondsField.builtin : SecondsField → Nat
  | .observeReadyTimeout => 10
  | .idleUnmountTtl => 300
  | .idleReapInterval => 30
  | .dirtyPublishInterval => 1
  | .compactionInterval => 0
  | .coldIdle => 180 * 24 * 60 * 60
  | .coldInterval => 7 * 24 * 60 * 60

def SwitchField.builtin : SwitchField → Bool
  | .preferKernel | .allowBaseCompaction | .coldMirrorAfterCommit => false
  | .compactAfterCommit | .coldRemoveHot => true

/-- `MountdConfig()`. -/
def builtin {F : Type} (py : PyNumbers F) : MountdConfig F
  | .text t => t.builtin
  | .location l => l.builtin
  | .seconds s => py.seconds s.builtin
  | .switch s => s.builtin
  | .enabled _ => false
  | .owner _ => none
  | .defaultWritePolicy => WritePolicy.sharedNfs
  | .maxPacksPerLevel => ⟨1, Nat.one_pos⟩
  | .maxOnlineCompactionBytes => HumanBytes.text "10G"
  | .observationDirs => []

section

variable {F : Type} (py : PyNumbers F)

def locationOf (cfg : MountdConfig F) (l : LocationField) : String := cfg (.location l)

def isEnabled (cfg : MountdConfig F) (e : EnabledField) : Bool := cfg (.enabled e)

/-- `replace(cfg, enabled=True)`, where `on`. -/
def enableIf (on : Bool) (cfg : MountdConfig F) (e : EnabledField) : MountdConfig F :=
  if on then Function.update cfg (.enabled e) true else cfg

/-- `bool(bucket and endpoint_url)`. -/
def configured (cfg : MountdConfig F) : Bool :=
  locationOf cfg .bucket ≠ "" && locationOf cfg .endpointUrl ≠ ""

/-- `self.level_policy()`. -/
def levelPolicy (cfg : MountdConfig F) : Except ConfigError LevelPolicy :=
  match hlevels : parseLevels py (cfg (.text .packLevels)),
    parseHumanBytes py (cfg .maxOnlineCompactionBytes) with
  | .error e, _ | .ok _, .error e => .error (.compaction e)
  | .ok levels, .ok bytes => .ok
    { levels
      maxPacksPerLevel := (cfg .maxPacksPerLevel).val
      allowBaseCompaction := cfg (.switch .allowBaseCompaction)
      maxOnlineCompactionBytes := bytes
      triggerAfterCommit := cfg (.switch .compactAfterCommit)
      nonempty := (parseLevels_increasing py hlevels).1
      increasing := (parseLevels_increasing py hlevels).2 }

/-- The checks either layer ends with. -/
def validated (cfg : MountdConfig F) (ownersMessage : String) :
    Except ConfigError (MountdConfig F) := do
  let _ ← levelPolicy py cfg
  if (cfg (.owner .storageUid) : Option Nat).isNone ≠
      (cfg (.owner .storageGid) : Option Nat).isNone then
    .error (.message ownersMessage)
  else
    return cfg

/-! ## 2. The file -/

/-- `_table(data, key, source)`. -/
def table (data : TomlTable F) (key source : String) : Except ConfigError (TomlTable F) :=
  match data.lookup key with
  | none => .ok []
  | some (.table entries) => .ok entries
  | some _ => .error (.message
      (source ++ ": mountd config section [" ++ key ++ "] must be a table"))

def checkKeys (data : TomlTable F) (name : String) (allowed : List String) (source : String) :
    Except ConfigError Unit :=
  match data.find? fun entry => entry.1 ∉ allowed with
  | none => .ok ()
  | some (key, _) => .error (.message (source ++ ": unknown mountd config key " ++
      (if name = "" then "" else name ++ ".") ++ key))

/-- The keys a field is read from, the first that is present. -/
structure TomlEntry (F : Type) where
  keys : List String
  field : ConfigField
  parse : PyNumbers F → String → TomlValue F → Except ConfigError (field.Value F)

namespace TomlEntry

def text (key : String) (t : TextField) : TomlEntry F := ⟨[key], .text t, asStr⟩
def seconds (key : String) (s : SecondsField) : TomlEntry F :=
  ⟨[key], .seconds s, asNonnegativeFloat⟩
def switch (key : String) (s : SwitchField) : TomlEntry F := ⟨[key], .switch s, asBool⟩
def owner (keys : List String) (o : OwnerField) : TomlEntry F :=
  ⟨keys, .owner o, asOptionalOwnerId⟩

/-- `{source}: {section}.{key}`. -/
def label (entry : TomlEntry F) (name source : String) : String :=
  source ++ ": " ++ name ++ "." ++ entry.keys.headD ""

/-- The entry over the table of its section. -/
def setting (entry : TomlEntry F) (name source : String) (data : TomlTable F) :
    Lib.Setting (ConfigField.Value F) ConfigError where
  field := entry.field
  read := (entry.keys.findSome? fun key => data.lookup key).map (entry.parse py (entry.label name source))

end TomlEntry

structure TomlSection (F : Type) where
  name : String
  allowed : List String
  entries : List (TomlEntry F)

def paths : TomlSection F where
  name := "paths"
  allowed := ["nfs_root", "run_dir", "socket", "ready_file", "managed_parent", "observe_root",
    "observe_mountpoint", "local_overlay_root"]
  entries := [.text "nfs_root" .nfsRoot, .text "run_dir" .runDir, .text "socket" .socket,
    .text "ready_file" .readyFile, .text "managed_parent" .managedParent,
    .text "observe_root" .observeRoot, .text "observe_mountpoint" .observeMountpoint,
    .text "local_overlay_root" .localOverlayRoot]

def runtime : TomlSection F where
  name := "runtime"
  allowed := ["prefer_kernel", "socket_mode", "observe_ready_timeout"]
  entries := [.switch "prefer_kernel" .preferKernel, .text "socket_mode" .socketMode,
    .seconds "observe_ready_timeout" .observeReadyTimeout]

def defaults : TomlSection F where
  name := "defaults"
  allowed := ["write_policy", "default_write_policy"]
  entries := [⟨["write_policy", "default_write_policy"], .defaultWritePolicy,
    normalizeWritePolicy⟩]

def maintenance : TomlSection F where
  name := "maintenance"
  allowed := ["idle_unmount_ttl", "idle_reap_interval", "dirty_publish_interval"]
  entries := [.seconds "idle_unmount_ttl" .idleUnmountTtl,
    .seconds "idle_reap_interval" .idleReapInterval,
    .seconds "dirty_publish_interval" .dirtyPublishInterval]

def ownership : TomlSection F where
  name := "ownership"
  allowed := ["uid", "gid", "user_id", "group_id"]
  entries := [.owner ["uid", "user_id"] .storageUid, .owner ["gid", "group_id"] .storageGid]

def compaction : TomlSection F where
  name := "compaction"
  allowed := ["interval_seconds", "levels", "max_packs_per_level", "allow_base",
    "allow_base_compaction", "after_commit", "max_online_bytes", "max_online_compaction_bytes"]
  entries := [.seconds "interval_seconds" .compactionInterval, .text "levels" .packLevels,
    ⟨["max_packs_per_level"], .maxPacksPerLevel, asPositiveInt⟩,
    .switch "allow_base" .allowBaseCompaction, .switch "allow_base_compaction" .allowBaseCompaction,
    .switch "after_commit" .compactAfterCommit,
    ⟨["max_online_bytes"], .maxOnlineCompactionBytes, asHumanBytesString⟩,
    ⟨["max_online_compaction_bytes"], .maxOnlineCompactionBytes, asHumanBytesString⟩]

/-- The sections before the cold storage. -/
def sections : List (TomlSection F) :=
  [paths, runtime, defaults, maintenance, ownership, compaction]

def EnabledField.key : EnabledField → String
  | .enabled => "enabled"
  | .archiveEnabled => "archive_enabled"

def coldStorage : TomlSection F where
  name := "cold_storage"
  allowed := ["backend", "enabled", "archive_enabled", "prefix", "mirror_after_commit",
    "remove_hot", "idle_seconds", "interval_seconds", "s3"]
  entries := [⟨["backend"], .text .coldBackend, fun py => asStrOr py "s3"⟩,
    ⟨["prefix"], .text .coldPrefix, fun py => asStrOr py "ccc-storage/cold"⟩,
    ⟨[EnabledField.enabled.key], .enabled .enabled, asBool⟩,
    ⟨[EnabledField.archiveEnabled.key], .enabled .archiveEnabled, asBool⟩,
    .switch "mirror_after_commit" .coldMirrorAfterCommit, .switch "remove_hot" .coldRemoveHot,
    .seconds "idle_seconds" .coldIdle, .seconds "interval_seconds" .coldInterval]

def TomlSection.settings (s : TomlSection F) (source : String) (data : TomlTable F) :
    List (Lib.Setting (ConfigField.Value F) ConfigError) :=
  s.entries.map fun entry => entry.setting py s.name source data

/-- `_table`, `_check_keys` and `_replace_if_present` of one section. -/
def TomlSection.apply (data : TomlTable F) (source : String) (cfg : MountdConfig F)
    (s : TomlSection F) : Except ConfigError (MountdConfig F) := do
  let section_ ← table data s.name source
  checkKeys section_ s.name s.allowed source
  Lib.overlay (s.settings py source section_) cfg

def observationDir (source label : String) :
    TomlValue F → Except ConfigError ObservationDirConfig
  | .table item => do
    checkKeys item label ["path", "state_subdir"] source
    match item.lookup "path" with
    | none => .error (.message (source ++ ": " ++ label ++ ".path is required"))
    | some path =>
      let path ← asStr py (source ++ ": " ++ label ++ ".path") path
      if path = "" then .error (.message (source ++ ": " ++ label ++ ".path must not be empty"))
      let stateSubdir ← asStr py (source ++ ": " ++ label ++ ".state_subdir")
        ((item.lookup "state_subdir").getD (.text ".ccc-storage"))
      if stateSubdir = "" then
        .error (.message (source ++ ": " ++ label ++ ".state_subdir must not be empty"))
      if '/' ∈ stateSubdir.toList ∨ stateSubdir = "." ∨ stateSubdir = ".." then
        .error (.message (source ++ ": " ++ label ++ ".state_subdir must be a directory name"))
      return ⟨path, stateSubdir⟩
  | _ => .error (.message (source ++ ": " ++ label ++ " must be a table"))

def observationDirsFromMapping (source : String) :
    Option (TomlValue F) → Except ConfigError (List ObservationDirConfig)
  | none => .ok []
  | some (.array items) => items.zipIdx.mapM fun item =>
      observationDir py source ("observation_dirs[" ++ toString item.2 ++ "]") item.1
  | some _ => .error (.message (source ++ ": observation_dirs must be an array of tables"))

namespace LocationField

def all : List LocationField := [.bucket, .endpointUrl, .regionName, .addressingStyle]

def keys : LocationField → List String
  | .bucket => ["bucket"]
  | .endpointUrl => ["endpoint_url", "endpoint"]
  | .regionName => ["region_name", "region"]
  | .addressingStyle => ["addressing_style"]

def entry (l : LocationField) : TomlEntry F := ⟨l.keys, .location l, asStr⟩

/-- `_first_table_str(table, keys, source, label)`. -/
def firstTableStr (l : LocationField) (name source : String) (data : TomlTable F) :
    Option (Except ConfigError String) :=
  ((l.entry (F := F)).setting py name source data).read

/-- The texts of `[cold_storage.s3]`. -/
def own (source : String) (s3 : TomlTable F) :
    Except ConfigError (LocationField → Option String) :=
  Lib.overlay (all.map fun l =>
    ⟨l, (l.firstTableStr py "cold_storage.s3" source s3).map fun read => read.map some⟩)
    fun _ => none

/-- `own or _first_table_str(top_s3, ...)`, which is evaluated where `own` is falsy. -/
def merged (source : String) (topS3 : TomlTable F) (texts : LocationField → Option String) :
    Except ConfigError (LocationField → Option String) :=
  Lib.overlay (all.map fun l =>
    ⟨l, if (texts l).any (· ≠ "") then none
      else match l.firstTableStr py "s3" source topS3 with
        | none => some (.ok none)
        | some read => some (read.map some)⟩) texts

end LocationField

/-- The keys of both location tables. -/
def s3Keys : List String :=
  ["bucket", "endpoint", "endpoint_url", "region", "region_name", "addressing_style"]

/-- `if configured and key not in cold: updates[key] = True`. -/
def enabledByLocation (cold : TomlTable F) (cfg : MountdConfig F) (e : EnabledField) :
    MountdConfig F :=
  enableIf (configured cfg && (cold.lookup e.key).isNone) cfg e

def coldFromMapping (base : MountdConfig F) (data : TomlTable F) (source : String) :
    Except ConfigError (MountdConfig F) := do
  let cold ← table data "cold_storage" source
  checkKeys cold "cold_storage" (coldStorage (F := F)).allowed source
  let s3 ← table cold "s3" source
  let topS3 ← table data "s3" source
  checkKeys s3 "cold_storage.s3" s3Keys source
  checkKeys topS3 "s3" s3Keys source
  let own ← LocationField.own py source s3
  let texts ← LocationField.merged py source topS3 own
  let cfg ← Lib.overlay (coldStorage.settings py source cold) base
  let cfg ← Lib.overlay (LocationField.all.map fun l => ⟨.location l, (texts l).map .ok⟩) cfg
  return enabledByLocation cold (enabledByLocation cold cfg .enabled) .archiveEnabled

def withMapping (cfg : MountdConfig F) (data : TomlTable F) (source : String) :
    Except ConfigError (MountdConfig F) := do
  checkKeys data "" ["paths", "runtime", "defaults", "maintenance", "ownership", "compaction",
    "cold_storage", "s3", "observation_dirs"] source
  let dirs ← observationDirsFromMapping py source (data.lookup "observation_dirs")
  let cfg := Function.update cfg .observationDirs dirs
  let cfg ← sections.foldlM (TomlSection.apply py data source) cfg
  let cfg ← coldFromMapping py cfg data source
  validated py cfg (source ++ ": configure both ownership.uid and ownership.gid, or neither")

/-- `MountdConfig.from_file`, on what `tomllib` read. -/
def fromFile (data : TomlTable F) (source : String) : Except ConfigError (MountdConfig F) :=
  withMapping py (builtin py) data source

/-! ## 3. The environment -/

/-- `Mapping[str, str]`. -/
abbrev Environment := String → Option String

/-- `_env_first(env, *keys)`: the first variable that is set, and not blank. -/
def envFirst (env : Environment) (keys : List String) : Option String :=
  keys.findSome? fun key => (env key).filter fun value => strip value ≠ ""

structure EnvRule (F : Type) where
  vars : List String
  field : ConfigField
  parse : PyNumbers F → Environment → String → String → Except ConfigError (field.Value F)

namespace EnvRule

def text (var : String) (t : TextField) : EnvRule F :=
  ⟨[var], .text t, fun _ _ _ value => .ok (strip value)⟩
def textOr (var : String) (t : TextField) (default : String) : EnvRule F :=
  ⟨[var], .text t, fun _ _ _ value => .ok (if strip value = "" then default else strip value)⟩
def location (vars : List String) (l : LocationField) (default : String) : EnvRule F :=
  ⟨vars, .location l, fun _ _ _ value => .ok (if strip value = "" then default else strip value)⟩
def seconds (var : String) (s : SecondsField) : EnvRule F :=
  ⟨[var], .seconds s, fun py _ label value => asNonnegativeFloat py label (.text value)⟩
def switch (var : String) (s : SwitchField) : EnvRule F :=
  ⟨[var], .switch s, fun py _ label value => asBool py label (.text value)⟩
def owner (vars : List String) (o : OwnerField) : EnvRule F :=
  ⟨vars, .owner o, fun py _ label value => asOptionalOwnerId py label (.text value)⟩

def setting (env : Environment) (rule : EnvRule F) :
    Lib.Setting (ConfigField.Value F) ConfigError where
  field := rule.field
  read := (envFirst env rule.vars).map (rule.parse py env ("$" ++ rule.vars.headD ""))

end EnvRule

/-- The `part`s of `$CCC_OBSERVATION_DIRS`, each with the state directory of its own variable. -/
def observationDirsFromEnv (env : Environment) (value : String) : List ObservationDirConfig :=
  let stateSubdir := strip ((env "CCC_OBSERVATION_STATE_SUBDIR").getD ".ccc-storage")
  let stateSubdir := if stateSubdir = "" then ".ccc-storage" else stateSubdir
  (((value.toList.splitOn ':').map fun part => strip (String.ofList part)).filter (· ≠ "")).map
    fun part => ⟨part, stateSubdir⟩

def envRules : List (EnvRule F) :=
  [.text "CCC_NFS_ROOT" .nfsRoot, .text "CCC_NODE_RUN_DIR" .runDir, .text "CCC_MOUNTD_SOCK" .socket,
    .text "CCC_MOUNTD_READY_FILE" .readyFile, .text "CCC_MANAGED_PARENT" .managedParent,
    .text "CCC_OBSERVE_ROOT" .observeRoot, .text "CCC_OBSERVE_MOUNTPOINT" .observeMountpoint,
    ⟨["CCC_OBSERVATION_DIRS"], .observationDirs,
      fun _ env _ value => .ok (observationDirsFromEnv env value)⟩,
    .text "CCC_LOCAL_OVERLAY_ROOT" .localOverlayRoot, .switch "CCC_PREFER_KERNEL" .preferKernel,
    .text "CCC_MOUNTD_SOCKET_MODE" .socketMode,
    .seconds "CCC_OBSERVE_READY_TIMEOUT" .observeReadyTimeout,
    ⟨["CCC_DEFAULT_WRITE_POLICY"], .defaultWritePolicy,
      fun py _ label value => normalizeWritePolicy py label (.text value)⟩,
    .seconds "CCC_IDLE_UNMOUNT_TTL" .idleUnmountTtl,
    .seconds "CCC_IDLE_REAP_INTERVAL" .idleReapInterval,
    .seconds "CCC_DIRTY_PUBLISH_INTERVAL" .dirtyPublishInterval,
    .seconds "CCC_COMPACT_INTERVAL_SECONDS" .compactionInterval,
    .text "CCC_PACK_LEVELS" .packLevels,
    ⟨["CCC_MAX_PACKS_PER_LEVEL"], .maxPacksPerLevel,
      fun py _ label value => asPositiveInt py label (.text value)⟩,
    .switch "CCC_ALLOW_BASE_COMPACTION" .allowBaseCompaction,
    .switch "CCC_COMPACT_AFTER_COMMIT" .compactAfterCommit,
    ⟨["CCC_MAX_ONLINE_COMPACTION_BYTES"], .maxOnlineCompactionBytes,
      fun py _ label value => asHumanBytesString py label (.text value)⟩,
    .owner ["CCC_STORAGE_USER_ID", "USER_ID"] .storageUid,
    .owner ["CCC_STORAGE_GROUP_ID", "GROUP_ID"] .storageGid,
    .textOr "CCC_COLD_STORAGE_BACKEND" .coldBackend "s3",
    .textOr "CCC_COLD_STORAGE_PREFIX" .coldPrefix "ccc-storage/cold",
    .location ["CCC_COLD_STORAGE_BUCKET", "CCC_S3_BUCKET"] .bucket "",
    .location ["CCC_COLD_STORAGE_ENDPOINT", "CCC_S3_ENDPOINT"] .endpointUrl "",
    .location ["CCC_COLD_STORAGE_REGION", "CCC_S3_REGION"] .regionName "us-east-1",
    .location ["CCC_COLD_STORAGE_ADDRESSING_STYLE", "CCC_S3_ADDRESSING_STYLE"] .addressingStyle
      "auto"]

def EnabledField.rule : EnabledField → EnvRule F
  | .enabled => ⟨["CCC_COLD_STORAGE_ENABLED"], .enabled .enabled,
      fun py _ label value => asBool py label (.text value)⟩
  | .archiveEnabled => ⟨["CCC_COLD_STORAGE_ARCHIVE_ENABLED"], .enabled .archiveEnabled,
      fun py _ label value => asBool py label (.text value)⟩

/-- The rules of `_cold_from_env` after the two derived flags. -/
def coldEnvRules : List (EnvRule F) :=
  [.switch "CCC_COLD_STORAGE_MIRROR_AFTER_COMMIT" .coldMirrorAfterCommit,
    .switch "CCC_COLD_STORAGE_REMOVE_HOT" .coldRemoveHot,
    .seconds "CCC_COLD_STORAGE_IDLE_SECONDS" .coldIdle,
    .seconds "CCC_COLD_STORAGE_INTERVAL_SECONDS" .coldInterval]

/-- `if the variable is set: parse it, elif configured and not base.enabled: True`. -/
def enabledFromEnv (env : Environment) (cfg : MountdConfig F) (e : EnabledField) :
    Except ConfigError (MountdConfig F) :=
  if (envFirst env (e.rule (F := F)).vars).isSome then (e.rule.setting py env).apply cfg
  else .ok (enableIf (configured cfg && !isEnabled cfg e) cfg e)

def withEnv (cfg : MountdConfig F) (env : Environment) : Except ConfigError (MountdConfig F) := do
  let cfg ← Lib.overlay (envRules.map (EnvRule.setting py env)) cfg
  let cfg ← enabledFromEnv py env cfg .enabled
  let cfg ← enabledFromEnv py env cfg .archiveEnabled
  let cfg ← Lib.overlay (coldEnvRules.map (EnvRule.setting py env)) cfg
  validated py cfg "configure both CCC_STORAGE_USER_ID/CCC_STORAGE_GROUP_ID or neither"

end

end CccStorage.Mountd
