/-
  File:      CccStorage/ManifestText.lean
  Subject:   A manifest as a TOML file (`ccc_storage_core/manifest.py`): `to_dict`,
             `_dumps_toml_subset`, `load_manifest` and `from_dict`.

  * `TomlManifest.ChildManifest` -- the dataclasses with Python's integers; `ofManifest` of the
    manifests of the other modules;
  * `toDict`, `dumpsTomlSubset` -- the writer;
  * `loadManifest`, `fromDict` -- the reader; of a file only what `Lib.Toml` reads.
-/
import CccStorage.ConfigValues
import CccStorage.ManagedParent
import CccStorage.ObservedMkdir
import CccStorage.Lib.TomlTables

namespace CccStorage.TomlManifest

open Lib.Toml (Scalar Statement Table Pairs pairsTable)
open Mountd (TomlValue TomlTable PyNumbers)

/-! ## 1. The dataclasses -/

structure PackInfo where
  path : String
  sha256 : String
  size : Int
  fileCount : Option Int := none
  block : String := "1M"
  comp : String := "zstd"
  level : Int := 0
  generationMin : Int := 0
  generationMax : Int := 0
  kind : String := "base"
  deriving DecidableEq

structure PackStack where
  activeRevision : String := ""
  lowers : List PackInfo := []
  deriving DecidableEq

structure OverlayInfo where
  mode : String := "none"
  activeUpper : String := ""
  overlayGeneration : Int := 0
  deriving DecidableEq

structure ColdStorageInfo where
  backend : String := "s3"
  mode : String := ""
  packState : String := "missing"
  snapshotState : String := "unavailable"
  packGeneration : Int := 0
  mirrorGeneration : Int := 0
  overlayGeneration : Int := 0
  uri : String := ""
  archivedAt : String := ""
  lastMirroredAt : String := ""
  lastRecalledAt : String := ""
  lastAccessedAt : String := ""
  deriving DecidableEq

/-- The write policy is a normalised one. -/
structure ChildManifest where
  id : String
  name : String
  type : String
  generation : Int
  state : String := "clean"
  schemaVersion : Int := 1
  parentId : String := ""
  parentPath : String := ""
  createdTs : String := ""
  pinned : Bool := false
  commitMode : String := "auto"
  writePolicy : WritePolicy := .sharedNfs
  packStack : PackStack := {}
  overlay : OverlayInfo := {}
  coldStorage : ColdStorageInfo := {}
  childBoundaries : List ChildBoundary := []
  deriving DecidableEq

/-- A pack whose numbers were counted. -/
def ofPack (p : CccStorage.PackInfo) : PackInfo where
  path := p.path
  sha256 := p.sha256
  size := p.size
  fileCount := p.fileCount.map Int.ofNat
  block := p.block
  comp := p.comp
  level := p.level
  generationMin := p.generationMin
  generationMax := p.generationMax
  kind := p.kind

def ofManifest (m : CccStorage.ChildManifest) : ChildManifest where
  id := m.id
  name := m.name
  type := m.type
  generation := m.generation
  state := m.state
  schemaVersion := m.schemaVersion
  parentId := m.parentId
  parentPath := m.parentPath
  createdTs := m.createdTs
  pinned := m.pinned
  commitMode := m.commitMode
  writePolicy := m.writePolicy
  packStack := ⟨m.packStack.activeRevision, m.packStack.lowers.map ofPack⟩
  overlay := ⟨m.overlay.mode, m.overlay.activeUpper, m.overlay.overlayGeneration⟩
  coldStorage := {
    backend := m.coldStorage.backend
    mode := m.coldStorage.mode
    packState := m.coldStorage.packState
    snapshotState := m.coldStorage.snapshotState
    packGeneration := m.coldStorage.packGeneration
    mirrorGeneration := m.coldStorage.mirrorGeneration
    overlayGeneration := m.coldStorage.overlayGeneration
    uri := m.coldStorage.uri
    archivedAt := m.coldStorage.archivedAt
    lastMirroredAt := m.coldStorage.lastMirroredAt
    lastRecalledAt := m.coldStorage.lastRecalledAt
    lastAccessedAt := m.coldStorage.lastAccessedAt }
  childBoundaries := m.childBoundaries

/-! ## 2. `to_dict` -/

/-- `if c: data[key] = value`, of a key that is not there yet. -/
def opt {α : Type} (c : Bool) (key : String) (value : α) : List (String × α) :=
  if c then [(key, value)] else []

def PackInfo.toDict (p : PackInfo) : Pairs :=
  [("path", .text p.path), ("sha256", .text p.sha256), ("size", .int p.size),
    ("block", .text p.block), ("comp", .text p.comp)] ++
  opt p.fileCount.isSome "file_count" (Scalar.int (p.fileCount.getD 0)) ++
  opt (p.level ≠ 0) "level" (Scalar.int p.level) ++
  opt (p.generationMin ≠ 0) "generation_min" (Scalar.int p.generationMin) ++
  opt (p.generationMax ≠ 0) "generation_max" (Scalar.int p.generationMax) ++
  opt (p.kind ≠ "" && p.kind ≠ "base") "kind" (Scalar.text p.kind)

def PackStack.toDict (s : PackStack) : Table :=
  [("active_revision", .scalar (.text s.activeRevision)),
    ("lowers", .tables (s.lowers.map fun pack => pairsTable pack.toDict))]

def OverlayInfo.toDict (o : OverlayInfo) : Pairs :=
  [("mode", .text o.mode), ("active_upper", .text o.activeUpper),
    ("overlay_generation", .int o.overlayGeneration)]

def ColdStorageInfo.toDict (c : ColdStorageInfo) : Pairs :=
  [("backend", .text c.backend), ("pack_state", .text c.packState),
    ("snapshot_state", .text c.snapshotState), ("pack_generation", .int c.packGeneration),
    ("mirror_generation", .int c.mirrorGeneration),
    ("overlay_generation", .int c.overlayGeneration)] ++
  opt (c.mode ≠ "") "mode" (Scalar.text c.mode) ++
  opt (c.uri ≠ "") "uri" (Scalar.text c.uri) ++
  opt (c.archivedAt ≠ "") "archived_at" (Scalar.text c.archivedAt) ++
  opt (c.lastMirroredAt ≠ "") "last_mirrored_at" (Scalar.text c.lastMirroredAt) ++
  opt (c.lastRecalledAt ≠ "") "last_recalled_at" (Scalar.text c.lastRecalledAt) ++
  opt (c.lastAccessedAt ≠ "") "last_accessed_at" (Scalar.text c.lastAccessedAt)

/-- `ChildBoundary.to_dict` -/
def boundaryDict (b : ChildBoundary) : Pairs :=
  [("path", .text (stripSlashes b.path)), ("child_id", .text b.childId),
    ("mount_policy", .text b.mountPolicy), ("export_policy", .text b.exportPolicy)]

namespace ChildManifest

variable (m : ChildManifest)

/-- What `to_dict` sets before the tables. -/
def scalars : Pairs :=
  [("schema_version", .int m.schemaVersion), ("id", .text m.id), ("name", .text m.name),
    ("type", .text m.type), ("generation", .int m.generation), ("state", .text m.state)] ++
  opt (m.parentId ≠ "") "parent_id" (Scalar.text m.parentId) ++
  opt (m.parentPath ≠ "") "parent_path" (Scalar.text m.parentPath) ++
  opt (m.createdTs ≠ "") "created_ts" (Scalar.text m.createdTs) ++
  opt m.pinned "pinned" (Scalar.bool m.pinned) ++
  opt (m.commitMode ≠ "" && m.commitMode ≠ "auto") "commit_mode" (Scalar.text m.commitMode) ++
  opt (m.writePolicy ≠ .sharedNfs) "write_policy" (Scalar.text m.writePolicy.toString)

def toDict : Table :=
  pairsTable m.scalars ++
  [("pack_stack", .table m.packStack.toDict), ("overlay", .table (pairsTable m.overlay.toDict)),
    ("cold_storage", .table (pairsTable m.coldStorage.toDict))] ++
  opt (m.childBoundaries ≠ []) "child_boundary"
    (.tables (m.childBoundaries.map fun b => pairsTable (boundaryDict b)))

end ChildManifest

/-! ## 3. The writer -/

/-- `text.replace(old, new)`, of one character. -/
def replaceChar (old : Char) (new : List Char) (text : List Char) : List Char :=
  text.flatMap fun c => if c = old then new else [c]

/-- `_quote` -/
def quote (value : String) : List Char :=
  '"' :: (replaceChar '"' ['\\', '"'] (replaceChar '\\' ['\\', '\\'] value.toList) ++ ['"'])

/-- `s.rstrip()` -/
def rstrip (s : List Char) : List Char := (s.reverse.dropWhile isSpace).reverse

section Writer

-- `str` of a dictionary or a list
variable (shown : Lib.Toml.Value → String)

/-- `_scalar` -/
def scalar : Lib.Toml.Value → List Char
  | .scalar (.bool b) => if b then ['t', 'r', 'u', 'e'] else ['f', 'a', 'l', 's', 'e']
  | .scalar (.int n) => Lib.JsonText.intText n
  | .scalar (.text s) => quote s
  | value => quote (shown value)

/-- `f"{key} = {_scalar(value)}"` -/
def pairLine (key : String) (value : Lib.Toml.Value) : List Char :=
  key.toList ++ ' ' :: '=' :: ' ' :: scalar shown value

/-- A line of `_emit_scalar_table`, which passes over dictionaries and lists. -/
def scalarLine (x : String × Lib.Toml.Value) : Option (List Char) :=
  match x.2 with
  | .scalar _ => some (pairLine shown x.1 x.2)
  | _ => none

/-- `_emit_scalar_table` -/
def emitScalarTable (name : String) (values : Table) : List (List Char) :=
  ('[' :: (name.toList ++ [']'])) :: values.filterMap (scalarLine shown) ++ [[]]

/-- A table of an array, under its header. -/
def itemLines (header : String) (item : Table) : List (List Char) :=
  header.toList :: (item.map fun x => pairLine shown x.1 x.2) ++ [[]]

/-- The tables of `data.get(key, [])`. -/
def itemsOf (data : Table) (key : String) : List Table :=
  match data.lookup key with
  | some (.tables items) => items
  | _ => []

/-- The keys `_dumps_toml_subset` writes first, in its order. -/
def rootKeys : List String :=
  ["schema_version", "id", "name", "type", "generation", "state", "parent_id", "parent_path",
    "created_ts", "pinned", "commit_mode", "write_policy"]

/-- The lines of one of the three tables. -/
def tableLines (data : Table) (table : String) : List (List Char) :=
  match data.lookup table with
  | some (.table values) =>
    emitScalarTable shown table values ++
      if table = "pack_stack" then
        (itemsOf values "lowers").flatMap (itemLines shown "[[pack_stack.lowers]]")
      else []
  | _ => []

def tomlLines (data : Table) : List (List Char) :=
  (rootKeys.filterMap fun key => (data.lookup key).map (pairLine shown key)) ++ [[]] ++
  ["pack_stack", "overlay", "cold_storage"].flatMap (tableLines shown data) ++
  (itemsOf data "child_boundary").flatMap (itemLines shown "[[child_boundary]]")

/-- `_dumps_toml_subset` -/
def dumpsTomlSubset (data : Table) : List Char :=
  rstrip (Lib.joined '\n' (tomlLines shown data)) ++ ['\n']

end Writer

/-! ## 4. The reader -/

/-- What the interpreter decides about the values of a file. -/
structure PyReads (F : Type) extends PyNumbers F where
  /-- `bool(x)` of a float. -/
  nonzero : F → Bool
  /-- `str` of an array or a table. -/
  shownNested : TomlValue F → String

/-- The exceptions of `load_manifest`. -/
inductive LoadError where
  /-- `TOMLDecodeError` -/
  | decode
  /-- `UnsupportedSchemaVersion` -/
  | newerSchema (version : Int)
  /-- The `ManifestError` of `normalize_write_policy`. -/
  | writePolicy (value : String)
  /-- `KeyError` -/
  | missing (key : String)
  /-- The exceptions of `int(value)`. -/
  | number (cause : Mountd.NumberError)
  /-- The `TypeError` or `AttributeError` of what is not a table or an array. -/
  | shape
  deriving DecidableEq

section Reader

variable {F : Type} (py : PyReads F)

/-- `str(value)` -/
def pyStr (value : TomlValue F) : String :=
  (value.str py.toPyNumbers).getD (py.shownNested value)

/-- `int(value)` -/
def pyInt (value : TomlValue F) : Except LoadError Int :=
  (value.toInt py.toPyNumbers).mapError .number

/-- `bool(value)` -/
def truthy : TomlValue F → Bool
  | .text s => s ≠ ""
  | .int n => n ≠ 0
  | .bool b => b
  | .float x => py.nonzero x
  | .moment _ => true
  | .array items => !items.isEmpty
  | .table entries => !entries.isEmpty

/-- `str(data[key])` -/
def needStr (data : TomlTable F) (key : String) : Except LoadError String :=
  (data.lookup key).elim (.error (.missing key)) fun v => .ok (pyStr py v)

/-- `int(data[key])` -/
def needInt (data : TomlTable F) (key : String) : Except LoadError Int :=
  (data.lookup key).elim (.error (.missing key)) (pyInt py)

/-- `str(data.get(key, default))` -/
def getStr (data : TomlTable F) (key default : String) : String :=
  (data.lookup key).elim default (pyStr py)

/-- `int(data.get(key, default))` -/
def getInt (data : TomlTable F) (key : String) (default : Int) : Except LoadError Int :=
  (data.lookup key).elim (.ok default) (pyInt py)

/-- A value whose keys are asked for. -/
def asTable : TomlValue F → Except LoadError (TomlTable F)
  | .table entries => .ok entries
  | _ => .error .shape

/-- What a `from_dict` gets of `data.get(key)`: nothing, if `not data`. -/
def tableOf (value : Option (TomlValue F)) : Except LoadError (Option (TomlTable F)) :=
  match value with
  | none => .ok none
  | some v => if truthy py v then (asTable v).map some else .ok none

/-- What iterating over `data.get(key, [])` gives; a character or a key has no keys itself. -/
def iterated : Option (TomlValue F) → Except LoadError (List (TomlValue F))
  | none => .ok []
  | some (.array items) => .ok items
  | some (.text s) => if s = "" then .ok [] else .error .shape
  | some (.table entries) => if entries.isEmpty then .ok [] else .error .shape
  | some _ => .error .shape

def packFromDict (data : TomlTable F) : Except LoadError PackInfo := do
  let path ← needStr py data "path"
  let sha256 ← needStr py data "sha256"
  let size ← needInt py data "size"
  let fileCount ← (data.lookup "file_count").elim (.ok none) fun v => (pyInt py v).map some
  let level ← getInt py data "level" 0
  let generationMin ← getInt py data "generation_min" 0
  let generationMax ← getInt py data "generation_max" 0
  return {
    path, sha256, size, fileCount
    block := getStr py data "block" "1M"
    comp := getStr py data "comp" "zstd"
    level, generationMin, generationMax
    kind := getStr py data "kind" "base" }

def packStackFromDict (value : Option (TomlValue F)) : Except LoadError PackStack := do
  match ← tableOf py value with
  | none => return {}
  | some data =>
    let items ← iterated (data.lookup "lowers")
    let lowers ← items.mapM fun item => do packFromDict py (← asTable item)
    return { activeRevision := getStr py data "active_revision" "", lowers }

def overlayFromDict (value : Option (TomlValue F)) : Except LoadError OverlayInfo := do
  match ← tableOf py value with
  | none => return {}
  | some data =>
    let overlayGeneration ← getInt py data "overlay_generation" 0
    return {
      mode := getStr py data "mode" "none"
      activeUpper := getStr py data "active_upper" ""
      overlayGeneration }

def coldStorageFromDict (value : Option (TomlValue F)) : Except LoadError ColdStorageInfo := do
  match ← tableOf py value with
  | none => return {}
  | some data =>
    let packGeneration ← getInt py data "pack_generation" 0
    let mirrorGeneration ← match data.lookup "mirror_generation" with
      | some v => pyInt py v
      | none => getInt py data "pack_generation" 0
    let overlayGeneration ← getInt py data "overlay_generation" 0
    return {
      backend := getStr py data "backend" "s3"
      mode := getStr py data "mode" ""
      packState := getStr py data "pack_state" "missing"
      snapshotState := getStr py data "snapshot_state" "unavailable"
      packGeneration, mirrorGeneration, overlayGeneration
      uri := getStr py data "uri" ""
      archivedAt := getStr py data "archived_at" ""
      lastMirroredAt := getStr py data "last_mirrored_at" ""
      lastRecalledAt := getStr py data "last_recalled_at" ""
      lastAccessedAt := getStr py data "last_accessed_at" "" }

def boundaryFromDict (data : TomlTable F) : Except LoadError ChildBoundary := do
  let path ← needStr py data "path"
  let childId ← needStr py data "child_id"
  return {
    path := stripSlashes path
    childId
    mountPolicy := getStr py data "mount_policy" "lazy"
    exportPolicy := getStr py data "export_policy" "explicit" }

/-- What iterating over `boundaries_raw` gives; a single table stands for an array of one. -/
def boundaryItems : Option (TomlValue F) → Except LoadError (List (TomlValue F))
  | some (.table entries) => .ok [.table entries]
  | value => iterated value

/-- `normalize_write_policy` of what the file has. -/
def policyFromDict (data : TomlTable F) : Except LoadError WritePolicy :=
  let value := getStr py data "write_policy" "shared-nfs"
  (Mountd.writePolicyNamed (Mountd.lower (strip value))).elim (.error (.writePolicy value)) .ok

/-- `str(data.get("id") or data.get("name"))` -/
def idFromDict (data : TomlTable F) : String :=
  match (data.lookup "id").filter (truthy py) with
  | some v => pyStr py v
  | none => getStr py data "name" "None"

/-- `ChildManifest.from_dict` -/
def fromDict (data : TomlTable F) : Except LoadError ChildManifest := do
  let version ← getInt py data "schema_version" 1
  if 1 < version then throw (.newerSchema version)
  let name ← needStr py data "name"
  let type ← needStr py data "type"
  let generation ← getInt py data "generation" 0
  let writePolicy ← policyFromDict py data
  let packStack ← packStackFromDict py (data.lookup "pack_stack")
  let overlay ← overlayFromDict py (data.lookup "overlay")
  let coldStorage ← coldStorageFromDict py
    (((data.lookup "cold_storage").filter (truthy py)).or (data.lookup "s3"))
  let boundaries ← boundaryItems (data.lookup "child_boundary")
  let childBoundaries ← boundaries.mapM fun item => do boundaryFromDict py (← asTable item)
  return {
    id := idFromDict py data
    name, type, generation
    state := getStr py data "state" "clean"
    schemaVersion := version
    parentId := getStr py data "parent_id" ""
    parentPath := getStr py data "parent_path" ""
    createdTs := getStr py data "created_ts" ""
    pinned := ((data.lookup "pinned").map (truthy py)).getD false
    commitMode := getStr py data "commit_mode" "auto"
    writePolicy, packStack, overlay, coldStorage, childBoundaries }

mutual

/-- What the file holds, as `tomllib` returns it. -/
def ofValue : Lib.Toml.Value → TomlValue F
  | .scalar (.text s) => .text s
  | .scalar (.int n) => .int n
  | .scalar (.bool b) => .bool b
  | .table entries => .table (ofTable entries)
  | .tables items => .array (ofTables items)

def ofTable : List (String × Lib.Toml.Value) → List (String × TomlValue F)
  | [] => []
  | (key, v) :: t => (key, ofValue v) :: ofTable t

def ofTables : List (List (String × Lib.Toml.Value)) → List (TomlValue F)
  | [] => []
  | t :: ts => .table (ofTable t) :: ofTables ts

end

/-- `load_manifest`, of a file with this text. -/
def loadManifest (text : List Char) : Except LoadError ChildManifest :=
  match Lib.Toml.loads text with
  | none => .error .decode
  | some data => fromDict py (ofTable data)

end Reader

end CccStorage.TomlManifest
