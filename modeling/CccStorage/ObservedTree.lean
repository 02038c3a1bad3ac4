/-
  File:      CccStorage/ObservedTree.lean
  Subject:   Observation roots in a source tree (`core/observe.py`), and what a parent pack is built
             from (`pack/builder.py`).

  * `SourceTree` -- directories and regular files, every one in a directory of the tree;
  * `discoverObservationRoots`, `immediateChildBoundaries`, `resolveObservedChild`;
  * `topmostPaths`, `combinedExcludes`, `createBoundaryMarkers`, `prepareParentSource`,
    `countFiles`.
-/
import CccStorage.PathTexts
import CccStorage.ConfigValues
import CccStorage.Lib.Longest
import CccStorage.Lib.Topmost

namespace CccStorage.Observed

open Mountd (TomlTable PyNumbers lower writePolicyNamed)

/-! ## 1. Source trees -/

/-- A name in a directory. -/
structure EntryName (name : String) : Prop extends PathName name where
  nul : '\x00' ∉ name.toList

/-- **A source tree**: directories and regular files. -/
structure SourceTree extends Tree where
  nodup : (nodes.map (·.1)).Nodup
  names : ∀ x ∈ nodes, x.1 ≠ [] ∧ ∀ n ∈ x.1, EntryName n
  parent : ∀ x ∈ nodes, toTree.get x.1.dropLast = some .dir
  kind : ∀ x ∈ nodes, x.2.isPlain = true

def isDir (t : SourceTree) (p : Path) : Bool := t.get p = some .dir

def isFile (t : SourceTree) (p : Path) : Bool :=
  match t.get p with
  | some (.file _) => true
  | _ => false

/-- `src.rglob("*")`: every entry, in some order. -/
def rglob (t : SourceTree) : List Path := t.nodes.map (·.1)

/-- `sorted(...)` of paths: by their components. -/
def sortedPaths (paths : List Path) : List Path := paths.mergeSort fun p q => decide (p ≤ q)

/-! ## 2. Observation roots -/

def OBSERVE_MARKER_NAME : String := "CCC_STORAGE_OBSERVE"

structure ObservationRoot where
  /-- `path`, below the source. -/
  path : Path
  relativePath : String
  writePolicy : Option WritePolicy
  deriving DecidableEq

structure ObservedChild where
  observationRoot : ObservationRoot
  boundaryPath : String
  childName : String
  innerPath : String
  deriving DecidableEq

/-- What the marker files are read with: UTF-8, and `tomllib`. -/
structure MarkerReader (F : Type) where
  py : PyNumbers F
  /-- `read_text(encoding="utf-8")` -/
  decode : Bytes → Option String
  loads : String → Option (TomlTable F)

/-- `parse_observe_marker_policy`; the error is none of ours: `UnicodeDecodeError`,
    `TOMLDecodeError` or `ManifestError`. -/
def parseObserveMarkerPolicy {F : Type} (reader : MarkerReader F) (content : Bytes) :
    Option (Option WritePolicy) := do
  let text := strip (← reader.decode content)
  let policyNamed (value : String) : Option WritePolicy :=
    writePolicyNamed (lower (strip value))
  if text = "" then return none
  else if '=' ∉ text.toList ∧ '\n' ∉ text.toList then return some (← policyNamed text)
  else
    match (← reader.loads text).lookup "write_policy" with
    | none => return none
    | some value => return some (← policyNamed (← value.str reader.py))

section

variable {F : Type} (reader : MarkerReader F) (t : SourceTree)

/-- The root at a directory with a marker. -/
def rootAt (d : Path) (content : Bytes) : Option ObservationRoot := do
  let writePolicy ← parseObserveMarkerPolicy reader content
  return ⟨d, pathText d, writePolicy⟩

/-- The directories with a marker file, with what it holds. -/
def markedDirs : List (Path × Bytes) :=
  ([] :: sortedPaths (rglob t)).filterMap fun d =>
    match t.get (d ++ [OBSERVE_MARKER_NAME]) with
    | some (.file content) => some (d, content)
    | _ => none

/-- The key `(relative_path.count("/"), relative_path)`. -/
def rootLe (a b : ObservationRoot) : Bool :=
  let depth (r : ObservationRoot) : Nat := r.relativePath.toList.count '/'
  depth a < depth b || (depth a = depth b && decide (a.relativePath ≤ b.relativePath))

/-- `discover_observation_roots(src)`; none when a marker does not parse. -/
def discoverObservationRoots : Option (List ObservationRoot) := do
  let roots ← (markedDirs t).mapM fun d => rootAt reader d.1 d.2
  return roots.mergeSort rootLe

/-- `_join(*parts)`. -/
def joinTexts (parts : List String) : String :=
  "/".intercalate ((parts.map stripSlashes).filter (· ≠ ""))

/-- The names in a directory, in order. -/
def namesIn (d : Path) : List String :=
  ((rglob t).filterMap fun p => if p ≠ [] ∧ p.dropLast = d then p.getLast? else none).mergeSort
    fun a b => decide (a ≤ b)

/-- `immediate_child_boundaries(src)`. -/
def immediateChildBoundaries : Option (List String) := do
  let roots ← discoverObservationRoots reader t
  return roots.flatMap fun observed =>
    ((namesIn t observed.path).filter fun n => isDir t (observed.path ++ [n])).map fun n =>
      joinTexts [observed.relativePath, n]

/-- `_normalize(rel_path)` of `core/observe.py`. -/
def normalizeObserved (relPath : String) : Option String :=
  let parts := relPath.toList.splitOn '/'
  if '\x00' ∈ relPath.toList ∨ relPath.toList.head? = some '/' then none
  else if parts.any fun part => part = [] ∨ part = ['.'] ∨ part = ['.', '.'] then
    if relPath = "" ∨ relPath = "." then some "" else none
  else some relPath

/-- The names of a text of the tree. -/
def pathOf (text : String) : Path := (text.toList.splitOn '/').map String.ofList

/-- `_is_prefix(prefix, path)`. -/
def isPrefix (pre path : String) : Bool := pre = "" || covers pre path

/-- One root of the loop of `resolve_observed_child`: the child it would give, and its depth. -/
def childUnder (clean : String) (allowMissing : Bool) (observed : ObservationRoot) :
    Option (ObservedChild × Nat) :=
  if isPrefix observed.relativePath clean then
    let suffix :=
      if observed.relativePath = "" then clean else innerText observed.relativePath clean
    if suffix = "" then none
    else
      let childName := String.ofList (suffix.toList.takeWhile (· ≠ '/'))
      let boundaryPath := joinTexts [observed.relativePath, childName]
      if !allowMissing && !isDir t (pathOf boundaryPath) then none
      else if allowMissing && !isDir t observed.path then none
      else
        let depth :=
          if observed.relativePath = "" then 0
          else (observed.relativePath.toList.splitOn '/').length
        some (⟨observed, boundaryPath, childName, String.ofList
          ((suffix.toList.drop childName.toList.length).dropWhile (· == '/'))⟩, depth)
  else none

/-- `resolve_observed_child(src, rel_path)`; the outer none is a marker that does not parse. -/
def resolveObservedChild (relPath : String) (allowMissing : Bool) : Option (Option ObservedChild) :=
  match normalizeObserved relPath with
  | none => some none
  | some clean =>
    if clean = "" then some none
    else do
      let roots ← discoverObservationRoots reader t
      let found := roots.filterMap (childUnder t clean allowMissing)
      -- `if depth > best_depth`
      return (found.foldl (Lib.longer Prod.snd fun _ => true) none).map Prod.fst

/-! ## 3. The source of a parent pack -/

def BOUNDARY_MARKER_NAME : String := ".ccc-boundary"

/-- The key `(item.count("/"), item)`. -/
def textLe (a b : String) : Bool :=
  a.toList.count '/' < b.toList.count '/' ||
    (a.toList.count '/' = b.toList.count '/' && decide (a ≤ b))

/-- `_topmost(paths)`. -/
def topmostPaths (paths : List String) : List String :=
  Lib.topmost covers (paths.eraseDups.mergeSort textLe)

/-- `_combined_excludes(src, explicit, exclude_observed=...)`. -/
def combinedExcludes (explicit : List String) (excludeObserved : Bool) : Option (List String) := do
  let paths := (explicit.map stripSlashes).filter (· ≠ "")
  if excludeObserved then
    return (paths ++ (← immediateChildBoundaries reader t)).eraseDups
  else return paths.eraseDups

/-- `any(rel == excluded or rel.startswith(excluded + "/") for excluded in excludes)`. -/
def isExcluded (excludes : List String) (p : Path) : Bool :=
  excludes.any fun excluded => covers excluded (pathText p)

/-- `mkdir(parents=True, exist_ok=True)`: none where a file is in the way. -/
def mkdirs (dst : Tree) (p : Path) : Option Tree :=
  p.inits.foldlM (fun d q =>
    match d.get q with
    | none => some (d.set q .dir)
    | some .dir => some d
    | some _ => none) dst

/-- The destination, and the files copied to it so far. -/
structure Prepared where
  tree : Tree
  copied : List Path

/-- One entry of the loop of `prepare_parent_source`. -/
def copyEntry (excludes : List String) (dst : Prepared) (p : Path) : Option Prepared :=
  if isExcluded excludes p then some dst
  else if isDir t p then (mkdirs dst.tree p).map fun d => { dst with tree := d }
  else
    match t.get p with
    | some (.file content) => (mkdirs dst.tree p.dropLast).map fun d =>
        ⟨d.set p (.file content), dst.copied ++ [p]⟩
    | _ => some dst

/-- One boundary of `create_boundary_markers`: its directory, and an empty marker in it. -/
def createBoundaryMarker (dst : Tree) (boundary : String) : Option Tree :=
  (mkdirs dst (pathOf boundary)).map fun d =>
    d.set (pathOf boundary ++ [BOUNDARY_MARKER_NAME]) (.file [])

/-- `create_boundary_markers(src, boundaries)`. -/
def createBoundaryMarkers (dst : Tree) (boundaries : List String) : Option Tree :=
  (topmostPaths ((boundaries.map stripSlashes).filter (· ≠ ""))).foldlM createBoundaryMarker dst

/-- `prepare_parent_source(src, dst, exclude_boundaries=..., exclude_observed=...)` into a new
    directory. -/
def prepareParentSource (explicit : List String) (excludeObserved : Bool) : Option Prepared := do
  let excludes ← combinedExcludes reader t explicit excludeObserved
  let dst ← (sortedPaths (rglob t)).foldlM (copyEntry t excludes) ⟨⟨[]⟩, []⟩
  let tree ← createBoundaryMarkers dst.tree excludes
  return { dst with tree }

/-- `count_files(src, exclude_boundaries=..., exclude_observed=...)`. -/
def countFiles (explicit : List String) (excludeObserved : Bool) : Option Nat := do
  let excludes ← combinedExcludes reader t explicit excludeObserved
  return ((rglob t).filter fun p => !isExcluded excludes p && isFile t p).length

end

end CccStorage.Observed
