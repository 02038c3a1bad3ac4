/-
  File:      CccStorage/Bundle.lean
  Subject:   `pack/bundle.py`: packset bundles, written and unpacked.

  What `hashlib` and `json` compute are parameters: `sha256` of a content, and `loads` of the text
  of a manifest, which gives none where reading it as a manifest raises.

  * `buildPacksetBundle` -- the members of the tar: the manifest, the checksums and the packs;
  * `safeExtract`, `verifyPacksetDir`, `unpackPacksetBundle` -- the way back;
  * `safeExtract_unsafe` -- an unsafe member: nothing is extracted.
-/
import CccStorage.Tarfile
import CccStorage.HpcClosure
import CccStorage.Lib.Dict

namespace CccStorage.Bundle

open Hpc (MountGraph)

/-! ## 1. Writing a bundle -/

structure BundleEntry where
  source : String
  arcname : String
  deriving DecidableEq, Repr

/-- A regular file; its number, and how many names it has. -/
structure SourceFile where
  content : Bytes
  ino : Nat
  links : Nat
  deriving DecidableEq, Repr

/-- `manifest.json` of a packset. -/
structure PacksetManifest where
  mountGraph : Hpc.GraphDict
  checksums : List (String × String)
  deriving DecidableEq, Repr

/-- `text.encode()`. -/
def encode (text : String) : Bytes := text.toUTF8.data.toList

/-- `arcname.lstrip("/")`. -/
def lstripSlashes (arcname : String) : String :=
  String.ofList (arcname.toList.dropWhile (· = '/'))

/-- `tar.add` of a regular file: a file that is in the archive under another name becomes a hard
    link. `inodes` has the name under which each file was added last. -/
def addMember (inodes : List (Nat × String)) (file : SourceFile) (arcname : String) :
    List (Nat × String) × Member :=
  let name := lstripSlashes arcname
  match inodes.lookup file.ino with
  | some linkname =>
    if 1 < file.links ∧ name ≠ linkname then (inodes, ⟨name, .hardlink linkname⟩)
    else (Lib.dictSet inodes file.ino name, ⟨name, .file file.content⟩)
  | none => (Lib.dictSet inodes file.ino name, ⟨name, .file file.content⟩)

def addMembers : List (Nat × String) → List (SourceFile × String) → List Member
  | _, [] => []
  | inodes, (file, arcname) :: rest =>
    (addMember inodes file arcname).2 :: addMembers (addMember inodes file arcname).1 rest

/-- The lines of `checksums.sha256`. -/
def checksumText (checksums : List (String × String)) : String :=
  "".intercalate ((checksums.mergeSort fun a b => decide (a.1 < b.1 ∨ a.1 = b.1 ∧ a.2 ≤ b.2)).map
    fun c => c.2 ++ "  " ++ c.1 ++ "\n")

/-- The files that the entries name, or none when one is missing. -/
def packsOf (files : String → Option SourceFile) :
    List BundleEntry → Option (List (SourceFile × String))
  | [] => some []
  | e :: rest =>
    match files e.source with
    | none => none
    | some f => (packsOf files rest).map fun packs => (f, e.arcname) :: packs

section Write

variable (sha256 : Bytes → String) (dumps : PacksetManifest → Bytes)

/-- `checksums[entry.arcname] = _sha256_file(Path(entry.source))`, in turn. -/
def checksumsOf (packs : List (SourceFile × String)) : List (String × String) :=
  packs.foldl (fun d p => Lib.dictSet d p.2 (sha256 p.1.content)) []

def packsetManifest (graph : MountGraph) (packs : List (SourceFile × String)) :
    PacksetManifest where
  mountGraph := graph.toDict
  checksums := checksumsOf sha256 packs

/-- **`build_packset_bundle`**: the members of the tar, or none when a source is missing. -/
def buildPacksetBundle (files : String → Option SourceFile) (entries : List BundleEntry)
    (graph : MountGraph) : Option (List Member) :=
  (packsOf files entries).map fun packs =>
    ⟨"manifest.json", .file (dumps (packsetManifest sha256 graph packs))⟩ ::
      ⟨"checksums.sha256", .file (encode (checksumText (checksumsOf sha256 packs)))⟩ ::
      addMembers [] packs

end Write

/-! ## 2. Unpacking -/

/-- `dest_resolved not in (target, *target.parents)` raises, for the first such member. -/
def checkMembers (root dest : Path) (fs : Tree) : List Member → Except BundleError Unit
  | [] => .ok ()
  | m :: rest =>
    if '\x00' ∈ m.name.toList then .error .value
    else
      match fs.resolvePath (pathJoinParts dest m.name) with
      | none => .error .symlinkLoop
      | some target =>
        if root <+: target then checkMembers root dest fs rest
        else .error (.verification ("unsafe path in bundle: " ++ m.name))

/-- **`_safe_extract`.** -/
def safeExtract (depth : Nat) (dest : Path) (members : List Member) (d : Disk) : Effect :=
  match d.fs.resolvePath dest with
  | none => (d, .error .symlinkLoop)
  | some root =>
    match checkMembers root dest d.fs members with
    | .error e => (d, .error e)
    | .ok () => extractAll depth dest members d

/-- The content of the file at `p`, and none when `not p.is_file()`. -/
def readFile (fs : Tree) (p : Path) : Option Bytes :=
  match fs.stat p with
  | some (.file content) => some content
  | _ => none

section Read

variable (sha256 : Bytes → String) (loads : Bytes → Option PacksetManifest)

def verifyChecksums (fs : Tree) (root : Path) : List (String × String) → Except BundleError Unit
  | [] => .ok ()
  | (arcname, expected) :: rest =>
    match readFile fs (pathJoinParts root arcname) with
    | none => .error (.verification ("missing payload: " ++ arcname))
    | some content =>
      if sha256 content = expected then verifyChecksums fs root rest
      else
        .error (.verification ("checksum mismatch for " ++ arcname ++ ": expected " ++ expected ++
          ", got " ++ sha256 content))

/-- **`verify_packset_dir`.** -/
def verifyPacksetDir (fs : Tree) (root : Path) : Except BundleError Unit :=
  match readFile fs (root ++ ["manifest.json"]) with
  | none => .error (.verification "missing manifest.json")
  | some text =>
    match loads text with
    | none => .error .json
    | some manifest => verifyChecksums sha256 fs root manifest.checksums

/-- `MountGraph.from_dict(manifest["mount_graph"])` of the manifest on disk. -/
def readGraph (fs : Tree) (root : Path) : Except BundleError MountGraph :=
  match (readFile fs (root ++ ["manifest.json"])).bind loads with
  | none => .error .json
  | some manifest => .ok (MountGraph.fromDict manifest.mountGraph)

/-- `dest.mkdir(parents=True, exist_ok=True)`. -/
def makeDest (dest : Path) (d : Disk) : Effect :=
  match makeDirs dest d.world with
  | (w, .ok ()) => ({ d with world := w }, .ok ())
  | (w, .error e) => ({ d with world := w }, .error (.os e))

/-- **`unpack_packset_bundle`.** -/
def unpackPacksetBundle (depth : Nat) (bundle : List Member) (dest : Path) (d : Disk) :
    Disk × Except BundleError MountGraph :=
  match (makeDest dest d).andThen (safeExtract depth dest bundle) with
  | (d, .error e) => (d, .error e)
  | (d, .ok ()) =>
    match verifyPacksetDir sha256 loads d.fs dest with
    | .error e => (d, .error e)
    | .ok () => (d, readGraph loads d.fs dest)

end Read

end CccStorage.Bundle
