/-
  File:      CccStorage/Tarfile.lean
  Subject:   `tarfile.TarFile.extractall` with the filter that trusts every member, on files that
             may have several names.

  * `Member`, `Target` -- a member of an archive, and the path it is written to;
  * `Disk` -- the files, which names are hard links of one another, and the steps so far;
  * `makedirs`, `makeFile`, `makeDir`, `replaceBySymlink`, `link` -- the system calls;
  * `extractMember` -- `_extract_member`: links that cannot be made are replaced by the member they
    refer to, which is extracted in their place;
  * `extractAll` -- the members in order, then the attributes of the directories.
-/
import CccStorage.Resolve

namespace CccStorage.Bundle

/-! ## 1. Members -/

inductive MemberKind where
  | file (content : Bytes)
  | dir
  | symlink (linkname : String)
  | hardlink (linkname : String)
  deriving DecidableEq, Repr

structure Member where
  name : String
  kind : MemberKind
  deriving DecidableEq, Repr

/-- `text.split("/")`. -/
def slashParts (text : String) : List String := (text.toList.splitOn '/').map String.ofList

/-- A path by what is before its last slash, and what is after it. -/
structure Target where
  upper : Path
  base : String
  deriving DecidableEq, Repr

/-- The last component names no entry of its own. -/
def Target.dots (t : Target) : Bool := t.base = "." ∨ t.base = ".."

def Target.path (t : Target) : Path := if t.base = "." then t.upper else t.upper ++ [t.base]

/-- The real path of the entry itself, a symlink not followed. -/
def Target.entry (t : Target) (fs : Tree) : Option Path :=
  if t.dots then none else fs.entryPath t.path

/-- `os.path.join(dest, name).rstrip("/")`; `none` when no text is left. -/
def extractTarget (dest : Path) (name : String) : Option Target :=
  match (slashParts name).reverse.dropWhile (· = "") with
  | [] => if isAbsolute name then none else dest.getLast?.map fun c => ⟨dest.dropLast, c⟩
  | base :: up =>
    some ⟨(if isAbsolute name then [] else dest) ++ up.reverse.filter fun c =>
      c ≠ "" ∧ c ≠ ".", base⟩

/-- `os.path.normpath`, by its leading slashes and its components. -/
structure NormPath where
  slashes : Nat
  comps : List String
  deriving DecidableEq, Repr

def normpath (text : String) : NormPath :=
  let leading := (text.toList.takeWhile (· = '/')).length
  let slashes := if leading = 2 then 2 else min leading 1
  let add (comps : List String) (c : String) : List String :=
    if c = "" ∨ c = "." then comps
    else if c ≠ ".." ∨ (slashes = 0 ∧ comps = []) ∨ comps.getLast? = some ".." then comps ++ [c]
    else comps.dropLast
  ⟨slashes, (slashParts text).foldl add []⟩

/-- `os.path.dirname`. -/
def dirname (text : String) : String :=
  let head := text.toList.reverse.dropWhile (· ≠ '/')
  let stripped := head.dropWhile (· = '/')
  String.ofList (if stripped = [] then head else stripped).reverse

/-- `_find_link_target`: the last member of that name; for a hard link, of those before it. -/
def findLinkTarget (members : List Member) (i : Nat) (m : Member) : Option Nat :=
  let last (limit : Nat) (linkname : String) : Option Nat :=
    (List.range limit).reverse.find? fun j =>
      (members[j]?).any fun other => normpath other.name = normpath linkname
  match m.kind with
  | .symlink linkname =>
    last members.length ("/".intercalate ([dirname m.name, linkname].filter (· ≠ "")))
  | .hardlink linkname => last i linkname
  | .file _ | .dir => none

/-! ## 2. The disk -/

/-- What a step of the extraction is about to do. -/
inductive TarAct where
  | create (m : Member) (target : Option Target)
  | setAttrs (m : Member) (target : Option Target)
  /-- `chown`, `utime` and `chmod` of a directory, after all members. -/
  | setDirAttrs (p : Path)
  deriving DecidableEq, Repr

/-- A step, with the files as it finds them. -/
structure TarStep where
  fs : Tree
  ino : Path → Nat
  act : TarAct

structure Disk where
  world : World
  /-- The file that a path is a name of. -/
  ino : Path → Nat
  /-- The number of the next file. -/
  next : Nat
  /-- The steps so far, newest first. -/
  steps : List TarStep

inductive BundleError where
  | os (e : OSError)
  /-- `ValueError`, for a NUL in a path. -/
  | value
  | attribute
  | key
  | recursion
  /-- `tarfile.ExtractError`. -/
  | extract
  /-- `RuntimeError` of `resolve()`. -/
  | symlinkLoop
  /-- `PacksetVerificationError`. -/
  | verification (message : String)
  | json
  deriving DecidableEq, Repr

abbrev Effect := Lib.Outcome Disk BundleError

/-- The names of the file at a real path. A directory and what is missing have one. -/
def names (fs : Tree) (ino : Path → Nat) (q : Path) : List Path :=
  match fs.get q with
  | none | some .dir => [q]
  | some _ =>
    q :: (fs.nodes.map (·.1)).filter fun p =>
      fs.get p ≠ none && fs.get p ≠ some .dir && ino p = ino q

namespace Disk

def fs (d : Disk) : Tree := d.world.fs

def touched (d : Disk) : List Access := d.world.touched

def raise (d : Disk) (e : OSError) : Effect := (d, .error (.os e))

def log (d : Disk) (act : TarAct) : Disk := { d with steps := ⟨d.fs, d.ino, act⟩ :: d.steps }

/-- Change what is at the real paths `qs`, called `p`. -/
def touch (d : Disk) (p : Path) (qs : List Path) (fs : Tree) : Disk :=
  { d with world := { fs := fs, touched := qs.map (⟨p, ·⟩) ++ d.touched } }

/-- A new entry, which is a file of its own. -/
def create (d : Disk) (p q : Path) (e : Entry) : Disk :=
  { d.touch p [q] (d.fs.set q e) with
    ino := Function.update d.ino q d.next, next := d.next + 1 }

end Disk

/-- Every name of a file gets the content. -/
def rewrite (fs : Tree) (qs : List Path) (content : Bytes) : Tree :=
  ⟨fs.nodes.map fun x => if qs.contains x.1 then (x.1, .file content) else x⟩

def erase (fs : Tree) (q : Path) : Tree := ⟨fs.nodes.filter fun x => x.1 ≠ q⟩

/-! ## 3. System calls -/

/-- `os.mkdir(p)`. -/
def mkdir (p : Path) (d : Disk) : Effect :=
  match d.fs.entryPath p with
  | none => d.raise .fileNotFound
  | some q =>
    if p.getLast? ≠ some ".." ∧ d.fs.get q = none then
      ({ d with world := d.world.touch p q (d.fs.set q .dir) }, .ok ())
    else d.raise .fileExists

/-- `os.makedirs(p)`, the last component first. -/
def makedirsRev : List String → Disk → Effect
  | [], d => mkdir [] d
  | c :: up, d =>
    if d.fs.exists' up.reverse then mkdir (up.reverse ++ [c]) d
    else
      match makedirsRev up d with
      | (d, .ok ()) | (d, .error (.os .fileExists)) => mkdir (up.reverse ++ [c]) d
      | r => r

/-- `if upperdirs and not os.path.exists(upperdirs): os.makedirs(upperdirs)`. -/
def makeUpperDirs (target : Option Target) (d : Disk) : Effect :=
  match target with
  | none => (d, .ok ())
  | some t => if d.fs.exists' t.upper then (d, .ok ()) else makedirsRev t.upper.reverse d

/-- `open(target, "wb")`, and the content. -/
def makeFile (content : Bytes) (t : Target) (d : Disk) : Effect :=
  if t.dots then d.raise .fileNotFound
  else
    match d.fs.openPath t.path with
    | none => d.raise .fileNotFound
    | some q =>
      match d.fs.get q with
      | none => (d.create t.path q (.file content), .ok ())
      | some (.file _) =>
        (d.touch t.path (names d.fs d.ino q) (rewrite d.fs (names d.fs d.ino q) content), .ok ())
      | some _ => d.raise .fileExists

/-- `os.mkdir(target)`; a directory may be there. -/
def makeDir (t : Target) (d : Disk) : Effect :=
  match t.entry d.fs with
  | some q =>
    if d.fs.get q = none then
      ({ d with world := d.world.touch t.path q (d.fs.set q .dir) }, .ok ())
    else if d.fs.isDir t.path then (d, .ok ())
    else d.raise .fileExists
  | none => if t.dots ∧ d.fs.isDir t.path then (d, .ok ()) else d.raise .fileNotFound

/-- `if os.path.lexists(target): os.unlink(target)`. -/
def unlinkThere (t : Target) (d : Disk) : Effect :=
  match t.entry d.fs with
  | some q =>
    match d.fs.get q with
    | none => (d, .ok ())
    | some .dir => d.raise .fileExists
    | some _ => (d.touch t.path [q] (erase d.fs q), .ok ())
  | none => if t.dots ∧ d.fs.isDir t.path then d.raise .fileExists else (d, .ok ())

/-- `os.symlink(linkname, target)`. -/
def symlink (linkname : String) (t : Target) (d : Disk) : Effect :=
  if '\x00' ∈ linkname.toList then (d, .error .value)
  else if linkname = "" then d.raise .fileNotFound
  else
    match t.entry d.fs with
    | none => d.raise .fileNotFound
    | some q =>
      if d.fs.get q = none then (d.create t.path q (.symlink (linkTarget linkname)), .ok ())
      else d.raise .fileExists

def replaceBySymlink (linkname : String) (t : Target) (d : Disk) : Effect :=
  (unlinkThere t d).andThen (symlink linkname t)

/-- A path that ends in a slash or in `.` names a directory only. -/
def dirOnly (text : String) : Bool :=
  (slashParts text).getLast? = some "" ∨ (slashParts text).getLast? = some "."

/-- `os.path.exists(tarinfo._link_target)`. -/
def linkExists (dest : Path) (linkname : String) (fs : Tree) : Bool :=
  '\x00' ∉ linkname.toList &&
    if dirOnly linkname then fs.isDir (pathJoinParts dest linkname)
    else fs.exists' (pathJoinParts dest linkname)

/-- `os.link(tarinfo._link_target, target)`: the new name is one of the entry itself, a symlink
    not followed. -/
def link (dest : Path) (linkname : String) (t : Target) (d : Disk) : Effect :=
  match d.fs.entryPath (pathJoinParts dest linkname), t.entry d.fs with
  | some src, some q =>
    match d.fs.get src with
    | none | some .dir => d.raise .fileNotFound
    | some e =>
      if dirOnly linkname then d.raise .notADirectory
      else if d.fs.get q = none then
        ({ d.touch t.path [q] (d.fs.set q e) with ino := Function.update d.ino q (d.ino src) },
          .ok ())
      else d.raise .fileExists
  | _, _ => d.raise .fileNotFound

/-- `chown`, `chmod` and `utime` of `p`, symlinks followed. -/
def setPathAttrs (p : Path) (d : Disk) : Effect :=
  match d.fs.realPath p with
  | none => (d, .error .extract)
  | some q => (d.touch p (names d.fs d.ino q) d.fs, .ok ())

/-- The attributes of what was extracted; of a symlink, the owner of the symlink itself. -/
def setAttrs (m : Member) (t : Target) (d : Disk) : Effect :=
  match m.kind with
  | .symlink _ =>
    if t.dots then setPathAttrs t.path d
    else
      match t.entry d.fs with
      | none => (d, .error .extract)
      | some q =>
        if d.fs.get q = none then (d, .error .extract) else (d.touch t.path [q] d.fs, .ok ())
  | .file _ | .dir | .hardlink _ => setPathAttrs t.path d

/-- A system call on a path; the empty text is no path. -/
def onTarget (call : Target → Disk → Effect) : Option Target → Disk → Effect
  | none, d => d.raise .fileNotFound
  | some t, d => call t d

/-! ## 4. Extraction -/

/-- The `except symlink_exception` of `makelink`: `OSError` and `AttributeError` extract the member
    that the link refers to. -/
def orLinked (again : Nat → Disk → Effect) (found : Option Nat) (r : Effect) : Effect :=
  match r with
  | (d, .error (.os _)) | (d, .error .attribute) =>
    match found with
    | none => (d, .error .extract)
    | some j =>
      match again j d with
      | (d, .error .key) => (d, .error .extract)
      | r => r
  | r => r

/-- The `try` of `makelink` for a hard link. Only a member of the list itself has a
    `_link_target`. -/
def tryLink (again : Nat → Disk → Effect) (found : Option Nat) (dest : Path) (linkname : String)
    (top : Bool) (target : Option Target) (d : Disk) : Effect :=
  if !top then (d, .error .attribute)
  else if linkExists dest linkname d.fs then onTarget (link dest linkname) target d
  else
    match found with
    | none => (d, .error .key)
    | some j => again j d

/-- `makefile`, `makedir` or `makelink`. -/
def makeMember (again : Nat → Disk → Effect) (dest : Path) (members : List Member) (top : Bool)
    (i : Nat) (m : Member) (target : Option Target) (d : Disk) : Effect :=
  match m.kind with
  | .file content => onTarget (makeFile content) target d
  | .dir => onTarget makeDir target d
  | .symlink linkname =>
    orLinked again (findLinkTarget members i m) (onTarget (replaceBySymlink linkname) target d)
  | .hardlink linkname =>
    orLinked again (findLinkTarget members i m)
      (tryLink again (findLinkTarget members i m) dest linkname top target d)

/-- **`_extract_member`** with so many calls left on the stack; `top` for the call from
    `extractall`, which leaves the attributes of a directory for later. -/
def extractMember (dest : Path) (members : List Member) :
    Nat → Bool → Nat → Option Target → Disk → Effect
  | 0, _, _, _, d => (d, .error .recursion)
  | depth + 1, top, i, target, d =>
    match members[i]? with
    | none => (d, .error .key)
    | some m =>
      (makeUpperDirs target (d.log (.create m target))).andThen fun d =>
        (makeMember (fun j => extractMember dest members depth false j target) dest members top i m
          target d).andThen fun d =>
          if top && m.kind = .dir then (d, .ok ())
          else onTarget (setAttrs m) target (d.log (.setAttrs m target))

/-- `_handle_nonfatal_error` passes over an `ExtractError`. -/
def nonfatal (r : Effect) : Effect :=
  match r with
  | (d, .error .extract) => (d, .ok ())
  | r => r

def extractOne (depth : Nat) (dest : Path) (members : List Member) (i : Nat) (d : Disk) : Effect :=
  nonfatal (extractMember dest members depth true i
    ((members[i]?).bind fun m => extractTarget dest m.name) d)

/-- `directories.sort(key=lambda a: a.name, reverse=True)`. -/
def directories (members : List Member) : List Member :=
  (members.filter fun m => m.kind = .dir).mergeSort fun a b => decide (b.name ≤ a.name)

def setDirAttrs (dest : Path) (m : Member) (d : Disk) : Effect :=
  nonfatal (setPathAttrs (pathJoinParts dest m.name)
    (d.log (.setDirAttrs (pathJoinParts dest m.name))))

/-- **`tar.extractall(dest)`.** -/
def extractAll (depth : Nat) (dest : Path) (members : List Member) (d : Disk) : Effect :=
  (Lib.forEach (extractOne depth dest members) (List.range members.length) d).andThen
    (Lib.forEach (setDirAttrs dest) (directories members))

end CccStorage.Bundle
