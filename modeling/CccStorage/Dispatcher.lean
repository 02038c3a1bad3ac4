/-
  File:      CccStorage/Dispatcher.lean
  Subject:   The dispatcher of an observation root (`mountd/dispatcher_fuse.py`): the namespace core,
             the FUSE operations over it, and what the daemon answers it (`mountd/observation.py`).

  * `ObservationStorage`, `routePath` -- the configured roots, and the one a path is routed to;
  * `HostView` -- what the files, the registry and a mount answer during one call;
  * `accessChild`, `mkdirChild`, `rmdirChild`, `renameChild` -- the service, with its error texts;
  * `sourcePath` -- the place a path of the dispatcher stands for: inside the child's private mount,
    or in the source tree when the access fails with one of four texts;
  * `entryFor`, `listdir`, `mkdir`, `read` -- `ObservationDispatchCore`;
  * `fuseStep` -- one FUSE operation; every call in it meets a `HostView` of its own.

  A path below the root is the list of its components. The log `touched` says which real places an
  operation showed or changed for its caller; the registry and the overlays that the service keeps
  for a child are its own, and not in it. The core runs with `materialize_mountpoints=False`, as
  `mount_observation_dispatcher` builds it.
-/
import CccStorage.Tree
import CccStorage.ManagedParent
import CccStorage.Lib.Run
import CccStorage.Lib.Programs

namespace CccStorage.Observe

/-! ## 1. Errors -/

inductive OsKind where
  | fileNotFound
  | fileExists
  | notADirectory
  | other
  deriving DecidableEq, Repr

/-- An exception that leaves an operation. One the code raises itself, `FileNotFoundError(rel)`,
    has no errno. -/
inductive DispatchError where
  | value
  | os (kind : OsKind) (errno : Option Nat)
  | runtime (message : String)
  | fuse (errno : Option Nat)
  | other
  deriving DecidableEq, Repr

def EPERM : Nat := 1
def ENOENT : Nat := 2
def EBUSY : Nat := 16
def EEXIST : Nat := 17
def EBADF : Nat := 9
def EISDIR : Nat := 21
def EINVAL : Nat := 22
def ENOTEMPTY : Nat := 39

/-- `text in message`. -/
def HasText (message text : String) : Prop := text.toList <:+: message.toList

instance (message text : String) : Decidable (HasText message text) :=
  inferInstanceAs (Decidable (text.toList <:+: message.toList))

theorem hasText_append (pre text post : String) : HasText (pre ++ text ++ post) text :=
  ⟨pre.toList, post.toList, by rw [String.toList_append, String.toList_append]⟩

/-- The texts for which `_private_child_path` takes the path to be no child's. -/
def fallbackTexts : List String :=
  ["not registered", "not found", "not under", "no observation root"]

def FallsBack (message : String) : Prop := ∃ text ∈ fallbackTexts, HasText message text

instance (message : String) : Decidable (FallsBack message) :=
  inferInstanceAs (Decidable (∃ text ∈ fallbackTexts, HasText message text))

/-! ## 2. Roots -/

/-- A configured observation directory. -/
structure ObservationStorage where
  publicPath : Path
  sourceRoot : Path
  stateSubdir : String
  deriving DecidableEq

def ObservationStorage.stateDir (r : ObservationStorage) : Path := r.sourceRoot ++ [r.stateSubdir]

/-- What `initialize_observation_dir` accepts as a `state_subdir`. -/
def AcceptedSubdir (stateSubdir : String) : Prop :=
  stateSubdir ≠ "" ∧ '/' ∉ stateSubdir.toList ∧ stateSubdir ≠ "." ∧ stateSubdir ≠ ".."

instance (stateSubdir : String) : Decidable (AcceptedSubdir stateSubdir) :=
  inferInstanceAs (Decidable (stateSubdir ≠ "" ∧ '/' ∉ stateSubdir.toList ∧ stateSubdir ≠ "." ∧
    stateSubdir ≠ ".."))

/-- One round of `ObservationRouter.resolve`. -/
def selectRoot (p : Path) (selected : Option ObservationStorage) (routed : ObservationStorage) :
    Option ObservationStorage :=
  if routed.publicPath <+: p then
    match selected with
    | none => some routed
    | some best =>
      if best.publicPath.length < routed.publicPath.length then some routed else some best
  else selected

/-- `ObservationRouter.resolve`: the nearest root above the path. -/
def resolveRoot (roots : List ObservationStorage) (p : Path) : Option ObservationStorage :=
  roots.foldl (selectRoot p) none

/-- `rel_to_root` of a path below the root. -/
def relToRoot (p : Path) (r : ObservationStorage) : Path := p.drop r.publicPath.length

def relText (rel : Path) : String := "/".intercalate rel

/-- `_route_path` of an absolute path. -/
def routePath (roots : List ObservationStorage) (p : Path) :
    Except DispatchError (ObservationStorage × Path) :=
  match resolveRoot roots p with
  | none =>
    .error (.runtime ("path is not under a configured observation dir: /" ++ relText p))
  | some r => .ok (r, relToRoot p r)

/-! ## 3. What one call meets -/

inductive HostNode where
  | dir (names : List String)
  | file (size : Nat)
  deriving DecidableEq, Repr

/-- A registered child, as far as the observation manager reads it. -/
structure ObservedManifest where
  mounted : Bool
  generation : Nat
  packed : Bool
  dirty : Bool

inductive SysCall where
  | scan
  | openFile
  | makeDir
  | unlink
  | removeDir
  | renamePath
  | chown
  /-- What the service writes for itself: a manifest, an overlay. -/
  | keepState
  deriving DecidableEq, Repr

structure OsError where
  kind : OsKind
  errno : Option Nat
  text : String

/-- What the files, the registry and the daemon answer during one call. -/
structure HostView where
  /-- The directory or file at a path, links followed. -/
  node : Path → Option HostNode
  /-- The place a path leads to, every link and bind mount followed. -/
  leadsTo : Path → Path
  /-- The place of the entry itself: the links above it followed, not its own. -/
  entryOf : Path → Path
  manifest : ObservationStorage → String → Option ObservedManifest
  /-- `prepare_manifest`, `mount_rw` and the mountpoint in the status after them. -/
  mountRw : ObservationStorage → String → Except DispatchError (Option Path)
  fails : SysCall → Path → Option OsError

def HostView.isDir (w : HostView) (p : Path) : Bool :=
  match w.node p with
  | some (.dir _) => true
  | _ => false

/-- What an operation showed or changed for its caller. -/
inductive Touch where
  | attributes (path : Path)
  | listed (path : Path) (names : List String)
  | bytes (path : Path)
  | opened (path : Path)
  | created (path : Path)
  | removed (path : Path)
  | renamed (old new : Path)
  | mounted (path : Path)
  | owned (path : Path)
  deriving DecidableEq, Repr

def Touch.paths : Touch → List Path
  | .attributes p | .listed p _ | .bytes p | .opened p | .created p | .removed p | .mounted p
  | .owned p => [p]
  | .renamed old new => [old, new]

def Touch.names : Touch → List String
  | .listed _ names => names
  | _ => []

/-- `ObservationFuseOperations`, with the log. -/
structure FuseState where
  inodeToPath : Nat → Option Path
  pathToInode : Path → Option Nat
  nextInode : Nat
  nextFh : Nat
  /-- The place each open descriptor stands for. -/
  fhToFd : Nat → Option Path
  touched : List Touch

def rootInode : Nat := 1

def FuseState.start : FuseState where
  inodeToPath := fun inode => if inode = rootInode then some [] else none
  pathToInode := fun rel => if rel = [] then some rootInode else none
  nextInode := rootInode + 1
  nextFh := 1
  fhToFd := fun _ => none
  touched := []

abbrev DispatchM := Lib.Program FuseState DispatchError

def FuseState.log (s : FuseState) (t : Touch) : FuseState := { s with touched := s.touched ++ [t] }

def touch (t : Touch) : DispatchM Unit := modify fun s => s.log t

/-- A system call on a path. -/
def syscall (w : HostView) (call : SysCall) (p : Path) : DispatchM Unit :=
  match w.fails call p with
  | some e => throw (.os e.kind e.errno)
  | none => pure ()

/-! ## 4. The service -/

/-- A component that `normalize_rel`, `validate_name` and `_resolve_child` refuse. -/
def unsafePart (part : String) : Bool :=
  part = "" || part = "." || part = ".." || part.toList.contains '\x00'

/-- `ObservationManager._resolve_child`, of a manager whose roots need no marker. -/
def resolveChild (w : HostView) (root : ObservationStorage) (rel : Path) (allowMissing : Bool) :
    Option String :=
  match rel with
  | [] => none
  | child :: inner =>
    if (child :: inner).any unsafePart then none
    else if !allowMissing && !w.isDir (root.sourceRoot ++ [child]) then none
    else if child = root.stateSubdir then none
    else some child

/-- `access_child`: the private mountpoint of the child the path is in. -/
def accessChild (w : HostView) (root : ObservationStorage) (rel : Path) :
    DispatchM (Option Path) :=
  match resolveChild w root rel false with
  | none => throw (.runtime ("observed child not found for path: " ++ relText rel))
  | some child =>
    match w.manifest root child with
    | none => throw (.runtime ("observed child is not registered: " ++ child))
    | some _ =>
      match w.mountRw root child with
      | .error e => throw e
      | .ok mountpoint => do
        touch (.mounted (w.entryOf (root.sourceRoot ++ [child])))
        pure mountpoint

/-- `mkdir_child`: the boundary of the new child. -/
def mkdirChild (w : HostView) (root : ObservationStorage) (rel : Path) : DispatchM String :=
  match resolveChild w root rel true with
  | none => throw (.runtime ("path is not under an observation root: " ++ relText rel))
  | some child =>
    match w.manifest root child with
    | some _ => throw (.runtime ("observed child already registered: " ++ child))
    | none => do
      let place := root.sourceRoot ++ [child]
      syscall w .makeDir place
      touch (.created (w.entryOf place))
      syscall w .chown place
      touch (.owned (w.leadsTo place))
      syscall w .keepState root.stateDir
      pure child

/-- `_exact_observed_boundary`. -/
def exactObservedBoundary (w : HostView) (root : ObservationStorage) (rel : Path)
    (allowMissing : Bool) : DispatchM String :=
  match resolveChild w root rel allowMissing with
  | some child =>
    if rel = [child] then pure child
    else throw (.runtime ("path is not an observed child boundary: " ++ relText rel))
  | none => throw (.runtime ("path is not an observed child boundary: " ++ relText rel))

/-- `_assert_mutable_generation0`. -/
def assertMutable (m : ObservedManifest) (child : String) : DispatchM Unit :=
  if m.mounted then throw (.runtime ("observed child is mounted: " ++ child))
  else if m.generation ≠ 0 ∨ m.packed then
    throw (.runtime "only clean generation-0 observed children can be renamed or removed")
  else if m.dirty then throw (.runtime ("observed child overlay is dirty: " ++ child))
  else pure ()

/-- Only a registered child is asked whether it may change. -/
def assertRegisteredMutable (m : Option ObservedManifest) (child : String) : DispatchM Unit :=
  match m with
  | none => pure ()
  | some m => assertMutable m child

/-- `child_path.rmdir()` in `rmdir_child`. -/
def removeBoundary (w : HostView) (place : Path) : DispatchM Unit :=
  match w.fails .removeDir place with
  | some e => throw (.runtime ("cannot remove observed child: " ++ e.text))
  | none => touch (.removed (w.entryOf place))

/-- `rmdir_child`. -/
def rmdirChild (w : HostView) (root : ObservationStorage) (rel : Path) : DispatchM Unit := do
  let child ← exactObservedBoundary w root rel false
  assertRegisteredMutable (w.manifest root child) child
  removeBoundary w (root.sourceRoot ++ [child])
  syscall w .keepState root.stateDir

/-- `rename_child`. -/
def renameChild (w : HostView) (root : ObservationStorage) (oldRel newRel : Path) :
    DispatchM Unit := do
  let old ← exactObservedBoundary w root oldRel false
  let new ← exactObservedBoundary w root newRel true
  match w.manifest root old with
  | none => throw (.runtime ("observed child is not registered: " ++ old))
  | some m =>
    if (w.manifest root new).isSome ∨ (w.node (root.sourceRoot ++ [new])).isSome then
      throw (.runtime ("observed child already exists: " ++ new))
    else do
      assertMutable m old
      let source := root.sourceRoot ++ [old]
      let target := root.sourceRoot ++ [new]
      syscall w .renamePath source
      touch (.renamed (w.entryOf source) (w.entryOf target))
      syscall w .keepState root.stateDir
      syscall w .chown target
      touch (.owned (w.leadsTo target))

/-! ## 5. The namespace core -/

/-- The name the core reserves, whatever the root's own `state_subdir` is. -/
def reservedName : String := ".ccc-storage"

/-- The dispatcher of one root among those the daemon serves. `add_root` takes a public path once,
    and no other root's children lie in the state directory. -/
structure Dispatcher where
  roots : List ObservationStorage
  root : ObservationStorage
  served : root ∈ roots
  distinct : ∀ r ∈ roots, r.publicPath = root.publicPath → r = root
  apart : ∀ r ∈ roots, r ≠ root → ∀ child, ¬ root.stateDir <+: r.sourceRoot ++ [child]

inductive EntryKind where
  | dir
  | file
  deriving DecidableEq, Repr

structure DispatchEntry where
  path : Path
  name : String
  kind : EntryKind
  size : Nat
  deriving DecidableEq, Repr

def entryName (p : Path) : String := p.getLast?.getD ""

def normalizeRel (rel : Path) : DispatchM Path :=
  if rel.any unsafePart then throw .value else pure rel

def validateName (name : String) : DispatchM String :=
  if unsafePart name || name.toList.contains '/' then throw .value else pure name

section Core

variable (d : Dispatcher) (w : HostView)

def Dispatcher.mountPath (rel : Path) : Path := d.root.publicPath ++ rel

/-- `handle_observe_access_private`. -/
def handleObserveAccessPrivate (rel : Path) : DispatchM (Option Path) :=
  match routePath d.roots (d.mountPath rel) with
  | .error e => throw e
  | .ok (root, rel) => accessChild w root rel

def handleObserveMkdir (rel : Path) : DispatchM String :=
  match routePath d.roots (d.mountPath rel) with
  | .error e => throw e
  | .ok (root, rel) => mkdirChild w root rel

def handleObserveRmdir (rel : Path) : DispatchM Unit :=
  match routePath d.roots (d.mountPath rel) with
  | .error e => throw e
  | .ok (root, rel) => rmdirChild w root rel

def handleObserveRename (old new : Path) : DispatchM Unit :=
  match routePath d.roots (d.mountPath old), routePath d.roots (d.mountPath new) with
  | .error e, _ => throw e
  | _, .error e => throw e
  | .ok (oldRoot, oldRel), .ok (newRoot, newRel) =>
    if oldRoot.publicPath ≠ newRoot.publicPath then
      throw (.runtime "cannot rename observed child across observation roots")
    else renameChild w oldRoot oldRel newRel

/-- A failed access, which may mean that the path is no child's. -/
def accessFailure : DispatchError → DispatchM (Option Path)
  | .runtime message => if FallsBack message then pure none else throw (.runtime message)
  | e => throw e

/-- `_private_child_path`. -/
def privateChildPath (rel : Path) : DispatchM (Option Path) := do
  let rel ← normalizeRel rel
  if rel = [] ∨ reservedName ∈ rel then pure none
  else do
    let mountpoint ← tryCatch (handleObserveAccessPrivate d w rel) accessFailure
    pure (mountpoint.map (· ++ rel.tail))

/-- `source_path`. -/
def sourcePath (rel : Path) : DispatchM Path := do
  let rel ← normalizeRel rel
  match ← privateChildPath d w rel with
  | some privatePath => pure privatePath
  | none => pure (d.root.sourceRoot ++ rel)

/-- `FileNotFoundError(rel)`. -/
def fileNotFound : DispatchError := .os .fileNotFound none

/-- `entry_for`. -/
def entryFor (rel : Path) : DispatchM DispatchEntry := do
  let rel ← normalizeRel rel
  let path ← sourcePath d w rel
  if rel = [] then do
    touch (.attributes (w.leadsTo path))
    pure ⟨rel, "", .dir, 0⟩
  else if reservedName ∈ rel then throw fileNotFound
  else
    match w.node path with
    | some (.dir _) => do
      touch (.attributes (w.leadsTo path))
      pure ⟨rel, entryName path, .dir, 0⟩
    | some (.file size) => do
      touch (.attributes (w.leadsTo path))
      pure ⟨rel, entryName path, .file, size⟩
    | none => throw fileNotFound

/-- `listdir`. -/
def listdir (rel : Path) : DispatchM (List String) := do
  let path ← sourcePath d w rel
  match w.node path with
  | some (.dir names) => do
    syscall w .scan path
    let shown := sortedNames (names.filter (· ≠ reservedName))
    touch (.listed (w.leadsTo path) shown)
    pure shown
  | _ => throw (.os .notADirectory none)

/-- `ObservationDispatchCore.mkdir`. -/
def coreMkdir (rel : Path) : DispatchM DispatchEntry := do
  let rel ← normalizeRel rel
  if rel = [] then throw .value
  else if reservedName ∈ rel then throw .value
  else if 1 < rel.length then do
    let path ← sourcePath d w rel
    syscall w .makeDir path
    touch (.created (w.entryOf path))
    syscall w .chown path
    touch (.owned (w.leadsTo path))
    pure ⟨rel, entryName path, .dir, 0⟩
  else do
    let child ← handleObserveMkdir d w rel
    pure ⟨[child], child, .dir, 0⟩

/-- `ObservationDispatchCore.read`. -/
def coreRead (rel : Path) : DispatchM Unit := do
  let rel ← normalizeRel rel
  if reservedName ∈ rel then throw fileNotFound
  else do
    let path ← sourcePath d w rel
    match w.node path with
    | some (.file _) => do
      syscall w .openFile path
      touch (.bytes (w.leadsTo path))
    | _ => throw fileNotFound

/-- `ObservationDispatchCore.rmdir`. -/
def coreRmdir (rel : Path) : DispatchM Unit := do
  let rel ← normalizeRel rel
  if rel = [] then throw .value else handleObserveRmdir d w rel

/-- `ObservationDispatchCore.rename`. -/
def coreRename (oldPath newPath : Path) : DispatchM Unit := do
  let old ← normalizeRel oldPath
  let new ← normalizeRel newPath
  if old = [] ∨ new = [] then throw .value else handleObserveRename d w old new

end Core
/-! ## 6. The FUSE operations -/

/-- The attributes of an entry: `st_ino`, and `st_mode` by the kind. -/
structure Attributes where
  inode : Nat
  kind : EntryKind
  size : Nat
  deriving DecidableEq, Repr

inductive Reply where
  | attributes (a : Attributes)
  | entries (names : List (String × Attributes))
  | handle (fh : Nat)
  | handleOf (fh : Nat) (a : Attributes)
  | done
  deriving DecidableEq, Repr

inductive FuseOp where
  | getattr (inode : Nat)
  | lookup (parent : Nat) (name : String)
  /-- `room`: how many replies the kernel's buffer takes. -/
  | readdir (inode off room : Nat)
  | openFile (inode : Nat)
  | create (parent : Nat) (name : String)
  | readFile (fh : Nat)
  | writeFile (fh : Nat)
  | release (fh : Nat)
  | unlink (parent : Nat) (name : String)
  | mkdir (parent : Nat) (name : String)
  | rmdir (parent : Nat) (name : String)
  | rename (parentOld : Nat) (nameOld : String) (parentNew : Nat) (nameNew : String) (flags : Nat)

namespace FuseState

/-- `_inode_for`. -/
def addInode (s : FuseState) (rel : Path) : FuseState :=
  match s.pathToInode rel with
  | some _ => s
  | none =>
    { s with
      nextInode := s.nextInode + 1
      pathToInode := Function.update s.pathToInode rel (some s.nextInode)
      inodeToPath := Function.update s.inodeToPath s.nextInode (some rel) }

/-- `_drop_inode_for`. -/
def dropInode (s : FuseState) (rel : Path) : FuseState :=
  match s.pathToInode rel with
  | none => s
  | some inode =>
    { s with
      pathToInode := Function.update s.pathToInode rel none
      inodeToPath := Function.update s.inodeToPath inode none }

/-- `_move_inode_for`. -/
def moveInode (s : FuseState) (old new : Path) : FuseState :=
  match s.pathToInode old with
  | none => s
  | some inode =>
    { s with
      pathToInode := Function.update (Function.update s.pathToInode old none) new (some inode)
      inodeToPath := Function.update s.inodeToPath inode (some new) }

/-- A new file handle of an open descriptor. -/
def addHandle (s : FuseState) (place : Path) : FuseState :=
  { s with nextFh := s.nextFh + 1, fhToFd := Function.update s.fhToFd s.nextFh (some place) }

def closeHandle (s : FuseState) (fh : Nat) : FuseState :=
  { s with fhToFd := Function.update s.fhToFd fh none }

end FuseState

/-- `_rel_for_inode`. -/
def relForInode (inode : Nat) : DispatchM Path := do
  match (← get).inodeToPath inode with
  | some rel => pure rel
  | none => throw (.fuse (some ENOENT))

/-- `_attrs`. -/
def attrs (entry : DispatchEntry) : DispatchM Attributes := do
  modify (·.addInode entry.path)
  pure ⟨((← get).pathToInode entry.path).getD 0, entry.kind, entry.size⟩

/-- `_raise_for_runtime_error`. -/
def runtimeErrno (message : String) : Nat :=
  if HasText message "already exists" then EEXIST
  else if HasText message "mounted" then EBUSY
  else if HasText message "dirty" ∨ HasText message "not empty" ∨ HasText message "cannot remove" then
    ENOTEMPTY
  else if HasText message "not found" ∨ HasText message "not an observed" then ENOENT
  else EPERM

/-! The `except` clauses of the operations. -/

def lookupErrors : DispatchError → DispatchError
  | .value => .fuse (some ENOENT)
  | .os .fileNotFound _ => .fuse (some ENOENT)
  | e => e

def missingErrors : DispatchError → DispatchError
  | .os .fileNotFound _ => .fuse (some ENOENT)
  | e => e

def osErrors : DispatchError → DispatchError
  | .os _ errno => .fuse errno
  | e => e

def nameErrors : DispatchError → DispatchError
  | .value => .fuse (some EINVAL)
  | .os _ errno => .fuse errno
  | e => e

def mkdirErrors : DispatchError → DispatchError
  | .value => .fuse (some EINVAL)
  | .os .fileExists _ => .fuse (some EEXIST)
  | e => e

def runtimeErrors : DispatchError → DispatchError
  | .value => .fuse (some EINVAL)
  | .runtime message => .fuse (some (runtimeErrno message))
  | e => e

section Fuse

variable (d : Dispatcher)

/-- `child_name if parent == "" else f"{parent}/{child_name}"`. -/
def childRel (parent : Path) (name : String) : DispatchM Path := do
  let childName ← validateName name
  pure (parent ++ [childName])

/-- What `readdir` resolves for a name of the listing. -/
def listedRel (rel : Path) (name : String) : Path :=
  if name = "." then rel else if name = ".." then [] else rel ++ [name]

def listedAttrs (w : HostView) (rel : Path) : DispatchM (Option Attributes) := do
  let entry ← entryFor d w rel
  let a ← attrs entry
  pure (some a)

/-- `except FileNotFoundError: continue`. -/
def skipMissing : DispatchError → DispatchM (Option Attributes)
  | .os .fileNotFound _ => pure none
  | e => throw e

/-- The loop of `readdir`: a name that has gone is left out, and a full buffer ends it. -/
def readdirReplies (env : Nat → HostView) (rel : Path) :
    Nat → Nat → List String → DispatchM (List (String × Attributes))
  | _, _, [] => pure []
  | idx, room, name :: rest => do
    let found ← tryCatch (listedAttrs d (env idx) (listedRel rel name)) skipMissing
    match found, room with
    | none, room => readdirReplies env rel (idx + 1) room rest
    | some _, 0 => pure []
    | some a, room + 1 => do
      let more ← readdirReplies env rel (idx + 1) room rest
      pure ((name, a) :: more)

/-- `create` of a path: the place opened, and its entry. -/
def createAt (env : Nat → HostView) (rel : Path) : DispatchM (Path × DispatchEntry) :=
  if reservedName ∈ rel then throw (.fuse (some ENOENT))
  else do
    let path ← sourcePath d (env 0) rel
    syscall (env 0) .openFile path
    touch (.created ((env 0).leadsTo path))
    let path' ← sourcePath d (env 1) rel
    syscall (env 1) .chown path'
    touch (.owned ((env 1).leadsTo path'))
    let entry ← entryFor d (env 2) rel
    pure ((env 0).leadsTo path, entry)

/-- `unlink` of a path. -/
def unlinkAt (w : HostView) (rel : Path) : DispatchM Unit :=
  if reservedName ∈ rel then throw (.fuse (some ENOENT))
  else do
    let path ← sourcePath d w rel
    syscall w .unlink path
    touch (.removed (w.entryOf path))

/-- `read` and `write` of an open handle. -/
def useHandle (fh : Nat) : DispatchM Reply := do
  match (← get).fhToFd fh with
  | none => throw (.fuse (some EBADF))
  | some place => do
    touch (.bytes place)
    pure .done

/-- **One FUSE operation**: its calls meet `env 0`, `env 1`, .. in turn. -/
def fuseStep (env : Nat → HostView) : FuseOp → DispatchM Reply
  | .getattr inode => do
    let rel ← relForInode inode
    let entry ← entryFor d (env 0) rel
    pure (.attributes (← attrs entry))
  | .lookup parent name => do
    let parent ← relForInode parent
    let entry ← Lib.raising lookupErrors (do entryFor d (env 0) (← childRel parent name))
    pure (.attributes (← attrs entry))
  | .readdir inode off room => do
    let rel ← relForInode inode
    let names ← listdir d (env 0) rel
    let replies ← readdirReplies d env rel (off + 1) room (("." :: ".." :: names).drop off)
    pure (.entries replies)
  | .openFile inode => do
    let rel ← relForInode inode
    let entry ← Lib.raising missingErrors (entryFor d (env 0) rel)
    if entry.kind ≠ .file then throw (.fuse (some EISDIR))
    else do
      let place ← Lib.raising osErrors do
        let path ← sourcePath d (env 1) rel
        syscall (env 1) .openFile path
        touch (.opened ((env 1).leadsTo path))
        pure ((env 1).leadsTo path)
      let fh := (← get).nextFh
      modify (·.addHandle place)
      pure (.handle fh)
  | .create parent name => do
    let parent ← relForInode parent
    let (place, entry) ← Lib.raising nameErrors (do createAt d env (← childRel parent name))
    let fh := (← get).nextFh
    modify (·.addHandle place)
    pure (.handleOf fh (← attrs entry))
  | .readFile fh | .writeFile fh => useHandle fh
  | .release fh => do
    modify (·.closeHandle fh)
    pure .done
  | .unlink parent name => do
    let parent ← relForInode parent
    Lib.raising nameErrors do
      let rel ← childRel parent name
      unlinkAt d (env 0) rel
      modify (·.dropInode rel)
      pure .done
  | .mkdir parent name => do
    let parent ← relForInode parent
    let entry ← Lib.raising mkdirErrors (do coreMkdir d (env 0) (← childRel parent name))
    pure (.attributes (← attrs entry))
  | .rmdir parent name => do
    let parent ← relForInode parent
    Lib.raising runtimeErrors do
      let rel ← childRel parent name
      coreRmdir d (env 0) rel
      modify (·.dropInode rel)
      pure .done
  | .rename parentOld nameOld parentNew nameNew flags => do
    if flags ≠ 0 then throw (.fuse (some EINVAL))
    else do
      let parentOld ← relForInode parentOld
      let parentNew ← relForInode parentNew
      Lib.raising runtimeErrors do
        let oldName ← validateName nameOld
        let newName ← validateName nameNew
        let oldRel := parentOld ++ [oldName]
        let newRel := parentNew ++ [newName]
        coreRename d (env 0) oldRel newRel
        modify (·.moveInode oldRel newRel)
        pure .done

/-- An operation with what its calls meet. -/
structure FuseCall where
  op : FuseOp
  env : Nat → HostView

def fuseNext (s : FuseState) (c : FuseCall) : FuseState := (Lib.exec (fuseStep d c.env c.op) s).2

/-- **Runs of the dispatcher**: FUSE operations one after the other. -/
abbrev FuseRuns : FuseState → List (Lib.Trans FuseState FuseCall) → FuseState → Prop :=
  Lib.Run fun s c s' => fuseNext d s c = s'

end Fuse

/-! ## 7. What leaves the state alone -/

section Checks

variable {I : FuseState → Prop} {w : HostView} {call : SysCall} {p rel : Path}

theorem syscall_keeps : Lib.Keeps I (syscall w call p) fun _ => True := by
  unfold syscall
  split
  · exact .throw
  · exact .pure trivial

theorem normalizeRel_keeps : Lib.Keeps I (normalizeRel rel) fun rel' => rel' = rel := by
  unfold normalizeRel
  split
  · exact .throw
  · exact .pure rfl

end Checks

end CccStorage.Observe
