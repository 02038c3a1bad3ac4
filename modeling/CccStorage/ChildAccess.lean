/-
  File:      CccStorage/ChildAccess.lean
  Subject:   The access to an observed child behind the dispatcher: `_ensure_hot` (`mountd/daemon.py`),
             the recall (`cold/archive.py`), the writable mount (`mountd/childmount.py`) and the mount
             commands (`pack/reader.py`), with every `RuntimeError` they raise and its text.

  * `AccessFailure`, `AccessFailure.pieces` -- the errors, as fixed words and the values quoted;
  * `AccessHost` -- tools, files, locks, objects and records, as one access meets them;
  * `ensureHot`, `mountRwUnlocked`, `accessPrivate` -- what an access answers;
  * `fallsBack_text_iff` -- an error of these is taken for "no child" exactly when one piece of its
    text contains one of the four phrases.
-/
import CccStorage.Dispatcher
import CccStorage.MountedStacks
import CccStorage.Lib.Chunks

namespace CccStorage.Observe

/-! ## 1. Errors -/

/-- `shutil.which` of a tool found nothing. -/
inductive MissingTool where
  | squashfuse
  | packStack
  | writableView
  | kernelOverlay
  | dirPackStack
  | bindMount
  deriving DecidableEq, Repr

def MissingTool.words : MissingTool → String
  | .squashfuse => "squashfuse not found; cannot mount pack unprivileged"
  | .packStack => "fuse-overlayfs not found; cannot compose pack stack"
  | .writableView => "fuse-overlayfs not found; cannot mount writable layered view"
  | .kernelOverlay => "mount not found; cannot use kernel OverlayFS"
  | .dirPackStack => "fuse-overlayfs not found; cannot compose read-only dir/pack stack"
  | .bindMount => "mount not found; cannot bind-mount published mirror"

inductive MountCommand where
  | pack
  | packStack
  | writableView
  | kernelOverlay
  | dirPackStack
  | bind
  | bindRemount
  deriving DecidableEq, Repr

def MountCommand.words : MountCommand → String
  | .pack => "mount failed ("
  | .packStack => "stack mount failed ("
  | .writableView => "writable layered mount failed ("
  | .kernelOverlay => "kernel overlay mount failed ("
  | .dirPackStack => "dir/pack stack mount failed ("
  | .bind => "bind mount failed ("
  | .bindRemount => "bind read-only remount failed ("

/-- What `get_file` of an object store raises. -/
inductive ObjectStoreError where
  | notFound (key : String)
  | downloadFailed (key cause : String)
  | unsafeKey (shown : String)
  deriving DecidableEq, Repr

/-- The `RuntimeError`s of an access. -/
inductive AccessFailure where
  /-- `PackReadError`. -/
  | missingTool (tool : MissingTool)
  | commandFailed (command : MountCommand) (code : Int) (output : String)
  | emptyStack
  | bindSource (path : String)
  /-- `ChildMountError`. -/
  | mount (e : MountError)
  | noActiveUpper (id : String)
  | writerLockHeld (id : String)
  /-- `LockHeld`. -/
  | lockHeld (path : String)
  /-- `MountdError`. -/
  | notConfigured
  | manifestPath (id : String)
  /-- `RecallError`. -/
  | noUri (id : String)
  | store (e : ObjectStoreError)
  | verificationFailed (key sha256 : String) (size : Nat) (actualSha256 : String) (actualSize : Nat)
  deriving DecidableEq, Repr

abbrev Piece := Lib.Chunk Char

def words (s : String) : Piece := .fixed s.toList

def quoted (s : String) : Piece := .given s.toList

def modeText : MountMode → String
  | .ro => "ro"
  | .rw => "rw"

/-- The texts of `_reuse_existing` and `_mount_at_unlocked`. -/
def mountPieces : MountError → List Piece
  | .otherMountpoint id mountpoint requested =>
    [words "manifest ", quoted id, words " is already mounted at ", quoted mountpoint,
      words ", not requested mountpoint ", quoted requested]
  | .otherMode id mode requested =>
    [words "manifest ", quoted id, words " is already mounted in ", quoted (modeText mode),
      words " mode, not requested ", quoted (modeText requested), words " mode"]
  | .otherPolicy id policy requested =>
    [words "manifest ", quoted id, words " is already mounted with ", quoted policy.toString,
      words " policy, not manifest policy ", quoted requested.toString]
  | .noLowers id => [words "manifest ", quoted id, words " has no pack lowers"]

def storePieces : ObjectStoreError → List Piece
  | .notFound key => [words "object not found: ", quoted key]
  | .downloadFailed key cause =>
    [words "failed to download object ", quoted key, words ": ", quoted cause]
  | .unsafeKey shown => [words "unsafe object key: ", quoted shown]

/-- The text of an error, in pieces. -/
def AccessFailure.pieces : AccessFailure → List Piece
  | .missingTool tool => [words tool.words]
  | .commandFailed command code output =>
    [words command.words, quoted (toString code), words "): ", quoted output]
  | .emptyStack => [words "cannot mount an empty pack stack"]
  | .bindSource path => [words "bind source is not a directory: ", quoted path]
  | .mount e => mountPieces e
  | .noActiveUpper id => [words "manifest ", quoted id, words " has no active overlay upper"]
  | .writerLockHeld id =>
    [words "local writer lock is held for ", quoted id, words " and no published mirror exists"]
  | .lockHeld path => [words "lock already held: ", quoted path]
  | .notConfigured =>
    [words "cold storage backend is not configured; set CCC_COLD_STORAGE_* / CCC_S3_*"]
  | .manifestPath id => [words "manifest path not found for child ", quoted id]
  | .noUri id => [words "manifest ", quoted id, words " has no cold-storage uri"]
  | .store e => storePieces e
  | .verificationFailed key sha256 size actualSha256 actualSize =>
    [words "recall verification failed for ", quoted key, words ": expected ", quoted sha256,
      words "/", quoted (toString size), words ", got ", quoted actualSha256, words "/",
      quoted (toString actualSize)]

def AccessFailure.text (f : AccessFailure) : String := String.ofList (Lib.flat f.pieces)

/-- What leaves an access: one of these errors, an `OSError`, or a `KeyError`. -/
inductive AccessError where
  | failure (f : AccessFailure)
  | os (e : OsError)
  | keyError

def AccessError.raised : AccessError → DispatchError
  | .failure f => .runtime f.text
  | .os e => .os e.kind e.errno
  | .keyError => .other

abbrev Access (α : Type) := Except AccessError α

def fail {α : Type} (f : AccessFailure) : Access α := .error (.failure f)

/-! ## 2. What an access meets -/

structure AccessHost where
  which : String → Option String
  /-- The return code of a command, and its output. -/
  run : List String → Int × String
  isFile : String → Bool
  isDir : String → Bool
  preferKernel : Bool
  /-- `NFSLock` of the recall. -/
  coldLock : String
  coldLockHeld : Bool
  /-- `_find` under the lock; `none` is a `KeyError`. -/
  reread : Option ChildManifest
  /-- `_manifest_path` finds the child. -/
  knownPath : Bool
  /-- `get_file`, then the hash and the size of what came. -/
  store : Option (String → Except ObjectStoreError (String × Nat))
  hotDir : String
  stamp : String
  mountsDir : Path
  stacksDir : String
  existing : Option StackRecord
  writerHeld : Bool
  mirror : Option String
  localUpper : String
  localWork : String
  /-- A file operation on the way raises. -/
  interrupted : Option OsError
  /-- Another thread has unmounted the child before its status is read. -/
  unmounted : Bool

/-! ## 3. The mount commands -/

section Reader

variable (h : AccessHost)

def command (what : MountCommand) (cmd : List String) : Access Unit :=
  if (h.run cmd).1 = 0 then .ok ()
  else fail (.commandFailed what (h.run cmd).1 (h.run cmd).2)

/-- `mount_ro`. -/
def mountPackRo (preferKernel : Bool) (pack mnt : String) : Access Unit :=
  if preferKernel && (h.which "mount").isSome then
    command h .pack ["mount", "-t", "squashfs", "-o", "loop,ro", pack, mnt]
  else
    match h.which "squashfuse" with
    | none => fail (.missingTool .squashfuse)
    | some squashfuse => command h .pack [squashfuse, pack, mnt]

/-- `str(Path(p).parent)`. -/
def pathParent (p : String) : String :=
  String.ofList ((p.toList.reverse.dropWhile (· ≠ '/')).drop 1).reverse

/-- Where `mount_stack_ro` mounts the packs: next to the mountpoint. -/
def stackRoot (mnt : String) : String := pathJoin (pathParent mnt) ("." ++ pathName mnt ++ ".stack")

def lowerMnt (root : String) (idx : Nat) : String := root ++ "/lowers/" ++ pad4 idx

/-- Mount each pack below the scratch directory; the lower directories, top first. -/
def mountLowers (preferKernel : Bool) (root : String) :
    Nat → List PackInfo → Access (List String)
  | _, [] => .ok []
  | idx, pack :: packs => do
    mountPackRo h preferKernel pack.path (lowerMnt root idx)
    let above ← mountLowers preferKernel root (idx + 1) packs
    .ok (above ++ [lowerMnt root idx])

def lowerdirs (dirs : List String) : String := ":".intercalate dirs

/-- `mount_stack_ro`. -/
def mountStackRo (packs : List PackInfo) (mnt : String) : Access Unit :=
  match packs with
  | [] => fail .emptyStack
  | [pack] => mountPackRo h h.preferKernel pack.path mnt
  | packs =>
    match h.which "fuse-overlayfs" with
    | none => fail (.missingTool .packStack)
    | some fuseOverlayfs => do
      let dirs ← mountLowers h h.preferKernel (stackRoot mnt) 0 packs
      command h .packStack [fuseOverlayfs, "-o", "lowerdir=" ++ lowerdirs dirs, mnt]

/-- `mount_layered_rw`. -/
def mountLayeredRw (packs : List PackInfo) (upper work scratch mnt : String) : Access Unit :=
  match h.which "fuse-overlayfs" with
  | none => fail (.missingTool .writableView)
  | some fuseOverlayfs => do
    let lowerdir ←
      if packs = [] then .ok (scratch ++ "/empty-lower")
      else do
        mountStackRo h packs (scratch ++ "/lower")
        .ok (scratch ++ "/lower")
    command h .writableView
      [fuseOverlayfs, "-o", "lowerdir=" ++ lowerdir ++ ",upperdir=" ++ upper ++ ",workdir=" ++ work, mnt]

/-- `mount_layered_rw_kernel_overlay`. -/
def mountLayeredRwKernelOverlay (packs : List PackInfo) (upper work scratch mnt : String) :
    Access Unit :=
  match h.which "mount" with
  | none => fail (.missingTool .kernelOverlay)
  | some mountBin => do
    let dirs ←
      if packs = [] then .ok [scratch ++ "/empty-lower"] else mountLowers h false scratch 0 packs
    command h .kernelOverlay
      [mountBin, "-t", "overlay", "overlay", "-o",
        "lowerdir=" ++ lowerdirs dirs ++ ",upperdir=" ++ upper ++ ",workdir=" ++ work, mnt]

/-- `mount_dirs_and_packs_ro`. -/
def mountDirsAndPacksRo (top : String) (packs : List PackInfo) (scratch mnt : String) :
    Access Unit :=
  match h.which "fuse-overlayfs" with
  | none => fail (.missingTool .dirPackStack)
  | some fuseOverlayfs => do
    let dirs ← mountLowers h false scratch 0 packs
    command h .dirPackStack [fuseOverlayfs, "-o", "lowerdir=" ++ lowerdirs (top :: dirs), mnt]

/-- `mount_bind_ro`. -/
def mountBindRo (source mnt : String) : Access Unit :=
  match h.which "mount" with
  | none => fail (.missingTool .bindMount)
  | some mountBin =>
    if !h.isDir source then fail (.bindSource source)
    else do
      command h .bind [mountBin, "--bind", source, mnt]
      command h .bindRemount [mountBin, "-o", "remount,ro,bind", mnt]

/-! ## 4. The child mount -/

/-- `_reuse_existing`, as an access. -/
def reuse (m : ChildManifest) (mountpoint : String) (mode : MountMode) :
    Access (Option StackRecord) :=
  match reuseExisting h.existing m ⟨mountpoint, mode, false⟩ with
  | .error e => fail (.mount e)
  | .ok record => .ok record

/-- `_mount_at_unlocked`. -/
def mountAtUnlocked (m : ChildManifest) (mountpoint : String) : Access Unit := do
  match ← reuse h m mountpoint .ro with
  | some _ => .ok ()
  | none =>
    if m.lowers = [] then fail (.mount (.noLowers m.id)) else mountStackRo h m.lowers mountpoint

/-- `_mount_published_mirror_ro`. -/
def mountPublishedMirrorRo (m : ChildManifest) (mountpoint : String) : Access Unit :=
  match h.mirror with
  | none =>
    if m.lowers = [] then fail (.writerLockHeld m.id) else mountAtUnlocked h m mountpoint
  | some mirror =>
    if m.lowers = [] then mountBindRo h mirror mountpoint
    else mountDirsAndPacksRo h mirror m.lowers
      (pathJoin h.stacksDir (safeNamespaceName m.id ++ ".mirror")) mountpoint

/-- `_mount_rw_at_unlocked`. -/
def mountRwUnlocked (m : ChildManifest) (mountpoint : String) : Access Unit := do
  match ← reuse h m mountpoint .rw with
  | some _ => .ok ()
  | none =>
    match m.writePolicy with
    | .sharedNfs =>
      if m.overlay.activeUpper = "" then fail (.noActiveUpper m.id)
      else
        mountLayeredRw h m.lowers m.overlay.activeUpper
          (pathJoin (pathParent m.overlay.activeUpper) "work")
          (pathJoin h.stacksDir (safeNamespaceName m.id)) mountpoint
    | .localSsdAsync =>
      if h.writerHeld then mountPublishedMirrorRo h m mountpoint
      else
        mountLayeredRwKernelOverlay h m.lowers h.localUpper h.localWork
          (pathJoin h.stacksDir (safeNamespaceName m.id ++ ".local")) mountpoint

/-! ## 5. The recall -/

/-- `_mark_accessed`: an unchanged manifest is not written. -/
def markAccessedOn (m : ChildManifest) : Access ChildManifest :=
  if markAccessed m h.stamp = m then .ok m
  else if h.knownPath then .ok (markAccessed m h.stamp)
  else fail (.manifestPath m.id)

/-- The downloads of `recall_cold_storage_packs`. -/
def fetchPacks (uri : String) (get : String → Except ObjectStoreError (String × Nat)) :
    List PackInfo → Access Unit
  | [] => .ok ()
  | pack :: packs =>
    match get (packKey uri pack) with
    | .error e => fail (.store e)
    | .ok (sha256, size) =>
      if sha256 ≠ pack.sha256 ∨ size ≠ pack.size then
        fail (.verificationFailed (packKey uri pack) pack.sha256 pack.size sha256 size)
      else fetchPacks uri get packs

/-- `recall_cold_storage_packs`. -/
def recallColdStoragePacks (m : ChildManifest)
    (get : String → Except ObjectStoreError (String × Nat)) : Access ChildManifest :=
  if m.coldStorage.uri = "" then fail (.noUri m.id)
  else do
    fetchPacks m.coldStorage.uri get m.lowers
    .ok (recalledManifest m h.hotDir h.stamp)

/-- `_ensure_hot`. -/
def ensureHot (m : ChildManifest) : Access ChildManifest :=
  if !needsRecall m h.isFile then markAccessedOn h m
  else if h.coldLockHeld then fail (.lockHeld h.coldLock)
  else
    match h.reread with
    | none => .error .keyError
    | some m =>
      if !needsRecall m h.isFile then markAccessedOn h m
      else
        match h.store with
        | none => fail .notConfigured
        | some get =>
          if !h.knownPath then fail (.manifestPath m.id) else recallColdStoragePacks h m get

/-! ## 6. The access -/

def privateMountpoint (m : ChildManifest) : Path := h.mountsDir ++ [safeNamespaceName m.id]

/-- **`prepare_manifest`, `mount_rw` and the status's mountpoint.** -/
def accessPrivate (m : ChildManifest) : Access (Option Path) := do
  match h.interrupted with
  | some e => .error (.os e)
  | none => do
    let m ← ensureHot h m
    mountRwUnlocked h m ("/" ++ relText (privateMountpoint h m))
    .ok (if h.unmounted then none else some (privateMountpoint h m))

end Reader

/-! ## 7. Which errors are taken for "no child" -/

/-- None of the four phrases can lie across the words of an error and a value quoted in it. -/
theorem pieces_apart (f : AccessFailure) :
    ∀ phrase ∈ fallbackTexts, Lib.Apart phrase.toList f.pieces := by
  unfold fallbackTexts
  simp only [List.forall_mem_cons, List.not_mem_nil, false_implies, implies_true, and_true]
  cases f with
  | missingTool tool =>
    cases tool <;> simp only [AccessFailure.pieces, words, Lib.Apart] <;> decide +kernel
  | commandFailed what code output =>
    cases what <;> simp only [AccessFailure.pieces, words, quoted, Lib.Apart] <;> decide +kernel
  | mount e =>
    cases e <;> simp only [AccessFailure.pieces, mountPieces, words, quoted, Lib.Apart] <;>
      decide +kernel
  | store e =>
    cases e <;> simp only [AccessFailure.pieces, storePieces, words, quoted, Lib.Apart] <;>
      decide +kernel
  | _ => simp only [AccessFailure.pieces, words, quoted, Lib.Apart]; decide +kernel

/-- A piece of a text with one of the four phrases in it. -/
def Confusing (c : Piece) : Prop := ∃ phrase ∈ fallbackTexts, phrase.toList <:+: c.items

instance (c : Piece) : Decidable (Confusing c) :=
  inferInstanceAs (Decidable (∃ phrase ∈ fallbackTexts, phrase.toList <:+: c.items))

/-- **An error is taken for "no child"** exactly when a piece of its text has one of the phrases. -/
theorem fallsBack_text_iff (f : AccessFailure) :
    FallsBack f.text ↔ ∃ c ∈ f.pieces, Confusing c := by
  have hphrase : ∀ phrase ∈ fallbackTexts,
      (HasText f.text phrase ↔ ∃ c ∈ f.pieces, phrase.toList <:+: c.items) := by
    intro phrase hphrase
    have hne : phrase.toList ≠ [] := by
      have hall : ∀ phrase ∈ fallbackTexts, phrase.toList ≠ [] := by decide +kernel
      exact hall phrase hphrase
    rw [← Lib.infix_flat_iff (pieces_apart f phrase hphrase) hne]
    unfold HasText AccessFailure.text
    rw [String.toList_ofList]
  constructor
  · rintro ⟨phrase, hmem, htext⟩
    obtain ⟨c, hc, hin⟩ := (hphrase phrase hmem).mp htext
    exact ⟨c, hc, phrase, hmem, hin⟩
  · rintro ⟨c, hc, phrase, hmem, hin⟩
    exact ⟨phrase, hmem, (hphrase phrase hmem).mpr ⟨c, hc, hin⟩⟩

end CccStorage.Observe
