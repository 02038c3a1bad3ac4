/-
  File:      CccStorage/SelectorRaces.lean
  Subject:   `handle_commit` and `handle_cold_archive` look their selector up two or three times,
             while other calls create, rename and remove children (`mountd/daemon.py`, `_find`).

  Every look-up reads the registry again, one file after the other, and takes the first child whose
  id, name or parent path the selector is. The lock is that of the child found before it was taken;
  what is sealed, built, published, archived or evicted is found after.

  * `SelectorPoint`, `selectorStep` -- where a call is, its next step, and what others change;
  * `Targets`, `OneChild` -- the children a call has checked, locked and changed;
  * `FindsAgain` -- a later look-up finds the child that the first one found;
  * `lockedIsChanged` -- in runs of such steps a call changes the child it has locked;
  * `renamedBetween` -- a commit that seals one child under the lock of another.
-/
import CccStorage.ColdRuns
import CccStorage.Lib.Dict
import CccStorage.Lib.Interleave
import CccStorage.ManagedParent
import CccStorage.StackRuns

namespace CccStorage

/-! ## 1. The registry and the calls -/

/-- A manifest file: the state root it is under, and its path there. -/
abbrev RegistryKey := Nat × Path

structure RegistryEntry where
  key : RegistryKey
  manifest : ChildManifest

/-- `children`, with the path and the root of each. -/
abbrev ChildrenMap := List (String × RegistryEntry)

/-- What all services see, and the mounts of each. -/
structure SharedNamespace where
  files : List (RegistryKey × ChildManifest)
  /-- The active upper of a child is dirty. -/
  dirty : String → Bool := fun _ => false
  /-- The base generation of a child's mirror, when it has something to commit. -/
  mirrors : String → Option Nat := fun _ => none
  mounts : Nat → String → Option MountMode := fun _ _ => none
  /-- The lock files, by state root and name. -/
  locks : List (Nat × String) := []

namespace SharedNamespace

def load (s : SharedNamespace) (key : RegistryKey) : Option ChildManifest := s.files.lookup key

/-- `sorted(registry_dir.rglob("*.toml"))`. -/
def filesOf (s : SharedNamespace) (root : Nat) : List RegistryKey :=
  ((s.files.map (·.1)).filter (·.1 = root)).insertionSort fun a b => a.2 ≤ b.2

/-- `dump_atomic`. -/
def dump (s : SharedNamespace) (key : RegistryKey) (m : ChildManifest) : SharedNamespace :=
  { s with files := Lib.dictSet s.files key m }

def unlink (s : SharedNamespace) (key : RegistryKey) : SharedNamespace :=
  { s with files := Lib.dictPop s.files key }

def release (s : SharedNamespace) (held : List (Nat × String)) : SharedNamespace :=
  { s with locks := s.locks.filter fun l => decide (l ∉ held) }

end SharedNamespace

/-- The child that `_find` takes: by id, or the first whose name or parent path it is. -/
def findChild (maps : ChildrenMap) (selector : String) : Option RegistryEntry :=
  match maps.lookup selector with
  | some e => some e
  | none =>
    (maps.find? fun x => selector = x.2.manifest.name ∨ selector = x.2.manifest.parentPath).map
      (·.2)

/-- What a reload is for. -/
inductive FindPoint where
  | commitFirst
  | commitSecond (path : WritePolicy)
  /-- Under the locks. -/
  | commitThird (path : WritePolicy)
  | afterPublish (id : String)
  | afterCompaction (id : String)
  | afterMirror (id : String)
  | archiveFirst (keepHot : Bool)
  | archiveSecond (keepHot : Bool)
  | afterArchive (id : String)
  deriving DecidableEq

inductive SelectorPoint where
  | idle
  /-- `reload_registry`: the roots and the files still to be read. -/
  | scan (find : FindPoint) (roots : List Nat) (todo : List RegistryKey) (maps : ChildrenMap)
  | checkMount (e : RegistryEntry)
  | dirtyCheck (path : WritePolicy) (e : RegistryEntry)
  | acquireWriter (e : RegistryEntry)
  | acquireCommit (path : WritePolicy) (e : RegistryEntry)
  | source (path : WritePolicy) (e : RegistryEntry)
  | build (path : WritePolicy) (e : RegistryEntry)
  | publish (path : WritePolicy) (e : RegistryEntry) (pack : PackInfo)
  | cleanMirror (e : RegistryEntry)
  | compact (e : RegistryEntry)
  | publishCompacted (e : RegistryEntry) (m : ChildManifest)
  | mirror (e : RegistryEntry)
  | acquireCold (keepHot : Bool) (e : RegistryEntry)
  | assertClean (keepHot : Bool) (e : RegistryEntry)
  | archive (keepHot : Bool) (e : RegistryEntry)
  | evict (e : RegistryEntry)
  | done

/-- Where a call has not begun, and where it has ended. -/
def SelectorPoint.isIdle : SelectorPoint → Bool
  | .idle => true
  | _ => false

def SelectorPoint.isDone : SelectorPoint → Bool
  | .done => true
  | _ => false

/-- **The children of a call**, by id: the first that it found, the one whose mount status it
    checked, whose policy chose the commit path, whose lock it took, and those it changed. -/
structure Targets where
  named : Option String := none
  checked : Option String := none
  policy : Option String := none
  locked : Option String := none
  changed : List String := []
  deriving DecidableEq

/-- One call. -/
structure SelectorCall where
  node : Nat := 0
  selector : String := ""
  targets : Targets := {}
  held : List (Nat × String) := []
  point : SelectorPoint := .idle

namespace SelectorCall

def goes (c : SelectorCall) (p : SelectorPoint) : SelectorCall := { c with point := p }

def finds (c : SelectorCall) (id : String) : SelectorCall :=
  { c with targets := { c.targets with named := some id } }

/-- The mount status and the write policy are read. -/
def checks (c : SelectorCall) (id : String) : SelectorCall :=
  { c with targets := { c.targets with checked := some id } }

def follows (c : SelectorCall) (id : String) : SelectorCall :=
  { c with targets := { c.targets with policy := some id } }

def holds (c : SelectorCall) (lock : Nat × String) : SelectorCall :=
  { c with held := lock :: c.held }

/-- The commit or cold lock of a child. -/
def takes (c : SelectorCall) (id : String) (lock : Nat × String) : SelectorCall :=
  { c.holds lock with targets := { c.targets with locked := some id } }

def changes (c : SelectorCall) (id : String) : SelectorCall :=
  { c with targets := { c.targets with changed := c.targets.changed ++ [id] } }

end SelectorCall

/-- What the builders and the clock answer to a step. -/
structure SelectorAnswer where
  built : BuiltFile := { sha256 := "", size := 0 }
  stamp : String := ""

/-- How the services are configured: for each node the state roots it scans. -/
structure SelectorServices where
  cfg : Nat → ChildManifest → NodeConfig
  roots : Nat → List Nat
  /-- `str.strip`. -/
  strip : String → String

inductive SelectorAct where
  | handleCommit (node : Nat) (selector : String)
  | handleColdArchive (node : Nat) (selector : String) (keepHot : Bool)
  | step (a : SelectorAnswer)
  /-- The call raises. -/
  | fail
  /-- A create, a rename, an observed mkdir or an observed rename writes a manifest. -/
  | write (key : RegistryKey) (m : ChildManifest)
  /-- A rename or a removal takes one away. -/
  | unlink (key : RegistryKey)
  /-- Applications write, publishers publish, and children are mounted and unmounted. -/
  | setDirty (id : String) (dirty : Bool)
  | setMirror (id : String) (base : Option Nat)
  | setMount (node : Nat) (id : String) (mode : Option MountMode)

/-! ## 2. The next step of a call -/

section Steps

variable (v : SelectorServices)

def lockFile (e : RegistryEntry) (suffix : String) : Nat × String :=
  (e.key.1, safeNamespaceName e.manifest.id ++ suffix)

/-- The start of `reload_registry`. -/
def SelectorCall.reload (c : SelectorCall) (find : FindPoint) : SelectorCall :=
  c.goes (.scan find (v.roots c.node) [] [])

/-- The call returns or raises: every `with` gives its lock back. -/
def SelectorCall.finish (s : SharedNamespace) (c : SelectorCall) : SharedNamespace × SelectorCall :=
  (s.release c.held, { c with held := [], point := .done })

/-- What follows a reload. -/
def afterReload (s : SharedNamespace) (c : SelectorCall) (maps : ChildrenMap) (find : FindPoint) :
    SharedNamespace × SelectorCall :=
  let found := findChild maps (v.strip c.selector)
  match find with
  | .commitFirst =>
    match found with
    | some e => (s, (c.finds e.manifest.id).goes (.checkMount e))
    | none => c.finish s
  | .commitSecond path =>
    match found with
    | some e => (s, c.goes (.dirtyCheck path e))
    | none => c.finish s
  | .commitThird path =>
    match found with
    | some e => (s, c.goes (.source path e))
    | none => c.finish s
  | .archiveFirst keepHot =>
    match found with
    | some e => (s, (c.finds e.manifest.id).goes (.acquireCold keepHot e))
    | none => c.finish s
  | .archiveSecond keepHot =>
    match found with
    | some e => (s, c.goes (.assertClean keepHot e))
    | none => c.finish s
  | .afterPublish id =>
    match maps.lookup id with
    | some e => (s, c.goes (.compact e))
    | none => c.finish s
  | .afterCompaction id =>
    match maps.lookup id with
    | some e => (s, c.goes (.mirror e))
    | none => c.finish s
  -- the status of the child
  | .afterMirror _ | .afterArchive _ => c.finish s

/-- **The next step of a call.** -/
def lookupStep (s : SharedNamespace) (c : SelectorCall) (a : SelectorAnswer) :
    Option (SharedNamespace × SelectorCall) :=
  match c.point with
  | .idle | .done => none
  | .scan find roots (key :: todo) maps =>
    match s.load key with
    | some m =>
      some (s, c.goes (.scan find roots todo (Lib.dictSet maps m.id { key := key, manifest := m })))
    -- a file that is gone, or does not load, is passed over
    | none => some (s, c.goes (.scan find roots todo maps))
  | .scan find (root :: roots) [] maps =>
    some (s, c.goes (.scan find roots (s.filesOf root) maps))
  | .scan find [] [] maps => some (afterReload v s c maps find)
  | .checkMount e =>
    let c := (c.checks e.manifest.id).follows e.manifest.id
    if s.mounts c.node e.manifest.id = some .rw then some (c.finish s)
    else some (s, c.reload v (.commitSecond e.manifest.writePolicy))
  | .dirtyCheck .sharedNfs e =>
    if s.dirty e.manifest.id then some (s, c.goes (.acquireCommit .sharedNfs e))
    else some (c.finish s)
  | .dirtyCheck .localSsdAsync e =>
    if (s.mirrors e.manifest.id).isSome then some (s, c.goes (.acquireWriter e))
    else some (c.finish s)
  | .acquireWriter e =>
    let lock := lockFile e ".local-writer.lock"
    if lock ∈ s.locks then some (c.finish s)
    else some ({ s with locks := lock :: s.locks },
      (c.holds lock).goes (.acquireCommit .localSsdAsync e))
  | .acquireCommit path e =>
    let lock := lockFile e ".commit.lock"
    if lock ∈ s.locks then some (c.finish s)
    else some ({ s with locks := lock :: s.locks },
      (c.takes e.manifest.id lock).reload v (.commitThird path))
  | .source .sharedNfs e =>
    -- the active upper is sealed
    some ({ s with dirty := Function.update s.dirty e.manifest.id false },
      (c.changes e.manifest.id).goes (.build .sharedNfs e))
  | .source .localSsdAsync e =>
    if s.mirrors e.manifest.id = some e.manifest.generation then
      some (s, c.goes (.build .localSsdAsync e))
    else some (c.finish s)
  | .build path e =>
    some (s, (c.changes e.manifest.id).goes
      (.publish path e (deltaPack (v.cfg c.node e.manifest) (e.manifest.generation + 1) a.built)))
  | .publish .sharedNfs e pack =>
    some (s.dump e.key (committedManifest
      (v.cfg c.node e.manifest) e.manifest pack "shared-overlay"),
      (c.changes e.manifest.id).reload v (.afterPublish e.manifest.id))
  | .publish .localSsdAsync e pack =>
    some (s.dump e.key (committedManifest
      (v.cfg c.node e.manifest) e.manifest pack "local-ssd-async"),
      (c.changes e.manifest.id).goes (.cleanMirror e))
  | .cleanMirror e =>
    some ({ s with mirrors := Function.update s.mirrors e.manifest.id none },
      c.reload v (.afterPublish e.manifest.id))
  | .compact e =>
    match postCommitCandidate (v.cfg c.node e.manifest) e.manifest with
    | none => some (s, c.goes (.mirror e))
    | some candidate =>
      match mergedManifest e.manifest candidate
          (compactedPack (v.cfg c.node e.manifest) e.manifest candidate a.built) with
      | none => some ((c.changes e.manifest.id).finish s)
      | some m => some (s, (c.changes e.manifest.id).goes (.publishCompacted e m))
  | .publishCompacted e m =>
    some (s.dump e.key m, (c.changes e.manifest.id).reload v (.afterCompaction e.manifest.id))
  | .mirror e =>
    let cfg := v.cfg c.node e.manifest
    if cfg.mirrorAfterCommit then
      some (s.dump e.key (mirroredManifest e.manifest (cfg.coldPrefix e.manifest.generation)
          cfg.backend a.stamp),
        (c.changes e.manifest.id).reload v (.afterMirror e.manifest.id))
    else some (c.finish s)
  | .acquireCold keepHot e =>
    let lock := lockFile e ".cold.lock"
    if lock ∈ s.locks then some (c.finish s)
    else some ({ s with locks := lock :: s.locks },
      (c.takes e.manifest.id lock).reload v (.archiveSecond keepHot))
  | .assertClean keepHot e =>
    let c := c.checks e.manifest.id
    if s.dirty e.manifest.id then some (c.finish s)
    else if !keepHot && (s.mounts c.node e.manifest.id).isSome then some (c.finish s)
    else some (s, c.goes (.archive keepHot e))
  | .archive keepHot e =>
    let cfg := v.cfg c.node e.manifest
    let s := s.dump e.key (archivedManifest e.manifest (cfg.coldPrefix e.manifest.generation)
      (!keepHot) cfg.backend a.stamp)
    if keepHot then some (s, (c.changes e.manifest.id).reload v (.afterArchive e.manifest.id))
    else some (s, (c.changes e.manifest.id).goes (.evict e))
  | .evict e =>
    some (s, (c.changes e.manifest.id).reload v (.afterArchive e.manifest.id))

/-- **What one thread does next**, or what others do in between. -/
def selectorStep (s : SharedNamespace) (c : SelectorCall) :
    SelectorAct → Option (SharedNamespace × SelectorCall)
  | .handleCommit node selector =>
    if c.point.isIdle then
      some (s, ({ node := node, selector := selector } : SelectorCall).reload v .commitFirst)
    else none
  | .handleColdArchive node selector keepHot =>
    if c.point.isIdle then
      some (s, ({ node := node, selector := selector } : SelectorCall).reload v
        (.archiveFirst keepHot))
    else none
  | .step a => lookupStep v s c a
  | .fail => if c.point.isIdle || c.point.isDone then none else some (c.finish s)
  | .write key m => some (s.dump key m, c)
  | .unlink key => some (s.unlink key, c)
  | .setDirty id dirty => some ({ s with dirty := Function.update s.dirty id dirty }, c)
  | .setMirror id base => some ({ s with mirrors := Function.update s.mirrors id base }, c)
  | .setMount node id mode =>
    let mounts := Function.update (s.mounts node) id mode
    some ({ s with mounts := Function.update s.mounts node mounts }, c)

end Steps

/-- **The child that is changed is the child that is locked**, whose write policy chose the path of
    a commit, and whose mount status was checked. -/
def Targets.OneChild (t : Targets) : Prop :=
  ∀ id ∈ t.changed, t.locked = some id ∧ t.checked = some id ∧ ∀ p ∈ t.policy, p = id

abbrev SelectorThreads (n : Nat) := Lib.Threads n SharedNamespace SelectorCall

abbrev SelectorRun {n : Nat} (v : SelectorServices) :
    SelectorThreads n → List (Lib.Trans (SelectorThreads n) (Fin n × SelectorAct)) →
      SelectorThreads n → Prop :=
  Lib.Interleaving (selectorStep v)

/-- The look-ups after the first. -/
def FindPoint.again : FindPoint → Bool
  | .commitSecond _ | .commitThird _ | .archiveSecond _ => true
  | _ => false

/-- **The condition**: when a registry has been read for a look-up after the first, the selector is
    in it the child that the first found, or none. -/
def SelectorCall.FindsAgain (v : SelectorServices) (c : SelectorCall) : SelectorPoint → Prop
  | .scan find [] [] maps =>
    find.again = true → ∀ e ∈ findChild maps (v.strip c.selector),
      c.targets.named = some e.manifest.id
  | _ => True

def FindsAgain {n : Nat} (v : SelectorServices) (s : SelectorThreads n)
    (e : Fin n × SelectorAct) : Prop := (s.pc e.1).FindsAgain v (s.pc e.1).point

/-! ## 3. What a call knows of its child -/

/-- Every entry is under its own id. -/
def OwnIds (maps : ChildrenMap) : Prop := ∀ id e, maps.lookup id = some e → e.manifest.id = id

/-- A commit has checked its child, and has locked and changed none. -/
def Targets.Checked (t : Targets) (id : String) : Prop :=
  t.named = some id ∧ t.checked = some id ∧ t.policy = some id ∧ t.changed = []

/-- A call has locked its child, and changed no other. -/
def Targets.Locked (t : Targets) (id : String) : Prop :=
  t.named = some id ∧ t.checked = some id ∧ t.locked = some id ∧ (∀ p ∈ t.policy, p = id) ∧
    ∀ x ∈ t.changed, x = id

/-- An archival has locked its child, and not checked it yet. -/
def Targets.LockedFirst (t : Targets) (id : String) : Prop :=
  t.named = some id ∧ t.locked = some id ∧ t.policy = none ∧ t.changed = []

/-- What is known while the registry is read. -/
def Targets.AtFind (t : Targets) : FindPoint → Prop
  | .commitFirst | .archiveFirst _ => t.policy = none ∧ t.changed = []
  | .commitSecond _ => ∃ id, t.Checked id
  | .commitThird _ => ∃ id, t.Locked id
  | .archiveSecond _ => ∃ id, t.LockedFirst id
  | .afterPublish id | .afterCompaction id | .afterMirror id | .afterArchive id => t.Locked id

/-- **What is known at each point.** -/
def Targets.At (t : Targets) : SelectorPoint → Prop
  | .idle => t.changed = []
  | .scan find _ _ maps => OwnIds maps ∧ t.AtFind find
  | .checkMount e => t.named = some e.manifest.id ∧ t.changed = []
  | .dirtyCheck _ e | .acquireWriter e | .acquireCommit _ e => t.Checked e.manifest.id
  | .source _ e | .build _ e | .publish _ e _ | .cleanMirror e | .compact e
  | .publishCompacted e _ | .mirror e | .archive _ e | .evict e => t.Locked e.manifest.id
  | .acquireCold _ e => t.named = some e.manifest.id ∧ t.policy = none ∧ t.changed = []
  | .assertClean _ e => t.LockedFirst e.manifest.id
  | .done => t.OneChild

section Points

variable {v : SelectorServices} {s u : SharedNamespace} {c d : SelectorCall} {t : Targets}
  {id : String} {e : RegistryEntry} {maps : ChildrenMap} {a : SelectorAnswer}

theorem Targets.Locked.oneChild (h : t.Locked id) : t.OneChild := by
  obtain ⟨-, hchecked, hlocked, hpolicy, hchanged⟩ := h
  intro x hx
  rw [hchanged x hx]
  exact ⟨hlocked, hchecked, hpolicy⟩

theorem Targets.oneChild_of_nil (h : t.changed = []) : t.OneChild := by
  intro x hx
  rw [h] at hx
  cases hx

/-- At every point the call has changed no child but the one it has locked. -/
theorem Targets.At.oneChild {p : SelectorPoint} (h : t.At p) : t.OneChild := by
  cases p with
  | idle => exact Targets.oneChild_of_nil h
  | scan find roots todo maps =>
      obtain ⟨-, h⟩ := h
      cases find with
      | commitFirst | archiveFirst => exact Targets.oneChild_of_nil h.2
      | commitSecond =>
          obtain ⟨id, h⟩ := h
          exact Targets.oneChild_of_nil h.2.2.2
      | commitThird =>
          obtain ⟨id, h⟩ := h
          exact Targets.Locked.oneChild h
      | archiveSecond =>
          obtain ⟨id, h⟩ := h
          exact Targets.oneChild_of_nil h.2.2.2
      | afterPublish | afterCompaction | afterMirror | afterArchive =>
          exact Targets.Locked.oneChild h
  | checkMount => exact Targets.oneChild_of_nil h.2
  | dirtyCheck | acquireWriter | acquireCommit => exact Targets.oneChild_of_nil h.2.2.2
  | source | build | publish | cleanMirror | compact | publishCompacted | mirror | archive
  | evict =>
      exact Targets.Locked.oneChild h
  | acquireCold => exact Targets.oneChild_of_nil h.2.2
  | assertClean => exact Targets.oneChild_of_nil h.2.2.2
  | done => exact h

/-- A child is changed again. -/
theorem Targets.Locked.changes (h : c.targets.Locked id) : (c.changes id).targets.Locked id := by
  obtain ⟨hnamed, hchecked, hlocked, hpolicy, hchanged⟩ := h
  refine ⟨hnamed, hchecked, hlocked, hpolicy, fun x hx => ?_⟩
  rcases List.mem_append.mp hx with hx | hx
  · exact hchanged x hx
  · exact List.mem_singleton.mp hx

/-- A file is read. -/
theorem OwnIds.read (h : OwnIds maps) (key : RegistryKey) (m : ChildManifest) :
    OwnIds (Lib.dictSet maps m.id { key := key, manifest := m }) := by
  intro id e he
  rw [Lib.lookup_dictSet] at he
  by_cases hid : id = m.id
  · rw [if_pos hid, Option.some.injEq] at he
    rw [← he, hid]
  · rw [if_neg hid] at he
    exact h id e he

theorem ownIds_nil : OwnIds [] := fun _ _ h => by cases h

/-- The start of a reload. -/
theorem at_reload {find : FindPoint} (h : c.targets.AtFind find) :
    (c.reload v find).targets.At (c.reload v find).point := ⟨ownIds_nil, h⟩

/-- A call that ends has changed what it has. -/
theorem at_finish (h : c.targets.OneChild) : (c.finish s).2.targets.At (c.finish s).2.point := h

/-- **What a look-up finds** is what is known of the child. -/
theorem afterReload_at {find : FindPoint} (hmaps : OwnIds maps) (hknown : c.targets.AtFind find)
    (hagain : find.again = true → ∀ e ∈ findChild maps (v.strip c.selector),
      c.targets.named = some e.manifest.id) :
    (afterReload v s c maps find).2.targets.At (afterReload v s c maps find).2.point := by
  have hend : ∀ find', c.targets.AtFind find' → c.targets.OneChild := by
    intro find' h
    have hpoint : c.targets.At (.scan find' [] [] maps) := ⟨hmaps, h⟩
    exact hpoint.oneChild
  unfold afterReload
  cases find with
  | commitFirst =>
      cases hfound : findChild maps (v.strip c.selector) with
      | none => exact at_finish (hend _ hknown)
      | some e => exact ⟨rfl, hknown.2⟩
  | archiveFirst keepHot =>
      cases hfound : findChild maps (v.strip c.selector) with
      | none => exact at_finish (hend _ hknown)
      | some e => exact ⟨rfl, hknown.1, hknown.2⟩
  | commitSecond path =>
      cases hfound : findChild maps (v.strip c.selector) with
      | none => exact at_finish (hend _ hknown)
      | some e =>
          obtain ⟨id, hnamed, hrest⟩ := hknown
          have hid := hagain rfl e hfound
          rw [hnamed, Option.some.injEq] at hid
          rw [hid] at hnamed hrest
          exact ⟨hnamed, hrest⟩
  | commitThird path =>
      cases hfound : findChild maps (v.strip c.selector) with
      | none => exact at_finish (hend _ hknown)
      | some e =>
          obtain ⟨id, hnamed, hrest⟩ := hknown
          have hid := hagain rfl e hfound
          rw [hnamed, Option.some.injEq] at hid
          rw [hid] at hnamed hrest
          exact ⟨hnamed, hrest⟩
  | archiveSecond keepHot =>
      cases hfound : findChild maps (v.strip c.selector) with
      | none => exact at_finish (hend _ hknown)
      | some e =>
          obtain ⟨id, hnamed, hrest⟩ := hknown
          have hid := hagain rfl e hfound
          rw [hnamed, Option.some.injEq] at hid
          rw [hid] at hnamed hrest
          exact ⟨hnamed, hrest⟩
  | afterPublish id =>
      simp only
      cases hfound : maps.lookup id with
      | none => exact at_finish (hend _ hknown)
      | some e =>
          show c.targets.Locked e.manifest.id
          rw [hmaps id e hfound]
          exact hknown
  | afterCompaction id =>
      simp only
      cases hfound : maps.lookup id with
      | none => exact at_finish (hend _ hknown)
      | some e =>
          show c.targets.Locked e.manifest.id
          rw [hmaps id e hfound]
          exact hknown
  | afterMirror id => exact at_finish (hend _ hknown)
  | afterArchive id => exact at_finish (hend _ hknown)

/-- **A step of a call** keeps what is known. -/
theorem lookupStep_at (hc : c.targets.At c.point) (hagain : c.FindsAgain v c.point)
    (h : lookupStep v s c a = some (u, d)) : d.targets.At d.point := by
  have hone := hc.oneChild
  unfold lookupStep at h
  cases hp : c.point with
  | idle | done =>
      rw [hp] at h
      cases h
  | scan find roots todo maps =>
      rw [hp] at h hc hagain
      obtain ⟨hmaps, hknown⟩ := hc
      cases todo with
      | cons key todo =>
          simp only at h
          cases hload : s.load key with
          | some m =>
              rw [hload] at h
              cases h
              exact ⟨hmaps.read key m, hknown⟩
          | none =>
              rw [hload] at h
              cases h
              exact ⟨hmaps, hknown⟩
      | nil =>
          cases roots with
          | cons root roots =>
              cases h
              exact ⟨hmaps, hknown⟩
          | nil =>
              have hafter := afterReload_at (v := v) (s := s) hmaps hknown hagain
              simp only [Option.some.injEq] at h
              rw [h] at hafter
              exact hafter
  | checkMount e =>
      rw [hp] at h hc
      obtain ⟨hnamed, hchanged⟩ := hc
      simp only at h
      split at h
      · cases h
        exact Targets.oneChild_of_nil hchanged
      · cases h
        exact at_reload ⟨_, hnamed, rfl, rfl, hchanged⟩
  | dirtyCheck path e =>
      rw [hp] at h hc
      cases path with
      | sharedNfs =>
          simp only at h
          split at h
          · cases h
            exact hc
          · cases h
            exact hone
      | localSsdAsync =>
          simp only at h
          split at h
          · cases h
            exact hc
          · cases h
            exact hone
  | acquireWriter e =>
      rw [hp] at h hc
      simp only at h
      split at h
      · cases h
        exact hone
      · cases h
        exact hc
  | acquireCommit path e =>
      rw [hp] at h hc
      obtain ⟨hnamed, hchecked, hpolicy, hchanged⟩ := hc
      simp only at h
      split at h
      · cases h
        exact hone
      · cases h
        refine at_reload ⟨_, hnamed, hchecked, rfl, fun p hpol => ?_, fun x hx => ?_⟩
        · change p ∈ c.targets.policy at hpol
          rw [hpolicy] at hpol
          exact (Option.mem_some_iff.mp hpol).symm
        · change x ∈ c.targets.changed at hx
          rw [hchanged] at hx
          cases hx
  | source path e =>
      rw [hp] at h hc
      cases path with
      | sharedNfs =>
          cases h
          exact Targets.Locked.changes hc
      | localSsdAsync =>
          simp only at h
          split at h
          · cases h
            exact hc
          · cases h
            exact hone
  | build path e =>
      rw [hp] at h hc
      cases h
      exact Targets.Locked.changes hc
  | publish path e pack =>
      rw [hp] at h hc
      cases path with
      | sharedNfs =>
          cases h
          exact at_reload (Targets.Locked.changes hc)
      | localSsdAsync =>
          cases h
          exact Targets.Locked.changes hc
  | cleanMirror e =>
      rw [hp] at h hc
      cases h
      exact at_reload hc
  | compact e =>
      rw [hp] at h hc
      simp only at h
      split at h
      · cases h
        exact hc
      · split at h
        · cases h
          exact Targets.Locked.oneChild (Targets.Locked.changes hc)
        · cases h
          exact Targets.Locked.changes hc
  | publishCompacted e m =>
      rw [hp] at h hc
      cases h
      exact at_reload (Targets.Locked.changes hc)
  | mirror e =>
      rw [hp] at h hc
      simp only at h
      split at h
      · cases h
        exact at_reload (Targets.Locked.changes hc)
      · cases h
        exact hone
  | acquireCold keepHot e =>
      rw [hp] at h hc
      obtain ⟨hnamed, hpolicy, hchanged⟩ := hc
      simp only at h
      split at h
      · cases h
        exact hone
      · cases h
        exact at_reload ⟨_, hnamed, rfl, hpolicy, hchanged⟩
  | assertClean keepHot e =>
      rw [hp] at h hc
      obtain ⟨hnamed, hlocked, hpolicy, hchanged⟩ := hc
      have hnone := Targets.oneChild_of_nil (t := (c.checks e.manifest.id).targets) hchanged
      simp only at h
      split at h
      · cases h
        exact hnone
      · split at h
        · cases h
          exact hnone
        · cases h
          refine ⟨hnamed, rfl, hlocked, fun p hpol => ?_, fun x hx => ?_⟩
          · change p ∈ c.targets.policy at hpol
            rw [hpolicy] at hpol
            cases hpol
          · change x ∈ c.targets.changed at hx
            rw [hchanged] at hx
            cases hx
  | archive keepHot e =>
      rw [hp] at h hc
      simp only at h
      split at h
      · cases h
        exact at_reload (Targets.Locked.changes hc)
      · cases h
        exact Targets.Locked.changes hc
  | evict e =>
      rw [hp] at h hc
      cases h
      exact at_reload (Targets.Locked.changes hc)

theorem selectorStep_at {act : SelectorAct} (hc : c.targets.At c.point)
    (hagain : c.FindsAgain v c.point) (h : selectorStep v s c act = some (u, d)) :
    d.targets.At d.point := by
  cases act with
  | handleCommit node selector | handleColdArchive node selector keepHot =>
      unfold selectorStep at h
      simp only at h
      split at h
      · cases h
        exact at_reload ⟨rfl, rfl⟩
      · cases h
  | step a => exact lookupStep_at hc hagain h
  | fail =>
      unfold selectorStep at h
      simp only at h
      split at h
      · cases h
      · cases h
        exact hc.oneChild
  | write key m | unlink key | setDirty id dirty | setMirror id base | setMount node id mode =>
      cases h
      exact hc

end Points

/-! ## 4. Runs -/

/-- The calls know their children, each for itself. -/
def selectorOutline : Lib.Outline SharedNamespace SelectorCall where
  inv _ := True
  point _ c := c.targets.At c.point
  apart _ _ := True
  symm _ _ _ := trivial

/-- Before any call. -/
def SelectorThreads.start (n : Nat) (s : SharedNamespace) : SelectorThreads n where
  shared := s
  pc := fun _ => {}

/-- **The child that is locked is the child that is changed**,
  in every state of a run in which every
    later look-up of a call finds the child of its first. -/
theorem lockedIsChanged {n : Nat} {v : SelectorServices} {s : SharedNamespace}
    {tr : List (Lib.Trans (SelectorThreads n) (Fin n × SelectorAct))} {t : SelectorThreads n}
    (hrun : SelectorRun v (.start n s) tr t) (hagain : ∀ x ∈ tr, FindsAgain v x.pre x.ev) :
    (∀ i, (t.pc i).targets.OneChild) ∧
      ∀ x ∈ tr, ∀ i, (x.pre.pc i).targets.OneChild ∧ (x.post.pc i).targets.OneChild := by
  have hstart : selectorOutline.Holds (SelectorThreads.start n s) :=
    ⟨trivial, fun _ => rfl, fun _ _ _ => trivial⟩
  obtain ⟨hlast, hall⟩ := selectorOutline.run hrun hstart
    (fun b e u p hb hg hstep => ⟨trivial, selectorStep_at (hb.point e.1) hg hstep,
      fun j _ => hb.point j, fun _ _ => trivial⟩) hagain
  refine ⟨fun i => Targets.At.oneChild (hlast.point i), fun x hx i => ?_⟩
  obtain ⟨hpre, hpost⟩ := hall x hx
  exact ⟨Targets.At.oneChild (hpre.point i), Targets.At.oneChild (hpost.point i)⟩

/-! ## 5. Two renames between two look-ups -/

instance (v : SelectorServices) (c : SelectorCall) : (p : SelectorPoint) →
    Decidable (c.FindsAgain v p)
  | .scan find [] [] maps =>
    inferInstanceAs (Decidable (find.again = true → ∀ e ∈ findChild maps (v.strip c.selector),
      c.targets.named = some e.manifest.id))
  | .scan _ (_ :: _) _ _ | .scan _ [] (_ :: _) _ => isTrue trivial
  | .idle | .checkMount _ | .dirtyCheck _ _ | .acquireWriter _ | .acquireCommit _ _ | .source _ _
  | .build _ _ | .publish _ _ _ | .cleanMirror _ | .compact _ | .publishCompacted _ _ | .mirror _
  | .acquireCold _ _ | .assertClean _ _ | .archive _ _ | .evict _ | .done => isTrue trivial

instance {n : Nat} (v : SelectorServices) (s : SelectorThreads n) (e : Fin n × SelectorAct) :
    Decidable (FindsAgain v s e) :=
  inferInstanceAs (Decidable ((s.pc e.1).FindsAgain v (s.pc e.1).point))

instance (t : Targets) : Decidable t.OneChild :=
  inferInstanceAs (Decidable (∀ id ∈ t.changed, t.locked = some id ∧ t.checked = some id ∧
    ∀ p ∈ t.policy, p = id))

/-- One node, and one state root. -/
def oneRoot : SelectorServices where
  cfg _ m := {
    levelPolicy := .default
    packDir := "/nfs/packs/" ++ safeNamespaceName m.id
    activeUpper := "/nfs/overlays/" ++ safeNamespaceName m.id ++ "/active-upper"
    coldPrefix := fun g => "children/" ++ m.id ++ "/g" ++ padTo 6 g }
  roots _ := [0]
  strip selector := selector

def fileOf (name : String) : RegistryKey := (0, ["dataset", name ++ ".toml"])

/-- Two dirty children `a` and `b`. -/
def twoDirtyChildren : SharedNamespace where
  files := [(fileOf "a", newManifest datasetParent "a"),
    (fileOf "b", newManifest datasetParent "b")]
  dirty := fun _ => true

def committer : Fin 2 := ⟨0, Nat.two_pos⟩

def renamer : Fin 2 := ⟨1, Nat.one_lt_two⟩

/-- `rename_child`: the new file, and then the old one away. -/
def renameSteps (m : ChildManifest) (oldName newName : String) : List (Fin 2 × SelectorAct) :=
  [(renamer, .write (fileOf newName) (renamedManifest datasetParent m newName)),
    (renamer, .unlink (fileOf oldName))]

/-- A commit up to its lock, the renames of `a` to `c` and of `b` to `a`, and the rest up to the
    seal. -/
def renamedBetween (selector : String) : List (Fin 2 × SelectorAct) :=
  (committer, .handleCommit 0 selector) :: List.replicate 11 (committer, .step {}) ++
    renameSteps (newManifest datasetParent "a") "a" "c" ++
    renameSteps (newManifest datasetParent "b") "b" "a" ++
    List.replicate 5 (committer, .step {})

def selectorTrace (es : List (Fin 2 × SelectorAct)) :
    List (Lib.Trans (SelectorThreads 2) (Fin 2 × SelectorAct)) :=
  Lib.trace (fun s e => s.next (selectorStep oneRoot) e) (.start 2 twoDirtyChildren) es

theorem selectorTrace_run (es : List (Fin 2 × SelectorAct)) :
    ∃ t, SelectorRun oneRoot (.start 2 twoDirtyChildren) (selectorTrace es) t :=
  Lib.Run.trace _ _ _

/-- Named by its id, the child stays the same. -/
theorem lockedIsChanged_byId : ∃ t,
    SelectorRun oneRoot (.start 2 twoDirtyChildren) (selectorTrace (renamedBetween "dataset:a")) t ∧
      (t.pc 0).targets.changed = ["dataset:a"] ∧ (t.pc 0).targets.OneChild := by
  obtain ⟨t, hrun⟩ := selectorTrace_run (renamedBetween "dataset:a")
  have hend : ∃ x ∈ (selectorTrace (renamedBetween "dataset:a")).getLast?,
      (x.post.pc 0).targets.changed = ["dataset:a"] := by decide +kernel
  obtain ⟨x, hx, hchanged⟩ := hend
  rw [← hrun.eq_post hx] at hchanged
  exact ⟨t, hrun, hchanged, (lockedIsChanged hrun (by decide +kernel)).1 0⟩

/-- **Named by its name**, the child that is sealed is another than the one that is locked. -/
theorem renamedBetween_breaks : ¬ ∀ (n : Nat) (v : SelectorServices) (s : SharedNamespace) tr t,
    SelectorRun v (SelectorThreads.start n s) tr t → ∀ i, (t.pc i).targets.OneChild := by
  intro h
  obtain ⟨t, hrun⟩ := selectorTrace_run (renamedBetween "a")
  have hend : ∃ x ∈ (selectorTrace (renamedBetween "a")).getLast?,
      ¬ (x.post.pc 0).targets.OneChild := by decide +kernel
  obtain ⟨x, hx, hother⟩ := hend
  rw [← hrun.eq_post hx] at hother
  exact hother (h 2 oneRoot twoDirtyChildren _ t hrun 0)

end CccStorage
