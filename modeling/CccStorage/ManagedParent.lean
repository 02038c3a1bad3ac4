/-
  File:      CccStorage/ManagedParent.lean
  Subject:   The managed parent's namespace (`mountd/managed_parent.py`): children as manifest
             files under `children_dir`, with their overlays and mounts.

  * `ParentState` -- the manifest files by stem, the active uppers by overlay root, the mount
    records by id;
  * `createChild`, `renameChild`, `removeChild`, `accessChild`, `listChildren` -- the operations;
  * `idsUnique_iff` -- over runs of successful operations from an empty registry, the ids of
    the children stay unique exactly when no name is created anew while the child first created
    under it is still there under another name;
  * `reusedName_sharesOverlay` -- a name used twice.
-/
import CccStorage.Names
import CccStorage.Delta
import CccStorage.ColdRuns

namespace CccStorage

/-! ## 1. The state -/

/-- A live mount of `ChildMountManager`, by manifest id. -/
structure MountRecord where
  mountpoint : String
  mode : MountMode
  writePolicy : WritePolicy
  refcount : Nat
  deriving DecidableEq, Repr

/-- What a managed parent is configured with. `prepare` is `prepare_manifest`. -/
structure ParentConfig where
  parentId : String
  parentPath : String
  overlaysRoot : String
  mountsDir : String
  prepare : ChildManifest → ChildManifest := fun m => m
  prepare_id : ∀ m, (prepare m).id = m.id := by intro m; rfl
  /-- A recall moves packs; it neither adds nor drops one. -/
  prepare_nil : ∀ m, (prepare m).lowers = [] ↔ m.lowers = [] := by intro m; rfl

structure ParentState where
  /-- The files `<stem>.toml` of `children_dir`. -/
  files : List (String × ChildManifest) := []
  /-- The active upper under each overlay root. -/
  uppers : String → Option Tree := fun _ => none
  mounts : String → Option MountRecord := fun _ => none

/-- What `_status` returns. -/
structure ChildStatus where
  id : String
  name : String
  type : String
  parentPath : String
  generation : Nat
  state : String
  mounted : Bool
  mountpoint : String
  refcount : Nat
  activeUpper : String
  overlay : DirtyStats
  deriving DecidableEq, Repr

inductive MountError where
  | otherMountpoint (id mountpoint requested : String)
  | otherMode (id : String) (mode requested : MountMode)
  | otherPolicy (id : String) (policy requested : WritePolicy)
  | noLowers (id : String)
  deriving DecidableEq, Repr

inductive ParentError where
  | name (e : NameError)
  /-- `ChildExistsError`. -/
  | childExists (name parentPath : String)
  /-- `ChildNotFoundError`. -/
  | childNotFound (name parentPath : String)
  /-- The refusal of a committed child. -/
  | committed (name : String) (generation : Nat)
  /-- `ChildNotEmptyError`. -/
  | notEmpty (name : String) (fileCount : Nat)
  | mount (e : MountError)
  deriving DecidableEq, Repr

inductive ParentResult where
  | status (s : ChildStatus)
  | removed (id name : String)
  | names (names : List String)
  deriving DecidableEq, Repr

/-! ## 2. The operations -/

/-- `ChildMountManager.mount`: a live mount is shared when it is the one asked for. -/
def mountRo (live : Option MountRecord) (mountpoint : String) (m : ChildManifest) :
    Except MountError MountRecord :=
  match live with
  | some record =>
    if record.mountpoint ≠ mountpoint then
      .error (.otherMountpoint m.id record.mountpoint mountpoint)
    else if record.mode ≠ .ro then .error (.otherMode m.id record.mode .ro)
    else if record.writePolicy ≠ m.writePolicy then
      .error (.otherPolicy m.id record.writePolicy m.writePolicy)
    else .ok { record with refcount := record.refcount + 1 }
  | none =>
    if m.lowers = [] then .error (.noLowers m.id)
    else .ok { mountpoint := mountpoint, mode := .ro, writePolicy := m.writePolicy, refcount := 1 }

namespace ParentState

/-- `path.exists()` and `load_manifest(path)`. -/
def load (s : ParentState) (stem : String) : Option ChildManifest := s.files.lookup stem

/-- `dump_atomic(path, manifest)`. -/
def dump (s : ParentState) (stem : String) (m : ChildManifest) : ParentState :=
  { s with files := (stem, m) :: s.files.filter fun x => x.1 ≠ stem }

/-- `path.unlink()`. -/
def unlink (s : ParentState) (stem : String) : ParentState :=
  { s with files := s.files.filter fun x => x.1 ≠ stem }

/-- The files in the active upper of a child. -/
def upperOf (s : ParentState) (id : String) : Tree := (s.uppers (safeNamespaceName id)).getD ⟨[]⟩

/-- `ensure_active_upper`. -/
def ensureActiveUpper (s : ParentState) (id : String) : ParentState :=
  { s with uppers := Function.update s.uppers (safeNamespaceName id) (some (s.upperOf id)) }

/-- `shutil.rmtree(overlay_paths.root)`. -/
def removeOverlay (s : ParentState) (id : String) : ParentState :=
  { s with uppers := Function.update s.uppers (safeNamespaceName id) none }

end ParentState

section Operations

variable (cfg : ParentConfig)

def childId (name : String) : String := cfg.parentId ++ ":" ++ name

def activeUpperPath (id : String) : String :=
  cfg.overlaysRoot ++ "/" ++ safeNamespaceName id ++ "/active"

def mountpointPath (id : String) : String := cfg.mountsDir ++ "/" ++ safeNamespaceName id

/-- The status of a child with these files in its upper and this mount. -/
def childStatus (m : ChildManifest) (upper : Tree) (live : Option MountRecord) : ChildStatus where
  id := m.id
  name := m.name
  type := m.type
  parentPath := cfg.parentPath
  generation := m.generation
  state := if (dirtyStats upper).dirty then "dirty" else m.state
  mounted := live.isSome
  mountpoint := (live.map (·.mountpoint)).getD ""
  refcount := (live.map (·.refcount)).getD 0
  activeUpper := activeUpperPath cfg m.id
  overlay := dirtyStats upper

/-- `_status`, which makes sure that the active upper is there. -/
def status (s : ParentState) (m : ChildManifest) :
    ParentState × Except ParentError ParentResult :=
  (s.ensureActiveUpper m.id, .ok (.status (childStatus cfg m (s.upperOf m.id) (s.mounts m.id))))

/-- The manifest of a child just created. -/
def newManifest (name : String) : ChildManifest where
  id := childId cfg name
  name := name
  type := "dataset"
  generation := 0
  state := "clean"
  parentId := cfg.parentId
  parentPath := cfg.parentPath
  packStack := {}
  overlay := {
    mode := "shared-overlay"
    activeUpper := activeUpperPath cfg (childId cfg name)
    overlayGeneration := 0 }

/-- `create_child`; the create lock is free between calls. -/
def createChild (s : ParentState) (name : String) : ParentState × Except ParentError ParentResult :=
  match validateName name with
  | some e => (s, .error (.name e))
  | none =>
    if (s.load (safeName name)).isSome then (s, .error (.childExists name cfg.parentPath))
    else
      let manifest := newManifest cfg name
      status cfg ((s.ensureActiveUpper manifest.id).dump (safeName name) manifest) manifest

/-- The manifest a rename publishes: what it does not carry over is the default. -/
def renamedManifest (m : ChildManifest) (newName : String) : ChildManifest where
  id := m.id
  name := newName
  type := m.type
  generation := m.generation
  state := m.state
  schemaVersion := m.schemaVersion
  parentId := cfg.parentId
  parentPath := cfg.parentPath
  createdTs := m.createdTs
  packStack := m.packStack
  overlay := m.overlay
  coldStorage := m.coldStorage
  childBoundaries := m.childBoundaries

/-- `rename_child`. -/
def renameChild (s : ParentState) (oldName newName : String) :
    ParentState × Except ParentError ParentResult :=
  match validateName newName with
  | some e => (s, .error (.name e))
  | none =>
    match s.load (safeName oldName) with
    | none => (s, .error (.childNotFound oldName cfg.parentPath))
    | some manifest =>
      if (s.load (safeName newName)).isSome then
        (s, .error (.childExists newName cfg.parentPath))
      else
        let renamed := renamedManifest cfg manifest newName
        status cfg ((s.dump (safeName newName) renamed).unlink (safeName oldName)) renamed

/-- `remove_child`. -/
def removeChild (s : ParentState) (name : String) : ParentState × Except ParentError ParentResult :=
  match s.load (safeName name) with
  | none => (s, .error (.childNotFound name cfg.parentPath))
  | some manifest =>
    if manifest.generation > 0 ∨ manifest.lowers ≠ [] then
      (s, .error (.committed name manifest.generation))
    else if (dirtyStats (s.upperOf manifest.id)).dirty then
      (s, .error (.notEmpty name (dirtyStats (s.upperOf manifest.id)).fileCount))
    else
      ((s.unlink (safeName name)).removeOverlay manifest.id, .ok (.removed manifest.id name))

/-- `access_child`. -/
def accessChild (s : ParentState) (name : String) : ParentState × Except ParentError ParentResult :=
  match s.load (safeName name) with
  | none => (s, .error (.childNotFound name cfg.parentPath))
  | some m =>
    let manifest := cfg.prepare m
    match mountRo (s.mounts manifest.id) (mountpointPath cfg manifest.id) manifest with
    | .error e => (s, .error (.mount e))
    | .ok record =>
      status cfg { s with mounts := Function.update s.mounts manifest.id (some record) } manifest

/-- `sorted(names)`. -/
def sortedNames (names : List String) : List String := names.mergeSort fun a b => decide (a ≤ b)

/-- `list_children`: files whose name starts with a dot are temporary ones. -/
def listChildren (s : ParentState) : List String :=
  sortedNames <| s.files.filterMap fun x =>
    if ".".toList.isPrefixOf (x.1 ++ ".toml").toList then none
    else if isInternalName x.2.name then none
    else some x.2.name

end Operations

/-- The operations of the namespace. -/
inductive ParentOp where
  | create (name : ChildName)
  | rename (oldName newName : ChildName)
  | remove (name : ChildName)
  | access (name : ChildName)
  | list
  deriving DecidableEq

def parentStep (cfg : ParentConfig) (s : ParentState) :
    ParentOp → ParentState × Except ParentError ParentResult
  | .create name => createChild cfg s name.text
  | .rename oldName newName => renameChild cfg s oldName.text newName.text
  | .remove name => removeChild cfg s name.text
  | .access name => accessChild cfg s name.text
  | .list => (s, .ok (.names (listChildren s)))

/-! ## 3. What the operations do to the files -/

section Files

variable {cfg : ParentConfig} {s t : ParentState} {stem stem' : String} {m : ChildManifest}

theorem mem_of_load (h : s.load stem = some m) : (stem, m) ∈ s.files := by
  obtain ⟨l₁, l₂, hl, -⟩ := List.lookup_eq_some_iff.mp h
  rw [hl]
  exact List.mem_append_right _ List.mem_cons_self

theorem stem_ne_of_load_none (h : s.load stem = none) : ∀ x ∈ s.files, x.1 ≠ stem := by
  intro x hx heq
  exact Tree.lookup_ne_none.mpr (heq ▸ List.mem_map_of_mem hx) h

/-- Without a file of that name, a dump adds one. -/
theorem files_dump_new (h : s.load stem = none) (m : ChildManifest) :
    (s.dump stem m).files = (stem, m) :: s.files := by
  have hall : s.files.filter (fun x => decide (x.1 ≠ stem)) = s.files := by
    rw [List.filter_eq_self]
    exact fun x hx => decide_eq_true (stem_ne_of_load_none h x hx)
  unfold ParentState.dump
  rw [hall]

/-- **What a successful operation does to the files**: it adds the new child, moves a child to
    another name, takes one away with its overlay, or leaves them as they are. -/
inductive FilesChange (cfg : ParentConfig) (s t : ParentState) : ParentOp → Prop where
  | created (n : ChildName) (hfree : s.load (safeName n.text) = none)
      (hf : t.files = (safeName n.text, newManifest cfg n.text) :: s.files) :
      FilesChange cfg s t (.create n)
  | renamed (o n : ChildName) (m : ChildManifest) (hold : s.load (safeName o.text) = some m)
      (hfree : s.load (safeName n.text) = none)
      (hf : t.files = (safeName n.text, renamedManifest cfg m n.text) ::
        s.files.filter fun x => x.1 ≠ safeName o.text) : FilesChange cfg s t (.rename o n)
  | removed (n : ChildName) (m : ChildManifest) (hold : s.load (safeName n.text) = some m)
      (hf : t.files = s.files.filter fun x => x.1 ≠ safeName n.text)
      (hu : t.uppers = Function.update s.uppers (safeNamespaceName m.id) none) :
      FilesChange cfg s t (.remove n)
  | accessed (n : ChildName) (hf : t.files = s.files) : FilesChange cfg s t (.access n)
  | listed (hf : t.files = s.files) : FilesChange cfg s t .list

/-- The state after a successful call. -/
def parentNext (cfg : ParentConfig) (s : ParentState) (op : ParentOp) : Option ParentState :=
  match parentStep cfg s op with
  | (t, .ok _) => some t
  | (_, .error _) => none

theorem parentNext_eq_some {op : ParentOp} (h : parentNext cfg s op = some t) :
    ∃ r, parentStep cfg s op = (t, .ok r) := by
  unfold parentNext at h
  split at h
  · rename_i r hr
    cases h
    exact ⟨r, hr⟩
  · cases h

theorem filesChange_of_success {op : ParentOp} (h : parentNext cfg s op = some t) :
    FilesChange cfg s t op := by
  obtain ⟨r, h⟩ := parentNext_eq_some h
  cases op with
  | create n =>
    simp only [parentStep, createChild, n.valid] at h
    split at h
    · cases h
    · rename_i hfree
      rw [Option.not_isSome_iff_eq_none] at hfree
      unfold status at h
      cases h
      exact .created n hfree (files_dump_new (s := s.ensureActiveUpper _) hfree _)
  | rename o n =>
    simp only [parentStep, renameChild, n.valid] at h
    split at h
    · cases h
    · rename_i m hold
      split at h
      · cases h
      · rename_i hfree
        rw [Option.not_isSome_iff_eq_none] at hfree
        have hne : safeName n.text ≠ safeName o.text := by
          intro heq
          rw [heq, hold] at hfree
          cases hfree
        unfold status at h
        cases h
        refine .renamed o n m hold hfree ?_
        have hdump := files_dump_new hfree (renamedManifest cfg m n.text)
        unfold ParentState.ensureActiveUpper ParentState.unlink
        rw [hdump, List.filter_cons, if_pos (by simpa using hne)]
  | remove n =>
    simp only [parentStep, removeChild] at h
    split at h
    · cases h
    · rename_i m hold
      split at h
      · cases h
      · split at h
        · cases h
        · cases h
          exact .removed n m hold rfl rfl
  | access n =>
    simp only [parentStep, accessChild] at h
    split at h
    · cases h
    · split at h
      · cases h
      · unfold status at h
        cases h
        exact .accessed n rfl
  | list =>
    simp only [parentStep] at h
    cases h
    exact .listed rfl

end Files

/-! ## 4. Ids -/

/-- Where a child's data and its locks are, all named after its id. -/
structure ChildStores where
  overlayRoot : String
  packDir : String
  mountpoint : String
  commitLock : String
  coldLock : String
  writerLock : String

def childStores (id : String) : ChildStores where
  overlayRoot := safeNamespaceName id
  packDir := safeNamespaceName id
  mountpoint := safeNamespaceName id
  commitLock := safeNamespaceName id ++ ".commit.lock"
  coldLock := safeNamespaceName id ++ ".cold.lock"
  writerLock := safeNamespaceName id ++ ".local-writer.lock"

/-- No store is shared. -/
structure ChildStores.Apart (a b : ChildStores) : Prop where
  overlayRoot : a.overlayRoot ≠ b.overlayRoot
  packDir : a.packDir ≠ b.packDir
  mountpoint : a.mountpoint ≠ b.mountpoint
  commitLock : a.commitLock ≠ b.commitLock
  coldLock : a.coldLock ≠ b.coldLock
  writerLock : a.writerLock ≠ b.writerLock

theorem childStores_apart {a b : String} (ha : a ≠ "") (hb : b ≠ "") (h : a ≠ b) :
    (childStores a).Apart (childStores b) := by
  have hroot : safeNamespaceName a ≠ safeNamespaceName b :=
    fun heq => h (safeNamespaceName_inj ha hb heq)
  have hlock : ∀ suffix, safeNamespaceName a ++ suffix ≠ safeNamespaceName b ++ suffix := by
    intro suffix heq
    rw [← String.toList_inj, String.toList_append, String.toList_append,
      List.append_cancel_right_eq, String.toList_inj] at heq
    exact hroot heq
  exact ⟨hroot, hroot, hroot, hlock _, hlock _, hlock _⟩

/-- **No two children have the same id**, and none share a store. -/
def IdsUnique (s : ParentState) : Prop :=
  s.files.Pairwise fun x y =>
    x.2.id ≠ y.2.id ∧ (childStores x.2.id).Apart (childStores y.2.id)

/-- What a transition should keep: unique ids after it, and when it removes a child, the overlays
    of all that remain. -/
structure OwnStores (x : Lib.Trans ParentState ParentOp) : Prop where
  unique : IdsUnique x.post
  overlays : ∀ n, x.ev = .remove n → ∀ y ∈ x.post.files,
    x.post.uppers (safeNamespaceName y.2.id) = x.pre.uppers (safeNamespaceName y.2.id)

/-- **The condition**: a name is created only when no child has the id derived from it. -/
def FreshId (cfg : ParentConfig) (s : ParentState) : ParentOp → Prop
  | .create n => ∀ x ∈ s.files, x.2.id ≠ childId cfg n.text
  | _ => True

instance (cfg : ParentConfig) (s : ParentState) : (op : ParentOp) → Decidable (FreshId cfg s op)
  | .create n => inferInstanceAs (Decidable (∀ x ∈ s.files, x.2.id ≠ childId cfg n.text))
  | .rename _ _ | .remove _ | .access _ | .list => inferInstanceAs (Decidable True)

/-- What the operations keep: file names and ids are unique, and every id was once derived. -/
structure IdsInv (cfg : ParentConfig) (s : ParentState) : Prop where
  stems : s.files.Pairwise fun x y => x.1 ≠ y.1
  ids : s.files.Pairwise fun x y => x.2.id ≠ y.2.id
  derived : ∀ x ∈ s.files, ∃ n, x.2.id = childId cfg n

section Ids

variable {cfg : ParentConfig} {s t : ParentState}

theorem childId_ne_empty (name : String) : childId cfg name ≠ "" := by
  unfold childId
  intro h
  have hlist := congrArg String.toList h
  rw [String.toList_append, String.toList_append] at hlist
  simp at hlist

theorem childId_inj {m n : String} (h : childId cfg m = childId cfg n) : m = n := by
  unfold childId at h
  rw [← String.toList_inj] at h
  simp only [String.toList_append, List.append_cancel_left_eq, String.toList_inj] at h
  exact h

theorem IdsInv.id_ne_empty (h : IdsInv cfg s) {x : String × ChildManifest} (hx : x ∈ s.files) :
    x.2.id ≠ "" := by
  obtain ⟨n, hn⟩ := h.derived x hx
  rw [hn]
  exact childId_ne_empty n

theorem IdsInv.unique (h : IdsInv cfg s) : IdsUnique s := by
  refine h.ids.imp_of_mem fun hx hy hne => ⟨hne, ?_⟩
  exact childStores_apart (h.id_ne_empty hx) (h.id_ne_empty hy) hne

/-- A file is the only one of its name, and the only one of its id. -/
theorem IdsInv.eq_of_stem (h : IdsInv cfg s) {x y : String × ChildManifest} (hx : x ∈ s.files)
    (hy : y ∈ s.files) (heq : x.1 = y.1) : x = y :=
  List.inj_on_of_nodup_map (f := (·.1)) (List.pairwise_map.mpr h.stems) hx hy heq

theorem IdsInv.eq_of_id (h : IdsInv cfg s) {x y : String × ChildManifest} (hx : x ∈ s.files)
    (hy : y ∈ s.files) (heq : x.2.id = y.2.id) : x = y :=
  List.inj_on_of_nodup_map (f := (·.2.id)) (List.pairwise_map.mpr h.ids) hx hy heq

theorem IdsInv.of_files (h : IdsInv cfg s) (hf : t.files = s.files) : IdsInv cfg t := by
  constructor
  · rw [hf]
    exact h.stems
  · rw [hf]
    exact h.ids
  · rw [hf]
    exact h.derived

/-- **A successful operation keeps the invariant** when what it creates has a fresh id. -/
theorem FilesChange.idsInv {op : ParentOp} (h : FilesChange cfg s t op) (hs : IdsInv cfg s)
    (hfresh : FreshId cfg s op) : IdsInv cfg t := by
  cases h with
  | created n hfree hf =>
    constructor
    · rw [hf, List.pairwise_cons]
      exact ⟨fun y hy => (stem_ne_of_load_none hfree y hy).symm, hs.stems⟩
    · rw [hf, List.pairwise_cons]
      exact ⟨fun y hy => (hfresh y hy).symm, hs.ids⟩
    · intro x hx
      rw [hf] at hx
      rcases List.mem_cons.mp hx with rfl | hx
      · exact ⟨n.text, rfl⟩
      · exact hs.derived x hx
  | renamed o n m hold hfree hf =>
    have hm := mem_of_load hold
    constructor
    · rw [hf, List.pairwise_cons]
      refine ⟨fun y hy => ?_, hs.stems.filter _⟩
      exact (stem_ne_of_load_none hfree y (List.mem_filter.mp hy).1).symm
    · rw [hf, List.pairwise_cons]
      refine ⟨fun y hy heq => ?_, hs.ids.filter _⟩
      obtain ⟨hy, hstem⟩ := List.mem_filter.mp hy
      have hsame := hs.eq_of_id hm hy heq
      rw [← hsame] at hstem
      simp at hstem
    · intro x hx
      rw [hf] at hx
      rcases List.mem_cons.mp hx with rfl | hx
      · obtain ⟨first, hfirst⟩ := hs.derived _ hm
        exact ⟨first, hfirst⟩
      · exact hs.derived x (List.mem_filter.mp hx).1
  | removed n m hold hf hu =>
    constructor
    · rw [hf]
      exact hs.stems.filter _
    · rw [hf]
      exact hs.ids.filter _
    · intro x hx
      rw [hf] at hx
      exact hs.derived x (List.mem_filter.mp hx).1
  | accessed n hf => exact hs.of_files hf
  | listed hf => exact hs.of_files hf

/-- A removal takes away the overlay of the child it removes, and of no other. -/
theorem FilesChange.overlays {n : ChildName} (h : FilesChange cfg s t (.remove n))
    (hs : IdsInv cfg s) : ∀ y ∈ t.files,
      t.uppers (safeNamespaceName y.2.id) = s.uppers (safeNamespaceName y.2.id) := by
  cases h with
  | removed n m hold hf hu =>
    intro y hy
    rw [hf] at hy
    obtain ⟨hy, hstem⟩ := List.mem_filter.mp hy
    have hm := mem_of_load hold
    have hne : safeNamespaceName y.2.id ≠ safeNamespaceName m.id := by
      intro heq
      have hid := safeNamespaceName_inj (hs.id_ne_empty hy) (hs.id_ne_empty hm) heq
      rw [hs.eq_of_id hy hm hid] at hstem
      simp at hstem
    rw [hu, Function.update_of_ne hne]

/-- A name created again under an id in use has two children of one id. -/
theorem not_idsUnique_of_reused {op : ParentOp} (h : FilesChange cfg s t op)
    (hfresh : ¬ FreshId cfg s op) : ¬ IdsUnique t := by
  intro hunique
  apply hfresh
  cases h with
  | created n hfree hf =>
    intro x hx heq
    unfold IdsUnique at hunique
    rw [hf, List.pairwise_cons] at hunique
    exact (hunique.1 x hx).1 heq.symm
  | renamed | removed | accessed | listed => trivial

end Ids

/-- A run of successful operations. -/
abbrev ParentRuns (cfg : ParentConfig) :
    ParentState → List (Lib.Trans ParentState ParentOp) → ParentState → Prop :=
  Lib.Run fun s op t => parentNext cfg s op = some t

/-- A registry without children. -/
structure EmptyRegistry extends ParentState where
  files_nil : files = []

/-- **Ids stay unique in a run of successful operations** on an empty registry, and removals take
    no other child's overlay, exactly when no operation creates a name whose child is still there
    under another name. -/
theorem idsUnique_iff (cfg : ParentConfig) (start : EmptyRegistry)
    {tr : List (Lib.Trans ParentState ParentOp)} {t : ParentState}
    (h : ParentRuns cfg start.toParentState tr t) :
    (∀ x ∈ tr, OwnStores x) ↔ ∀ x ∈ tr, FreshId cfg x.pre x.ev := by
  constructor
  · intro hown x hx
    by_contra hfresh
    exact not_idsUnique_of_reused (filesChange_of_success (h.isStep x hx)) hfresh
      (hown x hx).unique
  · intro hfresh x hx
    have hempty : IdsInv cfg start.toParentState := by
      constructor
      · rw [start.files_nil]
        exact .nil
      · rw [start.files_nil]
        exact .nil
      · rw [start.files_nil]
        exact fun x hx => absurd hx List.not_mem_nil
    have hinv := h.invariant (I := IdsInv cfg) (G := FreshId cfg) hempty
      (fun a e b ha hg hstep => (filesChange_of_success hstep).idsInv ha hg) hfresh
    obtain ⟨hpre, hpost⟩ := hinv.2 x hx
    have hchange := filesChange_of_success (h.isStep x hx)
    refine ⟨hpost.unique, fun n hn => ?_⟩
    rw [hn] at hchange
    exact hchange.overlays hpre

/-! ### Concrete runs -/

def datasetParent : ParentConfig where
  parentId := "dataset"
  parentPath := "/managed/dataset"
  overlaysRoot := "/nfs/overlays"
  mountsDir := "/run/ccc-storage/mounts"

def emptyDataset : EmptyRegistry where
  files_nil := rfl

def nameA : ChildName := ⟨"a", by decide⟩

def nameB : ChildName := ⟨"b", by decide⟩

def nameC : ChildName := ⟨"c", by decide⟩

/-- The transitions of successful operations on `emptyDataset`. -/
def datasetRun (ops : List ParentOp) : List (Lib.Trans ParentState ParentOp) :=
  Lib.trace (parentNext datasetParent) emptyDataset.toParentState ops

theorem datasetRun_runs (ops : List ParentOp) :
    ∃ t, ParentRuns datasetParent emptyDataset.toParentState (datasetRun ops) t :=
  Lib.Run.trace _ _ _

/-- A child is made and renamed, and another one is made and removed. -/
def renamedOnce : List ParentOp :=
  [.create nameA, .rename nameA nameB, .create ⟨"c", by decide⟩, .remove ⟨"c", by decide⟩]

theorem renamedOnce_idsUnique :
    (datasetRun renamedOnce).length = 4 ∧ (∀ x ∈ datasetRun renamedOnce, OwnStores x) := by
  obtain ⟨t, h⟩ := datasetRun_runs renamedOnce
  exact ⟨by decide +kernel, (idsUnique_iff datasetParent emptyDataset h).mpr (by decide +kernel)⟩

/-- A child is renamed, another one is made under its first name, and that one is removed. -/
def reusedName : List ParentOp :=
  [.create nameA, .rename nameA nameB, .create nameA, .remove nameA]

/-- Both children have the id `dataset:a`, and the removal of the second takes the overlay of the
    first. -/
theorem reusedName_sharesOverlay :
    (datasetRun reusedName).map (·.ev) = reusedName ∧
      ¬ (∀ x ∈ datasetRun reusedName, OwnStores x) ∧
      (datasetRun reusedName).map (fun x => x.post.files.map (·.2.id)) =
        [["dataset:a"], ["dataset:a"], ["dataset:a", "dataset:a"], ["dataset:a"]] ∧
      (datasetRun reusedName).map (fun x => x.post.uppers "dataset%3Aa") =
        [some ⟨[]⟩, some ⟨[]⟩, some ⟨[]⟩, none] := by
  refine ⟨by decide +kernel, fun hown => ?_, by decide +kernel, by decide +kernel⟩
  have hids : ∃ x ∈ datasetRun reusedName,
      ¬ x.post.files.Pairwise fun x y => x.2.id ≠ y.2.id := by
    decide +kernel
  obtain ⟨x, hx, hsame⟩ := hids
  exact hsame ((hown x hx).unique.imp fun h => h.1)

end CccStorage
