/-
  File:      CccStorage/StateRoots.lean
  Subject:   Where a child's dirty data lives: the paths the mount manager writes
             (`mountd/childmount.py`) and the paths the service reads (`mountd/daemon.py`).

  * `ServiceRoots`, `reloadRegistry` -- the roots of one service, and which manifest and which
    state root it finds for an id;
  * `mountRw`, `publishRecord`, `unmountRw` -- one writer, from mount to unmount;
  * `handleCommit`, `manifestStatus` -- what the service reads afterwards;
  * `session_commit_iff` -- the service reads and commits what the mount wrote exactly when both
    name the same stores;
  * `secondRoot_reportedClean` -- a child of an observation root with a state directory of its own.
-/
import CccStorage.DirtyStores

namespace CccStorage

/-! ## 1. Paths and roots -/

/-- `Path(text).parts`: empty components and `.` are left out. -/
def pathParts (text : String) : Path :=
  (if "/".toList.isPrefixOf text.toList then ["/"] else []) ++
    ((text.toList.splitOn '/').filter fun part => part ≠ [] ∧ part ≠ ['.']).map String.ofList

/-- `path / name` of a single component. -/
def pathDiv (path : Path) (name : String) : Path := if name = "." then path else path ++ [name]

/-- `OverlayPaths.for_child(state_root / "overlays", id).active_upper`. -/
def overlayActive (stateRoot : Path) (id : String) : Path :=
  pathDiv (stateRoot ++ ["overlays"]) (safeNamespaceName id) ++ ["active"]

/-- `DirtyMirrorPaths.for_child(root, id).root`. -/
def mirrorRoot (root : Path) (id : String) : Path :=
  pathDiv (root ++ ["async"]) (safeNamespaceName id)

/-- `LocalOverlayPaths.for_child(local_root, id).active_upper`. -/
def localActive (localRoot : Path) (id : String) : Path :=
  pathDiv localRoot (safeNamespaceName id) ++ ["active"]

def writerLockPath (nfsRoot : Path) (id : String) : Path :=
  nfsRoot ++ ["locks", safeNamespaceName id ++ ".local-writer.lock"]

def commitLockPath (stateRoot : Path) (id : String) : Path :=
  stateRoot ++ ["locks", safeNamespaceName id ++ ".commit.lock"]

/-- Where one service keeps state. -/
structure ServiceRoots where
  nfsRoot : Path
  /-- The state directories of the observation roots, in the router's order. -/
  observationRoots : List Path
  localOverlayRoot : Path

/-- The roots `reload_registry` scans: the first of several equal ones stays. -/
def ServiceRoots.stateRoots (roots : ServiceRoots) : List Path :=
  (roots.nfsRoot :: roots.observationRoots).eraseDups

/-- What the service and its mount manager share. -/
structure StoreWorld where
  /-- The manifests that load under `<state root>/registry`, by state root, in path order. -/
  registry : Path → List ChildManifest
  /-- The uppers, on the shared root and on this node. -/
  uppers : Path → Option Tree
  /-- The latest epochs, by mirror root. -/
  mirrors : Path → Option PublishedMirror
  /-- The lock files that exist. -/
  locks : Path → Bool

namespace StoreWorld

def upperAt (w : StoreWorld) (path : Path) : Tree := (w.uppers path).getD ⟨[]⟩

/-- `ensure_active_upper`, `ensure_local_upper`. -/
def ensureUpper (w : StoreWorld) (path : Path) : StoreWorld :=
  { w with uppers := Function.update w.uppers path (some (w.upperAt path)) }

end StoreWorld

/-- `reload_registry`: a manifest that is read later replaces one of the same id. -/
def reloadRegistry (roots : ServiceRoots) (w : StoreWorld) :
    String → Option (ChildManifest × Path) :=
  roots.stateRoots.foldl
    (fun children root => (w.registry root).foldl
      (fun children manifest => Function.update children manifest.id (some (manifest, root)))
      children)
    fun _ => none

/-! ## 2. A writer -/

/-- What a writable record keeps. -/
structure RwRecord where
  manifestId : String
  writePolicy : WritePolicy
  upper : Path
  baseGeneration : Nat

/-- `_hydrate_local_upper_from_latest_mirror`. -/
def hydrateLocalUpper (roots : ServiceRoots) (id : String) (w : StoreWorld) : StoreWorld :=
  let path := localActive roots.localOverlayRoot id
  if (w.upperAt path).nodes ≠ [] then w
  else
    match w.mirrors (mirrorRoot roots.nfsRoot id) with
    | none => w
    | some latest => { w with uppers := Function.update w.uppers path (some latest.tree) }

/-- `mount_rw` of a child that is not mounted on this node; `none` where it raises, or mounts the
    published mirror read-only because the writer lock is held. -/
def mountRw (roots : ServiceRoots) (manifest : ChildManifest) (w : StoreWorld) :
    Option (StoreWorld × RwRecord) :=
  match manifest.writePolicy with
  | .sharedNfs =>
    if manifest.overlay.activeUpper = "" then none
    else
      let upper := pathParts manifest.overlay.activeUpper
      some (w.ensureUpper upper, {
        manifestId := manifest.id
        writePolicy := .sharedNfs
        upper := upper
        baseGeneration := manifest.generation })
  | .localSsdAsync =>
    let lock := writerLockPath roots.nfsRoot manifest.id
    if w.locks lock then none
    else
      let upper := localActive roots.localOverlayRoot manifest.id
      let locked := { w with locks := Function.update w.locks lock true }
      some (hydrateLocalUpper roots manifest.id (locked.ensureUpper upper), {
        manifestId := manifest.id
        writePolicy := .localSsdAsync
        upper := upper
        baseGeneration := manifest.generation })

/-- The epoch published for a tree. -/
def publishedEpoch (tree : Tree) (baseGeneration : Nat) : PublishedMirror where
  tree := tree
  baseGeneration := baseGeneration
  fileCount := (dirtyStats tree).fileCount
  bytes := (dirtyStats tree).bytes
  counted := ⟨rfl, rfl⟩

/-- `_publish_record`; `none` where the copy raises. -/
def publishRecord (roots : ServiceRoots) (r : RwRecord) (w : StoreWorld) : Option StoreWorld :=
  match r.writePolicy, w.uppers r.upper with
  | .localSsdAsync, some upper =>
    if (dirtyStats upper).dirty then
      (copyLogicalTree upper).map fun tree =>
        let epoch := publishedEpoch tree r.baseGeneration
        let root := mirrorRoot roots.nfsRoot r.manifestId
        { w with mirrors := Function.update w.mirrors root (some epoch) }
    else some w
  | _, _ => some w

/-- `unmount` of the last reference. -/
def unmountRw (roots : ServiceRoots) (r : RwRecord) (w : StoreWorld) : Option StoreWorld :=
  (publishRecord roots r w).map fun w =>
    match r.writePolicy with
    | .sharedNfs => w
    | .localSsdAsync =>
      { w with locks := Function.update w.locks (writerLockPath roots.nfsRoot r.manifestId) false }

/-- What the application does to the upper. -/
def StoreWorld.write (w : StoreWorld) (r : RwRecord) (edit : Tree → Tree) : StoreWorld :=
  { w with uppers := Function.update w.uppers r.upper (some (edit (w.upperAt r.upper))) }

/-- A publish, and then the last unmount. -/
def publishAndUnmount (roots : ServiceRoots) (r : RwRecord) (w : StoreWorld) : Option StoreWorld :=
  (publishRecord roots r w).bind (unmountRw roots r)

/-! ## 3. The service -/

/-- A directory that holds dirty data. -/
inductive Store where
  | upper (path : Path)
  | mirror (root : Path)
  deriving DecidableEq, Repr

/-- What a commit publishes. -/
structure CommittedDelta where
  generation : Nat
  source : Store
  delta : Tree
  deriving DecidableEq

inductive CommitError where
  | notFound (id : String)
  | writerLockHeld (id : String)
  | commitLockHeld (id : String)
  | mirrorBase (id : String) (base generation : Nat)
  deriving DecidableEq, Repr

/-- `handle_commit` of a child that is not mounted here, by its id; `none` where it reports the
    child clean. -/
def handleCommit (roots : ServiceRoots) (w : StoreWorld) (id : String) :
    Except CommitError (Option CommittedDelta) :=
  match reloadRegistry roots w id with
  | none => .error (.notFound id)
  | some (manifest, stateRoot) =>
    match manifest.writePolicy with
    | .sharedNfs =>
      let upper := overlayActive stateRoot id
      if (dirtyStats (w.upperAt upper)).dirty then
        if w.locks (commitLockPath stateRoot id) then .error (.commitLockHeld id)
        else .ok (some {
          generation := manifest.generation + 1
          source := .upper upper
          delta := prepareDeltaSource (w.upperAt upper) })
      else .ok none
    | .localSsdAsync =>
      match w.mirrors (mirrorRoot stateRoot id) with
      | none => .ok none
      | some latest =>
        if latest.fileCount = 0 ∧ latest.bytes = 0 then .ok none
        else if w.locks (writerLockPath roots.nfsRoot id) then .error (.writerLockHeld id)
        else if w.locks (commitLockPath stateRoot id) then .error (.commitLockHeld id)
        else if latest.baseGeneration ≠ manifest.generation then
          .error (.mirrorBase id latest.baseGeneration manifest.generation)
        else .ok (some {
          generation := manifest.generation + 1
          source := .mirror (mirrorRoot stateRoot id)
          delta := prepareDeltaSource latest.tree })

/-- What `_manifest_status` says about the dirty data. -/
structure DirtyStatus where
  dirty : Bool
  policyInput : Store
  deriving DecidableEq, Repr

/-- `_manifest_status`, for the manifest found under `stateRoot`. -/
def manifestStatus (roots : ServiceRoots) (w : StoreWorld) (manifest : ChildManifest)
    (stateRoot : Path) : DirtyStatus :=
  let shared := overlayActive stateRoot manifest.id
  let fallback : DirtyStatus := ⟨(dirtyStats (w.upperAt shared)).dirty, .upper shared⟩
  match manifest.writePolicy with
  | .sharedNfs => fallback
  | .localSsdAsync =>
    let localUpper := localActive roots.localOverlayRoot manifest.id
    if (dirtyStats (w.upperAt localUpper)).dirty then ⟨true, .upper localUpper⟩
    else
      match w.mirrors (mirrorRoot stateRoot manifest.id) with
      | none => fallback
      | some latest =>
        if 0 < latest.fileCount then
          ⟨(dirtyStats latest.tree).dirty, .mirror (mirrorRoot stateRoot manifest.id)⟩
        else fallback

/-- The three stores as the write-policy check reads them. -/
def dirtyStores (roots : ServiceRoots) (w : StoreWorld) (id : String) (stateRoot : Path) :
    DirtyStores where
  activeUpper := w.upperAt (overlayActive stateRoot id)
  mirror := w.mirrors (mirrorRoot stateRoot id)
  localUpper := w.upperAt (localActive roots.localOverlayRoot id)

/-! ## 4. What the writer leaves -/

section Writer

variable {roots : ServiceRoots} {w w' mounted : StoreWorld} {manifest : ChildManifest}
  {r : RwRecord} {edit : Tree → Tree}

theorem dirtyStats_prepareDeltaSource (t : Tree) :
    dirtyStats (prepareDeltaSource t) = dirtyStats t := by
  have hsizes : ((prepareDeltaSource t).nodes.filterMap fun x =>
      if (x.1.getLast?).any isMark then none else x.2.countedSize) =
      t.nodes.filterMap fun x =>
        if (x.1.getLast?).any isMark then none else x.2.countedSize := by
    show (t.nodes.filter _).filterMap _ = _
    rw [List.filterMap_filter]
    refine List.filterMap_congr fun x _ => ?_
    cases hx : x.2 with
    | symlink | dir | file => rfl
    | whiteout | special => exact (ite_self none).symm
  unfold dirtyStats
  rw [hsizes]

theorem hydrateLocalUpper_spec (id : String) :
    (hydrateLocalUpper roots id w).registry = w.registry ∧
      (hydrateLocalUpper roots id w).locks = w.locks := by
  unfold hydrateLocalUpper
  simp only
  split
  · exact ⟨rfl, rfl⟩
  · split <;> exact ⟨rfl, rfl⟩

/-- A mount only locks, makes its upper and hydrates it. -/
theorem mountRw_spec (h : mountRw roots manifest w = some (mounted, r)) :
    r.manifestId = manifest.id ∧ r.writePolicy = manifest.writePolicy ∧
      r.baseGeneration = manifest.generation ∧ mounted.registry = w.registry ∧
      match manifest.writePolicy with
      | .sharedNfs => r.upper = pathParts manifest.overlay.activeUpper ∧ mounted.locks = w.locks
      | .localSsdAsync =>
        r.upper = localActive roots.localOverlayRoot manifest.id ∧ mounted.locks =
          Function.update w.locks (writerLockPath roots.nfsRoot manifest.id) true := by
  unfold mountRw at h
  cases hp : manifest.writePolicy with
  | sharedNfs =>
      rw [hp] at h
      simp only at h
      split at h
      · cases h
      · cases h
        exact ⟨rfl, rfl, rfl, rfl, rfl, rfl⟩
  | localSsdAsync =>
      rw [hp] at h
      simp only at h
      split at h
      · cases h
      · cases h
        obtain ⟨hreg, hlocks⟩ := hydrateLocalUpper_spec manifest.id
        exact ⟨rfl, rfl, rfl, hreg, rfl, hlocks⟩

/-- A publish copies a dirty local upper, and changes nothing else. -/
theorem publishRecord_spec (h : publishRecord roots r w = some w') :
    w'.registry = w.registry ∧ w'.uppers = w.uppers ∧ w'.locks = w.locks ∧
      (r.writePolicy = .localSsdAsync → (dirtyStats (w.upperAt r.upper)).dirty = true →
        w'.mirrors (mirrorRoot roots.nfsRoot r.manifestId) =
          some (publishedEpoch (prepareDeltaSource (w.upperAt r.upper)) r.baseGeneration)) := by
  unfold publishRecord at h
  split at h
  · rename_i upper hpolicy hupper
    have hat : w.upperAt r.upper = upper := by
      unfold StoreWorld.upperAt
      rw [hupper, Option.getD_some]
    rw [hat]
    by_cases hd : (dirtyStats upper).dirty = true
    · rw [if_pos hd] at h
      obtain ⟨tree, hcopy, rfl⟩ := Option.map_eq_some_iff.mp h
      refine ⟨rfl, rfl, rfl, fun _ _ => ?_⟩
      rw [copyLogicalTree_eq hcopy]
      exact Function.update_self ..
    · rw [if_neg hd] at h
      cases h
      exact ⟨rfl, rfl, rfl, fun _ hd' => absurd hd' hd⟩
  · rename_i hnot
    cases h
    refine ⟨rfl, rfl, rfl, fun hpolicy hd => ?_⟩
    have hnone : w.uppers r.upper = none := by
      cases hu : w.uppers r.upper with
      | none => rfl
      | some upper => exact absurd hu (hnot upper hpolicy)
    unfold StoreWorld.upperAt at hd
    rw [hnone] at hd
    cases hd

/-- **After the unmount** the upper is as it was written, the locks are as before the mount but for
    the writer's, which is free, and the mirror of a dirty local upper is its copy. -/
theorem publishAndUnmount_spec (h : publishAndUnmount roots r w = some w') :
    w'.registry = w.registry ∧ w'.upperAt r.upper = w.upperAt r.upper ∧
      match r.writePolicy with
      | .sharedNfs => w'.locks = w.locks
      | .localSsdAsync =>
        w'.locks = Function.update w.locks (writerLockPath roots.nfsRoot r.manifestId) false ∧
          ((dirtyStats (w.upperAt r.upper)).dirty = true →
            w'.mirrors (mirrorRoot roots.nfsRoot r.manifestId) =
              some (publishedEpoch (prepareDeltaSource (w.upperAt r.upper)) r.baseGeneration)) := by
  obtain ⟨w₁, h₁, hunmount⟩ := Option.bind_eq_some_iff.mp h
  obtain ⟨w₂, h₂, rfl⟩ := Option.map_eq_some_iff.mp hunmount
  obtain ⟨hreg₁, hup₁, hlocks₁, -⟩ := publishRecord_spec h₁
  obtain ⟨hreg₂, hup₂, hlocks₂, hmirror₂⟩ := publishRecord_spec h₂
  have hat₁ : w₁.upperAt r.upper = w.upperAt r.upper := by
    unfold StoreWorld.upperAt
    rw [hup₁]
  have hat₂ : w₂.upperAt r.upper = w.upperAt r.upper := by
    rw [← hat₁]
    unfold StoreWorld.upperAt
    rw [hup₂]
  cases hp : r.writePolicy with
  | sharedNfs => exact ⟨hreg₂.trans hreg₁, hat₂, hlocks₂.trans hlocks₁⟩
  | localSsdAsync =>
      refine ⟨hreg₂.trans hreg₁, hat₂, ?_, fun hd => ?_⟩
      · show Function.update w₂.locks _ false = _
        rw [hlocks₂, hlocks₁]
      · rw [hat₁] at hmirror₂
        exact hmirror₂ hp hd

end Writer

/-! ## 5. Agreement -/

/-- Where the data of a record awaits its commit. -/
def RwRecord.store (roots : ServiceRoots) (r : RwRecord) : Store :=
  match r.writePolicy with
  | .sharedNfs => .upper r.upper
  | .localSsdAsync => .mirror (mirrorRoot roots.nfsRoot r.manifestId)

/-- **The service sees what the record wrote**: the status is dirty for the record's upper, the
    write-policy check refuses, and a commit publishes the next generation from the record's store,
    with the file at `path`. -/
def CommitterSees (roots : ServiceRoots) (w : StoreWorld) (r : RwRecord) (path : Path)
    (content : Bytes) : Prop :=
  ∃ found stateRoot committed,
    reloadRegistry roots w r.manifestId = some (found, stateRoot) ∧
    manifestStatus roots w found stateRoot = ⟨true, .upper r.upper⟩ ∧
    assertCleanForWritePolicySwitch found.id (dirtyStores roots w found.id stateRoot) ≠ .ok () ∧
    handleCommit roots w r.manifestId = .ok (some committed) ∧
    committed.generation = found.generation + 1 ∧
    committed.source = r.store roots ∧
    committed.delta = prepareDeltaSource (w.upperAt r.upper) ∧
    committed.delta.nodes.lookup path = some (.file content)

/-- **Writer and committer name the same stores**: the service finds the child under the same policy
    with no commit running; for `shared-nfs` the text in the mounted manifest is the upper under the
    child's state root, and for `local-ssd-async` that state root is the service's own, with the
    manifest at the mounted generation. -/
def SameStores (roots : ServiceRoots) (w : StoreWorld) (manifest : ChildManifest) : Prop :=
  ∃ found stateRoot,
    reloadRegistry roots w manifest.id = some (found, stateRoot) ∧
    found.writePolicy = manifest.writePolicy ∧
    w.locks (commitLockPath stateRoot manifest.id) = false ∧
    match manifest.writePolicy with
    | .sharedNfs => pathParts manifest.overlay.activeUpper = overlayActive stateRoot manifest.id
    | .localSsdAsync => stateRoot = roots.nfsRoot ∧ found.generation = manifest.generation

section Agreement

variable {roots : ServiceRoots} {w w' mounted : StoreWorld} {manifest found : ChildManifest}
  {r : RwRecord} {edit : Tree → Tree} {id : String} {stateRoot : Path} {path : Path}
  {content : Bytes}

theorem reloadRegistry_congr (h : w'.registry = w.registry) :
    reloadRegistry roots w' = reloadRegistry roots w := by
  unfold reloadRegistry
  rw [h]

/-- A child is found under its own id. -/
theorem reloadRegistry_id (h : reloadRegistry roots w id = some (found, stateRoot)) :
    found.id = id := by
  let Keyed := fun children : String → Option (ChildManifest × Path) =>
    ∀ i m root, children i = some (m, root) → m.id = i
  have hupdate : ∀ children, Keyed children → ∀ m root,
      Keyed (Function.update children m.id (some (m, root))) := by
    intro children hkeyed m root i m' root' hi
    by_cases him : i = m.id
    · subst him
      rw [Function.update_self] at hi
      cases hi
      rfl
    · rw [Function.update_of_ne him] at hi
      exact hkeyed i m' root' hi
  have hscan : Keyed (reloadRegistry roots w) := by
    refine List.foldlRecOn (motive := Keyed) roots.stateRoots _ (fun _ _ _ hi => ?_) ?_
    · cases hi
    · intro children hkeyed root _
      exact List.foldlRecOn (motive := Keyed) (w.registry root) _ hkeyed
        fun children hkeyed m _ => hupdate children hkeyed m root
  exact hscan id found stateRoot h

theorem pathDiv_inj {p q : Path} {name : String} (h : pathDiv p name = pathDiv q name) : p = q := by
  unfold pathDiv at h
  split at h
  · exact h
  · exact List.append_cancel_right h

theorem mirrorRoot_inj {p q : Path} (h : mirrorRoot p id = mirrorRoot q id) : p = q :=
  List.append_cancel_right (pathDiv_inj h)

theorem commitLockPath_ne (p q : Path) (id : String) :
    commitLockPath p id ≠ writerLockPath q id := by
  intro h
  have hlast := congrArg List.getLast? h
  unfold commitLockPath writerLockPath at hlast
  rw [List.getLast?_append, List.getLast?_append] at hlast
  have htext : ".commit.lock" = ".local-writer.lock" := by
    simpa only [List.getLast?_cons_cons, List.getLast?_singleton, Option.some_or,
      Option.some.injEq, String.append_right_inj] using hlast
  revert htext
  decide

/-- A status that names an upper names a dirty one. -/
theorem dirty_of_manifestStatus
    (h : manifestStatus roots w found stateRoot = ⟨true, .upper path⟩) :
    (dirtyStats (w.upperAt path)).dirty = true := by
  have hfallback : ∀ p : Path,
      (⟨(dirtyStats (w.upperAt p)).dirty, .upper p⟩ : DirtyStatus) = ⟨true, .upper path⟩ →
        (dirtyStats (w.upperAt path)).dirty = true := by
    intro p hp
    injection hp with hd hpath
    injection hpath with hpath
    rw [← hpath]
    exact hd
  unfold manifestStatus at h
  simp only at h
  split at h
  · exact hfallback _ h
  · split at h
    · rename_i hd
      injection h with _ hpath
      injection hpath with hpath
      rw [← hpath]
      exact hd
    · split at h
      · exact hfallback _ h
      · split at h
        · injection h with _ hpath
          cases hpath
        · exact hfallback _ h

/-- What a commit read when it published. -/
theorem handleCommit_source {committed : CommittedDelta}
    (hreg : reloadRegistry roots w id = some (found, stateRoot))
    (h : handleCommit roots w id = .ok (some committed)) :
    w.locks (commitLockPath stateRoot id) = false ∧
      match found.writePolicy with
      | .sharedNfs => committed.source = .upper (overlayActive stateRoot id)
      | .localSsdAsync => committed.source = .mirror (mirrorRoot stateRoot id) ∧
        ∃ latest, w.mirrors (mirrorRoot stateRoot id) = some latest ∧
          latest.baseGeneration = found.generation := by
  unfold handleCommit at h
  rw [hreg] at h
  simp only at h
  cases hp : found.writePolicy with
  | sharedNfs =>
      rw [hp] at h
      simp only at h
      split at h
      · split at h
        · cases h
        · rename_i hlock
          cases h
          exact ⟨Bool.eq_false_iff.mpr hlock, rfl⟩
      · cases h
  | localSsdAsync =>
      rw [hp] at h
      simp only at h
      split at h
      · cases h
      · rename_i latest hlatest
        split at h
        · cases h
        · split at h
          · cases h
          · split at h
            · cases h
            · rename_i hlock
              split at h
              · cases h
              · rename_i hbase
                cases h
                exact ⟨Bool.eq_false_iff.mpr hlock, rfl, latest, hlatest, not_ne_iff.mp hbase⟩

theorem write_upperAt (w : StoreWorld) (r : RwRecord) (edit : Tree → Tree) :
    (w.write r edit).upperAt r.upper = edit (w.upperAt r.upper) := by
  unfold StoreWorld.write
  show (Function.update w.uppers r.upper (some (edit _)) r.upper).getD ⟨[]⟩ = _
  rw [Function.update_self, Option.getD_some]

/-- What the service sees comes from a dirty upper of the same store. -/
theorem sameStores_of_sees (hmount : mountRw roots manifest w = some (mounted, r))
    (hdone : publishAndUnmount roots r (mounted.write r edit) = some w')
    (h : CommitterSees roots w' r path content) :
    SameStores roots w manifest ∧ (dirtyStats (edit (mounted.upperAt r.upper))).dirty = true := by
  obtain ⟨hid, hpolicy, hbase, hregm, hm⟩ := mountRw_spec hmount
  obtain ⟨hregd, hupper, hd⟩ := publishAndUnmount_spec hdone
  rw [write_upperAt] at hupper hd
  have hreg : reloadRegistry roots w' = reloadRegistry roots w :=
    reloadRegistry_congr (hregd.trans hregm)
  obtain ⟨found, stateRoot, committed, hfound, hstatus, -, hcommit, -, hsource, -, -⟩ := h
  have hdirty := dirty_of_manifestStatus hstatus
  rw [hupper] at hdirty
  obtain ⟨hlock, hread⟩ := handleCommit_source hfound hcommit
  rw [hreg, hid] at hfound
  rw [hid] at hlock hread
  refine ⟨⟨found, stateRoot, hfound, ?_⟩, hdirty⟩
  unfold RwRecord.store at hsource
  cases hp : manifest.writePolicy with
  | sharedNfs =>
      rw [hp] at hpolicy hm
      rw [hpolicy] at hsource hd
      cases hf : found.writePolicy with
      | sharedNfs =>
          rw [hf] at hread
          have hpath : overlayActive stateRoot manifest.id = r.upper :=
            Store.upper.inj (hread.symm.trans hsource)
          refine ⟨rfl, ?_, ?_⟩
          · rw [← hlock, hd]
            show w.locks _ = mounted.locks _
            rw [hm.2]
          · exact hm.1.symm.trans hpath.symm
      | localSsdAsync =>
          rw [hf] at hread
          cases hread.1.symm.trans hsource
  | localSsdAsync =>
      rw [hp] at hpolicy hm
      rw [hpolicy] at hsource hd
      cases hf : found.writePolicy with
      | sharedNfs =>
          rw [hf] at hread
          cases hread.symm.trans hsource
      | localSsdAsync =>
          rw [hf] at hread
          obtain ⟨hfrom, latest, hlatest, hlbase⟩ := hread
          rw [hid] at hsource
          have hroot : stateRoot = roots.nfsRoot :=
            mirrorRoot_inj (Store.mirror.inj (hfrom.symm.trans hsource))
          have hpublished := hd.2 hdirty
          rw [hid, ← hroot, hlatest] at hpublished
          refine ⟨rfl, ?_, hroot, ?_⟩
          · rw [← hlock, hd.1, hid, Function.update_of_ne (commitLockPath_ne _ _ _)]
            show _ = mounted.locks _
            rw [hm.2, Function.update_of_ne (commitLockPath_ne _ _ _)]
          · rw [← hlbase, Option.some.inj hpublished]
            exact hbase

/-- A dirty upper of the same store is seen, and committed. -/
theorem sees_of_sameStores (hmount : mountRw roots manifest w = some (mounted, r))
    (hfile : (edit (mounted.upperAt r.upper)).nodes.lookup path = some (.file content))
    (hdone : publishAndUnmount roots r (mounted.write r edit) = some w')
    (h : SameStores roots w manifest)
    (hdirty : (dirtyStats (edit (mounted.upperAt r.upper))).dirty = true) :
    CommitterSees roots w' r path content := by
  obtain ⟨hid, hpolicy, hbase, hregm, hm⟩ := mountRw_spec hmount
  obtain ⟨hregd, hupper, hd⟩ := publishAndUnmount_spec hdone
  rw [write_upperAt] at hupper hd
  have hreg : reloadRegistry roots w' = reloadRegistry roots w :=
    reloadRegistry_congr (hregd.trans hregm)
  obtain ⟨found, stateRoot, hfound, hsame, hlock, hpaths⟩ := h
  have hfid := reloadRegistry_id hfound
  have hfile' := prepareDeltaSource_lookup hfile rfl
  rw [← hid, ← hreg] at hfound
  cases hp : manifest.writePolicy with
  | sharedNfs =>
      rw [hp] at hpolicy hm hsame hpaths
      rw [hpolicy] at hd
      have hup : overlayActive stateRoot manifest.id = r.upper := hpaths.symm.trans hm.1.symm
      have hfree : w'.locks (commitLockPath stateRoot manifest.id) = false := by
        rw [← hlock, hd]
        show mounted.locks _ = w.locks _
        rw [hm.2]
      refine ⟨found, stateRoot, ⟨found.generation + 1, .upper r.upper,
        prepareDeltaSource (w'.upperAt r.upper)⟩, hfound, ?_, ?_, ?_, rfl, ?_, rfl, ?_⟩
      · unfold manifestStatus
        rw [hsame, hfid]
        simp only
        rw [hup, hupper, hdirty]
      · rw [Ne, assertCleanForWritePolicySwitch_ok_iff]
        intro hclean
        have hnot : (dirtyStats (w'.upperAt (overlayActive stateRoot found.id))).dirty = false :=
          hclean.1
        rw [hfid, hup, hupper, hdirty] at hnot
        cases hnot
      · unfold handleCommit
        rw [hfound, hid]
        simp only
        rw [hsame]
        simp only
        rw [hup, hupper, if_pos hdirty, hfree, if_neg Bool.false_ne_true]
      · unfold RwRecord.store
        rw [hpolicy]
      · rw [hupper]
        exact hfile'
  | localSsdAsync =>
      rw [hp] at hpolicy hm hsame hpaths
      rw [hpolicy] at hd
      obtain ⟨hroot, hgeneration⟩ := hpaths
      have hmirror : w'.mirrors (mirrorRoot stateRoot manifest.id) = some (publishedEpoch
          (prepareDeltaSource (edit (mounted.upperAt r.upper))) r.baseGeneration) := by
        rw [hroot, ← hid]
        exact hd.2 hdirty
      have hwriter : w'.locks (writerLockPath roots.nfsRoot manifest.id) = false := by
        rw [hd.1, hid, Function.update_self]
      have hfree : w'.locks (commitLockPath stateRoot manifest.id) = false := by
        rw [← hlock, hd.1, hid, Function.update_of_ne (commitLockPath_ne _ _ _)]
        show mounted.locks _ = w.locks _
        rw [hm.2, Function.update_of_ne (commitLockPath_ne _ _ _)]
      refine ⟨found, stateRoot, ⟨found.generation + 1,
        .mirror (mirrorRoot stateRoot manifest.id), prepareDeltaSource (w'.upperAt r.upper)⟩,
        hfound, ?_, ?_, ?_, rfl, ?_, rfl, ?_⟩
      · unfold manifestStatus
        rw [hsame, hfid]
        simp only
        rw [← hm.1, hupper, if_pos hdirty]
      · rw [Ne, assertCleanForWritePolicySwitch_ok_iff]
        intro hclean
        have hnot : (dirtyStats (w'.upperAt
            (localActive roots.localOverlayRoot found.id))).dirty = false := hclean.2.2
        rw [hfid, ← hm.1, hupper, hdirty] at hnot
        cases hnot
      · have hcount : 0 < (publishedEpoch (prepareDeltaSource (edit (mounted.upperAt r.upper)))
            r.baseGeneration).fileCount := by
          show 0 < (dirtyStats (prepareDeltaSource _)).fileCount
          rw [dirtyStats_prepareDeltaSource]
          exact dirtyStats_dirty_iff.mp hdirty
        have hfresh : (publishedEpoch (prepareDeltaSource (edit (mounted.upperAt r.upper)))
            r.baseGeneration).baseGeneration = found.generation := hbase.trans hgeneration.symm
        unfold handleCommit
        rw [hfound, hid]
        simp only
        rw [hsame]
        simp only
        rw [hmirror]
        simp only
        rw [if_neg fun h => hcount.ne' h.1, hwriter, if_neg Bool.false_ne_true, hfree,
          if_neg Bool.false_ne_true, if_neg (not_ne_iff.mpr hfresh), hupper]
        show Except.ok (some (CommittedDelta.mk _ _ (prepareDeltaSource (prepareDeltaSource _))))
          = _
        rw [prepareDeltaSource_idem]
      · unfold RwRecord.store
        rw [hpolicy, hroot, hid]
      · rw [hupper]
        exact hfile'

/-- **Writer and committer agree**: after a mount, a write, a publish and an unmount the service
    sees what was written, and commits it, exactly when both name the same stores and the upper
    holds a file or a link whose name is not an overlay mark. -/
theorem session_commit_iff (hmount : mountRw roots manifest w = some (mounted, r))
    (hfile : (edit (mounted.upperAt r.upper)).nodes.lookup path = some (.file content))
    (hdone : publishAndUnmount roots r (mounted.write r edit) = some w') :
    CommitterSees roots w' r path content ↔
      SameStores roots w manifest ∧ (dirtyStats (edit (mounted.upperAt r.upper))).dirty = true :=
  ⟨sameStores_of_sees hmount hdone, fun h => sees_of_sameStores hmount hfile hdone h.1 h.2⟩

end Agreement

/-! ### An observation root with a state directory of its own -/

def nfsState : Path := ["/", "nfs"]

def dataState : Path := ["/", "data", ".ccc-storage"]

/-- A service with its own root and one observation root. -/
def observingService : ServiceRoots where
  nfsRoot := nfsState
  observationRoots := [dataState]
  localOverlayRoot := ["/", "ssd"]

/-- A local-SSD child. -/
def localEnv : ChildManifest where
  id := "env"
  name := "env"
  type := "observed-child"
  generation := 0
  writePolicy := .localSsdAsync

/-- The child is registered under `stateRoot`; nothing has been written yet. -/
def registeredUnder (stateRoot : Path) : StoreWorld where
  registry := Function.update (fun _ => []) stateRoot [localEnv]
  uppers := fun _ => none
  mirrors := fun _ => none
  locks := fun _ => false

/-- The application writes one file. -/
def writeResult (upper : Tree) : Tree := ⟨(["result"], .file [1]) :: upper.nodes⟩

theorem session_commit_iff_ownRoot :
    ∃ mounted r w', mountRw observingService localEnv (registeredUnder nfsState) =
        some (mounted, r) ∧
      publishAndUnmount observingService r (mounted.write r writeResult) = some w' ∧
      (CommitterSees observingService w' r ["result"] [1] ↔
        SameStores observingService (registeredUnder nfsState) localEnv ∧
          (dirtyStats (writeResult (mounted.upperAt r.upper))).dirty = true) :=
  ⟨_, _, _, rfl, rfl, session_commit_iff rfl rfl rfl⟩

/-- **The same child under the observation root**: the mirror goes to the service's own root, and
    the commit finds none under the child's. -/
theorem secondRoot_reportedClean :
    ∃ mounted r w', mountRw observingService localEnv (registeredUnder dataState) =
        some (mounted, r) ∧
      publishAndUnmount observingService r (mounted.write r writeResult) = some w' ∧
      (writeResult (mounted.upperAt r.upper)).nodes.lookup ["result"] = some (.file [1]) ∧
      handleCommit observingService w' "env" = .ok none ∧
      ¬ CommitterSees observingService w' r ["result"] [1] := by
  refine ⟨_, _, _, rfl, rfl, rfl, rfl, ?_⟩
  rintro ⟨_, _, _, -, -, -, h, -⟩
  cases h

end CccStorage
