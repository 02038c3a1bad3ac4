/-
  File:      CccStorage/DirtyStores.lean
  Subject:   The three places where a child's uncommitted data may be, and the guards of the
             operations that evict, remove or rename it.

  * `DirtyStores`, `assertCleanForWritePolicySwitch` -- the shared upper, the latest published
    mirror and this node's local upper, and the guard that looks at all three;
  * `handleColdArchive`, `rmdirChild`, `renameObserved` (`mountd/daemon.py`,
    `mountd/observation.py`) -- with `removeChild` of the managed parent, the other guards;
  * `handleColdArchive_ok_iff`, `rmdirChild_ok_iff`, `renameObserved_ok_iff`,
    `removeChild_ok_iff` -- when each of them succeeds;
  * `guards_iff` -- each refuses every kind of uncommitted data exactly when it refuses for a
    reason of its own or the two stores it does not look at hold none;
  * `guards_miss_stores` -- all four succeed on a child with an unpublished local upper.
-/
import CccStorage.ManagedParent

namespace CccStorage

/-! ## 1. The three stores -/

/-- The latest published epoch of the async mirror. -/
structure PublishedMirror where
  tree : Tree
  baseGeneration : Nat
  fileCount : Nat
  bytes : Nat
  /-- The counts are taken from the tree when it is published. -/
  counted : fileCount = (dirtyStats tree).fileCount ∧ bytes = (dirtyStats tree).bytes

/-- Where the uncommitted data of a child may be. -/
structure DirtyStores where
  activeUpper : Tree
  mirror : Option PublishedMirror
  localUpper : Tree

inductive SwitchError where
  | dirtyUpper (id : String)
  | dirtyMirror (id : String)
  | dirtyLocalUpper (id : String)
  deriving DecidableEq, Repr

/-- `_assert_clean_for_write_policy_switch`. -/
def assertCleanForWritePolicySwitch (id : String) (stores : DirtyStores) :
    Except SwitchError Unit :=
  if (dirtyStats stores.activeUpper).dirty then .error (.dirtyUpper id)
  else if stores.mirror.any (0 < ·.fileCount) then .error (.dirtyMirror id)
  else if (dirtyStats stores.localUpper).dirty then .error (.dirtyLocalUpper id)
  else .ok ()

/-- The mirror and the local upper hold no regular files and no symlinks. -/
def AsyncClean (mirror : Option PublishedMirror) (localUpper : Tree) : Prop :=
  (∀ m ∈ mirror, (dirtyStats m.tree).dirty = false) ∧ (dirtyStats localUpper).dirty = false

/-- **No uncommitted data**: none of the three stores holds a regular file or a symlink. -/
def DirtyStores.Clean (stores : DirtyStores) : Prop :=
  (dirtyStats stores.activeUpper).dirty = false ∧ AsyncClean stores.mirror stores.localUpper

theorem dirtyStats_dirty_iff {t : Tree} :
    (dirtyStats t).dirty = true ↔ 0 < (dirtyStats t).fileCount := by
  unfold dirtyStats
  simp only [decide_eq_true_eq]

/-- **The guard of the policy switch** looks at all three. -/
theorem assertCleanForWritePolicySwitch_ok_iff (id : String) (stores : DirtyStores) :
    assertCleanForWritePolicySwitch id stores = .ok () ↔ stores.Clean := by
  have hmirror : stores.mirror.any (0 < ·.fileCount) = true ↔
      ¬ ∀ m ∈ stores.mirror, (dirtyStats m.tree).dirty = false := by
    cases stores.mirror with
    | none => simp
    | some m =>
        simp only [Option.any_some, decide_eq_true_eq, Option.mem_def, Option.some.injEq,
          forall_eq', m.counted.1, ← dirtyStats_dirty_iff]
        exact Bool.not_eq_false _ |>.symm.to_iff
  unfold assertCleanForWritePolicySwitch DirtyStores.Clean AsyncClean
  by_cases hu : (dirtyStats stores.activeUpper).dirty = true
  · rw [if_pos hu]
    exact ⟨nofun, fun h => absurd (h.1.symm.trans hu) Bool.false_ne_true⟩
  · rw [if_neg hu]
    by_cases hm : stores.mirror.any (0 < ·.fileCount) = true
    · rw [if_pos hm]
      exact ⟨nofun, fun h => absurd h.2.1 (hmirror.mp hm)⟩
    · rw [if_neg hm]
      have hclean := not_not.mp (mt hmirror.mpr hm)
      by_cases hl : (dirtyStats stores.localUpper).dirty = true
      · rw [if_pos hl]
        exact ⟨nofun, fun h => absurd (h.2.2.symm.trans hl) Bool.false_ne_true⟩
      · rw [if_neg hl]
        exact ⟨fun _ => ⟨Bool.eq_false_iff.mpr hu, hclean, Bool.eq_false_iff.mpr hl⟩,
          fun _ => rfl⟩

/-! ## 2. Archive with eviction -/

/-- What `handle_cold_archive` works on. -/
structure ArchiveState extends ColdWorld where
  activeUpper : Tree
  mounted : Bool
  /-- A cold store is configured. -/
  coldStore : Bool

inductive ArchiveError where
  | dirty (id : String)
  | mounted (id : String)
  | noColdStore
  | cold (e : ColdError)
  deriving DecidableEq, Repr

/-- `_assert_clean_for_cold_archive`. -/
def assertCleanForColdArchive (s : ArchiveState) (removeHot : Bool) : Except ArchiveError Unit :=
  if (dirtyStats s.activeUpper).dirty then .error (.dirty s.disk.id)
  else if removeHot && s.mounted then .error (.mounted s.disk.id)
  else .ok ()

/-- `handle_cold_archive`, under the cold lock. -/
def handleColdArchive (cfg : NodeConfig) (dumps : ChildManifest → Bytes) (keepHot : Bool)
    (stamp : String) (s : ArchiveState) : ArchiveState × Except ArchiveError ChildManifest :=
  match assertCleanForColdArchive s (!keepHot) with
  | .error e => (s, .error e)
  | .ok () =>
    if s.coldStore then
      match archivePacks dumps s.disk (cfg.coldPrefix s.disk.generation) (!keepHot) cfg.backend
          stamp s.toColdWorld with
      | (w, .error e) => ({ s with toColdWorld := w }, .error (.cold e))
      | (w, .ok archived) => ({ s with toColdWorld := w }, .ok archived)
    else (s, .error .noColdStore)

/-- **An archive with eviction succeeds** on an unmounted child with a clean shared upper, a store
    and all its hot packs. -/
theorem handleColdArchive_ok_iff (cfg : NodeConfig) (dumps : ChildManifest → Bytes)
    (stamp : String) (s : ArchiveState) :
    (∃ m, (handleColdArchive cfg dumps false stamp s).2 = .ok m) ↔
      (dirtyStats s.activeUpper).dirty = false ∧ s.mounted = false ∧ s.coldStore = true ∧
        ∀ p ∈ s.disk.lowers, (s.hot p.path).isSome := by
  unfold handleColdArchive assertCleanForColdArchive
  by_cases hu : (dirtyStats s.activeUpper).dirty = true
  · rw [if_pos hu]
    exact ⟨fun ⟨_, h⟩ => (nomatch h), fun h => absurd (h.1.symm.trans hu) Bool.false_ne_true⟩
  · rw [if_neg hu]
    cases hm : s.mounted with
    | true => exact ⟨fun ⟨_, h⟩ => (nomatch h), fun h => nomatch h.2.1⟩
    | false =>
        cases hc : s.coldStore with
        | false => exact ⟨fun ⟨_, h⟩ => (nomatch h), fun h => nomatch h.2.2.1⟩
        | true =>
            have hup : (∃ keys, (uploadPacks (cfg.coldPrefix s.disk.generation) s.disk.lowers
                s.toColdWorld).2 = .ok keys) ↔ ∀ p ∈ s.disk.lowers, (s.hot p.path).isSome :=
              uploadPacks_ok_iff
            simp only [Bool.not_false, Bool.and_false, Bool.false_eq_true, if_false, if_true,
              true_and, Bool.eq_false_iff.mpr hu]
            rw [← hup]
            unfold archivePacks
            cases hr : uploadPacks (cfg.coldPrefix s.disk.generation) s.disk.lowers
                s.toColdWorld with
            | mk w r =>
                cases r with
                | error e => exact ⟨fun ⟨_, h⟩ => (nomatch h), fun ⟨_, h⟩ => nomatch h⟩
                | ok keys => exact ⟨fun _ => ⟨keys, rfl⟩, fun _ => ⟨_, rfl⟩⟩

/-! ## 3. Observed children -/

/-- The registry of one observation root, by boundary path. -/
structure ObservedState where
  childIdPrefix : String
  manifests : String → Option ChildManifest
  mounted : String → Bool
  /-- The active uppers, by overlay root. -/
  uppers : String → Option Tree
  /-- The source directories of the boundaries: whether they are empty. -/
  sourceDirs : String → Option Bool

inductive ObservedError where
  | mounted (parentPath : String)
  | notGeneration0
  | dirty (parentPath : String)
  | cannotRemove (boundary : String)
  | notRegistered (boundary : String)
  | childExists (boundary : String)
  deriving DecidableEq, Repr

namespace ObservedState

def childId (s : ObservedState) (boundary : String) : String :=
  s.childIdPrefix ++ ":" ++ stripSlashes boundary

def upperOf (s : ObservedState) (id : String) : Tree := (s.uppers (safeNamespaceName id)).getD ⟨[]⟩

end ObservedState

/-- `_assert_mutable_generation0`. -/
def assertMutableGeneration0 (s : ObservedState) (m : ChildManifest) : Except ObservedError Unit :=
  if s.mounted m.id then .error (.mounted m.parentPath)
  else if m.generation ≠ 0 ∨ m.lowers ≠ [] then .error .notGeneration0
  else if (dirtyStats (s.upperOf m.id)).dirty then .error (.dirty m.parentPath)
  else .ok ()

/-- `rmdir_child`; a boundary that is not registered has no overlay to check or to remove. -/
def rmdirChild (s : ObservedState) (boundary : String) :
    ObservedState × Except ObservedError String :=
  let gone := { s with
    sourceDirs := Function.update s.sourceDirs boundary none
    manifests := Function.update s.manifests boundary none }
  match s.manifests boundary with
  | none =>
    if s.sourceDirs boundary = some true then (gone, .ok boundary)
    else (s, .error (.cannotRemove boundary))
  | some m =>
    match assertMutableGeneration0 s m with
    | .error e => (s, .error e)
    | .ok () =>
      if s.sourceDirs boundary = some true then
        ({ gone with uppers := Function.update s.uppers (safeNamespaceName m.id) none },
          .ok boundary)
      else (s, .error (.cannotRemove boundary))

/-- `rename_child` between two boundaries of one root: the child gets a new id, and its overlay
    root under the old one is removed. -/
def renameObserved (s : ObservedState) (oldBoundary newBoundary newName : String) :
    ObservedState × Except ObservedError ChildManifest :=
  match s.manifests oldBoundary with
  | none => (s, .error (.notRegistered oldBoundary))
  | some m =>
    if (s.manifests newBoundary).isSome ∨ (s.sourceDirs newBoundary).isSome then
      (s, .error (.childExists newBoundary))
    else
      match assertMutableGeneration0 s m with
      | .error e => (s, .error e)
      | .ok () =>
        let updated := { m with
          id := s.childId newBoundary
          name := newName
          parentPath := newBoundary
          overlay := {
            mode := "shared-overlay"
            activeUpper := safeNamespaceName (s.childId newBoundary)
            overlayGeneration := m.overlay.overlayGeneration } }
        ({ s with
            sourceDirs := Function.update
              (Function.update s.sourceDirs newBoundary (s.sourceDirs oldBoundary)) oldBoundary none
            uppers := Function.update s.uppers (safeNamespaceName m.id) none
            manifests := Function.update
              (Function.update s.manifests newBoundary (some updated)) oldBoundary none },
          .ok updated)

section Observed

variable {s : ObservedState} {m : ChildManifest} {boundary newBoundary newName : String}

/-- The guard of an observed child looks at its mount, its packs and its shared upper. -/
theorem assertMutableGeneration0_ok_iff :
    assertMutableGeneration0 s m = .ok () ↔
      s.mounted m.id = false ∧ m.generation = 0 ∧ m.lowers = [] ∧
        (dirtyStats (s.upperOf m.id)).dirty = false := by
  unfold assertMutableGeneration0
  by_cases hm : s.mounted m.id = true
  · rw [if_pos hm]
    exact ⟨nofun, fun h => absurd (h.1.symm.trans hm) Bool.false_ne_true⟩
  · rw [if_neg hm]
    by_cases hg : m.generation ≠ 0 ∨ m.lowers ≠ []
    · rw [if_pos hg]
      exact ⟨nofun, fun h => (hg.elim (· h.2.1) (· h.2.2.1)).elim⟩
    · rw [if_neg hg]
      rw [not_or, not_ne_iff, not_ne_iff] at hg
      by_cases hu : (dirtyStats (s.upperOf m.id)).dirty = true
      · rw [if_pos hu]
        exact ⟨nofun, fun h => absurd (h.2.2.2.symm.trans hu) Bool.false_ne_true⟩
      · rw [if_neg hu]
        exact ⟨fun _ => ⟨Bool.eq_false_iff.mpr hm, hg.1, hg.2, Bool.eq_false_iff.mpr hu⟩,
          fun _ => rfl⟩

/-- **A registered child is removed** when its guard passes and its directory is empty. -/
theorem rmdirChild_ok_iff (hreg : s.manifests boundary = some m) :
    (∃ b, (rmdirChild s boundary).2 = .ok b) ↔
      assertMutableGeneration0 s m = .ok () ∧ s.sourceDirs boundary = some true := by
  unfold rmdirChild
  rw [hreg]
  simp only
  cases assertMutableGeneration0 s m with
  | error e => exact ⟨fun ⟨_, h⟩ => (nomatch h), fun h => nomatch h.1⟩
  | ok =>
      simp only [true_and]
      split
      · rename_i hdir
        exact ⟨fun _ => hdir, fun _ => ⟨boundary, rfl⟩⟩
      · rename_i hdir
        exact ⟨fun ⟨_, h⟩ => (nomatch h), fun h => absurd h hdir⟩

/-- **A registered child is renamed** when its guard passes and nothing is at the new boundary. -/
theorem renameObserved_ok_iff (hreg : s.manifests boundary = some m) :
    (∃ m', (renameObserved s boundary newBoundary newName).2 = .ok m') ↔
      assertMutableGeneration0 s m = .ok () ∧ s.manifests newBoundary = none ∧
        s.sourceDirs newBoundary = none := by
  unfold renameObserved
  rw [hreg]
  simp only
  by_cases hnew : (s.manifests newBoundary).isSome ∨ (s.sourceDirs newBoundary).isSome
  · rw [if_pos hnew]
    refine ⟨fun ⟨_, h⟩ => (nomatch h), fun h => ?_⟩
    rw [h.2.1, h.2.2] at hnew
    exact (hnew.elim (nomatch ·) (nomatch ·))
  · rw [if_neg hnew]
    rw [not_or, Option.not_isSome_iff_eq_none, Option.not_isSome_iff_eq_none] at hnew
    cases assertMutableGeneration0 s m with
    | error e => exact ⟨fun ⟨_, h⟩ => (nomatch h), fun h => nomatch h.1⟩
    | ok => exact ⟨fun _ => ⟨rfl, hnew.1, hnew.2⟩, fun _ => ⟨_, rfl⟩⟩

end Observed

/-! ## 4. Children of a managed parent -/

/-- **A child of a managed parent is removed** when it has no packs and its shared upper is
    clean. -/
theorem removeChild_ok_iff {cfg : ParentConfig} {s : ParentState} {name : String}
    {m : ChildManifest} (hload : s.load (safeName name) = some m) :
    (∃ r, (removeChild cfg s name).2 = .ok r) ↔
      m.generation = 0 ∧ m.lowers = [] ∧ (dirtyStats (s.upperOf m.id)).dirty = false := by
  unfold removeChild
  rw [hload]
  simp only
  by_cases hg : m.generation > 0 ∨ m.lowers ≠ []
  · rw [if_pos hg]
    refine ⟨fun ⟨_, h⟩ => (nomatch h), fun h => ?_⟩
    exact (hg.elim (fun hpos => absurd h.1 (by omega)) (· h.2.1)).elim
  · rw [if_neg hg]
    rw [not_or, not_ne_iff] at hg
    by_cases hu : (dirtyStats (s.upperOf m.id)).dirty = true
    · rw [if_pos hu]
      exact ⟨fun ⟨_, h⟩ => (nomatch h), fun h => absurd (h.2.2.symm.trans hu) Bool.false_ne_true⟩
    · rw [if_neg hu]
      exact ⟨fun _ => ⟨by omega, hg.2, Bool.eq_false_iff.mpr hu⟩, fun _ => ⟨_, rfl⟩⟩

/-! ## 5. What the guards miss -/

/-- What an archive refuses on its own. -/
def ArchiveState.Refuses (s : ArchiveState) : Prop :=
  (dirtyStats s.activeUpper).dirty = true ∨ s.mounted = true ∨ s.coldStore = false ∨
    ∃ p ∈ s.disk.lowers, s.hot p.path = none

/-- What a removal or a rename of an observed child refuses on its own. -/
def ObservedState.Refuses (s : ObservedState) (m : ChildManifest) : Prop :=
  s.mounted m.id = true ∨ m.generation ≠ 0 ∨ m.lowers ≠ [] ∨
    (dirtyStats (s.upperOf m.id)).dirty = true

/-- What a removal from a managed parent refuses on its own. -/
def ParentState.Refuses (s : ParentState) (m : ChildManifest) : Prop :=
  m.generation ≠ 0 ∨ m.lowers ≠ [] ∨ (dirtyStats (s.upperOf m.id)).dirty = true

/-- A guard that looks at the shared upper only. -/
theorem guard_iff {succeeds refuses : Prop} {id : String} {stores : DirtyStores}
    (h : succeeds ↔ ¬ refuses)
    (hu : succeeds → (dirtyStats stores.activeUpper).dirty = false) :
    (succeeds → assertCleanForWritePolicySwitch id stores = .ok ()) ↔
      refuses ∨ AsyncClean stores.mirror stores.localUpper := by
  rw [assertCleanForWritePolicySwitch_ok_iff]
  constructor
  · intro hclean
    by_cases hr : refuses
    · exact .inl hr
    · exact .inr (hclean (h.mpr hr)).2
  · intro hor hs
    exact ⟨hu hs, hor.resolve_left (h.mp hs)⟩

section Guards

variable {s : ObservedState} {m : ChildManifest}

theorem ObservedState.not_refuses_iff :
    ¬ s.Refuses m ↔ assertMutableGeneration0 s m = .ok () := by
  rw [assertMutableGeneration0_ok_iff]
  unfold ObservedState.Refuses
  simp only [not_or, Bool.not_eq_true, not_ne_iff]

end Guards

/-- **The destructive operations refuse every kind of uncommitted data**, as the policy switch
    does, exactly when they refuse for a reason of their own or the mirror and the local upper hold
    none: whatever the write policy, none of them looks at these two. -/
theorem guards_iff (mirror : Option PublishedMirror) (localUpper : Tree) :
    (∀ (cfg : NodeConfig) (dumps : ChildManifest → Bytes) (stamp : String) (s : ArchiveState),
      ((∃ m, (handleColdArchive cfg dumps false stamp s).2 = .ok m) →
          assertCleanForWritePolicySwitch s.disk.id ⟨s.activeUpper, mirror, localUpper⟩ = .ok ()) ↔
        s.Refuses ∨ AsyncClean mirror localUpper) ∧
    (∀ (s : ObservedState) (boundary : String) (m : ChildManifest),
      s.manifests boundary = some m →
      (((∃ b, (rmdirChild s boundary).2 = .ok b) →
          assertCleanForWritePolicySwitch m.id ⟨s.upperOf m.id, mirror, localUpper⟩ = .ok ()) ↔
        (s.Refuses m ∨ s.sourceDirs boundary ≠ some true) ∨ AsyncClean mirror localUpper)) ∧
    (∀ (s : ObservedState) (boundary newBoundary newName : String) (m : ChildManifest),
      s.manifests boundary = some m →
      (((∃ m', (renameObserved s boundary newBoundary newName).2 = .ok m') →
          assertCleanForWritePolicySwitch m.id ⟨s.upperOf m.id, mirror, localUpper⟩ = .ok ()) ↔
        (s.Refuses m ∨ s.manifests newBoundary ≠ none ∨ s.sourceDirs newBoundary ≠ none) ∨
          AsyncClean mirror localUpper)) ∧
    (∀ (cfg : ParentConfig) (s : ParentState) (name : String) (m : ChildManifest),
      s.load (safeName name) = some m →
      (((∃ r, (removeChild cfg s name).2 = .ok r) →
          assertCleanForWritePolicySwitch m.id ⟨s.upperOf m.id, mirror, localUpper⟩ = .ok ()) ↔
        s.Refuses m ∨ AsyncClean mirror localUpper)) := by
  refine ⟨fun cfg dumps stamp s => ?_, fun s boundary m hreg => ?_,
    fun s boundary newBoundary newName m hreg => ?_, fun cfg s name m hload => ?_⟩
  · have hok := handleColdArchive_ok_iff cfg dumps stamp s
    refine guard_iff (hok.trans ?_) fun hs => (hok.mp hs).1
    unfold ArchiveState.Refuses
    simp only [not_or, Bool.not_eq_true, Bool.not_eq_false, not_exists, not_and,
      ← Option.isSome_iff_ne_none]
  · have hok := rmdirChild_ok_iff hreg
    refine guard_iff (hok.trans ?_) fun hs => ?_
    · rw [not_or, ObservedState.not_refuses_iff, not_ne_iff]
    · exact (assertMutableGeneration0_ok_iff.mp (hok.mp hs).1).2.2.2
  · have hok : (∃ m', (renameObserved s boundary newBoundary newName).2 = .ok m') ↔ _ :=
      renameObserved_ok_iff hreg
    refine guard_iff (hok.trans ?_) fun hs => ?_
    · rw [not_or, not_or, ObservedState.not_refuses_iff, not_ne_iff, not_ne_iff]
    · exact (assertMutableGeneration0_ok_iff.mp (hok.mp hs).1).2.2.2
  · have hok : (∃ r, (removeChild cfg s name).2 = .ok r) ↔ _ := removeChild_ok_iff hload
    refine guard_iff (hok.trans ?_) fun hs => (hok.mp hs).2.2
    unfold ParentState.Refuses
    simp only [not_or, Bool.not_eq_true, not_ne_iff]

/-! ### A child with an unpublished local upper -/

/-- A file that was written through a local-SSD mount and is nowhere else. -/
def unpublished : Tree := ⟨[(["result"], .file [1])]⟩

/-- An observed child of generation 0 with an empty source directory. -/
def observedEnv : ObservedState where
  childIdPrefix := "observe"
  manifests := Function.update (fun _ => none) "env" (some {
    id := "observe:env"
    name := "env"
    type := "observed-child"
    generation := 0
    parentPath := "env"
    writePolicy := .localSsdAsync })
  mounted := fun _ => false
  uppers := fun _ => none
  sourceDirs := Function.update (fun _ => none) "env" (some true)

/-- A committed child with its pack hot. -/
def archivable : ArchiveState where
  toColdWorld := hotChild.toColdWorld
  activeUpper := ⟨[]⟩
  mounted := false
  coldStore := true

/-- A managed parent with one child. -/
def oneChild : ParentState := (createChild datasetParent {} "a").1

theorem oneChild_load : oneChild.load (safeName "a") = some (newManifest datasetParent "a") := by
  decide +kernel

/-- With a clean mirror and a clean local upper each guard is enough. -/
theorem guards_iff_clean :
    ∃ m m', observedEnv.manifests "env" = some m ∧ oneChild.load (safeName "a") = some m' ∧
      (((∃ b, (rmdirChild observedEnv "env").2 = .ok b) →
          assertCleanForWritePolicySwitch m.id ⟨observedEnv.upperOf m.id, none, ⟨[]⟩⟩ = .ok ()) ↔
        (observedEnv.Refuses m ∨ observedEnv.sourceDirs "env" ≠ some true) ∨
          AsyncClean none ⟨[]⟩) ∧
      (((∃ c, (renameObserved observedEnv "env" "lab" "lab").2 = .ok c) →
          assertCleanForWritePolicySwitch m.id ⟨observedEnv.upperOf m.id, none, ⟨[]⟩⟩ = .ok ()) ↔
        (observedEnv.Refuses m ∨ observedEnv.manifests "lab" ≠ none ∨
          observedEnv.sourceDirs "lab" ≠ none) ∨ AsyncClean none ⟨[]⟩) ∧
      (((∃ r, (removeChild datasetParent oneChild "a").2 = .ok r) →
          assertCleanForWritePolicySwitch m'.id ⟨oneChild.upperOf m'.id, none, ⟨[]⟩⟩ = .ok ()) ↔
        oneChild.Refuses m' ∨ AsyncClean none ⟨[]⟩) := by
  have hall := guards_iff none ⟨[]⟩
  refine ⟨_, _, rfl, oneChild_load, ?_, ?_, ?_⟩
  · exact hall.2.1 observedEnv "env" _ rfl
  · exact hall.2.2.1 observedEnv "env" "lab" "lab" _ rfl
  · exact hall.2.2.2 datasetParent oneChild "a" _ oneChild_load

/-- **Each of the four operations succeeds** on a child whose local upper holds a file that is
    nowhere else. -/
theorem guards_miss_stores :
    (∃ m, (handleColdArchive coldNode (fun _ => []) false "2026-01-01T00:00:00Z"
        archivable).2 = .ok m) ∧
      (∃ b, (rmdirChild observedEnv "env").2 = .ok b) ∧
      (∃ m, (renameObserved observedEnv "env" "lab" "lab").2 = .ok m) ∧
      (∃ r, (removeChild datasetParent oneChild "a").2 = .ok r) ∧
      assertCleanForWritePolicySwitch "env" ⟨archivable.activeUpper, none, unpublished⟩ =
        .error (.dirtyLocalUpper "env") ∧
      assertCleanForWritePolicySwitch "observe:env"
        ⟨observedEnv.upperOf "observe:env", none, unpublished⟩ =
        .error (.dirtyLocalUpper "observe:env") ∧
      assertCleanForWritePolicySwitch "dataset:a"
        ⟨oneChild.upperOf "dataset:a", none, unpublished⟩ =
        .error (.dirtyLocalUpper "dataset:a") := by
  refine ⟨⟨_, rfl⟩, ⟨_, rfl⟩, ⟨_, rfl⟩, ?_, rfl, by decide, by decide +kernel⟩
  exact (removeChild_ok_iff oneChild_load).mpr ⟨rfl, rfl, by decide +kernel⟩

end CccStorage
