/-
  File:      CccStorage/ObservedMoves.lean
  Subject:   `rmdir_child` and `rename_child` of an observation root (`mountd/observation.py`), with
             an exception or a crash at any of their steps.

  Both change the source directory first, and the overlay and the manifests after it, by calls of
  their own. Nothing is undone when one of these does not come about.

  * `ObservedDisk` -- the source, the manifest files and the overlays;
  * `MoveEnv` -- at which steps an operation is stopped, and what `rmtree` leaves;
  * `rmdirChild`, `renameChild` -- the operations, one step for each call;
  * `AllOrNothing` -- the old state or the new one, and no child without its directory;
  * `rmdirChild_iff`, `renameChild_iff` -- exactly when an operation is that;
  * `rmdirChild_owned`, `renameChild_owned` -- each manifest stays its boundary's own;
  * `moves_allOrNothing_iff` -- both; `stoppedDump_splits` -- a rename that is not.
-/
import CccStorage.Delta
import CccStorage.Names
import CccStorage.ObservedMkdir
import CccStorage.PathTexts
import CccStorage.Lib.Programs

namespace CccStorage.ObservedMoves

open ObservedMkdir (ObservedBoundary)
open Lib (Keeps exec exec_bind exec_get exec_modify exec_pure exec_throw)

/-! ## 1. The disk -/

/-- **What `_exact_observed_boundary` returns**: the boundary, and the path its text is of. -/
structure ExactBoundary extends ObservedBoundary where
  path : Path
  ne_nil : path ≠ []
  names : ∀ n ∈ path, PathName n
  exact : boundaryPath = pathText path

/-- `child_id`. -/
abbrev ExactBoundary.id (b : ExactBoundary) : String := ObservedMkdir.childId b.toObservedBoundary

/-- What a root keeps for its children. -/
structure ObservedDisk where
  /-- What is below the source root. -/
  source : Tree
  /-- The manifests in the registry, by file name. -/
  manifests : String → Option ChildManifest
  /-- The active uppers of the overlays, by the name of the overlay. -/
  overlays : String → Option Tree

/-- `manifest_path_for_boundary`: the name of the file. -/
def manifestFile (boundaryPath : String) : String := safeNamespaceName boundaryPath ++ ".toml"

/-- `OverlayPaths.for_child`: the name of the directory. -/
def overlayDir (id : String) : String := safeNamespaceName id

/-- `os.rename` of a directory. -/
def movePath (t : Tree) (old new : Path) : Tree :=
  ⟨((t.removeTree old).removeTree new).nodes ++ t.nodes.filterMap fun x =>
    if old.isPrefixOf x.1 then some (new ++ x.1.drop old.length, x.2) else none⟩

def setSource (t : Tree) (d : ObservedDisk) : ObservedDisk := { d with source := t }

def setManifest (file : String) (v : Option ChildManifest) (d : ObservedDisk) : ObservedDisk :=
  { d with manifests := Function.update d.manifests file v }

def setOverlay (dir : String) (v : Option Tree) (d : ObservedDisk) : ObservedDisk :=
  { d with overlays := Function.update d.overlays dir v }

/-! ## 2. The operations -/

/-- A call of the operations at which they may be stopped. -/
inductive MoveStep where
  | loadManifest
  | mountStatus
  | dirtyStats
  /-- `child_path.rmdir()`, and `rename` of the directory. -/
  | moveDir
  | removeOverlay
  /-- `dump_atomic`, up to the replacement of the file. -/
  | dump
  /-- `_fsync_dir` at its end. -/
  | syncDump
  | chownManifest
  | chownDir
  | unlinkManifest
  /-- `ensure_active_upper`, up to the upper. -/
  | makeUpper
  /-- The rest of `_status`. -/
  | status
  deriving DecidableEq

/-- **What an operation meets.** A step that is stopped is not done, and nothing after it: that is
    an exception, or a crash. -/
structure MoveEnv where
  stops : MoveStep → Bool
  mounted : Bool
  /-- What `rmtree` with `ignore_errors` leaves of an overlay. -/
  left : Option Tree

abbrev MoveM := Lib.Program ObservedDisk Unit

def reach (env : MoveEnv) (step : MoveStep) : MoveM Unit :=
  if env.stops step then throw () else pure ()

/-- `_assert_mutable_generation0`. -/
def assertMutable (env : MoveEnv) (m : ChildManifest) : MoveM Unit := do
  reach env .mountStatus
  if env.mounted then throw ()
  else if m.generation ≠ 0 ∨ m.lowers ≠ [] then throw ()
  else do
    reach env .dirtyStats
    match (← get).overlays (overlayDir m.id) with
    | some upper => if (dirtyStats upper).dirty then throw () else pure ()
    | none => pure ()

/-- `load_manifest(manifest_path) if manifest_path.exists() else None`, and its assertion. -/
def assertRegistered (env : MoveEnv) (b : ObservedBoundary) : MoveM (Option ChildManifest) := do
  match (← get).manifests (manifestFile b.boundaryPath) with
  | none => pure none
  | some m => do
    reach env .loadManifest
    assertMutable env m
    pure (some m)

/-- `child_path.rmdir()`. -/
def removeDir (env : MoveEnv) (p : Path) : MoveM Unit := do
  reach env .moveDir
  let s ← get
  if s.source.get p = some .dir ∧ s.source.below p = [] then
    modify (setSource (s.source.removeTree p))
  else throw ()

/-- `if manifest_path.exists(): manifest_path.unlink()`. -/
def unlinkManifest (env : MoveEnv) (b : ObservedBoundary) : MoveM Unit := do
  match (← get).manifests (manifestFile b.boundaryPath) with
  | some _ => do
    reach env .unlinkManifest
    modify (setManifest (manifestFile b.boundaryPath) none)
  | none => pure ()

/-- `shutil.rmtree(overlay_paths.root, ignore_errors=True)`. -/
def removeOverlay (env : MoveEnv) (m : ChildManifest) : MoveM Unit := do
  match (← get).overlays (overlayDir m.id) with
  | some _ => do
    reach env .removeOverlay
    modify (setOverlay (overlayDir m.id) env.left)
  | none => pure ()

/-- `rmdir_child` of a boundary that is resolved. -/
def rmdirChild (env : MoveEnv) (b : ExactBoundary) : MoveM Unit := do
  let registered ← assertRegistered env b.toObservedBoundary
  removeDir env b.path
  unlinkManifest env b.toObservedBoundary
  match registered with
  | some m => removeOverlay env m
  | none => pure ()

/-- The manifest under the new name. -/
def renamedManifest (new : ObservedBoundary) (m : ChildManifest) : ChildManifest :=
  { m with
    id := ObservedMkdir.childId new
    name := new.childName
    parentId := "observe-root:" ++ new.observationRel
    parentPath := new.boundaryPath
    overlay :=
      { mode := "shared-overlay", activeUpper := new.activeUpper
        overlayGeneration := m.overlay.overlayGeneration } }

/-- The source directory is renamed; never into itself. -/
def moveDir (env : MoveEnv) (old new : Path) : MoveM Unit := do
  reach env .moveDir
  if old <+: new then throw ()
  else modify fun s => setSource (movePath s.source old new) s

/-- `dump_atomic` and `ownership.apply` of the new manifest, and of the directory. -/
def dumpManifest (env : MoveEnv) (new : ObservedBoundary) (m : ChildManifest) : MoveM Unit := do
  reach env .dump
  modify (setManifest (manifestFile new.boundaryPath) (some (renamedManifest new m)))
  reach env .syncDump
  reach env .chownManifest
  reach env .chownDir

/-- What follows the rename of the directory, up to the old manifest's `unlink`. -/
def moveManifest (env : MoveEnv) (old new : ObservedBoundary) (m : ChildManifest) : MoveM Unit := do
  removeOverlay env m
  dumpManifest env new m
  reach env .unlinkManifest
  modify (setManifest (manifestFile old.boundaryPath) none)

/-- `_status`: it makes the upper of the child. -/
def statusOf (env : MoveEnv) (id : String) : MoveM Unit := do
  reach env .makeUpper
  match (← get).overlays (overlayDir id) with
  | some _ => pure ()
  | none => modify (setOverlay (overlayDir id) (some ⟨[]⟩))
  reach env .status

/-- `rename_child` of two boundaries that are resolved. -/
def renameChild (env : MoveEnv) (old new : ExactBoundary) : MoveM Unit := do
  if old.observationRel ≠ new.observationRel then throw ()
  else
    let s ← get
    match s.manifests (manifestFile old.boundaryPath) with
    | none => throw ()
    | some m =>
      if (s.manifests (manifestFile new.boundaryPath)).isSome ∨ (s.source.get new.path).isSome then
        throw ()
      else do
        reach env .loadManifest
        assertMutable env m
        moveDir env old.path new.path
        moveManifest env old.toObservedBoundary new.toObservedBoundary m
        statusOf env new.id

/-! ## 3. All or nothing -/

/-- What an overlay shows: none shows what an empty one does. -/
def upperOf (overlay : Option Tree) : Tree := overlay.getD ⟨[]⟩

/-- No registered child loses its directory. -/
def KeepsDirs (s t : ObservedDisk) : Prop :=
  ∀ c : Path, c ≠ [] → (∀ n ∈ c, PathName n) → t.manifests (manifestFile (pathText c)) ≠ none →
    s.source.get c = some .dir → t.source.get c = some .dir

/-- **The old state or the new one**, and no other child without its directory. -/
def AllOrNothing (New : ObservedDisk → ObservedDisk → Prop) (s t : ObservedDisk) : Prop :=
  Xor (t = s) (New s t) ∧ KeepsDirs s t

/-- Everything of the child is gone, and nothing else. -/
structure Removed (b : ExactBoundary) (s t : ObservedDisk) : Prop where
  source : ∀ q, t.source.get q = if b.path <+: q then none else s.source.get q
  manifests : t.manifests = Function.update s.manifests (manifestFile b.boundaryPath) none
  overlays : t.overlays =
    Function.update s.overlays (overlayDir b.id) none

/-- **Everything of the child is under the new name**: the directory, the manifest with its new
    fields, and the overlay with what it showed. -/
structure Renamed (old new : ExactBoundary) (s t : ObservedDisk) : Prop where
  gone : t.source.get old.path = none
  source : ∀ q, t.source.get q =
    if new.path <+: q then s.source.get (old.path ++ q.drop new.path.length)
    else if old.path <+: q then none else s.source.get q
  manifests : ∃ m, s.manifests (manifestFile old.boundaryPath) = some m ∧
    t.manifests = Function.update
      (Function.update s.manifests (manifestFile new.boundaryPath)
        (some (renamedManifest new.toObservedBoundary m)))
      (manifestFile old.boundaryPath) none
  oldOverlay : t.overlays (overlayDir old.id) = none
  newOverlay : (upperOf (t.overlays (overlayDir new.id))).get =
    (upperOf (s.overlays (overlayDir old.id))).get
  present : s.overlays (overlayDir old.id) ≠ none →
    t.overlays (overlayDir new.id) ≠ none
  others : ∀ dir, dir ≠ overlayDir old.id →
    dir ≠ overlayDir new.id → t.overlays dir = s.overlays dir

/-- **A child the manager has**: its directory exists, and its manifest is its own. -/
structure Stands (s : ObservedDisk) (b : ExactBoundary) : Prop where
  dir : s.source.get b.path = some .dir
  own : ∀ m, s.manifests (manifestFile b.boundaryPath) = some m →
    m.id = b.id

/-- What `_assert_mutable_generation0` accepts, where it is not stopped. -/
structure Accepts (env : MoveEnv) (s : ObservedDisk) (m : ChildManifest) : Prop where
  status : env.stops .mountStatus = false
  unmounted : env.mounted = false
  first : m.generation = 0
  bare : m.lowers = []
  stats : env.stops .dirtyStats = false
  clean : ∀ upper, s.overlays (overlayDir m.id) = some upper → (dirtyStats upper).dirty = false

/-- `rmdir_child` removes the directory. -/
structure RmdirGoes (env : MoveEnv) (b : ExactBoundary) (s : ObservedDisk) : Prop where
  accepted : ∀ m, s.manifests (manifestFile b.boundaryPath) = some m →
    env.stops .loadManifest = false ∧ Accepts env s m
  moves : env.stops .moveDir = false
  empty : s.source.below b.path = []

/-- **After that, nothing is stopped and nothing is left.** -/
structure RmdirWhole (env : MoveEnv) (b : ExactBoundary) (s : ObservedDisk) : Prop where
  /-- A child without a manifest has no overlay. -/
  bare : s.manifests (manifestFile b.boundaryPath) = none →
    s.overlays (overlayDir b.id) = none
  unlinks : s.manifests (manifestFile b.boundaryPath) ≠ none → env.stops .unlinkManifest = false
  removes : s.manifests (manifestFile b.boundaryPath) ≠ none →
    s.overlays (overlayDir b.id) ≠ none →
      env.stops .removeOverlay = false ∧ env.left = none

/-- `rename_child` renames the directory. -/
structure RenameGoes (env : MoveEnv) (old new : ExactBoundary) (s : ObservedDisk)
    (m : ChildManifest) : Prop where
  sameRoot : old.observationRel = new.observationRel
  registered : s.manifests (manifestFile old.boundaryPath) = some m
  freeFile : s.manifests (manifestFile new.boundaryPath) = none
  freeDir : s.source.get new.path = none
  loads : env.stops .loadManifest = false
  accepted : Accepts env s m
  moves : env.stops .moveDir = false
  apart : ¬old.path <+: new.path

/-- It gets to the old manifest's `unlink`. -/
structure Unlinks (env : MoveEnv) (s : ObservedDisk) (m : ChildManifest) : Prop where
  removes : s.overlays (overlayDir m.id) ≠ none → env.stops .removeOverlay = false
  dumps : env.stops .dump = false
  syncs : env.stops .syncDump = false
  chowns : env.stops .chownManifest = false ∧ env.stops .chownDir = false
  unlinks : env.stops .unlinkManifest = false

/-- **After that, nothing is stopped, the overlay of the new name shows what the old one did, and
    no child is below the renamed one.** -/
structure RenameWhole (env : MoveEnv) (old new : ExactBoundary) (s : ObservedDisk)
    (m : ChildManifest) : Prop where
  unlinks : Unlinks env s m
  removed : s.overlays (overlayDir old.id) ≠ none → env.left = none
  shows : (upperOf (s.overlays (overlayDir new.id))).get =
    (upperOf (s.overlays (overlayDir old.id))).get
  made : s.overlays (overlayDir old.id) ≠ none →
    s.overlays (overlayDir new.id) ≠ none ∨ env.stops .makeUpper = false
  alone : ∀ c : Path, (∀ n ∈ c, PathName n) → old.path <+: c → c ≠ old.path →
    s.source.get c = some .dir → s.manifests (manifestFile (pathText c)) = none

/-! ## 4. What each call does -/

section Calls

variable {env : MoveEnv} {m : ChildManifest} {s : ObservedDisk} {step : MoveStep} {p q : Path}

theorem reach_go (h : env.stops step = false) : exec (reach env step) s = (.ok (), s) := by
  unfold reach
  rw [h]
  rfl

theorem reach_stop (h : env.stops step = true) : exec (reach env step) s = (.error (), s) := by
  unfold reach
  rw [h]
  rfl

theorem assertMutable_go (h : Accepts env s m) : exec (assertMutable env m) s = (.ok (), s) := by
  obtain ⟨hstatus, hunmounted, hfirst, hbare, hstats, hclean⟩ := h
  have hok : ¬(m.generation ≠ 0 ∨ m.lowers ≠ []) := by simp [hfirst, hbare]
  unfold assertMutable
  simp only [exec_bind, reach_go hstatus, hunmounted, Bool.false_eq_true, if_false, if_neg hok,
    reach_go hstats, exec_get]
  cases hupper : s.overlays (overlayDir m.id) with
  | none => rfl
  | some upper => simp [hclean upper hupper]

theorem assertMutable_stop (h : ¬Accepts env s m) :
    exec (assertMutable env m) s = (.error (), s) := by
  unfold assertMutable
  rw [exec_bind]
  by_cases hstatus : env.stops .mountStatus = true
  · rw [reach_stop hstatus]
  have hstatus : env.stops .mountStatus = false := Bool.eq_false_of_not_eq_true hstatus
  rw [reach_go hstatus]
  by_cases hmounted : env.mounted = true
  · simp [hmounted]
  by_cases hok : m.generation ≠ 0 ∨ m.lowers ≠ []
  · simp [hmounted, hok]
  simp only [hmounted, Bool.false_eq_true, if_false, if_neg hok, exec_bind]
  by_cases hstats : env.stops .dirtyStats = true
  · rw [reach_stop hstats]
  have hstats : env.stops .dirtyStats = false := Bool.eq_false_of_not_eq_true hstats
  simp only [reach_go hstats, exec_get]
  push Not at hok
  have haccepts : (∀ upper, s.overlays (overlayDir m.id) = some upper →
      (dirtyStats upper).dirty = false) → Accepts env s m := fun hclean =>
    ⟨hstatus, Bool.eq_false_of_not_eq_true hmounted, hok.1, hok.2, hstats, hclean⟩
  cases hupper : s.overlays (overlayDir m.id) with
  | none =>
      rw [hupper] at haccepts
      exact absurd (haccepts nofun) h
  | some upper =>
      have hdirty : (dirtyStats upper).dirty = true := by
        by_contra hclean
        refine h (haccepts fun upper' hsome => ?_)
        obtain rfl := Option.some.inj (hupper.symm.trans hsome)
        exact Bool.eq_false_of_not_eq_true hclean
      simp [hdirty]

theorem removeDir_go (hmoves : env.stops .moveDir = false) (hdir : s.source.get p = some .dir)
    (hempty : s.source.below p = []) :
    exec (removeDir env p) s = (.ok (), setSource (s.source.removeTree p) s) := by
  unfold removeDir
  rw [exec_bind, reach_go hmoves]
  show exec (if _ then _ else _) s = _
  rw [if_pos ⟨hdir, hempty⟩]
  rfl

theorem removeDir_stop
    (h : ¬(env.stops .moveDir = false ∧ s.source.get p = some .dir ∧ s.source.below p = [])) :
    exec (removeDir env p) s = (.error (), s) := by
  unfold removeDir
  rw [exec_bind]
  by_cases hmoves : env.stops .moveDir = true
  · rw [reach_stop hmoves]
  have hmoves : env.stops .moveDir = false := Bool.eq_false_of_not_eq_true hmoves
  rw [reach_go hmoves]
  show exec (if _ then _ else _) s = _
  rw [if_neg fun hdir => h ⟨hmoves, hdir⟩]
  rfl

theorem reach_keeps {I : ObservedDisk → Prop} : Keeps I (reach env step) fun _ => True := by
  unfold reach
  split
  · exact .throw
  · exact .pure trivial

/-- What an operation keeps whose last steps are about overlays and manifests. -/
theorem removeOverlay_keeps {I : ObservedDisk → Prop}
    (h : ∀ s, I s → I (setOverlay (overlayDir m.id) env.left s)) :
    Keeps I (removeOverlay env m) fun _ => True := by
  unfold removeOverlay
  refine .bind .state fun s _ => ?_
  split
  · exact .bind reach_keeps fun _ _ => .update h
  · exact .pure trivial

theorem unlinkManifest_keeps {I : ObservedDisk → Prop} {b : ObservedBoundary}
    (h : ∀ s, I s → I (setManifest (manifestFile b.boundaryPath) none s)) :
    Keeps I (unlinkManifest env b) fun _ => True := by
  unfold unlinkManifest
  refine .bind .state fun s _ => ?_
  split
  · exact .bind reach_keeps fun _ _ => .update h
  · exact .pure trivial

theorem removeOverlay_none (h : s.overlays (overlayDir m.id) = none) :
    exec (removeOverlay env m) s = (.ok (), s) := by
  unfold removeOverlay
  simp only [exec_bind, exec_get, h]
  rfl

theorem removeOverlay_go (h : s.overlays (overlayDir m.id) ≠ none)
    (hremoves : env.stops .removeOverlay = false) :
    exec (removeOverlay env m) s = (.ok (), setOverlay (overlayDir m.id) env.left s) := by
  obtain ⟨upper, hupper⟩ := Option.ne_none_iff_exists'.mp h
  unfold removeOverlay
  simp only [exec_bind, exec_get, hupper, reach_go hremoves]
  rfl

theorem removeOverlay_stop (h : s.overlays (overlayDir m.id) ≠ none)
    (hremoves : env.stops .removeOverlay = true) :
    exec (removeOverlay env m) s = (.error (), s) := by
  obtain ⟨upper, hupper⟩ := Option.ne_none_iff_exists'.mp h
  unfold removeOverlay
  simp only [exec_bind, exec_get, hupper, reach_stop hremoves]

end Calls

/-! ## 5. Removing a child -/

section Rmdir

variable {env : MoveEnv} {b : ExactBoundary} {m : ChildManifest} {s t : ObservedDisk}

theorem assertRegistered_go {b : ObservedBoundary}
    (h : ∀ m, s.manifests (manifestFile b.boundaryPath) = some m →
      env.stops .loadManifest = false ∧ Accepts env s m) :
    exec (assertRegistered env b) s = (.ok (s.manifests (manifestFile b.boundaryPath)), s) := by
  unfold assertRegistered
  simp only [exec_bind, exec_get]
  cases hm : s.manifests (manifestFile b.boundaryPath) with
  | none => rfl
  | some m =>
      obtain ⟨hloads, haccepts⟩ := h m hm
      simp only [exec_bind, reach_go hloads, assertMutable_go haccepts]
      rfl

theorem assertRegistered_stop {b : ObservedBoundary}
    (h : ¬∀ m, s.manifests (manifestFile b.boundaryPath) = some m →
      env.stops .loadManifest = false ∧ Accepts env s m) :
    exec (assertRegistered env b) s = (.error (), s) := by
  unfold assertRegistered
  simp only [exec_bind, exec_get]
  cases hm : s.manifests (manifestFile b.boundaryPath) with
  | none => exact absurd (fun m hsome => by rw [hm] at hsome; cases hsome) h
  | some m =>
      simp only [exec_bind]
      by_cases hloads : env.stops .loadManifest = true
      · rw [reach_stop hloads]
      have hloads : env.stops .loadManifest = false := Bool.eq_false_of_not_eq_true hloads
      rw [reach_go hloads]
      have hnot : ¬Accepts env s m := fun haccepts => h fun m' hsome => by
        obtain rfl := Option.some.inj (hm.symm.trans hsome)
        exact ⟨hloads, haccepts⟩
      simp only [assertMutable_stop hnot]

/-- An `rmdir_child` that does not remove the directory does nothing. -/
theorem rmdirChild_stop (h : ¬RmdirGoes env b s) : (exec (rmdirChild env b) s).2 = s := by
  unfold rmdirChild
  rw [exec_bind]
  by_cases haccepted : ∀ m, s.manifests (manifestFile b.boundaryPath) = some m →
      env.stops .loadManifest = false ∧ Accepts env s m
  · rw [assertRegistered_go haccepted]
    simp only [exec_bind]
    rw [removeDir_stop fun ⟨hmoves, hdir, hempty⟩ => h ⟨haccepted, hmoves, hempty⟩]
  · rw [assertRegistered_stop haccepted]

/-- What follows when it does. -/
theorem rmdirChild_go (hdir : s.source.get b.path = some .dir) (h : RmdirGoes env b s) :
    exec (rmdirChild env b) s =
      exec (do
        unlinkManifest env b.toObservedBoundary
        match s.manifests (manifestFile b.boundaryPath) with
        | some m => removeOverlay env m
        | none => pure ()) (setSource (s.source.removeTree b.path) s) := by
  unfold rmdirChild
  rw [exec_bind, assertRegistered_go h.accepted]
  simp only [exec_bind]
  rw [removeDir_go h.moves hdir h.empty]

theorem rmdirChild_source (hdir : s.source.get b.path = some .dir) (h : RmdirGoes env b s) :
    (exec (rmdirChild env b) s).2.source = s.source.removeTree b.path := by
  rw [rmdirChild_go hdir h]
  have hkeeps : Keeps (fun t => t.source = s.source.removeTree b.path) (do
      unlinkManifest env b.toObservedBoundary
      match s.manifests (manifestFile b.boundaryPath) with
      | some m => removeOverlay env m
      | none => pure ()) fun _ => True := by
    refine .bind (unlinkManifest_keeps fun _ ht => ht) fun _ _ => ?_
    split
    · exact removeOverlay_keeps fun _ ht => ht
    · exact .pure trivial
  exact (hkeeps _ rfl).1

/-- The disk when nothing but the directory is gone. -/
theorem rmdirChild_unlinkless (hdir : s.source.get b.path = some .dir) (h : RmdirGoes env b s)
    (hunlink : s.manifests (manifestFile b.boundaryPath) ≠ none →
      env.stops .unlinkManifest = true) :
    (exec (rmdirChild env b) s).2 = setSource (s.source.removeTree b.path) s := by
  rw [rmdirChild_go hdir h, exec_bind]
  unfold unlinkManifest
  simp only [exec_bind, exec_get]
  cases hm : s.manifests (manifestFile b.boundaryPath) with
  | none =>
      rw [show (setSource (s.source.removeTree b.path) s).manifests
        (manifestFile b.boundaryPath) = none from hm]
      rfl
  | some m =>
      rw [show (setSource (s.source.removeTree b.path) s).manifests
        (manifestFile b.boundaryPath) = some m from hm]
      simp only [exec_bind, reach_stop (hunlink (by rw [hm]; exact Option.some_ne_none m))]

/-- The disk from which the overlay is removed. -/
def unregistered (b : ExactBoundary) (s : ObservedDisk) : ObservedDisk :=
  setManifest (manifestFile b.boundaryPath) none (setSource (s.source.removeTree b.path) s)

theorem rmdirChild_unlinked (hdir : s.source.get b.path = some .dir) (h : RmdirGoes env b s)
    (hm : s.manifests (manifestFile b.boundaryPath) = some m)
    (hunlink : env.stops .unlinkManifest = false) :
    exec (rmdirChild env b) s = exec (removeOverlay env m) (unregistered b s) := by
  rw [rmdirChild_go hdir h, exec_bind]
  unfold unlinkManifest
  simp only [exec_bind, exec_get]
  rw [show (setSource (s.source.removeTree b.path) s).manifests
    (manifestFile b.boundaryPath) = some m from hm]
  simp only [exec_bind, reach_go hunlink, hm]
  rfl

/-- Nothing lies below a directory that is empty. -/
theorem not_below {c : Path} (h : s.source.below b.path = []) (hpre : b.path <+: c)
    (hne : c ≠ b.path) : s.source.get c = none := by
  obtain ⟨r, rfl⟩ := hpre
  by_contra hget
  have hr : r ≠ [] := fun hr => hne (by rw [hr, List.append_nil])
  have hmem : r ∈ s.source.below b.path := Tree.mem_below.mpr ⟨hr, hget⟩
  rw [h] at hmem
  exact List.not_mem_nil hmem

/-- No other child loses its directory by a removal. -/
theorem Removed.keepsDirs (h : Removed b s t) (hempty : s.source.below b.path = []) :
    KeepsDirs s t := by
  intro c _ _ hreg hdir
  have hne : c ≠ b.path := by
    rintro rfl
    refine hreg ?_
    rw [h.manifests, b.exact]
    exact Function.update_self ..
  rw [h.source, if_neg fun hpre => ?_]
  · exact hdir
  · rw [not_below hempty hpre hne] at hdir
    cases hdir

/-- Where the directory and the manifest are gone, the overlay decides. -/
theorem removed_iff (hsource : t.source = s.source.removeTree b.path)
    (hmanifests : t.manifests = Function.update s.manifests (manifestFile b.boundaryPath) none) :
    Removed b s t ↔ t.overlays =
      Function.update s.overlays (overlayDir b.id) none := by
  refine ⟨fun h => h.overlays, fun h => ⟨fun q => ?_, hmanifests, h⟩⟩
  rw [hsource]
  exact Tree.get_removeTree b.ne_nil

theorem update_none_iff {overlays : String → Option Tree} {dir : String} :
    overlays = Function.update overlays dir none ↔ overlays dir = none := by
  constructor
  · intro h
    rw [h]
    exact Function.update_self ..
  · intro h
    rw [← h, Function.update_eq_self]

/-- **What `rmdir_child` leaves of a child it removes**: nothing, exactly when it is whole. -/
theorem removed_iff_whole (hb : Stands s b) (h : RmdirGoes env b s) :
    Removed b s (exec (rmdirChild env b) s).2 ↔ RmdirWhole env b s := by
  cases hm : s.manifests (manifestFile b.boundaryPath) with
  | none =>
      rw [rmdirChild_unlinkless hb.dir h fun hne => absurd hm hne]
      have hmanifests : s.manifests =
          Function.update s.manifests (manifestFile b.boundaryPath) none := by
        rw [← hm, Function.update_eq_self]
      have hiff := removed_iff (b := b) (t := setSource (s.source.removeTree b.path) s) rfl
        hmanifests
      refine (hiff.trans update_none_iff).trans ⟨fun hbare => ?_, fun hwhole => hwhole.bare hm⟩
      exact ⟨fun _ => hbare, fun hne => absurd hm hne, fun hne => absurd hm hne⟩
  | some m =>
      have hsome : s.manifests (manifestFile b.boundaryPath) ≠ none := by
        rw [hm]
        exact Option.some_ne_none m
      have hid : overlayDir m.id = overlayDir b.id := by rw [hb.own m hm]
      by_cases hunlink : env.stops .unlinkManifest = true
      · rw [rmdirChild_unlinkless hb.dir h fun _ => hunlink]
        refine ⟨fun hremoved => ?_, fun hwhole => ?_⟩
        · -- the manifest is still there
          have hgone : s.manifests (manifestFile b.boundaryPath) = none := by
            refine (congrFun hremoved.manifests _).trans ?_
            exact Function.update_self ..
          exact absurd hgone hsome
        · rw [hwhole.unlinks hsome] at hunlink
          cases hunlink
      have hunlink : env.stops .unlinkManifest = false := Bool.eq_false_of_not_eq_true hunlink
      rw [rmdirChild_unlinked hb.dir h hm hunlink]
      by_cases hover : s.overlays (overlayDir b.id) = none
      · rw [removeOverlay_none (by rw [hid]; exact hover)]
        refine (removed_iff rfl rfl).trans (update_none_iff.trans ⟨fun _ => ?_, fun _ => hover⟩)
        exact ⟨fun hnone => absurd hnone hsome, fun _ => hunlink, fun _ hne => absurd hover hne⟩
      have hover' : (unregistered b s).overlays (overlayDir m.id) ≠ none := by
        rw [hid]
        exact hover
      by_cases hremoves : env.stops .removeOverlay = true
      · rw [removeOverlay_stop hover' hremoves]
        refine ⟨fun hremoved => ?_, fun hwhole => ?_⟩
        · -- the overlay is still there
          exact absurd (update_none_iff.mp hremoved.overlays) hover
        · rw [(hwhole.removes hsome hover).1] at hremoves
          cases hremoves
      have hremoves : env.stops .removeOverlay = false := Bool.eq_false_of_not_eq_true hremoves
      rw [removeOverlay_go hover' hremoves]
      refine (removed_iff rfl rfl).trans ⟨fun hleft => ?_, fun hwhole => ?_⟩
      · have hnone := congrFun hleft (overlayDir m.id)
        rw [← hid, Function.update_self] at hnone
        have hleft : env.left = none := by
          refine Eq.trans (Eq.symm ?_) hnone
          exact Function.update_self (overlayDir m.id) env.left s.overlays
        exact ⟨fun hnone => absurd hnone hsome, fun _ => hunlink, fun _ _ => ⟨hremoves, hleft⟩⟩
      · rw [← (hwhole.removes hsome hover).2, ← hid]
        rfl

/-- **A removal is all or nothing** exactly when one that removes the directory is whole. -/
theorem rmdirChild_iff (hb : Stands s b) :
    AllOrNothing (Removed b) s (exec (rmdirChild env b) s).2 ↔
      (RmdirGoes env b s → RmdirWhole env b s) := by
  have hgone : Removed b s s → False := fun h => by
    have hnone := h.source b.path
    rw [if_pos List.prefix_rfl, hb.dir] at hnone
    cases hnone
  by_cases hgo : RmdirGoes env b s
  · rw [← removed_iff_whole hb hgo]
    constructor
    · rintro ⟨⟨hsame, -⟩ | ⟨hremoved, -⟩, -⟩ _
      · have hsource := rmdirChild_source hb.dir hgo
        have hdir := hb.dir
        rw [← hsame, hsource, Tree.get_removeTree b.ne_nil, if_pos List.prefix_rfl] at hdir
        cases hdir
      · exact hremoved
    · intro h
      refine ⟨.inr ⟨h hgo, fun hsame => ?_⟩, (h hgo).keepsDirs hgo.empty⟩
      have hremoved := h hgo
      rw [hsame] at hremoved
      exact hgone hremoved
  · rw [rmdirChild_stop hgo]
    exact ⟨fun _ h => absurd h hgo, fun _ => ⟨.inl ⟨rfl, hgone⟩, fun _ _ _ _ hdir => hdir⟩⟩

end Rmdir

/-! ## 6. Renaming a child -/

theorem lookup_moved {nodes : List (Path × Entry)} {old new q : Path} :
    (nodes.filterMap fun x => if old.isPrefixOf x.1 then
      some (new ++ x.1.drop old.length, x.2) else none).lookup q =
      if new <+: q then nodes.lookup (old ++ q.drop new.length) else none := by
  induction nodes with
  | nil => split <;> rfl
  | cons x nodes ih =>
      rw [List.filterMap_cons]
      by_cases hold : old.isPrefixOf x.1 = true
      · obtain ⟨r, hr⟩ := List.isPrefixOf_iff_prefix.mp hold
        rw [if_pos hold, List.lookup_cons, ← hr, List.drop_left]
        by_cases hq : q = new ++ r
        · subst hq
          rw [beq_self_eq_true, if_pos (List.prefix_append ..), List.drop_left, List.lookup_cons,
            ← hr, beq_self_eq_true]
        · rw [beq_eq_false_iff_ne.mpr hq, ih]
          by_cases hnew : new <+: q
          · have hne : old ++ q.drop new.length ≠ x.1 := by
              rw [← hr]
              intro heq
              refine hq ?_
              rw [← List.append_cancel_left heq]
              exact (List.prefix_iff_eq_append.mp hnew).symm
            rw [if_pos hnew, if_pos hnew, List.lookup_cons, beq_eq_false_iff_ne.mpr hne]
          · rw [if_neg hnew, if_neg hnew]
      · rw [if_neg hold, ih]
        have hne : old ++ q.drop new.length ≠ x.1 := fun heq =>
          hold (List.isPrefixOf_iff_prefix.mpr ⟨_, heq⟩)
        rw [List.lookup_cons, beq_eq_false_iff_ne.mpr hne]

/-- **What a renamed directory shows.** -/
theorem get_movePath {t : Tree} {old new q : Path} (hold : old ≠ []) (hnew : new ≠ []) :
    (movePath t old new).get q =
      if new <+: q then t.get (old ++ q.drop new.length)
      else if old <+: q then none else t.get q := by
  by_cases hq : q = []
  · subst hq
    rw [if_neg (by rwa [List.prefix_nil]), if_neg (by rwa [List.prefix_nil])]
    rfl
  have hkept := Tree.get_removeTree (t := t.removeTree old) (q := q) hnew
  rw [Tree.get_removeTree hold, Tree.get_of_ne hq] at hkept
  rw [Tree.get_of_ne hq]
  unfold movePath
  rw [List.lookup_append, hkept, lookup_moved]
  by_cases hpre : new <+: q
  · rw [if_pos hpre, if_pos hpre, if_pos hpre, Option.none_or, Tree.get_of_ne (by simp [hold])]
  · rw [if_neg hpre, if_neg hpre, if_neg hpre, Option.or_none]

section Names

variable {old new : ExactBoundary}

theorem childId_ne_empty (b : ObservedBoundary) : ObservedMkdir.childId b ≠ "" := by
  intro h
  have hlist := congrArg String.toList h
  simp [ObservedMkdir.childId] at hlist

theorem stripSlashes_boundary (b : ExactBoundary) :
    stripSlashes b.boundaryPath = b.boundaryPath := by
  rw [b.exact]
  exact strip_plain (plain_of_names b.names) b.ne_nil

/-- Two children of one manager have overlays of their own. -/
theorem overlayDir_ne (hmanager : old.childIdPrefix = new.childIdPrefix)
    (hne : old.path ≠ new.path) :
    overlayDir old.id ≠ overlayDir new.id := by
  intro h
  have hid := safeNamespaceName_inj (childId_ne_empty _) (childId_ne_empty _) h
  unfold ObservedMkdir.childId at hid
  rw [hmanager, stripSlashes_boundary, stripSlashes_boundary] at hid
  have hlist := congrArg String.toList hid
  rw [String.toList_append (t := old.boundaryPath),
    String.toList_append (t := new.boundaryPath)] at hlist
  have htext := String.toList_inj.mp (List.append_cancel_left hlist)
  rw [old.exact, new.exact] at htext
  exact hne (pathText_inj old.names new.names old.ne_nil new.ne_nil htext)

/-- And manifests of their own. -/
theorem manifestFile_inj {a c : Path} (ha : a ≠ []) (hc : c ≠ []) (hnames : ∀ n ∈ a, PathName n)
    (hnames' : ∀ n ∈ c, PathName n)
    (h : manifestFile (pathText a) = manifestFile (pathText c)) : a = c := by
  have hlist := congrArg String.toList h
  unfold manifestFile at hlist
  rw [String.toList_append, String.toList_append] at hlist
  have hname := String.toList_inj.mp (List.append_cancel_right hlist)
  refine pathText_inj hnames hnames' ha hc (safeNamespaceName_inj ?_ ?_ hname)
  · exact pathText_ne_empty (plain_of_names hnames) ha
  · exact pathText_ne_empty (plain_of_names hnames') hc

end Names

section Rename

variable {env : MoveEnv} {old new : ExactBoundary} {m : ChildManifest} {s t : ObservedDisk}

/-- A `rename_child` that does not rename the directory does nothing. -/
theorem renameChild_stop (h : ∀ m, ¬RenameGoes env old new s m) :
    (exec (renameChild env old new) s).2 = s := by
  unfold renameChild
  by_cases hroot : old.observationRel ≠ new.observationRel
  · rw [if_pos hroot]
    rfl
  rw [if_neg hroot, exec_bind, exec_get]
  dsimp only
  cases hm : s.manifests (manifestFile old.boundaryPath) with
  | none => rfl
  | some m =>
      dsimp only
      by_cases hfree : (s.manifests (manifestFile new.boundaryPath)).isSome ∨
          (s.source.get new.path).isSome
      · rw [if_pos hfree]
        rfl
      rw [if_neg hfree, exec_bind]
      by_cases hloads : env.stops .loadManifest = true
      · rw [reach_stop hloads]
      have hloads : env.stops .loadManifest = false := Bool.eq_false_of_not_eq_true hloads
      rw [reach_go hloads]
      dsimp only
      rw [exec_bind]
      by_cases haccepted : Accepts env s m
      · rw [assertMutable_go haccepted]
        dsimp only
        unfold moveDir
        rw [exec_bind, exec_bind]
        by_cases hmoves : env.stops .moveDir = true
        · rw [reach_stop hmoves]
        have hmoves : env.stops .moveDir = false := Bool.eq_false_of_not_eq_true hmoves
        rw [reach_go hmoves]
        dsimp only
        by_cases hinto : old.path <+: new.path
        · rw [if_pos hinto]
          rfl
        simp only [not_or, Option.not_isSome_iff_eq_none] at hfree
        have hgo : RenameGoes env old new s m :=
          ⟨not_not.mp hroot, hm, hfree.1, hfree.2, hloads, haccepted, hmoves, hinto⟩
        exact absurd hgo (h m)
      · rw [assertMutable_stop haccepted]

/-- The disk with the directory renamed, and nothing else done. -/
def dirMoved (old new : ExactBoundary) (s : ObservedDisk) : ObservedDisk :=
  setSource (movePath s.source old.path new.path) s

theorem unlinks_dirMoved : Unlinks env (dirMoved old new s) m ↔ Unlinks env s m :=
  ⟨fun h => ⟨h.removes, h.dumps, h.syncs, h.chowns, h.unlinks⟩,
    fun h => ⟨h.removes, h.dumps, h.syncs, h.chowns, h.unlinks⟩⟩

/-- What follows when it does. -/
theorem renameChild_go (h : RenameGoes env old new s m) :
    exec (renameChild env old new) s =
      exec (do
        moveManifest env old.toObservedBoundary new.toObservedBoundary m
        statusOf env new.id) (dirMoved old new s) := by
  have hfree : ¬((s.manifests (manifestFile new.boundaryPath)).isSome ∨
      (s.source.get new.path).isSome) := by
    rw [h.freeFile, h.freeDir]
    simp
  unfold renameChild
  rw [if_neg (not_not.mpr h.sameRoot), exec_bind, exec_get]
  simp only [h.registered]
  rw [if_neg hfree, exec_bind, reach_go h.loads]
  dsimp only
  rw [exec_bind, assertMutable_go h.accepted]
  dsimp only
  rw [exec_bind]
  unfold moveDir
  rw [exec_bind, reach_go h.moves]
  dsimp only
  rw [if_neg h.apart]
  rfl

/-! The steps up to the old manifest's `unlink`. -/

theorem dumpManifest_keeps {I : ObservedDisk → Prop} {b : ObservedBoundary}
    (h : ∀ s, I s → I (setManifest (manifestFile b.boundaryPath) (some (renamedManifest b m)) s)) :
    Keeps I (dumpManifest env b m) fun _ => True := by
  unfold dumpManifest
  exact .bind reach_keeps fun _ _ => .bind (.update h) fun _ _ =>
    .bind reach_keeps fun _ _ => .bind reach_keeps fun _ _ => reach_keeps

/-- Where one of them is stopped, the old manifest is still there. -/
theorem moveManifest_ends {old new : ObservedBoundary} {I : ObservedDisk → Prop}
    (hoverlay : ∀ s, I s → I (setOverlay (overlayDir m.id) env.left s))
    (hdump : ∀ s, I s →
      I (setManifest (manifestFile new.boundaryPath) (some (renamedManifest new m)) s)) :
    Lib.Ends I (moveManifest env old new m) (fun _ _ => True) I := by
  unfold moveManifest
  refine .after (removeOverlay_keeps hoverlay) (fun _ hs => hs) fun _ _ => ?_
  refine .after (dumpManifest_keeps hdump) (fun _ hs => hs) fun _ _ => ?_
  exact .after reach_keeps (fun _ hs => hs) fun _ _ => .update fun _ _ => trivial

/-- The disk after the `unlink`. -/
def manifestMoved (env : MoveEnv) (old new : ObservedBoundary) (m : ChildManifest)
    (s : ObservedDisk) : ObservedDisk :=
  setManifest (manifestFile old.boundaryPath) none
    (setManifest (manifestFile new.boundaryPath) (some (renamedManifest new m))
      (if s.overlays (overlayDir m.id) = none then s
        else setOverlay (overlayDir m.id) env.left s))

theorem dumpManifest_go {b : ObservedBoundary} (h : Unlinks env s m) (t : ObservedDisk) :
    exec (dumpManifest env b m) t =
      (.ok (), setManifest (manifestFile b.boundaryPath) (some (renamedManifest b m)) t) := by
  unfold dumpManifest
  simp only [exec_bind, reach_go h.dumps, exec_modify, reach_go h.syncs, reach_go h.chowns.1,
    reach_go h.chowns.2]

theorem moveManifest_go {old new : ObservedBoundary} (h : Unlinks env s m) :
    exec (moveManifest env old new m) s = (.ok (), manifestMoved env old new m s) := by
  unfold moveManifest manifestMoved
  rw [exec_bind]
  by_cases hover : s.overlays (overlayDir m.id) = none
  · rw [removeOverlay_none hover, if_pos hover]
    simp only [exec_bind, dumpManifest_go h, reach_go h.unlinks, exec_modify]
  · rw [removeOverlay_go hover (h.removes hover), if_neg hover]
    simp only [exec_bind, dumpManifest_go h, reach_go h.unlinks, exec_modify]

theorem reach_returns {step : MoveStep} :
    Lib.Returns (fun _ => True) (reach env step) (env.stops step = false) fun _ => True := by
  unfold reach
  cases env.stops step with
  | false => exact (Lib.Returns.pure trivial).congr (by simp) fun _ h => h
  | true => exact Lib.Returns.throw.congr (by simp) fun _ h => h

theorem dumpManifest_returns {b : ObservedBoundary} :
    Lib.Returns (fun _ => True) (dumpManifest env b m)
      (env.stops .dump = false ∧ True ∧ env.stops .syncDump = false ∧
        env.stops .chownManifest = false ∧ env.stops .chownDir = false) fun _ => True :=
  .bind reach_returns fun _ _ => .bind (.update fun _ _ => trivial) fun _ _ =>
    .bind reach_returns fun _ _ => .bind reach_returns fun _ _ => reach_returns

theorem dumped_returns {old new : ObservedBoundary} :
    Lib.Returns (fun _ => True)
      (do
        dumpManifest env new m
        reach env .unlinkManifest
        modify (setManifest (manifestFile old.boundaryPath) none))
      ((env.stops .dump = false ∧ True ∧ env.stops .syncDump = false ∧
        env.stops .chownManifest = false ∧ env.stops .chownDir = false) ∧
        env.stops .unlinkManifest = false ∧ True) fun _ => True :=
  dumpManifest_returns.bind fun _ _ => .bind reach_returns fun _ _ => .update fun _ _ => trivial

/-- **It gets to the `unlink`** exactly where none of them is stopped. -/
theorem moveManifest_returns {old new : ObservedBoundary} {u : Unit}
    (h : (exec (moveManifest env old new m) s).1 = .ok u) : Unlinks env s m := by
  have hafter : ∀ t, (exec (do
      dumpManifest env new m
      reach env .unlinkManifest
      modify (setManifest (manifestFile old.boundaryPath) none)) t).1 = .ok u →
      (s.overlays (overlayDir m.id) ≠ none → env.stops .removeOverlay = false) →
      Unlinks env s m := by
    intro t ht hremoves
    obtain ⟨⟨hdump, -, hsync, hchown, hchown'⟩, hunlink, -⟩ :=
      (dumped_returns.returns_iff t trivial).mp ⟨u, ht⟩
    exact ⟨hremoves, hdump, hsync, ⟨hchown, hchown'⟩, hunlink⟩
  unfold moveManifest at h
  rw [exec_bind] at h
  by_cases hover : s.overlays (overlayDir m.id) = none
  · rw [removeOverlay_none hover] at h
    exact hafter s h fun hne => absurd hover hne
  by_cases hremoves : env.stops .removeOverlay = true
  · rw [removeOverlay_stop hover hremoves] at h
    cases h
  have hremoves : env.stops .removeOverlay = false := Bool.eq_false_of_not_eq_true hremoves
  rw [removeOverlay_go hover hremoves] at h
  exact hafter _ h fun _ => hremoves

/-- **A rename that does not get to the `unlink`** leaves the manifest under the old name, and the
    directory under the new one. -/
theorem renameChild_split (hgo : RenameGoes env old new s m) (h : ¬Unlinks env s m) :
    (exec (renameChild env old new) s).2.source = movePath s.source old.path new.path ∧
      (exec (renameChild env old new) s).2.manifests (manifestFile old.boundaryPath) = some m := by
  have hfiles : manifestFile old.boundaryPath ≠ manifestFile new.boundaryPath := by
    intro heq
    have hnone := hgo.freeFile
    rw [← heq, hgo.registered] at hnone
    cases hnone
  rw [renameChild_go hgo, exec_bind]
  have hkeeps : Lib.Ends
      (fun t => t.source = movePath s.source old.path new.path ∧
        t.manifests (manifestFile old.boundaryPath) = some m)
      (moveManifest env old.toObservedBoundary new.toObservedBoundary m) (fun _ _ => True) _ :=
    moveManifest_ends (fun t ht => ht) fun t ht =>
      ⟨ht.1, (Function.update_of_ne hfiles ..).trans ht.2⟩
  have hends := hkeeps (dirMoved old new s) ⟨rfl, hgo.registered⟩
  rcases hrun : exec (moveManifest env old.toObservedBoundary new.toObservedBoundary m)
    (dirMoved old new s) with ⟨r, t⟩
  rw [hrun] at hends
  cases r with
  | ok u =>
      have hunlinks := moveManifest_returns (s := dirMoved old new s) (by rw [hrun])
      exact absurd (unlinks_dirMoved.mp hunlinks) h
  | error e => exact hends.2 e rfl

/-! The upper under the new name. -/

variable (env s) in
theorem statusOf_spec (id : String) :
    (exec (statusOf env id) s).2.source = s.source ∧
      (exec (statusOf env id) s).2.manifests = s.manifests ∧
      (∀ dir, dir ≠ overlayDir id → (exec (statusOf env id) s).2.overlays dir = s.overlays dir) ∧
      upperOf ((exec (statusOf env id) s).2.overlays (overlayDir id)) =
        upperOf (s.overlays (overlayDir id)) ∧
      ((exec (statusOf env id) s).2.overlays (overlayDir id) ≠ none ↔
        s.overlays (overlayDir id) ≠ none ∨ env.stops .makeUpper = false) := by
  have hreach : ∀ t, (exec (reach env .status) t).2 = t := fun t => by
    unfold reach
    split <;> rfl
  unfold statusOf
  rw [exec_bind]
  by_cases hmake : env.stops .makeUpper = true
  · rw [reach_stop hmake]
    exact ⟨rfl, rfl, fun _ _ => rfl, rfl, by simp [hmake]⟩
  have hmake : env.stops .makeUpper = false := Bool.eq_false_of_not_eq_true hmake
  rw [reach_go hmake]
  simp only [exec_bind, exec_get]
  cases hover : s.overlays (overlayDir id) with
  | some upper =>
      simp [hreach, hover]
  | none =>
      simp only [exec_bind, exec_modify, hreach]
      have hself : (setOverlay (overlayDir id) (some ⟨[]⟩) s).overlays (overlayDir id) =
          some ⟨[]⟩ := Function.update_self ..
      refine ⟨rfl, rfl, fun dir hdir => Function.update_of_ne hdir .., ?_, ?_⟩
      · rw [hself]
        rfl
      · rw [hself]
        simp [hmake]

/-- The disk before `_status`. -/
def allMoved (env : MoveEnv) (old new : ExactBoundary) (m : ChildManifest) (s : ObservedDisk) :
    ObservedDisk :=
  manifestMoved env old.toObservedBoundary new.toObservedBoundary m (dirMoved old new s)

theorem renameChild_unlinked (hgo : RenameGoes env old new s m) (h : Unlinks env s m) :
    (exec (renameChild env old new) s).2 =
      (exec (statusOf env new.id) (allMoved env old new m s)).2 := by
  rw [renameChild_go hgo, exec_bind, moveManifest_go (unlinks_dirMoved.mpr h)]
  rfl

theorem allMoved_source :
    (allMoved env old new m s).source = movePath s.source old.path new.path := by
  unfold allMoved manifestMoved
  split <;> rfl

theorem allMoved_manifests : (allMoved env old new m s).manifests =
    Function.update (Function.update s.manifests (manifestFile new.boundaryPath)
      (some (renamedManifest new.toObservedBoundary m))) (manifestFile old.boundaryPath) none := by
  unfold allMoved manifestMoved
  split <;> rfl

variable (env old new m s) in
theorem allMoved_overlay : (allMoved env old new m s).overlays (overlayDir m.id) =
    if s.overlays (overlayDir m.id) = none then none else env.left := by
  have hmoved : (dirMoved old new s).overlays = s.overlays := rfl
  unfold allMoved manifestMoved
  rw [hmoved]
  by_cases h : s.overlays (overlayDir m.id) = none
  · rw [if_pos h, if_pos h]
    exact h
  · rw [if_neg h, if_neg h]
    exact Function.update_self ..

variable (env old new m s) in
theorem allMoved_others (dir : String) (h : dir ≠ overlayDir m.id) :
    (allMoved env old new m s).overlays dir = s.overlays dir := by
  unfold allMoved manifestMoved
  split
  · rfl
  · exact Function.update_of_ne h ..

theorem renameChild_source (hgo : RenameGoes env old new s m) :
    (exec (renameChild env old new) s).2.source = movePath s.source old.path new.path := by
  by_cases hunlinks : Unlinks env s m
  · rw [renameChild_unlinked hgo hunlinks, (statusOf_spec ..).1, allMoved_source]
  · exact (renameChild_split hgo hunlinks).1

/-- Nothing is at the new place, or below it. -/
theorem RenameGoes.free (hgo : RenameGoes env old new s m) (hclosed : DirClosed s.source.get)
    {q : Path} (hq : new.path <+: q) : s.source.get q = none := by
  by_cases heq : new.path = q
  · rw [← heq]
    exact hgo.freeDir
  · refine hclosed.none_below hq heq ?_
    rw [hgo.freeDir]
    simp

theorem RenameGoes.gone (hgo : RenameGoes env old new s m) (hclosed : DirClosed s.source.get)
    (hold : Stands s old) : (movePath s.source old.path new.path).get old.path = none := by
  have hnot : ¬new.path <+: old.path := fun hpre => by
    have hdir := hold.dir
    rw [hgo.free hclosed hpre] at hdir
    cases hdir
  rw [get_movePath old.ne_nil new.ne_nil, if_neg hnot, if_pos List.prefix_rfl]

/-- **No registered child loses its directory** exactly when none is below the renamed one. -/
theorem keepsDirs_iff (hgo : RenameGoes env old new s m) (hclosed : DirClosed s.source.get)
    (hsource : t.source = movePath s.source old.path new.path)
    (hmanifests : t.manifests = Function.update (Function.update s.manifests
      (manifestFile new.boundaryPath) (some (renamedManifest new.toObservedBoundary m)))
      (manifestFile old.boundaryPath) none) :
    KeepsDirs s t ↔ ∀ c : Path, (∀ n ∈ c, PathName n) → old.path <+: c → c ≠ old.path →
      s.source.get c = some .dir → s.manifests (manifestFile (pathText c)) = none := by
  constructor
  · intro hkeeps c hnames hpre hne hdir
    by_contra hreg
    have hnil : c ≠ [] := fun hnil => old.ne_nil (List.prefix_nil.mp (hnil ▸ hpre))
    have hnew : ¬new.path <+: c := fun hnew => by
      rw [hgo.free hclosed hnew] at hdir
      cases hdir
    have hne' : c ≠ new.path := fun heq => hnew (heq ▸ List.prefix_rfl)
    have hfile : manifestFile (pathText c) ≠ manifestFile old.boundaryPath := fun heq =>
      hne (manifestFile_inj hnil old.ne_nil hnames old.names (by rwa [old.exact] at heq))
    have hfile' : manifestFile (pathText c) ≠ manifestFile new.boundaryPath := fun heq =>
      hne' (manifestFile_inj hnil new.ne_nil hnames new.names (by rwa [new.exact] at heq))
    have hkept := hkeeps c hnil hnames
      (by rwa [hmanifests, Function.update_of_ne hfile, Function.update_of_ne hfile']) hdir
    rw [hsource, get_movePath old.ne_nil new.ne_nil, if_neg hnew, if_pos hpre] at hkept
    cases hkept
  · intro halone c hnil hnames hreg hdir
    rw [hsource, get_movePath old.ne_nil new.ne_nil]
    by_cases hnew : new.path <+: c
    · rw [hgo.free hclosed hnew] at hdir
      cases hdir
    rw [if_neg hnew]
    by_cases hpre : old.path <+: c
    · exfalso
      have hne' : c ≠ new.path := fun heq => hnew (heq ▸ List.prefix_rfl)
      have hfile' : manifestFile (pathText c) ≠ manifestFile new.boundaryPath := fun heq =>
        hne' (manifestFile_inj hnil new.ne_nil hnames new.names (by rwa [new.exact] at heq))
      by_cases hne : c = old.path
      · refine hreg ?_
        rw [hmanifests, hne, ← old.exact]
        exact Function.update_self ..
      · have hfile : manifestFile (pathText c) ≠ manifestFile old.boundaryPath := fun heq =>
          hne (manifestFile_inj hnil old.ne_nil hnames old.names (by rwa [old.exact] at heq))
        rw [hmanifests, Function.update_of_ne hfile, Function.update_of_ne hfile'] at hreg
        exact hreg (halone c hnames hpre hne hdir)
    · rw [if_neg hpre]
      exact hdir

/-- **What `rename_child` leaves of a child it renames**: all of it under the new name, and every
    other child as it was, exactly when it is whole. -/
theorem renamed_iff_whole (hmanager : old.childIdPrefix = new.childIdPrefix)
    (hgo : RenameGoes env old new s m) (hclosed : DirClosed s.source.get) (hold : Stands s old) :
    Renamed old new s (exec (renameChild env old new) s).2 ∧
      KeepsDirs s (exec (renameChild env old new) s).2 ↔ RenameWhole env old new s m := by
  have hid : m.id = old.id := hold.own m hgo.registered
  by_cases hunlinks : Unlinks env s m
  · have hpath : old.path ≠ new.path := fun heq => hgo.apart (heq ▸ List.prefix_rfl)
    have hdirs := overlayDir_ne hmanager hpath
    rw [renameChild_unlinked hgo hunlinks]
    obtain ⟨hsource, hmanifests, hothers, hupper, hmade⟩ :=
      statusOf_spec env (allMoved env old new m s) new.id
    rw [allMoved_source] at hsource
    rw [allMoved_manifests] at hmanifests
    have hover := allMoved_overlay env old new m s
    have hsame := allMoved_others env old new m s
    rw [hid] at hover hsame
    rw [hsame _ hdirs.symm] at hupper hmade
    generalize (exec (statusOf env new.id)
      (allMoved env old new m s)).2 = t at *
    rw [keepsDirs_iff hgo hclosed hsource hmanifests]
    rw [← hothers _ hdirs] at hover
    constructor
    · rintro ⟨h, halone⟩
      refine ⟨hunlinks, fun hne => ?_, ?_, fun hne => hmade.mp (h.present hne), halone⟩
      · rw [if_neg hne, h.oldOverlay] at hover
        exact hover.symm
      · rw [← hupper]
        exact h.newOverlay
    · intro h
      refine ⟨⟨?_, fun q => ?_, ⟨m, hgo.registered, hmanifests⟩, ?_, ?_, fun hne => ?_, ?_⟩,
        h.alone⟩
      · rw [hsource]
        exact hgo.gone hclosed hold
      · rw [hsource]
        exact get_movePath old.ne_nil new.ne_nil
      · rw [hover]
        split
        · rfl
        · exact h.removed ‹_›
      · rw [hupper]
        exact h.shows
      · exact hmade.mpr (h.made hne)
      · intro dir hne hne'
        rw [hothers dir hne', hsame dir hne]
  · refine ⟨fun ⟨h, _⟩ => ?_, fun h => absurd h.unlinks hunlinks⟩
    -- the manifest is still under the old name
    have hkept := (renameChild_split hgo hunlinks).2
    obtain ⟨m', -, hmanifests⟩ := h.manifests
    rw [hmanifests, Function.update_self] at hkept
    cases hkept

/-- **A rename is all or nothing** exactly when one that renames the directory is whole. -/
theorem renameChild_iff (hmanager : old.childIdPrefix = new.childIdPrefix)
    (hclosed : DirClosed s.source.get) (hold : Stands s old) :
    AllOrNothing (Renamed old new) s (exec (renameChild env old new) s).2 ↔
      ∀ m, RenameGoes env old new s m → RenameWhole env old new s m := by
  have hgone : ¬Renamed old new s s := fun h => by
    have hnone := h.gone
    rw [hold.dir] at hnone
    cases hnone
  by_cases hgo : ∃ m, RenameGoes env old new s m
  · obtain ⟨m, hgo⟩ := hgo
    have hsource : (exec (renameChild env old new) s).2 ≠ s := by
      intro hsame
      have hnone := hgo.gone hclosed hold
      rw [← renameChild_source hgo, hsame, hold.dir] at hnone
      cases hnone
    constructor
    · rintro ⟨⟨hsame, -⟩ | ⟨hrenamed, -⟩, hkeeps⟩ m' hgo'
      · exact absurd hsame hsource
      · exact (renamed_iff_whole hmanager hgo' hclosed hold).mp ⟨hrenamed, hkeeps⟩
    · intro h
      obtain ⟨hrenamed, hkeeps⟩ := (renamed_iff_whole hmanager hgo hclosed hold).mpr (h m hgo)
      exact ⟨.inr ⟨hrenamed, hsource⟩, hkeeps⟩
  · rw [not_exists] at hgo
    rw [renameChild_stop hgo]
    exact ⟨fun _ m h => absurd h (hgo m), fun _ => ⟨.inl ⟨rfl, hgone⟩, fun _ _ _ _ hdir => hdir⟩⟩

end Rename

/-! ## 7. Whose a manifest is -/

section Owned

variable {idPrefix : String} {env : MoveEnv} {m : ChildManifest} {s : ObservedDisk}
  {I : ObservedDisk → Prop}

/-- **Every manifest is its boundary's own**, as `mkdir_child` writes it. -/
def Owned (idPrefix : String) (s : ObservedDisk) : Prop :=
  ∀ b : ExactBoundary, b.childIdPrefix = idPrefix →
    ∀ m, s.manifests (manifestFile b.boundaryPath) = some m → m.id = b.id

theorem Owned.unlink {file : String} (h : Owned idPrefix s) :
    Owned idPrefix (setManifest file none s) := by
  intro b hb m hm
  by_cases hfile : manifestFile b.boundaryPath = file
  · have hnone : (setManifest file none s).manifests file = none := Function.update_self ..
    rw [hfile, hnone] at hm
    cases hm
  · exact h b hb m ((Function.update_of_ne hfile ..).symm.trans hm)

theorem Owned.dump {new : ExactBoundary} (h : Owned idPrefix s)
    (hnew : new.childIdPrefix = idPrefix) :
    Owned idPrefix (setManifest (manifestFile new.boundaryPath)
      (some (renamedManifest new.toObservedBoundary m)) s) := by
  intro b hb m' hm
  by_cases hfile : manifestFile b.boundaryPath = manifestFile new.boundaryPath
  · have hpath : b.path = new.path := by
      rw [b.exact, new.exact] at hfile
      exact manifestFile_inj b.ne_nil new.ne_nil b.names new.names hfile
    have hself : (setManifest (manifestFile new.boundaryPath)
        (some (renamedManifest new.toObservedBoundary m)) s).manifests
        (manifestFile new.boundaryPath) = some (renamedManifest new.toObservedBoundary m) :=
      Function.update_self ..
    rw [hfile, hself] at hm
    rw [← Option.some.inj hm]
    show new.id = b.id
    unfold ExactBoundary.id ObservedMkdir.childId
    rw [hb, hnew, b.exact, new.exact, hpath]
  · exact h b hb m' ((Function.update_of_ne hfile ..).symm.trans hm)

theorem assertMutable_keeps : Keeps I (assertMutable env m) fun _ => True := by
  unfold assertMutable
  refine .bind reach_keeps fun _ _ => ?_
  split
  · exact .throw
  split
  · exact .throw
  refine .bind reach_keeps fun _ _ => .bind .state fun s _ => ?_
  split
  · split
    · exact .throw
    · exact .pure trivial
  · exact .pure trivial

theorem rmdirChild_owned (b : ExactBoundary) :
    Keeps (Owned idPrefix) (rmdirChild env b) fun _ => True := by
  unfold rmdirChild
  refine .bind (Q := fun _ => True) ?_ fun registered _ => .bind (Q := fun _ => True) ?_ fun _ _ =>
    .bind (unlinkManifest_keeps fun _ h => h.unlink) fun _ _ => ?_
  · unfold assertRegistered
    refine .bind .state fun s _ => ?_
    split
    · exact .pure trivial
    · exact .bind reach_keeps fun _ _ => .bind assertMutable_keeps fun _ _ => .pure trivial
  · unfold removeDir
    refine .bind reach_keeps fun _ _ => .bind .state fun s _ => ?_
    split
    · exact .update fun _ h => h
    · exact .throw
  · split
    · exact removeOverlay_keeps fun _ h => h
    · exact .pure trivial

/-- **No operation makes a manifest another child's**, wherever it is stopped. -/
theorem renameChild_owned {old new : ExactBoundary} (hnew : new.childIdPrefix = idPrefix) :
    Keeps (Owned idPrefix) (renameChild env old new) fun _ => True := by
  unfold renameChild
  split
  · exact .throw
  refine .bind .state fun s _ => ?_
  split
  · exact .throw
  split
  · exact .throw
  refine .bind reach_keeps fun _ _ => .bind assertMutable_keeps fun _ _ =>
    .bind (Q := fun _ => True) ?_ fun _ _ => .bind (Q := fun _ => True) ?_ fun _ _ => ?_
  · unfold moveDir
    refine .bind reach_keeps fun _ _ => ?_
    split
    · exact .throw
    · exact .update fun _ h => h
  · unfold moveManifest
    exact .bind (removeOverlay_keeps fun _ h => h) fun _ _ =>
      .bind (dumpManifest_keeps fun _ h => h.dump hnew) fun _ _ =>
      .bind reach_keeps fun _ _ => .update fun _ h => h.unlink
  · unfold statusOf
    refine .bind reach_keeps fun _ _ => .bind .state fun s _ => ?_
    split
    · exact reach_keeps
    · exact .bind (.update fun _ h => h) fun _ _ => reach_keeps

end Owned

/-! ## 8. Both operations -/

/-- **All or nothing.** Whatever state the source, the manifests and the overlays are in and
    wherever an operation is stopped: `rmdir_child` and `rename_child` leave the old state or the
    new one exactly when, once the directory is gone or renamed, nothing more is stopped, `rmtree`
    leaves nothing, and no overlay and no child is left behind. -/
theorem moves_allOrNothing_iff (env : MoveEnv) (b old new : ExactBoundary) (s : ObservedDisk)
    (hmanager : old.childIdPrefix = new.childIdPrefix) (hclosed : DirClosed s.source.get)
    (hb : Stands s b) (hold : Stands s old) :
    (AllOrNothing (Removed b) s (exec (rmdirChild env b) s).2 ↔
      (RmdirGoes env b s → RmdirWhole env b s)) ∧
    (AllOrNothing (Renamed old new) s (exec (renameChild env old new) s).2 ↔
      ∀ m, RenameGoes env old new s m → RenameWhole env old new s m) :=
  ⟨rmdirChild_iff hb, renameChild_iff hmanager hclosed hold⟩

theorem plainName_of (name : String) (h : name ≠ "" ∧ name ≠ "." ∧ name ≠ ".." ∧
    '/' ∉ name.toList) : PathName name :=
  ⟨h.1, h.2.1, h.2.2.1, h.2.2.2⟩

/-- A child of the source root. -/
def rootChild (name : String) (h : name ≠ "" ∧ name ≠ "." ∧ name ≠ ".." ∧ '/' ∉ name.toList) :
    ExactBoundary where
  childIdPrefix := "observe"
  boundaryPath := pathText [name]
  childName := name
  observationRel := ""
  activeUpper := "/nfs/overlays/observe%3A" ++ name ++ "/active"
  rootPolicy := none
  path := [name]
  ne_nil := by simp
  names := fun n hn => by
    rw [List.mem_singleton.mp hn]
    exact plainName_of name h
  exact := rfl

def alphaBoundary : ExactBoundary := rootChild "alpha" (by decide)

def betaBoundary : ExactBoundary := rootChild "beta" (by decide)

def alphaManifest : ChildManifest :=
  ObservedMkdir.newManifest alphaBoundary.toObservedBoundary .sharedNfs

/-- A new child, with its upper still empty. -/
def alphaDisk : ObservedDisk where
  source := ⟨[(["alpha"], .dir)]⟩
  manifests := fun file => if file = "alpha.toml" then some alphaManifest else none
  overlays := fun dir => if dir = "observe%3Aalpha" then some ⟨[]⟩ else none

/-- Nothing is stopped but `step`. -/
def stoppedAt (step : Option MoveStep) : MoveEnv where
  stops := fun s => step = some s
  mounted := false
  left := none

theorem alphaDisk_stands : Stands alphaDisk alphaBoundary where
  dir := by decide
  own := fun m hm => by
    have hfile : alphaDisk.manifests (manifestFile alphaBoundary.boundaryPath) =
        some alphaManifest := by decide
    rw [← Option.some.inj (hfile.symm.trans hm)]
    rfl

theorem alphaDisk_closed : DirClosed alphaDisk.source.get := by
  intro d n hne
  rw [Tree.get_of_ne (by simp), Tree.lookup_ne_none] at hne
  have heq : d ++ [n] = [] ++ ["alpha"] := by simpa [alphaDisk] using hne
  obtain ⟨rfl, -⟩ := List.append_inj' heq rfl
  rfl

theorem moves_allOrNothing_alpha :
    (AllOrNothing (Removed alphaBoundary) alphaDisk
      (exec (rmdirChild (stoppedAt none) alphaBoundary) alphaDisk).2 ↔
      (RmdirGoes (stoppedAt none) alphaBoundary alphaDisk →
        RmdirWhole (stoppedAt none) alphaBoundary alphaDisk)) ∧
    (AllOrNothing (Renamed alphaBoundary betaBoundary) alphaDisk
      (exec (renameChild (stoppedAt none) alphaBoundary betaBoundary) alphaDisk).2 ↔
      ∀ m, RenameGoes (stoppedAt none) alphaBoundary betaBoundary alphaDisk m →
        RenameWhole (stoppedAt none) alphaBoundary betaBoundary alphaDisk m) :=
  moves_allOrNothing_iff (stoppedAt none) alphaBoundary alphaBoundary betaBoundary alphaDisk rfl
    alphaDisk_closed alphaDisk_stands alphaDisk_stands

/-- **A write of the new manifest that fails**: the directory has the new name, the manifest the
    old one, and the overlay is deleted. -/
theorem stoppedDump_splits :
    (exec (renameChild (stoppedAt (some .dump)) alphaBoundary betaBoundary) alphaDisk).1 =
      .error () ∧
    (exec (renameChild (stoppedAt (some .dump)) alphaBoundary betaBoundary) alphaDisk).2.source.get
      ["alpha"] = none ∧
    (exec (renameChild (stoppedAt (some .dump)) alphaBoundary betaBoundary) alphaDisk).2.source.get
      ["beta"] = some .dir ∧
    (exec (renameChild (stoppedAt (some .dump)) alphaBoundary betaBoundary) alphaDisk).2.manifests
      "alpha.toml" = some alphaManifest ∧
    (exec (renameChild (stoppedAt (some .dump)) alphaBoundary betaBoundary) alphaDisk).2.overlays
      "observe%3Aalpha" = none ∧
    ¬AllOrNothing (Renamed alphaBoundary betaBoundary) alphaDisk
      (exec (renameChild (stoppedAt (some .dump)) alphaBoundary betaBoundary) alphaDisk).2 := by
  have hsource : (exec (renameChild (stoppedAt (some .dump)) alphaBoundary betaBoundary)
      alphaDisk).2.source.get ["alpha"] = none := by decide
  have hmanifest : (exec (renameChild (stoppedAt (some .dump)) alphaBoundary betaBoundary)
      alphaDisk).2.manifests "alpha.toml" = some alphaManifest := by decide
  refine ⟨by decide, hsource, by decide, hmanifest, by decide, ?_⟩
  rintro ⟨⟨hsame, -⟩ | ⟨hrenamed, -⟩, -⟩
  · rw [hsame] at hsource
    exact absurd hsource (by decide)
  · obtain ⟨m, -, hmanifests⟩ := hrenamed.manifests
    have hfile : manifestFile alphaBoundary.boundaryPath = "alpha.toml" := by decide
    rw [hmanifests, hfile, Function.update_self] at hmanifest
    cases hmanifest

end CccStorage.ObservedMoves
