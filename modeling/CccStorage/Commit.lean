/-
  File:      CccStorage/Commit.lean
  Subject:   What a commit and a compaction write into the manifest (`mountd/daemon.py`,
             `_build_commit_from_source`, `_compaction_output_path`, `_compact_if_needed`).

  * `deltaPath`, `deltaPack`, `committedManifest` -- the pack and the manifest of one commit;
  * `compactionOutputPath`, `compactedPack` -- the pack of one compaction;
  * `runnableCandidate` -- the plan a compaction acts on: needed and not blocked;
  * `mergedManifest` -- the manifest it publishes, and `mergedManifest_suffix`, its stack.
-/
import CccStorage.Levels
import CccStorage.Cold

namespace CccStorage

/-- What one node's service is configured with, for one child. `packDir` is
    `pack_object_dir(state_root / "packs", id)`, which is also `hot_pack_dir`. -/
structure NodeConfig where
  levelPolicy : LevelPolicy
  packDir : String
  activeUpper : String
  coldPrefix : Nat → String
  backend : String := "s3"
  /-- `mirror_after_commit` is on and a store is configured. -/
  mirrorAfterCommit : Bool := false

/-- What a builder reports of the file it wrote. -/
structure BuiltFile where
  sha256 : String
  size : Nat
  fileCount : Option Nat := none
  deriving DecidableEq, Repr

/-! ## 1. Commits -/

def deltaPath (packDir : String) (newGeneration : Nat) : String :=
  pathJoin packDir ("delta-g" ++ pad4 newGeneration ++ ".sqfs")

/-- The delta pack of generation `newGeneration`, annotated as `_build_commit_from_source` does. -/
def deltaPack (cfg : NodeConfig) (newGeneration : Nat) (built : BuiltFile) : PackInfo where
  path := deltaPath cfg.packDir newGeneration
  sha256 := built.sha256
  size := built.size
  fileCount := built.fileCount
  level := chooseInitialLevel cfg.levelPolicy built.size
  generationMin := newGeneration
  generationMax := newGeneration
  kind := "delta"

/-- The manifest a commit publishes. -/
def committedManifest (cfg : NodeConfig) (manifest : ChildManifest) (pack : PackInfo)
    (overlayMode : String) : ChildManifest :=
  let newGeneration := manifest.generation + 1
  { manifest with
    generation := newGeneration
    state := "clean"
    packStack := {
      activeRevision := s!"g{newGeneration}"
      lowers := manifest.lowers ++ [pack] }
    overlay := {
      mode := overlayMode
      activeUpper := cfg.activeUpper
      overlayGeneration := manifest.overlay.overlayGeneration + 1 } }

/-! ## 2. Compactions -/

def compactionOutputPath (packDir : String) (manifest : ChildManifest) (targetLevel : Nat)
    (selected : List PackInfo) : String :=
  let mins := (selected.map (·.generationMin)).filter (· ≠ 0)
  let maxes := (selected.map (·.generationMax)).filter (· ≠ 0)
  let generationMin := mins.min?.getD manifest.generation
  let generationMax := maxes.max?.getD manifest.generation
  pathJoin packDir
    (s!"compact-L{targetLevel}-g" ++ pad4 generationMin ++ "-g" ++ pad4 generationMax ++ ".sqfs")

/-- The pack `build_partial_compaction` returns for a candidate. -/
def compactedPack (cfg : NodeConfig) (manifest : ChildManifest) (c : CompactionCandidate)
    (built : BuiltFile) : PackInfo :=
  withCompactionMetadata
    { path := compactionOutputPath cfg.packDir manifest c.targetLevel c.packs
      sha256 := built.sha256
      size := built.size
      fileCount := built.fileCount }
    c.packs c.targetLevel

/-- The candidate a compaction acts on: one is needed and nothing blocks it. -/
def runnableCandidate (policy : LevelPolicy) (manifest : ChildManifest) (allowBase : Bool) :
    Option CompactionCandidate :=
  (planLevelCompaction manifest.lowers policy allowBase).filter (·.blockedReason = "")

theorem runnableCandidate_suffix {policy : LevelPolicy} {m : ChildManifest} {allowBase : Bool}
    {c : CompactionCandidate} (h : runnableCandidate policy m allowBase = some c) :
    ∃ pre, m.lowers = pre ++ c.packs ∧ c.packs ≠ [] := by
  unfold runnableCandidate at h
  exact planLevelCompaction_suffix (Option.filter_eq_some_iff.mp h).1

@[simp] theorem withCompactionMetadata_idem (p : PackInfo) (sel : List PackInfo) (t : Nat) :
    withCompactionMetadata (withCompactionMetadata p sel t) sel t
      = withCompactionMetadata p sel t := rfl

/-- The manifest written by `publish_partial_compaction`, when it does not raise. -/
def mergedManifest (m : ChildManifest) (c : CompactionCandidate) (pack : PackInfo) :
    Option ChildManifest :=
  match publishPartialCompaction m c.packs pack c.targetLevel with
  | .ok (m', _) => some m'
  | .error _ => none

/-- The candidate a post-commit compaction acts on. -/
def postCommitCandidate (cfg : NodeConfig) (m : ChildManifest) : Option CompactionCandidate :=
  if cfg.levelPolicy.triggerAfterCommit then runnableCandidate cfg.levelPolicy m false else none

/-- **The merged manifest of a candidate** whose stack has distinct paths: the older packs under the
    new one. -/
theorem mergedManifest_suffix {m : ChildManifest} {c : CompactionCandidate} {pack : PackInfo}
    {pre : List PackInfo} (hl : m.lowers = pre ++ c.packs) (hne : c.packs ≠ [])
    (hnd : (m.lowers.map (·.path)).Nodup)
    (hp : withCompactionMetadata pack c.packs c.targetLevel = pack) :
    mergedManifest m c pack = some { m with
      packStack := { activeRevision := m.packStack.activeRevision, lowers := pre ++ [pack] } } := by
  obtain ⟨⟨v, retired⟩, hpub⟩ :=
    publishPartialCompaction_ok hl hne hnd pack c.targetLevel
  obtain ⟨-, hv⟩ := publishPartialCompaction_retires hl hpub
  unfold mergedManifest
  rw [hpub]
  simp only
  rw [hv, hp]

/-- **What a merged manifest is**, whenever publishing it does not raise. -/
theorem mergedManifest_some {m merged : ChildManifest} {c : CompactionCandidate} {pack : PackInfo}
    {pre : List PackInfo} (hl : m.lowers = pre ++ c.packs)
    (hp : withCompactionMetadata pack c.packs c.targetLevel = pack)
    (h : mergedManifest m c pack = some merged) :
    merged = { m with
      packStack := { activeRevision := m.packStack.activeRevision, lowers := pre ++ [pack] } } := by
  unfold mergedManifest at h
  split at h
  · rename_i m' retired hpub
    cases h
    obtain ⟨-, hm'⟩ := publishPartialCompaction_retires hl hpub
    rw [hm', hp]
  · cases h

section Facts

variable (cfg : NodeConfig) (m : ChildManifest) (pack : PackInfo) (mode : String) (n : Nat)
variable (built : BuiltFile)

@[simp] theorem committedManifest_generation :
    (committedManifest cfg m pack mode).generation = m.generation + 1 := rfl

@[simp] theorem committedManifest_lowers :
    (committedManifest cfg m pack mode).lowers = m.lowers ++ [pack] := rfl

@[simp] theorem committedManifest_coldStorage :
    (committedManifest cfg m pack mode).coldStorage = m.coldStorage := rfl

@[simp] theorem deltaPack_generationMax : (deltaPack cfg n built).generationMax = n := rfl

end Facts

end CccStorage
