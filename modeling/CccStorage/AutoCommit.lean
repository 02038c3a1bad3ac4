/-
  File:      CccStorage/AutoCommit.lean
  Subject:   The auto-commit policy (`mountd/workers/policy.py`), the worker
             (`workers/auto_commit.py`), the decision `_manifest_status` reports and the checks of
             `handle_commit`.

  Three scans look at up to three directories. `overlay_inputs` counts every file and symlink, marks
  among them; `dirty_stats` leaves the marks out; a published mirror has the counts of its record.
  The worker scans the shared active upper of every child; the status scans the local upper or the
  mirror of a `local-ssd-async` child; `handle_commit` looks at the shared upper of a `shared-nfs`
  child and at the mirror of the other.

  * `overlayInputs`, `evaluate` -- the policy; `evaluate_eq_trigger_iff`, `evaluate_congr_iff`;
  * `evaluateChild`, `statusDecision`, `handleCommit`, `tickChild` -- on one child;
  * `TellsTheTruth` -- the decisions agree, and a trigger commits;
  * `autoCommit_truth_iff` -- exactly when.
-/
import CccStorage.DirtyStores
import CccStorage.ColdRuns

namespace CccStorage

/-! ## 1. The policy -/

def TRIGGER : String := "trigger"

def MANUAL : String := "manual"

def NOOP : String := "noop"

structure CommitPolicy where
  mode : String := "auto"
  maxDirtyBytes : Nat := 2 ^ 30
  maxFileCount : Nat := 100000
  minQuietSeconds : ℚ := 600
  maxAgeSeconds : ℚ := 7 * 24 * 3600

structure PolicyInputs where
  dirty : Bool
  bytes : Nat
  fileCount : Nat
  /-- Since the oldest write. -/
  ageSeconds : ℚ
  /-- Since the newest write. -/
  quietSeconds : ℚ
  deriving DecidableEq

def evaluate (policy : CommitPolicy) (inputs : PolicyInputs) : String :=
  if !inputs.dirty then NOOP
  else if policy.mode = "manual" then MANUAL
  -- a huge changed-file count does not wait for a quiet period
  else if policy.maxFileCount ≤ inputs.fileCount then TRIGGER
  else
    let quietOk := decide (policy.minQuietSeconds ≤ inputs.quietSeconds)
    if policy.maxDirtyBytes ≤ inputs.bytes ∧ quietOk then TRIGGER
    else if policy.maxAgeSeconds ≤ inputs.ageSeconds ∧ quietOk then TRIGGER
    else NOOP

/-- A tree with the modification times of its entries. -/
structure StampedTree where
  tree : Tree
  mtime : Path → ℚ

/-- What `overlay_inputs` counts, marks among it: the size and the modification time. -/
def StampedTree.counted (upper : StampedTree) : List (Nat × ℚ) :=
  upper.tree.nodes.filterMap fun x => x.2.countedSize.map fun size => (size, upper.mtime x.1)

def overlayInputs (activeUpper : StampedTree) (now : ℚ) : PolicyInputs :=
  let counted := activeUpper.counted
  if counted = [] then
    { dirty := false, bytes := 0, fileCount := 0, ageSeconds := 0, quietSeconds := 0 }
  else
    { dirty := true
      bytes := (counted.map (·.1)).sum
      fileCount := counted.length
      ageSeconds := now - (counted.map (·.2)).min?.getD now
      quietSeconds := now - (counted.map (·.2)).max?.getD now }

/-- **The thresholds are reached**: very many files, or a quiet period and many bytes or an old
    write. -/
def PolicyInputs.Due (policy : CommitPolicy) (inputs : PolicyInputs) : Prop :=
  policy.maxFileCount ≤ inputs.fileCount ∨
    policy.minQuietSeconds ≤ inputs.quietSeconds ∧
      (policy.maxDirtyBytes ≤ inputs.bytes ∨ policy.maxAgeSeconds ≤ inputs.ageSeconds)

instance (policy : CommitPolicy) (inputs : PolicyInputs) : Decidable (inputs.Due policy) :=
  inferInstanceAs (Decidable (_ ∨ _ ∧ (_ ∨ _)))

/-- **The table of the policy.** -/
theorem evaluate_eq (policy : CommitPolicy) (inputs : PolicyInputs) :
    evaluate policy inputs =
      if inputs.dirty = false then NOOP
      else if policy.mode = "manual" then MANUAL
      else if inputs.Due policy then TRIGGER else NOOP := by
  unfold evaluate
  cases inputs.dirty with
  | false => rfl
  | true =>
    simp only [Bool.not_true, Bool.false_eq_true, if_false, Bool.true_eq_false,
      decide_eq_true_eq]
    by_cases hmode : policy.mode = "manual"
    · rw [if_pos hmode, if_pos hmode]
    · rw [if_neg hmode, if_neg hmode]
      by_cases hcount : policy.maxFileCount ≤ inputs.fileCount
      · rw [if_pos hcount, if_pos (show inputs.Due policy from .inl hcount)]
      · rw [if_neg hcount]
        by_cases hquiet : policy.minQuietSeconds ≤ inputs.quietSeconds
        · by_cases hbytes : policy.maxDirtyBytes ≤ inputs.bytes
          · rw [if_pos ⟨hbytes, hquiet⟩,
              if_pos (show inputs.Due policy from .inr ⟨hquiet, .inl hbytes⟩)]
          · rw [if_neg fun h => hbytes h.1]
            by_cases hage : policy.maxAgeSeconds ≤ inputs.ageSeconds
            · rw [if_pos ⟨hage, hquiet⟩,
                if_pos (show inputs.Due policy from .inr ⟨hquiet, .inr hage⟩)]
            · rw [if_neg fun h => hage h.1, if_neg]
              rintro (h | ⟨-, h | h⟩)
              · exact hcount h
              · exact hbytes h
              · exact hage h
        · rw [if_neg fun h => hquiet h.2, if_neg fun h => hquiet h.2, if_neg]
          rintro (h | ⟨h, -⟩)
          · exact hcount h
          · exact hquiet h

theorem evaluate_eq_trigger_iff {policy : CommitPolicy} {inputs : PolicyInputs} :
    evaluate policy inputs = TRIGGER ↔
      inputs.dirty = true ∧ policy.mode ≠ "manual" ∧ inputs.Due policy := by
  rw [evaluate_eq]
  cases inputs.dirty with
  | false => simp [NOOP, TRIGGER]
  | true =>
    by_cases hmode : policy.mode = "manual"
    · simp [hmode, MANUAL, TRIGGER]
    · by_cases hdue : inputs.Due policy
      · simp [hmode, hdue]
      · simp [hmode, hdue, NOOP, TRIGGER]

/-- Two scans lead to one decision when both are clean, or both are dirty and reach the thresholds
    alike. -/
theorem evaluate_congr_iff {policy : CommitPolicy} {a b : PolicyInputs} :
    evaluate policy a = evaluate policy b ↔
      if policy.mode = "manual" then a.dirty = b.dirty
      else (a.dirty = true ∧ a.Due policy ↔ b.dirty = true ∧ b.Due policy) := by
  rw [evaluate_eq, evaluate_eq]
  by_cases hmode : policy.mode = "manual"
  · rw [if_pos hmode, if_pos hmode, if_pos hmode]
    cases a.dirty with
    | false => cases b.dirty with
      | false => simp
      | true => simp [NOOP, MANUAL]
    | true => cases b.dirty with
      | false => simp [NOOP, MANUAL]
      | true => simp
  · rw [if_neg hmode, if_neg hmode, if_neg hmode]
    have hvalue : ∀ x : PolicyInputs,
        (if x.dirty = false then NOOP else if x.Due policy then TRIGGER else NOOP) =
          if x.dirty = true ∧ x.Due policy then TRIGGER else NOOP := by
      intro x
      cases x.dirty with
      | false => simp
      | true => simp
    rw [hvalue, hvalue]
    by_cases ha : a.dirty = true ∧ a.Due policy
    · by_cases hb : b.dirty = true ∧ b.Due policy
      · rw [if_pos ha, if_pos hb]
        exact iff_of_true rfl ⟨fun _ => hb, fun _ => ha⟩
      · rw [if_pos ha, if_neg hb]
        exact iff_of_false (by decide) fun h => hb (h.mp ha)
    · by_cases hb : b.dirty = true ∧ b.Due policy
      · rw [if_neg ha, if_pos hb]
        exact iff_of_false (by decide) fun h => ha (h.mpr hb)
      · rw [if_neg ha, if_neg hb]
        exact iff_of_true rfl ⟨fun h => absurd h ha, fun h => absurd h hb⟩

/-! ## 2. One child -/

/-- The record `latest_dirty_mirror` reads, and the tree it names. -/
structure MirrorRecord where
  tree : StampedTree
  baseGeneration : Nat
  fileCount : Nat
  bytes : Nat

/-- What the worker, the status and a commit look at. -/
structure AutoCommitChild where
  manifest : ChildManifest
  activeUpper : StampedTree
  localUpper : StampedTree
  mirror : Option MirrorRecord
  mountedWritable : Bool
  writerLocked : Bool
  commitLocked : Bool

/-- The builders' answers to a commit and to the compaction after it. -/
structure CommitServices where
  cfg : NodeConfig
  delta : BuiltFile
  compacted : BuiltFile

inductive CommitRefusal where
  | mountedWritable
  | writerLocked
  /-- `LockHeld`. -/
  | commitLocked
  | baseGeneration (mirror manifest : Nat)
  deriving DecidableEq, Repr

def childPolicy (policy : CommitPolicy) (manifest : ChildManifest) : CommitPolicy :=
  { policy with mode := if manifest.commitMode = "" then "auto" else manifest.commitMode }

def evaluateChild (policy : CommitPolicy) (c : AutoCommitChild) (now : ℚ) : String :=
  evaluate (childPolicy policy c.manifest) (overlayInputs c.activeUpper now)

/-- `policy_input_path` of `_manifest_status`. -/
def policyInputPath (c : AutoCommitChild) : StampedTree :=
  match c.manifest.writePolicy with
  | .sharedNfs => c.activeUpper
  | .localSsdAsync =>
    if (dirtyStats c.localUpper.tree).dirty then c.localUpper
    else match c.mirror with
      | some latest => if 0 < latest.fileCount then latest.tree else c.activeUpper
      | none => c.activeUpper

def statusDecision (c : AutoCommitChild) (now : ℚ) : String :=
  evaluate (childPolicy {} c.manifest) (overlayInputs (policyInputPath c) now)

/-- `_build_commit_from_source` with the compaction after it: the manifest on disk. -/
def publishedManifest (v : CommitServices) (m : ChildManifest) (overlayMode : String) :
    ChildManifest :=
  let committed := committedManifest v.cfg m (deltaPack v.cfg (m.generation + 1) v.delta) overlayMode
  match postCommitCandidate v.cfg committed with
  | none => committed
  | some candidate =>
    (mergedManifest committed candidate (compactedPack v.cfg committed candidate v.compacted)).getD
      committed

/-- The mirror's record counts something. -/
def MirrorRecord.HasData (m : MirrorRecord) : Prop := ¬ (m.fileCount = 0 ∧ m.bytes = 0)

instance (m : MirrorRecord) : Decidable m.HasData := inferInstanceAs (Decidable (¬ (_ ∧ _)))

/-- `handle_commit`, alone: what it returns, and the manifest on disk. -/
def AutoCommitChild.handleCommit (c : AutoCommitChild) (v : CommitServices) :
    Except CommitRefusal Unit × ChildManifest :=
  if c.mountedWritable then (.error .mountedWritable, c.manifest)
  else match c.manifest.writePolicy with
    | .sharedNfs =>
      if !(dirtyStats c.activeUpper.tree).dirty then (.ok (), c.manifest)
      else if c.commitLocked then (.error .commitLocked, c.manifest)
      else (.ok (), publishedManifest v c.manifest "shared-overlay")
    | .localSsdAsync =>
      match c.mirror with
      | none => (.ok (), c.manifest)
      | some latest =>
        if latest.fileCount = 0 ∧ latest.bytes = 0 then (.ok (), c.manifest)
        else if c.writerLocked then (.error .writerLocked, c.manifest)
        else if c.commitLocked then (.error .commitLocked, c.manifest)
        else if latest.baseGeneration ≠ c.manifest.generation then
          (.error (.baseGeneration latest.baseGeneration c.manifest.generation), c.manifest)
        else (.ok (), publishedManifest v c.manifest "local-ssd-async")

/-- What `tick` makes of one child. -/
inductive TickOutcome where
  | decided
  | committed
  | skipped
  | raised (e : CommitRefusal)
  deriving DecidableEq, Repr

/-- One round of the loop of `tick`. -/
def tickChild (v : CommitServices) (c : AutoCommitChild) (now : ℚ) :
    TickOutcome × ChildManifest :=
  if evaluateChild {} c now ≠ TRIGGER then (.decided, c.manifest)
  else match c.handleCommit v with
    | (.ok _, m) => (.committed, m)
    | (.error .commitLocked, m) => (.skipped, m)
    | (.error e, m) => (.raised e, m)

/-! ## 3. The law -/

/-- **There is data that `handle_commit` publishes.** -/
def HasData (c : AutoCommitChild) : Prop :=
  match c.manifest.writePolicy with
  | .sharedNfs => (dirtyStats c.activeUpper.tree).dirty = true
  | .localSsdAsync => ∃ m, c.mirror = some m ∧ m.HasData

/-- **The worker tells the truth** about a child. -/
structure TellsTheTruth (v : CommitServices) (c : AutoCommitChild) (now : ℚ) : Prop where
  agrees : evaluateChild {} c now = statusDecision c now
  data : evaluateChild {} c now = TRIGGER → HasData c
  commits : evaluateChild {} c now = TRIGGER → c.mountedWritable = false →
    c.writerLocked = false → c.commitLocked = false →
    (c.handleCommit v).1 = .ok () ∧ (c.handleCommit v).2.generation = c.manifest.generation + 1
  listed : (tickChild v c now).1 = .committed →
    (tickChild v c now).2.generation ≠ c.manifest.generation

/-- The tree has files or symlinks, marks among them, and they reach the thresholds. -/
def Reaches (upper : StampedTree) (now : ℚ) : Prop :=
  upper.counted ≠ [] ∧ (overlayInputs upper now).Due {}

/-- **The condition.** The marks of a `shared-nfs` child do not reach the thresholds alone. The
    shared upper of a `local-ssd-async` child leads to the decision of the directory that the status
    scans, and reaches the thresholds only when the mirror has data, of the current generation
    unless the commit is refused before. -/
def SharedUpperDecides (c : AutoCommitChild) (now : ℚ) : Prop :=
  match c.manifest.writePolicy with
  | .sharedNfs => c.manifest.commitMode ≠ "manual" → Reaches c.activeUpper now →
      (dirtyStats c.activeUpper.tree).dirty = true
  | .localSsdAsync =>
    if c.manifest.commitMode = "manual" then
      (c.activeUpper.counted = [] ↔ (policyInputPath c).counted = [])
    else
      (Reaches c.activeUpper now ↔ Reaches (policyInputPath c) now) ∧
        (Reaches c.activeUpper now → ∃ m, c.mirror = some m ∧ m.HasData ∧
          (c.mountedWritable = false → c.writerLocked = false → c.commitLocked = false →
            m.baseGeneration = c.manifest.generation))

section Law

variable {v : CommitServices} {c : AutoCommitChild} {now : ℚ}

theorem overlayInputs_dirty_iff {upper : StampedTree} :
    (overlayInputs upper now).dirty = true ↔ upper.counted ≠ [] := by
  unfold overlayInputs
  by_cases h : upper.counted = []
  · simp [h]
  · simp [h]

theorem due_childPolicy {policy : CommitPolicy} {inputs : PolicyInputs} :
    inputs.Due (childPolicy policy c.manifest) ↔ inputs.Due policy := Iff.rfl

theorem childPolicy_manual_iff {policy : CommitPolicy} :
    (childPolicy policy c.manifest).mode = "manual" ↔ c.manifest.commitMode = "manual" := by
  unfold childPolicy
  by_cases h : c.manifest.commitMode = ""
  · simp [h]
  · simp [h]

/-- **When the worker triggers.** -/
theorem evaluateChild_trigger_iff :
    evaluateChild {} c now = TRIGGER ↔
      c.manifest.commitMode ≠ "manual" ∧ Reaches c.activeUpper now := by
  unfold evaluateChild Reaches
  rw [evaluate_eq_trigger_iff, overlayInputs_dirty_iff, due_childPolicy]
  simp only [ne_eq, childPolicy_manual_iff]
  exact ⟨fun ⟨hd, hm, hr⟩ => ⟨hm, hd, hr⟩, fun ⟨hm, hd, hr⟩ => ⟨hd, hm, hr⟩⟩

/-- **When the decisions agree.** -/
theorem decisions_agree_iff :
    evaluateChild {} c now = statusDecision c now ↔
      if c.manifest.commitMode = "manual" then
        (c.activeUpper.counted = [] ↔ (policyInputPath c).counted = [])
      else (Reaches c.activeUpper now ↔ Reaches (policyInputPath c) now) := by
  unfold evaluateChild statusDecision
  rw [evaluate_congr_iff]
  by_cases hm : c.manifest.commitMode = "manual"
  · rw [if_pos (childPolicy_manual_iff.mpr hm), if_pos hm, Bool.eq_iff_iff,
      overlayInputs_dirty_iff, overlayInputs_dirty_iff]
    exact not_iff_not
  · rw [if_neg (mt childPolicy_manual_iff.mp hm), if_neg hm, overlayInputs_dirty_iff,
      overlayInputs_dirty_iff]
    rfl

@[simp] theorem publishedManifest_generation {m : ChildManifest} {mode : String} :
    (publishedManifest v m mode).generation = m.generation + 1 := by
  unfold publishedManifest
  simp only
  split
  · rfl
  · rename_i candidate hc
    have hrun : runnableCandidate v.cfg.levelPolicy
        (committedManifest v.cfg m (deltaPack v.cfg (m.generation + 1) v.delta) mode) false =
          some candidate := by
      unfold postCommitCandidate at hc
      split at hc
      · exact hc
      · cases hc
    obtain ⟨pre, hl, -⟩ := runnableCandidate_suffix hrun
    cases hmerged : mergedManifest (committedManifest v.cfg m _ mode) candidate
        (compactedPack v.cfg _ candidate v.compacted) with
    | none => rfl
    | some merged => rw [mergedManifest_some hl (withCompactionMetadata_idem _ _ _) hmerged]; rfl

/-- **A commit with data** that returns has published the next generation. -/
theorem published_of_data (hdata : HasData c) (hok : (c.handleCommit v).1 = .ok ()) :
    (c.handleCommit v).2.generation = c.manifest.generation + 1 := by
  unfold AutoCommitChild.handleCommit at hok ⊢
  unfold HasData at hdata
  split at hok
  · cases hok
  · rename_i hopen
    rw [if_neg hopen]
    split at hok
    · rename_i hp
      rw [hp] at hdata
      simp only at hdata
      rw [hdata] at hok ⊢
      simp only [Bool.not_true, Bool.false_eq_true, if_false] at hok ⊢
      split at hok
      · cases hok
      · rename_i hl
        rw [if_neg hl, publishedManifest_generation]
    · rename_i hp
      rw [hp] at hdata
      obtain ⟨latest, hm, hcounts⟩ := hdata
      rw [hm] at hok ⊢
      simp only at hok ⊢
      rw [if_neg hcounts] at hok ⊢
      split at hok
      · cases hok
      · rename_i hw
        split at hok
        · cases hok
        · rename_i hl
          split at hok
          · cases hok
          · rename_i hb
            rw [if_neg hw, if_neg hl, if_neg hb, publishedManifest_generation]

/-- **When an undisturbed commit with data returns.** -/
theorem handleCommit_returns_iff (hdata : HasData c) (hopen : c.mountedWritable = false)
    (hw : c.writerLocked = false) (hl : c.commitLocked = false) :
    (c.handleCommit v).1 = .ok () ↔
      (c.manifest.writePolicy = .localSsdAsync →
        ∀ m, c.mirror = some m → m.baseGeneration = c.manifest.generation) := by
  unfold AutoCommitChild.handleCommit
  unfold HasData at hdata
  rw [hopen, hw, hl]
  simp only [Bool.false_eq_true, if_false]
  split
  · rename_i hp
    rw [hp] at hdata
    simp only at hdata
    rw [hdata, hp]
    exact iff_of_true rfl nofun
  · rename_i hp
    rw [hp] at hdata
    obtain ⟨latest, hm, hcounts⟩ := hdata
    rw [hm, hp]
    simp only
    rw [if_neg hcounts]
    by_cases hb : latest.baseGeneration = c.manifest.generation
    · rw [if_neg (not_not.mpr hb)]
      refine iff_of_true rfl ?_
      rintro - m heq
      obtain rfl := Option.some.inj heq
      exact hb
    · rw [if_pos hb]
      exact iff_of_false nofun fun h => hb (h trivial latest rfl)

/-- A commit that `tick` lists has returned. -/
theorem tickChild_committed_iff :
    (tickChild v c now).1 = .committed ↔
      evaluateChild {} c now = TRIGGER ∧ (c.handleCommit v).1 = .ok () := by
  unfold tickChild
  by_cases ht : evaluateChild {} c now = TRIGGER
  · rw [if_neg (not_not.mpr ht)]
    rcases hresult : c.handleCommit v with ⟨_ | _, m⟩
    · rename_i e
      cases e <;> exact iff_of_false nofun nofun
    · exact iff_of_true rfl ⟨ht, rfl⟩
  · rw [if_pos ht]
    exact iff_of_false nofun fun h => ht h.1

theorem tickChild_disk (h : (tickChild v c now).1 = .committed) :
    (tickChild v c now).2 = (c.handleCommit v).2 := by
  have ht := (tickChild_committed_iff.mp h).1
  have hok := (tickChild_committed_iff.mp h).2
  unfold tickChild
  rw [if_neg (not_not.mpr ht)]
  rcases hresult : c.handleCommit v with ⟨_ | _, m⟩
  · rw [hresult] at hok
    cases hok
  · rfl

/-- A trigger whose commit has data, and is not refused for its base, tells the truth. -/
theorem tellsTheTruth_iff :
    TellsTheTruth v c now ↔
      evaluateChild {} c now = statusDecision c now ∧
        (evaluateChild {} c now = TRIGGER → HasData c ∧
          (c.mountedWritable = false → c.writerLocked = false → c.commitLocked = false →
            c.manifest.writePolicy = .localSsdAsync →
              ∀ m, c.mirror = some m → m.baseGeneration = c.manifest.generation)) := by
  constructor
  · intro h
    refine ⟨h.agrees, fun ht => ⟨h.data ht, fun hopen hw hl => ?_⟩⟩
    exact (handleCommit_returns_iff (h.data ht) hopen hw hl).mp (h.commits ht hopen hw hl).1
  · rintro ⟨hagree, htrigger⟩
    refine ⟨hagree, fun ht => (htrigger ht).1, fun ht hopen hw hl => ?_, fun hlisted => ?_⟩
    · obtain ⟨hdata, hbase⟩ := htrigger ht
      have hok := (handleCommit_returns_iff (v := v) hdata hopen hw hl).mpr (hbase hopen hw hl)
      exact ⟨hok, published_of_data hdata hok⟩
    · obtain ⟨ht, hok⟩ := tickChild_committed_iff.mp hlisted
      rw [tickChild_disk hlisted, published_of_data (htrigger ht).1 hok]
      exact Nat.succ_ne_self _

/-- **The worker tells the truth** exactly when the shared upper decides. -/
theorem autoCommit_truth_iff (v : CommitServices) (c : AutoCommitChild) (now : ℚ) :
    TellsTheTruth v c now ↔ SharedUpperDecides c now := by
  rw [tellsTheTruth_iff, decisions_agree_iff, evaluateChild_trigger_iff]
  unfold SharedUpperDecides HasData policyInputPath
  cases hp : c.manifest.writePolicy with
  | sharedNfs =>
    simp only [reduceCtorEq, false_imp_iff, implies_true, and_true, iff_self, ite_self, true_and]
    exact ⟨fun h hm hr => h ⟨hm, hr⟩, fun h hmr => h hmr.1 hmr.2⟩
  | localSsdAsync =>
    simp only [forall_const]
    by_cases hm : c.manifest.commitMode = "manual"
    · rw [if_pos hm, if_pos hm]
      exact ⟨fun h => h.1, fun h => ⟨h, fun hmr => absurd hm hmr.1⟩⟩
    · rw [if_neg hm, if_neg hm]
      refine and_congr_right fun _ => ?_
      constructor
      · intro h hr
        obtain ⟨⟨m, hmirror, hdata⟩, hbase⟩ := h ⟨hm, hr⟩
        exact ⟨m, hmirror, hdata, fun hopen hw hl => hbase hopen hw hl m hmirror⟩
      · rintro h ⟨-, hr⟩
        obtain ⟨m, hmirror, hdata, hbase⟩ := h hr
        refine ⟨⟨m, hmirror, hdata⟩, fun hopen hw hl m' hmirror' => ?_⟩
        obtain rfl := Option.some.inj (hmirror.symm.trans hmirror')
        exact hbase hopen hw hl

end Law

/-! ### A deletion alone -/

/-- One file deleted in the writable view, eight days before the clock's epoch. -/
def deletedFile : StampedTree where
  tree := ⟨[([".wh.config"], .file [])]⟩
  mtime := fun _ => -691200

def deletedFileChild : AutoCommitChild where
  manifest := hotChild.disk
  activeUpper := deletedFile
  localUpper := ⟨⟨[]⟩, fun _ => 0⟩
  mirror := none
  mountedWritable := false
  writerLocked := false
  commitLocked := false

def weekServices : CommitServices where
  cfg := coldNode
  delta := { sha256 := "", size := 0 }
  compacted := { sha256 := "", size := 0 }

/-- **A deletion that is a week old**: the worker triggers, and lists a commit that published
    nothing. -/
theorem deletedFile_listed :
    evaluateChild {} deletedFileChild 0 = TRIGGER ∧
      tickChild weekServices deletedFileChild 0 = (.committed, hotChild.disk) ∧
      ¬ TellsTheTruth weekServices deletedFileChild 0 := by
  have htrigger : evaluateChild {} deletedFileChild 0 = TRIGGER := by decide +kernel
  have htick : tickChild weekServices deletedFileChild 0 = (.committed, hotChild.disk) := by
    decide +kernel
  refine ⟨htrigger, htick, fun h => ?_⟩
  have hchanged := h.listed (congrArg Prod.fst htick)
  rw [htick] at hchanged
  exact hchanged rfl

end CccStorage
