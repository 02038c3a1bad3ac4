/-
  File:      CccStorage/CommitFailures.lean
  Subject:   What a commit that raises has done to the manifest, at whatever step the exception
             comes, under either write policy (`mountd/daemon.py`, `handle_commit`).

  The manifest is replaced in the middle of the call. What comes after it -- the clean-up, the
  reload, a compaction, a mirror upload, the status, the release of the locks -- is in no `try`.

  * `CommitPoint`, `CommitCall` -- the steps that may raise, and a call with what they answer;
  * `handleCommit` -- the call, on the files of its child;
  * `Verdict` -- a part of a call publishes exactly under `P`, and then returns exactly under `L`;
  * `handleCommit_keepsCommitted_iff` -- a call that raises has changed nothing that is committed
    exactly if no step after the manifest raises;
  * `failedMirror_breaks` -- an upload that raises after the delta was published.
-/
import CccStorage.Commit
import CccStorage.DirtyStores
import CccStorage.Lib.Programs

namespace CccStorage

/-! ## 1. The steps of a call -/

/-- The manifests that a call may put in place. -/
inductive CommitDump where
  | committed
  | compacted
  | mirrored
  deriving DecidableEq, Repr

inductive CommitLock where
  | writer
  | commit
  deriving DecidableEq, Repr

/-- The steps of `handle_commit` that may raise. -/
inductive CommitPoint where
  | find
  | findAgain
  | findLocked
  | latestMirror
  | latestMirrorLocked
  | ensureUpper
  | dirtyScan
  | acquire (lock : CommitLock)
  | ensureUpperLocked
  | sealedDir
  /-- The upper has been moved. -/
  | sealed
  | deltaDir
  | buildDelta
  | applyDelta
  | verifyPack
  /-- `dump_atomic` up to its `os.replace`. -/
  | write (dump : CommitDump)
  /-- `_fsync_dir`, once the manifest is in place. -/
  | sync (dump : CommitDump)
  | applyManifest (dump : CommitDump)
  | reload (dump : CommitDump)
  | cleanup
  | compactionDir
  | buildCompaction
  | applyCompaction
  | upload
  | status
  | release (lock : CommitLock)
  deriving DecidableEq, Repr

inductive CommitFailure where
  | fault (point : CommitPoint)
  | writableMounted (id : String)
  | lockHeld
  | writerLockHeld (id : String)
  | staleMirror (id : String) (baseGeneration generation : Nat)
  | compaction (error : CompactionError)
  deriving DecidableEq

/-- The texts of the exceptions that the call itself raises. -/
def CommitFailure.message : CommitFailure → String
  | .writableMounted id =>
    s!"cannot commit {id} while its writable child view is still mounted; " ++
      "unmount/drain it first"
  | .writerLockHeld id => s!"cannot commit {id}: local writer lock is held; " ++
      "unmount/drain writer first"
  | .staleMirror id baseGeneration generation =>
    s!"cannot commit {id}: dirty mirror base generation " ++
      s!"{baseGeneration} != manifest generation {generation}"
  | .compaction e => e.message
  | .fault _ | .lockHeld => ""

/-- The files of a child. -/
structure CommitFiles where
  manifest : ChildManifest
  /-- How many times a manifest has been put in place. -/
  placed : Nat := 0
  upper : Option Tree
  sealedUpper : Option Tree := none
  mirror : Option PublishedMirror := none
  localUpper : Option Tree := none
  packs : String → Option Tree := fun _ => none
  locks : CommitLock → Bool := fun _ => false

namespace CommitFiles

/-- `os.replace` of a manifest. -/
def place (m : ChildManifest) (s : CommitFiles) : CommitFiles :=
  { s with manifest := m, placed := s.placed + 1 }

def ensureUpper (s : CommitFiles) : CommitFiles := { s with upper := some (s.upper.getD ⟨[]⟩) }

def moveUpper (s : CommitFiles) : CommitFiles := { s with upper := none, sealedUpper := s.upper }

def cleanupSealed (s : CommitFiles) : CommitFiles := { s with sealedUpper := none }

/-- `_cleanup_local_async_state`. -/
def cleanupLocal (s : CommitFiles) : CommitFiles := { s with mirror := none, localUpper := none }

def setPack (path : String) (tree : Option Tree) (s : CommitFiles) : CommitFiles :=
  { s with packs := Function.update s.packs path tree }

def setLock (lock : CommitLock) (held : Bool) (s : CommitFiles) : CommitFiles :=
  { s with locks := Function.update s.locks lock held }

/-- The mirror that an async commit builds from: one with files or bytes. -/
def latest (s : CommitFiles) : Option PublishedMirror :=
  s.mirror.filter fun m => decide ¬ (m.fileCount = 0 ∧ m.bytes = 0)

end CommitFiles

/-- What a call reports: the manifest whose status it is, and the message it was given. -/
structure CommitReport where
  manifest : ChildManifest
  message : Option String := none

/-- One call: the service, the mount table, and what each step answers. -/
structure CommitCall where
  cfg : NodeConfig
  message : String := ""
  /-- The child is mounted read-write on this node. -/
  mountedRw : Bool := false
  raises : CommitPoint → Bool := fun _ => false
  delta : BuiltFile := { sha256 := "", size := 0 }
  compacted : BuiltFile := { sha256 := "", size := 0 }
  merged : Tree := ⟨[]⟩
  /-- What a builder that raises leaves. -/
  torn : Option Tree := none
  stamp : String := ""

abbrev CommitM := Lib.Program CommitFiles CommitFailure

namespace CommitCall

variable (c : CommitCall)

def pass (p : CommitPoint) : CommitM Unit := if c.raises p then throw (.fault p) else pure ()

/-- `_find` and `reload_registry`: no one else is writing, so they read the manifest on disk. -/
def find (p : CommitPoint) : CommitM ChildManifest := do
  c.pass p
  let s ← get
  return s.manifest

/-- A builder writes its file. -/
def build (p : CommitPoint) (path : String) (tree : Tree) : CommitM Unit :=
  if c.raises p then do
    modify (CommitFiles.setPack path c.torn)
    throw (.fault p)
  else modify (CommitFiles.setPack path (some tree))

def dumpAtomic (d : CommitDump) (m : ChildManifest) : CommitM Unit := do
  c.pass (.write d)
  modify (CommitFiles.place m)
  c.pass (.sync d)

/-- `with NFSLock(..)`. -/
def withLock {α : Type} (lock : CommitLock) (held : CommitFailure) (body : CommitM α) :
    CommitM α := do
  c.pass (.acquire lock)
  let s ← get
  if s.locks lock then throw held
  else do
    modify (CommitFiles.setLock lock true)
    Lib.closing (do
      c.pass (.release lock)
      modify (CommitFiles.setLock lock false)) body

/-! ## 2. The call -/

/-- `_compact_if_needed`. -/
def compactIfNeeded (m : ChildManifest) : CommitM (Option ChildManifest) :=
  match runnableCandidate c.cfg.levelPolicy m false with
  | none => pure none
  | some candidate => do
    c.pass .compactionDir
    let newPack := compactedPack c.cfg m candidate c.compacted
    c.build .buildCompaction newPack.path c.merged
    c.pass .applyCompaction
    match publishPartialCompaction m candidate.packs newPack candidate.targetLevel with
    | .error e => throw (.compaction e)
    | .ok (updated, _) =>
      c.dumpAtomic .compacted updated
      c.pass (.applyManifest .compacted)
      let compacted ← c.find (.reload .compacted)
      return some compacted

/-- `_mirror_after_commit_if_configured`. -/
def mirrorAfterCommitIfConfigured (m : ChildManifest) : CommitM ChildManifest :=
  if c.cfg.mirrorAfterCommit then do
    c.pass .upload
    c.dumpAtomic .mirrored
      (mirroredManifest m (c.cfg.coldPrefix m.generation) c.cfg.backend c.stamp)
    c.pass (.applyManifest .mirrored)
    c.find (.reload .mirrored)
  else pure m

/-- `if self.level_policy.trigger_after_commit`. -/
def compactIfTriggered (m : ChildManifest) : CommitM (Option ChildManifest) :=
  if c.cfg.levelPolicy.triggerAfterCommit then c.compactIfNeeded m else pure none

/-- `_build_commit_from_source`, once its manifest is in place. -/
def afterPublish (cleanup : CommitFiles → CommitFiles) : CommitM CommitReport := do
  c.pass (.sync .committed)
  c.pass (.applyManifest .committed)
  c.pass .cleanup
  modify cleanup
  let committed ← c.find (.reload .committed)
  let compacted ← c.compactIfTriggered committed
  let committed ← c.mirrorAfterCommitIfConfigured (compacted.getD committed)
  c.pass .status
  return { manifest := committed, message := some c.message }

/-- `_build_commit_from_source`. -/
def buildCommitFromSource (m : ChildManifest) (source : Tree) (overlayMode : String)
    (cleanup : CommitFiles → CommitFiles) : CommitM CommitReport := do
  c.pass .deltaDir
  let pack := deltaPack c.cfg (m.generation + 1) c.delta
  c.build .buildDelta pack.path (prepareDeltaSource source)
  c.pass .applyDelta
  c.pass .verifyPack
  c.pass (.write .committed)
  modify (CommitFiles.place (committedManifest c.cfg m pack overlayMode))
  c.afterPublish cleanup

/-- `_manifest_status(replace(manifest, state="clean"))`. -/
def cleanStatus (m : ChildManifest) : CommitM CommitReport := do
  c.pass .status
  return { manifest := { m with state := "clean" } }

def commitSharedNfs : CommitM CommitReport := do
  let m ← c.find .findAgain
  c.pass .ensureUpper
  modify CommitFiles.ensureUpper
  c.pass .dirtyScan
  let s ← get
  if (dirtyStats (s.upper.getD ⟨[]⟩)).dirty then
    c.withLock .commit .lockHeld do
      let m ← c.find .findLocked
      c.pass .ensureUpperLocked
      modify CommitFiles.ensureUpper
      c.pass .sealedDir
      let s ← get
      modify CommitFiles.moveUpper
      c.pass .sealed
      modify CommitFiles.ensureUpper
      Lib.onException (modify CommitFiles.cleanupSealed)
        (c.buildCommitFromSource m (s.upper.getD ⟨[]⟩) "shared-overlay" CommitFiles.cleanupSealed)
  else c.cleanStatus m

/-- `_commit_local_async` under its locks. -/
def commitLatest : CommitM CommitReport := do
  let m ← c.find .findLocked
  c.pass .latestMirrorLocked
  let s ← get
  match s.latest with
  | none => c.cleanStatus m
  | some latest =>
    if latest.baseGeneration ≠ m.generation then
      throw (.staleMirror m.id latest.baseGeneration m.generation)
    else c.buildCommitFromSource m latest.tree "local-ssd-async" CommitFiles.cleanupLocal

def commitLocalAsync : CommitM CommitReport := do
  let m ← c.find .findAgain
  c.pass .latestMirror
  let s ← get
  if s.latest.isSome then
    c.withLock .writer (.writerLockHeld m.id) (c.withLock .commit .lockHeld c.commitLatest)
  else c.cleanStatus m

def handleCommit : CommitM CommitReport := do
  let m ← c.find .find
  if c.mountedRw then throw (.writableMounted m.id)
  else
    match m.writePolicy with
    | .localSsdAsync => c.commitLocalAsync
    | .sharedNfs => c.commitSharedNfs

end CommitCall

/-! ## 3. When a call publishes, and when it then returns -/

/-- The steps from the sealed source to the manifest. -/
def buildPoints : List CommitPoint :=
  [.deltaDir, .buildDelta, .applyDelta, .verifyPack, .write .committed]

/-- The steps from the manifest to the report. -/
def reportPoints : List CommitPoint :=
  [.sync .committed, .applyManifest .committed, .cleanup, .reload .committed, .status]

/-- None of these steps raises. -/
def CommitCall.Quiet (c : CommitCall) (ps : List CommitPoint) : Prop := ∀ p ∈ ps, c.raises p = false

instance (c : CommitCall) (ps : List CommitPoint) : Decidable (c.Quiet ps) :=
  inferInstanceAs (Decidable (∀ p ∈ ps, c.raises p = false))

/-- The upper has something to commit, and its lock is free. -/
def CommitCall.PublishesShared (c : CommitCall) (s : CommitFiles) : Prop :=
  c.Quiet [.findAgain, .ensureUpper, .dirtyScan, .acquire .commit, .findLocked, .ensureUpperLocked,
      .sealedDir, .sealed] ∧
    (dirtyStats (s.upper.getD ⟨[]⟩)).dirty = true ∧ s.locks .commit = false

/-- The mirror has something to commit to this generation, and both locks are free. -/
def CommitCall.PublishesLocal (c : CommitCall) (s : CommitFiles) : Prop :=
  c.Quiet [.findAgain, .latestMirror, .acquire .writer, .acquire .commit, .findLocked,
      .latestMirrorLocked] ∧
    (∃ m, s.latest = some m ∧ m.baseGeneration = s.manifest.generation) ∧
    s.locks .writer = false ∧ s.locks .commit = false

/-- **The call gets as far as its manifest.** -/
def CommitCall.Publishes (c : CommitCall) (s : CommitFiles) : Prop :=
  c.raises .find = false ∧ c.mountedRw = false ∧ c.Quiet buildPoints ∧
    match s.manifest.writePolicy with
    | .sharedNfs => c.PublishesShared s
    | .localSsdAsync => c.PublishesLocal s

/-- The manifest that a call puts in place. -/
def CommitCall.publishedManifest (c : CommitCall) (m : ChildManifest) : ChildManifest :=
  committedManifest c.cfg m (deltaPack c.cfg (m.generation + 1) c.delta)
    (match m.writePolicy with
    | .sharedNfs => "shared-overlay"
    | .localSsdAsync => "local-ssd-async")

/-- The merge that follows a commit does not raise, where there is one. -/
def CommitCall.Compacts (c : CommitCall) (m : ChildManifest) : Prop :=
  ∀ candidate, postCommitCandidate c.cfg m = some candidate →
    c.Quiet [.compactionDir, .buildCompaction, .applyCompaction, .write .compacted,
      .sync .compacted, .applyManifest .compacted, .reload .compacted] ∧
    ∃ r, publishPartialCompaction m candidate.packs (compactedPack c.cfg m candidate c.compacted)
      candidate.targetLevel = .ok r

/-- The upload that follows a commit does not raise, where there is one. -/
def CommitCall.Mirrors (c : CommitCall) : Prop :=
  c.cfg.mirrorAfterCommit = true →
    c.Quiet [.upload, .write .mirrored, .sync .mirrored, .applyManifest .mirrored,
      .reload .mirrored]

/-- **No step after the manifest raises.** -/
def CommitCall.QuietAfter (c : CommitCall) (m : ChildManifest) : Prop :=
  c.Quiet reportPoints ∧ c.raises (.release .commit) = false ∧
    c.Compacts (c.publishedManifest m) ∧ c.Mirrors ∧
    (m.writePolicy = .localSsdAsync → c.raises (.release .writer) = false)

/-- **A failed commit changes nothing that is committed**: a call that raises leaves the manifest
    file as it was, and one that publishes returns, and reports the new generation. -/
def CommitCall.KeepsCommitted (c : CommitCall) (s : CommitFiles) : Prop :=
  let r := Lib.exec c.handleCommit s
  (∀ e, r.1 = .error e → r.2.manifest = s.manifest ∧ r.2.placed = s.placed) ∧
    (r.2.manifest.generation = s.manifest.generation + 1 →
      ∃ report, r.1 = .ok report ∧ report.manifest.generation = s.manifest.generation + 1)

section Verdicts

variable {c : CommitCall} {start s : CommitFiles} {P L : Prop} {α : Type}

open Lib (exec exec_bind exec_onException Returns)

/-- The manifest file has not been touched. -/
def Untouched (start s : CommitFiles) : Prop :=
  s.manifest = start.manifest ∧ s.placed = start.placed

/-- **What a part of a call does**: it publishes exactly under `P`, and then returns exactly under
    `L`. -/
structure Verdict (start : CommitFiles) (P L : Prop)
    (r : Except CommitFailure CommitReport × CommitFiles) : Prop where
  untouched : ¬ P → Untouched start r.2
  published : P → r.2.manifest.generation = start.manifest.generation + 1 ∧
    start.placed < r.2.placed
  reported : P → ∀ report, r.1 = .ok report →
    report.manifest.generation = start.manifest.generation + 1
  returns_iff : P → ((∃ report, r.1 = .ok report) ↔ L)

theorem Verdict.never {r : Except CommitFailure CommitReport × CommitFiles} (hP : ¬ P)
    (h : Untouched start r.2) : Verdict start P L r :=
  ⟨fun _ => h, fun hp => absurd hp hP, fun hp => absurd hp hP, fun hp => absurd hp hP⟩

theorem Verdict.congr {P' L' : Prop} {r : Except CommitFailure CommitReport × CommitFiles}
    (h : Verdict start P L r) (hP : P ↔ P') (hL : P' → (L ↔ L')) : Verdict start P' L' r :=
  ⟨fun hn => h.untouched (mt hP.mp hn), fun hp => h.published (hP.mpr hp),
    fun hp => h.reported (hP.mpr hp), fun hp => (h.returns_iff (hP.mpr hp)).trans (hL hp)⟩

theorem exec_pass (c : CommitCall) (p : CommitPoint) (s : CommitFiles) :
    exec (c.pass p) s = if c.raises p then (.error (.fault p), s) else (.ok (), s) := by
  unfold CommitCall.pass
  split <;> rfl

/-- A step that may raise, before the manifest. -/
theorem Verdict.pass {p : CommitPoint} {k : Unit → CommitM CommitReport} (hs : Untouched start s)
    (h : Verdict start P L (exec (k ()) s)) :
    Verdict start (c.raises p = false ∧ P) L (exec (c.pass p >>= k) s) := by
  rw [exec_bind, exec_pass]
  cases hp : c.raises p with
  | true => exact .never (fun hand => by cases hand.1) hs
  | false => exact h.congr ⟨fun hP => ⟨rfl, hP⟩, fun hand => hand.2⟩ fun _ => Iff.rfl

theorem Verdict.modified {g : CommitFiles → CommitFiles} {k : Unit → CommitM CommitReport}
    (h : Verdict start P L (exec (k ()) (g s))) :
    Verdict start P L (exec (modify g >>= k) s) := by
  rw [exec_bind]
  exact h

theorem Verdict.reading {k : CommitFiles → CommitM CommitReport}
    (h : Verdict start P L (exec (k s) s)) :
    Verdict start P L (exec (get >>= k) s) := by
  rw [exec_bind]
  exact h

theorem find_bind (c : CommitCall) (p : CommitPoint) (k : ChildManifest → CommitM α) :
    c.find p >>= k = c.pass p >>= fun _ => get >>= fun t => k t.manifest := by
  unfold CommitCall.find
  rw [bind_assoc]
  rfl

theorem Verdict.find {p : CommitPoint} {k : ChildManifest → CommitM CommitReport}
    (hs : Untouched start s) (h : Verdict start P L (exec (k s.manifest) s)) :
    Verdict start (c.raises p = false ∧ P) L (exec (c.find p >>= k) s) := by
  rw [find_bind]
  exact Verdict.pass hs (Verdict.reading h)

/-- A builder, before the manifest. -/
theorem Verdict.build {p : CommitPoint} {path : String} {tree : Tree}
    {k : Unit → CommitM CommitReport} (hs : Untouched start s)
    (h : Verdict start P L (exec (k ()) (s.setPack path (some tree)))) :
    Verdict start (c.raises p = false ∧ P) L (exec (c.build p path tree >>= k) s) := by
  unfold CommitCall.build
  cases hp : c.raises p with
  | true => exact .never (fun hand => by cases hand.1) hs
  | false => exact (Verdict.modified h).congr ⟨fun hP => ⟨rfl, hP⟩, fun hand => hand.2⟩ fun _ =>
    Iff.rfl

/-- A handler that leaves the manifest alone and raises again. -/
theorem Verdict.onException {g : CommitFiles → CommitFiles} {m : CommitM CommitReport}
    (hg : ∀ t, (g t).manifest = t.manifest ∧ (g t).placed = t.placed)
    (h : Verdict start P L (exec m s)) :
    Verdict start P L (exec (Lib.onException (modify g) m) s) := by
  rw [exec_onException]
  rcases hrun : exec m s with ⟨r, t⟩
  rw [hrun] at h
  cases r with
  | ok report => exact h
  | error e =>
      obtain ⟨hmanifest, hplaced⟩ := hg t
      refine ⟨fun hn => ?_, fun hP => ?_, fun hP report hr => (by cases hr), fun hP => ?_⟩
      · obtain ⟨h1, h2⟩ := h.untouched hn
        exact ⟨hmanifest.trans h1, hplaced.trans h2⟩
      · obtain ⟨h1, h2⟩ := h.published hP
        exact ⟨(congrArg _ hmanifest).trans h1, hplaced ▸ h2⟩
      · rw [← h.returns_iff hP]
        exact ⟨fun ⟨a, ha⟩ => (by cases ha), fun ⟨a, ha⟩ => (by cases ha)⟩

/-- Between a lock and its release. -/
theorem Verdict.withLock {lock : CommitLock} {held : CommitFailure} {body : CommitM CommitReport}
    (hs : Untouched start s) (h : Verdict start P L (exec body (s.setLock lock true))) :
    Verdict start (c.raises (.acquire lock) = false ∧ s.locks lock = false ∧ P)
      (L ∧ c.raises (.release lock) = false) (exec (c.withLock lock held body) s) := by
  refine Verdict.pass hs (Verdict.reading ?_)
  cases hlock : s.locks lock with
  | true => exact .never (fun hand => by cases hand.1) hs
  | false =>
      rw [if_neg Bool.false_ne_true]
      refine Verdict.modified ?_
      rw [Lib.exec_closing, exec_bind, exec_pass]
      rcases hrun : exec body (s.setLock lock true) with ⟨r, t⟩
      rw [hrun] at h
      cases hq : c.raises (.release lock) with
      | true =>
          refine ⟨fun hn => h.untouched fun hP => hn ⟨rfl, hP⟩, fun hP => h.published hP.2,
            fun _ _ hr => (by cases hr), fun _ => ⟨fun ⟨a, ha⟩ => (by cases ha), fun hand => ?_⟩⟩
          cases hand.2
      | false =>
          refine ⟨fun hn => h.untouched fun hP => hn ⟨rfl, hP⟩, fun hP => h.published hP.2,
            fun hP => h.reported hP.2, fun hP => (h.returns_iff hP.2).trans ?_⟩
          exact ⟨fun hL => ⟨hL, rfl⟩, fun hand => hand.1⟩

/-! ## 4. After the manifest -/

/-- The new generation is on disk. -/
def Published (n k : Nat) (s : CommitFiles) : Prop := s.manifest.generation = n ∧ k < s.placed

variable {n k : Nat} {p : CommitPoint} {m : ChildManifest}

theorem pass_returns : Returns (Published n k) (c.pass p) (c.raises p = false) fun _ => True := by
  unfold CommitCall.pass
  cases hp : c.raises p with
  | true => exact Returns.throw.congr ⟨False.elim, fun h => by cases h⟩ fun _ h => h
  | false => exact (Returns.pure trivial).congr ⟨fun _ => rfl, fun _ => trivial⟩ fun _ h => h

theorem find_returns :
    Returns (Published n k) (c.find p) (c.raises p = false) fun m => m.generation = n := by
  have hread : Returns (Published n k) (get >>= fun s => pure s.manifest : CommitM ChildManifest)
      (True ∧ True) fun m => m.generation = n :=
    Returns.state.bind fun s hs => Returns.pure hs.1
  exact (pass_returns.bind fun _ _ => hread).congr (by simp only [and_true]) fun _ h => h

theorem build_returns {path : String} {tree : Tree} :
    Returns (Published n k) (c.build p path tree) (c.raises p = false) fun _ => True := by
  have hset : ∀ left, Returns (Published n k)
      (modify (CommitFiles.setPack path left) : CommitM Unit) True fun _ => True := fun left =>
    Returns.update fun s hs => hs
  unfold CommitCall.build
  cases hp : c.raises p with
  | true =>
      have hraise := (hset c.torn).bind fun _ _ =>
        Returns.throw (e := CommitFailure.fault p) (Q := fun _ : Unit => True)
      exact hraise.congr ⟨fun h => h.2.elim, fun h => by cases h⟩ fun _ h => h
  | false => exact (hset (some tree)).congr ⟨fun _ => rfl, fun _ => trivial⟩ fun _ h => h

theorem dumpAtomic_returns {d : CommitDump} (hm : m.generation = n) :
    Returns (Published n k) (c.dumpAtomic d m) (c.Quiet [.write d, .sync d]) fun _ => True := by
  have hplace : Returns (Published n k) (modify (CommitFiles.place m) : CommitM Unit) True
      fun _ => True := Returns.update fun s hs => ⟨hm, Nat.lt_succ_of_lt hs.2⟩
  refine (pass_returns.bind fun _ _ => hplace.bind fun _ _ => pass_returns).congr ?_ fun _ h => h
  simp [CommitCall.Quiet]

/-- The manifest of a compaction has the generation that it merges packs of. -/
theorem publishPartialCompaction_generation {m' : ChildManifest} {selected retired : List PackInfo}
    {newPack : PackInfo} {target : Nat}
    (h : publishPartialCompaction m selected newPack target = .ok (m', retired)) :
    m'.generation = m.generation := by
  unfold publishPartialCompaction at h
  split at h
  · cases h
  · simp only at h
    split at h
    · cases h
    · split at h
      · cases h
      · cases h
        rfl

/-- **A compaction after the commit** raises where the condition says, and keeps the generation. -/
theorem compactIfNeeded_returns (hm : m.generation = n)
    (htrigger : c.cfg.levelPolicy.triggerAfterCommit = true) :
    Returns (Published n k) (c.compactIfNeeded m) (c.Compacts m)
      fun compacted => (compacted.getD m).generation = n := by
  have hcandidate : postCommitCandidate c.cfg m = runnableCandidate c.cfg.levelPolicy m false :=
    if_pos htrigger
  unfold CommitCall.compactIfNeeded CommitCall.Compacts
  rw [hcandidate]
  cases hrun : runnableCandidate c.cfg.levelPolicy m false with
  | none =>
      have hnone := Returns.pure (ε := CommitFailure) (I := Published n k)
        (a := (none : Option ChildManifest))
        (Q := fun compacted => (compacted.getD m).generation = n) hm
      refine hnone.congr ?_ fun _ h => h
      exact ⟨fun _ _ h => (by cases h), fun _ => trivial⟩
  | some candidate =>
      simp only [Option.some.injEq, forall_eq']
      cases hpub : publishPartialCompaction m candidate.packs
          (compactedPack c.cfg m candidate c.compacted) candidate.targetLevel with
      | error e =>
          refine (pass_returns.bind fun _ _ => build_returns.bind fun _ _ => pass_returns.bind
            fun _ _ => Returns.throw).congr ?_ fun _ h => h
          simp
      | ok r =>
          have hgeneration : r.1.generation = n :=
            (publishPartialCompaction_generation hpub).trans hm
          have hend := pass_returns (c := c) (n := n) (k := k) (p := .applyManifest .compacted)
            |>.bind fun _ _ => find_returns (c := c) (p := .reload .compacted) |>.bind
              fun a ha => Returns.pure (ε := CommitFailure) (I := Published n k) (a := some a)
                (Q := fun compacted => (compacted.getD m).generation = n) ha
          refine (pass_returns.bind fun _ _ => build_returns.bind fun _ _ => pass_returns.bind
            fun _ _ => (dumpAtomic_returns hgeneration).bind fun _ _ => hend).congr ?_ fun _ h => h
          simp [CommitCall.Quiet, and_assoc]

theorem compactIfTriggered_returns (hm : m.generation = n) :
    Returns (Published n k) (c.compactIfTriggered m) (c.Compacts m)
      fun compacted => (compacted.getD m).generation = n := by
  unfold CommitCall.compactIfTriggered
  by_cases htrigger : c.cfg.levelPolicy.triggerAfterCommit = true
  · rw [if_pos htrigger]
    exact compactIfNeeded_returns hm htrigger
  · rw [if_neg htrigger]
    have hnone := Returns.pure (ε := CommitFailure) (I := Published n k)
      (a := (none : Option ChildManifest))
      (Q := fun compacted => (compacted.getD m).generation = n) hm
    refine hnone.congr ?_ fun _ h => h
    refine ⟨fun _ candidate hc => ?_, fun _ => trivial⟩
    unfold postCommitCandidate at hc
    rw [if_neg htrigger] at hc
    cases hc

/-- **An upload after the commit**, likewise. -/
theorem mirrorAfterCommit_returns (hm : m.generation = n) :
    Returns (Published n k) (c.mirrorAfterCommitIfConfigured m) c.Mirrors
      fun mirrored => mirrored.generation = n := by
  unfold CommitCall.mirrorAfterCommitIfConfigured CommitCall.Mirrors
  cases hon : c.cfg.mirrorAfterCommit with
  | false =>
      have hsame := Returns.pure (ε := CommitFailure) (I := Published n k) (a := m)
        (Q := fun mirrored => mirrored.generation = n) hm
      refine hsame.congr ?_ fun _ h => h
      exact ⟨fun _ h => (by cases h), fun _ => trivial⟩
  | true =>
      have hgeneration : (mirroredManifest m (c.cfg.coldPrefix m.generation) c.cfg.backend
          c.stamp).generation = n := hm
      refine (pass_returns.bind fun _ _ => (dumpAtomic_returns hgeneration).bind fun _ _ =>
        pass_returns.bind fun _ _ => find_returns).congr ?_ fun _ h => h
      simp [CommitCall.Quiet, and_assoc]

/-- A step that may raise, after the manifest. -/
theorem Verdict.passAfter {k : Unit → CommitM CommitReport}
    (hs : Published (start.manifest.generation + 1) start.placed s)
    (h : Verdict start True L (exec (k ()) s)) :
    Verdict start True (c.raises p = false ∧ L) (exec (c.pass p >>= k) s) := by
  rw [exec_bind, exec_pass]
  cases hp : c.raises p with
  | true =>
      refine ⟨fun hn => absurd trivial hn, fun _ => hs, fun _ _ hr => (by cases hr), fun _ =>
        ⟨fun ⟨a, ha⟩ => (by cases ha), fun hand => (by cases hand.1)⟩⟩
  | false => exact h.congr Iff.rfl fun _ => ⟨fun hL => ⟨rfl, hL⟩, fun hand => hand.2⟩

theorem Verdict.of_returns {program : CommitM CommitReport}
    (hs : Published (start.manifest.generation + 1) start.placed s)
    (h : Returns (Published (start.manifest.generation + 1) start.placed) program L
      fun report => report.manifest.generation = start.manifest.generation + 1) :
    Verdict start True L (exec program s) :=
  ⟨fun hn => absurd trivial hn, fun _ => (h.keeps s hs).1, fun _ => (h.keeps s hs).2,
    fun _ => h.returns_iff s hs⟩

/-- **What follows the manifest** returns exactly when no step of it raises. -/
theorem afterPublish_verdict {cleanup : CommitFiles → CommitFiles}
    (hclean : ∀ t, (cleanup t).manifest = t.manifest ∧ (cleanup t).placed = t.placed)
    (hs : Published (start.manifest.generation + 1) start.placed s) :
    Verdict start True (c.Quiet reportPoints ∧ c.Compacts s.manifest ∧ c.Mirrors)
      (exec (c.afterPublish cleanup) s) := by
  obtain ⟨hmanifest, hplaced⟩ := hclean s
  have hs' : Published (start.manifest.generation + 1) start.placed (cleanup s) := by
    unfold Published
    rw [hmanifest, hplaced]
    exact hs
  have hcompact := compactIfTriggered_returns (c := c) (k := start.placed) hs.1
  have hend := hcompact.bind fun compacted hc => (mirrorAfterCommit_returns (c := c) hc).bind
    fun m hm => (pass_returns (c := c) (p := .status)).bind fun _ _ =>
      Returns.pure (ε := CommitFailure)
        (a := ({ manifest := m, message := some c.message } : CommitReport))
        (Q := fun report => report.manifest.generation = start.manifest.generation + 1) hm
  have hsteps : Verdict start True (c.raises (.sync .committed) = false ∧
      c.raises (.applyManifest .committed) = false ∧ c.raises .cleanup = false ∧
      c.raises (.reload .committed) = false ∧ c.Compacts s.manifest ∧ c.Mirrors ∧
      c.raises .status = false ∧ True) (exec (c.afterPublish cleanup) s) := by
    refine Verdict.passAfter hs (Verdict.passAfter hs (Verdict.passAfter hs
      (Verdict.modified ?_)))
    rw [find_bind]
    refine Verdict.passAfter hs' (Verdict.reading ?_)
    rw [hmanifest]
    exact Verdict.of_returns hs' hend
  refine hsteps.congr Iff.rfl fun _ => ?_
  simp only [CommitCall.Quiet, reportPoints, List.forall_mem_cons, List.not_mem_nil, false_imp_iff,
    implies_true, and_true]
  tauto

/-! ## 5. The whole call -/

theorem buildCommitFromSource_verdict {source : Tree} {mode : String}
    {cleanup : CommitFiles → CommitFiles} (hs : Untouched start s) (hm : m = start.manifest)
    (hclean : ∀ t, (cleanup t).manifest = t.manifest ∧ (cleanup t).placed = t.placed) :
    Verdict start (c.Quiet buildPoints)
      (c.Quiet reportPoints ∧ c.Compacts (committedManifest c.cfg m
        (deltaPack c.cfg (m.generation + 1) c.delta) mode) ∧ c.Mirrors)
      (exec (c.buildCommitFromSource m source mode cleanup) s) := by
  have hpublish : ∀ t : CommitFiles, Untouched start t →
      Verdict start True (c.Quiet reportPoints ∧ c.Compacts (committedManifest c.cfg m
        (deltaPack c.cfg (m.generation + 1) c.delta) mode) ∧ c.Mirrors)
        (exec (c.afterPublish cleanup) (t.place (committedManifest c.cfg m
          (deltaPack c.cfg (m.generation + 1) c.delta) mode))) := by
    intro t ht
    refine afterPublish_verdict (s := t.place _) hclean ⟨?_, ?_⟩
    · rw [← hm]
      rfl
    · exact Nat.lt_succ_of_le (Nat.le_of_eq ht.2.symm)
  have hbuilt : Untouched start (s.setPack (deltaPack c.cfg (m.generation + 1) c.delta).path
      (some (prepareDeltaSource source))) := hs
  refine (Verdict.pass hs (Verdict.build hs (Verdict.pass hbuilt (Verdict.pass hbuilt
    (Verdict.pass hbuilt (Verdict.modified (hpublish _ hbuilt))))))).congr ?_ fun _ => Iff.rfl
  simp [CommitCall.Quiet, buildPoints]

/-- A call that finds nothing to commit. -/
theorem cleanStatus_verdict (hs : Untouched start s) :
    Verdict start False L (exec (c.cleanStatus m) s) := by
  refine .never id ?_
  unfold CommitCall.cleanStatus
  rw [exec_bind, exec_pass]
  cases c.raises .status with
  | true => exact hs
  | false => exact hs

/-- **A shared-NFS commit.** -/
theorem commitSharedNfs_verdict (c : CommitCall) (s : CommitFiles) :
    Verdict s (c.Quiet buildPoints ∧ c.PublishesShared s)
      (c.Quiet reportPoints ∧ c.raises (.release .commit) = false ∧
        c.Compacts (committedManifest c.cfg s.manifest
          (deltaPack c.cfg (s.manifest.generation + 1) c.delta) "shared-overlay") ∧ c.Mirrors)
      (exec c.commitSharedNfs s) := by
  have hs : Untouched s s := ⟨rfl, rfl⟩
  unfold CommitCall.commitSharedNfs
  by_cases hdirty : (dirtyStats (s.upper.getD ⟨[]⟩)).dirty = true
  · have hsteps : Verdict s (c.raises .findAgain = false ∧ c.raises .ensureUpper = false ∧
        c.raises .dirtyScan = false ∧ c.raises (.acquire .commit) = false ∧
        s.locks .commit = false ∧ c.raises .findLocked = false ∧
        c.raises .ensureUpperLocked = false ∧ c.raises .sealedDir = false ∧
        c.raises .sealed = false ∧ c.Quiet buildPoints)
        ((c.Quiet reportPoints ∧ c.Compacts (committedManifest c.cfg s.manifest
          (deltaPack c.cfg (s.manifest.generation + 1) c.delta) "shared-overlay") ∧ c.Mirrors) ∧
          c.raises (.release .commit) = false) (exec c.commitSharedNfs s) := by
      refine Verdict.find hs (Verdict.pass hs (Verdict.modified ?_))
      refine Verdict.pass ⟨rfl, rfl⟩ (Verdict.reading ?_)
      have hdirty' : (dirtyStats ((CommitFiles.ensureUpper s).upper.getD ⟨[]⟩)).dirty = true :=
          hdirty
      rw [if_pos hdirty']
      refine Verdict.withLock (s := s.ensureUpper) ⟨rfl, rfl⟩ ?_
      refine Verdict.find ⟨rfl, rfl⟩ (Verdict.pass ⟨rfl, rfl⟩ (Verdict.modified ?_))
      refine Verdict.pass ⟨rfl, rfl⟩ (Verdict.reading (Verdict.modified ?_))
      refine Verdict.pass ⟨rfl, rfl⟩
        (Verdict.modified (Verdict.onException (fun t => ⟨rfl, rfl⟩) ?_))
      exact buildCommitFromSource_verdict ⟨rfl, rfl⟩ rfl fun t => ⟨rfl, rfl⟩
    refine hsteps.congr ?_ fun _ => ?_
    · simp only [CommitCall.PublishesShared, CommitCall.Quiet, List.forall_mem_cons,
      List.not_mem_nil,
        false_imp_iff, implies_true, and_true, hdirty, true_and]
      tauto
    · tauto
  · have hclean : Verdict s (c.raises .findAgain = false ∧ c.raises .ensureUpper = false ∧
        c.raises .dirtyScan = false ∧ False) (c.Quiet reportPoints ∧
          c.raises (.release .commit) = false ∧ c.Compacts (committedManifest c.cfg s.manifest
            (deltaPack c.cfg (s.manifest.generation + 1) c.delta) "shared-overlay") ∧ c.Mirrors)
        (exec c.commitSharedNfs s) := by
      refine Verdict.find hs (Verdict.pass hs (Verdict.modified ?_))
      refine Verdict.pass ⟨rfl, rfl⟩ (Verdict.reading ?_)
      have hdirty' : ¬ (dirtyStats ((CommitFiles.ensureUpper s).upper.getD ⟨[]⟩)).dirty = true :=
        hdirty
      rw [if_neg hdirty']
      exact cleanStatus_verdict ⟨rfl, rfl⟩
    refine hclean.congr ⟨fun h => h.2.2.2.elim, fun h => absurd h.2.2.1 hdirty⟩ fun _ => Iff.rfl

/-- **An async commit under its locks.** -/
theorem commitLatest_verdict {latest : PublishedMirror} (hs : Untouched start s)
    (hlatest : s.latest = some latest) :
    Verdict start (c.raises .findLocked = false ∧ c.raises .latestMirrorLocked = false ∧
        latest.baseGeneration = start.manifest.generation ∧ c.Quiet buildPoints)
      (c.Quiet reportPoints ∧ c.Compacts (committedManifest c.cfg start.manifest
        (deltaPack c.cfg (start.manifest.generation + 1) c.delta) "local-ssd-async") ∧ c.Mirrors)
      (exec c.commitLatest s) := by
  refine Verdict.find hs (Verdict.pass hs (Verdict.reading ?_))
  rw [hlatest, hs.1]
  by_cases hbase : latest.baseGeneration = start.manifest.generation
  · have hclean : ∀ t : CommitFiles, t.cleanupLocal.manifest = t.manifest ∧
        t.cleanupLocal.placed = t.placed := fun t => ⟨rfl, rfl⟩
    have hbuild := @buildCommitFromSource_verdict c _ _ _ latest.tree "local-ssd-async"
      CommitFiles.cleanupLocal hs rfl hclean
    show Verdict start _ _ (exec (if _ then _ else _) s)
    rw [if_neg (not_not.mpr hbase)]
    exact hbuild.congr ⟨fun h => ⟨hbase, h⟩, fun h => h.2⟩ fun _ => Iff.rfl
  · show Verdict start _ _ (exec (if _ then _ else _) s)
    rw [if_pos hbase]
    exact .never (fun h => hbase h.1) hs

/-- **A local-ssd-async commit.** -/
theorem commitLocalAsync_verdict (c : CommitCall) (s : CommitFiles) :
    Verdict s (c.Quiet buildPoints ∧ c.PublishesLocal s)
      (c.Quiet reportPoints ∧ c.raises (.release .commit) = false ∧
        c.Compacts (committedManifest c.cfg s.manifest
          (deltaPack c.cfg (s.manifest.generation + 1) c.delta) "local-ssd-async") ∧ c.Mirrors ∧
        c.raises (.release .writer) = false)
      (exec c.commitLocalAsync s) := by
  have hs : Untouched s s := ⟨rfl, rfl⟩
  cases hlatest : s.latest with
  | none =>
      have hclean : Verdict s (c.raises .findAgain = false ∧ c.raises .latestMirror = false ∧ False)
          (c.Quiet reportPoints ∧ c.raises (.release .commit) = false ∧
            c.Compacts (committedManifest c.cfg s.manifest
              (deltaPack c.cfg (s.manifest.generation + 1) c.delta) "local-ssd-async") ∧
            c.Mirrors ∧ c.raises (.release .writer) = false) (exec c.commitLocalAsync s) := by
        refine Verdict.find hs (Verdict.pass hs (Verdict.reading ?_))
        rw [if_neg (by simp [hlatest])]
        exact cleanStatus_verdict hs
      refine hclean.congr ⟨fun h => h.2.2.elim, fun h => ?_⟩ fun _ => Iff.rfl
      obtain ⟨m, hm, -⟩ := h.2.2.1
      rw [hlatest] at hm
      cases hm
  | some latest =>
      have hsteps : Verdict s (c.raises .findAgain = false ∧ c.raises .latestMirror = false ∧
          c.raises (.acquire .writer) = false ∧ s.locks .writer = false ∧
          c.raises (.acquire .commit) = false ∧ s.locks .commit = false ∧
          c.raises .findLocked = false ∧ c.raises .latestMirrorLocked = false ∧
          latest.baseGeneration = s.manifest.generation ∧ c.Quiet buildPoints)
          (((c.Quiet reportPoints ∧ c.Compacts (committedManifest c.cfg s.manifest
            (deltaPack c.cfg (s.manifest.generation + 1) c.delta) "local-ssd-async") ∧ c.Mirrors) ∧
            c.raises (.release .commit) = false) ∧ c.raises (.release .writer) = false)
          (exec c.commitLocalAsync s) := by
        refine Verdict.find hs (Verdict.pass hs (Verdict.reading ?_))
        rw [if_pos (by simp [hlatest])]
        refine Verdict.withLock hs (Verdict.withLock (s := s.setLock .writer true) ⟨rfl, rfl⟩ ?_)
        exact commitLatest_verdict ⟨rfl, rfl⟩ hlatest
      refine hsteps.congr ?_ fun _ => by tauto
      simp only [CommitCall.PublishesLocal, CommitCall.Quiet, List.forall_mem_cons,
        List.not_mem_nil, false_imp_iff, implies_true, and_true, hlatest, Option.some.injEq,
        exists_eq_left']
      tauto

/-- A call that is refused while the child is mounted read-write. -/
theorem Verdict.refused {e : CommitFailure} {program : CommitM CommitReport}
    (hs : Untouched start s) (h : Verdict start P L (exec program s)) :
    Verdict start (c.mountedRw = false ∧ P) L
      (exec (if c.mountedRw then throw e else program) s) := by
  cases hrw : c.mountedRw with
  | true => exact .never (fun hand => by cases hand.1) hs
  | false => exact h.congr ⟨fun hP => ⟨rfl, hP⟩, fun hand => hand.2⟩ fun _ => Iff.rfl

/-- **The whole call.** -/
theorem handleCommit_verdict (c : CommitCall) (s : CommitFiles) :
    Verdict s (c.Publishes s) (c.QuietAfter s.manifest) (exec c.handleCommit s) := by
  have hs : Untouched s s := ⟨rfl, rfl⟩
  unfold CommitCall.Publishes CommitCall.QuietAfter CommitCall.publishedManifest
    CommitCall.handleCommit
  cases hpolicy : s.manifest.writePolicy with
  | sharedNfs =>
      refine Verdict.congr (L := c.Quiet reportPoints ∧ c.raises (.release .commit) = false ∧
        c.Compacts (committedManifest c.cfg s.manifest
          (deltaPack c.cfg (s.manifest.generation + 1) c.delta) "shared-overlay") ∧ c.Mirrors)
        (Verdict.find hs (Verdict.refused hs ?_)) Iff.rfl fun _ => ?_
      · rw [hpolicy]
        exact commitSharedNfs_verdict c s
      · simp only [reduceCtorEq, false_imp_iff, and_true]
  | localSsdAsync =>
      refine Verdict.congr (L := c.Quiet reportPoints ∧ c.raises (.release .commit) = false ∧
        c.Compacts (committedManifest c.cfg s.manifest
          (deltaPack c.cfg (s.manifest.generation + 1) c.delta) "local-ssd-async") ∧ c.Mirrors ∧
        c.raises (.release .writer) = false)
        (Verdict.find hs (Verdict.refused hs ?_)) Iff.rfl fun _ => ?_
      · rw [hpolicy]
        exact commitLocalAsync_verdict c s
      · simp only [true_imp_iff]

end Verdicts

/-- **A failed commit changes nothing that is committed exactly if, once it has published, nothing
    raises.** -/
theorem handleCommit_keepsCommitted_iff (c : CommitCall) (s : CommitFiles) :
    c.KeepsCommitted s ↔ (c.Publishes s → c.QuietAfter s.manifest) := by
  have hverdict := handleCommit_verdict c s
  unfold CommitCall.KeepsCommitted
  rcases hrun : Lib.exec c.handleCommit s with ⟨r, t⟩
  rw [hrun] at hverdict
  constructor
  · intro h hP
    obtain ⟨report, hreport, -⟩ := h.2 (hverdict.published hP).1
    exact (hverdict.returns_iff hP).mp ⟨report, hreport⟩
  · intro h
    by_cases hP : c.Publishes s
    · obtain ⟨report, hreport⟩ := (hverdict.returns_iff hP).mpr (h hP)
      refine ⟨fun e he => ?_, fun _ => ⟨report, hreport, hverdict.reported hP report hreport⟩⟩
      rw [hreport] at he
      cases he
    · obtain ⟨hmanifest, hplaced⟩ := hverdict.untouched hP
      refine ⟨fun _ _ => ⟨hmanifest, hplaced⟩, fun hgeneration => ?_⟩
      rw [hmanifest] at hgeneration
      omega

/-! ## 6. A published delta, and a commit that raises -/

/-- A dirty shared-NFS child. -/
def dirtyChild : CommitFiles where
  manifest := { id := "id-env", name := "env", type := "env", generation := 1 }
  upper := some ⟨[(["a"], .file [1])]⟩

/-- `CCC_MIRROR_AFTER_COMMIT` is on, and the store does not answer. -/
def unansweredUpload : CommitCall where
  cfg := {
    levelPolicy := .default
    packDir := "/nfs/packs/id-env"
    activeUpper := "/nfs/overlays/id-env/active-upper"
    coldPrefix := fun _ => "cold"
    mirrorAfterCommit := true }
  raises := fun p => decide (p = .upload)

/-- **The commit raises, and generation 2 is on disk.** -/
theorem failedMirror_breaks : ¬ ∀ (c : CommitCall) (s : CommitFiles), c.KeepsCommitted s := by
  intro h
  have hkeeps := (h unansweredUpload dirtyChild).2
  have hpublished : (Lib.exec unansweredUpload.handleCommit dirtyChild).2.manifest.generation =
      dirtyChild.manifest.generation + 1 := by decide +kernel
  have hraised : (Lib.exec unansweredUpload.handleCommit dirtyChild).1.toOption.isNone := by
    decide +kernel
  obtain ⟨report, hreport, -⟩ := hkeeps hpublished
  rw [hreport] at hraised
  cases hraised

end CccStorage
