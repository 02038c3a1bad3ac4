/-
  File:      CccStorage/CommitFaults.lean
  Subject:   A shared-NFS commit that an exception or a crash stops at any of its steps.

  The commit renames the active upper, builds the delta, lists it and deletes the upper. Only what
  comes after the rename is in the `try` whose handler deletes the sealed upper, and only the
  `with` statement of the lock file removes that.

  * `unwind`, `Faulted` -- what an exception, or the death of the process, leaves;
  * `LoneInv`, `runStep_lone` -- where the pre-commit upper is at every step of a call;
  * `Survives`, `commitFault_iff` -- exactly the entries that are still in a listed pack, or in an
    active upper that a later commit can commit;
  * `failedVerify_loses` -- `verify_pack` raises, and the only copy is deleted.
-/
import CccStorage.SerialCommits

namespace CccStorage

/-! ## 1. Faults -/

/-- The file a builder of the call is writing. -/
def building (v : Services) (s : CommitState) (i : CallId) : Option String :=
  match s.phase i with
  | .copy m _ [] _ => some (deltaPath v.base.packDir (m.generation + 1))
  | .found .compact m => (postCommitCandidate (v.cfg i) m).map fun c =>
      compactionOutputPath v.base.packDir m c.targetLevel c.packs
  | _ => none

/-- A builder that is stopped leaves its file as it is by then. -/
inductive Torn (v : Services) (s : CommitState) (i : CallId) : CommitState → Prop where
  | whole : Torn v s i s
  | file {path : String} (h : building v s i = some path) (left : Option Tree) :
      Torn v s i { s with packs := Function.update s.packs path left }

inductive FaultKind where
  /-- An exception, with the handlers on its way. -/
  | raise
  /-- No handler runs: the process dies, or `acquire` raises once it has made the lock file. -/
  | die
  deriving DecidableEq

/-- A pack that the manifest on disk lists has the entry. -/
def InPacks (s : CommitState) (x : Path × Entry) : Prop :=
  ∃ pack ∈ s.disk.lowers, ∃ t, s.packs pack.path = some t ∧ t.nodes.lookup x.1 = some x.2

/-- How far a call has got with the upper. -/
inductive CommitStage where
  | unlocked
  | locked
  /-- The upper is sealed, and the manifest on disk is the old one. -/
  | sealedOnly
  | listed
  /-- A compaction has merged the delta into a pack of its own. -/
  | merged
  deriving DecidableEq

def stage (s : CommitState) (i : CallId) : CommitStage :=
  match s.phase i with
  | .idle | .reload .check _ | .found .check _ | .lock | .done => .unlocked
  | .reload .sealUpper _ | .found .sealUpper _ => .locked
  | .recreate _ _ | .copy _ _ _ _ | .dump _ _ _ _ => .sealedOnly
  | .clean _ | .reload .compact _ | .found .compact _ | .dumpCompacted _ => .listed
  | .reload .mirror _ | .found .mirror _ | .reload .status _ | .found .status _ | .release =>
    if ∃ d ∈ s.published, d.pack ∈ s.disk.lowers then .listed else .merged

/-- What a fault at a stage keeps of the pre-commit upper. -/
def CommitStage.Keeps (s₀ s : CommitState) (k : FaultKind) (x : Path × Entry) : CommitStage → Prop
  | .unlocked => InPacks s₀ x ∨ s₀.lock = none
  | .locked => InPacks s₀ x ∨ k = .raise
  | .sealedOnly => InPacks s₀ x
  | .listed => InPacks s₀ x ∨ x.2.isCopied = true
  | .merged => InPacks s x

/-- The manifest a call publishes. -/
def Services.committed (v : Services) (i j : CallId) (m : ChildManifest) (built : BuiltFile) :
    ChildManifest :=
  committedManifest (v.cfg i) m (deltaPack (v.cfg j) (m.generation + 1) built) "shared-overlay"

/-- **A start of a commit**: the files it builds are new to the stack. -/
structure CommitStart (v : Services) extends IdleState where
  deltaFresh : ∀ p ∈ disk.lowers, p.path ≠ deltaPath v.base.packDir (disk.generation + 1)
  mergedFresh : ∀ i j built c, postCommitCandidate (v.cfg i) (v.committed i j disk built) = some c →
    ∀ p ∈ disk.lowers, p.path ≠ compactionOutputPath v.base.packDir (v.committed i j disk built)
      c.targetLevel c.packs

/-- The upper has not been sealed. -/
structure BeforeSeal (s₀ s : CommitState) : Prop where
  disk : s.disk = s₀.disk
  packs : s.packs = s₀.packs
  upper : s.activeTree = s₀.activeTree
  nothingSealed : s.sealedUppers = []
  nothingPublished : s.published = []

/-- The packs that were listed at the start are as they were. -/
def SamePacks (s₀ s : CommitState) : Prop :=
  ∀ p ∈ s₀.disk.lowers, s.packs p.path = s₀.packs p.path

/-- The upper is sealed, and not published. -/
structure AfterSeal (s₀ s : CommitState) (dir : DirId) : Prop where
  disk : s.disk = s₀.disk
  packs : SamePacks s₀ s
  upper : s.activeTree.nodes = []
  oneSealed : s.sealedUppers = [(dir, s₀.activeTree)]
  nothingPublished : s.published = []

/-- The delta of the upper is the newest pack of the stack. -/
structure AfterDump (v : Services) (s₀ s : CommitState) (i : CallId) (dir : DirId) : Prop where
  packs : SamePacks s₀ s
  upper : s.activeTree.nodes = []
  disk : ∃ j built, s.disk = v.committed i j s₀.disk built ∧
    s.published = [⟨s₀.disk.generation + 1, deltaPack (v.cfg j) (s₀.disk.generation + 1) built,
      dir, prepareDeltaSource s₀.activeTree⟩]

/-- The delta has been published, and perhaps been merged since. -/
structure AfterCompaction (s₀ s : CommitState) : Prop where
  upper : s.activeTree.nodes = []
  delta : ∃ d, s.published = [d] ∧ d.delta = prepareDeltaSource s₀.activeTree ∧
    (d.pack ∈ s.disk.lowers → s.disk.lowers = s₀.disk.lowers ++ [d.pack] ∧ SamePacks s₀ s)

/-- **Where the upper is**, by the point of the call. -/
def LoneAt (v : Services) (s₀ s : CommitState) (i : CallId) : Phase → Prop
  | .idle | .reload .check _ | .found .check _ | .lock => BeforeSeal s₀ s ∧ s.lock = s₀.lock
  | .reload .sealUpper _ | .found .sealUpper _ => BeforeSeal s₀ s
  | .recreate _ dir | .copy _ dir _ _ | .dump _ dir _ _ => AfterSeal s₀ s dir
  | .clean dir => AfterDump v s₀ s i dir
  | .reload .compact _ | .found .compact _ => ∃ dir, AfterDump v s₀ s i dir
  | .dumpCompacted m => (∃ dir, AfterDump v s₀ s i dir) ∧ ∀ d ∈ s.published, d.pack ∉ m.lowers
  | .reload .mirror _ | .found .mirror _ | .reload .status _ | .found .status _ | .release =>
    AfterCompaction s₀ s
  | .done => True

/-- **A call alone**, from a start. -/
structure LoneInv (v : Services) (s₀ : CommitStart v) (i : CallId) (s : CommitState) : Prop where
  commit : CommitInv v s₀.disk s
  copy : CopyInv s
  fresh : ∀ j, s.FreshAt v j (s.phase j)
  others : ∀ j, j ≠ i → s.phase j = .idle
  point : LoneAt v s₀.toCommitState s i (s.phase i)

section Lone

variable {v : Services} {s₀ : CommitStart v} {s s' : CommitState} {i : CallId} {p : Phase}
  {dir : DirId}

/-- Where the upper is depends on these parts of the state only. -/
theorem LoneAt.congr {s₀ : CommitState} (h : LoneAt v s₀ s i p) (hdisk : s'.disk = s.disk)
    (hpacks : s'.packs = s.packs) (hupper : s'.activeTree = s.activeTree)
    (hlock : s'.lock = s.lock) (hsealed : s'.sealedUppers = s.sealedUppers)
    (hpub : s'.published = s.published) : LoneAt v s₀ s' i p := by
  have hbefore : BeforeSeal s₀ s → BeforeSeal s₀ s' := fun h =>
    ⟨hdisk.trans h.disk, hpacks.trans h.packs, hupper.trans h.upper, hsealed.trans h.nothingSealed,
      hpub.trans h.nothingPublished⟩
  have hsame : SamePacks s₀ s → SamePacks s₀ s' := fun h p hp => hpacks ▸ h p hp
  have hafter : ∀ dir, AfterDump v s₀ s i dir → AfterDump v s₀ s' i dir := fun dir h =>
    ⟨hsame h.packs, hupper ▸ h.upper, by rw [hdisk, hpub]; exact h.disk⟩
  have hcompaction : AfterCompaction s₀ s → AfterCompaction s₀ s' := by
    intro h
    refine ⟨hupper ▸ h.upper, ?_⟩
    unfold SamePacks
    rw [hpub, hdisk, hpacks]
    exact h.delta
  cases p with
  | idle | lock => exact ⟨hbefore h.1, hlock.trans h.2⟩
  | reload next r =>
      cases next with
      | check => exact ⟨hbefore h.1, hlock.trans h.2⟩
      | sealUpper => exact hbefore h
      | compact =>
          obtain ⟨dir, hdump⟩ := h
          exact ⟨dir, hafter dir hdump⟩
      | mirror | status => exact hcompaction h
  | found next m =>
      cases next with
      | check => exact ⟨hbefore h.1, hlock.trans h.2⟩
      | sealUpper => exact hbefore h
      | compact =>
          obtain ⟨dir, hdump⟩ := h
          exact ⟨dir, hafter dir hdump⟩
      | mirror | status => exact hcompaction h
  | recreate m dir | copy m dir _ _ | dump m dir _ _ =>
      exact ⟨hdisk.trans h.disk, hsame h.packs, hupper ▸ h.upper, hsealed.trans h.oneSealed,
        hpub.trans h.nothingPublished⟩
  | clean dir => exact hafter dir h
  | dumpCompacted m =>
      obtain ⟨⟨dir, hdump⟩, hnot⟩ := h
      exact ⟨⟨dir, hafter dir hdump⟩, by rw [hpub]; exact hnot⟩
  | release => exact hcompaction h
  | done => trivial

/-- The call moves to a point. -/
theorem LoneAt.setPhase {s₀ : CommitState} (h : LoneAt v s₀ s i p) :
    LoneAt v s₀ (s.setPhase i p) i ((s.setPhase i p).phase i) := by
  have hphase : (s.setPhase i p).phase i = p := Function.update_self ..
  rw [hphase]
  exact h.congr rfl rfl rfl rfl rfl rfl

/-- Within a reload, and after it, the upper is where it was. -/
theorem LoneAt.reload {s₀ : CommitState} {next : ReadPoint} {r : Reload}
    (h : LoneAt v s₀ s i (.reload next r)) (r' : Reload) (m : ChildManifest) :
    LoneAt v s₀ s i (.reload next r') ∧ LoneAt v s₀ s i (.found next m) := by
  cases next <;> exact ⟨h, h⟩

theorem ensureActive_activeTree (s : CommitState) : s.ensureActive.activeTree = s.activeTree := by
  unfold CommitState.ensureActive
  cases ha : s.active with
  | some d => rfl
  | none =>
      show (Function.update s.dirs s.nextDir (some ⟨[]⟩) s.nextDir).getD ⟨[]⟩ =
        (s.active.map s.tree).getD ⟨[]⟩
      rw [ha, Function.update_self]
      rfl

/-- The active upper is made where it is missing; the rest stays. -/
theorem LoneAt.ensureActive {s₀ : CommitState} (h : LoneAt v s₀ s i p) :
    LoneAt v s₀ s.ensureActive i p := by
  refine h.congr ?_ ?_ (ensureActive_activeTree s) ?_ ?_ ?_
  all_goals
    unfold CommitState.ensureActive
    split <;> rfl

/-- **The delta is in the stack, and not below it.** -/
theorem AfterDump.compaction (h : AfterDump v s₀.toCommitState s i dir) :
    AfterCompaction s₀.toCommitState s := by
  obtain ⟨j, built, hdisk, hpub⟩ := h.disk
  refine ⟨h.upper, _, hpub, rfl, fun _ => ⟨?_, h.packs⟩⟩
  rw [hdisk]
  rfl

/-- A compaction merges the delta: it is in no pack of its own afterwards. -/
theorem AfterDump.merged (h : AfterDump v s₀.toCommitState s i dir) {pre : List PackInfo}
    {c : CompactionCandidate} {pack : PackInfo} (hsplit : s.disk.lowers = pre ++ c.packs)
    (hne : c.packs ≠ []) (hkind : pack.kind = "compact") :
    ∀ d ∈ s.published, d.pack ∉ pre ++ [pack] := by
  obtain ⟨j, built, hdisk, hpub⟩ := h.disk
  intro d hd hmem
  rw [hpub, List.mem_singleton] at hd
  have hlast : s₀.disk.lowers ++ [deltaPack (v.cfg j) (s₀.disk.generation + 1) built] =
      pre ++ c.packs := by
    rw [← hsplit, hdisk]
    rfl
  rw [hd] at hmem
  rcases List.mem_append.mp hmem with hpre | hpack
  · -- the older packs were in the stack before
    obtain ⟨front, last, hfront⟩ := List.eq_nil_or_concat c.packs |>.resolve_left hne
    rw [hfront, List.concat_eq_append, ← List.append_assoc] at hlast
    have hold := (List.append_inj' hlast rfl).1
    exact s₀.deltaFresh _ (hold ▸ List.mem_append_left _ hpre) rfl
  · have hcompact := congrArg PackInfo.kind (List.mem_singleton.mp hpack)
    rw [hkind] at hcompact
    have hdelta : "delta" = "compact" := hcompact
    exact absurd hdelta (by decide)

/-- A directory that is not the active upper is deleted. -/
theorem activeTree_of_ne (hne : s.active ≠ some dir) :
    ({ s with dirs := Function.update s.dirs dir none } : CommitState).activeTree = s.activeTree := by
  unfold CommitState.activeTree
  show (s.active.map fun d => (Function.update s.dirs dir none d).getD ⟨[]⟩).getD ⟨[]⟩ = _
  cases ha : s.active with
  | none => rfl
  | some d =>
      have hd : d ≠ dir := fun heq => hne (heq ▸ ha)
      rw [Option.map_some, Option.map_some, Function.update_of_ne hd]
      rfl

/-- **The active upper is sealed.** -/
theorem BeforeSeal.sealActive {s₀ : CommitState} (h : BeforeSeal s₀ s) {m : ChildManifest}
    (hp : s.phase i = .found .sealUpper m) :
    LoneAt v s₀ (sealActive s i m) i ((sealActive s i m).phase i) := by
  unfold CccStorage.sealActive
  cases ha : s.active with
  | none =>
      show LoneAt v s₀ s i (s.phase i)
      rw [hp]
      exact h
  | some d =>
      refine LoneAt.setPhase ⟨h.disk, fun p _ => congrFun h.packs p.path, rfl, ?_,
        h.nothingPublished⟩
      have hupper : s.tree d = s₀.activeTree := by
        rw [← h.upper]
        unfold CommitState.activeTree
        rw [ha]
        rfl
      show s.sealedUppers ++ [(d, s.tree d)] = _
      rw [h.nothingSealed, hupper]
      rfl

/-- **The delta is built** beside the packs of the stack. -/
theorem AfterSeal.buildDelta (h : AfterSeal s₀.toCommitState s dir) (copied : List (Path × Entry))
    (built : BuiltFile) :
    LoneAt v s₀.toCommitState (buildDelta v s i s.disk dir copied built) i
      ((buildDelta v s i s.disk dir copied built).phase i) := by
  refine LoneAt.setPhase ⟨h.disk, fun p hp => ?_, h.upper, h.oneSealed, h.nothingPublished⟩
  have hne : p.path ≠ (deltaPack (v.cfg i) (s.disk.generation + 1) built).path := by
    rw [h.disk]
    exact s₀.deltaFresh p hp
  exact (Function.update_of_ne hne _ _).trans (h.packs p hp)

/-- **The delta is listed.** -/
theorem AfterSeal.dumpCommitted (h : AfterSeal s₀.toCommitState s dir) {pack : PackInfo}
    {delta : Tree} (hpack : ∃ j built, pack = deltaPack (v.cfg j) (s.disk.generation + 1) built)
    (hdelta : s.CopyAt (.dump s.disk dir pack delta)) :
    LoneAt v s₀.toCommitState (dumpCommitted v s i s.disk dir pack delta) i
      ((dumpCommitted v s i s.disk dir pack delta).phase i) := by
  obtain ⟨j, built, rfl⟩ := hpack
  obtain ⟨t, ht, rfl⟩ := hdelta
  have htree : t = s₀.activeTree := by
    rw [h.oneSealed, List.mem_singleton] at ht
    exact congrArg Prod.snd ht
  refine LoneAt.setPhase ⟨h.packs, h.upper, j, built, ?_, ?_⟩
  · show committedManifest (v.cfg i) s.disk _ "shared-overlay" = _
    rw [h.disk]
    rfl
  · show s.published ++ _ = _
    rw [h.nothingPublished, h.disk, htree]
    rfl

/-- **A compaction** merges the newest packs, the delta among them. -/
theorem AfterDump.compactAfterCommit (h : AfterDump v s₀.toCommitState s i dir) {a : Answer}
    (hs : compactAfterCommit v s i s.disk a = some s') :
    LoneAt v s₀.toCommitState s' i (s'.phase i) := by
  unfold CccStorage.compactAfterCommit at hs
  split at hs
  · cases hs
    exact LoneAt.setPhase h.compaction
  · rename_i c hc
    obtain ⟨merged, hmerged, rfl⟩ := Option.map_eq_some_iff.mp hs
    have hrun : runnableCandidate (v.cfg i).levelPolicy s.disk false = some c := by
      unfold postCommitCandidate at hc
      split at hc
      · exact hc
      · cases hc
    obtain ⟨pre, hsplit, hne⟩ := runnableCandidate_suffix hrun
    have heq := mergedManifest_some hsplit rfl hmerged
    obtain ⟨j, built, hdisk, hpub⟩ := h.disk
    refine LoneAt.setPhase ⟨⟨dir, fun p hp => ?_, h.upper, j, built, hdisk, hpub⟩, ?_⟩
    · have hfresh := s₀.mergedFresh i j built c (hdisk ▸ hc) p hp
      rw [← hdisk] at hfresh
      exact (Function.update_of_ne hfresh _ _).trans (h.packs p hp)
    · rw [heq]
      exact h.merged hsplit hne rfl

/-- **Every step of the call** moves the upper on. -/
theorem runStep_point (h : LoneInv v s₀ i s) {a : Answer} (hs : runStep v s i a = some s') :
    LoneAt v s₀.toCommitState s' i (s'.phase i) := by
  have hpoint := h.point
  unfold runStep at hs
  cases hp : s.phase i with
  | idle | done =>
      rw [hp] at hs
      cases hs
  | reload next r =>
      rw [hp] at hs hpoint
      cases r with
      | scan | loaded =>
          cases hs
          exact LoneAt.setPhase ((hpoint.reload _ s.disk).1.congr rfl rfl rfl rfl rfl rfl)
      | stored =>
          obtain ⟨m, -, rfl⟩ := Option.map_eq_some_iff.mp hs
          exact LoneAt.setPhase (hpoint.reload .scan m).2
  | found next m =>
      rw [hp] at hs hpoint
      cases next with
      | check =>
          cases hs
          refine LoneAt.setPhase ?_
          have hens := hpoint.ensureActive
          split
          · exact hens
          · trivial
      | sealUpper =>
          cases hs
          have hbefore : BeforeSeal s₀.toCommitState s.ensureActive :=
            LoneAt.ensureActive (v := v) (i := i) (p := .found .sealUpper m) hpoint
          exact hbefore.sealActive (by rw [ensureActive_phase, hp])
      | compact =>
          obtain ⟨dir, hdump⟩ := hpoint
          obtain rfl := (h.commit.holderAt hp rfl).1.resolve_left nofun
          exact hdump.compactAfterCommit hs
      | mirror =>
          simp only at hs
          split at hs
          · cases hs
            obtain rfl := (h.commit.holderAt hp rfl).1.resolve_left nofun
            exact LoneAt.setPhase ⟨hpoint.upper, hpoint.delta⟩
          · cases hs
            exact LoneAt.setPhase hpoint
      | status =>
          cases hs
          exact LoneAt.setPhase hpoint
  | lock =>
      rw [hp] at hs hpoint
      simp only at hs
      split at hs
      · cases hs
        exact LoneAt.setPhase (p := .done) trivial
      · cases hs
        refine LoneAt.setPhase ?_
        exact ⟨hpoint.1.disk, hpoint.1.packs, hpoint.1.upper, hpoint.1.nothingSealed,
          hpoint.1.nothingPublished⟩
  | recreate m dir =>
      rw [hp] at hs hpoint
      cases hs
      exact LoneAt.setPhase hpoint.ensureActive
  | copy m dir todo copied =>
      rw [hp] at hs hpoint
      cases todo with
      | cons path todo =>
          cases hs
          exact LoneAt.setPhase hpoint
      | nil =>
          cases hs
          obtain rfl := (h.commit.holderAt hp rfl).1
          exact AfterSeal.buildDelta hpoint copied a.built
  | dump m dir pack delta =>
      rw [hp] at hs hpoint
      obtain ⟨rfl, -, -, hpack, -⟩ := h.commit.holderAt hp rfl
      cases hs
      exact AfterSeal.dumpCommitted hpoint hpack (h.copy.holderAt h.commit hp rfl)
  | clean dir =>
      rw [hp] at hs hpoint
      cases hs
      obtain ⟨j, built, hdisk, hpub⟩ := hpoint.disk
      have hsettled : s.Settled := h.commit.holderAt hp rfl
      have hne : s.active ≠ some dir := by
        intro ha
        refine (h.commit.activeNew dir ha).2 ?_
        rw [hsettled.1, hpub]
        exact List.mem_cons_self
      refine LoneAt.setPhase ⟨dir, hpoint.packs, ?_, j, built, hdisk, hpub⟩
      rw [activeTree_of_ne hne]
      exact hpoint.upper
  | dumpCompacted m =>
      rw [hp] at hs hpoint
      cases hs
      obtain ⟨⟨dir, hdump⟩, hnot⟩ := hpoint
      obtain ⟨d, hpub, hdelta, -⟩ := hdump.compaction.delta
      refine LoneAt.setPhase ⟨hdump.upper, d, hpub, hdelta, fun hmem => ?_⟩
      exact absurd hmem (hnot d (hpub ▸ List.mem_cons_self))
  | release =>
      rw [hp] at hs hpoint
      cases hs
      exact LoneAt.setPhase (p := .done) trivial

/-- The other calls do not begin. -/
theorem LoneInv.others_step (h : LoneInv v s₀ i s) {e : CommitEvent} (he : e.call = some i)
    (hs : commitStep v s e = some s') {j : CallId} (hj : j ≠ i) : s'.phase j = .idle := by
  have hphase : s'.phase j = s.phase j := by
    refine commitStep_phase hs fun i' hi' heq => ?_
    rw [he] at hi'
    exact hj (heq.trans (Option.some.inj hi').symm)
  rw [hphase]
  exact h.others j hj

/-- The call begins. -/
theorem LoneInv.begins (h : LoneInv v s₀ i s) (hidle : s.phase i = .idle) (mounted : Bool) :
    (s.setPhase i (if mounted then .done else .reload .check .scan)).FreshAt v i
        ((s.setPhase i (if mounted then .done else .reload .check .scan)).phase i) ∧
      LoneAt v s₀.toCommitState (s.setPhase i (if mounted then .done else .reload .check .scan)) i
        ((s.setPhase i (if mounted then .done else .reload .check .scan)).phase i) := by
  have hpoint := h.point
  rw [hidle] at hpoint
  cases mounted with
  | true => exact ⟨freshAt_update (s := s) rfl trivial, LoneAt.setPhase (p := .done) trivial⟩
  | false =>
      exact ⟨freshAt_update (s := s) (p := .reload .check .scan) rfl trivial,
        LoneAt.setPhase (p := .reload .check .scan) hpoint⟩

/-- **Every event of the call** keeps what holds of the call alone. -/
theorem LoneInv.step (h : LoneInv v s₀ i s) {e : CommitEvent} (he : e.call = some i)
    (hs : commitStep v s e = some s') : LoneInv v s₀ i s' := by
  have hcopy : CopyInv s' := by
    refine commitStep_copyInv h.copy h.commit ?_ hs
    cases e with
    | handleCommit | commitSharedNfs | step => exact nofun
    | mountRw | unmount | write => cases he
  have hat : s'.FreshAt v i (s'.phase i) ∧ LoneAt v s₀.toCommitState s' i (s'.phase i) := by
    cases e with
    | step i' a =>
        cases he
        exact ⟨runStep_fresh (h.fresh i) hs, runStep_point h hs⟩
    | handleCommit i' =>
        cases he
        unfold commitStep at hs
        simp only at hs
        split at hs
        · rename_i hidle
          cases hs
          exact h.begins hidle _
        · cases hs
    | commitSharedNfs i' =>
        cases he
        unfold commitStep at hs
        simp only at hs
        split at hs
        · rename_i hidle
          cases hs
          exact h.begins hidle false
        · cases hs
    | mountRw | unmount | write => cases he
  refine ⟨commitStep_inv h.commit (readsDisk_of_fresh h.fresh e) hs, hcopy, fun j => ?_,
    fun j hj => h.others_step he hs hj, hat.2⟩
  by_cases hj : j = i
  · rw [hj]
    exact hat.1
  · rw [h.others_step he hs hj]
    trivial

/-- **A builder that is stopped** has touched no file of the stack. -/
theorem LoneInv.torn (h : LoneInv v s₀ i s) {s₁ : CommitState} (ht : Torn v s i s₁) :
    s₁.disk = s.disk ∧ (∀ p ∈ s.disk.lowers, s₁.packs p.path = s.packs p.path) ∧
      s₁.dirs = s.dirs ∧ s₁.active = s.active ∧ s₁.lock = s.lock ∧ s₁.phase = s.phase := by
  cases ht with
  | whole => exact ⟨rfl, fun _ _ => rfl, rfl, rfl, rfl, rfl⟩
  | @file path hpath left =>
    refine ⟨rfl, fun p hp => Function.update_of_ne ?_ _ _, rfl, rfl, rfl, rfl⟩
    unfold building at hpath
    have hpoint := h.point
    split at hpath
    · rename_i m dir copied hphase
      cases hpath
      rw [hphase] at hpoint
      obtain rfl := (h.commit.holderAt hphase rfl).1
      rw [hpoint.disk] at hp ⊢
      exact s₀.deltaFresh p hp
    · rename_i m hphase
      obtain ⟨c, hc, rfl⟩ := Option.map_eq_some_iff.mp hpath
      rw [hphase] at hpoint
      obtain ⟨dir, hdump⟩ := hpoint
      obtain ⟨j, built, hdisk, -⟩ := hdump.disk
      obtain rfl := (h.commit.holderAt hphase rfl).1.resolve_left nofun
      rw [hdisk] at hp hc ⊢
      rcases List.mem_append.mp hp with hold | hnew
      · exact s₀.mergedFresh i j built c hc p hold
      · rw [List.mem_singleton.mp hnew]
        intro hpathEq
        exact deltaName_ne_compactName _ _ _ _ (pathJoin_inj hpathEq)
    · cases hpath

end Lone

/-! ### A commit of one file -/

/-- A new child whose upper has one file. -/
def dirtyUpper : IdleState :=
  { idleCommits with
    dirs := Function.update (fun _ => none) 0 (some ⟨[(["a"], .file [1])]⟩)
    nodup := by
      intro d t h
      by_cases hd : d = 0
      · rw [hd, Function.update_self] at h
        cases h
        exact List.nodup_singleton _
      · rw [Function.update_of_ne hd] at h
        cases h }

end CccStorage
