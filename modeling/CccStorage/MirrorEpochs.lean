/-
  File:      CccStorage/MirrorEpochs.lean
  Subject:   `publish_logical_mirror`, one file-system step at a time, with crashes, and what
             `latest_dirty_mirror` finds between any two steps (`mountd/overlay.py`).

  A publish copies its source into a staging directory, renames that to the name of the epoch,
  swaps the symlink `current` and replaces `publish.json`. The next one takes the epoch after the
  one in `publish.json` and clears whatever a crash has left under its names.

  * `MirrorDir`, `publishStep` -- the mirror directory and the steps of a publish;
  * `latestDirtyMirror` -- the reader;
  * `EpochInv` -- what `publish.json` names is complete and is nobody's to clear;
  * `publish_crashConsistent` -- every mirror ever found is the whole copy of one publish call, the
    last that returned or a later one, and its epoch never goes down.
-/
import CccStorage.Delta
import CccStorage.Lib.Run

namespace CccStorage

/-! ## 1. The mirror directory -/

/-- What a publish is called with; a source that is no directory raises before anything is done. -/
structure PublishCall where
  source : Tree
  childId : String
  nodeId : String
  baseGeneration : Nat

/-- `epoch.json`. -/
structure EpochMetadata where
  childId : String
  nodeId : String
  epoch : Nat
  baseGeneration : Nat
  fileCount : Nat
  bytes : Nat
  publishedTs : Int
  deriving DecidableEq

structure EpochDir where
  tree : Option Tree := none
  epochJson : Option EpochMetadata := none
  /-- `.epoch.json.tmp`, and what has been written of it. -/
  epochJsonTmp : Option (Option EpochMetadata) := none

/-- `publish.json`: the metadata, and the epoch directory whose `tree` is its `path`. -/
structure PublishJson where
  metadata : EpochMetadata
  path : String
  deriving DecidableEq

structure MirrorDir where
  epochs : String → Option EpochDir
  currentTmp : Option String
  /-- The symlink `current`, by the epoch directory it points into. -/
  current : Option String
  publishTmp : Option (Option PublishJson)
  publishJson : Option PublishJson

structure DirtyMirror where
  metadata : EpochMetadata
  path : String

namespace MirrorDir

/-- The `tree` of an epoch directory, if it exists. -/
def treeAt (s : MirrorDir) (name : String) : Option Tree := (s.epochs name).bind (·.tree)

def setEpoch (s : MirrorDir) (name : String) (d : Option EpochDir) : MirrorDir :=
  { s with epochs := Function.update s.epochs name d }

/-- `latest_dirty_mirror`. -/
def latestDirtyMirror (s : MirrorDir) : Option DirtyMirror :=
  match s.publishJson with
  | none => none
  | some data =>
    if (s.treeAt data.path).isSome then some ⟨data.metadata, data.path⟩
    else
      match s.current with
      | none => none
      | some current =>
        if (s.treeAt current).isSome then some ⟨data.metadata, current⟩ else none

/-- `_next_epoch`. -/
def nextEpoch (s : MirrorDir) : Nat :=
  match s.publishJson with
  | some latest => latest.metadata.epoch + 1
  | none => 1

end MirrorDir

/-- `f"e{epoch:06d}"`. -/
def epochName (epoch : Nat) : String := "e" ++ padTo 6 epoch

def stagingName (epoch : Nat) : String := "." ++ epochName epoch ++ ".tmp"

/-- `shutil.rmtree`, one removal; `none` when the directory itself is removed. -/
def EpochDir.removeOne (d : EpochDir) : Option EpochDir :=
  match d.tree with
  | some t => if t.nodes = [] then some { d with tree := none }
      else some { d with tree := some ⟨t.nodes.dropLast⟩ }
  | none =>
    if d.epochJson.isSome then some { d with epochJson := none }
    else if d.epochJsonTmp.isSome then some { d with epochJsonTmp := none }
    else none

/-! ## 2. A publish -/

/-- The steps of `_atomic_write_json`. -/
inductive JsonStep where
  | openTmp
  | writeTmp
  | replace
  deriving DecidableEq

/-- The next thing a publish does; `m` is the metadata. -/
inductive PublishPhase where
  | idle
  | readEpoch (c : PublishCall)
  | clearStaging (c : PublishCall) (epoch : Nat)
  | clearFinal (c : PublishCall) (epoch : Nat)
  | makeTree (c : PublishCall) (epoch : Nat)
  | copy (c : PublishCall) (epoch : Nat) (todo : List (Path × Entry))
  | stamp (c : PublishCall) (epoch : Nat)
  | epochJson (c : PublishCall) (m : EpochMetadata) (j : JsonStep)
  | replaceStaging (c : PublishCall) (m : EpochMetadata)
  | linkClear (c : PublishCall) (m : EpochMetadata)
  | linkCreate (c : PublishCall) (m : EpochMetadata)
  | linkReplace (c : PublishCall) (m : EpochMetadata)
  | publishJson (c : PublishCall) (m : EpochMetadata) (j : JsonStep)
  | returns

/-- The mirror of a child and the publish that is under way. -/
structure MirrorRun where
  dir : MirrorDir
  phase : PublishPhase
  /-- The calls so far, with the epochs they have taken. -/
  calls : List (PublishCall × Nat)
  /-- The last call that returned. -/
  returned : Option Nat

inductive PublishAct where
  | call (c : PublishCall)
  /-- The next file-system step; `now` is what the clock reads. -/
  | step (now : Int)
  /-- The process dies, or the call raises. -/
  | crash

/-- The metadata of a call for the tree it has copied. -/
def epochMetadata (c : PublishCall) (epoch : Nat) (tree : Tree) (now : Int) : EpochMetadata where
  childId := c.childId
  nodeId := c.nodeId
  epoch := epoch
  baseGeneration := c.baseGeneration
  fileCount := (dirtyStats tree).fileCount
  bytes := (dirtyStats tree).bytes
  publishedTs := now

/-- **The next file-system step of a publish.** -/
def publishNext (s : MirrorRun) (now : Int) : Option MirrorRun :=
  match s.phase with
  | .idle => none
  | .readEpoch c =>
    let epoch := s.dir.nextEpoch
    some { s with phase := .clearStaging c epoch, calls := s.calls ++ [(c, epoch)] }
  | .clearStaging c epoch =>
    match s.dir.epochs (stagingName epoch) with
    | none => some { s with phase := .clearFinal c epoch }
    | some d => some { s with dir := s.dir.setEpoch (stagingName epoch) d.removeOne }
  | .clearFinal c epoch =>
    match s.dir.epochs (epochName epoch) with
    | none => some { s with phase := .makeTree c epoch }
    | some d => some { s with dir := s.dir.setEpoch (epochName epoch) d.removeOne }
  | .makeTree c epoch =>
    some { s with
      dir := s.dir.setEpoch (stagingName epoch) (some { tree := some ⟨[]⟩ })
      phase := .copy c epoch c.source.nodes }
  | .copy c epoch ((path, entry) :: todo) =>
    if entry.isCopied then
      let copied := ((s.dir.treeAt (stagingName epoch)).getD ⟨[]⟩).nodes
      some { s with
        dir := s.dir.setEpoch (stagingName epoch)
          (some { tree := some ⟨copied ++ [(path, entry)]⟩ })
        phase := .copy c epoch todo }
    -- `copytree` raises on what it cannot copy; the top level skips it
    else if 2 ≤ path.length then some { s with phase := .idle }
    else some { s with phase := .copy c epoch todo }
  | .copy c epoch [] => some { s with phase := .stamp c epoch }
  | .stamp c epoch =>
    let tree := (s.dir.treeAt (stagingName epoch)).getD ⟨[]⟩
    some { s with phase := .epochJson c (epochMetadata c epoch tree now) .openTmp }
  | .epochJson c m j =>
    let staging := (s.dir.epochs (stagingName m.epoch)).getD {}
    let write (d : EpochDir) := s.dir.setEpoch (stagingName m.epoch) (some d)
    match j with
    | .openTmp => some { s with
        dir := write { staging with epochJsonTmp := some none }
        phase := .epochJson c m .writeTmp }
    | .writeTmp => some { s with
        dir := write { staging with epochJsonTmp := some (some m) }
        phase := .epochJson c m .replace }
    | .replace => some { s with
        dir := write { staging with epochJson := some m, epochJsonTmp := none }
        phase := .replaceStaging c m }
  | .replaceStaging c m =>
    some { s with
      dir := (s.dir.setEpoch (epochName m.epoch) (s.dir.epochs (stagingName m.epoch))).setEpoch
        (stagingName m.epoch) none
      phase := .linkClear c m }
  | .linkClear c m =>
    some { s with dir := { s.dir with currentTmp := none }, phase := .linkCreate c m }
  | .linkCreate c m =>
    some { s with
      dir := { s.dir with currentTmp := some (epochName m.epoch) }
      phase := .linkReplace c m }
  | .linkReplace c m =>
    some { s with
      dir := { s.dir with current := s.dir.currentTmp, currentTmp := none }
      phase := .publishJson c m .openTmp }
  | .publishJson c m j =>
    let data : PublishJson := ⟨m, epochName m.epoch⟩
    match j with
    | .openTmp => some { s with
        dir := { s.dir with publishTmp := some none }, phase := .publishJson c m .writeTmp }
    | .writeTmp => some { s with
        dir := { s.dir with publishTmp := some (some data) }, phase := .publishJson c m .replace }
    | .replace => some { s with
        dir := { s.dir with publishTmp := none, publishJson := some data }, phase := .returns }
  | .returns => some { s with phase := .idle, returned := some (s.calls.length - 1) }

def publishStep (s : MirrorRun) : PublishAct → Option MirrorRun
  | .call c =>
    match s.phase with
    | .idle => some { s with phase := .readEpoch c }
    | _ => none
  | .step now => publishNext s now
  | .crash => some { s with phase := .idle }

/-! ## 3. What is published stays -/

/-- **What `publish.json` names is the whole copy of call `n`**, under the name of its epoch. -/
structure Complete (s : MirrorRun) (data : PublishJson) (n : Nat) (c : PublishCall) (tree : Tree) :
    Prop where
  call : s.calls[n]? = some (c, data.metadata.epoch)
  copied : copyLogicalTree c.source = some tree
  there : s.dir.treeAt data.path = some tree
  metadata : data.metadata = epochMetadata c data.metadata.epoch tree data.metadata.publishedTs
  path : data.path = epochName data.metadata.epoch

/-- The call under way has taken the next epoch. -/
structure TakesEpoch (s : MirrorRun) (c : PublishCall) (epoch : Nat) : Prop where
  next : epoch = s.dir.nextEpoch
  last : s.calls.getLast? = some (c, epoch)

/-- The call's tree is complete in the epoch directory of this name, and `m` describes it. -/
def CopiedAs (s : MirrorRun) (c : PublishCall) (m : EpochMetadata) (name : String) : Prop :=
  ∃ tree, copyLogicalTree c.source = some tree ∧ s.dir.treeAt name = some tree ∧
    m = epochMetadata c m.epoch tree m.publishedTs

/-- What holds at each step of a publish. -/
def PublishPhase.Holds (s : MirrorRun) : PublishPhase → Prop
  | .idle | .readEpoch _ => True
  | .clearStaging c epoch | .clearFinal c epoch | .makeTree c epoch => TakesEpoch s c epoch
  | .copy c epoch todo => TakesEpoch s c epoch ∧ ∃ done, c.source.nodes = done ++ todo ∧
      (∀ x ∈ done, 2 ≤ x.1.length → x.2.isCopied = true) ∧
      s.dir.treeAt (stagingName epoch) = some ⟨done.filter fun x => x.2.isCopied⟩
  | .stamp c epoch => TakesEpoch s c epoch ∧ ∃ tree, copyLogicalTree c.source = some tree ∧
      s.dir.treeAt (stagingName epoch) = some tree
  | .epochJson c m _ | .replaceStaging c m =>
    TakesEpoch s c m.epoch ∧ CopiedAs s c m (stagingName m.epoch)
  | .linkClear c m | .linkCreate c m | .linkReplace c m | .publishJson c m _ =>
    TakesEpoch s c m.epoch ∧ CopiedAs s c m (epochName m.epoch)
  | .returns => ∃ data c tree, s.dir.publishJson = some data ∧
      Complete s data (s.calls.length - 1) c tree

/-- What every step of every call keeps. -/
structure EpochInv (s : MirrorRun) : Prop where
  published : ∀ data ∈ s.dir.publishJson,
    ∃ n c tree, Complete s data n c tree ∧ ∀ r ∈ s.returned, r ≤ n
  unpublished : s.dir.publishJson = none → s.returned = none
  phase : s.phase.Holds s

section Steps

variable {s t : MirrorRun} {c : PublishCall} {m : EpochMetadata} {name : String}

theorem epochName_inj {a b : Nat} (h : epochName a = epochName b) : a = b := by
  unfold epochName at h
  rw [← String.toList_inj, String.toList_append, String.toList_append,
    List.append_cancel_left_eq, String.toList_inj] at h
  exact padTo_inj h

/-- No epoch has the name of a staging directory. -/
theorem stagingName_ne (a b : Nat) : stagingName a ≠ epochName b := by
  intro h
  unfold stagingName epochName at h
  have hlist := congrArg String.toList h
  simp only [String.toList_append] at hlist
  exact absurd (List.cons.inj hlist).1 (by decide)

theorem treeAt_setEpoch {dir : MirrorDir} {d : Option EpochDir} {name' : String} :
    (dir.setEpoch name d).treeAt name' =
      if name' = name then d.bind (·.tree) else dir.treeAt name' := by
  unfold MirrorDir.treeAt MirrorDir.setEpoch
  simp only [Function.update_apply]
  split <;> rfl

/-- The epoch a call has taken is not the published one. -/
theorem TakesEpoch.ne (h : TakesEpoch s c m.epoch) {data : PublishJson}
    (hdata : s.dir.publishJson = some data) : data.metadata.epoch ≠ m.epoch := by
  rw [h.next]
  unfold MirrorDir.nextEpoch
  rw [hdata]
  exact Nat.ne_of_lt (Nat.lt_succ_self _)

theorem Complete.congr {data : PublishJson} {n : Nat} {tree : Tree} (h : Complete s data n c tree)
    (hcalls : s.calls <+: t.calls) (hthere : t.dir.treeAt data.path = s.dir.treeAt data.path) :
    Complete t data n c tree := by
  refine ⟨?_, h.copied, hthere.trans h.there, h.metadata, h.path⟩
  obtain ⟨more, hmore⟩ := hcalls
  rw [← hmore, List.getElem?_append_left]
  · exact h.call
  · exact (List.getElem?_eq_some_iff.mp h.call).1

/-- **A step that leaves `publish.json` and the tree it names alone.** -/
theorem EpochInv.next (h : EpochInv s) (hp : t.dir.publishJson = s.dir.publishJson)
    (hr : t.returned = s.returned) (hcalls : s.calls <+: t.calls)
    (hthere : ∀ data ∈ s.dir.publishJson, t.dir.treeAt data.path = s.dir.treeAt data.path)
    (hphase : t.phase.Holds t) : EpochInv t := by
  refine ⟨fun data hdata => ?_, fun hnone => ?_, hphase⟩
  · rw [hp] at hdata
    obtain ⟨n, c, tree, hcomplete, hlast⟩ := h.published data hdata
    rw [hr]
    exact ⟨n, c, tree, hcomplete.congr hcalls (hthere data hdata), hlast⟩
  · rw [hp] at hnone
    rw [hr]
    exact h.unpublished hnone

/-- The published tree is not in a staging directory. -/
theorem EpochInv.there_staging (h : EpochInv s) (epoch : Nat) (d : Option EpochDir) :
    ∀ data ∈ s.dir.publishJson,
      (s.dir.setEpoch (stagingName epoch) d).treeAt data.path = s.dir.treeAt data.path := by
  intro data hdata
  obtain ⟨n, c, tree, hcomplete, -⟩ := h.published data hdata
  rw [treeAt_setEpoch, if_neg]
  rw [hcomplete.path]
  exact (stagingName_ne _ _).symm

/-- Nor in the directory of the epoch that is next. -/
theorem EpochInv.there_final (h : EpochInv s) {epoch : Nat} (htakes : TakesEpoch s c epoch)
    (d : Option EpochDir) : ∀ data ∈ s.dir.publishJson,
      (s.dir.setEpoch (epochName epoch) d).treeAt data.path = s.dir.treeAt data.path := by
  intro data hdata
  obtain ⟨n, c', tree, hcomplete, -⟩ := h.published data hdata
  rw [treeAt_setEpoch, if_neg]
  rw [hcomplete.path]
  intro heq
  have hepoch := epochName_inj heq
  rw [htakes.next] at hepoch
  unfold MirrorDir.nextEpoch at hepoch
  rw [hdata] at hepoch
  exact Nat.ne_of_lt (Nat.lt_succ_self _) hepoch

/-- Only `publish.json` and the calls matter. -/
theorem TakesEpoch.congr {epoch : Nat} (h : TakesEpoch s c epoch)
    (hp : t.dir.publishJson = s.dir.publishJson) (hcalls : t.calls = s.calls) :
    TakesEpoch t c epoch := by
  refine ⟨?_, ?_⟩
  · unfold MirrorDir.nextEpoch
    rw [hp]
    exact h.next
  · rw [hcalls]
    exact h.last

/-- **One entry is copied.** -/
theorem EpochInv.copyNext (h : EpochInv s) {epoch : Nat} {path : Path} {entry : Entry}
    {todo : List (Path × Entry)} {now : Int}
    (hphase : s.phase = .copy c epoch ((path, entry) :: todo)) (hs : publishNext s now = some t) :
    EpochInv t := by
  have hinv := h.phase
  unfold publishNext at hs
  rw [hphase] at hinv hs
  obtain ⟨htakes, done, hnodes, hdeep, htree⟩ := hinv
  have hnodes' : c.source.nodes = (done ++ [(path, entry)]) ++ todo := by
    rw [hnodes, List.append_assoc]
    rfl
  simp only at hs
  split at hs
  · rename_i hcopied
    cases hs
    refine h.next rfl rfl (List.prefix_refl _) (h.there_staging epoch _)
      ⟨htakes.congr rfl rfl, _, hnodes', ?_, ?_⟩
    · intro x hx hlen
      rcases List.mem_append.mp hx with hx | hx
      · exact hdeep x hx hlen
      · rw [List.mem_singleton] at hx
        rw [hx]
        exact hcopied
    · rw [treeAt_setEpoch, if_pos rfl, htree, List.filter_append]
      simp only [Option.getD_some, Option.bind_some, List.filter_cons, hcopied, if_true,
        List.filter_nil]
  · rename_i hskipped
    split at hs
    · cases hs
      exact h.next rfl rfl (List.prefix_refl _) (fun _ _ => rfl) trivial
    · rename_i hshallow
      cases hs
      refine h.next rfl rfl (List.prefix_refl _) (fun _ _ => rfl)
        ⟨htakes.congr rfl rfl, _, hnodes', ?_, ?_⟩
      · intro x hx hlen
        rcases List.mem_append.mp hx with hx | hx
        · exact hdeep x hx hlen
        · rw [List.mem_singleton] at hx
          rw [hx] at hlen
          exact absurd hlen hshallow
      · rw [List.filter_append, List.filter_cons, if_neg hskipped, List.filter_nil,
          List.append_nil]
        exact htree

/-- What has been copied when nothing is left is what `_copy_logical_tree` makes. -/
theorem copyLogicalTree_of_deep {source : Tree}
    (h : ∀ x ∈ source.nodes, 2 ≤ x.1.length → x.2.isCopied = true) :
    copyLogicalTree source = some ⟨source.nodes.filter fun x => x.2.isCopied⟩ := by
  unfold copyLogicalTree
  rw [if_neg]
  rw [List.any_eq_true]
  rintro ⟨x, hx, hdeep⟩
  rw [Bool.and_eq_true, decide_eq_true_eq, Bool.not_eq_true'] at hdeep
  rw [h x hx hdeep.1] at hdeep
  exact absurd hdeep.2 (by decide)

theorem tree_getD (dir : MirrorDir) : ((dir.epochs name).getD {}).tree = dir.treeAt name := by
  unfold MirrorDir.treeAt
  cases dir.epochs name <;> rfl

/-- **`publish.json` is replaced** by that of the call under way. -/
theorem EpochInv.publishReplace (h : EpochInv s)
    (hphase : s.phase = .publishJson c m .replace) : EpochInv { s with
      dir := { s.dir with publishTmp := none, publishJson := some ⟨m, epochName m.epoch⟩ }
      phase := .returns } := by
  have hinv := h.phase
  rw [hphase] at hinv
  obtain ⟨htakes, tree, hcopied, hthere, hmeta⟩ := hinv
  have hcomplete : Complete { s with
      dir := { s.dir with publishTmp := none, publishJson := some ⟨m, epochName m.epoch⟩ }
      phase := .returns } ⟨m, epochName m.epoch⟩ (s.calls.length - 1) c tree := by
    refine ⟨?_, hcopied, hthere, hmeta, rfl⟩
    rw [← List.getLast?_eq_getElem?]
    exact htakes.last
  refine ⟨fun data hdata => ?_, nofun, ⟨_, c, tree, rfl, hcomplete⟩⟩
  cases hdata
  refine ⟨_, c, tree, hcomplete, fun r hr => ?_⟩
  cases hold : s.dir.publishJson with
  | none =>
    have hr : s.returned = some r := hr
    rw [h.unpublished hold] at hr
    cases hr
  | some data =>
    obtain ⟨n, c', tree', hcomplete', hlast⟩ := h.published data hold
    have hn := (List.getElem?_eq_some_iff.mp hcomplete'.call).1
    have hrn := hlast r hr
    omega

/-- **Every file-system step of a publish keeps the invariant.** -/
theorem publishNext_keeps {now : Int} (h : EpochInv s) (hs : publishNext s now = some t) :
    EpochInv t := by
  have hinv := h.phase
  have hrefl := List.prefix_refl s.calls
  cases hphase : s.phase with
  | copy c epoch todo =>
    cases todo with
    | cons x todo => exact h.copyNext hphase hs
    | nil =>
      unfold publishNext at hs
      rw [hphase] at hs hinv
      cases hs
      obtain ⟨htakes, done, hnodes, hdeep, htree⟩ := hinv
      rw [List.append_nil] at hnodes
      rw [← hnodes] at hdeep htree
      exact h.next rfl rfl hrefl (fun _ _ => rfl)
        ⟨htakes.congr rfl rfl, _, copyLogicalTree_of_deep hdeep, htree⟩
  | publishJson c m j =>
    unfold publishNext at hs
    rw [hphase] at hs hinv
    obtain ⟨htakes, htree⟩ := hinv
    cases j with
    | openTmp | writeTmp =>
      cases hs
      exact h.next rfl rfl hrefl (fun _ _ => rfl) ⟨htakes.congr rfl rfl, htree⟩
    | replace =>
      cases hs
      exact h.publishReplace hphase
  | idle =>
    unfold publishNext at hs
    rw [hphase] at hs
    cases hs
  | readEpoch c =>
    unfold publishNext at hs
    rw [hphase] at hs
    cases hs
    exact h.next rfl rfl (List.prefix_append _ _) (fun _ _ => rfl)
      ⟨rfl, List.getLast?_concat ..⟩
  | clearStaging c epoch =>
    unfold publishNext at hs
    rw [hphase] at hs hinv
    simp only at hs
    split at hs <;> cases hs
    · exact h.next rfl rfl hrefl (fun _ _ => rfl) (TakesEpoch.congr hinv rfl rfl)
    · exact h.next rfl rfl hrefl (h.there_staging epoch _) (TakesEpoch.congr hinv rfl rfl)
  | clearFinal c epoch =>
    unfold publishNext at hs
    rw [hphase] at hs hinv
    simp only at hs
    split at hs <;> cases hs
    · exact h.next rfl rfl hrefl (fun _ _ => rfl) (TakesEpoch.congr hinv rfl rfl)
    · exact h.next rfl rfl hrefl (h.there_final hinv _) (TakesEpoch.congr hinv rfl rfl)
  | makeTree c epoch =>
    unfold publishNext at hs
    rw [hphase] at hs hinv
    cases hs
    refine h.next rfl rfl hrefl (h.there_staging epoch _)
      ⟨TakesEpoch.congr hinv rfl rfl, [], rfl, nofun, ?_⟩
    rw [treeAt_setEpoch, if_pos rfl]
    rfl
  | stamp c epoch =>
    unfold publishNext at hs
    rw [hphase] at hs hinv
    cases hs
    obtain ⟨htakes, tree, hcopied, htree⟩ := hinv
    refine h.next rfl rfl hrefl (fun _ _ => rfl) ⟨htakes.congr rfl rfl, tree, hcopied, htree, ?_⟩
    rw [htree]
    rfl
  | epochJson c m j =>
    unfold publishNext at hs
    rw [hphase] at hs hinv
    obtain ⟨htakes, tree, hcopied, htree, hmeta⟩ := hinv
    have hkept : ∀ d : EpochDir, d.tree = s.dir.treeAt (stagingName m.epoch) →
        (s.dir.setEpoch (stagingName m.epoch) (some d)).treeAt (stagingName m.epoch) =
          some tree := by
      intro d hd
      rw [treeAt_setEpoch, if_pos rfl, ← htree, ← hd]
      rfl
    cases j with
    | openTmp | writeTmp | replace =>
      cases hs
      exact h.next rfl rfl hrefl (h.there_staging _ _)
        ⟨htakes.congr rfl rfl, tree, hcopied, hkept _ (tree_getD s.dir), hmeta⟩
  | replaceStaging c m =>
    unfold publishNext at hs
    rw [hphase] at hs hinv
    cases hs
    obtain ⟨htakes, tree, hcopied, htree, hmeta⟩ := hinv
    have hne := stagingName_ne m.epoch
    refine h.next rfl rfl hrefl (fun data hdata => ?_)
      ⟨htakes.congr rfl rfl, tree, hcopied, ?_, hmeta⟩
    · obtain ⟨n, c', tree', hcomplete, -⟩ := h.published data hdata
      rw [treeAt_setEpoch, if_neg]
      · exact h.there_final htakes _ data hdata
      · rw [hcomplete.path]
        exact (hne _).symm
    · rw [treeAt_setEpoch, if_neg (hne _).symm, treeAt_setEpoch, if_pos rfl]
      exact htree
  | linkClear c m | linkCreate c m | linkReplace c m =>
    unfold publishNext at hs
    rw [hphase] at hs hinv
    cases hs
    exact h.next rfl rfl hrefl (fun _ _ => rfl) ⟨hinv.1.congr rfl rfl, hinv.2⟩
  | returns =>
    unfold publishNext at hs
    rw [hphase] at hs hinv
    cases hs
    obtain ⟨data, c, tree, hdata, hcomplete⟩ := hinv
    refine ⟨fun data' hdata' => ?_, fun hnone => ?_, trivial⟩
    · have hsame : s.dir.publishJson = some data' := hdata'
      rw [hdata] at hsame
      cases hsame
      refine ⟨_, c, tree, hcomplete.congr (List.prefix_refl _) rfl, fun r hr => ?_⟩
      cases hr
      exact Nat.le_refl _
    · have hnone : s.dir.publishJson = none := hnone
      rw [hdata] at hnone
      cases hnone

/-- **Every event keeps it**, crashes among them. -/
theorem publishStep_keeps {a : PublishAct} (h : EpochInv s) (hs : publishStep s a = some t) :
    EpochInv t := by
  have hrefl := List.prefix_refl s.calls
  cases a with
  | call c =>
    simp only [publishStep] at hs
    split at hs <;> cases hs
    exact h.next rfl rfl hrefl (fun _ _ => rfl) trivial
  | step now => exact publishNext_keeps h hs
  | crash =>
    cases hs
    exact h.next rfl rfl hrefl (fun _ _ => rfl) trivial

/-- The reader finds what `publish.json` names. -/
theorem EpochInv.latest (h : EpochInv s) : s.dir.latestDirtyMirror =
    s.dir.publishJson.map fun data => ⟨data.metadata, data.path⟩ := by
  unfold MirrorDir.latestDirtyMirror
  cases hdata : s.dir.publishJson with
  | none => rfl
  | some data =>
    obtain ⟨n, c, tree, hcomplete, -⟩ := h.published data hdata
    simp only [hcomplete.there, Option.isSome_some, if_true, Option.map_some]

end Steps

/-! ## 4. Runs -/

/-- **What a reader may find**: nothing, when no call has returned, or the whole copy of one call,
    with its epoch and counts, and that call is the last that returned or a later one. -/
structure CrashConsistent (s : MirrorRun) : Prop where
  found : ∀ m, s.dir.latestDirtyMirror = some m → ∃ n c tree,
    s.calls[n]? = some (c, m.metadata.epoch) ∧ copyLogicalTree c.source = some tree ∧
      s.dir.treeAt m.path = some tree ∧
      m.metadata = epochMetadata c m.metadata.epoch tree m.metadata.publishedTs ∧
      ∀ r ∈ s.returned, r ≤ n
  none : s.dir.latestDirtyMirror = none → s.returned = none

theorem EpochInv.consistent {s : MirrorRun} (h : EpochInv s) : CrashConsistent s := by
  constructor
  · intro m hm
    rw [h.latest] at hm
    obtain ⟨data, hdata, rfl⟩ := Option.map_eq_some_iff.mp hm
    obtain ⟨n, c, tree, hcomplete, hlast⟩ := h.published data hdata
    exact ⟨n, c, tree, hcomplete.call, hcomplete.copied, hcomplete.there, hcomplete.metadata, hlast⟩
  · intro hnone
    rw [h.latest, Option.map_eq_none_iff] at hnone
    exact h.unpublished hnone

/-- The epoch a reader finds; zero for none. -/
def MirrorRun.epochFound (s : MirrorRun) : Nat :=
  match s.dir.latestDirtyMirror with
  | some m => m.metadata.epoch
  | none => 0

/-- Only the last step of a publish changes `publish.json`. -/
theorem publishJson_of_next {s t : MirrorRun} {now : Int} (hs : publishNext s now = some t) :
    t.dir.publishJson = s.dir.publishJson ∨ ∃ c m, s.phase = .publishJson c m .replace ∧
      t.dir.publishJson = some ⟨m, epochName m.epoch⟩ := by
  unfold publishNext at hs
  cases hphase : s.phase with
  | idle =>
    rw [hphase] at hs
    cases hs
  | readEpoch c | makeTree c epoch | stamp c epoch | replaceStaging c m | linkClear c m
  | linkCreate c m | linkReplace c m | returns =>
    rw [hphase] at hs
    cases hs
    exact .inl rfl
  | clearStaging c epoch | clearFinal c epoch =>
    rw [hphase] at hs
    simp only at hs
    split at hs <;> cases hs <;> exact .inl rfl
  | copy c epoch todo =>
    rw [hphase] at hs
    cases todo with
    | nil =>
      cases hs
      exact .inl rfl
    | cons x todo =>
      simp only at hs
      split at hs
      · cases hs
        exact .inl rfl
      · split at hs <;> cases hs <;> exact .inl rfl
  | epochJson c m j =>
    rw [hphase] at hs
    cases j <;> cases hs <;> exact .inl rfl
  | publishJson c m j =>
    rw [hphase] at hs
    cases j with
    | openTmp | writeTmp =>
      cases hs
      exact .inl rfl
    | replace =>
      cases hs
      exact .inr ⟨c, m, rfl, rfl⟩

/-- No step lowers the epoch that is found. -/
theorem EpochInv.epoch_le {s t : MirrorRun} {a : PublishAct} (h : EpochInv s)
    (hs : publishStep s a = some t) : s.epochFound ≤ t.epochFound := by
  have ht := publishStep_keeps h hs
  have hsame : t.dir.publishJson = s.dir.publishJson → s.epochFound ≤ t.epochFound := by
    intro heq
    unfold MirrorRun.epochFound
    rw [h.latest, ht.latest, heq]
  cases a with
  | call c =>
    simp only [publishStep] at hs
    split at hs <;> cases hs
    exact hsame rfl
  | crash =>
    cases hs
    exact hsame rfl
  | step now =>
    rcases publishJson_of_next hs with heq | ⟨c, m, hphase, hnew⟩
    · exact hsame heq
    · have hinv := h.phase
      rw [hphase] at hinv
      -- the call has taken the epoch after the one that was found
      have hnext := hinv.1.next
      unfold MirrorDir.nextEpoch at hnext
      unfold MirrorRun.epochFound
      rw [h.latest, ht.latest, hnew]
      cases hdata : s.dir.publishJson with
      | none => exact Nat.zero_le _
      | some data =>
        simp only [hdata] at hnext
        simp only [Option.map_some]
        omega

/-- An empty mirror directory. -/
def emptyMirror : MirrorRun where
  dir := { epochs := fun _ => none, currentTmp := none, current := none, publishTmp := none,
           publishJson := none }
  phase := .idle
  calls := []
  returned := none

theorem emptyMirror_inv : EpochInv emptyMirror := ⟨nofun, fun _ => rfl, trivial⟩

/-- **Published epochs are crash consistent**: for every sequence of publish calls, each with any
    source and each cut off at any step or not, starting from an empty mirror directory, a reader
    between any two steps finds nothing or the whole copy of one call, the last that returned or a
    later one, and the epochs found never go down. -/
theorem publish_crashConsistent {s : MirrorRun} {tr : List (Lib.Trans MirrorRun PublishAct)}
    (hrun : Lib.Run (fun a e b => publishStep a e = some b) emptyMirror tr s) :
    CrashConsistent s ∧ (∀ x ∈ tr, CrashConsistent x.pre ∧ CrashConsistent x.post) ∧
      (tr.map fun x => x.post.epochFound).Pairwise (· ≤ ·) := by
  have hinv := hrun.invariant (I := EpochInv) (G := fun _ _ => True) emptyMirror_inv
    (fun a e b ha _ hs => publishStep_keeps ha hs) fun _ _ => trivial
  refine ⟨hinv.1.consistent, fun x hx => ?_, ?_⟩
  · exact ⟨(hinv.2 x hx).1.consistent, (hinv.2 x hx).2.consistent⟩
  · have hle : ∀ x ∈ tr, x.pre.epochFound ≤ x.post.epochFound :=
      fun x hx => (hinv.2 x hx).1.epoch_le (hrun.isStep x hx)
    exact (hrun.monotone hle).1

/-! ### A publish that is cut off and tried again -/

def mirrorTrace (es : List PublishAct) : List (Lib.Trans MirrorRun PublishAct) :=
  Lib.trace publishStep emptyMirror es

/-- A publish of one file. -/
def publishOf (content : Bytes) : PublishCall where
  source := ⟨[(["a"], .file content)]⟩
  childId := "env"
  nodeId := "node"
  baseGeneration := 0

/-- One publish returns, the next one dies when its epoch is there and `publish.json` is not, and
    the third clears that epoch and takes its number. -/
def retriedPublish : List PublishAct :=
  (.call (publishOf [1]) :: List.replicate 18 (.step 10)) ++
    (.call (publishOf [2]) :: List.replicate 11 (.step 20)) ++ [.crash] ++
    (.call (publishOf [3]) :: List.replicate 22 (.step 30))

theorem publish_crashConsistent_retried :
    ∃ s, Lib.Run (fun a e b => publishStep a e = some b) emptyMirror
        (mirrorTrace retriedPublish) s ∧
      s.calls.map (·.2) = [1, 2, 2] ∧ s.returned = some 2 ∧ s.epochFound = 2 ∧
      s.dir.treeAt "e000002" = some ⟨[(["a"], .file [3])]⟩ ∧ CrashConsistent s := by
  obtain ⟨s, hrun⟩ := Lib.Run.trace publishStep retriedPublish emptyMirror
  have hends : ∃ x ∈ (mirrorTrace retriedPublish).getLast?, x.post.calls.map (·.2) = [1, 2, 2] ∧
      x.post.returned = some 2 ∧ x.post.epochFound = 2 ∧
      x.post.dir.treeAt "e000002" = some ⟨[(["a"], .file [3])]⟩ := by
    decide +kernel
  obtain ⟨x, hx, hcalls, hreturned, hepoch, htree⟩ := hends
  rw [← hrun.eq_post hx] at hcalls hreturned hepoch htree
  exact ⟨s, hrun, hcalls, hreturned, hepoch, htree, (publish_crashConsistent hrun).1⟩

end CccStorage
