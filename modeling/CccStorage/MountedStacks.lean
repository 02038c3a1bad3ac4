/-
  File:      CccStorage/MountedStacks.lean
  Subject:   What a live mount of a child is made of (`mountd/childmount.py`), over sequences of
             mounts, observed accesses, releases, commits, compactions and recalls.

  `_reuse_existing` compares the mountpoint, the mode and the write policy of a live record with the
  request, and not the pack stack it was mounted from. A commit is refused while the node's own
  record is writable only, a compaction and a recall never.

  * `StackRecord`, `reuseExisting` -- a record with the stack it shows;
  * `stackStep` -- one operation of one node, and what a successful mount or access answers;
  * `ShowsManifest` -- the answer's record shows the stack of the manifest that was read;
  * `ChangesStack` -- the operations that leave another stack;
  * `mounts_showManifest` -- runs whose operations change the stack of no live record;
  * `mountedBefore_stale` -- a mount that outlives a commit.

  Any number of nodes share the manifest; the table of records is each node's own.
-/
import CccStorage.AutoCommit
import CccStorage.ManagedParent

namespace CccStorage

/-! ## 1. Records -/

/-- A live record, and the packs its view is composed of. -/
structure StackRecord extends MountRecord where
  lowers : List PackInfo
  deriving DecidableEq

/-- A view asked for. -/
structure MountCall where
  mountpoint : String
  mode : MountMode
  incrementRef : Bool
  deriving DecidableEq

/-- `_reuse_existing`: nothing, when there is no record. -/
def reuseExisting (existing : Option StackRecord) (m : ChildManifest) (q : MountCall) :
    Except MountError (Option StackRecord) :=
  match existing with
  | none => .ok none
  | some record =>
    if record.mountpoint ≠ q.mountpoint then
      .error (.otherMountpoint m.id record.mountpoint q.mountpoint)
    else if record.mode ≠ q.mode then .error (.otherMode m.id record.mode q.mode)
    else if record.writePolicy ≠ m.writePolicy then
      .error (.otherPolicy m.id record.writePolicy m.writePolicy)
    else .ok (some { record with
      refcount := if q.incrementRef then record.refcount + 1 else record.refcount })

/-- The record of a new mount. -/
def newRecord (m : ChildManifest) (mountpoint : String) (mode : MountMode) : StackRecord where
  mountpoint := mountpoint
  mode := mode
  writePolicy := m.writePolicy
  refcount := 1
  lowers := m.lowers

/-- `_mount_at_unlocked`. -/
def mountAt (existing : Option StackRecord) (m : ChildManifest) (mountpoint : String)
    (incrementRef : Bool) : Except MountError StackRecord :=
  match reuseExisting existing m ⟨mountpoint, .ro, incrementRef⟩ with
  | .error e => .error e
  | .ok (some record) => .ok record
  | .ok none => if m.lowers = [] then .error (.noLowers m.id) else .ok (newRecord m mountpoint .ro)

/-- `_mount_rw_at_unlocked`. Under `local-ssd-async` a child whose writer lock is held is mounted
    read-only, from the mirror over the packs. -/
def mountRwAt (existing : Option StackRecord) (m : ChildManifest) (mountpoint : String)
    (incrementRef writerHeld mirrored : Bool) : Except MountError StackRecord :=
  match reuseExisting existing m ⟨mountpoint, .rw, incrementRef⟩ with
  | .error e => .error e
  | .ok (some record) => .ok record
  | .ok none =>
    match m.writePolicy with
    | .sharedNfs => .ok (newRecord m mountpoint .rw)
    | .localSsdAsync =>
      if !writerHeld then .ok (newRecord m mountpoint .rw)
      else if mirrored then .ok (newRecord m mountpoint .ro)
      else mountAt existing m mountpoint false

/-! ## 2. Operations -/

/-- The manifest, and each node's record of the child. -/
structure StackState (ν : Type) where
  disk : ChildManifest
  records : ν → Option StackRecord

inductive StackOp (ν : Type) where
  /-- `handle_mount`. `works`: no tool, lock or object store fails. -/
  | mount (node : ν) (isFile : String → Bool) (stamp : String) (works : Bool)
  /-- An observed access, private to the dispatcher or at a mountpoint of the caller's. -/
  | access (node : ν) (mountpoint : String) (incrementRef : Bool) (isFile : String → Bool)
      (stamp : String) (writerHeld mirrored works : Bool)
  /-- `unmount`; a publisher that raises leaves the record. -/
  | unmount (node : ν) (publishes : Bool)
  | release (node : ν)
  /-- `idle_unmount_expired`, of an idle record. -/
  | expire (node : ν)
  | forceUnmount (node : ν)
  /-- A `handle_commit` that has data, unless it is refused. -/
  | commit (node : ν) (overlayMode : String) (delta merged : BuiltFile)
  | compact (node : ν) (allowBase : Bool) (merged : BuiltFile)
  /-- `handle_cold_recall`. -/
  | coldRecall (node : ν) (isFile : String → Bool) (stamp : String)

variable {ν : Type} [DecidableEq ν]

section Steps

variable (cfg : ν → NodeConfig) (mountsDir : ν → String)

/-- `_ensure_hot`. -/
def ensureHotManifest (hotDir : String) (m : ChildManifest) (isFile : String → Bool) (stamp : String) :
    ChildManifest :=
  if needsRecall m isFile then recalledManifest m hotDir stamp else markAccessed m stamp

def compactedManifest (node : NodeConfig) (m : ChildManifest) (allowBase : Bool)
    (merged : BuiltFile) : ChildManifest :=
  match runnableCandidate node.levelPolicy m allowBase with
  | none => m
  | some candidate =>
    (mergedManifest m candidate (compactedPack node m candidate merged)).getD m

def StackState.setRecord (s : StackState ν) (node : ν) (r : Option StackRecord) : StackState ν :=
  { s with records := Function.update s.records node r }

/-- A mount of the manifest read: the record it leaves, and the answer. -/
def StackState.answer (s : StackState ν) (node : ν) (works : Bool)
    (result : Except MountError StackRecord) :
    StackState ν × Option (ChildManifest × StackRecord) :=
  match result with
  | .error _ => (s, none)
  | .ok record => if works then (s.setRecord node (some record), some (s.disk, record)) else (s, none)

/-- **One operation**: the state it leaves, and for a successful mount or access the manifest it
    read with the record it made or reused. -/
def stackStep (s : StackState ν) : StackOp ν → StackState ν × Option (ChildManifest × StackRecord)
  | .mount node isFile stamp works =>
    let s := { s with disk := ensureHotManifest (cfg node).packDir s.disk isFile stamp }
    s.answer node works (mountAt (s.records node) s.disk (mountsDir node) true)
  | .access node mountpoint incrementRef isFile stamp writerHeld mirrored works =>
    let s := { s with disk := ensureHotManifest (cfg node).packDir s.disk isFile stamp }
    s.answer node works
      (mountRwAt (s.records node) s.disk mountpoint incrementRef writerHeld mirrored)
  | .unmount node publishes =>
    match s.records node with
    | none => (s, none)
    | some record =>
      if record.refcount ≤ 1 ∧ publishes then (s.setRecord node none, none)
      else (s.setRecord node (some { record with refcount := record.refcount - 1 }), none)
  | .release node =>
    (s.setRecord node ((s.records node).map fun record =>
      { record with refcount := record.refcount - 1 }), none)
  | .expire node =>
    if (s.records node).any (·.refcount = 0) then (s.setRecord node none, none) else (s, none)
  | .forceUnmount node => (s.setRecord node none, none)
  | .commit node overlayMode delta merged =>
    if (s.records node).any (·.mode = .rw) then (s, none)
    else ({ s with disk := publishedManifest ⟨cfg node, delta, merged⟩ s.disk overlayMode }, none)
  | .compact node allowBase merged =>
    ({ s with disk := compactedManifest (cfg node) s.disk allowBase merged }, none)
  | .coldRecall node isFile stamp =>
    ({ s with disk := ensureHotManifest (cfg node).packDir s.disk isFile stamp }, none)

abbrev StackRuns : StackState ν → List (Lib.Trans (StackState ν) (StackOp ν)) → StackState ν →
    Prop :=
  Lib.Run fun s op s' => (stackStep cfg mountsDir s op).1 = s'

/-- **The view is the manifest's**: what a successful mount or access answers. -/
def ShowsManifest (s : StackState ν) (op : StackOp ν) : Prop :=
  ∀ answer ∈ (stackStep cfg mountsDir s op).2, answer.2.lowers = answer.1.lowers

/-- A recall moves a pack. -/
def MovesPacks (hotDir : String) (m : ChildManifest) (isFile : String → Bool) : Prop :=
  needsRecall m isFile = true ∧ m.lowers.map (recalledPack hotDir) ≠ m.lowers

/-- **The operation changes the pack stack**: a commit that is not refused, a compaction that has a
    group to merge, a recall that moves a pack. -/
def ChangesStack (s : StackState ν) : StackOp ν → Prop
  | .mount node isFile _ _ | .coldRecall node isFile _ => MovesPacks (cfg node).packDir s.disk isFile
  | .access node _ _ isFile _ _ _ _ => MovesPacks (cfg node).packDir s.disk isFile
  | .commit node _ _ _ => ∀ record ∈ s.records node, record.mode ≠ .rw
  | .compact node allowBase _ =>
    runnableCandidate (cfg node).levelPolicy s.disk allowBase ≠ none
  | .unmount _ _ | .release _ | .expire _ | .forceUnmount _ => False

/-- **The condition**: the stack changes only while no node has a live record. -/
def ChangesUnmounted (s : StackState ν) (op : StackOp ν) : Prop :=
  ChangesStack cfg s op → ∀ node, s.records node = none

end Steps

/-! ## 3. Records and the manifest -/

/-- **Every live record shows the stack of the manifest.** -/
def RecordsShow (s : StackState ν) : Prop :=
  ∀ node, ∀ record ∈ s.records node, record.lowers = s.disk.lowers

section Inv

variable {cfg : ν → NodeConfig} {mountsDir : ν → String} {s s' : StackState ν} {op : StackOp ν}
variable {m : ChildManifest}

theorem reuseExisting_lowers {existing : Option StackRecord} {q : MountCall} {r : StackRecord}
    (h : reuseExisting existing m q = .ok (some r)) :
    ∃ record, existing = some record ∧ r.lowers = record.lowers := by
  unfold reuseExisting at h
  split at h
  · cases h
  · rename_i record
    split at h
    · cases h
    · split at h
      · cases h
      · split at h
        · cases h
        · obtain rfl := Option.some.inj (Except.ok.inj h)
          exact ⟨record, rfl, rfl⟩

theorem mountAt_lowers {existing : Option StackRecord} {mountpoint : String} {incrementRef : Bool}
    {r : StackRecord} (hshow : ∀ record ∈ existing, record.lowers = m.lowers)
    (h : mountAt existing m mountpoint incrementRef = .ok r) : r.lowers = m.lowers := by
  unfold mountAt at h
  split at h
  · cases h
  · rename_i record hreuse
    obtain rfl := Except.ok.inj h
    obtain ⟨record', hrecord, hlowers⟩ := reuseExisting_lowers hreuse
    exact hlowers.trans (hshow record' hrecord)
  · split at h
    · cases h
    · obtain rfl := Except.ok.inj h
      rfl

theorem mountRwAt_lowers {existing : Option StackRecord} {mountpoint : String}
    {incrementRef writerHeld mirrored : Bool} {r : StackRecord}
    (hshow : ∀ record ∈ existing, record.lowers = m.lowers)
    (h : mountRwAt existing m mountpoint incrementRef writerHeld mirrored = .ok r) :
    r.lowers = m.lowers := by
  unfold mountRwAt at h
  split at h
  · cases h
  · rename_i record hreuse
    obtain rfl := Except.ok.inj h
    obtain ⟨record', hrecord, hlowers⟩ := reuseExisting_lowers hreuse
    exact hlowers.trans (hshow record' hrecord)
  · split at h
    · obtain rfl := Except.ok.inj h
      rfl
    · split at h
      · obtain rfl := Except.ok.inj h
        rfl
      · split at h
        · obtain rfl := Except.ok.inj h
          rfl
        · exact mountAt_lowers hshow h

/-- A recall that moves no pack leaves the stack. -/
theorem ensureHotManifest_lowers {hotDir : String} {isFile : String → Bool} {stamp : String}
    (h : ¬ MovesPacks hotDir m isFile) : (ensureHotManifest hotDir m isFile stamp).lowers = m.lowers := by
  unfold ensureHotManifest
  split
  · rename_i hneeds
    exact not_not.mp fun hne => h ⟨hneeds, hne⟩
  · rfl

theorem RecordsShow.setRecord (h : RecordsShow s) {node : ν} {r : Option StackRecord}
    (hr : ∀ record ∈ r, record.lowers = s.disk.lowers) : RecordsShow (s.setRecord node r) := by
  intro node' record hrecord
  by_cases heq : node' = node
  · subst heq
    have hself : (s.setRecord node' r).records node' = r := Function.update_self ..
    rw [hself] at hrecord
    exact hr record hrecord
  · have hother : (s.setRecord node r).records node' = s.records node' :=
      Function.update_of_ne heq ..
    rw [hother] at hrecord
    exact h node' record hrecord

omit [DecidableEq ν] in
/-- **A new manifest**: its stack is the one the records show, or nothing is mounted. -/
theorem RecordsShow.write (h : RecordsShow s) {v : ChildManifest}
    (hv : v.lowers = s.disk.lowers ∨ ∀ node, s.records node = none) :
    RecordsShow { s with disk := v } := by
  intro node record hrecord
  rcases hv with hv | hnone
  · exact (h node record hrecord).trans hv.symm
  · rw [show s.records node = none from hnone node] at hrecord
    cases hrecord

theorem RecordsShow.answer (h : RecordsShow s) {node : ν} {works : Bool}
    {result : Except MountError StackRecord}
    (hresult : ∀ r, result = .ok r → r.lowers = s.disk.lowers) :
    RecordsShow (s.answer node works result).1 ∧
      ∀ answer ∈ (s.answer node works result).2, answer.2.lowers = answer.1.lowers := by
  unfold StackState.answer
  split
  · exact ⟨h, nofun⟩
  · rename_i record
    have hrecord := hresult record rfl
    split
    · refine ⟨h.setRecord fun r hr => ?_, fun answer hanswer => ?_⟩
      · obtain rfl := Option.some.inj hr
        exact hrecord
      · obtain rfl := Option.some.inj hanswer
        exact hrecord
    · exact ⟨h, nofun⟩

omit [DecidableEq ν] in
/-- The recall before a mount. -/
theorem RecordsShow.ensureHot (h : RecordsShow s) {hotDir : String} {isFile : String → Bool}
    (stamp : String) (hok : MovesPacks hotDir s.disk isFile → ∀ node, s.records node = none) :
    RecordsShow { s with disk := ensureHotManifest hotDir s.disk isFile stamp } := by
  refine h.write ?_
  by_cases hmoves : MovesPacks hotDir s.disk isFile
  · exact .inr (hok hmoves)
  · exact .inl (ensureHotManifest_lowers hmoves)

/-- **An operation that meets the condition** leaves records that show the manifest, and answers
    with one. -/
theorem stackStep_shows (h : RecordsShow s) (hok : ChangesUnmounted cfg s op) :
    RecordsShow (stackStep cfg mountsDir s op).1 ∧ ShowsManifest cfg mountsDir s op := by
  unfold ShowsManifest
  cases op with
  | mount node isFile stamp works =>
    have hhot := h.ensureHot stamp hok
    exact hhot.answer fun r hr => mountAt_lowers (hhot node) hr
  | access node mountpoint incrementRef isFile stamp writerHeld mirrored works =>
    have hhot := h.ensureHot stamp hok
    exact hhot.answer fun r hr => mountRwAt_lowers (hhot node) hr
  | unmount node publishes =>
    simp only [stackStep]
    split
    · exact ⟨h, nofun⟩
    · rename_i record hrecord
      split
      · exact ⟨h.setRecord nofun, nofun⟩
      · refine ⟨h.setRecord fun r hr => ?_, nofun⟩
        obtain rfl := Option.some.inj hr
        exact h node record hrecord
  | release node =>
    refine ⟨h.setRecord fun r hr => ?_, nofun⟩
    obtain ⟨record, hrecord, rfl⟩ := Option.map_eq_some_iff.mp hr
    exact h node record hrecord
  | expire node =>
    simp only [stackStep]
    split
    · exact ⟨h.setRecord nofun, nofun⟩
    · exact ⟨h, nofun⟩
  | forceUnmount node => exact ⟨h.setRecord nofun, nofun⟩
  | commit node overlayMode delta merged =>
    simp only [stackStep]
    split
    · exact ⟨h, nofun⟩
    · rename_i hopen
      refine ⟨h.write (.inr (hok fun record hrecord hrw => hopen ?_)), nofun⟩
      rw [show s.records node = some record from hrecord, Option.any_some, hrw]
      rfl
  | compact node allowBase merged =>
    refine ⟨h.write ?_, nofun⟩
    unfold compactedManifest
    split
    · exact .inl rfl
    · rename_i candidate hrun
      exact .inr (hok fun hnone => Option.some_ne_none candidate (hrun.symm.trans hnone))
  | coldRecall node isFile stamp => exact ⟨h.ensureHot stamp hok, nofun⟩

/-- **A mount shows the manifest it was asked to show**: in every run that starts without records,
    and in which the stack changes only while no node has one. -/
theorem mounts_showManifest {tr : List (Lib.Trans (StackState ν) (StackOp ν))}
    (hrun : StackRuns cfg mountsDir s tr s') (hstart : ∀ node, s.records node = none)
    (hok : ∀ x ∈ tr, ChangesUnmounted cfg x.pre x.ev) :
    ∀ x ∈ tr, ShowsManifest cfg mountsDir x.pre x.ev := by
  have hinit : RecordsShow s := by
    intro node record hrecord
    rw [hstart node] at hrecord
    cases hrecord
  have hinv := hrun.invariant (I := RecordsShow) (G := ChangesUnmounted cfg) hinit
    (fun _ _ _ h hok hstep => hstep ▸ (stackStep_shows h hok).1) hok
  exact fun x hx => (stackStep_shows (hinv.2 x hx).1 (hok x hx)).2

end Inv

/-! ### One node -/

/-- A child that is hot and not mounted. -/
def unmountedChild : StackState Unit where
  disk := hotChild.disk
  records := fun _ => none

/-- The run of the operations, in order. -/
def stackTrace (s : StackState Unit) : List (StackOp Unit) →
    List (Lib.Trans (StackState Unit) (StackOp Unit))
  | [] => []
  | op :: ops =>
    let next := (stackStep (fun _ => coldNode) (fun _ => "/run/mounts/env") s op).1
    ⟨s, op, next⟩ :: stackTrace next ops

theorem stackTrace_runs (ops : List (StackOp Unit)) (s : StackState Unit) :
    ∃ s', StackRuns (fun _ => coldNode) (fun _ => "/run/mounts/env") s (stackTrace s ops) s' := by
  induction ops generalizing s with
  | nil => exact ⟨s, .start⟩
  | cons op ops ih =>
    obtain ⟨s', h⟩ := ih (stackStep (fun _ => coldNode) (fun _ => "/run/mounts/env") s op).1
    exact ⟨s', h.cons rfl⟩

def mountOnce : StackOp Unit := .mount () (fun _ => true) "t1" true

def commitOnce : StackOp Unit :=
  .commit () "shared-overlay" (builtFile packDigest deltaFile) (builtFile packDigest deltaFile)

theorem unmountedBefore_showsManifest :
    (∃ s', StackRuns (fun _ => coldNode) (fun _ => "/run/mounts/env") unmountedChild
      (stackTrace unmountedChild [mountOnce, .unmount () true, commitOnce, mountOnce]) s') ∧
    ∀ x ∈ stackTrace unmountedChild [mountOnce, .unmount () true, commitOnce, mountOnce],
      ShowsManifest (fun _ => coldNode) (fun _ => "/run/mounts/env") x.pre x.ev := by
  obtain ⟨s', h⟩ := stackTrace_runs [mountOnce, .unmount () true, commitOnce, mountOnce]
    unmountedChild
  have hhot : ∀ m : ChildManifest, m.coldStorage.packState ≠ PACK_STATE_COLD →
      ¬ MovesPacks coldNode.packDir m fun _ => true := by
    rintro m hcold ⟨hneeds, -⟩
    unfold needsRecall hotPacksPresent at hneeds
    rw [if_neg hcold] at hneeds
    split at hneeds
    · cases hneeds
    · simp at hneeds
  refine ⟨⟨s', h⟩, mounts_showManifest h (fun _ => rfl) ?_⟩
  intro x hx
  simp only [stackTrace, List.mem_cons, List.not_mem_nil, or_false] at hx
  rcases hx with rfl | rfl | rfl | rfl
  · exact fun hmoves => absurd hmoves (hhot _ (by decide))
  · exact fun hchanges => absurd hchanges id
  · exact fun _ node => rfl
  · exact fun hmoves => absurd hmoves (hhot _ (by decide +kernel))

/-- **A mount that outlives a commit** is reused: the second mount reads the manifest of generation
    2, and its view is composed of the packs of generation 1. -/
theorem mountedBefore_stale :
    (∃ s', StackRuns (fun _ => coldNode) (fun _ => "/run/mounts/env") unmountedChild
      (stackTrace unmountedChild [mountOnce, commitOnce, mountOnce]) s') ∧
    (∀ node, unmountedChild.records node = none) ∧
    ¬ ∀ x ∈ stackTrace unmountedChild [mountOnce, commitOnce, mountOnce],
      ShowsManifest (fun _ => coldNode) (fun _ => "/run/mounts/env") x.pre x.ev := by
  refine ⟨stackTrace_runs _ _, fun _ => rfl, fun h => ?_⟩
  have hstale : ∃ x ∈ stackTrace unmountedChild [mountOnce, commitOnce, mountOnce],
      ∃ answer ∈ (stackStep (fun _ => coldNode) (fun _ => "/run/mounts/env") x.pre x.ev).2,
        answer.2.lowers ≠ answer.1.lowers := by
    refine ⟨(stackTrace unmountedChild [mountOnce, commitOnce, mountOnce])[2],
      List.getElem_mem _, _, rfl, ?_⟩
    decide +kernel
  obtain ⟨x, hx, answer, hanswer, hne⟩ := hstale
  exact hne (h x hx answer hanswer)

end CccStorage
