/-
  File:      CccStorage/RenamedFields.lean
  Subject:   What a rename of a managed child keeps of its manifest (`mountd/managed_parent.py`,
             `rename_child`), for the policies that read it.

  The renamed manifest is built field by field; `pinned`, `commit_mode` and `write_policy` are not
  among the fields.

  * `planGc`, `commitRoute`, `mountRoute` -- the consumers that no other module has;
  * `SameButName` -- two manifests that differ in the name and the parent only, and
    `SameButName.decides`: every consumer answers the same for both;
  * `Renaming.Keeps` -- a rename changes only the name;
  * `rename_keeps_iff` -- exactly when the three fields have their defaults;
  * `pinnedChild_breaks` -- a pinned child.
-/
import CccStorage.ArchivalPass
import CccStorage.AutoCommit
import CccStorage.ManagedParent

namespace CccStorage

/-! ## 1. What reads a manifest -/

structure GCPlan where
  evictable : List PackInfo
  blocked : List PackInfo
  reasons : List String
  deriving DecidableEq

/-- `plan_gc`. -/
def planGc (manifest : ChildManifest) (retired : List PackInfo)
    (activeMount dirty pendingLock adminOverride : Bool) : GCPlan :=
  let reasons := (if manifest.pinned then ["pinned"] else []) ++
    if adminOverride then []
    else (if dirty then ["dirty-overlay"] else []) ++
      (if activeMount then ["active-mount"] else []) ++
      if pendingLock then ["pending-commit"] else []
  if reasons ≠ [] then { evictable := [], blocked := retired, reasons := reasons }
  else { evictable := retired, blocked := [], reasons := [] }

/-- Which of `_commit_local_async` and `_commit_shared_nfs` a `handle_commit` takes. -/
inductive CommitRoute where
  | localAsync
  | sharedNfs
  deriving DecidableEq

def commitRoute (manifest : ChildManifest) : CommitRoute :=
  if manifest.writePolicy = .localSsdAsync then .localAsync else .sharedNfs

/-- Which of `_mount_rw_shared_nfs` and `_mount_rw_local_ssd_async` a `mount_rw` takes. -/
inductive MountRoute where
  | sharedNfs
  | localSsdAsync
  deriving DecidableEq

def mountRoute (manifest : ChildManifest) : MountRoute :=
  match manifest.writePolicy with
  | .sharedNfs => .sharedNfs
  | .localSsdAsync => .localSsdAsync

/-- A manifest with the name and the parent of another. -/
def ChildManifest.named (m other : ChildManifest) : ChildManifest :=
  { m with name := other.name, parentId := other.parentId, parentPath := other.parentPath }

/-- The manifests differ at most in `name`, `parent_id` and `parent_path`. -/
def SameButName (m m' : ChildManifest) : Prop := m' = m.named m'

/-- **Every consumer answers the same** for both manifests. -/
structure DecidesAlike (m m' : ChildManifest) : Prop where
  archive : ∀ (epoch : String → Option ℚ) isFile dirty mounted idle now,
    archiveDecision epoch isFile m' dirty mounted idle now =
      archiveDecision epoch isFile m dirty mounted idle now
  autoCommit : ∀ (policy : CommitPolicy) (c : AutoCommitChild) now,
    evaluateChild policy { c with manifest := m' } now =
      evaluateChild policy { c with manifest := m } now
  commit : commitRoute m' = commitRoute m
  mount : mountRoute m' = mountRoute m
  gc : ∀ retired activeMount dirty pendingLock adminOverride,
    planGc m' retired activeMount dirty pendingLock adminOverride =
      planGc m retired activeMount dirty pendingLock adminOverride

/-- **No consumer reads the name or the parent.** -/
theorem SameButName.decides {m m' : ChildManifest} (h : SameButName m m') : DecidesAlike m m' := by
  unfold SameButName at h
  rw [h]
  exact {
    archive := fun _ _ _ _ _ _ => rfl
    autoCommit := fun _ _ _ => rfl
    commit := rfl
    mount := rfl
    gc := fun _ _ _ _ _ => rfl }

/-! ## 2. Renames -/

/-- A rename that is accepted: of a stored child, to a valid name that is free. -/
structure Renaming (cfg : ParentConfig) where
  state : ParentState
  oldName : String
  newName : String
  manifest : ChildManifest
  stored : state.load (safeName oldName) = some manifest
  valid : validateName newName = none
  free : state.load (safeName newName) = none

section Rename

variable {cfg : ParentConfig} (r : Renaming cfg)

/-- The registry after `rename_child`. -/
def Renaming.after : ParentState := (renameChild cfg r.state r.oldName r.newName).1

/-- **The rename changes only the name**: the child is stored under the new name, with a manifest
    that differs in the name and the parent only, and every consumer answers the same for it. -/
structure Renaming.Keeps : Prop where
  manifest : ∃ m', r.after.load (safeName r.newName) = some m' ∧ m'.name = r.newName ∧
    SameButName r.manifest m' ∧ DecidesAlike r.manifest m'

/-- What the renamed manifest does not carry over has its default. -/
structure DroppedDefault (m : ChildManifest) : Prop where
  pinned : m.pinned = false
  commitMode : m.commitMode = "auto"
  writePolicy : m.writePolicy = .sharedNfs

theorem load_dump_unlink {s : ParentState} {old new : String} (m : ChildManifest)
    (hne : new ≠ old) : ((s.dump new m).unlink old).load new = some m := by
  unfold ParentState.unlink ParentState.dump ParentState.load
  have hkeep : decide (new ≠ old) = true := decide_eq_true hne
  rw [List.filter_cons, if_pos hkeep, List.lookup_cons_self]

/-- The file of the new name has the renamed manifest. -/
theorem Renaming.after_load :
    r.after.load (safeName r.newName) = some (renamedManifest cfg r.manifest r.newName) := by
  have hne : safeName r.newName ≠ safeName r.oldName := by
    intro heq
    have hfree := r.free
    rw [heq, r.stored] at hfree
    cases hfree
  have hafter : r.after = ((r.state.dump (safeName r.newName)
      (renamedManifest cfg r.manifest r.newName)).unlink (safeName r.oldName)).ensureActiveUpper
        r.manifest.id := by
    unfold Renaming.after renameChild
    rw [r.valid]
    simp only [r.stored, r.free, Option.isSome_none, Bool.false_eq_true, if_false]
    rfl
  rw [hafter]
  exact load_dump_unlink _ hne

/-- The renamed manifest is the old one but for its name, with defaults in three fields. -/
theorem renamedManifest_same_iff (cfg : ParentConfig) (m : ChildManifest) (newName : String) :
    SameButName m (renamedManifest cfg m newName) ↔ DroppedDefault m := by
  constructor
  · intro h
    have hpinned := congrArg ChildManifest.pinned h
    have hmode := congrArg ChildManifest.commitMode h
    have hpolicy := congrArg ChildManifest.writePolicy h
    exact ⟨hpinned.symm, hmode.symm, hpolicy.symm⟩
  · intro ⟨hpinned, hmode, hpolicy⟩
    unfold SameButName ChildManifest.named renamedManifest
    rw [hpinned, hmode, hpolicy]

/-- **A rename changes only the name exactly when the child is not pinned, commits automatically and
    is shared-nfs.** -/
theorem rename_keeps_iff : r.Keeps ↔ DroppedDefault r.manifest := by
  constructor
  · intro ⟨m', hload, _, hsame, _⟩
    rw [r.after_load] at hload
    obtain rfl := Option.some.inj hload
    exact (renamedManifest_same_iff _ _ _).mp hsame
  · intro h
    have hsame := (renamedManifest_same_iff cfg r.manifest r.newName).mpr h
    exact ⟨_, r.after_load, rfl, hsame, hsame.decides⟩

/-- **What each consumer makes of a renamed child**: a pinned child may be archived and collected,
    a manual one commits, and a local-ssd-async one is committed and mounted as shared-nfs. -/
theorem renamed_decides_iff (m : ChildManifest) (newName : String) :
    ((∀ retired activeMount dirty pendingLock adminOverride,
        planGc (renamedManifest cfg m newName) retired activeMount dirty pendingLock adminOverride =
          planGc m retired activeMount dirty pendingLock adminOverride) ↔ m.pinned = false) ∧
      (commitRoute (renamedManifest cfg m newName) = commitRoute m ↔ m.writePolicy = .sharedNfs) ∧
      (mountRoute (renamedManifest cfg m newName) = mountRoute m ↔
        m.writePolicy = .sharedNfs) := by
  refine ⟨⟨fun h => ?_, fun h => ?_⟩, ?_, ?_⟩
  · by_contra hpinned
    have hreasons := congrArg GCPlan.reasons (h [] false false false false)
    have hp : m.pinned = true := Bool.eq_true_of_not_eq_false hpinned
    unfold planGc at hreasons
    rw [hp] at hreasons
    cases hreasons
  · intro retired activeMount dirty pendingLock adminOverride
    unfold planGc
    rw [h]
    rfl
  · have hroute : commitRoute (renamedManifest cfg m newName) = .sharedNfs := rfl
    rw [hroute]
    unfold commitRoute
    cases m.writePolicy <;> decide
  · have hroute : mountRoute (renamedManifest cfg m newName) = .sharedNfs := rfl
    rw [hroute]
    unfold mountRoute
    cases m.writePolicy <;> decide

end Rename

/-! ### A pinned child -/

def pinnedA : ChildManifest := { newManifest datasetParent "a" with pinned := true }

def onlyPinnedA : ParentState := { emptyDataset.toParentState with files := [("a", pinnedA)] }

theorem onlyPinnedA_stored : onlyPinnedA.load (safeName "a") = some pinnedA := by decide +kernel

theorem b_valid : validateName "b" = none := by decide +kernel

theorem onlyPinnedA_free : onlyPinnedA.load (safeName "b") = none := by decide +kernel

def renamePinned : Renaming datasetParent where
  state := onlyPinnedA
  oldName := "a"
  newName := "b"
  manifest := pinnedA
  stored := onlyPinnedA_stored
  valid := b_valid
  free := onlyPinnedA_free

/-- **A pinned child is not pinned any more** under its new name. -/
theorem pinnedChild_breaks : ¬ ∀ (cfg : ParentConfig) (r : Renaming cfg), r.Keeps := by
  intro h
  obtain ⟨m', hload, -, hsame, -⟩ := (h datasetParent renamePinned).manifest
  rw [renamePinned.after_load] at hload
  obtain rfl := Option.some.inj hload
  cases congrArg ChildManifest.pinned hsame

end CccStorage
