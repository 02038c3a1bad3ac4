/-
  File:      CccStorage/Manifest.lean
  Subject:   The manifest schema (`ccc_storage_core/manifest.py`) and the names under the state
             directory that are derived from it.

  * `PackInfo`, `PackStack`, `OverlayInfo`, `ColdStorageInfo`, `ChildBoundary`, `ChildManifest`
    -- the dataclasses, field by field. `ChildManifest.coldStorage` is the Python field `s3`;
  * `pad4`, `padTo` -- the formats `{n:04d}` and `{n:06d}` of pack, prefix and epoch names;
  * `pathName`, `pathJoin` -- `Path(p).name` and `Path(d) / name` on plain path texts.
-/
import Mathlib

namespace CccStorage

/-- The two canonical write policies (`VALID_WRITE_POLICIES`). -/
inductive WritePolicy where
  | sharedNfs
  | localSsdAsync
  deriving DecidableEq, Repr

def WritePolicy.toString : WritePolicy → String
  | .sharedNfs => "shared-nfs"
  | .localSsdAsync => "local-ssd-async"

structure PackInfo where
  path : String
  sha256 : String
  size : Nat
  fileCount : Option Nat := none
  block : String := "1M"
  comp : String := "zstd"
  level : Int := 0
  generationMin : Nat := 0
  generationMax : Nat := 0
  kind : String := "base"
  deriving DecidableEq, Repr

/-- The committed packs of a child; `lowers` is stored oldest (base) first, newest last. -/
structure PackStack where
  activeRevision : String := ""
  lowers : List PackInfo := []
  deriving DecidableEq, Repr

structure OverlayInfo where
  mode : String := "none"
  activeUpper : String := ""
  overlayGeneration : Nat := 0
  deriving DecidableEq, Repr

structure ColdStorageInfo where
  backend : String := "s3"
  mode : String := ""
  packState : String := "missing"
  snapshotState : String := "unavailable"
  packGeneration : Nat := 0
  mirrorGeneration : Nat := 0
  overlayGeneration : Nat := 0
  uri : String := ""
  archivedAt : String := ""
  lastMirroredAt : String := ""
  lastRecalledAt : String := ""
  lastAccessedAt : String := ""
  deriving DecidableEq, Repr

structure ChildBoundary where
  path : String
  childId : String
  mountPolicy : String := "lazy"
  exportPolicy : String := "explicit"
  deriving DecidableEq, Repr

structure ChildManifest where
  id : String
  name : String
  type : String
  generation : Nat
  state : String := "clean"
  schemaVersion : Nat := 1
  parentId : String := ""
  parentPath : String := ""
  createdTs : String := ""
  pinned : Bool := false
  commitMode : String := "auto"
  writePolicy : WritePolicy := .sharedNfs
  packStack : PackStack := {}
  overlay : OverlayInfo := {}
  coldStorage : ColdStorageInfo := {}
  childBoundaries : List ChildBoundary := []
  deriving DecidableEq, Repr

namespace ChildManifest

/-- The committed packs, oldest first. -/
abbrev lowers (m : ChildManifest) : List PackInfo := m.packStack.lowers

end ChildManifest

/-! ## Names derived from generations and paths -/

/-- `f"{n:04d}"`: at least four digits, padded with zeros on the left. -/
def pad4 (n : Nat) : String :=
  let digits := (Nat.toDigits 10 n)
  String.ofList (List.replicate (4 - digits.length) '0' ++ digits)

/-- `Path(p).name` of a path without a trailing slash: what follows the last `/`. -/
def pathName (p : String) : String :=
  String.ofList (p.toList.reverse.takeWhile (· ≠ '/')).reverse

/-- `Path(d) / name` for a relative `name`. -/
def pathJoin (d name : String) : String := d ++ "/" ++ name

theorem pathJoin_inj {d a b : String} (h : pathJoin d a = pathJoin d b) : a = b := by
  unfold pathJoin at h
  rw [← String.toList_inj, String.toList_append, String.toList_append, String.toList_append,
    String.toList_append, List.append_cancel_left_eq, String.toList_inj] at h
  exact h

/-- A file name: no separator in it. -/
def IsFileName (name : String) : Prop := '/' ∉ name.toList

instance (name : String) : Decidable (IsFileName name) :=
  inferInstanceAs (Decidable ('/' ∉ name.toList))

/-- A name joined to a directory is the joined path's name. -/
theorem pathName_join (d : String) {name : String} (h : IsFileName name) :
    pathName (pathJoin d name) = name := by
  unfold pathName pathJoin
  have hl : ∀ c ∈ name.toList.reverse, (decide (c ≠ '/')) = true := by
    intro c hc
    simp only [decide_eq_true_eq]
    rintro rfl
    exact h (List.mem_reverse.mp hc)
  have ht : (d ++ "/" ++ name).toList.reverse
      = name.toList.reverse ++ '/' :: d.toList.reverse := by
    simp [String.toList_append]
  rw [ht, List.takeWhile_append_of_pos hl]
  simp

/-- `f"{n:0wd}"`: at least `w` digits. -/
def padTo (w n : Nat) : String :=
  String.ofList (List.replicate (w - (Nat.toDigits 10 n).length) '0' ++ Nat.toDigits 10 n)

/-- **The padded format is injective**: its digits are read back as the number. -/
theorem padTo_inj {w a b : Nat} (h : padTo w a = padTo w b) : a = b := by
  unfold padTo at h
  simp only [String.ofList_inj] at h
  have hval := congrArg (fun ds => Nat.ofDigitChars 10 ds 0) h
  simp only [Nat.ofDigitChars_append, Nat.ofDigitChars_replicate_zero, Nat.mul_zero,
    Nat.ofDigitChars_ten_toDigits] at hval
  exact hval

theorem pad4_inj {a b : Nat} (h : pad4 a = pad4 b) : a = b := padTo_inj (w := 4) h

theorem isDigit_of_mem_pad4 {n : Nat} {c : Char} (h : c ∈ (pad4 n).toList) : c.isDigit := by
  unfold pad4 at h
  rw [String.toList_ofList, List.mem_append] at h
  rcases h with h | h
  · rw [List.eq_of_mem_replicate h]
    rfl
  · exact Nat.isDigit_of_mem_toDigits (by decide) (by decide) h

example : pad4 7 = "0007" := by decide

example : pathName "/nfs/packs/observe%3Aenv/delta-g0001.sqfs" = "delta-g0001.sqfs" := by decide

end CccStorage
