/-
  File:      CccStorage/Merge.lean
  Subject:   Merging extracted pack layers into one tree (`mountd/workers/compaction.py`,
             `_copy_entry`, `_merge_extracted_layer`, the loop of `build_partial_compaction`).

  * `copyEntry`, `opaqueRound`, `entryRound` -- the bodies of the two loops;
  * `mergeExtractedLayer` -- the two loops, opaque markers first;
  * `materialize` -- extract the selected packs oldest first and merge each.
-/
import CccStorage.Fs

namespace CccStorage

/-! ## 1. One layer -/

/-- `_copy_entry`. -/
def copyEntry (src dst : Path) (w : World) : Outcome :=
  Lib.Outcome.andThen (if w.fs.exists' dst || w.fs.isSymlink dst then removePath dst w else w.ok)
    fun w => (makeDirs dst.dropLast w).andThen fun w =>
      match w.fs.lstat src with
      | some (.symlink target) => createEntry dst (.symlink target) w
      | _ =>
        match w.fs.stat src with
        | some .dir => makeDirs dst w
        | some (.file content) => createEntry dst (.file content) w
        | _ => w.ok

/-- The order of `sorted(paths)`: by the list of components. -/
def pathLe (p q : Path) : Prop := ¬ q < p

instance : DecidableRel pathLe := fun p q => inferInstanceAs (Decidable (¬ q < p))

/-- `as_posix()`. -/
def asPosix : Path → String
  | [] => ""
  | [n] => n
  | n :: r => n ++ "/" ++ asPosix r

/-- The order of the key `(len(item.parts), item.as_posix())`. -/
def entryLe (p q : Path) : Prop :=
  p.length < q.length ∨ p.length = q.length ∧ ¬ asPosix q < asPosix p

instance : DecidableRel entryLe := fun p q =>
  inferInstanceAs (Decidable (p.length < q.length ∨ p.length = q.length ∧ ¬ asPosix q < asPosix p))

/-- `sorted(layer.rglob(".wh..wh..opq"))`, relative to the layer. -/
def opaqueMarkers (t : Tree) (layer : Path) : List Path :=
  ((t.below layer).filter fun r => r.getLast? = some opqName).insertionSort pathLe

/-- `sorted(layer.rglob("*"), key=...)`, relative to the layer. -/
def layerEntries (t : Tree) (layer : Path) : List Path :=
  (t.below layer).insertionSort entryLe

/-- One round of the first loop: an opaque marker empties its directory. -/
def opaqueRound (materialized : Path) (opq : Path) (w : World) : Outcome :=
  let dst := materialized ++ opq.dropLast
  Lib.Outcome.andThen (if w.fs.exists' dst then listDir dst removePath w else w.ok) (makeDirs dst)

/-- One round of the second loop. -/
def entryRound (layer materialized : Path) (rel : Path) (w : World) : Outcome :=
  let entry := layer ++ rel
  let dst := materialized ++ rel
  let name := rel.getLastD ""
  if w.fs.isDir entry then
    Lib.Outcome.andThen (if w.fs.exists' dst && !w.fs.isDir dst then removePath dst w else w.ok)
      (makeDirs dst)
  else if isMark name && name ≠ opqName then
    (removePath (joinName dst.dropLast (whTarget name)) w).andThen (copyEntry entry dst)
  else copyEntry entry dst w

/-- `_merge_extracted_layer`. -/
def mergeExtractedLayer (layer materialized : Path) (w : World) : Outcome :=
  (Lib.forEach (opaqueRound materialized) (opaqueMarkers w.fs layer) w).andThen fun w =>
    Lib.forEach (entryRound layer materialized) (layerEntries w.fs layer) w

/-! ## 2. The selected packs -/

/-- Extract a pack: the layer's directory then holds the pack's tree. -/
def extract (layer : Path) (t : Tree) (w : World) : World :=
  { w with fs := ⟨(layer, .dir) :: t.nodes.map (fun x => (layer ++ x.1, x.2))
      ++ (w.fs.removeTree layer).nodes⟩ }

theorem lookup_map_append {layer q : Path} (l : List (Path × Entry)) :
    (l.map fun x => (layer ++ x.1, x.2)).lookup q =
      if layer <+: q then l.lookup (q.drop layer.length) else none := by
  induction l with
  | nil => rw [List.map_nil, List.lookup_nil, List.lookup_nil, ite_self]
  | cons x l ih =>
      obtain ⟨p, e⟩ := x
      rw [List.map_cons, List.lookup_cons, ih]
      by_cases hq : layer <+: q
      · obtain ⟨r, rfl⟩ := hq
        rw [if_pos (List.prefix_append _ _), if_pos (List.prefix_append _ _), List.drop_left,
          List.lookup_cons]
        by_cases hr : r = p
        · rw [hr, beq_self_eq_true, beq_self_eq_true]
        · rw [beq_eq_false_iff_ne.mpr hr, beq_eq_false_iff_ne.mpr fun h =>
            hr (List.append_cancel_left h)]
      · rw [if_neg hq, if_neg hq, beq_eq_false_iff_ne.mpr]
        rintro rfl
        exact hq (List.prefix_append _ _)

/-- **An extracted layer** holds the pack's tree, and the rest of the files stay. -/
theorem get_extract {layer q : Path} {t : Tree} {w : World} (hl : layer ≠ []) :
    (extract layer t w).fs.get q =
      if layer <+: q then t.get (q.drop layer.length) else w.fs.get q := by
  by_cases hq : q = []
  · rw [hq, if_neg fun h => hl (List.prefix_nil.mp h)]
    rfl
  · rw [Tree.get_of_ne hq]
    have hrest : (w.fs.removeTree layer).nodes.lookup q = if layer <+: q then none else w.fs.get q := by
      rw [← Tree.get_of_ne hq, Tree.get_removeTree hl]
    show List.lookup q ((layer, .dir) :: t.nodes.map _ ++ (w.fs.removeTree layer).nodes) = _
    rw [List.cons_append, List.lookup_cons, List.lookup_append, lookup_map_append, hrest]
    by_cases hlq : layer <+: q
    · obtain ⟨r, rfl⟩ := hlq
      rw [if_pos (List.prefix_append _ _), if_pos (List.prefix_append _ _),
        if_pos (List.prefix_append _ _), List.drop_left, Option.or_none]
      by_cases hr : r = []
      · rw [hr, List.append_nil, beq_self_eq_true]
        rfl
      · rw [beq_eq_false_iff_ne.mpr (by simpa using hr), Tree.get_of_ne hr]
    · rw [if_neg hlq, if_neg hlq, if_neg hlq, Option.none_or, beq_eq_false_iff_ne.mpr]
      rintro rfl
      exact hlq List.prefix_rfl

def viewDir (tmp : Path) : Path := tmp ++ ["view"]

def layerDir (tmp : Path) (idx : Nat) : Path := tmp ++ ["layer-" ++ pad4 idx]

theorem layerName_ne (idx : Nat) (n : String) (hn : n.toList.head? ≠ some 'l') :
    "layer-" ++ pad4 idx ≠ n := by
  rintro rfl
  rw [String.toList_append] at hn
  exact hn rfl

theorem layerDir_apart (tmp : Path) (idx : Nat) :
    ¬ layerDir tmp idx <+: viewDir tmp ∧ ¬ viewDir tmp <+: layerDir tmp idx := by
  have hname := layerName_ne idx "view" (by decide)
  unfold layerDir viewDir
  rw [List.prefix_append_right_inj, List.prefix_append_right_inj, List.cons_prefix_cons,
    List.cons_prefix_cons]
  exact ⟨fun h => hname h.1, fun h => hname h.1.symm⟩

/-- A layer's directory has no `..` on it when the temporary directory has none. -/
theorem noDots_layerDir {tmp : Path} (h : ".." ∉ tmp) (idx : Nat) : ".." ∉ layerDir tmp idx := by
  unfold layerDir
  rw [List.mem_append, not_or, List.mem_singleton]
  exact ⟨h, fun heq => layerName_ne idx ".." (by decide) heq.symm⟩

/-- The loop of `build_partial_compaction` over the selected packs, oldest first. -/
def materialize (tmp : Path) : Nat → List Tree → World → Outcome
  | _, [], w => w.ok
  | idx, t :: ts, w =>
    (mergeExtractedLayer (layerDir tmp idx) (viewDir tmp)
      (extract (layerDir tmp idx) t w)).andThen (materialize tmp (idx + 1) ts)

/-- The files when the merge starts: the temporary directory and the empty view in it. -/
structure Scratch (tmp : Path) extends World where
  fresh : touched = []
  way : ∀ q ∈ (viewDir tmp).inits, fs.get q = some .dir
  empty : fs.below (viewDir tmp) = []
  names : ∀ x ∈ fs.nodes, ".." ∉ x.1

/-- A path with an entry is a key, or the root. -/
theorem Tree.noDots_of_get {t : Tree} (h : ∀ x ∈ t.nodes, ".." ∉ x.1) {q : Path}
    (hq : t.get q ≠ none) : ".." ∉ q := by
  by_cases hq0 : q = []
  · rw [hq0]
    exact List.not_mem_nil
  · rw [Tree.get_of_ne hq0, Tree.lookup_ne_none] at hq
    obtain ⟨x, hx, rfl⟩ := List.mem_map.mp hq
    exact h x hx

end CccStorage
