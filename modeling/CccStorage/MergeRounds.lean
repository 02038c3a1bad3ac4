/-
  File:      CccStorage/MergeRounds.lean
  Subject:   The rounds of the merge loops as changes of a layer, for pack trees.

  * `Source` -- the extracted layer: the pack's tree, beside the view;
  * `Layer.opaqued`, `opaqueRound_region` -- a round of the first loop, and when it raises;
  * `Layer.copied`, `Layer.entered`, `entryRound_region` -- a round of the second loop;
  * `Layer.entered_apply` -- what it does at each path.
-/
import CccStorage.Region

namespace CccStorage

/-! ## 1. The extracted layer -/

namespace PackTree

variable {t : PackTree} {p : Path}

/-- A pack tree is a plain layer. -/
theorem plain (t : PackTree) : PlainLayer t.get where
  root := rfl
  closed := t.dirClosed
  kinds _ _ h := kind h
  names p hne := by
    induction p using List.reverseRecOn with
    | nil => exact List.not_mem_nil
    | append_singleton d n ih =>
        obtain ⟨e, he⟩ := Option.ne_none_iff_exists'.mp hne
        have hd := ih (by rw [parent he]; exact Option.some_ne_none _)
        rw [List.mem_append, List.mem_singleton, not_or]
        refine ⟨hd, ?_⟩
        rintro rfl
        rcases name he with hplain | ⟨hmark, -⟩
        · exact hplain.2.2.1 rfl
        · exact absurd hmark (by decide)

end PackTree

/-- **The extracted layer**: below `layer` the files are those of `L`, outside the view `M`. -/
structure Source (layer M : Path) (base : Tree) (L : Layer) : Prop where
  apart : ¬ layer <+: M
  apart' : ¬ M <+: layer
  way : ∀ q, q <+: layer → base.get q = some .dir
  agree : ∀ p, base.get (layer ++ p) = L p
  plain : PlainLayer L
  noDots : ".." ∉ layer

section Rounds

variable {M layer d : Path} {n : String} {base : Tree} {w : World} {X L : Layer} {e : Entry}

/-- The rounds see the layer's files. -/
theorem Source.region (hs : Source layer M base L) (h : Region M base w X) :
    Region layer w.fs w L where
  way q hq := by
    rw [h.outside q fun hM => hs.apart' (hM.trans hq)]
    exact hs.way q hq
  agree p := by
    rw [h.outside (layer ++ p) fun hM => ?_]
    · exact hs.agree p
    · rcases List.prefix_or_prefix_of_prefix hM (List.prefix_append layer p) with hp | hp
      · exact hs.apart' hp
      · exact hs.apart hp
  outside _ _ := rfl
  plain := hs.plain
  noDots := hs.noDots

/-! ## 2. The first loop -/

/-- With the directory `d`, and nothing in it. -/
def Layer.opaqued (X : Layer) (d : Path) : Layer := fun p =>
  if d <+: p ∧ p ≠ d then none else if p <+: d then some .dir else X p

/-- **An opaque round** raises exactly when a regular file is at the directory or on the way. -/
theorem opaqueRound_region (h : Region M base w X) (opq : Path) (hd : ".." ∉ opq.dropLast) :
    (opaqueRound M opq w).Meets (X.FreeWay opq.dropLast)
      fun w => Region M base w (X.opaqued opq.dropLast) := by
  unfold opaqueRound
  generalize opq.dropLast = d at hd ⊢
  simp only
  rw [h.exists' hd]
  by_cases hX : X d = none
  · rw [hX, Option.isSome_none, if_neg Bool.false_ne_true]
    have hmade : X.made d = X.opaqued d := by
      funext p
      unfold Layer.made Layer.opaqued
      by_cases hp : d <+: p ∧ p ≠ d
      · rw [if_pos hp, if_neg fun hpd => hp.2 (hpd.eq_of_length_le hp.1.length_le)]
        exact h.plain.closed.none_below hp.1 (Ne.symm hp.2) (by rw [hX]; nofun)
      · rw [if_neg hp]
    have hrun := h.makeDirs hd
    rwa [hmade] at hrun
  · rw [Option.isSome_iff_ne_none.mpr hX, if_pos rfl]
    have hway : (X.emptied d).FreeWay d ↔ X.FreeWay d := by
      refine forall_congr' fun q => forall_congr' fun hq => forall_congr' fun b => ?_
      unfold Layer.emptied
      rw [if_neg fun hdq => hdq.2 (hq.eq_of_length_le hdq.1.length_le)]
    have hmade : (X.emptied d).made d = X.opaqued d := by
      funext p
      unfold Layer.made Layer.emptied Layer.opaqued
      by_cases hp : d <+: p ∧ p ≠ d
      · rw [if_pos hp, if_pos hp, if_neg fun hpd => hp.2 (hpd.eq_of_length_le hp.1.length_le)]
      · rw [if_neg hp, if_neg hp]
    have hrun := (h.clearDir hd hX).andThen fun _ v hv => hv.makeDirs hd
    rw [hmade, hway] at hrun
    refine hrun.congr ⟨fun hC => hC.2, fun hfree => ⟨?_, hfree⟩⟩ fun _ _ hv => hv
    obtain ⟨e, he⟩ := Option.ne_none_iff_exists'.mp hX
    rcases h.plain.kinds _ _ he with rfl | ⟨b, rfl⟩
    · exact he
    · exact absurd he (hfree d List.prefix_rfl b)

/-! ## 3. The second loop -/

/-- With `e` at `r`, and what was there gone. -/
def Layer.copied (X : Layer) (r : Path) (e : Entry) : Layer :=
  ((X.cut r).made r.dropLast).put r e

/-- A mark that names an entry beside it. -/
def isWhiteout (name : String) : Bool := isMark name && name ≠ opqName

/-- The path a whiteout mark names. -/
def whPath (r : Path) : Path := r.dropLast ++ [whTarget (r.getLastD "")]

/-- What a round of the second loop makes of the view. -/
def Layer.entered (L X : Layer) (r : Path) : Layer :=
  match L r with
  | none => X
  | some .dir => X.made r
  | some e => if isWhiteout (r.getLastD "") then (X.cut (whPath r)).copied r e else X.copied r e

theorem Layer.FreeWay.cut (h : X.FreeWay d) (r : Path) : (X.cut r).FreeWay d := by
  intro q hq b
  unfold Layer.cut
  split
  · nofun
  · exact h q hq b

theorem copyEntry_region (hs : Source layer M base L) (h : Region M base w X)
    {b : Bytes} (he : L (d ++ [n]) = some (.file b)) (hfree : X.FreeWay d) :
    (copyEntry (layer ++ (d ++ [n])) (M ++ (d ++ [n])) w).Meets True
      fun w => Region M base w (X.copied (d ++ [n]) (.file b)) := by
  have hnames := hs.plain.names _ (by rw [he]; exact Option.some_ne_none _)
  have hd : ".." ∉ d := fun hmem => hnames (List.mem_append_left _ hmem)
  have hn : n ≠ ".." := by
    rintro rfl
    exact hnames (by simp)
  have hcut : (if w.fs.exists' (M ++ (d ++ [n])) || w.fs.isSymlink (M ++ (d ++ [n]))
      then removePath (M ++ (d ++ [n])) w else w.ok).Meets True
      fun w => Region M base w (X.cut (d ++ [n])) := by
    rw [h.isSymlink hd hn, Bool.or_false, h.exists' hnames]
    by_cases hX : X (d ++ [n]) = none
    · rw [hX, Option.isSome_none, if_neg Bool.false_ne_true, h.plain.cut_of_none hX]
      exact .of_ok h
    · rw [Option.isSome_iff_ne_none.mpr hX, if_pos rfl]
      exact h.removePath hd hn
  have hparent : (M ++ (d ++ [n])).dropLast = M ++ d := by
    rw [← List.append_assoc, List.dropLast_concat]
  unfold copyEntry
  rw [hparent]
  refine (hcut.andThen fun _ v hv => (hv.makeDirs hd).andThen (K := fun w =>
    Region M base w (X.copied (d ++ [n]) (.file b))) (D := True) fun _ u hu => ?_).congr
    ⟨fun _ => trivial, fun _ => ⟨trivial, hfree.cut _, trivial⟩⟩ fun _ _ hw => hw
  have hsrc := hs.region hu
  have hlstat : ∀ target, u.fs.lstat (layer ++ (d ++ [n])) ≠ some (.symlink target) := by
    intro target ht
    have hlink := hsrc.isSymlink hd hn
    unfold Tree.isSymlink at hlink
    rw [ht] at hlink
    cases hlink
  split
  · rename_i target ht
    exact absurd ht (hlstat target)
  · rw [hsrc.stat hnames, he]
    simp only
    unfold Layer.copied
    rw [List.dropLast_concat]
    refine hu.createEntry ?_ hn ?_ b
    · unfold Layer.made
      rw [if_pos List.prefix_rfl]
    · unfold Layer.made Layer.cut
      rw [if_neg, if_pos List.prefix_rfl]
      intro hp
      have hle := hp.length_le
      rw [List.length_append, List.length_singleton] at hle
      omega

/-- **An entry round** refines `Layer.entered` when no regular file is on the way. -/
theorem entryRound_region {t : PackTree} (hs : Source layer M base t.get) (h : Region M base w X)
    (he : t.get (d ++ [n]) = some e) (hfree : X.FreeWay d) :
    (entryRound layer M (d ++ [n]) w).Meets True
      fun w => Region M base w (Layer.entered t.get X (d ++ [n])) := by
  have hnames := hs.plain.names _ (by rw [he]; exact Option.some_ne_none _)
  have hd : ".." ∉ d := fun hmem => hnames (List.mem_append_left _ hmem)
  have hn : n ≠ ".." := by
    rintro rfl
    exact hnames (by simp)
  have hparent : (M ++ (d ++ [n])).dropLast = M ++ d := by
    rw [← List.append_assoc, List.dropLast_concat]
  have hlast : (d ++ [n]).getLastD "" = n := by simp
  unfold entryRound Layer.entered
  simp only
  rw [(hs.region h).isDir hnames, he, hparent, hlast]
  rcases PackTree.kind he with rfl | ⟨b, rfl⟩
  · rw [decide_eq_true rfl, if_pos rfl, h.exists' hnames, h.isDir hnames]
    have hclear : (if (X (d ++ [n])).isSome && !decide (X (d ++ [n]) = some .dir)
        then removePath (M ++ (d ++ [n])) w else w.ok).Meets True
        fun w => ∃ Y, Region M base w Y ∧ Y.FreeWay (d ++ [n]) ∧
          Y.made (d ++ [n]) = X.made (d ++ [n]) := by
      cases hX : X (d ++ [n]) with
      | none =>
          rw [Option.isSome_none, Bool.false_and, if_neg Bool.false_ne_true]
          refine .of_ok ⟨X, h, fun q hq b hb => ?_, rfl⟩
          rcases List.prefix_concat_iff.mp hq with rfl | hq
          · rw [hX] at hb
            cases hb
          · exact hfree q hq b hb
      | some e =>
          rcases h.plain.kinds _ _ hX with rfl | ⟨b, rfl⟩
          · rw [decide_eq_true rfl, Bool.not_true, Bool.and_false, if_neg Bool.false_ne_true]
            exact .of_ok ⟨X, h, h.plain.freeWay_of_dir hX, rfl⟩
          · rw [decide_eq_false nofun, Option.isSome_some, Bool.not_false, Bool.and_self,
              if_pos rfl]
            refine (h.removePath hd hn).congr Iff.rfl fun _ v hv =>
              ⟨_, hv, fun q hq c hc => ?_, ?_⟩
            · rcases List.prefix_concat_iff.mp hq with rfl | hq
              · unfold Layer.cut at hc
                rw [if_pos List.prefix_rfl] at hc
                cases hc
              · exact hfree.cut _ q hq c hc
            · funext p
              unfold Layer.made Layer.cut
              by_cases hp : p <+: d ++ [n]
              · rw [if_pos hp, if_pos hp]
              · rw [if_neg hp, if_neg hp]
                split
                · rename_i hdp
                  refine (h.plain.closed.none_below hdp ?_ (by rw [hX]; nofun)).symm
                  rintro rfl
                  exact hp List.prefix_rfl
                · rfl
    refine (hclear.andThen (D := True) (K := fun w => Region M base w (X.made (d ++ [n])))
      fun _ v hv => ?_).congr ⟨fun _ => trivial, fun _ => ⟨trivial, trivial⟩⟩ fun _ _ hw => hw
    obtain ⟨Y, hY, hYfree, hmade⟩ := hv
    have hrun := hY.makeDirs hnames
    rw [hmade] at hrun
    exact hrun.congr ⟨fun _ => trivial, fun _ => hYfree⟩ fun _ _ hw => hw
  · rw [decide_eq_false nofun, if_neg Bool.false_ne_true]
    simp only
    by_cases hwh : isWhiteout n = true
    · have hwh' : (isMark n && decide (n ≠ opqName)) = true := hwh
      rw [if_pos hwh, if_pos hwh']
      rw [Bool.and_eq_true, decide_eq_true_eq] at hwh'
      have htarget : IsPlain (whTarget n) := by
        rcases PackTree.name he with hplain | ⟨-, -, hopq | htarget⟩
        · rw [hplain.2.2.2] at hwh'
          exact absurd hwh'.1 Bool.false_ne_true
        · exact absurd hopq hwh'.2
        · exact htarget
      have hjoin : joinName (M ++ d) (whTarget n) = M ++ (d ++ [whTarget n]) := by
        unfold joinName
        rw [if_neg, List.append_assoc]
        rintro (h | h)
        · exact htarget.1 h
        · exact htarget.2.1 h
      have hpath : whPath (d ++ [n]) = d ++ [whTarget n] := by
        unfold whPath
        rw [List.dropLast_concat, hlast]
      rw [hjoin, hpath]
      refine ((h.removePath hd htarget.2.2.1).andThen fun _ v hv => ?_).congr
        ⟨fun _ => trivial, fun _ => ⟨trivial, trivial⟩⟩ fun _ _ hw => hw
      exact copyEntry_region hs hv he (hfree.cut _)
    · have hwh' : ¬ (isMark n && decide (n ≠ opqName)) = true := hwh
      rw [if_neg hwh, if_neg hwh']
      exact copyEntry_region hs h he hfree

end Rounds

end CccStorage
