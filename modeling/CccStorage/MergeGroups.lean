/-
  File:      CccStorage/MergeGroups.lean
  Subject:   Does a compaction depend on how the packs are grouped (`build_partial_compaction`,
             `mountd/workers/compaction.py`)? One merge of all packs, against a merge of the older
             ones into a layer that is then merged with the newer ones.

  The merged layer keeps both a tombstone and the entry that was created again. Merged once more,
  it loses the entry where the tombstone sorts after it.

  * `mergeLayers` -- the tree that merging a list of layers leaves, if it raises nothing;
  * `StandsAt`, `Doomed` -- what the layers leave at a path, and which of it a second merge removes;
  * `Recovered` -- a newer layer takes the place of what is removed;
  * `standing_regrouped` -- what stands then, and which markers fit;
  * `mergeGroups_iff` -- exactly when the grouping makes no difference.
-/
import CccStorage.MergeView

namespace CccStorage

/-! ## 1. Merging layers into one -/

/-- The tree in a directory, as a pack of it holds it. -/
def layerTree (w : World) (d : Path) : Tree :=
  ⟨(w.fs.below d).dedup.filterMap fun r => (w.fs.get (d ++ r)).map fun e => (r, e)⟩

/-- The layers merged into one, unless that raises. -/
def mergeLayers {tmp : Path} (start : Scratch tmp) (layers : List Tree) : Option Tree :=
  match materialize tmp 0 layers start.toWorld with
  | (w, .ok ()) => some (layerTree w (viewDir tmp))
  | (_, .error _) => none

/-- The older layers merged into one first, and that one then with the newer ones. -/
def mergeGrouped {tmp tmp' : Path} (start : Scratch tmp) (start' : Scratch tmp')
    (older newer : List Tree) : Option Tree :=
  (mergeLayers start older).bind fun layer => mergeLayers start' (layer :: newer)

section Paired

variable {β : Type*} (f : Path → Option β) (l : List Path)

theorem lookup_paired (r : Path) : (l.filterMap fun r => (f r).map fun e => (r, e)).lookup r =
    if r ∈ l then f r else none := by
  induction l with
  | nil => rfl
  | cons q l ih =>
      rw [List.filterMap_cons]
      cases hq : f q with
      | none =>
        rw [Option.map_none]
        dsimp only
        rw [ih]
        by_cases hr : r = q
        · rw [hr, hq, ite_self, ite_self]
        · simp only [List.mem_cons, hr, false_or]
      | some e =>
        rw [Option.map_some]
        dsimp only
        rw [List.lookup_cons]
        by_cases hr : r = q
        · rw [hr, beq_self_eq_true, if_pos List.mem_cons_self, hq]
        · rw [beq_eq_false_iff_ne.mpr hr]
          simp only [ih, List.mem_cons, hr, false_or]

theorem keys_paired :
    ((l.filterMap fun r => (f r).map fun e => (r, e)).map (·.1)).Sublist l := by
  induction l with
  | nil => exact List.Sublist.refl _
  | cons q l ih =>
      rw [List.filterMap_cons]
      cases f q with
      | none => exact ih.cons q
      | some e => exact ih.cons_cons q

end Paired

theorem lookup_layerTree (w : World) (d : Path) {r : Path} :
    (layerTree w d).nodes.lookup r = if r = [] then none else w.fs.get (d ++ r) := by
  unfold layerTree
  rw [lookup_paired fun r => w.fs.get (d ++ r)]
  simp only [List.mem_dedup, Tree.mem_below]
  by_cases hr : r = []
  · rw [if_neg fun h => h.1 hr, if_pos hr]
  · rw [if_neg hr]
    by_cases hget : w.fs.get (d ++ r) = none
    · rw [hget, ite_self]
    · rw [if_pos ⟨hr, hget⟩]

theorem get_layerTree {w : World} {d : Path} (hd : w.fs.get d = some .dir) (r : Path) :
    (layerTree w d).get r = treeAt w d r := by
  unfold Tree.get treeAt
  by_cases hr : r = []
  · rw [if_pos hr, hr, List.append_nil, hd]
  · rw [if_neg hr, lookup_layerTree, if_neg hr]

/-- What stands at a path comes from the layer below or from a pack. -/
theorem standing_from {S : Layer} {sel : List PackTree} {p : Path} {e : Entry}
    (h : standing S sel p = some e) : S p = some e ∨ ∃ t ∈ sel, t.get p = some e := by
  induction sel generalizing S with
  | nil => exact .inl h
  | cons t sel ih =>
      have hnext : standing (overlayRules.merge S (kept t.toTree)) sel p = some e := h
      rcases ih hnext with hS | ⟨u, hu, hget⟩
      · cases hkept : kept t.toTree p with
        | some e' =>
          rw [Lib.Rules.merge_of_some hkept] at hS
          right
          refine ⟨t, List.mem_cons_self, ?_⟩
          rw [← hS, ← hkept]
          unfold kept at hkept ⊢
          split at hkept
          · cases hkept
          · rename_i hlost
            rw [if_neg hlost]
        | none =>
          rw [Lib.Rules.merge_of_none hkept] at hS
          split at hS
          · cases hS
          · exact .inl hS
      · exact .inr ⟨u, List.mem_cons_of_mem t hu, hget⟩

/-- **The merged layers are one pack tree.** -/
theorem packTree_of_region {tmp : Path} {base : Tree} {w : World} {sel : List PackTree}
    (h : Region (viewDir tmp) base w (standing emptyView sel)) :
    ∃ T : PackTree, T.toTree = layerTree w (viewDir tmp) ∧ T.get = standing emptyView sel := by
  have hget : ∀ r, (layerTree w (viewDir tmp)).get r = standing emptyView sel r := fun r => by
    rw [get_layerTree (h.way _ List.prefix_rfl)]
    exact h.agree r
  have hnodes : ((layerTree w (viewDir tmp)).nodes.map (·.1)).Nodup :=
    (List.nodup_dedup _).sublist (keys_paired _ _)
  have hok : ∀ x ∈ (layerTree w (viewDir tmp)).nodes,
      NodeOk (layerTree w (viewDir tmp)) x.1 x.2 := by
    rintro ⟨p, e⟩ hx
    obtain ⟨r, hr, hsome⟩ := List.mem_filterMap.mp hx
    obtain ⟨e', he', hpair⟩ := Option.map_eq_some_iff.mp hsome
    cases hpair
    have hp : p ≠ [] := (Tree.mem_below.mp (List.mem_dedup.mp hr)).1
    have hstands : standing emptyView sel p = some e := by
      rw [← h.agree, he']
    obtain ⟨t, -, hfrom⟩ := (standing_from hstands).resolve_left (by
      rw [show emptyView p = none from if_neg hp]
      nofun)
    obtain ⟨d, n, rfl⟩ := List.eq_nil_or_concat p |>.resolve_left hp
    rw [List.concat_eq_append] at *
    refine ⟨hp, ?_, h.plain.kinds _ e hstands, fun m hm => ?_⟩
    · rw [hget, List.dropLast_concat]
      refine h.plain.closed d n ?_
      rw [hstands]
      exact Option.some_ne_none _
    · rw [List.getLast?_concat] at hm
      obtain rfl := Option.some.inj hm
      exact PackTree.name hfrom
  exact ⟨⟨_, hnodes, hok⟩, rfl, funext hget⟩

/-- **Merging layers** raises exactly when some markers do not fit, and leaves one pack tree. -/
theorem mergeLayers_spec {tmp : Path} (start : Scratch tmp) (sel : List PackTree) :
    (EachLayer (fun S t _ => OpaqueFits S t) emptyView sel →
      ∃ T : PackTree, mergeLayers start (sel.map fun t => t.toTree) = some T.toTree ∧
        T.get = standing emptyView sel) ∧
    (¬ EachLayer (fun S t _ => OpaqueFits S t) emptyView sel →
      mergeLayers start (sel.map fun t => t.toTree) = none) := by
  have hrun := materialize_region start.region 0 sel
  rcases hm : materialize tmp 0 (sel.map fun t => t.toTree) start.toWorld with ⟨w, result⟩
  rw [hm] at hrun
  constructor
  · intro hfits
    obtain rfl : result = .ok () := hrun.ok_iff.mpr hfits
    obtain ⟨base, hregion⟩ := hrun.post hfits
    obtain ⟨T, hT, hget⟩ := packTree_of_region hregion
    refine ⟨T, ?_, hget⟩
    unfold mergeLayers
    rw [hm, hT]
  · intro hnot
    cases result with
    | ok _ => exact absurd (hrun.ok_iff.mp rfl) hnot
    | error e =>
      unfold mergeLayers
      rw [hm]

/-! ## 2. What a second merge removes -/

/-- **What stands at a path**: the entry of a layer that no later layer replaces or hides. -/
def StandsAt (layers : List PackTree) (p : Path) (e : Entry) : Prop :=
  ∃ older x newer, layers = older ++ x :: newer ∧ kept x.toTree p = some e ∧
    ∀ z ∈ newer, overlayRules.covers z.get p = false

/-- **An entry beside its own tombstone** that sorts after it, with nothing below the entry. -/
structure Doomed (layers : List PackTree) (p : Path) : Prop where
  ne_root : p ≠ []
  plain : isMark (p.getLastD "") = false
  stands : ∃ e, StandsAt layers p e
  mark : ∃ e, StandsAt layers (ownMark p) e
  order : asPosix p < asPosix (ownMark p)
  nothingBelow : ∀ r, r ≠ [] → ∀ e, ¬ StandsAt layers (p ++ r) e

/-- A marker of the layer meets a regular file at the path: no marker above the file comes
    first. -/
def MarkerMeets (t : PackTree) (p : Path) : Prop :=
  ∃ d, t.get (d ++ [opqName]) ≠ none ∧ p <+: d ∧
    ∀ d', t.get (d' ++ [opqName]) ≠ none → d' <+: p → d' ≠ p →
      ¬ pathLe (d' ++ [opqName]) (d ++ [opqName])

/-- **A newer layer takes the entry's place**: some layer covers it, and the first one that does
    has no marker that meets it. -/
def Recovered (e : Entry) : List PackTree → Path → Prop
  | [], _ => False
  | y :: newer, p =>
    if overlayRules.covers y.get p then ∀ b, e = .file b → ¬ MarkerMeets y p
    else Recovered e newer p

/-- The markers of the layers fit what stands below them. -/
def MarkersFit (S : Layer) (layers : List PackTree) : Prop :=
  EachLayer (fun S t _ => OpaqueFits S t) S layers

theorem opaqueFits_iff_meets {S : Layer} {t : PackTree} :
    OpaqueFits S t ↔ ∀ q b, S q = some (.file b) → ¬ MarkerMeets t q := by
  constructor
  · rintro h q b hq ⟨d, hd, hqd, hfirst⟩
    obtain ⟨d', hd', hle, hne, hpath⟩ := h d q b hd hqd hq
    exact hfirst d' hd' hle hne hpath
  · intro h d q b hd hqd hq
    by_contra hnone
    exact h q b hq ⟨d, hd, hqd, fun d' hd' hle hne hpath => hnone ⟨d', hd', hle, hne, hpath⟩⟩

/-- A layer whose marker meets a path covers it. -/
theorem covers_of_meets {t : PackTree} {p : Path} (h : MarkerMeets t p) :
    overlayRules.covers t.get p = true := by
  obtain ⟨d, hd, hpd, -⟩ := h
  have hdir : t.get p = some .dir := by
    refine t.dirClosed.above hd (hpd.trans (List.prefix_append d _)) ?_
    rintro rfl
    exact absurd hpd.length_le (by simp)
  unfold Lib.Rules.covers
  rw [hdir]
  rfl

theorem hides_of_lost {t : PackTree} {p : Path} (h : lost t.toTree p = true) :
    overlayRules.hides t.get p = true := by
  obtain ⟨-, hp, -, hmark, -⟩ := lost_iff.mp h
  obtain ⟨d, n, rfl⟩ := List.eq_nil_or_concat p |>.resolve_left hp
  rw [List.concat_eq_append] at *
  rw [ownMark_concat] at hmark
  obtain ⟨e, he⟩ := Option.ne_none_iff_exists'.mp hmark
  have hleaf : overlayRules.leaf e = true := by
    refine decide_eq_true fun hdir => ?_
    have hplain := (PackTree.plain_of_dir (hdir ▸ he)).2.2.2
    rw [isMark_whName] at hplain
    cases hplain
  exact Lib.Rules.hides_of_wh (R := overlayRules) he hleaf List.prefix_rfl

theorem covers_kept (t : PackTree) (p : Path) :
    overlayRules.covers (kept t.toTree) p = overlayRules.covers t.get p := by
  unfold Lib.Rules.covers
  rw [hides_kept]
  by_cases hlost : lost t.toTree p = true
  · rw [hides_of_lost hlost, Bool.or_true, Bool.or_true]
  · unfold kept
    rw [if_neg hlost]

/-! ## 3. What stands -/

theorem standing_cons (S : Layer) (t : PackTree) (sel : List PackTree) :
    standing S (t :: sel) = standing (overlayRules.merge S (kept t.toTree)) sel := rfl

theorem standing_concat (S : Layer) (sel : List PackTree) (t : PackTree) :
    standing S (sel ++ [t]) = overlayRules.merge (standing S sel) (kept t.toTree) := by
  unfold standing
  rw [List.foldl_append]
  rfl

theorem standing_append (S : Layer) (xs ys : List PackTree) :
    standing S (xs ++ ys) = standing (standing S xs) ys := List.foldl_append

/-- **What stands of the layers**, at any path but the root. -/
theorem standing_iff {layers : List PackTree} {p : Path} (hp : p ≠ []) {e : Entry} :
    standing emptyView layers p = some e ↔ StandsAt layers p e := by
  induction layers using List.reverseRecOn generalizing e with
  | nil =>
    refine ⟨fun h => ?_, fun ⟨older, x, newer, hl, _⟩ => absurd hl (by simp)⟩
    have hnone : emptyView p = none := if_neg hp
    exact absurd (hnone.symm.trans h) nofun
  | append_singleton xs t ih =>
    rw [standing_concat]
    constructor
    · intro h
      cases hkept : kept t.toTree p with
      | some e' =>
        rw [Lib.Rules.merge_of_some hkept] at h
        exact ⟨xs, t, [], rfl, hkept.trans h, nofun⟩
      | none =>
        rw [Lib.Rules.merge_of_none hkept] at h
        split at h
        · cases h
        · rename_i hhides
          obtain ⟨older, x, newer, rfl, hx, hnewer⟩ := ih.mp h
          refine ⟨older, x, newer ++ [t], by simp, hx, fun z hz => ?_⟩
          rcases List.mem_append.mp hz with hz | hz
          · exact hnewer z hz
          · rw [List.mem_singleton.mp hz, ← covers_kept]
            unfold Lib.Rules.covers
            rw [hkept, Bool.eq_false_iff.mpr hhides]
            rfl
    · rintro ⟨older, x, newer, hl, hx, hnewer⟩
      rcases List.eq_nil_or_concat newer with rfl | ⟨newer, z, rfl⟩
      · obtain ⟨rfl, hxt⟩ := List.append_inj' hl rfl
        obtain rfl := (List.cons.inj hxt).1
        exact Lib.Rules.merge_of_some hx
      · rw [List.concat_eq_append] at hl hnewer
        have hl' : xs ++ [t] = (older ++ x :: newer) ++ [z] := by simpa using hl
        obtain ⟨rfl, hzt⟩ := List.append_inj' hl' rfl
        obtain rfl := (List.cons.inj hzt).1
        have hcovers := hnewer t (List.mem_append_right _ (List.mem_singleton.mpr rfl))
        rw [Lib.Rules.merge_of_not_covers (by rw [covers_kept, hcovers]; decide)]
        exact ih.mpr ⟨older, x, newer, rfl, hx, fun y hy => hnewer y (List.mem_append_left _ hy)⟩

/-- What a second merge loses of the merged layers is doomed. -/
theorem lost_iff_doomed {layers : List PackTree} {T : PackTree}
    (hT : T.get = standing emptyView layers) {p : Path} :
    lost T.toTree p = true ↔ Doomed layers p := by
  have hstands : ∀ {q : Path}, q ≠ [] → (T.get q ≠ none ↔ ∃ e, StandsAt layers q e) := by
    intro q hq
    rw [hT, Option.ne_none_iff_exists']
    exact exists_congr fun e => standing_iff hq
  have hmark : ownMark p ≠ [] := by
    unfold ownMark
    simp
  rw [lost_iff]
  constructor
  · rintro ⟨hget, hp, hplain, hown, horder, hbelow⟩
    refine ⟨hp, hplain, (hstands hp).mp hget, (hstands hmark).mp hown, horder,
      fun r hr e he => ?_⟩
    exact (hstands (by simp [hr])).mpr ⟨e, he⟩ (hbelow r hr)
  · intro h
    refine ⟨(hstands h.ne_root).mpr h.stands, h.ne_root, h.plain, (hstands hmark).mpr h.mark,
      h.order, fun r hr => ?_⟩
    by_contra hne
    obtain ⟨e, he⟩ := (hstands (by simp [hr])).mp hne
    exact h.nothingBelow r hr e he

/-! ## 4. The grouping -/

theorem markersFit_append {S : Layer} {xs ys : List PackTree} :
    MarkersFit S (xs ++ ys) ↔ MarkersFit S xs ∧ MarkersFit (standing S xs) ys := by
  induction xs generalizing S with
  | nil => exact ⟨fun h => ⟨trivial, h⟩, fun h => h.2⟩
  | cons t xs ih =>
      show OpaqueFits S t ∧ MarkersFit _ (xs ++ ys) ↔ (OpaqueFits S t ∧ MarkersFit _ xs) ∧ _
      rw [ih, and_assoc]
      rfl

/-- Of less below, at most as many markers meet something. -/
theorem MarkersFit.mono {A B : Layer} {layers : List PackTree} (h : MarkersFit A layers)
    (hless : ∀ p, B p = A p ∨ B p = none) : MarkersFit B layers := by
  induction layers generalizing A B with
  | nil => trivial
  | cons t layers ih =>
      refine ⟨opaqueFits_iff_meets.mpr fun q b hq => ?_, ih h.2 fun p => ?_⟩
      · refine opaqueFits_iff_meets.mp h.1 q b ?_
        rcases hless q with heq | hnone
        · rw [← heq, hq]
        · rw [hnone] at hq
          cases hq
      · by_cases hcovers : overlayRules.covers (kept t.toTree) p = true
        · exact .inl (Lib.Rules.merge_of_covers hcovers)
        · rw [Lib.Rules.merge_of_not_covers hcovers, Lib.Rules.merge_of_not_covers hcovers]
          exact hless p

/-- **Where newer layers take the place of all that is missing**, the same markers fit and the same
    stands. -/
theorem standing_regrouped {A B : Layer} {layers : List PackTree} (hfit : MarkersFit B layers)
    (hmiss : ∀ p, B p = A p ∨ ∃ e, A p = some e ∧ Recovered e layers p) :
    MarkersFit A layers ∧ standing A layers = standing B layers := by
  induction layers generalizing A B with
  | nil =>
      refine ⟨trivial, funext fun p => ?_⟩
      rcases hmiss p with heq | ⟨e, -, hrec⟩
      · exact heq.symm
      · exact hrec.elim
  | cons y layers ih =>
      have hnext := ih (A := overlayRules.merge A (kept y.toTree)) hfit.2 fun p => by
        by_cases hcovers : overlayRules.covers (kept y.toTree) p = true
        · exact .inl (Lib.Rules.merge_of_covers hcovers)
        · rw [Lib.Rules.merge_of_not_covers hcovers, Lib.Rules.merge_of_not_covers hcovers]
          refine (hmiss p).imp id fun ⟨e, hA, hrec⟩ => ⟨e, hA, ?_⟩
          rw [covers_kept] at hcovers
          rwa [Recovered, if_neg hcovers] at hrec
      refine ⟨⟨opaqueFits_iff_meets.mpr fun q b hq hmeets => ?_, hnext.1⟩, hnext.2⟩
      rcases hmiss q with heq | ⟨e, hA, hrec⟩
      · exact opaqueFits_iff_meets.mp hfit.1 q b (heq.trans hq) hmeets
      · rw [Recovered, if_pos (covers_of_meets hmeets)] at hrec
        rw [hA] at hq
        exact hrec b (Option.some.inj hq) hmeets

/-- **What is missing and not recovered** is missing in the end. -/
theorem recovered_of_standing {A B : Layer} {layers : List PackTree} {p : Path} {e : Entry}
    (hfit : MarkersFit A layers) (hA : A p = some e) (hB : B p = none)
    (hsame : standing A layers p = standing B layers p) : Recovered e layers p := by
  induction layers generalizing A B with
  | nil =>
      have hsame : A p = B p := hsame
      rw [hA, hB] at hsame
      cases hsame
  | cons y layers ih =>
      rw [Recovered]
      by_cases hcovers : overlayRules.covers y.get p = true
      · rw [if_pos hcovers]
        rintro b rfl
        exact opaqueFits_iff_meets.mp hfit.1 p b hA
      · rw [if_neg hcovers]
        rw [← covers_kept] at hcovers
        have hA' : overlayRules.merge A (kept y.toTree) p = some e :=
          (Lib.Rules.merge_of_not_covers hcovers).trans hA
        have hB' : overlayRules.merge B (kept y.toTree) p = none :=
          (Lib.Rules.merge_of_not_covers hcovers).trans hB
        exact ih hfit.2 hA' hB' hsame

open Classical in
/-- What the older layers leave, without what is doomed. -/
noncomputable def undoomed (xs : List PackTree) : Layer := fun p =>
  if Doomed xs p then none else standing emptyView xs p

/-- **The grouping makes no difference**: if the older layers merge, and the markers of the newer
    ones fit what is not doomed, a newer layer takes the place of every doomed entry. -/
def GroupsAlike (xs ys : List PackTree) : Prop :=
  MarkersFit emptyView xs → MarkersFit (undoomed xs) ys →
    ∀ p e, Doomed xs p → StandsAt xs p e → Recovered e ys p

/-- Merged once more, the merged layers lose what is doomed. -/
theorem merge_merged {xs : List PackTree} {T : PackTree} (hT : T.get = standing emptyView xs) :
    overlayRules.merge emptyView (kept T.toTree) = undoomed xs := by
  funext p
  have hempty : p ≠ [] → emptyView p = none := fun hp => if_neg hp
  unfold undoomed
  by_cases hdoomed : Doomed xs p
  · have hkept : kept T.toTree p = none := if_pos ((lost_iff_doomed hT).mpr hdoomed)
    rw [if_pos hdoomed, Lib.Rules.merge_of_none hkept, hempty hdoomed.ne_root, ite_self]
  · have hkept : kept T.toTree p = standing emptyView xs p := by
      rw [← hT]
      exact if_neg fun hlost => hdoomed ((lost_iff_doomed hT).mp hlost)
    rw [if_neg hdoomed]
    cases hstands : standing emptyView xs p with
    | some e => exact Lib.Rules.merge_of_some (hkept.trans hstands)
    | none =>
      have hp : p ≠ [] := by
        rintro rfl
        rw [← hT] at hstands
        cases hstands
      rw [Lib.Rules.merge_of_none (hkept.trans hstands), hempty hp, ite_self]

/-- The merged older layers fit, and the newer ones where they fit what is not doomed. -/
theorem markersFit_merged {xs ys : List PackTree} {T : PackTree}
    (hT : T.get = standing emptyView xs) :
    MarkersFit emptyView (T :: ys) ↔ MarkersFit (undoomed xs) ys := by
  show OpaqueFits emptyView T ∧ MarkersFit (overlayRules.merge emptyView (kept T.toTree)) ys ↔ _
  rw [merge_merged hT]
  refine and_iff_right fun d q b _ _ hq => ?_
  unfold emptyView at hq
  split at hq <;> cases hq

/-- **Compaction depends on the grouping** exactly where an entry of the older layers stands beside
    its own tombstone, which sorts after it, and no newer layer takes its place. -/
theorem mergeGroups_iff {tmp tmp₁ tmp₂ : Path} (start : Scratch tmp) (start₁ : Scratch tmp₁)
    (start₂ : Scratch tmp₂) (xs ys : List PackTree) :
    (mergeLayers start ((xs ++ ys).map fun t => t.toTree)).map Tree.get =
        (mergeGrouped start₁ start₂ (xs.map fun t => t.toTree)
          (ys.map fun t => t.toTree)).map Tree.get ↔
      GroupsAlike xs ys := by
  have hone := mergeLayers_spec start (xs ++ ys)
  have hold := mergeLayers_spec start₁ xs
  by_cases hxs : MarkersFit emptyView xs
  · obtain ⟨T, hmerged, hT⟩ := hold.1 hxs
    have hgroup := mergeLayers_spec start₂ (T :: ys)
    have hgrouped : mergeGrouped start₁ start₂ (xs.map fun t => t.toTree)
        (ys.map fun t => t.toTree) = mergeLayers start₂ ((T :: ys).map fun t => t.toTree) := by
      unfold mergeGrouped
      rw [hmerged]
      rfl
    rw [hgrouped]
    by_cases hys : MarkersFit (undoomed xs) ys
    · obtain ⟨G, hG, hGget⟩ := hgroup.1 ((markersFit_merged hT).mpr hys)
      have hGstands : G.get = standing (undoomed xs) ys := by
        rw [hGget, standing_cons, merge_merged hT]
      rw [hG, Option.map_some, hGstands]
      constructor
      · intro heq _ _ p e hdoomed hstands
        by_cases hfit : MarkersFit emptyView (xs ++ ys)
        · obtain ⟨O, hO, hOget⟩ := hone.1 hfit
          rw [hO, Option.map_some, hOget, standing_append, Option.some.injEq] at heq
          exact recovered_of_standing (markersFit_append.mp hfit).2
            ((standing_iff hdoomed.ne_root).mpr hstands) (if_pos hdoomed) (congrFun heq p)
        · rw [hone.2 hfit] at heq
          cases heq
      · intro halike
        obtain ⟨hfit, hsame⟩ := standing_regrouped (A := standing emptyView xs) hys fun p => by
          by_cases hdoomed : Doomed xs p
          · obtain ⟨e, hstands⟩ := hdoomed.stands
            exact .inr ⟨e, (standing_iff hdoomed.ne_root).mpr hstands,
              halike hxs hys p e hdoomed hstands⟩
          · exact .inl (if_neg hdoomed)
        obtain ⟨O, hO, hOget⟩ := hone.1 (markersFit_append.mpr ⟨hxs, hfit⟩)
        rw [hO, Option.map_some, hOget, standing_append, hsame]
    · have hnot : ¬ MarkersFit emptyView (xs ++ ys) := by
        intro hfit
        refine hys ((markersFit_append.mp hfit).2.mono fun p => ?_)
        by_cases hdoomed : Doomed xs p
        · exact .inr (if_pos hdoomed)
        · exact .inl (if_neg hdoomed)
      rw [hone.2 hnot, hgroup.2 fun hfit => hys ((markersFit_merged hT).mp hfit)]
      exact ⟨fun _ _ hfit => absurd hfit hys, fun _ => rfl⟩
  · have hgrouped : mergeGrouped start₁ start₂ (xs.map fun t => t.toTree)
        (ys.map fun t => t.toTree) = none := by
      unfold mergeGrouped
      rw [hold.2 hxs]
      rfl
    rw [hgrouped, hone.2 fun hfit => hxs (markersFit_append.mp hfit).1]
    exact ⟨fun _ hfit => absurd hfit hxs, fun _ => rfl⟩

/-- A pack that deletes `-x`, and one that creates it again. -/
def recreatedDash : List PackTree :=
  [{ nodes := [([".wh.-x"], .file [])], nodup := by decide, ok := by decide },
   { nodes := [(["-x"], .file [2])], nodup := by decide, ok := by decide }]

def unrelated : List PackTree :=
  [{ nodes := [(["b"], .file [3])], nodup := by decide, ok := by decide }]

/-- **Merged in one pass the new file stays**; merged in two it is lost. -/
theorem recreatedDash_lost :
    ((mergeLayers hostScratch ((recreatedDash ++ unrelated).map fun t => t.toTree)).map
        fun t => t.get ["-x"]) = some (some (.file [2])) ∧
      ((mergeGrouped hostScratch hostScratch (recreatedDash.map fun t => t.toTree)
        (unrelated.map fun t => t.toTree)).map fun t => t.get ["-x"]) = some none := by
  decide

end CccStorage
