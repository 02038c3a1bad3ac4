/-
  File:      CccStorage/MergeView.lean
  Subject:   Whether the merged pack shows what the selected packs show.

  * `standing` -- the older packs merged so far, each with its kept entries;
  * `materialize_region` -- the loop over the packs leaves `standing`, or raises at a marker;
  * `LayerFits`, `Fits` -- the condition on the selected packs, layer by layer;
  * `through_of_fits` -- under it the merged pack shows the same over and under any packs, and
    `fits_of_stable`, when it holds;
  * `through_of_not_fits` -- without it some older pack shows the difference;
  * `materialize_view_iff` -- both, with the merge not raising;
  * `compaction_changesView` -- the three ways it fails.
-/
import CccStorage.MergedLayer
import CccStorage.MergeConfined

namespace CccStorage

/-! ## 1. The loop over the packs -/

/-- The empty view. -/
def emptyView : Layer := fun p => if p = [] then some .dir else none

/-- The packs merged onto `S`, oldest first. -/
def standing (S : Layer) (sel : List PackTree) : Layer :=
  sel.foldl (fun S t => overlayRules.merge S (kept t.toTree)) S

/-- A condition on each pack, on what stands of the older ones and on the newer ones. -/
def EachLayer (P : Layer → PackTree → List PackTree → Prop) : Layer → List PackTree → Prop
  | _, [] => True
  | S, t :: rest => P S t rest ∧ EachLayer P (overlayRules.merge S (kept t.toTree)) rest

section Materialize

variable {tmp : Path} {base : Tree} {w : World} {S : Layer}

theorem Scratch.region (start : Scratch tmp) :
    Region (viewDir tmp) start.fs start.toWorld emptyView := by
  have hway : ∀ q, q <+: viewDir tmp → start.fs.get q = some .dir := fun q hq =>
    start.way q ((List.mem_inits q _).mpr hq)
  refine ⟨hway, fun p => ?_, fun _ _ => rfl, ⟨rfl, fun d n h => ?_, fun p e h => ?_,
    fun p h => ?_⟩, ?_⟩
  · unfold emptyView
    by_cases hp : p = []
    · rw [hp, List.append_nil, if_pos rfl]
      exact hway _ List.prefix_rfl
    · rw [if_neg hp]
      by_contra hne
      have hmem := Tree.mem_below.mpr ⟨hp, hne⟩
      rw [start.empty] at hmem
      exact absurd hmem List.not_mem_nil
  · exact absurd (if_neg (by simp)) h
  · unfold emptyView at h
    split at h
    · cases h
      exact .inl rfl
    · cases h
  · unfold emptyView at h
    split at h
    · rename_i hp
      rw [hp]
      exact List.not_mem_nil
    · exact absurd rfl h
  · exact Tree.noDots_of_get start.names (by
      rw [hway _ List.prefix_rfl]
      exact Option.some_ne_none _)

theorem Region.extract (h : Region (viewDir tmp) base w S) (idx : Nat) (t : PackTree) :
    let v := CccStorage.extract (layerDir tmp idx) t.toTree w
    Source (layerDir tmp idx) (viewDir tmp) v.fs t.get ∧ Region (viewDir tmp) v.fs v S := by
  intro v
  obtain ⟨hapart, hapart'⟩ := layerDir_apart tmp idx
  have hne : layerDir tmp idx ≠ [] := by simp [layerDir]
  have hget : ∀ q, v.fs.get q = if layerDir tmp idx <+: q then
      t.get (q.drop (layerDir tmp idx).length) else w.fs.get q := fun q => get_extract hne
  have htmp : ".." ∉ tmp := fun hmem => h.noDots (List.mem_append_left _ hmem)
  constructor
  · refine ⟨hapart, hapart', fun q hq => ?_, fun p => ?_, t.plain, noDots_layerDir htmp idx⟩
    · rw [hget]
      by_cases hlq : layerDir tmp idx <+: q
      · rw [if_pos hlq, hlq.eq_of_length_le hq.length_le, List.drop_length]
        rfl
      · rw [if_neg hlq]
        refine h.way q ?_
        rcases List.prefix_concat_iff.mp hq with rfl | hqt
        · exact absurd List.prefix_rfl hlq
        · exact hqt.trans (List.prefix_append tmp _)
    · rw [hget, if_pos (List.prefix_append _ _), List.drop_left]
  · refine ⟨fun q hq => ?_, fun p => ?_, fun _ _ => rfl, h.plain, h.noDots⟩
    · rw [hget, if_neg fun hl => hapart (hl.trans hq)]
      exact h.way q hq
    · rw [hget, if_neg fun hl => ?_]
      · exact h.agree p
      · rcases List.prefix_or_prefix_of_prefix hl (List.prefix_append (viewDir tmp) p) with hp | hp
        · exact hapart hp
        · exact hapart' hp

/-- **The loop over the packs** raises exactly when the markers of some pack do not fit, and leaves
    what stands of all. -/
theorem materialize_region (h : Region (viewDir tmp) base w S) (idx : Nat) (sel : List PackTree) :
    (materialize tmp idx (sel.map fun t => t.toTree) w).Meets
      (EachLayer (fun S t _ => OpaqueFits S t) S sel)
      fun w => ∃ base, Region (viewDir tmp) base w (standing S sel) := by
  induction sel generalizing idx w base S with
  | nil => exact .of_ok ⟨base, h⟩
  | cons t sel ih =>
      obtain ⟨hs, hr⟩ := h.extract idx t
      exact (mergeExtractedLayer_region hs hr).andThen fun _ v hv => ih hv (idx + 1)

end Materialize

/-! ## 2. The condition -/

/-- **A pack fits** the older ones, of which `S` stands, and the newer ones. -/
structure LayerFits (S : Layer) (t : PackTree) (rest : List PackTree) : Prop where
  /-- No marker meets a regular file. -/
  markers : OpaqueFits S t
  /-- A lost entry is covered by a newer pack. -/
  lost : ∀ p, CccStorage.lost t.toTree p = true → ∃ R ∈ rest, overlayRules.covers R.get p = true
  /-- Where a directory replaces a file, what was below the file in still older packs stays
      hidden. -/
  replaced : ∀ q e, S q = some e → e ≠ .dir → t.get q = some .dir →
    overlayRules.hidesIn (overlayRules.merge S (kept t.toTree)) q = true ∨
      ∃ R ∈ rest, overlayRules.hidesIn R.get q = true

/-- **The selected packs fit.** -/
def Fits (sel : List PackTree) : Prop := EachLayer LayerFits emptyView sel

theorem EachLayer.imp {P Q : Layer → PackTree → List PackTree → Prop}
    (h : ∀ S t rest, P S t rest → Q S t rest) {S : Layer} {sel : List PackTree}
    (hP : EachLayer P S sel) : EachLayer Q S sel := by
  induction sel generalizing S with
  | nil => trivial
  | cons t sel ih => exact ⟨h _ _ _ hP.1, ih hP.2⟩

section Views

variable {S V F : Layer} {t : PackTree} {sel : List PackTree} {p q : Path} {e : Entry}

/-- The view through a list of packs. -/
def through (F : Layer) (sel : List PackTree) : Layer :=
  (sel.map fun t => (t.get : Layer)).foldl overlayRules.apply F

theorem through_iff {F' : Layer} : through F sel p = through F' sel p ↔
    F p = F' p ∨ ∃ R ∈ sel, overlayRules.covers R.get p = true := by
  unfold through
  rw [Lib.Rules.foldl_apply_iff]
  refine or_congr_right ?_
  constructor
  · rintro ⟨L, hL, hc⟩
    obtain ⟨R, hR, rfl⟩ := List.mem_map.mp hL
    exact ⟨R, hR, hc⟩
  · rintro ⟨R, hR, hc⟩
    exact ⟨R.get, List.mem_map_of_mem hR, hc⟩

/-- A directory, and an entry that is no mark, are shown. -/
theorem apply_of_plain (hget : t.get p = some e) (hplain : isMark (p.getLastD "") = false) :
    overlayRules.apply F t.get p = some e := by
  rw [Lib.Rules.apply_of_some hget, if_pos]
  have hshown : ∀ n, isMark n = false → overlayRules.shown n e = true := by
    intro n hn
    show (decide (e ≠ .whiteout) && (decide (e = .dir) || !isMark n)) = true
    rcases PackTree.kind hget with rfl | ⟨b, rfl⟩
    · rfl
    · rw [hn]
      rfl
  cases hlast : p.getLast? with
  | none => rfl
  | some n =>
      obtain ⟨d, rfl⟩ := List.getLast?_eq_some_iff.mp hlast
      rw [List.getLastD_concat] at hplain
      exact hshown n hplain

/-- At a lost entry the pack shows it and the merged pack does not. -/
theorem apply_lost (h : lost t.toTree p = true) :
    (∃ e, overlayRules.apply F t.get p = some e) ∧
      overlayRules.apply V (overlayRules.merge S (kept t.toTree)) p = none := by
  obtain ⟨hget, hp, hplain, hmark, -⟩ := lost_iff.mp h
  obtain ⟨e, he⟩ := Option.ne_none_iff_exists'.mp hget
  refine ⟨⟨e, apply_of_plain he hplain⟩, ?_⟩
  have hhides : overlayRules.hides (kept t.toTree) p = true := by
    rw [hides_kept]
    obtain ⟨d, n, rfl⟩ := List.eq_nil_or_concat p |>.resolve_left hp
    rw [List.concat_eq_append, ownMark_concat] at hmark
    obtain ⟨e, he, hleaf⟩ := leaf_of_mark (isMark_whName n) hmark
    rw [List.concat_eq_append]
    exact Lib.Rules.hides_of_wh (n := n) (e := e) he hleaf List.prefix_rfl
  have hnone : overlayRules.merge S (kept t.toTree) p = none := by
    rw [Lib.Rules.merge_of_none (if_pos h), if_pos hhides]
  exact Lib.Rules.apply_of_hides hnone (Lib.Rules.hides_merge_of_hides hhides)

/-- What hides a mark that the pack does not have, hides everything beside it. -/
theorem hides_beside_mark {d : Path} {m n : String} (hm : isMark m = true)
    (hget : t.get (d ++ [m]) = none) (h : overlayRules.hides t.get (d ++ [m]) = true) :
    overlayRules.hides t.get (d ++ [n]) = true := by
  obtain ⟨c, k, s, hsplit, hat⟩ := Lib.Rules.hides_iff.mp h
  cases s using List.reverseRecOn with
  | nil =>
      obtain ⟨rfl, hk⟩ := List.append_inj' hsplit rfl
      cases hk
      have hopq : ∀ k, k = opqName → (t.get (d ++ [k])).any overlayRules.leaf = true →
          overlayRules.hides t.get (d ++ [n]) = true := by
        rintro k rfl hk
        obtain ⟨e, he, hleaf⟩ := (Option.any_eq_true ..).mp hk
        exact Lib.Rules.hides_of_opq (n := n) (e := e) he hleaf List.prefix_rfl
      unfold Lib.Rules.hidesAt at hat
      rw [hget, Option.any_none, Bool.or_false, Bool.or_eq_true] at hat
      rcases hat with hat | hat
      · exact hopq opqName rfl hat
      · have hwh : (t.get (d ++ [whName m])).any overlayRules.leaf = true := hat
        refine hopq _ ?_ hwh
        obtain ⟨e, he, -⟩ := (Option.any_eq_true ..).mp hwh
        rcases PackTree.name he with hplain | ⟨-, -, hopq' | htarget⟩
        · have hmark := hplain.2.2.2
          rw [isMark_whName] at hmark
          cases hmark
        · exact hopq'
        · have hmark := htarget.2.2.2
          rw [whTarget_whName, hm] at hmark
          cases hmark
  | append_singleton s k' =>
      rw [← List.cons_append, ← List.append_assoc] at hsplit
      obtain ⟨rfl, -⟩ := List.append_inj' hsplit rfl
      exact Lib.Rules.hides_below (Lib.Rules.hides_iff.mpr ⟨c, k, s, rfl, hat⟩)
        (List.prefix_append _ _)

/-- Marks outlive a merge where nothing hides them. -/
theorem merge_mark {d : Path} {m n : String} (hm : isMark m = true)
    (hS : (S (d ++ [m])).any overlayRules.leaf = true)
    (hhides : ¬ overlayRules.hides t.get (d ++ [n]) = true) :
    (overlayRules.merge S (kept t.toTree) (d ++ [m])).any overlayRules.leaf = true := by
  have hkept : kept t.toTree (d ++ [m]) = t.get (d ++ [m]) := kept_of_mark hm
  by_cases hget : t.get (d ++ [m]) = none
  · rw [Lib.Rules.merge_of_none (hkept.trans hget), hides_kept, if_neg]
    · exact hS
    · exact fun h => hhides (hides_beside_mark hm hget h)
  · obtain ⟨e, he, hleaf⟩ := leaf_of_mark hm hget
    rw [Lib.Rules.merge_of_some (hkept.trans he), Option.any_some, hleaf]

/-- **Where merging keeps the view**: at a path that is not lost, unless a directory that replaces a
    file lets through what the file hid. -/
theorem apply_merge (hlost : ¬ lost t.toTree p = true)
    (hreplaced : ∀ q e, S q = some e → e ≠ .dir → t.get q = some .dir → q <+: p → q ≠ p →
      overlayRules.hides (overlayRules.merge S (kept t.toTree)) p = true) :
    overlayRules.apply (overlayRules.apply V S) t.get p =
      overlayRules.apply V (overlayRules.merge S (kept t.toTree)) p := by
  have hkept : kept t.toTree p = t.get p := if_neg hlost
  cases hget : t.get p with
  | some e =>
      rw [Lib.Rules.apply_of_some hget,
        Lib.Rules.apply_of_some (Lib.Rules.merge_of_some (hkept.trans hget))]
  | none =>
      have hmerge := Lib.Rules.merge_of_none (R := overlayRules) (M := S) (hkept.trans hget)
      rw [hides_kept] at hmerge
      by_cases hhides : overlayRules.hides t.get p = true
      · rw [if_pos hhides] at hmerge
        rw [Lib.Rules.apply_of_hides hget hhides, Lib.Rules.apply_of_hides hmerge]
        exact Lib.Rules.hides_merge_of_hides (by rw [hides_kept, hhides])
      · rw [if_neg hhides] at hmerge
        rw [Lib.Rules.apply_of_not_hides hget (Bool.eq_false_iff.mpr hhides)]
        cases hS : S p with
        | some e => rw [Lib.Rules.apply_of_some hS, Lib.Rules.apply_of_some (hmerge.trans hS)]
        | none =>
            rw [Lib.Rules.apply_of_none hS, Lib.Rules.apply_of_none (hmerge.trans hS)]
            refine if_congr ⟨fun h => ?_, fun h => ?_⟩ rfl rfl
            · obtain ⟨d, n, r, rfl, hat⟩ := Lib.Rules.hides_iff.mp h
              have hbelow : d ++ [n] <+: d ++ n :: r := ⟨r, by simp⟩
              have hhides' : ¬ overlayRules.hides t.get (d ++ [n]) = true := fun h' =>
                hhides (Lib.Rules.hides_below h' hbelow)
              have hmergeAt : (overlayRules.hidesAt (overlayRules.merge S (kept t.toTree)) d n) = true →
                  overlayRules.hides (overlayRules.merge S (kept t.toTree)) (d ++ n :: r) = true :=
                fun h' => Lib.Rules.hides_iff.mpr ⟨d, n, r, rfl, h'⟩
              unfold Lib.Rules.hidesAt at hat hmergeAt
              rw [Bool.or_eq_true, Bool.or_eq_true] at hat hmergeAt
              rcases hat with (hat | hat) | hat
              · exact hmergeAt (.inl (.inl (merge_mark isMark_opqName hat hhides')))
              · exact hmergeAt (.inl (.inr (merge_mark (isMark_whName n) hat hhides')))
              · obtain ⟨e, he, hleaf⟩ := (Option.any_eq_true ..).mp hat
                have hedir : e ≠ .dir := of_decide_eq_true hleaf
                cases hk : kept t.toTree (d ++ [n]) with
                | none =>
                    refine hmergeAt (.inr ?_)
                    rw [Lib.Rules.merge_of_none hk, hides_kept, if_neg hhides', he,
                      Option.any_some, hleaf]
                | some e' =>
                    by_cases hdir : e' = .dir
                    · have htget : t.get (d ++ [n]) = some .dir := by
                        unfold kept at hk
                        split at hk
                        · cases hk
                        · rw [hk, hdir]
                      refine hreplaced _ e he hedir htget hbelow fun heq => ?_
                      rw [heq, hget] at htget
                      cases htget
                    · refine hmergeAt (.inr ?_)
                      rw [Lib.Rules.merge_of_some hk, Option.any_some]
                      exact decide_eq_true hdir
            · rcases Lib.Rules.hides_of_hides_merge h with h' | h'
              · rw [hides_kept] at h'
                exact absurd h' hhides
              · exact h'

/-! ## 3. Packs that fit -/

/-- **The merged pack shows the same** when the packs fit. -/
theorem through_of_fits (h : EachLayer LayerFits S sel)
    (hF : ∀ p, F p = overlayRules.apply V S p ∨ ∃ R ∈ sel, overlayRules.covers R.get p = true) :
    through F sel = overlayRules.apply V (standing S sel) := by
  induction sel generalizing F S with
  | nil =>
      funext p
      rcases hF p with h | ⟨R, hR, -⟩
      · exact h
      · exact absurd hR List.not_mem_nil
  | cons t rest ih =>
      obtain ⟨hfit, hrest⟩ := h
      refine ih (F := overlayRules.apply F t.get) hrest fun p => ?_
      by_cases hcov : ∃ R ∈ rest, overlayRules.covers R.get p = true
      · exact .inr hcov
      · left
        have hlost : ¬ lost t.toTree p = true := fun h => hcov (hfit.lost p h)
        have hmerge : overlayRules.apply (overlayRules.apply V S) t.get p =
            overlayRules.apply V (overlayRules.merge S (kept t.toTree)) p := by
          refine apply_merge hlost fun q e hq he hdir hqp hne => ?_
          rcases hfit.replaced q e hq he hdir with hin | ⟨R, hR, hin⟩
          · exact Lib.Rules.hides_of_hidesIn hin hqp hne
          · refine absurd ⟨R, hR, ?_⟩ hcov
            unfold Lib.Rules.covers
            rw [Lib.Rules.hides_of_hidesIn hin hqp hne, Bool.or_true]
        rw [← hmerge]
        rcases hF p with hF | ⟨R, hR, hc⟩
        · by_cases hct : overlayRules.covers t.get p = true
          · exact Lib.Rules.apply_of_covers hct
          · rw [Lib.Rules.apply_of_not_covers hct, Lib.Rules.apply_of_not_covers hct, hF]
        · rcases List.mem_cons.mp hR with rfl | hR
          · exact Lib.Rules.apply_of_covers hc
          · exact absurd ⟨R, hR, hc⟩ hcov

/-- Packs fit when no path is a file in one and a directory in another, and no pack loses
    entries of its own. -/
theorem fits_of_stable
    (hkinds : ∀ R ∈ sel, ∀ R' ∈ sel, ∀ q b, R.get q = some (.file b) → R'.get q ≠ some .dir)
    (hown : ∀ R ∈ sel, ∀ p, ¬ lost R.toTree p = true) : Fits sel := by
  suffices hgen : ∀ (rest : List PackTree) S, (∀ R ∈ rest, R ∈ sel) →
      (∀ q e, S q = some e → e ≠ .dir → ∀ R ∈ sel, R.get q ≠ some .dir) →
      EachLayer LayerFits S rest by
    refine hgen sel emptyView (fun R hR => hR) fun q e hq he => ?_
    unfold emptyView at hq
    split at hq
    · exact absurd (Option.some.inj hq).symm he
    · cases hq
  intro rest
  induction rest with
  | nil => exact fun _ _ _ => trivial
  | cons t rest ih =>
      intro S hsub hS
      have ht := hsub t List.mem_cons_self
      refine ⟨⟨fun d q b hd hq hSq => ?_, fun p hp => absurd hp (hown t ht p),
        fun q e hq he hdir => absurd hdir (hS q e hq he t ht)⟩,
        ih _ (fun R hR => hsub R (List.mem_cons_of_mem t hR)) fun q e hq he => ?_⟩
      · have hqdir : t.get q = some .dir := by
          refine t.dirClosed.above hd (hq.trans (List.prefix_append d _)) ?_
          rintro rfl
          have hle := hq.length_le
          rw [List.length_append, List.length_singleton] at hle
          omega
        exact absurd hqdir (hS q _ hSq nofun t ht)
      · cases hk : kept t.toTree q with
        | none =>
            rw [Lib.Rules.merge_of_none hk] at hq
            split at hq
            · cases hq
            · exact hS q e hq he
        | some e' =>
            rw [Lib.Rules.merge_of_some hk] at hq
            cases hq
            unfold kept at hk
            rw [if_neg (hown t ht q)] at hk
            rcases PackTree.kind hk with rfl | ⟨b, rfl⟩
            · exact absurd rfl he
            · exact fun R hR => hkinds t ht R hR q b hk

/-! ## 4. Packs that do not fit -/

/-- The view shows nothing below the files that stand. -/
def NothingBelow (F S : Layer) : Prop :=
  ∀ q e, S q = some e → e ≠ .dir → ∀ p, q <+: p → p ≠ q → F p = none

theorem NothingBelow.step (h : NothingBelow F S) :
    NothingBelow (overlayRules.apply F t.get) (overlayRules.merge S (kept t.toTree)) := by
  intro q e hq he p hqp hne
  have hq0 : q ≠ [] := by
    rintro rfl
    have hroot : kept t.toTree [] = some .dir := by
      unfold kept
      rw [not_lost_nil, if_neg Bool.false_ne_true]
      rfl
    rw [Lib.Rules.merge_of_some hroot] at hq
    exact he (Option.some.inj hq).symm
  cases hk : kept t.toTree q with
  | some e' =>
      rw [Lib.Rules.merge_of_some hk] at hq
      cases hq
      have hget : t.get q = some e := by
        unfold kept at hk
        split at hk
        · cases hk
        · exact hk
      have hnone : t.get p = none :=
        t.dirClosed.none_below hqp (Ne.symm hne) fun hdir => he (Option.some.inj (hget ▸ hdir))
      exact Lib.Rules.apply_of_hides hnone
        (Lib.Rules.hides_of_leaf hq0 hget (decide_eq_true he) hqp)
  | none =>
      rw [Lib.Rules.merge_of_none hk, hides_kept] at hq
      split at hq
      · cases hq
      · rename_i hhides
        have hnone : t.get q = none := by
          unfold kept at hk
          split at hk
          · rename_i hlost
            refine absurd ?_ hhides
            obtain ⟨-, -, -, hmark, -⟩ := lost_iff.mp hlost
            obtain ⟨d, n, rfl⟩ := List.eq_nil_or_concat q |>.resolve_left hq0
            rw [List.concat_eq_append, ownMark_concat] at hmark
            obtain ⟨e, he, hleaf⟩ := leaf_of_mark (isMark_whName n) hmark
            rw [List.concat_eq_append]
            exact Lib.Rules.hides_of_wh (n := n) (e := e) he hleaf List.prefix_rfl
          · exact hk
        have hpnone : t.get p = none :=
          t.dirClosed.none_below hqp (Ne.symm hne) (by rw [hnone]; nofun)
        rw [Lib.Rules.apply_of_none hpnone, h q e hq he p hqp hne, ite_self]

/-- No name in the layer is longer than `N`. -/
def Short (N : Nat) (X : Layer) : Prop := ∀ p, X p ≠ none → ∀ n ∈ p, n.length ≤ N

theorem Short.mono {N N' : Nat} {X : Layer} (h : Short N X) (hN : N ≤ N') : Short N' X :=
  fun p hp n hn => (h p hp n hn).trans hN

theorem Tree.short (t : Tree) : ∃ N, Short N t.get := by
  refine ⟨((t.nodes.flatMap (·.1)).map String.length).foldr max 0, fun p hp n hn => ?_⟩
  have hp0 : p ≠ [] := List.ne_nil_of_mem hn
  rw [Tree.get_of_ne hp0, Tree.lookup_ne_none] at hp
  obtain ⟨x, hx, rfl⟩ := List.mem_map.mp hp
  have hmem : n.length ∈ (t.nodes.flatMap (·.1)).map String.length :=
    List.mem_map_of_mem (List.mem_flatMap.mpr ⟨x, hx, hn⟩)
  have hmax : ∀ (l : List Nat) (k : Nat), k ∈ l → k ≤ l.foldr max 0 := by
    intro l k hk
    induction l with
    | nil => exact absurd hk List.not_mem_nil
    | cons a l ih =>
        rw [List.foldr_cons]
        rcases List.mem_cons.mp hk with rfl | hk
        · exact le_max_left _ _
        · exact (ih hk).trans (le_max_right _ _)
  exact hmax _ _ hmem

theorem short_all (sel : List PackTree) : ∃ N, ∀ R ∈ sel, Short N R.get := by
  induction sel with
  | nil => exact ⟨0, fun R hR => absurd hR List.not_mem_nil⟩
  | cons t sel ih =>
      obtain ⟨N, hN⟩ := ih
      obtain ⟨N', hN'⟩ := t.toTree.short
      refine ⟨max N N', fun R hR => ?_⟩
      rcases List.mem_cons.mp hR with rfl | hR
      · exact hN'.mono (le_max_right _ _)
      · exact (hN R hR).mono (le_max_left _ _)

theorem Short.merge {N : Nat} (hS : Short N S) (ht : Short N t.get) :
    Short N (overlayRules.merge S (kept t.toTree)) := by
  intro p hp
  cases hk : kept t.toTree p with
  | some e =>
      refine ht p ?_
      unfold kept at hk
      split at hk
      · cases hk
      · rw [hk]
        exact Option.some_ne_none _
  | none =>
      rw [Lib.Rules.merge_of_none hk] at hp
      split at hp
      · exact absurd rfl hp
      · exact hS p hp

/-- A plain name longer than `N`. -/
def longName (N : Nat) : String := String.ofList (List.replicate (N + 1) 'f')

theorem Short.none_longName {N : Nat} {X : Layer} (h : Short N X) (d : Path) :
    X (d ++ [longName N]) = none ∧ X (d ++ [whName (longName N)]) = none := by
  have hlen : (longName N).length = N + 1 := by
    unfold longName
    rw [String.length_ofList, List.length_replicate]
  constructor
  · by_contra hne
    have hle := h _ hne (longName N) (by simp)
    omega
  · by_contra hne
    have hle := h _ hne (whName (longName N)) (by simp)
    unfold whName at hle
    rw [String.length_append] at hle
    omega

theorem not_mark_longName (N : Nat) : isMark (longName N) = false := by
  unfold isMark longName
  simp only [String.toList_ofList, List.replicate_succ]
  rfl

/-- The directories down to `q`, and one file in it. -/
def chain (q : Path) (n : String) : List (Path × Entry) :=
  (q ++ [n], .file []) :: (q.inits.filter (· ≠ [])).map fun x => (x, .dir)

theorem get_chain (q : Path) (n : String) {x : Path} (hx : x <+: q) :
    Tree.get ⟨chain q n⟩ x = some .dir := by
  by_cases hx0 : x = []
  · rw [hx0]
    rfl
  · have hne : (x == q ++ [n]) = false := by
      rw [beq_eq_false_iff_ne]
      rintro rfl
      have hle := hx.length_le
      rw [List.length_append, List.length_singleton] at hle
      omega
    rw [Tree.get_of_ne hx0]
    unfold chain
    rw [List.lookup_cons, hne]
    have hmem : x ∈ q.inits.filter (· ≠ []) :=
      List.mem_filter.mpr ⟨(List.mem_inits x q).mpr hx, decide_eq_true hx0⟩
    obtain ⟨e, he⟩ := Option.ne_none_iff_exists'.mp (Tree.lookup_ne_none.mpr (by
      rw [List.map_map]
      exact List.mem_map.mpr ⟨x, hmem, rfl⟩ :
      x ∈ ((q.inits.filter (· ≠ [])).map fun x => (x, Entry.dir)).map (·.1)))
    obtain ⟨l₁, l₂, hl, -⟩ := List.lookup_eq_some_iff.mp he
    have hin : (x, e) ∈ (q.inits.filter (· ≠ [])).map fun x => (x, Entry.dir) := hl ▸ by simp
    obtain ⟨y, -, hy⟩ := List.mem_map.mp hin
    cases hy
    exact he

def chainTree (q : Path) (n : String) : LayerTree where
  nodes := chain q n
  ok := by
    intro x hx
    rcases List.mem_cons.mp hx with rfl | hx
    · refine ⟨by simp, ?_⟩
      rw [List.dropLast_concat]
      exact get_chain q n List.prefix_rfl
    · obtain ⟨y, hy, rfl⟩ := List.mem_map.mp hx
      obtain ⟨hyq, hy0⟩ := List.mem_filter.mp hy
      exact ⟨of_decide_eq_true hy0,
        get_chain q n ((List.dropLast_prefix y).trans ((List.mem_inits y q).mp hyq))⟩

theorem view_chainTree {n : String} (hn : isMark n = false) :
    view [(chainTree q n).get] (q ++ [n]) = some (.file []) := by
  have hget : (chainTree q n).get (q ++ [n]) = some (.file []) := by
    rw [Tree.get_of_ne (by simp)]
    exact List.lookup_cons_self
  unfold view Lib.Rules.view
  rw [List.foldl_cons, List.foldl_nil, Lib.Rules.apply_of_some hget, List.getLast?_concat, Option.all_some, if_pos]
  show (decide (Entry.file [] ≠ .whiteout) && (decide (Entry.file [] = .dir) || !isMark n)) = true
  rw [hn]
  rfl

/-- **Some older pack shows the difference** when the packs do not fit though no marker stops the
    merge. -/
theorem through_of_not_fits (hmarkers : EachLayer (fun S t _ => OpaqueFits S t) S sel)
    (hshort : ∃ N, Short N S) (h : ¬ EachLayer LayerFits S sel) :
    ∃ below : LayerTree, ∀ F, NothingBelow F S →
      through F sel ≠ overlayRules.apply (view [below.get]) (standing S sel) := by
  induction sel generalizing S with
  | nil => exact absurd trivial h
  | cons t rest ih =>
      have hshort' : ∃ N, Short N S ∧ ∀ R ∈ t :: rest, Short N R.get := by
        obtain ⟨N, hN⟩ := hshort
        obtain ⟨N', hN'⟩ := short_all (t :: rest)
        exact ⟨max N N', hN.mono (le_max_left _ _), fun R hR => (hN' R hR).mono (le_max_right _ _)⟩
      obtain ⟨N, hSN, hN⟩ := hshort'
      have hmergeN := hSN.merge (hN t List.mem_cons_self)
      by_cases hrest : EachLayer LayerFits (overlayRules.merge S (kept t.toTree)) rest
      · -- the rest shows the same, so the difference that `t` makes is seen where nothing covers it
        have hdiff : ∀ (below : LayerTree) F p,
            overlayRules.apply F t.get p ≠
              overlayRules.apply (view [below.get]) (overlayRules.merge S (kept t.toTree)) p →
            (¬ ∃ R ∈ rest, overlayRules.covers R.get p = true) →
            through F (t :: rest) ≠
              overlayRules.apply (view [below.get]) (standing S (t :: rest)) := by
          intro below F p hne hcov heq
          have hsame : through (overlayRules.apply (view [below.get])
              (overlayRules.merge S (kept t.toTree))) rest =
              overlayRules.apply (view [below.get]) (standing S (t :: rest)) :=
            through_of_fits hrest fun p => .inl rfl
          have hp := congrFun (heq.trans hsame.symm) p
          exact (through_iff.mp hp).elim hne hcov
        have hfail : (∃ p, lost t.toTree p = true ∧
              ¬ ∃ R ∈ rest, overlayRules.covers R.get p = true) ∨
            ∃ q e, S q = some e ∧ e ≠ .dir ∧ t.get q = some .dir ∧
              ¬ overlayRules.hidesIn (overlayRules.merge S (kept t.toTree)) q = true ∧
              ¬ ∃ R ∈ rest, overlayRules.hidesIn R.get q = true := by
          by_contra hnone
          rw [not_or] at hnone
          refine h ⟨⟨hmarkers.1, fun p hp => ?_, fun q e hq he hdir => ?_⟩, hrest⟩
          · by_contra hcov
            exact hnone.1 ⟨p, hp, hcov⟩
          · by_contra hcov
            rw [not_or] at hcov
            exact hnone.2 ⟨q, e, hq, he, hdir, hcov.1, hcov.2⟩
        rcases hfail with ⟨p, hp, hcov⟩ | ⟨q, e, hq, he, hdir, hin, hcov⟩
        · refine ⟨chainTree [] "f", fun F _ => hdiff _ F p ?_ hcov⟩
          obtain ⟨⟨e, hshown⟩, hgone⟩ :=
            apply_lost (F := F) (V := view [(chainTree [] "f").get]) (S := S) hp
          rw [hshown, hgone]
          exact Option.some_ne_none _
        · have hfresh : ∀ X : Layer, Short N X → ¬ overlayRules.hidesIn X q = true →
              X (q ++ [longName N]) = none ∧
                ¬ overlayRules.hides X (q ++ [longName N]) = true := by
            intro X hX hnot
            obtain ⟨hnone, hwh⟩ := hX.none_longName q
            exact ⟨hnone, fun hh => hnot (Lib.Rules.hidesIn_of_hides hh hnone hwh)⟩
          obtain ⟨hmnone, hmhides⟩ := hfresh _ hmergeN hin
          refine ⟨chainTree q (longName N), fun F hF => hdiff _ F (q ++ [longName N]) ?_ ?_⟩
          · have htnone := (hN t List.mem_cons_self).none_longName q
            rw [Lib.Rules.apply_of_none htnone.1,
              hF q e hq he _ (List.prefix_append _ _) (by simp), ite_self,
              Lib.Rules.apply_of_not_hides hmnone (Bool.eq_false_iff.mpr hmhides),
              view_chainTree (not_mark_longName N)]
            exact (Option.some_ne_none _).symm
          · rintro ⟨R, hR, hc⟩
            obtain ⟨hrnone, hrhides⟩ := hfresh R.get (hN R (List.mem_cons_of_mem t hR))
              fun hin => hcov ⟨R, hR, hin⟩
            unfold Lib.Rules.covers at hc
            rw [hrnone, Option.isSome_none, Bool.false_or] at hc
            exact hrhides hc
      · obtain ⟨below, hbelow⟩ := ih hmarkers.2 ⟨N, hmergeN⟩ hrest
        exact ⟨below, fun F hF => hbelow _ hF.step⟩

end Views

/-! ## 5. Compaction and the view -/

theorem hides_emptyView (p : Path) : overlayRules.hides emptyView p = false := by
  rw [← Bool.not_eq_true, Lib.Rules.hides_iff]
  rintro ⟨d, n, r, -, hat⟩
  have hnone : ∀ m, emptyView (d ++ [m]) = none := fun m => if_neg (by simp)
  unfold Lib.Rules.hidesAt at hat
  rw [hnone, hnone, hnone] at hat
  cases hat

/-- What a tree of the file system holds below a directory. -/
def treeAt (w : World) (d : Path) : Layer := fun p => w.fs.get (d ++ p)

/-- **Partial compaction keeps what is seen** over every older and under every newer stack, and
    does not raise, exactly when the selected packs fit. -/
theorem materialize_view_iff (tmp : Path) (start : Scratch tmp) (oldest : PackTree)
    (newer : List PackTree) :
    let sel := oldest :: newer
    (∃ w, materialize tmp 0 (sel.map fun t => t.toTree) start.toWorld = (w, .ok ()) ∧
      ∀ below above : List LayerTree,
        view ((below.map fun t => t.get) ++ (sel.map fun t => t.get) ++ above.map fun t => t.get) =
        view ((below.map fun t => t.get) ++ [treeAt w (viewDir tmp)] ++ above.map fun t => t.get)) ↔
      Fits sel := by
  intro sel
  have hrun := materialize_region start.region 0 sel
  have hmerged : ∀ w, materialize tmp 0 (sel.map fun t => t.toTree) start.toWorld = (w, .ok ()) →
      EachLayer (fun S t _ => OpaqueFits S t) emptyView sel ∧
        treeAt w (viewDir tmp) = standing emptyView sel := by
    intro w hw
    have hok : (materialize tmp 0 (sel.map fun t => t.toTree) start.toWorld).2 = .ok () := by
      rw [hw]
    have hmarkers := hrun.ok_iff.mp hok
    obtain ⟨base, hregion⟩ := hrun.post hmarkers
    rw [hw] at hregion
    exact ⟨hmarkers, funext hregion.agree⟩
  constructor
  · rintro ⟨w, hw, hview⟩
    obtain ⟨hmarkers, htree⟩ := hmerged w hw
    by_contra hfits
    have hshort : ∃ N, Short N emptyView := by
      refine ⟨0, fun p hp n hn => ?_⟩
      by_cases hp0 : p = []
      · rw [hp0] at hn
        exact absurd hn List.not_mem_nil
      · exact absurd (if_neg hp0) hp
    obtain ⟨below, hbelow⟩ := through_of_not_fits hmarkers hshort hfits
    refine hbelow (view [below.get]) (fun q e hq he => ?_) ?_
    · unfold emptyView at hq
      split at hq
      · exact absurd (Option.some.inj hq).symm he
      · cases hq
    · have hsame := hview [below] []
      rw [List.map_nil, List.append_nil, List.append_nil] at hsame
      unfold view at hsame
      rw [Lib.Rules.view_append, Lib.Rules.view_append, List.foldl_cons, List.foldl_nil,
        htree] at hsame
      exact hsame
  · intro hfits
    have hmarkers : EachLayer (fun S t _ => OpaqueFits S t) emptyView sel :=
      EachLayer.imp (fun _ _ _ h => h.markers) hfits
    have hok := hrun.ok_iff.mpr hmarkers
    refine ⟨_, Prod.ext rfl hok, fun below above => ?_⟩
    obtain ⟨-, htree⟩ := hmerged _ (Prod.ext rfl hok)
    rw [htree]
    have hthrough : through (view (below.map fun t => t.get)) sel =
        overlayRules.apply (view (below.map fun t => t.get)) (standing emptyView sel) := by
      refine through_of_fits hfits fun p => ?_
      by_cases hp : p = []
      · refine .inr ⟨oldest, List.mem_cons_self, ?_⟩
        rw [hp]
        rfl
      · left
        have hnone : emptyView p = none := if_neg hp
        rw [Lib.Rules.apply_of_not_hides hnone (hides_emptyView p)]
    unfold view at hthrough ⊢
    rw [Lib.Rules.view_append, Lib.Rules.view_append, Lib.Rules.view_append,
      Lib.Rules.view_append, List.foldl_cons, List.foldl_nil, ← hthrough]
    rfl

/-- A file, replaced by an opaque directory. -/
def replacedByOpaque : List PackTree :=
  [{ nodes := [(["a"], .file [1])], nodup := by decide, ok := by decide },
   { nodes := [(["a"], .dir), (["a", ".wh..wh..opq"], .file [])], nodup := by decide,
     ok := by decide }]

/-- A file that a pack deletes and creates again. -/
def recreated : List PackTree :=
  [{ nodes := [([".bashrc"], .file [1])], nodup := by decide, ok := by decide },
   { nodes := [([".bashrc"], .file [2]), ([".wh..bashrc"], .file [])], nodup := by decide,
     ok := by decide }]

/-- A file, replaced by a directory; and an older pack with a directory of that name. -/
def replacedByDir : List PackTree :=
  [{ nodes := [(["a"], .file [1])], nodup := by decide, ok := by decide },
   { nodes := [(["a"], .dir)], nodup := by decide, ok := by decide }]

def olderDir : LayerTree where
  nodes := [(["a"], .dir), (["a", "old"], .file [3])]
  ok := by decide

/-- **The three ways it fails**: the merge raises at the marker; it loses the new file; it brings an
    older file back. -/
theorem compaction_changesView :
    (materialize ["tmp"] 0 (replacedByOpaque.map fun t => t.toTree) hostScratch.toWorld).2 =
        .error .notADirectory ∧
      (∃ w, materialize ["tmp"] 0 (recreated.map fun t => t.toTree) hostScratch.toWorld = (w, .ok ()) ∧
        view (recreated.map fun t => t.get) [".bashrc"] = some (.file [2]) ∧
        view [treeAt w (viewDir ["tmp"])] [".bashrc"] = none) ∧
      ∃ w, materialize ["tmp"] 0 (replacedByDir.map fun t => t.toTree) hostScratch.toWorld = (w, .ok ()) ∧
        view (olderDir.get :: replacedByDir.map fun t => t.get) ["a", "old"] = none ∧
        view [olderDir.get, treeAt w (viewDir ["tmp"])] ["a", "old"] = some (.file [3]) :=
  ⟨by decide, ⟨_, rfl, by decide, by decide⟩, ⟨_, rfl, by decide, by decide⟩⟩

end CccStorage
