/-
  File:      CccStorage/BoundaryStubs.lean
  Subject:   The stubs of a parent pack (`pack/builder.py`): which of the boundary paths get a
             marker, and what is made for them.

  * `pathOf_prefix_iff` -- a text is above another exactly when its components begin the other's;
  * `topmostPaths_congr` -- the order and the repetitions of the paths do not matter;
  * `createBoundaryMarker_spec`, `createBoundaryMarkers_run` -- one marker for each topmost path,
    and its directories;
  * `boundaryStubs_minimal` -- all of it together.
-/
import CccStorage.PackPartition

namespace CccStorage.Observed

section Stubs

variable {texts texts' tops done : List String} {a b text : String} {dst : Tree}

/-! ## 1. The topmost paths -/

theorem normal_pathOf (h : NormalPath a) :
    pathOf a ≠ [] ∧ (∀ n ∈ pathOf a, PathName n) ∧ a = pathText (pathOf a) := by
  obtain ⟨names, hne, hnames, rfl⟩ := h
  rw [pathOf_pathText hne hnames]
  exact ⟨hne, hnames, rfl⟩

/-- **A normal path is above another** exactly when its components begin the other's. -/
theorem pathOf_prefix_iff (ha : NormalPath a) (hb : NormalPath b) :
    pathOf a <+: pathOf b ↔ covers a b = true := by
  obtain ⟨hane, hanames, haeq⟩ := normal_pathOf ha
  obtain ⟨hbne, hbnames, hbeq⟩ := normal_pathOf hb
  have hcovers := covers_pathText hanames hbnames hane hbne
  rw [← haeq, ← hbeq] at hcovers
  exact hcovers.symm

theorem pathOf_inj (ha : NormalPath a) (hb : NormalPath b) (h : pathOf a = pathOf b) : a = b := by
  rw [(normal_pathOf ha).2.2, (normal_pathOf hb).2.2, h]

theorem textLe_antisymm (hab : textLe a b = true) (hba : textLe b a = true) : a = b := by
  simp only [textLe, Bool.or_eq_true, Bool.and_eq_true, decide_eq_true_iff] at hab hba
  rcases hab with hab | ⟨heq, hab⟩
  · rcases hba with hba | ⟨heq', -⟩
    · omega
    · omega
  · rcases hba with hba | ⟨-, hba⟩
    · omega
    · exact le_antisymm hab hba

/-- **The order of the paths and their repetitions do not matter.** -/
theorem topmostPaths_congr (h : ∀ text, text ∈ texts' ↔ text ∈ texts) :
    topmostPaths texts' = topmostPaths texts := by
  have hperm : texts'.eraseDups.Perm texts.eraseDups := by
    refine (List.perm_ext_iff_of_nodup (Lib.nodup_eraseDups _)
      (Lib.nodup_eraseDups _)).mpr fun text => ?_
    rw [List.mem_eraseDups, List.mem_eraseDups, h]
  have hsorted := List.Perm.eq_of_pairwise (fun a b _ _ => textLe_antisymm)
    (List.pairwise_mergeSort textLe_trans textLe_total texts'.eraseDups)
    (List.pairwise_mergeSort textLe_trans textLe_total texts.eraseDups)
    ((List.mergeSort_perm _ _).trans (hperm.trans (List.mergeSort_perm _ _).symm))
  unfold topmostPaths
  rw [hsorted]

theorem nodup_topmostPaths (texts : List String) : (topmostPaths texts).Nodup :=
  ((List.mergeSort_perm _ _).nodup_iff.mpr (Lib.nodup_eraseDups _)).sublist
    (Lib.topmost_sublist covers _)

/-- Above every path there is a topmost one. -/
theorem exists_topmost (h : text ∈ texts) :
    ∃ top, TopmostEntry texts top ∧ covers top text = true := by
  have hkept := Lib.keptTopmost covers_refl covers_trans covers_count (sorted_texts texts)
  obtain ⟨top, htop, hcovers⟩ := hkept.covered text (by simpa using h)
  exact ⟨top, mem_topmostPaths.mp htop, hcovers⟩

/-- A topmost path, in components. -/
theorem topmostEntry_normal (hnormal : ∀ text ∈ texts, NormalPath text) :
    TopmostEntry texts text ↔
      text ∈ texts ∧ ∀ other ∈ texts, pathOf other <+: pathOf text → other = text := by
  constructor
  · rintro ⟨htext, hmin⟩
    refine ⟨htext, fun other hother hprefix => hmin other hother ?_⟩
    exact (pathOf_prefix_iff (hnormal other hother) (hnormal text htext)).mp hprefix
  · rintro ⟨htext, hmin⟩
    refine ⟨htext, fun other hother hcovers => hmin other hother ?_⟩
    exact (pathOf_prefix_iff (hnormal other hother) (hnormal text htext)).mpr hcovers

theorem unique_topmost (hnormal : ∀ text ∈ texts, NormalPath text) (h : text ∈ texts) :
    ∃! top, top ∈ topmostPaths texts ∧ pathOf top <+: pathOf text := by
  obtain ⟨top, htop, hcovers⟩ := exists_topmost h
  have hprefix := (pathOf_prefix_iff (hnormal top htop.1) (hnormal text h)).mpr hcovers
  refine ⟨top, ⟨mem_topmostPaths.mpr htop, hprefix⟩, fun other hother => ?_⟩
  have hentry := (topmostEntry_normal hnormal).mp (mem_topmostPaths.mp hother.1)
  -- two paths above one text are above one another
  rcases List.prefix_or_prefix_of_prefix hprefix hother.2 with hle | hle
  · exact (hentry.2 top htop.1 hle).symm
  · exact ((topmostEntry_normal hnormal).mp htop).2 other hentry.1 hle

/-- No topmost path is above another. -/
def Apart (paths : List Path) : Prop :=
  paths.Pairwise fun a b => ¬a <+: b ∧ ¬b <+: a

theorem apart_topmost (hnormal : ∀ text ∈ texts, NormalPath text) :
    Apart ((topmostPaths texts).map pathOf) := by
  refine List.pairwise_map.mpr ((nodup_topmostPaths texts).imp_of_mem fun {a b} ha hb hne => ?_)
  have ha' := (topmostEntry_normal hnormal).mp (mem_topmostPaths.mp ha)
  have hb' := (topmostEntry_normal hnormal).mp (mem_topmostPaths.mp hb)
  exact ⟨fun h => hne (hb'.2 a ha'.1 h), fun h => hne (ha'.2 b hb'.1 h).symm⟩

/-! ## 2. The markers -/

/-- Nothing stands where the directories and the marker of a boundary go. -/
structure Free (dst : Tree) (b : Path) : Prop where
  above : ∀ q, q <+: b → dst.get q = none ∨ dst.get q = some .dir
  marker : dst.get (b ++ [BOUNDARY_MARKER_NAME]) = none ∨
    ∃ content, dst.get (b ++ [BOUNDARY_MARKER_NAME]) = some (.file content)

/-- **The stubs of some boundaries**: an empty marker in each, directories down to them, and
    nothing else is changed. -/
structure Stubbed (base : Tree) (bs : List Path) (dst : Tree) : Prop where
  marker : ∀ b ∈ bs, dst.get (b ++ [BOUNDARY_MARKER_NAME]) = some (.file [])
  above : ∀ b ∈ bs, ∀ q, q <+: b → dst.get q = some .dir
  others : ∀ q, (∀ b ∈ bs, q ≠ b ++ [BOUNDARY_MARKER_NAME] ∧ ¬q <+: b) → dst.get q = base.get q

/-- No marker is at or above a boundary that is beside the others. -/
theorem marker_not_above {b c : Path} (h : ¬c <+: b) : ¬c ++ [BOUNDARY_MARKER_NAME] <+: b :=
  fun hprefix => h ((List.prefix_append _ _).trans hprefix)

theorem Stubbed.free {base : Tree} {bs : List Path} {b : Path} (h : Stubbed base bs dst)
    (hapart : ∀ c ∈ bs, ¬c <+: b ∧ ¬b <+: c) (hfree : Free base b) : Free dst b := by
  have hmarker : dst.get (b ++ [BOUNDARY_MARKER_NAME]) =
      base.get (b ++ [BOUNDARY_MARKER_NAME]) := by
    refine h.others _ fun c hc => ⟨fun heq => ?_, marker_not_above (hapart c hc).2⟩
    rw [(List.append_inj' heq rfl).1] at hapart
    exact (hapart c hc).1 List.prefix_rfl
  refine ⟨fun q hq => ?_, by rw [hmarker]; exact hfree.marker⟩
  by_cases habove : ∃ c ∈ bs, q <+: c
  · obtain ⟨c, hc, hqc⟩ := habove
    exact .inr (h.above c hc q hqc)
  · have hsame : dst.get q = base.get q := by
      refine h.others q fun c hc => ⟨?_, fun hqc => habove ⟨c, hc, hqc⟩⟩
      rintro rfl
      exact marker_not_above (hapart c hc).1 hq
    rw [hsame]
    exact hfree.above q hq

/-- **One boundary**: its directories and its marker. -/
theorem createBoundaryMarker_spec {base : Tree} {bs : List Path} (h : Stubbed base bs dst)
    (hapart : ∀ c ∈ bs, ¬c <+: pathOf text ∧ ¬pathOf text <+: c)
    (hfree : Free base (pathOf text)) :
    ∃ dst', createBoundaryMarker dst text = some dst' ∧
      Stubbed base (bs ++ [pathOf text]) dst' := by
  obtain ⟨d, hd, hget⟩ := mkdirs_spec (h.free hapart hfree).above
  have hset : ∀ q, (d.set (pathOf text ++ [BOUNDARY_MARKER_NAME]) (.file [])).get q =
      if q = pathOf text ++ [BOUNDARY_MARKER_NAME] then some (.file []) else d.get q :=
    fun q => Tree.get_set (by simp)
  have hnot : ∀ c ∈ bs ++ [pathOf text], ¬pathOf text ++ [BOUNDARY_MARKER_NAME] <+: c := by
    intro c hc
    rcases List.mem_append.mp hc with hc | hc
    · exact marker_not_above (hapart c hc).2
    · rw [List.mem_singleton.mp hc]
      intro hprefix
      have hlen := hprefix.length_le
      rw [List.length_append, List.length_singleton] at hlen
      omega
  refine ⟨_, by rw [createBoundaryMarker, hd]; rfl, fun b hb => ?_, fun b hb q hq => ?_,
    fun q hq => ?_⟩
  · rw [hset]
    split
    · rfl
    · rename_i hne
      rcases List.mem_append.mp hb with hb | hb
      · rw [hget, if_neg (marker_not_above (hapart b hb).1)]
        exact h.marker b hb
      · rw [List.mem_singleton.mp hb] at hne
        exact absurd rfl hne
  · have hne : q ≠ pathOf text ++ [BOUNDARY_MARKER_NAME] := fun heq => hnot b hb (heq ▸ hq)
    rw [hset, if_neg hne, hget]
    split
    · rfl
    · rename_i hne
      rcases List.mem_append.mp hb with hb | hb
      · exact h.above b hb q hq
      · rw [List.mem_singleton.mp hb] at hq
        exact absurd hq hne
  · have hlast := hq (pathOf text) (by simp)
    rw [hset, if_neg hlast.1, hget, if_neg hlast.2]
    exact h.others q fun b hb => hq b (List.mem_append_left _ hb)

/-- **All boundaries**, one after the other. -/
theorem createBoundaryMarkers_run {base : Tree} {bs : List Path} (h : Stubbed base bs dst)
    (hapart : Apart (bs ++ tops.map pathOf)) (hfree : ∀ top ∈ tops, Free base (pathOf top)) :
    ∃ dst', tops.foldlM createBoundaryMarker dst = some dst' ∧
      Stubbed base (bs ++ tops.map pathOf) dst' := by
  induction tops generalizing bs dst with
  | nil => exact ⟨dst, rfl, by rwa [List.map_nil, List.append_nil]⟩
  | cons top tops ih =>
    have hbeside : ∀ c ∈ bs, ¬c <+: pathOf top ∧ ¬pathOf top <+: c := fun c hc =>
      (List.pairwise_append.mp hapart).2.2 c hc _ (List.mem_map_of_mem List.mem_cons_self)
    obtain ⟨dst₁, hstep, h₁⟩ := createBoundaryMarker_spec h hbeside (hfree top List.mem_cons_self)
    have hassoc : bs ++ (top :: tops).map pathOf = (bs ++ [pathOf top]) ++ tops.map pathOf := by
      simp
    rw [hassoc] at hapart ⊢
    obtain ⟨dst₂, hrun, h₂⟩ := ih h₁ hapart fun c hc => hfree c (List.mem_cons_of_mem _ hc)
    exact ⟨dst₂, by rw [List.foldlM_cons, hstep]; exact hrun, h₂⟩

/-- Normal paths are taken as they are. -/
theorem planned_normal (hnormal : ∀ text ∈ texts, NormalPath text) :
    (texts.map stripSlashes).filter (· ≠ "") = texts := by
  have hstrip : texts.map stripSlashes = texts :=
    (List.map_congr_left fun text htext => (hnormal text htext).strip).trans (List.map_id _)
  rw [hstrip, List.filter_eq_self]
  exact fun text htext => decide_eq_true (hnormal text htext).ne_empty

/-- **The boundaries that get a stub** are the ones below no other, whatever the order and the
    repetitions of the list; each path of the list lies at or below exactly one of them; and each
    gets one marker, none of them inside another's boundary. -/
theorem boundaryStubs_minimal (texts : List String) (hnormal : ∀ text ∈ texts, NormalPath text) :
    (∀ text, text ∈ topmostPaths texts ↔
      text ∈ texts ∧ ∀ other ∈ texts, pathOf other <+: pathOf text → other = text) ∧
    (topmostPaths texts).Nodup ∧
    (∀ texts' : List String, (∀ text, text ∈ texts' ↔ text ∈ texts) →
      topmostPaths texts' = topmostPaths texts) ∧
    (∀ text ∈ texts, ∃! top, top ∈ topmostPaths texts ∧ pathOf top <+: pathOf text) ∧
    Apart ((topmostPaths texts).map pathOf) ∧
    ∀ dst : Tree, (∀ top ∈ topmostPaths texts, Free dst (pathOf top)) →
      ∃ dst', createBoundaryMarkers dst texts = some dst' ∧
        Stubbed dst ((topmostPaths texts).map pathOf) dst' := by
  refine ⟨fun text => mem_topmostPaths.trans (topmostEntry_normal hnormal),
    nodup_topmostPaths texts, fun texts' h => topmostPaths_congr h,
    fun text h => unique_topmost hnormal h, apart_topmost hnormal, fun dst hfree => ?_⟩
  have hstart : Stubbed dst [] dst :=
    ⟨fun b hb => absurd hb List.not_mem_nil, fun b hb => absurd hb List.not_mem_nil,
      fun q _ => rfl⟩
  have hapart := apart_topmost hnormal
  rw [createBoundaryMarkers, planned_normal hnormal]
  exact createBoundaryMarkers_run hstart hapart hfree

/-- Siblings that share a string prefix, a nested path and a repetition. -/
theorem boundaryStubs_minimal_witness :
    "run-2" ∈ topmostPaths ["run-2", "run/a", "run", "b/c", "run-2"] ∧
    "run/a" ∉ topmostPaths ["run-2", "run/a", "run", "b/c", "run-2"] ∧
    Apart ((topmostPaths ["run-2", "run/a", "run", "b/c", "run-2"]).map pathOf) := by
  have hname : ∀ n ∈ ["run-2", "run", "a", "b", "c"], PathName n := by
    intro n hn
    refine ⟨?_, ?_, ?_, ?_⟩ <;> revert n <;> decide +kernel
  have hnormal : ∀ text ∈ ["run-2", "run/a", "run", "b/c", "run-2"], NormalPath text := by
    intro text htext
    simp only [List.mem_cons, List.not_mem_nil, or_false] at htext
    rcases htext with rfl | rfl | rfl | rfl | rfl
    · exact ⟨["run-2"], by simp, fun n hn => hname n (by simp_all), by decide +kernel⟩
    · exact ⟨["run", "a"], by simp, fun n hn => hname n (by grind), by decide +kernel⟩
    · exact ⟨["run"], by simp, fun n hn => hname n (by simp_all), by decide +kernel⟩
    · exact ⟨["b", "c"], by simp, fun n hn => hname n (by grind), by decide +kernel⟩
    · exact ⟨["run-2"], by simp, fun n hn => hname n (by simp_all), by decide +kernel⟩
  obtain ⟨hmem, -, -, -, hapart, -⟩ := boundaryStubs_minimal _ hnormal
  refine ⟨(hmem _).mpr (by decide +kernel), fun h => ?_, hapart⟩
  have hmin := ((hmem _).mp h).2 "run" (by decide) (by decide +kernel)
  exact absurd hmin (by decide)

end Stubs

end CccStorage.Observed
