/-
  File:      CccStorage/PackPartition.lean
  Subject:   The parent pack and the packs of the boundaries below it share out the files of a tree.

  * `IsBoundary`, `Covered`, `Topmost` -- a directory in a marked directory; a path at or below one;
    a boundary below no other;
  * `boundaries_spec`, `resolve_spec` -- the boundaries listed, and the one a path belongs to;
  * `prepared_spec` -- what is copied, and what the prepared tree holds;
  * `packs_partition` -- every file is copied, or lies below exactly one topmost boundary.
-/
import CccStorage.ObservedTree

namespace CccStorage.Observed

section

variable {F : Type} {reader : MarkerReader F} {t : SourceTree} {p q b d : Path} {e : Entry}

/-! ## 1. The tree -/

theorem mem_rglob : p ∈ rglob t ↔ p ≠ [] ∧ t.get p ≠ none := by
  constructor
  · intro h
    have hp : p ≠ [] := by
      obtain ⟨x, hx, rfl⟩ := List.mem_map.mp h
      exact (t.names x hx).1
    rw [Tree.get_of_ne hp, Tree.lookup_ne_none]
    exact ⟨hp, h⟩
  · rintro ⟨hp, h⟩
    rw [Tree.get_of_ne hp, Tree.lookup_ne_none] at h
    exact h

theorem entry_names (h : t.get p ≠ none) : ∀ n ∈ p, EntryName n := by
  by_cases hp : p = []
  · subst hp
    exact fun n hn => absurd hn List.not_mem_nil
  · obtain ⟨e, he⟩ := Option.ne_none_iff_exists'.mp h
    exact (t.names _ (Tree.get_mem hp he)).2

theorem path_names (h : t.get p ≠ none) : ∀ n ∈ p, PathName n :=
  fun n hn => (entry_names h n hn).toPathName

theorem get_kind (h : t.get p = some e) : e = .dir ∨ ∃ content, e = .file content := by
  by_cases hp : p = []
  · subst hp
    cases h
    exact .inl rfl
  · have hkind := t.kind _ (Tree.get_mem hp h)
    cases e with
    | dir => exact .inl rfl
    | file content => exact .inr ⟨content, rfl⟩
    | symlink target => cases hkind
    | whiteout => cases hkind
    | special => cases hkind

theorem get_parent {n : String} (h : t.get (d ++ [n]) ≠ none) : t.get d = some .dir := by
  obtain ⟨e, he⟩ := Option.ne_none_iff_exists'.mp h
  have hparent := t.parent _ (Tree.get_mem (by simp) he)
  rwa [List.dropLast_concat] at hparent

/-- Everything above an entry is a directory. -/
theorem get_above (h : t.get p ≠ none) (hq : q <+: p) (hne : q ≠ p) : t.get q = some .dir := by
  obtain ⟨s, rfl⟩ := hq
  induction s using List.reverseRecOn with
  | nil => exact absurd (List.append_nil q).symm hne
  | append_singleton s n ih =>
    rw [← List.append_assoc] at h
    have hdir := get_parent h
    by_cases hs : s = []
    · rw [hs, List.append_nil] at hdir
      exact hdir
    · exact ih (by rw [hdir]; exact nofun) (by simpa using hs)

theorem isDir_iff : isDir t p = true ↔ t.get p = some .dir := by
  rw [isDir, decide_eq_true_iff]

theorem isFile_iff : isFile t p = true ↔ ∃ content, t.get p = some (.file content) := by
  rw [isFile]
  split
  · rename_i content h
    exact ⟨fun _ => ⟨content, h⟩, fun _ => rfl⟩
  · rename_i h
    exact ⟨nofun, fun ⟨content, hc⟩ => absurd hc (h content)⟩

theorem pathOf_pathText (hne : p ≠ []) (h : ∀ n ∈ p, PathName n) : pathOf (pathText p) = p := by
  rw [pathOf, NormalPath.splitOn hne h, List.map_map]
  exact (List.map_congr_left fun n _ => String.ofList_toList).trans (List.map_id _)

/-! ## 2. The boundaries -/

/-- A directory with a marker file. -/
def IsRoot (t : SourceTree) (d : Path) : Prop :=
  ∃ content, t.get (d ++ [OBSERVE_MARKER_NAME]) = some (.file content)

/-- **A boundary**: a directory in a marked one. -/
def IsBoundary (t : SourceTree) (b : Path) : Prop :=
  t.get b = some .dir ∧ ∃ d n, b = d ++ [n] ∧ IsRoot t d

/-- The markers of the tree parse. -/
def MarkersParse (reader : MarkerReader F) (t : SourceTree) : Prop :=
  ∀ d content, t.get (d ++ [OBSERVE_MARKER_NAME]) = some (.file content) →
    ∃ policy, parseObserveMarkerPolicy reader content = some policy

theorem IsRoot.isDir (h : IsRoot t d) : t.get d = some .dir := by
  obtain ⟨content, h⟩ := h
  exact get_parent (by rw [h]; exact nofun)

theorem IsBoundary.ne_nil (h : IsBoundary t b) : b ≠ [] := by
  obtain ⟨-, d, n, rfl, -⟩ := h
  simp

theorem IsBoundary.ne_none (h : IsBoundary t b) : t.get b ≠ none := by
  rw [h.1]
  exact nofun

theorem mem_markedDirs {content : Bytes} :
    (d, content) ∈ markedDirs t ↔ t.get (d ++ [OBSERVE_MARKER_NAME]) = some (.file content) := by
  rw [markedDirs, List.mem_filterMap]
  constructor
  · rintro ⟨d', -, h⟩
    split at h
    · rename_i content' hget
      obtain ⟨rfl, rfl⟩ := Prod.mk.inj (Option.some.inj h)
      exact hget
    · cases h
  · intro h
    refine ⟨d, ?_, by rw [h]⟩
    have hdir : t.get d = some .dir := get_parent (by rw [h]; exact nofun)
    by_cases hd : d = []
    · rw [hd]
      exact List.mem_cons_self
    · refine List.mem_cons_of_mem _ (List.mem_mergeSort.mpr (mem_rglob.mpr ⟨hd, ?_⟩))
      rw [hdir]
      exact nofun

/-- A map that answers for every item answers for the list. -/
theorem mapM_some {α β : Type} {f : α → Option β} {l : List α} (h : ∀ x ∈ l, ∃ y, f x = some y) :
    ∃ ys, l.mapM f = some ys ∧ ∀ y, y ∈ ys ↔ ∃ x ∈ l, f x = some y := by
  induction l with
  | nil => exact ⟨[], rfl, by simp⟩
  | cons x l ih =>
    obtain ⟨y, hy⟩ := h x List.mem_cons_self
    obtain ⟨ys, hys, hmem⟩ := ih fun z hz => h z (List.mem_cons_of_mem _ hz)
    refine ⟨y :: ys, by rw [List.mapM_cons, hy, hys]; rfl, fun z => ?_⟩
    rw [List.mem_cons, hmem, List.exists_mem_cons_iff, hy, Option.some.injEq, eq_comm]

/-- **The observation roots** are the marked directories. -/
theorem roots_spec (hparse : MarkersParse reader t) :
    ∃ roots, discoverObservationRoots reader t = some roots ∧
      (∀ r ∈ roots, IsRoot t r.path ∧ r.relativePath = pathText r.path) ∧
      ∀ d, IsRoot t d → ∃ r ∈ roots, r.path = d := by
  have hsome : ∀ x ∈ markedDirs t, ∃ r, rootAt reader x.1 x.2 = some r := by
    rintro ⟨d, content⟩ hx
    obtain ⟨policy, hpolicy⟩ := hparse d content (mem_markedDirs.mp hx)
    exact ⟨⟨d, pathText d, policy⟩, by rw [rootAt, hpolicy]; rfl⟩
  obtain ⟨roots, hroots, hmem⟩ := mapM_some hsome
  refine ⟨roots.mergeSort rootLe, by rw [discoverObservationRoots, hroots]; rfl, ?_, ?_⟩
  · intro r hr
    obtain ⟨⟨d, content⟩, hx, hr⟩ := (hmem r).mp (List.mem_mergeSort.mp hr)
    obtain ⟨policy, hpolicy⟩ := hparse d content (mem_markedDirs.mp hx)
    rw [rootAt, hpolicy] at hr
    obtain rfl := Option.some.inj hr
    exact ⟨⟨content, mem_markedDirs.mp hx⟩, rfl⟩
  · rintro d ⟨content, hd⟩
    obtain ⟨policy, hpolicy⟩ := hparse d content hd
    refine ⟨⟨d, pathText d, policy⟩, List.mem_mergeSort.mpr ((hmem _).mpr
      ⟨(d, content), mem_markedDirs.mpr hd, by rw [rootAt, hpolicy]; rfl⟩), rfl⟩

theorem mem_namesIn {n : String} : n ∈ namesIn t d ↔ t.get (d ++ [n]) ≠ none := by
  rw [namesIn, List.mem_mergeSort, List.mem_filterMap]
  constructor
  · rintro ⟨p, hp, h⟩
    split at h
    · rename_i hlast
      have hsplit := List.dropLast_append_getLast? n h
      rw [hlast.2] at hsplit
      rw [hsplit]
      exact (mem_rglob.mp hp).2
    · cases h
  · intro h
    refine ⟨d ++ [n], mem_rglob.mpr ⟨by simp, h⟩, ?_⟩
    rw [if_pos ⟨by simp, List.dropLast_concat⟩, List.getLast?_concat]

/-- `_join` of a directory of the tree and a name. -/
theorem joinTexts_pathText {n : String} (hd : ∀ m ∈ d, PathName m) (hn : PathName n) :
    joinTexts [pathText d, n] = pathText (d ++ [n]) := by
  have hname : stripSlashes n = n :=
    NormalPath.strip ⟨[n], by simp, by simpa using hn, by simp [pathText]⟩
  by_cases hnil : d = []
  · subst hnil
    have hempty : stripSlashes (pathText []) = "" := by decide +kernel
    simp only [joinTexts, List.map_cons, List.map_nil, hempty, hname, ne_eq, not_true_eq_false,
      decide_false, Bool.false_eq_true, not_false_eq_true, List.filter_cons_of_neg]
    rw [List.filter_cons_of_pos (by simpa using hn.nonempty), List.filter_nil]
    rfl
  · have hnormal : NormalPath (pathText d) := ⟨d, hnil, hd, rfl⟩
    simp only [joinTexts, List.map_cons, List.map_nil, hnormal.strip, hname]
    rw [List.filter_cons_of_pos (by simpa using hnormal.ne_empty),
      List.filter_cons_of_pos (by simpa using hn.nonempty), List.filter_nil,
      pathText_append hnil (by simp), String.intercalate_cons_cons, String.intercalate_singleton]
    simp [pathText]

/-- **The listed boundaries** are the texts of the boundaries. -/
theorem boundaries_spec (hparse : MarkersParse reader t) :
    ∃ boundaries, immediateChildBoundaries reader t = some boundaries ∧
      ∀ text, text ∈ boundaries ↔ ∃ b, IsBoundary t b ∧ text = pathText b := by
  obtain ⟨roots, hroots, hmem, hall⟩ := roots_spec hparse
  refine ⟨_, by rw [immediateChildBoundaries, hroots]; rfl, fun text => ?_⟩
  rw [List.mem_flatMap]
  constructor
  · rintro ⟨r, hr, htext⟩
    obtain ⟨n, hn, rfl⟩ := List.mem_map.mp htext
    obtain ⟨hn, hdir⟩ := List.mem_filter.mp hn
    obtain ⟨hroot, hrel⟩ := hmem r hr
    have hnames := path_names (mem_namesIn.mp hn)
    refine ⟨r.path ++ [n], ⟨isDir_iff.mp hdir, r.path, n, rfl, hroot⟩, ?_⟩
    rw [hrel]
    exact joinTexts_pathText (fun m hm => hnames m (List.mem_append_left _ hm))
      (hnames n (by simp))
  · rintro ⟨b, ⟨hdir, d, n, rfl, hroot⟩, rfl⟩
    obtain ⟨r, hr, rfl⟩ := hall d hroot
    have hne : t.get (r.path ++ [n]) ≠ none := by
      rw [hdir]
      exact nofun
    have hnames := path_names hne
    refine ⟨r, hr, List.mem_map.mpr ⟨n, List.mem_filter.mpr ⟨mem_namesIn.mpr hne,
      isDir_iff.mpr hdir⟩, ?_⟩⟩
    rw [(hmem r hr).2]
    exact joinTexts_pathText (fun m hm => hnames m (List.mem_append_left _ hm))
      (hnames n (by simp))

/-! ## 3. What is left out -/

/-- A path at or below a boundary. -/
def Covered (t : SourceTree) (p : Path) : Prop := ∃ b, IsBoundary t b ∧ b <+: p

/-- A boundary below no other one. -/
def Topmost (t : SourceTree) (b : Path) : Prop :=
  IsBoundary t b ∧ ∀ c, IsBoundary t c → c <+: b → c = b

theorem Covered.mono (h : Covered t p) (hpq : p <+: q) : Covered t q := by
  obtain ⟨b, hb, hbp⟩ := h
  exact ⟨b, hb, hbp.trans hpq⟩

theorem not_covered_nil : ¬Covered t [] := by
  rintro ⟨b, hb, hnil⟩
  exact hb.ne_nil (List.prefix_nil.mp hnil)

/-- Above a topmost boundary nothing is left out. -/
theorem Topmost.above (h : Topmost t b) (hq : q <+: b) (hne : q ≠ b) :
    ¬Covered t q ∧ t.get q = some .dir := by
  refine ⟨?_, get_above h.1.ne_none hq hne⟩
  rintro ⟨c, hc, hcq⟩
  have heq := h.2 c hc (hcq.trans hq)
  exact hne (hq.eq_of_length_le (heq ▸ hcq.length_le))

/-- What is covered is covered by a topmost boundary, and by no other topmost one. -/
theorem Covered.topmost (h : Covered t p) : ∃ b, Topmost t b ∧ b <+: p := by
  obtain ⟨b, hb, hbp⟩ := h
  induction hlen : b.length using Nat.strong_induction_on generalizing b with
  | _ n ih =>
    by_cases htop : ∀ c, IsBoundary t c → c <+: b → c = b
    · exact ⟨b, ⟨hb, htop⟩, hbp⟩
    · simp only [not_forall] at htop
      obtain ⟨c, hc, hcb, hne⟩ := htop
      have hlt : c.length < n := by
        have hle := hcb.length_le
        have hneq : c.length ≠ b.length := fun heq => hne (hcb.eq_of_length heq)
        omega
      exact ih c.length hlt c hc (hcb.trans hbp) rfl

theorem Topmost.unique {c : Path} (hb : Topmost t b) (hc : Topmost t c) (hbp : b <+: p)
    (hcp : c <+: p) : b = c := by
  rcases List.prefix_or_prefix_of_prefix hbp hcp with h | h
  · exact hc.2 b hb.1 h
  · exact (hb.2 c hc.1 h).symm

/-- Texts that are those of the boundaries. -/
def Boundaries (t : SourceTree) (texts : List String) : Prop :=
  ∀ text, text ∈ texts ↔ ∃ b, IsBoundary t b ∧ text = pathText b

variable {texts : List String}

theorem IsBoundary.normal (h : IsBoundary t b) : NormalPath (pathText b) :=
  ⟨b, h.ne_nil, path_names h.ne_none, rfl⟩

theorem covers_boundary (hb : IsBoundary t b) (hp : t.get p ≠ none) :
    covers (pathText b) (pathText p) = true ↔ b <+: p := by
  by_cases hnil : p = []
  · subst hnil
    rw [List.prefix_nil]
    refine ⟨fun h => ?_, fun h => absurd h hb.ne_nil⟩
    rw [covers, Bool.or_eq_true, decide_eq_true_iff, List.isPrefixOf_iff_prefix] at h
    rcases h with h | h
    · exact absurd h.symm hb.normal.ne_empty
    · exact absurd (List.prefix_nil.mp h) (by simp)
  · exact covers_pathText (path_names hb.ne_none) (path_names hp) hb.ne_nil hnil

theorem combinedExcludes_spec (hparse : MarkersParse reader t) :
    ∃ excludes, combinedExcludes reader t [] true = some excludes ∧ Boundaries t excludes := by
  obtain ⟨boundaries, hboundaries, hmem⟩ := boundaries_spec hparse
  refine ⟨boundaries.eraseDups, ?_, fun text => by rw [List.mem_eraseDups, hmem]⟩
  rw [combinedExcludes, hboundaries]
  rfl

theorem isExcluded_iff (h : Boundaries t texts) (hp : t.get p ≠ none) :
    isExcluded texts p = true ↔ Covered t p := by
  rw [isExcluded, List.any_eq_true]
  constructor
  · rintro ⟨text, htext, hcovers⟩
    obtain ⟨b, hb, rfl⟩ := (h text).mp htext
    exact ⟨b, hb, (covers_boundary hb hp).mp hcovers⟩
  · rintro ⟨b, hb, hbp⟩
    exact ⟨pathText b, (h _).mpr ⟨b, hb, rfl⟩, (covers_boundary hb hp).mpr hbp⟩

theorem covers_refl (a : String) : covers a a = true := by
  rw [covers, decide_eq_true rfl, Bool.true_or]

theorem covers_trans {a b c : String} (hab : covers a b = true) (hbc : covers b c = true) :
    covers a c = true := by
  simp only [covers, Bool.or_eq_true, decide_eq_true_iff, List.isPrefixOf_iff_prefix] at *
  rcases hab with rfl | hab
  · exact hbc
  · rcases hbc with rfl | hbc
    · exact .inr hab
    · exact .inr (hab.trans ((List.prefix_append _ _).trans hbc))

theorem covers_count {a b : String} (hab : covers a b = true) (hne : a ≠ b) :
    a.toList.count '/' < b.toList.count '/' := by
  rw [covers, Bool.or_eq_true, decide_eq_true_iff, List.isPrefixOf_iff_prefix] at hab
  rcases hab with rfl | hab
  · exact absurd rfl hne
  · have hle := hab.sublist.count_le '/'
    rw [List.count_append, List.count_singleton_self] at hle
    omega

theorem textLe_trans (a b c : String) (hab : textLe a b = true) (hbc : textLe b c = true) :
    textLe a c = true := by
  simp only [textLe, Bool.or_eq_true, Bool.and_eq_true, decide_eq_true_iff] at *
  rcases hab with hab | ⟨hab, hle⟩
  · left
    omega
  · rcases hbc with hbc | ⟨hbc, hle'⟩
    · left
      omega
    · exact .inr ⟨hab.trans hbc, hle.trans hle'⟩

theorem textLe_total (a b : String) : (textLe a b || textLe b a) = true := by
  simp only [textLe, Bool.or_eq_true, Bool.and_eq_true, decide_eq_true_iff]
  rcases Nat.lt_trichotomy (a.toList.count '/') (b.toList.count '/') with h | h | h
  · exact .inl (.inl h)
  · rcases le_total a b with hle | hle
    · exact .inl (.inr ⟨h, hle⟩)
    · exact .inr (.inr ⟨h.symm, hle⟩)
  · exact .inr (.inl h)

/-- A topmost entry of a list of texts. -/
def TopmostEntry (texts : List String) (text : String) : Prop :=
  text ∈ texts ∧ ∀ other ∈ texts, covers other text = true → other = text

/-- The texts in the order of the pass: no one after a deeper one. -/
theorem sorted_texts (texts : List String) :
    ((texts.eraseDups).mergeSort textLe).Pairwise fun a b =>
      a.toList.count '/' ≤ b.toList.count '/' := by
  refine (List.pairwise_mergeSort textLe_trans textLe_total texts.eraseDups).imp fun {a b} h => ?_
  rw [textLe, Bool.or_eq_true, Bool.and_eq_true, decide_eq_true_iff, decide_eq_true_iff] at h
  rcases h with h | h
  · exact h.le
  · exact h.1.le

theorem mem_topmostPaths {text : String} :
    text ∈ topmostPaths texts ↔ TopmostEntry texts text := by
  rw [topmostPaths,
    Lib.mem_topmost_iff covers_refl covers_trans covers_count (sorted_texts texts), TopmostEntry]
  simp only [List.mem_mergeSort, List.mem_eraseDups]

theorem topmostEntry_iff (h : Boundaries t texts) {text : String} :
    TopmostEntry texts text ↔ ∃ b, Topmost t b ∧ text = pathText b := by
  constructor
  · rintro ⟨htext, hmin⟩
    obtain ⟨b, hb, rfl⟩ := (h text).mp htext
    refine ⟨b, ⟨hb, fun c hc hcb => ?_⟩, rfl⟩
    have heq := hmin _ ((h _).mpr ⟨c, hc, rfl⟩) ((covers_boundary hc hb.ne_none).mpr hcb)
    exact pathText_inj (path_names hc.ne_none) (path_names hb.ne_none) hc.ne_nil hb.ne_nil heq
  · rintro ⟨b, hb, rfl⟩
    refine ⟨(h _).mpr ⟨b, hb.1, rfl⟩, fun other hother hcovers => ?_⟩
    obtain ⟨c, hc, rfl⟩ := (h other).mp hother
    rw [hb.2 c hc ((covers_boundary hc hb.1.ne_none).mp hcovers)]

/-- **The boundaries that get a marker** are the topmost ones. -/
theorem topmost_spec (h : Boundaries t texts) (text : String) :
    text ∈ topmostPaths ((texts.map stripSlashes).filter (· ≠ "")) ↔
      ∃ b, Topmost t b ∧ text = pathText b := by
  have hsame : (texts.map stripSlashes).filter (· ≠ "") = texts := by
    have hstrip : texts.map stripSlashes = texts := by
      refine (List.map_congr_left fun x hx => ?_).trans (List.map_id _)
      obtain ⟨b, hb, rfl⟩ := (h x).mp hx
      exact hb.normal.strip
    rw [hstrip, List.filter_eq_self]
    intro x hx
    obtain ⟨b, hb, rfl⟩ := (h x).mp hx
    exact decide_eq_true hb.normal.ne_empty
  rw [hsame, mem_topmostPaths, topmostEntry_iff h]

/-! ## 4. The prepared tree -/

theorem mkdirs_run {qs : List Path} {dst : Tree}
    (h : ∀ q ∈ qs, dst.get q = none ∨ dst.get q = some .dir) :
    ∃ d, qs.foldlM (fun d q =>
        match d.get q with
        | none => some (d.set q .dir)
        | some .dir => some d
        | some _ => none) dst = some d ∧
      ∀ q, d.get q = if q ∈ qs then some .dir else dst.get q := by
  induction qs generalizing dst with
  | nil => exact ⟨dst, rfl, fun q => by simp⟩
  | cons q qs ih =>
    rw [List.foldlM_cons]
    rcases h q List.mem_cons_self with hq | hq
    · have hne : q ≠ [] := by
        rintro rfl
        rw [Tree.get_nil] at hq
        cases hq
      have hset : ∀ r, (dst.set q .dir).get r = if r = q then some .dir else dst.get r :=
        fun r => Tree.get_set hne
      have hrest : ∀ r ∈ qs, (dst.set q .dir).get r = none ∨ (dst.set q .dir).get r = some .dir := by
        intro r hr
        rw [hset]
        split
        · exact .inr rfl
        · exact h r (List.mem_cons_of_mem _ hr)
      obtain ⟨d, hd, hget⟩ := ih hrest
      refine ⟨d, by rw [hq]; exact hd, fun r => ?_⟩
      rw [hget, hset]
      by_cases hr : r ∈ qs
      · rw [if_pos hr, if_pos (List.mem_cons_of_mem _ hr)]
      · by_cases hrq : r = q
        · rw [if_neg hr, if_pos hrq, if_pos (hrq ▸ List.mem_cons_self)]
        · rw [if_neg hr, if_neg hrq, if_neg (by simp [hr, hrq])]
    · obtain ⟨d, hd, hget⟩ := ih fun r hr => h r (List.mem_cons_of_mem _ hr)
      refine ⟨d, by rw [hq]; exact hd, fun r => ?_⟩
      rw [hget]
      by_cases hr : r ∈ qs
      · rw [if_pos hr, if_pos (List.mem_cons_of_mem _ hr)]
      · by_cases hrq : r = q
        · rw [if_neg hr, hrq, hq, if_pos List.mem_cons_self]
        · rw [if_neg hr, if_neg (by simp [hr, hrq])]

/-- **`mkdir -p`** makes a directory of the path and of everything above it, and nothing else. -/
theorem mkdirs_spec {dst : Tree} (h : ∀ q, q <+: p → dst.get q = none ∨ dst.get q = some .dir) :
    ∃ d, mkdirs dst p = some d ∧ ∀ q, d.get q = if q <+: p then some .dir else dst.get q := by
  have hinits : ∀ q ∈ p.inits, dst.get q = none ∨ dst.get q = some .dir :=
    fun q hq => h q ((List.mem_inits q p).mp hq)
  obtain ⟨d, hd, hget⟩ := mkdirs_run hinits
  refine ⟨d, hd, fun q => ?_⟩
  rw [hget]
  exact if_congr (List.mem_inits q p) rfl rfl

/-- What the destination holds when the entries `done` are copied. -/
structure Copying (t : SourceTree) (excludes : List String) (done : List Path) (dst : Prepared) :
    Prop where
  source : ∀ q e, dst.tree.get q = some e → t.get q = some e ∧ ¬Covered t q
  made : ∀ q ∈ done, ¬Covered t q → dst.tree.get q = t.get q
  copied : dst.copied = done.filter fun p => !isExcluded excludes p && isFile t p

theorem Copying.free {done : List Path} {dst : Prepared} (h : Copying t texts done dst)
    (hdir : t.get p = some .dir) (hq : q <+: p) :
    dst.tree.get q = none ∨ dst.tree.get q = some .dir := by
  cases hget : dst.tree.get q with
  | none => exact .inl rfl
  | some e =>
    have hsource := (h.source q e hget).1
    have hqdir : t.get q = some .dir := by
      by_cases hne : q = p
      · rw [hne, hdir]
      · exact get_above (by rw [hdir]; exact nofun) hq hne
    rw [hqdir] at hsource
    exact .inr hsource.symm

/-- A directory of the source, made in the destination with all above it. -/
theorem Copying.mkdirs {done : List Path} {dst : Prepared} (h : Copying t texts done dst)
    (hdir : t.get p = some .dir) (hkept : ¬Covered t p) :
    ∃ d, mkdirs dst.tree p = some d ∧
      (∀ q e, d.get q = some e → t.get q = some e ∧ ¬Covered t q) ∧
      (∀ q, t.get q = dst.tree.get q → d.get q = t.get q) ∧ d.get p = some .dir := by
  obtain ⟨d, hd, hget⟩ := mkdirs_spec fun q hq => h.free hdir hq
  have habove : ∀ q, q <+: p → t.get q = some .dir := by
    intro q hq
    by_cases hne : q = p
    · rw [hne, hdir]
    · exact get_above (by rw [hdir]; exact nofun) hq hne
  refine ⟨d, hd, fun q e hq => ?_, fun q hq => ?_, by rw [hget, if_pos List.prefix_rfl]⟩
  · rw [hget] at hq
    split at hq
    · rename_i hqp
      rw [← hq]
      exact ⟨habove q hqp, fun hc => hkept (hc.mono hqp)⟩
    · exact h.source q e hq
  · rw [hget]
    split
    · rename_i hqp
      exact (habove q hqp).symm
    · exact hq.symm

/-- **One entry** of the source is copied, or left out. -/
theorem Copying.step {done : List Path} {dst : Prepared} (htexts : Boundaries t texts)
    (h : Copying t texts done dst) (hp : p ∈ rglob t) :
    ∃ dst', copyEntry t texts dst p = some dst' ∧ Copying t texts (done ++ [p]) dst' := by
  obtain ⟨hnil, hne⟩ := mem_rglob.mp hp
  rw [copyEntry]
  by_cases hex : isExcluded texts p = true
  · rw [if_pos hex]
    refine ⟨dst, rfl, h.source, fun q hq hkept => ?_, ?_⟩
    · rcases List.mem_append.mp hq with hq | hq
      · exact h.made q hq hkept
      · rw [List.mem_singleton.mp hq] at hkept
        exact absurd ((isExcluded_iff htexts hne).mp hex) hkept
    · rw [List.filter_append, ← h.copied]
      simp [hex]
  · have hkept : ¬Covered t p := fun hc => hex ((isExcluded_iff htexts hne).mpr hc)
    rw [if_neg hex]
    obtain ⟨e, he⟩ := Option.ne_none_iff_exists'.mp hne
    rcases get_kind he with rfl | ⟨content, rfl⟩
    · obtain ⟨d, hd, hsource, hmade, hpd⟩ := h.mkdirs he hkept
      have hnotFile : isFile t p = false := by rw [isFile, he]
      rw [if_pos (isDir_iff.mpr he), hd]
      refine ⟨_, rfl, hsource, fun q hq hq' => ?_, ?_⟩
      · rcases List.mem_append.mp hq with hq | hq
        · exact hmade q (h.made q hq hq').symm
        · rw [List.mem_singleton.mp hq]
          exact hpd.trans he.symm
      · rw [List.filter_append, ← h.copied]
        simp [hnotFile]
    · have hnotDir : ¬isDir t p = true := by
        rw [isDir_iff, he]
        exact nofun
      have hparent : t.get p.dropLast = some .dir := t.parent _ (Tree.get_mem hnil he)
      have hup : p.dropLast <+: p := List.dropLast_prefix p
      obtain ⟨d, hd, hsource, hmade, -⟩ := h.mkdirs hparent fun hc => hkept (hc.mono hup)
      have hset : ∀ q, (d.set p (.file content)).get q =
          if q = p then some (.file content) else d.get q := fun q => Tree.get_set hnil
      have hisFile : isFile t p = true := isFile_iff.mpr ⟨content, he⟩
      rw [if_neg hnotDir, he, hd]
      refine ⟨_, rfl, fun q e hq => ?_, fun q hq hq' => ?_, ?_⟩
      · dsimp only at hq
        rw [hset] at hq
        split at hq
        · rename_i heq
          subst heq
          exact ⟨he.trans hq, hkept⟩
        · exact hsource q e hq
      · dsimp only
        rw [hset]
        split
        · rename_i heq
          rw [heq, he]
        · rename_i hqp
          rcases List.mem_append.mp hq with hq | hq
          · exact hmade q (h.made q hq hq').symm
          · exact absurd (List.mem_singleton.mp hq) hqp
      · rw [List.filter_append, ← h.copied]
        simp [hex, hisFile]

theorem Copying.run {done paths : List Path} {dst : Prepared} (htexts : Boundaries t texts)
    (h : Copying t texts done dst) (hpaths : ∀ p ∈ paths, p ∈ rglob t) :
    ∃ dst', paths.foldlM (copyEntry t texts) dst = some dst' ∧
      Copying t texts (done ++ paths) dst' := by
  induction paths generalizing done dst with
  | nil => exact ⟨dst, rfl, by rwa [List.append_nil]⟩
  | cons p paths ih =>
    obtain ⟨dst₁, hstep, h₁⟩ := h.step htexts (hpaths p List.mem_cons_self)
    obtain ⟨dst₂, hrun, h₂⟩ := ih h₁ fun q hq => hpaths q (List.mem_cons_of_mem _ hq)
    refine ⟨dst₂, by rw [List.foldlM_cons, hstep]; exact hrun, ?_⟩
    rwa [List.append_assoc] at h₂

/-- What the destination holds when the boundaries `done` have their markers. -/
def Marked (base : Tree) (done : List Path) (dst : Tree) : Prop :=
  ∀ q, ((∃ b ∈ done, q = b ++ [BOUNDARY_MARKER_NAME]) → dst.get q = some (.file [])) ∧
    ((¬∃ b ∈ done, q = b ++ [BOUNDARY_MARKER_NAME]) →
      (q ∈ done → dst.get q = some .dir) ∧ (q ∉ done → dst.get q = base.get q))

/-- The destination once the source is copied: what is not covered, and nothing else. -/
structure OnlyKept (t : SourceTree) (base : Tree) : Prop where
  covered : ∀ q, Covered t q → base.get q = none
  kept : ∀ q, ¬Covered t q → base.get q = t.get q

theorem Marked.step {base dst : Tree} {done : List Path} (h : Marked base done dst)
    (hbase : OnlyKept t base)
    (hdone : ∀ c ∈ done, Topmost t c) (hb : Topmost t b) :
    ∃ dst', createBoundaryMarker dst (pathText b) = some dst' ∧
      Marked base (done ++ [b]) dst' := by
  have hpath : pathOf (pathText b) = b := pathOf_pathText hb.1.ne_nil (path_names hb.1.ne_none)
  -- no marker lies at or above a topmost boundary
  have hclear : ∀ q, q <+: b → ¬∃ c ∈ done, q = c ++ [BOUNDARY_MARKER_NAME] := by
    rintro q hq ⟨c, hc, rfl⟩
    have hcb : c <+: b := (List.prefix_append _ _).trans hq
    have hlen := hq.length_le
    rw [hb.2 c (hdone c hc).1 hcb, List.length_append] at hlen
    exact absurd hlen (by simp)
  have hfree : ∀ q, q <+: b → dst.get q = none ∨ dst.get q = some .dir := by
    intro q hq
    obtain ⟨hin, hout⟩ := (h q).2 (hclear q hq)
    by_cases hqd : q ∈ done
    · exact .inr (hin hqd)
    · rw [hout hqd]
      by_cases hne : q = b
      · exact .inl (hbase.covered q ⟨b, hb.1, by rw [hne]⟩)
      · rw [hbase.kept q (hb.above hq hne).1]
        exact .inr (hb.above hq hne).2
  have hup : ∀ q, q <+: b → q ≠ b → dst.get q = some .dir := by
    intro q hq hne
    obtain ⟨hin, hout⟩ := (h q).2 (hclear q hq)
    by_cases hqd : q ∈ done
    · exact hin hqd
    · rw [hout hqd, hbase.kept q (hb.above hq hne).1]
      exact (hb.above hq hne).2
  obtain ⟨d, hd, hget⟩ := mkdirs_spec hfree
  have hset : ∀ q, (d.set (b ++ [BOUNDARY_MARKER_NAME]) (.file [])).get q =
      if q = b ++ [BOUNDARY_MARKER_NAME] then some (.file []) else d.get q :=
    fun q => Tree.get_set (by simp)
  refine ⟨d.set (b ++ [BOUNDARY_MARKER_NAME]) (.file []), ?_, fun q => ⟨?_, ?_⟩⟩
  · rw [createBoundaryMarker, hpath, hd]
    rfl
  · rintro ⟨c, hc, rfl⟩
    rw [hset]
    split
    · rfl
    · rename_i hne
      have hcd : c ∈ done := by
        rcases List.mem_append.mp hc with hc | hc
        · exact hc
        · rw [List.mem_singleton.mp hc] at hne
          exact absurd rfl hne
      have hnot : ¬c ++ [BOUNDARY_MARKER_NAME] <+: b := fun hpre => hclear _ hpre ⟨c, hcd, rfl⟩
      rw [hget, if_neg hnot]
      exact (h _).1 ⟨c, hcd, rfl⟩
  · intro hno
    have hne : q ≠ b ++ [BOUNDARY_MARKER_NAME] := fun heq => hno ⟨b, by simp, heq⟩
    have hno' : ¬∃ c ∈ done, q = c ++ [BOUNDARY_MARKER_NAME] :=
      fun ⟨c, hc, heq⟩ => hno ⟨c, List.mem_append_left _ hc, heq⟩
    obtain ⟨hin, hout⟩ := (h q).2 hno'
    rw [hset, if_neg hne, hget]
    refine ⟨fun hq => ?_, fun hq => ?_⟩
    · rcases List.mem_append.mp hq with hqd | hqb
      · rw [hin hqd, ite_self]
      · rw [List.mem_singleton.mp hqb, if_pos List.prefix_rfl]
    · have hqd : q ∉ done := fun hqd => hq (List.mem_append_left _ hqd)
      have hqb : q ≠ b := fun hqb => hq (by rw [hqb]; simp)
      by_cases hpre : q <+: b
      · rw [if_pos hpre, ← hout hqd, hup q hpre hqb]
      · rw [if_neg hpre, hout hqd]

theorem Marked.run {base dst : Tree} {done bs : List Path} (h : Marked base done dst)
    (hbase : OnlyKept t base) (hdone : ∀ c ∈ done, Topmost t c) (hbs : ∀ b ∈ bs, Topmost t b) :
    ∃ dst', (bs.map pathText).foldlM createBoundaryMarker dst = some dst' ∧
      Marked base (done ++ bs) dst' := by
  induction bs generalizing done dst with
  | nil => exact ⟨dst, rfl, by rwa [List.append_nil]⟩
  | cons b bs ih =>
    obtain ⟨dst₁, hstep, h₁⟩ := h.step hbase hdone (hbs b List.mem_cons_self)
    have hdone₁ : ∀ c ∈ done ++ [b], Topmost t c := by
      intro c hc
      rcases List.mem_append.mp hc with hc | hc
      · exact hdone c hc
      · rw [List.mem_singleton.mp hc]
        exact hbs b List.mem_cons_self
    obtain ⟨dst₂, hrun, h₂⟩ := ih h₁ hdone₁ fun c hc => hbs c (List.mem_cons_of_mem _ hc)
    refine ⟨dst₂, by rw [List.map_cons, List.foldlM_cons, hstep]; exact hrun, ?_⟩
    rwa [List.append_assoc] at h₂

/-- What a tree prepared as the parent of `t` holds: what is not covered, a directory for every
    topmost boundary, and a marker in it. -/
structure IsPrepared (t : SourceTree) (dst : Tree) : Prop where
  marker : ∀ b, Topmost t b → dst.get (b ++ [BOUNDARY_MARKER_NAME]) = some (.file [])
  boundary : ∀ b, Topmost t b → dst.get b = some .dir
  kept : ∀ q, ¬Covered t q → dst.get q = t.get q
  only : ∀ q, Covered t q → dst.get q ≠ none →
    Topmost t q ∨ ∃ b, Topmost t b ∧ q = b ++ [BOUNDARY_MARKER_NAME]

/-- **The source of the parent pack.** -/
theorem prepared_spec (hparse : MarkersParse reader t) :
    ∃ excludes prepared, combinedExcludes reader t [] true = some excludes ∧ Boundaries t excludes ∧
      prepareParentSource reader t [] true = some prepared ∧ IsPrepared t prepared.tree ∧
      prepared.copied = (sortedPaths (rglob t)).filter fun p =>
        !isExcluded excludes p && isFile t p := by
  obtain ⟨excludes, hexcludes, htexts⟩ := combinedExcludes_spec hparse
  have hempty : Copying t excludes [] ⟨⟨[]⟩, []⟩ := by
    refine ⟨fun q e hq => ?_, fun q hq => absurd hq List.not_mem_nil, rfl⟩
    by_cases hnil : q = []
    · subst hnil
      exact ⟨hq, not_covered_nil⟩
    · rw [Tree.get_of_ne hnil] at hq
      cases hq
  have hentries : ∀ p ∈ sortedPaths (rglob t), p ∈ rglob t := fun p hp => List.mem_mergeSort.mp hp
  obtain ⟨dst, hrun, hcopy⟩ := hempty.run htexts hentries
  rw [List.nil_append] at hcopy
  have hbase : OnlyKept t dst.tree := by
    refine ⟨fun q hc => ?_, fun q hc => ?_⟩
    · cases hget : dst.tree.get q with
      | none => rfl
      | some e => exact absurd hc (hcopy.source q e hget).2
    · by_cases hnil : q = []
      · subst hnil
        rfl
      · by_cases hq : q ∈ rglob t
        · exact hcopy.made q (List.mem_mergeSort.mpr hq) hc
        · have hnone : t.get q = none := by
            by_contra hne
            exact hq (mem_rglob.mpr ⟨hnil, hne⟩)
          rw [hnone]
          cases hget : dst.tree.get q with
          | none => rfl
          | some e =>
            rw [(hcopy.source q e hget).1] at hnone
            cases hnone
  -- the topmost boundaries as paths
  let paths := (topmostPaths ((excludes.map stripSlashes).filter (· ≠ ""))).map pathOf
  have hpaths : ∀ b, b ∈ paths ↔ Topmost t b := by
    intro b
    rw [List.mem_map]
    constructor
    · rintro ⟨text, htext, rfl⟩
      obtain ⟨b, hb, rfl⟩ := (topmost_spec htexts text).mp htext
      rwa [pathOf_pathText hb.1.ne_nil (path_names hb.1.ne_none)]
    · intro hb
      exact ⟨pathText b, (topmost_spec htexts _).mpr ⟨b, hb, rfl⟩,
        pathOf_pathText hb.1.ne_nil (path_names hb.1.ne_none)⟩
  have hback : paths.map pathText =
      topmostPaths ((excludes.map stripSlashes).filter (· ≠ "")) := by
    rw [List.map_map]
    refine (List.map_congr_left fun text htext => ?_).trans (List.map_id _)
    obtain ⟨b, hb, rfl⟩ := (topmost_spec htexts text).mp htext
    rw [Function.comp_apply, pathOf_pathText hb.1.ne_nil (path_names hb.1.ne_none), id]
  have hstart : Marked dst.tree [] dst.tree := by
    refine fun q => ⟨fun h => ?_, fun _ => ⟨fun h => ?_, fun _ => rfl⟩⟩
    · obtain ⟨c, hc, -⟩ := h
      exact absurd hc List.not_mem_nil
    · exact absurd h List.not_mem_nil
  obtain ⟨tree, hmarks, hmarked⟩ := hstart.run hbase
    (fun c hc => absurd hc List.not_mem_nil) fun b hb => (hpaths b).mp hb
  rw [List.nil_append] at hmarked
  -- neither a topmost boundary nor what is kept is a marker's place
  have hno : ∀ q, (Topmost t q ∨ ¬Covered t q) →
      ¬∃ b ∈ paths, q = b ++ [BOUNDARY_MARKER_NAME] := by
    rintro q hq ⟨b, hb, rfl⟩
    have hbt := (hpaths b).mp hb
    rcases hq with hq | hq
    · have heq := hq.2 b hbt.1 (List.prefix_append _ _)
      exact absurd (congrArg List.length heq) (by simp)
    · exact hq ⟨b, hbt.1, List.prefix_append _ _⟩
  refine ⟨excludes, { dst with tree }, hexcludes, htexts, ?_, ?_, hcopy.copied⟩
  · rw [prepareParentSource, hexcludes]
    show (do
      let dst ← (sortedPaths (rglob t)).foldlM (copyEntry t excludes) ⟨⟨[]⟩, []⟩
      let tree ← createBoundaryMarkers dst.tree excludes
      return { dst with tree }) = _
    rw [hrun]
    show (do
      let tree ← createBoundaryMarkers dst.tree excludes
      return { dst with tree }) = _
    rw [createBoundaryMarkers, ← hback, hmarks]
    rfl
  · refine ⟨fun b hb => ?_, fun b hb => ?_, fun q hq => ?_, fun q hq hne => ?_⟩
    · exact (hmarked _).1 ⟨b, (hpaths b).mpr hb, rfl⟩
    · exact ((hmarked b).2 (hno b (.inl hb))).1 ((hpaths b).mpr hb)
    · have hnot : q ∉ paths := fun hmem => hq ⟨q, ((hpaths q).mp hmem).1, List.prefix_rfl⟩
      rw [((hmarked q).2 (hno q (.inr hq))).2 hnot, hbase.kept q hq]
    · by_cases hmark : ∃ b ∈ paths, q = b ++ [BOUNDARY_MARKER_NAME]
      · obtain ⟨b, hb, heq⟩ := hmark
        exact .inr ⟨b, (hpaths b).mp hb, heq⟩
      · left
        by_contra htop
        have hnot : q ∉ paths := fun hmem => htop ((hpaths q).mp hmem)
        rw [((hmarked q).2 hmark).2 hnot, hbase.covered q hq] at hne
        exact hne rfl

/-! ## 5. The boundary a path belongs to -/

theorem normalizeObserved_pathText (hne : p ≠ []) (hp : ∀ n ∈ p, EntryName n) :
    normalizeObserved (pathText p) = some (pathText p) := by
  have hnames : ∀ n ∈ p, PathName n := fun n hn => (hp n hn).toPathName
  have hnormal : NormalPath (pathText p) := ⟨p, hne, hnames, rfl⟩
  have hnul : '\x00' ∉ (pathText p).toList := by
    rw [toList_pathText]
    intro hmem
    rcases Lib.mem_joined hmem with heq | ⟨l, hl, hmem⟩
    · exact absurd heq (by decide)
    · obtain ⟨n, hn, rfl⟩ := List.mem_map.mp hl
      exact (hp n hn).nul hmem
  have hparts : ((pathText p).toList.splitOn '/').any
      (fun part => part = [] ∨ part = ['.'] ∨ part = ['.', '.']) = false := by
    rw [NormalPath.splitOn hne hnames, List.any_eq_false]
    intro part hpart
    obtain ⟨n, hn, rfl⟩ := List.mem_map.mp hpart
    have hn := hnames n hn
    rw [decide_eq_true_iff]
    rintro (heq | heq | heq)
    · exact hn.nonempty (String.toList_eq_nil_iff.mp heq)
    · exact hn.dot (String.toList_injective (heq.trans (by decide)))
    · exact hn.dotDot (String.toList_injective (heq.trans (by decide)))
  simp only [normalizeObserved]
  rw [if_neg (by rintro (h | h); exacts [hnul h, hnormal.ends.1 h]), hparts]
  rfl

/-- A root that is the path, or not above it, gives no child. -/
theorem childUnder_none {r : ObservationRoot} {allow : Bool} (hrel : r.relativePath = pathText d)
    (hd : ∀ n ∈ d, PathName n) (hp : ∀ n ∈ p, PathName n) (hne : p ≠ [])
    (hnot : ¬(d <+: p ∧ d ≠ p)) : childUnder t (pathText p) allow r = none := by
  have hnormal : NormalPath (pathText p) := ⟨p, hne, hp, rfl⟩
  by_cases hnil : d = []
  · subst hnil
    exact absurd ⟨List.nil_prefix, hne.symm⟩ hnot
  · have hdn : NormalPath (pathText d) := ⟨d, hnil, hd, rfl⟩
    rw [childUnder, hrel, isPrefix, decide_eq_false hdn.ne_empty, Bool.false_or]
    by_cases hpre : d <+: p
    · have heq : d = p := by
        by_contra hdp
        exact hnot ⟨hpre, hdp⟩
      subst heq
      have hinner : innerText (pathText d) (pathText d) = "" := by
        have hself := innerText_pathText (a := d) (b := []) hnil nofun
        rw [List.append_nil] at hself
        rw [hself]
        rfl
      rw [if_pos (covers_refl _)]
      simp [hdn.ne_empty, hinner]
    · rw [if_neg fun hc => hpre ((covers_pathText hd hp hnil hne).mp hc)]

/-- A root above the path gives the child below it, when that is a directory, or the root is one and
    the child may be missing. -/
theorem childUnder_above {r : ObservationRoot} {n : String} {rest : Path} {allow : Bool}
    (hrel : r.relativePath = pathText d) (hd : ∀ m ∈ d, PathName m) (hn : PathName n)
    (hrest : ∀ m ∈ rest, PathName m) :
    childUnder t (pathText (d ++ n :: rest)) allow r =
      if isDir t (if allow then r.path else d ++ [n]) then
        some (⟨r, pathText (d ++ [n]), n, pathText rest⟩, d.length)
      else none := by
  have hp : ∀ m ∈ d ++ n :: rest, PathName m := by
    intro m hm
    rcases List.mem_append.mp hm with hm | hm
    · exact hd m hm
    · rcases List.mem_cons.mp hm with rfl | hm
      · exact hn
      · exact hrest m hm
  have htail : NormalPath (pathText (n :: rest)) :=
    ⟨n :: rest, by simp, fun m hm => hp m (List.mem_append_right _ hm), rfl⟩
  -- the text of the path below the root
  have hsuffix : (if r.relativePath = "" then pathText (d ++ n :: rest)
      else innerText r.relativePath (pathText (d ++ n :: rest))) = pathText (n :: rest) := by
    rw [hrel]
    by_cases hnil : d = []
    · subst hnil
      rfl
    · rw [if_neg (NormalPath.ne_empty ⟨d, hnil, hd, rfl⟩)]
      exact innerText_pathText hnil fun m hm => hp m (List.mem_append_right _ hm)
  have hpre : isPrefix r.relativePath (pathText (d ++ n :: rest)) = true := by
    rw [hrel, isPrefix]
    by_cases hnil : d = []
    · subst hnil
      rfl
    · rw [(covers_pathText hd hp hnil (by simp)).mpr (List.prefix_append _ _), Bool.or_true]
  have hname : String.ofList ((pathText (n :: rest)).toList.takeWhile (· ≠ '/')) = n := by
    rw [toList_pathText, List.map_cons, Lib.takeWhile_joined hn.slash, String.ofList_toList]
  have hinner : String.ofList (((pathText (n :: rest)).toList.drop n.toList.length).dropWhile
      (· == '/')) = pathText rest := by
    have happ := innerText_pathText (a := [n]) (b := rest) (by simp) hrest
    rwa [innerText, show pathText [n] = n by simp [pathText]] at happ
  have hpath : pathOf (pathText (d ++ [n])) = d ++ [n] :=
    pathOf_pathText (by simp) fun m hm => by
      rcases List.mem_append.mp hm with hm | hm
      · exact hd m hm
      · rwa [List.mem_singleton.mp hm]
  have hdepth : (if r.relativePath = "" then 0 else (r.relativePath.toList.splitOn '/').length) =
      d.length := by
    rw [hrel]
    by_cases hnil : d = []
    · subst hnil
      rfl
    · rw [if_neg (NormalPath.ne_empty ⟨d, hnil, hd, rfl⟩), NormalPath.splitOn hnil hd,
        List.length_map]
  rw [childUnder, if_pos hpre]
  simp only [hsuffix, hname, hinner, hdepth, if_neg htail.ne_empty]
  rw [hrel, joinTexts_pathText hd hn, hpath]
  cases allow with
  | false =>
    show (if (!false && !isDir t (d ++ [n])) = true then _ else _) =
      if isDir t (d ++ [n]) then _ else _
    cases isDir t (d ++ [n]) <;> rfl
  | true =>
    show (if (!true && !isDir t (d ++ [n])) = true then _ else _) =
      if isDir t r.path then _ else _
    cases isDir t r.path <;> rfl

theorem childUnder_some {r : ObservationRoot} {n : String} {rest : Path}
    (hrel : r.relativePath = pathText d) (hd : ∀ m ∈ d, PathName m) (hn : PathName n)
    (hrest : ∀ m ∈ rest, PathName m) :
    childUnder t (pathText (d ++ n :: rest)) false r =
      if isDir t (d ++ [n]) then
        some (⟨r, pathText (d ++ [n]), n, pathText rest⟩, d.length)
      else none := childUnder_above hrel hd hn hrest

/-- What resolving a path of the tree finds. -/
structure Resolves (t : SourceTree) (p : Path) (found : Option ObservedChild) : Prop where
  none_iff : found = none ↔ ¬Covered t p
  deepest : ∀ child, found = some child →
    ∃ b, IsBoundary t b ∧ b <+: p ∧ child.boundaryPath = pathText b ∧
      ∀ c, IsBoundary t c → c <+: p → c <+: b

/-- **The boundary a path of the tree resolves to** is the deepest one that covers it. -/
theorem resolve_spec (hparse : MarkersParse reader t) (hp : t.get p ≠ none) :
    ∃ found, resolveObservedChild reader t (pathText p) false = some found ∧
      Resolves t p found := by
  by_cases hnil : p = []
  · subst hnil
    refine ⟨none, rfl, ⟨fun _ => not_covered_nil, fun _ => rfl⟩, nofun⟩
  have hnames : ∀ n ∈ p, PathName n := path_names hp
  obtain ⟨roots, hroots, hroot, hall⟩ := roots_spec hparse
  let children := roots.filterMap (childUnder t (pathText p) false)
  -- what a root gives is a boundary that covers the path
  have hgives : ∀ child k, (child, k) ∈ children → ∃ d n rest, p = d ++ n :: rest ∧
      IsBoundary t (d ++ [n]) ∧ child.boundaryPath = pathText (d ++ [n]) ∧ k = d.length := by
    intro child k hmem
    obtain ⟨r, hr, hchild⟩ := List.mem_filterMap.mp hmem
    obtain ⟨hisRoot, hrel⟩ := hroot r hr
    have hd : ∀ n ∈ r.path, PathName n := path_names (by rw [hisRoot.isDir]; exact nofun)
    by_cases hpre : r.path <+: p ∧ r.path ≠ p
    · obtain ⟨⟨s, hs⟩, hne⟩ := hpre
      cases s with
      | nil => exact absurd ((List.append_nil _).symm.trans hs) hne
      | cons n rest =>
        subst hs
        rw [childUnder_some hrel hd (hnames n (by simp)) fun m hm => hnames m (by simp [hm])]
          at hchild
        split at hchild
        · rename_i hdir
          obtain ⟨rfl, rfl⟩ := Prod.mk.inj (Option.some.inj hchild)
          exact ⟨r.path, n, rest, rfl, ⟨isDir_iff.mp hdir, r.path, n, rfl, hisRoot⟩, rfl, rfl⟩
        · cases hchild
    · rw [childUnder_none hrel hd hnames hnil hpre] at hchild
      cases hchild
  -- and every boundary that covers the path is given by its root
  have hgiven : ∀ b, IsBoundary t b → b <+: p → ∃ child k, (child, k) ∈ children ∧
      k + 1 = b.length := by
    rintro b ⟨hdir, d, n, rfl, hd⟩ ⟨rest, rfl⟩
    obtain ⟨r, hr, rfl⟩ := hall d hd
    have hrest : ∀ m ∈ rest, PathName m := fun m hm => hnames m (by simp [hm])
    have hchild := childUnder_some (t := t) (hroot r hr).2
      (fun m hm => hnames m (by simp [hm])) (hnames n (by simp)) hrest
    have heq : r.path ++ n :: rest = r.path ++ [n] ++ rest := by simp
    rw [if_pos (isDir_iff.mpr hdir), heq] at hchild
    exact ⟨_, _, List.mem_filterMap.mpr ⟨r, hr, hchild⟩, by rw [List.length_append]; rfl⟩
  have hfound : resolveObservedChild reader t (pathText p) false =
      some ((Lib.longest Prod.snd (fun _ => true) children).map Prod.fst) := by
    rw [resolveObservedChild, normalizeObserved_pathText hnil (entry_names hp)]
    dsimp only
    rw [if_neg (NormalPath.ne_empty ⟨p, hnil, hnames, rfl⟩), hroots, ← Lib.foldl_longer]
    rfl
  refine ⟨_, hfound, ?_, ?_⟩
  · rw [Option.map_eq_none_iff, Lib.longest_eq_none_iff]
    constructor
    · rintro hnone ⟨b, hb, hbp⟩
      obtain ⟨child, k, hmem, -⟩ := hgiven b hb hbp
      cases hnone _ hmem
    · intro hnot x hx
      obtain ⟨d, n, rest, rfl, hb, -⟩ := hgives x.1 x.2 hx
      exact absurd ⟨d ++ [n], hb, ⟨rest, by simp⟩⟩ hnot
  · intro child hchild
    obtain ⟨⟨child', k⟩, hlongest, rfl⟩ := Option.map_eq_some_iff.mp hchild
    obtain ⟨d, n, rest, rfl, hb, hpath, rfl⟩ := hgives _ _ (Lib.longest_mem hlongest).1
    refine ⟨d ++ [n], hb, ⟨rest, by simp⟩, hpath, fun c hc hcp => ?_⟩
    obtain ⟨child₂, k, hmem, hk⟩ := hgiven c hc hcp
    have hle := Lib.le_longest hlongest hmem rfl
    refine List.prefix_of_prefix_length_le hcp ⟨rest, by simp⟩ ?_
    rw [List.length_append, List.length_singleton]
    dsimp only at hle
    omega

/-! ## 6. Parent and children -/

/-- The parent pack is prepared from what belongs to no child, the children's boundaries share out
    the rest, and paths resolve accordingly. -/
structure PacksPartition (reader : MarkerReader F) (t : SourceTree) (boundaries : List String)
    (prepared : Prepared) : Prop where
  /-- Every file is copied and below no topmost entry, or below exactly one and not copied. -/
  owned : ∀ p, isFile t p = true →
    (p ∈ prepared.copied ∧ prepared.tree.get p = t.get p ∧
      ∀ text, TopmostEntry boundaries text → covers text (pathText p) = false) ∨
    (p ∉ prepared.copied ∧
      ∃! text, TopmostEntry boundaries text ∧ covers text (pathText p) = true)
  copied : ∀ p ∈ prepared.copied, isFile t p = true
  /-- The prepared tree holds nothing else but directories and the markers. -/
  only : ∀ p e, prepared.tree.get p = some e → e = .dir ∨ p ∈ prepared.copied ∨
    e = .file [] ∧ ∃ text, TopmostEntry boundaries text ∧ p = pathOf text ++ [BOUNDARY_MARKER_NAME]
  marker : ∀ text, TopmostEntry boundaries text →
    prepared.tree.get (pathOf text) = some .dir ∧
      prepared.tree.get (pathOf text ++ [BOUNDARY_MARKER_NAME]) = some (.file [])
  count : prepared.copied.Nodup ∧ countFiles reader t [] true = some prepared.copied.length
  /-- A path of the tree resolves to a boundary exactly when an entry covers it. -/
  resolved : ∀ p, t.get p ≠ none →
    ∃ found, resolveObservedChild reader t (pathText p) false = some found ∧
      (found.isSome ↔ ∃ text ∈ boundaries, covers text (pathText p) = true) ∧
      ∀ child, found = some child →
        child.boundaryPath ∈ boundaries ∧ covers child.boundaryPath (pathText p) = true ∧
          ∀ text ∈ boundaries, covers text (pathText p) = true →
            covers text child.boundaryPath = true

theorem nodup_rglob : (rglob t).Nodup := t.nodup

/-- **Parent and child packs partition the files** of a tree whose markers parse. -/
theorem packs_partition (hparse : MarkersParse reader t) :
    ∃ boundaries prepared, immediateChildBoundaries reader t = some boundaries ∧
      prepareParentSource reader t [] true = some prepared ∧
      PacksPartition reader t boundaries prepared := by
  obtain ⟨boundaries, hboundaries, htexts⟩ := boundaries_spec hparse
  obtain ⟨excludes, prepared, hexcludes, hexts, hprepared, htree, hcopied⟩ := prepared_spec hparse
  have hentry : ∀ {text}, TopmostEntry boundaries text ↔ ∃ b, Topmost t b ∧ text = pathText b :=
    topmostEntry_iff htexts
  have hpathOf : ∀ {b}, Topmost t b → pathOf (pathText b) = b :=
    fun hb => pathOf_pathText hb.1.ne_nil (path_names hb.1.ne_none)
  have hmem : ∀ p, p ∈ prepared.copied ↔ isFile t p = true ∧ ¬Covered t p := by
    intro p
    rw [hcopied, List.mem_filter, Bool.and_eq_true, Bool.not_eq_true', sortedPaths,
      List.mem_mergeSort, mem_rglob]
    constructor
    · rintro ⟨⟨-, hne⟩, hex, hfile⟩
      exact ⟨hfile, fun hc => Bool.false_ne_true (hex.symm.trans ((isExcluded_iff hexts hne).mpr hc))⟩
    · rintro ⟨hfile, hkept⟩
      obtain ⟨content, hget⟩ := isFile_iff.mp hfile
      have hne : t.get p ≠ none := by
        rw [hget]
        exact nofun
      refine ⟨⟨?_, hne⟩, Bool.eq_false_iff.mpr fun hex => hkept ((isExcluded_iff hexts hne).mp hex),
        hfile⟩
      rintro rfl
      cases hget
  refine ⟨boundaries, prepared, hboundaries, hprepared, ?_, ?_, ?_, ?_, ?_, ?_⟩
  · intro p hfile
    obtain ⟨content, hget⟩ := isFile_iff.mp hfile
    have hne : t.get p ≠ none := by
      rw [hget]
      exact nofun
    by_cases hc : Covered t p
    · right
      refine ⟨fun hp => ((hmem p).mp hp).2 hc, ?_⟩
      obtain ⟨b, hb, hbp⟩ := hc.topmost
      refine ⟨pathText b, ⟨hentry.mpr ⟨b, hb, rfl⟩, (covers_boundary hb.1 hne).mpr hbp⟩, ?_⟩
      rintro text ⟨htext, hcovers⟩
      obtain ⟨c, hc, rfl⟩ := hentry.mp htext
      rw [hc.unique hb ((covers_boundary hc.1 hne).mp hcovers) hbp]
    · left
      refine ⟨(hmem p).mpr ⟨hfile, hc⟩, htree.kept p hc, fun text htext => ?_⟩
      obtain ⟨b, hb, rfl⟩ := hentry.mp htext
      rw [Bool.eq_false_iff]
      exact fun hcovers => hc ⟨b, hb.1, (covers_boundary hb.1 hne).mp hcovers⟩
  · exact fun p hp => ((hmem p).mp hp).1
  · intro p e hget
    by_cases hc : Covered t p
    · rcases htree.only p hc (by rw [hget]; exact nofun) with htop | ⟨b, hb, rfl⟩
      · left
        rw [htree.boundary p htop] at hget
        exact (Option.some.inj hget).symm
      · right
        right
        rw [htree.marker b hb] at hget
        refine ⟨(Option.some.inj hget).symm, pathText b, hentry.mpr ⟨b, hb, rfl⟩, ?_⟩
        rw [hpathOf hb]
    · rw [htree.kept p hc] at hget
      rcases get_kind hget with rfl | ⟨content, rfl⟩
      · exact .inl rfl
      · exact .inr (.inl ((hmem p).mpr ⟨isFile_iff.mpr ⟨content, hget⟩, hc⟩))
  · intro text htext
    obtain ⟨b, hb, rfl⟩ := hentry.mp htext
    rw [hpathOf hb]
    exact ⟨htree.boundary b hb, htree.marker b hb⟩
  · have hperm : (sortedPaths (rglob t)).Perm (rglob t) := List.mergeSort_perm _ _
    refine ⟨?_, ?_⟩
    · rw [hcopied]
      exact (hperm.nodup_iff.mpr nodup_rglob).filter _
    · rw [countFiles, hexcludes, hcopied, (hperm.filter _).length_eq]
      rfl
  · intro p hne
    obtain ⟨found, hfound, hresolves⟩ := resolve_spec hparse hne
    have hcovered : (∃ text ∈ boundaries, covers text (pathText p) = true) ↔ Covered t p := by
      constructor
      · rintro ⟨text, htext, hcovers⟩
        obtain ⟨b, hb, rfl⟩ := (htexts text).mp htext
        exact ⟨b, hb, (covers_boundary hb hne).mp hcovers⟩
      · rintro ⟨b, hb, hbp⟩
        exact ⟨pathText b, (htexts _).mpr ⟨b, hb, rfl⟩, (covers_boundary hb hne).mpr hbp⟩
    refine ⟨found, hfound, ?_, fun child hchild => ?_⟩
    · rw [hcovered, ← not_iff_not, ← hresolves.none_iff, Bool.not_eq_true, Option.isSome_eq_false_iff,
        Option.isNone_iff_eq_none]
    · obtain ⟨b, hb, hbp, hpath, hdeepest⟩ := hresolves.deepest child hchild
      rw [hpath]
      refine ⟨(htexts _).mpr ⟨b, hb, rfl⟩, (covers_boundary hb hne).mpr hbp, fun text htext h => ?_⟩
      obtain ⟨c, hc, rfl⟩ := (htexts text).mp htext
      exact (covers_boundary hc hb.ne_none).mpr (hdeepest c hc ((covers_boundary hc hne).mp h))

end

/-- UTF-8 of texts in ASCII without `=` or line ends. -/
def asciiReader : MarkerReader Int where
  py := Mountd.wholeNumbers
  decode bytes :=
    if bytes.all (· < 128) then some (String.ofList (bytes.map fun b => Char.ofNat b.toNat))
    else none
  loads _ := none

def labNodes : List (Path × Entry) :=
  [([OBSERVE_MARKER_NAME], .file []), (["alice"], .dir),
    (["alice", OBSERVE_MARKER_NAME], .file "shared-nfs".toUTF8.toList),
    (["alice", "run"], .dir), (["alice", "run", "data"], .file [1]), (["readme"], .file [2])]

/-- An observed tree with an observed directory in it. -/
def labTree : SourceTree where
  nodes := labNodes
  nodup := by decide +kernel
  names := by
    have h : ∀ x ∈ labNodes, x.1 ≠ [] ∧ ∀ n ∈ x.1,
        n ≠ "" ∧ n ≠ "." ∧ n ≠ ".." ∧ '/' ∉ n.toList ∧ '\x00' ∉ n.toList := by decide +kernel
    intro x hx
    refine ⟨(h x hx).1, fun n hn => ?_⟩
    obtain ⟨hempty, hdot, hdots, hslash, hnul⟩ := (h x hx).2 n hn
    exact ⟨⟨hempty, hdot, hdots, hslash⟩, hnul⟩
  parent := by decide +kernel
  kind := by decide +kernel

theorem labTree_parses : MarkersParse asciiReader labTree := by
  have h : ∀ x ∈ labNodes, ∀ content, x.1.getLast? = some OBSERVE_MARKER_NAME →
      x.2 = .file content → (parseObserveMarkerPolicy asciiReader content).isSome = true := by
    simp only [labNodes, List.forall_mem_cons]
    refine ⟨?_, nofun, ?_, nofun, ?_, ?_, nofun⟩ <;>
    · rintro content hlast ⟨⟩
      revert hlast
      decide +kernel
  intro d content hget
  exact Option.isSome_iff_exists.mp (h _ (Tree.get_mem (by simp) hget) content
    List.getLast?_concat rfl)

theorem labTree_partition :
    ∃ boundaries prepared, immediateChildBoundaries asciiReader labTree = some boundaries ∧
      prepareParentSource asciiReader labTree [] true = some prepared ∧
      PacksPartition asciiReader labTree boundaries prepared :=
  packs_partition labTree_parses

end CccStorage.Observed
