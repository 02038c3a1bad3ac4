/-
  File:      CccStorage/OwnerPaths.lean
  Subject:   The owner of any path string (`core/resolve.py`), and the overlay a write goes to
             (`route_path`, `mountd/overlay.py`).

  * `components` -- what a path string names: the parts that are neither empty nor `.`;
  * `OwnerOf` -- the boundary whose components are the longest prefix of the path's;
  * `longestPrefix_components` -- the scan over texts finds it, and no other;
  * `Respelling` -- repeated, leading and trailing slashes, and parts `.`;
  * `resolveOwnerPath_spec` -- the owner, for every path string and every order of the boundaries.
-/
import CccStorage.HpcClosure
import CccStorage.ChildPaths
import CccStorage.Lib.Escaped

namespace CccStorage.OwnerPaths

open Hpc ChildPaths

/-! ## 1. Components -/

/-- The parts of a path string that are neither empty nor `.`. -/
def components (path : String) : Path :=
  ((path.toList.splitOn '/').filter fun part => part ≠ [] ∧ part ≠ ['.']).map String.ofList

/-- A part that is kept; `..` is one. -/
structure CleanName (name : String) : Prop where
  nonempty : name ≠ ""
  dot : name ≠ "."
  slash : '/' ∉ name.toList

/-- A path string of such parts, with single slashes between them. -/
def CleanPath (text : String) : Prop :=
  ∃ names : Path, names ≠ [] ∧ (∀ n ∈ names, CleanName n) ∧ text = pathText names

/-- One more or one fewer slash, or part `.`. -/
inductive Respelling : String → String → Prop
  | leading (p : String) : Respelling ("/" ++ p) p
  | trailing (p : String) : Respelling (p ++ "/") p
  | repeated (p q : String) : Respelling (p ++ "//" ++ q) (p ++ "/" ++ q)
  | dotFirst (p : String) : Respelling ("./" ++ p) p
  | dotLast (p : String) : Respelling (p ++ "/.") p
  | dotBetween (p q : String) : Respelling (p ++ "/./" ++ q) (p ++ "/" ++ q)

section

variable {names a b : Path} {path p q text : String}

theorem plain_of_clean (h : ∀ n ∈ names, CleanName n) :
    Lib.Plain '/' (names.map String.toList) := by
  intro l hl
  obtain ⟨n, hn, rfl⟩ := List.mem_map.mp hl
  exact ⟨fun hnil => (h n hn).nonempty (String.toList_eq_nil_iff.mp hnil), (h n hn).slash⟩

theorem components_clean (path : String) : ∀ n ∈ components path, CleanName n := by
  intro n hn
  obtain ⟨part, hpart, rfl⟩ := List.mem_map.mp hn
  obtain ⟨hsplit, hkept⟩ := List.mem_filter.mp hpart
  obtain ⟨hnil, hdot⟩ := of_decide_eq_true hkept
  refine ⟨fun h => hnil ?_, fun h => hdot ?_, ?_⟩
  · rw [← String.toList_ofList (l := part), h]
    rfl
  · rw [← String.toList_ofList (l := part), h]
    rfl
  · rw [String.toList_ofList]
    exact Lib.not_mem_of_mem_splitOn hsplit

theorem components_slash (p q : String) :
    components (p ++ "/" ++ q) = components p ++ components q := by
  have hlist : (p ++ "/" ++ q).toList = p.toList ++ '/' :: q.toList := by simp
  rw [components, hlist, List.splitOn_append_cons_self, List.filter_append, List.map_append]
  rfl

theorem components_empty : components "" = [] := rfl

theorem components_dot : components "." = [] := rfl

/-- The components of clean names are the names. -/
theorem components_pathText (h : ∀ n ∈ names, CleanName n) :
    components (pathText names) = names := by
  by_cases hne : names = []
  · rw [hne]
    rfl
  · have hfilter : (names.map String.toList).filter (fun part => part ≠ [] ∧ part ≠ ['.']) =
        names.map String.toList := by
      refine List.filter_eq_self.mpr fun part hpart => ?_
      obtain ⟨n, hn, rfl⟩ := List.mem_map.mp hpart
      refine decide_eq_true ⟨fun hnil => (h n hn).nonempty (String.toList_eq_nil_iff.mp hnil),
        fun hdot => (h n hn).dot ?_⟩
      rw [← String.toList_inj, hdot]
      rfl
    rw [components, toList_pathText, Lib.splitOn_joined (plain_of_clean h) (by simpa using hne),
      hfilter, List.map_map]
    exact (List.map_congr_left fun n _ => String.ofList_toList).trans (List.map_id _)

/-- **The cleaned path** is the text of the components. -/
theorem normalizeText_eq (h : components path ≠ []) :
    normalizeText path = pathText (components path) := by
  have hparts : (path.toList.splitOn '/').filter (fun part => part ≠ [] ∧ part ≠ ['.']) =
      (components path).map String.toList := by
    rw [components, List.map_map]
    exact ((List.map_congr_left fun part _ => String.toList_ofList).trans (List.map_id _)).symm
  rw [normalizeText, hparts, if_neg (by simp [h]), ← toList_pathText, String.ofList_toList]

theorem CleanPath.components_ne_nil (h : CleanPath text) : components text ≠ [] := by
  obtain ⟨names, hne, hnames, rfl⟩ := h
  rw [components_pathText hnames]
  exact hne

theorem CleanPath.text_eq (h : CleanPath text) : text = pathText (components text) := by
  obtain ⟨names, hne, hnames, rfl⟩ := h
  rw [components_pathText hnames]

theorem CleanPath.strip (h : CleanPath text) : stripSlashes text = text := by
  rw [h.text_eq]
  exact strip_plain (plain_of_clean (components_clean text)) h.components_ne_nil

theorem CleanPath.ne_empty (h : CleanPath text) : text ≠ "" := by
  rw [h.text_eq]
  exact pathText_ne_empty (plain_of_clean (components_clean text)) h.components_ne_nil

/-- A clean path covers a cleaned one exactly when its components begin the other's. -/
theorem CleanPath.covers_iff (h : CleanPath text) (hpath : components path ≠ []) :
    covers text (pathText (components path)) = true ↔ components text <+: components path := by
  rw [h.text_eq, components_pathText (components_clean text)]
  exact covers_plain (plain_of_clean (components_clean text))
    (plain_of_clean (components_clean path)) h.components_ne_nil hpath

/-- Of two that begin one path, the longer text has the more components. -/
theorem CleanPath.length_le_iff {other : String} (h : CleanPath text) (h' : CleanPath other)
    (hpre : components text <+: names) (hpre' : components other <+: names) :
    text.toList.length ≤ other.toList.length ↔
      (components text).length ≤ (components other).length := by
  -- the one with more components has the others first, and a longer text
  have hlonger : ∀ {x y : String}, CleanPath x → CleanPath y → components x <+: names →
      components y <+: names → (components x).length < (components y).length →
      x.toList.length < y.toList.length := by
    intro x y hx hy hxn hyn hlt
    obtain ⟨rest, hrest⟩ := List.prefix_of_prefix_length_le hxn hyn hlt.le
    have hne : rest ≠ [] := by
      rintro rfl
      rw [← hrest, List.append_nil] at hlt
      omega
    have hnames : (components x).map String.toList ≠ [] := by simpa using hx.components_ne_nil
    have hmore : rest.map String.toList ≠ [] := by simpa using hne
    have hjoined : (Lib.joined '/' _).length < (Lib.joined '/' _).length :=
      Lib.joined_length_lt hnames hmore
    rw [hx.text_eq, hy.text_eq, toList_pathText, toList_pathText, ← hrest, List.map_append]
    exact hjoined
  constructor
  · intro hle
    by_contra hlt
    have := hlonger h' h hpre' hpre (by omega)
    omega
  · intro hle
    rcases Nat.lt_or_eq_of_le hle with hlt | heq
    · exact (hlonger h h' hpre hpre' hlt).le
    · have hsame : components text = components other :=
        (List.prefix_of_prefix_length_le hpre hpre' heq.le).eq_of_length heq
      rw [h.text_eq, h'.text_eq, hsame]

/-! ## 2. Spellings of one path -/

/-- **Slashes and dots** are no components. -/
theorem Respelling.components_eq (h : Respelling p q) : components p = components q := by
  cases h with
  | leading q =>
    have hsplit : "/" ++ q = "" ++ "/" ++ q := by simp
    rw [hsplit, components_slash, components_empty, List.nil_append]
  | trailing q =>
    have hsplit : q ++ "/" = q ++ "/" ++ "" := by simp
    rw [hsplit, components_slash, components_empty, List.append_nil]
  | repeated p q =>
    have hsplit : p ++ "//" ++ q = p ++ "/" ++ ("" ++ "/" ++ q) := by
      rw [← String.toList_inj]
      simp
    rw [hsplit, components_slash, components_slash, components_slash, components_empty,
      List.nil_append]
  | dotFirst q =>
    have hsplit : "./" ++ q = "." ++ "/" ++ q := by
      rw [← String.toList_inj]
      simp
    rw [hsplit, components_slash, components_dot, List.nil_append]
  | dotLast q =>
    have hsplit : q ++ "/." = q ++ "/" ++ "." := by
      rw [← String.toList_inj]
      simp
    rw [hsplit, components_slash, components_dot, List.append_nil]
  | dotBetween p q =>
    have hsplit : p ++ "/./" ++ q = p ++ "/" ++ ("." ++ "/" ++ q) := by
      rw [← String.toList_inj]
      simp
    rw [hsplit, components_slash, components_slash, components_slash, components_dot,
      List.nil_append]

theorem components_of_respelled (h : Relation.EqvGen Respelling p q) :
    components p = components q := by
  induction h with
  | rel p q h => exact h.components_eq
  | refl p => rfl
  | symm p q _ ih => exact ih.symm
  | trans p q r _ _ ih ih' => exact ih.trans ih'

end

/-! ## 3. The owner -/

/-- The boundaries of a parent: clean paths, no two the same. -/
structure BoundariesClean (boundaries : List ChildBoundary) : Prop where
  clean : ∀ b ∈ boundaries, CleanPath b.path
  distinct : (boundaries.map ChildBoundary.path).Nodup

/-- **The boundary whose components are the longest prefix** of those of a path. -/
structure OwnerOf (boundaries : List ChildBoundary) (names : Path) (b : ChildBoundary) : Prop where
  mem : b ∈ boundaries
  above : components b.path <+: names
  longest : ∀ e ∈ boundaries, components e.path <+: names →
    (components e.path).length ≤ (components b.path).length

/-- The owner's boundary and the path in it, joined. -/
def rejoined (owner : OwningBoundary) : String :=
  match owner.boundary with
  | none => owner.innerPath
  | some b => if owner.innerPath = "" then b.path else b.path ++ "/" ++ owner.innerPath

/-- `OverlayRoute`. -/
structure OverlayRoute where
  ownerId : String
  isParent : Bool
  overlay : OverlayPaths
  innerPath : String

/-- `route_path(parent_manifest, rel_path, overlays_root)`. -/
def routePath (parent : ChildManifest) (relPath : String) (overlaysRoot : Path) : OverlayRoute :=
  let owner := resolveOwnerPath parent.childBoundaries relPath parent.id
  { ownerId := owner.ownerId
    isParent := owner.boundary.isNone
    overlay := OverlayPaths.forChild overlaysRoot owner.ownerId
    innerPath := owner.innerPath }

/-- What is returned for a path of given components. -/
structure Resolved (boundaries : List ChildBoundary) (names : Path) (parentId : String)
    (owner : OwningBoundary) : Prop where
  boundary : ∀ b, owner.boundary = some b ↔ OwnerOf boundaries names b
  parent : owner.boundary = none ↔ ∀ b ∈ boundaries, ¬components b.path <+: names
  id : owner.ownerId = (owner.boundary.map ChildBoundary.childId).getD parentId
  cleaned : owner.relativePath = pathText names
  joined : rejoined owner = owner.relativePath

section

variable {boundaries boundaries' : List ChildBoundary} {relPath other parentId : String}
  {names : Path} {b e : ChildBoundary}

theorem rejoined_of_parent {owner : OwningBoundary} (h : owner.boundary = none) :
    rejoined owner = owner.innerPath := by
  rw [rejoined, h]

theorem rejoined_of_boundary {owner : OwningBoundary} (h : owner.boundary = some b) :
    rejoined owner =
      if owner.innerPath = "" then b.path else b.path ++ "/" ++ owner.innerPath := by
  rw [rejoined, h]

theorem OwnerOf.unique (hok : BoundariesClean boundaries) (hb : OwnerOf boundaries names b)
    (he : OwnerOf boundaries names e) : b = e := by
  have hle := hb.longest e he.mem he.above
  have hge := he.longest b hb.mem hb.above
  have hsame : components b.path = components e.path :=
    (List.prefix_of_prefix_length_le hb.above he.above hge).eq_of_length (by omega)
  have hpath : b.path = e.path := by
    rw [(hok.clean b hb.mem).text_eq, (hok.clean e he.mem).text_eq, hsame]
  exact List.inj_on_of_nodup_map hok.distinct hb.mem he.mem hpath

theorem longestPrefix_clean (hok : BoundariesClean boundaries) (clean : String) :
    longestPrefix boundaries clean =
      Lib.longest (fun b : ChildBoundary => b.path.toList.length) (fun b => covers b.path clean)
        boundaries := by
  rw [longestPrefix, Lib.foldl_longer]
  refine Lib.longest_congr (fun b hb => ?_) fun b hb => ?_
  · rw [(hok.clean b hb).strip]
  · rw [(hok.clean b hb).strip, decide_eq_true (hok.clean b hb).ne_empty, Bool.true_and]

/-- **The scan over texts** finds the longest prefix in components, and nothing else. -/
theorem longestPrefix_components (hok : BoundariesClean boundaries)
    (hne : components relPath ≠ []) :
    longestPrefix boundaries (pathText (components relPath)) = some b ↔
      OwnerOf boundaries (components relPath) b := by
  rw [longestPrefix_clean hok, Lib.longest_eq_some_iff]
  · constructor
    · rintro ⟨hb, habove, hlongest⟩
      have hpre := ((hok.clean b hb).covers_iff hne).mp habove
      refine ⟨hb, hpre, fun e he hepre => ?_⟩
      have hle := hlongest e he (((hok.clean e he).covers_iff hne).mpr hepre)
      exact ((hok.clean e he).length_le_iff (hok.clean b hb) hepre hpre).mp hle
    · intro h
      refine ⟨h.mem, ((hok.clean b h.mem).covers_iff hne).mpr h.above, fun e he hcovers => ?_⟩
      have hepre := ((hok.clean e he).covers_iff hne).mp hcovers
      exact ((hok.clean e he).length_le_iff (hok.clean b h.mem) hepre h.above).mpr
        (h.longest e he hepre)
  · intro x hx y hy hcover hcover' hlen
    have hpath := covers_unique hcover hcover' hlen
    exact List.inj_on_of_nodup_map hok.distinct hx hy hpath

theorem longestPrefix_none (hok : BoundariesClean boundaries) (hne : components relPath ≠ []) :
    longestPrefix boundaries (pathText (components relPath)) = none ↔
      ∀ b ∈ boundaries, ¬components b.path <+: components relPath := by
  rw [longestPrefix_clean hok, Lib.longest_eq_none_iff]
  refine forall₂_congr fun b hb => ?_
  rw [← (hok.clean b hb).covers_iff hne, Bool.not_eq_true]

/-- **The owner of a path** with a component. -/
theorem resolved (hok : BoundariesClean boundaries) (hne : components relPath ≠ []) :
    Resolved boundaries (components relPath) parentId
      (resolveOwnerPath boundaries relPath parentId) := by
  have hsome := fun b => longestPrefix_components (b := b) hok hne
  have hnone := longestPrefix_none hok hne
  rw [resolveOwnerPath, normalizeText_eq hne]
  cases hfound : longestPrefix boundaries (pathText (components relPath)) with
  | none =>
    rw [hfound] at hsome hnone
    exact ⟨hsome, hnone, rfl, rfl, rejoined_of_parent rfl⟩
  | some best =>
    rw [hfound] at hsome hnone
    have howner := (hsome best).mp rfl
    have hclean := hok.clean best howner.mem
    obtain ⟨rest, hrest⟩ := howner.above
    have hclean' : ∀ n ∈ rest, CleanName n := fun n hn =>
      components_clean relPath n (hrest ▸ List.mem_append_right _ hn)
    -- the path in the boundary is the text of the components that follow
    have hinner : innerText (stripSlashes best.path) (pathText (components relPath)) =
        pathText rest := by
      rw [hclean.strip, ← hrest]
      conv_lhs => rw [hclean.text_eq, components_pathText (components_clean best.path)]
      exact innerText_plain hclean.components_ne_nil (plain_of_clean hclean')
    have hjoined : (if pathText rest = "" then best.path else best.path ++ "/" ++ pathText rest) =
        pathText (components relPath) := by
      by_cases hnil : rest = []
      · rw [← hrest, hnil, List.append_nil]
        exact hclean.text_eq
      · rw [if_neg (pathText_ne_empty (plain_of_clean hclean') hnil), ← hrest,
          pathText_append hclean.components_ne_nil hnil, ← hclean.text_eq]
    dsimp only
    rw [hinner]
    exact ⟨hsome, hnone, rfl, rfl, (rejoined_of_boundary rfl).trans hjoined⟩

/-- The order of the boundaries does not matter. -/
theorem longestPrefix_perm (hok : BoundariesClean boundaries) (hne : components relPath ≠ [])
    (hperm : boundaries'.Perm boundaries) :
    longestPrefix boundaries' (pathText (components relPath)) =
      longestPrefix boundaries (pathText (components relPath)) := by
  have hok' : BoundariesClean boundaries' :=
    ⟨fun b hb => hok.clean b (hperm.mem_iff.mp hb),
      ((hperm.map ChildBoundary.path).nodup_iff).mpr hok.distinct⟩
  have howner : ∀ b, OwnerOf boundaries' (components relPath) b ↔
      OwnerOf boundaries (components relPath) b := by
    intro b
    constructor
    · exact fun h => ⟨hperm.mem_iff.mp h.mem, h.above,
        fun e he => h.longest e (hperm.mem_iff.mpr he)⟩
    · exact fun h => ⟨hperm.mem_iff.mpr h.mem, h.above,
        fun e he => h.longest e (hperm.mem_iff.mp he)⟩
  refine Option.ext fun b => ?_
  rw [longestPrefix_components hok' hne, longestPrefix_components hok hne, howner]

/-- **Every path has one owner.** For boundaries of distinct clean paths and any path string with a
    component: the owner is the boundary whose components are the longest prefix, or the parent
    where none is one; the order of the boundaries does not matter, nor do slashes and dots in
    the string; and a write goes to the owner's overlay. -/
theorem resolveOwnerPath_spec (boundaries : List ChildBoundary) (relPath parentId : String)
    (hok : BoundariesClean boundaries) (hne : components relPath ≠ []) :
    (Resolved boundaries (components relPath) parentId
        (resolveOwnerPath boundaries relPath parentId) ∧
      ∀ b e, OwnerOf boundaries (components relPath) b →
        OwnerOf boundaries (components relPath) e → b = e) ∧
    (∀ boundaries' : List ChildBoundary, boundaries'.Perm boundaries →
      resolveOwnerPath boundaries' relPath parentId =
        resolveOwnerPath boundaries relPath parentId) ∧
    (∀ other, Relation.EqvGen Respelling other relPath →
      resolveOwnerPath boundaries other parentId =
        resolveOwnerPath boundaries relPath parentId) ∧
    ∀ (parent : ChildManifest) (root : Path), parent.childBoundaries = boundaries →
      parent.id = parentId →
      routePath parent relPath root =
        { ownerId := (resolveOwnerPath boundaries relPath parentId).ownerId
          isParent := (resolveOwnerPath boundaries relPath parentId).boundary.isNone
          overlay := OverlayPaths.forChild root
            (resolveOwnerPath boundaries relPath parentId).ownerId
          innerPath := (resolveOwnerPath boundaries relPath parentId).innerPath } ∧
      ∀ id, id ≠ "" → (resolveOwnerPath boundaries relPath parentId).ownerId ≠ "" →
        (OverlayPaths.forChild root id).root = (routePath parent relPath root).overlay.root →
        id = (resolveOwnerPath boundaries relPath parentId).ownerId := by
  refine ⟨⟨resolved hok hne, fun b e hb he => hb.unique hok he⟩, fun boundaries' hperm => ?_,
    fun other hother => ?_, ?_⟩
  · rw [resolveOwnerPath, resolveOwnerPath, normalizeText_eq hne, longestPrefix_perm hok hne hperm]
  · have hsame := components_of_respelled hother
    have hne' : components other ≠ [] := by rwa [hsame]
    rw [resolveOwnerPath, resolveOwnerPath, normalizeText_eq hne, normalizeText_eq hne', hsame]
  · rintro parent root rfl rfl
    refine ⟨rfl, fun id hid howner hroot => ?_⟩
    have hname : safeNamespaceName id = safeNamespaceName
        (resolveOwnerPath parent.childBoundaries relPath parent.id).ownerId := by
      simpa [routePath, OverlayPaths.forChild] using hroot
    exact safeNamespaceName_inj hid howner hname

/-- A nested boundary and a sibling that shares a string prefix, under a path with slashes and
    dots too many. -/
theorem resolveOwnerPath_spec_witness :
    (resolveOwnerPath [⟨"conda", "c", "lazy", "explicit"⟩,
        ⟨"conda/env-a", "c-a", "lazy", "explicit"⟩, ⟨"conda/env", "c-e", "lazy", "explicit"⟩]
        "//conda/./env-a/bin/" "root").ownerId = "c-a" ∧
      (resolveOwnerPath [⟨"conda", "c", "lazy", "explicit"⟩,
        ⟨"conda/env-a", "c-a", "lazy", "explicit"⟩, ⟨"conda/env", "c-e", "lazy", "explicit"⟩]
        "//conda/./env-a/bin/" "root").relativePath = "conda/env-a/bin" := by
  have hname : ∀ n ∈ ["conda", "env-a", "env"], CleanName n := by
    intro n hn
    refine ⟨?_, ?_, ?_⟩ <;> revert n <;> decide +kernel
  have hclean : ∀ text ∈ ["conda", "conda/env-a", "conda/env"], CleanPath text := by
    intro text htext
    simp only [List.mem_cons, List.not_mem_nil, or_false] at htext
    rcases htext with rfl | rfl | rfl
    · exact ⟨["conda"], by simp, fun n hn => hname n (by simp_all), by decide +kernel⟩
    · exact ⟨["conda", "env-a"], by simp, fun n hn => hname n (by grind), by decide +kernel⟩
    · exact ⟨["conda", "env"], by simp, fun n hn => hname n (by grind), by decide +kernel⟩
  have hok : BoundariesClean [⟨"conda", "c", "lazy", "explicit"⟩,
      ⟨"conda/env-a", "c-a", "lazy", "explicit"⟩, ⟨"conda/env", "c-e", "lazy", "explicit"⟩] :=
    ⟨fun b hb => hclean b.path (by simpa using List.mem_map_of_mem (f := ChildBoundary.path) hb),
      by decide⟩
  obtain ⟨⟨hresolved, -⟩, -⟩ := resolveOwnerPath_spec _ "//conda/./env-a/bin/" "root" hok
    (by decide +kernel)
  refine ⟨by decide +kernel, hresolved.cleaned.trans (by decide +kernel)⟩

end

end CccStorage.OwnerPaths
