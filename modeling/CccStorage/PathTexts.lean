/-
  File:      CccStorage/PathTexts.lean
  Subject:   Relative paths as texts, as `core/resolve.py` and `core/observe.py` compare them.

  * `PathName`, `NormalPath` -- a component; a text of components with no empty one, `.` or `..`;
  * `covers` -- `path == prefix or path.startswith(prefix + "/")`;
  * `innerText` -- `path[len(prefix):].lstrip("/")`;
  * `NormalPath.strip`, `NormalPath.normalize`, `covers_pathText`, `innerText_pathText`.
-/
import CccStorage.Cold
import CccStorage.Tree
import CccStorage.Lib.Joined

namespace CccStorage

/-- One component of a normal path. -/
structure PathName (name : String) : Prop where
  nonempty : name ≠ ""
  dot : name ≠ "."
  dotDot : name ≠ ".."
  slash : '/' ∉ name.toList

/-- The text of components. -/
def pathText (names : Path) : String := "/".intercalate names

/-- A relative path without an empty component, `.` or `..`. -/
def NormalPath (text : String) : Prop :=
  ∃ names : Path, names ≠ [] ∧ (∀ n ∈ names, PathName n) ∧ text = pathText names

/-- `path == prefix or path.startswith(prefix + "/")`. -/
def covers (pre path : String) : Bool :=
  path = pre || (pre.toList ++ ['/']).isPrefixOf path.toList

/-- `path[len(prefix):].lstrip("/")`. -/
def innerText (pre path : String) : String :=
  String.ofList ((path.toList.drop pre.toList.length).dropWhile (· == '/'))

/-- `str(PurePosixPath(rel_path)).lstrip("/")`: the components that are neither empty nor `.`, or
    `.` for a relative path without one. -/
def normalizeText (path : String) : String :=
  let parts := (path.toList.splitOn '/').filter fun part => part ≠ [] ∧ part ≠ ['.']
  if parts = [] ∧ path.toList.head? ≠ some '/' then "."
  else String.ofList (Lib.joined '/' parts)

theorem toList_pathText (names : Path) :
    (pathText names).toList = Lib.joined '/' (names.map String.toList) := by
  rw [pathText, String.toList_intercalate]
  rfl

section

variable {a b names : Path} {text pre : String}

theorem plain_of_names (h : ∀ n ∈ names, PathName n) : Lib.Plain '/' (names.map String.toList) := by
  intro l hl
  obtain ⟨n, hn, rfl⟩ := List.mem_map.mp hl
  exact ⟨fun hnil => (h n hn).nonempty (String.toList_eq_nil_iff.mp hnil), (h n hn).slash⟩

theorem pathText_inj (ha : ∀ n ∈ a, PathName n) (hb : ∀ n ∈ b, PathName n) (ha' : a ≠ [])
    (hb' : b ≠ []) (h : pathText a = pathText b) : a = b := by
  have hlist : (pathText a).toList = (pathText b).toList := by rw [h]
  rw [toList_pathText, toList_pathText] at hlist
  have hmap := Lib.joined_inj (plain_of_names ha) (plain_of_names hb) (by simpa using ha')
    (by simpa using hb') hlist
  exact List.map_injective_iff.mpr (fun _ _ => String.toList_injective) hmap

theorem pathText_append (ha : a ≠ []) (hb : b ≠ []) :
    pathText (a ++ b) = pathText a ++ "/" ++ pathText b := by
  rw [← String.toList_inj, toList_pathText, List.map_append,
    Lib.joined_append (by simpa using ha) (by simpa using hb)]
  simp [toList_pathText]

/-- A path covers another one exactly when its components begin the other's. -/
theorem covers_plain (ha : Lib.Plain '/' (a.map String.toList))
    (hb : Lib.Plain '/' (b.map String.toList)) (ha' : a ≠ []) (hb' : b ≠ []) :
    covers (pathText a) (pathText b) = true ↔ a <+: b := by
  rw [covers, Bool.or_eq_true, decide_eq_true_iff, List.isPrefixOf_iff_prefix, ← String.toList_inj,
    toList_pathText, toList_pathText,
    Lib.covers_iff ha hb (by simpa using ha') (by simpa using hb')]
  exact List.prefix_map_iff_of_injective fun _ _ => String.toList_injective

theorem covers_pathText (ha : ∀ n ∈ a, PathName n) (hb : ∀ n ∈ b, PathName n) (ha' : a ≠ [])
    (hb' : b ≠ []) : covers (pathText a) (pathText b) = true ↔ a <+: b :=
  covers_plain (plain_of_names ha) (plain_of_names hb) ha' hb'

theorem innerText_plain (ha' : a ≠ []) (hb : Lib.Plain '/' (b.map String.toList)) :
    innerText (pathText a) (pathText (a ++ b)) = pathText b := by
  rw [innerText, toList_pathText, toList_pathText, List.map_append,
    Lib.joined_rest (by simpa using ha') hb, ← toList_pathText, String.ofList_toList]

theorem innerText_pathText (ha' : a ≠ []) (hb : ∀ n ∈ b, PathName n) :
    innerText (pathText a) (pathText (a ++ b)) = pathText b :=
  innerText_plain ha' (plain_of_names hb)

/-- Nothing is stripped from the text of components. -/
theorem strip_plain (hnames : Lib.Plain '/' (names.map String.toList)) (hne : names ≠ []) :
    stripSlashes (pathText names) = pathText names := by
  have hdrop : ∀ l : List Char, l.head? ≠ some '/' → l.dropWhile (· == '/') = l := by
    intro l hl
    cases l with
    | nil => rfl
    | cons c cs =>
      refine List.dropWhile_cons_of_neg fun hc => hl ?_
      rw [eq_of_beq hc, List.head?_cons]
  obtain ⟨hhead, hlast⟩ := Lib.joined_ends hnames (by simpa using hne)
  rw [← toList_pathText] at hhead hlast
  rw [stripSlashes, hdrop _ hhead, hdrop _ (by rw [List.head?_reverse]; exact hlast),
    List.reverse_reverse, String.ofList_toList]

theorem pathText_ne_empty (hnames : Lib.Plain '/' (names.map String.toList)) (hne : names ≠ []) :
    pathText names ≠ "" := by
  intro hempty
  have hnil := String.toList_eq_nil_iff.mpr hempty
  rw [toList_pathText] at hnil
  exact Lib.joined_ne_nil hnames (by simpa using hne) hnil

namespace NormalPath

theorem ends (h : NormalPath text) :
    text.toList.head? ≠ some '/' ∧ text.toList.getLast? ≠ some '/' := by
  obtain ⟨names, hne, hnames, rfl⟩ := h
  rw [toList_pathText]
  exact Lib.joined_ends (plain_of_names hnames) (by simpa using hne)

theorem ne_empty (h : NormalPath text) : text ≠ "" := by
  obtain ⟨names, hne, hnames, rfl⟩ := h
  exact pathText_ne_empty (plain_of_names hnames) hne

/-- Nothing is stripped from a normal path. -/
theorem strip (h : NormalPath text) : stripSlashes text = text := by
  obtain ⟨names, hne, hnames, rfl⟩ := h
  exact strip_plain (plain_of_names hnames) hne

theorem splitOn (hne : names ≠ []) (hnames : ∀ n ∈ names, PathName n) :
    (pathText names).toList.splitOn '/' = names.map String.toList := by
  rw [toList_pathText]
  exact Lib.splitOn_joined (plain_of_names hnames) (by simpa using hne)

/-- A normal path is what `PurePosixPath` makes of it. -/
theorem normalize (h : NormalPath text) : normalizeText text = text := by
  obtain ⟨names, hne, hnames, rfl⟩ := h
  have hfilter : ((pathText names).toList.splitOn '/').filter
      (fun part => part ≠ [] ∧ part ≠ ['.']) = names.map String.toList := by
    rw [splitOn hne hnames, List.filter_eq_self]
    intro part hpart
    obtain ⟨n, hn, rfl⟩ := List.mem_map.mp hpart
    refine decide_eq_true ⟨fun hnil => (hnames n hn).nonempty (String.toList_eq_nil_iff.mp hnil),
      fun hdot => (hnames n hn).dot ?_⟩
    rw [← String.toList_inj, hdot]
    rfl
  rw [normalizeText, hfilter, if_neg (by simp [hne]), ← toList_pathText, String.ofList_toList]

end NormalPath

theorem prefix_of_covers {path : String} (h : covers pre path = true) :
    pre.toList <+: path.toList := by
  rw [covers, Bool.or_eq_true, decide_eq_true_iff, List.isPrefixOf_iff_prefix] at h
  rcases h with rfl | h
  · exact List.prefix_rfl
  · exact (List.prefix_append _ _).trans h

/-- Two texts of one length that cover the same path are the same. -/
theorem covers_unique {pre' path : String} (h : covers pre path = true)
    (h' : covers pre' path = true) (hlen : pre.toList.length = pre'.toList.length) :
    pre = pre' := by
  rw [← String.toList_inj]
  exact (List.prefix_of_prefix_length_le (prefix_of_covers h) (prefix_of_covers h')
    hlen.le).eq_of_length hlen

theorem covers_self (path : String) : covers path path = true := by
  rw [covers, decide_eq_true rfl, Bool.true_or]

/-- Of two texts that cover a path, the longer one is covered by the other. -/
theorem covers_of_length {pre' path : String} (h : covers pre path = true)
    (h' : covers pre' path = true) (hlen : pre.toList.length ≤ pre'.toList.length) :
    covers pre pre' = true := by
  rcases Nat.eq_or_lt_of_le hlen with heq | hlt
  · rw [covers_unique h h' heq]
    exact covers_self pre'
  · have hbelow := prefix_of_covers h'
    rw [covers, Bool.or_eq_true, decide_eq_true_iff, List.isPrefixOf_iff_prefix] at h ⊢
    rcases h with rfl | h
    · exact absurd hbelow.length_le (Nat.not_le.mpr hlt)
    · refine .inr (List.prefix_of_prefix_length_le h hbelow ?_)
      rw [List.length_append, List.length_singleton]
      omega

end

end CccStorage
