/-
  File:      CccStorage/Tree.lean
  Subject:   Directory trees, the reserved names of overlay layers, and what a pack stack shows.

  * `Entry`, `Tree` -- entries by path; `Tree.set`, `Tree.removeTree`, `Tree.below` and what they
    do to every path;
  * `isMark`, `whName`, `opqName`, `whTarget` -- the `.wh.` names;
  * `overlayRules`, `view` -- the overlay of a stack, oldest layer first, over `Lib.Rules`;
  * `LayerTree` -- a tree whose entries are all in directories of the tree;
  * `PackTree` -- a pack made of directories, regular files and marks only, every entry in a
    directory of the pack and every whiteout mark naming an entry.
-/
import CccStorage.Cold
import CccStorage.Lib.Overlay

namespace CccStorage

/-! ## 1. Entries and trees -/

/-- A path by its components. -/
abbrev Path := List String

/-- The text of a symlink, split at its slashes; empty and `.` components are left out. -/
structure LinkTarget where
  absolute : Bool
  parts : List String
  deriving DecidableEq, Repr

inductive Entry where
  | dir
  | file (content : Bytes)
  | symlink (target : LinkTarget)
  /-- The 0/0 character device by which kernel OverlayFS records a deletion. -/
  | whiteout
  /-- A FIFO, a socket or any other device. -/
  | special
  deriving DecidableEq, Repr

structure Tree where
  nodes : List (Path × Entry)
  deriving DecidableEq, Repr

namespace Tree

/-- The entry at a path; the root is a directory. -/
def get (t : Tree) (p : Path) : Option Entry := if p = [] then some .dir else t.nodes.lookup p

def set (t : Tree) (p : Path) (e : Entry) : Tree := ⟨(p, e) :: t.nodes.filter fun x => x.1 ≠ p⟩

/-- Remove the entry at `p` and everything below it. -/
def removeTree (t : Tree) (p : Path) : Tree := ⟨t.nodes.filter fun x => !p.isPrefixOf x.1⟩

/-- The paths below `p`, relative to it. -/
def below (t : Tree) (p : Path) : List Path :=
  (t.nodes.filter fun x => p.isPrefixOf x.1 && x.1 ≠ p).map fun x => x.1.drop p.length

/-- Filtering by the key filters what a lookup finds. -/
theorem lookup_filter {α β : Type*} [BEq α] [LawfulBEq α] (f : α → Bool) (l : List (α × β))
    (k : α) : (l.filter fun x => f x.1).lookup k = if f k then l.lookup k else none := by
  induction l with
  | nil => rw [List.filter_nil, List.lookup_nil, ite_self]
  | cons x l ih =>
      obtain ⟨a, b⟩ := x
      rw [List.filter_cons]
      by_cases hk : k = a
      · subst hk
        cases hf : f k with
        | true => rw [if_pos rfl, if_pos rfl, List.lookup_cons_self, List.lookup_cons_self]
        | false =>
            rw [if_neg Bool.false_ne_true, if_neg Bool.false_ne_true, ih, hf]
            rfl
      · have hb : (k == a) = false := beq_eq_false_iff_ne.mpr hk
        have hskip : ((a, b) :: l).lookup k = l.lookup k := by rw [List.lookup_cons, hb]
        rw [hskip, ← ih]
        cases hf : f a with
        | true => rw [if_pos rfl, List.lookup_cons, hb]
        | false => rw [if_neg Bool.false_ne_true]

/-- A key is found exactly when it is listed. -/
theorem lookup_ne_none {α β : Type*} [BEq α] [LawfulBEq α] {l : List (α × β)} {k : α} :
    l.lookup k ≠ none ↔ k ∈ l.map (·.1) := by
  rw [ne_eq, List.lookup_eq_none_iff, not_forall]
  constructor
  · rintro ⟨x, hx⟩
    rw [Classical.not_imp] at hx
    obtain ⟨hx, hk⟩ := hx
    rw [bne_iff_ne, ne_eq, not_not] at hk
    exact hk ▸ List.mem_map_of_mem hx
  · intro h
    obtain ⟨x, hx, rfl⟩ := List.mem_map.mp h
    exact ⟨x, fun h => by simpa using h hx⟩

variable {t : Tree} {p q : Path} {e : Entry}

@[simp] theorem get_nil : t.get [] = some .dir := rfl

theorem get_of_ne (h : p ≠ []) : t.get p = t.nodes.lookup p := if_neg h

theorem lookup_set :
    (t.set p e).nodes.lookup q = if q = p then some e else t.nodes.lookup q := by
  show ((p, e) :: t.nodes.filter fun x => x.1 ≠ p).lookup q = _
  rw [List.lookup_cons]
  by_cases hqp : q = p
  · rw [hqp, beq_self_eq_true, if_pos rfl]
  · rw [beq_eq_false_iff_ne.mpr hqp, if_neg hqp, lookup_filter (fun a => decide (a ≠ p)),
      decide_eq_true hqp, if_pos rfl]

theorem get_set (hp : p ≠ []) : (t.set p e).get q = if q = p then some e else t.get q := by
  unfold get
  by_cases hq : q = []
  · subst hq
    rw [if_pos rfl, if_neg hp.symm, if_pos rfl]
  · rw [if_neg hq, if_neg hq, lookup_set]

theorem get_removeTree (hp : p ≠ []) :
    (t.removeTree p).get q = if p <+: q then none else t.get q := by
  unfold get removeTree
  by_cases hq : q = []
  · subst hq
    rw [if_pos rfl, if_neg (by rwa [List.prefix_nil]), if_pos rfl]
  · rw [if_neg hq, if_neg hq, lookup_filter (fun a => !p.isPrefixOf a)]
    by_cases hpq : p <+: q
    · simp [hpq]
    · simp [hpq]

theorem get_mem (hp : p ≠ []) (h : t.get p = some e) : (p, e) ∈ t.nodes := by
  rw [get_of_ne hp] at h
  obtain ⟨l₁, l₂, hl, -⟩ := List.lookup_eq_some_iff.mp h
  rw [hl]
  exact List.mem_append_right _ List.mem_cons_self

theorem mem_below {r : Path} : r ∈ t.below p ↔ r ≠ [] ∧ t.get (p ++ r) ≠ none := by
  unfold below
  rw [List.mem_map]
  constructor
  · rintro ⟨x, hx, rfl⟩
    rw [List.mem_filter, Bool.and_eq_true, List.isPrefixOf_iff_prefix, decide_eq_true_eq] at hx
    obtain ⟨hx, ⟨s, hs⟩, hne⟩ := hx
    rw [← hs, List.drop_left]
    have hs0 : s ≠ [] := by
      rintro rfl
      exact hne (by rw [← hs, List.append_nil])
    refine ⟨hs0, ?_⟩
    rw [get_of_ne (by simp [hs0]), lookup_ne_none, hs]
    exact List.mem_map_of_mem hx
  · rintro ⟨hr, hget⟩
    rw [get_of_ne (by simp [hr]), lookup_ne_none] at hget
    obtain ⟨x, hx, hk⟩ := List.mem_map.mp hget
    refine ⟨x, ?_, by rw [hk, List.drop_left]⟩
    rw [List.mem_filter, Bool.and_eq_true, List.isPrefixOf_iff_prefix, decide_eq_true_eq, hk]
    exact ⟨hx, List.prefix_append p r, by simp [hr]⟩

end Tree

/-! ## 2. Marks and views -/

/-- `name.startswith(".wh.")`. -/
def isMark (name : String) : Bool := ".wh.".toList.isPrefixOf name.toList

def whName (name : String) : String := ".wh." ++ name

def opqName : String := ".wh..wh..opq"

/-- `name[len(".wh."):]`. -/
def whTarget (name : String) : String := String.ofList (name.toList.drop 4)

@[simp] theorem isMark_whName (n : String) : isMark (whName n) = true := by
  unfold isMark whName
  rw [String.toList_append]
  simp

@[simp] theorem isMark_opqName : isMark opqName = true := by decide

theorem whName_whTarget {n : String} (h : isMark n = true) : whName (whTarget n) = n := by
  unfold isMark at h
  obtain ⟨r, hr⟩ := List.isPrefixOf_iff_prefix.mp h
  unfold whName whTarget
  rw [← String.toList_inj, String.toList_append, String.toList_ofList, ← hr]
  have hlen : ".wh.".toList.length = 4 := rfl
  rw [← hlen, List.drop_left, String.toList_ofList]
  rfl

theorem whName_inj {m n : String} (h : whName m = whName n) : m = n := by
  unfold whName at h
  rw [← String.toList_inj, String.toList_append, String.toList_append] at h
  exact String.toList_inj.mp (List.append_cancel_left h)

theorem whTarget_whName (n : String) : whTarget (whName n) = n :=
  whName_inj (whName_whTarget (isMark_whName n))

abbrev Layer := Lib.Layer String Entry

/-- Not a directory. -/
def Entry.isLeaf (e : Entry) : Bool := e ≠ .dir

/-- A deletion record is not seen, neither a device nor a mark. -/
def shownEntry (name : String) (e : Entry) : Bool := e ≠ .whiteout && (e = .dir || !isMark name)

/-- The overlay of OverlayFS and fuse-overlayfs. -/
def overlayRules : Lib.Rules String Entry where
  opq := opqName
  wh := whName
  leaf := Entry.isLeaf
  shown := shownEntry

/-- **What a stack shows**, oldest layer first. -/
def view (layers : List Layer) : Layer := overlayRules.view layers

/-- Every entry is in a directory. -/
def DirClosed (X : Layer) : Prop := ∀ d n, X (d ++ [n]) ≠ none → X d = some .dir

/-- Every proper prefix of an entry is a directory. -/
theorem DirClosed.above {X : Layer} {d p : Path} (h : DirClosed X) (hp : X p ≠ none)
    (hd : d <+: p) (hne : d ≠ p) : X d = some .dir := by
  obtain ⟨r, rfl⟩ := hd
  induction r using List.reverseRecOn with
  | nil => exact absurd (List.append_nil d).symm hne
  | append_singleton r n ih =>
      rw [← List.append_assoc] at hp
      have hpar := h _ _ hp
      by_cases hr : r = []
      · rwa [hr, List.append_nil] at hpar
      · refine ih ?_ (by simpa using hr)
        rw [hpar]
        exact Option.some_ne_none _

/-- Nothing is below a path that is no directory. -/
theorem DirClosed.none_below {X : Layer} {d p : Path} (h : DirClosed X) (hd : d <+: p)
    (hne : d ≠ p) (hX : X d ≠ some .dir) : X p = none := by
  by_contra hp
  exact hX (h.above hp hd hne)

/-- **A layer tree**: every entry is in a directory of the tree. -/
structure LayerTree extends Tree where
  ok : ∀ x ∈ nodes, x.1 ≠ [] ∧ toTree.get x.1.dropLast = some .dir

namespace LayerTree

theorem closed (t : LayerTree) : overlayRules.Closed t.get := by
  intro d n hne
  rw [Tree.get_of_ne (by simp), Tree.lookup_ne_none] at hne
  obtain ⟨x, hx, hk⟩ := List.mem_map.mp hne
  have hpar := (t.ok x hx).2
  rw [hk, List.dropLast_concat] at hpar
  exact .inr ⟨.dir, hpar, rfl⟩

end LayerTree

/-- A name an entry may have that is not a mark. -/
def IsPlain (name : String) : Prop :=
  name ≠ "" ∧ name ≠ "." ∧ name ≠ ".." ∧ isMark name = false

instance (name : String) : Decidable (IsPlain name) :=
  inferInstanceAs (Decidable (_ ∧ _ ∧ _ ∧ _))

/-- A name as pack trees have it: plain, or a mark that is no directory. -/
def NameOk (name : String) (e : Entry) : Prop :=
  IsPlain name ∨
    isMark name = true ∧ e ≠ .dir ∧ (name = opqName ∨ IsPlain (whTarget name))

instance (name : String) (e : Entry) : Decidable (NameOk name e) :=
  inferInstanceAs (Decidable (_ ∨ _))

/-- What a pack tree promises of one of its entries. -/
structure NodeOk (t : Tree) (p : Path) (e : Entry) : Prop where
  nonempty : p ≠ []
  parent : t.get p.dropLast = some .dir
  kind : e = .dir ∨ ∃ b, e = .file b
  name : ∀ n, p.getLast? = some n → NameOk n e

def Entry.isPlain : Entry → Bool
  | .dir | .file _ => true
  | .symlink _ | .whiteout | .special => false

instance (t : Tree) (p : Path) (e : Entry) : Decidable (NodeOk t p e) :=
  decidable_of_iff (p ≠ [] ∧ t.get p.dropLast = some .dir ∧ e.isPlain = true ∧
      ∀ n ∈ p.getLast?, NameOk n e) <| by
    have hkind : e.isPlain = true ↔ e = .dir ∨ ∃ b, e = .file b := by
      cases e <;> simp [Entry.isPlain]
    rw [hkind]
    exact ⟨fun h => ⟨h.1, h.2.1, h.2.2.1, h.2.2.2⟩, fun h => ⟨h.1, h.2, h.3, h.4⟩⟩

/-- **A pack tree**: directories, regular files and marks. -/
structure PackTree extends Tree where
  nodup : (nodes.map (·.1)).Nodup
  ok : ∀ x ∈ nodes, NodeOk toTree x.1 x.2

namespace PackTree

variable {t : PackTree} {d p : Path} {n : String} {e : Entry}

theorem nodeOk (hp : p ≠ []) (h : t.get p = some e) : NodeOk t.toTree p e := by
  rw [Tree.get_of_ne hp] at h
  obtain ⟨l₁, l₂, hl, -⟩ := List.lookup_eq_some_iff.mp h
  exact t.ok (p, e) (hl ▸ List.mem_append_right _ List.mem_cons_self)

/-- Every entry is in a directory of the pack. -/
theorem parent (h : t.get (d ++ [n]) = some e) : t.get d = some .dir := by
  have hok := (nodeOk (by simp) h).parent
  rwa [List.dropLast_concat] at hok

theorem kind (h : t.get p = some e) : e = .dir ∨ ∃ b, e = .file b := by
  by_cases hp : p = []
  · subst hp
    cases h
    exact .inl rfl
  · exact (nodeOk hp h).kind

theorem name (h : t.get (d ++ [n]) = some e) : NameOk n e :=
  (nodeOk (by simp) h).name n (by simp)

/-- Directories have plain names. -/
theorem plain_of_dir (h : t.get (d ++ [n]) = some .dir) : IsPlain n :=
  (name h).resolve_right fun h => h.2.1 rfl

theorem dirClosed (t : PackTree) : DirClosed t.get := by
  intro d n hne
  obtain ⟨e, he⟩ := Option.ne_none_iff_exists'.mp hne
  exact parent he

end PackTree

end CccStorage
