/-
  File:      CccStorage/BundleExtract.lean
  Subject:   Extraction of files and hard links into an empty directory.

  * `EmptyDir` -- a directory with nothing in it, by the path that leads to it;
  * `Unpacked` -- what was put below the directory so far, newest first, and nothing else;
  * `NoClash` -- a path is at no file's path, and neither above nor below one;
  * `makeUpper_spec`, `extractFile_puts`, `extractLink_puts` -- a member is extracted exactly when
    its path does not clash with an earlier one's.
-/
import CccStorage.BundleConfined
import CccStorage.BundleMembers

namespace CccStorage

namespace Tree

variable {t : Tree} {p q : Path} {c : String}

theorem entryPath_of_dir (hp : t.realPath p = some q) (hq : t.get q = some .dir) (hc : c ≠ "..") :
    t.entryPath (p ++ [c]) = some (q ++ [c]) := by
  unfold entryPath
  rw [List.getLast?_concat, List.dropLast_concat]
  simp only
  rw [hp]
  simp only
  rw [if_pos hq, if_neg hc]

theorem entryPath_of_noDir (hp : t.realPath p = some q) (hq : t.get q ≠ some .dir) :
    t.entryPath (p ++ [c]) = none := by
  unfold entryPath
  rw [List.getLast?_concat, List.dropLast_concat]
  simp only
  rw [hp]
  exact if_neg hq

theorem exists_of_realPath (hp : t.realPath p = some q) (hq : t.get q ≠ none) :
    t.exists' p = true := by
  unfold exists' stat
  rw [hp, Option.bind_some]
  exact Option.isSome_iff_ne_none.mpr hq

theorem realPath_of_exists (h : t.exists' p = true) :
    ∃ q, t.realPath p = some q ∧ t.get q ≠ none := by
  unfold exists' stat at h
  cases hq : t.realPath p with
  | none =>
      rw [hq] at h
      cases h
  | some q =>
      rw [hq, Option.bind_some] at h
      exact ⟨q, rfl, Option.isSome_iff_ne_none.mp h⟩

end Tree

namespace Bundle

/-! ## 1. An empty directory, and what was put below it -/

/-- `dest` leads to the directory `root`, which is empty. -/
structure EmptyDir (fs : Tree) (dest root : Path) : Prop where
  real : fs.realPath dest = some root
  isDir : fs.get root = some .dir
  empty : ∀ r, r ≠ [] → fs.get (root ++ r) = none

/-- The files put below the directory, newest first, are what is below it. -/
structure Unpacked (t : Tree) (root : Path) (done : List (Path × Bytes)) (d : Disk) : Prop where
  kept : t.Extends d.fs
  files : ∀ p c, done.lookup p = some c → d.fs.get (root ++ p) = some (.file c)
  dirs : ∀ x ∈ done, ∀ r, r <+: x.1 → r ≠ x.1 → d.fs.get (root ++ r) = some .dir
  present : ∀ r, r ≠ [] → d.fs.get (root ++ r) ≠ none → ∃ x ∈ done, r <+: x.1
  fresh : ∀ x e, d.fs.get x = some e → e ≠ .dir → d.ino x < d.next

/-- No file is at, above or below `p` but at `p` itself. -/
def NoClash (done : List (Path × Bytes)) (p : Path) : Prop :=
  ∀ x ∈ done, (x.1 <+: p → x.1 = p) ∧ (p <+: x.1 → x.1 = p)

/-- The file at `p` has no other name. -/
def Sole (root p : Path) (d : Disk) : Prop :=
  ∀ x e, d.fs.get x = some e → e ≠ .dir → x ≠ root ++ p → d.ino x ≠ d.ino (root ++ p)

variable {t : Tree} {dest root up p r : Path} {base : String} {done : List (Path × Bytes)}
  {d d' : Disk} {c : Bytes}

theorem lookup_of_mem {x : Path × Bytes} (hx : x ∈ done) : ∃ c, done.lookup x.1 = some c :=
  Option.ne_none_iff_exists'.mp (Tree.lookup_ne_none.mpr (List.mem_map_of_mem hx))

theorem mem_of_lookup (h : done.lookup p = some c) : ∃ x ∈ done, x.1 = p := by
  have hne : done.lookup p ≠ none := h ▸ Option.some_ne_none c
  exact List.mem_map.mp (Tree.lookup_ne_none.mp hne)

namespace Unpacked

theorem real (h : Unpacked t root done d) (h0 : EmptyDir t dest root) :
    d.fs.realPath dest = some root := Tree.realPath_extends h.kept h0.real

theorem isDir (h : Unpacked t root done d) (h0 : EmptyDir t dest root) :
    d.fs.get root = some .dir := h.kept _ _ h0.isDir

theorem kind (h : Unpacked t root done d) (hr : r ≠ []) :
    d.fs.get (root ++ r) = none ∨ d.fs.get (root ++ r) = some .dir ∨
      ∃ c, done.lookup r = some c ∧ d.fs.get (root ++ r) = some (.file c) := by
  by_cases hnone : d.fs.get (root ++ r) = none
  · exact .inl hnone
  · obtain ⟨x, hx, hpre⟩ := h.present r hr hnone
    by_cases heq : r = x.1
    · obtain ⟨c, hc⟩ := lookup_of_mem hx
      rw [← heq] at hc
      exact .inr (.inr ⟨c, hc, h.files r c hc⟩)
    · exact .inr (.inl (h.dirs x hx r hpre heq))

theorem noLink (h : Unpacked t root done d) (h0 : EmptyDir t dest root) (r : Path)
    (target : LinkTarget) : d.fs.get (root ++ r) ≠ some (.symlink target) := by
  intro hlink
  by_cases hr : r = []
  · rw [hr, List.append_nil, h.isDir h0] at hlink
    cases hlink
  · rcases h.kind hr with hk | hk | ⟨c, -, hk⟩
    · rw [hk] at hlink
      cases hlink
    · rw [hk] at hlink
      cases hlink
    · rw [hk] at hlink
      cases hlink

/-- What is above an entry is a directory. -/
theorem above (h : Unpacked t root done d) {r' : Path} (hr : r <+: r') (hne : r ≠ r')
    (hpresent : d.fs.get (root ++ r') ≠ none) : d.fs.get (root ++ r) = some .dir := by
  have hr' : r' ≠ [] := by
    intro hnil
    rw [hnil, List.prefix_nil] at hr
    exact hne (hr.trans hnil.symm)
  obtain ⟨x, hx, hpre⟩ := h.present r' hr' hpresent
  refine h.dirs x hx r (hr.trans hpre) fun heq => ?_
  rw [← heq] at hpre
  exact hne (hr.eq_of_length_le hpre.length_le)

/-- Above a path that does not clash there are directories, or nothing. -/
theorem upper (h : Unpacked t root done d) (h0 : EmptyDir t dest root) (hclash : NoClash done p)
    (hr : r <+: p) (hne : r ≠ p) :
    d.fs.get (root ++ r) = none ∨ d.fs.get (root ++ r) = some .dir := by
  by_cases hnil : r = []
  · rw [hnil, List.append_nil]
    exact .inr (h.isDir h0)
  · rcases h.kind hnil with hk | hk | ⟨c, hc, -⟩
    · exact .inl hk
    · exact .inr hk
    · obtain ⟨x, hx, rfl⟩ := mem_of_lookup hc
      exact absurd ((hclash x hx).1 hr) hne

end Unpacked

/-- The directories down to `up` are there. -/
structure Ready (dest root up : Path) (fs : Tree) : Prop where
  real : fs.realPath dest = some root
  dirs : ∀ r, r <+: up → fs.get (root ++ r) = some .dir
  noDots : ".." ∉ up

namespace Ready

variable {fs : Tree}

theorem openBelow (h : Ready dest root up fs) (hb : base ≠ "..")
    (hlink : ∀ target, fs.get (root ++ (up ++ [base])) ≠ some (.symlink target)) :
    fs.openPath (dest ++ (up ++ [base])) = some (root ++ (up ++ [base])) := by
  have hroot : fs.get root = some .dir := by
    have hnil := h.dirs [] List.nil_prefix
    rwa [List.append_nil] at hnil
  refine Tree.openPath_onward hroot (fun follow => ?_) (Tree.openPath_of_realPath h.real)
  refine Tree.walkOpen_of_dirs (fun x hx hne => h.dirs x ?_) ?_ hlink
  · exact (List.prefix_concat_iff.mp hx).resolve_left hne
  · rw [List.mem_append, List.mem_singleton, not_or]
    exact ⟨h.noDots, fun h => hb h.symm⟩

theorem realBelow (h : Ready dest root up fs) : fs.realPath (dest ++ up) = some (root ++ up) := by
  have hroot : fs.get root = some .dir := by
    have hnil := h.dirs [] List.nil_prefix
    rwa [List.append_nil] at hnil
  have hup := h.dirs up List.prefix_rfl
  refine Tree.realPath_of_open (by rw [hup]; exact Option.some_ne_none _) ?_
  refine Tree.openPath_onward hroot (fun follow => ?_) (Tree.openPath_of_realPath h.real)
  refine Tree.walkOpen_of_dirs (fun x hx _ => h.dirs x hx) h.noDots fun target hlink => ?_
  rw [hup] at hlink
  cases hlink

theorem existsBelow (h : Ready dest root up fs) : fs.exists' (dest ++ up) = true :=
  Tree.exists_of_realPath h.realBelow
    (by rw [h.dirs up List.prefix_rfl]; exact Option.some_ne_none _)

theorem entryBelow (h : Ready dest root up fs) (hb : base ≠ "..") :
    fs.entryPath (dest ++ (up ++ [base])) = some (root ++ (up ++ [base])) := by
  rw [← List.append_assoc, ← List.append_assoc]
  exact Tree.entryPath_of_dir h.realBelow (h.dirs up List.prefix_rfl) hb

theorem presentBelow (h : Ready dest root up fs) (hb : base ≠ "..") {c : Bytes}
    (hfile : fs.get (root ++ (up ++ [base])) = some (.file c)) :
    fs.realPath (dest ++ (up ++ [base])) = some (root ++ (up ++ [base])) := by
  refine Tree.realPath_of_open (by rw [hfile]; exact Option.some_ne_none _) (h.openBelow hb ?_)
  intro target hlink
  rw [hfile] at hlink
  cases hlink

end Ready

/-! ## 2. Directories -/

/-- The directories from `root` down to `up` are there, and nothing else has changed. -/
structure DirsMade (root up : Path) (fs fs' : Tree) : Prop where
  made : ∀ r, r <+: up → fs'.get (root ++ r) = some .dir
  same : ∀ x, (∀ r, r <+: up → x ≠ root ++ r) → fs'.get x = fs.get x

theorem DirsMade.refl {fs : Tree} (h : ∀ r, r <+: up → fs.get (root ++ r) = some .dir) :
    DirsMade root up fs fs := ⟨h, fun _ _ => rfl⟩

theorem mkdir_new (hreal : d.fs.realPath p = some r) (hdir : d.fs.get r = some .dir)
    (hbase : base ≠ "..") (hnone : d.fs.get (r ++ [base]) = none) :
    ∃ d', mkdir (p ++ [base]) d = (d', .ok ()) ∧ d'.fs = d.fs.set (r ++ [base]) .dir := by
  have hlast : (p ++ [base]).getLast? ≠ some ".." := by
    rw [List.getLast?_concat]
    exact fun h => hbase (Option.some.inj h)
  unfold mkdir
  rw [Tree.entryPath_of_dir hreal hdir hbase]
  simp only
  rw [if_pos ⟨hlast, hnone⟩]
  exact ⟨_, rfl, rfl⟩

theorem not_concat_self {a b : Path} (h : a <+: b) (c : String) : a ≠ b ++ [c] := by
  intro heq
  have hlen := h.length_le
  rw [heq, List.length_append, List.length_singleton] at hlen
  exact absurd hlen (Nat.not_succ_le_self _)

namespace Unpacked

/-- A directory that is there, and those above it. -/
theorem dirsTo (h : Unpacked t root done d) (hdir : d.fs.get (root ++ up) = some .dir) :
    ∀ r, r <+: up → d.fs.get (root ++ r) = some .dir := by
  intro r hr
  by_cases hru : r = up
  · rw [hru, hdir]
  · exact h.above hr hru (by rw [hdir]; exact Option.some_ne_none _)

theorem ready (h : Unpacked t root done d) (h0 : EmptyDir t dest root)
    (hdir : d.fs.get (root ++ up) = some .dir) (hdots : ".." ∉ up) : Ready dest root up d.fs :=
  ⟨h.real h0, h.dirsTo hdir, hdots⟩

/-- Nothing is at a path below the directory where nothing was put. -/
theorem not_exists (h : Unpacked t root done d) (h0 : EmptyDir t dest root) (hdots : ".." ∉ up)
    (hnone : d.fs.get (root ++ up) = none) : ¬ d.fs.exists' (dest ++ up) = true := by
  intro hex
  obtain ⟨q, hq, hqne⟩ := Tree.realPath_of_exists hex
  have hloose := Tree.resolvePath_onward (Tree.resolvePath_of_realPath (h.real h0))
    (fun x _ _ target => h.noLink h0 x target) hdots
  rw [Tree.resolvePath_of_realPath hq] at hloose
  cases hloose
  exact hqne hnone

end Unpacked

/-- One more directory. -/
theorem mkdir_made {d1 : Disk} {fs : Tree} {c : String} (hreal : d1.fs.realPath dest = some root)
    (hmade : DirsMade root up fs d1.fs) (hdots : ".." ∉ up) (hc : c ≠ "..")
    (hnone : fs.get (root ++ (up ++ [c])) = none) :
    ∃ d', mkdir (dest ++ up ++ [c]) d1 = (d', .ok ()) ∧ DirsMade root (up ++ [c]) fs d'.fs := by
  have hready : Ready dest root up d1.fs := ⟨hreal, hmade.made, hdots⟩
  have hnew : d1.fs.get (root ++ up ++ [c]) = none := by
    rw [List.append_assoc, hmade.same, hnone]
    exact fun r hr heq => not_concat_self hr c (List.append_cancel_left heq).symm
  obtain ⟨d', hd', hfs⟩ := mkdir_new hready.realBelow (hready.dirs up List.prefix_rfl) hc hnew
  have hne : root ++ up ++ [c] ≠ [] :=
    List.append_ne_nil_of_right_ne_nil _ (List.cons_ne_nil c [])
  refine ⟨d', hd', fun r hr => ?_, fun x hx => ?_⟩
  · rw [hfs, Tree.get_set hne]
    rcases List.prefix_concat_iff.mp hr with rfl | hr
    · exact if_pos (List.append_assoc _ _ _).symm
    · rw [hmade.made r hr, ite_self]
  · rw [hfs, Tree.get_set hne, if_neg]
    · exact hmade.same x fun r hr => hx r (hr.trans (List.prefix_append _ _))
    · rw [List.append_assoc]
      exact hx _ List.prefix_rfl

/-- What `os.makedirs` makes of a missing directory. -/
theorem makedirsRev_spec (h : Unpacked t root done d) (h0 : EmptyDir t dest root)
    (hup : ∀ r, r <+: up → d.fs.get (root ++ r) = none ∨ d.fs.get (root ++ r) = some .dir)
    (hdots : ".." ∉ up) (hnone : d.fs.get (root ++ up) = none) :
    ∃ d', makedirsRev (dest ++ up).reverse d = (d', .ok ()) ∧ DirsMade root up d.fs d'.fs := by
  induction up using List.reverseRecOn with
  | nil =>
      rw [List.append_nil, h.isDir h0] at hnone
      cases hnone
  | append_singleton up c ih =>
      rw [List.mem_append, List.mem_singleton, not_or] at hdots
      have hc : c ≠ ".." := fun hc => hdots.2 hc.symm
      have hrev : (dest ++ (up ++ [c])).reverse = c :: (dest ++ up).reverse := by simp
      have hpre : ∀ r, r <+: up → r <+: up ++ [c] := fun r hr => hr.trans (List.prefix_append _ _)
      rw [hrev]
      unfold makedirsRev
      rw [List.reverse_reverse]
      rcases hup up (hpre up List.prefix_rfl) with hmissing | hdir
      · rw [if_neg (h.not_exists h0 hdots.1 hmissing)]
        obtain ⟨d1, hd1, hmade⟩ := ih (fun r hr => hup r (hpre r hr)) hdots.1 hmissing
        have hgrown := makedirsRev_grown (dest ++ up).reverse d
        rw [hd1] at hgrown ⊢
        exact mkdir_made (Tree.realPath_extends hgrown.dirs.toExtends (h.real h0)) hmade hdots.1 hc
          hnone
      · have hready := h.ready h0 hdir hdots.1
        rw [if_pos hready.existsBelow]
        exact mkdir_made (h.real h0) (.refl hready.dirs) hdots.1 hc hnone

/-- **The directories above a path that does not clash** are made. -/
theorem makeUpper_spec (h : Unpacked t root done d) (h0 : EmptyDir t dest root)
    (hclash : NoClash done (up ++ [base])) (hdots : ".." ∉ up) :
    ∃ d', makeUpperDirs (some ⟨dest ++ up, base⟩) d = (d', .ok ()) ∧ Grown d d' ∧
      Ready dest root up d'.fs ∧ DirsMade root up d.fs d'.fs := by
  have hgrown := makeUpperDirs_grown (some ⟨dest ++ up, base⟩) d
  have hup : ∀ r, r <+: up →
      d.fs.get (root ++ r) = none ∨ d.fs.get (root ++ r) = some .dir := fun r hr =>
    h.upper h0 hclash (hr.trans (List.prefix_append _ _)) (not_concat_self hr base)
  suffices hmade : ∃ d', makeUpperDirs (some ⟨dest ++ up, base⟩) d = (d', .ok ()) ∧
      DirsMade root up d.fs d'.fs by
    obtain ⟨d', hd', hmade⟩ := hmade
    rw [hd'] at hgrown
    exact ⟨d', hd', hgrown,
      ⟨Tree.realPath_extends hgrown.dirs.toExtends (h.real h0), hmade.made, hdots⟩, hmade⟩
  unfold makeUpperDirs
  simp only
  rcases hup up List.prefix_rfl with hmissing | hdir
  · rw [if_neg (h.not_exists h0 hdots hmissing)]
    exact makedirsRev_spec h h0 hup hdots hmissing
  · have hready := h.ready h0 hdir hdots
    rw [if_pos hready.existsBelow]
    exact ⟨d, rfl, .refl hready.dirs⟩

/-! ## 3. Files -/

/-- The call succeeds exactly under `C`, and then leaves a disk with `J`; otherwise it raises an
    `OSError`. -/
structure Puts (C : Prop) (J : Disk → Prop) (r : Effect) : Prop where
  ok : C → ∃ d', r = (d', .ok ()) ∧ J d'
  error : ¬ C → ∃ d' e, r = (d', .error (.os e))

/-- The file at `p` has the content, and nothing else has changed. -/
structure PutAt (root p : Path) (c : Bytes) (fs fs' : Tree) : Prop where
  file : fs'.get (root ++ p) = some (.file c)
  same : ∀ x, x ≠ root ++ p → fs'.get x = fs.get x

/-- One more file was put below the directory; the files without another name have none still,
    but for those that were linked to. -/
structure Put (t : Tree) (root : Path) (linked : List Path) (p : Path) (c : Bytes)
    (done : List (Path × Bytes)) (d d' : Disk) : Prop where
  unpacked : Unpacked t root ((p, c) :: done) d'
  sole : ∀ k, k ≠ p → k ∉ linked → done.lookup k ≠ none → Sole root k d → Sole root k d'
  alone : done.lookup p = none → linked = [] → Sole root p d'

/-- A disk that differs in what was touched and logged only. -/
structure SameFilesOn (d d' : Disk) : Prop where
  fs : d'.fs = d.fs
  ino : d'.ino = d.ino
  next : d'.next = d.next

theorem SameFilesOn.unpacked (h : SameFilesOn d d') (hu : Unpacked t root done d) :
    Unpacked t root done d' where
  kept := h.fs ▸ hu.kept
  files := h.fs ▸ hu.files
  dirs := h.fs ▸ hu.dirs
  present := h.fs ▸ hu.present
  fresh x e he hdir := by
    rw [h.fs] at he
    rw [h.ino, h.next]
    exact hu.fresh x e he hdir

theorem SameFilesOn.sole (h : SameFilesOn d d') (hs : Sole root p d) : Sole root p d' := by
  intro x e he hdir hx
  rw [h.fs] at he
  rw [h.ino]
  exact hs x e he hdir hx

theorem SameFilesOn.put {d0 d'' : Disk} {linked : List Path} (h0 : SameFilesOn d0 d)
    (h : SameFilesOn d' d'') (hp : Put t root [] p c done d d') :
    Put t root linked p c done d0 d'' :=
  ⟨h.unpacked hp.unpacked, fun k hk _ hl hs =>
    h.sole (hp.sole k hk List.not_mem_nil hl (h0.sole hs)),
    fun hnew _ => h.sole (hp.alone hnew rfl)⟩

theorem Sole.grown (h : Sole root p d) (hg : Grown d d') : Sole root p d' := by
  intro x e he hdir hx
  rw [hg.ino]
  exact h x e (hg.dirs.before he hdir) hdir hx

/-- What was put below the directory, and one more. -/
theorem Unpacked.put (h : Unpacked t root done d) (h0 : EmptyDir t dest root) {fs : Tree}
    (hclash : NoClash done (up ++ [base])) (hmade : DirsMade root up d.fs fs)
    (hmore : d.fs.MoreDirs fs) (hput : PutAt root (up ++ [base]) c fs d'.fs)
    (hfresh : ∀ x e, d'.fs.get x = some e → e ≠ .dir → d'.ino x < d'.next) :
    Unpacked t root ((up ++ [base], c) :: done) d' := by
  have hpne : up ++ [base] ≠ [] := List.append_ne_nil_of_right_ne_nil up (List.cons_ne_nil base [])
  have hother : ∀ r, r ≠ up ++ [base] → d'.fs.get (root ++ r) = fs.get (root ++ r) :=
    fun r hr => hput.same _ fun heq => hr (List.append_cancel_left heq)
  have hdirs : ∀ r, d.fs.get (root ++ r) = some .dir → fs.get (root ++ r) = some .dir :=
    fun r hr => hmore.toExtends _ _ hr
  constructor
  · intro x e he
    have hx : x ≠ root ++ (up ++ [base]) := by
      intro hx
      rw [hx, h0.empty _ hpne] at he
      cases he
    rw [hput.same x hx]
    exact hmore.toExtends _ _ (h.kept x e he)
  · intro p c' hl
    rw [List.lookup_cons] at hl
    by_cases hp : p = up ++ [base]
    · rw [hp, beq_self_eq_true] at hl
      cases hl
      rw [hp]
      exact hput.file
    · rw [beq_eq_false_iff_ne.mpr hp] at hl
      rw [hother p hp]
      exact hmore.toExtends _ _ (h.files p c' hl)
  · intro x hx r hr hne
    rcases List.mem_cons.mp hx with rfl | hx
    · rw [hother r hne]
      exact hmade.made r ((List.prefix_concat_iff.mp hr).resolve_left hne)
    · have hrp : r ≠ up ++ [base] := by
        intro hrp
        rw [hrp] at hr hne
        exact hne ((hclash x hx).2 hr).symm
      rw [hother r hrp]
      exact hdirs r (h.dirs x hx r hr hne)
  · intro r hr hpresent
    by_cases hrp : r = up ++ [base]
    · exact ⟨_, List.mem_cons_self, hrp ▸ List.prefix_rfl⟩
    · rw [hother r hrp] at hpresent
      by_cases hru : r <+: up
      · exact ⟨_, List.mem_cons_self, hru.trans (List.prefix_append _ _)⟩
      · have hsame := hmade.same (root ++ r) fun r' hr' heq =>
          hru (List.append_cancel_left heq ▸ hr')
        rw [hsame] at hpresent
        obtain ⟨x, hx, hpre⟩ := h.present r hr hpresent
        exact ⟨x, List.mem_cons_of_mem _ hx, hpre⟩
  · exact hfresh

/-- A file without another name keeps none when the entry at `q` gets another number. -/
theorem Sole.put {q k : Path} (h : Sole root k d) (hk : root ++ k ≠ q)
    (hback : ∀ x e, d'.fs.get x = some e → e ≠ .dir → x ≠ q → d.fs.get x = some e)
    (hino : ∀ x, x ≠ q → d'.ino x = d.ino x) (hq : d'.ino q ≠ d.ino (root ++ k)) :
    Sole root k d' := by
  intro x e he hdir hx
  rw [hino _ hk]
  by_cases hxq : x = q
  · rw [hxq]
    exact hq
  · rw [hino x hxq]
    exact h x e (hback x e he hdir hxq) hdir hx

theorem get_rewrite_mem {fs : Tree} {qs : List Path} {x : Path} (hx : x ∈ qs) (hne : x ≠ [])
    (hpresent : fs.get x ≠ none) : (rewrite fs qs c).get x = some (.file c) := by
  rw [Tree.get_of_ne hne] at hpresent ⊢
  unfold rewrite
  have hlookup : ∀ l : List (Path × Entry), l.lookup x ≠ none →
      (l.map fun y => if qs.contains y.1 then (y.1, Entry.file c) else y).lookup x =
        some (.file c) := by
    intro l hl
    induction l with
    | nil => exact absurd rfl hl
    | cons y l ih =>
        obtain ⟨k, e⟩ := y
        rw [List.map_cons]
        by_cases hk : x = k
        · rw [if_pos (List.contains_iff_mem.mpr (hk ▸ hx)), hk]
          exact List.lookup_cons_self
        · have hb : (x == k) = false := beq_eq_false_iff_ne.mpr hk
          rw [List.lookup_cons, hb] at hl
          by_cases hmem : qs.contains k = true
          · rw [if_pos hmem, List.lookup_cons, hb]
            exact ih hl
          · rw [if_neg hmem, List.lookup_cons, hb]
            exact ih hl
  exact hlookup fs.nodes hpresent

theorem names_of_sole (h : Sole root p d) (hfile : ∃ c, d.fs.get (root ++ p) = some (.file c))
    {x : Path}
    (hx : x ∈ names d.fs d.ino (root ++ p)) : x = root ++ p := by
  obtain ⟨c, hc⟩ := hfile
  unfold names at hx
  rw [hc] at hx
  rcases List.mem_cons.mp hx with hx | hx
  · exact hx
  · rw [List.mem_filter, Bool.and_eq_true, Bool.and_eq_true, decide_eq_true_eq, decide_eq_true_eq,
      decide_eq_true_eq] at hx
    obtain ⟨-, ⟨hpresent, hdir⟩, hino⟩ := hx
    obtain ⟨e, he⟩ := Option.ne_none_iff_exists'.mp hpresent
    by_contra hne
    exact h x e he (fun hd => hdir (he.trans (congrArg some hd))) hne hino

theorem target_path (hdot : base ≠ ".") : (⟨dest ++ up, base⟩ : Target).path =
    dest ++ (up ++ [base]) := by
  unfold Target.path
  rw [if_neg hdot, List.append_assoc]

theorem target_dots (hdot : base ≠ ".") (hdotDot : base ≠ "..") :
    (⟨dest ++ up, base⟩ : Target).dots = false := by
  unfold Target.dots
  rw [decide_eq_false_iff_not, not_or]
  exact ⟨hdot, hdotDot⟩

/-- `open` and a write, where the directories are there. -/
theorem makeFile_put (h : Unpacked t root done d) (h0 : EmptyDir t dest root)
    (hclash : NoClash done (up ++ [base])) (hg : Grown d d') (hready : Ready dest root up d'.fs)
    (hmade : DirsMade root up d.fs d'.fs) (hdot : base ≠ ".") (hdotDot : base ≠ "..")
    (hsole : done.lookup (up ++ [base]) ≠ none → Sole root (up ++ [base]) d) :
    ∃ d'', makeFile c ⟨dest ++ up, base⟩ d' = (d'', .ok ()) ∧
      Put t root [] (up ++ [base]) c done d d'' := by
  have hpne : up ++ [base] ≠ [] := List.append_ne_nil_of_right_ne_nil up (List.cons_ne_nil base [])
  have hqne : root ++ (up ++ [base]) ≠ [] := List.append_ne_nil_of_right_ne_nil root hpne
  have hsame : d'.fs.get (root ++ (up ++ [base])) = d.fs.get (root ++ (up ++ [base])) :=
    hmade.same _ fun r hr heq => not_concat_self hr base (List.append_cancel_left heq).symm
  have hnoLink : ∀ target, d'.fs.get (root ++ (up ++ [base])) ≠ some (.symlink target) :=
    fun target => hsame ▸ h.noLink h0 _ target
  unfold makeFile
  rw [target_dots hdot hdotDot, if_neg Bool.false_ne_true, target_path hdot,
    hready.openBelow hdotDot hnoLink]
  simp only
  rcases h.kind hpne with hk | hk | ⟨c', hc', hk⟩
  · -- a new file
    rw [← hsame] at hk
    rw [hk]
    refine ⟨_, rfl, ?_, ?_, ?_⟩
    · have hput : PutAt root (up ++ [base]) c d'.fs
          (d'.create (dest ++ (up ++ [base])) (root ++ (up ++ [base])) (.file c)).fs :=
        ⟨(Tree.get_set hqne).trans (if_pos rfl), fun x hx => (Tree.get_set hqne).trans (if_neg hx)⟩
      refine h.put h0 hclash hmade hg.dirs hput fun x e he hdir => ?_
      show Function.update d'.ino _ d'.next x < d'.next + 1
      by_cases hx : x = root ++ (up ++ [base])
      · rw [hx, Function.update_self]
        exact Nat.lt_succ_self _
      · rw [Function.update_of_ne hx, hg.ino, hg.next]
        rw [hput.same x hx] at he
        exact Nat.lt_succ_of_lt (h.fresh x e (hg.dirs.before he hdir) hdir)
    · intro k hk' _ hl hs
      have hkq : root ++ k ≠ root ++ (up ++ [base]) := fun heq => hk' (List.append_cancel_left heq)
      refine hs.put hkq (fun x e he hdir hx => ?_) (fun x hx => ?_) ?_
      · have hget : (d'.fs.set (root ++ (up ++ [base])) (.file c)).get x = some e := he
        rw [Tree.get_set hqne, if_neg hx] at hget
        exact hg.dirs.before hget hdir
      · show Function.update d'.ino _ d'.next x = d.ino x
        rw [Function.update_of_ne hx, hg.ino]
      · show Function.update d'.ino _ d'.next _ ≠ d.ino (root ++ k)
        rw [Function.update_self, hg.next]
        obtain ⟨ck, hck⟩ := Option.ne_none_iff_exists'.mp hl
        have hlt := h.fresh (root ++ k) _ (h.files k ck hck) (fun hd => by cases hd)
        exact (Nat.ne_of_lt hlt).symm
    · intro _ _ x e he hdir hx
      have hget : (d'.fs.set (root ++ (up ++ [base])) (.file c)).get x = some e := he
      rw [Tree.get_set hqne, if_neg hx] at hget
      show Function.update d'.ino _ d'.next x ≠ Function.update d'.ino _ d'.next _
      rw [Function.update_of_ne hx, Function.update_self, hg.ino, hg.next]
      exact Nat.ne_of_lt (h.fresh x e (hg.dirs.before hget hdir) hdir)
  · -- a directory is in the way only of a path that clashes
    obtain ⟨x, hx, hpre⟩ := h.present _ hpne (by rw [hk]; exact Option.some_ne_none _)
    have heq := (hclash x hx).2 hpre
    obtain ⟨c', hc'⟩ := lookup_of_mem hx
    have hfile := h.files x.1 c' hc'
    rw [heq, hk] at hfile
    cases hfile
  · -- the file there has no other name
    have hs := hsole (by rw [hc']; exact Option.some_ne_none _)
    rw [← hsame] at hk
    rw [hk]
    have hs' := hs.grown hg
    have hmem := mem_names_self d'.fs d'.ino (root ++ (up ++ [base]))
    have hpresent : d'.fs.get (root ++ (up ++ [base])) ≠ none := by
      rw [hk]
      exact Option.some_ne_none _
    have hput : PutAt root (up ++ [base]) c d'.fs
        (rewrite d'.fs (names d'.fs d'.ino (root ++ (up ++ [base]))) c) :=
      ⟨get_rewrite_mem hmem hqne hpresent,
        fun x hx => get_rewrite fun hmem => hx (names_of_sole hs' ⟨c', hk⟩ hmem)⟩
    have hback : ∀ x e, (rewrite d'.fs (names d'.fs d'.ino (root ++ (up ++ [base]))) c).get x =
        some e →
        e ≠ .dir → x ≠ root ++ (up ++ [base]) → d.fs.get x = some e := by
      intro x e he hdir hx
      rw [hput.same x hx] at he
      exact hg.dirs.before he hdir
    refine ⟨_, rfl, h.put h0 hclash hmade hg.dirs hput fun x e he hdir => ?_, ?_, ?_⟩
    · show d'.ino x < d'.next
      rw [hg.ino, hg.next]
      by_cases hx : x = root ++ (up ++ [base])
      · rw [hx]
        exact h.fresh _ _ (h.files _ c' hc') fun hd => by cases hd
      · exact h.fresh x e (hback x e he hdir hx) hdir
    · intro k hk' _ hl hsk
      have hkq : root ++ k ≠ root ++ (up ++ [base]) := fun heq => hk' (List.append_cancel_left heq)
      refine hsk.put hkq hback (fun x _ => congrFun hg.ino x) ?_
      show d'.ino _ ≠ d.ino (root ++ k)
      rw [hg.ino]
      exact hsk _ _ (h.files _ c' hc') (fun hd => by cases hd) hkq.symm
    · intro hnew
      rw [hc'] at hnew
      cases hnew

/-! ## 4. What clashes -/

namespace Unpacked

theorem fileReal (h : Unpacked t root done d) (h0 : EmptyDir t dest root) (hdots : ".." ∉ p)
    (hp : done.lookup p = some c) : d.fs.realPath (dest ++ p) = some (root ++ p) := by
  have hfile := h.files p c hp
  have hpresent : d.fs.get (root ++ p) ≠ none := by
    rw [hfile]
    exact Option.some_ne_none _
  refine Tree.realPath_of_open hpresent ?_
  refine Tree.openPath_onward (h.isDir h0) (fun follow => ?_)
    (Tree.openPath_of_realPath (h.real h0))
  exact Tree.walkOpen_of_dirs (fun x hx hne => h.above hx hne hpresent) hdots
    fun target => h.noLink h0 p target

/-- Nothing can be opened below a file. -/
theorem openBlocked (h : Unpacked t root done d) (h0 : EmptyDir t dest root) (hdots : ".." ∉ p)
    (hp : done.lookup p = some c) (b : String) (rest : Path) :
    d.fs.openPath (dest ++ (p ++ b :: rest)) = none := by
  have hfile := h.files p c hp
  have hpne : p ≠ [] := by
    intro hnil
    rw [hnil, List.append_nil, h.isDir h0] at hfile
    cases hfile
  refine Tree.openPath_onward (h.isDir h0) (fun follow => ?_)
    (Tree.openPath_of_realPath (h.real h0))
  refine Tree.walkOpen_blocked hfile hpne (fun x hx hne => h.above hx hne ?_) hdots
  rw [hfile]
  exact Option.some_ne_none _

theorem existsBlocked (h : Unpacked t root done d) (h0 : EmptyDir t dest root) (hdots : ".." ∉ p)
    (hp : done.lookup p = some c) (b : String) (rest : Path) :
    ¬ d.fs.exists' (dest ++ (p ++ b :: rest)) = true := by
  intro hex
  obtain ⟨q, hq, -⟩ := Tree.realPath_of_exists hex
  have hopen := Tree.openPath_of_realPath hq
  rw [h.openBlocked h0 hdots hp] at hopen
  cases hopen

/-- `os.makedirs` raises below a file. -/
theorem makedirsBlocked (h : Unpacked t root done d) (h0 : EmptyDir t dest root) (hdots : ".." ∉ p)
    (hp : done.lookup p = some c) (b : String) (rest : Path) :
    makedirsRev (dest ++ (p ++ b :: rest)).reverse d = d.raise .fileNotFound := by
  have hfile := h.files p c hp
  induction rest using List.reverseRecOn with
  | nil =>
      have hrev : (dest ++ (p ++ [b])).reverse = b :: (dest ++ p).reverse := by simp
      have hexists : d.fs.exists' (dest ++ p) = true := by
        refine Tree.exists_of_realPath (h.fileReal h0 hdots hp) ?_
        rw [hfile]
        exact Option.some_ne_none _
      rw [hrev]
      unfold makedirsRev
      rw [List.reverse_reverse, if_pos hexists]
      unfold mkdir
      rw [Tree.entryPath_of_noDir (h.fileReal h0 hdots hp)
        (by rw [hfile]; exact fun h => by cases h)]
  | append_singleton rest a ih =>
      have hrev : (dest ++ (p ++ b :: (rest ++ [a]))).reverse =
          a :: (dest ++ (p ++ b :: rest)).reverse := by simp
      rw [hrev]
      unfold makedirsRev
      rw [List.reverse_reverse, if_neg (h.existsBlocked h0 hdots hp b rest), ih]
      rfl

/-- **A path that clashes** can neither be opened nor linked. -/
theorem clash (h : Unpacked t root done d) (h0 : EmptyDir t dest root) (hdots : ".." ∉ up)
    (hdotDot : base ≠ "..") (hclash : ¬ NoClash done (up ++ [base])) :
    (∃ e, makeUpperDirs (some ⟨dest ++ up, base⟩) d = (d, .error (.os e))) ∨
    (makeUpperDirs (some ⟨dest ++ up, base⟩) d = (d, .ok ()) ∧
      (∀ q, d.fs.entryPath (dest ++ (up ++ [base])) = some q → d.fs.get q ≠ none) ∧
      ∀ q, d.fs.openPath (dest ++ (up ++ [base])) = some q → d.fs.get q = some .dir) := by
  unfold NoClash at hclash
  rw [not_forall] at hclash
  obtain ⟨x, hx⟩ := hclash
  rw [Classical.not_imp, not_and_or, Classical.not_imp, Classical.not_imp] at hx
  obtain ⟨hx, hclash⟩ := hx
  unfold makeUpperDirs
  simp only
  rcases hclash with ⟨hpre, hne⟩ | ⟨hpre, hne⟩
  · -- a file is above the path
    obtain ⟨c, hc⟩ := lookup_of_mem hx
    have hup := (List.prefix_concat_iff.mp hpre).resolve_left hne
    obtain ⟨s, rfl⟩ := hup
    have hdots' : ".." ∉ x.1 := fun hmem => hdots (List.mem_append_left s hmem)
    cases s with
    | nil =>
        rw [List.append_nil] at hdots ⊢
        have hfile := h.files x.1 c hc
        have hexists : d.fs.exists' (dest ++ x.1) = true := by
          refine Tree.exists_of_realPath (h.fileReal h0 hdots' hc) ?_
          rw [hfile]
          exact Option.some_ne_none _
        rw [if_pos hexists]
        refine .inr ⟨rfl, fun q hq => ?_, fun q hq => ?_⟩
        · rw [← List.append_assoc, Tree.entryPath_of_noDir (h.fileReal h0 hdots' hc)] at hq
          · cases hq
          · rw [hfile]
            exact fun h => by cases h
        · rw [h.openBlocked h0 hdots' hc] at hq
          cases hq
    | cons b s =>
        rw [if_neg (h.existsBlocked h0 hdots' hc b s), h.makedirsBlocked h0 hdots' hc b s]
        exact .inl ⟨_, rfl⟩
  · -- the path is a directory that holds a file
    have hdir := h.dirs x hx _ hpre (Ne.symm hne)
    have hready := h.ready h0
        (h.above (List.prefix_append up [base]) (not_concat_self List.prefix_rfl base)
      (by rw [hdir]; exact Option.some_ne_none _)) hdots
    rw [if_pos hready.existsBelow]
    refine .inr ⟨rfl, fun q hq => ?_, fun q hq => ?_⟩
    · rw [hready.entryBelow hdotDot] at hq
      cases hq
      rw [hdir]
      exact Option.some_ne_none _
    · rw [hready.openBelow hdotDot fun target => h.noLink h0 _ target] at hq
      cases hq
      exact hdir

end Unpacked

/-! ## 5. Members -/

theorem makeFile_error (hopen : ∀ q, d.fs.openPath (dest ++ (up ++ [base])) = some q →
    d.fs.get q = some .dir) (hdot : base ≠ ".") :
    ∃ e, makeFile c ⟨dest ++ up, base⟩ d = (d, .error (.os e)) := by
  unfold makeFile
  split
  · exact ⟨_, rfl⟩
  · rw [target_path hdot]
    split
    · exact ⟨_, rfl⟩
    · rename_i q hq
      rw [hopen q hq]
      exact ⟨_, rfl⟩

theorem link_error (dest : Path) (linkname : String) (hdot : base ≠ ".")
    (hentry : ∀ q, d.fs.entryPath (dest ++ (up ++ [base])) = some q → d.fs.get q ≠ none) :
    ∃ e, link dest linkname ⟨dest ++ up, base⟩ d = (d, .error (.os e)) := by
  unfold link
  split
  · rename_i src q _ hq
    have hq' := (Target.entry_eq hq).1
    rw [target_path hdot] at hq'
    split
    · exact ⟨_, rfl⟩
    · exact ⟨_, rfl⟩
    · split
      · exact ⟨_, rfl⟩
      · rw [if_neg (hentry q hq')]
        exact ⟨_, rfl⟩
  · exact ⟨_, rfl⟩

theorem setAttrs_ok {m : Member} {target : Target} {q : Path} (hm : m.kind.isSymlink = false)
    (hreal : d.fs.realPath target.path = some q) :
    ∃ d', setAttrs m target d = (d', .ok ()) ∧ SameFilesOn d d' := by
  have hattrs : ∃ d', setPathAttrs target.path d = (d', .ok ()) ∧ SameFilesOn d d' := by
    unfold setPathAttrs
    rw [hreal]
    exact ⟨_, rfl, rfl, rfl, rfl⟩
  unfold setAttrs
  cases hk : m.kind with
  | symlink linkname =>
      rw [hk] at hm
      cases hm
  | file content => exact hattrs
  | dir => exact hattrs
  | hardlink linkname => exact hattrs

/-- What was just put is there to be given attributes. -/
theorem Put.real {linked : List Path} (hp : Put t root linked (up ++ [base]) c done d d')
    (h0 : EmptyDir t dest root) (hdots : ".." ∉ up) (hdot : base ≠ ".") (hdotDot : base ≠ "..") :
    d'.fs.realPath (⟨dest ++ up, base⟩ : Target).path = some (root ++ (up ++ [base])) := by
  rw [target_path hdot]
  refine hp.unpacked.fileReal h0 ?_ List.lookup_cons_self
  rw [List.mem_append, List.mem_singleton, not_or]
  exact ⟨hdots, fun h => hdotDot h.symm⟩

theorem sameFilesOn_log (d : Disk) (act : TarAct) : SameFilesOn d (d.log act) := ⟨rfl, rfl, rfl⟩

section Extract

variable {members : List Member} {j : Nat} (depth : Nat) (top : Bool)

/-- The end of `_extract_member`: the attributes of what was put. -/
theorem setAttrs_put (m : Member) {linked : List Path}
    (hp : Put t root linked (up ++ [base]) c done d d')
    (h0 : EmptyDir t dest root) (hdots : ".." ∉ up) (hdot : base ≠ ".") (hdotDot : base ≠ "..")
    (hdir : m.kind ≠ .dir) (hsym : m.kind.isSymlink = false) :
    ∃ d'', (if top && m.kind = .dir then ((d', .ok ()) : Effect)
        else onTarget (setAttrs m) (some ⟨dest ++ up, base⟩)
          (d'.log (.setAttrs m (some ⟨dest ++ up, base⟩)))) = (d'', .ok ()) ∧
      Put t root linked (up ++ [base]) c done d d'' := by
  have hreal := hp.real h0 hdots hdot hdotDot
  obtain ⟨d'', hd'', hsame⟩ :=
      setAttrs_ok (d := d'.log (.setAttrs m (some ⟨dest ++ up, base⟩))) hsym
    hreal
  have hnot : ¬ (top && decide (m.kind = .dir)) = true := by
    rw [decide_eq_false hdir, Bool.and_false]
    exact Bool.false_ne_true
  have hsame' : SameFilesOn d' d'' := ⟨hsame.fs, hsame.ino, hsame.next⟩
  rw [if_neg hnot]
  exact ⟨d'', hd'', hsame'.unpacked hp.unpacked,
    fun k hk hl hk' hs => hsame'.sole (hp.sole k hk hl hk' hs),
    fun hnew hl => hsame'.sole (hp.alone hnew hl)⟩

/-- **A file is extracted** exactly when its path does not clash with what was put before. -/
theorem extractFile_puts (h : Unpacked t root done d) (h0 : EmptyDir t dest root) {name : String}
    (hm : members[j]? = some ⟨name, .file c⟩) (hdots : ".." ∉ up) (hdot : base ≠ ".")
    (hdotDot : base ≠ "..")
    (hsole : done.lookup (up ++ [base]) ≠ none → Sole root (up ++ [base]) d) :
    Puts (NoClash done (up ++ [base])) (Put t root [] (up ++ [base]) c done d)
      (extractMember dest members (depth + 1) top j (some ⟨dest ++ up, base⟩) d) := by
  have hlog := sameFilesOn_log d (.create ⟨name, .file c⟩ (some ⟨dest ++ up, base⟩))
  have hu := hlog.unpacked h
  constructor
  · intro hclash
    obtain ⟨d1, hd1, hg, hready, hmade⟩ := makeUpper_spec hu h0 hclash hdots
    obtain ⟨d2, hd2, hput⟩ := makeFile_put (c := c) hu h0 hclash hg hready hmade hdot hdotDot
      fun hl => hlog.sole (hsole hl)
    obtain ⟨d3, hd3, hput3⟩ := setAttrs_put top ⟨name, .file c⟩ hput h0 hdots hdot
      hdotDot (fun h => by cases h) rfl
    refine ⟨d3, ?_, SameFilesOn.put hlog ⟨rfl, rfl, rfl⟩ hput3⟩
    unfold extractMember
    rw [hm]
    simp only
    rw [hd1, Lib.Outcome.andThen_ok rfl]
    unfold makeMember
    simp only [onTarget]
    rw [hd2, Lib.Outcome.andThen_ok rfl]
    exact hd3
  · intro hclash
    unfold extractMember
    rw [hm]
    simp only
    rcases hu.clash h0 hdots hdotDot hclash with ⟨e, he⟩ | ⟨hok, -, hopen⟩
    · rw [he]
      exact ⟨_, e, rfl⟩
    · obtain ⟨e, he⟩ := makeFile_error (c := c) hopen hdot
      rw [hok, Lib.Outcome.andThen_ok rfl]
      unfold makeMember
      simp only [onTarget]
      rw [he]
      exact ⟨_, e, rfl⟩

/-- The source of a hard link to a file that was put below the directory. -/
theorem linkSource (h : Unpacked t root done d) (h0 : EmptyDir t dest root) {linkname : String}
    (hlink : BelowRoot linkname) (hsource : done.lookup (textParts linkname) = some c) :
    linkExists dest linkname d.fs = true ∧
      d.fs.entryPath (pathJoinParts dest linkname) = some (root ++ textParts linkname) := by
  have hreal := h.fileReal h0 hlink.noDots_parts hsource
  have hfile := h.files _ _ hsource
  have hpresent : d.fs.get (root ++ textParts linkname) ≠ none := by
    rw [hfile]
    exact Option.some_ne_none _
  constructor
  · unfold linkExists
    rw [hlink.dirOnly, hlink.join, if_neg Bool.false_ne_true, Bool.and_eq_true]
    exact ⟨decide_eq_true hlink.noNul, Tree.exists_of_realPath hreal hpresent⟩
  · obtain ⟨us, bs, hplaced⟩ := hlink.target
    rw [hlink.join]
    rw [hplaced.parts] at hpresent ⊢
    have hdir := h.above (List.prefix_append us [bs])
        (not_concat_self List.prefix_rfl bs) hpresent
    exact (h.ready h0 hdir hplaced.upDots).entryBelow hplaced.dotDot

/-- `os.link` where the directories are there and nothing is at the path. -/
theorem link_put (h : Unpacked t root done d) (h0 : EmptyDir t dest root) {linkname : String}
    (hlink : BelowRoot linkname) (hsource : done.lookup (textParts linkname) = some c)
    (hclash : NoClash done (up ++ [base])) (hg : Grown d d') (hready : Ready dest root up d'.fs)
    (hmade : DirsMade root up d.fs d'.fs) (hdot : base ≠ ".") (hdotDot : base ≠ "..")
    (hnew : d.fs.get (root ++ (up ++ [base])) = none) :
    ∃ d'', link dest linkname ⟨dest ++ up, base⟩ d' = (d'', .ok ()) ∧
      Put t root [textParts linkname] (up ++ [base]) c done d d'' := by
  have hpne : up ++ [base] ≠ [] := List.append_ne_nil_of_right_ne_nil up (List.cons_ne_nil base [])
  have hqne : root ++ (up ++ [base]) ≠ [] := List.append_ne_nil_of_right_ne_nil root hpne
  have hsame : d'.fs.get (root ++ (up ++ [base])) = none :=
    (hmade.same _ fun r hr heq =>
      not_concat_self hr base (List.append_cancel_left heq).symm).trans
      hnew
  have hentry : d'.fs.entryPath (pathJoinParts dest linkname) =
      some (root ++ textParts linkname) := by
    obtain ⟨us, bs, hplaced⟩ := hlink.target
    have hfile := h.files _ _ hsource
    rw [hlink.join]
    rw [hplaced.parts] at hfile ⊢
    have hdir := h.above (List.prefix_append us [bs]) (not_concat_self List.prefix_rfl bs)
      (by rw [hfile]; exact Option.some_ne_none _)
    have hus := h.ready h0 hdir hplaced.upDots
    exact Ready.entryBelow ⟨hready.real, fun r hr =>
      hg.dirs.toExtends _ _ (hus.dirs r hr), hus.noDots⟩
      hplaced.dotDot
  have htarget : (⟨dest ++ up, base⟩ : Target).entry d'.fs = some (root ++ (up ++ [base])) := by
    unfold Target.entry
    rw [target_dots hdot hdotDot, if_neg Bool.false_ne_true, target_path hdot]
    exact hready.entryBelow hdotDot
  have hfile := hg.dirs.toExtends _ _ (h.files _ _ hsource)
  unfold link
  rw [hentry, htarget]
  simp only
  rw [hfile, hsame, hlink.dirOnly]
  refine ⟨_, rfl, ?_, ?_, fun _ hl => by cases hl⟩
  · have hput : PutAt root (up ++ [base]) c d'.fs
        (d'.fs.set (root ++ (up ++ [base])) (.file c)) :=
      ⟨(Tree.get_set hqne).trans (if_pos rfl), fun x hx => (Tree.get_set hqne).trans (if_neg hx)⟩
    refine h.put h0 hclash hmade hg.dirs hput fun x e he hdir => ?_
    show Function.update d'.ino _ (d'.ino _) x < d'.next
    rw [hg.ino, hg.next]
    by_cases hx : x = root ++ (up ++ [base])
    · rw [hx, Function.update_self]
      exact h.fresh _ _ (h.files _ _ hsource) fun hd => by cases hd
    · rw [Function.update_of_ne hx]
      have hget : (d'.fs.set (root ++ (up ++ [base])) (.file c)).get x = some e := he
      rw [hput.same x hx] at hget
      exact h.fresh x e (hg.dirs.before hget hdir) hdir
  · intro k hk hl _ hs
    have hkq : root ++ k ≠ root ++ (up ++ [base]) := fun heq => hk (List.append_cancel_left heq)
    have hks : root ++ textParts linkname ≠ root ++ k := fun heq =>
      hl (List.mem_singleton.mpr (List.append_cancel_left heq).symm)
    refine hs.put hkq (fun x e he hdir hx => ?_) (fun x hx => ?_) ?_
    · have hget : (d'.fs.set (root ++ (up ++ [base])) (.file c)).get x = some e := he
      rw [Tree.get_set hqne, if_neg hx] at hget
      exact hg.dirs.before hget hdir
    · show Function.update d'.ino _ (d'.ino _) x = d.ino x
      rw [Function.update_of_ne hx, hg.ino]
    · show Function.update d'.ino _ (d'.ino _) _ ≠ d.ino (root ++ k)
      rw [Function.update_self, hg.ino]
      exact hs _ _ (h.files _ _ hsource) (fun hd => by cases hd) hks

/-- **A hard link is extracted** exactly when its path does not clash: as a link, or as a copy
    where a file is there already. -/
theorem extractLink_puts (h : Unpacked t root done d) (h0 : EmptyDir t dest root) {i : Nat}
    {name linkname other : String} (hm : members[i]? = some ⟨name, .hardlink linkname⟩)
    (hfound : findLinkTarget members i ⟨name, .hardlink linkname⟩ = some j)
    (hj : members[j]? = some ⟨other, .file c⟩) (hlink : BelowRoot linkname)
    (hsource : done.lookup (textParts linkname) = some c) (hdots : ".." ∉ up) (hdot : base ≠ ".")
    (hdotDot : base ≠ "..")
    (hsole : done.lookup (up ++ [base]) ≠ none → Sole root (up ++ [base]) d) :
    Puts (NoClash done (up ++ [base])) (Put t root [textParts linkname] (up ++ [base]) c done d)
      (extractMember dest members (depth + 2) true i (some ⟨dest ++ up, base⟩) d) := by
  have hlog := sameFilesOn_log d (.create ⟨name, .hardlink linkname⟩ (some ⟨dest ++ up, base⟩))
  have hu := hlog.unpacked h
  have hagain := extractFile_puts depth false hu h0 hj hdots hdot hdotDot
    fun hl => hlog.sole (hsole hl)
  obtain ⟨hexists, -⟩ := linkSource hu h0 hlink hsource
  have hpne : up ++ [base] ≠ [] := List.append_ne_nil_of_right_ne_nil up (List.cons_ne_nil base [])
  unfold extractMember
  rw [hm]
  simp only
  constructor
  · intro hclash
    by_cases hnew : d.fs.get (root ++ (up ++ [base])) = none
    · obtain ⟨d1, hd1, hg, hready, hmade⟩ := makeUpper_spec hu h0 hclash hdots
      obtain ⟨d2, hd2, hput⟩ :=
          link_put hu h0 hlink hsource hclash hg hready hmade hdot hdotDot hnew
      have hexists1 : linkExists dest linkname d1.fs = true := by
        have hreal := Tree.realPath_extends hg.dirs.toExtends
          (hu.fileReal h0 hlink.noDots_parts hsource)
        unfold linkExists
        rw [hlink.dirOnly, hlink.join, if_neg Bool.false_ne_true, Bool.and_eq_true]
        refine ⟨decide_eq_true hlink.noNul, Tree.exists_of_realPath hreal ?_⟩
        rw [hg.dirs.toExtends _ _ (hu.files _ _ hsource)]
        exact Option.some_ne_none _
      obtain ⟨d3, hd3, hput3⟩ := setAttrs_put true ⟨name, .hardlink linkname⟩ hput h0
        hdots hdot hdotDot (fun h => by cases h) rfl
      refine ⟨d3, ?_, hput3.unpacked,
        fun k hk hl hk' hs => hput3.sole k hk hl hk' (hlog.sole hs), hput3.alone⟩
      rw [hd1, Lib.Outcome.andThen_ok rfl]
      unfold makeMember tryLink
      simp only [onTarget, hexists1, Bool.not_true, Bool.false_eq_true, if_false, if_true]
      rw [hd2]
      simp only [orLinked]
      rw [Lib.Outcome.andThen_ok rfl]
      exact hd3
    · -- a file is there: the link fails, and the member it refers to is extracted
      obtain ⟨d2, hd2, hput⟩ := hagain.ok hclash
      have hup := hu.above (List.prefix_append up [base]) (not_concat_self List.prefix_rfl base)
        hnew
      have hready := hu.ready h0 hup hdots
      have hmade : makeUpperDirs (some ⟨dest ++ up, base⟩)
          (d.log (.create ⟨name, .hardlink linkname⟩ (some ⟨dest ++ up, base⟩))) =
          (d.log (.create ⟨name, .hardlink linkname⟩ (some ⟨dest ++ up, base⟩)), .ok ()) := by
        unfold makeUpperDirs
        simp only
        rw [if_pos hready.existsBelow]
      obtain ⟨e, he⟩ := link_error dest linkname
        (d := d.log (.create ⟨name, .hardlink linkname⟩ (some ⟨dest ++ up, base⟩))) hdot
        fun q hq => by
          rw [hready.entryBelow hdotDot] at hq
          cases hq
          exact hnew
      obtain ⟨d3, hd3, hput3⟩ := setAttrs_put true ⟨name, .hardlink linkname⟩ hput h0
        hdots hdot hdotDot (fun h => by cases h) rfl
      refine ⟨d3, ?_, SameFilesOn.put hlog ⟨rfl, rfl, rfl⟩ hput3⟩
      rw [hmade, Lib.Outcome.andThen_ok rfl]
      unfold makeMember tryLink
      simp only [onTarget, hexists, Bool.not_true, Bool.false_eq_true, if_false, if_true]
      rw [he, hfound]
      simp only [orLinked]
      rw [hd2]
      simp only
      rw [Lib.Outcome.andThen_ok rfl]
      exact hd3
  · intro hclash
    rcases hu.clash h0 hdots hdotDot hclash with ⟨e, he⟩ | ⟨hok, hentry, -⟩
    · rw [he]
      exact ⟨_, e, rfl⟩
    · obtain ⟨e, he⟩ := link_error dest linkname hdot hentry
      obtain ⟨d2, e2, hd2⟩ := hagain.error hclash
      rw [hok, Lib.Outcome.andThen_ok rfl]
      unfold makeMember tryLink
      simp only [onTarget, hexists, Bool.not_true, Bool.false_eq_true, if_false, if_true]
      rw [he, hfound]
      simp only [orLinked]
      rw [hd2]
      exact ⟨_, e2, rfl⟩

end Extract

end Bundle

end CccStorage
