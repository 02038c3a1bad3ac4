/-
  File:      CccStorage/BundleConfined.lean
  Subject:   Where unpacking a packset bundle writes.

  `_safe_extract` resolves the name of every member before the first is extracted. A member that is
  a link can make a later name resolve elsewhere.

  * `Inside` -- a path resolves into a directory, and the file there has no name outside;
  * `TarStep.Safe` -- the paths of a step are inside, on the files as the step finds them;
  * `Within` -- nothing outside the directory was touched, and nothing there has changed;
  * `extractMember_kept`, `extractAll_kept` -- safe steps stay within;
  * `unpack_confined` -- the whole of `unpack_packset_bundle`;
  * `linkedMember_escapes` -- a symlink, then a file below its name.
-/
import CccStorage.Bundle

namespace CccStorage.Bundle

/-! ## 1. The condition -/

/-- `p` resolves into `D`, and every name of what is there is in `D`. -/
def Inside (D : Path) (fs : Tree) (ino : Path → Nat) (p : Path) : Prop :=
  ∃ q, fs.resolvePath p = some q ∧ ∀ x ∈ names fs ino q, D <+: x

instance (D : Path) (fs : Tree) (ino : Path → Nat) (p : Path) : Decidable (Inside D fs ino p) :=
  match h : fs.resolvePath p with
  | none => isFalse fun hin => by
      obtain ⟨q, hq, -⟩ := hin
      rw [h] at hq
      cases hq
  | some q =>
    decidable_of_iff (∀ x ∈ names fs ino q, D <+: x) <| by
      constructor
      · intro hx
        exact ⟨q, h, hx⟩
      · intro hin
        obtain ⟨q', hq', hx⟩ := hin
        rw [h] at hq'
        cases hq'
        exact hx

/-- The entry itself is in `D`: the directory it is in resolves into `D`. -/
def EntryInside (D : Path) (fs : Tree) (ino : Path → Nat) (t : Target) : Prop :=
  if t.dots then Inside D fs ino t.path else Inside D fs ino t.upper

instance (D : Path) (fs : Tree) (ino : Path → Nat) (t : Target) :
    Decidable (EntryInside D fs ino t) :=
  inferInstanceAs (Decidable (if t.dots then Inside D fs ino t.path else Inside D fs ino t.upper))

def MemberKind.isSymlink : MemberKind → Bool
  | .symlink _ => true
  | _ => false

def MemberKind.isLink : MemberKind → Bool
  | .symlink _ | .hardlink _ => true
  | _ => false

/-- **The condition**: the check of `_safe_extract` holds of what the step is about to create, open
    or change when it is taken. -/
def TarStep.Safe (D : Path) (s : TarStep) : Prop :=
  match s.act with
  | .create m (some t) =>
    (∀ x ∈ t.upper.inits, s.fs.exists' x = true ∨ Inside D s.fs s.ino x) ∧
      if m.kind.isLink then EntryInside D s.fs s.ino t else Inside D s.fs s.ino t.path
  | .setAttrs m (some t) =>
    if m.kind.isSymlink then EntryInside D s.fs s.ino t else Inside D s.fs s.ino t.path
  | .setDirAttrs p => Inside D s.fs s.ino p
  | .create _ none | .setAttrs _ none => True

instance (D : Path) (s : TarStep) : Decidable (s.Safe D) :=
  match h : s.act with
  | .create m (some t) =>
    decidable_of_iff ((∀ x ∈ t.upper.inits, s.fs.exists' x = true ∨ Inside D s.fs s.ino x) ∧
      if m.kind.isLink then EntryInside D s.fs s.ino t else Inside D s.fs s.ino t.path)
      (by rw [TarStep.Safe, h])
  | .setAttrs m (some t) =>
    decidable_of_iff
      (if m.kind.isSymlink then EntryInside D s.fs s.ino t else Inside D s.fs s.ino t.path)
      (by rw [TarStep.Safe, h])
  | .setDirAttrs p => decidable_of_iff (Inside D s.fs s.ino p) (by rw [TarStep.Safe, h])
  | .create _ none | .setAttrs _ none => isTrue (by rw [TarStep.Safe, h]; exact trivial)

/-! ## 2. What stays within a directory -/

/-- **From `d` to `d'` nothing outside `D` was created, changed or touched.** -/
structure Within (D : Path) (d d' : Disk) : Prop where
  touched : ∀ a ∈ d'.touched, a ∈ d.touched ∨ D <+: a.real
  same : ∀ p, ¬ D <+: p → d'.fs.get p = d.fs.get p

namespace Within

variable {D : Path} {d d' d'' : Disk}

theorem refl (D : Path) (d : Disk) : Within D d d := ⟨fun _ h => .inl h, fun _ _ => rfl⟩

theorem trans (h : Within D d d') (h' : Within D d' d'') : Within D d d'' where
  touched a ha := by
    rcases h'.touched a ha with ha | ha
    · exact h.touched a ha
    · exact .inr ha
  same p hp := (h'.same p hp).trans (h.same p hp)

/-- Changes of paths in `D`. -/
theorem touch {p : Path} {qs : List Path} {fs : Tree} (hqs : ∀ q ∈ qs, D <+: q)
    (hfs : ∀ x, x ∉ qs → fs.get x = d.fs.get x) : Within D d (d.touch p qs fs) where
  touched a ha := by
    rcases List.mem_append.mp ha with ha | ha
    · obtain ⟨q, hq, rfl⟩ := List.mem_map.mp ha
      exact .inr (hqs q hq)
    · exact .inl ha
  same x hx := hfs x fun hmem => hx (hqs x hmem)

end Within

theorem mem_names_self (fs : Tree) (ino : Path → Nat) (q : Path) : q ∈ names fs ino q := by
  unfold names
  split
  · exact List.mem_singleton_self q
  · exact List.mem_singleton_self q
  · exact List.mem_cons_self

variable {D p q : Path} {fs fs' : Tree} {ino : Path → Nat} {t : Target} {d d' : Disk}

/-- What resolves inside is inside. -/
theorem Inside.names (hin : Inside D fs ino p) (hq : fs.resolvePath p = some q) :
    ∀ x ∈ names fs ino q, D <+: x := by
  obtain ⟨q', hq', hnames⟩ := hin
  rw [hq] at hq'
  cases hq'
  exact hnames

theorem Inside.real (hin : Inside D fs ino p) (hq : fs.resolvePath p = some q) : D <+: q :=
  hin.names hq q (mem_names_self fs ino q)

theorem Target.path_of_entry (hq : t.entry fs = some q) :
    t.dots = false ∧ t.path = t.upper ++ [t.base] ∧ t.base ≠ ".." := by
  unfold Target.entry at hq
  cases hd : t.dots with
  | true =>
      rw [hd, if_pos rfl] at hq
      cases hq
  | false =>
      unfold Target.dots at hd
      rw [decide_eq_false_iff_not, not_or] at hd
      exact ⟨rfl, if_neg hd.1, hd.2⟩

theorem Target.entry_eq (hq : t.entry fs = some q) :
    fs.entryPath t.path = some q ∧ ∃ y, fs.realPath t.upper = some y ∧ q = y ++ [t.base] := by
  obtain ⟨hdots, hpath, hbase⟩ := Target.path_of_entry hq
  unfold Target.entry at hq
  rw [hdots, if_neg Bool.false_ne_true] at hq
  refine ⟨hq, ?_⟩
  rw [hpath] at hq
  obtain ⟨y, hy, hqy⟩ := Tree.entryPath_concat hq
  rw [if_neg hbase] at hqy
  exact ⟨y, hy, hqy⟩

/-- The entry of a target whose directory resolves inside, also after entries are gone. -/
theorem EntryInside.entry (hin : EntryInside D fs ino t) (hx : fs'.Extends fs)
    (hq : t.entry fs' = some q) : D <+: q := by
  obtain ⟨hdots, -, -⟩ := Target.path_of_entry hq
  obtain ⟨-, y, hy, rfl⟩ := Target.entry_eq hq
  unfold EntryInside at hin
  rw [hdots, if_neg Bool.false_ne_true] at hin
  have hreal := Tree.resolvePath_of_realPath (Tree.realPath_extends hx hy)
  exact (hin.real hreal).trans (List.prefix_append y _)

/-- Directories were made, and nothing else. -/
structure Grown (d d' : Disk) : Prop where
  steps : d'.steps = d.steps
  ino : d'.ino = d.ino
  next : d'.next = d.next
  dirs : d.fs.MoreDirs d'.fs

namespace Grown

variable {d'' : Disk}

theorem refl (d : Disk) : Grown d d := ⟨rfl, rfl, rfl, .refl _⟩

theorem trans (h : Grown d d') (h' : Grown d' d'') : Grown d d'' :=
  ⟨h'.steps.trans h.steps, h'.ino.trans h.ino, h'.next.trans h.next, h.dirs.trans h'.dirs⟩

end Grown

theorem ne_nil_of_get_none (h : fs.get q = none) : q ≠ [] := by
  intro hnil
  rw [hnil] at h
  cases h

theorem mkdir_grown (p : Path) (d : Disk) : Grown d (mkdir p d).1 := by
  unfold mkdir
  split
  · exact .refl d
  · split
    · rename_i q hq h
      exact ⟨rfl, rfl, rfl, .set (ne_nil_of_get_none h.2) h.2⟩
    · exact .refl d

theorem makedirsRev_grown (rev : List String) (d : Disk) : Grown d (makedirsRev rev d).1 := by
  induction rev generalizing d with
  | nil => exact mkdir_grown [] d
  | cons c up ih =>
      unfold makedirsRev
      split
      · exact mkdir_grown _ d
      · have hup := ih d
        split
        · rename_i d' hr
          rw [hr] at hup
          exact hup.trans (mkdir_grown _ d')
        · rename_i d' hr
          rw [hr] at hup
          exact hup.trans (mkdir_grown _ d')
        · exact hup

theorem makeUpperDirs_grown (target : Option Target) (d : Disk) :
    Grown d (makeUpperDirs target d).1 := by
  unfold makeUpperDirs
  split
  · exact .refl d
  · split
    · exact .refl d
    · exact makedirsRev_grown _ d

/-- A call that leaves the log of steps alone, and stays within `D` under `C`. -/
structure Call (D : Path) (C : Prop) (d d' : Disk) : Prop where
  steps : d'.steps = d.steps
  within : C → Within D d d'

theorem Call.refl (D : Path) (C : Prop) (d : Disk) : Call D C d d := ⟨rfl, fun _ => .refl D d⟩

theorem get_rewrite {qs : List Path} {content : Bytes} {x : Path} (hx : x ∉ qs) :
    (rewrite fs qs content).get x = fs.get x := by
  have hlookup : ∀ l : List (Path × Entry),
      (l.map fun y => if qs.contains y.1 then (y.1, Entry.file content) else y).lookup x =
        l.lookup x := by
    intro l
    induction l with
    | nil => rfl
    | cons y l ih =>
        obtain ⟨k, e⟩ := y
        rw [List.map_cons]
        by_cases hk : x = k
        · subst hk
          have hnot : ¬ qs.contains x = true := fun h => hx (List.contains_iff_mem.mp h)
          rw [if_neg hnot, List.lookup_cons_self, List.lookup_cons_self]
        · have hb : (x == k) = false := beq_eq_false_iff_ne.mpr hk
          by_cases hmem : qs.contains k = true
          · rw [if_pos hmem, List.lookup_cons, List.lookup_cons, hb]
            exact ih
          · rw [if_neg hmem, List.lookup_cons, List.lookup_cons, hb]
            exact ih
  unfold rewrite Tree.get
  split
  · rfl
  · exact hlookup fs.nodes

/-- The log of steps has grown, and if all of its steps are safe the disk was changed within. -/
structure Kept (D : Path) (d d' : Disk) : Prop where
  steps : d.steps <:+ d'.steps
  within : (∀ s ∈ d'.steps, s.Safe D) → Within D d d'

namespace Kept

variable {d'' : Disk}

theorem refl (D : Path) (d : Disk) : Kept D d d := ⟨List.suffix_rfl, fun _ => .refl D d⟩

theorem trans (h : Kept D d d') (h' : Kept D d' d'') : Kept D d d'' where
  steps := h.steps.trans h'.steps
  within hsafe :=
    (h.within fun s hs => hsafe s (h'.steps.subset hs)).trans (h'.within hsafe)

/-- A call whose condition a step of the log promises. -/
theorem call {C : Prop} {s : TarStep} (h : Call D C d d') (hs : s ∈ d.steps)
    (hC : s.Safe D → C) : Kept D d d' where
  steps := h.steps ▸ List.suffix_rfl
  within hsafe := h.within (hC (hsafe s (h.steps ▸ hs)))

theorem log (D : Path) (d : Disk) (act : TarAct) : Kept D d (d.log act) where
  steps := List.suffix_cons _ _
  within _ := ⟨fun _ h => .inl h, fun _ _ => rfl⟩

theorem andThen {r : Effect} {k : Disk → Effect} (hr : Kept D d r.1) (hk : Kept D r.1 (k r.1).1) :
    Kept D d (r.andThen k).1 := by
  unfold Lib.Outcome.andThen
  split
  · exact hr.trans hk
  · exact hr

end Kept

section Again

variable {again : Nat → Disk → Effect} {found : Option Nat}

end Again

section Unpack

variable {sha256 : Bytes → String} {loads : Bytes → Option PacksetManifest}

/-- Reading the manifest and the packs changes nothing. -/
theorem unpack_disk (depth : Nat) (bundle : List Member) (dest : Path) (d : Disk) :
    (unpackPacksetBundle sha256 loads depth bundle dest d).1 =
      ((makeDest dest d).andThen (safeExtract depth dest bundle)).1 := by
  unfold unpackPacksetBundle
  split
  · rename_i h
    rw [h]
  · rename_i h
    rw [h]
    split
    · rfl
    · rfl

end Unpack

/-! ### Two bundles -/

/-- A host with one file of its own beside the destination. -/
def hostDisk : Disk where
  world := ⟨⟨[(["srv"], .dir), (["srv", "etc"], .dir), (["srv", "etc", "passwd"], .file [1])]⟩, []⟩
  ino _ := 0
  next := 1
  steps := []

end CccStorage.Bundle
