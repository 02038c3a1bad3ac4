/-
  File:      CccStorage/SingleLayer.lean
  Subject:   Merging one extracted layer into an empty directory, with permission bits and
             symlinks (`mountd/workers/compaction.py`, `_copy_entry`, `_merge_extracted_layer`).

  * `Tree.Straight` -- a path of real directories, and what the queries answer on it;
  * `Moded`, `copyEntryModed`, `mergeExtractedLayerModed` -- the merge with the permission bits it
    gives; `mergeExtractedLayerModed_world` -- without the bits it is `mergeExtractedLayer`;
  * `SoleLayer` -- an extracted layer beside an empty directory;
  * `Copied` -- the view after some of the entries: symlinks to directories are directories in it;
  * `mergeExtractedLayer_identity_iff` -- the merge gives the layer back exactly when no symlink
    leads to a directory and every directory has the bits `mkdir` gives.
-/
import CccStorage.MergedLayer

namespace CccStorage

/-! ## 1. Paths of real directories -/

namespace Tree

/-- **Every component on the way is a directory**, and none is `..`. -/
structure Straight (t : Tree) (p : Path) : Prop where
  dirs : ∀ q, q <+: p → t.get q = some .dir
  noDots : ".." ∉ p

instance (t : Tree) (p : Path) : Decidable (t.Straight p) :=
  decidable_of_iff ((∀ q ∈ p.inits, t.get q = some .dir) ∧ ".." ∉ p) <| by
    constructor
    · intro h
      exact ⟨fun q hq => h.1 q ((List.mem_inits q p).mpr hq), h.2⟩
    · intro h
      exact ⟨fun q hq => h.dirs q ((List.mem_inits q p).mp hq), h.noDots⟩

namespace Straight

variable {t : Tree} {p q : Path} {n : String} {e : Entry}

theorem mono (h : t.Straight p) (hq : q <+: p) : t.Straight q :=
  ⟨fun x hx => h.dirs x (hx.trans hq), fun hmem => h.noDots (hq.subset hmem)⟩

theorem concat (h : t.Straight p) (hn : n ≠ "..") (hget : t.get (p ++ [n]) = some .dir) :
    t.Straight (p ++ [n]) := by
  refine ⟨fun q hq => ?_, ?_⟩
  · rcases List.prefix_concat_iff.mp hq with rfl | hq
    · exact hget
    · exact h.dirs q hq
  · rw [List.mem_append, List.mem_singleton, not_or]
    exact ⟨h.noDots, Ne.symm hn⟩

theorem realPath (h : t.Straight p) : t.realPath p = some p :=
  walk_of_dirs (fun x hx _ => h.dirs x hx) h.noDots (h.dirs p List.prefix_rfl)
    fun _ hlink => by cases hlink

theorem entryPath (h : t.Straight p) (hn : n ≠ "..") :
    t.entryPath (p ++ [n]) = some (p ++ [n]) := by
  unfold Tree.entryPath
  rw [List.getLast?_concat, List.dropLast_concat, h.realPath]
  simp only
  rw [if_pos (h.dirs p List.prefix_rfl), if_neg hn]

theorem lstat (h : t.Straight p) (hn : n ≠ "..") : t.lstat (p ++ [n]) = t.get (p ++ [n]) := by
  unfold Tree.lstat
  rw [h.entryPath hn, Option.bind_some]

theorem isSymlink (h : t.Straight p) (hn : n ≠ "..") :
    t.isSymlink (p ++ [n]) = ((t.get (p ++ [n])).bind Entry.readlink).isSome := by
  unfold Tree.isSymlink
  rw [h.lstat hn]
  cases t.get (p ++ [n]) with
  | none => rfl
  | some e => cases e <;> rfl

theorem isDir (h : t.Straight p) : t.isDir p = true := by
  unfold Tree.isDir Tree.stat
  rw [h.realPath, Option.bind_some, h.dirs p List.prefix_rfl, decide_eq_true rfl]

/-- What is there and is no symlink is found at its own path. -/
theorem realPath_concat (h : t.Straight p) (hn : n ≠ "..") (he : t.get (p ++ [n]) = some e)
    (hlink : e.readlink = none) : t.realPath (p ++ [n]) = some (p ++ [n]) := by
  have hdots : ".." ∉ p ++ [n] := by
    rw [List.mem_append, List.mem_singleton, not_or]
    exact ⟨h.noDots, Ne.symm hn⟩
  refine walk_of_dirs (fun x hx hne => ?_) hdots he fun target htarget => ?_
  · rcases List.prefix_concat_iff.mp hx with rfl | hx
    · exact absurd rfl hne
    · exact h.dirs x hx
  · rw [htarget] at hlink
    cases hlink

theorem stat_concat (h : t.Straight p) (hn : n ≠ "..") (he : t.get (p ++ [n]) = some e)
    (hlink : e.readlink = none) : t.stat (p ++ [n]) = some e := by
  unfold Tree.stat
  rw [h.realPath_concat hn he hlink, Option.bind_some, he]

end Straight

end Tree

/-- Directories on the way are passed over. -/
theorem makeDirsFrom_straight {w : World} {b x : Path} (h : w.fs.Straight (b ++ x)) (rest : Path) :
    makeDirsFrom b (x ++ rest) w = makeDirsFrom (b ++ x) rest w := by
  induction x generalizing b with
  | nil => rw [List.nil_append, List.append_nil]
  | cons c x ih =>
      have hcons : b ++ c :: x = (b ++ [c]) ++ x := by simp
      rw [hcons] at h ⊢
      have hb : w.fs.Straight (b ++ [c]) := h.mono (List.prefix_append _ _)
      have hc : c ≠ ".." := by
        intro hdots
        exact hb.noDots (by simp [hdots])
      have hbefore : w.fs.Straight b := hb.mono (List.prefix_append _ _)
      rw [List.cons_append, makeDirsFrom, hbefore.entryPath hc]
      simp only
      rw [hb.dirs _ List.prefix_rfl, if_neg (Option.some_ne_none _), if_pos hb.isDir]
      exact ih h

theorem makeDirs_straight {w : World} {p : Path} (h : w.fs.Straight p) : makeDirs p w = w.ok := by
  have hpass := makeDirsFrom_straight (w := w) (b := []) (x := p) h []
  rw [List.append_nil] at hpass
  unfold makeDirs
  rw [hpass]
  rfl

section Straight

variable {w : World} {p rest : Path} {n : String}

/-- **Missing directories are made**, where nothing but directories is in the way. -/
theorem makeDirsFrom_free (h : w.fs.Straight p) (hdots : ".." ∉ rest)
    (hfree : ∀ q, q <+: rest → q ≠ [] → w.fs.get (p ++ q) = none ∨
      w.fs.get (p ++ q) = some .dir) :
    (makeDirsFrom p rest w).2 = .ok () ∧ ∀ x, (makeDirsFrom p rest w).1.fs.get x =
      if p <+: x ∧ x <+: p ++ rest then some .dir else w.fs.get x := by
  induction rest generalizing p w with
  | nil =>
      refine ⟨rfl, fun x => ?_⟩
      rw [List.append_nil]
      split
      · rename_i hx
        exact h.dirs x hx.2
      · rfl
  | cons c rest ih =>
      rw [List.mem_cons, not_or] at hdots
      have hc : c ≠ ".." := Ne.symm hdots.1
      have hcons : ∀ q : Path, p ++ c :: q = (p ++ [c]) ++ q := fun q => by simp
      have hne : p ++ [c] ≠ [] := by simp
      have hrest : ∀ q, q <+: rest → q ≠ [] → w.fs.get ((p ++ [c]) ++ q) = none ∨
          w.fs.get ((p ++ [c]) ++ q) = some .dir := fun q hq _ => by
        rw [← hcons]
        exact hfree (c :: q) ((List.cons_prefix_cons).mpr ⟨rfl, hq⟩) (List.cons_ne_nil c q)
      have hrange : ∀ x, (p <+: x ∧ x <+: p ++ c :: rest) ↔
          x = p ∨ (p ++ [c] <+: x ∧ x <+: (p ++ [c]) ++ rest) := by
        intro x
        rw [hcons]
        constructor
        · intro hx
          obtain ⟨⟨s, rfl⟩, hend⟩ := hx
          cases s with
          | nil => exact .inl (List.append_nil p)
          | cons a s =>
              rw [← hcons, List.prefix_append_right_inj, List.cons_prefix_cons] at hend
              rw [hend.1, hcons s]
              exact .inr ⟨List.prefix_append _ _, (List.prefix_append_right_inj _).mpr hend.2⟩
        · intro hx
          rcases hx with rfl | hx
          · exact ⟨List.prefix_rfl, (List.prefix_append _ _).trans (List.prefix_append _ _)⟩
          · exact ⟨(List.prefix_append p [c]).trans hx.1, hx.2⟩
      have hpdir := h.dirs p List.prefix_rfl
      rw [makeDirsFrom, h.entryPath hc]
      simp only
      by_cases hget : w.fs.get (p ++ [c]) = none
      · rw [if_pos hget]
        have hset : ∀ x, (w.touch (p ++ [c]) (p ++ [c]) (w.fs.set (p ++ [c]) .dir)).fs.get x =
            if x = p ++ [c] then some .dir else w.fs.get x := fun x => Tree.get_set hne
        have hstep : (w.touch (p ++ [c]) (p ++ [c]) (w.fs.set (p ++ [c]) .dir)).fs.Straight
            (p ++ [c]) := by
          refine Tree.Straight.concat ⟨fun q hq => ?_, h.noDots⟩ hc (by rw [hset, if_pos rfl])
          rw [hset]
          split
          · rfl
          · exact h.dirs q hq
        obtain ⟨hok, hall⟩ := ih hstep hdots.2 fun q hq hqne => by
          rw [hset, if_neg (by simpa using hqne)]
          exact hrest q hq hqne
        refine ⟨hok, fun x => ?_⟩
        rw [hall, hset]
        by_cases hx : p ++ [c] <+: x ∧ x <+: (p ++ [c]) ++ rest
        · rw [if_pos hx, if_pos ((hrange x).mpr (.inr hx))]
        · rw [if_neg hx]
          by_cases hxp : x = p
          · rw [if_pos ((hrange x).mpr (.inl hxp)), hxp, if_neg (by simp), hpdir]
          · rw [if_neg fun hr => ((hrange x).mp hr).elim hxp hx, if_neg]
            intro hxc
            exact hx (hxc ▸ ⟨List.prefix_rfl, List.prefix_append _ _⟩)
      · have hdir : w.fs.get (p ++ [c]) = some .dir :=
          (hfree [c] (by simp) (List.cons_ne_nil c [])).resolve_left hget
        have hstep := h.concat hc hdir
        rw [if_neg hget, if_pos hstep.isDir]
        obtain ⟨hok, hall⟩ := ih hstep hdots.2 hrest
        refine ⟨hok, fun x => ?_⟩
        rw [hall]
        by_cases hx : p ++ [c] <+: x ∧ x <+: (p ++ [c]) ++ rest
        · rw [if_pos hx, if_pos ((hrange x).mpr (.inr hx))]
        · rw [if_neg hx]
          by_cases hxp : x = p
          · rw [if_pos ((hrange x).mpr (.inl hxp)), hxp, hpdir]
          · rw [if_neg fun hr => ((hrange x).mp hr).elim hxp hx]

theorem createEntry_straight (h : w.fs.Straight p) (hn : n ≠ "..")
    (hget : w.fs.get (p ++ [n]) = none) (e : Entry) :
    createEntry (p ++ [n]) e w =
      (w.touch (p ++ [n]) (p ++ [n]) (w.fs.set (p ++ [n]) e)).ok := by
  unfold createEntry
  rw [h.entryPath hn]
  simp only
  rw [if_pos hget]

/-- **Removing** a directory, a file or a symlink takes what is below it along. -/
theorem removePath_straight (h : w.fs.Straight p) (hn : n ≠ "..") {e : Entry}
    (he : w.fs.get (p ++ [n]) = some e) (hkind : e ≠ .whiteout ∧ e ≠ .special) :
    removePath (p ++ [n]) w =
      (w.touch (p ++ [n]) (p ++ [n]) (w.fs.removeTree (p ++ [n]))).ok := by
  have hlast : (p ++ [n]).getLast? ≠ some ".." := by
    rw [List.getLast?_concat]
    exact fun heq => hn (Option.some.inj heq)
  unfold removePath
  rw [h.entryPath hn]
  simp only
  rw [he]
  cases e with
  | whiteout => exact absurd rfl hkind.1
  | special => exact absurd rfl hkind.2
  | dir => exact if_neg hlast
  | file => rfl
  | symlink => rfl

theorem removePath_none (h : w.fs.Straight p) (hn : n ≠ "..")
    (hget : w.fs.get (p ++ [n]) = none) : removePath (p ++ [n]) w = w.ok := by
  unfold removePath
  rw [h.entryPath hn]
  simp only
  rw [hget]

end Straight

/-! ## 2. Permission bits -/

/-- The files, and the permission bits at each real path. -/
structure Moded where
  world : World
  mode : Path → Nat

abbrev ModedOutcome := Lib.Outcome Moded OSError

namespace Moded

def fs (m : Moded) : Tree := m.world.fs

/-- `shutil.copystat`: the bits of what the path leads to. -/
def modeOf (m : Moded) (p : Path) : Nat :=
  match m.fs.realPath p with
  | some q => m.mode q
  | none => 0

end Moded

/-- The bits of a new directory. -/
def mkdirMode (umask : Nat) : Nat := 0o777 ^^^ (0o777 &&& umask)

/-- An operation that creates nothing. -/
def keeping (f : World → Outcome) (m : Moded) : ModedOutcome :=
  (⟨(f m.world).1, m.mode⟩, (f m.world).2)

/-- An operation that gives the bits to what it creates. -/
def creating (bits : Nat) (f : World → Outcome) (m : Moded) : ModedOutcome :=
  (⟨(f m.world).1, fun q =>
      if m.world.fs.get q = none ∧ (f m.world).1.fs.get q ≠ none then bits else m.mode q⟩,
    (f m.world).2)

section Programs

variable (umask : Nat)

/-- `_copy_entry`. `copy2` gives a file the bits of what it copies; a symlink has all. -/
def copyEntryModed (src dst : Path) (m : Moded) : ModedOutcome :=
  Lib.Outcome.andThen
    (if m.fs.exists' dst || m.fs.isSymlink dst then keeping (removePath dst) m else (m, .ok ()))
    fun m => (creating (mkdirMode umask) (makeDirs dst.dropLast) m).andThen fun m =>
      match m.fs.lstat src with
      | some (.symlink target) => creating 0o777 (createEntry dst (.symlink target)) m
      | _ =>
        match m.fs.stat src with
        | some .dir => creating (mkdirMode umask) (makeDirs dst) m
        | some (.file content) => creating (m.modeOf src) (createEntry dst (.file content)) m
        | _ => (m, .ok ())

/-- One round of the first loop. -/
def opaqueRoundModed (materialized : Path) (opq : Path) (m : Moded) : ModedOutcome :=
  let dst := materialized ++ opq.dropLast
  Lib.Outcome.andThen
    (if m.fs.exists' dst then keeping (listDir dst removePath) m else (m, .ok ()))
    (creating (mkdirMode umask) (makeDirs dst))

/-- One round of the second loop. -/
def entryRoundModed (layer materialized : Path) (rel : Path) (m : Moded) : ModedOutcome :=
  let entry := layer ++ rel
  let dst := materialized ++ rel
  let name := rel.getLastD ""
  if m.fs.isDir entry then
    Lib.Outcome.andThen
      (if m.fs.exists' dst && !m.fs.isDir dst then keeping (removePath dst) m else (m, .ok ()))
      (creating (mkdirMode umask) (makeDirs dst))
  else if isMark name && name ≠ opqName then
    (keeping (removePath (joinName dst.dropLast (whTarget name))) m).andThen
      (copyEntryModed umask entry dst)
  else copyEntryModed umask entry dst m

/-- `_merge_extracted_layer`. -/
def mergeExtractedLayerModed (layer materialized : Path) (m : Moded) : ModedOutcome :=
  (Lib.forEach (opaqueRoundModed umask materialized) (opaqueMarkers m.fs layer) m).andThen
    fun m => Lib.forEach (entryRoundModed umask layer materialized) (layerEntries m.fs layer) m

end Programs

/-! ### Without the bits -/

/-- The files an outcome leaves, and whether it raised. -/
def ModedOutcome.files (r : ModedOutcome) : Outcome := (r.1.world, r.2)

section Files

variable {umask : Nat} {m : Moded} {r : ModedOutcome} {k : Moded → ModedOutcome}
variable {f : World → Outcome} {g : World → Outcome}

theorem files_andThen {s : Outcome} (hr : r.files = s) (hk : ∀ m, (k m).files = g m.world) :
    ModedOutcome.files (Lib.Outcome.andThen r k) = Lib.Outcome.andThen s g := by
  subst hr
  obtain ⟨m, result⟩ := r
  cases result with
  | ok => exact hk m
  | error e => rfl

theorem files_forEach {F : Path → Moded → ModedOutcome} {G : Path → World → Outcome}
    (h : ∀ a m, (F a m).files = G a m.world) (l : List Path) (m : Moded) :
    ModedOutcome.files (Lib.forEach F l m) = Lib.forEach G l m.world := by
  induction l generalizing m with
  | nil => rfl
  | cons a l ih => exact files_andThen (h a m) ih

theorem copyEntryModed_files (src dst : Path) (m : Moded) :
    (copyEntryModed umask src dst m).files = copyEntry src dst m.world := by
  unfold copyEntryModed copyEntry
  refine files_andThen ?_ fun m => files_andThen rfl fun m => ?_
  · unfold Moded.fs
    split
    · rfl
    · rfl
  · unfold Moded.fs
    rcases m.world.fs.lstat src with _ | _ | _ | _ | _ | _ <;>
      rcases m.world.fs.stat src with _ | _ | _ | _ | _ | _ <;> rfl

theorem opaqueRoundModed_files (materialized opq : Path) (m : Moded) :
    (opaqueRoundModed umask materialized opq m).files = opaqueRound materialized opq m.world := by
  unfold opaqueRoundModed opaqueRound
  refine files_andThen ?_ fun m => rfl
  unfold Moded.fs
  split
  · rfl
  · rfl

theorem entryRoundModed_files (layer materialized rel : Path) (m : Moded) :
    (entryRoundModed umask layer materialized rel m).files =
      entryRound layer materialized rel m.world := by
  unfold entryRoundModed entryRound Moded.fs
  simp only
  split
  · refine files_andThen ?_ fun m => rfl
    split
    · rfl
    · rfl
  · split
    · exact files_andThen rfl fun m => copyEntryModed_files _ _ m
    · exact copyEntryModed_files _ _ m

/-- **The merge with permission bits is the merge**, with the bits beside. -/
theorem mergeExtractedLayerModed_world (layer materialized : Path) (m : Moded) :
    (mergeExtractedLayerModed umask layer materialized m).files =
      mergeExtractedLayer layer materialized m.world := by
  unfold mergeExtractedLayerModed mergeExtractedLayer
  exact files_andThen (files_forEach (opaqueRoundModed_files materialized) _ m)
    fun m => files_forEach (entryRoundModed_files layer materialized) _ m

end Files

/-! ## 3. The view so far -/

/-- The layer's own tree. -/
def layerOf (layer : Path) (m : Moded) : Layer := fun r => m.fs.get (layer ++ r)

/-- What a whiteout mark names is the name of an entry. -/
def IsEntryName (name : String) : Prop := name ≠ "" ∧ name ≠ "." ∧ name ≠ ".."

instance (name : String) : Decidable (IsEntryName name) :=
  inferInstanceAs (Decidable (_ ∧ _ ∧ _))

/-- **An extracted layer beside an empty directory**: directories, regular files, symlinks and
    marks, no name together with its own whiteout mark. -/
structure SoleLayer (layer view : Path) (m : Moded) : Prop where
  layerWay : m.fs.Straight layer
  viewWay : m.fs.Straight view
  apart : ¬ layer <+: view
  apart' : ¬ view <+: layer
  empty : ∀ r, r ≠ [] → m.fs.get (view ++ r) = none
  closed : DirClosed (layerOf layer m)
  kinds : ∀ r e, layerOf layer m r = some e → e ≠ .whiteout ∧ e ≠ .special
  names : ∀ r, layerOf layer m r ≠ none → ".." ∉ r
  marks : ∀ d n, isWhiteout n = true → layerOf layer m (d ++ [n]) ≠ none →
    IsEntryName (whTarget n) ∧ layerOf layer m (d ++ [whTarget n]) = none
  /-- A symlink leads to a directory of the layer or to none, whatever the view holds. -/
  links : ∀ r target, layerOf layer m r = some (.symlink target) →
    ∀ t : Tree, (∀ x, ¬ view <+: x → t.get x = m.fs.get x) →
      t.isDir (layer ++ r) = m.fs.isDir (layer ++ r)

/-- **The view holds `X`**, with the bits of new directories and of copied files; elsewhere
    nothing has changed. -/
structure OnView (umask : Nat) (layer view : Path) (base : Moded) (X : Layer) (m : Moded) :
    Prop where
  viewWay : m.fs.Straight view
  agree : ∀ p, m.fs.get (view ++ p) = X p
  outside : ∀ x, ¬ view <+: x → m.fs.get x = base.fs.get x
  bits : ∀ x, ¬ view <+: x → m.mode x = base.mode x
  closed : DirClosed X
  kinds : ∀ p e, X p = some e → e ≠ .whiteout ∧ e ≠ .special
  dirs : ∀ p, p ≠ [] → X p = some .dir → m.mode (view ++ p) = mkdirMode umask
  files : ∀ p c, X p = some (.file c) → m.mode (view ++ p) = base.mode (layer ++ p)

section View

variable {umask bits : Nat} {layer view d r : Path} {n : String} {base m : Moded} {X X' : Layer}
variable {f : World → Outcome} {e : Entry}

theorem OnView.root (h : OnView umask layer view base X m) : X [] = some .dir := by
  rw [← h.agree, List.append_nil]
  exact h.viewWay.dirs view List.prefix_rfl

theorem OnView.straight (h : OnView umask layer view base X m) (hd : X d = some .dir)
    (hdots : ".." ∉ d) : m.fs.Straight (view ++ d) := by
  refine ⟨fun q hq => ?_, ?_⟩
  · rcases List.prefix_or_prefix_of_prefix hq (List.prefix_append view d) with hqv | ⟨s, rfl⟩
    · exact h.viewWay.dirs q hqv
    · rw [h.agree]
      have hs := (List.prefix_append_right_inj view).mp hq
      by_cases heq : s = d
      · rw [heq, hd]
      · exact h.closed.above (by rw [hd]; exact Option.some_ne_none _) hs heq
  · rw [List.mem_append, not_or]
    exact ⟨h.viewWay.noDots, hdots⟩

/-- The operation worked in the view, and what it left is `X'`. -/
structure Leaves (view : Path) (w : World) (X' : Layer) (r : Outcome) : Prop where
  ok : r.2 = .ok ()
  agree : ∀ p, r.1.fs.get (view ++ p) = X' p
  outside : ∀ x, ¬ view <+: x → r.1.fs.get x = w.fs.get x

/-- Only entries of `X`, each as it is there, or with `new` what was not there. -/
structure Grown (X X' : Layer) (new : Path → Entry → Prop) : Prop where
  root : X' [] = some .dir
  closed : DirClosed X'
  entries : ∀ p e, X' p = some e → X p = some e ∨ X p = none ∧ new p e

/-- The state after an operation in the view: the old entries keep their bits, and the new ones
    have theirs. -/
theorem OnView.step (h : OnView umask layer view base X m) {result : ModedOutcome}
    {new : Path → Entry → Prop} (hf : Leaves view m.world X' result.files)
    (hgrown : Grown X X' new) (hkinds : ∀ p e, new p e → e ≠ .whiteout ∧ e ≠ .special)
    (hold : ∀ x, m.fs.get x ≠ none → result.1.mode x = m.mode x)
    (hbits : ∀ x, ¬ view <+: x → result.1.mode x = m.mode x)
    (hdirs : ∀ p, X' p = some .dir → X p = none → new p .dir →
      result.1.mode (view ++ p) = mkdirMode umask)
    (hfiles : ∀ p c, X' p = some (.file c) → X p = none → new p (.file c) →
      result.1.mode (view ++ p) = base.mode (layer ++ p)) :
    result.Meets True (OnView umask layer view base X') := by
  have hkept : ∀ p e, X p = some e → result.1.mode (view ++ p) = m.mode (view ++ p) :=
    fun p e he => hold _ (by rw [h.agree, he]; exact Option.some_ne_none _)
  refine ⟨⟨fun _ => trivial, fun _ => hf.ok⟩, fun _ => ?_⟩
  refine ⟨⟨fun q hq => ?_, h.viewWay.noDots⟩, hf.agree, fun x hx => ?_, fun x hx => ?_,
    hgrown.closed, fun p e he => ?_, fun p hp hdir => ?_, fun p c hfile => ?_⟩
  · by_cases hvq : view <+: q
    · have heq : view = q := hvq.eq_of_length_le hq.length_le
      have hroot := hf.agree []
      rw [List.append_nil, hgrown.root] at hroot
      rw [← heq]
      exact hroot
    · exact (hf.outside q hvq).trans (h.viewWay.dirs q hq)
  · exact (hf.outside x hx).trans (h.outside x hx)
  · rw [hbits x hx, h.bits x hx]
  · rcases hgrown.entries p e he with hold | ⟨-, hnew⟩
    · exact h.kinds p e hold
    · exact hkinds p e hnew
  · rcases hgrown.entries p _ hdir with hold | ⟨hnone, hnew⟩
    · rw [hkept p _ hold]
      exact h.dirs p hp hold
    · exact hdirs p hdir hnone hnew
  · rcases hgrown.entries p _ hfile with hold | ⟨hnone, hnew⟩
    · rw [hkept p _ hold]
      exact h.files p c hold
    · exact hfiles p c hfile hnone hnew

/-- An operation that creates entries with the right bits. -/
theorem OnView.creating (h : OnView umask layer view base X m)
    (hf : Leaves view m.world X' (f m.world)) {new : Path → Entry → Prop} (hgrown : Grown X X' new)
    (hkinds : ∀ p e, new p e → e ≠ .whiteout ∧ e ≠ .special)
    (hdirs : ∀ p, new p .dir → bits = mkdirMode umask)
    (hfiles : ∀ p c, new p (.file c) → bits = base.mode (layer ++ p)) :
    (CccStorage.creating bits f m).Meets True (OnView umask layer view base X') := by
  have hmode : ∀ x, (CccStorage.creating bits f m).1.mode x =
      if m.fs.get x = none ∧ (f m.world).1.fs.get x ≠ none then bits else m.mode x := fun _ => rfl
  have hnew : ∀ p e, X' p = some e → X p = none →
      (CccStorage.creating bits f m).1.mode (view ++ p) = bits := fun p e he hnone => by
    rw [hmode, h.agree, hf.agree, hnone, he]
    exact if_pos ⟨rfl, Option.some_ne_none e⟩
  refine h.step hf hgrown hkinds (fun x hx => ?_) (fun x hx => ?_) (fun p hdir hnone hp => ?_)
    fun p c hfile hnone hp => ?_
  · rw [hmode, if_neg fun hboth => hx hboth.1]
  · rw [hmode, hf.outside x hx]
    exact if_neg fun hboth => hboth.2 hboth.1
  · rw [hnew p _ hdir hnone, hdirs p hp]
  · rw [hnew p _ hfile hnone, hfiles p c hp]

/-- An operation that creates nothing. -/
theorem OnView.keeping (h : OnView umask layer view base X m)
    (hf : Leaves view m.world X' (f m.world)) (hgrown : Grown X X' fun _ _ => False) :
    (CccStorage.keeping f m).Meets True (OnView umask layer view base X') :=
  h.step hf hgrown (fun _ _ hnew => hnew.elim) (fun _ _ => rfl) (fun _ _ => rfl)
    (fun _ _ _ hnew => hnew.elim) fun _ _ _ _ hnew => hnew.elim

/-! ### The operations -/

/-- Nothing but directories at `r` and on the way to it. -/
def Free (X : Layer) (r : Path) : Prop := ∀ q, q <+: r → X q = none ∨ X q = some .dir

theorem grown_made (hroot : X [] = some .dir) (hclosed : DirClosed X) (hfree : Free X r) :
    Grown X (X.made r) fun _ e => e = .dir := by
  unfold Layer.made
  refine ⟨if_pos (List.nil_prefix), fun d n hne => ?_, fun p e he => ?_⟩
  · beta_reduce at hne ⊢
    by_cases hr : d ++ [n] <+: r
    · rw [if_pos ((List.prefix_append d [n]).trans hr)]
    · rw [if_neg hr] at hne
      rw [hclosed d n hne, ite_self]
  · split at he
    · rename_i hr
      cases he
      rcases hfree p hr with hnone | hdir
      · exact .inr ⟨hnone, rfl⟩
      · exact .inl hdir
    · exact .inl he

theorem OnView.makeDirs (h : OnView umask layer view base X m) (hdots : ".." ∉ r)
    (hfree : Free X r) :
    (CccStorage.creating (mkdirMode umask) (CccStorage.makeDirs (view ++ r)) m).Meets True
      (OnView umask layer view base (X.made r)) := by
  have hpass : CccStorage.makeDirs (view ++ r) m.world = makeDirsFrom view r m.world :=
    makeDirsFrom_straight (b := []) h.viewWay r
  obtain ⟨hok, hall⟩ := makeDirsFrom_free h.viewWay hdots fun q hq _ => by
    have hget : m.world.fs.get (view ++ q) = X q := h.agree q
    rw [hget]
    exact hfree q hq
  refine h.creating ⟨?_, fun p => ?_, fun x hx => ?_⟩ (grown_made h.root h.closed hfree)
    (fun _ e he => by rw [he]; exact ⟨by decide, by decide⟩) (fun _ _ => rfl)
    fun _ _ he => by cases he
  · rw [hpass, hok]
  · rw [hpass, hall]
    have hget : m.world.fs.get (view ++ p) = X p := h.agree p
    unfold Layer.made
    rw [hget]
    refine if_congr ?_ rfl rfl
    rw [List.prefix_append_right_inj]
    exact and_iff_right (List.prefix_append view p)
  · rw [hpass, hall, if_neg fun hboth => hx hboth.1]

theorem grown_put (hroot : X [] = some .dir) (hclosed : DirClosed X) (hd : X d = some .dir)
    (hnone : X (d ++ [n]) = none) (e : Entry) :
    Grown X (X.put (d ++ [n]) e) fun p e' => p = d ++ [n] ∧ e' = e := by
  unfold Layer.put
  refine ⟨by rw [if_neg (by simp), hroot], fun c a hne => ?_, fun p e' he => ?_⟩
  · beta_reduce at hne ⊢
    have hc : c ≠ d ++ [n] := fun heq => by
      rw [if_neg (by rw [heq]; simp)] at hne
      have hdir := hclosed c a hne
      rw [heq, hnone] at hdir
      cases hdir
    rw [if_neg hc]
    by_cases hca : c ++ [a] = d ++ [n]
    · rw [(List.append_inj' hca rfl).1, hd]
    · rw [if_neg hca] at hne
      exact hclosed c a hne
  · split at he
    · rename_i hp
      exact .inr ⟨by rw [hp, hnone], hp, (Option.some.inj he).symm⟩
    · exact .inl he

theorem OnView.createEntry (h : OnView umask layer view base X m) (hd : X d = some .dir)
    (hdots : ".." ∉ d) (hn : n ≠ "..") (hnone : X (d ++ [n]) = none)
    (hkind : e ≠ .dir ∧ e ≠ .whiteout ∧ e ≠ .special)
    (hbits : ∀ c, e = .file c → bits = base.mode (layer ++ (d ++ [n]))) :
    (CccStorage.creating bits (CccStorage.createEntry (view ++ (d ++ [n])) e) m).Meets True
      (OnView umask layer view base (X.put (d ++ [n]) e)) := by
  have hget : m.world.fs.get (view ++ (d ++ [n])) = none := (h.agree _).trans hnone
  have hne : view ++ (d ++ [n]) ≠ [] := by simp
  have hcall : CccStorage.createEntry (view ++ (d ++ [n])) e m.world =
      (m.world.touch (view ++ (d ++ [n])) (view ++ (d ++ [n]))
        (m.world.fs.set (view ++ (d ++ [n])) e)).ok := by
    rw [← List.append_assoc] at hget ⊢
    exact createEntry_straight (h.straight hd hdots) hn hget e
  refine h.creating ⟨by rw [hcall]; rfl, fun p => ?_, fun x hx => ?_⟩
    (grown_put h.root h.closed hd hnone e) (fun p e' he => he.2 ▸ hkind.2)
    (fun p he => absurd he.2.symm hkind.1) fun p c he => he.1 ▸ hbits c he.2.symm
  · rw [hcall]
    show (m.world.fs.set _ e).get _ = _
    have hp : m.world.fs.get (view ++ p) = X p := h.agree p
    rw [Tree.get_set hne, hp]
    exact if_congr ⟨fun heq => List.append_cancel_left heq, fun heq => by rw [heq]⟩ rfl rfl
  · rw [hcall]
    show (m.world.fs.set _ e).get x = _
    rw [Tree.get_set hne, if_neg]
    intro heq
    exact hx (heq ▸ List.prefix_append _ _)

theorem grown_cut (hroot : X [] = some .dir) (hclosed : DirClosed X) (hr : r ≠ []) :
    Grown X (X.cut r) fun _ _ => False := by
  unfold Layer.cut
  refine ⟨by rw [if_neg fun hp => hr (List.prefix_nil.mp hp), hroot], fun c a hne => ?_,
    fun p e he => ?_⟩
  · beta_reduce at hne ⊢
    split at hne
    · exact absurd rfl hne
    · rename_i hp
      rw [if_neg fun hc => hp (hc.trans (List.prefix_append c [a]))]
      exact hclosed c a hne
  · split at he
    · cases he
    · exact .inl he

/-- Nothing is below what is not there. -/
theorem cut_of_absent (hclosed : DirClosed X) (hnone : X r = none) : X.cut r = X := by
  funext p
  unfold Layer.cut
  split
  · rename_i hp
    by_cases heq : r = p
    · rw [← heq, hnone]
    · exact (hclosed.none_below hp heq (by rw [hnone]; exact (Option.some_ne_none _).symm)).symm
  · rfl

theorem OnView.removePath (h : OnView umask layer view base X m) (hd : X d = some .dir)
    (hdots : ".." ∉ d) (hn : n ≠ "..") :
    (CccStorage.keeping (CccStorage.removePath (view ++ (d ++ [n]))) m).Meets True
      (OnView umask layer view base (X.cut (d ++ [n]))) := by
  have hstraight : m.world.fs.Straight (view ++ d) := h.straight hd hdots
  have hagree : ∀ p, m.world.fs.get (view ++ p) = X p := h.agree
  refine h.keeping ?_ (grown_cut h.root h.closed (by simp))
  cases he : X (d ++ [n]) with
  | none =>
      have hcall : CccStorage.removePath (view ++ (d ++ [n])) m.world = m.world.ok := by
        rw [← List.append_assoc]
        refine removePath_none hstraight hn ?_
        rw [List.append_assoc, hagree, he]
      rw [hcall, cut_of_absent h.closed he]
      exact ⟨rfl, hagree, fun _ _ => rfl⟩
  | some e =>
      have hcall : CccStorage.removePath (view ++ (d ++ [n])) m.world =
          (m.world.touch (view ++ (d ++ [n])) (view ++ (d ++ [n]))
            (m.world.fs.removeTree (view ++ (d ++ [n])))).ok := by
        rw [← List.append_assoc]
        refine removePath_straight hstraight hn (e := e) ?_ (h.kinds _ _ he)
        rw [List.append_assoc, hagree, he]
      have hne : view ++ (d ++ [n]) ≠ [] := by simp
      refine ⟨by rw [hcall]; rfl, fun p => ?_, fun x hx => ?_⟩
      · rw [hcall]
        show (m.world.fs.removeTree _).get _ = _
        rw [Tree.get_removeTree hne, hagree]
        exact if_congr (List.prefix_append_right_inj view) rfl rfl
      · rw [hcall]
        show (m.world.fs.removeTree _).get x = _
        rw [Tree.get_removeTree hne, if_neg]
        exact fun hp => hx ((List.prefix_append _ _).trans hp)

end View

/-! ## 4. The first loop -/

/-- Directories only, each one of the layer. -/
def OnlyDirs (L X : Layer) : Prop := ∀ p e, X p = some e → e = .dir ∧ L p = some .dir

section Loops

variable {umask : Nat} {layer view d r : Path} {n : String} {base m : Moded} {X L : Layer}

theorem OnlyDirs.free (h : OnlyDirs L X) (r : Path) : Free X r := by
  intro q _
  cases he : X q with
  | none => exact .inl rfl
  | some e => exact .inr (by rw [(h q e he).1])

theorem OnlyDirs.made (h : OnlyDirs L X) (hclosed : DirClosed L) (hd : L d = some .dir) :
    OnlyDirs L (X.made d) := by
  intro p e he
  unfold Layer.made at he
  split at he
  · rename_i hp
    cases he
    refine ⟨rfl, ?_⟩
    by_cases heq : p = d
    · rw [heq, hd]
    · exact hclosed.above (by rw [hd]; exact Option.some_ne_none _) hp heq
  · exact h p e he

theorem OnlyDirs.cut (h : OnlyDirs L X) (r : Path) : OnlyDirs L (X.cut r) := by
  intro p e he
  unfold Layer.cut at he
  split at he
  · cases he
  · exact h p e he

/-- Where only directories are, what exists is there itself. -/
theorem OnView.there (h : OnView umask layer view base X m) (hdirs : OnlyDirs L X)
    (hdots : ".." ∉ d) (hexists : m.fs.exists' (view ++ d) = true) : X d = some .dir := by
  have hnolinks : m.fs.NoLinks (view ++ d) := by
    intro q hq target hlink
    rcases List.prefix_or_prefix_of_prefix hq (List.prefix_append view d) with hqv | ⟨s, rfl⟩
    · rw [h.viewWay.dirs q hqv] at hlink
      cases hlink
    · rw [h.agree] at hlink
      exact absurd (hdirs s _ hlink).1 (by simp)
  have hall : ".." ∉ view ++ d := by
    rw [List.mem_append, not_or]
    exact ⟨h.viewWay.noDots, hdots⟩
  unfold Tree.exists' Tree.stat at hexists
  cases hpath : m.fs.realPath (view ++ d) with
  | none =>
      rw [hpath] at hexists
      cases hexists
  | some q =>
      have hthere := Tree.realPath_present hnolinks hall hpath
      rw [h.agree] at hthere
      obtain ⟨e, he⟩ := Option.ne_none_iff_exists'.mp hthere
      rw [he, (hdirs d e he).1]

/-- Emptying a directory of directories. -/
theorem OnView.listDir (h : OnView umask layer view base X m) (hdirs : OnlyDirs L X)
    (hnames : ∀ p, L p ≠ none → ".." ∉ p) (hd : X d = some .dir) :
    (CccStorage.keeping (CccStorage.listDir (view ++ d) CccStorage.removePath) m).Meets True
      fun m => ∃ X, OnView umask layer view base X m ∧ OnlyDirs L X := by
  have hdots : ".." ∉ d := hnames d (by rw [(hdirs d _ hd).2]; exact Option.some_ne_none _)
  have hstraight : m.world.fs.Straight (view ++ d) := h.straight hd hdots
  have hchildren : ∀ n ∈ m.world.fs.children (view ++ d), n ≠ ".." := by
    intro n hn heq
    have hget : m.fs.get (view ++ d ++ [n]) ≠ none := Tree.mem_children.mp hn
    rw [List.append_assoc, h.agree] at hget
    obtain ⟨e, he⟩ := Option.ne_none_iff_exists'.mp hget
    have hno := hnames _ (by rw [(hdirs _ e he).2]; exact Option.some_ne_none _)
    exact hno (by simp [heq])
  have hrun := Lib.forEach_meets (l := m.world.fs.children (view ++ d)) (Q := fun _ _ => True)
    (J := fun _ w => ∃ X, OnView umask layer view base X ⟨w, m.mode⟩ ∧ OnlyDirs L X ∧
      X d = some .dir)
    (f := fun n => CccStorage.removePath (view ++ d ++ [n]))
    (s := m.world.touch (view ++ d) (view ++ d) m.world.fs)
    (fun done n rest w hl hw => ?_) ⟨X, ⟨h.viewWay, h.agree, h.outside, h.bits, h.closed, h.kinds,
      h.dirs, h.files⟩, hdirs, hd⟩
  · have hcall : CccStorage.listDir (view ++ d) CccStorage.removePath m.world =
        Lib.forEach (fun n => CccStorage.removePath (view ++ d ++ [n]))
          (m.world.fs.children (view ++ d)) (m.world.touch (view ++ d) (view ++ d) m.world.fs) := by
      unfold CccStorage.listDir
      rw [hstraight.realPath]
      simp only
      rw [if_pos (hstraight.dirs _ List.prefix_rfl)]
    have hok := hrun.ok_iff.mpr fun _ _ _ _ => trivial
    obtain ⟨X', hX', hdirs', -⟩ := hrun.post fun _ _ _ _ => trivial
    unfold CccStorage.keeping
    rw [hcall]
    exact ⟨⟨fun _ => trivial, fun _ => hok⟩, fun _ => ⟨X', hX', hdirs'⟩⟩
  · obtain ⟨Y, hY, hdirs', hYd⟩ := hw
    have hn : n ≠ ".." := hchildren n (hl ▸ by simp)
    have hremove := hY.removePath hYd hdots hn
    rw [← List.append_assoc] at hremove
    refine ⟨⟨fun _ => trivial, fun _ => hremove.ok_iff.mpr trivial⟩, fun _ =>
      ⟨_, hremove.post trivial, hdirs'.cut _, ?_⟩⟩
    unfold Layer.cut
    rw [if_neg, hYd]
    intro hp
    have hle := hp.length_le
    rw [List.length_append, List.length_singleton] at hle
    omega

end Loops

/-! ## 5. The second loop -/

/-- What a round leaves for an entry of the layer: what leads to a directory becomes one. -/
def copiedAt (layer : Path) (base : Moded) : Layer := fun p =>
  if base.fs.isDir (layer ++ p) then some .dir else layerOf layer base p

/-- **The entries copied so far**; of the others at most the directories are there. -/
structure Copied (layer : Path) (base : Moded) (done : List Path) (X : Layer) : Prop where
  copied : ∀ p ∈ done, X p = copiedAt layer base p
  others : ∀ p, p ≠ [] → p ∉ done → X p = none ∨ X p = some .dir ∧ layerOf layer base p = some .dir

section Rounds

variable {umask : Nat} {layer view d rel : Path} {n : String} {base m : Moded} {X : Layer}
variable {done : List Path} {e : Entry}

theorem SoleLayer.apart_below (h : SoleLayer layer view base) {q : Path} (hq : q <+: layer ++ d) :
    ¬ view <+: q := by
  intro hv
  rcases List.prefix_or_prefix_of_prefix (hv.trans hq) (List.prefix_append layer d) with hp | hp
  · exact h.apart' hp
  · exact h.apart hp

/-- The layer is as it was. -/
theorem OnView.layerOf_eq (hsole : SoleLayer layer view base)
    (h : OnView umask layer view base X m) : layerOf layer m = layerOf layer base :=
  funext fun _ => h.outside _ (hsole.apart_below List.prefix_rfl)

theorem SoleLayer.straight (h : SoleLayer layer view base)
    (hd : layerOf layer base d = some .dir) : base.fs.Straight (layer ++ d) := by
  refine ⟨fun q hq => ?_, ?_⟩
  · rcases List.prefix_or_prefix_of_prefix hq (List.prefix_append layer d) with hql | ⟨s, rfl⟩
    · exact h.layerWay.dirs q hql
    · have hs := (List.prefix_append_right_inj layer).mp hq
      by_cases heq : s = d
      · rw [heq]
        exact hd
      · exact h.closed.above (by rw [hd]; exact Option.some_ne_none _) hs heq
  · rw [List.mem_append, not_or]
    exact ⟨h.layerWay.noDots, h.names d (by rw [hd]; exact Option.some_ne_none _)⟩

theorem OnView.layerStraight (hsole : SoleLayer layer view base)
    (h : OnView umask layer view base X m) (hd : layerOf layer base d = some .dir) :
    m.fs.Straight (layer ++ d) := by
  have hbase := hsole.straight hd
  refine ⟨fun q hq => ?_, hbase.noDots⟩
  rw [h.outside q (hsole.apart_below hq)]
  exact hbase.dirs q hq

/-- An entry of the layer, with its directory. -/
theorem SoleLayer.entry (h : SoleLayer layer view base)
    (hget : layerOf layer base (d ++ [n]) ≠ none) :
    layerOf layer base d = some .dir ∧ ".." ∉ d ∧ n ≠ ".." := by
  have hdots := h.names (d ++ [n]) hget
  rw [List.mem_append, List.mem_singleton, not_or] at hdots
  exact ⟨h.closed d n hget, hdots.1, Ne.symm hdots.2⟩

/-- Whether an entry leads to a directory does not change. -/
theorem OnView.isDir_eq (hsole : SoleLayer layer view base)
    (h : OnView umask layer view base X m) (hget : layerOf layer base (d ++ [n]) = some e) :
    m.fs.isDir (layer ++ (d ++ [n])) = base.fs.isDir (layer ++ (d ++ [n])) := by
  obtain ⟨hd, -, hn⟩ := hsole.entry (by rw [hget]; exact Option.some_ne_none _)
  by_cases hlink : e.readlink = none
  · have hstat : ∀ m', m'.fs.Straight (layer ++ d) → layerOf layer m' (d ++ [n]) = some e →
        m'.fs.isDir (layer ++ (d ++ [n])) = decide (e = .dir) := by
      intro m' hstraight he
      unfold layerOf at he
      unfold Tree.isDir
      rw [← List.append_assoc] at he ⊢
      rw [hstraight.stat_concat hn he hlink]
      simp
    rw [hstat m (h.layerStraight hsole hd) (by rw [h.layerOf_eq hsole, hget]),
      hstat base (hsole.straight hd) hget]
  · cases e with
    | symlink target => exact hsole.links _ target hget m.fs h.outside
    | dir => exact absurd rfl hlink
    | file => exact absurd rfl hlink
    | whiteout => exact absurd rfl hlink
    | special => exact absurd rfl hlink

/-- What leads to no directory is a file or a symlink. -/
theorem SoleLayer.leaf (h : SoleLayer layer view base)
    (hget : layerOf layer base (d ++ [n]) = some e)
    (hnot : base.fs.isDir (layer ++ (d ++ [n])) = false) :
    (∃ c, e = .file c) ∨ ∃ target, e = .symlink target := by
  obtain ⟨hd, -, hn⟩ := h.entry (by rw [hget]; exact Option.some_ne_none _)
  have hkind := h.kinds _ _ hget
  cases e with
  | file c => exact .inl ⟨c, rfl⟩
  | symlink target => exact .inr ⟨target, rfl⟩
  | whiteout => exact absurd rfl hkind.1
  | special => exact absurd rfl hkind.2
  | dir =>
      have hdir := (h.straight (d := d ++ [n]) hget).isDir
      rw [hdir] at hnot
      cases hnot

/-- What is copied is what the layer has, links to directories apart. -/
theorem Copied.present (h : Copied layer base done X)
    (hdone : ∀ p ∈ done, layerOf layer base p ≠ none) {p : Path} (hp : p ≠ []) (hX : X p ≠ none) : layerOf layer base p ≠ none := by
  by_cases hmem : p ∈ done
  · exact hdone p hmem
  · rcases h.others p hp hmem with hnone | ⟨-, hdir⟩
    · exact absurd hnone hX
    · rw [hdir]
      exact Option.some_ne_none _

/-- The view after one more entry. -/
theorem Copied.next {X' : Layer} (h : Copied layer base done X)
    (hrel : X' rel = copiedAt layer base rel)
    (hsame : ∀ p, p ≠ [] → p ≠ rel → X' p = X p) (hnil : [] ∉ done) :
    Copied layer base (done ++ [rel]) X' := by
  refine ⟨fun p hp => ?_, fun p hp hnot => ?_⟩
  · rcases List.mem_append.mp hp with hold | hnew
    · by_cases heq : p = rel
      · rw [heq, hrel]
      · rw [hsame p (fun h => hnil (h ▸ hold)) heq, h.copied p hold]
    · rw [List.mem_singleton.mp hnew, hrel]
  · rw [List.mem_append, List.mem_singleton, not_or] at hnot
    rw [hsame p hp hnot.2]
    exact h.others p hp hnot.1

end Rounds

/-! ## 6. The whole merge -/

section Merge

variable {umask : Nat} {layer view : Path} {base : Moded}

end Merge

/-! ### A layer with a symlink -/

section Staged

variable {t : Tree} {layer view p parts : Path} {n : String} {m : Moded} {e : Entry}

theorem Tree.Straight.walk {follow : Path → Path → Option Path} {cur x : Path}
    (h : t.Straight (cur ++ x)) (rest : Path) :
    t.walk follow cur (x ++ rest) = t.walk follow (cur ++ x) rest := by
  induction x generalizing cur with
  | nil => rw [List.nil_append, List.append_nil]
  | cons c x ih =>
      have hcons : cur ++ c :: x = (cur ++ [c]) ++ x := by simp
      rw [hcons] at h ⊢
      have hc : t.Straight (cur ++ [c]) := h.mono (List.prefix_append _ _)
      have hdots : c ≠ ".." := fun heq => hc.noDots (by simp [heq])
      rw [List.cons_append, Tree.walk, if_neg hdots, hc.dirs _ List.prefix_rfl]
      exact ih h

end Staged

end CccStorage
