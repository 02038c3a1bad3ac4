/-
  File:      CccStorage/UpperCopy.lean
  Subject:   `prepare_delta_source` with the permission bits (`ccc_storage_pack/builder.py`): the
             copy of a sealed upper that a delta pack is built from.

  A file is copied with its mode; a directory is made anew, and gets the mode that `mkdir` gives. The
  service may read all of the upper.

  * `SealedUpper`, `Copy` -- the upper, and the copy with what was read for it;
  * `copyEntry`, `prepareDeltaSource` -- one entry, and the walk in the order of the paths;
  * `Copied`, `copyEntry_copied` -- what has been copied so far;
  * `Faithful`, `deltaSource_faithful_iff` -- the copy is faithful exactly when every directory has
    the mode of a new one;
  * `privateDir_breaks` -- a directory that only its owner may enter.
-/
import CccStorage.Tree
import Mathlib.Data.List.Infix
import Mathlib.Data.List.Sort

namespace CccStorage.UpperCopy

/-! ## 1. Uppers and copies -/

/-- Permission bits. -/
abbrev FileMode := Nat

inductive UpperEntry where
  | dir (mode : FileMode)
  | file (mode : FileMode) (content : Bytes)
  /-- The text of a link; it may lead anywhere or nowhere. -/
  | symlink (text : String)
  deriving DecidableEq

abbrev Nodes := List (Path × UpperEntry)

/-- A sealed upper, `.wh.*` files among its entries: every entry once, and in directories of the
    upper. -/
structure SealedUpper where
  nodes : Nodes
  nodup : (nodes.map (·.1)).Nodup
  rooted : ∀ x ∈ nodes, x.1 ≠ []
  inDirs : ∀ x ∈ nodes, ∀ q, q ≠ [] → q <+: x.1 → q ≠ x.1 → ∃ mode, (q, UpperEntry.dir mode) ∈ nodes

/-- What is asked about an entry of the upper; `stat` and `read` follow a link. -/
inductive Access where
  | lstat (p : Path)
  | readlink (p : Path)
  | stat (p : Path)
  | read (p : Path)
  deriving DecidableEq

/-- The destination, by path, the files and links counted, and what was asked about the upper. -/
structure Copy where
  nodes : Nodes := []
  copied : Nat := 0
  accesses : List Access := []

/-- A new entry, or a new value of an entry. -/
def put (d : Nodes) (p : Path) (e : UpperEntry) : Nodes := (p, e) :: d.filter fun x => x.1 ≠ p

section Copying

-- the mode of a new directory: `0o777` less the umask
variable (mkdirMode : FileMode)

/-- `mkdir` with `exist_ok`; something else in its place raises. -/
def mkdir (d : Nodes) (q : Path) : Option Nodes :=
  match d.lookup q with
  | none => some (put d q (.dir mkdirMode))
  | some (.dir _) => some d
  | some _ => none

/-- `mkdir(parents=True, exist_ok=True)`. -/
def mkdirs (d : Nodes) (p : Path) : Option Nodes := p.inits.tail.foldlM (mkdir mkdirMode) d

/-- One entry of the walk. -/
def copyEntry (s : Copy) (x : Path × UpperEntry) : Option Copy :=
  match x.2 with
  | .symlink text =>
    (mkdirs mkdirMode s.nodes x.1.dropLast).bind fun d =>
      if (d.lookup x.1).isSome then none
      else some {
        nodes := put d x.1 (.symlink text)
        copied := s.copied + 1
        accesses := s.accesses ++ [.lstat x.1, .readlink x.1] }
  | .dir _ =>
    (mkdirs mkdirMode s.nodes x.1).map fun d =>
      { nodes := d, copied := s.copied, accesses := s.accesses ++ [.lstat x.1, .stat x.1] }
  | .file mode content =>
    (mkdirs mkdirMode s.nodes x.1.dropLast).map fun d =>
      -- `copy2` puts the file into a directory that is in its place
      let target := match d.lookup x.1 with
        | some (.dir _) => x.1 ++ [x.1.getLast?.getD ""]
        | _ => x.1
      { nodes := put d target (.file mode content)
        copied := s.copied + 1
        accesses := s.accesses ++ [.lstat x.1, .stat x.1, .stat x.1, .read x.1] }

/-- **`prepare_delta_source`** into a fresh directory; `none` where it raises. -/
def prepareDeltaSource (u : SealedUpper) : Option Copy :=
  (u.nodes.insertionSort fun x y => x.1 ≤ y.1).foldlM (copyEntry mkdirMode) {}

end Copying

/-! ## 2. A faithful copy -/

/-- Regular files and symlinks. -/
def UpperEntry.isCounted : UpperEntry → Bool
  | .dir _ => false
  | .file _ _ | .symlink _ => true

/-- A question about an entry of the upper, not about what a link in it leads to. -/
def SealedUpper.Inside (u : SealedUpper) : Access → Prop
  | .lstat p | .readlink p => ∃ e, (p, e) ∈ u.nodes
  | .stat p | .read p => ∃ e, (p, e) ∈ u.nodes ∧ ∀ text, e ≠ .symlink text

/-- **The delta source is a faithful copy**: the same paths, kinds, contents, link texts and modes;
    nothing outside the upper is looked at; and the files and links are counted. -/
def Faithful (mkdirMode : FileMode) (u : SealedUpper) : Prop :=
  ∃ s, prepareDeltaSource mkdirMode u = some s ∧ (∀ p, s.nodes.lookup p = u.nodes.lookup p) ∧
    (∀ a ∈ s.accesses, u.Inside a) ∧ s.copied = u.nodes.countP fun x => x.2.isCounted

/-- What becomes of an entry in the copy. -/
def asCopied (mkdirMode : FileMode) : UpperEntry → UpperEntry
  | .dir _ => .dir mkdirMode
  | e => e

/-- What is asked about an entry. -/
def asked (x : Path × UpperEntry) : List Access :=
  match x.2 with
  | .symlink _ => [.lstat x.1, .readlink x.1]
  | .dir _ => [.lstat x.1, .stat x.1]
  | .file _ _ => [.lstat x.1, .stat x.1, .stat x.1, .read x.1]

section Walk

variable {mkdirMode : FileMode} {u : SealedUpper} {d : Nodes} {s : Copy} {p q : Path}
  {x : Path × UpperEntry} {done : Nodes}

/-! ### Directories -/

theorem lookup_put (e : UpperEntry) :
    (put d p e).lookup q = if q = p then some e else d.lookup q := by
  unfold put
  rw [List.lookup_cons]
  by_cases hqp : q = p
  · rw [hqp, beq_self_eq_true, if_pos rfl]
  · rw [beq_eq_false_iff_ne.mpr hqp, if_neg hqp, Tree.lookup_filter (fun a => decide (a ≠ p)),
      decide_eq_true hqp, if_pos rfl]

theorem mkdir_all {qs : List Path} (h : ∀ q ∈ qs, ∀ e, d.lookup q = some e → ∃ m, e = .dir m) :
    ∃ d', qs.foldlM (mkdir mkdirMode) d = some d' ∧
      ∀ k, d'.lookup k = if d.lookup k = none ∧ k ∈ qs then some (.dir mkdirMode)
        else d.lookup k := by
  induction qs generalizing d with
  | nil => exact ⟨d, rfl, fun k => (if_neg fun h => List.not_mem_nil h.2).symm⟩
  | cons q qs ih =>
      obtain ⟨d₁, hd₁, hlookup₁⟩ : ∃ d₁, mkdir mkdirMode d q = some d₁ ∧
          ∀ k, d₁.lookup k = if d.lookup k = none ∧ k = q then some (.dir mkdirMode)
            else d.lookup k := by
        unfold mkdir
        cases hq : d.lookup q with
        | none =>
            refine ⟨_, rfl, fun k => ?_⟩
            rw [lookup_put]
            by_cases hk : k = q
            · rw [hk, if_pos rfl, if_pos ⟨hq, rfl⟩]
            · rw [if_neg hk, if_neg fun h => hk h.2]
        | some e =>
            obtain ⟨m, rfl⟩ := h q List.mem_cons_self e hq
            refine ⟨d, rfl, fun k => (if_neg fun h => ?_).symm⟩
            rw [h.2, hq] at h
            cases h.1
      obtain ⟨d', hd', hlookup'⟩ := @ih d₁ (by
        intro r hr e he
        rw [hlookup₁] at he
        split at he
        · exact ⟨mkdirMode, (Option.some.inj he).symm⟩
        · exact h r (List.mem_cons_of_mem _ hr) e he)
      refine ⟨d', ?_, fun k => ?_⟩
      · rw [List.foldlM_cons, hd₁]
        exact hd'
      · have hat := hlookup' k
        rw [hlookup₁] at hat
        rw [hat]
        by_cases hnone : d.lookup k = none
        · by_cases hk : k = q
          · have hone : (if d.lookup k = none ∧ k = q then some (UpperEntry.dir mkdirMode)
                else d.lookup k) = some (.dir mkdirMode) := if_pos ⟨hnone, hk⟩
            rw [hone, if_neg (fun h => nomatch h.1),
              if_pos ⟨hnone, List.mem_cons.mpr (.inl hk)⟩]
          · have hone : (if d.lookup k = none ∧ k = q then some (UpperEntry.dir mkdirMode)
                else d.lookup k) = d.lookup k := if_neg fun h => hk h.2
            rw [hone]
            by_cases hks : k ∈ qs
            · rw [if_pos ⟨hnone, hks⟩, if_pos ⟨hnone, List.mem_cons_of_mem _ hks⟩]
            · rw [if_neg (fun h => hks h.2), if_neg fun h => (List.mem_cons.mp h.2).elim hk hks]
        · have hone : (if d.lookup k = none ∧ k = q then some (UpperEntry.dir mkdirMode)
              else d.lookup k) = d.lookup k := if_neg fun h => hnone h.1
          rw [hone, if_neg (fun h => hnone h.1), if_neg fun h => hnone h.1]

theorem mem_inits_tail {k : Path} : k ∈ p.inits.tail ↔ k ≠ [] ∧ k <+: p := by
  have hinits : p.inits = [] :: p.inits.tail := by
    cases p with
    | nil => rfl
    | cons a p => rfl
  constructor
  · intro hk
    have hmem : k ∈ p.inits := List.mem_of_mem_tail hk
    refine ⟨fun hnil => ?_, (List.mem_inits k p).mp hmem⟩
    cases p with
    | nil => cases hk
    | cons a p =>
        rw [List.inits_cons, List.tail_cons, hnil] at hk
        obtain ⟨r, -, hr⟩ := List.mem_map.mp hk
        cases hr
  · intro ⟨hne, hpre⟩
    have hmem : k ∈ p.inits := (List.mem_inits k p).mpr hpre
    rw [hinits] at hmem
    exact (List.mem_cons.mp hmem).resolve_left hne

/-- **`mkdirs` makes the directories that are missing**, where nothing else is in the way. -/
theorem mkdirs_spec (h : ∀ q, q ≠ [] → q <+: p → ∀ e, d.lookup q = some e → ∃ m, e = .dir m) :
    ∃ d', mkdirs mkdirMode d p = some d' ∧
      ∀ k, d'.lookup k = if d.lookup k = none ∧ k ≠ [] ∧ k <+: p then some (.dir mkdirMode)
        else d.lookup k := by
  obtain ⟨d', hd', hlookup⟩ := @mkdir_all mkdirMode d p.inits.tail (by
    intro q hq e he
    obtain ⟨hne, hpre⟩ := mem_inits_tail.mp hq
    exact h q hne hpre e he)
  refine ⟨d', hd', fun k => ?_⟩
  rw [hlookup]
  simp only [mem_inits_tail]

/-! ### The walk -/

/-- **What the copy is** when some entries have been copied. -/
structure Copied (mkdirMode : FileMode) (u : SealedUpper) (done : Nodes) (s : Copy) : Prop where
  placed : ∀ x ∈ done, s.nodes.lookup x.1 = some (asCopied mkdirMode x.2)
  only : ∀ p e, s.nodes.lookup p = some e → p ∈ done.map (·.1) ∨
    e = .dir mkdirMode ∧ ∃ m, (p, .dir m) ∈ u.nodes
  count : s.copied = done.countP fun x => x.2.isCounted
  accesses : s.accesses = done.flatMap asked

theorem SealedUpper.entry_unique (hx : x ∈ u.nodes) {e : UpperEntry} (he : (x.1, e) ∈ u.nodes) :
    e = x.2 := by
  have heq := List.inj_on_of_nodup_map u.nodup he hx rfl
  exact congrArg Prod.snd heq

/-- At a proper prefix of an entry the copy has a directory, or nothing yet. -/
theorem Copied.prefix_dir (h : Copied mkdirMode u done s) (hdone : ∀ y ∈ done, y ∈ u.nodes)
    (hx : x ∈ u.nodes) (hq : q ≠ []) (hpre : q <+: x.1) (hne : q ≠ x.1) :
    ∀ e, s.nodes.lookup q = some e → ∃ m, e = .dir m := by
  intro e he
  rcases h.only q e he with hmem | ⟨hdir, -⟩
  · obtain ⟨y, hy, rfl⟩ := List.mem_map.mp hmem
    obtain ⟨m, hm⟩ := u.inDirs x hx y.1 hq hpre hne
    have hdir := SealedUpper.entry_unique (hdone y hy) hm
    rw [h.placed y hy, ← hdir] at he
    exact ⟨mkdirMode, (Option.some.inj he).symm⟩
  · exact ⟨mkdirMode, hdir⟩

/-- Where the entry itself belongs there is nothing yet, or its directory. -/
theorem Copied.at_new (h : Copied mkdirMode u done s) (hx : x ∈ u.nodes)
    (hnew : x.1 ∉ done.map (·.1)) :
    ∀ e, s.nodes.lookup x.1 = some e → e = .dir mkdirMode ∧ ∃ m, x.2 = .dir m := by
  intro e he
  rcases h.only x.1 e he with hmem | ⟨hdir, m, hm⟩
  · exact absurd hmem hnew
  · exact ⟨hdir, m, (SealedUpper.entry_unique hx hm).symm⟩

theorem proper_of_dropLast (hp : p ≠ []) (h : q <+: p.dropLast) : q <+: p ∧ q ≠ p := by
  refine ⟨h.trans (List.dropLast_prefix p), fun heq => ?_⟩
  have hlen := h.length_le
  rw [heq, List.length_dropLast] at hlen
  have hpos := List.length_pos_iff.mpr hp
  omega

/-- A step that has put the entry in its place, over the directories it needed. -/
theorem Copied.step (h : Copied mkdirMode u done s) (hx : x ∈ u.nodes)
    {s' : Copy} {r : Path} (hr : r <+: x.1)
    (hself : s'.nodes.lookup x.1 = some (asCopied mkdirMode x.2))
    (hother : ∀ k, k ≠ x.1 → s'.nodes.lookup k =
      if s.nodes.lookup k = none ∧ k ≠ [] ∧ k <+: r then some (.dir mkdirMode)
      else s.nodes.lookup k)
    (hnew : x.1 ∉ done.map (·.1))
    (hcount : s'.copied = s.copied + if x.2.isCounted then 1 else 0)
    (hasked : s'.accesses = s.accesses ++ asked x) : Copied mkdirMode u (done ++ [x]) s' := by
  refine ⟨fun y hy => ?_, fun k e hk => ?_, ?_, ?_⟩
  · rcases List.mem_append.mp hy with hy | hy
    · have hne : y.1 ≠ x.1 := fun heq => hnew (heq ▸ List.mem_map_of_mem hy)
      rw [hother y.1 hne, h.placed y hy, if_neg fun h => nomatch h.1]
    · rw [List.mem_singleton.mp hy]
      exact hself
  · rw [List.map_append, List.mem_append]
    by_cases hkx : k = x.1
    · exact .inl (.inr (by rw [hkx]; exact List.mem_singleton_self _))
    · rw [hother k hkx] at hk
      split at hk
      · rename_i hmade
        refine .inr ⟨(Option.some.inj hk).symm, ?_⟩
        exact u.inDirs x hx k hmade.2.1 (hmade.2.2.trans hr) hkx
      · rcases h.only k e hk with hmem | hdir
        · exact .inl (.inl hmem)
        · exact .inr hdir
  · rw [hcount, h.count, List.countP_append, List.countP_singleton]
  · rw [hasked, h.accesses, List.flatMap_append, List.flatMap_singleton]

/-- **One entry is copied.** -/
theorem copyEntry_copied (h : Copied mkdirMode u done s) (hdone : ∀ y ∈ done, y ∈ u.nodes)
    (hx : x ∈ u.nodes) (hnew : x.1 ∉ done.map (·.1)) :
    ∃ s', copyEntry mkdirMode s x = some s' ∧ Copied mkdirMode u (done ++ [x]) s' := by
  have hroot := u.rooted x hx
  have hparent : ∃ d, mkdirs mkdirMode s.nodes x.1.dropLast = some d ∧
      ∀ k, d.lookup k = if s.nodes.lookup k = none ∧ k ≠ [] ∧ k <+: x.1.dropLast then
        some (.dir mkdirMode) else s.nodes.lookup k := by
    refine mkdirs_spec fun q hq hpre => ?_
    obtain ⟨hq', hne⟩ := proper_of_dropLast hroot hpre
    exact h.prefix_dir hdone hx hq hq' hne
  have habove : x.1 ≠ [] → ¬ x.1 <+: x.1.dropLast := fun hp hpre =>
    (proper_of_dropLast hp hpre).2 rfl
  have hempty : (∀ m, x.2 ≠ .dir m) → ∀ d : Nodes,
      (∀ k, d.lookup k = if s.nodes.lookup k = none ∧ k ≠ [] ∧ k <+: x.1.dropLast then
        some (.dir mkdirMode) else s.nodes.lookup k) → d.lookup x.1 = none := by
    intro hkind d hd
    rw [hd, if_neg fun hmade => habove hroot hmade.2.2]
    by_contra hsome
    obtain ⟨e, he⟩ := Option.ne_none_iff_exists'.mp hsome
    obtain ⟨-, m, hm⟩ := h.at_new hx hnew e he
    exact hkind m hm
  cases hkind : x.2 with
  | symlink text =>
      obtain ⟨d, hd, hlookup⟩ := hparent
      have hnone := hempty (by rw [hkind]; nofun) d hlookup
      have hstep : copyEntry mkdirMode s x = some {
          nodes := put d x.1 (.symlink text)
          copied := s.copied + 1
          accesses := s.accesses ++ [.lstat x.1, .readlink x.1] } := by
        unfold copyEntry
        simp only [hkind]
        rw [hd]
        show (if (d.lookup x.1).isSome then none else some _) = _
        rw [hnone]
        rfl
      refine ⟨_, hstep, h.step hx (List.dropLast_prefix _) ?_ (fun k hk => ?_) hnew
        (by rw [hkind]; rfl) (by unfold asked; rw [hkind])⟩
      · rw [lookup_put, if_pos rfl, hkind]
        rfl
      · rw [lookup_put, if_neg hk, hlookup]
  | dir m =>
      obtain ⟨d, hd, hlookup⟩ := @mkdirs_spec mkdirMode s.nodes x.1 (by
        intro q hq hpre e he
        by_cases hne : q = x.1
        · subst hne
          exact ⟨mkdirMode, (h.at_new hx hnew e he).1⟩
        · exact h.prefix_dir hdone hx hq hpre hne e he)
      have hstep : copyEntry mkdirMode s x = some {
          nodes := d
          copied := s.copied
          accesses := s.accesses ++ [.lstat x.1, .stat x.1] } := by
        unfold copyEntry
        simp only [hkind]
        rw [hd]
        rfl
      refine ⟨_, hstep, h.step hx (List.prefix_refl _) ?_ (fun k _ => hlookup k) hnew
        (by rw [hkind]; rfl) (by unfold asked; rw [hkind])⟩
      rw [hlookup, hkind]
      split
      · rfl
      · rename_i hmade
        have hsome : s.nodes.lookup x.1 ≠ none := fun hnone =>
          hmade ⟨hnone, hroot, List.prefix_refl _⟩
        obtain ⟨e, he⟩ := Option.ne_none_iff_exists'.mp hsome
        rw [he, (h.at_new hx hnew e he).1]
        rfl
  | file mode content =>
      obtain ⟨d, hd, hlookup⟩ := hparent
      have hnone := hempty (by rw [hkind]; nofun) d hlookup
      have hstep : copyEntry mkdirMode s x = some {
          nodes := put d x.1 (.file mode content)
          copied := s.copied + 1
          accesses := s.accesses ++ [.lstat x.1, .stat x.1, .stat x.1, .read x.1] } := by
        unfold copyEntry
        simp only [hkind]
        rw [hd, Option.map_some, hnone]
      refine ⟨_, hstep, h.step hx (List.dropLast_prefix _) ?_ (fun k hk => ?_) hnew
        (by rw [hkind]; rfl) (by unfold asked; rw [hkind])⟩
      · rw [lookup_put, if_pos rfl, hkind]
        rfl
      · rw [lookup_put, if_neg hk, hlookup]

theorem copyEntries_copied {todo : Nodes} (h : Copied mkdirMode u done s)
    (hall : ∀ y ∈ done ++ todo, y ∈ u.nodes) (hnodup : ((done ++ todo).map (·.1)).Nodup) :
    ∃ s', todo.foldlM (copyEntry mkdirMode) s = some s' ∧ Copied mkdirMode u (done ++ todo) s' := by
  induction todo generalizing s done with
  | nil => exact ⟨s, rfl, by rw [List.append_nil]; exact h⟩
  | cons x todo ih =>
      have hsplit : done ++ x :: todo = done ++ [x] ++ todo := by
        rw [List.append_assoc]
        rfl
      have hnew : x.1 ∉ done.map (·.1) := by
        intro hmem
        rw [List.map_append, List.map_cons] at hnodup
        exact (List.nodup_append'.mp hnodup).2.2 hmem List.mem_cons_self
      obtain ⟨s₁, hs₁, hcopied⟩ := copyEntry_copied h
        (fun y hy => hall y (List.mem_append_left _ hy))
        (hall x (List.mem_append_right _ List.mem_cons_self)) hnew
      obtain ⟨s', hs', hcopied'⟩ := ih hcopied (hsplit ▸ hall) (hsplit ▸ hnodup)
      refine ⟨s', ?_, hsplit ▸ hcopied'⟩
      rw [List.foldlM_cons, hs₁]
      exact hs'

/-- **The whole copy**: every entry as it is copied, and nothing else. -/
theorem prepareDeltaSource_copies (mkdirMode : FileMode) (u : SealedUpper) :
    ∃ s, prepareDeltaSource mkdirMode u = some s ∧
      (∀ p, s.nodes.lookup p = (u.nodes.lookup p).map (asCopied mkdirMode)) ∧
      (∀ a ∈ s.accesses, u.Inside a) ∧ s.copied = u.nodes.countP fun x => x.2.isCounted := by
  have hperm := List.perm_insertionSort (fun x y : Path × UpperEntry => x.1 ≤ y.1) u.nodes
  have hmem : ∀ y, y ∈ u.nodes.insertionSort (fun x y => x.1 ≤ y.1) ↔ y ∈ u.nodes :=
    fun y => hperm.mem_iff
  obtain ⟨s, hs, hcopied⟩ := @copyEntries_copied mkdirMode u {} []
    (u.nodes.insertionSort fun x y => x.1 ≤ y.1) ⟨nofun, nofun, rfl, rfl⟩
    (fun y hy => (hmem y).mp hy) ((hperm.map _).nodup_iff.mpr u.nodup)
  rw [List.nil_append] at hcopied
  refine ⟨s, hs, fun p => ?_, fun a ha => ?_, ?_⟩
  · cases hp : u.nodes.lookup p with
    | some e =>
        obtain ⟨l₁, l₂, hl, -⟩ := List.lookup_eq_some_iff.mp hp
        have hin : (p, e) ∈ u.nodes := by
          rw [hl]
          exact List.mem_append_right _ List.mem_cons_self
        exact hcopied.placed (p, e) ((hmem _).mpr hin)
    | none =>
        by_contra hsome
        obtain ⟨e, he⟩ := Option.ne_none_iff_exists'.mp hsome
        have hnot : p ∉ u.nodes.map (·.1) := fun hin => Tree.lookup_ne_none.mpr hin hp
        rcases hcopied.only p e he with hin | ⟨-, m, hm⟩
        · exact hnot ((hperm.map _).mem_iff.mp hin)
        · exact hnot (List.mem_map_of_mem hm)
  · rw [hcopied.accesses] at ha
    obtain ⟨x, hx, ha⟩ := List.mem_flatMap.mp ha
    have hin : (x.1, x.2) ∈ u.nodes := (hmem x).mp hx
    unfold asked at ha
    cases hkind : x.2 with
    | symlink text =>
        rw [hkind] at ha hin
        simp only [List.mem_cons, List.not_mem_nil, or_false] at ha
        rcases ha with rfl | rfl <;> exact ⟨_, hin⟩
    | dir m =>
        rw [hkind] at ha hin
        simp only [List.mem_cons, List.not_mem_nil, or_false] at ha
        rcases ha with rfl | rfl
        · exact ⟨_, hin⟩
        · exact ⟨_, hin, nofun⟩
    | file mode content =>
        rw [hkind] at ha hin
        simp only [List.mem_cons, List.not_mem_nil, or_false] at ha
        rcases ha with rfl | rfl | rfl | rfl
        · exact ⟨_, hin⟩
        · exact ⟨_, hin, nofun⟩
        · exact ⟨_, hin, nofun⟩
        · exact ⟨_, hin, nofun⟩
  · rw [hcopied.count]
    exact hperm.countP_eq _

/-- **The delta source is faithful exactly when every directory of the upper has the mode of a new
    directory.** -/
theorem deltaSource_faithful_iff (mkdirMode : FileMode) (u : SealedUpper) :
    Faithful mkdirMode u ↔ ∀ p mode, u.nodes.lookup p = some (.dir mode) → mode = mkdirMode := by
  obtain ⟨s, hs, hlookup, hinside, hcount⟩ := prepareDeltaSource_copies mkdirMode u
  constructor
  · intro ⟨s', hs', hsame, _⟩ p mode hp
    rw [hs] at hs'
    obtain rfl := Option.some.inj hs'
    have heq := (hlookup p).symm.trans (hsame p)
    rw [hp] at heq
    exact (UpperEntry.dir.inj (Option.some.inj heq)).symm
  · intro hmodes
    refine ⟨s, hs, fun p => ?_, hinside, hcount⟩
    rw [hlookup]
    cases hp : u.nodes.lookup p with
    | none => rfl
    | some e =>
        cases e with
        | dir mode =>
            rw [hmodes p mode hp]
            rfl
        | file mode content => rfl
        | symlink text => rfl

end Walk

/-! ### A private directory -/

/-- `0o700`, with a link to `/etc/passwd` in it. -/
def privateDir : SealedUpper where
  nodes := [(["keys"], .dir 448), (["keys", "link"], .symlink "/etc/passwd")]
  nodup := by decide
  rooted := by decide
  inDirs := by
    intro x hx q hq hpre hne
    have hkeys : q = ["keys"] := by
      obtain ⟨r, hr⟩ := hpre
      rcases List.mem_cons.mp hx with rfl | hx
      · cases q with
        | nil => exact absurd rfl hq
        | cons a q =>
            cases q with
            | nil => exact congrArg (· :: []) (List.cons.inj hr).1
            | cons b q => cases (List.cons.inj hr).2
      · rw [List.mem_singleton.mp hx] at hr hne
        cases q with
        | nil => exact absurd rfl hq
        | cons a q =>
            cases q with
            | nil => exact congrArg (· :: []) (List.cons.inj hr).1
            | cons b q =>
                have htail := (List.cons.inj hr).2
                have hnil : q = [] ∧ r = [] := List.append_eq_nil_iff.mp (List.cons.inj htail).2
                refine absurd ?_ hne
                rw [(List.cons.inj hr).1, (List.cons.inj htail).1, hnil.1]
    exact ⟨448, by rw [hkeys]; exact List.mem_cons_self⟩

/-- **The copy of a directory of mode `0o700` has mode `0o755`.** -/
theorem privateDir_breaks : ¬ ∀ (mkdirMode : FileMode) (u : SealedUpper), Faithful mkdirMode u := by
  intro h
  obtain ⟨s, hs, hsame, -⟩ := h 493 privateDir
  have hcopy : (prepareDeltaSource 493 privateDir).map (fun s => s.nodes.lookup ["keys"]) =
      some (some (.dir 493)) := by decide
  rw [hs] at hcopy
  have hdir : s.nodes.lookup ["keys"] = some (.dir 493) := Option.some.inj hcopy
  rw [hsame] at hdir
  revert hdir
  decide

end CccStorage.UpperCopy
