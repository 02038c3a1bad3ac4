/-
  File:      CccStorage/Resolve.lean
  Subject:   `pathlib.Path.resolve`, and the file that `open` creates or opens.

  * `textParts`, `isAbsolute`, `linkTarget` -- a path text by its components;
  * `Tree.resolvePath` -- `Path.resolve()`: what is missing is kept by name, `none` for a loop;
  * `Tree.openPath` -- the real path `open(p, "wb")` works on, which may be missing;
  * `resolveLoose_of_open` -- where both are defined they agree;
  * `openPath_onward`, `resolvePath_onward` -- a path that goes on from a directory;
  * `Tree.Extends` -- more entries than before; `resolve_extends` -- what was found still is;
  * `Tree.MoreDirs` -- more directories than before; `resolvePath_moreDirs` -- no path resolves
    differently.
-/
import CccStorage.Fs

namespace CccStorage

/-! ## 1. Path texts -/

/-- The components of a path text: the empty ones and `.` are dropped. -/
def textParts (text : String) : Path :=
  ((text.toList.splitOn '/').map String.ofList).filter fun c => c ≠ "" ∧ c ≠ "."

/-- `text.startswith("/")`. -/
def isAbsolute (text : String) : Bool := text.toList.head? = some '/'

def linkTarget (text : String) : LinkTarget := ⟨isAbsolute text, textParts text⟩

/-- `dest / text`. -/
def pathJoinParts (dest : Path) (text : String) : Path :=
  if isAbsolute text then textParts text else dest ++ textParts text

namespace Tree

/-! ## 2. Two more ways to resolve a path -/

/-- Walk the components from `cur`; `follow` resolves the target of a symlink, and a component
    that is no symlink is appended whether it is there or not. -/
def walkLoose (t : Tree) (follow : Path → Path → Option Path) : Path → Path → Option Path
  | cur, [] => some cur
  | cur, c :: rest =>
    if c = ".." then walkLoose t follow cur.dropLast rest
    else
      match t.get (cur ++ [c]) with
      | some (.symlink target) =>
        match follow (if target.absolute then [] else cur) target.parts with
        | some d => walkLoose t follow d rest
        | none => none
      | _ => walkLoose t follow (cur ++ [c]) rest

/-- Resolution with symlinks at most so deep in one another. -/
def resolveLoose (t : Tree) : Nat → Path → Path → Option Path
  | 0 => t.walkLoose fun _ _ => none
  | depth + 1 => t.walkLoose (t.resolveLoose depth)

/-- `p.resolve()`. No chain of symlinks that is no loop is longer than the tree has entries. -/
def resolvePath (t : Tree) (p : Path) : Option Path := t.resolveLoose (t.nodes.length + 40) [] p

/-- Walk to what `open` with `O_CREAT` opens: the last component may be missing. -/
def walkOpen (t : Tree) (follow : Path → Path → Option Path) : Path → Path → Option Path
  | cur, [] => some cur
  | cur, c :: rest =>
    if c = ".." then walkOpen t follow cur.dropLast rest
    else
      match t.get (cur ++ [c]) with
      | some (.symlink target) =>
        follow (if target.absolute then [] else cur) (target.parts ++ rest)
      | some .dir => walkOpen t follow (cur ++ [c]) rest
      | _ => if rest = [] then some (cur ++ [c]) else none

def resolveOpen (t : Tree) : Nat → Path → Path → Option Path
  | 0 => t.walkOpen fun _ _ => none
  | links + 1 => t.walkOpen (t.resolveOpen links)

def openPath (t : Tree) (p : Path) : Option Path := t.resolveOpen 40 [] p

/-! ## 3. How they compare -/

variable {t t' : Tree} {p q cur : Path}

section Loose

variable {follow follow' : Path → Path → Option Path}

theorem walkLoose_cons (c : String) (rest cur : Path) :
    t.walkLoose follow cur (c :: rest) =
      if c = ".." then t.walkLoose follow cur.dropLast rest
      else
        match t.get (cur ++ [c]) with
        | some (.symlink target) =>
          match follow (if target.absolute then [] else cur) target.parts with
          | some d => t.walkLoose follow d rest
          | none => none
        | _ => t.walkLoose follow (cur ++ [c]) rest := rfl

theorem walkLoose_append (a b cur : Path) :
    t.walkLoose follow cur (a ++ b) =
      (t.walkLoose follow cur a).bind fun d => t.walkLoose follow d b := by
  induction a generalizing cur with
  | nil => rfl
  | cons c a ih =>
      rw [List.cons_append, walkLoose_cons, walkLoose_cons]
      by_cases hc : c = ".."
      · rw [if_pos hc, if_pos hc, ih]
      · rw [if_neg hc, if_neg hc]
        split
        · split
          · exact ih _
          · rfl
        · exact ih _

theorem resolveLoose_append (n : Nat) (a b cur : Path) :
    t.resolveLoose n cur (a ++ b) =
      (t.resolveLoose n cur a).bind fun d => t.resolveLoose n d b := by
  cases n with
  | zero => exact walkLoose_append a b cur
  | succ n => exact walkLoose_append a b cur

/-- A walk depends on the symlinks of the tree only, and on what following one gives. -/
theorem walkLoose_mono
    (hlinks : ∀ x, (t'.get x).bind Entry.readlink = (t.get x).bind Entry.readlink)
    (hfollow : ∀ cur p q, follow cur p = some q → follow' cur p = some q)
    (h : t.walkLoose follow cur p = some q) : t'.walkLoose follow' cur p = some q := by
  induction p generalizing cur with
  | nil => exact h
  | cons c rest ih =>
      unfold walkLoose at h ⊢
      by_cases hc : c = ".."
      · rw [if_pos hc] at h ⊢
        exact ih h
      · rw [if_neg hc] at h ⊢
        have hl := hlinks (cur ++ [c])
        split at h
        · rename_i target hget
          rw [hget] at hl
          have hget' : t'.get (cur ++ [c]) = some (.symlink target) := by
            cases he : t'.get (cur ++ [c]) with
            | none =>
                rw [he] at hl
                cases hl
            | some e =>
                rw [he] at hl
                cases e with
                | symlink target' =>
                    cases hl
                    rfl
                | dir | file | whiteout | special => cases hl
          rw [hget']
          split at h
          · rename_i d hd
            simp only
            rw [hfollow _ _ _ hd]
            exact ih h
          · cases h
        · rename_i hnot
          split
          · rename_i target hget'
            rw [hget'] at hl
            cases he : t.get (cur ++ [c]) with
            | none =>
                rw [he] at hl
                cases hl
            | some e =>
                rw [he] at hl
                cases e with
                | symlink target' => exact absurd he (hnot target')
                | dir | file | whiteout | special => cases hl
          · exact ih h

theorem resolveLoose_mono
    (hlinks : ∀ x, (t'.get x).bind Entry.readlink = (t.get x).bind Entry.readlink) {n m : Nat}
    (hnm : n ≤ m) (h : t.resolveLoose n cur p = some q) : t'.resolveLoose m cur p = some q := by
  induction n generalizing m cur p q with
  | zero =>
      cases m with
      | zero => exact walkLoose_mono hlinks (fun _ _ _ h => by cases h) h
      | succ m => exact walkLoose_mono hlinks (fun _ _ _ h => by cases h) h
  | succ n ih =>
      cases m with
      | zero => exact absurd hnm (Nat.not_succ_le_zero n)
      | succ m => exact walkLoose_mono hlinks (fun _ _ _ => ih (Nat.le_of_succ_le_succ hnm)) h

end Loose

/-! ### `open` -/

/-- What a path resolves to, `open` opens. -/
theorem walkOpen_of_walk {follow follow' : Path → Path → Option Path}
    (hfollow : ∀ cur p q, follow cur p = some q → follow' cur p = some q)
    (h : t.walk follow cur p = some q) : t.walkOpen follow' cur p = some q := by
  induction p generalizing cur with
  | nil => exact h
  | cons c rest ih =>
      unfold walk at h
      unfold walkOpen
      by_cases hc : c = ".."
      · rw [if_pos hc] at h ⊢
        exact ih h
      · rw [if_neg hc] at h ⊢
        split at h
        · rename_i target hget
          rw [hget]
          exact hfollow _ _ _ h
        · rename_i hget
          rw [hget]
          exact ih h
        · rename_i e hlink hdir hget
          rw [hget]
          cases e with
          | symlink target => exact absurd rfl (hlink target)
          | dir => exact absurd rfl hdir
          | file | whiteout | special => exact h
        · cases h

theorem resolveOpen_of_resolve {n : Nat} (h : t.resolve n cur p = some q) :
    t.resolveOpen n cur p = some q := by
  induction n generalizing cur p q with
  | zero => exact walkOpen_of_walk (fun _ _ _ h => by cases h) h
  | succ n ih => exact walkOpen_of_walk (fun _ _ _ => ih) h

/-- Resolve the first components, and from there, with the links that are left, the others. -/
theorem walkOpen_append {follow : Path → Path → Option Path} {a b : Path} {R : Path → Prop}
    (hfollow : ∀ base a, follow base (a ++ b) = some q → ∃ d, follow base a = some d ∧ R d)
    (hwalk : ∀ d, t.walkOpen follow d b = some q → R d)
    (h : t.walkOpen follow cur (a ++ b) = some q) :
    ∃ d, t.walkOpen follow cur a = some d ∧ R d := by
  induction a generalizing cur with
  | nil => exact ⟨cur, rfl, hwalk cur h⟩
  | cons c a ih =>
      rw [List.cons_append] at h
      unfold walkOpen at h ⊢
      by_cases hc : c = ".."
      · rw [if_pos hc] at h ⊢
        exact ih h
      · rw [if_neg hc] at h ⊢
        split at h
        · rename_i target hget
          rw [← List.append_assoc] at h
          exact hfollow _ _ h
        · exact ih h
        · by_cases hrest : a ++ b = []
          · rw [if_pos hrest] at h
            obtain ⟨rfl, rfl⟩ := List.append_eq_nil_iff.mp hrest
            cases h
            exact ⟨cur ++ [c], if_pos rfl, hwalk _ rfl⟩
          · rw [if_neg hrest] at h
            cases h

theorem resolveOpen_append {n : Nat} {a b : Path} (h : t.resolveOpen n cur (a ++ b) = some q) :
    ∃ d, t.resolveOpen n cur a = some d ∧ ∃ k, k ≤ n ∧ t.resolveOpen k d b = some q := by
  induction n generalizing cur a q with
  | zero =>
      exact walkOpen_append (fun _ _ h => by cases h) (fun d h => ⟨0, le_refl 0, h⟩) h
  | succ n ih =>
      refine walkOpen_append (fun base a h => ?_) (fun d h => ⟨n + 1, le_refl _, h⟩) h
      obtain ⟨d, hd, k, hk, hq⟩ := ih h
      exact ⟨d, hd, k, Nat.le_succ_of_le hk, hq⟩

theorem walkLoose_of_walkOpen {follow follow' : Path → Path → Option Path}
    (hfollow : ∀ base a b, follow base (a ++ b) = some q →
      ∃ d, follow' base a = some d ∧ t.walkLoose follow' d b = some q)
    (h : t.walkOpen follow cur p = some q) : t.walkLoose follow' cur p = some q := by
  induction p generalizing cur with
  | nil => exact h
  | cons c rest ih =>
      unfold walkOpen at h
      rw [walkLoose_cons]
      by_cases hc : c = ".."
      · rw [if_pos hc] at h ⊢
        exact ih h
      · rw [if_neg hc] at h ⊢
        split at h
        · rename_i target hget
          obtain ⟨d, hd, hq⟩ := hfollow _ _ _ h
          rw [hget]
          simp only
          rw [hd]
          exact hq
        · rename_i hget
          rw [hget]
          exact ih h
        · rename_i hlink hdir
          by_cases hrest : rest = []
          · rw [if_pos hrest] at h
            subst hrest
            split
            · rename_i target hget
              exact absurd hget (hlink target)
            · exact h
          · rw [if_neg hrest] at h
            cases h

/-- **What `open` opens, `resolve()` gives.** -/
theorem resolveLoose_of_open {n m : Nat} (hnm : n ≤ m) (h : t.resolveOpen n cur p = some q) :
    t.resolveLoose m cur p = some q := by
  induction n using Nat.strong_induction_on generalizing m cur p q with
  | _ n ih =>
    cases n with
    | zero =>
        have hwalk : ∀ follow', t.walkLoose follow' cur p = some q := fun follow' =>
          walkLoose_of_walkOpen (fun _ _ _ h => by cases h) h
        cases m with
        | zero => exact hwalk _
        | succ m => exact hwalk _
    | succ n =>
        cases m with
        | zero => exact absurd hnm (Nat.not_succ_le_zero n)
        | succ m =>
            -- the components after a link are walked with the links that are left
            refine walkLoose_of_walkOpen (fun base a b h => ?_) h
            obtain ⟨d, hd, k, hk, hq⟩ := resolveOpen_append h
            have hkn : k < n + 1 := Nat.lt_succ_of_le hk
            exact ⟨d, ih n (Nat.lt_succ_self n) (Nat.le_of_succ_le_succ hnm) hd,
              ih k hkn (le_trans hkn.le hnm) hq⟩

theorem resolvePath_of_open (h : t.openPath p = some q) : t.resolvePath p = some q :=
  resolveLoose_of_open (Nat.le_add_left 40 _) h

theorem resolvePath_of_realPath (h : t.realPath p = some q) : t.resolvePath p = some q :=
  resolvePath_of_open (resolveOpen_of_resolve h)

theorem walkOpen_onward {follow : Path → Path → Option Path} {d b : Path} {o : Option Path}
    (hfollow : ∀ base a, follow base a = some d → follow base (a ++ b) = o)
    (hd : t.get d = some .dir) (hb : t.walkOpen follow d b = o)
    (h : t.walkOpen follow cur p = some d) : t.walkOpen follow cur (p ++ b) = o := by
  induction p generalizing cur with
  | nil =>
      cases h
      exact hb
  | cons c a ih =>
      rw [List.cons_append]
      unfold walkOpen at h ⊢
      by_cases hc : c = ".."
      · rw [if_pos hc] at h ⊢
        exact ih h
      · rw [if_neg hc] at h ⊢
        split at h
        · rw [← List.append_assoc]
          exact hfollow _ _ h
        · exact ih h
        · rename_i hlink hdir
          -- the last component of a path to a directory is a directory
          by_cases hnil : a = []
          · rw [if_pos hnil] at h
            cases h
            exact absurd hd hdir
          · rw [if_neg hnil] at h
            cases h

/-- A path that goes on from a directory, where no symlink matters. -/
theorem openPath_onward {d b : Path} {o : Option Path} (hd : t.get d = some .dir)
    (hb : ∀ follow, t.walkOpen follow d b = o) (h : t.openPath p = some d) :
    t.openPath (p ++ b) = o := by
  have hgen : ∀ n cur p, t.resolveOpen n cur p = some d → t.resolveOpen n cur (p ++ b) = o := by
    intro n
    induction n with
    | zero => exact fun cur p h => walkOpen_onward (fun _ _ h => by cases h) hd (hb _) h
    | succ n ih => exact fun cur p h => walkOpen_onward (fun base a => ih base a) hd (hb _) h
  exact hgen 40 [] p h

theorem walkOpen_of_dirs {follow : Path → Path → Option Path} {rest : Path}
    (hdirs : ∀ x, x <+: rest → x ≠ rest → t.get (cur ++ x) = some .dir) (hdots : ".." ∉ rest)
    (hlink : ∀ target, t.get (cur ++ rest) ≠ some (.symlink target)) :
    t.walkOpen follow cur rest = some (cur ++ rest) := by
  induction rest generalizing cur with
  | nil => rw [walkOpen, List.append_nil]
  | cons c rest ih =>
      rw [List.mem_cons, not_or] at hdots
      have hcons : cur ++ c :: rest = (cur ++ [c]) ++ rest := by simp
      unfold walkOpen
      rw [if_neg fun hc => hdots.1 hc.symm]
      by_cases hrest : rest = []
      · subst hrest
        split
        · rename_i target hget
          exact absurd hget (hlink target)
        · rw [walkOpen]
        · exact if_pos rfl
      · have hc : t.get (cur ++ [c]) = some .dir :=
          hdirs [c] (List.prefix_append [c] rest) (by simpa using Ne.symm hrest)
        rw [hc, hcons]
        refine ih (fun x hx hne => ?_) hdots.2 (hcons ▸ hlink)
        rw [List.append_assoc]
        exact hdirs (c :: x) ((List.cons_prefix_cons).mpr ⟨rfl, hx⟩) fun h =>
          hne (List.cons.inj h).2

/-- No path goes on below a file. -/
theorem walkOpen_blocked {follow : Path → Path → Option Path} {a rest : Path} {c : String}
    {content : Bytes} (hfile : t.get (cur ++ a) = some (.file content)) (ha : a ≠ [])
    (hdirs : ∀ x, x <+: a → x ≠ a → t.get (cur ++ x) = some .dir) (hdots : ".." ∉ a) :
    t.walkOpen follow cur (a ++ c :: rest) = none := by
  induction a generalizing cur with
  | nil => exact absurd rfl ha
  | cons b a ih =>
      rw [List.mem_cons, not_or] at hdots
      rw [List.cons_append]
      unfold walkOpen
      rw [if_neg fun hb => hdots.1 hb.symm]
      have hcons : cur ++ b :: a = (cur ++ [b]) ++ a := by simp
      by_cases hnil : a = []
      · subst hnil
        rw [hfile]
        rfl
      · have hb : t.get (cur ++ [b]) = some .dir :=
          hdirs [b] (List.prefix_append [b] a) (by simpa using Ne.symm hnil)
        rw [hb]
        refine ih (hcons ▸ hfile) hnil (fun x hx hne => ?_) hdots.2
        rw [List.append_assoc]
        exact hdirs (b :: x) ((List.cons_prefix_cons).mpr ⟨rfl, hx⟩) fun h =>
          hne (List.cons.inj h).2

theorem walk_of_walkOpen {follow follow' : Path → Path → Option Path}
    (hfollow : ∀ cur p, follow cur p = some q → follow' cur p = some q) (hq : t.get q ≠ none)
    (h : t.walkOpen follow cur p = some q) : t.walk follow' cur p = some q := by
  induction p generalizing cur with
  | nil => exact h
  | cons c rest ih =>
      unfold walkOpen at h
      unfold walk
      by_cases hc : c = ".."
      · rw [if_pos hc] at h ⊢
        exact ih h
      · rw [if_neg hc] at h ⊢
        split at h
        · rename_i target hget
          rw [hget]
          exact hfollow _ _ h
        · rename_i hget
          rw [hget]
          exact ih h
        · rename_i hlink hdir
          by_cases hnil : rest = []
          · rw [if_pos hnil] at h
            cases h
            split
            · rename_i target hget
              exact absurd hget (hlink target)
            · rename_i hget
              exact absurd hget hdir
            · exact if_pos hnil
            · rename_i hget
              exact absurd hget hq
          · rw [if_neg hnil] at h
            cases h

/-- What `open` opens and is there is the real path. -/
theorem realPath_of_open (hq : t.get q ≠ none) (h : t.openPath p = some q) :
    t.realPath p = some q := by
  have hgen : ∀ n cur p, t.resolveOpen n cur p = some q → t.resolve n cur p = some q := by
    intro n
    induction n with
    | zero => exact fun cur p h => walk_of_walkOpen (fun _ _ h => by cases h) hq h
    | succ n ih => exact fun cur p h => walk_of_walkOpen ih hq h
  exact hgen 40 [] p h

theorem openPath_of_realPath (h : t.realPath p = some q) : t.openPath p = some q :=
  resolveOpen_of_resolve h

theorem walkLoose_of_noLinks {follow : Path → Path → Option Path} {rest : Path}
    (hlink : ∀ x, x <+: rest → x ≠ [] → ∀ target, t.get (cur ++ x) ≠ some (.symlink target))
    (hdots : ".." ∉ rest) : t.walkLoose follow cur rest = some (cur ++ rest) := by
  induction rest generalizing cur with
  | nil => rw [walkLoose, List.append_nil]
  | cons c rest ih =>
      rw [List.mem_cons, not_or] at hdots
      have hcons : cur ++ c :: rest = (cur ++ [c]) ++ rest := by simp
      rw [walkLoose_cons, if_neg fun hc => hdots.1 hc.symm, hcons]
      split
      · rename_i target hget
        exact absurd hget (hlink [c] (List.prefix_append [c] rest) (List.cons_ne_nil c []) target)
      · refine ih (fun x hx _ target => ?_) hdots.2
        rw [List.append_assoc]
        exact hlink (c :: x) ((List.cons_prefix_cons).mpr ⟨rfl, hx⟩) (List.cons_ne_nil c x) target

theorem resolvePath_onward {d b : Path} (h : t.resolvePath p = some d)
    (hlink : ∀ x, x <+: b → x ≠ [] → ∀ target, t.get (d ++ x) ≠ some (.symlink target))
    (hdots : ".." ∉ b) : t.resolvePath (p ++ b) = some (d ++ b) := by
  unfold resolvePath at h ⊢
  rw [resolveLoose_append, h, Option.bind_some]
  cases t.nodes.length + 40 with
  | zero => exact walkLoose_of_noLinks hlink hdots
  | succ n => exact walkLoose_of_noLinks hlink hdots

/-! ## 4. Trees that grow -/

/-- Every entry of `t` is in `t'`. -/
def Extends (t t' : Tree) : Prop := ∀ x e, t.get x = some e → t'.get x = some e

theorem walk_extends (hx : t.Extends t') {follow follow' : Path → Path → Option Path}
    (hfollow : ∀ cur p q, follow cur p = some q → follow' cur p = some q)
    (h : t.walk follow cur p = some q) : t'.walk follow' cur p = some q := by
  induction p generalizing cur with
  | nil => exact h
  | cons c rest ih =>
      unfold walk at h ⊢
      by_cases hc : c = ".."
      · rw [if_pos hc] at h ⊢
        exact ih h
      · rw [if_neg hc] at h ⊢
        split at h
        · rename_i target hget
          rw [hx _ _ hget]
          exact hfollow _ _ _ h
        · rename_i hget
          rw [hx _ _ hget]
          exact ih h
        · rename_i e hlink hdir hget
          rw [hx _ _ hget]
          cases e with
          | symlink target => exact absurd rfl (hlink target)
          | dir => exact absurd rfl hdir
          | file | whiteout | special => exact h
        · cases h

/-- **What was found is found still**, at the same place. -/
theorem resolve_extends (hx : t.Extends t') {n : Nat} (h : t.resolve n cur p = some q) :
    t'.resolve n cur p = some q := by
  induction n generalizing cur p q with
  | zero => exact walk_extends hx (fun _ _ _ h => by cases h) h
  | succ n ih => exact walk_extends hx (fun _ _ _ => ih) h

theorem realPath_extends (hx : t.Extends t') (h : t.realPath p = some q) :
    t'.realPath p = some q := resolve_extends hx h

/-- `t'` is `t` with directories made where nothing was. -/
structure MoreDirs (t t' : Tree) : Prop where
  get : ∀ x, t'.get x = t.get x ∨ t.get x = none ∧ t'.get x = some .dir
  length : t.nodes.length ≤ t'.nodes.length

namespace MoreDirs

theorem refl (t : Tree) : t.MoreDirs t := ⟨fun _ => .inl rfl, le_refl _⟩

theorem trans {t'' : Tree} (h : t.MoreDirs t') (h' : t'.MoreDirs t'') : t.MoreDirs t'' where
  get x := by
    rcases h'.get x with he' | ⟨hnone, hdir⟩
    · rw [he']
      exact h.get x
    · rcases h.get x with he | ⟨hnone', hdir'⟩
      · exact .inr ⟨he ▸ hnone, hdir⟩
      · rw [hdir'] at hnone
        cases hnone
  length := le_trans h.length h'.length

theorem set (hp : p ≠ []) (hnone : t.get p = none) : t.MoreDirs (t.set p .dir) where
  get x := by
    rw [get_set hp]
    by_cases hx : x = p
    · exact .inr ⟨hx ▸ hnone, if_pos hx⟩
    · exact .inl (if_neg hx)
  length := by
    rw [get_of_ne hp] at hnone
    have hkeep : (t.nodes.filter fun x => x.1 ≠ p) = t.nodes := by
      rw [List.filter_eq_self]
      intro x hx
      rw [decide_eq_true_eq]
      intro hxp
      exact lookup_ne_none.mpr (hxp ▸ List.mem_map_of_mem hx) hnone
    unfold Tree.set
    rw [hkeep, List.length_cons]
    exact Nat.le_succ _

theorem toExtends (h : t.MoreDirs t') : t.Extends t' := by
  intro x e he
  rcases h.get x with hx | ⟨hnone, -⟩
  · rw [hx, he]
  · rw [hnone] at he
    cases he

/-- What is no directory was there before. -/
theorem before (h : t.MoreDirs t') {x : Path} {e : Entry} (he : t'.get x = some e)
    (hdir : e ≠ .dir) : t.get x = some e := by
  rcases h.get x with hx | ⟨-, hx⟩
  · rw [← hx, he]
  · rw [hx] at he
    exact absurd (Option.some.inj he).symm hdir

theorem readlink (h : t.MoreDirs t') (x : Path) :
    (t'.get x).bind Entry.readlink = (t.get x).bind Entry.readlink := by
  rcases h.get x with hx | ⟨hnone, hdir⟩
  · rw [hx]
  · rw [hnone, hdir]
    rfl

/-- **Directories made where nothing was** change no resolution. -/
theorem resolvePath (h : t.MoreDirs t') (hq : t.resolvePath p = some q) :
    t'.resolvePath p = some q :=
  resolveLoose_mono h.readlink (Nat.add_le_add_right h.length 40) hq

end MoreDirs

end Tree

end CccStorage
