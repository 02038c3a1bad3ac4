/-
  File:      CccStorage/CleanUpper.lean
  Subject:   What an upper may hold that `dirty_stats` calls clean, and what is lost with it.

  `handle_commit`, the publisher, the write-policy switch, the archive, rename and remove all
  treat a child as clean when no regular file and no symlink is in its upper, marks aside. The
  delta of a commit would keep the marks and the directories.

  * `entry_of_clean` -- a clean upper holds directories and deletion records only;
  * `NothingToLose` -- the records of the upper say nothing new about the stack;
  * `clean_view_iff` -- the stack with a clean upper shows what it shows alone exactly then;
  * `cleanDeletion_loses` -- a deletion, and a new directory, that no commit takes.
-/
import CccStorage.Delta

namespace CccStorage

/-! ## 1. What a clean upper holds -/

/-- Two views agree on everything in them. The root directory itself is no entry. -/
def SameEntries (V W : Layer) : Prop := ∀ p, p ≠ [] → V p = W p

/-- **A clean upper** holds only directories and entries that no view shows. -/
theorem entry_of_clean {upper : OverlayUpper} (hclean : (dirtyStats upper.toTree).dirty = false)
    {d : Path} {n : String} {e : Entry} (he : upper.get (d ++ [n]) = some e) :
    e = .dir ∨ shownEntry n e = false := by
  have hmem : (d ++ [n], e) ∈ upper.nodes := by
    rw [Tree.get_of_ne (by simp)] at he
    obtain ⟨l₁, l₂, hl, -⟩ := List.lookup_eq_some_iff.mp he
    exact hl ▸ List.mem_append_right _ List.mem_cons_self
  have hnone : (if isMark n then none else e.countedSize) = none := by
    unfold dirtyStats at hclean
    simp only [decide_eq_false_iff_not, not_lt, Nat.le_zero, List.length_eq_zero_iff,
      List.filterMap_eq_nil_iff] at hclean
    have hx := hclean _ hmem
    simp only [List.getLast?_concat, Option.any_some] at hx
    exact hx
  cases e with
  | dir => exact .inl rfl
  | special => exact absurd rfl (upper.noSpecial _ hmem)
  | whiteout => exact .inr rfl
  | file content =>
      right
      cases hm : isMark n with
      | true => simp [shownEntry, hm]
      | false =>
          rw [hm] at hnone
          cases hnone
  | symlink target =>
      right
      cases hm : isMark n with
      | true => simp [shownEntry, hm]
      | false =>
          rw [hm] at hnone
          cases hnone

/-! ## 2. When nothing is lost -/

/-- **Nothing to lose**: the directories of the upper are directories of the stack already, and
    what a tombstone, an opaque marker or a device whiteout of the upper hides is not in the
    stack, or is a directory the upper has again. -/
structure NothingToLose (V U : Layer) : Prop where
  dirs : ∀ p, p ≠ [] → U p = some .dir → V p = some .dir
  hidden : ∀ d n r, overlayRules.hidesAt U d n = true → V (d ++ n :: r) ≠ none →
    U (d ++ n :: r) = some .dir

/-- An entry of a clean upper, seen through it. -/
theorem apply_of_clean {upper : OverlayUpper} (hclean : (dirtyStats upper.toTree).dirty = false)
    {V : Layer} {p : Path} {e : Entry} (hp : p ≠ []) (he : upper.get p = some e) :
    overlayRules.apply V upper.get p = if e = .dir then some .dir else none := by
  obtain ⟨d, n, rfl⟩ : ∃ d n, p = d ++ [n] :=
    ⟨p.dropLast, p.getLast hp, (List.dropLast_concat_getLast hp).symm⟩
  rw [Lib.Rules.apply_of_some he, List.getLast?_concat, Option.all_some]
  have hshown : overlayRules.shown n e = shownEntry n e := rfl
  rw [hshown]
  by_cases hdir : e = .dir
  · subst hdir
    rfl
  · rw [(entry_of_clean hclean he).resolve_left hdir, if_neg hdir]
    rfl

/-- **A clean upper loses nothing** exactly when its directories and its deletion records say
    nothing new about the stack. -/
theorem clean_view_iff (lowers : List LayerTree) (upper : OverlayUpper)
    (hclean : (dirtyStats upper.toTree).dirty = false) :
    let stack := lowers.map fun t => (t.get : Layer)
    SameEntries (view (stack ++ [upper.get])) (view stack) ↔
      NothingToLose (view stack) upper.get := by
  intro stack
  have happly : view (stack ++ [upper.get]) = overlayRules.apply (view stack) upper.get := by
    unfold view
    rw [Lib.Rules.view_append, List.foldl_cons, List.foldl_nil]
  rw [happly]
  constructor
  · intro h
    refine ⟨fun p hp hdir => ?_, fun d n r hat hV => ?_⟩
    · rw [← h p hp, apply_of_clean hclean hp hdir, if_pos rfl]
    · have hhides : overlayRules.hides upper.get (d ++ n :: r) = true :=
        Lib.Rules.hides_iff.mpr ⟨d, n, r, rfl, hat⟩
      have hp : d ++ n :: r ≠ [] := by simp
      cases he : upper.get (d ++ n :: r) with
      | none => exact absurd ((h _ hp).symm.trans (Lib.Rules.apply_of_hides he hhides)) hV
      | some e =>
          by_cases hdir : e = .dir
          · rw [hdir]
          · have hnone := apply_of_clean (V := view stack) hclean hp he
            rw [if_neg hdir, h _ hp] at hnone
            exact absurd hnone hV
  · intro h p hp
    have hhidden : overlayRules.hides upper.get p = true → view stack p ≠ none →
        upper.get p = some .dir := by
      intro hhides
      obtain ⟨d, n, r, rfl, hat⟩ := Lib.Rules.hides_iff.mp hhides
      exact h.hidden d n r hat
    cases he : upper.get p with
    | some e =>
        rw [apply_of_clean hclean hp he]
        by_cases hdir : e = .dir
        · rw [if_pos hdir]
          subst hdir
          exact (h.dirs p hp he).symm
        · rw [if_neg hdir]
          -- a leaf hides its own path
          have hhides : overlayRules.hides upper.get p = true :=
            Lib.Rules.hides_of_leaf hp he (by simpa [overlayRules, Entry.isLeaf] using hdir)
              List.prefix_rfl
          by_contra hne
          have hagain := hhidden hhides fun hnone => hne hnone.symm
          rw [he] at hagain
          exact hdir (Option.some.inj hagain)
    | none =>
        rw [Lib.Rules.apply_of_none he]
        split
        · rename_i hhides
          by_contra hne
          have hagain := hhidden hhides fun hnone => hne hnone.symm
          rw [he] at hagain
          cases hagain
        · rfl

/-- An upper that only deletes what is not there. -/
def idleUpper : OverlayUpper where
  nodes := [([".wh.b"], .file [])]
  ok := by decide
  nodup := by decide
  noSpecial := by decide
  plainWhiteouts := by decide

theorem clean_view_iff_idleUpper :
    (dirtyStats idleUpper.toTree).dirty = false ∧
      (SameEntries (view ((deletedBase.map fun t => t.get) ++ [idleUpper.get]))
          (view (deletedBase.map fun t => t.get)) ↔
        NothingToLose (view (deletedBase.map fun t => t.get)) idleUpper.get) :=
  ⟨rfl, clean_view_iff deletedBase idleUpper rfl⟩

/-! ## 3. What is lost -/

/-- The user removed the file of `deletedBase`. -/
def cleanDeletion : OverlayUpper where
  nodes := [([".wh.a"], .file [])]
  ok := by decide
  nodup := by decide
  noSpecial := by decide
  plainWhiteouts := by decide

/-- The user made a directory. -/
def cleanDirectory : OverlayUpper where
  nodes := [(["d"], .dir)]
  ok := by decide
  nodup := by decide
  noSpecial := by decide
  plainWhiteouts := by decide

/-- Neither upper is dirty, so no commit takes the deletion or the directory. -/
theorem cleanDeletion_loses :
    (dirtyStats cleanDeletion.toTree).dirty = false ∧
      commitSharedNfs (deletedBase.map fun t => t.get) cleanDeletion.toTree = none ∧
      ¬ SameEntries (view ((deletedBase.map fun t => t.get) ++ [cleanDeletion.get]))
        (view (deletedBase.map fun t => t.get)) ∧
      (dirtyStats cleanDirectory.toTree).dirty = false ∧
      commitSharedNfs (deletedBase.map fun t => t.get) cleanDirectory.toTree = none ∧
      ¬ SameEntries (view ((deletedBase.map fun t => t.get) ++ [cleanDirectory.get]))
        (view (deletedBase.map fun t => t.get)) := by
  refine ⟨rfl, rfl, fun h => ?_, rfl, rfl, fun h => ?_⟩
  · have ha := h ["a"] (List.cons_ne_nil _ _)
    revert ha
    decide
  · have hd := h ["d"] (List.cons_ne_nil _ _)
    revert hd
    decide

end CccStorage
