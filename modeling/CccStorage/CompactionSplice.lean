/-
  File:      CccStorage/CompactionSplice.lean
  Subject:   Publishing a partial compaction, for any selection (`mountd/workers/compaction.py`,
             `with_compaction_metadata`, `publish_partial_compaction`).

  * `Block` -- the selected paths are those of a contiguous block of the stack;
  * `selectedIndexes_block`, `block_of_published` -- the positions selected, and back;
  * `Hull` -- the generation range of the new pack;
  * `publishPartialCompaction_splice` -- it raises exactly when there is no such block, and else
    puts the new pack in the block's place; packs appended first or afterwards give one stack.
-/
import CccStorage.Levels

namespace CccStorage

/-! ## 1. The selected positions -/

/-- **The selected paths are exactly those of a contiguous block** of the stack. -/
structure Block (lowers selected pre block post : List PackInfo) : Prop where
  split : lowers = pre ++ block ++ post
  paths : ∀ path, path ∈ selected.map (·.path) ↔ path ∈ block.map (·.path)

section Positions

variable {lowers selected pre block post more : List PackInfo} {i : Nat}

theorem mem_selectedIndexes :
    i ∈ selectedIndexes lowers selected ↔
      ∃ p, lowers[i]? = some p ∧ p.path ∈ selected.map (·.path) := by
  unfold selectedIndexes
  rw [List.mem_filter, List.mem_range, Option.any_eq_true]
  constructor
  · intro h
    obtain ⟨-, p, hp, hmem⟩ := h
    exact ⟨p, hp, by simpa using hmem⟩
  · intro h
    obtain ⟨p, hp, hmem⟩ := h
    exact ⟨(List.getElem?_eq_some_iff.mp hp).1, p, hp, by simpa using hmem⟩

/-- The positions of two lists one after the other. -/
theorem selectedIndexes_append :
    selectedIndexes (lowers ++ more) selected =
      selectedIndexes lowers selected ++
        (List.range' lowers.length more.length).filter fun i =>
          (more[i - lowers.length]?).any fun p => (selected.map (·.path)).contains p.path := by
  unfold selectedIndexes
  rw [List.length_append, List.range_eq_range', ← List.range'_append_1, List.filter_append,
    Nat.zero_add, List.range_eq_range']
  congr 1
  · refine List.filter_congr fun i hi => ?_
    have hlt := (List.mem_range'_1.mp hi).2
    rw [List.getElem?_append_left (by omega)]
  · refine List.filter_congr fun i hi => ?_
    rw [List.getElem?_append_right (List.mem_range'_1.mp hi).1]

/-- Packs with other paths add no position. -/
theorem selectedIndexes_append_other (h : ∀ p ∈ more, p.path ∉ selected.map (·.path)) :
    selectedIndexes (lowers ++ more) selected = selectedIndexes lowers selected := by
  rw [selectedIndexes_append, List.filter_eq_nil_iff.mpr, List.append_nil]
  intro i hi hany
  obtain ⟨p, hp, hmem⟩ := (Option.any_eq_true ..).mp hany
  exact h p (List.mem_of_getElem? hp) (by simpa using hmem)

/-- **The positions of a block** are a range. -/
theorem selectedIndexes_block (hnodup : (lowers.map (·.path)).Nodup)
    (h : Block lowers selected pre block post) :
    selectedIndexes lowers selected = List.range' pre.length block.length := by
  have hsplit := h.split
  subst hsplit
  rw [List.map_append, List.map_append, List.nodup_append, List.nodup_append] at hnodup
  obtain ⟨⟨-, -, hpre⟩, -, hpost⟩ := hnodup
  have hafter : ∀ p ∈ post, p.path ∉ selected.map (·.path) := fun p hp hmem =>
    hpost _ (List.mem_append_right _ ((h.paths _).mp hmem)) _ (List.mem_map_of_mem hp) rfl
  have hbefore : ∀ p ∈ pre, p.path ∉ selected.map (·.path) := fun p hp hmem =>
    hpre _ (List.mem_map_of_mem hp) _ ((h.paths _).mp hmem) rfl
  have hnone : selectedIndexes pre selected = [] := by
    have happend : selectedIndexes ([] ++ pre) selected = selectedIndexes [] selected :=
      selectedIndexes_append_other hbefore
    rwa [List.nil_append] at happend
  rw [selectedIndexes_append_other hafter, selectedIndexes_append, hnone, List.nil_append,
    List.filter_eq_self]
  intro i hi
  have hrange := List.mem_range'_1.mp hi
  have hlt : i - pre.length < block.length := by omega
  rw [List.getElem?_eq_getElem hlt, Option.any_some, List.contains_iff_mem]
  exact (h.paths _).mpr (List.mem_map_of_mem (List.getElem_mem hlt))

/-- Distinct paths: a block has as many packs as were selected. -/
theorem Block.length_eq (hnodup : (lowers.map (·.path)).Nodup)
    (hselected : (selected.map (·.path)).Nodup) (h : Block lowers selected pre block post) :
    block.length = selected.length := by
  have hblock : (block.map (·.path)).Nodup := by
    rw [h.split, List.map_append, List.map_append, List.nodup_append, List.nodup_append] at hnodup
    exact hnodup.1.2.1
  have hperm := (List.perm_ext_iff_of_nodup hselected hblock).mpr h.paths
  have hlength := hperm.length_eq
  rw [List.length_map, List.length_map] at hlength
  exact hlength.symm

/-- **A range of as many positions as were selected is a block.** -/
theorem block_of_range {first count : Nat} (hnodup : (lowers.map (·.path)).Nodup)
    (hcount : count = selected.length)
    (h : selectedIndexes lowers selected = List.range' first count) :
    Block lowers selected (lowers.take first) ((lowers.drop first).take count)
      (lowers.drop (first + count)) := by
  have hsplit : lowers = lowers.take first ++ (lowers.drop first).take count ++
      lowers.drop (first + count) := by
    rw [List.append_assoc, ← List.drop_drop, List.take_append_drop, List.take_append_drop]
  have hin : ∀ i, first ≤ i → i < first + count →
      ∃ p, lowers[i]? = some p ∧ p.path ∈ selected.map (·.path) := fun i hlo hhi =>
    mem_selectedIndexes.mp (h ▸ List.mem_range'_1.mpr ⟨hlo, hhi⟩)
  have hsub : ∀ path ∈ ((lowers.drop first).take count).map (·.path),
      path ∈ selected.map (·.path) := by
    intro path hpath
    obtain ⟨p, hp, rfl⟩ := List.mem_map.mp hpath
    obtain ⟨k, hk, hkp⟩ := List.getElem_of_mem hp
    have hklt : k < count := by
      rw [List.length_take] at hk
      omega
    obtain ⟨q, hq, hmem⟩ := hin (first + k) (by omega) (by omega)
    have hget : lowers[first + k]? = some p := by
      rw [← List.getElem?_drop, ← List.getElem?_take_of_lt hklt, List.getElem?_eq_getElem hk, hkp]
    rw [hget] at hq
    rw [Option.some.inj hq]
    exact hmem
  have hlength : ((lowers.drop first).take count).length = count := by
    rw [List.length_take, List.length_drop]
    rcases Nat.eq_zero_or_pos count with hzero | hpos
    · omega
    · obtain ⟨p, hp, -⟩ := hin (first + count - 1) (by omega) (by omega)
      have hlt := (List.getElem?_eq_some_iff.mp hp).1
      omega
  have hblock : (((lowers.drop first).take count).map (·.path)).Nodup := by
    rw [hsplit, List.map_append, List.map_append, List.nodup_append, List.nodup_append] at hnodup
    exact hnodup.1.2.1
  have hperm : List.Perm (((lowers.drop first).take count).map (·.path)) (selected.map (·.path)) :=
    (hblock.subperm hsub).perm_of_length_le (by
      rw [List.length_map, List.length_map, hlength, hcount])
  exact ⟨hsplit, fun path => hperm.mem_iff.symm⟩

end Positions

/-! ## 2. The generation range -/

/-- **The hull of the non-zero ranges**: the least of the non-zero lower ends and the greatest
    upper end, each 0 when there is none. -/
structure Hull (packs : List PackInfo) (lo hi : Nat) : Prop where
  lo_le : ∀ p ∈ packs, p.generationMin ≠ 0 → lo ≤ p.generationMin
  lo_mem : (∃ p ∈ packs, p.generationMin ≠ 0) → ∃ p ∈ packs, p.generationMin ≠ 0 ∧
    p.generationMin = lo
  lo_zero : (∀ p ∈ packs, p.generationMin = 0) → lo = 0
  le_hi : ∀ p ∈ packs, p.generationMax ≤ hi
  hi_mem : (∃ p ∈ packs, p.generationMax ≠ 0) → ∃ p ∈ packs, p.generationMax = hi
  hi_zero : (∀ p ∈ packs, p.generationMax = 0) → hi = 0

theorem mem_nonzero {packs : List PackInfo} {f : PackInfo → Nat} {n : Nat} :
    n ∈ (packs.map f).filter (· ≠ 0) ↔ ∃ p ∈ packs, f p ≠ 0 ∧ f p = n := by
  rw [List.mem_filter, List.mem_map, decide_eq_true_eq]
  constructor
  · intro h
    obtain ⟨⟨p, hp, rfl⟩, hne⟩ := h
    exact ⟨p, hp, hne, rfl⟩
  · intro h
    obtain ⟨p, hp, hne, rfl⟩ := h
    exact ⟨⟨p, hp, rfl⟩, hne⟩

theorem hull_of_packs (packs : List PackInfo) :
    Hull packs (generationMin packs) (generationMax packs) := by
  have hmin : ∀ p ∈ packs, p.generationMin ≠ 0 →
      ∃ n, ((packs.map (·.generationMin)).filter (· ≠ 0)).min? = some n := fun p hp hne => by
    refine Option.ne_none_iff_exists'.mp fun hnone => ?_
    have hmem := mem_nonzero.mpr ⟨p, hp, hne, rfl⟩
    rw [List.min?_eq_none_iff.mp hnone] at hmem
    cases hmem
  have hmax : ∀ p ∈ packs, p.generationMax ≠ 0 →
      ∃ n, ((packs.map (·.generationMax)).filter (· ≠ 0)).max? = some n := fun p hp hne => by
    refine Option.ne_none_iff_exists'.mp fun hnone => ?_
    have hmem := mem_nonzero.mpr ⟨p, hp, hne, rfl⟩
    rw [List.max?_eq_none_iff.mp hnone] at hmem
    cases hmem
  refine ⟨fun p hp hne => ?_, fun h => ?_, fun h => ?_, fun p hp => ?_, fun h => ?_, fun h => ?_⟩
  · obtain ⟨n, hn⟩ := hmin p hp hne
    unfold generationMin
    rw [hn]
    exact (List.min?_eq_some_iff.mp hn).2 _ (mem_nonzero.mpr ⟨p, hp, hne, rfl⟩)
  · obtain ⟨p, hp, hne⟩ := h
    obtain ⟨n, hn⟩ := hmin p hp hne
    unfold generationMin
    rw [hn]
    exact mem_nonzero.mp (List.min?_eq_some_iff.mp hn).1
  · unfold generationMin
    rw [List.filter_eq_nil_iff.mpr (by simpa using h)]
    rfl
  · by_cases hne : p.generationMax = 0
    · omega
    · obtain ⟨n, hn⟩ := hmax p hp hne
      unfold generationMax
      rw [hn]
      exact (List.max?_eq_some_iff.mp hn).2 _ (mem_nonzero.mpr ⟨p, hp, hne, rfl⟩)
  · obtain ⟨p, hp, hne⟩ := h
    obtain ⟨n, hn⟩ := hmax p hp hne
    unfold generationMax
    rw [hn]
    obtain ⟨q, hq, -, hqn⟩ := mem_nonzero.mp (List.max?_eq_some_iff.mp hn).1
    exact ⟨q, hq, hqn⟩
  · unfold generationMax
    rw [List.filter_eq_nil_iff.mpr (by simpa using h)]
    rfl

/-! ## 3. The splice -/

/-- The manifest with a block of its stack replaced by one pack. -/
def spliced (m : ChildManifest) (pre post : List PackInfo) (pack : PackInfo) : ChildManifest :=
  { m with
    packStack := {
      activeRevision := m.packStack.activeRevision
      lowers := pre ++ pack :: post } }

section Splice

variable {m : ChildManifest} {selected pre block post : List PackInfo}
variable {newPack : PackInfo} {targetLevel : Nat}

theorem publishPartialCompaction_block (hne : selected ≠ [])
    (hlength : block.length = selected.length) (hsplit : m.lowers = pre ++ block ++ post)
    (hindexes : selectedIndexes m.lowers selected = List.range' pre.length block.length) :
    publishPartialCompaction m selected newPack targetLevel =
      .ok (spliced m pre post (withCompactionMetadata newPack block targetLevel), block) := by
  have hpos := List.length_pos_iff.mpr hne
  have hfirst : (List.range' pre.length block.length).headD 0 = pre.length := by
    rw [← Nat.sub_add_cancel (show 1 ≤ block.length by omega), List.range'_succ]
    rfl
  have hlast : (List.range' pre.length block.length).getLastD 0 =
      pre.length + block.length - 1 := by
    rw [List.getLastD_eq_getLast?, List.getLast?_range', if_neg (by omega)]
    simp
  have hcount : pre.length + block.length - 1 + 1 - pre.length = block.length := by omega
  have hend : pre.length + block.length - 1 + 1 = (pre ++ block).length := by
    rw [List.length_append]
    omega
  unfold publishPartialCompaction
  rw [if_neg hne]
  simp only
  rw [hindexes, List.length_range', if_neg (not_ne_iff.mpr hlength), hfirst, hlast, hcount,
    if_neg (not_ne_iff.mpr rfl), hend, hsplit, List.drop_left, List.append_assoc, List.drop_left,
    List.take_left, List.take_left]
  rfl

/-- What is published was a block. -/
theorem block_of_published {r : ChildManifest × List PackInfo}
    (hnodup : (m.lowers.map (·.path)).Nodup)
    (h : publishPartialCompaction m selected newPack targetLevel = .ok r) :
    ∃ pre block post, Block m.lowers selected pre block post := by
  unfold publishPartialCompaction at h
  split at h
  · cases h
  · simp only at h
    split at h
    · cases h
    · rename_i hlength
      split at h
      · cases h
      · rename_i hrange
        rw [not_ne_iff] at hlength hrange
        have hcount := (congrArg List.length hrange).symm.trans hlength
        rw [List.length_range'] at hcount
        exact ⟨_, _, _, block_of_range hnodup hcount hrange⟩

/-- **Packs appended first or afterwards**: publishing sees the same positions, and gives the same
    stack, or raises the same error. -/
theorem publishPartialCompaction_append {m' : ChildManifest} {more : List PackInfo}
    (hne : selected ≠ []) (hm' : m'.lowers = m.lowers ++ more)
    (hother : ∀ p ∈ more, p.path ∉ selected.map (·.path)) :
    (publishPartialCompaction m' selected newPack targetLevel).map (fun r => (r.1.lowers, r.2)) =
      (publishPartialCompaction m selected newPack targetLevel).map fun r =>
        (r.1.lowers ++ more, r.2) := by
  have hindexes : selectedIndexes m'.lowers selected = selectedIndexes m.lowers selected := by
    rw [hm', selectedIndexes_append_other hother]
  unfold publishPartialCompaction
  rw [if_neg hne, if_neg hne]
  simp only
  rw [hindexes]
  split
  · rfl
  · rename_i hlength
    split
    · rfl
    · rename_i hrange
      rw [not_ne_iff] at hlength hrange
      have hpos := List.length_pos_iff.mpr hne
      have hcount := (congrArg List.length hrange).symm.trans hlength
      rw [List.length_range'] at hcount
      have hlast : (selectedIndexes m.lowers selected).getLastD 0 < m.lowers.length := by
        have hnil : selectedIndexes m.lowers selected ≠ [] := fun hnil => by
          rw [hnil, List.length_nil] at hlength
          omega
        rw [List.getLastD_eq_getLast?, List.getLast?_eq_some_getLast hnil, Option.getD_some]
        obtain ⟨p, hp, -⟩ := mem_selectedIndexes.mp (List.getLast_mem hnil)
        exact (List.getElem?_eq_some_iff.mp hp).1
      rw [hcount, hm']
      simp only [Except.map]
      rw [List.drop_append_of_le_length (by omega), List.drop_append_of_le_length (by omega),
        List.take_append_of_le_length (by omega),
        List.take_append_of_le_length (by rw [List.length_drop]; omega)]
      simp [ChildManifest.lowers]

/-- **Publishing a compaction is a pure splice.** It raises exactly when the selected paths are not
    those of a contiguous block of the stack; otherwise the annotated pack stands in the block's
    place, with the hull of its ranges, the block is retired in stack order, and nothing else
    changes. Packs with other paths that are appended before give the same stack as afterwards. -/
theorem publishPartialCompaction_splice (m : ChildManifest) (selected : List PackInfo)
    (newPack : PackInfo) (targetLevel : Nat) (hnodup : (m.lowers.map (·.path)).Nodup)
    (hne : selected ≠ []) (hselected : (selected.map (·.path)).Nodup) :
    ((∃ e, publishPartialCompaction m selected newPack targetLevel = .error e) ↔
      ¬ ∃ pre block post, Block m.lowers selected pre block post) ∧
    (∀ pre block post, Block m.lowers selected pre block post →
      ∃ lo hi, Hull block lo hi ∧
        publishPartialCompaction m selected newPack targetLevel =
          .ok (spliced m pre post
            { newPack with
              level := targetLevel
              generationMin := lo
              generationMax := hi
              kind := "compact" }, block)) ∧
    ∀ (m' : ChildManifest) (more : List PackInfo), m'.lowers = m.lowers ++ more →
      (∀ p ∈ more, p.path ∉ selected.map (·.path)) →
      (publishPartialCompaction m' selected newPack targetLevel).map (fun r => (r.1.lowers, r.2)) =
        (publishPartialCompaction m selected newPack targetLevel).map fun r =>
          (r.1.lowers ++ more, r.2) := by
  have hok : ∀ pre block post, Block m.lowers selected pre block post →
      publishPartialCompaction m selected newPack targetLevel =
        .ok (spliced m pre post (withCompactionMetadata newPack block targetLevel), block) :=
    fun pre block post h => publishPartialCompaction_block hne (h.length_eq hnodup hselected)
      h.split (selectedIndexes_block hnodup h)
  refine ⟨⟨fun ⟨e, he⟩ ⟨pre, block, post, h⟩ => ?_, fun hnone => ?_⟩, fun pre block post h => ?_,
    fun m' more hm' hother => publishPartialCompaction_append hne hm' hother⟩
  · rw [hok pre block post h] at he
    cases he
  · cases hpub : publishPartialCompaction m selected newPack targetLevel with
    | error e => exact ⟨e, rfl⟩
    | ok r => exact absurd (block_of_published hnodup hpub) hnone
  · exact ⟨_, _, hull_of_packs block, hok pre block post h⟩

end Splice

/-! ### The block in the middle of a stack -/

def stackedPack (path : String) (level : Int) (lo hi : Nat) : PackInfo :=
  { path, sha256 := "", size := 1, level, generationMin := lo, generationMax := hi }

/-- Four packs, as `test_publish_partial_compaction_replaces_only_selected_newer_packs` has them. -/
def fourPacks : ChildManifest where
  id := "dataset:foo"
  name := "foo"
  type := "dataset"
  generation := 7
  packStack := {
    activeRevision := "g7"
    lowers := [stackedPack "/p/base.sqfs" 0 1 1, stackedPack "/p/l2.sqfs" 2 2 4,
      stackedPack "/p/l3.sqfs" 3 5 6, stackedPack "/p/l4.sqfs" 4 7 7] }

/-- The two packs in the middle, newest first: they are published, and two that are not next to
    each other are refused. -/
theorem fourPacks_spliced :
    (∃ r, publishPartialCompaction fourPacks
        [stackedPack "/p/l3.sqfs" 3 5 6, stackedPack "/p/l2.sqfs" 2 2 4]
        (stackedPack "/p/compact.sqfs" 0 0 0) 2 = .ok r ∧
      r.1.lowers.map (·.path) = ["/p/base.sqfs", "/p/compact.sqfs", "/p/l4.sqfs"]) ∧
    ∃ e, publishPartialCompaction fourPacks
      [stackedPack "/p/base.sqfs" 0 1 1, stackedPack "/p/l3.sqfs" 3 5 6]
      (stackedPack "/p/compact.sqfs" 0 0 0) 2 = .error e := by
  constructor
  · obtain ⟨lo, hi, -, hpub⟩ := (publishPartialCompaction_splice fourPacks
      [stackedPack "/p/l3.sqfs" 3 5 6, stackedPack "/p/l2.sqfs" 2 2 4]
      (stackedPack "/p/compact.sqfs" 0 0 0) 2 (by decide) (by decide) (by decide)).2.1
      [stackedPack "/p/base.sqfs" 0 1 1] [stackedPack "/p/l2.sqfs" 2 2 4,
        stackedPack "/p/l3.sqfs" 3 5 6] [stackedPack "/p/l4.sqfs" 4 7 7]
      ⟨rfl, fun path => by simp [stackedPack, or_comm]⟩
    exact ⟨_, hpub, rfl⟩
  · refine (publishPartialCompaction_splice fourPacks
      [stackedPack "/p/base.sqfs" 0 1 1, stackedPack "/p/l3.sqfs" 3 5 6]
      (stackedPack "/p/compact.sqfs" 0 0 0) 2 (by decide) (by decide) (by decide)).1.mpr ?_
    intro h
    obtain ⟨pre, block, post, hblock⟩ := h
    have hindexes := selectedIndexes_block (by decide) hblock
    have hpositions : selectedIndexes fourPacks.lowers
        [stackedPack "/p/base.sqfs" 0 1 1, stackedPack "/p/l3.sqfs" 3 5 6] = [0, 2] := by decide
    rw [hpositions] at hindexes
    have hlength := congrArg List.length hindexes
    rw [List.length_range'] at hlength
    rw [← hlength] at hindexes
    have hgap := congrArg (fun l => l[0]? = some (l.getLastD 0 - 1)) hindexes
    simp [List.range'] at hgap

end CccStorage
