/-
  File:      CccStorage/Levels.lean
  Subject:   The pack levels and the compaction planner (`mountd/workers/levels.py`), and the
             manifest splice of a partial compaction (`mountd/workers/compaction.py`).

  * `LevelPolicy` -- a policy whose levels are what `parse_levels` returns: not empty, sorted
    by strictly increasing level number;
  * `chooseInitialLevel`, `isValidStack`, `planLevelCompaction` -- the planner;
  * `publishPartialCompaction` -- the splice, with its three refusals;
  * `planLevelCompaction_suffix` -- a candidate is a non-empty newest run of the stack;
  * `publishPartialCompaction_retires` -- what the splice retires is exactly what was selected,
    when the selection is a newest run; `publishPartialCompaction_ok` -- it then succeeds when
    the paths are distinct.
-/
import CccStorage.Manifest

namespace CccStorage

/-! ## 1. Levels -/

structure PackLevel where
  level : Nat
  maxBytes : Nat
  deriving DecidableEq, Repr

/-- A level policy. The last two fields are what `parse_levels` guarantees of `levels`. -/
structure LevelPolicy where
  levels : List PackLevel
  maxPacksPerLevel : Nat := 1
  allowBaseCompaction : Bool := false
  maxOnlineCompactionBytes : Nat := 10 * 1024 ^ 3
  triggerAfterCommit : Bool := true
  nonempty : levels ≠ []
  increasing : levels.Pairwise fun a b => a.level < b.level

namespace LevelPolicy

/-- `self.levels[0].level`. -/
def baseLevel (policy : LevelPolicy) : Nat := (policy.levels.head policy.nonempty).level

/-- `LevelPolicy.default()`: the documented shape `0:100G,1:10G,2:1G,3:100M,4:10M`. -/
def default : LevelPolicy where
  levels := [⟨0, 100 * 1024 ^ 3⟩, ⟨1, 10 * 1024 ^ 3⟩, ⟨2, 1024 ^ 3⟩, ⟨3, 100 * 1024 ^ 2⟩,
    ⟨4, 10 * 1024 ^ 2⟩]
  nonempty := by decide
  increasing := by decide

end LevelPolicy

structure CompactionCandidate where
  packs : List PackInfo
  targetLevel : Nat
  totalBytes : Nat
  blockedReason : String := ""
  reason : String := ""
  deriving DecidableEq, Repr

/-- Smallest (highest-numbered) level whose capacity can hold `size`; the base level when
    none can. -/
def chooseInitialLevel (policy : LevelPolicy) (size : Nat) : Nat :=
  policy.levels.foldl (fun chosen lvl => if size ≤ lvl.maxBytes then lvl.level else chosen)
    policy.baseLevel

def targetLevelFor (policy : LevelPolicy) (total : Nat) : Nat := chooseInitialLevel policy total

/-- The loop of `_is_valid_stack`: packs seen per level so far, and the level before. -/
def isValidStackFrom (policy : LevelPolicy) (counts : Int → Nat) (prevLevel : Option Int) :
    List PackInfo → Bool
  | [] => true
  | pack :: packs =>
    let counts := Function.update counts pack.level (counts pack.level + 1)
    if counts pack.level > policy.maxPacksPerLevel then false
    else if prevLevel.any (pack.level ≤ ·) then false
    else isValidStackFrom policy counts (some pack.level) packs

/-- The stack (oldest first) already obeys the level invariant. -/
def isValidStack (packs : List PackInfo) (policy : LevelPolicy) : Bool :=
  isValidStackFrom policy (fun _ => 0) none packs

/-- `max((p.level for p in prefix), default=-1)`. -/
def prefixMaxLevel (pre : List PackInfo) : Int :=
  ((pre.map (·.level)).max?).getD (-1)

/-- One round of the planner's loop: the newest `m` packs as the group to merge. -/
def planGroup (packs : List PackInfo) (policy : LevelPolicy) (allowBase : Bool) (m : Nat) :
    Option CompactionCandidate :=
  let group := packs.drop (packs.length - m)
  let pre := packs.take (packs.length - m)
  if !isValidStack pre policy then none
  else
    let total := (group.map (·.size)).sum
    let target := targetLevelFor policy total
    if (target : Int) > prefixMaxLevel pre then
      let blocked :=
        if target ≤ policy.baseLevel && !allowBase then
          s!"base compaction into L{target} requires --allow-base (maintenance window)"
        else if total > policy.maxOnlineCompactionBytes && !allowBase then
          s!"merge of {total} bytes exceeds online compaction budget " ++
            s!"{policy.maxOnlineCompactionBytes}; requires --allow-base"
        else ""
      some {
        packs := group
        targetLevel := target
        totalBytes := total
        blockedReason := blocked
        reason := s!"levels-overflow->L{target}" }
    else none

/-- The minimal newest-suffix compaction needed to heal the stack `packs` (oldest first). -/
def planLevelCompaction (packs : List PackInfo) (policy : LevelPolicy) (allowBase : Bool) :
    Option CompactionCandidate :=
  if packs.length ≤ 1 then none
  else if isValidStack packs policy then none
  else
    (List.range packs.length).findSome? fun i =>
      planGroup packs policy (allowBase || policy.allowBaseCompaction) (i + 1)

/-- **A candidate is a non-empty newest run of the stack.** -/
theorem planLevelCompaction_suffix {packs : List PackInfo} {policy : LevelPolicy}
    {allowBase : Bool} {c : CompactionCandidate}
    (h : planLevelCompaction packs policy allowBase = some c) :
    ∃ pre, packs = pre ++ c.packs ∧ c.packs ≠ [] := by
  unfold planLevelCompaction at h
  split at h
  · cases h
  · split at h
    · cases h
    · obtain ⟨i, hi, hg⟩ := List.exists_of_findSome?_eq_some h
      rw [List.mem_range] at hi
      unfold planGroup at hg
      simp only at hg
      split at hg
      · cases hg
      · split at hg
        · simp only [Option.some.injEq] at hg
          subst hg
          refine ⟨packs.take (packs.length - (i + 1)), (List.take_append_drop _ _).symm, ?_⟩
          intro hnil
          have hlen := congrArg List.length hnil
          simp only [List.length_drop, List.length_nil] at hlen
          omega
        · cases hg

/-! ## 2. Publishing a partial compaction -/

inductive CompactionError where
  | nothingSelected
  | selectedNotPresent
  | selectedNotContiguous
  deriving DecidableEq, Repr

/-- The text `CompactionError` carries. -/
def CompactionError.message : CompactionError → String
  | .nothingSelected => "partial compaction requires at least one selected pack"
  | .selectedNotPresent => "selected packs are not all present in the manifest"
  | .selectedNotContiguous => "selected packs must be contiguous in the manifest stack"

/-- `min` of the packs' own `generation_min`, zero entries ignored. -/
def generationMin (packs : List PackInfo) : Nat :=
  (((packs.map (·.generationMin)).filter (· ≠ 0)).min?).getD 0

/-- `max` of the packs' own `generation_max`, zero entries ignored. -/
def generationMax (packs : List PackInfo) : Nat :=
  (((packs.map (·.generationMax)).filter (· ≠ 0)).max?).getD 0

def withCompactionMetadata (pack : PackInfo) (selected : List PackInfo) (targetLevel : Nat) :
    PackInfo :=
  { pack with
    level := targetLevel
    generationMin := generationMin selected
    generationMax := generationMax selected
    kind := "compact" }

/-- The positions of the stack whose pack's path is among the selected paths. -/
def selectedIndexes (lowers selected : List PackInfo) : List Nat :=
  (List.range lowers.length).filter fun i =>
    (lowers[i]?).any fun p => (selected.map (·.path)).contains p.path

/-- Replace only the `selected` packs of the stack with `newPack`; also the packs retired. -/
def publishPartialCompaction (manifest : ChildManifest) (selected : List PackInfo)
    (newPack : PackInfo) (targetLevel : Nat) :
    Except CompactionError (ChildManifest × List PackInfo) :=
  if selected = [] then .error .nothingSelected
  else
    let lowers := manifest.lowers
    let indexes := selectedIndexes lowers selected
    if indexes.length ≠ selected.length then .error .selectedNotPresent
    else
      let first := indexes.headD 0
      let last := indexes.getLastD 0
      if indexes ≠ List.range' first (last + 1 - first) then .error .selectedNotContiguous
      else
        let retired := (lowers.drop first).take (last + 1 - first)
        let annotated := withCompactionMetadata newPack retired targetLevel
        .ok ({ manifest with
                packStack := {
                  activeRevision := manifest.packStack.activeRevision
                  lowers := lowers.take first ++ annotated :: lowers.drop (last + 1) } },
             retired)

/-- Every position of the newest run is among the selected positions. -/
theorem mem_selectedIndexes_suffix {pre selected : List PackInfo} {i : Nat}
    (h1 : pre.length ≤ i) (h2 : i < pre.length + selected.length) :
    i ∈ selectedIndexes (pre ++ selected) selected := by
  unfold selectedIndexes
  rw [List.mem_filter, List.mem_range, List.length_append]
  refine ⟨h2, ?_⟩
  have hi : i - pre.length < selected.length := by omega
  rw [List.getElem?_append_right h1, List.getElem?_eq_getElem hi]
  simp only [Option.any_some, List.contains_eq_mem, decide_eq_true_eq]
  exact List.mem_map_of_mem (List.getElem_mem hi)

/-- **With as many selected positions as selected packs, the positions are the newest run's.** -/
theorem selectedIndexes_suffix {pre selected : List PackInfo}
    (hlen : (selectedIndexes (pre ++ selected) selected).length = selected.length) :
    selectedIndexes (pre ++ selected) selected = List.range' pre.length selected.length := by
  have hsub : (List.range' pre.length selected.length).Sublist
      (selectedIndexes (pre ++ selected) selected) := by
    have hall : (List.range' pre.length selected.length).filter (fun i =>
        ((pre ++ selected)[i]?).any fun p => (selected.map (·.path)).contains p.path)
        = List.range' pre.length selected.length := by
      rw [List.filter_eq_self]
      intro i hi
      rw [List.mem_range'_1] at hi
      have hmem : i ∈ selectedIndexes (pre ++ selected) selected :=
        mem_selectedIndexes_suffix hi.1 hi.2
      unfold selectedIndexes at hmem
      exact (List.mem_filter.mp hmem).2
    rw [← hall]
    unfold selectedIndexes
    rw [List.length_append, List.range_eq_range', ← List.range'_append_1]
    rw [List.filter_append, Nat.zero_add]
    exact List.sublist_append_right _ _
  exact (hsub.eq_of_length (by rw [List.length_range', hlen])).symm

/-- With distinct paths the selected positions are the newest run's. -/
theorem selectedIndexes_of_nodup {pre selected : List PackInfo}
    (hnd : ((pre ++ selected).map (·.path)).Nodup) :
    selectedIndexes (pre ++ selected) selected = List.range' pre.length selected.length := by
  have hpre : ∀ i ∈ List.range' 0 pre.length, ¬ (((pre ++ selected)[i]?).any fun p =>
      (selected.map (·.path)).contains p.path) = true := by
    intro i hi
    have hlt : i < pre.length := by
      have := (List.mem_range'_1.mp hi).2
      omega
    rw [List.getElem?_append_left hlt, List.getElem?_eq_getElem hlt]
    simp only [Option.any_some, List.contains_eq_mem, decide_eq_true_eq]
    intro hmem
    rw [List.map_append, List.nodup_append] at hnd
    exact hnd.2.2 _ (List.mem_map_of_mem (List.getElem_mem hlt)) _ hmem rfl
  have hsel : ∀ i ∈ List.range' pre.length selected.length, (((pre ++ selected)[i]?).any fun p =>
      (selected.map (·.path)).contains p.path) = true := by
    intro i hi
    rw [List.mem_range'_1] at hi
    have hmem : i ∈ selectedIndexes (pre ++ selected) selected :=
      mem_selectedIndexes_suffix hi.1 hi.2
    unfold selectedIndexes at hmem
    exact (List.mem_filter.mp hmem).2
  unfold selectedIndexes
  rw [List.length_append, List.range_eq_range', ← List.range'_append_1, List.filter_append,
    Nat.zero_add, List.filter_eq_nil_iff.mpr hpre, List.filter_eq_self.mpr hsel, List.nil_append]

/-- **The splice of a newest run**: when it succeeds, exactly the selected packs are retired and
    the older packs stay as they are, under the new pack. -/
theorem publishPartialCompaction_retires {m m' : ChildManifest} {pre selected retired : List PackInfo}
    {newPack : PackInfo} {target : Nat} (hl : m.lowers = pre ++ selected)
    (h : publishPartialCompaction m selected newPack target = .ok (m', retired)) :
    retired = selected ∧ m' = { m with
      packStack := {
        activeRevision := m.packStack.activeRevision
        lowers := pre ++ [withCompactionMetadata newPack selected target] } } := by
  unfold publishPartialCompaction at h
  split at h
  · cases h
  · rename_i hne
    simp only at h
    split at h
    · cases h
    · rename_i hlen
      rw [hl] at h
      rw [hl, not_ne_iff] at hlen
      rw [selectedIndexes_suffix hlen] at h
      have hpos : 0 < selected.length := List.length_pos_iff.mpr hne
      have hfirst : (List.range' pre.length selected.length).headD 0 = pre.length := by
        cases hs : selected.length with
        | zero => omega
        | succ n => simp [List.range'_succ]
      have hlast : (List.range' pre.length selected.length).getLastD 0
          = pre.length + selected.length - 1 := by
        rw [List.getLastD_eq_getLast?, List.getLast?_range', if_neg (by omega)]
        simp
      rw [hfirst, hlast] at h
      have hcount : pre.length + selected.length - 1 + 1 - pre.length = selected.length := by omega
      have hend : pre.length + selected.length - 1 + 1 = pre.length + selected.length := by omega
      rw [hcount, hend] at h
      simp only [ne_eq, not_true_eq_false, ↓reduceIte, Except.ok.injEq, Prod.mk.injEq] at h
      obtain ⟨h1, h2⟩ := h
      rw [List.drop_left, List.take_of_length_le (Nat.le_refl _)] at h2
      refine ⟨h2.symm, ?_⟩
      rw [← h1, List.drop_left, List.take_of_length_le (Nat.le_refl _), List.take_left,
        ← List.length_append, List.drop_length]

/-- **The splice of a newest run succeeds** when the paths of the stack are distinct. -/
theorem publishPartialCompaction_ok {m : ChildManifest} {pre selected : List PackInfo}
    (hl : m.lowers = pre ++ selected) (hne : selected ≠ []) (hnd : (m.lowers.map (·.path)).Nodup)
    (newPack : PackInfo) (target : Nat) :
    ∃ r, publishPartialCompaction m selected newPack target = .ok r := by
  have hidx := selectedIndexes_of_nodup (hl ▸ hnd)
  have hpos : 0 < selected.length := List.length_pos_iff.mpr hne
  obtain ⟨n, hn⟩ : ∃ n, selected.length = n + 1 := ⟨selected.length - 1, by omega⟩
  have hhead : (List.range' pre.length selected.length).headD 0 = pre.length := by
    rw [hn, List.range'_succ]
    rfl
  have hlast : (List.range' pre.length selected.length).getLastD 0
      = pre.length + selected.length - 1 := by
    rw [List.getLastD_eq_getLast?, List.getLast?_range', if_neg (by omega)]
    simp
  have hcount : pre.length + selected.length - 1 + 1 - pre.length = selected.length := by omega
  unfold publishPartialCompaction
  rw [if_neg hne]
  simp only
  rw [hl, hidx, List.length_range', if_neg (not_ne_iff.mpr rfl), hhead, hlast, hcount,
    if_neg (not_ne_iff.mpr rfl)]
  exact ⟨_, rfl⟩

end CccStorage
