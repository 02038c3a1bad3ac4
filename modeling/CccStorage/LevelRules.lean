/-
  File:      CccStorage/LevelRules.lean
  Subject:   What the level rules of `mountd/workers/levels.py` amount to: which level is chosen,
             which stacks are left alone, and which packs a routine compaction rewrites.

  * `lastFit`, `chooseInitialLevel_eq` -- the level chosen is the last one that fits;
  * `chooseInitialLevel_picks_iff` -- it is the smallest that fits exactly when the table ranks
    the levels for that size;
  * `planLevelCompaction_leaves_iff` -- a stack is left alone exactly when its levels increase;
    `honours_iff` -- so `max_packs_per_level` counts for nothing;
  * `routineCompaction_keepsBase` -- a compaction without `allow_base` leaves the oldest pack.
-/
import CccStorage.ConfigValues
import CccStorage.StackRuns

namespace CccStorage

/-! ## 1. The level chosen -/

/-- The last level of a table that can hold `size`. -/
def lastFit (levels : List PackLevel) (size : Nat) : Option PackLevel :=
  (levels.filter fun lvl => size ≤ lvl.maxBytes).getLast?

section Choice

variable {levels : List PackLevel} {policy : LevelPolicy} {size : Nat} {lvl : PackLevel}

/-- The loop of `choose_initial_level`. -/
theorem choose_eq (levels : List PackLevel) (size chosen : Nat) :
    levels.foldl (fun c lvl => if size ≤ lvl.maxBytes then lvl.level else c) chosen =
      ((lastFit levels size).map (·.level)).getD chosen := by
  induction levels generalizing chosen with
  | nil => rfl
  | cons lvl levels ih =>
      rw [List.foldl_cons, ih]
      unfold lastFit
      by_cases hfits : size ≤ lvl.maxBytes
      · rw [if_pos hfits, List.filter_cons_of_pos (by simpa using hfits), List.getLast?_cons]
        cases (levels.filter fun lvl => size ≤ lvl.maxBytes).getLast? with
        | none => rfl
        | some last => rfl
      · rw [if_neg hfits, List.filter_cons_of_neg (by simpa using hfits)]

theorem chooseInitialLevel_eq :
    chooseInitialLevel policy size =
      ((lastFit policy.levels size).map (·.level)).getD policy.baseLevel :=
  choose_eq policy.levels size policy.baseLevel

theorem lastFit_none : lastFit levels size = none ↔ ∀ lvl ∈ levels, lvl.maxBytes < size := by
  unfold lastFit
  rw [List.getLast?_eq_none_iff, List.filter_eq_nil_iff]
  simp only [decide_eq_true_eq, not_le]

/-- **The last level that fits**: it fits, and no level after it does. -/
theorem lastFit_some (hs : levels.Pairwise fun a b => a.level < b.level)
    (h : lastFit levels size = some lvl) :
    lvl ∈ levels ∧ size ≤ lvl.maxBytes ∧
      ∀ b ∈ levels, size ≤ b.maxBytes → b.level ≤ lvl.level := by
  obtain ⟨before, hsplit⟩ := List.getLast?_eq_some_iff.mp h
  have hmem : lvl ∈ levels.filter fun l => size ≤ l.maxBytes := by simp [hsplit]
  obtain ⟨hin, hfits⟩ := List.mem_filter.mp hmem
  refine ⟨hin, by simpa using hfits, fun b hb hbfits => ?_⟩
  have hsorted := hs.filter fun l => decide (size ≤ l.maxBytes)
  have hbmem : b ∈ levels.filter fun l => size ≤ l.maxBytes :=
    List.mem_filter.mpr ⟨hb, by simpa using hbfits⟩
  rw [hsplit] at hsorted hbmem
  rcases List.mem_append.mp hbmem with hbefore | hlast
  · exact ((List.pairwise_append.mp hsorted).2.2 b hbefore lvl (List.mem_singleton_self lvl)).le
  · rw [List.mem_singleton.mp hlast]

/-- Two elements of a list in order are in order one way or the other. -/
theorem pairwise_cases {α : Type*} {R : α → α → Prop} {l : List α} {a b : α} (h : l.Pairwise R)
    (ha : a ∈ l) (hb : b ∈ l) : a = b ∨ R a b ∨ R b a := by
  induction h with
  | nil => cases ha
  | cons hall _ ih =>
      rcases List.mem_cons.mp ha with ha | ha
      · rcases List.mem_cons.mp hb with hb | hb
        · exact .inl (ha.trans hb.symm)
        · exact .inr (.inl (ha ▸ hall b hb))
      · rcases List.mem_cons.mp hb with hb | hb
        · exact .inr (.inr (hb ▸ hall a ha))
        · exact ih ha hb

/-- A level number is that of one level. -/
theorem LevelPolicy.level_inj (policy : LevelPolicy) {a b : PackLevel} (ha : a ∈ policy.levels)
    (hb : b ∈ policy.levels) (h : a.level = b.level) : a = b := by
  rcases pairwise_cases policy.increasing ha hb with heq | hlt | hlt
  · exact heq
  · omega
  · omega

/-- **The level chosen is the smallest that fits**, or the base level, which then is the largest. -/
structure PicksSmallest (policy : LevelPolicy) (size chosen : Nat) : Prop where
  /-- When some level can hold the size, the one chosen can, and none that can is smaller. -/
  fits : (∃ lvl ∈ policy.levels, size ≤ lvl.maxBytes) →
    ∃ lvl ∈ policy.levels, lvl.level = chosen ∧ size ≤ lvl.maxBytes ∧
      ∀ b ∈ policy.levels, size ≤ b.maxBytes → lvl.maxBytes ≤ b.maxBytes
  /-- When none can, it is the base level, and no level is larger. -/
  base : (∀ lvl ∈ policy.levels, lvl.maxBytes < size) →
    chosen = policy.baseLevel ∧
      ∀ lvl ∈ policy.levels, lvl.maxBytes ≤ (policy.levels.head policy.nonempty).maxBytes

/-- **The table ranks its levels for a size**: where a level that can hold it is followed by a
    larger one, a level further on is again no larger than the first and can hold it; and where
    none can hold it, the base level is the largest. -/
structure Ranked (policy : LevelPolicy) (size : Nat) : Prop where
  fits : ∀ a ∈ policy.levels, ∀ b ∈ policy.levels, size ≤ a.maxBytes → a.level < b.level →
    a.maxBytes < b.maxBytes →
      ∃ c ∈ policy.levels, b.level < c.level ∧ size ≤ c.maxBytes ∧ c.maxBytes ≤ a.maxBytes
  base : (∀ lvl ∈ policy.levels, lvl.maxBytes < size) →
    ∀ lvl ∈ policy.levels, lvl.maxBytes ≤ (policy.levels.head policy.nonempty).maxBytes

/-- **The smallest level that fits is chosen exactly when the table ranks its levels** for that
    size; `choose_initial_level` and `target_level_for` are the same function. -/
theorem chooseInitialLevel_picks_iff (policy : LevelPolicy) (size : Nat) :
    PicksSmallest policy size (chooseInitialLevel policy size) ∧
      PicksSmallest policy size (targetLevelFor policy size) ↔ Ranked policy size := by
  have hsame : targetLevelFor policy size = chooseInitialLevel policy size := rfl
  rw [hsame, and_self]
  constructor
  · intro h
    refine ⟨fun a ha b hb hafits hab hsmaller => ?_, fun hnone => (h.base hnone).2⟩
    obtain ⟨lvl, hlvl, hchosen, hfits, hleast⟩ := h.fits ⟨a, ha, hafits⟩
    obtain ⟨last, hlast⟩ := Option.ne_none_iff_exists'.mp fun hnone =>
      absurd hafits (Nat.not_le.mpr (lastFit_none.mp hnone a ha))
    obtain ⟨hlastmem, -, hafter⟩ := lastFit_some policy.increasing hlast
    have heq : lvl = last := by
      refine policy.level_inj hlvl hlastmem ?_
      rw [hchosen, chooseInitialLevel_eq, hlast]
      rfl
    subst heq
    have hle := hleast a ha hafits
    have hbefore := hafter b hb (by omega)
    have hne : b.level ≠ lvl.level := fun hlevel => by
      rw [policy.level_inj hb hlvl hlevel] at hsmaller
      omega
    exact ⟨lvl, hlvl, by omega, hfits, hle⟩
  · intro h
    refine ⟨fun ⟨a, ha, hafits⟩ => ?_, fun hnone => ⟨?_, h.base hnone⟩⟩
    · obtain ⟨last, hlast⟩ := Option.ne_none_iff_exists'.mp fun hnone =>
        absurd hafits (Nat.not_le.mpr (lastFit_none.mp hnone a ha))
      obtain ⟨hmem, hfits, hafter⟩ := lastFit_some policy.increasing hlast
      refine ⟨last, hmem, ?_, hfits, fun b hb hbfits => ?_⟩
      · rw [chooseInitialLevel_eq, hlast]
        rfl
      · -- a smaller one would be followed by one after the last
        by_contra hsmaller
        have hne : b.level ≠ last.level := fun hlevel => by
          rw [policy.level_inj hb hmem hlevel] at hsmaller
          omega
        have hbefore := hafter b hb hbfits
        obtain ⟨c, hc, hlater, hcfits, -⟩ :=
          h.fits b hb last hmem hbfits (by omega) (by omega)
        have hcbefore := hafter c hc hcfits
        omega
    · rw [chooseInitialLevel_eq, lastFit_none.mpr hnone]
      rfl

/-- A table whose capacities do not grow with the level number ranks its levels for every size. -/
theorem ranked_of_antitone
    (h : policy.levels.Pairwise fun a b => b.maxBytes ≤ a.maxBytes) : Ranked policy size := by
  have hboth := h.and policy.increasing
  refine ⟨fun a ha b hb _ hab hsmaller => ?_, fun _ lvl hlvl => ?_⟩
  · exfalso
    rcases pairwise_cases hboth ha hb with heq | hle | hle
    · rw [heq] at hab
      omega
    · omega
    · omega
  · have hsplit := List.cons_head_tail policy.nonempty
    rw [← hsplit] at h hlvl
    rcases List.mem_cons.mp hlvl with heq | htail
    · rw [heq]
    · exact (List.pairwise_cons.mp h).1 lvl htail

/-- The documented table ranks its levels. -/
example (size : Nat) : Ranked .default size := ranked_of_antitone (by decide)

/-- A table that the parser takes, with the larger level after the smaller. -/
def growingLevels : LevelPolicy where
  levels := [⟨0, 1024 ^ 3⟩, ⟨1, 10 * 1024 ^ 3⟩]
  nonempty := by decide
  increasing := by decide

/-- **500 MiB go to the level of 10 GiB**, where the level of 1 GiB can hold them. -/
theorem growingLevels_chosen :
    Mountd.parseLevels Mountd.wholeNumbers "0:1G,1:10G" = .ok growingLevels.levels ∧
      chooseInitialLevel growingLevels (500 * 1024 ^ 2) = 1 ∧
      ¬ PicksSmallest growingLevels (500 * 1024 ^ 2)
        (chooseInitialLevel growingLevels (500 * 1024 ^ 2)) := by
  refine ⟨by decide +kernel, by decide, fun h => ?_⟩
  have hchosen : chooseInitialLevel growingLevels (500 * 1024 ^ 2) = 1 := by decide
  have hmem : (⟨0, 1024 ^ 3⟩ : PackLevel) ∈ growingLevels.levels := by decide
  obtain ⟨lvl, hlvl, hlevel, -, hleast⟩ := h.fits ⟨_, hmem, by decide⟩
  have heq : lvl = ⟨1, 10 * 1024 ^ 3⟩ :=
    growingLevels.level_inj hlvl (by decide) (hlevel.trans hchosen)
  have hle := hleast ⟨0, 1024 ^ 3⟩ hmem (by decide)
  rw [heq] at hle
  exact absurd hle (by decide)

end Choice

/-! ## 2. Stacks that are left alone -/

/-- How many packs of a stack are on a level. -/
def onLevel (packs : List PackInfo) (level : Int) : Nat :=
  packs.countP fun p => p.level = level

/-- Oldest first, the levels do not decrease. -/
def Ordered (packs : List PackInfo) : Prop := packs.Pairwise fun a b => a.level ≤ b.level

instance (packs : List PackInfo) : Decidable (Ordered packs) :=
  inferInstanceAs (Decidable (packs.Pairwise _))

instance (packs : List PackInfo) : Decidable (Increasing packs) :=
  inferInstanceAs (Decidable (packs.Pairwise _))

/-- At most `k` packs on each level. -/
def AtMost (k : Nat) (packs : List PackInfo) : Prop := ∀ level, onLevel packs level ≤ k

section Stacks

variable {policy : LevelPolicy} {packs : List PackInfo} {allowBase : Bool}

/-- **A stack is left alone exactly when its levels increase**, whatever `max_packs_per_level`. -/
theorem planLevelCompaction_leaves_iff (hmax : 1 ≤ policy.maxPacksPerLevel) :
    planLevelCompaction packs policy allowBase = none ↔ Increasing packs := by
  rw [planLevelCompaction_none_iff hmax, isValidStack_iff hmax]

/-- The levels of an ordered stack increase exactly when no level holds two packs. -/
theorem increasing_iff_atMost (h : Ordered packs) : Increasing packs ↔ AtMost 1 packs := by
  induction packs with
  | nil => exact ⟨fun _ level => Nat.zero_le _, fun _ => .nil⟩
  | cons p packs ih =>
      obtain ⟨hfirst, hrest⟩ := List.pairwise_cons.mp h
      have hcount : ∀ level, onLevel (p :: packs) level =
          onLevel packs level + if p.level = level then 1 else 0 := fun level => by
        simp [onLevel, List.countP_cons]
      constructor
      · intro hinc level
        obtain ⟨hlow, hinc⟩ := List.pairwise_cons.mp hinc
        have hle := (ih hrest).mp hinc level
        rw [hcount]
        by_cases hlevel : p.level = level
        · have hzero : onLevel packs level = 0 := by
            refine List.countP_eq_zero.mpr fun q hq => ?_
            have hlt := hlow q hq
            simp only [decide_eq_true_eq]
            omega
          rw [if_pos hlevel, hzero]
        · rw [if_neg hlevel]
          exact hle
      · intro hmost
        refine List.pairwise_cons.mpr ⟨fun q hq => ?_, (ih hrest).mpr fun level => ?_⟩
        · have hone := hmost p.level
          rw [hcount, if_pos rfl] at hone
          have hzero : onLevel packs p.level = 0 := by omega
          have hne := List.countP_eq_zero.mp hzero q hq
          have hle := hfirst q hq
          simp only [decide_eq_true_eq] at hne
          omega
        · have hle := hmost level
          rw [hcount] at hle
          omega

/-- **`max_packs_per_level` is honoured** on a stack: as many packs on a level are left alone, and
    one more on some level is merged. -/
structure Honours (policy : LevelPolicy) (packs : List PackInfo) : Prop where
  leaves : Ordered packs → AtMost policy.maxPacksPerLevel packs →
    ∀ allowBase, planLevelCompaction packs policy allowBase = none
  merges : Ordered packs →
    (∃ level, onLevel packs level = policy.maxPacksPerLevel + 1 ∧
      ∀ other, other ≠ level → onLevel packs other ≤ policy.maxPacksPerLevel) →
    ∀ allowBase, planLevelCompaction packs policy allowBase ≠ none

/-- **It is not, exactly on the ordered stacks** that hold two packs on some level and no more on
    any than `max_packs_per_level` lets them: only one pack on each level is ever left alone. -/
theorem honours_iff (hmax : 1 ≤ policy.maxPacksPerLevel) :
    Honours policy packs ↔
      ¬ (Ordered packs ∧ AtMost policy.maxPacksPerLevel packs ∧
        ∃ level, 2 ≤ onLevel packs level) := by
  constructor
  · intro h
    rintro ⟨hordered, hmost, level, htwo⟩
    have hinc := (planLevelCompaction_leaves_iff hmax).mp (h.leaves hordered hmost false)
    have hone := (increasing_iff_atMost hordered).mp hinc level
    omega
  · intro h
    refine ⟨fun hordered hmost allowBase => ?_, fun hordered hmore allowBase hnone => ?_⟩
    · rw [planLevelCompaction_leaves_iff hmax, increasing_iff_atMost hordered]
      intro level
      by_contra htwo
      exact h ⟨hordered, hmost, level, by omega⟩
    · obtain ⟨level, hlevel, -⟩ := hmore
      have hinc := (planLevelCompaction_leaves_iff hmax).mp hnone
      have hone := (increasing_iff_atMost hordered).mp hinc level
      omega

/-- With one pack on each level, the documented value, it is honoured. -/
theorem honours_one (hone : policy.maxPacksPerLevel = 1) : Honours policy packs := by
  refine (honours_iff hone.ge).mpr ?_
  rintro ⟨-, hmost, level, htwo⟩
  have hle := hmost level
  omega

end Stacks

/-! ### Two packs on a level -/

/-- The documented levels, with two packs allowed on each. -/
def twoPerLevel : LevelPolicy := { LevelPolicy.default with maxPacksPerLevel := 2 }

def smallPack (path : String) (level : Int) (generation : Nat) : PackInfo :=
  { path, sha256 := "", size := 1, level, generationMin := generation, generationMax := generation }

/-- Two packs on one level. -/
def twoPacks : List PackInfo := [smallPack "a.sqfs" 4 1, smallPack "b.sqfs" 4 2]

/-- **Two packs on a level are merged** although two are allowed. -/
theorem twoPacks_merged : ¬ Honours twoPerLevel twoPacks := by
  intro h
  have hmost : AtMost twoPerLevel.maxPacksPerLevel twoPacks := fun level =>
    List.countP_le_length
  have hnone := h.leaves (by decide) hmost false
  rw [planLevelCompaction_leaves_iff (by decide)] at hnone
  exact absurd hnone (by decide)

/-- Three packs on a level are one too many. -/
theorem threePacks_honoured :
    1 ≤ twoPerLevel.maxPacksPerLevel ∧
      Honours twoPerLevel (twoPacks ++ [smallPack "c.sqfs" 4 3]) := by
  refine ⟨by decide, (honours_iff (by decide)).mpr fun h => ?_⟩
  have hmost := h.2.1 4
  exact absurd hmost (by decide)

/-! ## 3. Routine compactions -/

/-- **A candidate of a routine compaction**: newer packs only, above the base level, and within
    the online budget. -/
structure Routine (policy : LevelPolicy) (newer : List PackInfo) (c : CompactionCandidate) :
    Prop where
  group : ∃ kept, newer = kept ++ c.packs
  level : policy.baseLevel < c.targetLevel
  total : c.totalBytes = totalBytes c.packs
  budget : totalBytes c.packs ≤ policy.maxOnlineCompactionBytes

section Routines

variable {policy : LevelPolicy} {packs newer : List PackInfo} {oldest : PackInfo}
variable {c : CompactionCandidate} {m : Nat}

/-- A round whose candidate is not blocked: the target is above the base level, and the merge is
    within the budget. -/
theorem planGroup_unblocked (h : planGroup packs policy false m = some c)
    (hfree : c.blockedReason = "") :
    policy.baseLevel < c.targetLevel ∧ c.totalBytes = totalBytes c.packs ∧
      totalBytes c.packs ≤ policy.maxOnlineCompactionBytes := by
  unfold planGroup at h
  simp only at h
  split at h
  · cases h
  · split at h
    · cases h
      simp only [Bool.not_false, Bool.and_true, decide_eq_true_eq] at hfree
      split at hfree
      · simp at hfree
      · rename_i hlevel
        split at hfree
        · simp at hfree
        · rename_i hbudget
          exact ⟨Nat.not_le.mp hlevel, rfl, Nat.not_lt.mp hbudget⟩
    · cases h

/-- **The group of a routine compaction leaves the oldest pack out**: were it taken in, everything
    newer would go to its level or below, hence all of it to the base level. -/
theorem planLevelCompaction_routine (hmax : 1 ≤ policy.maxPacksPerLevel)
    (hallow : policy.allowBaseCompaction = false) (hnewer : newer ≠ [])
    (hbase : oldest.level ≤ policy.baseLevel)
    (h : planLevelCompaction (oldest :: newer) policy false = some c)
    (hfree : c.blockedReason = "") : Routine policy newer c := by
  obtain ⟨i, hi, hround, hbefore⟩ := planLevelCompaction_some h
  rw [hallow, Bool.or_self] at hround hbefore
  obtain ⟨hlevel, htotal, hbudget⟩ := planGroup_unblocked hround hfree
  obtain ⟨hpacks, htarget, -⟩ := planGroup_fields hround
  rw [List.length_cons] at hi hpacks
  have hpos := List.length_pos_iff.mpr hnewer
  by_cases hall : i = newer.length
  · exfalso
    have hnone := hbefore (newer.length - 1) (by omega)
    have hdrop : (oldest :: newer).length - (newer.length - 1 + 1) = 1 := by
      rw [List.length_cons]
      omega
    rw [planGroup_none_iff hmax, hdrop, heals_iff hmax] at hnone
    have hnot : ¬ oldest.level < (targetLevelFor policy (totalBytes newer) : Int) := fun hlt =>
      hnone ⟨List.pairwise_singleton _ _, fun p hp => by rwa [List.mem_singleton.mp hp]⟩
    have hwhole : c.packs = oldest :: newer := by
      rw [hpacks, hall, Nat.sub_self, List.drop_zero]
    have hmore : totalBytes newer ≤ totalBytes c.packs := by
      rw [hwhole]
      exact Nat.le_add_left _ _
    have hlower : targetLevelFor policy (totalBytes c.packs) ≤
        targetLevelFor policy (totalBytes newer) := chooseInitialLevel_antitone hmore
    omega
  · have hsplit : c.packs = newer.drop (newer.length - (i + 1)) := by
      have hstart : newer.length + 1 - (i + 1) = newer.length - (i + 1) + 1 := by omega
      rw [hpacks, hstart, List.drop_succ_cons]
    refine ⟨⟨newer.take (newer.length - (i + 1)), ?_⟩, hlevel, htotal, hbudget⟩
    rw [hsplit, List.take_append_drop]

/-- The file a compaction writes is not that of a pack of a lower level. -/
theorem compactionOutputPath_ne {packDir : String} {manifest : ChildManifest} {target : Nat}
    (hn : NamedByRange packDir oldest) (hlevel : oldest.level < target) :
    oldest.path ≠ compactionOutputPath packDir manifest target packs := by
  intro heq
  cases hn with
  | delta h =>
    rw [h] at heq
    exact deltaName_ne_compactName _ _ _ _ (pathJoin_inj heq)
  | compact own hown h =>
    rw [h] at heq
    obtain ⟨htarget, -, -⟩ := compactName_inj (pathJoin_inj heq)
    omega

/-- **Routine compaction never rewrites the base.** A plan without `allow_base` that is not blocked
    leaves the oldest pack out, and what the service does with it leaves that pack the oldest in
    the stack, and its file as it is. -/
theorem routineCompaction_keepsBase (hmax : 1 ≤ policy.maxPacksPerLevel)
    (hallow : policy.allowBaseCompaction = false) (hnewer : newer ≠ [])
    (hbase : oldest.level ≤ policy.baseLevel) :
    (∀ c, planLevelCompaction (oldest :: newer) policy false = some c → c.blockedReason = "" →
      Routine policy newer c) ∧
    ∀ (cfg : NodeConfig) (sha256 : Bytes → String) (dumps : ChildManifest → Bytes)
      (s : ChildState) (built : Option Bytes), cfg.levelPolicy = policy →
      s.disk.lowers = oldest :: newer →
        (∃ newer', (opStep cfg sha256 dumps s (.compact false built)).disk.lowers =
          oldest :: newer') ∧
        (NamedByRange cfg.packDir oldest →
          (opStep cfg sha256 dumps s (.compact false built)).hot oldest.path =
            s.hot oldest.path) := by
  have hplan : ∀ c, planLevelCompaction (oldest :: newer) policy false = some c →
      c.blockedReason = "" → Routine policy newer c :=
    fun c h hfree => planLevelCompaction_routine hmax hallow hnewer hbase h hfree
  refine ⟨hplan, fun cfg sha256 dumps s built hcfg hlowers => ?_⟩
  simp only [opStep]
  split
  · rename_i c hc
    unfold runnableCandidate at hc
    obtain ⟨hc, hfree⟩ := Option.filter_eq_some_iff.mp hc
    rw [hlowers, hcfg] at hc
    have hroutine := hplan c hc (by simpa using hfree)
    obtain ⟨kept, hkept⟩ := hroutine.group
    have hlevel := hroutine.level
    unfold compactPacks
    split
    · cases built with
      | none => exact ⟨⟨newer, hlowers⟩, fun _ => rfl⟩
      | some b =>
          have hfile : NamedByRange cfg.packDir oldest →
              Function.update s.hot (compactedPack cfg s.disk c (builtFile sha256 b)).path
                (some b) oldest.path = s.hot oldest.path := fun hn =>
            Function.update_of_ne (compactionOutputPath_ne hn (by omega)) _ _
          simp only
          split
          · rename_i merged hmerged
            have hstack : s.disk.lowers = (oldest :: kept) ++ c.packs := by
              rw [hlowers, hkept, List.cons_append]
            have heq := mergedManifest_some hstack rfl hmerged
            refine ⟨⟨kept ++ [compactedPack cfg s.disk c (builtFile sha256 b)], ?_⟩, hfile⟩
            rw [heq]
            rfl
          · exact ⟨⟨newer, hlowers⟩, hfile⟩
    · exact ⟨⟨newer, hlowers⟩, fun _ => rfl⟩
  · exact ⟨⟨newer, hlowers⟩, fun _ => rfl⟩

/-! ### A base and two small packs -/

def basePack : PackInfo := smallPack "/nfs/packs/env/delta-g0001.sqfs" 0 1

/-- A child with a base and the two packs of one level, and the files of all three. -/
def basedChild : ChildState where
  disk := { newEnv.disk with
    generation := 3
    packStack := { activeRevision := "g3", lowers := basePack :: twoPacks } }
  hot := fun _ => some [0]
  store := fun _ => none

/-- The two small packs are merged under the default policy, and the base stays. -/
theorem basedChild_keepsBase :
    ∃ c, planLevelCompaction (basePack :: twoPacks) .default false = some c ∧
      c.blockedReason = "" ∧ Routine .default twoPacks c ∧
      ∃ newer', (opStep { coldNode with levelPolicy := .default } packDigest (fun _ => [])
        basedChild (.compact false (some [1]))).disk.lowers = basePack :: newer' ∧
          newer'.length = 1 := by
  have hkeeps := @routineCompaction_keepsBase .default twoPacks basePack (by decide) rfl
    (by decide) (by decide)
  obtain ⟨c, hc, hfree⟩ : ∃ c, planLevelCompaction (basePack :: twoPacks) .default false = some c ∧
      c.blockedReason = "" := ⟨_, rfl, by decide⟩
  obtain ⟨newer', hnewer'⟩ := (hkeeps.2 { coldNode with levelPolicy := .default } packDigest
    (fun _ => []) basedChild (some [1]) rfl rfl).1
  refine ⟨c, hc, hfree, hkeeps.1 c hc hfree, newer', hnewer', ?_⟩
  have hlength : (opStep { coldNode with levelPolicy := .default } packDigest (fun _ => [])
      basedChild (.compact false (some [1]))).disk.lowers.length = 2 := by decide +kernel
  rw [hnewer'] at hlength
  simpa using hlength

end Routines

end CccStorage
