/-
  File:      CccStorage/LevelPlans.lean
  Subject:   What the compaction planner promises (`mountd/workers/levels.py`).

  * `chooseInitialLevel_antitone` -- more bytes never go to a higher level;
  * `isValidStack_iff` -- a stack is valid exactly when its levels increase;
  * `Heals` -- merging a newest run into one pack makes the stack valid;
  * `planGroup_some`, `planGroup_none` -- a round of the planner finds the runs that heal;
  * `planLevelCompaction_plans` -- the planner is sound, minimal and complete.
-/
import CccStorage.Levels

namespace CccStorage

/-! ## 1. Levels -/

section Choice

variable {policy : LevelPolicy} {size size' : Nat}

/-- The loop of `choose_initial_level` from a level chosen so far. -/
theorem choose_mono {levels : List PackLevel} (hs : levels.Pairwise fun a b => a.level < b.level)
    {chosen chosen' : Nat} (hc : chosen' ≤ chosen) (hl : ∀ lvl ∈ levels, chosen' ≤ lvl.level)
    (hsize : size ≤ size') :
    levels.foldl (fun c lvl => if size' ≤ lvl.maxBytes then lvl.level else c) chosen' ≤
      levels.foldl (fun c lvl => if size ≤ lvl.maxBytes then lvl.level else c) chosen := by
  induction levels generalizing chosen chosen' with
  | nil => exact hc
  | cons lvl levels ih =>
      rw [List.pairwise_cons] at hs
      rw [List.foldl_cons, List.foldl_cons]
      by_cases h' : size' ≤ lvl.maxBytes
      · rw [if_pos h', if_pos (hsize.trans h')]
        exact ih hs.2 le_rfl fun l hl => (hs.1 l hl).le
      · rw [if_neg h']
        have hlow : ∀ l ∈ levels, chosen' ≤ l.level := fun l h => hl l (List.mem_cons_of_mem _ h)
        by_cases h : size ≤ lvl.maxBytes
        · rw [if_pos h]
          exact ih hs.2 (hl lvl List.mem_cons_self) hlow
        · rw [if_neg h]
          exact ih hs.2 hc hlow

theorem baseLevel_le (policy : LevelPolicy) : ∀ lvl ∈ policy.levels, policy.baseLevel ≤ lvl.level := by
  intro lvl hlvl
  have hsplit := List.cons_head_tail policy.nonempty
  have hinc := policy.increasing
  rw [← hsplit] at hlvl hinc
  rw [List.pairwise_cons] at hinc
  unfold LevelPolicy.baseLevel
  rcases List.mem_cons.mp hlvl with rfl | h
  · exact le_rfl
  · exact (hinc.1 lvl h).le

/-- **More bytes never go to a higher level.** -/
theorem chooseInitialLevel_antitone (h : size ≤ size') :
    chooseInitialLevel policy size' ≤ chooseInitialLevel policy size :=
  choose_mono policy.increasing le_rfl (baseLevel_le policy) h

theorem baseLevel_le_choose : policy.baseLevel ≤ chooseInitialLevel policy size := by
  have hgen : ∀ (levels : List PackLevel) (chosen : Nat),
      (∀ lvl ∈ levels, policy.baseLevel ≤ lvl.level) → policy.baseLevel ≤ chosen →
      policy.baseLevel ≤
        levels.foldl (fun c lvl => if size ≤ lvl.maxBytes then lvl.level else c) chosen := by
    intro levels
    induction levels with
    | nil => exact fun _ _ h => h
    | cons lvl levels ih =>
        intro chosen hl hc
        refine ih _ (fun l h => hl l (List.mem_cons_of_mem _ h)) ?_
        beta_reduce
        split
        · exact hl lvl List.mem_cons_self
        · exact hc
  exact hgen policy.levels policy.baseLevel (baseLevel_le policy) le_rfl

end Choice

/-! ## 2. Valid stacks -/

/-- The levels of a stack strictly increase, oldest first. -/
def Increasing (packs : List PackInfo) : Prop := packs.Pairwise fun a b => a.level < b.level

section Valid

variable {policy : LevelPolicy} {packs pre group : List PackInfo}

theorem isValidStackFrom_iff (hmax : 1 ≤ policy.maxPacksPerLevel) {counts : Int → Nat}
    {prevLevel : Option Int} (hcounts : ∀ l, (∀ q ∈ prevLevel, q < l) → counts l = 0) :
    isValidStackFrom policy counts prevLevel packs = true ↔
      (∀ q ∈ prevLevel, ∀ p ∈ packs, q < p.level) ∧ Increasing packs := by
  induction packs generalizing counts prevLevel with
  | nil => exact ⟨fun _ => ⟨fun _ _ p hp => absurd hp List.not_mem_nil, .nil⟩, fun _ => rfl⟩
  | cons pack packs ih =>
      unfold isValidStackFrom
      simp only [Function.update_self]
      by_cases hprev : ∀ q ∈ prevLevel, q < pack.level
      · have hzero : counts pack.level = 0 := hcounts _ hprev
        have hany : prevLevel.any (fun q => decide (pack.level ≤ q)) = false := by
          rw [Option.any_eq_false]
          intro q hq
          simpa using hprev q hq
        have hzeros : ∀ l, (∀ q ∈ some pack.level, q < l) →
            Function.update counts pack.level (counts pack.level + 1) l = 0 := by
          intro l hl
          have hlt : pack.level < l := hl _ rfl
          rw [Function.update_of_ne hlt.ne']
          exact hcounts l fun q hq => (hprev q hq).trans hlt
        have hstep := ih hzeros
        rw [hzero, if_neg (by omega), hany, if_neg Bool.false_ne_true, ← hzero, hstep]
        constructor
        · rintro ⟨hlow, hinc⟩
          refine ⟨fun q hq p hp => ?_, List.pairwise_cons.mpr ⟨hlow _ rfl, hinc⟩⟩
          rcases List.mem_cons.mp hp with rfl | hp
          · exact hprev q hq
          · exact (hprev q hq).trans (hlow _ rfl p hp)
        · rintro ⟨-, hinc⟩
          obtain ⟨hlow, hinc⟩ := List.pairwise_cons.mp hinc
          refine ⟨fun q hq p hp => ?_, hinc⟩
          cases hq
          exact hlow p hp
      · have hbad : ¬ ((∀ q ∈ prevLevel, ∀ p ∈ pack :: packs, q < p.level) ∧
            Increasing (pack :: packs)) := fun h =>
          hprev fun q hq => h.1 q hq pack List.mem_cons_self
        have hany : prevLevel.any (fun q => decide (pack.level ≤ q)) = true := by
          rw [not_forall] at hprev
          obtain ⟨q, hq⟩ := hprev
          rw [Classical.not_imp, not_lt] at hq
          exact (Option.any_eq_true ..).mpr ⟨q, hq.1, decide_eq_true hq.2⟩
        rw [hany, if_pos rfl]
        refine ⟨fun h => ?_, fun h => absurd h hbad⟩
        split at h
        · cases h
        · cases h

/-- **A stack is valid exactly when its levels increase.** -/
theorem isValidStack_iff (hmax : 1 ≤ policy.maxPacksPerLevel) :
    isValidStack packs policy = true ↔ Increasing packs := by
  unfold isValidStack
  rw [isValidStackFrom_iff hmax fun _ _ => rfl]
  exact ⟨fun h => h.2, fun h => ⟨fun q hq => (by cases hq), h⟩⟩

/-! ## 3. Newest runs that heal -/

def totalBytes (group : List PackInfo) : Nat := (group.map (·.size)).sum

/-- **Merging the newest packs heals the stack**: with one pack of their target level in their
    place, whatever else is in it, the stack is valid. -/
def Heals (policy : LevelPolicy) (pre group : List PackInfo) : Prop :=
  ∀ new : PackInfo, new.level = (targetLevelFor policy (totalBytes group) : Int) →
    isValidStack (pre ++ [new]) policy = true

theorem increasing_concat {new : PackInfo} :
    Increasing (pre ++ [new]) ↔ Increasing pre ∧ ∀ p ∈ pre, p.level < new.level := by
  unfold Increasing
  rw [List.pairwise_append]
  constructor
  · rintro ⟨hpre, -, hlt⟩
    exact ⟨hpre, fun p hp => hlt p hp new (List.mem_singleton_self new)⟩
  · rintro ⟨hpre, hlt⟩
    refine ⟨hpre, List.pairwise_singleton _ _, fun p hp q hq => ?_⟩
    rw [List.mem_singleton.mp hq]
    exact hlt p hp

theorem heals_iff (hmax : 1 ≤ policy.maxPacksPerLevel) :
    Heals policy pre group ↔
      Increasing pre ∧ ∀ p ∈ pre, p.level < (targetLevelFor policy (totalBytes group) : Int) := by
  unfold Heals
  constructor
  · intro h
    have hnew := h ⟨"", "", 0, none, "", "", targetLevelFor policy (totalBytes group), 0, 0, ""⟩ rfl
    rwa [isValidStack_iff hmax, increasing_concat] at hnew
  · intro h new hnew
    rw [isValidStack_iff hmax, increasing_concat, hnew]
    exact h

/-- The planner's comparison. -/
theorem prefixMaxLevel_lt {n : Nat} : prefixMaxLevel pre < n ↔ ∀ p ∈ pre, p.level < (n : Int) := by
  unfold prefixMaxLevel
  cases hmax : (pre.map (·.level)).max? with
  | none =>
      have hnil : pre = [] := by simpa using hmax
      rw [hnil, Option.getD_none]
      exact ⟨fun _ p hp => absurd hp List.not_mem_nil, fun _ => by omega⟩
  | some m =>
      obtain ⟨hmem, hle⟩ := List.max?_eq_some_iff.mp hmax
      rw [Option.getD_some]
      constructor
      · intro hlt p hp
        exact (hle _ (List.mem_map_of_mem hp)).trans_lt hlt
      · intro h
        obtain ⟨p, hp, rfl⟩ := List.mem_map.mp hmem
        exact h p hp

/-- **A round of the planner** takes exactly the runs that heal. -/
theorem planGroup_none_iff (hmax : 1 ≤ policy.maxPacksPerLevel) {allowBase : Bool} {m : Nat} :
    planGroup packs policy allowBase m = none ↔
      ¬ Heals policy (packs.take (packs.length - m)) (packs.drop (packs.length - m)) := by
  rw [heals_iff hmax, ← isValidStack_iff hmax, ← prefixMaxLevel_lt]
  unfold planGroup totalBytes
  simp only
  by_cases hv : isValidStack (packs.take (packs.length - m)) policy = true
  · rw [hv, Bool.not_true, if_neg Bool.false_ne_true]
    split
    · rename_i hlt
      exact ⟨nofun, fun h => absurd ⟨rfl, hlt⟩ h⟩
    · rename_i hle
      exact ⟨fun _ h => hle h.2, fun _ => rfl⟩
  · rw [Bool.eq_false_iff.mpr hv, Bool.not_false, if_pos rfl]
    exact ⟨fun _ h => absurd h.1 Bool.false_ne_true, fun _ => rfl⟩

theorem planGroup_fields {allowBase : Bool} {m : Nat} {c : CompactionCandidate}
    (h : planGroup packs policy allowBase m = some c) :
    c.packs = packs.drop (packs.length - m) ∧
      c.targetLevel = targetLevelFor policy (totalBytes c.packs) ∧
      (c.blockedReason ≠ "" → c.targetLevel ≤ policy.baseLevel ∨
        policy.maxOnlineCompactionBytes < totalBytes c.packs) := by
  unfold planGroup at h
  simp only at h
  split at h
  · cases h
  · split at h
    · cases h
      refine ⟨rfl, rfl, fun hblocked => ?_⟩
      simp only at hblocked
      split at hblocked
      · rename_i hbase
        rw [Bool.and_eq_true, decide_eq_true_eq] at hbase
        exact .inl hbase.1
      · split at hblocked
        · rename_i hbytes
          rw [Bool.and_eq_true, decide_eq_true_eq] at hbytes
          exact .inr hbytes.1
        · exact absurd rfl hblocked
    · cases h

/-- A round that finds a run: what is below it is valid, and below the target level. -/
theorem planGroup_valid {allowBase : Bool} {m : Nat} {c : CompactionCandidate}
    (h : planGroup packs policy allowBase m = some c) :
    isValidStack (packs.take (packs.length - m)) policy = true ∧
      prefixMaxLevel (packs.take (packs.length - m)) < c.targetLevel := by
  unfold planGroup at h
  simp only at h
  split at h
  · cases h
  · rename_i hvalid
    split at h
    · rename_i hlt
      cases h
      rw [Bool.not_eq_true', Bool.not_eq_false] at hvalid
      exact ⟨hvalid, hlt⟩
    · cases h

/-- Merging the whole stack heals it. -/
theorem heals_all (hmax : 1 ≤ policy.maxPacksPerLevel) : Heals policy [] group :=
  (heals_iff hmax).mpr ⟨.nil, fun _ hp => absurd hp List.not_mem_nil⟩

/-- **What the planner finds**: the shortest newest run that heals a stack that is not valid. -/
theorem planLevelCompaction_some {allowBase : Bool} {c : CompactionCandidate}
    (h : planLevelCompaction packs policy allowBase = some c) :
    ∃ i < packs.length, planGroup packs policy (allowBase || policy.allowBaseCompaction) (i + 1) =
        some c ∧
      ∀ j < i, planGroup packs policy (allowBase || policy.allowBaseCompaction) (j + 1) = none := by
  unfold planLevelCompaction at h
  split at h
  · cases h
  · split at h
    · cases h
    · obtain ⟨l₁, i, l₂, hsplit, hi, hbefore⟩ := List.findSome?_eq_some_iff.mp h
      have hlen := congrArg List.length hsplit
      rw [List.length_range, List.length_append, List.length_cons] at hlen
      have hl₁ : l₁ = List.range l₁.length := by
        have htake := congrArg (List.take l₁.length) hsplit
        rw [List.take_left, List.take_range, min_eq_left (by omega)] at htake
        exact htake.symm
      have hat : i = l₁.length := by
        have hget := congrArg (·[l₁.length]?) hsplit
        simp only [List.getElem?_append_right le_rfl, Nat.sub_self, List.getElem?_cons_zero] at hget
        rw [List.getElem?_range (by omega)] at hget
        exact (Option.some.inj hget).symm
      refine ⟨i, by omega, hi, fun j hj => hbefore j ?_⟩
      rw [hl₁, List.mem_range]
      omega

/-- The planner finds nothing exactly in a valid stack. -/
theorem planLevelCompaction_none_iff (hmax : 1 ≤ policy.maxPacksPerLevel) {allowBase : Bool} :
    planLevelCompaction packs policy allowBase = none ↔ isValidStack packs policy = true := by
  constructor
  · intro h
    unfold planLevelCompaction at h
    split at h
    · rename_i hlen
      rw [isValidStack_iff hmax]
      match packs, hlen with
      | [], _ => exact .nil
      | [_], _ => exact List.pairwise_singleton _ _
    · rename_i hlen
      split at h
      · rename_i hv
        exact hv
      · rw [List.findSome?_eq_none_iff] at h
        have hlast := h (packs.length - 1) (List.mem_range.mpr (by omega))
        have hall : packs.length - 1 + 1 = packs.length := by omega
        rw [hall, planGroup_none_iff hmax, Nat.sub_self, List.take_zero] at hlast
        exact absurd (heals_all hmax) hlast
  · intro h
    unfold planLevelCompaction
    rw [h]
    split
    · rfl
    · rw [if_pos rfl]

end Valid

/-! ## 4. The planner -/

/-- **What a candidate promises**: it is a non-empty newest run. -/
structure Plan (packs : List PackInfo) (policy : LevelPolicy) (c : CompactionCandidate)
    (pre : List PackInfo) : Prop where
  split : packs = pre ++ c.packs
  nonempty : c.packs ≠ []
  /-- One pack of the target level in its place makes the stack valid, whatever its size, and
      planning again finds nothing. -/
  heals : ∀ new : PackInfo, new.level = (c.targetLevel : Int) →
    isValidStack (pre ++ [new]) policy = true ∧
      ∀ allowBase, planLevelCompaction (pre ++ [new]) policy allowBase = none
  /-- No shorter newest run heals, with the target level of its own bytes. -/
  minimal : ∀ pre' group, packs = pre' ++ group → group.length < c.packs.length →
    ¬ Heals policy pre' group
  /-- Blocked only when every newest run that heals goes to the base level or is over the online
      budget. -/
  blocked : c.blockedReason ≠ "" → ∀ pre' group, packs = pre' ++ group → Heals policy pre' group →
    targetLevelFor policy (totalBytes group) = policy.baseLevel ∨
      policy.maxOnlineCompactionBytes < totalBytes group

/-- **The planner is sound, minimal and complete**: it finds nothing exactly in a valid stack, and
    otherwise the shortest newest run that heals it. -/
theorem planLevelCompaction_plans (packs : List PackInfo) (policy : LevelPolicy)
    (hmax : 1 ≤ policy.maxPacksPerLevel) (allowBase : Bool) :
    (planLevelCompaction packs policy allowBase = none ↔ isValidStack packs policy = true) ∧
      ∀ c, planLevelCompaction packs policy allowBase = some c →
        ∃ pre, Plan packs policy c pre := by
  refine ⟨planLevelCompaction_none_iff hmax, fun c hc => ?_⟩
  obtain ⟨i, hi, hround, hbefore⟩ := planLevelCompaction_some hc
  obtain ⟨hpacks, htarget, hblocked⟩ := planGroup_fields hround
  have hsplit : packs = packs.take (packs.length - (i + 1)) ++ c.packs := by
    rw [hpacks, List.take_append_drop]
  have hlen : c.packs.length = i + 1 := by
    rw [hpacks, List.length_drop]
    omega
  have hheals : Heals policy (packs.take (packs.length - (i + 1))) c.packs := by
    by_contra hnot
    rw [hpacks] at hnot
    rw [(planGroup_none_iff hmax).mpr hnot] at hround
    cases hround
  have hshorter : ∀ pre' group, packs = pre' ++ group → group.length < c.packs.length →
      ¬ Heals policy pre' group := by
    intro pre' group hpg hshort hheal
    have hplen : packs.length = pre'.length + group.length := by rw [hpg, List.length_append]
    cases hgroup : group with
    | nil =>
        -- the stack itself would be valid
        rw [hgroup, List.append_nil] at hpg
        rw [heals_iff hmax, ← hpg, ← isValidStack_iff hmax, ← planLevelCompaction_none_iff hmax,
          hc] at hheal
        cases hheal.1
    | cons g gs =>
        have hglen : group.length = gs.length + 1 := by rw [hgroup, List.length_cons]
        have hnone := hbefore gs.length (by omega)
        have hdrop : packs.length - (gs.length + 1) = pre'.length := by omega
        rw [planGroup_none_iff hmax, hdrop, hpg, List.take_left, List.drop_left] at hnone
        exact hnone hheal
  refine ⟨_, hsplit, ?_, fun new hnew => ?_, hshorter, fun hb pre' group hpg hheal => ?_⟩
  · intro hnil
    rw [hnil, List.length_nil] at hlen
    omega
  · have hv := hheals new (by rw [hnew, htarget])
    exact ⟨hv, fun allowBase' => (planLevelCompaction_none_iff hmax).mpr hv⟩
  · -- a run that heals is no shorter, so it has at least as many bytes
    have hlonger : c.packs.length ≤ group.length := by
      by_contra hlt
      exact hshorter pre' group hpg (by omega) hheal
    have hbytes : totalBytes c.packs ≤ totalBytes group := by
      have hsuffix : c.packs <:+ group := by
        have h1 : c.packs <:+ packs := ⟨_, hsplit.symm⟩
        have h2 : group <:+ packs := ⟨pre', hpg.symm⟩
        exact List.suffix_of_suffix_length_le h1 h2 hlonger
      obtain ⟨front, rfl⟩ := hsuffix
      unfold totalBytes
      rw [List.map_append, List.sum_append]
      omega
    rcases hblocked hb with hbase | hover
    · left
      have hle : chooseInitialLevel policy (totalBytes group) ≤
          chooseInitialLevel policy (totalBytes c.packs) := chooseInitialLevel_antitone hbytes
      have hge : policy.baseLevel ≤ targetLevelFor policy (totalBytes group) := baseLevel_le_choose
      have hle' : targetLevelFor policy (totalBytes group) ≤ c.targetLevel := by
        rw [htarget]
        exact hle
      omega
    · right
      omega

/-- Two packs at the level of small deltas, under the default policy. -/
def collision : List PackInfo :=
  [{ path := "a", sha256 := "", size := 10, level := 4 },
    { path := "b", sha256 := "", size := 20, level := 4 }]

theorem planLevelCompaction_plans_collision :
    ∃ c, planLevelCompaction collision .default false = some c ∧ c.packs = collision ∧
      c.targetLevel = 4 ∧ ∃ pre, Plan collision .default c pre :=
  ⟨_, rfl, rfl, rfl, (planLevelCompaction_plans collision .default (by decide) false).2 _ rfl⟩

end CccStorage
