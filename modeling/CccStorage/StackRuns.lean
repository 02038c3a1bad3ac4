/-
  File:      CccStorage/StackRuns.lean
  Subject:   The pack stack of one child over its whole history: which generations its packs
             cover, and which file names they have.

  A run is a list of operations, one at a time, each under the level policy its service is
  configured with at that moment.

  * `StackChange`, `opStep_stackChange` -- the four things an operation can do to the stack;
  * `Tiles` -- the packs of a stack cover the generations from `lo` to `hi`, each once, in order;
  * `stack_partitions_history` -- in every run of a new child its stack is a partition of its
    generations;
  * `NamedByRange`, `compactName_inj` -- the names of the packs, and that they say level and range;
  * `outputPath_fresh` -- no build writes to the file of a pack in the stack.
-/
import CccStorage.ColdRuns
import CccStorage.LevelPlans

namespace CccStorage

/-! ## 1. What an operation does to the stack -/

/-- **The changes of a stack**: none, a commit, a compaction, or a recall. -/
inductive StackChange (cfg : NodeConfig) (m m' : ChildManifest) : Prop where
  | same (hg : m'.generation = m.generation) (hl : m'.lowers = m.lowers)
  | commit (built : BuiltFile) (hg : m'.generation = m.generation + 1)
      (hl : m'.lowers = m.lowers ++ [deltaPack cfg (m.generation + 1) built])
  | compact (pre : List PackInfo) (c : CompactionCandidate) (allowBase : Bool) (built : BuiltFile)
      (hc : runnableCandidate cfg.levelPolicy m allowBase = some c)
      (hm : m.lowers = pre ++ c.packs) (hne : c.packs ≠ []) (hg : m'.generation = m.generation)
      (hl : m'.lowers = pre ++ [compactedPack cfg m c built])
  | recalled (hg : m'.generation = m.generation)
      (hl : m'.lowers = m.lowers.map (recalledPack cfg.packDir))

section Changes

variable {cfg : NodeConfig} {sha256 : Bytes → String} {dumps : ChildManifest → Bytes}

theorem compactPacks_stackChange {w : ColdWorld} {c : CompactionCandidate} {allowBase : Bool}
    (hc : runnableCandidate cfg.levelPolicy w.disk allowBase = some c) (built : Option Bytes) :
    StackChange cfg w.disk (compactPacks cfg sha256 c built w).disk := by
  obtain ⟨pre, hm, hne⟩ := runnableCandidate_suffix hc
  unfold compactPacks
  split
  · cases built with
    | none => exact .same rfl rfl
    | some b =>
        simp only
        split
        · rename_i merged hmerged
          have heq := mergedManifest_some hm rfl hmerged
          exact .compact pre c allowBase _ hc hm hne (by rw [heq]) (by rw [heq])
        · exact .same rfl rfl
  · exact .same rfl rfl

theorem ensureHot_stackChange {w : ColdWorld} (stamp : String) :
    StackChange cfg w.disk (ensureHot cfg sha256 stamp w).disk := by
  unfold ensureHot
  split
  · unfold recallPacks
    split
    · exact .same rfl rfl
    · split
      · exact .same rfl rfl
      · exact .recalled rfl rfl
  · exact .same rfl rfl

/-- **Every operation changes the stack in one of the four ways.** -/
theorem opStep_stackChange (s : ChildState) (op : Op) :
    StackChange cfg s.disk (opStep cfg sha256 dumps s op).disk := by
  have hpub : s.publishMirror.disk = s.disk :=
    congrArg ColdWorld.disk s.publishMirror_toColdWorld
  have hclean : s.cleanup.disk = s.disk := congrArg ColdWorld.disk s.cleanup_toColdWorld
  cases op with
  | ensureHot stamp => exact ensureHot_stackChange stamp
  | mount mode => exact .same rfl rfl
  | write =>
    simp only [opStep]
    repeat' split
    all_goals exact .same rfl rfl
  | publish =>
    simp only [opStep]
    rw [hpub]
    exact .same rfl rfl
  | unmount =>
    have hsame : (opStep cfg sha256 dumps s .unmount).disk = s.publishMirror.disk := rfl
    rw [hsame, hpub]
    exact .same rfl rfl
  | envRun => exact .same rfl rfl
  | commit built =>
    simp only [opStep]
    split
    · cases built with
      | none =>
        simp only
        split
        · rw [hclean]
          exact .same rfl rfl
        · exact .same rfl rfl
      | some b => exact .commit (builtFile sha256 b) rfl rfl
    · exact .same rfl rfl
  | compact allowBase built =>
    simp only [opStep]
    split
    · rename_i c hc
      exact compactPacks_stackChange hc built
    · exact .same rfl rfl
  | mirror stamp =>
    simp only [opStep]
    split
    · unfold mirrorPacks
      have hdisk : (uploadPacks (cfg.coldPrefix s.disk.generation) s.disk.lowers
          s.toColdWorld).1.disk = s.disk := uploadPacks_disk
      split
      · rename_i hup
        rw [hup] at hdisk
        rw [hdisk]
        exact .same rfl rfl
      · exact .same rfl rfl
    · exact .same rfl rfl
  | archive keepHot stamp =>
    simp only [opStep]
    split
    · exact .same rfl rfl
    · unfold archivePacks
      have hdisk : (uploadPacks (cfg.coldPrefix s.disk.generation) s.disk.lowers
          s.toColdWorld).1.disk = s.disk := uploadPacks_disk
      split
      · rename_i hup
        rw [hup] at hdisk
        rw [hdisk]
        exact .same rfl rfl
      · simp only
        split
        · rw [evictPacks_disk]
          exact .same rfl rfl
        · exact .same rfl rfl
  | pin pinned => exact .same rfl rfl

end Changes

/-! ## 2. Stacks that tile the history -/

/-- **The packs cover the generations from `lo` up to `stop`**, which is the next one to come:
    the first pack starts at `lo`, every other where the one before it ended. -/
def Tiles (lo : Nat) : List PackInfo → Nat → Prop
  | [], stop => lo = stop
  | pack :: packs, stop =>
    pack.generationMin = lo ∧ lo ≤ pack.generationMax ∧ Tiles (pack.generationMax + 1) packs stop

section Tiling

variable {lo stop : Nat} {packs newer : List PackInfo} {p : PackInfo}

theorem tiles_cons :
    Tiles lo (p :: packs) stop ↔
      p.generationMin = lo ∧ lo ≤ p.generationMax ∧ Tiles (p.generationMax + 1) packs stop :=
  Iff.rfl

theorem Tiles.le (h : Tiles lo packs stop) : lo ≤ stop := by
  induction packs generalizing lo with
  | nil => exact h.le
  | cons pack packs ih =>
      obtain ⟨-, hle, hrest⟩ := h
      have := ih hrest
      omega

theorem tiles_append :
    Tiles lo (packs ++ newer) stop ↔ ∃ mid, Tiles lo packs mid ∧ Tiles mid newer stop := by
  induction packs generalizing lo with
  | nil =>
      constructor
      · intro h
        exact ⟨lo, rfl, h⟩
      · rintro ⟨mid, rfl, h⟩
        exact h
  | cons pack packs ih =>
      simp only [List.cons_append, tiles_cons, ih]
      constructor
      · rintro ⟨hmin, hle, mid, hpacks, hnewer⟩
        exact ⟨mid, ⟨hmin, hle, hpacks⟩, hnewer⟩
      · rintro ⟨mid, ⟨hmin, hle, hpacks⟩, hnewer⟩
        exact ⟨hmin, hle, mid, hpacks, hnewer⟩

theorem tiles_singleton :
    Tiles lo [p] stop ↔ p.generationMin = lo ∧ lo ≤ p.generationMax ∧ p.generationMax + 1 = stop :=
  Iff.rfl

/-- The packs stay within the generations they cover. -/
theorem Tiles.bounds (h : Tiles lo packs stop) (hp : p ∈ packs) :
    lo ≤ p.generationMin ∧ p.generationMin ≤ p.generationMax ∧ p.generationMax < stop := by
  induction packs generalizing lo with
  | nil => exact absurd hp List.not_mem_nil
  | cons pack packs ih =>
      obtain ⟨hmin, hle, hrest⟩ := h
      rcases List.mem_cons.mp hp with rfl | hp
      · have := hrest.le
        omega
      · have := ih hrest hp
        omega

theorem Tiles.nil_iff (h : Tiles lo packs stop) : packs = [] ↔ lo = stop := by
  cases packs with
  | nil => exact ⟨fun _ => h, fun _ => rfl⟩
  | cons pack packs =>
      have hb := h.bounds List.mem_cons_self
      constructor
      · exact nofun
      · intro heq
        omega

/-- A pack that covers all of it is the only one. -/
theorem Tiles.eq_singleton (h : Tiles lo packs stop) (hp : p ∈ packs) (hmin : p.generationMin = lo)
    (hmax : p.generationMax + 1 = stop) : packs = [p] := by
  cases packs with
  | nil => exact absurd hp List.not_mem_nil
  | cons pack packs =>
      obtain ⟨-, hle, hrest⟩ := h
      rcases List.mem_cons.mp hp with rfl | hp
      · rw [hrest.nil_iff.mpr hmax]
      · have := hrest.bounds hp
        omega

/-- Only the intervals of the packs matter. -/
theorem Tiles.map (h : Tiles lo packs stop) {f : PackInfo → PackInfo}
    (hmin : ∀ p, (f p).generationMin = p.generationMin)
    (hmax : ∀ p, (f p).generationMax = p.generationMax) : Tiles lo (packs.map f) stop := by
  induction packs generalizing lo with
  | nil => exact h
  | cons pack packs ih =>
      rw [List.map_cons, tiles_cons, hmin, hmax]
      exact ⟨h.1, h.2.1, ih h.2.2⟩

/-- **Every generation is in exactly one pack.** -/
theorem Tiles.existsUnique (h : Tiles lo packs stop) {g : Nat} (h1 : lo ≤ g) (h2 : g < stop) :
    ∃! p, p ∈ packs ∧ p.generationMin ≤ g ∧ g ≤ p.generationMax := by
  induction packs generalizing lo with
  | nil =>
      have hnone : lo = stop := h
      omega
  | cons pack packs ih =>
      obtain ⟨hmin, hle, hrest⟩ := h
      by_cases hg : g ≤ pack.generationMax
      · refine ⟨pack, ⟨List.mem_cons_self, by omega, hg⟩, fun q hq => ?_⟩
        rcases List.mem_cons.mp hq.1 with rfl | hmem
        · rfl
        · have := hrest.bounds hmem
          omega
      · obtain ⟨q, hq, huniq⟩ := ih hrest (by omega)
        refine ⟨q, ⟨List.mem_cons_of_mem _ hq.1, hq.2⟩, fun r hr => ?_⟩
        rcases List.mem_cons.mp hr.1 with rfl | hmem
        · omega
        · exact huniq r ⟨hmem, hr.2⟩

/-- **The range of a merged pack**: of packs that tile `lo .. stop - 1` from a positive `lo`, no
    entry is ignored, and the least and the greatest are the ends. -/
theorem Tiles.range (h : Tiles lo packs stop) (hlo : 1 ≤ lo) (hne : packs ≠ []) :
    ((packs.map (·.generationMin)).filter (· ≠ 0)).min? = some lo ∧
      ((packs.map (·.generationMax)).filter (· ≠ 0)).max? = some (stop - 1) := by
  have hmins : (packs.map (·.generationMin)).filter (· ≠ 0) = packs.map (·.generationMin) := by
    rw [List.filter_eq_self]
    intro g hg
    obtain ⟨p, hp, rfl⟩ := List.mem_map.mp hg
    have := h.bounds hp
    simp only [ne_eq, decide_eq_true_eq]
    omega
  have hmaxs : (packs.map (·.generationMax)).filter (· ≠ 0) = packs.map (·.generationMax) := by
    rw [List.filter_eq_self]
    intro g hg
    obtain ⟨p, hp, rfl⟩ := List.mem_map.mp hg
    have := h.bounds hp
    simp only [ne_eq, decide_eq_true_eq]
    omega
  rw [hmins, hmaxs, List.min?_eq_some_iff, List.max?_eq_some_iff]
  refine ⟨⟨?_, fun g hg => ?_⟩, ?_, fun g hg => ?_⟩
  · cases packs with
    | nil => exact absurd rfl hne
    | cons pack packs => exact List.mem_map.mpr ⟨pack, List.mem_cons_self, h.1⟩
  · obtain ⟨p, hp, rfl⟩ := List.mem_map.mp hg
    exact (h.bounds hp).1
  · obtain ⟨front, last, rfl⟩ : ∃ front last, packs = front ++ [last] :=
      ⟨packs.dropLast, packs.getLast hne, (List.dropLast_append_getLast hne).symm⟩
    obtain ⟨mid, -, hlast⟩ := tiles_append.mp h
    obtain ⟨-, -, hmax⟩ := tiles_singleton.mp hlast
    refine List.mem_map.mpr ⟨last, by simp, ?_⟩
    omega
  · obtain ⟨p, hp, rfl⟩ := List.mem_map.mp hg
    have := h.bounds hp
    omega

end Tiling

/-! ## 3. Runs of a new child -/

/-- A child as it is created: generation 0, no packs. -/
structure NewChild extends ChildState where
  generation_zero : disk.generation = 0
  lowers_nil : disk.lowers = []

/-- What a service runs: an operation, and the level policy it is configured with then. -/
abbrev ServiceOp := LevelPolicy × Op

section Runs

variable (cfg : NodeConfig) (sha256 : Bytes → String) (dumps : ChildManifest → Bytes)

/-- One operation under its own level policy. -/
def serviceStep (s : ChildState) (e : ServiceOp) : ChildState :=
  opStep { cfg with levelPolicy := e.1 } sha256 dumps s e.2

/-- The transitions of a schedule of operations on a new child. -/
def history (child : NewChild) (ops : List ServiceOp) : List (Lib.Trans ChildState ServiceOp) :=
  Lib.trace (fun s e => some (serviceStep cfg sha256 dumps s e)) child.toChildState ops

/-- **The stack is a partition of the commit history.** -/
structure Partition (m : ChildManifest) : Prop where
  tiles : Tiles 1 m.lowers (m.generation + 1)
  nil_iff : m.lowers = [] ↔ m.generation = 0

theorem Partition.of_tiles {m : ChildManifest} (h : Tiles 1 m.lowers (m.generation + 1)) :
    Partition m where
  tiles := h
  nil_iff := by
    rw [h.nil_iff]
    omega

theorem NewChild.partition (child : NewChild) : Partition child.disk := by
  apply Partition.of_tiles
  rw [child.generation_zero, child.lowers_nil]
  exact rfl

variable {cfg sha256 dumps}

/-- **What a compaction merges**: the newest generations, from some `lo` on. -/
theorem Partition.group {m : ChildManifest} (hm : Partition m) {pre group : List PackInfo}
    (hsplit : m.lowers = pre ++ group) (hne : group ≠ []) :
    ∃ lo, 1 ≤ lo ∧ lo ≤ m.generation ∧ Tiles 1 pre lo ∧ Tiles lo group (m.generation + 1) ∧
      ((group.map (·.generationMin)).filter (· ≠ 0)).min? = some lo ∧
      ((group.map (·.generationMax)).filter (· ≠ 0)).max? = some m.generation := by
  obtain ⟨lo, hpre, hgroup⟩ := tiles_append.mp (hsplit ▸ hm.tiles)
  have hlo : 1 ≤ lo := hpre.le
  have hle : lo ≤ m.generation + 1 := hgroup.le
  have hneq : lo ≠ m.generation + 1 := fun heq => hne (hgroup.nil_iff.mpr heq)
  obtain ⟨hmin, hmax⟩ := hgroup.range hlo hne
  exact ⟨lo, hlo, by omega, hpre, hgroup, hmin, hmax⟩

/-- **A change of the stack keeps the partition.** -/
theorem StackChange.partition {m m' : ChildManifest} (h : StackChange cfg m m')
    (hm : Partition m) : Partition m' := by
  apply Partition.of_tiles
  cases h with
  | same hg hl =>
    rw [hg, hl]
    exact hm.tiles
  | commit built hg hl =>
    rw [hg, hl, tiles_append]
    exact ⟨m.generation + 1, hm.tiles, tiles_singleton.mpr ⟨rfl, le_rfl, rfl⟩⟩
  | compact pre c allowBase built hc hsplit hne hg hl =>
    obtain ⟨lo, -, hle, hpre, -, hmin, hmax⟩ := hm.group hsplit hne
    have h1 : (compactedPack cfg m c built).generationMin = lo := by
      unfold compactedPack withCompactionMetadata generationMin
      rw [hmin]
      rfl
    have h2 : (compactedPack cfg m c built).generationMax = m.generation := by
      unfold compactedPack withCompactionMetadata generationMax
      rw [hmax]
      rfl
    rw [hg, hl, tiles_append]
    exact ⟨lo, hpre, tiles_singleton.mpr ⟨h1, by omega, by omega⟩⟩
  | recalled hg hl =>
    rw [hg, hl]
    exact hm.tiles.map (fun _ => rfl) (fun _ => rfl)

/-- **The pack stack is a partition of the commit history**, in every state that a run of
    operations on a new child reaches, under whatever level policies. -/
theorem stack_partitions_history (cfg : NodeConfig) (sha256 : Bytes → String)
    (dumps : ChildManifest → Bytes) (child : NewChild) (ops : List ServiceOp) :
    ∀ x ∈ history cfg sha256 dumps child ops,
      Partition x.pre.disk ∧ Partition x.post.disk := by
  obtain ⟨t, hrun⟩ := Lib.Run.trace (fun s e => some (serviceStep cfg sha256 dumps s e)) ops
    child.toChildState
  have hinv := hrun.invariant (I := fun s => Partition s.disk) (G := fun _ _ => True)
    child.partition
    (fun s e t hs _ hstep => by
      cases hstep
      exact (opStep_stackChange s e.2).partition hs)
    (fun _ _ => trivial)
  exact hinv.2

end Runs

/-! ## 4. Names -/

/-- The file name of a delta. -/
def deltaName (generation : Nat) : String := "delta-g" ++ pad4 generation ++ ".sqfs"

/-- The file name of a compacted pack. -/
def compactName (target lo hi : Nat) : String :=
  s!"compact-L{target}-g" ++ pad4 lo ++ "-g" ++ pad4 hi ++ ".sqfs"

section Names

variable {α : Type*}

/-- Where neither part before the mark contains it, the parts are equal. -/
theorem append_cons_inj_of_apart {mark : α} {xs ys us vs : List α} (hx : mark ∉ xs)
    (hy : mark ∉ ys) (h : xs ++ mark :: us = ys ++ mark :: vs) : xs = ys ∧ us = vs := by
  induction xs generalizing ys with
  | nil =>
      cases ys with
      | nil => exact ⟨rfl, (List.cons.inj h).2⟩
      | cons y ys => exact absurd (List.mem_cons.mpr (.inl (List.cons.inj h).1)) hy
  | cons x xs ih =>
      cases ys with
      | nil => exact absurd (List.mem_cons.mpr (.inl (List.cons.inj h).1.symm)) hx
      | cons y ys =>
          obtain ⟨hxy, htail⟩ := List.cons.inj h
          obtain ⟨heq, hrest⟩ := ih (fun hm => hx (List.mem_cons_of_mem _ hm))
            (fun hm => hy (List.mem_cons_of_mem _ hm)) htail
          exact ⟨by rw [hxy, heq], hrest⟩

theorem notMem_pad4 {c : Char} (hc : c.isDigit = false) (n : Nat) : c ∉ (pad4 n).toList := by
  intro hmem
  rw [isDigit_of_mem_pad4 hmem] at hc
  cases hc

theorem notMem_repr {c : Char} (hc : c.isDigit = false) (n : Nat) : c ∉ n.repr.toList := by
  intro hmem
  rw [Nat.toList_repr] at hmem
  rw [Nat.isDigit_of_mem_toDigits (by decide) (by decide) hmem] at hc
  cases hc

theorem toList_deltaName (n : Nat) :
    (deltaName n).toList = "delta-g".toList ++ ((pad4 n).toList ++ ".sqfs".toList) := by
  unfold deltaName
  rw [String.toList_append, String.toList_append, List.append_assoc]

theorem toList_compactName (target lo hi : Nat) :
    (compactName target lo hi).toList =
      "compact-L".toList ++ (target.repr.toList ++
        '-' :: 'g' :: ((pad4 lo).toList ++ '-' :: 'g' :: ((pad4 hi).toList ++ ".sqfs".toList))) := by
  have hform : compactName target lo hi =
      "compact-L" ++ target.repr ++ "-g" ++ pad4 lo ++ "-g" ++ pad4 hi ++ ".sqfs" := rfl
  have hdash : "-g".toList = ['-', 'g'] := rfl
  rw [hform]
  simp only [String.toList_append, List.append_assoc, hdash, List.cons_append, List.nil_append]

theorem deltaName_inj {a b : Nat} (h : deltaName a = deltaName b) : a = b := by
  rw [← String.toList_inj, toList_deltaName, toList_deltaName, List.append_cancel_left_eq,
    List.append_cancel_right_eq, String.toList_inj] at h
  exact pad4_inj h

/-- **The name of a compacted pack** determines its level and its range. -/
theorem compactName_inj {target lo hi target' lo' hi' : Nat}
    (h : compactName target lo hi = compactName target' lo' hi') :
    target = target' ∧ lo = lo' ∧ hi = hi' := by
  rw [← String.toList_inj, toList_compactName, toList_compactName,
    List.append_cancel_left_eq] at h
  obtain ⟨htarget, h⟩ := append_cons_inj_of_apart (notMem_repr (by decide) _)
    (notMem_repr (by decide) _) h
  obtain ⟨-, h⟩ := List.cons.inj h
  obtain ⟨hlo, h⟩ := append_cons_inj_of_apart (notMem_pad4 (by decide) _)
    (notMem_pad4 (by decide) _) h
  obtain ⟨-, h⟩ := List.cons.inj h
  rw [List.append_cancel_right_eq, String.toList_inj] at h
  exact ⟨Nat.repr_inj.mp (String.toList_inj.mp htarget), pad4_inj (String.toList_inj.mp hlo),
    pad4_inj h⟩

theorem deltaName_ne_compactName (n target lo hi : Nat) :
    deltaName n ≠ compactName target lo hi := by
  intro h
  rw [← String.toList_inj, toList_deltaName, toList_compactName] at h
  have hd : "delta-g".toList = 'd' :: "elta-g".toList := rfl
  have hc : "compact-L".toList = 'c' :: "ompact-L".toList := rfl
  rw [hd, hc, List.cons_append, List.cons_append] at h
  have hfirst := (List.cons.inj h).1
  revert hfirst
  decide

theorem isFileName_deltaName (n : Nat) : IsFileName (deltaName n) := by
  unfold IsFileName
  rw [toList_deltaName]
  simp only [List.mem_append, not_or]
  exact ⟨by decide, notMem_pad4 (by decide) n, by decide⟩

theorem isFileName_compactName (target lo hi : Nat) : IsFileName (compactName target lo hi) := by
  unfold IsFileName
  rw [toList_compactName]
  simp only [List.mem_append, List.mem_cons, not_or]
  exact ⟨by decide, notMem_repr (by decide) _, by decide, by decide, notMem_pad4 (by decide) _,
    by decide, by decide, notMem_pad4 (by decide) _, by decide⟩

end Names

/-- **The path of a pack says what it holds**: the generation of a delta, the level and the range
    of a compacted pack. -/
inductive NamedByRange (packDir : String) (p : PackInfo) : Prop where
  | delta (h : p.path = pathJoin packDir (deltaName p.generationMax))
  | compact (target : Nat) (hl : p.level = target)
      (h : p.path = pathJoin packDir (compactName target p.generationMin p.generationMax))

/-- A recall keeps the names. -/
theorem NamedByRange.recalled {packDir : String} {p : PackInfo} (h : NamedByRange packDir p) :
    NamedByRange packDir (recalledPack packDir p) := by
  cases h with
  | delta h =>
    refine .delta ?_
    unfold recalledPack
    rw [h, pathName_join _ (isFileName_deltaName _)]
  | compact target hl h =>
    refine .compact target hl ?_
    unfold recalledPack
    rw [h, pathName_join _ (isFileName_compactName _ _ _)]

section Fresh

variable {cfg : NodeConfig} {m m' : ChildManifest} {p : PackInfo}

theorem deltaPath_eq (packDir : String) (generation : Nat) :
    deltaPath packDir generation = pathJoin packDir (deltaName generation) := rfl

/-- The output path of a compaction, with the least and the greatest generation it merges. -/
theorem compactionOutputPath_eq {group : List PackInfo} {lo hi : Nat} (packDir : String)
    (target : Nat) (hmin : ((group.map (·.generationMin)).filter (· ≠ 0)).min? = some lo)
    (hmax : ((group.map (·.generationMax)).filter (· ≠ 0)).max? = some hi) :
    compactionOutputPath packDir m target group = pathJoin packDir (compactName target lo hi) := by
  unfold compactionOutputPath
  simp only [hmin, hmax]
  rfl

/-- **A change of the stack keeps the names.** -/
theorem StackChange.named (h : StackChange cfg m m') (hm : Partition m)
    (hn : ∀ p ∈ m.lowers, NamedByRange cfg.packDir p) :
    ∀ p ∈ m'.lowers, NamedByRange cfg.packDir p := by
  cases h with
  | same hg hl =>
    rw [hl]
    exact hn
  | commit built hg hl =>
    intro p hp
    rw [hl] at hp
    rcases List.mem_append.mp hp with hp | hp
    · exact hn p hp
    · rw [List.mem_singleton.mp hp]
      exact .delta rfl
  | compact pre c allowBase built hc hsplit hne hg hl =>
    obtain ⟨lo, -, -, -, -, hmin, hmax⟩ := hm.group hsplit hne
    intro p hp
    rw [hl] at hp
    rcases List.mem_append.mp hp with hp | hp
    · exact hn p (hsplit ▸ List.mem_append_left _ hp)
    · rw [List.mem_singleton.mp hp]
      refine .compact c.targetLevel rfl ?_
      have hpath : (compactedPack cfg m c built).path =
          compactionOutputPath cfg.packDir m c.targetLevel c.packs := rfl
      have h1 : (compactedPack cfg m c built).generationMin = lo := by
        unfold compactedPack withCompactionMetadata generationMin
        rw [hmin]
        rfl
      have h2 : (compactedPack cfg m c built).generationMax = m.generation := by
        unfold compactedPack withCompactionMetadata generationMax
        rw [hmax]
        rfl
      rw [hpath, compactionOutputPath_eq _ _ hmin hmax, h1, h2]
  | recalled hg hl =>
    intro p hp
    rw [hl] at hp
    obtain ⟨q, hq, rfl⟩ := List.mem_map.mp hp
    exact (hn q hq).recalled

/-- **The next delta has a new name**: no pack of the stack holds its generation. -/
theorem deltaPath_fresh (hm : Partition m) (hn : NamedByRange cfg.packDir p) (hp : p ∈ m.lowers) :
    p.path ≠ deltaPath cfg.packDir (m.generation + 1) := by
  have hlt := (hm.tiles.bounds hp).2.2
  rw [deltaPath_eq]
  cases hn with
  | delta h =>
    rw [h]
    intro heq
    have hgen := deltaName_inj (pathJoin_inj heq)
    omega
  | compact target hl h =>
    rw [h]
    intro heq
    exact deltaName_ne_compactName _ _ _ _ (pathJoin_inj heq).symm

/-- A single pack is never merged into its own level: the stack would be valid as it is. -/
theorem not_plans_itself {policy : LevelPolicy} {packs pre : List PackInfo} {allowBase : Bool}
    {c : CompactionCandidate} (h : planLevelCompaction packs policy allowBase = some c)
    (hsplit : packs = pre ++ [p]) (hc : c.packs = [p]) : p.level ≠ c.targetLevel := by
  intro heq
  obtain ⟨i, hi, hround, -⟩ := planLevelCompaction_some h
  obtain ⟨hpacks, -, -⟩ := planGroup_fields hround
  have hlen : i + 1 = 1 := by
    have hdrop := congrArg List.length hpacks
    rw [hc, List.length_drop, List.length_singleton] at hdrop
    omega
  have htake : packs.take (packs.length - (i + 1)) = pre := by
    rw [hlen, hsplit, List.length_append, List.length_singleton, Nat.add_sub_cancel,
      List.take_left]
  obtain ⟨hvalid, hlt⟩ := planGroup_valid hround
  rw [htake] at hvalid hlt
  by_cases hmax : 1 ≤ policy.maxPacksPerLevel
  · have hstack : isValidStack packs policy = true := by
      rw [isValidStack_iff hmax] at hvalid ⊢
      rw [hsplit, increasing_concat, heq]
      exact ⟨hvalid, prefixMaxLevel_lt.mp hlt⟩
    rw [(planLevelCompaction_none_iff hmax).mpr hstack] at h
    cases h
  · -- no level may hold a pack, so nothing is below the merged one and there is nothing to merge
    have hnil : pre = [] := by
      cases pre with
      | nil => rfl
      | cons q rest =>
          unfold isValidStack isValidStackFrom at hvalid
          simp only [Function.update_self] at hvalid
          rw [if_pos (by omega)] at hvalid
          cases hvalid
    rw [hsplit, hnil] at h
    unfold planLevelCompaction at h
    rw [if_pos (by simp)] at h
    cases h

/-- **A merged pack has a new name**: a pack of that name would be the whole run being merged, and
    at its target level already. -/
theorem compactionOutputPath_fresh (hm : Partition m) (hn : NamedByRange cfg.packDir p)
    (hp : p ∈ m.lowers) {policy : LevelPolicy} {allowBase : Bool} {c : CompactionCandidate}
    (hc : planLevelCompaction m.lowers policy allowBase = some c) :
    p.path ≠ compactionOutputPath cfg.packDir m c.targetLevel c.packs := by
  obtain ⟨pre, hsplit, hne⟩ := planLevelCompaction_suffix hc
  obtain ⟨lo, hlo, hle, hpre, hgroup, hmin, hmax⟩ := hm.group hsplit hne
  rw [compactionOutputPath_eq _ _ hmin hmax]
  cases hn with
  | delta h =>
    rw [h]
    intro heq
    exact deltaName_ne_compactName _ _ _ _ (pathJoin_inj heq)
  | compact target hl h =>
    rw [h]
    intro heq
    obtain ⟨htarget, hpmin, hpmax⟩ := compactName_inj (pathJoin_inj heq)
    have hmem : p ∈ c.packs := by
      rw [hsplit] at hp
      rcases List.mem_append.mp hp with hp | hp
      · have := hpre.bounds hp
        omega
      · exact hp
    have hsingle : c.packs = [p] := hgroup.eq_singleton hmem hpmin (by omega)
    exact not_plans_itself hc (by rw [hsplit, hsingle]) hsingle (by rw [hl, htarget])

end Fresh

/-! ## 5. No build overwrites a pack of the stack -/

/-- The file an operation builds, when it builds one: `_build_commit_from_source` and
    `_compact_if_needed`. -/
def outputPath (cfg : NodeConfig) (s : ChildState) : Op → Option String
  | .commit _ => if s.publishes then some (deltaPath cfg.packDir (s.disk.generation + 1)) else none
  | .compact allowBase _ =>
    (runnableCandidate cfg.levelPolicy s.disk allowBase).map fun c =>
      compactionOutputPath cfg.packDir s.disk c.targetLevel c.packs
  | _ => none

section Output

variable {cfg : NodeConfig} {s : ChildState}

/-- **Its output path is new** to a stack that is a partition and whose packs are named as built. -/
theorem outputPath_notMem {op : Op} {out : String} (hm : Partition s.disk)
    (hn : ∀ p ∈ s.disk.lowers, NamedByRange cfg.packDir p)
    (hout : outputPath cfg s op = some out) :
    ∀ p ∈ s.disk.lowers, p.path ≠ out := by
  intro p hp
  cases op with
  | commit built =>
    simp only [outputPath] at hout
    split at hout
    · cases hout
      exact deltaPath_fresh hm (hn p hp) hp
    · cases hout
  | compact allowBase built =>
    simp only [outputPath, Option.map_eq_some_iff] at hout
    obtain ⟨c, hc, rfl⟩ := hout
    unfold runnableCandidate at hc
    exact compactionOutputPath_fresh hm (hn p hp) hp (Option.filter_eq_some_iff.mp hc).1
  | ensureHot _ | mount _ | write | publish | unmount | envRun | mirror _ | archive _ _ | pin _ =>
    cases hout

end Output

/-- **A pack the manifest references is never overwritten**: in every run of operations on a new
    child, whatever builds fail and under whatever level policies, the file a build writes is the
    file of no pack in the stack on disk. -/
theorem outputPath_fresh (cfg : NodeConfig) (sha256 : Bytes → String)
    (dumps : ChildManifest → Bytes) (child : NewChild) (ops : List ServiceOp) :
    ∀ x ∈ history cfg sha256 dumps child ops,
      ∀ out ∈ outputPath { cfg with levelPolicy := x.ev.1 } x.pre x.ev.2,
        ∀ p ∈ x.pre.disk.lowers, p.path ≠ out := by
  obtain ⟨t, hrun⟩ := Lib.Run.trace (fun s e => some (serviceStep cfg sha256 dumps s e)) ops
    child.toChildState
  have hstart : Partition child.disk ∧ ∀ p ∈ child.disk.lowers, NamedByRange cfg.packDir p := by
    rw [child.lowers_nil]
    exact ⟨child.partition, fun p hp => absurd hp List.not_mem_nil⟩
  have hinv := hrun.invariant (G := fun _ _ => True)
    (I := fun s => Partition s.disk ∧ ∀ p ∈ s.disk.lowers, NamedByRange cfg.packDir p) hstart
    (fun s e t hs _ hstep => by
      cases hstep
      have hchange : StackChange { cfg with levelPolicy := e.1 } s.disk
          (serviceStep cfg sha256 dumps s e).disk := opStep_stackChange s e.2
      exact ⟨hchange.partition hs.1, hchange.named hs.1 hs.2⟩)
    (fun _ _ => trivial)
  intro x hx out hout p hp
  obtain ⟨hm, hn⟩ := (hinv.2 x hx).1
  refine outputPath_notMem hm ?_ hout p hp
  exact hn

/-! ### A concrete history -/

/-- A child just created. -/
def newEnv : NewChild where
  disk := { id := "env", name := "env", type := "environment", generation := 0 }
  hot := fun _ => none
  store := fun _ => none
  generation_zero := rfl
  lowers_nil := rfl

/-- Two transactions committed one after the other, and their deltas merged. -/
def twoCommits : List ServiceOp :=
  [(coldNode.levelPolicy, .envRun), (coldNode.levelPolicy, .commit (some deltaFile)),
    (coldNode.levelPolicy, .envRun), (coldNode.levelPolicy, .commit (some deltaFile)),
    (.default, .compact false none),
    (coldNode.levelPolicy, .compact true (some baseFile))]

/-- The transitions of `twoCommits`. -/
def envHistory : List (Lib.Trans ChildState ServiceOp) :=
  history coldNode packDigest (fun _ => []) newEnv twoCommits

theorem envHistory_partition :
    ∃ x ∈ envHistory, x.pre.disk.lowers.length = 2 ∧ x.post.disk.lowers.length = 1 ∧
      Partition x.pre.disk ∧ Partition x.post.disk :=
  ⟨envHistory[5], List.getElem_mem _, by decide, by decide,
    stack_partitions_history coldNode packDigest (fun _ => []) newEnv twoCommits _
      (List.getElem_mem _)⟩

theorem envHistory_fresh :
    ∃ x ∈ envHistory, ∃ out ∈ outputPath { coldNode with levelPolicy := x.ev.1 } x.pre x.ev.2,
      out = "/nfs/packs/env/compact-L0-g0001-g0002.sqfs" ∧ x.pre.disk.lowers.length = 2 ∧
        ∀ p ∈ x.pre.disk.lowers, p.path ≠ out := by
  refine ⟨envHistory[5], List.getElem_mem _, "/nfs/packs/env/compact-L0-g0001-g0002.sqfs",
    by decide, rfl, by decide, ?_⟩
  exact outputPath_fresh coldNode packDigest (fun _ => []) newEnv twoCommits _
    (List.getElem_mem _) _ (by decide)

end CccStorage
