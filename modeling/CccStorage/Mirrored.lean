/-
  File:      CccStorage/Mirrored.lean
  Subject:   Runs of one child's operations, one at a time: is a snapshot that the manifest calls
             current the stack? (`_manifest_with_cold_state`, `_mirror_after_commit_if_configured`,
             `handle_compact`)

  The cold table names a generation, not packs. A compaction replaces packs and keeps the
  generation.

  * `SnapshotCurrent`, `MirroredStored` -- what the manifest says, and what the store must hold;
  * `MirrorInv`, `mirrorInv_step` -- every operation keeps it unless a compaction merges the packs
    of a current snapshot;
  * `mirrored_of_staleCompactions` -- runs whose compactions all find no current snapshot;
  * `mirroredCompaction_notStored` -- a mirrored child, compacted.
-/
import CccStorage.ColdRuns

namespace CccStorage

/-! ## 1. What the manifest says -/

/-- `snapshot_state == "available"` and `mirror_generation == generation`. -/
def SnapshotCurrent (m : ChildManifest) : Prop :=
  m.coldStorage.snapshotState = SNAPSHOT_AVAILABLE ∧ m.coldStorage.mirrorGeneration = m.generation

instance (m : ChildManifest) : Decidable (SnapshotCurrent m) :=
  inferInstanceAs (Decidable (_ ∧ _))

/-- The store holds every pack of the stack, as recorded. -/
def PacksStored (sha256 : Bytes → String) (w : ColdWorld) : Prop :=
  ∀ p ∈ w.disk.lowers,
    ∃ b, w.store (packKey w.disk.coldStorage.uri p) = some b ∧ Matches sha256 p b

/-- **Mirrored means stored.** -/
def MirroredStored (sha256 : Bytes → String) (w : ColdWorld) : Prop :=
  SnapshotCurrent w.disk → PacksStored sha256 w

/-- **The invariant**: pack files that are there are as recorded, the mirror is not ahead of the
    stack, and mirrored means stored. -/
structure MirrorInv (sha256 : Bytes → String) (w : ColdWorld) : Prop where
  files : ∀ p ∈ w.disk.lowers, ∀ b, w.hot p.path = some b → Matches sha256 p b
  behind : w.disk.coldStorage.mirrorGeneration ≤ w.disk.generation
  stored : MirroredStored sha256 w

section Inv

variable {cfg : NodeConfig} {sha256 : Bytes → String} {dumps : ChildManifest → Bytes}
variable {w : ColdWorld}

@[simp] theorem manifestWithColdState_mirrorGeneration
    (m : ChildManifest) (pre packState backend mode stamp : String) :
    (manifestWithColdState m pre packState backend mode stamp).coldStorage.mirrorGeneration =
      m.generation := by
  unfold manifestWithColdState
  split <;> rfl

/-! ## 2. Uploads -/

/-- A key names its pack's file, whatever its prefix. -/
theorem pathName_packKey (pre : String) (p : PackInfo) :
    pathName (packKey pre p) = pathName p.path := by
  have hjoin : packKey pre p = pathJoin (stripSlashes pre ++ "/packs") (pathName p.path) := by
    unfold packKey pathJoin
    rw [← String.toList_inj]
    simp [String.toList_append]
  rw [hjoin, pathName_join _ (isFileName_pathName p.path)]

/-- **An upload**, complete or not, writes hot files under their packs' keys only. -/
theorem uploadPacks_store_cases {pre : String} {packs : List PackInfo} (key : String) :
    (uploadPacks pre packs w).1.store key = w.store key ∨
      ∃ p ∈ packs, packKey pre p = key ∧ ∃ b, w.hot p.path = some b ∧
        (uploadPacks pre packs w).1.store key = some b := by
  induction packs generalizing w with
  | nil => exact .inl rfl
  | cons pack packs ih =>
    unfold uploadPacks
    cases hput : putFile w (packKey pre pack) pack.path with
    | none => exact .inl rfl
    | some w' =>
      obtain ⟨b, hb, rfl⟩ := Option.map_eq_some_iff.mp hput
      simp only
      rcases @ih { w with store := Function.update w.store (packKey pre pack) (some b) } with
        hsame | ⟨p, hp, hkey, b', hb', hheld⟩
      · by_cases hk : packKey pre pack = key
        · refine .inr ⟨pack, List.mem_cons_self, hk, b, hb, ?_⟩
          rw [hsame, ← hk]
          exact Function.update_self ..
        · refine .inl (hsame.trans ?_)
          exact Function.update_of_ne (fun he => hk he.symm) ..
      · exact .inr ⟨p, List.mem_cons_of_mem _ hp, hkey, b', hb', hheld⟩

/-- Packs of distinct names in one stack are told apart by their names. -/
theorem NamesDistinct.eq_of_name {packs : List PackInfo} (h : NamesDistinct packs)
    {p q : PackInfo} (hp : p ∈ packs) (hq : q ∈ packs) (hname : pathName p.path = pathName q.path) :
    p = q := by
  have hsymm : Std.Symm fun p q : PackInfo => pathName p.path ≠ pathName q.path :=
    ⟨fun _ _ hab he => hab he.symm⟩
  by_contra hne
  exact List.Pairwise.forall h hp hq hne hname

/-- An upload keeps what is stored of the stack. -/
theorem MirrorInv.upload (h : MirrorInv sha256 w) (hd : NamesDistinct w.disk.lowers)
    (pre : String) : MirrorInv sha256 (uploadPacks pre w.disk.lowers w).1 := by
  refine ⟨?_, ?_, fun hcur p hp => ?_⟩
  · rw [uploadPacks_disk, uploadPacks_hot]
    exact h.files
  · rw [uploadPacks_disk]
    exact h.behind
  · rw [uploadPacks_disk] at hcur hp ⊢
    obtain ⟨b, hb, hok⟩ := h.stored hcur p hp
    rcases uploadPacks_store_cases (w := w) (packKey w.disk.coldStorage.uri p) with
      hsame | ⟨q, hq, hkey, b', hb', hheld⟩
    · exact ⟨b, hsame.trans hb, hok⟩
    · have hname : pathName q.path = pathName p.path := by
        rw [← pathName_packKey pre q, hkey, pathName_packKey]
      have hqp := hd.eq_of_name hq hp hname
      subst hqp
      exact ⟨b', hheld, h.files q hq b' hb'⟩

/-- **After a complete upload** the store holds the stack under the new prefix. -/
theorem MirrorInv.upload_ok (h : MirrorInv sha256 w) (hd : NamesDistinct w.disk.lowers)
    {pre : String} {keys : List String} (hok : (uploadPacks pre w.disk.lowers w).2 = .ok keys) :
    ∀ p ∈ w.disk.lowers, ∃ b,
      (uploadPacks pre w.disk.lowers w).1.store (packKey pre p) = some b ∧ Matches sha256 p b := by
  intro p hp
  obtain ⟨b, hb, hheld⟩ := uploadPacks_spec hd hok p hp
  exact ⟨b, hheld, h.files p hp b hb⟩

/-! ## 3. Every operation keeps it -/

/-- A manifest with the same stack, generation and mirror, the files and objects as they are. -/
theorem MirrorInv.of_same {v : ChildManifest} (h : MirrorInv sha256 w)
    (hl : v.lowers = w.disk.lowers) (hg : v.generation = w.disk.generation)
    (hs : v.coldStorage.snapshotState = w.disk.coldStorage.snapshotState)
    (hm : v.coldStorage.mirrorGeneration = w.disk.coldStorage.mirrorGeneration)
    (hu : v.coldStorage.uri = w.disk.coldStorage.uri) : MirrorInv sha256 { w with disk := v } := by
  refine ⟨fun p hp => h.files p (hl ▸ hp), ?_, fun hcur p hp => ?_⟩
  · rw [hm, hg]
    exact h.behind
  · have hcur' : SnapshotCurrent w.disk := by
      unfold SnapshotCurrent at hcur ⊢
      rw [hs, hm, hg] at hcur
      exact hcur
    simp only [hu]
    exact h.stored hcur' p (hl ▸ hp)

/-- A pack built as recorded joins a stack whose files are. -/
theorem filesMatch_append {v : ChildManifest} {packs : List PackInfo} {pack : PackInfo} {b : Bytes}
    (h : ∀ p ∈ packs, ∀ b, w.hot p.path = some b → Matches sha256 p b)
    (hl : v.lowers = packs ++ [pack]) (hd : NamesDistinct v.lowers) (hm : Matches sha256 pack b) :
    ∀ p ∈ v.lowers, ∀ b', Function.update w.hot pack.path (some b) p.path = some b' →
      Matches sha256 p b' := by
  rw [hl] at hd ⊢
  intro p hp b' hb'
  rcases List.mem_append.mp hp with hp | hp
  · rw [Function.update_of_ne (hd.path_ne p hp)] at hb'
    exact h p hp b' hb'
  · obtain rfl := List.mem_singleton.mp hp
    rw [Function.update_self] at hb'
    obtain rfl := Option.some.inj hb'
    exact hm

/-- **A commit** leaves the mirror behind. -/
theorem MirrorInv.commit (h : MirrorInv sha256 w) (b : Bytes)
    (hd : NamesDistinct (commitPack cfg sha256 b w).disk.lowers) :
    MirrorInv sha256 (commitPack cfg sha256 b w) := by
  refine ⟨filesMatch_append h.files rfl hd ⟨rfl, rfl⟩, h.behind.trans (Nat.le_succ _), ?_⟩
  rintro ⟨-, hcur⟩
  have hgen : w.disk.coldStorage.mirrorGeneration = w.disk.generation + 1 := hcur
  have hbehind := h.behind
  omega

/-- **A compaction** keeps the generation: it must not find a current snapshot. -/
theorem MirrorInv.compact (h : MirrorInv sha256 w) {c : CompactionCandidate} {allowBase : Bool}
    (hcand : runnableCandidate cfg.levelPolicy w.disk allowBase = some c) {built : Option Bytes}
    (hstale : built.isSome → ¬ SnapshotCurrent w.disk) (hd : NamesDistinct w.disk.lowers)
    (hd' : NamesDistinct (compactPacks cfg sha256 c built w).disk.lowers) :
    MirrorInv sha256 (compactPacks cfg sha256 c built w) := by
  obtain ⟨pre, hm, hne⟩ := runnableCandidate_suffix hcand
  unfold compactPacks at hd' ⊢
  split at hd'
  · rename_i hfiles
    rw [if_pos hfiles]
    cases built with
    | none => exact h
    | some b =>
      set pack := compactedPack cfg w.disk c (builtFile sha256 b) with hpack
      have hmeta : withCompactionMetadata pack c.packs c.targetLevel = pack := rfl
      have hv := mergedManifest_suffix hm hne hd.paths_nodup hmeta
      simp only [← hpack, hv] at hd' ⊢
      refine ⟨filesMatch_append (fun p hp => ?_) rfl hd' ⟨rfl, rfl⟩, h.behind,
        fun hcur => (hstale rfl hcur).elim⟩
      exact h.files p (hm ▸ List.mem_append_left _ hp)
  · rename_i hfiles
    rw [if_neg hfiles]
    exact h

/-- **After a complete upload** the manifest may say so. -/
theorem MirrorInv.publish (h : MirrorInv sha256 w) (hd : NamesDistinct w.disk.lowers)
    {pre : String} {w' : ColdWorld} {keys : List String} {v : ChildManifest} (object : Bytes)
    (hup : uploadPacks pre w.disk.lowers w = (w', .ok keys)) (hl : v.lowers = w.disk.lowers)
    (hm : v.coldStorage.mirrorGeneration = v.generation)
    (hu : v.coldStorage.uri = stripSlashes pre) :
    MirrorInv sha256 { w' with
      store := Function.update w'.store (manifestKey pre) (some object)
      disk := v } := by
  have hok : (uploadPacks pre w.disk.lowers w).2 = .ok keys := by rw [hup]
  have hstored := h.upload_ok hd hok
  have hhot : (uploadPacks pre w.disk.lowers w).1.hot = w.hot := uploadPacks_hot
  rw [hup] at hstored hhot
  have hhot' : w'.hot = w.hot := hhot
  refine ⟨fun p hp => ?_, hm.le, fun _ p hp => ?_⟩
  · simp only [hhot']
    exact h.files p (hl ▸ hp)
  · obtain ⟨b, hb, hok⟩ := hstored p (hl ▸ hp)
    refine ⟨b, ?_, hok⟩
    simp only [hu, packKey_strip]
    rw [Function.update_of_ne (manifestKey_ne_packKey pre p).symm]
    exact hb

theorem MirrorInv.mirror (h : MirrorInv sha256 w) (hd : NamesDistinct w.disk.lowers)
    (pre backend stamp : String) :
    MirrorInv sha256 (mirrorPacks dumps w.disk pre backend stamp w).1 := by
  have hfail := h.upload hd pre
  unfold mirrorPacks
  rcases hup : uploadPacks pre w.disk.lowers w with ⟨w', e | keys⟩
  · rw [hup] at hfail
    exact hfail
  · refine h.publish hd _ hup (mirroredManifest_lowers ..) ?_ (manifestWithColdState_uri ..)
    exact manifestWithColdState_mirrorGeneration ..

/-- An eviction removes files only. -/
theorem evictPacks_hot_of_some {packs : List PackInfo} {path : String} {b : Bytes}
    (h : (evictPacks packs w).1.hot path = some b) : w.hot path = some b := by
  induction packs generalizing w with
  | nil => exact h
  | cons pack packs ih =>
    unfold evictPacks at h
    have hrest : Function.update w.hot pack.path none path = some b := ih h
    by_cases hp : path = pack.path
    · subst hp
      rw [Function.update_self] at hrest
      cases hrest
    · rwa [Function.update_of_ne hp] at hrest

theorem MirrorInv.evict (h : MirrorInv sha256 w) (packs : List PackInfo) :
    MirrorInv sha256 (evictPacks packs w).1 := by
  refine ⟨fun p hp b hb => ?_, ?_, fun hcur p hp => ?_⟩
  · rw [evictPacks_disk] at hp
    exact h.files p hp b (evictPacks_hot_of_some hb)
  · rw [evictPacks_disk]
    exact h.behind
  · rw [evictPacks_disk] at hcur hp ⊢
    rw [evictPacks_store]
    exact h.stored hcur p hp

theorem MirrorInv.archive (h : MirrorInv sha256 w) (hd : NamesDistinct w.disk.lowers)
    (pre : String) (removeHot : Bool) (backend stamp : String) :
    MirrorInv sha256 (archivePacks dumps w.disk pre removeHot backend stamp w).1 := by
  have hfail := h.upload hd pre
  unfold archivePacks
  rcases hup : uploadPacks pre w.disk.lowers w with ⟨w', e | keys⟩
  · rw [hup] at hfail
    exact hfail
  · simp only
    have hpub := h.publish hd (dumps (archivedManifest w.disk pre removeHot backend stamp)) hup
      (archivedManifest_lowers w.disk pre backend stamp removeHot)
      (manifestWithColdState_mirrorGeneration ..)
      (archivedManifest_uri w.disk pre backend stamp removeHot)
    split
    · exact hpub.evict _
    · exact hpub

/-- **A recall** publishes only packs it has verified, under their names. -/
theorem MirrorInv.recall (h : MirrorInv sha256 w) (hd : NamesDistinct w.disk.lowers)
    (hotDir stamp : String) : MirrorInv sha256 (recallPacks sha256 w.disk hotDir stamp w).1 := by
  unfold recallPacks
  split
  · exact h
  · split
    · exact h
    · rename_i staged hstaged
      obtain ⟨hmap, hall⟩ := stagePacks_spec hstaged
      refine ⟨fun q hq b hb => ?_, h.behind, fun hcur q hq => ?_⟩
      · obtain ⟨p, hp, rfl⟩ := List.mem_map.mp hq
        rw [← hmap] at hp hd
        obtain ⟨pb, hpb, rfl⟩ := List.mem_map.mp hp
        have hplace : publishStaged hotDir staged w.hot (recalledPack hotDir pb.1).path =
            some pb.2 := publishStaged_spec hd pb hpb
        obtain rfl := Option.some.inj (hplace.symm.trans hb)
        exact hall pb hpb
      · obtain ⟨p, hp, rfl⟩ := List.mem_map.mp hq
        obtain ⟨b, hb, hok⟩ := h.stored hcur p hp
        refine ⟨b, ?_, hok⟩
        have hkey : packKey w.disk.coldStorage.uri (recalledPack hotDir p) =
            packKey w.disk.coldStorage.uri p := by
          unfold packKey
          rw [pathName_recalledPack]
        exact (congrArg w.store hkey).trans hb

theorem MirrorInv.ensureHot (h : MirrorInv sha256 w) (hd : NamesDistinct w.disk.lowers)
    (stamp : String) : MirrorInv sha256 (ensureHot cfg sha256 stamp w) := by
  unfold CccStorage.ensureHot
  split
  · exact h.recall hd cfg.packDir stamp
  · exact h.of_same rfl rfl rfl rfl rfl

/-- **The condition**: a compaction that merges packs finds no current snapshot. -/
def StaleCompaction (cfg : NodeConfig) (s : ChildState) : Op → Prop
  | .compact allowBase (some _) =>
    SnapshotCurrent s.disk → (runnableCandidate cfg.levelPolicy s.disk allowBase).isNone
  | _ => True

instance (cfg : NodeConfig) (s : ChildState) : (op : Op) → Decidable (StaleCompaction cfg s op)
  | .compact allowBase (some _) => inferInstanceAs (Decidable (SnapshotCurrent s.disk →
      (runnableCandidate cfg.levelPolicy s.disk allowBase).isNone))
  | .compact _ none | .ensureHot _ | .mount _ | .write | .publish | .unmount | .envRun | .commit _
  | .mirror _ | .archive _ _ | .pin _ => inferInstanceAs (Decidable True)

/-- **Every operation keeps the invariant**, between states whose packs have distinct names. -/
theorem mirrorInv_step {s : ChildState} {op : Op} (h : MirrorInv sha256 s.toColdWorld)
    (hd : NamesDistinct s.disk.lowers)
    (hd' : NamesDistinct (opStep cfg sha256 dumps s op).disk.lowers)
    (hc : StaleCompaction cfg s op) : MirrorInv sha256 (opStep cfg sha256 dumps s op).toColdWorld := by
  cases op with
  | ensureHot stamp => exact h.ensureHot hd stamp
  | mount mode => exact h
  | write =>
    simp only [opStep]
    repeat' split
    all_goals exact h
  | publish =>
    simp only [opStep]
    rw [s.publishMirror_toColdWorld]
    exact h
  | unmount =>
    have hsame : (opStep cfg sha256 dumps s .unmount).toColdWorld = s.publishMirror.toColdWorld := rfl
    rw [hsame, s.publishMirror_toColdWorld]
    exact h
  | envRun => exact h
  | commit built =>
    simp only [opStep] at hd' ⊢
    split at hd'
    · rename_i hp
      rw [if_pos hp]
      cases built with
      | none =>
        simp only
        split
        · rw [s.cleanup_toColdWorld]
          exact h
        · exact h
      | some b => exact h.commit b hd'
    · rename_i hp
      rw [if_neg hp]
      exact h
  | compact allowBase built =>
    simp only [opStep] at hd' ⊢
    split at hd'
    · rename_i c hcand
      refine h.compact hcand (fun hbuilt hcur => ?_) hd hd'
      obtain ⟨b, rfl⟩ := Option.isSome_iff_exists.mp hbuilt
      have hnone : (runnableCandidate cfg.levelPolicy s.disk allowBase).isNone := hc hcur
      rw [hcand] at hnone
      cases hnone
    · exact h
  | mirror stamp =>
    simp only [opStep]
    split
    · exact h.mirror hd _ _ _
    · exact h
  | archive keepHot stamp =>
    simp only [opStep]
    split
    · exact h
    · exact h.archive hd _ _ _ _
  | pin pinned => exact h.of_same rfl rfl rfl rfl rfl

/-! ## 4. Runs -/

/-- **Mirrored means stored**: in every run whose merging compactions all find no current snapshot,
    the store holds the stack in every state that says so. -/
theorem mirrored_of_staleCompactions {s t : ChildState} {tr : List (Lib.Trans ChildState Op)}
    (h : OpRuns cfg sha256 dumps s tr t) (hs : MirrorInv sha256 s.toColdWorld)
    (hd : NamesDistinct s.disk.lowers ∧ ∀ x ∈ tr, NamesDistinct x.post.disk.lowers)
    (hc : ∀ x ∈ tr, StaleCompaction cfg x.pre x.ev) :
    MirroredStored sha256 t.toColdWorld ∧ ∀ x ∈ tr, MirroredStored sha256 x.post.toColdWorld := by
  have hinv := h.invariant
    (G := fun s op => StaleCompaction cfg s op ∧
      NamesDistinct (opStep cfg sha256 dumps s op).disk.lowers)
    (I := fun s => MirrorInv sha256 s.toColdWorld ∧ NamesDistinct s.disk.lowers)
    ⟨hs, hd.1⟩
    (fun a op b ha hg hstep => by
      cases hstep
      exact ⟨mirrorInv_step ha.1 ha.2 hg.2 hg.1, hg.2⟩)
    (fun x hx => ⟨hc x hx, by rw [Option.some.inj (h.isStep x hx)]; exact hd.2 x hx⟩)
  exact ⟨hinv.1.1.stored, fun x hx => (hinv.2 x hx).2.1.stored⟩

end Inv

/-! ### Concrete runs -/

theorem hotChild_mirrorInv : MirrorInv packDigest hotChild.toColdWorld := by
  refine ⟨fun p hp b hb => ?_, Nat.zero_le _, fun hcur => ?_⟩
  · obtain ⟨b', hb', hok⟩ := hotChild_allHot p hp
    obtain rfl := Option.some.inj (hb.symm.trans hb')
    exact hok
  · exact absurd hcur (by decide)

/-- Two transactions, their compaction, and an upload that keeps the hot packs. -/
def compactedThenMirrored : List Op :=
  [.envRun, .commit (some deltaFile), .envRun, .commit (some deltaFile),
    .compact true (some baseFile), .archive true "2026-01-01T00:00:00Z"]

theorem mirrored_compactedThenMirrored :
    ∃ t, OpRuns coldNode packDigest (fun _ => []) hotChild (childRun compactedThenMirrored) t ∧
      MirroredStored packDigest t.toColdWorld ∧
      ∀ x ∈ childRun compactedThenMirrored, MirroredStored packDigest x.post.toColdWorld := by
  obtain ⟨t, h⟩ := childRun_runs compactedThenMirrored
  exact ⟨t, h, mirrored_of_staleCompactions h hotChild_mirrorInv ⟨by decide, by decide⟩
    (by decide)⟩

/-- The upload first, then the compaction. -/
def mirroredThenCompacted : List Op :=
  [.envRun, .commit (some deltaFile), .envRun, .commit (some deltaFile),
    .archive true "2026-01-01T00:00:00Z", .compact true (some baseFile)]

/-- **A mirrored child, compacted**: the generation is still the mirrored one, and no object has
    the merged pack. -/
theorem mirroredCompaction_notStored :
    (∃ t, OpRuns coldNode packDigest (fun _ => []) hotChild (childRun mirroredThenCompacted) t) ∧
      MirrorInv packDigest hotChild.toColdWorld ∧
      (∀ x ∈ childRun mirroredThenCompacted, NamesDistinct x.post.disk.lowers) ∧
      ¬ ∀ x ∈ childRun mirroredThenCompacted, MirroredStored packDigest x.post.toColdWorld := by
  refine ⟨childRun_runs _, hotChild_mirrorInv, by decide, fun hall => ?_⟩
  have hmem : (childRun mirroredThenCompacted)[5] ∈ childRun mirroredThenCompacted :=
    List.getElem_mem _
  obtain ⟨p, hp⟩ : ∃ p, (childRun mirroredThenCompacted)[5].post.disk.lowers = [p] ∧
      (childRun mirroredThenCompacted)[5].post.store
        (packKey (childRun mirroredThenCompacted)[5].post.disk.coldStorage.uri p) = none :=
    ⟨_, rfl, by decide⟩
  obtain ⟨b, hb, -⟩ := hall _ hmem (by decide) p (by rw [hp.1]; exact List.mem_singleton_self p)
  rw [hp.2] at hb
  cases hb

end CccStorage
