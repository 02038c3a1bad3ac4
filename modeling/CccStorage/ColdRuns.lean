/-
  File:      CccStorage/ColdRuns.lean
  Subject:   Runs of one child's operations, one at a time: is a cold child recallable?

  A child's manifest says `cold` after an archive evicted its hot packs. Every operation that
  touches the stack, the cold table, the pack files or the store is a step here: `_ensure_hot`
  (mounts and recalls), commits under either write policy, the runner of an environment
  transaction, compactions, archives, mirrors, pins, and the overlay steps that decide which of
  them may run.

  * `ChildState`, `Op`, `opStep` -- the child and its operations;
  * `Recallable` -- the store holds every pack of a cold child;
  * `ColdInv`, `coldInv_step` -- a child is cold with its packs in the store and no hot file, or
    not cold with every hot file as recorded; every operation keeps this unless a commit
    publishes while the child is cold;
  * `recallable_of_hotCommits` -- runs whose commits all publish on a child that is not cold;
  * `coldCommit_not_recallable` -- a transaction that commits over a cold stack.
-/
import CccStorage.Commit
import CccStorage.Lib.Run

namespace CccStorage

/-! ## 1. The child and its operations -/

inductive MountMode where
  | ro
  | rw
  deriving DecidableEq, Repr

/-- One child: the cold world, and of its uppers and mount what the operations check. -/
structure ChildState extends ColdWorld where
  /-- `dirty_stats(active_upper).dirty`, the shared upper. -/
  upperDirty : Bool := false
  /-- `dirty_stats` of the node-local upper. -/
  localDirty : Bool := false
  /-- The base generation of the latest mirror, when it is not empty. -/
  mirror : Option Nat := none
  /-- The live mount, with the generation it was mounted at. -/
  mounted : Option (MountMode × Nat) := none

/-- The operations, with what the environment answers: the stamps of the clock, and the bytes a
    builder writes (`none` when it raises). -/
inductive Op where
  /-- `_ensure_hot` before a mount or an observed access, and `handle_cold_recall`. -/
  | ensureHot (stamp : String)
  | mount (mode : MountMode)
  /-- An application write through the writable mount. -/
  | write
  /-- The publisher copies the local upper into a new mirror epoch. -/
  | publish
  | unmount
  /-- The command runner of an environment transaction wrote into the active upper. -/
  | envRun
  /-- `handle_commit` up to its `dump_atomic` and cleanup. -/
  | commit (built : Option Bytes)
  /-- `handle_compact`, and with `allowBase = false` the compaction after a commit. -/
  | compact (allowBase : Bool) (built : Option Bytes)
  /-- `_mirror_after_commit_if_configured`. -/
  | mirror (stamp : String)
  | archive (keepHot : Bool) (stamp : String)
  | pin (pinned : Bool)

namespace ChildState

/-- `Path(p).is_file()`. -/
def isFile (s : ChildState) (path : String) : Bool := (s.hot path).isSome

def mountedRw (s : ChildState) : Bool := s.mounted.any (·.1 = .rw)

/-- `handle_commit` publishes: no writable mount, and something to commit. -/
def publishes (s : ChildState) : Bool :=
  !s.mountedRw &&
    match s.disk.writePolicy with
    | .sharedNfs => s.upperDirty
    | .localSsdAsync => s.mirror = some s.disk.generation

/-- The publisher: a dirty local upper becomes the latest mirror. -/
def publishMirror (s : ChildState) : ChildState :=
  match s.mounted with
  | some (.rw, base) =>
    if s.disk.writePolicy = .localSsdAsync ∧ s.localDirty then { s with mirror := some base } else s
  | _ => s

/-- What a commit cleans up: the sealed upper, or the mirror and the local upper. -/
def cleanup (s : ChildState) : ChildState :=
  match s.disk.writePolicy with
  | .sharedNfs => { s with upperDirty := false }
  | .localSsdAsync => { s with mirror := none, localDirty := false }

theorem publishMirror_toColdWorld (s : ChildState) :
    s.publishMirror.toColdWorld = s.toColdWorld := by
  unfold publishMirror
  repeat' split
  all_goals rfl

theorem cleanup_toColdWorld (s : ChildState) : s.cleanup.toColdWorld = s.toColdWorld := by
  unfold cleanup
  split <;> rfl

end ChildState

def overlayMode : WritePolicy → String
  | .sharedNfs => "shared-overlay"
  | .localSsdAsync => "local-ssd-async"

section Ops

variable (cfg : NodeConfig) (sha256 : Bytes → String) (dumps : ChildManifest → Bytes)

def builtFile (b : Bytes) : BuiltFile := { sha256 := sha256 b, size := b.length }

/-- Build a delta, verify it and publish the next generation. -/
def commitPack (b : Bytes) (w : ColdWorld) : ColdWorld :=
  let pack := deltaPack cfg (w.disk.generation + 1) (builtFile sha256 b)
  { w with
    hot := Function.update w.hot pack.path (some b)
    disk := committedManifest cfg w.disk pack (overlayMode w.disk.writePolicy) }

/-- Extract the selected packs, merge them, and publish the merged pack in their place. A pack
    without its file cannot be extracted, and a builder may raise: then nothing was written. -/
def compactPacks (c : CompactionCandidate) (built : Option Bytes) (w : ColdWorld) : ColdWorld :=
  if c.packs.all fun p => (w.hot p.path).isSome then
    match built with
    | none => w
    | some b =>
      let pack := compactedPack cfg w.disk c (builtFile sha256 b)
      let w' := { w with hot := Function.update w.hot pack.path (some b) }
      match mergedManifest w.disk c pack with
      | some v => { w' with disk := v }
      | none => w'
  else w

/-- `_ensure_hot`. -/
def ensureHot (stamp : String) (w : ColdWorld) : ColdWorld :=
  if needsRecall w.disk fun path => (w.hot path).isSome then
    (recallPacks sha256 w.disk cfg.packDir stamp w).1
  else { w with disk := markAccessed w.disk stamp }

/-- **One operation.** One that raises leaves what it had written. -/
def opStep (s : ChildState) : Op → ChildState
  | .ensureHot stamp => { s with toColdWorld := ensureHot cfg sha256 stamp s.toColdWorld }
  | .mount mode => { s with mounted := some (mode, s.disk.generation) }
  | .write =>
    if s.mountedRw then
      match s.disk.writePolicy with
      | .sharedNfs => { s with upperDirty := true }
      | .localSsdAsync => { s with localDirty := true }
    else s
  | .publish => s.publishMirror
  | .unmount => { s.publishMirror with mounted := none }
  | .envRun => { s with upperDirty := true }
  | .commit built =>
    if s.publishes then
      match built with
      | none => if s.disk.writePolicy = .sharedNfs then s.cleanup else s
      | some b => { s.cleanup with toColdWorld := commitPack cfg sha256 b s.toColdWorld }
    else s
  | .compact allowBase built =>
    match runnableCandidate cfg.levelPolicy s.disk allowBase with
    | some c => { s with toColdWorld := compactPacks cfg sha256 c built s.toColdWorld }
    | none => s
  | .mirror stamp =>
    if cfg.mirrorAfterCommit then
      { s with toColdWorld := (mirrorPacks dumps s.disk (cfg.coldPrefix s.disk.generation)
          cfg.backend stamp s.toColdWorld).1 }
    else s
  | .archive keepHot stamp =>
    if s.upperDirty || (!keepHot && s.mounted.isSome) then s
    else
      { s with toColdWorld := (archivePacks dumps s.disk (cfg.coldPrefix s.disk.generation)
          (!keepHot) cfg.backend stamp s.toColdWorld).1 }
  | .pin pinned => { s with disk := { s.disk with pinned := pinned } }

/-- A run of operations on the child. -/
abbrev OpRuns : ChildState → List (Lib.Trans ChildState Op) → ChildState → Prop :=
  Lib.Run fun s op t => some (opStep cfg sha256 dumps s op) = some t

end Ops

/-! ## 2. The invariant -/

/-- The manifest says that the packs are in cold storage only. -/
def ChildManifest.IsCold (m : ChildManifest) : Prop := m.coldStorage.packState = PACK_STATE_COLD

instance (m : ChildManifest) : Decidable m.IsCold :=
  inferInstanceAs (Decidable (m.coldStorage.packState = PACK_STATE_COLD))

/-- **A cold child is recallable**: the store holds every pack of the stack, as recorded. -/
def Recallable (sha256 : Bytes → String) (w : ColdWorld) : Prop :=
  w.disk.IsCold → ∀ p ∈ w.disk.lowers,
    ∃ b, w.store (packKey w.disk.coldStorage.uri p) = some b ∧ Matches sha256 p b

/-- Every pack has its hot file, as recorded. -/
def AllHot (sha256 : Bytes → String) (w : ColdWorld) : Prop :=
  ∀ p ∈ w.disk.lowers, ∃ b, w.hot p.path = some b ∧ Matches sha256 p b

/-- **The invariant**: cold, recallable and evicted, or not cold and all hot. -/
structure ColdInv (sha256 : Bytes → String) (w : ColdWorld) : Prop where
  recallable : Recallable sha256 w
  evicted : w.disk.IsCold → ∀ p ∈ w.disk.lowers, w.hot p.path = none
  present : ¬ w.disk.IsCold → AllHot sha256 w

section Inv

variable {cfg : NodeConfig} {sha256 : Bytes → String} {dumps : ChildManifest → Bytes}
variable {w : ColdWorld}

/-- A child that is not cold and all hot meets the invariant. -/
theorem ColdInv.of_hot (hc : ¬ w.disk.IsCold) (h : AllHot sha256 w) : ColdInv sha256 w :=
  ⟨fun hcold => absurd hcold hc, fun hcold => absurd hcold hc, fun _ => h⟩

/-- A cold child with its packs in the store and none hot meets the invariant. -/
theorem ColdInv.of_cold (hc : w.disk.IsCold)
    (hs : ∀ p ∈ w.disk.lowers,
      ∃ b, w.store (packKey w.disk.coldStorage.uri p) = some b ∧ Matches sha256 p b)
    (he : ∀ p ∈ w.disk.lowers, w.hot p.path = none) : ColdInv sha256 w :=
  ⟨fun _ => hs, fun _ => he, fun h => absurd hc h⟩

/-- A manifest with the same stack and the same cold state, the files and objects as they are. -/
theorem ColdInv.of_same {v : ChildManifest} (h : ColdInv sha256 w)
    (hl : v.lowers = w.disk.lowers)
    (hs : v.coldStorage.packState = w.disk.coldStorage.packState)
    (hu : v.coldStorage.uri = w.disk.coldStorage.uri) : ColdInv sha256 { w with disk := v } := by
  have hcold : v.IsCold ↔ w.disk.IsCold := by
    unfold ChildManifest.IsCold
    rw [hs]
  refine ⟨fun hc p hp => ?_, fun hc p hp => ?_, fun hc p hp => ?_⟩
  · rw [show ({ w with disk := v } : ColdWorld).disk.coldStorage.uri = _ from hu]
    exact h.recallable (hcold.mp hc) p (hl ▸ hp)
  · exact h.evicted (hcold.mp hc) p (hl ▸ hp)
  · exact h.present (fun hc' => hc (hcold.mpr hc')) p (hl ▸ hp)

/-- **Of a cold child no pack can be uploaded**, and nothing reaches the store. -/
theorem ColdInv.upload_cold (h : ColdInv sha256 w) (hc : w.disk.IsCold) {pre : String}
    (hne : w.disk.lowers ≠ []) : ∃ e, uploadPacks pre w.disk.lowers w = (w, .error e) := by
  cases hl : w.disk.lowers with
  | nil => exact absurd hl hne
  | cons pack packs =>
      refine ⟨_, uploadPacks_missing (h.evicted hc pack ?_)⟩
      rw [hl]
      exact List.mem_cons_self

/-- **After a complete upload** every pack is hot and in the store, as recorded. -/
theorem ColdInv.upload_ok (h : ColdInv sha256 w) (pre : String) (keys : List String)
    (hd : NamesDistinct w.disk.lowers) (hok : (uploadPacks pre w.disk.lowers w).2 = .ok keys) :
    AllHot sha256 w ∧ ∀ p ∈ w.disk.lowers,
      ∃ b, (uploadPacks pre w.disk.lowers w).1.store (packKey pre p) = some b ∧
        Matches sha256 p b := by
  by_cases hc : w.disk.IsCold
  · have hnil : w.disk.lowers = [] := by
      by_contra hne
      obtain ⟨e, he⟩ := h.upload_cold hc hne
      rw [he] at hok
      cases hok
    have hno : ∀ p, p ∉ w.disk.lowers := by
      rw [hnil]
      exact fun p => List.not_mem_nil
    exact ⟨fun p hp => absurd hp (hno p), fun p hp => absurd hp (hno p)⟩
  · refine ⟨h.present hc, fun p hp => ?_⟩
    obtain ⟨b, hb, hst⟩ := uploadPacks_spec hd hok p hp
    obtain ⟨b', hb', hm⟩ := h.present hc p hp
    cases hb.symm.trans hb'
    exact ⟨b, hst, hm⟩

/-- A failed upload, whatever it had put. -/
theorem ColdInv.upload_failed (h : ColdInv sha256 w) (pre : String) :
    ColdInv sha256 (uploadPacks pre w.disk.lowers w).1 := by
  by_cases hc : w.disk.IsCold
  · by_cases hne : w.disk.lowers = []
    · rw [hne]
      exact h
    · obtain ⟨e, he⟩ := h.upload_cold hc hne
      rw [he]
      exact h
  · refine .of_hot (by rw [uploadPacks_disk]; exact hc) fun p hp => ?_
    rw [uploadPacks_disk] at hp
    rw [uploadPacks_hot]
    exact h.present hc p hp

/-! ## 3. Every operation keeps it -/

theorem not_isCold_of_hot {m : ChildManifest} (h : m.coldStorage.packState = PACK_STATE_HOT) :
    ¬ m.IsCold := by
  unfold ChildManifest.IsCold
  rw [h]
  decide

theorem ColdInv.archive (h : ColdInv sha256 w) (hd : NamesDistinct w.disk.lowers)
    (pre : String) (removeHot : Bool) (backend stamp : String) :
    ColdInv sha256 (archivePacks dumps w.disk pre removeHot backend stamp w).1 := by
  have hfail := h.upload_failed pre
  have hok := fun keys => h.upload_ok pre keys hd
  have hhot : (uploadPacks pre w.disk.lowers w).1.hot = w.hot := uploadPacks_hot
  unfold archivePacks
  generalize uploadPacks pre w.disk.lowers w = r at hfail hok hhot
  obtain ⟨w', r⟩ := r
  cases r with
  | error e => exact hfail
  | ok keys =>
      obtain ⟨hall, hst⟩ := hok keys rfl
      simp only at hst hhot ⊢
      generalize hm : archivedManifest w.disk pre removeHot backend stamp = m
      have hl : m.lowers = w.disk.lowers := by rw [← hm, archivedManifest_lowers]
      have hu : m.coldStorage.uri = stripSlashes pre := by rw [← hm, archivedManifest_uri]
      have hs : m.coldStorage.packState = if removeHot then PACK_STATE_COLD else PACK_STATE_HOT := by
        rw [← hm, archivedManifest_packState]
      cases removeHot with
      | true =>
          rw [if_pos rfl] at hs ⊢
          refine .of_cold ?_ ?_ ?_
          · rw [evictPacks_disk]
            exact hs
          · intro p hp
            rw [evictPacks_disk] at hp ⊢
            obtain ⟨b, hb, hmb⟩ := hst p (hl ▸ hp)
            refine ⟨b, ?_, hmb⟩
            rw [evictPacks_store, hu, packKey_strip]
            dsimp only
            rw [Function.update_of_ne (manifestKey_ne_packKey pre p).symm]
            exact hb
          · intro p hp
            rw [evictPacks_disk] at hp
            exact evictPacks_spec p (hl ▸ hp)
      | false =>
          rw [if_neg Bool.false_ne_true] at hs ⊢
          refine .of_hot (not_isCold_of_hot hs) fun p hp => ?_
          obtain ⟨b, hb, hmb⟩ := hall p (hl ▸ hp)
          exact ⟨b, hhot ▸ hb, hmb⟩

theorem ColdInv.mirror (h : ColdInv sha256 w) (hd : NamesDistinct w.disk.lowers)
    (pre backend stamp : String) :
    ColdInv sha256 (mirrorPacks dumps w.disk pre backend stamp w).1 := by
  have hfail := h.upload_failed pre
  have hok := fun keys => h.upload_ok pre keys hd
  have hhot : (uploadPacks pre w.disk.lowers w).1.hot = w.hot := uploadPacks_hot
  unfold mirrorPacks
  generalize uploadPacks pre w.disk.lowers w = r at hfail hok hhot
  obtain ⟨w', r⟩ := r
  cases r with
  | error e => exact hfail
  | ok keys =>
      refine .of_hot (not_isCold_of_hot (mirroredManifest_packState ..)) fun p hp => ?_
      obtain ⟨b, hb, hmb⟩ := (hok keys rfl).1 p hp
      exact ⟨b, hhot ▸ hb, hmb⟩

/-- **A recall** publishes only packs it has verified. -/
theorem ColdInv.recall (h : ColdInv sha256 w) (hd : NamesDistinct w.disk.lowers)
    (hotDir stamp : String) : ColdInv sha256 (recallPacks sha256 w.disk hotDir stamp w).1 := by
  unfold recallPacks
  split
  · exact h
  · split
    · exact h
    · rename_i staged hstaged
      obtain ⟨hmap, hall⟩ := stagePacks_spec hstaged
      refine .of_hot (not_isCold_of_hot rfl) fun q hq => ?_
      obtain ⟨p, hp, rfl⟩ := List.mem_map.mp hq
      rw [← hmap] at hp hd
      obtain ⟨pb, hpb, rfl⟩ := List.mem_map.mp hp
      exact ⟨pb.2, publishStaged_spec hd pb hpb, hall pb hpb⟩

theorem ColdInv.ensureHot (h : ColdInv sha256 w) (hd : NamesDistinct w.disk.lowers)
    (stamp : String) : ColdInv sha256 (ensureHot cfg sha256 stamp w) := by
  unfold CccStorage.ensureHot
  split
  · exact h.recall hd cfg.packDir stamp
  · exact h.of_same rfl rfl rfl

theorem NamesDistinct.paths_nodup {packs : List PackInfo} (h : NamesDistinct packs) :
    (packs.map (·.path)).Nodup := by
  rw [List.Nodup, List.pairwise_map]
  exact h.imp fun hne hpath => hne (by rw [hpath])

/-- Of packs with distinct names, another one has another path. -/
theorem NamesDistinct.path_ne {packs : List PackInfo} {p : PackInfo}
    (h : NamesDistinct (packs ++ [p])) : ∀ q ∈ packs, q.path ≠ p.path := by
  intro q hq hpath
  exact (List.pairwise_append.mp h).2.2 q hq p (List.mem_singleton_self p) (by rw [hpath])

/-- A pack built as recorded joins an all-hot stack. -/
theorem AllHot.append {v : ChildManifest} {packs : List PackInfo} {pack : PackInfo} {b : Bytes}
    (h : ∀ p ∈ packs, ∃ b, w.hot p.path = some b ∧ Matches sha256 p b)
    (hl : v.lowers = packs ++ [pack]) (hd : NamesDistinct v.lowers) (hm : Matches sha256 pack b) :
    AllHot sha256 { w with hot := Function.update w.hot pack.path (some b), disk := v } := by
  intro p hp
  rw [show ({ w with hot := Function.update w.hot pack.path (some b), disk := v } :
    ColdWorld).disk.lowers = packs ++ [pack] from hl] at hp
  rw [hl] at hd
  rcases List.mem_append.mp hp with hp | hp
  · obtain ⟨b', hb', hm'⟩ := h p hp
    exact ⟨b', (Function.update_of_ne (hd.path_ne p hp) ..).trans hb', hm'⟩
  · rw [List.mem_singleton] at hp
    subst hp
    exact ⟨b, Function.update_self .., hm⟩

/-- **A commit on a child that is not cold** adds a hot pack. -/
theorem ColdInv.commit (h : ColdInv sha256 w) (hc : ¬ w.disk.IsCold) (b : Bytes)
    (hd : NamesDistinct (commitPack cfg sha256 b w).disk.lowers) :
    ColdInv sha256 (commitPack cfg sha256 b w) :=
  .of_hot hc (AllHot.append (h.present hc) rfl hd ⟨rfl, rfl⟩)

/-- **A compaction** of a cold child cannot extract its packs; of any other it adds a hot pack. -/
theorem ColdInv.compact (h : ColdInv sha256 w) {c : CompactionCandidate} {allowBase : Bool}
    (hcand : runnableCandidate cfg.levelPolicy w.disk allowBase = some c) (built : Option Bytes)
    (hd : NamesDistinct w.disk.lowers)
    (hd' : NamesDistinct (compactPacks cfg sha256 c built w).disk.lowers) :
    ColdInv sha256 (compactPacks cfg sha256 c built w) := by
  obtain ⟨pre, hm, hne⟩ := runnableCandidate_suffix hcand
  unfold compactPacks at hd' ⊢
  split at hd'
  · rename_i hfiles
    rw [if_pos hfiles]
    cases built with
    | none => exact h
    | some b =>
        set pack := compactedPack cfg w.disk c (builtFile sha256 b) with hpack
        have hmeta : withCompactionMetadata pack c.packs c.targetLevel = pack := rfl
        have hv := mergedManifest_suffix hm hne hd.paths_nodup hmeta
        simp only [← hpack, hv] at hd' ⊢
        have hc : ¬ w.disk.IsCold := by
          intro hc
          obtain ⟨p, hp⟩ := List.exists_mem_of_ne_nil _ hne
          have hsome := List.all_eq_true.mp hfiles p hp
          rw [h.evicted hc p (hm ▸ List.mem_append_right _ hp)] at hsome
          cases hsome
        refine .of_hot hc (AllHot.append (fun p hp => ?_) rfl hd' ⟨rfl, rfl⟩)
        exact h.present hc p (hm ▸ List.mem_append_left _ hp)
  · rename_i hfiles
    rw [if_neg hfiles]
    exact h

/-- **The condition**: a commit that publishes finds a child that is not cold. -/
def HotCommit (s : ChildState) : Op → Prop
  | .commit _ => s.publishes → ¬ s.disk.IsCold
  | _ => True

instance (s : ChildState) : (op : Op) → Decidable (HotCommit s op)
  | .commit _ => inferInstanceAs (Decidable (s.publishes → ¬ s.disk.IsCold))
  | .ensureHot _ | .mount _ | .write | .publish | .unmount | .envRun | .compact _ _ | .mirror _
  | .archive _ _ | .pin _ => inferInstanceAs (Decidable True)

/-- **Every operation keeps the invariant**, between states whose packs have distinct names. -/
theorem coldInv_step {s : ChildState} {op : Op} (h : ColdInv sha256 s.toColdWorld)
    (hd : NamesDistinct s.disk.lowers) (hd' : NamesDistinct (opStep cfg sha256 dumps s op).disk.lowers)
    (hc : HotCommit s op) : ColdInv sha256 (opStep cfg sha256 dumps s op).toColdWorld := by
  cases op with
  | ensureHot stamp => exact h.ensureHot hd stamp
  | mount mode => exact h
  | write =>
    simp only [opStep]
    repeat' split
    all_goals exact h
  | publish =>
    simp only [opStep]
    rw [s.publishMirror_toColdWorld]
    exact h
  | unmount =>
    have hsame : (opStep cfg sha256 dumps s .unmount).toColdWorld = s.publishMirror.toColdWorld := rfl
    rw [hsame, s.publishMirror_toColdWorld]
    exact h
  | envRun => exact h
  | commit built =>
    have hnc : s.publishes → ¬ s.disk.IsCold := hc
    simp only [opStep] at hd' ⊢
    split at hd'
    · rename_i hp
      rw [if_pos hp]
      cases built with
      | none =>
        simp only
        split
        · rw [s.cleanup_toColdWorld]
          exact h
        · exact h
      | some b => exact h.commit (hnc hp) b hd'
    · rename_i hp
      rw [if_neg hp]
      exact h
  | compact allowBase built =>
    simp only [opStep] at hd' ⊢
    split at hd'
    · rename_i c hcand
      exact h.compact hcand built hd hd'
    · exact h
  | mirror stamp =>
    simp only [opStep]
    split
    · exact h.mirror hd _ _ _
    · exact h
  | archive keepHot stamp =>
    simp only [opStep]
    split
    · exact h
    · exact h.archive hd _ _ _ _
  | pin pinned => exact h.of_same rfl rfl rfl

/-! ## 4. Runs -/

/-- **A cold child stays recallable**: from a child with all its packs hot, in every run whose
    publishing commits all find the child not cold, every state reached is recallable. -/
theorem recallable_of_hotCommits {s t : ChildState} {tr : List (Lib.Trans ChildState Op)}
    (h : OpRuns cfg sha256 dumps s tr t) (hot : ¬ s.disk.IsCold ∧ AllHot sha256 s.toColdWorld)
    (hd : NamesDistinct s.disk.lowers ∧ ∀ x ∈ tr, NamesDistinct x.post.disk.lowers)
    (hc : ∀ x ∈ tr, HotCommit x.pre x.ev) :
    Recallable sha256 t.toColdWorld ∧ ∀ x ∈ tr, Recallable sha256 x.post.toColdWorld := by
  have hinv := h.invariant
    (G := fun s op => HotCommit s op ∧ NamesDistinct (opStep cfg sha256 dumps s op).disk.lowers)
    (I := fun s => ColdInv sha256 s.toColdWorld ∧ NamesDistinct s.disk.lowers)
    ⟨.of_hot hot.1 hot.2, hd.1⟩
    (fun a op b ha hg hs => by
      cases hs
      exact ⟨coldInv_step ha.1 ha.2 hg.2 hg.1, hg.2⟩)
    (fun x hx => ⟨hc x hx, by rw [Option.some.inj (h.isStep x hx)]; exact hd.2 x hx⟩)
  exact ⟨hinv.1.1.recallable, fun x hx => (hinv.2 x hx).2.1.recallable⟩

end Inv

/-! ### Concrete runs -/

/-- A node with two small levels. -/
def coldNode : NodeConfig where
  levelPolicy := {
    levels := [⟨0, 1024⟩, ⟨1, 4⟩]
    nonempty := by decide
    increasing := by decide }
  packDir := "/nfs/packs/env"
  activeUpper := "/nfs/overlays/env/active"
  coldPrefix := fun generation => "ccc-storage/children/env/g" ++ pad4 generation

def baseFile : Bytes := [104, 115, 113, 115, 98, 97, 115, 101]

def deltaFile : Bytes := [104, 115, 113, 115]

/-- SHA-256 of the two pack files. -/
def packDigest (b : Bytes) : String :=
  if b = baseFile then "ac60402905d2656b9bd9f3ac355887f33b4d731089d22202c835b42ae96556dd"
  else if b = deltaFile then "53bff6664974960b06bcb260bd4b83494c04c71a62623bcadd7986c4d4adf3a1"
  else ""

/-- A clean child with one hot base pack and an empty store. -/
def hotChild : ChildState where
  disk := {
    id := "env"
    name := "env"
    type := "environment"
    generation := 1
    packStack := {
      activeRevision := "g1"
      lowers := [{
        path := "/nfs/packs/env/base.sqfs"
        sha256 := "ac60402905d2656b9bd9f3ac355887f33b4d731089d22202c835b42ae96556dd"
        size := 8 }] } }
  hot := Function.update (fun _ => none) "/nfs/packs/env/base.sqfs" (some baseFile)
  store := fun _ => none

theorem hotChild_allHot : AllHot packDigest hotChild.toColdWorld := by
  intro p hp
  obtain rfl := List.mem_singleton.mp hp
  exact ⟨baseFile, rfl, rfl, rfl⟩

/-- The run of a list of operations from `hotChild`. -/
def childRun (ops : List Op) : List (Lib.Trans ChildState Op) :=
  Lib.trace (fun s op => some (opStep coldNode packDigest (fun _ => []) s op)) hotChild ops

theorem childRun_runs (ops : List Op) :
    ∃ t, OpRuns coldNode packDigest (fun _ => []) hotChild (childRun ops) t :=
  Lib.Run.trace _ _ _

/-- Archive, recall for a transaction, commit it, archive again. -/
def recalledCommit : List Op :=
  [.archive false "2026-01-01T00:00:00Z", .ensureHot "2026-01-02T00:00:00Z", .envRun,
    .commit (some deltaFile), .archive false "2026-01-03T00:00:00Z"]

theorem recalledCommit_recallable :
    ∃ t, OpRuns coldNode packDigest (fun _ => []) hotChild (childRun recalledCommit) t ∧
      Recallable packDigest t.toColdWorld ∧
      ∀ x ∈ childRun recalledCommit, Recallable packDigest x.post.toColdWorld := by
  obtain ⟨t, h⟩ := childRun_runs recalledCommit
  exact ⟨t, h, recallable_of_hotCommits h ⟨by decide, hotChild_allHot⟩ ⟨by decide, by decide⟩
    (by decide)⟩

/-- Archive, and commit a transaction over the cold stack. -/
def coldCommit : List Op :=
  [.archive false "2026-01-01T00:00:00Z", .envRun, .commit (some deltaFile)]

/-- The transaction's delta joins a stack the manifest still calls cold, and no object has it. -/
theorem coldCommit_not_recallable :
    (∃ t, OpRuns coldNode packDigest (fun _ => []) hotChild (childRun coldCommit) t) ∧
      ¬ hotChild.disk.IsCold ∧ AllHot packDigest hotChild.toColdWorld ∧
      (∀ x ∈ childRun coldCommit, NamesDistinct x.post.disk.lowers) ∧
      ¬ ∀ x ∈ childRun coldCommit, Recallable packDigest x.post.toColdWorld := by
  refine ⟨childRun_runs _, by decide, hotChild_allHot, by decide, fun hall => ?_⟩
  have hrec := hall (childRun coldCommit)[2] (List.getElem_mem _) (by decide)
    (deltaPack coldNode 2 (builtFile packDigest deltaFile)) (by decide)
  obtain ⟨b, hb, -⟩ := hrec
  have hnone : (childRun coldCommit)[2].post.store
      (packKey (childRun coldCommit)[2].post.disk.coldStorage.uri
        (deltaPack coldNode 2 (builtFile packDigest deltaFile))) = none := by decide
  rw [hnone] at hb
  cases hb

end CccStorage
