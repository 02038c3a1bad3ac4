/-
  File:      CccStorage/SharedCommit.lean
  Subject:   Commits of one shared-NFS child by any number of calls on any nodes, step by step
             (`mountd/daemon.py`, `_commit_shared_nfs`, `_build_commit_from_source`).

  The shared root holds the manifest, the packs, the directories and the commit lock; every service
  keeps a registry of what it last loaded, which its threads share.

  * `Phase`, `runStep` -- where a call is, and its next step;
  * `CommitState`, `CommitEvent`, `commitStep` -- all calls, with the mounts and the application writes;
  * `StackHolds` -- where the stack has the deltas of a run;
  * `CommitInv`, `commitStep_inv` -- what every step keeps while calls read back what is on disk.
-/
import CccStorage.StackRuns
import CccStorage.Delta

namespace CccStorage

/-! ## 1. Calls -/

abbrev Node := Nat

abbrev CallId := Nat

/-- A directory, whatever its name is at the moment. -/
abbrev DirId := Nat

/-- What a call does next with the manifest it reads back from its registry. -/
inductive ReadPoint where
  /-- The dirty check before the lock. -/
  | check
  | sealUpper
  | compact
  | mirror
  | status
  deriving DecidableEq

/-- `reload_registry`, as its thread runs it. -/
inductive Reload where
  | scan
  | loaded (manifest : ChildManifest)
  | stored

inductive Phase where
  | idle
  | reload (next : ReadPoint) (r : Reload)
  | found (next : ReadPoint) (manifest : ChildManifest)
  | lock
  /-- The upper has been renamed, and its name is free. -/
  | recreate (manifest : ChildManifest) (dir : DirId)
  /-- `prepare_delta_source`: the paths still to be copied, and the copy. -/
  | copy (manifest : ChildManifest) (dir : DirId) (todo : List Path) (copied : List (Path × Entry))
  | dump (manifest : ChildManifest) (dir : DirId) (pack : PackInfo) (delta : Tree)
  | clean (dir : DirId)
  | dumpCompacted (manifest : ChildManifest)
  | release
  | done

/-- The call holds the commit lock. -/
def Phase.critical : Phase → Bool
  | .idle | .reload .check _ | .found .check _ | .lock | .done => false
  | _ => true

/-- The directory the call has sealed, until the manifest lists its delta. -/
def Phase.unpublished : Phase → Option DirId
  | .recreate _ dir | .copy _ dir _ _ | .dump _ dir _ _ => some dir
  | _ => none

/-- A delta that a manifest on disk has listed. -/
structure PublishedDelta where
  generation : Nat
  pack : PackInfo
  dir : DirId
  delta : Tree

/-- The shared root, the services and the calls. -/
structure CommitState where
  disk : ChildManifest
  packs : String → Option Tree
  dirs : DirId → Option Tree
  /-- The directory that the path of the active upper names. -/
  active : Option DirId
  nextDir : DirId
  lock : Option CallId
  /-- `self.children` of each service, for this child. -/
  registry : Node → Option ChildManifest
  /-- The directory each node's writable mount was given. -/
  mounts : Node → Option DirId
  phase : CallId → Phase
  /-- The uppers that were sealed, with what was in them. -/
  sealedUppers : List (DirId × Tree) := []
  /-- The paths the commits have built deltas at. -/
  builds : List String := []
  published : List PublishedDelta := []
  /-- What applications were told is written, by directory and path. -/
  acknowledged : DirId → Path → Option Bytes := fun _ _ => none

namespace CommitState

def setPhase (s : CommitState) (i : CallId) (p : Phase) : CommitState :=
  { s with phase := Function.update s.phase i p }

def store (s : CommitState) (n : Node) (m : Option ChildManifest) : CommitState :=
  { s with registry := Function.update s.registry n m }

/-- `ensure_active_upper`. -/
def ensureActive (s : CommitState) : CommitState :=
  match s.active with
  | some _ => s
  | none => { s with
      active := some s.nextDir
      dirs := Function.update s.dirs s.nextDir (some ⟨[]⟩)
      nextDir := s.nextDir + 1 }

def tree (s : CommitState) (d : DirId) : Tree := (s.dirs d).getD ⟨[]⟩

def activeTree (s : CommitState) : Tree := (s.active.map s.tree).getD ⟨[]⟩

end CommitState

/-- What the builders and the cold store answer to a step. -/
structure Answer where
  built : BuiltFile := { sha256 := "", size := 0 }
  merged : Tree := ⟨[]⟩
  cold : ColdStorageInfo := {}

/-! ## 2. One step of a call -/

/-- The services: the child's shared paths, and for every call its node and that node's
    settings. -/
structure Services where
  base : NodeConfig
  node : CallId → Node
  levelPolicy : CallId → LevelPolicy
  mirrorAfterCommit : CallId → Bool

def Services.cfg (v : Services) (i : CallId) : NodeConfig :=
  { v.base with levelPolicy := v.levelPolicy i, mirrorAfterCommit := v.mirrorAfterCommit i }

section Steps

variable (v : Services)

/-- The active upper moves under its sealed name; `move` after `ensure_active_upper`. -/
def sealActive (s : CommitState) (i : CallId) (m : ChildManifest) : CommitState :=
  match s.active with
  | some d => ({ s with
      active := none
      sealedUppers := s.sealedUppers ++ [(d, s.tree d)] }).setPhase i (.recreate m d)
  | none => s

/-- `build_delta` of what was copied, and `verify_pack`. -/
def buildDelta (s : CommitState) (i : CallId) (m : ChildManifest) (dir : DirId)
    (copied : List (Path × Entry)) (built : BuiltFile) : CommitState :=
  let pack := deltaPack (v.cfg i) (m.generation + 1) built
  ({ s with
    packs := Function.update s.packs pack.path (some ⟨copied⟩)
    builds := s.builds ++ [pack.path] }).setPhase i (.dump m dir pack ⟨copied⟩)

/-- `dump_atomic` of the committed manifest. -/
def dumpCommitted (s : CommitState) (i : CallId) (m : ChildManifest) (dir : DirId) (pack : PackInfo)
    (delta : Tree) : CommitState :=
  let new : PublishedDelta := ⟨m.generation + 1, pack, dir, delta⟩
  ({ s with
    disk := committedManifest (v.cfg i) m pack "shared-overlay"
    published := s.published ++ [new] }).setPhase i (.clean dir)

/-- `_compact_if_needed` up to its `dump_atomic`; `none` where publishing raises. -/
def compactAfterCommit (s : CommitState) (i : CallId) (m : ChildManifest) (a : Answer) :
    Option CommitState :=
  match postCommitCandidate (v.cfg i) m with
  | none => some (s.setPhase i (.found .mirror m))
  | some c =>
    let pack := compactedPack (v.cfg i) m c a.built
    (mergedManifest m c pack).map fun m' =>
      ({ s with packs := Function.update s.packs pack.path (some a.merged) }).setPhase i
        (.dumpCompacted m')

/-- **The next step of a call**; `none` where it has ended, or would raise. -/
def runStep (s : CommitState) (i : CallId) (a : Answer) : Option CommitState :=
  match s.phase i with
  | .idle | .done => none
  | .reload next .scan => some ((s.store (v.node i) none).setPhase i (.reload next (.loaded s.disk)))
  | .reload next (.loaded m) => some ((s.store (v.node i) (some m)).setPhase i (.reload next .stored))
  | .reload next .stored =>
    (s.registry (v.node i)).map fun m => s.setPhase i (.found next m)
  | .found .check _ =>
    let s := s.ensureActive
    some (s.setPhase i (if (dirtyStats s.activeTree).dirty then .lock else .done))
  | .lock =>
    match s.lock with
    | some _ => some (s.setPhase i .done)
    | none => some (({ s with lock := some i }).setPhase i (.reload .sealUpper .scan))
  | .found .sealUpper m => some (sealActive s.ensureActive i m)
  | .recreate m dir =>
    let s := s.ensureActive
    some (s.setPhase i (.copy m dir ((s.tree dir).nodes.map (·.1)) []))
  | .copy m dir (p :: todo) copied =>
    let entry := ((s.tree dir).nodes.lookup p).filter (·.isCopied)
    some (s.setPhase i (.copy m dir todo (copied ++ (entry.map fun e => (p, e)).toList)))
  | .copy m dir [] copied => some (buildDelta v s i m dir copied a.built)
  | .dump m dir pack delta => some (dumpCommitted v s i m dir pack delta)
  | .clean dir =>
    some (({ s with dirs := Function.update s.dirs dir none }).setPhase i (.reload .compact .scan))
  | .found .compact m => compactAfterCommit v s i m a
  | .dumpCompacted m => some (({ s with disk := m }).setPhase i (.reload .mirror .scan))
  | .found .mirror m =>
    if (v.cfg i).mirrorAfterCommit then
      some (({ s with disk := { m with coldStorage := a.cold } }).setPhase i (.reload .status .scan))
    else some (s.setPhase i .release)
  | .found .status _ => some (s.setPhase i .release)
  | .release => some (({ s with lock := none }).setPhase i .done)

/-! ## 3. All calls -/

inductive CommitEvent where
  /-- A call of `handle_commit`. -/
  | handleCommit (i : CallId)
  /-- A call of `_commit_shared_nfs`. -/
  | commitSharedNfs (i : CallId)
  | step (i : CallId) (a : Answer)
  | mountRw (n : Node)
  | unmount (n : Node)
  /-- An application writes a file through the mount of a node, and is told so. -/
  | write (n : Node) (path : Path) (content : Bytes)

/-- A write lands in the directory the mount was given, while that exists. -/
def writeFile (s : CommitState) (n : Node) (path : Path) (content : Bytes) : Option CommitState :=
  match s.mounts n with
  | none => none
  | some d => (s.dirs d).map fun t =>
    { s with
      dirs := Function.update s.dirs d (some (t.set path (.file content)))
      acknowledged := Function.update s.acknowledged d
        (Function.update (s.acknowledged d) path (some content)) }

def commitStep (s : CommitState) : CommitEvent → Option CommitState
  | .handleCommit i =>
    match s.phase i with
    | .idle =>
      some (s.setPhase i (if (s.mounts (v.node i)).isSome then .done else .reload .check .scan))
    | _ => none
  | .commitSharedNfs i =>
    match s.phase i with
    | .idle => some (s.setPhase i (.reload .check .scan))
    | _ => none
  | .step i a => runStep v s i a
  | .mountRw n =>
    match s.mounts n with
    | some _ => some s
    | none =>
      let s := s.ensureActive
      some { s with mounts := Function.update s.mounts n s.active }
  | .unmount n => some { s with mounts := Function.update s.mounts n none }
  | .write n path content => writeFile s n path content

end Steps

/-! ## 4. Where the published deltas are -/

/-- **What a pack holds of the deltas of a run**: nothing, itself, or those of the range it was
    merged from. -/
inductive PackHolds : List PublishedDelta → PackInfo → Prop where
  | older (pack : PackInfo) : PackHolds [] pack
  | delta (x : PublishedDelta) : PackHolds [x] x.pack
  | compacted {xs : List PublishedDelta} {pack : PackInfo} (hkind : pack.kind = "compact")
      (hrange : ∀ x ∈ xs, 1 ≤ pack.generationMin ∧ pack.generationMin ≤ x.generation ∧
        x.generation ≤ pack.generationMax) : PackHolds xs pack

/-- **The stack holds the deltas in order**, each in one pack. -/
def StackHolds (lowers : List PackInfo) (xs : List PublishedDelta) : Prop :=
  ∃ parts, List.Forall₂ PackHolds parts lowers ∧ parts.flatten = xs

section Holds

variable {lowers older group : List PackInfo} {xs : List PublishedDelta} {x : PublishedDelta}
  {pack : PackInfo}

theorem StackHolds.none (lowers : List PackInfo) : StackHolds lowers [] := by
  induction lowers with
  | nil => exact ⟨[], .nil, rfl⟩
  | cons pack lowers ih =>
      obtain ⟨parts, hparts, hflat⟩ := ih
      exact ⟨[] :: parts, .cons (.older pack) hparts, hflat⟩

theorem StackHolds.concat (h : StackHolds lowers xs) :
    StackHolds (lowers ++ [x.pack]) (xs ++ [x]) := by
  obtain ⟨parts, hparts, hflat⟩ := h
  refine ⟨parts ++ [[x]], List.rel_append hparts (.cons (.delta x) .nil), ?_⟩
  rw [List.flatten_append, hflat]
  rfl

theorem generationMin_le (hmem : pack ∈ group) (hpos : 1 ≤ pack.generationMin) :
    1 ≤ generationMin group ∧ generationMin group ≤ pack.generationMin := by
  have hin : pack.generationMin ∈ (group.map (·.generationMin)).filter (· ≠ 0) :=
    List.mem_filter.mpr ⟨List.mem_map_of_mem hmem, by simp only [ne_eq, decide_eq_true_eq]; omega⟩
  obtain ⟨least, hleast⟩ := Option.ne_none_iff_exists'.mp
    (mt List.min?_eq_none_iff.mp (List.ne_nil_of_mem hin))
  obtain ⟨hmin, hle⟩ := List.min?_eq_some_iff.mp hleast
  have hne := (List.mem_filter.mp hmin).2
  simp only [ne_eq, decide_eq_true_eq] at hne
  unfold generationMin
  rw [hleast, Option.getD_some]
  exact ⟨by omega, hle _ hin⟩

theorem le_generationMax (hmem : pack ∈ group) (hpos : 1 ≤ pack.generationMax) :
    pack.generationMax ≤ generationMax group := by
  have hin : pack.generationMax ∈ (group.map (·.generationMax)).filter (· ≠ 0) :=
    List.mem_filter.mpr ⟨List.mem_map_of_mem hmem, by simp only [ne_eq, decide_eq_true_eq]; omega⟩
  obtain ⟨greatest, hgreatest⟩ := Option.ne_none_iff_exists'.mp
    (mt List.max?_eq_none_iff.mp (List.ne_nil_of_mem hin))
  unfold generationMax
  rw [hgreatest, Option.getD_some]
  exact (List.max?_eq_some_iff.mp hgreatest).2 _ hin

/-- A pack that holds a delta covers its generation. -/
theorem PackHolds.range {part : List PublishedDelta} (h : PackHolds part pack) (hx : x ∈ part)
    (hself : 1 ≤ x.generation ∧ x.pack.generationMin = x.generation ∧
      x.pack.generationMax = x.generation) :
    1 ≤ pack.generationMin ∧ pack.generationMin ≤ x.generation ∧
      x.generation ≤ pack.generationMax := by
  cases h with
  | older => cases hx
  | delta y =>
    obtain rfl := List.mem_singleton.mp hx
    omega
  | compacted _ hrange => exact hrange x hx

/-- **A compaction keeps them**: the merged pack holds what its group held. -/
theorem StackHolds.compact (h : StackHolds (older ++ group) xs)
    (hself : ∀ x ∈ xs, 1 ≤ x.generation ∧ x.pack.generationMin = x.generation ∧
      x.pack.generationMax = x.generation)
    (hkind : pack.kind = "compact") (hmin : pack.generationMin = generationMin group)
    (hmax : pack.generationMax = generationMax group) : StackHolds (older ++ [pack]) xs := by
  obtain ⟨parts, hparts, hflat⟩ := h
  have hfront := List.forall₂_take_append parts older group hparts
  have hback := List.forall₂_drop_append parts older group hparts
  have hsplit := List.take_append_drop older.length parts
  refine ⟨parts.take older.length ++ [(parts.drop older.length).flatten],
    List.rel_append hfront (.cons (.compacted hkind fun x hx => ?_) .nil), ?_⟩
  · obtain ⟨part, hpart, hx⟩ := List.mem_flatten.mp hx
    have hmem : x ∈ xs := by
      rw [← hflat]
      exact List.mem_flatten.mpr ⟨part, List.mem_of_mem_drop hpart, hx⟩
    obtain ⟨i, hi, hget⟩ := List.mem_iff_getElem.mp hpart
    have hi' : i < group.length := hback.length_eq ▸ hi
    have hholds : PackHolds (parts.drop older.length)[i] group[i] :=
      (List.forall₂_iff_get.mp hback).2 i hi hi'
    rw [hget] at hholds
    obtain ⟨h1, h2, h3⟩ := hholds.range hx (hself x hmem)
    have hin : group[i] ∈ group := List.getElem_mem hi'
    have hle := generationMin_le hin h1
    have hge := le_generationMax hin (by omega)
    omega
  · rw [List.flatten_append, ← hflat, List.flatten_singleton, ← List.flatten_append, hsplit]

end Holds

/-! ## 5. The invariant -/

namespace CommitState

/-- Every sealed upper is published, and every built delta. -/
def Settled (s : CommitState) : Prop :=
  s.sealedUppers.map (·.1) = s.published.map (·.dir) ∧
    s.builds = s.published.map (·.pack.path)

/-- Every sealed upper is published but for the last, `dir`. -/
def InCommit (s : CommitState) (dir : DirId) : Prop :=
  s.sealedUppers.map (·.1) = s.published.map (·.dir) ++ [dir] ∧
    s.builds = s.published.map (·.pack.path)

/-- Its delta has been built as the pack of the next generation. -/
def Built (v : Services) (s : CommitState) (dir : DirId) (pack : PackInfo) (delta : Tree) : Prop :=
  s.sealedUppers.map (·.1) = s.published.map (·.dir) ++ [dir] ∧
    s.builds = s.published.map (·.pack.path) ++ [pack.path] ∧
    (∃ i built, pack = deltaPack (v.cfg i) (s.disk.generation + 1) built) ∧
    s.packs pack.path = some delta

/-- `merged` is the manifest on disk with its newest packs merged into one. -/
def Compacted (s : CommitState) (merged : ChildManifest) : Prop :=
  merged.generation = s.disk.generation ∧
    ∃ older group pack, s.disk.lowers = older ++ group ∧ merged.lowers = older ++ [pack] ∧
      pack.kind = "compact" ∧ pack.generationMin = CccStorage.generationMin group ∧
      pack.generationMax = CccStorage.generationMax group

/-- What the holder of the lock is doing. -/
def held (s : CommitState) : Phase := (s.lock.map s.phase).getD .idle

/-- What holds at each point of the holder. -/
def HolderInv (v : Services) (s : CommitState) : Phase → Prop
  | .found next m => (next = .check ∨ m = s.disk) ∧ s.Settled
  | .recreate m dir | .copy m dir _ _ => m = s.disk ∧ s.InCommit dir
  | .dump m dir pack delta => m = s.disk ∧ s.Built v dir pack delta
  | .dumpCompacted merged => s.Settled ∧ s.Compacted merged
  | _ => s.Settled

end CommitState

/-- **The invariant of all commits**, from the manifest at the start. -/
structure CommitInv (v : Services) (start : ChildManifest) (s : CommitState) : Prop where
  exclusive : ∀ i, (s.phase i).critical = true → s.lock = some i
  holder : s.HolderInv v s.held
  current : s.disk.generation = start.generation + s.published.length
  consecutive : s.published.map (·.generation) =
    List.range' (start.generation + 1) s.published.length
  named : ∀ x ∈ s.published, ∃ i built, x.pack = deltaPack (v.cfg i) x.generation built
  stack : StackHolds s.disk.lowers s.published
  stored : ∀ x ∈ s.published, s.packs x.pack.path = some x.delta
  activeNew : ∀ d, s.active = some d → d < s.nextDir ∧ d ∉ s.sealedUppers.map (·.1)
  sealedOld : ∀ d ∈ s.sealedUppers.map (·.1), d < s.nextDir
  sealedOnce : (s.sealedUppers.map (·.1)).Nodup

/-- Which call reads back from its registry in a step, and what for. -/
def readsBack (s : CommitState) : CommitEvent → Option (CallId × ReadPoint)
  | .step i _ =>
    match s.phase i with
    | .reload next .stored => some (i, next)
    | _ => none
  | _ => none

/-- **Every call reads back what is on disk**: where a call that holds the lock takes the manifest
    from its service's registry, no other thread has stored an older one there. -/
def ReadsDisk (v : Services) (s : CommitState) (e : CommitEvent) : Prop :=
  ∀ x ∈ readsBack s e, x.2 ≠ .check → s.registry (v.node x.1) = some s.disk

instance (v : Services) (s : CommitState) (e : CommitEvent) : Decidable (ReadsDisk v s e) :=
  inferInstanceAs (Decidable (∀ x ∈ readsBack s e, x.2 ≠ .check → _ = _))

section Inv

variable {v : Services} {start : ChildManifest} {s s' : CommitState} {i : CallId} {p : Phase}

theorem CommitState.HolderInv.settled (h : s.HolderInv v p) (hp : p.critical = false) :
    s.Settled := by
  cases p with
  | found next m => exact h.2
  | idle | reload _ _ | lock | done => exact h
  | recreate | copy | dump | clean | dumpCompacted | release => cases hp

theorem CommitState.HolderInv.of_settled (h : s.Settled) (hp : p.critical = false) :
    s.HolderInv v p := by
  cases p with
  | found next m =>
      refine ⟨.inl ?_, h⟩
      cases next with
      | check => rfl
      | sealUpper | compact | mirror | status => cases hp
  | idle | reload _ _ | lock | done => exact h
  | recreate | copy | dump | clean | dumpCompacted | release => cases hp

theorem CommitInv.held_eq (h : CommitInv v start s) (hp : (s.phase i).critical = true) :
    s.held = s.phase i := by
  unfold CommitState.held
  rw [h.exclusive i hp]
  rfl

/-- The published generations are positive and not above the manifest's. -/
theorem CommitInv.generation_le (h : CommitInv v start s) {x : PublishedDelta}
    (hx : x ∈ s.published) : 1 ≤ x.generation ∧ x.generation ≤ s.disk.generation := by
  have hmem : x.generation ∈ s.published.map (·.generation) := List.mem_map_of_mem hx
  rw [h.consecutive, List.mem_range'_1] at hmem
  have hcur := h.current
  omega

theorem CommitInv.selfRange (h : CommitInv v start s) : ∀ x ∈ s.published, 1 ≤ x.generation ∧
    x.pack.generationMin = x.generation ∧ x.pack.generationMax = x.generation := by
  intro x hx
  obtain ⟨j, built, hpack⟩ := h.named x hx
  rw [hpack]
  exact ⟨(h.generation_le hx).1, rfl, rfl⟩

theorem CommitInv.path_eq (h : CommitInv v start s) {x : PublishedDelta} (hx : x ∈ s.published) :
    x.pack.path = deltaPath v.base.packDir x.generation := by
  obtain ⟨j, built, hpack⟩ := h.named x hx
  rw [hpack]
  rfl

/-! ### Steps outside the lock -/

theorem holderInv_congr (hdisk : s'.disk = s.disk) (hpacks : s'.packs = s.packs)
    (hsealed : s'.sealedUppers = s.sealedUppers) (hbuilds : s'.builds = s.builds)
    (hpub : s'.published = s.published) (h : s.HolderInv v p) : s'.HolderInv v p := by
  have hsettled : s.Settled → s'.Settled := by
    unfold CommitState.Settled
    rw [hsealed, hbuilds, hpub]
    exact id
  have hcommit : ∀ dir, s.InCommit dir → s'.InCommit dir := by
    intro dir
    unfold CommitState.InCommit
    rw [hsealed, hbuilds, hpub]
    exact id
  cases p with
  | found next m => exact ⟨hdisk ▸ h.1, hsettled h.2⟩
  | recreate m dir => exact ⟨hdisk ▸ h.1, hcommit dir h.2⟩
  | copy m dir todo copied => exact ⟨hdisk ▸ h.1, hcommit dir h.2⟩
  | dump m dir pack delta =>
      refine ⟨hdisk ▸ h.1, ?_⟩
      unfold CommitState.Built
      rw [hsealed, hbuilds, hpub, hdisk, hpacks]
      exact h.2
  | dumpCompacted m =>
      refine ⟨hsettled h.1, ?_⟩
      unfold CommitState.Compacted
      rw [hdisk]
      exact h.2
  | idle | reload _ _ | lock | clean _ | release | done => exact hsettled h

/-- **A step outside the lock** keeps the invariant: it moves its own call, and the directories
    under the path of the active upper. -/
theorem CommitInv.outside (h : CommitInv v start s) (hdisk : s'.disk = s.disk)
    (hpacks : s'.packs = s.packs) (hlock : s'.lock = s.lock)
    (hsealed : s'.sealedUppers = s.sealedUppers) (hbuilds : s'.builds = s.builds)
    (hpub : s'.published = s.published) (hnext : s.nextDir ≤ s'.nextDir)
    (hactive : ∀ d, s'.active = some d → d < s'.nextDir ∧ d ∉ s.sealedUppers.map (·.1))
    (hphase : ∀ j, s'.phase j = s.phase j ∨
      (s.phase j).critical = false ∧ (s'.phase j).critical = false) : CommitInv v start s' where
  exclusive := by
    intro j hj
    rcases hphase j with heq | ⟨-, hnot⟩
    · rw [hlock]
      exact h.exclusive j (heq ▸ hj)
    · rw [hnot] at hj
      cases hj
  holder := by
    refine holderInv_congr hdisk hpacks hsealed hbuilds hpub ?_
    have hold := h.holder
    unfold CommitState.held at hold ⊢
    rw [hlock]
    cases hl : s.lock with
    | none =>
        rw [hl] at hold
        exact hold
    | some j =>
        rw [hl] at hold
        rcases hphase j with heq | ⟨hbefore, hafter⟩
        · show s.HolderInv v (s'.phase j)
          rw [heq]
          exact hold
        · have hsettled : s.Settled := CommitState.HolderInv.settled hold hbefore
          exact .of_settled hsettled hafter
  current := by
    rw [hdisk, hpub]
    exact h.current
  consecutive := by
    rw [hpub]
    exact h.consecutive
  named := by
    rw [hpub]
    exact h.named
  stack := by
    rw [hdisk, hpub]
    exact h.stack
  stored := by
    rw [hpub, hpacks]
    exact h.stored
  activeNew := by
    rw [hsealed]
    exact hactive
  sealedOld := by
    rw [hsealed]
    exact fun d hd => lt_of_lt_of_le (h.sealedOld d hd) hnext
  sealedOnce := by
    rw [hsealed]
    exact h.sealedOnce

@[simp] theorem ensureActive_phase (s : CommitState) : s.ensureActive.phase = s.phase := by
  unfold CommitState.ensureActive
  split <;> rfl

/-- The active upper exists afterwards, as it was or new and empty. -/
theorem CommitInv.ensureActive (h : CommitInv v start s) : CommitInv v start s.ensureActive := by
  unfold CommitState.ensureActive
  cases ha : s.active with
  | some d => exact h
  | none =>
      refine h.outside rfl rfl rfl rfl rfl rfl (Nat.le_succ _) ?_ fun _ => .inl rfl
      intro d hd
      obtain rfl : s.nextDir = d := Option.some.inj hd
      exact ⟨Nat.lt_succ_self _, fun hmem => absurd (h.sealedOld _ hmem) (lt_irrefl _)⟩

/-- A call outside the lock moves on. -/
theorem CommitInv.setOutside (h : CommitInv v start s) (hi : (s.phase i).critical = false)
    (hp : p.critical = false) : CommitInv v start (s.setPhase i p) := by
  refine h.outside rfl rfl rfl rfl rfl rfl le_rfl h.activeNew fun j => ?_
  by_cases hj : j = i
  · subst hj
    refine .inr ⟨hi, ?_⟩
    show (Function.update s.phase j p j).critical = false
    rw [Function.update_self]
    exact hp
  · exact .inl (Function.update_of_ne hj _ _)

/-- The registry belongs to no invariant. -/
theorem CommitInv.store (h : CommitInv v start s) (n : Node) (m : Option ChildManifest) :
    CommitInv v start (s.store n m) :=
  h.outside rfl rfl rfl rfl rfl rfl le_rfl h.activeNew fun _ => .inl rfl

theorem CommitInv.writeFile (h : CommitInv v start s) {n : Node} {path : Path} {content : Bytes}
    (hw : writeFile s n path content = some s') : CommitInv v start s' := by
  unfold CccStorage.writeFile at hw
  split at hw
  · cases hw
  · obtain ⟨t, -, rfl⟩ := Option.map_eq_some_iff.mp hw
    exact h.outside rfl rfl rfl rfl rfl rfl le_rfl h.activeNew fun _ => .inl rfl

/-! ### Steps under the lock -/

theorem CommitInv.exclusive_update (h : CommitInv v start s) (hi : (s.phase i).critical = true)
    (p : Phase) : ∀ j, (Function.update s.phase i p j).critical = true → s.lock = some j := by
  intro j hj
  by_cases hji : j = i
  · rw [hji]
    exact h.exclusive i hi
  · rw [Function.update_of_ne hji] at hj
    exact h.exclusive j hj

theorem held_setPhase (hl : s.lock = some i) : (s.setPhase i p).held = p := by
  unfold CommitState.held
  show (s.lock.map (Function.update s.phase i p)).getD .idle = p
  rw [hl]
  exact Function.update_self ..

/-- **A step of the holder** that dumps no manifest and seals nothing. -/
theorem CommitInv.inside (h : CommitInv v start s) (hi : (s.phase i).critical = true)
    (hdisk : s'.disk = s.disk) (hlock : s'.lock = s.lock)
    (hsealed : s'.sealedUppers = s.sealedUppers) (hpub : s'.published = s.published)
    (hactive : s'.active = s.active) (hnext : s'.nextDir = s.nextDir)
    (hphase : s'.phase = Function.update s.phase i p)
    (hstored : ∀ x ∈ s.published, s'.packs x.pack.path = some x.delta)
    (hholder : s'.HolderInv v p) : CommitInv v start s' where
  exclusive := by
    rw [hlock, hphase]
    exact h.exclusive_update hi p
  holder := by
    have hheld : s'.held = p := by
      unfold CommitState.held
      rw [hlock, h.exclusive i hi, hphase]
      exact Function.update_self ..
    rw [hheld]
    exact hholder
  current := by
    rw [hdisk, hpub]
    exact h.current
  consecutive := by
    rw [hpub]
    exact h.consecutive
  named := by
    rw [hpub]
    exact h.named
  stack := by
    rw [hdisk, hpub]
    exact h.stack
  stored := by
    rw [hpub]
    exact hstored
  activeNew := by
    rw [hactive, hnext, hsealed]
    exact h.activeNew
  sealedOld := by
    rw [hsealed, hnext]
    exact h.sealedOld
  sealedOnce := by
    rw [hsealed]
    exact h.sealedOnce

/-- The holder moves on. -/
theorem CommitInv.setInside (h : CommitInv v start s) (hi : (s.phase i).critical = true)
    (hholder : s.HolderInv v p) : CommitInv v start (s.setPhase i p) :=
  h.inside hi rfl rfl rfl rfl rfl rfl rfl h.stored
    (holderInv_congr rfl rfl rfl rfl rfl hholder)

/-- **The manifest on disk is replaced** by one of the same generation whose stack holds the
    deltas. -/
theorem CommitInv.dumpSame (h : CommitInv v start s) (hi : (s.phase i).critical = true)
    {m : ChildManifest} {next : ReadPoint} (hsettled : s.Settled)
    (hg : m.generation = s.disk.generation) (hstack : StackHolds m.lowers s.published) :
    CommitInv v start (({ s with disk := m }).setPhase i (.reload next .scan)) where
  exclusive := h.exclusive_update hi _
  holder := by
    have hheld : (({ s with disk := m }).setPhase i (.reload next .scan)).held =
        .reload next .scan := held_setPhase (h.exclusive i hi)
    rw [hheld]
    exact hsettled
  current := hg.trans h.current
  consecutive := h.consecutive
  named := h.named
  stack := hstack
  stored := h.stored
  activeNew := h.activeNew
  sealedOld := h.sealedOld
  sealedOnce := h.sealedOnce

/-- The lock is taken. -/
theorem CommitInv.acquire (h : CommitInv v start s) (hl : s.lock = none) :
    CommitInv v start (({ s with lock := some i }).setPhase i (.reload .sealUpper .scan)) where
  exclusive := by
    intro j hj
    by_cases hji : j = i
    · rw [hji]
      rfl
    · have hnone := h.exclusive j (by
        rw [← Function.update_of_ne hji (Phase.reload .sealUpper .scan) s.phase]
        exact hj)
      rw [hl] at hnone
      cases hnone
  holder := by
    have hsettled := h.holder
    unfold CommitState.held at hsettled
    rw [hl] at hsettled
    have hheld : (({ s with lock := some i }).setPhase i (.reload .sealUpper .scan)).held =
        .reload .sealUpper .scan := held_setPhase rfl
    rw [hheld]
    exact hsettled
  current := h.current
  consecutive := h.consecutive
  named := h.named
  stack := h.stack
  stored := h.stored
  activeNew := h.activeNew
  sealedOld := h.sealedOld
  sealedOnce := h.sealedOnce

/-- The lock is released. -/
theorem CommitInv.release (h : CommitInv v start s) (hi : (s.phase i).critical = true)
    (hsettled : s.Settled) :
    CommitInv v start (({ s with lock := none }).setPhase i .done) where
  exclusive := by
    intro j hj
    by_cases hji : j = i
    · subst hji
      have hdone : (Function.update s.phase j .done j).critical = true := hj
      rw [Function.update_self] at hdone
      cases hdone
    · have hlock := h.exclusive j (by
        rw [← Function.update_of_ne hji Phase.done s.phase]
        exact hj)
      rw [h.exclusive i hi] at hlock
      exact absurd (Option.some.inj hlock).symm hji
  holder := hsettled
  current := h.current
  consecutive := h.consecutive
  named := h.named
  stack := h.stack
  stored := h.stored
  activeNew := h.activeNew
  sealedOld := h.sealedOld
  sealedOnce := h.sealedOnce

/-- **The active upper is sealed**: no commit has sealed that directory before. -/
theorem CommitInv.sealActive (h : CommitInv v start s) (hi : (s.phase i).critical = true)
    (hsettled : s.Settled) : CommitInv v start (sealActive s i s.disk) := by
  unfold CccStorage.sealActive
  cases ha : s.active with
  | none => exact h
  | some d =>
      obtain ⟨hlt, hnew⟩ := h.activeNew d ha
      have hmap : (s.sealedUppers ++ [(d, s.tree d)]).map (·.1) =
          s.sealedUppers.map (·.1) ++ [d] := by
        rw [List.map_append]
        rfl
      have hheld : (({ s with
          active := none
          sealedUppers := s.sealedUppers ++ [(d, s.tree d)] }).setPhase i
            (.recreate s.disk d)).held = .recreate s.disk d := held_setPhase (h.exclusive i hi)
      exact {
        exclusive := h.exclusive_update hi _
        holder := by
          show CommitState.HolderInv v _ (CommitState.held _)
          rw [hheld]
          refine ⟨rfl, ?_, hsettled.2⟩
          show (s.sealedUppers ++ [(d, s.tree d)]).map (·.1) = _
          rw [hmap, hsettled.1]
          rfl
        current := h.current
        consecutive := h.consecutive
        named := h.named
        stack := h.stack
        stored := h.stored
        activeNew := fun _ hnone => nomatch hnone
        sealedOld := by
          intro x hx
          have hx' : x ∈ s.sealedUppers.map (·.1) ++ [d] := hmap ▸ hx
          rcases List.mem_append.mp hx' with hx' | hx'
          · exact h.sealedOld x hx'
          · rw [List.mem_singleton.mp hx']
            exact hlt
        sealedOnce := by
          show ((s.sealedUppers ++ [(d, s.tree d)]).map (·.1)).Nodup
          rw [hmap]
          exact List.nodup_append'.mpr ⟨h.sealedOnce, List.nodup_singleton d, fun x hx hd =>
            hnew (List.mem_singleton.mp hd ▸ hx)⟩ }

theorem deltaPath_inj {packDir : String} {a b : Nat} (h : deltaPath packDir a = deltaPath packDir b) :
    a = b := deltaName_inj (pathJoin_inj h)

/-- **A delta is built** at the path of the next generation, which no published delta has. -/
theorem CommitInv.buildDelta (h : CommitInv v start s) (hi : (s.phase i).critical = true)
    {dir : DirId} (hcommit : s.InCommit dir) (copied : List (Path × Entry)) (built : BuiltFile) :
    CommitInv v start (buildDelta v s i s.disk dir copied built) := by
  have hpath : (deltaPack (v.cfg i) (s.disk.generation + 1) built).path =
      deltaPath v.base.packDir (s.disk.generation + 1) := rfl
  refine h.inside hi rfl rfl rfl rfl rfl rfl rfl (fun x hx => ?_)
    ⟨rfl, hcommit.1, ?_, ⟨i, built, rfl⟩, Function.update_self ..⟩
  · have hne : x.pack.path ≠ (deltaPack (v.cfg i) (s.disk.generation + 1) built).path := by
      rw [h.path_eq hx, hpath]
      intro heq
      have hgen := deltaPath_inj heq
      have hle := (h.generation_le hx).2
      omega
    exact (Function.update_of_ne hne _ _).trans (h.stored x hx)
  · show s.builds ++ [_] = s.published.map (·.pack.path) ++ [_]
    rw [hcommit.2]

/-- **A delta is published** as the next generation. -/
theorem CommitInv.dumpCommitted (h : CommitInv v start s) (hi : (s.phase i).critical = true)
    {dir : DirId} {pack : PackInfo} {delta : Tree} (hbuilt : s.Built v dir pack delta) :
    CommitInv v start (dumpCommitted v s i s.disk dir pack delta) := by
  obtain ⟨hsealed, hbuilds, hpack, hstored⟩ := hbuilt
  have hheld : (CccStorage.dumpCommitted v s i s.disk dir pack delta).held = .clean dir :=
    held_setPhase (h.exclusive i hi)
  have hpub : (CccStorage.dumpCommitted v s i s.disk dir pack delta).published =
      s.published ++ [⟨s.disk.generation + 1, pack, dir, delta⟩] := rfl
  have hcur := h.current
  refine {
    exclusive := h.exclusive_update hi _
    holder := ?_
    current := ?_
    consecutive := ?_
    named := ?_
    stack := h.stack.concat (x := ⟨s.disk.generation + 1, pack, dir, delta⟩)
    stored := ?_
    activeNew := h.activeNew
    sealedOld := h.sealedOld
    sealedOnce := h.sealedOnce }
  · rw [hheld]
    refine ⟨?_, ?_⟩
    · rw [hpub, List.map_append, List.map_singleton]
      exact hsealed
    · rw [hpub, List.map_append, List.map_singleton]
      exact hbuilds
  · rw [hpub, List.length_append, List.length_singleton]
    show s.disk.generation + 1 = _
    omega
  · have hgen : start.generation + 1 + 1 * s.published.length = s.disk.generation + 1 := by omega
    rw [hpub, List.map_append, List.map_singleton, h.consecutive, List.length_append,
      List.length_singleton, List.range'_concat, hgen]
  · intro x hx
    rw [hpub] at hx
    rcases List.mem_append.mp hx with hx | hx
    · exact h.named x hx
    · rw [List.mem_singleton.mp hx]
      exact hpack
  · intro x hx
    rw [hpub] at hx
    rcases List.mem_append.mp hx with hx | hx
    · exact h.stored x hx
    · rw [List.mem_singleton.mp hx]
      exact hstored

/-- **A compaction after a commit** merges the newest packs of the manifest on disk into a file
    that is no delta's. -/
theorem CommitInv.compactAfterCommit (h : CommitInv v start s) (hi : (s.phase i).critical = true)
    (hsettled : s.Settled) {a : Answer}
    (hstep : compactAfterCommit v s i s.disk a = some s') : CommitInv v start s' := by
  unfold CccStorage.compactAfterCommit at hstep
  split at hstep
  · cases hstep
    exact h.setInside hi ⟨.inr rfl, hsettled⟩
  · rename_i c hc
    obtain ⟨merged, hmerged, rfl⟩ := Option.map_eq_some_iff.mp hstep
    have hrun : runnableCandidate (v.cfg i).levelPolicy s.disk false = some c := by
      unfold postCommitCandidate at hc
      split at hc
      · exact hc
      · cases hc
    obtain ⟨older, hsplit, -⟩ := runnableCandidate_suffix hrun
    have heq := mergedManifest_some hsplit rfl hmerged
    refine h.inside hi rfl rfl rfl rfl rfl rfl rfl (fun x hx => ?_) ⟨hsettled, ?_⟩
    · have hne : x.pack.path ≠ (compactedPack (v.cfg i) s.disk c a.built).path := by
        rw [h.path_eq hx, deltaPath_eq]
        intro hpath
        exact deltaName_ne_compactName _ _ _ _ (pathJoin_inj hpath)
      exact (Function.update_of_ne hne _ _).trans (h.stored x hx)
    · rw [heq]
      exact ⟨rfl, older, c.packs, _, hsplit, rfl, rfl, rfl, rfl⟩

/-! ### Every step -/

/-- What holds where the holder of the lock is. -/
theorem CommitInv.holderAt (h : CommitInv v start s) (hi : s.phase i = p) (hp : p.critical = true) :
    s.HolderInv v p := by
  have hheld := h.held_eq (i := i) (by rw [hi]; exact hp)
  have hholder := h.holder
  rw [hheld, hi] at hholder
  exact hholder

/-- A call that reloads, before the lock or under it. -/
theorem CommitInv.reload (h : CommitInv v start s) {next : ReadPoint} {r r' : Reload}
    (hi : s.phase i = .reload next r) : CommitInv v start (s.setPhase i (.reload next r')) := by
  cases next with
  | check => exact h.setOutside (by rw [hi]; rfl) rfl
  | sealUpper | compact | mirror | status =>
      have hsettled : s.Settled := h.holderAt hi rfl
      exact h.setInside (by rw [hi]; rfl) hsettled

theorem runStep_inv (h : CommitInv v start s) {a : Answer} (hread : ReadsDisk v s (.step i a))
    (hs : runStep v s i a = some s') : CommitInv v start s' := by
  unfold runStep at hs
  cases hp : s.phase i with
  | idle | done =>
      rw [hp] at hs
      cases hs
  | reload next r =>
      rw [hp] at hs
      cases r with
      | scan =>
          cases hs
          exact (h.store _ none).reload hp
      | loaded m =>
          cases hs
          exact (h.store _ (some m)).reload hp
      | stored =>
          obtain ⟨m, hm, rfl⟩ := Option.map_eq_some_iff.mp hs
          have hdisk : next ≠ .check → m = s.disk := by
            intro hne
            have hback : readsBack s (.step i a) = some (i, next) := by
              unfold readsBack
              simp only [hp]
            exact Option.some.inj (hm.symm.trans (hread (i, next) hback hne))
          cases next with
          | check => exact h.setOutside (by rw [hp]; rfl) rfl
          | sealUpper | compact | mirror | status =>
              exact h.setInside (by rw [hp]; rfl) ⟨.inr (hdisk nofun), h.holderAt hp rfl⟩
  | found next m =>
      rw [hp] at hs
      cases next with
      | check =>
          cases hs
          refine h.ensureActive.setOutside (by rw [ensureActive_phase, hp]; rfl) ?_
          split <;> rfl
      | sealUpper =>
          have hp' : s.ensureActive.phase i = .found .sealUpper m := by
            rw [ensureActive_phase, hp]
          obtain ⟨hm, hsettled⟩ := h.ensureActive.holderAt hp' rfl
          obtain rfl := hm.resolve_left nofun
          cases hs
          exact h.ensureActive.sealActive (by rw [hp']; rfl) hsettled
      | compact =>
          obtain ⟨hm, hsettled⟩ := h.holderAt hp rfl
          obtain rfl := hm.resolve_left nofun
          exact h.compactAfterCommit (by rw [hp]; rfl) hsettled hs
      | mirror =>
          obtain ⟨hm, hsettled⟩ := h.holderAt hp rfl
          obtain rfl := hm.resolve_left nofun
          simp only at hs
          split at hs
          · cases hs
            exact h.dumpSame (by rw [hp]; rfl) hsettled rfl h.stack
          · cases hs
            exact h.setInside (by rw [hp]; rfl) hsettled
      | status =>
          cases hs
          exact h.setInside (by rw [hp]; rfl) (h.holderAt hp rfl).2
  | lock =>
      rw [hp] at hs
      simp only at hs
      split at hs
      · cases hs
        exact h.setOutside (by rw [hp]; rfl) rfl
      · rename_i hl
        cases hs
        exact h.acquire hl
  | recreate m dir =>
      rw [hp] at hs
      have hp' : s.ensureActive.phase i = .recreate m dir := by rw [ensureActive_phase, hp]
      have hholder : m = s.ensureActive.disk ∧ s.ensureActive.InCommit dir :=
        h.ensureActive.holderAt hp' rfl
      cases hs
      exact h.ensureActive.setInside (by rw [hp']; rfl) hholder
  | copy m dir todo copied =>
      rw [hp] at hs
      obtain ⟨rfl, hcommit⟩ := h.holderAt hp rfl
      cases todo with
      | cons path todo =>
          cases hs
          exact h.setInside (by rw [hp]; rfl) ⟨rfl, hcommit⟩
      | nil =>
          cases hs
          exact h.buildDelta (by rw [hp]; rfl) hcommit copied a.built
  | dump m dir pack delta =>
      rw [hp] at hs
      obtain ⟨rfl, hbuilt⟩ := h.holderAt hp rfl
      cases hs
      exact h.dumpCommitted (by rw [hp]; rfl) hbuilt
  | clean dir =>
      rw [hp] at hs
      cases hs
      exact h.inside (by rw [hp]; rfl) rfl rfl rfl rfl rfl rfl rfl h.stored (h.holderAt hp rfl)
  | dumpCompacted m =>
      rw [hp] at hs
      obtain ⟨hsettled, hg, older, group, pack, hold, hnew, hkind, hmin, hmax⟩ := h.holderAt hp rfl
      cases hs
      refine h.dumpSame (by rw [hp]; rfl) hsettled hg ?_
      rw [hnew]
      exact (hold ▸ h.stack).compact h.selfRange hkind hmin hmax
  | release =>
      rw [hp] at hs
      cases hs
      exact h.release (by rw [hp]; rfl) (h.holderAt hp rfl)

/-- **Every step keeps the invariant** while calls read back what is on disk. -/
theorem commitStep_inv (h : CommitInv v start s) {e : CommitEvent} (hread : ReadsDisk v s e)
    (hs : commitStep v s e = some s') : CommitInv v start s' := by
  cases e with
  | handleCommit i =>
      unfold commitStep at hs
      simp only at hs
      split at hs
      · rename_i hi
        cases hs
        refine h.setOutside (by rw [hi]; rfl) ?_
        split <;> rfl
      · cases hs
  | commitSharedNfs i =>
      unfold commitStep at hs
      simp only at hs
      split at hs
      · rename_i hi
        cases hs
        exact h.setOutside (by rw [hi]; rfl) rfl
      · cases hs
  | step i a => exact runStep_inv h hread hs
  | mountRw n =>
      unfold commitStep at hs
      simp only at hs
      split at hs
      · cases hs
        exact h
      · cases hs
        exact h.ensureActive.outside rfl rfl rfl rfl rfl rfl le_rfl h.ensureActive.activeNew
          fun _ => .inl rfl
  | unmount n =>
      cases hs
      exact h.outside rfl rfl rfl rfl rfl rfl le_rfl h.activeNew fun _ => .inl rfl
  | write n path content => exact h.writeFile hs

end Inv

/-! ### Starts -/

/-- A state in which no call has begun. -/
structure IdleState extends CommitState where
  idle : ∀ i, phase i = .idle
  nothingSealed : sealedUppers = []
  nothingBuilt : builds = []
  nothingPublished : published = []
  activeOld : ∀ d, active = some d → d < nextDir
  nodup : ∀ d t, dirs d = some t → (t.nodes.map (·.1)).Nodup

theorem IdleState.held_idle (s₀ : IdleState) : s₀.toCommitState.held = .idle := by
  unfold CommitState.held
  cases hl : s₀.lock with
  | none => rfl
  | some i => exact s₀.idle i

theorem IdleState.commitInv (s₀ : IdleState) (v : Services) :
    CommitInv v s₀.disk s₀.toCommitState where
  exclusive := by
    intro i hi
    rw [s₀.idle i] at hi
    cases hi
  holder := by
    rw [s₀.held_idle]
    show s₀.sealedUppers.map (·.1) = s₀.published.map (·.dir) ∧ _
    rw [s₀.nothingSealed, s₀.nothingPublished, s₀.nothingBuilt]
    exact ⟨rfl, rfl⟩
  current := by
    rw [s₀.nothingPublished]
    rfl
  consecutive := by
    rw [s₀.nothingPublished]
    rfl
  named := by
    rw [s₀.nothingPublished]
    exact nofun
  stack := by
    rw [s₀.nothingPublished]
    exact .none _
  stored := by
    rw [s₀.nothingPublished]
    exact nofun
  activeNew := by
    rw [s₀.nothingSealed]
    exact fun d hd => ⟨s₀.activeOld d hd, List.not_mem_nil⟩
  sealedOld := by
    rw [s₀.nothingSealed]
    exact nofun
  sealedOnce := by
    rw [s₀.nothingSealed]
    exact List.nodup_nil

/-- A new child with an empty upper; no call has begun. -/
def idleCommits : IdleState where
  disk := { id := "env", name := "env", type := "environment", generation := 0 }
  packs := fun _ => none
  dirs := Function.update (fun _ => none) 0 (some ⟨[]⟩)
  active := some 0
  nextDir := 1
  lock := none
  registry := fun _ => none
  mounts := fun _ => none
  phase := fun _ => .idle
  idle := fun _ => rfl
  nothingSealed := rfl
  nothingBuilt := rfl
  nothingPublished := rfl
  activeOld := by decide
  nodup := by
    intro d t h
    by_cases hd : d = 0
    · subst hd
      cases h
      exact List.nodup_nil
    · rw [Function.update_of_ne hd] at h
      cases h

/-- Calls 0 and 1 run in one service, call 2 in another. -/
def twoServices : Services where
  base := coldNode
  node := fun i => if i = 2 then 2 else 1
  levelPolicy := fun _ => coldNode.levelPolicy
  mirrorAfterCommit := fun _ => false

def steps (n : Nat) (i : CallId) : List CommitEvent := List.replicate n (.step i {})

/-- The transitions of a schedule. -/
def schedule (es : List CommitEvent) : List (Lib.Trans CommitState CommitEvent) :=
  Lib.trace (commitStep twoServices) idleCommits.toCommitState es

end CccStorage
