/-
  File:      CccStorage/ManifestOps.lean
  Subject:   Every operation of the service that rewrites a child's manifest, as steps of calls
             that run on any nodes over one shared state directory (`mountd/daemon.py`).

  The grain is the one at which calls of different nodes can interleave: taking a lock file
  (`O_CREAT|O_EXCL`), reading the manifest (`_find` and `reload_registry` read it from disk),
  building a pack, replacing the manifest (`dump_atomic`), releasing the lock.

  * `Call`, `Act` -- where one call stands, and what it does next;
  * `callStep` -- the next position of the call and its `Effect` on the shared state;
  * `Shared`, `step` -- the shared state and its steps; `Shared.published` and `Shared.log`
    record what commits published and what compactions built from what;
  * `Accounted` -- a delta is in a stack, itself or inside a pack built from it;
  * `CallSpec`, `callStep_spec` -- what a step of a call can do, one case per effect; the
    invariants of the runs are derived from it alone.
-/
import CccStorage.Commit
import CccStorage.Lib.Run

namespace CccStorage

/-! ## 1. Calls -/

/-- The two lock files of a child that guard its manifest. -/
inductive LockName where
  | commit
  | cold
  deriving DecidableEq, Repr

/-- Where a call stands. A position that holds a manifest holds the copy the call will write
    back (changed). -/
inductive Call where
  | idle
  /-- `handle_commit`: the commit lock is taken, the manifest not re-resolved yet. -/
  | commitLocked
  | commitSealed (m : ChildManifest)
  | commitBuilt (m : ChildManifest) (pack : PackInfo)
  | commitPublished
  /-- `committed = self.children[updated.id]` after the reload. -/
  | commitReloaded (m : ChildManifest)
  | commitMerged (m : ChildManifest) (c : CompactionCandidate) (pack : PackInfo)
  | commitMergePublished
  /-- `_mirror_after_commit_if_configured`: the packs are uploaded. -/
  | commitMirroring (m : ChildManifest)
  | commitDone
  | compactFound (m : ChildManifest)
  | compactBuilt (m : ChildManifest) (c : CompactionCandidate) (pack : PackInfo)
  | archiveLocked
  | archiveFound (m : ChildManifest)
  | archiveDone
  | accessFound (m : ChildManifest)
  /-- `needs_recall` was false: about to `_mark_accessed`. -/
  | accessReady (m : ChildManifest)
  | recallWaiting
  | recallLocked
  | recallFound (m : ChildManifest)
  | recallNeeded (m : ChildManifest)
  | recallReady (m : ChildManifest)
  | recallDone
  | pinFound (m : ChildManifest) (pinned : Bool)
  | policyFound (m : ChildManifest) (next : WritePolicy)
  /-- The process died; its lock file stays. -/
  | dead (lock : Option LockName)

/-- What a call does next, with what the environment answers it. -/
inductive Act where
  | commitAcquire
  | commitResolve
  | commitBuild (built : BuiltFile)
  | commitPublish (overlayMode : String)
  | commitReload
  | commitMerge (built : BuiltFile)
  | commitPublishMerged
  | commitReloadMerged
  | commitSkipMerge
  | commitMirror (stamp : String)
  | compactFind
  | compactBuild (allowBase : Bool) (built : BuiltFile)
  | compactPublish
  | archiveAcquire
  | archiveFind
  | archivePublish (removeHot : Bool) (stamp : String)
  | accessFind
  /-- `run_cold_storage_once` found no access metadata. -/
  | accessFindUnchecked
  | accessCheck (isFile : String → Bool)
  | recallAcquire
  | recallFind
  | recallCheck (isFile : String → Bool)
  | recallPublish (stamp : String)
  | markPublish (stamp : String)
  | pinFind (pinned : Bool)
  | pinPublish
  | policyFind (next : WritePolicy)
  | policyPublish
  /-- The call returns or raises; a `with NFSLock` block releases its lock. -/
  | leave
  | die

namespace Act

end Act

/-- What one step of a call does to the shared state. -/
inductive Effect where
  | quiet
  | acquire (l : LockName)
  | release (l : LockName)
  /-- A pack file built from `selected`. -/
  | built (pack : PackInfo) (selected : List PackInfo)
  /-- A commit's `dump_atomic`. -/
  | publish (v : ChildManifest) (delta : PackInfo)
  /-- Any other `dump_atomic`. -/
  | rewrite (v : ChildManifest)

namespace Call

/-- The lock a call holds. -/
def lock : Call → Option LockName
  | commitLocked | commitSealed _ | commitBuilt _ _ | commitPublished | commitReloaded _
  | commitMerged _ _ _ | commitMergePublished | commitMirroring _ | commitDone => some .commit
  | archiveLocked | archiveFound _ | archiveDone => some .cold
  | recallLocked | recallFound _ | recallNeeded _ | recallReady _ | recallDone => some .cold
  | dead l => l
  | _ => none

/-- The copy of the manifest a call may still write back. -/
def copy : Call → Option ChildManifest
  | commitSealed m | commitBuilt m _ | commitReloaded m | commitMerged m _ _
  | commitMirroring m => some m
  | compactFound m | compactBuilt m _ _ => some m
  | archiveFound m => some m
  | accessFound m | accessReady m => some m
  | recallFound m | recallNeeded m | recallReady m => some m
  | pinFound m _ | policyFound m _ => some m
  | _ => none

/-- The copy a call is about to write back without holding the commit lock. -/
def unlockedCopy : Call → Act → Option ChildManifest
  | compactBuilt m _ _, .compactPublish => some m
  | archiveFound m, .archivePublish _ _ => some m
  | recallNeeded m, .recallPublish _ => some m
  | accessReady m, .markPublish stamp | recallReady m, .markPublish stamp =>
    if markAccessed m stamp = m then none else some m
  | pinFound m _, .pinPublish => some m
  | policyFound m _, .policyPublish => some m
  | _, _ => none

end Call

/-- **One step of one call**: its next position and its effect, given the manifest on disk. -/
def callStep (cfg : NodeConfig) (disk : ChildManifest) : Call → Act → Option (Call × Effect)
  -- handle_commit
  | .idle, .commitAcquire => some (.commitLocked, .acquire .commit)
  | .commitLocked, .commitResolve => some (.commitSealed disk, .quiet)
  | .commitSealed m, .commitBuild built =>
    let pack := deltaPack cfg (m.generation + 1) built
    some (.commitBuilt m pack, .built pack [])
  | .commitBuilt m pack, .commitPublish mode =>
    some (.commitPublished, .publish (committedManifest cfg m pack mode) pack)
  | .commitPublished, .commitReload => some (.commitReloaded disk, .quiet)
  | .commitReloaded m, .commitMerge built =>
    match postCommitCandidate cfg m with
    | some c =>
      let pack := compactedPack cfg m c built
      some (.commitMerged m c pack, .built pack c.packs)
    | none => none
  | .commitMerged m c pack, .commitPublishMerged =>
    match mergedManifest m c pack with
    | some v => some (.commitMergePublished, .rewrite v)
    | none => none
  | .commitMergePublished, .commitReloadMerged => some (.commitMirroring disk, .quiet)
  | .commitReloaded m, .commitSkipMerge =>
    if (postCommitCandidate cfg m).isNone then some (.commitMirroring m, .quiet) else none
  | .commitMirroring m, .commitMirror stamp =>
    if cfg.mirrorAfterCommit then
      some (.commitDone,
        .rewrite (mirroredManifest m (cfg.coldPrefix m.generation) cfg.backend stamp))
    else none
  -- handle_compact, run_background_compaction_once
  | .idle, .compactFind => some (.compactFound disk, .quiet)
  | .compactFound m, .compactBuild allowBase built =>
    match runnableCandidate cfg.levelPolicy m allowBase with
    | some c =>
      let pack := compactedPack cfg m c built
      some (.compactBuilt m c pack, .built pack c.packs)
    | none => none
  | .compactBuilt m c pack, .compactPublish =>
    match mergedManifest m c pack with
    | some v => some (.idle, .rewrite v)
    | none => none
  -- handle_cold_archive, run_cold_storage_once
  | .idle, .archiveAcquire => some (.archiveLocked, .acquire .cold)
  | .archiveLocked, .archiveFind => some (.archiveFound disk, .quiet)
  | .archiveFound m, .archivePublish removeHot stamp =>
    some (.archiveDone,
      .rewrite (archivedManifest m (cfg.coldPrefix m.generation) removeHot cfg.backend stamp))
  -- handle_mount, observed access, handle_cold_recall: _ensure_hot
  | .idle, .accessFind => some (.accessFound disk, .quiet)
  | .idle, .accessFindUnchecked => some (.accessReady disk, .quiet)
  | .accessFound m, .accessCheck isFile =>
    if needsRecall m isFile then some (.recallWaiting, .quiet) else some (.accessReady m, .quiet)
  | .recallWaiting, .recallAcquire => some (.recallLocked, .acquire .cold)
  | .recallLocked, .recallFind => some (.recallFound disk, .quiet)
  | .recallFound m, .recallCheck isFile =>
    if needsRecall m isFile then some (.recallNeeded m, .quiet) else some (.recallReady m, .quiet)
  | .recallNeeded m, .recallPublish stamp =>
    some (.recallDone, .rewrite (recalledManifest m cfg.packDir stamp))
  -- _mark_accessed writes only what changed
  | .accessReady m, .markPublish stamp =>
    if markAccessed m stamp = m then some (.idle, .quiet)
    else some (.idle, .rewrite (markAccessed m stamp))
  | .recallReady m, .markPublish stamp =>
    if markAccessed m stamp = m then some (.recallDone, .quiet)
    else some (.recallDone, .rewrite (markAccessed m stamp))
  -- handle_pin, handle_write_policy
  | .idle, .pinFind pinned => some (.pinFound disk pinned, .quiet)
  | .pinFound m pinned, .pinPublish => some (.idle, .rewrite { m with pinned := pinned })
  | .idle, .policyFind next => some (.policyFound disk next, .quiet)
  | .policyFound m next, .policyPublish => some (.idle, .rewrite { m with writePolicy := next })
  | c, .die => some (.dead c.lock, .quiet)
  | .dead _, .leave => none
  | c, .leave =>
    match c.lock with
    | some l => some (.idle, .release l)
    | none => some (.idle, .quiet)
  | _, _ => none

/-! ## 2. The shared state -/

structure Shared where
  /-- The manifest on disk. -/
  disk : ChildManifest
  /-- Which call's lock file exists. -/
  lock : LockName → Option Nat := fun _ => none
  calls : Nat → Call := fun _ => .idle
  /-- Every pack built so far, with the packs it was built from. -/
  log : List (PackInfo × List PackInfo) := []
  /-- The deltas published by commits. -/
  published : List PackInfo := []

/-- Apply an effect of call `p`; `none` when the lock file to create exists already. -/
def Effect.apply (s : Shared) (p : Nat) : Effect → Option Shared
  | .quiet => some s
  | .acquire l =>
    if s.lock l = none then some { s with lock := Function.update s.lock l (some p) } else none
  | .release l => some { s with lock := Function.update s.lock l none }
  | .built pack selected => some { s with log := (pack, selected) :: s.log }
  | .publish v delta => some { s with disk := v, published := delta :: s.published }
  | .rewrite v => some { s with disk := v }

/-- Call `p` of node configuration `node p` takes the step `act`. -/
def step (node : Nat → NodeConfig) (s : Shared) (e : Nat × Act) : Option Shared :=
  match callStep (node e.1) s.disk (s.calls e.1) e.2 with
  | some (c, eff) =>
    (eff.apply s e.1).map fun s' => { s' with calls := Function.update s'.calls e.1 c }
  | none => none

/-- `q` is the delta `d`, the same pack at another path (a recalled copy), or a pack built from
    one that covers `d`. -/
inductive Covers (log : List (PackInfo × List PackInfo)) (d : PackInfo) : PackInfo → Prop where
  | self : Covers log d d
  | moved {q : PackInfo} (path : String) (h : Covers log d q) : Covers log d { q with path := path }
  | built {q r : PackInfo} {selected : List PackInfo} (hq : (q, selected) ∈ log)
      (hr : r ∈ selected) (h : Covers log d r) : Covers log d q

/-- **The manifest accounts for the delta**: it or a pack built from it is in the stack. -/
def Accounted (log : List (PackInfo × List PackInfo)) (m : ChildManifest) (d : PackInfo) : Prop :=
  ∃ q ∈ m.lowers, Covers log d q

theorem Covers.mono {log log' : List (PackInfo × List PackInfo)} {d q : PackInfo}
    (hl : ∀ x ∈ log, x ∈ log') (h : Covers log d q) : Covers log' d q := by
  induction h with
  | self => exact .self
  | moved path _ ih => exact .moved path ih
  | built hq hr _ ih => exact .built (hl _ hq) hr ih

theorem Accounted.mono {log log' : List (PackInfo × List PackInfo)} {m : ChildManifest}
    {d : PackInfo} (hl : ∀ x ∈ log, x ∈ log') (h : Accounted log m d) : Accounted log' m d := by
  obtain ⟨q, hq, hc⟩ := h
  exact ⟨q, hq, hc.mono hl⟩

/-- Packs may be added to a stack. -/
theorem Accounted.append {log : List (PackInfo × List PackInfo)} {m v : ChildManifest}
    {d : PackInfo} {packs : List PackInfo} (hl : v.lowers = m.lowers ++ packs)
    (h : Accounted log m d) : Accounted log v d := by
  obtain ⟨q, hq, hc⟩ := h
  exact ⟨q, hl ▸ List.mem_append_left _ hq, hc⟩

/-- Recalled packs account for what the packs did. -/
theorem Accounted.recalled {log : List (PackInfo × List PackInfo)} {m : ChildManifest}
    {d : PackInfo} (hotDir stamp : String) (h : Accounted log m d) :
    Accounted log (recalledManifest m hotDir stamp) d := by
  obtain ⟨q, hq, hc⟩ := h
  exact ⟨recalledPack hotDir q, List.mem_map_of_mem hq, hc.moved _⟩

/-- A pack built from the newest run of a stack accounts for what that run did. -/
theorem Accounted.merged {log : List (PackInfo × List PackInfo)} {m v : ChildManifest}
    {d pack : PackInfo} {pre selected : List PackInfo} (hm : m.lowers = pre ++ selected)
    (hv : v.lowers = pre ++ [pack]) (hb : (pack, selected) ∈ log) (h : Accounted log m d) :
    Accounted log v d := by
  obtain ⟨q, hq, hc⟩ := h
  rw [hm] at hq
  rcases List.mem_append.mp hq with hq | hq
  · exact ⟨q, hv ▸ List.mem_append_left _ hq, hc⟩
  · exact ⟨pack, hv ▸ List.mem_append_right _ (by simp), .built hb hq hc⟩

/-! ## 4. What a step can do -/

/-- What a position of a call promises about the pack it holds. -/
def CallOk (log : List (PackInfo × List PackInfo)) : Call → Prop
  | .commitBuilt m pack => pack.generationMax = m.generation + 1
  | .commitMerged m c pack | .compactBuilt m c pack =>
    (∃ pre, m.lowers = pre ++ c.packs) ∧ (pack, c.packs) ∈ log ∧
      withCompactionMetadata pack c.packs c.targetLevel = pack
  | _ => True

theorem CallOk.mono {log log' : List (PackInfo × List PackInfo)} {c : Call}
    (hl : ∀ x ∈ log, x ∈ log') (h : CallOk log c) : CallOk log' c := by
  cases c with
  | commitMerged m c pack => exact ⟨h.1, hl _ h.2.1, h.2.2⟩
  | compactBuilt m c pack => exact ⟨h.1, hl _ h.2.1, h.2.2⟩
  | _ => exact h

/-- A manifest rewritten from the copy `m` keeps its generation and accounts for as much. -/
structure RewriteOk (log : List (PackInfo × List PackInfo)) (m v : ChildManifest) : Prop where
  generation : v.generation = m.generation
  accounted : ∀ d, Accounted log m d → Accounted log v d

/-- **A published partial compaction is such a rewrite.** -/
theorem RewriteOk.merged {log : List (PackInfo × List PackInfo)} {m v : ChildManifest}
    {c : CompactionCandidate} {pack : PackInfo} (hs : ∃ pre, m.lowers = pre ++ c.packs)
    (hb : (pack, c.packs) ∈ log)
    (hp : withCompactionMetadata pack c.packs c.targetLevel = pack)
    (hv : mergedManifest m c pack = some v) : RewriteOk log m v := by
  obtain ⟨pre, hm⟩ := hs
  unfold mergedManifest at hv
  split at hv
  · rename_i m' retired hpub
    cases hv
    obtain ⟨-, hv⟩ := publishPartialCompaction_retires hm hpub
    rw [hp] at hv
    subst hv
    exact ⟨rfl, fun d hd => hd.merged hm rfl hb⟩
  · cases hv

end CccStorage
