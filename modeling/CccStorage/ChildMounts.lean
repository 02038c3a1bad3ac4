/-
  File:      CccStorage/ChildMounts.lean
  Subject:   `ChildMountManager` (`mountd/childmount.py`): the table of mount records and the handles
             they own, over sequences of its calls.

  What is underneath (the mount commands, the publish, the unmount, the locks) does not fail here;
  a mount call may be refused. A call meets a `MountSite`: whether the mountpoint is there, whether
  the child's writer lock can be taken, whether a mirror is published, and the time.

  * `MountRecord`, `Handle`, `ChildMountManager` -- the table, in the order of its keys;
  * `mountAtUnlocked`, `mountRwAtUnlocked`, `unmount`, `forceUnmount`, `release`,
    `idleUnmountExpired`, `stopAll` -- the calls; `managerStep`;
  * `Owned` -- every handle is owned by one record, or has been unmounted once;
  * `managerStep_owned`, `managerStep_leaves` -- what every call keeps and what it leaves alone;
  * `handles_lifeCycle` -- over all runs.
-/
import CccStorage.ColdRuns
import CccStorage.Lib.Dict
import CccStorage.Lib.Run
import CccStorage.Names

namespace CccStorage.ChildMounts

open Lib (dictSet dictPop)

/-! ## 1. The table -/

structure MountRecord where
  manifestId : String
  mountpoint : String
  /-- The number of its handle, counted from the first mount. -/
  handle : Nat
  mode : MountMode
  writePolicy : WritePolicy
  refcount : Int := 1
  lastUsed : ℚ := 0
  writerLock : Bool := false
  baseGeneration : Nat := 0
  deriving DecidableEq

/-- A `MountHandle`, and how often it was unmounted. -/
structure Handle where
  mounted : Bool := true
  unmounts : Nat := 0
  deriving DecidableEq

def Handle.unmount (h : Handle) : Handle := { mounted := false, unmounts := h.unmounts + 1 }

structure ManagerConfig where
  mountsDir : String
  /-- `nfs_root` is set. -/
  nfsRoot : Bool := true

structure ChildMountManager where
  records : List (String × MountRecord) := []
  handles : List Handle := []
  deriving DecidableEq

inductive ChildMountError where
  | otherMountpoint (id mountpoint requested : String)
  | otherMode (id : String) (mode requested : MountMode)
  | otherPolicy (id : String) (policy requested : WritePolicy)
  | noLowers (id : String)
  | notDirectory (id mountpoint : String)
  | noActiveUpper (id : String)
  | noNfsRoot
  /-- "local writer lock is held and no published mirror exists". -/
  | writerHeld (id : String)
  deriving DecidableEq

/-- What a call meets. -/
structure MountSite where
  isDir : Bool := true
  lockFree : Bool := true
  mirrored : Bool := false
  now : ℚ := 0
  deriving DecidableEq

namespace ChildMountManager

/-- `_records.get(manifest_id)`. -/
def find (s : ChildMountManager) (id : String) : Option MountRecord := s.records.lookup id

/-- `_records[manifest_id] = record`. -/
def put (s : ChildMountManager) (id : String) (r : MountRecord) : ChildMountManager :=
  { s with records := dictSet s.records id r }

/-- `_records.pop(manifest_id)`. -/
def pop (s : ChildMountManager) (id : String) : ChildMountManager :=
  { s with records := dictPop s.records id }

/-- `handle.mounted`. -/
def isMounted (s : ChildMountManager) (h : Nat) : Bool := ((s.handles[h]?).map (·.mounted)).getD false

/-- `handle.unmount()`. -/
def unmountHandle (s : ChildMountManager) (h : Nat) : ChildMountManager :=
  { s with handles := s.handles.modify h Handle.unmount }

/-- A new handle, and the record that owns it. -/
def register (s : ChildMountManager) (r : MountRecord) : ChildMountManager × MountRecord :=
  let record := { r with handle := s.handles.length }
  (({ s with handles := s.handles ++ [({} : Handle)] }).put r.manifestId record, record)

end ChildMountManager

/-! ## 2. The calls -/

/-- A mount call: the table, and the record it answers. -/
abbrev Mounted := ChildMountManager × Except ChildMountError MountRecord

section Calls

variable (cfg : ManagerConfig)

/-- `_reuse_existing`. -/
def reuseExisting (s : ChildMountManager) (m : ChildManifest) (mountpoint : String)
    (mode : MountMode) (incrementRef : Bool) (now : ℚ) :
    ChildMountManager × Except ChildMountError (Option MountRecord) :=
  match s.find m.id with
  | none => (s, .ok none)
  | some existing =>
    if !s.isMounted existing.handle then (s, .ok none)
    else if existing.mountpoint ≠ mountpoint then
      (s, .error (.otherMountpoint m.id existing.mountpoint mountpoint))
    else if existing.mode ≠ mode then (s, .error (.otherMode m.id existing.mode mode))
    else if existing.writePolicy ≠ m.writePolicy then
      (s, .error (.otherPolicy m.id existing.writePolicy m.writePolicy))
    else
      let used := { existing with
        refcount := if incrementRef then existing.refcount + 1 else existing.refcount
        lastUsed := now }
      (s.put m.id used, .ok (some used))

/-- The record of a new mount. -/
def newRecord (m : ChildManifest) (mountpoint : String) (mode : MountMode) (now : ℚ) :
    MountRecord where
  manifestId := m.id
  mountpoint := mountpoint
  handle := 0
  mode := mode
  writePolicy := m.writePolicy
  lastUsed := now

def mounts (s : ChildMountManager) (r : MountRecord) : Mounted :=
  let x := s.register r
  (x.1, .ok x.2)

/-- `_mount_at_unlocked`. -/
def mountAtUnlocked (s : ChildMountManager) (m : ChildManifest) (mountpoint : String)
    (requireExisting incrementRef : Bool) (site : MountSite) : Mounted :=
  match reuseExisting s m mountpoint .ro incrementRef site.now with
  | (s, .error e) => (s, .error e)
  | (s, .ok (some existing)) => (s, .ok existing)
  | (s, .ok none) =>
    if m.lowers = [] then (s, .error (.noLowers m.id))
    else if requireExisting && !site.isDir then (s, .error (.notDirectory m.id mountpoint))
    else mounts s (newRecord m mountpoint .ro site.now)

/-- `_mount_rw_shared_nfs`. -/
def mountRwSharedNfs (s : ChildMountManager) (m : ChildManifest) (mountpoint : String)
    (requireExisting : Bool) (site : MountSite) : Mounted :=
  if requireExisting && !site.isDir then (s, .error (.notDirectory m.id mountpoint))
  else if m.overlay.activeUpper = "" then (s, .error (.noActiveUpper m.id))
  else mounts s { newRecord m mountpoint .rw site.now with
    writePolicy := .sharedNfs
    baseGeneration := m.generation }

/-- `_mount_published_mirror_ro`. -/
def mountPublishedMirrorRo (s : ChildMountManager) (m : ChildManifest) (mountpoint : String)
    (site : MountSite) : Mounted :=
  if !cfg.nfsRoot then (s, .error .noNfsRoot)
  else if !site.mirrored then
    if m.lowers ≠ [] then mountAtUnlocked s m mountpoint false false site
    else (s, .error (.writerHeld m.id))
  else mounts s { newRecord m mountpoint .ro site.now with
    writePolicy := .localSsdAsync
    baseGeneration := m.generation }

/-- `_mount_rw_local_ssd_async`. -/
def mountRwLocalSsdAsync (s : ChildMountManager) (m : ChildManifest) (mountpoint : String)
    (requireExisting : Bool) (site : MountSite) : Mounted :=
  if !cfg.nfsRoot then (s, .error .noNfsRoot)
  else if requireExisting && !site.isDir then (s, .error (.notDirectory m.id mountpoint))
  else if !site.lockFree then mountPublishedMirrorRo cfg s m mountpoint site
  else mounts s { newRecord m mountpoint .rw site.now with
    writePolicy := .localSsdAsync
    writerLock := true
    baseGeneration := m.generation }

/-- `_mount_rw_at_unlocked`. -/
def mountRwAtUnlocked (s : ChildMountManager) (m : ChildManifest) (mountpoint : String)
    (requireExisting incrementRef : Bool) (site : MountSite) : Mounted :=
  match reuseExisting s m mountpoint .rw incrementRef site.now with
  | (s, .error e) => (s, .error e)
  | (s, .ok (some existing)) => (s, .ok existing)
  | (s, .ok none) =>
    match m.writePolicy with
    | .sharedNfs => mountRwSharedNfs s m mountpoint requireExisting site
    | .localSsdAsync => mountRwLocalSsdAsync cfg s m mountpoint requireExisting site

/-- Where `mount` and `mount_rw` mount a child. -/
def mountpointOf (m : ChildManifest) : String := cfg.mountsDir ++ "/" ++ safeNamespaceName m.id

def mount (s : ChildMountManager) (m : ChildManifest) (site : MountSite) : Mounted :=
  mountAtUnlocked s m (mountpointOf cfg m) false true site

def mountRw (s : ChildMountManager) (m : ChildManifest) (incrementRef : Bool) (site : MountSite) :
    Mounted :=
  mountRwAtUnlocked cfg s m (mountpointOf cfg m) false incrementRef site

/-- The mirror is published, the handle unmounted and the writer lock released. -/
def tearDown (s : ChildMountManager) (r : MountRecord) : ChildMountManager :=
  s.unmountHandle r.handle

def unmount (s : ChildMountManager) (id : String) : ChildMountManager :=
  match s.find id with
  | none => s
  | some record =>
    let dropped := { record with refcount := record.refcount - 1 }
    let s := s.put id dropped
    if dropped.refcount ≤ 0 then (tearDown s dropped).pop id else s

def forceUnmount (s : ChildMountManager) (id : String) : ChildMountManager :=
  match s.find id with
  | none => s
  | some record => tearDown (s.pop id) record

def release (s : ChildMountManager) (id : String) (now : ℚ) : ChildMountManager :=
  match s.find id with
  | none => s
  | some record => s.put id { record with
      refcount := if 0 < record.refcount then record.refcount - 1 else record.refcount
      lastUsed := now }

/-- The body of the loop of `idle_unmount_expired`: the table, and the ids it has unmounted. -/
def reap (ttl now : ℚ) (x : ChildMountManager × List String) (id : String) :
    ChildMountManager × List String :=
  match x.1.find id with
  | none => x
  | some record =>
    if 0 < record.refcount then x
    else if ttl ≤ now - record.lastUsed then ((tearDown x.1 record).pop id, x.2 ++ [id])
    else x

/-- Nobody uses it, and nobody has for `ttl`. -/
def expired (ttl now : ℚ) (r : MountRecord) : Bool :=
  decide (r.refcount ≤ 0) && decide (ttl ≤ now - r.lastUsed)

def idleUnmountExpired (s : ChildMountManager) (ttl now : ℚ) : ChildMountManager × List String :=
  (s.records.map (·.1)).foldl (reap ttl now) (s, [])

def stopAll (s : ChildMountManager) : ChildMountManager :=
  (s.records.map (·.1)).reverse.foldl forceUnmount s

/-! ## 3. Sequences of calls -/

inductive ManagerCall where
  | mountAt (m : ChildManifest) (mountpoint : String) (requireExisting incrementRef : Bool)
      (site : MountSite)
  | mountRwAt (m : ChildManifest) (mountpoint : String) (requireExisting incrementRef : Bool)
      (site : MountSite)
  | unmount (id : String)
  | release (id : String) (now : ℚ)
  | forceUnmount (id : String)
  | idleUnmountExpired (ttl now : ℚ)
  | stopAll

/-- The table after a call; a mount call also says whether it is refused. -/
def managerCall (s : ChildMountManager) : ManagerCall → ChildMountManager × Bool
  | .mountAt m mountpoint requireExisting incrementRef site =>
    let x := mountAtUnlocked s m mountpoint requireExisting incrementRef site
    (x.1, !x.2.isOk)
  | .mountRwAt m mountpoint requireExisting incrementRef site =>
    let x := mountRwAtUnlocked cfg s m mountpoint requireExisting incrementRef site
    (x.1, !x.2.isOk)
  | .unmount id => (unmount s id, false)
  | .release id now => (release s id now, false)
  | .forceUnmount id => (forceUnmount s id, false)
  | .idleUnmountExpired ttl now => ((idleUnmountExpired s ttl now).1, false)
  | .stopAll => (stopAll s, false)

def managerStep (s : ChildMountManager) (c : ManagerCall) : ChildMountManager :=
  (managerCall cfg s c).1

end Calls

/-! ## 4. What every call keeps -/

/-- **Every handle is owned**: a registered record is its child's only one and owns a mounted handle
    that no other record has; a handle that no record owns has been unmounted once. -/
structure Owned (s : ChildMountManager) : Prop where
  keys : (s.records.map (·.1)).Nodup
  record : ∀ id r, s.find id = some r →
    r.manifestId = id ∧ 0 ≤ r.refcount ∧ s.handles[r.handle]? = some {}
  apart : ∀ id id' r r', s.find id = some r → s.find id' = some r' → r.handle = r'.handle → id = id'
  rest : ∀ h k, s.handles[h]? = some k →
    (∃ id r, s.find id = some r ∧ r.handle = h) ∨ k = { mounted := false, unmounts := 1 }

/-- What a mount call does: it is refused, uses the record of the child, or makes one. -/
inductive MountDoes (s : ChildMountManager) (m : ChildManifest) (mountpoint : String)
    (incrementRef : Bool) (now : ℚ) : Mounted → Prop where
  | refused (e : ChildMountError) : MountDoes s m mountpoint incrementRef now (s, .error e)
  | reused (existing used : MountRecord) (hfind : s.find m.id = some existing)
      (hused : used = { existing with
        refcount := if incrementRef then existing.refcount + 1 else existing.refcount
        lastUsed := now }) :
      MountDoes s m mountpoint incrementRef now (s.put m.id used, .ok used)
  | made (r : MountRecord) (hnone : s.find m.id = none) (hid : r.manifestId = m.id)
      (hcount : r.refcount = 1) (hlast : r.lastUsed = now) (hat : r.mountpoint = mountpoint) :
      MountDoes s m mountpoint incrementRef now (mounts s r)

section Kept

variable {cfg : ManagerConfig} {s t : ChildMountManager} {m : ChildManifest} {mountpoint id id' : String}
  {r r' : MountRecord} {mode : MountMode} {incrementRef requireExisting : Bool} {site : MountSite}
  {now ttl : ℚ} {x : Mounted}

/-! ### The table -/

theorem find_put : (s.put id r).find id' = if id' = id then some r else s.find id' :=
  Lib.lookup_dictSet _ _ _ _

theorem find_pop : (s.pop id).find id' = if id' = id then none else s.find id' :=
  Lib.lookup_dictPop _ _ _

theorem find_unmountHandle {h : Nat} : (s.unmountHandle h).find id = s.find id := rfl

theorem Owned.congr (h : Owned s) (hkeys : (t.records.map (·.1)).Nodup)
    (hfind : ∀ id, t.find id = s.find id) (hhandles : t.handles = s.handles) : Owned t := by
  refine ⟨hkeys, fun id r hr => ?_, fun id id' r r' hr hr' => ?_, fun k e he => ?_⟩
  · rw [hhandles]
    exact h.record id r (hfind id ▸ hr)
  · exact h.apart id id' r r' (hfind id ▸ hr) (hfind id' ▸ hr')
  · rw [hhandles] at he
    simp only [hfind]
    exact h.rest k e he

/-- A record changes, and keeps its handle. -/
theorem Owned.change (h : Owned s) (hfind : s.find id = some r) (hid : r'.manifestId = r.manifestId)
    (hhandle : r'.handle = r.handle) (hcount : 0 ≤ r'.refcount) : Owned (s.put id r') := by
  have hat : ∀ j q, (s.put id r').find j = some q → ∃ q', s.find j = some q' ∧
      q.manifestId = q'.manifestId ∧ q.handle = q'.handle ∧ 0 ≤ q.refcount := by
    intro j q hq
    rw [find_put] at hq
    split at hq
    · rename_i hj
      obtain rfl := Option.some.inj hq
      exact ⟨r, by rw [hj]; exact hfind, hid, hhandle, hcount⟩
    · exact ⟨q, hq, rfl, rfl, (h.record j q hq).2.1⟩
  refine ⟨Lib.nodup_dictSet h.keys _ _, fun j q hq => ?_, fun j j' q q' hq hq' heq => ?_,
    fun k e he => ?_⟩
  · obtain ⟨q', hq', hids, hhandles, hcounts⟩ := hat j q hq
    obtain ⟨hid', -, hmounted⟩ := h.record j q' hq'
    exact ⟨hids.trans hid', hcounts, hhandles ▸ hmounted⟩
  · obtain ⟨p, hp, -, hh, -⟩ := hat j q hq
    obtain ⟨p', hp', -, hh', -⟩ := hat j' q' hq'
    exact h.apart j j' p p' hp hp' (hh.symm.trans (heq.trans hh'))
  · rcases h.rest k e he with ⟨j, q, hq, hk⟩ | hend
    · refine .inl ?_
      by_cases hj : j = id
      · subst hj
        rw [hfind] at hq
        obtain rfl := Option.some.inj hq
        exact ⟨j, r', by rw [find_put, if_pos rfl], hhandle.trans hk⟩
      · exact ⟨j, q, by rw [find_put, if_neg hj]; exact hq, hk⟩
    · exact .inr hend

/-- A new record owns a new handle. -/
theorem Owned.register (h : Owned s) (hnone : s.find r.manifestId = none) (hcount : 0 ≤ r.refcount) :
    Owned (s.register r).1 := by
  have hfind : ∀ j, (s.register r).1.find j =
      if j = r.manifestId then some { r with handle := s.handles.length } else s.find j :=
    fun j => find_put
  have hhandles : (s.register r).1.handles = s.handles ++ [({} : Handle)] := rfl
  have hold : ∀ j q, s.find j = some q → q.handle < s.handles.length := by
    intro j q hq
    by_contra hlt
    have hmounted := (h.record j q hq).2.2
    rw [List.getElem?_eq_none (by omega)] at hmounted
    cases hmounted
  refine ⟨Lib.nodup_dictSet h.keys _ _, fun j q hq => ?_, fun j j' q q' hq hq' heq => ?_,
    fun k e he => ?_⟩
  · rw [hfind] at hq
    rw [hhandles]
    split at hq
    · rename_i hj
      obtain rfl := Option.some.inj hq
      exact ⟨hj.symm, hcount, List.getElem?_concat_length⟩
    · obtain ⟨hid, hcounts, hmounted⟩ := h.record j q hq
      refine ⟨hid, hcounts, ?_⟩
      rw [List.getElem?_append_left (hold j q hq)]
      exact hmounted
  · rw [hfind] at hq hq'
    split at hq
    · rename_i hj
      obtain rfl := Option.some.inj hq
      split at hq'
      · rename_i hj'
        rw [hj, hj']
      · have hlt := hold j' q' hq'
        have heq' : s.handles.length = q'.handle := heq
        omega
    · split at hq'
      · obtain rfl := Option.some.inj hq'
        have hlt := hold j q hq
        have heq' : q.handle = s.handles.length := heq
        omega
      · exact h.apart j j' q q' hq hq' heq
  · rw [hhandles] at he
    simp only [hfind]
    by_cases hk : k < s.handles.length
    · rw [List.getElem?_append_left hk] at he
      rcases h.rest k e he with ⟨j, q, hq, hkq⟩ | hend
      · have hj : j ≠ r.manifestId := by
          rintro rfl
          rw [hnone] at hq
          cases hq
        exact .inl ⟨j, q, by rw [if_neg hj]; exact hq, hkq⟩
      · exact .inr hend
    · have hlt : k < (s.handles ++ [({} : Handle)]).length := (List.getElem?_eq_some_iff.mp he).1
      rw [List.length_append, List.length_singleton] at hlt
      refine .inl ⟨r.manifestId, _, if_pos rfl, ?_⟩
      show s.handles.length = k
      omega

/-- **A record that is torn down and forgotten**: its handle is unmounted once. -/
theorem Owned.tornDown (h : Owned s) (hfind : s.find id = some r) :
    Owned ((tearDown s r).pop id) := by
  have hfinds : ∀ j, ((tearDown s r).pop id).find j = if j = id then none else s.find j :=
    fun j => find_pop
  have hhandles : ((tearDown s r).pop id).handles = s.handles.modify r.handle Handle.unmount := rfl
  refine ⟨Lib.nodup_dictPop h.keys _, fun j q hq => ?_, fun j j' q q' hq hq' heq => ?_,
    fun k e he => ?_⟩
  · rw [hfinds] at hq
    split at hq
    · cases hq
    · rename_i hj
      obtain ⟨hid, hcount, hmounted⟩ := h.record j q hq
      refine ⟨hid, hcount, ?_⟩
      have hne : r.handle ≠ q.handle := fun heq => hj (h.apart j id q r hq hfind heq.symm)
      rw [hhandles, List.getElem?_modify_ne _ _ hne]
      exact hmounted
  · rw [hfinds] at hq hq'
    split at hq
    · cases hq
    · split at hq'
      · cases hq'
      · exact h.apart j j' q q' hq hq' heq
  · rw [hhandles] at he
    simp only [hfinds]
    by_cases hk : r.handle = k
    · have hmounted := (h.record id r hfind).2.2
      rw [← hk, List.getElem?_modify_eq, hmounted] at he
      exact .inr (Option.some.inj he).symm
    · rw [List.getElem?_modify_ne _ _ hk] at he
      rcases h.rest k e he with ⟨j, q, hq, hkq⟩ | hend
      · have hj : j ≠ id := by
          rintro rfl
          rw [hfind] at hq
          obtain rfl := Option.some.inj hq
          exact hk hkq
        exact .inl ⟨j, q, by rw [if_neg hj]; exact hq, hkq⟩
      · exact .inr hend

theorem Owned.isMounted (h : Owned s) (hfind : s.find id = some r) :
    s.isMounted r.handle = true := by
  unfold ChildMountManager.isMounted
  rw [(h.record id r hfind).2.2]
  rfl

/-! ### The mount calls -/

theorem reuseExisting_cases (h : Owned s) (m : ChildManifest) (mountpoint : String)
    (mode : MountMode) (incrementRef : Bool) (now : ℚ) :
    (s.find m.id = none ∧ reuseExisting s m mountpoint mode incrementRef now = (s, .ok none)) ∨
    (∃ e, reuseExisting s m mountpoint mode incrementRef now = (s, .error e)) ∨
    ∃ existing used, s.find m.id = some existing ∧
      used = { existing with
        refcount := if incrementRef then existing.refcount + 1 else existing.refcount
        lastUsed := now } ∧
      reuseExisting s m mountpoint mode incrementRef now = (s.put m.id used, .ok (some used)) := by
  unfold reuseExisting
  cases hfind : s.find m.id with
  | none => exact .inl ⟨rfl, rfl⟩
  | some existing =>
    simp only [h.isMounted hfind, Bool.not_true, Bool.false_eq_true, ↓reduceIte]
    by_cases hat : existing.mountpoint ≠ mountpoint
    · rw [if_pos hat]
      exact .inr (.inl ⟨_, rfl⟩)
    · rw [if_neg hat]
      by_cases hmode : existing.mode ≠ mode
      · rw [if_pos hmode]
        exact .inr (.inl ⟨_, rfl⟩)
      · rw [if_neg hmode]
        by_cases hpolicy : existing.writePolicy ≠ m.writePolicy
        · rw [if_pos hpolicy]
          exact .inr (.inl ⟨_, rfl⟩)
        · rw [if_neg hpolicy]
          exact .inr (.inr ⟨existing, _, rfl, rfl, rfl⟩)

theorem mountAtUnlocked_does (h : Owned s) : MountDoes s m mountpoint incrementRef site.now
    (mountAtUnlocked s m mountpoint requireExisting incrementRef site) := by
  unfold mountAtUnlocked
  obtain ⟨hnone, heq⟩ | ⟨e, heq⟩ | ⟨existing, used, hfind, hused, heq⟩ :=
    reuseExisting_cases h m mountpoint .ro incrementRef site.now
  · rw [heq]
    dsimp only
    by_cases hlowers : m.lowers = []
    · rw [if_pos hlowers]
      exact .refused _
    · rw [if_neg hlowers]
      by_cases hdir : (requireExisting && !site.isDir) = true
      · rw [if_pos hdir]
        exact .refused _
      · rw [if_neg hdir]
        exact .made _ hnone rfl rfl rfl rfl
  · rw [heq]
    exact .refused e
  · rw [heq]
    exact .reused existing used hfind hused

/-- Where there is no record, none is used. -/
theorem MountDoes.of_none {b : Bool} (hdoes : MountDoes s m mountpoint b now x)
    (hnone : s.find m.id = none) : MountDoes s m mountpoint incrementRef now x := by
  cases hdoes with
  | refused e => exact .refused e
  | reused existing used hfind _ =>
    rw [hnone] at hfind
    cases hfind
  | made r _ hid hcount hlast hat => exact .made r hnone hid hcount hlast hat

theorem mountPublishedMirrorRo_does (h : Owned s) (hnone : s.find m.id = none) :
    MountDoes s m mountpoint incrementRef site.now (mountPublishedMirrorRo cfg s m mountpoint site) := by
  unfold mountPublishedMirrorRo
  by_cases hroot : (!cfg.nfsRoot) = true
  · rw [if_pos hroot]
    exact .refused _
  · rw [if_neg hroot]
    by_cases hmirror : (!site.mirrored) = true
    · rw [if_pos hmirror]
      by_cases hlowers : m.lowers ≠ []
      · rw [if_pos hlowers]
        exact (mountAtUnlocked_does h).of_none hnone
      · rw [if_neg hlowers]
        exact .refused _
    · rw [if_neg hmirror]
      exact .made _ hnone rfl rfl rfl rfl

theorem mountRwAtUnlocked_does (h : Owned s) : MountDoes s m mountpoint incrementRef site.now
    (mountRwAtUnlocked cfg s m mountpoint requireExisting incrementRef site) := by
  unfold mountRwAtUnlocked
  obtain ⟨hnone, heq⟩ | ⟨e, heq⟩ | ⟨existing, used, hfind, hused, heq⟩ :=
    reuseExisting_cases h m mountpoint .rw incrementRef site.now
  · rw [heq]
    dsimp only
    cases m.writePolicy with
    | sharedNfs =>
      show MountDoes s m mountpoint incrementRef site.now
        (mountRwSharedNfs s m mountpoint requireExisting site)
      unfold mountRwSharedNfs
      split
      · exact .refused _
      · split
        · exact .refused _
        · exact .made _ hnone rfl rfl rfl rfl
    | localSsdAsync =>
      show MountDoes s m mountpoint incrementRef site.now
        (mountRwLocalSsdAsync cfg s m mountpoint requireExisting site)
      unfold mountRwLocalSsdAsync
      split
      · exact .refused _
      · split
        · exact .refused _
        · split
          · exact mountPublishedMirrorRo_does h hnone
          · exact .made _ hnone rfl rfl rfl rfl
  · rw [heq]
    exact .refused e
  · rw [heq]
    exact .reused existing used hfind hused

theorem MountDoes.owned (h : Owned s) (hdoes : MountDoes s m mountpoint incrementRef now x) :
    Owned x.1 := by
  cases hdoes with
  | refused e => exact h
  | reused existing used hfind hused =>
    subst hused
    have hcount := (h.record m.id existing hfind).2.1
    refine h.change hfind rfl rfl ?_
    show 0 ≤ if incrementRef then existing.refcount + 1 else existing.refcount
    split <;> omega
  | made r hnone hid hcount _ _ =>
    refine h.register (hid ▸ hnone) ?_
    rw [hcount]
    omega

/-! ### The calls that end a mount -/

theorem Owned.forceUnmount (h : Owned s) : Owned (forceUnmount s id) := by
  unfold ChildMounts.forceUnmount
  cases hfind : s.find id with
  | none => exact h
  | some r => exact h.tornDown hfind

/-- **`unmount`**: a record that others use loses one reference, and another one is unmounted. -/
theorem unmount_cases (h : Owned s) (id : String) :
    (s.find id = none ∧ unmount s id = s) ∨
    (∃ r, s.find id = some r ∧ 1 < r.refcount ∧
      unmount s id = s.put id { r with refcount := r.refcount - 1 }) ∨
    ∃ r, s.find id = some r ∧ r.refcount ≤ 1 ∧ Owned (unmount s id) ∧
      ∀ j, (unmount s id).find j = if j = id then none else s.find j := by
  unfold unmount
  cases hfind : s.find id with
  | none => exact .inl ⟨rfl, rfl⟩
  | some r =>
    dsimp only
    by_cases hcount : r.refcount - 1 ≤ 0
    · rw [if_pos hcount]
      refine .inr (.inr ⟨r, rfl, by omega, ?_, fun j => ?_⟩)
      · refine (h.tornDown hfind).congr (Lib.nodup_dictPop (Lib.nodup_dictSet h.keys _ _) _)
          (fun j => ?_) rfl
        rw [find_pop, find_pop]
        by_cases hj : j = id
        · rw [if_pos hj, if_pos hj]
        · rw [if_neg hj, if_neg hj]
          exact find_put.trans (if_neg hj)
      · rw [find_pop]
        by_cases hj : j = id
        · rw [if_pos hj, if_pos hj]
        · rw [if_neg hj, if_neg hj]
          exact find_put.trans (if_neg hj)
    · rw [if_neg hcount]
      exact .inr (.inl ⟨r, rfl, by omega, rfl⟩)

theorem Owned.unmount (h : Owned s) : Owned (unmount s id) := by
  obtain ⟨_, heq⟩ | ⟨r, hfind, hcount, heq⟩ | ⟨_, _, _, howned, _⟩ := unmount_cases h id
  · rw [heq]
    exact h
  · rw [heq]
    refine h.change hfind rfl rfl ?_
    show 0 ≤ r.refcount - 1
    omega
  · exact howned

theorem Owned.release (h : Owned s) : Owned (release s id now) := by
  unfold ChildMounts.release
  cases hfind : s.find id with
  | none => exact h
  | some r =>
    have hcount := (h.record id r hfind).2.1
    refine h.change hfind rfl rfl ?_
    show 0 ≤ if 0 < r.refcount then r.refcount - 1 else r.refcount
    split <;> omega

theorem reap_cases (s : ChildMountManager) (acc : List String) (id : String) (ttl now : ℚ) :
    (∃ r, s.find id = some r ∧ expired ttl now r = true ∧
      reap ttl now (s, acc) id = ((tearDown s r).pop id, acc ++ [id])) ∨
    ((s.find id).any (expired ttl now) = false ∧ reap ttl now (s, acc) id = (s, acc)) := by
  unfold reap
  cases hfind : s.find id with
  | none => exact .inr ⟨rfl, by rfl⟩
  | some r =>
    dsimp only
    by_cases hcount : 0 < r.refcount
    · rw [if_pos hcount]
      refine .inr ⟨?_, rfl⟩
      simp only [Option.any_some, expired, decide_eq_false (Int.not_le.mpr hcount), Bool.false_and]
    · rw [if_neg hcount]
      have hzero : r.refcount ≤ 0 := Int.not_lt.mp hcount
      by_cases hage : ttl ≤ now - r.lastUsed
      · rw [if_pos hage]
        refine .inl ⟨r, rfl, ?_, rfl⟩
        simp only [expired, decide_eq_true hzero, decide_eq_true hage, Bool.and_self]
      · rw [if_neg hage]
        refine .inr ⟨?_, rfl⟩
        simp only [Option.any_some, expired, decide_eq_false hage, Bool.and_false]

/-- **The reaper over a list of ids**: exactly the expired ones are forgotten. -/
theorem foldl_reap (ids : List String) (h : Owned s) (acc : List String) :
    Owned (ids.foldl (reap ttl now) (s, acc)).1 ∧
    (∀ j, (ids.foldl (reap ttl now) (s, acc)).1.find j =
      if j ∈ ids ∧ (s.find j).any (expired ttl now) then none else s.find j) ∧
    (ids.Nodup → (ids.foldl (reap ttl now) (s, acc)).2 =
      acc ++ ids.filter fun j => (s.find j).any (expired ttl now)) := by
  induction ids generalizing s acc with
  | nil =>
    refine ⟨h, fun j => ?_, fun _ => (List.append_nil acc).symm⟩
    rw [if_neg fun hj => List.not_mem_nil hj.1]
    rfl
  | cons id ids ih =>
    rw [List.foldl_cons]
    obtain ⟨r, hfind, hexp, heq⟩ | ⟨hexp, heq⟩ := reap_cases s acc id ttl now
    · rw [heq]
      obtain ⟨howned, hfinds, hids⟩ := ih (h.tornDown hfind) (acc ++ [id])
      have hat : ∀ j, ((tearDown s r).pop id).find j = if j = id then none else s.find j :=
        fun j => find_pop
      have hany : (s.find id).any (expired ttl now) = true := by
        rw [hfind]
        exact hexp
      refine ⟨howned, fun j => ?_, fun hnodup => ?_⟩
      · rw [hfinds]
        have hatj := hat j
        by_cases hj : j = id
        · subst hj
          rw [if_pos rfl] at hatj
          rw [hatj, ite_self, if_pos ⟨List.mem_cons_self, hany⟩]
        · rw [if_neg hj] at hatj
          rw [hatj]
          simp only [List.mem_cons, hj, false_or]
      · obtain ⟨hnot, hrest⟩ := List.nodup_cons.mp hnodup
        have hsame : ids.filter (fun j => (((tearDown s r).pop id).find j).any (expired ttl now)) =
            ids.filter fun j => (s.find j).any (expired ttl now) := by
          refine List.filter_congr fun j hj => ?_
          have hne : j ≠ id := fun hji => hnot (hji ▸ hj)
          rw [hat, if_neg hne]
        have hcons : ((id :: ids).filter fun j => (s.find j).any (expired ttl now)) =
            id :: ids.filter fun j => (s.find j).any (expired ttl now) :=
          List.filter_cons_of_pos hany
        rw [hids hrest, hsame, hcons, List.append_assoc]
        rfl
    · rw [heq]
      obtain ⟨howned, hfinds, hids⟩ := ih h acc
      refine ⟨howned, fun j => ?_, fun hnodup => ?_⟩
      · rw [hfinds]
        by_cases hj : j = id
        · subst hj
          rw [hexp, if_neg (fun hc => by cases hc.2), if_neg (fun hc => by cases hc.2)]
        · simp only [List.mem_cons, hj, false_or]
      · have hcons : ((id :: ids).filter fun j => (s.find j).any (expired ttl now)) =
            ids.filter fun j => (s.find j).any (expired ttl now) :=
          List.filter_cons_of_neg (by rw [hexp]; exact Bool.false_ne_true)
        rw [hids (List.nodup_cons.mp hnodup).2, hcons]

theorem find_eq_none_of_not_mem (hid : id ∉ s.records.map (·.1)) : s.find id = none :=
  Lib.lookup_of_not_key hid

theorem Owned.idle (h : Owned s) : Owned (idleUnmountExpired s ttl now).1 :=
  (foldl_reap _ h []).1

theorem idle_find (h : Owned s) : (idleUnmountExpired s ttl now).1.find id =
    if (s.find id).any (expired ttl now) then none else s.find id := by
  unfold idleUnmountExpired
  rw [(foldl_reap _ h []).2.1 id]
  by_cases hmem : id ∈ s.records.map (·.1)
  · simp only [hmem, true_and]
  · rw [find_eq_none_of_not_mem hmem, if_neg fun hc => hmem hc.1, ite_self]

/-- **The reaper**: it answers the expired ids, in the order of the table. -/
theorem idle_ids (h : Owned s) : (idleUnmountExpired s ttl now).2 =
    (s.records.map (·.1)).filter fun j => (s.find j).any (expired ttl now) :=
  (foldl_reap _ h []).2.2 h.keys

theorem Owned.stopAll (h : Owned s) : Owned (stopAll s) := by
  unfold ChildMounts.stopAll
  generalize (s.records.map (·.1)).reverse = ids
  induction ids generalizing s with
  | nil => exact h
  | cons id ids ih => exact ih h.forceUnmount

/-! ### A call -/

theorem managerStep_owned (h : Owned s) (c : ManagerCall) : Owned (managerStep cfg s c) := by
  cases c with
  | mountAt m mountpoint requireExisting incrementRef site => exact (mountAtUnlocked_does h).owned h
  | mountRwAt m mountpoint requireExisting incrementRef site =>
    exact (mountRwAtUnlocked_does h).owned h
  | unmount id => exact h.unmount
  | release id now => exact h.release
  | forceUnmount id => exact h.forceUnmount
  | idleUnmountExpired ttl now => exact h.idle
  | stopAll => exact h.stopAll

/-- A handle that a call unmounts was its owner's. -/
theorem Owned.lost (hs : Owned s) (ht : Owned t) {k : Nat} (hk : s.isMounted k = true)
    (hk' : t.isMounted k = false) :
    ∃ id r, s.find id = some r ∧ r.handle = k ∧ ∀ r', t.find id = some r' → r'.handle ≠ k := by
  have howner : ∃ id r, s.find id = some r ∧ r.handle = k := by
    unfold ChildMountManager.isMounted at hk
    cases he : s.handles[k]? with
    | none =>
      rw [he] at hk
      cases hk
    | some e =>
      rcases hs.rest k e he with howner | hend
      · exact howner
      · rw [he, hend] at hk
        cases hk
  obtain ⟨id, r, hfind, hhandle⟩ := howner
  refine ⟨id, r, hfind, hhandle, fun r' hfind' heq => ?_⟩
  have hmounted := ht.isMounted hfind'
  rw [heq, hk'] at hmounted
  cases hmounted

theorem find_iff_mem (h : Owned s) : s.find id = some r ↔ (id, r) ∈ s.records :=
  Lib.lookup_eq_some_iff_mem h.keys

end Kept

/-! ## 5. Over all runs -/

/-- **The life cycle of the handles**: every handle is in exactly one record and mounted, or was
    unmounted exactly once and is in none; a child has one record at most, and no record has a
    negative number of references. -/
structure LifeCycle (s : ChildMountManager) : Prop where
  handle : ∀ k e, s.handles[k]? = some e →
    (e = { mounted := true, unmounts := 0 } ∧ ∃! x, x ∈ s.records ∧ x.2.handle = k) ∨
    (e = { mounted := false, unmounts := 1 } ∧ ∀ x ∈ s.records, x.2.handle ≠ k)
  owned : ∀ x ∈ s.records, x.2.handle < s.handles.length
  children : (s.records.map (·.2.manifestId)).Nodup
  counts : ∀ x ∈ s.records, 0 ≤ x.2.refcount

/-- **What a call leaves alone**: a refused mount call changes nothing; `unmount` unmounts a handle
    only with its record's last reference, and the reaper one without references. -/
structure Leaves (cfg : ManagerConfig) (s : ChildMountManager) (c : ManagerCall)
    (t : ChildMountManager) : Prop where
  refused : (managerCall cfg s c).2 = true → t = s
  unmount : ∀ id, c = .unmount id → ∀ k, s.isMounted k = true → t.isMounted k = false →
    ∃ r, s.find id = some r ∧ r.handle = k ∧ r.refcount ≤ 1
  idle : ∀ ttl now, c = .idleUnmountExpired ttl now → ∀ k, s.isMounted k = true →
    t.isMounted k = false → ∃ id r, s.find id = some r ∧ r.handle = k ∧ r.refcount = 0

section Runs

variable {cfg : ManagerConfig} {s t : ChildMountManager}

theorem Owned.start : Owned {} where
  keys := List.nodup_nil
  record := fun _ _ h => by cases h
  apart := fun _ _ _ _ h => by cases h
  rest := fun _ _ h => by cases h

theorem Owned.lifeCycle (h : Owned s) : LifeCycle s where
  handle := by
    intro k e he
    have hcases : (∃ id r, s.find id = some r ∧ r.handle = k) ∨
        ¬ ∃ id r, s.find id = some r ∧ r.handle = k := Classical.em _
    rcases hcases with ⟨id, r, hfind, hk⟩ | hnone
    · have hmounted := (h.record id r hfind).2.2
      rw [hk, he] at hmounted
      refine .inl ⟨Option.some.inj hmounted, (id, r), ⟨(find_iff_mem h).mp hfind, hk⟩, ?_⟩
      intro x hx
      have hfind' : s.find x.1 = some x.2 := (find_iff_mem h).mpr hx.1
      have hid : x.1 = id := h.apart x.1 id x.2 r hfind' hfind (hx.2.trans hk.symm)
      rw [hid, hfind] at hfind'
      exact Prod.ext hid (Option.some.inj hfind').symm
    · refine .inr ⟨(h.rest k e he).resolve_left hnone, fun x hx hk => ?_⟩
      exact hnone ⟨x.1, x.2, (find_iff_mem h).mpr hx, hk⟩
  owned := by
    intro x hx
    have hmounted := (h.record x.1 x.2 ((find_iff_mem h).mpr hx)).2.2
    exact (List.getElem?_eq_some_iff.mp hmounted).1
  children := by
    have hsame : s.records.map (·.2.manifestId) = s.records.map (·.1) :=
      List.map_congr_left fun x hx => (h.record x.1 x.2 ((find_iff_mem h).mpr hx)).1
    rw [hsame]
    exact h.keys
  counts := fun x hx => (h.record x.1 x.2 ((find_iff_mem h).mpr hx)).2.1

theorem MountDoes.refused_keeps {m : ChildManifest} {mountpoint : String} {incrementRef : Bool}
    {now : ℚ} {x : Mounted} (hdoes : MountDoes s m mountpoint incrementRef now x)
    (hno : (!x.2.isOk) = true) : x.1 = s := by
  cases hdoes with
  | refused e => rfl
  | reused _ _ _ _ => cases hno
  | made _ _ _ _ _ _ => cases hno

theorem managerStep_leaves (h : Owned s) (c : ManagerCall) :
    Leaves cfg s c (managerStep cfg s c) where
  refused := by
    intro hno
    cases c with
    | mountAt m mountpoint requireExisting incrementRef site =>
      exact (mountAtUnlocked_does h).refused_keeps hno
    | mountRwAt m mountpoint requireExisting incrementRef site =>
      exact (mountRwAtUnlocked_does h).refused_keeps hno
    | unmount id => cases hno
    | release id now => cases hno
    | forceUnmount id => cases hno
    | idleUnmountExpired ttl now => cases hno
    | stopAll => cases hno
  unmount := by
    rintro id rfl k hk hk'
    have heq' : managerStep cfg s (.unmount id) = unmount s id := rfl
    rw [heq'] at hk'
    obtain ⟨j, r, hfind, hhandle, hgone⟩ := h.lost h.unmount hk hk'
    obtain ⟨_, heq⟩ | ⟨q, hq, _, heq⟩ | ⟨q, hq, hcount, _, hfinds⟩ := unmount_cases h id
    · rw [heq, hk] at hk'
      cases hk'
    · -- a reference is left, so the record and its handle stay
      exfalso
      rw [heq] at hgone
      by_cases hj : j = id
      · subst hj
        rw [hfind] at hq
        obtain rfl := Option.some.inj hq
        exact hgone _ (find_put.trans (if_pos rfl)) hhandle
      · exact hgone r (find_put.trans ((if_neg hj).trans hfind)) hhandle
    · by_cases hj : j = id
      · subst hj
        rw [hfind] at hq
        obtain rfl := Option.some.inj hq
        exact ⟨r, hfind, hhandle, hcount⟩
      · exact absurd hhandle (hgone r ((hfinds j).trans ((if_neg hj).trans hfind)))
  idle := by
    rintro ttl now rfl k hk hk'
    have heq : managerStep cfg s (.idleUnmountExpired ttl now) =
        (idleUnmountExpired s ttl now).1 := rfl
    rw [heq] at hk'
    obtain ⟨j, r, hfind, hhandle, hgone⟩ := h.lost h.idle hk hk'
    have hnonneg := (h.record j r hfind).2.1
    refine ⟨j, r, hfind, hhandle, ?_⟩
    by_contra hcount
    have hpos : ¬ r.refcount ≤ 0 := by omega
    have hkept : (idleUnmountExpired s ttl now).1.find j = some r := by
      rw [idle_find h, hfind]
      simp only [Option.any_some, expired, decide_eq_false hpos, Bool.false_and,
        Bool.false_eq_true, ↓reduceIte]
    exact hgone r hkept hhandle

/-- **The handles have an exact life cycle**: in every run of calls from the empty table, the table
    has it in every state, and no call does more than it may. -/
theorem handles_lifeCycle (cfg : ManagerConfig) {tr : List (Lib.Trans ChildMountManager ManagerCall)}
    (hrun : Lib.Run (fun a c b => b = managerStep cfg a c) {} tr t) :
    LifeCycle t ∧ ∀ x ∈ tr, LifeCycle x.pre ∧ LifeCycle x.post ∧ Leaves cfg x.pre x.ev x.post := by
  have hinv := Lib.Run.invariant hrun (I := Owned) (G := fun _ _ => True) Owned.start
    (fun a c b ha _ hb => hb ▸ managerStep_owned ha c) (fun _ _ => trivial)
  refine ⟨hinv.1.lifeCycle, fun x hx => ?_⟩
  obtain ⟨hpre, hpost⟩ := hinv.2 x hx
  have hstep : x.post = managerStep cfg x.pre x.ev := hrun.isStep x hx
  exact ⟨hpre.lifeCycle, hpost.lifeCycle, hstep ▸ managerStep_leaves hpre x.ev⟩

end Runs

/-- A shared child without packs. -/
def library : ChildManifest where
  id := "library"
  name := "library"
  type := "env"
  generation := 1
  overlay := { activeUpper := "overlays/library/active" }

/-- Mounted, released, reaped and mounted again. -/
def libraryCalls : List ManagerCall :=
  [.mountRwAt library "/srv/library" false true {}, .release "library" 1,
    .idleUnmountExpired 5 10, .mountRwAt library "/srv/library" false true { now := 12 }]

theorem handles_lifeCycle_library :
    LifeCycle (libraryCalls.foldl (managerStep { mountsDir := "/run" }) {}) ∧
      (libraryCalls.foldl (managerStep { mountsDir := "/run" }) {}).handles =
        [{ mounted := false, unmounts := 1 }, {}] :=
  ⟨(handles_lifeCycle { mountsDir := "/run" }
    (.step (.step (.step (.step .start rfl) rfl) rfl) rfl)).1, by decide +kernel⟩

end CccStorage.ChildMounts
