/-
  File:      CccStorage/WriterRecords.lean
  Subject:   The mount records of one manager and the writer locks it holds, over its calls one
             after the other, with the steps between them that raise (`mountd/childmount.py`).

  Every call orders the lock, the mount and the record differently: a mount takes the lock first
  and registers last, `unmount` and the reaper take the record out last, `force_unmount` and
  `stop_all` first.

  * `MountManager`, `managerNext` -- the records, the mounts, the lock files, and the calls;
  * `FollowsRecords` -- the lock of a child is held exactly while its writable async mount is
    registered, and every mount has a record;
  * `ManagerInv` -- what carries it from call to call;
  * `Unfailing` -- no step raises between the lock and its `try`, or once the record is out;
  * `locksFollowRecords_iff` -- the runs in which the locks follow the records;
  * `failedHydrate` -- a mount that leaves its lock behind.
-/
import CccStorage.Lib.Dict
import CccStorage.Lib.Run
import CccStorage.Lib.Steps
import CccStorage.ManagedParent

namespace CccStorage

/-! ## 1. The manager -/

/-- A mount record of the manager. -/
structure ManagedMount where
  manifestId : String
  mountpoint : String
  handle : Nat
  mode : MountMode
  writePolicy : WritePolicy
  refcount : Int := 1
  lastUsed : Int
  /-- It has the lock object of the child. -/
  writerLock : Bool := false
  baseGeneration : Nat := 0
  deriving DecidableEq

/-- Who made a lock file. -/
inductive LockOwner where
  /-- This manager, for a child. -/
  | here (id : String)
  | elsewhere
  deriving DecidableEq

structure MountManager where
  /-- `_records`. -/
  records : List (String × ManagedMount) := []
  /-- The handles that are mounted. -/
  mounted : List Nat := []
  nextHandle : Nat := 0
  lockFiles : String → Option LockOwner
  /-- The epochs that this manager has published, by child. -/
  epochs : String → Nat := fun _ => 0

/-- `_writer_lock_path`, below `locks`. -/
def writerLockName (id : String) : String := safeNamespaceName id ++ ".local-writer.lock"

/-- The steps of a mount that may raise. -/
inductive MountFault where
  /-- `mkdir` and `apply` of the mountpoint. -/
  | mountpoint
  | activeUpper
  /-- `mkdir` and `apply` of the local directories. -/
  | localDirs
  | hydrate
  | latestMirror
  /-- A mount of packs, of a mirror or of an overlay. -/
  | packs
  deriving DecidableEq

inductive ManagerError where
  | mount (error : MountError)
  | notExisting (id mountpoint : String)
  | noActiveUpper (id : String)
  | noMirror (id : String)
  | noNfsRoot
  | fault (step : MountFault)
  | publish (id : String)
  | keyError (id : String)
  deriving DecidableEq

/-- What the steps of a call find, and which of them raise. -/
structure MountAnswers where
  nfsRoot : Bool := true
  isDir : String → Bool := fun _ => true
  /-- A mirror of the child has been published. -/
  mirrored : String → Bool := fun _ => false
  /-- The child's local upper is a directory and dirty. -/
  dirty : String → Bool := fun _ => false
  raises : MountFault → Bool := fun _ => false
  publishRaises : String → Bool := fun _ => false
  clock : Int := 0

/-- A writable view asked for. -/
structure RwRequest where
  manifest : ChildManifest
  mountpoint : String
  requireExisting : Bool := true
  prepareMountpoint : Bool := true
  incrementRef : Bool := true

namespace MountManager

/-- `_records.get`. -/
def get (s : MountManager) (id : String) : Option ManagedMount := s.records.lookup id

def setRecord (s : MountManager) (id : String) (r : ManagedMount) : MountManager :=
  { s with records := Lib.dictSet s.records id r }

def pop (s : MountManager) (id : String) : MountManager :=
  { s with records := Lib.dictPop s.records id }

/-- A record whose handle is mounted. -/
def live (s : MountManager) (id : String) : Option ManagedMount :=
  (s.get id).filter fun r => decide (r.handle ∈ s.mounted)

def setLock (s : MountManager) (id : String) (owner : Option LockOwner) : MountManager :=
  { s with lockFiles := Function.update s.lockFiles (writerLockName id) owner }

/-- `handle.unmount()`, and the release of the record's lock. -/
def close (s : MountManager) (r : ManagedMount) : MountManager :=
  { s with
    mounted := s.mounted.filter fun h => decide (h ≠ r.handle)
    lockFiles := if r.writerLock then
      Function.update s.lockFiles (writerLockName r.manifestId) none else s.lockFiles }

/-- The record of a new mount. -/
def newMount (s : MountManager) (m : ChildManifest) (mountpoint : String) (mode : MountMode)
    (writerLock : Bool) (now : Int) : ManagedMount where
  manifestId := m.id
  mountpoint := mountpoint
  handle := s.nextHandle
  mode := mode
  writePolicy := m.writePolicy
  lastUsed := now
  writerLock := writerLock
  baseGeneration := m.generation

/-- A view is mounted, and its record registered. -/
def register (s : MountManager) (m : ChildManifest) (mountpoint : String) (mode : MountMode)
    (writerLock : Bool) (now : Int) : MountManager :=
  { s.setRecord m.id (s.newMount m mountpoint mode writerLock now) with
    mounted := s.nextHandle :: s.mounted
    nextHandle := s.nextHandle + 1 }

end MountManager

abbrev ManagerOutcome := Lib.Outcome MountManager ManagerError

/-! ## 2. Its calls -/

section Calls

variable (a : MountAnswers)

/-- What `_reuse_existing` does when the record is live. -/
def reuseLive (s : MountManager) (m : ChildManifest) (r : ManagedMount) (mountpoint : String)
    (mode : MountMode) (incrementRef : Bool) : ManagerOutcome :=
  if r.mountpoint ≠ mountpoint then
    (s, .error (.mount (.otherMountpoint m.id r.mountpoint mountpoint)))
  else if r.mode ≠ mode then (s, .error (.mount (.otherMode m.id r.mode mode)))
  else if r.writePolicy ≠ m.writePolicy then
    (s, .error (.mount (.otherPolicy m.id r.writePolicy m.writePolicy)))
  else
    (s.setRecord m.id { r with
      refcount := if incrementRef then r.refcount + 1 else r.refcount
      lastUsed := a.clock }, .ok ())

/-- `_mount_at_unlocked` with `require_existing=False`, as a held writer lock calls it. -/
def mountPacksRo (s : MountManager) (m : ChildManifest) (mountpoint : String) : ManagerOutcome :=
  match s.live m.id with
  | some r => reuseLive a s m r mountpoint .ro false
  | none =>
    if m.lowers = [] then (s, .error (.mount (.noLowers m.id)))
    else if a.raises .mountpoint then (s, .error (.fault .mountpoint))
    else if a.raises .packs then (s, .error (.fault .packs))
    else (s.register m mountpoint .ro false a.clock, .ok ())

/-- `_mount_published_mirror_ro`. -/
def mountPublishedMirrorRo (s : MountManager) (q : RwRequest) : ManagerOutcome :=
  if a.raises .latestMirror then (s, .error (.fault .latestMirror))
  else if a.mirrored q.manifest.id then
    if q.prepareMountpoint && a.raises .mountpoint then (s, .error (.fault .mountpoint))
    else if a.raises .packs then (s, .error (.fault .packs))
    else (s.register q.manifest q.mountpoint .ro false a.clock, .ok ())
  else if q.manifest.lowers = [] then (s, .error (.noMirror q.manifest.id))
  else mountPacksRo a s q.manifest q.mountpoint

/-- `_mount_rw_shared_nfs`. -/
def mountRwSharedNfs (s : MountManager) (q : RwRequest) : ManagerOutcome :=
  if q.requireExisting && !a.isDir q.mountpoint then
    (s, .error (.notExisting q.manifest.id q.mountpoint))
  else if !q.requireExisting && q.prepareMountpoint && a.raises .mountpoint then
    (s, .error (.fault .mountpoint))
  else if q.manifest.overlay.activeUpper = "" then (s, .error (.noActiveUpper q.manifest.id))
  else if a.raises .activeUpper then (s, .error (.fault .activeUpper))
  else if a.raises .packs then (s, .error (.fault .packs))
  else (s.register q.manifest q.mountpoint .rw false a.clock, .ok ())

/-- `_mount_rw_local_ssd_async`. -/
def mountRwLocalSsdAsync (s : MountManager) (q : RwRequest) : ManagerOutcome :=
  if !a.nfsRoot then (s, .error .noNfsRoot)
  else if q.requireExisting && !a.isDir q.mountpoint then
    (s, .error (.notExisting q.manifest.id q.mountpoint))
  else
    match s.lockFiles (writerLockName q.manifest.id) with
    -- `LockHeld`
    | some _ => mountPublishedMirrorRo a s q
    | none =>
      let locked := s.setLock q.manifest.id (some (.here q.manifest.id))
      if a.raises .localDirs then (locked, .error (.fault .localDirs))
      else if a.raises .hydrate then (locked, .error (.fault .hydrate))
      -- the only step in the `try`
      else if a.raises .packs then (locked.setLock q.manifest.id none, .error (.fault .packs))
      else (locked.register q.manifest q.mountpoint .rw true a.clock, .ok ())

/-- `mount_rw_at`. -/
def mountRwAtCall (s : MountManager) (q : RwRequest) : ManagerOutcome :=
  match s.live q.manifest.id with
  | some r => reuseLive a s q.manifest r q.mountpoint .rw q.incrementRef
  | none =>
    match q.manifest.writePolicy with
    | .sharedNfs => mountRwSharedNfs a s q
    | .localSsdAsync => mountRwLocalSsdAsync a s q

/-- `_publish_record`; a heartbeat that raises is passed over. -/
def publishMount (s : MountManager) (r : ManagedMount) : ManagerOutcome :=
  if r.writePolicy ≠ .localSsdAsync ∨ r.mode ≠ .rw ∨ r.writerLock = false ∨ a.nfsRoot = false then
    (s, .ok ())
  else if a.publishRaises r.manifestId then (s, .error (.publish r.manifestId))
  else if a.dirty r.manifestId then
    ({ s with epochs := Function.update s.epochs r.manifestId (s.epochs r.manifestId + 1) }, .ok ())
  else (s, .ok ())

/-- Publish, unmount, release, and take the record out. -/
def tearDown (s : MountManager) (id : String) (r : ManagedMount) : ManagerOutcome :=
  (publishMount a s r).andThen fun s => ((s.close r).pop id, .ok ())

def unmountCall (s : MountManager) (id : String) : ManagerOutcome :=
  match s.get id with
  | none => (s, .ok ())
  | some r =>
    let r := { r with refcount := r.refcount - 1 }
    let s := s.setRecord id r
    if r.refcount ≤ 0 then tearDown a s id r else (s, .ok ())

/-- The record is out before it is published. -/
def popAndClose (s : MountManager) (id : String) (r : ManagedMount) : ManagerOutcome :=
  (publishMount a (s.pop id) r).andThen fun s => (s.close r, .ok ())

def forceUnmountCall (s : MountManager) (id : String) : ManagerOutcome :=
  match s.get id with
  | none => (s, .ok ())
  | some r => popAndClose a s id r

/-- `release`: drop one open handle. -/
def releaseCall (s : MountManager) (id : String) : ManagerOutcome :=
  match s.get id with
  | none => (s, .ok ())
  | some r =>
    (s.setRecord id { r with
      refcount := if 0 < r.refcount then r.refcount - 1 else r.refcount
      lastUsed := a.clock }, .ok ())

/-- One round of `idle_unmount_expired`. -/
def expireChild (ttl now : Int) (id : String) (s : MountManager) : ManagerOutcome :=
  match s.get id with
  | none => (s, .error (.keyError id))
  | some r =>
    if 0 < r.refcount then (s, .ok ())
    else if ttl ≤ now - r.lastUsed then tearDown a s id r
    else (s, .ok ())

def idleUnmountExpired (ttl now : Int) (s : MountManager) : ManagerOutcome :=
  Lib.forEach (expireChild a ttl now) (s.records.map (·.1)) s

def publishDirty (s : MountManager) (id : String) : ManagerOutcome :=
  match s.get id with
  | none => (s, .ok ())
  | some r => publishMount a s r

def publishAllDirty (s : MountManager) : ManagerOutcome :=
  Lib.forEach (fun r s => publishMount a s r) (s.records.map (·.2)) s

/-- One round of `stop_all`. -/
def stopChild (id : String) (s : MountManager) : ManagerOutcome :=
  match s.get id with
  | none => (s, .error (.keyError id))
  | some r => popAndClose a s id r

def stopAll (s : MountManager) : ManagerOutcome :=
  Lib.forEach (stopChild a) (s.records.map (·.1)).reverse s

end Calls

/-! ## 3. Runs -/

inductive ManagerCall where
  | mountRwAt (q : RwRequest)
  | unmount (id : String)
  | forceUnmount (id : String)
  | release (id : String)
  | idleUnmountExpired (ttl now : Int)
  | publishDirty (id : String)
  | publishAllDirty
  | stopAll

def runCall (a : MountAnswers) (s : MountManager) : ManagerCall → ManagerOutcome
  | .mountRwAt q => mountRwAtCall a s q
  | .unmount id => unmountCall a s id
  | .forceUnmount id => forceUnmountCall a s id
  | .release id => releaseCall a s id
  | .idleUnmountExpired ttl now => idleUnmountExpired a ttl now s
  | .publishDirty id => publishDirty a s id
  | .publishAllDirty => publishAllDirty a s
  | .stopAll => stopAll a s

inductive ManagerEvent where
  | call (c : ManagerCall) (a : MountAnswers)
  /-- Another node, or a commit, takes the writer lock of a child, or releases it. -/
  | others (id : String)

/-- Another holder comes where the lock is free, and goes where it is its own. -/
def othersLock : Option LockOwner → Option LockOwner
  | none => some .elsewhere
  | some .elsewhere => none
  | some (.here id) => some (.here id)

/-- **The next state of the manager**, whether the call returns or raises. -/
def managerNext (s : MountManager) : ManagerEvent → MountManager
  | .call c a => (runCall a s c).1
  | .others id => s.setLock id (othersLock (s.lockFiles (writerLockName id)))

/-- **A new manager**, with the locks that others hold. -/
def newManager (held : String → Bool) : MountManager where
  lockFiles := fun name => if held name then some .elsewhere else none

/-- **The locks follow the records.** -/
structure FollowsRecords (s : MountManager) : Prop where
  lock : ∀ id, s.lockFiles (writerLockName id) = some (.here id) ↔ ∃ r, s.get id = some r ∧
    r.handle ∈ s.mounted ∧ r.mode = .rw ∧ r.writePolicy = .localSsdAsync
  mount : ∀ h ∈ s.mounted, ∃ id r, s.get id = some r ∧ r.handle = h

/-- No lock and no mount is left. -/
def Cleared (s : MountManager) : Prop :=
  (∀ name id, s.lockFiles name ≠ some (.here id)) ∧ s.mounted = []

/-- The publish of a record raises. -/
def MountAnswers.FailsPublish (a : MountAnswers) (r : ManagedMount) : Prop :=
  r.writerLock = true ∧ a.nfsRoot = true ∧ a.publishRaises r.manifestId = true

/-- A mount that takes the writer lock of its child. -/
def TakesLock (a : MountAnswers) (s : MountManager) (q : RwRequest) : Prop :=
  s.live q.manifest.id = none ∧ q.manifest.writePolicy = .localSsdAsync ∧ a.nfsRoot = true ∧
    (q.requireExisting = true → a.isDir q.mountpoint = true) ∧
    s.lockFiles (writerLockName q.manifest.id) = none

/-- **No step raises between the lock and the `try`, or once a record is out.** -/
def Unfailing (s : MountManager) : ManagerEvent → Prop
  | .call (.mountRwAt q) a =>
    TakesLock a s q → a.raises .localDirs = false ∧ a.raises .hydrate = false
  | .call (.forceUnmount id) a => ∀ r, s.get id = some r → ¬ a.FailsPublish r
  | .call .stopAll a => ∀ id r, s.get id = some r → ¬ a.FailsPublish r
  | _ => True

/-! ## 4. What holds between two calls -/

/-- **The invariant of the calls.** -/
structure ManagerInv (s : MountManager) : Prop where
  nodup : (s.records.map (·.1)).Nodup
  ids : ∀ {id r}, s.get id = some r → r.manifestId = id
  live : ∀ {id r}, s.get id = some r → r.handle ∈ s.mounted
  only : ∀ {id id' r r'}, s.get id = some r → s.get id' = some r' → r.handle = r'.handle → id = id'
  covered : ∀ h ∈ s.mounted, ∃ id r, s.get id = some r ∧ r.handle = h
  fresh : ∀ h ∈ s.mounted, h < s.nextHandle
  writer : ∀ {id r}, s.get id = some r →
    (r.writerLock = true ↔ r.mode = .rw ∧ r.writePolicy = .localSsdAsync)
  locked : ∀ id, s.lockFiles (writerLockName id) = some (.here id) ↔
    ∃ r, s.get id = some r ∧ r.writerLock = true
  owned : ∀ {name id}, s.lockFiles name = some (.here id) → name = writerLockName id

section Invariant

variable {s t : MountManager} {id id' : String} {r r' : ManagedMount} {a : MountAnswers}

theorem get_setRecord (s : MountManager) (id id' : String) (r : ManagedMount) :
    (s.setRecord id r).get id' = if id' = id then some r else s.get id' :=
  Lib.lookup_dictSet s.records id id' r

theorem get_pop (s : MountManager) (id id' : String) :
    (s.pop id).get id' = if id' = id then none else s.get id' :=
  Lib.lookup_dictPop s.records id id'

theorem ManagerInv.followsRecords (h : ManagerInv s) : FollowsRecords s where
  lock := by
    intro id
    rw [h.locked id]
    constructor
    · intro ⟨r, hr, hlock⟩
      obtain ⟨hmode, hpolicy⟩ := (h.writer hr).mp hlock
      exact ⟨r, hr, h.live hr, hmode, hpolicy⟩
    · intro ⟨r, hr, _, hmode, hpolicy⟩
      exact ⟨r, hr, (h.writer hr).mpr ⟨hmode, hpolicy⟩⟩
  mount := h.covered

/-- The invariant is about the records, the mounts and the locks. -/
theorem ManagerInv.congr (h : ManagerInv s) (hrecords : t.records = s.records)
    (hmounted : t.mounted = s.mounted) (hnext : t.nextHandle = s.nextHandle)
    (hlocks : t.lockFiles = s.lockFiles) : ManagerInv t := by
  have hget : ∀ id, t.get id = s.get id := fun id => by
    unfold MountManager.get
    rw [hrecords]
  exact {
    nodup := hrecords ▸ h.nodup
    ids := fun hr => h.ids (hget _ ▸ hr)
    live := fun hr => hmounted ▸ h.live (hget _ ▸ hr)
    only := fun hr hr' heq => h.only (hget _ ▸ hr) (hget _ ▸ hr') heq
    covered := by
      intro x hx
      obtain ⟨id, r, hr, heq⟩ := h.covered x (hmounted ▸ hx)
      exact ⟨id, r, hget id ▸ hr, heq⟩
    fresh := fun x hx => hnext ▸ h.fresh x (hmounted ▸ hx)
    writer := fun hr => h.writer (hget _ ▸ hr)
    locked := by
      intro id
      rw [hlocks, h.locked id]
      simp only [hget]
    owned := fun hn => h.owned (hlocks ▸ hn) }

/-- A registered record is always live. -/
theorem ManagerInv.live_eq (h : ManagerInv s) (id : String) : s.live id = s.get id := by
  unfold MountManager.live
  cases hr : s.get id with
  | none => rfl
  | some r => exact Option.filter_some_pos (decide_eq_true (h.live hr))

/-- **A count or a time of use changes.** -/
theorem ManagerInv.refresh (h : ManagerInv s) (hr : s.get id = some r) (hid : r'.manifestId = id)
    (hhandle : r'.handle = r.handle) (hmode : r'.mode = r.mode)
    (hpolicy : r'.writePolicy = r.writePolicy) (hlock : r'.writerLock = r.writerLock) :
    ManagerInv (s.setRecord id r') := by
  -- whatever is looked up afterwards differs in its count and its time only
  have hback : ∀ {x y}, (s.setRecord id r').get x = some y → ∃ z, s.get x = some z ∧
      y.handle = z.handle ∧ y.mode = z.mode ∧ y.writePolicy = z.writePolicy ∧
      y.writerLock = z.writerLock ∧ y.manifestId = x := by
    intro x y hy
    rw [get_setRecord] at hy
    by_cases hx : x = id
    · rw [if_pos hx, Option.some.injEq] at hy
      subst hy
      exact ⟨r, hx ▸ hr, hhandle, hmode, hpolicy, hlock, hid.trans hx.symm⟩
    · rw [if_neg hx] at hy
      exact ⟨y, hy, rfl, rfl, rfl, rfl, h.ids hy⟩
  have hforth : ∀ {x z}, s.get x = some z → ∃ y, (s.setRecord id r').get x = some y ∧
      y.handle = z.handle ∧ y.writerLock = z.writerLock := by
    intro x z hz
    rw [get_setRecord]
    by_cases hx : x = id
    · rw [if_pos hx]
      rw [hx, hr, Option.some.injEq] at hz
      subst hz
      exact ⟨r', rfl, hhandle, hlock⟩
    · rw [if_neg hx]
      exact ⟨z, hz, rfl, rfl⟩
  exact {
    nodup := Lib.nodup_dictSet h.nodup id r'
    ids := by
      intro x y hy
      obtain ⟨z, -, -, -, -, -, hids⟩ := hback hy
      exact hids
    live := by
      intro x y hy
      obtain ⟨z, hz, heq, -⟩ := hback hy
      exact heq ▸ h.live hz
    only := by
      intro x x' y y' hy hy' heq
      obtain ⟨z, hz, hyz, -⟩ := hback hy
      obtain ⟨z', hz', hyz', -⟩ := hback hy'
      exact h.only hz hz' (hyz.symm.trans (heq.trans hyz'))
    covered := by
      intro n hn
      obtain ⟨x, z, hz, heq⟩ := h.covered n hn
      obtain ⟨y, hy, hyz, -⟩ := hforth hz
      exact ⟨x, y, hy, hyz.trans heq⟩
    fresh := h.fresh
    writer := by
      intro x y hy
      obtain ⟨z, hz, -, hm, hp, hl, -⟩ := hback hy
      rw [hl, hm, hp]
      exact h.writer hz
    locked := by
      intro x
      refine (h.locked x).trans ⟨?_, ?_⟩
      · intro ⟨z, hz, hlocked⟩
        obtain ⟨y, hy, -, hl⟩ := hforth hz
        exact ⟨y, hy, hl.trans hlocked⟩
      · intro ⟨y, hy, hlocked⟩
        obtain ⟨z, hz, -, -, -, hl, -⟩ := hback hy
        exact ⟨z, hz, hl.symm.trans hlocked⟩
    owned := h.owned }

/-- **A new mount**: `u` has the lock of the child besides, if the mount is a writer. -/
theorem ManagerInv.register {u : MountManager} {m : ChildManifest} {mountpoint : String}
    {mode : MountMode} {writerLock : Bool} {now : Int} (h : ManagerInv s)
    (hrecords : u.records = s.records) (hmounted : u.mounted = s.mounted)
    (hnext : u.nextHandle = s.nextHandle) (hnone : s.get m.id = none)
    (hwriter : writerLock = true ↔ mode = .rw ∧ m.writePolicy = .localSsdAsync)
    (hlocks : ∀ name x, u.lockFiles name = some (.here x) ↔ s.lockFiles name = some (.here x) ∨
      writerLock = true ∧ x = m.id ∧ name = writerLockName m.id) :
    ManagerInv (u.register m mountpoint mode writerLock now) := by
  have hget : ∀ x, (u.register m mountpoint mode writerLock now).get x =
      if x = m.id then some (u.newMount m mountpoint mode writerLock now) else s.get x := by
    intro x
    have hset := get_setRecord u m.id x (u.newMount m mountpoint mode writerLock now)
    have hsame : u.get x = s.get x := by
      unfold MountManager.get
      rw [hrecords]
    rw [hsame] at hset
    exact hset
  have hnew : (u.register m mountpoint mode writerLock now).get m.id =
      some (u.newMount m mountpoint mode writerLock now) := (hget m.id).trans (if_pos rfl)
  have hkeep : ∀ {x z}, s.get x = some z →
      (u.register m mountpoint mode writerLock now).get x = some z := by
    intro x z hz
    have hne : x ≠ m.id := by
      intro heq
      rw [heq, hnone] at hz
      cases hz
    rw [hget, if_neg hne, hz]
  have hcases : ∀ {x y}, (u.register m mountpoint mode writerLock now).get x = some y →
      x = m.id ∧ y = u.newMount m mountpoint mode writerLock now ∨ s.get x = some y := by
    intro x y hy
    rw [hget] at hy
    by_cases hx : x = m.id
    · rw [if_pos hx, Option.some.injEq] at hy
      exact .inl ⟨hx, hy.symm⟩
    · rw [if_neg hx] at hy
      exact .inr hy
  have hfresh : ∀ {x z}, s.get x = some z → z.handle ≠ u.nextHandle := by
    intro x z hz heq
    have hlt := h.fresh _ (h.live hz)
    omega
  exact {
    nodup := Lib.nodup_dictSet (hrecords ▸ h.nodup) m.id _
    ids := by
      intro x y hy
      rcases hcases hy with ⟨hx, hy⟩ | hz
      · rw [hx, hy]
        rfl
      · exact h.ids hz
    live := by
      intro x y hy
      rcases hcases hy with ⟨-, hy⟩ | hz
      · rw [hy]
        exact List.mem_cons_self
      · exact List.mem_cons_of_mem _ (hmounted ▸ h.live hz)
    only := by
      intro x x' y y' hy hy' heq
      rcases hcases hy with ⟨hx, hnewy⟩ | hz
      · rcases hcases hy' with ⟨hx', -⟩ | hz'
        · rw [hx, hx']
        · rw [hnewy] at heq
          exact absurd heq.symm (hfresh hz')
      · rcases hcases hy' with ⟨-, hnewy⟩ | hz'
        · rw [hnewy] at heq
          exact absurd heq (hfresh hz)
        · exact h.only hz hz' heq
    covered := by
      intro n hn
      rcases List.mem_cons.mp hn with hn | hn
      · exact ⟨m.id, _, hnew, hn.symm⟩
      · obtain ⟨x, z, hz, heq⟩ := h.covered n (hmounted ▸ hn)
        exact ⟨x, z, hkeep hz, heq⟩
    fresh := by
      intro n hn
      show n < u.nextHandle + 1
      rcases List.mem_cons.mp hn with hn | hn
      · omega
      · have hlt := h.fresh n (hmounted ▸ hn)
        omega
    writer := by
      intro x y hy
      rcases hcases hy with ⟨-, hy⟩ | hz
      · rw [hy]
        exact hwriter
      · exact h.writer hz
    locked := by
      intro x
      refine (hlocks (writerLockName x) x).trans ⟨?_, ?_⟩
      · intro hor
        rcases hor with hlock | ⟨hw, hx, -⟩
        · obtain ⟨z, hz, hzl⟩ := (h.locked x).mp hlock
          exact ⟨z, hkeep hz, hzl⟩
        · exact ⟨_, hx ▸ hnew, hw⟩
      · intro ⟨y, hy, hyl⟩
        rcases hcases hy with ⟨hx, hy⟩ | hz
        · rw [hy] at hyl
          exact .inr ⟨hyl, hx, by rw [hx]⟩
        · exact .inl ((h.locked x).mpr ⟨y, hz, hyl⟩)
    owned := by
      intro name x hn
      rcases (hlocks name x).mp hn with hlock | ⟨-, hx, hname⟩
      · exact h.owned hlock
      · rw [hx, hname] }

/-- **A record is closed and taken out.** -/
theorem ManagerInv.close (h : ManagerInv s) (hr : s.get id = some r) :
    ManagerInv ((s.close r).pop id) := by
  have hget : ∀ x, ((s.close r).pop id).get x = if x = id then none else s.get x := fun x =>
    get_pop (s.close r) id x
  have hcases : ∀ {x y}, ((s.close r).pop id).get x = some y → x ≠ id ∧ s.get x = some y := by
    intro x y hy
    rw [hget] at hy
    by_cases hx : x = id
    · rw [if_pos hx] at hy
      cases hy
    · rw [if_neg hx] at hy
      exact ⟨hx, hy⟩
  have hkeep : ∀ {x z}, x ≠ id → s.get x = some z → ((s.close r).pop id).get x = some z := by
    intro x z hx hz
    rw [hget, if_neg hx, hz]
  have hother : ∀ {x z}, x ≠ id → s.get x = some z → z.handle ≠ r.handle := fun hx hz heq =>
    hx (h.only hz hr heq)
  have hmem : ∀ n, n ∈ ((s.close r).pop id).mounted ↔ n ∈ s.mounted ∧ n ≠ r.handle := by
    intro n
    show n ∈ s.mounted.filter (fun h => decide (h ≠ r.handle)) ↔ _
    rw [List.mem_filter, decide_eq_true_eq]
  have hlocks : ∀ name x, ((s.close r).pop id).lockFiles name = some (.here x) ↔
      s.lockFiles name = some (.here x) ∧ x ≠ id := by
    intro name x
    show (if r.writerLock then Function.update s.lockFiles (writerLockName r.manifestId) none
      else s.lockFiles) name = _ ↔ _
    rw [h.ids hr]
    by_cases hw : r.writerLock = true
    · rw [if_pos hw]
      have hfile := (h.locked id).mpr ⟨r, hr, hw⟩
      by_cases hname : name = writerLockName id
      · rw [hname, Function.update_self, hfile]
        constructor
        · intro hnone
          cases hnone
        · intro ⟨hsome, hx⟩
          cases hsome
          exact absurd rfl hx
      · rw [Function.update_of_ne hname]
        refine ⟨fun hlock => ⟨hlock, fun hx => ?_⟩, fun hlock => hlock.1⟩
        exact hname (hx ▸ h.owned hlock)
    · rw [if_neg hw]
      refine ⟨fun hlock => ⟨hlock, fun hx => hw ?_⟩, fun hlock => hlock.1⟩
      have hname := h.owned hlock
      rw [hx] at hlock hname
      rw [hname] at hlock
      obtain ⟨z, hz, hzl⟩ := (h.locked id).mp hlock
      rw [hr, Option.some.injEq] at hz
      rw [hz]
      exact hzl
  exact {
    nodup := Lib.nodup_dictPop h.nodup id
    ids := fun hy => h.ids (hcases hy).2
    live := by
      intro x y hy
      obtain ⟨hx, hz⟩ := hcases hy
      exact (hmem _).mpr ⟨h.live hz, hother hx hz⟩
    only := fun hy hy' heq => h.only (hcases hy).2 (hcases hy').2 heq
    covered := by
      intro n hn
      obtain ⟨hn, hne⟩ := (hmem n).mp hn
      obtain ⟨x, z, hz, heq⟩ := h.covered n hn
      refine ⟨x, z, hkeep ?_ hz, heq⟩
      intro hx
      rw [hx, hr, Option.some.injEq] at hz
      exact hne (hz ▸ heq.symm)
    fresh := fun n hn => h.fresh n ((hmem n).mp hn).1
    writer := fun hy => h.writer (hcases hy).2
    locked := by
      intro x
      refine (hlocks (writerLockName x) x).trans ⟨?_, ?_⟩
      · intro ⟨hlock, hx⟩
        obtain ⟨z, hz, hzl⟩ := (h.locked x).mp hlock
        exact ⟨z, hkeep hx hz, hzl⟩
      · intro ⟨y, hy, hyl⟩
        obtain ⟨hx, hz⟩ := hcases hy
        exact ⟨(h.locked x).mpr ⟨y, hz, hyl⟩, hx⟩
    owned := fun hn => h.owned ((hlocks _ _).mp hn).1 }

/-! ### Publishing and closing -/

theorem publishMount_same (a : MountAnswers) (s : MountManager) (r : ManagedMount) :
    (publishMount a s r).1.records = s.records ∧ (publishMount a s r).1.mounted = s.mounted ∧
      (publishMount a s r).1.nextHandle = s.nextHandle ∧
      (publishMount a s r).1.lockFiles = s.lockFiles := by
  unfold publishMount
  split
  · exact ⟨rfl, rfl, rfl, rfl⟩
  · split
    · exact ⟨rfl, rfl, rfl, rfl⟩
    · split <;> exact ⟨rfl, rfl, rfl, rfl⟩

theorem ManagerInv.publish (h : ManagerInv s) (r : ManagedMount) :
    ManagerInv (publishMount a s r).1 := by
  obtain ⟨h1, h2, h3, h4⟩ := publishMount_same a s r
  exact h.congr h1 h2 h3 h4

/-- A publish raises for a writer only. -/
theorem publishMount_ok_iff (hwriter : r.writerLock = true ↔ r.mode = .rw ∧
    r.writePolicy = .localSsdAsync) : (publishMount a s r).2 = .ok () ↔ ¬ a.FailsPublish r := by
  unfold publishMount MountAnswers.FailsPublish
  by_cases hlock : r.writerLock = true ∧ a.nfsRoot = true
  · obtain ⟨hmode, hpolicy⟩ := hwriter.mp hlock.1
    rw [if_neg (by simp [hmode, hpolicy, hlock.1, hlock.2])]
    by_cases hraise : a.publishRaises r.manifestId = true
    · rw [if_pos hraise]
      exact ⟨fun hok => (by cases hok), fun hn => absurd ⟨hlock.1, hlock.2, hraise⟩ hn⟩
    · rw [if_neg hraise]
      refine ⟨fun _ hfail => hraise hfail.2.2, fun _ => ?_⟩
      split <;> rfl
  · have hskip : r.writePolicy ≠ .localSsdAsync ∨ r.mode ≠ .rw ∨ r.writerLock = false ∨
        a.nfsRoot = false := by
      cases hw : r.writerLock with
      | false => exact .inr (.inr (.inl rfl))
      | true =>
          cases hroot : a.nfsRoot with
          | false => exact .inr (.inr (.inr rfl))
          | true => exact absurd ⟨hw, hroot⟩ hlock
    rw [if_pos hskip]
    exact ⟨fun _ hfail => hlock ⟨hfail.1, hfail.2.1⟩, fun _ => rfl⟩

/-- `unmount` and the reaper keep a record whose publish raises. -/
theorem ManagerInv.tearDown (h : ManagerInv s) (hr : s.get id = some r) :
    ManagerInv (tearDown a s id r).1 := by
  refine Lib.Outcome.andThen_invariant (I := ManagerInv) (h.publish r) fun _ => ?_
  refine (h.publish r).close ?_
  unfold MountManager.get
  rw [(publishMount_same a s r).1]
  exact hr

/-- **A record that is out is published and closed**, and nothing else changes. -/
theorem ManagerInv.popAndClose (h : ManagerInv s) (hr : s.get id = some r)
    (hok : ¬ a.FailsPublish r) :
    ManagerInv (popAndClose a s id r).1 ∧ (popAndClose a s id r).2 = .ok () ∧
      ∀ x, (popAndClose a s id r).1.get x = if x = id then none else s.get x := by
  obtain ⟨h1, h2, h3, h4⟩ := publishMount_same a (s.pop id) r
  have hpublished := (publishMount_ok_iff (s := s.pop id) (h.writer hr)).mpr hok
  unfold CccStorage.popAndClose
  rw [Lib.Outcome.andThen_ok hpublished]
  refine ⟨(h.close hr).congr h1 ?_ h3 ?_, rfl, fun x => ?_⟩
  · show List.filter _ (publishMount a (s.pop id) r).1.mounted = _
    rw [h2]
    rfl
  · show (if r.writerLock then Function.update (publishMount a (s.pop id) r).1.lockFiles _ none
      else (publishMount a (s.pop id) r).1.lockFiles) = _
    rw [h4]
    rfl
  · show (publishMount a (s.pop id) r).1.records.lookup x = _
    rw [h1]
    exact get_pop s id x

/-- **A mount whose record is out and whose publish raises** stays, without a record. -/
theorem ManagerInv.popped_breaks (h : ManagerInv s) (hr : s.get id = some r)
    (hmounted : t.mounted = s.mounted) (hget : ∀ x, t.get x = if x = id then none else s.get x) :
    ¬ FollowsRecords t := by
  intro hfollows
  obtain ⟨x, z, hz, heq⟩ := hfollows.mount r.handle (hmounted ▸ h.live hr)
  rw [hget] at hz
  by_cases hx : x = id
  · rw [if_pos hx] at hz
    cases hz
  · rw [if_neg hx] at hz
    exact hx (h.only hz hr heq)

theorem popAndClose_breaks (h : ManagerInv s) (hr : s.get id = some r) (hfail : a.FailsPublish r) :
    (popAndClose a s id r).2 ≠ .ok () ∧ ¬ FollowsRecords (popAndClose a s id r).1 := by
  have hraised := (publishMount_ok_iff (s := s.pop id) (h.writer hr)).not.mpr (not_not.mpr hfail)
  have hstop : popAndClose a s id r = publishMount a (s.pop id) r := by
    unfold popAndClose Lib.Outcome.andThen
    split
    · rename_i hok
      exact absurd hok hraised
    · rfl
  obtain ⟨h1, h2, -, -⟩ := publishMount_same a (s.pop id) r
  rw [hstop]
  refine ⟨hraised, h.popped_breaks hr h2 fun x => ?_⟩
  unfold MountManager.get
  rw [h1]
  exact get_pop s id x

/-! ### Mounts -/

/-- A mount in use is lent again, or refused. -/
theorem ManagerInv.reuse (h : ManagerInv s) {m : ChildManifest} {mountpoint : String}
    {mode : MountMode} {incrementRef : Bool} (hr : s.get m.id = some r) :
    ManagerInv (reuseLive a s m r mountpoint mode incrementRef).1 := by
  unfold reuseLive
  split
  · exact h
  · split
    · exact h
    · split
      · exact h
      · have hid : r.manifestId = m.id := h.ids hr
        exact h.refresh hr hid rfl rfl rfl rfl

/-- A mount without a lock. -/
theorem ManagerInv.registerPlain (h : ManagerInv s) {m : ChildManifest} {mountpoint : String}
    {mode : MountMode} (hnone : s.get m.id = none)
    (hplain : ¬ (mode = .rw ∧ m.writePolicy = .localSsdAsync)) :
    ManagerInv (s.register m mountpoint mode false a.clock) :=
  h.register rfl rfl rfl hnone ⟨fun hw => (by cases hw), fun hand => absurd hand hplain⟩
    fun _ _ => ⟨.inl, fun hor => hor.resolve_right fun hw => (by cases hw.1)⟩

theorem ManagerInv.mountPacksRo (h : ManagerInv s) {m : ChildManifest} {mountpoint : String} :
    ManagerInv (mountPacksRo a s m mountpoint).1 := by
  unfold CccStorage.mountPacksRo
  rw [h.live_eq]
  cases hr : s.get m.id with
  | some r => exact h.reuse hr
  | none =>
      simp only
      split
      · exact h
      · split
        · exact h
        · split
          · exact h
          · exact h.registerPlain hr fun hand => by cases hand.1

theorem ManagerInv.mountPublishedMirrorRo (h : ManagerInv s) {q : RwRequest}
    (hnone : s.get q.manifest.id = none) : ManagerInv (mountPublishedMirrorRo a s q).1 := by
  unfold CccStorage.mountPublishedMirrorRo
  split
  · exact h
  · split
    · split
      · exact h
      · split
        · exact h
        · exact h.registerPlain hnone fun hand => by cases hand.1
    · split
      · exact h
      · exact h.mountPacksRo

theorem ManagerInv.mountRwSharedNfs (h : ManagerInv s) {q : RwRequest}
    (hnone : s.get q.manifest.id = none) (hpolicy : q.manifest.writePolicy = .sharedNfs) :
    ManagerInv (mountRwSharedNfs a s q).1 := by
  unfold CccStorage.mountRwSharedNfs
  split
  · exact h
  · split
    · exact h
    · split
      · exact h
      · split
        · exact h
        · split
          · exact h
          · refine h.registerPlain hnone fun hand => ?_
            rw [hpolicy] at hand
            cases hand.2

/-- **A writable async mount**, where nothing raises between the lock and the `try`. -/
theorem ManagerInv.mountRwLocalSsdAsync (h : ManagerInv s) {q : RwRequest}
    (hnone : s.get q.manifest.id = none) (hpolicy : q.manifest.writePolicy = .localSsdAsync)
    (hquiet : TakesLock a s q → a.raises .localDirs = false ∧ a.raises .hydrate = false) :
    ManagerInv (mountRwLocalSsdAsync a s q).1 := by
  unfold CccStorage.mountRwLocalSsdAsync
  by_cases hroot : a.nfsRoot = true
  · rw [if_neg (by simp [hroot])]
    by_cases hdir : (q.requireExisting && !a.isDir q.mountpoint) = true
    · rw [if_pos hdir]
      exact h
    · rw [if_neg hdir]
      cases hfile : s.lockFiles (writerLockName q.manifest.id) with
      | some owner => exact h.mountPublishedMirrorRo hnone
      | none =>
          have htakes : TakesLock a s q := by
            refine ⟨(h.live_eq _).trans hnone, hpolicy, hroot, fun hreq => ?_, hfile⟩
            simpa [hreq] using hdir
          obtain ⟨hlocal, hhydrate⟩ := hquiet htakes
          simp only [hlocal, hhydrate, Bool.false_eq_true, if_false]
          by_cases hpacks : a.raises .packs = true
          · -- the handler gives the lock back
            rw [if_pos hpacks]
            refine h.congr rfl rfl rfl ?_
            show Function.update (Function.update s.lockFiles _ _) _ none = s.lockFiles
            rw [Function.update_idem, ← hfile, Function.update_eq_self]
          · rw [if_neg hpacks]
            refine h.register rfl rfl rfl hnone ⟨fun _ => ⟨rfl, hpolicy⟩, fun _ => rfl⟩ ?_
            intro name x
            show Function.update s.lockFiles (writerLockName q.manifest.id)
              (some (.here q.manifest.id)) name = _ ↔ _
            by_cases hname : name = writerLockName q.manifest.id
            · rw [hname, Function.update_self, hfile]
              constructor
              · intro heq
                cases heq
                exact .inr ⟨rfl, rfl, rfl⟩
              · intro hor
                rcases hor with hsome | ⟨-, hx, -⟩
                · cases hsome
                · rw [hx]
            · rw [Function.update_of_ne hname]
              exact ⟨.inl, fun hor => hor.resolve_right fun hw => hname hw.2.2⟩
  · rw [if_pos (by simp [hroot])]
    exact h

theorem ManagerInv.mountRwAt (h : ManagerInv s) {q : RwRequest}
    (hquiet : TakesLock a s q → a.raises .localDirs = false ∧ a.raises .hydrate = false) :
    ManagerInv (mountRwAtCall a s q).1 := by
  unfold mountRwAtCall
  rw [h.live_eq]
  cases hr : s.get q.manifest.id with
  | some r => exact h.reuse hr
  | none =>
      cases hpolicy : q.manifest.writePolicy with
      | sharedNfs => exact h.mountRwSharedNfs hr hpolicy
      | localSsdAsync => exact h.mountRwLocalSsdAsync hr hpolicy hquiet

/-- **A step that raises between the lock and the `try`** leaves the lock, and no record. -/
theorem mountRwAt_breaks (h : ManagerInv s) {q : RwRequest} (htakes : TakesLock a s q)
    (hraise : ¬ (a.raises .localDirs = false ∧ a.raises .hydrate = false)) :
    ¬ FollowsRecords (mountRwAtCall a s q).1 := by
  obtain ⟨hlive, hpolicy, hroot, hdir, hfile⟩ := htakes
  have hleft : (mountRwAtCall a s q).1 = s.setLock q.manifest.id (some (.here q.manifest.id)) := by
    have hdir' : ¬ (q.requireExisting && !a.isDir q.mountpoint) = true := by
      cases hreq : q.requireExisting with
      | false => simp
      | true => simp [hdir hreq]
    unfold mountRwAtCall
    rw [hlive]
    simp only [hpolicy]
    unfold CccStorage.mountRwLocalSsdAsync
    rw [if_neg (by simp [hroot]), if_neg hdir', hfile]
    by_cases hlocal : a.raises .localDirs = true
    · simp only [hlocal, if_true]
    · have hhydrate : a.raises .hydrate = true := by
        cases hh : a.raises .hydrate with
        | true => rfl
        | false => exact absurd ⟨Bool.eq_false_iff.mpr hlocal, hh⟩ hraise
      simp only [hlocal, hhydrate, if_true, Bool.false_eq_true, if_false]
  rw [hleft]
  intro hfollows
  obtain ⟨r, hr, -⟩ := (hfollows.lock q.manifest.id).mp (Function.update_self ..)
  have hsame : s.get q.manifest.id = some r := hr
  rw [← h.live_eq, hlive] at hsame
  cases hsame

/-! ### Loops -/

theorem ManagerInv.unmount (h : ManagerInv s) (id : String) :
    ManagerInv (unmountCall a s id).1 := by
  unfold unmountCall
  cases hr : s.get id with
  | none => exact h
  | some r =>
      have hid : r.manifestId = id := h.ids hr
      have hdropped : ManagerInv (s.setRecord id { r with refcount := r.refcount - 1 }) :=
        h.refresh hr hid rfl rfl rfl rfl
      simp only
      split
      · exact hdropped.tearDown ((get_setRecord s id id _).trans (if_pos rfl))
      · exact hdropped

theorem ManagerInv.release (h : ManagerInv s) (id : String) :
    ManagerInv (releaseCall a s id).1 := by
  unfold releaseCall
  cases hr : s.get id with
  | none => exact h
  | some r =>
      have hid : r.manifestId = id := h.ids hr
      exact h.refresh hr hid rfl rfl rfl rfl

theorem ManagerInv.expire (h : ManagerInv s) (ttl now : Int) (id : String) :
    ManagerInv (expireChild a ttl now id s).1 := by
  unfold expireChild
  cases hr : s.get id with
  | none => exact h
  | some r =>
      simp only
      split
      · exact h
      · split
        · exact h.tearDown hr
        · exact h

theorem ManagerInv.idleUnmountExpired (h : ManagerInv s) (ttl now : Int) :
    ManagerInv (idleUnmountExpired a ttl now s).1 :=
  Lib.forEach_invariant (fun id _ _ hs _ => ManagerInv.expire hs ttl now id) h Lib.along_true

theorem ManagerInv.publishAllDirty (h : ManagerInv s) : ManagerInv (publishAllDirty a s).1 :=
  Lib.forEach_invariant (fun r _ _ hs _ => ManagerInv.publish hs r) h Lib.along_true

/-- **`stop_all`**: the children that are left, one after the other. -/
theorem ManagerInv.stopEach {ids : List String} (h : ManagerInv s) (hids : ids.Nodup)
    (hkeys : ∀ x ∈ ids, ∃ r, s.get x = some r) :
    ((∀ x ∈ ids, ∀ r, s.get x = some r → ¬ a.FailsPublish r) →
      ManagerInv (Lib.forEach (stopChild a) ids s).1 ∧
        ∀ x, (Lib.forEach (stopChild a) ids s).1.get x = if x ∈ ids then none else s.get x) ∧
    ((∃ x ∈ ids, ∃ r, s.get x = some r ∧ a.FailsPublish r) →
      ¬ FollowsRecords (Lib.forEach (stopChild a) ids s).1) := by
  induction ids generalizing s with
  | nil =>
      refine ⟨fun _ => ⟨h, fun x => (if_neg List.not_mem_nil).symm⟩, fun hex => ?_⟩
      obtain ⟨x, hx, -⟩ := hex
      cases hx
  | cons id ids ih =>
      obtain ⟨r, hr⟩ := hkeys id List.mem_cons_self
      obtain ⟨hfirst, hrest⟩ := List.nodup_cons.mp hids
      have hstop : stopChild a id s = CccStorage.popAndClose a s id r := by
        unfold stopChild
        rw [hr]
      unfold Lib.forEach
      rw [hstop]
      by_cases hfail : a.FailsPublish r
      · -- the first publish that raises ends the loop
        obtain ⟨hraised, hbreaks⟩ := popAndClose_breaks h hr hfail
        have hend : (CccStorage.popAndClose a s id r).andThen (Lib.forEach (stopChild a) ids) =
            CccStorage.popAndClose a s id r := by
          unfold Lib.Outcome.andThen
          split
          · rename_i hok
            exact absurd hok hraised
          · rfl
        rw [hend]
        exact ⟨fun hall => absurd hfail (hall id List.mem_cons_self r hr), fun _ => hbreaks⟩
      · obtain ⟨hinv, hok, hget⟩ := h.popAndClose hr hfail
        rw [Lib.Outcome.andThen_ok hok]
        have hsame : ∀ x ∈ ids, (CccStorage.popAndClose a s id r).1.get x = s.get x := by
          intro x hx
          rw [hget, if_neg fun heq : x = id => hfirst (heq ▸ hx)]
        have hnext := ih hinv hrest fun x hx => by
          rw [hsame x hx]
          exact hkeys x (List.mem_cons_of_mem _ hx)
        refine ⟨fun hall => ?_, fun hex => ?_⟩
        · obtain ⟨hlast, hgone⟩ := hnext.1 fun x hx r hxr =>
            hall x (List.mem_cons_of_mem _ hx) r (hsame x hx ▸ hxr)
          refine ⟨hlast, fun x => ?_⟩
          rw [hgone, hget]
          by_cases hx : x ∈ ids
          · rw [if_pos hx, if_pos (List.mem_cons_of_mem _ hx)]
          · by_cases hxid : x = id
            · rw [if_neg hx, if_pos hxid, if_pos (hxid ▸ List.mem_cons_self)]
            · have hnot : x ∉ id :: ids := by simp [hxid, hx]
              rw [if_neg hx, if_neg hxid, if_neg hnot]
        · obtain ⟨x, hx, z, hz, hzfail⟩ := hex
          rcases List.mem_cons.mp hx with hx | hx
          · rw [hx, hr, Option.some.injEq] at hz
            exact absurd (hz ▸ hzfail) hfail
          · exact hnext.2 ⟨x, hx, z, (hsame x hx).trans hz, hzfail⟩

/-- The keys that `stop_all` goes through. -/
theorem ManagerInv.keys (h : ManagerInv s) : (s.records.map (·.1)).reverse.Nodup ∧
    ∀ x, x ∈ (s.records.map (·.1)).reverse ↔ ∃ r, s.get x = some r := by
  refine ⟨List.nodup_reverse.mpr h.nodup, fun x => ?_⟩
  rw [List.mem_reverse, Lib.mem_keys_iff, Option.isSome_iff_exists]
  rfl

/-- **`stop_all` leaves nothing**, when no publish raises. -/
theorem ManagerInv.stopAll (h : ManagerInv s)
    (hok : ∀ id r, s.get id = some r → ¬ a.FailsPublish r) :
    ManagerInv (stopAll a s).1 ∧ Cleared (stopAll a s).1 := by
  obtain ⟨hnodup, hkeys⟩ := h.keys
  obtain ⟨hinv, hget⟩ :=
    (h.stopEach hnodup fun x hx => (hkeys x).mp hx).1 fun x _ r hr => hok x r hr
  have hnone : ∀ x, (CccStorage.stopAll a s).1.get x = none := by
    intro x
    refine (hget x).trans ?_
    by_cases hx : x ∈ (s.records.map (·.1)).reverse
    · exact if_pos hx
    · rw [if_neg hx]
      cases hr : s.get x with
      | none => rfl
      | some r => exact absurd ((hkeys x).mpr ⟨r, hr⟩) hx
  refine ⟨hinv, fun name id hlock => ?_, List.eq_nil_iff_forall_not_mem.mpr fun n hn => ?_⟩
  · have hname := hinv.owned hlock
    obtain ⟨r, hr, -⟩ := (hinv.locked id).mp (hname ▸ hlock)
    rw [show (Lib.forEach (stopChild a) _ s).1.get id = none from hnone id] at hr
    cases hr
  · obtain ⟨id, r, hr, -⟩ := hinv.covered n hn
    rw [show (Lib.forEach (stopChild a) _ s).1.get id = none from hnone id] at hr
    cases hr

/-- Other holders of a lock come and go. -/
theorem ManagerInv.others (h : ManagerInv s) (id : String) :
    ManagerInv (managerNext s (.others id)) := by
  have hlocks : ∀ name x, (managerNext s (.others id)).lockFiles name = some (.here x) ↔
      s.lockFiles name = some (.here x) := by
    intro name x
    show Function.update s.lockFiles (writerLockName id)
      (othersLock (s.lockFiles (writerLockName id))) name = _ ↔ _
    by_cases hname : name = writerLockName id
    · rw [hname, Function.update_self]
      cases s.lockFiles (writerLockName id) with
      | none => exact ⟨fun heq => (by cases heq), fun heq => (by cases heq)⟩
      | some owner =>
          cases owner with
          | here y => exact Iff.rfl
          | elsewhere => exact ⟨fun heq => (by cases heq), fun heq => (by cases heq)⟩
    · rw [Function.update_of_ne hname]
  exact {
    nodup := h.nodup
    ids := h.ids
    live := h.live
    only := h.only
    covered := h.covered
    fresh := h.fresh
    writer := h.writer
    locked := fun x => (hlocks (writerLockName x) x).trans (h.locked x)
    owned := fun hn => h.owned ((hlocks _ _).mp hn) }

/-! ## 5. Runs -/

/-- **What one call keeps**, where nothing raises that must not. -/
theorem ManagerInv.next {e : ManagerEvent} (h : ManagerInv s) (hok : Unfailing s e) :
    ManagerInv (managerNext s e) := by
  cases e with
  | others id => exact h.others id
  | call c a =>
      cases c with
      | mountRwAt q => exact h.mountRwAt hok
      | unmount id => exact h.unmount id
      | forceUnmount id =>
          show ManagerInv (forceUnmountCall a s id).1
          unfold forceUnmountCall
          cases hr : s.get id with
          | none => exact h
          | some r => exact (h.popAndClose hr (hok r hr)).1
      | release id => exact h.release id
      | idleUnmountExpired ttl now => exact h.idleUnmountExpired ttl now
      | publishDirty id =>
          show ManagerInv (publishDirty a s id).1
          unfold publishDirty
          cases hr : s.get id with
          | none => exact h
          | some r => exact h.publish r
      | publishAllDirty => exact h.publishAllDirty
      | stopAll => exact (h.stopAll hok).1

/-- **A call with a step that must not raise breaks it.** -/
theorem managerNext_breaks {e : ManagerEvent} (h : ManagerInv s) (hbad : ¬ Unfailing s e) :
    ¬ FollowsRecords (managerNext s e) := by
  cases e with
  | others id => exact absurd trivial hbad
  | call c a =>
      cases c with
      | mountRwAt q =>
          obtain ⟨htakes, hraise⟩ := Classical.not_imp.mp hbad
          exact mountRwAt_breaks h htakes hraise
      | forceUnmount id =>
          simp only [Unfailing, not_forall, not_not] at hbad
          obtain ⟨r, hr, hfail⟩ := hbad
          show ¬ FollowsRecords (forceUnmountCall a s id).1
          unfold forceUnmountCall
          rw [hr]
          exact (popAndClose_breaks h hr hfail).2
      | stopAll =>
          simp only [Unfailing, not_forall, not_not] at hbad
          obtain ⟨id, r, hr, hfail⟩ := hbad
          obtain ⟨hnodup, hkeys⟩ := h.keys
          exact (h.stopEach hnodup fun x hx => (hkeys x).mp hx).2
            ⟨id, (hkeys id).mpr ⟨r, hr⟩, r, hr, hfail⟩
      | unmount id | release id | idleUnmountExpired ttl now | publishDirty id | publishAllDirty =>
          exact absurd trivial hbad

theorem newManager_inv (held : String → Bool) : ManagerInv (newManager held) := by
  have hlock : ∀ name x, (newManager held).lockFiles name ≠ some (.here x) := by
    intro name x heq
    have hfile : (if held name then some LockOwner.elsewhere else none) = some (.here x) := heq
    split at hfile <;> cases hfile
  exact {
    nodup := List.nodup_nil
    ids := fun hr => by cases hr
    live := fun hr => by cases hr
    only := fun hr => by cases hr
    covered := fun n hn => by cases hn
    fresh := fun n hn => by cases hn
    writer := fun hr => by cases hr
    locked := fun id => ⟨fun hn => absurd hn (hlock _ _), fun ⟨r, hr, _⟩ => by cases hr⟩
    owned := fun hn => absurd hn (hlock _ _) }

end Invariant

/-- A run of one manager. -/
abbrev ManagerRun := Lib.Run fun s e t => managerNext s e = t

/-- **The claim of a run**: after every call the locks follow the records, and after `stop_all`
    nothing is left. -/
def LocksFollow (tr : List (Lib.Trans MountManager ManagerEvent)) : Prop :=
  ∀ x ∈ tr, FollowsRecords x.post ∧ ∀ a, x.ev = .call .stopAll a → Cleared x.post

/-- **The writer locks follow the records exactly in the runs in which nothing raises between the
    lock and the `try` of a mount, or once a record is out.** -/
theorem locksFollowRecords_iff {held : String → Bool}
    {tr : List (Lib.Trans MountManager ManagerEvent)} {t : MountManager}
    (hrun : ManagerRun (newManager held) tr t) :
    LocksFollow tr ↔ ∀ x ∈ tr, Unfailing x.pre x.ev := by
  constructor
  · -- up to the first call that fails, the invariant holds
    intro hfollow
    have hboth : (∀ x ∈ tr, Unfailing x.pre x.ev) ∧ ManagerInv t := by
      induction hrun with
      | start => exact ⟨fun x hx => (by cases hx), newManager_inv held⟩
      | @step tr t u e _ hs ih =>
          obtain ⟨hbefore, hinv⟩ := ih fun x hx => hfollow x (List.mem_append_left _ hx)
          have hok : Unfailing t e := by
            by_contra hbad
            refine managerNext_breaks hinv hbad (hs ▸ (hfollow ⟨t, e, u⟩ ?_).1)
            exact List.mem_append_right _ List.mem_cons_self
          refine ⟨fun x hx => ?_, hs ▸ hinv.next hok⟩
          rcases List.mem_append.mp hx with hx | hx
          · exact hbefore x hx
          · rw [List.mem_singleton] at hx
            rw [hx]
            exact hok
    exact hboth.1
  · intro hok
    obtain ⟨-, hinv⟩ := hrun.invariant (I := ManagerInv) (newManager_inv held)
      (fun s e u hs hs' hstep => hstep ▸ hs.next hs') hok
    intro x hx
    obtain ⟨hpre, hpost⟩ := hinv x hx
    refine ⟨hpost.followsRecords, fun a hstop => ?_⟩
    have hquiet := hok x hx
    have hpostEq := hrun.isStep x hx
    rw [hstop] at hquiet hpostEq
    rw [← hpostEq]
    exact (hpre.stopAll hquiet).2

/-- `mount_rw` of an async child. -/
def mountEnv : ManagerCall := .mountRwAt {
  manifest := {
    id := "id-env"
    name := "env"
    type := "env"
    generation := 1
    writePolicy := .localSsdAsync }
  mountpoint := "/run/ccc/mounts/id-env"
  requireExisting := false }

/-- A mount, and the stop of the manager. -/
def quietTrace : List (Lib.Trans MountManager ManagerEvent) :=
  let s := newManager fun _ => false
  let mounted := managerNext s (.call mountEnv {})
  [⟨s, .call mountEnv {}, mounted⟩,
    ⟨mounted, .call .stopAll {}, managerNext mounted (.call .stopAll {})⟩]

theorem locksFollowRecords_quiet : LocksFollow quietTrace := by
  refine (@locksFollowRecords_iff (fun _ => false) quietTrace _
    (.step (.step .start rfl) rfl)).mpr fun x hx => ?_
  rcases List.mem_cons.mp hx with hx | hx
  · rw [hx]
    exact fun _ => ⟨rfl, rfl⟩
  · rw [List.mem_singleton] at hx
    rw [hx]
    intro id r _ hfail
    cases hfail.2.2

/-- The mirror cannot be read. -/
def failedHydrate : MountAnswers := { raises := fun step => decide (step = .hydrate) }

/-- **A mount whose hydration raises** keeps the writer lock of a child that has no record. -/
theorem failedHydrate_breaks :
    ¬ ∀ held tr t, ManagerRun (newManager held) tr t → LocksFollow tr := by
  intro h
  have hrun : ManagerRun (newManager fun _ => false) _ _ :=
    .step .start (rfl : managerNext (newManager fun _ => false) (.call mountEnv failedHydrate) = _)
  have hfollow := (h _ _ _ hrun _ (List.mem_append_right _ List.mem_cons_self)).1
  have hlock : (managerNext (newManager fun _ => false) (.call mountEnv failedHydrate)).lockFiles
      (writerLockName "id-env") = some (.here "id-env") := by decide +kernel
  obtain ⟨r, hr, -⟩ := (hfollow.lock "id-env").mp hlock
  have hnone : (managerNext (newManager fun _ => false) (.call mountEnv failedHydrate)).get
      "id-env" = none := by decide +kernel
  rw [hnone] at hr
  cases hr

end CccStorage
