/-
  File:      CccStorage/WriterLocks.lean
  Subject:   Who publishes the mirror of a local-ssd-async child: the periodic publisher, the calls
             that unmount, mounts and commits, on any number of nodes (`mountd/childmount.py`,
             `mountd/daemon.py`, `core/locks.py`).

  A record is published under the publish lock of its node; its writer lock is released later,
  without it. A publish does not ask whether the lock is still held: a failed heartbeat is passed
  over.

  * `ChildWriters`, `writerCallStep` -- one child, its records on all nodes, and the calls;
  * `LockHolderPublishes` -- who replaces `publish.json` holds the writer lock;
  * `GivesUpAlone` -- while a call gives up a record, no other call publishes it or gives it up;
  * `WritersHold` -- a record that can be looked up, or is being published, has its lock, or a call
    is giving it up;
  * `onlyHolderPublishes` -- in runs of such states only the lock holder publishes;
  * `latePublisher` -- a publisher that looked its record up before it was given up.
-/
import CccStorage.Lib.Interleave
import CccStorage.Unmount

namespace CccStorage

/-! ## 1. One child on many nodes -/

/-- A mount record: where it is, and the lock object it was mounted with, if it may write. -/
structure NodeRecord extends WriterRecord where
  node : Nat
  lock : Option Nat
  mounted : Bool
  deriving DecidableEq

/-- A published epoch, and the record that published it. -/
structure MirrorEpoch where
  epoch : Nat
  publisher : Nat
  mirror : PublishedMirror

structure ChildWriters where
  generation : Nat
  records : Nat → NodeRecord
  nextRecord : Nat
  /-- `_records.get`, by node. -/
  registered : Nat → Option Nat
  /-- The lock file, by the lock object that created it. -/
  lockFile : Option Nat
  /-- `_held`, by lock object. -/
  held : Nat → Bool
  nextLock : Nat
  /-- The local upper of each node. -/
  uppers : Nat → Option Tree
  /-- `_publish_lock` and `_mount_lock`, by node. -/
  publishLocks : Nat → Bool
  mountLocks : Nat → Bool
  mirror : Option MirrorEpoch

/-- Where `_publish_record` is. -/
inductive PublishStage where
  | lock
  | check
  /-- `heartbeat` up to its test of `_held`, and its `write_text`. -/
  | heartbeat
  | beat (lock : Nat)
  | isDir
  | stats
  | copy
  | replace (epoch : Nat) (tree : Tree)
  | unlock
  deriving DecidableEq

/-- A publish is a call of its own, or the first part of a call that unmounts. -/
inductive AfterPublish where
  | done
  /-- `pop` is still to be done. -/
  | unmount (pop : Bool)
  deriving DecidableEq

/-- What comes after the release of a writer lock. -/
inductive AfterRelease where
  | done
  /-- The mount that acquired the lock has failed. -/
  | mountLock (node : Nat)
  | unmount (node record : Nat) (pop : Bool)
  deriving DecidableEq

inductive WriterPhase where
  | idle
  | mountLock (node : Nat)
  | mountLookup (node : Nat)
  | mountAcquire (node : Nat)
  | mountHydrate (node lock : Nat)
  | mountOverlay (node lock : Nat)
  | publish (node record : Nat) (stage : PublishStage) (after : AfterPublish)
  | unmountHandle (node record : Nat) (pop : Bool)
  /-- `NFSLock.release`: the file, then `_held`. -/
  | unlink (lock : Nat) (after : AfterRelease)
  | drop (lock : Nat) (after : AfterRelease)
  | pop (node record : Nat)
  | commitLatest (node : Nat)
  | commitAcquire (node : Nat)
  | commitCheck (node lock : Nat)
  | commitBuild (node lock : Nat)
  | commitCleanMirror (node lock : Nat)
  | commitCleanLocal (node lock : Nat)
  deriving DecidableEq

inductive WriterCall where
  | mountRw (node : Nat)
  /-- `publish_all_dirty` and `publish_dirty`: the record is looked up first. -/
  | publishDirty (node : Nat)
  | unmount (node : Nat) (call : UnmountCall)
  | handleCommit (node : Nat)

inductive WriterAct where
  | call (c : WriterCall)
  | step (now : Int)
  /-- The call raises. -/
  | fail
  /-- An application changes the upper of a writable mount. -/
  | write (node : Nat) (upper : Tree)

namespace ChildWriters

/-- `NFSLock.acquire` of a new lock object on a free path. -/
def acquired (s : ChildWriters) : ChildWriters :=
  { s with
    lockFile := some s.nextLock
    held := Function.update s.held s.nextLock true
    nextLock := s.nextLock + 1 }

/-- `write_text` of a heartbeat: it makes the file where it is gone. -/
def beaten (s : ChildWriters) (lock : Nat) : ChildWriters :=
  { s with lockFile := some (s.lockFile.getD lock) }

/-- `if self._held and self.path.exists(): self.path.unlink()`. -/
def unlinked (s : ChildWriters) (lock : Nat) : ChildWriters :=
  { s with lockFile := if s.held lock then none else s.lockFile }

/-- `self._held = False`. -/
def dropped (s : ChildWriters) (lock : Nat) : ChildWriters :=
  { s with held := Function.update s.held lock false }

/-- A new record in the table of its node. -/
def register (s : ChildWriters) (record : NodeRecord) : ChildWriters :=
  { s with
    records := Function.update s.records s.nextRecord record
    nextRecord := s.nextRecord + 1
    registered := Function.update s.registered record.node (some s.nextRecord) }

def popped (s : ChildWriters) (node : Nat) : ChildWriters :=
  { s with registered := Function.update s.registered node none }

def change (s : ChildWriters) (r : Nat) (record : WriterRecord) : ChildWriters :=
  { s with records := Function.update s.records r { s.records r with toWriterRecord := record } }

def unmounted (s : ChildWriters) (r : Nat) : ChildWriters :=
  { s with records := Function.update s.records r { s.records r with mounted := false } }

def publishLocked (s : ChildWriters) (node : Nat) (locked : Bool) : ChildWriters :=
  { s with publishLocks := Function.update s.publishLocks node locked }

def mountLocked (s : ChildWriters) (node : Nat) (locked : Bool) : ChildWriters :=
  { s with mountLocks := Function.update s.mountLocks node locked }

def setUpper (s : ChildWriters) (node : Nat) (upper : Option Tree) : ChildWriters :=
  { s with uppers := Function.update s.uppers node upper }

/-- The record of a new mount. -/
def newRecord (s : ChildWriters) (node : Nat) (lock : Option Nat) (now : Int) : NodeRecord where
  refcount := 1
  lastUsed := now
  baseGeneration := s.generation
  node := node
  lock := lock
  mounted := true

/-- `_next_epoch`. -/
def nextEpoch (s : ChildWriters) : Nat := (s.mirror.map (·.epoch)).getD 0 + 1

/-- The epoch that a record publishes. -/
def epochOf (s : ChildWriters) (r epoch : Nat) (tree : Tree) : MirrorEpoch where
  epoch := epoch
  publisher := r
  mirror := publishedEpoch tree (s.records r).baseGeneration

/-- `_hydrate_local_upper_from_latest_mirror`. -/
def hydrated (s : ChildWriters) (node : Nat) : Tree :=
  let upper := (s.uppers node).getD ⟨[]⟩
  if upper.nodes = [] then (s.mirror.map (·.mirror.tree)).getD upper else upper

end ChildWriters

/-- A mirror that has something to commit. -/
def MirrorEpoch.hasData (m : MirrorEpoch) : Bool := m.mirror.fileCount ≠ 0 || m.mirror.bytes ≠ 0

/-- Where a call is when its publish is over. -/
def AfterPublish.phase (node r : Nat) : AfterPublish → WriterPhase
  | .done => .idle
  | .unmount pop => .unmountHandle node r pop

/-- Where a call is when its record is unmounted and its lock released. -/
def afterUnmount (node r : Nat) (pop : Bool) : WriterPhase := if pop then .pop node r else .idle

/-- The next step of `_publish_record`. -/
def publishRecordStep (s : ChildWriters) (node r : Nat) (after : AfterPublish) :
    PublishStage → Option (ChildWriters × WriterPhase)
  | .lock =>
    if s.publishLocks node then none
    else some (s.publishLocked node true, .publish node r .check after)
  | .check =>
    if (s.records r).lock.isSome then some (s, .publish node r .heartbeat after)
    else some (s, .publish node r .unlock after)
  | .heartbeat =>
    match (s.records r).lock.filter s.held with
    | some lock => some (s, .publish node r (.beat lock) after)
    -- "cannot heartbeat an unheld lock" is passed over
    | none => some (s, .publish node r .isDir after)
  | .beat lock => some (s.beaten lock, .publish node r .isDir after)
  | .isDir =>
    if (s.uppers node).isSome then some (s, .publish node r .stats after)
    else some (s, .publish node r .unlock after)
  | .stats =>
    if (dirtyStats ((s.uppers node).getD ⟨[]⟩)).dirty then some (s, .publish node r .copy after)
    else some (s, .publish node r .unlock after)
  | .copy =>
    match (s.uppers node).bind copyLogicalTree with
    | none => none
    | some tree => some (s, .publish node r (.replace s.nextEpoch tree) after)
  | .replace epoch tree =>
    some ({ s with mirror := some (s.epochOf r epoch tree) }, .publish node r .unlock after)
  | .unlock => some (s.publishLocked node false, after.phase node r)

/-- **The next step of a call.** -/
def writerPhaseStep (s : ChildWriters) (now : Int) :
    WriterPhase → Option (ChildWriters × WriterPhase)
  | .idle => none
  | .mountLock node =>
    if s.mountLocks node then none else some (s.mountLocked node true, .mountLookup node)
  | .mountLookup node =>
    match (s.registered node).filter fun r => (s.records r).mounted with
    | none => some (s, .mountAcquire node)
    | some r =>
      let record := (s.records r).toWriterRecord
      -- "already mounted in ro mode"
      if (s.records r).lock.isNone then some (s.mountLocked node false, .idle)
      else
        let reused := { record with refcount := record.refcount + 1, lastUsed := now }
        some ((s.change r reused).mountLocked node false, .idle)
  | .mountAcquire node =>
    match s.lockFile with
    | none => some (s.acquired, .mountHydrate node s.nextLock)
    -- `LockHeld`: the published mirror, or the packs, read-only
    | some _ => some ((s.register (s.newRecord node none now)).mountLocked node false, .idle)
  | .mountHydrate node lock =>
    some (s.setUpper node (some (s.hydrated node)), .mountOverlay node lock)
  | .mountOverlay node lock =>
    some ((s.register (s.newRecord node (some lock) now)).mountLocked node false, .idle)
  | .publish node r stage after => publishRecordStep s node r after stage
  | .unmountHandle node r pop =>
    match (s.records r).lock with
    | some lock => some (s.unmounted r, .unlink lock (.unmount node r pop))
    | none => some (s.unmounted r, afterUnmount node r pop)
  | .unlink lock after => some (s.unlinked lock, .drop lock after)
  | .drop lock .done => some (s.dropped lock, .idle)
  | .drop lock (.mountLock node) => some ((s.dropped lock).mountLocked node false, .idle)
  | .drop lock (.unmount node r pop) => some (s.dropped lock, afterUnmount node r pop)
  | .pop node _ => some (s.popped node, .idle)
  | .commitLatest node =>
    if s.mirror.any (·.hasData) then some (s, .commitAcquire node) else some (s, .idle)
  | .commitAcquire node =>
    match s.lockFile with
    | none => some (s.acquired, .commitCheck node s.nextLock)
    | some _ => some (s, .idle)
  | .commitCheck node lock =>
    match s.mirror.filter (·.hasData) with
    | none => some (s, .unlink lock .done)
    | some latest =>
      if latest.mirror.baseGeneration ≠ s.generation then some (s, .unlink lock .done)
      else some (s, .commitBuild node lock)
  | .commitBuild node lock =>
    some ({ s with generation := s.generation + 1 }, .commitCleanMirror node lock)
  | .commitCleanMirror node lock => some ({ s with mirror := none }, .commitCleanLocal node lock)
  | .commitCleanLocal node lock => some (s.setUpper node none, .unlink lock .done)

/-- Where a call starts. -/
def beginWriterCall (s : ChildWriters) : WriterCall → ChildWriters × WriterPhase
  | .mountRw node => (s, .mountLock node)
  | .publishDirty node =>
    match s.registered node with
    | none => (s, .idle)
    | some r => (s, .publish node r .lock .done)
  | .unmount node call =>
    match s.registered node with
    | none => (s, .idle)
    | some r =>
      let record := (s.records r).toWriterRecord
      match call with
      | .unmount =>
        (s.change r { record with refcount := record.refcount - 1 },
          if record.refcount - 1 ≤ 0 then .publish node r .lock (.unmount true) else .idle)
      | .forceUnmount | .stopAll => (s.popped node, .publish node r .lock (.unmount false))
      | .idleUnmountExpired ttl now =>
        (s, if record.refcount ≤ 0 ∧ ttl ≤ now - record.lastUsed then
          .publish node r .lock (.unmount true) else .idle)
  | .handleCommit node =>
    -- refused while the child is mounted writable on the node
    (s, if (s.registered node).any fun r => (s.records r).mounted && (s.records r).lock.isSome then
      .idle else .commitLatest node)

/-- A call that raises, and what it still does; assignments and `pop` cannot. -/
def writerFails (s : ChildWriters) : WriterPhase → Option (ChildWriters × WriterPhase)
  | .idle | .drop _ _ | .pop _ _ => none
  | .mountLock _ | .unmountHandle _ _ _ | .commitLatest _ | .commitAcquire _ => some (s, .idle)
  | .mountLookup node | .mountAcquire node | .mountHydrate node _ =>
    some (s.mountLocked node false, .idle)
  | .mountOverlay node lock => some (s, .unlink lock (.mountLock node))
  | .publish _ _ .lock _ => some (s, .idle)
  | .publish node _ _ _ => some (s.publishLocked node false, .idle)
  | .unlink _ (.mountLock node) => some (s.mountLocked node false, .idle)
  | .unlink _ _ => some (s, .idle)
  | .commitCheck _ lock | .commitBuild _ lock | .commitCleanMirror _ lock
  | .commitCleanLocal _ lock => some (s, .unlink lock .done)

def writerCallStep (s : ChildWriters) (p : WriterPhase) :
    WriterAct → Option (ChildWriters × WriterPhase)
  | .call c => if p = .idle then some (beginWriterCall s c) else none
  | .step now => writerPhaseStep s now p
  | .fail => writerFails s p
  | .write node upper =>
    let writable := fun r => (s.records r).mounted && (s.records r).lock.isSome
    match (s.registered node).filter writable with
    | none => none
    | some _ => some (s.setUpper node (some upper), p)

/-! ## 2. Who may publish -/

abbrev WriterThreads (k : Nat) := Lib.Threads k ChildWriters WriterPhase

/-- The lock object is held, and the lock file is its own. -/
def ChildWriters.Holds (s : ChildWriters) (lock : Nat) : Prop :=
  s.held lock = true ∧ s.lockFile = some lock

/-- **Who replaces `publish.json` holds the writer lock.** -/
def LockHolderPublishes {k : Nat} (s : WriterThreads k) (e : Fin k × WriterAct) : Prop :=
  match e.2, s.pc e.1 with
  | .step _, .publish _ r (.replace _ _) _ =>
    ∃ lock, (s.shared.records r).lock = some lock ∧ s.shared.Holds lock
  | _, _ => True

namespace WriterPhase

/-- The record that is published: from its look-up to the new epoch. -/
def publishes : WriterPhase → Option Nat
  | .publish _ _ .unlock _ => none
  | .publish _ r _ _ => some r
  | _ => none

/-- The record that is given up: from the release of its lock until the table has forgotten it. -/
def givesUp : WriterPhase → Option Nat
  | .unlink _ (.unmount _ r _) | .drop _ (.unmount _ r _) | .pop _ r => some r
  | _ => none

end WriterPhase

/-- **The condition**: while a call gives up a record, no other call publishes it or gives it up. -/
def GivesUpAlone {k : Nat} (s : WriterThreads k) : Prop :=
  ∀ i j, i ≠ j → ∀ r ∈ (s.pc i).givesUp, (s.pc j).publishes ≠ some r ∧ (s.pc j).givesUp ≠ some r

instance {k : Nat} (s : WriterThreads k) : Decidable (GivesUpAlone s) :=
  inferInstanceAs (Decidable (∀ i j, i ≠ j → ∀ r ∈ (s.pc i).givesUp,
    (s.pc j).publishes ≠ some r ∧ (s.pc j).givesUp ≠ some r))

/-! ## 3. What holds of the records and the calls -/

namespace WriterPhase

/-- The record a call works on, and its node. -/
def worksOn : WriterPhase → Option (Nat × Nat)
  | .publish node r _ _ | .unmountHandle node r _ | .unlink _ (.unmount node r _)
  | .drop _ (.unmount node r _) | .pop node r => some (node, r)
  | _ => none

/-- The record of a publish that has found it writable. -/
def writable : WriterPhase → Option Nat
  | .publish _ _ .lock _ | .publish _ _ .check _ | .publish _ _ .unlock _ => none
  | .publish _ r _ _ => some r
  | _ => none

/-- The record of a call that has popped it already. -/
def popped : WriterPhase → Option Nat
  | .publish _ r _ (.unmount false) | .unmountHandle _ r false
  | .unlink _ (.unmount _ r false) | .drop _ (.unmount _ r false) => some r
  | _ => none

/-- The record whose lock file is gone, and that the table may still have. -/
def gone : WriterPhase → Option Nat
  | .drop _ (.unmount _ r _) | .pop _ r => some r
  | _ => none

/-- The lock object that is released for its record. -/
def releases : WriterPhase → Option (Nat × Nat)
  | .unlink lock (.unmount _ r _) | .drop lock (.unmount _ r _) => some (lock, r)
  | _ => none

/-- The lock object of a mount without its record yet, or of a commit. -/
def owns : WriterPhase → Option Nat
  | .mountHydrate _ lock | .mountOverlay _ lock | .commitCheck _ lock | .commitBuild _ lock
  | .commitCleanMirror _ lock | .commitCleanLocal _ lock => some lock
  | .unlink lock .done | .drop lock .done => some lock
  | .unlink lock (.mountLock _) | .drop lock (.mountLock _) => some lock
  | _ => none

/-- A call that has nothing to do with a record. -/
def recordless (p : WriterPhase) : Prop :=
  p.worksOn = none ∧ p.writable = none ∧ p.popped = none ∧ p.releases = none ∧ p.publishes = none

/-- The lock object whose file is gone and that is about to know it. -/
def drops : WriterPhase → Option Nat
  | .drop lock _ => some lock
  | _ => none

end WriterPhase

variable {k : Nat}

/-- Some call has released the lock of the record, and goes on to forget the record. -/
def GivenUp (s : WriterThreads k) (r : Nat) : Prop := ∃ j, (s.pc j).gone = some r

/-- The record can be looked up, or is being published. -/
def InUse (s : WriterThreads k) (r : Nat) : Prop :=
  (∃ node, s.shared.registered node = some r) ∨ ∃ j, (s.pc j).publishes = some r

/-- The lock objects of the records: each its own, and older than the next one. -/
structure RecordsInv (s : ChildWriters) : Prop where
  known : ∀ node r, s.registered node = some r → r < s.nextRecord ∧ (s.records r).node = node
  older : ∀ r < s.nextRecord, ∀ l, (s.records r).lock = some l → l < s.nextLock
  own : ∀ r < s.nextRecord, ∀ r' < s.nextRecord, ∀ l, (s.records r).lock = some l →
    (s.records r').lock = some l → r = r'

/-- What a call relies on. -/
structure WriterPhaseHolds (s : ChildWriters) (p : WriterPhase) : Prop where
  worksOn : ∀ node r, p.worksOn = some (node, r) → r < s.nextRecord ∧ (s.records r).node = node
  writable : ∀ r, p.writable = some r → (s.records r).lock.isSome
  popped : ∀ r, p.popped = some r → ∀ node, s.registered node ≠ some r
  releases : ∀ l r, p.releases = some (l, r) → (s.records r).lock = some l
  owns : ∀ l, p.owns = some l → l < s.nextLock ∧ (∀ r < s.nextRecord, (s.records r).lock ≠ some l) ∧
    (s.Holds l ∨ p.drops = some l)

/-- **The invariant**: a record that can be looked up or is being published has its lock, or a call
    is giving it up; and a lock object that thinks it is held has the file, or is about to know. -/
structure WritersHold (s : WriterThreads k) : Prop where
  records : RecordsInv s.shared
  point : ∀ j, WriterPhaseHolds s.shared (s.pc j)
  apart : ∀ i j l, (s.pc i).owns = some l → (s.pc j).owns = some l → i = j
  inUse : ∀ r, InUse s r → ∀ l, (s.shared.records r).lock = some l →
    s.shared.Holds l ∨ GivenUp s r
  file : ∀ l, s.shared.held l = true → s.shared.lockFile = some l ∨ ∃ j, (s.pc j).drops = some l

/-! ## 4. What a step may change -/

theorem givesUp_of_gone {p : WriterPhase} {r : Nat} (h : p.gone = some r) :
    p.givesUp = some r := by
  unfold WriterPhase.gone at h
  split at h <;> cases h <;> rfl

theorem not_publishes_of_gone {p : WriterPhase} {r : Nat} (h : p.gone = some r) :
    p.publishes = none := by
  unfold WriterPhase.gone at h
  split at h <;> cases h <;> rfl

section Phases

variable {p : WriterPhase} {l r : Nat}

theorem worksOn_of_publishes (h : p.publishes = some r) : ∃ node, p.worksOn = some (node, r) := by
  unfold WriterPhase.publishes at h
  split at h <;> cases h
  exact ⟨_, rfl⟩

theorem worksOn_of_writable (h : p.writable = some r) : ∃ node, p.worksOn = some (node, r) := by
  unfold WriterPhase.writable at h
  split at h <;> cases h
  exact ⟨_, rfl⟩

theorem worksOn_of_popped (h : p.popped = some r) : ∃ node, p.worksOn = some (node, r) := by
  unfold WriterPhase.popped at h
  split at h <;> cases h <;> exact ⟨_, rfl⟩

theorem worksOn_of_releases (h : p.releases = some (l, r)) :
    ∃ node, p.worksOn = some (node, r) := by
  unfold WriterPhase.releases at h
  split at h <;> cases h <;> exact ⟨_, rfl⟩

end Phases

/-- No record and no call counts on the lock any more. -/
structure Released (s : WriterThreads k) (l : Nat) : Prop where
  record : ∀ r < s.shared.nextRecord, (s.shared.records r).lock = some l → GivenUp s r
  owner : ∀ j, (s.pc j).owns = some l → (s.pc j).drops = some l

/-- A change of the shared state that every call can stand. -/
structure Stands (s : WriterThreads k) (u : ChildWriters) : Prop where
  records : ∀ r, (u.records r).lock = (s.shared.records r).lock ∧
    (u.records r).node = (s.shared.records r).node
  nextRecord : u.nextRecord = s.shared.nextRecord
  nextLock : s.shared.nextLock ≤ u.nextLock
  registered : ∀ node r, u.registered node = some r → s.shared.registered node = some r
  holds : ∀ l, s.shared.Holds l → u.Holds l ∨ Released s l
  file : ∀ l, u.held l = true → u.lockFile = some l ∨ ∃ j, (s.pc j).drops = some l

section Steps

variable {s : WriterThreads k} {i : Fin k} {u : ChildWriters} {p : WriterPhase}

theorem RecordsInv.stands (h : RecordsInv s.shared) (hs : Stands s u) : RecordsInv u := by
  refine ⟨fun node r hr => ?_, fun r hr l hl => ?_, fun r hr r' hr' l hl hl' => ?_⟩
  · rw [hs.nextRecord, (hs.records r).2]
    exact h.known node r (hs.registered node r hr)
  · rw [hs.nextRecord] at hr
    rw [(hs.records r).1] at hl
    exact Nat.lt_of_lt_of_le (h.older r hr l hl) hs.nextLock
  · rw [hs.nextRecord] at hr hr'
    rw [(hs.records r).1] at hl
    rw [(hs.records r').1] at hl'
    exact h.own r hr r' hr' l hl hl'

theorem WriterPhaseHolds.stands {j : Fin k} (h : WriterPhaseHolds s.shared (s.pc j))
    (hs : Stands s u) : WriterPhaseHolds u (s.pc j) := by
  refine ⟨fun node r hr => ?_, fun r hr => ?_, fun r hr node hnode => ?_, fun l r hl => ?_,
    fun l hl => ?_⟩
  · rw [hs.nextRecord, (hs.records r).2]
    exact h.worksOn node r hr
  · rw [(hs.records r).1]
    exact h.writable r hr
  · exact h.popped r hr node (hs.registered node r hnode)
  · rw [(hs.records r).1]
    exact h.releases l r hl
  · obtain ⟨holder, hforeign, hheld⟩ := h.owns l hl
    refine ⟨Nat.lt_of_lt_of_le holder hs.nextLock, fun r hr => ?_, ?_⟩
    · rw [hs.nextRecord] at hr
      rw [(hs.records r).1]
      exact hforeign r hr
    · rcases hheld with hheld | hdrops
      · rcases hs.holds l hheld with hheld | hreleased
        · exact .inl hheld
        · exact .inr (hreleased.owner j hl)
      · exact .inr hdrops

theorem InUse.known (h : WritersHold s) {r : Nat} (hr : InUse s r) : r < s.shared.nextRecord := by
  rcases hr with ⟨node, hnode⟩ | ⟨j, hj⟩
  · exact (h.records.known node r hnode).1
  · obtain ⟨node, hworks⟩ := worksOn_of_publishes hj
    exact ((h.point j).worksOn node r hworks).1

/-- **Such a change keeps the invariant.** -/
theorem WritersHold.stands (h : WritersHold s) (hs : Stands s u) :
    WritersHold (s.sharing u) := by
  refine ⟨h.records.stands hs, fun j => (h.point j).stands hs, h.apart, fun r hr l hl => ?_,
    hs.file⟩
  have hr : InUse s r := hr.imp_left fun ⟨node, hnode⟩ => ⟨node, hs.registered node r hnode⟩
  have hl : (s.shared.records r).lock = some l := by
    rw [← (hs.records r).1]
    exact hl
  rcases h.inUse r hr l hl with hheld | hgiven
  · rcases hs.holds l hheld with hheld | hreleased
    · exact .inl hheld
    · exact .inr (hreleased.record r (hr.known h) hl)
  · exact .inr hgiven

/-- Where a call may go on, the shared state as it is. -/
structure Moves (s : WriterThreads k) (i : Fin k) (p : WriterPhase) : Prop where
  point : WriterPhaseHolds s.shared p
  apart : ∀ j, j ≠ i → ∀ l, p.owns = some l → (s.pc j).owns ≠ some l
  publishes : ∀ r, p.publishes = some r → ∀ l, (s.shared.records r).lock = some l →
    s.shared.Holds l ∨ ∃ j, j ≠ i ∧ (s.pc j).gone = some r
  gone : ∀ r, (s.pc i).gone = some r → p.gone = some r ∨
    ((∀ node, s.shared.registered node ≠ some r) ∧ ∀ j, j ≠ i → (s.pc j).publishes ≠ some r)
  drops : ∀ l, (s.pc i).drops = some l → p.drops = some l ∨ s.shared.held l = false

/-- **Such a move keeps the invariant.** -/
theorem WritersHold.move (h : WritersHold s) (hp : Moves s i p) :
    WritersHold (s.moved i p) := by
  have hother : ∀ j, j ≠ i → (s.moved i p).pc j = s.pc j := fun j hj => s.moved_of_ne p hj
  have hself : (s.moved i p).pc i = p := s.moved_self i p
  refine ⟨h.records, fun j => ?_, fun j j' l hl hl' => ?_, fun r hr l hl => ?_, fun l hl => ?_⟩
  · show WriterPhaseHolds s.shared ((s.moved i p).pc j)
    by_cases hj : j = i
    · rw [hj, hself]
      exact hp.point
    · rw [hother j hj]
      exact h.point j
  · by_cases hj : j = i <;> by_cases hj' : j' = i
    · rw [hj, hj']
    · rw [hj, hself] at hl
      rw [hother j' hj'] at hl'
      exact (hp.apart j' hj' l hl hl').elim
    · rw [hj', hself] at hl'
      rw [hother j hj] at hl
      exact (hp.apart j hj l hl' hl).elim
    · rw [hother j hj] at hl
      rw [hother j' hj'] at hl'
      exact h.apart j j' l hl hl'
  · have hgiven : ∀ j, j ≠ i → (s.pc j).gone = some r →
        GivenUp (s.moved i p) r :=
      fun j hj hg => ⟨j, by rw [hother j hj]; exact hg⟩
    by_cases hpub : p.publishes = some r
    · exact (hp.publishes r hpub l hl).imp_right fun ⟨j, hj, hg⟩ => hgiven j hj hg
    · have huse : InUse s r ∧ ((∃ node, s.shared.registered node = some r) ∨
          ∃ j, j ≠ i ∧ (s.pc j).publishes = some r) := by
        rcases hr with hr | ⟨j, hj⟩
        · exact ⟨.inl hr, .inl hr⟩
        · have hne : j ≠ i := by
            intro heq
            rw [heq, hself] at hj
            exact hpub hj
          rw [hother j hne] at hj
          exact ⟨.inr ⟨j, hj⟩, .inr ⟨j, hne, hj⟩⟩
      rcases h.inUse r huse.1 l hl with hheld | ⟨j, hj⟩
      · exact .inl hheld
      · by_cases hji : j = i
        · rw [hji] at hj
          rcases hp.gone r hj with hg | ⟨hreg, hnot⟩
          · exact .inr ⟨i, by rw [hself]; exact hg⟩
          · rcases huse.2 with ⟨node, hnode⟩ | ⟨j', hj', hpub'⟩
            · exact (hreg node hnode).elim
            · exact (hnot j' hj' hpub').elim
        · exact .inr (hgiven j hji hj)
  · rcases h.file l hl with hfile | ⟨j, hj⟩
    · exact .inl hfile
    · by_cases hji : j = i
      · rw [hji] at hj
        rcases hp.drops l hj with hd | hfalse
        · exact .inr ⟨i, by rw [hself]; exact hd⟩
        · have hl : s.shared.held l = true := hl
          rw [hfalse] at hl
          cases hl
      · exact .inr ⟨j, by rw [hother j hji]; exact hj⟩

/-- A phase that counts on nothing its predecessor did not. -/
structure WriterPhase.Within (p q : WriterPhase) : Prop where
  worksOn : p.worksOn = none ∨ p.worksOn = q.worksOn
  writable : p.writable = none ∨ p.writable = q.writable
  popped : p.popped = none ∨ p.popped = q.popped
  releases : p.releases = none ∨ p.releases = q.releases
  owns : p.owns = none ∨ p.owns = q.owns
  publishes : p.publishes = none ∨ p.publishes = q.publishes
  gone : q.gone = none ∨ p.gone = q.gone
  drops : q.drops = none

theorem WriterPhase.Within.of_recordless {q : WriterPhase} (hp : p.recordless)
    (howns : p.owns = none ∨ p.owns = q.owns) (hgone : q.gone = none) (hdrops : q.drops = none) :
    p.Within q := by
  obtain ⟨hworks, hwritable, hpopped, hreleases, hpublishes⟩ := hp
  exact ⟨.inl hworks, .inl hwritable, .inl hpopped, .inl hreleases, howns, .inl hpublishes,
    .inl hgone, hdrops⟩

theorem WriterPhase.Within.drop (l : Nat) (after : AfterRelease) :
    (WriterPhase.drop l after).Within (.unlink l after) := by
  rcases after with _ | _ | ⟨_, _, _ | _⟩ <;>
    exact ⟨.inr rfl, .inl rfl, .inr rfl, .inr rfl, .inr rfl, .inl rfl, .inl rfl, rfl⟩

theorem some_of_within {α : Type} {a b : Option α} (h : a = none ∨ a = b) {x : α}
    (hx : a = some x) : b = some x := by
  rcases h with h | h
  · rw [h] at hx
    cases hx
  · rw [← h]
    exact hx

theorem WriterPhaseHolds.within {a : ChildWriters} {q : WriterPhase} (h : WriterPhaseHolds a q)
    (hp : p.Within q) : WriterPhaseHolds a p := by
  refine ⟨fun node r hr => h.worksOn node r (some_of_within hp.worksOn hr),
    fun r hr => h.writable r (some_of_within hp.writable hr),
    fun r hr => h.popped r (some_of_within hp.popped hr),
    fun l r hl => h.releases l r (some_of_within hp.releases hl), fun l hl => ?_⟩
  obtain ⟨holder, hforeign, hheld⟩ := h.owns l (some_of_within hp.owns hl)
  refine ⟨holder, hforeign, .inl (hheld.resolve_right fun hdrops => ?_)⟩
  rw [hp.drops] at hdrops
  cases hdrops

theorem Moves.within (h : WritersHold s) (hp : p.Within (s.pc i)) : Moves s i p := by
  refine ⟨(h.point i).within hp, fun j hj l hl hl' => ?_, fun r hr l hl => ?_, fun r hr => ?_,
    fun l hl => ?_⟩
  · exact hj (h.apart j i l hl' (some_of_within hp.owns hl))
  · have hpub : (s.pc i).publishes = some r := some_of_within hp.publishes hr
    refine (h.inUse r (.inr ⟨i, hpub⟩) l hl).imp_right fun ⟨j, hj⟩ => ⟨j, fun hji => ?_, hj⟩
    rw [hji] at hj
    rw [not_publishes_of_gone hj] at hpub
    cases hpub
  · exact .inl (some_of_within (hp.gone.imp_right Eq.symm) hr)
  · rw [hp.drops] at hl
    cases hl

/-! ### The locks -/

/-- A change that touches no lock; the tables may forget records. -/
theorem Stands.calm (h : WritersHold s)
    (hrecords : ∀ r, (u.records r).lock = (s.shared.records r).lock ∧
      (u.records r).node = (s.shared.records r).node)
    (hnextRecord : u.nextRecord = s.shared.nextRecord)
    (hnextLock : u.nextLock = s.shared.nextLock) (hheld : u.held = s.shared.held)
    (hfile : u.lockFile = s.shared.lockFile)
    (hregistered : ∀ node r, u.registered node = some r → s.shared.registered node = some r) :
    Stands s u := by
  refine ⟨hrecords, hnextRecord, Nat.le_of_eq hnextLock.symm, hregistered, fun l hl => .inl ?_,
    fun l hl => ?_⟩
  · unfold ChildWriters.Holds
    rw [hheld, hfile]
    exact hl
  · rw [hheld] at hl
    rw [hfile]
    exact h.file l hl

/-- A heartbeat that makes the file again does so under a path that nobody holds. -/
theorem Stands.beaten (h : WritersHold s) (l : Nat) : Stands s (s.shared.beaten l) := by
  have hfile : ∀ l', s.shared.lockFile = some l' → (s.shared.beaten l).lockFile = some l' := by
    intro l' hl'
    unfold ChildWriters.beaten
    simp only [hl', Option.getD_some]
  exact ⟨fun _ => ⟨rfl, rfl⟩, rfl, Nat.le_refl _, fun _ _ hr => hr,
    fun l' hl' => .inl ⟨hl'.1, hfile l' hl'.2⟩,
    fun l' hl' => (h.file l' hl').imp_left (hfile l')⟩

/-- **A lock is acquired** on a free path: no lock object has the file. -/
theorem Stands.acquired (h : WritersHold s) (hfree : s.shared.lockFile = none) :
    Stands s s.shared.acquired := by
  refine ⟨fun _ => ⟨rfl, rfl⟩, rfl, Nat.le_succ _, fun _ _ hr => hr, fun l hl => ?_,
    fun l hl => ?_⟩
  · have hfile := hl.2
    rw [hfree] at hfile
    cases hfile
  · have hl : Function.update s.shared.held s.shared.nextLock true l = true := hl
    show some s.shared.nextLock = some l ∨ _
    by_cases heq : l = s.shared.nextLock
    · exact .inl (congrArg some heq.symm)
    · rw [Function.update_of_ne heq] at hl
      refine .inr ((h.file l hl).resolve_left fun hfile => ?_)
      rw [hfree] at hfile
      cases hfile

/-- The lock object that a call releases, and nobody else's. -/
theorem released_of_drop (h : WritersHold s) {l : Nat} {after : AfterRelease}
    (hpc : s.pc i = .drop l after) : Released s l := by
  have hpoint := h.point i
  rw [hpc] at hpoint
  cases after with
  | unmount node r pop =>
    have hlock := hpoint.releases l r rfl
    have hknown := (hpoint.worksOn node r rfl).1
    refine ⟨fun r' hr' hl' => ⟨i, ?_⟩, fun j hj => ?_⟩
    · rw [hpc, h.records.own r' hr' r hknown l hl' hlock]
      rfl
    · exact (((h.point j).owns l hj).2.1 r hknown hlock).elim
  | _ =>
    refine ⟨fun r' hr' hl' => ((hpoint.owns l rfl).2.1 r' hr' hl').elim, fun j hj => ?_⟩
    rw [h.apart j i l hj (by rw [hpc]; rfl), hpc]
    rfl

/-- The call that releases a lock is the only one that does. -/
theorem drop_unique (h : WritersHold s) (hg : GivesUpAlone s) {j : Fin k} {l : Nat}
    {after : AfterRelease} (hpc : s.pc i = .unlink l after) (hj : (s.pc j).drops = some l) :
    False := by
  have hpoint := h.point i
  have hphase : ∃ after', s.pc j = .drop l after' := by
    unfold WriterPhase.drops at hj
    split at hj
    · rename_i after' hpcj
      cases hj
      exact ⟨after', hpcj⟩
    · cases hj
  obtain ⟨after', hpcj⟩ := hphase
  have hne : j ≠ i := by
    rintro rfl
    rw [hpc] at hpcj
    cases hpcj
  have hreleased := released_of_drop h hpcj
  rw [hpc] at hpoint
  cases after with
  | unmount node r pop =>
    have hlock := hpoint.releases l r rfl
    have hknown := (hpoint.worksOn node r rfl).1
    have hpointj := h.point j
    rw [hpcj] at hpointj
    cases after' with
    | unmount node' r' pop' =>
      have hsame := h.records.own r' (hpointj.worksOn node' r' rfl).1 r hknown l
        (hpointj.releases l r' rfl) hlock
      refine (hg j i hne r' (by rw [hpcj]; rfl)).2 ?_
      rw [hpc, hsame]
      rfl
    | _ => exact (hpointj.owns l rfl).2.1 r hknown hlock
  | _ =>
    have hown := hreleased.owner i (by rw [hpc]; rfl)
    rw [hpc] at hown
    cases hown

/-- **The file of a lock is removed.** -/
theorem WritersHold.unlink (h : WritersHold s) (hg : GivesUpAlone s) {l : Nat}
    {after : AfterRelease} (hpc : s.pc i = .unlink l after) :
    WritersHold ((s.sharing (s.shared.unlinked l)).moved i (.drop l after)) := by
  have hmoved : WritersHold (s.moved i (.drop l after)) := by
    refine h.move (.within h ?_)
    rw [hpc]
    exact .drop l after
  have hdrop : (s.moved i (.drop l after)).pc i = .drop l after := s.moved_self i _
  have hown : s.shared.held l = true → s.shared.lockFile = some l :=
    fun hheld => (h.file l hheld).resolve_right fun ⟨j, hj⟩ => drop_unique h hg hpc hj
  refine hmoved.stands (u := s.shared.unlinked l) ⟨fun _ => ⟨rfl, rfl⟩, rfl, Nat.le_refl _,
    fun _ _ hr => hr, fun l' hl' => ?_, fun l' hl' => ?_⟩
  · by_cases hheld : s.shared.held l = true
    · have hsame : l' = l := Option.some.inj (hl'.2.symm.trans (hown hheld))
      rw [hsame]
      exact .inr (released_of_drop hmoved hdrop)
    · refine .inl ⟨hl'.1, ?_⟩
      unfold ChildWriters.unlinked
      simp only [hheld]
      exact hl'.2
  · by_cases hsame : l' = l
    · refine .inr ⟨i, ?_⟩
      rw [hdrop, hsame]
      rfl
    · refine (hmoved.file l' hl').imp_left fun hfile => ?_
      have hheld : ¬ s.shared.held l = true :=
        fun hheld => hsame (Option.some.inj (hfile.symm.trans (hown hheld)))
      unfold ChildWriters.unlinked
      simp only [hheld]
      exact hfile

/-- **The lock object knows that it is released.** -/
theorem WritersHold.drop (h : WritersHold s) {l : Nat} {after : AfterRelease}
    (hpc : s.pc i = .drop l after) : WritersHold (s.sharing (s.shared.dropped l)) := by
  have hother : ∀ l', l' ≠ l → (s.shared.dropped l).held l' = s.shared.held l' :=
    fun l' hl' => Function.update_of_ne hl' ..
  refine h.stands ⟨fun _ => ⟨rfl, rfl⟩, rfl, Nat.le_refl _, fun _ _ hr => hr, fun l' hl' => ?_,
    fun l' hl' => ?_⟩
  · by_cases hsame : l' = l
    · rw [hsame]
      exact .inr (released_of_drop h hpc)
    · refine .inl ⟨?_, hl'.2⟩
      rw [hother l' hsame]
      exact hl'.1
  · have hsame : l' ≠ l := by
      rintro rfl
      have hl' : Function.update s.shared.held l' false l' = true := hl'
      rw [Function.update_self] at hl'
      cases hl'
    rw [hother l' hsame] at hl'
    exact h.file l' hl'

/-! ### The records -/

/-- **A mount is registered**, with a lock that is nobody else's or none. -/
theorem WritersHold.register (h : WritersHold s) (record : NodeRecord)
    (hlock : ∀ l, record.lock = some l → l < s.shared.nextLock ∧ s.shared.Holds l ∧
      (∀ r < s.shared.nextRecord, (s.shared.records r).lock ≠ some l) ∧
      ∀ j, (s.pc j).owns ≠ some l) : WritersHold (s.sharing (s.shared.register record)) := by
  have hold : ∀ r < s.shared.nextRecord,
      (s.shared.register record).records r = s.shared.records r :=
    fun r hr => Function.update_of_ne (Nat.ne_of_lt hr) ..
  have hnew : (s.shared.register record).records s.shared.nextRecord = record :=
    Function.update_self ..
  have hcase : ∀ r < (s.shared.register record).nextRecord,
      r < s.shared.nextRecord ∨ r = s.shared.nextRecord :=
    fun r hr => Nat.lt_succ_iff_lt_or_eq.mp hr
  have hregistered : ∀ node r, (s.shared.register record).registered node = some r →
      s.shared.registered node = some r ∨ (r = s.shared.nextRecord ∧ node = record.node) := by
    intro node r hr
    have hr : Function.update s.shared.registered record.node (some s.shared.nextRecord) node =
        some r := hr
    rw [Function.update_apply] at hr
    split at hr
    · rename_i hnode
      cases hr
      exact .inr ⟨rfl, hnode⟩
    · exact .inl hr
  refine ⟨⟨fun node r hr => ?_, fun r hr l hl => ?_, fun r hr r' hr' l hl hl' => ?_⟩,
    fun j => ⟨fun node r hr => ?_, fun r hr => ?_, fun r hr node hnode => ?_, fun l r hl => ?_,
      fun l hl => ?_⟩, h.apart, fun r hr l hl => ?_, h.file⟩
  · rcases hregistered node r hr with hr | ⟨rfl, rfl⟩
    · obtain ⟨hknown, hnode⟩ := h.records.known node r hr
      refine ⟨Nat.lt_succ_of_lt hknown, ?_⟩
      show ((s.shared.register record).records r).node = node
      rw [hold r hknown]
      exact hnode
    · refine ⟨Nat.lt_succ_self _, ?_⟩
      show ((s.shared.register record).records s.shared.nextRecord).node = record.node
      rw [hnew]
  · have hl : ((s.shared.register record).records r).lock = some l := hl
    rcases hcase r hr with hr | rfl
    · rw [hold r hr] at hl
      exact h.records.older r hr l hl
    · rw [hnew] at hl
      exact (hlock l hl).1
  · have hl : ((s.shared.register record).records r).lock = some l := hl
    have hl' : ((s.shared.register record).records r').lock = some l := hl'
    rcases hcase r hr with hr | rfl <;> rcases hcase r' hr' with hr' | rfl
    · rw [hold r hr] at hl
      rw [hold r' hr'] at hl'
      exact h.records.own r hr r' hr' l hl hl'
    · rw [hold r hr] at hl
      rw [hnew] at hl'
      exact ((hlock l hl').2.2.1 r hr hl).elim
    · rw [hold r' hr'] at hl'
      rw [hnew] at hl
      exact ((hlock l hl).2.2.1 r' hr' hl').elim
    · rfl
  · obtain ⟨hknown, hnode⟩ := (h.point j).worksOn node r hr
    refine ⟨Nat.lt_succ_of_lt hknown, ?_⟩
    show ((s.shared.register record).records r).node = node
    rw [hold r hknown]
    exact hnode
  · obtain ⟨node, hworks⟩ := worksOn_of_writable hr
    show ((s.shared.register record).records r).lock.isSome
    rw [hold r ((h.point j).worksOn node r hworks).1]
    exact (h.point j).writable r hr
  · obtain ⟨node', hworks⟩ := worksOn_of_popped hr
    rcases hregistered node r hnode with hnode | ⟨rfl, -⟩
    · exact (h.point j).popped r hr node hnode
    · exact Nat.lt_irrefl _ ((h.point j).worksOn node' _ hworks).1
  · obtain ⟨node, hworks⟩ := worksOn_of_releases hl
    show ((s.shared.register record).records r).lock = some l
    rw [hold r ((h.point j).worksOn node r hworks).1]
    exact (h.point j).releases l r hl
  · obtain ⟨holder, hforeign, hheld⟩ := (h.point j).owns l hl
    refine ⟨holder, fun r hr hl' => ?_, hheld⟩
    have hl' : ((s.shared.register record).records r).lock = some l := hl'
    rcases hcase r hr with hr | rfl
    · rw [hold r hr] at hl'
      exact hforeign r hr hl'
    · rw [hnew] at hl'
      exact (hlock l hl').2.2.2 j hl
  · have hl : ((s.shared.register record).records r).lock = some l := hl
    by_cases hr' : r = s.shared.nextRecord
    · rw [hr', hnew] at hl
      exact .inl (hlock l hl).2.1
    · have huse : InUse s r := hr.imp_left fun ⟨node, hnode⟩ =>
        ⟨node, (hregistered node r hnode).resolve_right fun hn => hr' hn.1⟩
      rw [hold r (huse.known h)] at hl
      exact h.inUse r huse l hl

/-! ## 5. Every step -/

/-- A change of what is neither a lock nor a record. -/
theorem Stands.touch (h : WritersHold s) {generation : Nat} {uppers : Nat → Option Tree}
    {publishLocks mountLocks : Nat → Bool} {mirror : Option MirrorEpoch} :
    Stands s { s.shared with
      generation := generation
      uppers := uppers
      publishLocks := publishLocks
      mountLocks := mountLocks
      mirror := mirror } :=
  .calm h (fun _ => ⟨rfl, rfl⟩) rfl rfl rfl rfl fun _ _ hr => hr

/-- A change of a record that keeps its lock and its node. -/
theorem Stands.record (h : WritersHold s) (r : Nat) {record : NodeRecord}
    (hlock : record.lock = (s.shared.records r).lock)
    (hnode : record.node = (s.shared.records r).node) :
    Stands s { s.shared with records := Function.update s.shared.records r record } := by
  refine .calm h (fun r' => ?_) rfl rfl rfl rfl fun _ _ hr => hr
  simp only [Function.update_apply]
  by_cases hr : r' = r
  · rw [if_pos hr, hr]
    exact ⟨hlock, hnode⟩
  · rw [if_neg hr]
    exact ⟨rfl, rfl⟩

theorem Stands.change (h : WritersHold s) (r : Nat) (record : WriterRecord) :
    Stands s (s.shared.change r record) :=
  .record h r rfl rfl

theorem Stands.unmounted (h : WritersHold s) (r : Nat) : Stands s (s.shared.unmounted r) :=
  .record h r rfl rfl

theorem Stands.popped (h : WritersHold s) (node : Nat) : Stands s (s.shared.popped node) := by
  refine .calm h (fun _ => ⟨rfl, rfl⟩) rfl rfl rfl rfl fun node' r hr => ?_
  have hr : Function.update s.shared.registered node none node' = some r := hr
  rw [Function.update_apply] at hr
  split at hr
  · cases hr
  · exact hr

/-- A record that is popped from the table of its node is in no table. -/
theorem not_registered_of_popped (h : WritersHold s) {node r : Nat}
    (hnode : (s.shared.records r).node = node) (node' : Nat) :
    (s.shared.popped node).registered node' ≠ some r := by
  intro hr
  have hr : Function.update s.shared.registered node none node' = some r := hr
  rw [Function.update_apply] at hr
  split at hr
  · cases hr
  · rename_i hne
    exact hne ((h.records.known node' r hr).2.symm.trans hnode)

/-- A lock has been acquired for the call. -/
theorem WritersHold.acquire (h : WritersHold s) (hfree : s.shared.lockFile = none) {node : Nat}
    (hp : p = .mountHydrate node s.shared.nextLock ∨ p = .commitCheck node s.shared.nextLock)
    (hgone : (s.pc i).gone = none) (hdrops : (s.pc i).drops = none) :
    WritersHold ((s.sharing s.shared.acquired).moved i p) := by
  have howns : ∀ l, p.owns = some l → l = s.shared.nextLock := by
    rcases hp with rfl | rfl
    · intro l hl
      cases hl
      rfl
    · intro l hl
      cases hl
      rfl
  have hnone : p.recordless := by
    rcases hp with rfl | rfl <;> exact ⟨rfl, rfl, rfl, rfl, rfl⟩
  obtain ⟨hworks, hwritable, hpopped, hreleases, hpublishes⟩ := hnone
  refine (h.stands (.acquired h hfree)).move ⟨⟨fun _ _ hr => ?_, fun _ hr => ?_, fun _ hr => ?_,
    fun _ _ hl => ?_, fun l hl => ⟨?_, fun r hr hlock => ?_, .inl ⟨?_, ?_⟩⟩⟩,
    fun j _ l hl hl' => ?_, fun _ hr => ?_, fun _ hr => ?_, fun _ hl => ?_⟩
  · rw [hworks] at hr
    cases hr
  · rw [hwritable] at hr
    cases hr
  · rw [hpopped] at hr
    cases hr
  · rw [hreleases] at hl
    cases hl
  · rw [howns l hl]
    exact Nat.lt_succ_self _
  · rw [howns l hl] at hlock
    exact Nat.lt_irrefl _ (h.records.older r hr _ hlock)
  · rw [howns l hl]
    exact Function.update_self ..
  · rw [howns l hl]
    rfl
  · rw [howns l hl] at hl'
    exact Nat.lt_irrefl _ ((h.point j).owns _ hl').1
  · rw [hpublishes] at hr
    cases hr
  · have hr : (s.pc i).gone = some _ := hr
    rw [hgone] at hr
    cases hr
  · have hl : (s.pc i).drops = some _ := hl
    rw [hdrops] at hl
    cases hl

theorem WriterPhase.Within.publish {node r : Nat} {stage stage' : PublishStage}
    (after : AfterPublish)
    (hw : (WriterPhase.publish node r stage' after).writable = none ∨
      (WriterPhase.publish node r stage' after).writable =
        (WriterPhase.publish node r stage after).writable)
    (hp : (WriterPhase.publish node r stage' after).publishes = none ∨
      (WriterPhase.publish node r stage' after).publishes =
        (WriterPhase.publish node r stage after).publishes) :
    (WriterPhase.publish node r stage' after).Within (.publish node r stage after) := by
  rcases after with _ | ⟨_ | _⟩ <;>
    exact ⟨.inr rfl, hw, .inr rfl, .inl rfl, .inl rfl, hp, .inl rfl, rfl⟩

theorem WriterPhase.Within.afterPublish (node r : Nat) (after : AfterPublish) :
    (after.phase node r).Within (.publish node r .unlock after) := by
  rcases after with _ | ⟨_ | _⟩
  · exact ⟨.inl rfl, .inl rfl, .inl rfl, .inl rfl, .inl rfl, .inl rfl, .inl rfl, rfl⟩
  · exact ⟨.inr rfl, .inl rfl, .inr rfl, .inl rfl, .inl rfl, .inl rfl, .inl rfl, rfl⟩
  · exact ⟨.inr rfl, .inl rfl, .inr rfl, .inl rfl, .inl rfl, .inl rfl, .inl rfl, rfl⟩

/-- **A step of a publish.** -/
theorem publishRecordStep_keeps (h : WritersHold s) {node r : Nat} {stage : PublishStage}
    {after : AfterPublish} (hpc : s.pc i = .publish node r stage after)
    (hs : publishRecordStep s.shared node r after stage = some (u, p)) :
    WritersHold ((s.sharing u).moved i p) := by
  have hto : ∀ {u stage'}, Stands s u →
      ((WriterPhase.publish node r stage' after).Within (.publish node r stage after)) →
      WritersHold ((s.sharing u).moved i (.publish node r stage' after)) := by
    intro u stage' hu hw
    rw [← hpc] at hw
    exact (h.stands hu).move (.within (h.stands hu) hw)
  cases stage with
  | lock =>
    simp only [publishRecordStep] at hs
    split at hs <;> cases hs
    exact hto (.touch h) (.publish after (.inl rfl) (.inr rfl))
  | check =>
    simp only [publishRecordStep] at hs
    split at hs <;> cases hs
    · rename_i hlock
      have hq : Moves s i (.publish node r .check after) := by
        refine .within h ?_
        rw [hpc]
        exact .publish after (.inl rfl) (.inr rfl)
      refine h.move ⟨⟨hq.point.worksOn, fun r' hr' => ?_, ?_, hq.point.releases, hq.point.owns⟩,
        hq.apart, hq.publishes, hq.gone, hq.drops⟩
      · cases hr'
        exact hlock
      · have hpopped := hq.point.popped
        rcases after with _ | ⟨_ | _⟩ <;> exact hpopped
    · exact hto (.touch h) (.publish after (.inl rfl) (.inl rfl))
  | heartbeat =>
    simp only [publishRecordStep] at hs
    split at hs <;> cases hs <;> exact hto (.touch h) (.publish after (.inr rfl) (.inr rfl))
  | beat lock =>
    cases hs
    exact hto (.beaten h lock) (.publish after (.inr rfl) (.inr rfl))
  | isDir =>
    simp only [publishRecordStep] at hs
    split at hs <;> cases hs
    · exact hto (.touch h) (.publish after (.inr rfl) (.inr rfl))
    · exact hto (.touch h) (.publish after (.inl rfl) (.inl rfl))
  | stats =>
    simp only [publishRecordStep] at hs
    split at hs <;> cases hs
    · exact hto (.touch h) (.publish after (.inr rfl) (.inr rfl))
    · exact hto (.touch h) (.publish after (.inl rfl) (.inl rfl))
  | copy =>
    simp only [publishRecordStep] at hs
    split at hs <;> cases hs
    exact hto (.touch h) (.publish after (.inr rfl) (.inr rfl))
  | replace epoch tree =>
    cases hs
    exact hto (.touch h) (.publish after (.inl rfl) (.inl rfl))
  | unlock =>
    cases hs
    refine (h.stands (.touch h)).move (.within (h.stands (.touch h)) ?_)
    have hw := WriterPhase.Within.afterPublish node r after
    rw [← hpc] at hw
    exact hw

/-- A call that goes on, or ends, with no record, and no lock but the one it owns. -/
theorem WritersHold.quiet (h : WritersHold s) (hu : Stands s u) (hp : p.recordless)
    (howns : p.owns = none ∨ p.owns = (s.pc i).owns) (hgone : (s.pc i).gone = none)
    (hdrops : (s.pc i).drops = none) : WritersHold ((s.sharing u).moved i p) :=
  (h.stands hu).move (.within (h.stands hu) (.of_recordless hp howns hgone hdrops))

theorem recordless_idle : (WriterPhase.idle).recordless := ⟨rfl, rfl, rfl, rfl, rfl⟩

/-- **A call ends that has given its record up.** -/
theorem WritersHold.forgotten (h : WritersHold s) (hg : GivesUpAlone s)
    (hreg : ∀ r, (s.pc i).gone = some r → ∀ node, s.shared.registered node ≠ some r)
    (hdrops : ∀ l, (s.pc i).drops = some l → s.shared.held l = false) :
    WritersHold (s.moved i .idle) := by
  refine h.move ⟨⟨nofun, nofun, nofun, nofun, nofun⟩, nofun, nofun,
    fun r hr => .inr ⟨hreg r hr, ?_⟩, fun l hl => .inr (hdrops l hl)⟩
  exact fun j hj => (hg i j (Ne.symm hj) r (givesUp_of_gone hr)).1

/-- A lock is released, and the call goes on. -/
theorem drop_keeps (h : WritersHold s) (hg : GivesUpAlone s) {l : Nat} {after : AfterRelease}
    (hpc : s.pc i = .drop l after) {now : Int}
    (hs : writerPhaseStep s.shared now (.drop l after) = some (u, p)) :
    WritersHold ((s.sharing u).moved i p) := by
  have hdrop := h.drop hpc
  have hfalse : ∀ l', (s.pc i).drops = some l' → (s.shared.dropped l).held l' = false := by
    intro l' hl'
    rw [hpc] at hl'
    cases hl'
    exact Function.update_self ..
  have hpoint := h.point i
  rw [hpc] at hpoint
  cases after with
  | done =>
    cases hs
    refine hdrop.forgotten hg (fun r hr => ?_) hfalse
    have hr : (s.pc i).gone = some r := hr
    rw [hpc] at hr
    cases hr
  | mountLock node =>
    cases hs
    refine (hdrop.stands (.touch hdrop)).forgotten hg (fun r hr => ?_) hfalse
    have hr : (s.pc i).gone = some r := hr
    rw [hpc] at hr
    cases hr
  | unmount node r pop =>
    cases hs
    cases pop with
    | false =>
      refine hdrop.forgotten hg (fun r' hr => ?_) hfalse
      have hr : (s.pc i).gone = some r' := hr
      rw [hpc] at hr
      cases hr
      exact hpoint.popped r rfl
    | true =>
      refine hdrop.move ⟨⟨fun node' r' hr => ?_, nofun, nofun, nofun, nofun⟩, nofun, nofun,
        fun r' hr => .inl ?_, fun l' hl' => .inr (hfalse l' hl')⟩
      · cases hr
        exact hpoint.worksOn node r rfl
      · have hr : (s.pc i).gone = some r' := hr
        rw [hpc] at hr
        exact hr

/-- **Every step of a call keeps the invariant.** -/
theorem writerPhaseStep_keeps (h : WritersHold s) (hg : GivesUpAlone s) {now : Int}
    (hs : writerPhaseStep s.shared now (s.pc i) = some (u, p)) :
    WritersHold ((s.sharing u).moved i p) := by
  have hpoint := h.point i
  cases hpc : s.pc i with
  | idle =>
    rw [hpc] at hs
    cases hs
  | mountLock node =>
    rw [hpc] at hs
    simp only [writerPhaseStep] at hs
    split at hs <;> cases hs
    exact h.quiet (.touch h) ⟨rfl, rfl, rfl, rfl, rfl⟩ (.inl rfl) (by rw [hpc]; rfl)
      (by rw [hpc]; rfl)
  | mountLookup node =>
    have hgone : (s.pc i).gone = none := by rw [hpc]; rfl
    have hdrops : (s.pc i).drops = none := by rw [hpc]; rfl
    rw [hpc] at hs
    simp only [writerPhaseStep] at hs
    split at hs
    · cases hs
      exact h.quiet (.touch h) ⟨rfl, rfl, rfl, rfl, rfl⟩ (.inl rfl) hgone hdrops
    · rename_i r _
      split at hs <;> cases hs
      · exact h.quiet (.touch h) recordless_idle (.inl rfl) hgone hdrops
      · have hchanged := h.stands (.change h r ⟨(s.shared.records r).refcount + 1, now,
          (s.shared.records r).baseGeneration⟩)
        exact hchanged.quiet (.touch hchanged) recordless_idle (.inl rfl) hgone hdrops
  | mountAcquire node =>
    have hgone : (s.pc i).gone = none := by rw [hpc]; rfl
    have hdrops : (s.pc i).drops = none := by rw [hpc]; rfl
    rw [hpc] at hs
    simp only [writerPhaseStep] at hs
    split at hs
    · rename_i hfree
      cases hs
      exact h.acquire hfree (.inl rfl) hgone hdrops
    · cases hs
      have hidle : WritersHold (s.moved i .idle) :=
        h.quiet (.touch h) recordless_idle (.inl rfl) hgone hdrops
      have hregister := hidle.register (s.shared.newRecord node none now) nofun
      exact hregister.stands (.touch hregister)
  | mountHydrate node lock =>
    rw [hpc] at hs
    cases hs
    exact h.quiet (.touch h) ⟨rfl, rfl, rfl, rfl, rfl⟩ (.inr (by rw [hpc]; rfl)) (by rw [hpc]; rfl)
      (by rw [hpc]; rfl)
  | mountOverlay node lock =>
    rw [hpc] at hs hpoint
    cases hs
    obtain ⟨holder, hforeign, hheld⟩ := hpoint.owns lock rfl
    have hidle : WritersHold (s.moved i .idle) :=
      h.quiet (.touch h) recordless_idle (.inl rfl) (by rw [hpc]; rfl) (by rw [hpc]; rfl)
    have hregister := hidle.register (s.shared.newRecord node (some lock) now) (fun l hl => by
      cases hl
      refine ⟨holder, hheld.resolve_right nofun, hforeign, fun j hj => ?_⟩
      by_cases hji : j = i
      · rw [hji, s.moved_self] at hj
        cases hj
      · rw [s.moved_of_ne _ hji] at hj
        exact hji (h.apart j i lock hj (by rw [hpc]; rfl)))
    exact hregister.stands (.touch hregister)
  | publish node r stage after =>
    rw [hpc] at hs
    exact publishRecordStep_keeps h hpc hs
  | unmountHandle node r pop =>
    rw [hpc] at hs
    have hunmounted := h.stands (.unmounted h r)
    have hpoint : WriterPhaseHolds (s.shared.unmounted r) (s.pc i) := hunmounted.point i
    rw [hpc] at hpoint
    have hgone : (s.pc i).gone = none := by rw [hpc]; rfl
    have hdrops : (s.pc i).drops = none := by rw [hpc]; rfl
    have hmove : ∀ {p}, WriterPhaseHolds (s.shared.unmounted r) p → p.owns = none →
        p.publishes = none → WritersHold ((s.sharing (s.shared.unmounted r)).moved i p) := by
      intro p hp howns hpub
      refine hunmounted.move ⟨hp, fun _ _ l hl => ?_, fun r' hr' => ?_, fun r' hr' => ?_,
        fun l hl => ?_⟩
      · rw [howns] at hl
        cases hl
      · rw [hpub] at hr'
        cases hr'
      · have hr' : (s.pc i).gone = some r' := hr'
        rw [hgone] at hr'
        cases hr'
      · have hl : (s.pc i).drops = some l := hl
        rw [hdrops] at hl
        cases hl
    simp only [writerPhaseStep] at hs
    split at hs
    · rename_i lock hlock
      cases hs
      refine hmove ⟨hpoint.worksOn, nofun, ?_, fun l r' hl => ?_, nofun⟩ rfl rfl
      · have hpopped := hpoint.popped
        cases pop <;> exact hpopped
      · cases hl
        rw [← hlock]
        exact (Stands.unmounted h r).records r |>.1
    · cases hs
      cases pop with
      | false => exact hmove ⟨nofun, nofun, nofun, nofun, nofun⟩ rfl rfl
      | true => exact hmove ⟨hpoint.worksOn, nofun, nofun, nofun, nofun⟩ rfl rfl
  | unlink lock after =>
    rw [hpc] at hs
    cases hs
    exact h.unlink hg hpc
  | drop lock after =>
    rw [hpc] at hs
    exact drop_keeps h hg hpc hs
  | pop node r =>
    rw [hpc] at hs hpoint
    cases hs
    refine (h.stands (.popped h node)).forgotten hg (fun r' hr => ?_) (fun l hl => ?_)
    · have hr : (s.pc i).gone = some r' := hr
      rw [hpc] at hr
      cases hr
      exact not_registered_of_popped h (hpoint.worksOn node r rfl).2
    · have hl : (s.pc i).drops = some l := hl
      rw [hpc] at hl
      cases hl
  | commitLatest node =>
    have hgone : (s.pc i).gone = none := by rw [hpc]; rfl
    have hdrops : (s.pc i).drops = none := by rw [hpc]; rfl
    rw [hpc] at hs
    simp only [writerPhaseStep] at hs
    split at hs <;> cases hs
    · exact h.quiet (.touch h) ⟨rfl, rfl, rfl, rfl, rfl⟩ (.inl rfl) hgone hdrops
    · exact h.quiet (.touch h) recordless_idle (.inl rfl) hgone hdrops
  | commitAcquire node =>
    have hgone : (s.pc i).gone = none := by rw [hpc]; rfl
    have hdrops : (s.pc i).drops = none := by rw [hpc]; rfl
    rw [hpc] at hs
    simp only [writerPhaseStep] at hs
    split at hs
    · rename_i hfree
      cases hs
      exact h.acquire hfree (.inr rfl) hgone hdrops
    · cases hs
      exact h.quiet (.touch h) recordless_idle (.inl rfl) hgone hdrops
  | commitCheck node lock =>
    have hw : ∀ {p}, p.recordless → p.owns = some lock → WritersHold (s.moved i p) :=
      fun hp howns => h.quiet (.touch h) hp (.inr (by rw [hpc, howns]; rfl)) (by rw [hpc]; rfl)
        (by rw [hpc]; rfl)
    rw [hpc] at hs
    simp only [writerPhaseStep] at hs
    split at hs
    · cases hs
      exact hw ⟨rfl, rfl, rfl, rfl, rfl⟩ rfl
    · split at hs <;> cases hs <;> exact hw ⟨rfl, rfl, rfl, rfl, rfl⟩ rfl
  | commitBuild node lock =>
    rw [hpc] at hs
    cases hs
    exact h.quiet (.touch h) ⟨rfl, rfl, rfl, rfl, rfl⟩ (.inr (by rw [hpc]; rfl)) (by rw [hpc]; rfl)
      (by rw [hpc]; rfl)
  | commitCleanMirror node lock =>
    rw [hpc] at hs
    cases hs
    exact h.quiet (.touch h) ⟨rfl, rfl, rfl, rfl, rfl⟩ (.inr (by rw [hpc]; rfl)) (by rw [hpc]; rfl)
      (by rw [hpc]; rfl)
  | commitCleanLocal node lock =>
    rw [hpc] at hs
    cases hs
    exact h.quiet (.touch h) ⟨rfl, rfl, rfl, rfl, rfl⟩ (.inr (by rw [hpc]; rfl)) (by rw [hpc]; rfl)
      (by rw [hpc]; rfl)

/-- **A record is looked up to be published.** -/
theorem WritersHold.lookup (h : WritersHold s) (hpc : s.pc i = .idle) {node r : Nat}
    (hr : s.shared.registered node = some r) {after : AfterPublish} (hu : Stands s u)
    (hafter : after = .unmount false → u = s.shared.popped node) :
    WritersHold ((s.sharing u).moved i (.publish node r .lock after)) := by
  obtain ⟨hknown, hnode⟩ := h.records.known node r hr
  refine (h.stands hu).move ⟨⟨fun node' r' hw => ?_, nofun, fun r' hp => ?_, nofun, nofun⟩, nofun,
    fun r' hp l hl => ?_, fun r' hg => ?_, fun l hl => ?_⟩
  · cases hw
    show r < u.nextRecord ∧ (u.records r).node = node
    rw [hu.nextRecord, (hu.records r).2]
    exact ⟨hknown, hnode⟩
  · rcases after with _ | ⟨_ | _⟩ <;> cases hp
    rw [hafter rfl]
    exact not_registered_of_popped h hnode
  · cases hp
    have hl : (s.shared.records r).lock = some l := by
      rw [← (hu.records r).1]
      exact hl
    have hother : GivenUp s r → ∃ j, j ≠ i ∧ (s.pc j).gone = some r := by
      rintro ⟨j, hj⟩
      refine ⟨j, fun hji => ?_, hj⟩
      rw [hji, hpc] at hj
      cases hj
    rcases h.inUse r (.inl ⟨node, hr⟩) l hl with hheld | hgiven
    · exact (hu.holds l hheld).imp id fun hreleased => hother (hreleased.record r hknown hl)
    · exact .inr (hother hgiven)
  · have hg : (s.pc i).gone = some r' := hg
    rw [hpc] at hg
    cases hg
  · have hl : (s.pc i).drops = some l := hl
    rw [hpc] at hl
    cases hl

/-- **Every call that starts keeps the invariant.** -/
theorem beginWriterCall_keeps (h : WritersHold s) (hpc : s.pc i = .idle) {c : WriterCall}
    (hs : beginWriterCall s.shared c = (u, p)) : WritersHold ((s.sharing u).moved i p) := by
  have hquiet : ∀ {u p}, Stands s u → p.recordless → p.owns = none →
      WritersHold ((s.sharing u).moved i p) :=
    fun hu hp howns => h.quiet hu hp (.inl howns) (by rw [hpc]; rfl) (by rw [hpc]; rfl)
  have hidle : ∀ {u}, Stands s u → WritersHold ((s.sharing u).moved i .idle) :=
    fun hu => hquiet hu recordless_idle rfl
  have hsame : Stands s s.shared := .touch h
  cases c with
  | mountRw node =>
    cases hs
    exact hquiet hsame ⟨rfl, rfl, rfl, rfl, rfl⟩ rfl
  | publishDirty node =>
    simp only [beginWriterCall] at hs
    split at hs <;> cases hs
    · exact hidle hsame
    · rename_i hr
      exact h.lookup hpc hr hsame nofun
  | unmount node call =>
    simp only [beginWriterCall] at hs
    split at hs
    · cases hs
      exact hidle hsame
    · rename_i r hr
      cases call with
      | unmount =>
        cases hs
        split
        · exact h.lookup hpc hr (.change h r _) nofun
        · exact hidle (.change h r _)
      | forceUnmount =>
        cases hs
        exact h.lookup hpc hr (.popped h node) fun _ => rfl
      | stopAll =>
        cases hs
        exact h.lookup hpc hr (.popped h node) fun _ => rfl
      | idleUnmountExpired ttl now =>
        cases hs
        split
        · exact h.lookup hpc hr hsame nofun
        · exact hidle hsame
  | handleCommit node =>
    cases hs
    split
    · exact hidle hsame
    · exact hquiet hsame ⟨rfl, rfl, rfl, rfl, rfl⟩ rfl

/-- **A call that raises keeps the invariant**: its record keeps its lock. -/
theorem writerFails_keeps (h : WritersHold s)
    (hs : writerFails s.shared (s.pc i) = some (u, p)) :
    WritersHold ((s.sharing u).moved i p) := by
  have hends : ∀ {u}, Stands s u → (s.pc i).gone = none → (s.pc i).drops = none →
      WritersHold ((s.sharing u).moved i .idle) :=
    fun hu hgone hdrops => h.quiet hu recordless_idle (.inl rfl) hgone hdrops
  have howner : ∀ {lock after}, (s.pc i).owns = some lock → (s.pc i).gone = none →
      (s.pc i).drops = none → after = .done ∨ (∃ node, after = .mountLock node) →
      WritersHold (s.moved i (.unlink lock after)) := by
    intro lock after howns hgone hdrops hafter
    rcases hafter with rfl | ⟨node, rfl⟩ <;>
      exact h.quiet (.touch h) ⟨rfl, rfl, rfl, rfl, rfl⟩ (.inr howns.symm) hgone hdrops
  cases hpc : s.pc i with
  | idle =>
    rw [hpc] at hs
    cases hs
  | mountLock node =>
    rw [hpc] at hs
    cases hs
    exact hends (.touch h) (by rw [hpc]; rfl) (by rw [hpc]; rfl)
  | mountLookup node =>
    rw [hpc] at hs
    cases hs
    exact hends (.touch h) (by rw [hpc]; rfl) (by rw [hpc]; rfl)
  | mountAcquire node =>
    rw [hpc] at hs
    cases hs
    exact hends (.touch h) (by rw [hpc]; rfl) (by rw [hpc]; rfl)
  | mountHydrate node lock =>
    rw [hpc] at hs
    cases hs
    exact hends (.touch h) (by rw [hpc]; rfl) (by rw [hpc]; rfl)
  | mountOverlay node lock =>
    rw [hpc] at hs
    cases hs
    exact howner (by rw [hpc]; rfl) (by rw [hpc]; rfl) (by rw [hpc]; rfl) (.inr ⟨node, rfl⟩)
  | publish node r stage after =>
    rw [hpc] at hs
    have hgone : (s.pc i).gone = none := by rw [hpc]; rfl
    have hdrops : (s.pc i).drops = none := by rw [hpc]; rfl
    cases stage <;> cases hs <;> exact hends (.touch h) hgone hdrops
  | unmountHandle node r pop =>
    rw [hpc] at hs
    cases hs
    exact hends (.touch h) (by rw [hpc]; rfl) (by rw [hpc]; rfl)
  | unlink lock after =>
    rw [hpc] at hs
    have hgone : (s.pc i).gone = none := by rw [hpc]; rfl
    have hdrops : (s.pc i).drops = none := by rw [hpc]; rfl
    cases after <;> cases hs <;> exact hends (.touch h) hgone hdrops
  | drop lock after =>
    rw [hpc] at hs
    cases hs
  | pop node r =>
    rw [hpc] at hs
    cases hs
  | commitLatest node =>
    rw [hpc] at hs
    cases hs
    exact hends (.touch h) (by rw [hpc]; rfl) (by rw [hpc]; rfl)
  | commitAcquire node =>
    rw [hpc] at hs
    cases hs
    exact hends (.touch h) (by rw [hpc]; rfl) (by rw [hpc]; rfl)
  | commitCheck node lock =>
    rw [hpc] at hs
    cases hs
    exact howner (by rw [hpc]; rfl) (by rw [hpc]; rfl) (by rw [hpc]; rfl) (.inl rfl)
  | commitBuild node lock =>
    rw [hpc] at hs
    cases hs
    exact howner (by rw [hpc]; rfl) (by rw [hpc]; rfl) (by rw [hpc]; rfl) (.inl rfl)
  | commitCleanMirror node lock =>
    rw [hpc] at hs
    cases hs
    exact howner (by rw [hpc]; rfl) (by rw [hpc]; rfl) (by rw [hpc]; rfl) (.inl rfl)
  | commitCleanLocal node lock =>
    rw [hpc] at hs
    cases hs
    exact howner (by rw [hpc]; rfl) (by rw [hpc]; rfl) (by rw [hpc]; rfl) (.inl rfl)

theorem writerCallStep_keeps (h : WritersHold s) (hg : GivesUpAlone s) {a : WriterAct}
    (hs : writerCallStep s.shared (s.pc i) a = some (u, p)) :
    WritersHold ((s.sharing u).moved i p) := by
  cases a with
  | call c =>
    simp only [writerCallStep] at hs
    split at hs
    · rename_i hidle
      exact beginWriterCall_keeps h hidle (Option.some.inj hs)
    · cases hs
  | step now => exact writerPhaseStep_keeps h hg hs
  | fail => exact writerFails_keeps h hs
  | write node upper =>
    simp only [writerCallStep] at hs
    split at hs <;> cases hs
    have hwritten : WritersHold (s.sharing (s.shared.setUpper node (some upper))) :=
      h.stands (.touch h)
    rw [← (s.sharing (s.shared.setUpper node (some upper))).moved_pc i] at hwritten
    exact hwritten

/-- **Who publishes has the lock.** -/
theorem WritersHold.lockHolderPublishes (h : WritersHold s) (hg : GivesUpAlone s) (a : WriterAct) :
    LockHolderPublishes s (i, a) := by
  unfold LockHolderPublishes
  split
  · rename_i now node r epoch tree after _ hpc
    have hpc : s.pc i = .publish node r (.replace epoch tree) after := hpc
    have hpoint := h.point i
    rw [hpc] at hpoint
    obtain ⟨l, hl⟩ := Option.isSome_iff_exists.mp (hpoint.writable r rfl)
    have huse : InUse s r := .inr ⟨i, by rw [hpc]; rfl⟩
    refine ⟨l, hl, (h.inUse r huse l hl).resolve_right ?_⟩
    rintro ⟨j, hj⟩
    have hne : j ≠ i := by
      rintro rfl
      rw [hpc] at hj
      cases hj
    refine (hg j i hne r (givesUp_of_gone hj)).1 ?_
    rw [hpc]
    rfl
  · trivial

end Steps

/-! ## 6. Runs -/

/-- A child that is mounted nowhere. -/
def noWriters (generation : Nat) (uppers : Nat → Option Tree) (mirror : Option MirrorEpoch)
    (lockFile : Option Nat) : ChildWriters where
  generation := generation
  records := fun _ => ⟨⟨0, 0, 0⟩, 0, none, false⟩
  nextRecord := 0
  registered := fun _ => none
  lockFile := lockFile
  held := fun _ => false
  nextLock := 0
  uppers := uppers
  publishLocks := fun _ => false
  mountLocks := fun _ => false
  mirror := mirror

/-- No call is under way on it. -/
def idleWriters (k : Nat) (generation : Nat) (uppers : Nat → Option Tree)
    (mirror : Option MirrorEpoch) (lockFile : Option Nat) : WriterThreads k where
  shared := noWriters generation uppers mirror lockFile
  pc := fun _ => .idle

theorem idleWriters_hold (k generation : Nat) (uppers : Nat → Option Tree)
    (mirror : Option MirrorEpoch) (lockFile : Option Nat) :
    WritersHold (idleWriters k generation uppers mirror lockFile) := by
  refine ⟨⟨nofun, fun r hr => (Nat.not_lt_zero r hr).elim, fun r hr => (Nat.not_lt_zero r hr).elim⟩,
    fun _ => ⟨nofun, nofun, nofun, nofun, nofun⟩, fun _ _ _ => nofun, fun r hr => ?_, nofun⟩
  rcases hr with ⟨node, hr⟩ | ⟨j, hr⟩
  · cases hr
  · cases hr

/-- **Only the lock holder publishes**: in any interleaving of the publishers, the calls that
    unmount, mounts and commits of the child on any nodes in which no record is given up while
    another call publishes it or gives it up, whoever replaces `publish.json` holds the writer lock
    at that moment. -/
theorem onlyHolderPublishes {generation : Nat} {uppers : Nat → Option Tree}
    {mirror : Option MirrorEpoch} {lockFile : Option Nat} {s : WriterThreads k}
    {tr : List (Lib.Trans (WriterThreads k) (Fin k × WriterAct))}
    (hrun : Lib.Interleaving writerCallStep (idleWriters k generation uppers mirror lockFile) tr s)
    (hok : ∀ x ∈ tr, GivesUpAlone x.pre) : ∀ x ∈ tr, LockHolderPublishes x.pre x.ev := by
  have hinv := hrun.invariant (I := WritersHold) (G := fun a _ => GivesUpAlone a)
    (idleWriters_hold k generation uppers mirror lockFile) (fun a e b ha hg hs => by
      obtain ⟨u, p, hf, rfl⟩ := Lib.Threads.next_eq_moved hs
      exact writerCallStep_keeps ha hg hf) hok
  exact fun x hx => (hinv.2 x hx).1.lockHolderPublishes (hok x hx) x.ev.2

/-! ### Two nodes -/

def fileUpper (content : Bytes) : Tree := ⟨[(["f"], .file content)]⟩

/-- Two callers, and no mirror yet. -/
def writersTrace (es : List (Fin 2 × WriterAct)) :
    List (Lib.Trans (WriterThreads 2) (Fin 2 × WriterAct)) :=
  Lib.trace (fun s e => s.next writerCallStep e) (idleWriters 2 1 (fun _ => none) none none) es

theorem writersTrace_run (es : List (Fin 2 × WriterAct)) :
    ∃ s, Lib.Interleaving writerCallStep (idleWriters 2 1 (fun _ => none) none none)
      (writersTrace es) s :=
  Lib.Run.trace _ _ _

/-- A mount on the node, and a write. -/
def mountAndWrite (i : Fin k) (node : Nat) (content : Bytes) : List (Fin k × WriterAct) :=
  (i, .call (.mountRw node)) :: List.replicate 5 (i, .step 0) ++
    [(i, .write node (fileUpper content))]

/-- An unmount that publishes, releases the lock and forgets the record. -/
def unmountAll (i : Fin k) (node : Nat) : List (Fin k × WriterAct) :=
  (i, .call (.unmount node .unmount)) :: List.replicate 13 (i, .step 0)

/-- One node hands over to the other; the publisher runs before and after. -/
def handedOver (i j : Fin k) : List (Fin k × WriterAct) :=
  mountAndWrite i 0 [1] ++ (j, .call (.publishDirty 0)) :: List.replicate 9 (j, .step 0) ++
    unmountAll i 0 ++ mountAndWrite i 1 [2] ++
    (j, .call (.publishDirty 1)) :: List.replicate 9 (j, .step 0)

theorem onlyHolderPublishes_handedOver :
    ∃ s, Lib.Interleaving writerCallStep (idleWriters 2 1 (fun _ => none) none none)
        (writersTrace (handedOver 0 1)) s ∧
      s.shared.mirror.map (fun m => (m.epoch, m.publisher)) = some (3, 1) ∧
      ∀ x ∈ writersTrace (handedOver 0 1), LockHolderPublishes x.pre x.ev := by
  obtain ⟨s, hrun⟩ := writersTrace_run (handedOver 0 1)
  have hends : ∃ x ∈ (writersTrace (handedOver 0 1)).getLast?,
      x.post.shared.mirror.map (fun m => (m.epoch, m.publisher)) = some (3, 1) := by
    decide +kernel
  obtain ⟨x, hx, hmirror⟩ := hends
  rw [← hrun.eq_post hx] at hmirror
  exact ⟨s, hrun, hmirror, onlyHolderPublishes hrun (by decide +kernel)⟩

/-- The publisher looks its record up before the record is given up. -/
def latePublisher (i j : Fin k) : List (Fin k × WriterAct) :=
  mountAndWrite i 0 [1] ++ (j, .call (.publishDirty 0)) :: unmountAll i 0 ++
    mountAndWrite i 1 [2] ++ List.replicate 6 (j, .step 0)

/-- **A released writer publishes over the next one**: the new epoch is the upper of node 0, which
    is unmounted, while node 1 holds the lock. -/
theorem latePublisher_publishes :
    ∃ s t, Lib.Interleaving writerCallStep (idleWriters 2 1 (fun _ => none) none none)
        (writersTrace (latePublisher 0 1)) s ∧
      s.shared.registered 0 = none ∧ s.shared.registered 1 = some 1 ∧ s.shared.Holds 1 ∧
      ¬ LockHolderPublishes s (1, .step 0) ∧
      s.next writerCallStep (1, .step 0) = some t ∧
      t.shared.mirror.map (fun m => (m.publisher, m.mirror.tree)) = some (0, fileUpper [1]) := by
  obtain ⟨s, hrun⟩ := writersTrace_run (latePublisher 0 1)
  have hends : ∃ x ∈ (writersTrace (latePublisher 0 1)).getLast?,
      (x.post.shared.registered 0 = none ∧ x.post.shared.registered 1 = some 1) ∧
      (x.post.shared.held 1 = true ∧ x.post.shared.lockFile = some 1) ∧
      (x.post.shared.records 0).lock = some 0 ∧
      x.post.pc 1 = .publish 0 0 (.replace 2 (fileUpper [1])) .done := by
    decide +kernel
  obtain ⟨x, hx, ⟨hgone, hnew⟩, hholds, hlock, hpc⟩ := hends
  rw [← hrun.eq_post hx] at hgone hnew hholds hlock hpc
  have hstep : ∃ t, s.next writerCallStep (1, .step 0) = some t ∧
      t.shared.mirror.map (fun m => (m.publisher, m.mirror.tree)) = some (0, fileUpper [1]) := by
    unfold Lib.Threads.next
    rw [hpc]
    exact ⟨_, rfl, rfl⟩
  obtain ⟨t, hnext, hmirror⟩ := hstep
  refine ⟨s, t, hrun, hgone, hnew, hholds, fun hpublishes => ?_, hnext, hmirror⟩
  unfold LockHolderPublishes at hpublishes
  simp only [hpc] at hpublishes
  obtain ⟨l, hl, -, hfile⟩ := hpublishes
  rw [hlock] at hl
  rw [hholds.2] at hfile
  cases hl
  cases hfile

end CccStorage
