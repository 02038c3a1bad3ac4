/-
  File:      CccStorage/MountReaper.lean
  Subject:   The mount records of one node, between request threads that mount, release and
             unmount and the thread that unmounts idle children (`mountd/childmount.py`).

  Mount calls take the mount lock; a release, an unmount and the reaper take none. Every statement
  on a record or on the table is one step.

  * `LiveRecord`, `MountTable`, `mountStep` -- the records, the table of them, the calls;
  * `RecordsKept` -- a record that was returned is registered and mounted until it is unused;
  * `Undisturbed` -- no mount call takes up a child while it is torn down, and a record is only torn
    down as the one registered and, by the reaper, while its count is still zero;
  * `reaper_keeps` -- in runs of such steps the reaper unmounts nothing in use;
  * `reusedWhileReaped` -- a mount call between the reaper's check and its unmount.
-/
import CccStorage.Lib.Interleave
import CccStorage.ColdRuns
import CccStorage.Tree

namespace CccStorage

/-! ## 1. The table of mounts -/

structure LiveRecord where
  manifestId : String
  mountpoint : String
  mode : MountMode
  writePolicy : WritePolicy
  refcount : Int := 1
  lastUsed : Int
  /-- `handle.mounted`. -/
  mounted : Bool := true
  /-- It holds the child's writer lock. -/
  writer : Bool := false
  /-- A mount call has returned it, and no unmount or expiry has found it unused since. -/
  lent : Bool := true
  deriving DecidableEq

structure MountTable where
  records : Nat → LiveRecord
  next : Nat
  /-- `_records`. -/
  registered : List (String × Nat)
  mountLock : Bool
  /-- The writer lock files, by child. -/
  writerLocks : String → Bool

structure MountRequest where
  id : String
  mountpoint : String
  mode : MountMode
  writePolicy : WritePolicy
  incrementRef : Bool
  deriving DecidableEq

/-- The reaper's loop. -/
structure Reap where
  ttl : Int
  current : Int
  todo : List String
  expired : List String
  deriving DecidableEq

/-- A record that is torn down, by an unmount or by the reaper. -/
structure Teardown where
  id : String
  record : Nat
  reap : Option Reap
  deriving DecidableEq

inductive MountPhase where
  | idle
  | mountLock (q : MountRequest)
  | mountLookup (q : MountRequest)
  | mountReuse (q : MountRequest) (record : Nat)
  | mountNew (q : MountRequest)
  | releaseDrop (id : String) (record : Nat)
  | unmountDrop (id : String) (record : Nat)
  | unmountCheck (id : String) (record : Nat)
  | reapNext (reap : Reap)
  | reapCount (id : String) (record : Nat) (reap : Reap)
  | reapAge (id : String) (record : Nat) (reap : Reap)
  | publish (t : Teardown)
  | unmountHandle (t : Teardown)
  | releaseLock (t : Teardown)
  | pop (t : Teardown)
  deriving DecidableEq

inductive MountAct where
  | mountAt (q : MountRequest)
  | release (id : String)
  | unmount (id : String)
  | idleUnmountExpired (ttl now : Int)
  /-- The next statement; `now` is what the clock reads. -/
  | step (now : Int)
  /-- It raises. -/
  | fail
  deriving DecidableEq

namespace MountTable

/-- `_records.get`. -/
def find (s : MountTable) (id : String) : Option Nat := s.registered.lookup id

/-- `_records[id] = record`. -/
def register (s : MountTable) (id : String) (r : Nat) : List (String × Nat) :=
  (id, r) :: s.registered.filter fun x => x.1 ≠ id

/-- `_records.pop(id, None)`. -/
def forget (s : MountTable) (id : String) : List (String × Nat) :=
  s.registered.filter fun x => x.1 ≠ id

def change (s : MountTable) (r : Nat) (record : LiveRecord) : MountTable :=
  { s with records := Function.update s.records r record }

def unlocked (s : MountTable) : MountTable := { s with mountLock := false }

end MountTable

/-- What a mount makes: a local writer that finds the lock taken reads the published mirror or the
    packs. -/
def madeMount (q : MountRequest) (locked : Bool) : MountMode × Bool :=
  match q.mode, q.writePolicy with
  | .ro, _ => (.ro, false)
  | .rw, .sharedNfs => (.rw, false)
  | .rw, .localSsdAsync => if locked then (.ro, false) else (.rw, true)

/-- A phase in which the mount lock is held. -/
def MountPhase.holdsLock : MountPhase → Bool
  | .mountLookup _ | .mountReuse _ _ | .mountNew _ => true
  | _ => false

/-- **The next statement of a call**; it waits for the mount lock. -/
def mountStatement (s : MountTable) (now : Int) : MountPhase → Option (MountTable × MountPhase)
  | .idle => none
  | .mountLock q => if s.mountLock then none else some ({ s with mountLock := true }, .mountLookup q)
  | .mountLookup q =>
    match s.find q.id with
    | none => some (s, .mountNew q)
    | some r =>
      let existing := s.records r
      if existing.mounted then
        if existing.mountpoint ≠ q.mountpoint ∨ existing.mode ≠ q.mode ∨
            existing.writePolicy ≠ q.writePolicy then some (s.unlocked, .idle)
        else some (s, .mountReuse q r)
      else some (s, .mountNew q)
  | .mountReuse q r =>
    let existing := s.records r
    some ((s.change r { existing with
      refcount := if q.incrementRef then existing.refcount + 1 else existing.refcount
      lastUsed := now
      lent := true }).unlocked, .idle)
  | .mountNew q =>
    let made := madeMount q (s.writerLocks q.id)
    some ({
      records := Function.update s.records s.next
        { manifestId := q.id, mountpoint := q.mountpoint, mode := made.1,
          writePolicy := q.writePolicy, lastUsed := now, writer := made.2 }
      next := s.next + 1
      registered := s.register q.id s.next
      mountLock := false
      writerLocks :=
        if made.2 then Function.update s.writerLocks q.id true else s.writerLocks }, .idle)
  | .releaseDrop _ r =>
    let record := s.records r
    some (s.change r { record with
      refcount := if 0 < record.refcount then record.refcount - 1 else record.refcount
      lastUsed := now }, .idle)
  | .unmountDrop id r =>
    let record := s.records r
    some (s.change r { record with refcount := record.refcount - 1 }, .unmountCheck id r)
  | .unmountCheck id r =>
    if (s.records r).refcount ≤ 0 then some (s, .publish ⟨id, r, none⟩) else some (s, .idle)
  | .reapNext reap =>
    match reap.todo with
    | [] => some (s, .idle)
    | id :: todo =>
      match s.find id with
      | none => some (s, .idle)
      | some r => some (s, .reapCount id r { reap with todo := todo })
  | .reapCount id r reap =>
    if 0 < (s.records r).refcount then some (s, .reapNext reap) else some (s, .reapAge id r reap)
  | .reapAge id r reap =>
    if reap.ttl ≤ reap.current - (s.records r).lastUsed then
      some (s, .publish ⟨id, r, some reap⟩)
    else some (s, .reapNext reap)
  | .publish t => some (s, .unmountHandle t)
  | .unmountHandle t =>
    let record := s.records t.record
    some (s.change t.record { record with
      mounted := false
      lent := record.lent && decide (0 < record.refcount) }, .releaseLock t)
  | .releaseLock t =>
    let record := s.records t.record
    if record.writer then
      some ({ s.change t.record { record with writer := false } with
        writerLocks := Function.update s.writerLocks t.id false }, .pop t)
    else some (s, .pop t)
  | .pop t =>
    some ({ s with registered := s.forget t.id },
      match t.reap with
      | none => .idle
      | some reap => .reapNext { reap with expired := reap.expired ++ [t.id] })

def mountStep (s : MountTable) (p : MountPhase) : MountAct → Option (MountTable × MountPhase)
  | .mountAt q => if p = .idle then some (s, .mountLock q) else none
  | .release id =>
    if p = .idle then
      match s.find id with
      | none => some (s, .idle)
      | some r => some (s, .releaseDrop id r)
    else none
  | .unmount id =>
    if p = .idle then
      match s.find id with
      | none => some (s, .idle)
      | some r => some (s, .unmountDrop id r)
    else none
  | .idleUnmountExpired ttl now =>
    if p = .idle then some (s, .reapNext ⟨ttl, now, s.registered.map (·.1), []⟩) else none
  | .step now => mountStatement s now p
  | .fail => some (if p.holdsLock then s.unlocked else s, .idle)

/-! ## 2. What is kept, and when -/

abbrev MountThreads (k : Nat) := Lib.Threads k MountTable MountPhase

/-- **Every record a mount call has returned** is registered and mounted, until an unmount or an
    expiry finds it unused. -/
def RecordsKept (s : MountTable) : Prop :=
  ∀ r, (s.records r).lent = true →
    s.find (s.records r).manifestId = some r ∧ (s.records r).mounted = true

/-- **The reaper unmounts no child in use.** -/
def ReapsIdle {k : Nat} (s : MountThreads k) (e : Fin k × MountAct) : Prop :=
  match e.2, s.pc e.1 with
  | .step _, .unmountHandle t => t.reap.isSome → (s.shared.records t.record).refcount ≤ 0
  | _, _ => True

namespace MountPhase

/-- The teardown that is under way. -/
def tears : MountPhase → Option Teardown
  | .publish t | .unmountHandle t | .releaseLock t | .pop t => some t
  | _ => none

/-- The record a call works on, and the child it found it under. -/
def worksOn : MountPhase → Option (String × Nat)
  | .releaseDrop id r | .unmountDrop id r | .unmountCheck id r | .reapCount id r _
  | .reapAge id r _ => some (id, r)
  | .mountReuse q r => some (q.id, r)
  | .publish t | .unmountHandle t | .releaseLock t | .pop t => some (t.id, t.record)
  | _ => none

end MountPhase

/-- No teardown of the child is under way. -/
def NotTorn {k : Nat} (s : MountThreads k) (id : String) : Prop :=
  ∀ j, ∀ t ∈ (s.pc j).tears, t.id ≠ id

instance {k : Nat} (s : MountThreads k) (id : String) : Decidable (NotTorn s id) :=
  inferInstanceAs (Decidable (∀ j, ∀ t ∈ (s.pc j).tears, t.id ≠ id))

/-- The record is the one registered for the child, if there is one. -/
def MountTable.Current (s : MountTable) (id : String) (r : Nat) : Prop :=
  ∀ r' ∈ s.find id, r' = r

instance (s : MountTable) (id : String) (r : Nat) : Decidable (s.Current id r) :=
  inferInstanceAs (Decidable (∀ r' ∈ s.find id, r' = r))

/-- **The condition**: a mount call takes up a record, or registers one, only while no teardown of
    the child is under way, and takes it up as it has found it; a teardown starts on the record that
    is registered, and the reaper's while the count is still zero. -/
def MountPhase.Undisturbed {k : Nat} (s : MountThreads k) : MountPhase → Prop
  | .mountReuse q r => NotTorn s q.id ∧ s.shared.find q.id = some r ∧
      (s.shared.records r).mounted = true
  | .mountNew q => NotTorn s q.id
  | .unmountCheck id r => (s.shared.records r).refcount ≤ 0 → s.shared.Current id r
  | .reapAge id r reap => reap.ttl ≤ reap.current - (s.shared.records r).lastUsed →
      (s.shared.records r).refcount ≤ 0 ∧ s.shared.Current id r
  | _ => True

instance {k : Nat} (s : MountThreads k) : (p : MountPhase) → Decidable (p.Undisturbed s)
  | .mountReuse _ _ => inferInstanceAs (Decidable (_ ∧ _ ∧ _))
  | .mountNew q => inferInstanceAs (Decidable (NotTorn s q.id))
  | .unmountCheck _ _ => inferInstanceAs (Decidable (_ → _))
  | .reapAge _ _ _ => inferInstanceAs (Decidable (_ → _ ∧ _))
  | .idle | .mountLock _ | .mountLookup _ | .releaseDrop _ _ | .unmountDrop _ _ | .reapNext _
  | .reapCount _ _ _ | .publish _ | .unmountHandle _ | .releaseLock _ | .pop _ => isTrue trivial

def Undisturbed {k : Nat} (s : MountThreads k) (e : Fin k × MountAct) : Prop :=
  match e.2 with
  | .step _ => (s.pc e.1).Undisturbed s
  | _ => True

instance {k : Nat} (s : MountThreads k) (e : Fin k × MountAct) : Decidable (Undisturbed s e) :=
  match e with
  | (i, .step _) => inferInstanceAs (Decidable ((s.pc i).Undisturbed s))
  | (_, .mountAt _) | (_, .release _) | (_, .unmount _) | (_, .idleUnmountExpired _ _)
  | (_, .fail) => isTrue trivial

/-- What holds of the table between any two statements. -/
structure TableInv (s : MountTable) : Prop where
  registered : ∀ id r, s.find id = some r → r < s.next ∧ (s.records r).manifestId = id
  kept : RecordsKept s

/-- What a call relies on. -/
structure MountPhaseHolds (s : MountTable) (p : MountPhase) : Prop where
  lock : p.holdsLock = true → s.mountLock = true
  found : ∀ id r, p.worksOn = some (id, r) → r < s.next ∧ (s.records r).manifestId = id
  /-- A mount found no live record. -/
  unmounted : ∀ q, p = .mountNew q → ∀ r, s.find q.id = some r → (s.records r).mounted = false
  /-- A teardown has the record registered, and it is not in use. -/
  before : ∀ t, p = .publish t ∨ p = .unmountHandle t →
    (s.records t.record).refcount ≤ 0 ∧ s.Current t.id t.record
  /-- What a teardown forgets has not been returned by any mount. -/
  after : ∀ t, p = .releaseLock t ∨ p = .pop t →
    ∀ r, s.find t.id = some r → (s.records r).lent = false

def mountOutline : Lib.Outline MountTable MountPhase where
  inv := TableInv
  point := MountPhaseHolds
  apart := fun p q => p.holdsLock = true → q.holdsLock = false
  symm := fun p q h hq => by
    cases hp : p.holdsLock with
    | false => rfl
    | true =>
      rw [h hp] at hq
      cases hq

/-! ## 3. Every statement keeps it -/

section Table

variable {s : MountTable} {q : MountPhase} {id id' : String} {r : Nat} {record : LiveRecord}

theorem find_forget : ({ s with registered := s.forget id } : MountTable).find id' =
    if id' = id then none else s.find id' := by
  unfold MountTable.find MountTable.forget
  simp only
  rw [Tree.lookup_filter (fun a => decide (a ≠ id))]
  by_cases h : id' = id
  · rw [if_pos h, if_neg (by simpa using h)]
  · rw [if_neg h, if_pos (by simpa using h)]

theorem lookup_register : (s.register id r).lookup id' =
    if id' = id then some r else s.find id' := by
  unfold MountTable.register MountTable.find
  by_cases h : id' = id
  · rw [h, List.lookup_cons_self, if_pos rfl]
  · rw [List.lookup_cons, beq_eq_false_iff_ne.mpr h, if_neg h]
    simp only
    rw [Tree.lookup_filter (fun a => decide (a ≠ id)), if_pos (by simpa using h)]

@[simp] theorem find_change (r : Nat) (record : LiveRecord) :
    (s.change r record).find id = s.find id := rfl

theorem records_change (r r' : Nat) (record : LiveRecord) :
    (s.change r record).records r' = if r' = r then record else s.records r' := by
  unfold MountTable.change
  exact Function.update_apply ..

/-- **A record changes**: its child stays, and if it counts as returned it is registered and
    mounted. -/
theorem TableInv.change (h : TableInv s) (hid : record.manifestId = (s.records r).manifestId)
    (hlent : record.lent = true → s.find record.manifestId = some r ∧ record.mounted = true) :
    TableInv (s.change r record) := by
  refine ⟨fun id r' hr' => ?_, fun r' hr' => ?_⟩
  · obtain ⟨hlt, hname⟩ := h.registered id r' hr'
    refine ⟨hlt, ?_⟩
    rw [records_change]
    split
    · rename_i heq
      rw [hid, ← heq]
      exact hname
    · exact hname
  · rw [records_change] at hr' ⊢
    by_cases heq : r' = r
    · rw [if_pos heq] at hr' ⊢
      rw [heq]
      exact hlent hr'
    · rw [if_neg heq] at hr' ⊢
      exact h.kept r' hr'

theorem MountPhaseHolds.change (h : MountPhaseHolds s q)
    (hid : record.manifestId = (s.records r).manifestId)
    (hmounted : record.mounted = true → (s.records r).mounted = true)
    (hcount : ∀ t, q = .publish t ∨ q = .unmountHandle t → t.record = r →
      (s.records r).refcount ≤ 0 → record.refcount ≤ 0)
    (hlent : ∀ t, q = .releaseLock t ∨ q = .pop t → s.find t.id = some r →
      (s.records r).lent = false → record.lent = false) :
    MountPhaseHolds (s.change r record) q := by
  refine ⟨h.lock, fun id r' hw => ?_, fun req hq r' hr' => ?_, fun t ht => ?_, fun t ht r' hr' => ?_⟩
  · obtain ⟨hlt, hname⟩ := h.found id r' hw
    refine ⟨hlt, ?_⟩
    rw [records_change]
    split
    · rename_i heq
      rw [hid, ← heq]
      exact hname
    · exact hname
  · have hold := h.unmounted req hq r' hr'
    rw [records_change]
    split
    · rename_i heq
      rw [heq] at hold
      rw [← Bool.not_eq_true]
      intro hnew
      rw [hmounted hnew] at hold
      cases hold
    · exact hold
  · obtain ⟨hzero, hcur⟩ := h.before t ht
    refine ⟨?_, hcur⟩
    rw [records_change]
    split
    · rename_i heq
      rw [heq] at hzero
      exact hcount t ht heq hzero
    · exact hzero
  · have hold := h.after t ht r' hr'
    rw [records_change]
    split
    · rename_i heq
      have hr : s.find t.id = some r := heq ▸ hr'
      rw [heq] at hold
      exact hlent t ht hr hold
    · exact hold

/-- The mount lock and the writer locks matter only to those who hold the mount lock. -/
theorem MountPhaseHolds.relock (h : MountPhaseHolds s q) {mountLock : Bool}
    {writerLocks : String → Bool} (hlock : q.holdsLock = true → mountLock = true) :
    MountPhaseHolds { s with mountLock := mountLock, writerLocks := writerLocks } q :=
  ⟨hlock, h.found, h.unmounted, h.before, h.after⟩

theorem TableInv.relock (h : TableInv s) (mountLock : Bool) (writerLocks : String → Bool) :
    TableInv { s with mountLock := mountLock, writerLocks := writerLocks } :=
  ⟨h.registered, h.kept⟩

/-- A phase with nothing to rely on. -/
theorem MountPhaseHolds.of_found (hlock : q.holdsLock = true → s.mountLock = true)
    (hfound : ∀ id r, q.worksOn = some (id, r) → r < s.next ∧ (s.records r).manifestId = id)
    (hnew : ∀ req, q ≠ .mountNew req) (htears : q.tears = none) : MountPhaseHolds s q := by
  have hnot : ∀ {t p}, p.tears = some t → q ≠ p := by
    intro t p hp heq
    rw [heq, hp] at htears
    cases htears
  exact ⟨hlock, hfound, fun req hq => absurd hq (hnew req),
    fun t ht => ht.elim (fun ht => absurd ht (hnot rfl)) fun ht => absurd ht (hnot rfl),
    fun t ht => ht.elim (fun ht => absurd ht (hnot rfl)) fun ht => absurd ht (hnot rfl)⟩

end Table

section Steps

variable {k : Nat} {s : MountThreads k} {i : Fin k} {u : MountTable} {p : MountPhase} {now : Int}

/-- A statement that changes nothing. -/
theorem mountKeeps_same (h : mountOutline.Holds s)
    (hlock : p.holdsLock = true → (s.pc i).holdsLock = true)
    (hp : MountPhaseHolds s.shared p) : mountOutline.Keeps s i s.shared p :=
  ⟨h.inv, hp, fun j _ => h.point j, fun j hj hheld => h.apart i j hj.symm (hlock hheld)⟩

/-- A phase with nothing to rely on is reached in a statement that changes nothing. -/
theorem mountKeeps_found (h : mountOutline.Holds s)
    (hlock : p.holdsLock = true → (s.pc i).holdsLock = true)
    (hfound : ∀ id r, p.worksOn = some (id, r) →
      r < s.shared.next ∧ (s.shared.records r).manifestId = id)
    (hnew : ∀ req, p ≠ .mountNew req) (htears : p.tears = none) :
    mountOutline.Keeps s i s.shared p :=
  mountKeeps_same h hlock
    (.of_found (fun hheld => (h.point i).lock (hlock hheld)) hfound hnew htears)

/-- **A record's count, mount or lock goes down.** -/
theorem mountKeeps_change (h : mountOutline.Holds s) {r : Nat} {record : LiveRecord}
    (hid : record.manifestId = (s.shared.records r).manifestId)
    (hmounted : record.mounted = true → (s.shared.records r).mounted = true)
    (hcount : (s.shared.records r).refcount ≤ 0 → record.refcount ≤ 0)
    (hlent : record.lent = true → (s.shared.records r).lent = true ∧ record.mounted = true)
    (hlock : p.holdsLock = true → (s.pc i).holdsLock = true)
    (hp : MountPhaseHolds (s.shared.change r record) p) :
    mountOutline.Keeps s i (s.shared.change r record) p := by
  refine ⟨h.inv.change hid fun hl => ⟨?_, (hlent hl).2⟩, hp, fun j _ => ?_,
    fun j hj hheld => h.apart i j hj.symm (hlock hheld)⟩
  · rw [hid]
    exact (h.inv.kept r (hlent hl).1).1
  · refine (h.point j).change hid hmounted (fun _ _ _ hzero => hcount hzero) fun _ _ _ hfalse => ?_
    rw [← Bool.not_eq_true]
    intro hl
    rw [(hlent hl).1] at hfalse
    cases hfalse

/-- The mount lock is given back. -/
theorem mountKeeps_unlock (h : mountOutline.Holds s) (hheld : (s.pc i).holdsLock = true) :
    mountOutline.Keeps s i s.shared.unlocked .idle := by
  refine ⟨h.inv.relock _ _, .of_found nofun nofun nofun rfl, fun j hj => ?_, fun j _ => nofun⟩
  refine (h.point j).relock fun hother => ?_
  rw [h.apart i j hj.symm hheld] at hother
  cases hother

/-- **A mount call takes up a live record.** -/
theorem mountKeeps_reuse (h : mountOutline.Holds s) {q : MountRequest} {r : Nat}
    (hpc : s.pc i = .mountReuse q r) (hg : (MountPhase.mountReuse q r).Undisturbed s)
    {record : LiveRecord} (hid : record.manifestId = (s.shared.records r).manifestId)
    (hmounted : record.mounted = (s.shared.records r).mounted) :
    mountOutline.Keeps s i (s.shared.change r record).unlocked .idle := by
  obtain ⟨hfree, hfind, hlive⟩ := hg
  have hname := (h.inv.registered _ _ hfind).2
  have hheld : (s.pc i).holdsLock = true := by rw [hpc]; rfl
  refine ⟨(h.inv.change hid fun _ => ⟨?_, ?_⟩).relock _ _, .of_found nofun nofun nofun rfl,
    fun j hj => ?_, fun j _ => nofun⟩
  · rw [hid, hname]
    exact hfind
  · rw [hmounted]
    exact hlive
  · refine ((h.point j).change hid (fun hm => by rw [← hmounted]; exact hm)
      (fun t ht hrec => ?_) fun t ht hfound => ?_).relock fun hother => ?_
    · have htears : (s.pc j).tears = some t := by
        rcases ht with ht | ht <;> rw [ht] <;> rfl
      have hworks : (s.pc j).worksOn = some (t.id, t.record) := by
        rcases ht with ht | ht <;> rw [ht] <;> rfl
      have hown := ((h.point j).found _ _ hworks).2
      rw [hrec, hname] at hown
      exact absurd hown.symm (hfree j t htears)
    · have htears : (s.pc j).tears = some t := by
        rcases ht with ht | ht <;> rw [ht] <;> rfl
      have hown := (h.inv.registered _ _ hfound).2
      rw [hname] at hown
      exact absurd hown.symm (hfree j t htears)
    · have hother : (s.pc j).holdsLock = true := hother
      rw [h.apart i j hj.symm hheld] at hother
      cases hother

/-- **A mount call registers a new record.** -/
theorem mountKeeps_new (h : mountOutline.Holds s) {q : MountRequest} (hpc : s.pc i = .mountNew q)
    (hg : NotTorn s q.id) {record : LiveRecord} (hid : record.manifestId = q.id)
    (hmounted : record.mounted = true) {writerLocks : String → Bool} :
    mountOutline.Keeps s i {
      records := Function.update s.shared.records s.shared.next record
      next := s.shared.next + 1
      registered := s.shared.register q.id s.shared.next
      mountLock := false
      writerLocks := writerLocks } .idle := by
  have hheld : (s.pc i).holdsLock = true := by rw [hpc]; rfl
  have hold : ∀ {r}, r < s.shared.next →
      Function.update s.shared.records s.shared.next record r = s.shared.records r :=
    fun hlt => Function.update_of_ne (Nat.ne_of_lt hlt) ..
  have hother : ∀ {j}, j ≠ i → (s.pc j).holdsLock = true → False := by
    intro j hj hlocked
    rw [h.apart i j hj.symm hheld] at hlocked
    cases hlocked
  refine ⟨⟨fun id r hr => ?_, fun r hr => ?_⟩, .of_found nofun nofun nofun rfl, fun j hj => ?_,
    fun j _ => nofun⟩
  · unfold MountTable.find at hr
    simp only [lookup_register] at hr
    split at hr
    · rename_i heq
      cases hr
      refine ⟨Nat.lt_succ_self _, ?_⟩
      simp only [Function.update_self]
      rw [hid, heq]
    · obtain ⟨hlt, hname⟩ := h.inv.registered id r hr
      refine ⟨Nat.lt_succ_of_lt hlt, ?_⟩
      simp only [hold hlt]
      exact hname
  · unfold MountTable.find
    simp only [lookup_register]
    by_cases hnew : r = s.shared.next
    · rw [hnew]
      simp only [Function.update_self, hid, if_true]
      exact ⟨trivial, hmounted⟩
    · simp only [Function.update_of_ne hnew] at hr ⊢
      obtain ⟨hfind, hlive⟩ := h.inv.kept r hr
      rw [if_neg]
      · exact ⟨hfind, hlive⟩
      · intro heq
        rw [heq] at hfind
        rw [(h.point i).unmounted q hpc r hfind] at hlive
        cases hlive
  · have hj' := h.point j
    have hfind : ∀ t, (s.pc j).tears = some t →
        (s.shared.register q.id s.shared.next).lookup t.id = s.shared.find t.id := by
      intro t ht
      rw [lookup_register, if_neg (hg j t ht)]
    refine ⟨fun hlocked => (hother hj hlocked).elim, fun id r hw => ?_,
      fun req hq => (hother hj (by rw [hq]; rfl)).elim, fun t ht => ?_, fun t ht r hr => ?_⟩
    · obtain ⟨hlt, hname⟩ := hj'.found id r hw
      refine ⟨Nat.lt_succ_of_lt hlt, ?_⟩
      simp only [hold hlt]
      exact hname
    · obtain ⟨hzero, hcur⟩ := hj'.before t ht
      have hworks : (s.pc j).worksOn = some (t.id, t.record) := by
        rcases ht with ht | ht <;> rw [ht] <;> rfl
      refine ⟨?_, fun r' hr' => hcur r' ?_⟩
      · simp only [hold (hj'.found _ _ hworks).1]
        exact hzero
      · rw [← hfind t (by rcases ht with ht | ht <;> rw [ht] <;> rfl)]
        exact hr'
    · have hr : s.shared.find t.id = some r := by
        rw [← hfind t (by rcases ht with ht | ht <;> rw [ht] <;> rfl)]
        exact hr
      simp only [hold (h.inv.registered _ _ hr).1]
      exact hj'.after t ht r hr

/-- **A record is forgotten.** -/
theorem mountKeeps_pop (h : mountOutline.Holds s) {t : Teardown} (hpc : s.pc i = .pop t)
    (hp : MountPhaseHolds { s.shared with registered := s.shared.forget t.id } p)
    (hlock : p.holdsLock = false) :
    mountOutline.Keeps s i { s.shared with registered := s.shared.forget t.id } p := by
  have hsub : ∀ {id r}, ({ s.shared with registered := s.shared.forget t.id } : MountTable).find id =
      some r → s.shared.find id = some r := by
    intro id r hr
    rw [find_forget] at hr
    split at hr
    · cases hr
    · exact hr
  refine ⟨⟨fun id r hr => h.inv.registered id r (hsub hr), fun r hr => ?_⟩, hp, fun j _ => ?_,
    fun j _ hheld => ?_⟩
  · obtain ⟨hfind, hlive⟩ := h.inv.kept r hr
    refine ⟨?_, hlive⟩
    rw [find_forget, if_neg]
    · exact hfind
    · intro heq
      have hlost := (h.point i).after t (.inr hpc) r (by rw [← heq]; exact hfind)
      have hr : (s.shared.records r).lent = true := hr
      rw [hr] at hlost
      cases hlost
  · have hj := h.point j
    exact ⟨hj.lock, hj.found, fun q hq r hr => hj.unmounted q hq r (hsub hr),
      fun t' ht => ⟨(hj.before t' ht).1, fun r hr => (hj.before t' ht).2 r (hsub hr)⟩,
      fun t' ht r hr => hj.after t' ht r (hsub hr)⟩
  · rw [hlock] at hheld
    cases hheld

/-- **Every statement keeps the outline**, if no child is taken up while it is torn down. -/
theorem mountStatement_keeps (h : mountOutline.Holds s) (hg : (s.pc i).Undisturbed s)
    (hs : mountStatement s.shared now (s.pc i) = some (u, p)) : mountOutline.Keeps s i u p := by
  have hpoint := h.point i
  -- of a record that is registered
  have hnamed : ∀ {id r}, s.shared.find id = some r →
      r < s.shared.next ∧ (s.shared.records r).manifestId = id :=
    fun {id r} hr => h.inv.registered id r hr
  cases hpc : s.pc i with
  | idle =>
    rw [hpc] at hs
    cases hs
  | mountLock q =>
    rw [hpc] at hs
    simp only [mountStatement] at hs
    split at hs
    · cases hs
    · rename_i hfree
      cases hs
      have hother : ∀ j, (s.pc j).holdsLock = true → False :=
        fun j hheld => hfree ((h.point j).lock hheld)
      refine ⟨h.inv.relock _ _, .of_found (fun _ => rfl) nofun nofun rfl,
        fun j _ => (h.point j).relock fun hheld => (hother j hheld).elim, fun j _ _ => ?_⟩
      cases hheld : (s.pc j).holdsLock with
      | false => rfl
      | true => exact (hother j hheld).elim
  | mountLookup q =>
    have hheld : (s.pc i).holdsLock = true := by rw [hpc]; rfl
    have hnew : (∀ r, s.shared.find q.id = some r → (s.shared.records r).mounted = false) →
        mountOutline.Keeps s i s.shared (.mountNew q) := by
      intro hdead
      refine mountKeeps_same h (fun _ => hheld) ⟨fun _ => hpoint.lock hheld, nofun, ?_,
        fun t ht => ht.elim nofun nofun, fun t ht => ht.elim nofun nofun⟩
      intro req hreq
      cases hreq
      exact hdead
    rw [hpc] at hs
    simp only [mountStatement] at hs
    split at hs
    · rename_i hnone
      cases hs
      refine hnew fun r hr => ?_
      rw [hnone] at hr
      cases hr
    · rename_i r hr
      split at hs
      · split at hs <;> cases hs
        · exact mountKeeps_unlock h hheld
        · refine mountKeeps_found h (fun _ => hheld) (fun id r' hw => ?_) nofun rfl
          cases hw
          exact hnamed hr
      · rename_i hdead
        cases hs
        refine hnew fun r' hr' => ?_
        rw [hr] at hr'
        cases hr'
        exact Bool.not_eq_true _ ▸ hdead
  | mountReuse q r =>
    rw [hpc] at hs hg
    cases hs
    exact mountKeeps_reuse h hpc hg rfl rfl
  | mountNew q =>
    rw [hpc] at hs hg
    cases hs
    exact mountKeeps_new h hpc hg rfl rfl
  | releaseDrop id r =>
    rw [hpc] at hs
    cases hs
    refine mountKeeps_change h rfl (fun hm => hm) (fun hzero => ?_)
      (fun hl => ⟨hl, (h.inv.kept r hl).2⟩) nofun (.of_found nofun nofun nofun rfl)
    rw [if_neg (Int.not_lt.mpr hzero)]
    exact hzero
  | unmountDrop id r =>
    have hfound := hpoint.found id r (by rw [hpc]; rfl)
    rw [hpc] at hs
    cases hs
    refine mountKeeps_change h rfl (fun hm => hm) (fun hzero => ?_)
      (fun hl => ⟨hl, (h.inv.kept r hl).2⟩) nofun
      (.of_found nofun (fun id' r' hw => ?_) nofun rfl)
    · have hzero : (s.shared.records r).refcount - 1 ≤ 0 := by omega
      exact hzero
    · cases hw
      refine ⟨hfound.1, ?_⟩
      rw [records_change, if_pos rfl]
      exact hfound.2
  | unmountCheck id r =>
    have hfound := hpoint.found id r (by rw [hpc]; rfl)
    rw [hpc] at hs hg
    simp only [mountStatement] at hs
    split at hs <;> cases hs
    · rename_i hzero
      refine mountKeeps_same h nofun ⟨nofun, fun id' r' hw => ?_, nofun, fun t ht => ?_,
        fun t ht => ht.elim nofun nofun⟩
      · cases hw
        exact hfound
      · rcases ht with ht | ht <;> cases ht
        exact ⟨hzero, hg hzero⟩
    · exact mountKeeps_found h nofun nofun nofun rfl
  | reapNext reap =>
    rw [hpc] at hs
    simp only [mountStatement] at hs
    split at hs
    · cases hs
      exact mountKeeps_found h nofun nofun nofun rfl
    · split at hs
      · cases hs
        exact mountKeeps_found h nofun nofun nofun rfl
      · rename_i r hr
        cases hs
        refine mountKeeps_found h nofun (fun id' r' hw => ?_) nofun rfl
        cases hw
        exact hnamed hr
  | reapCount id r reap =>
    have hfound := hpoint.found id r (by rw [hpc]; rfl)
    rw [hpc] at hs
    simp only [mountStatement] at hs
    split at hs <;> cases hs
    · exact mountKeeps_found h nofun nofun nofun rfl
    · refine mountKeeps_found h nofun (fun id' r' hw => ?_) nofun rfl
      cases hw
      exact hfound
  | reapAge id r reap =>
    have hfound := hpoint.found id r (by rw [hpc]; rfl)
    rw [hpc] at hs hg
    simp only [mountStatement] at hs
    split at hs <;> cases hs
    · rename_i hold
      refine mountKeeps_same h nofun ⟨nofun, fun id' r' hw => ?_, nofun, fun t ht => ?_,
        fun t ht => ht.elim nofun nofun⟩
      · cases hw
        exact hfound
      · rcases ht with ht | ht <;> cases ht
        exact hg hold
    · exact mountKeeps_found h nofun nofun nofun rfl
  | publish t =>
    have hfound := hpoint.found t.id t.record (by rw [hpc]; rfl)
    have hbefore := hpoint.before t (.inl hpc)
    rw [hpc] at hs
    cases hs
    refine mountKeeps_same h nofun ⟨nofun, fun id' r' hw => ?_, nofun, fun t' ht => ?_,
      fun t' ht => ht.elim nofun nofun⟩
    · cases hw
      exact hfound
    · rcases ht with ht | ht <;> cases ht
      exact hbefore
  | unmountHandle t =>
    have hfound := hpoint.found t.id t.record (by rw [hpc]; rfl)
    obtain ⟨hzero, hcur⟩ := hpoint.before t (.inr hpc)
    have hunused : decide (0 < (s.shared.records t.record).refcount) = false :=
      decide_eq_false (Int.not_lt.mpr hzero)
    rw [hpc] at hs
    simp only [mountStatement, hunused, Bool.and_false] at hs
    cases hs
    refine mountKeeps_change h rfl nofun (fun hz => hz) nofun nofun
      ⟨nofun, fun id' r' hw => ?_, nofun, fun t' ht => ht.elim nofun nofun,
        fun t' ht r hr => ?_⟩
    · cases hw
      refine ⟨hfound.1, ?_⟩
      rw [records_change, if_pos rfl]
      exact hfound.2
    · rcases ht with ht | ht <;> cases ht
      rw [records_change, if_pos (hcur r hr)]
  | releaseLock t =>
    have hfound := hpoint.found t.id t.record (by rw [hpc]; rfl)
    have hafter := hpoint.after t (.inl hpc)
    rw [hpc] at hs
    simp only [mountStatement] at hs
    split at hs <;> cases hs
    · have hk : mountOutline.Keeps s i (s.shared.change t.record
          { s.shared.records t.record with writer := false }) (.pop t) := by
        refine mountKeeps_change h rfl (fun hm => hm) (fun hz => hz)
          (fun hl => ⟨hl, (h.inv.kept _ hl).2⟩) nofun
          ⟨nofun, fun id' r' hw => ?_, nofun, fun t' ht => ht.elim nofun nofun,
            fun t' ht r hr => ?_⟩
        · cases hw
          refine ⟨hfound.1, ?_⟩
          rw [records_change, if_pos rfl]
          exact hfound.2
        · rcases ht with ht | ht <;> cases ht
          have hlost := hafter r hr
          rw [records_change]
          split
          · rename_i heq
            rw [← heq]
            exact hlost
          · exact hlost
      exact ⟨hk.inv.relock _ _, hk.point.relock nofun,
        fun j hj => (hk.others j hj).relock fun hheld => (h.point j).lock hheld, hk.apart⟩
    · refine mountKeeps_same h nofun ⟨nofun, fun id' r' hw => ?_, nofun,
        fun t' ht => ht.elim nofun nofun, fun t' ht r hr => ?_⟩
      · cases hw
        exact hfound
      · rcases ht with ht | ht <;> cases ht
        exact hafter r hr
  | pop t =>
    rw [hpc] at hs
    simp only [mountStatement] at hs
    cases hs
    cases t.reap with
    | none => exact mountKeeps_pop h hpc (.of_found nofun nofun nofun rfl) rfl
    | some reap => exact mountKeeps_pop h hpc (.of_found nofun nofun nofun rfl) rfl

/-- **Every step keeps the outline.** -/
theorem mountStep_keeps (h : mountOutline.Holds s) {a : MountAct} (hg : Undisturbed s (i, a))
    (hs : mountStep s.shared (s.pc i) a = some (u, p)) : mountOutline.Keeps s i u p := by
  have hcall : ∀ {id : String} {q : Nat → MountPhase},
      (match s.shared.find id with
        | none => some (s.shared, MountPhase.idle)
        | some r => some (s.shared, q r)) = some (u, p) →
      (∀ r, (q r).holdsLock = false ∧ (q r).worksOn = some (id, r) ∧ (q r).tears = none ∧
        ∀ req, q r ≠ .mountNew req) → mountOutline.Keeps s i u p := by
    intro id q hs hq
    split at hs
    · cases hs
      exact mountKeeps_found h nofun nofun nofun rfl
    · rename_i r hr
      cases hs
      obtain ⟨hlock, hworks, htears, hnew⟩ := hq r
      refine mountKeeps_found h (fun hheld => ?_) (fun id' r' hw => ?_) hnew htears
      · rw [hlock] at hheld
        cases hheld
      · rw [hworks] at hw
        cases hw
        exact h.inv.registered _ _ hr
  cases a with
  | mountAt q =>
    obtain ⟨-, hs⟩ := Option.ite_none_right_eq_some.mp hs
    cases hs
    exact mountKeeps_found h nofun nofun nofun rfl
  | release id =>
    obtain ⟨-, hs⟩ := Option.ite_none_right_eq_some.mp hs
    exact hcall hs fun r => ⟨rfl, rfl, rfl, nofun⟩
  | unmount id =>
    obtain ⟨-, hs⟩ := Option.ite_none_right_eq_some.mp hs
    exact hcall hs fun r => ⟨rfl, rfl, rfl, nofun⟩
  | idleUnmountExpired ttl now =>
    obtain ⟨-, hs⟩ := Option.ite_none_right_eq_some.mp hs
    cases hs
    exact mountKeeps_found h nofun nofun nofun rfl
  | step now => exact mountStatement_keeps h hg hs
  | fail =>
    cases hs
    split
    · rename_i hheld
      exact mountKeeps_unlock h hheld
    · exact mountKeeps_found h nofun nofun nofun rfl

end Steps

/-! ## 4. Runs -/

/-- What stands for a record that was never made. -/
def noRecord : LiveRecord where
  manifestId := ""
  mountpoint := ""
  mode := .ro
  writePolicy := .sharedNfs
  lastUsed := 0
  mounted := false
  lent := false

/-- A manager that has mounted nothing yet; other nodes may hold writer locks. -/
def newMountTable (writerLocks : String → Bool) : MountTable where
  records := fun _ => noRecord
  next := 0
  registered := []
  mountLock := false
  writerLocks := writerLocks

def newMounts (k : Nat) (writerLocks : String → Bool) : MountThreads k where
  shared := newMountTable writerLocks
  pc := fun _ => .idle

theorem newMounts_holds (k : Nat) (writerLocks : String → Bool) :
    mountOutline.Holds (newMounts k writerLocks) := by
  refine ⟨⟨fun id r hr => ?_, fun r hr => ?_⟩, fun _ => .of_found nofun nofun nofun rfl,
    fun _ _ _ => nofun⟩
  · cases hr
  · cases hr

/-- **The reaper unmounts nothing in use**: in any interleaving of mount, release and unmount calls
    with the reaper in which no child is taken up while it is torn down, the reaper unmounts only
    records with count zero, and every record a mount call has returned stays registered and mounted
    until an unmount or an expiry finds it unused. -/
theorem reaper_keeps {k : Nat} (writerLocks : String → Bool) {s : MountThreads k}
    {tr : List (Lib.Trans (MountThreads k) (Fin k × MountAct))}
    (hrun : Lib.Interleaving mountStep (newMounts k writerLocks) tr s)
    (hok : ∀ x ∈ tr, Undisturbed x.pre x.ev) :
    RecordsKept s.shared ∧ ∀ x ∈ tr, RecordsKept x.post.shared ∧ ReapsIdle x.pre x.ev := by
  have hinv := mountOutline.run (G := Undisturbed) hrun (newMounts_holds k writerLocks)
    (fun a e u p ha hg hs => mountStep_keeps ha hg hs) hok
  refine ⟨hinv.1.inv.kept, fun x hx => ⟨(hinv.2 x hx).2.inv.kept, ?_⟩⟩
  unfold ReapsIdle
  split
  · rename_i t _ hphase
    exact fun _ => (((hinv.2 x hx).1.point _).before t (.inr hphase)).1
  · trivial

/-! ### One child, mounted and idle -/

def mountOf (id : String) : MountRequest where
  id := id
  mountpoint := "/mounts/" ++ id
  mode := .ro
  writePolicy := .sharedNfs
  incrementRef := true

def mountTrace (es : List (Fin 2 × MountAct)) :
    List (Lib.Trans (MountThreads 2) (Fin 2 × MountAct)) :=
  Lib.trace (fun s e => s.next mountStep e) (newMounts 2 fun _ => false) es

theorem mountTrace_run (es : List (Fin 2 × MountAct)) :
    ∃ s, Lib.Interleaving mountStep (newMounts 2 fun _ => false) (mountTrace es) s :=
  Lib.Run.trace _ _ _

/-- `a` is mounted and released by `0`; a hundred seconds later `1` finds it expired. -/
def idleChild : List (Fin 2 × MountAct) :=
  (0, .mountAt (mountOf "a")) :: List.replicate 3 (0, .step 0) ++
    [(0, .release "a"), (0, .step 0), (1, .idleUnmountExpired 60 100)] ++
    List.replicate 3 (1, .step 100)

/-- Another child is mounted while `a` is torn down, and `a` again after it. -/
def mountedAfter : List (Fin 2 × MountAct) :=
  idleChild ++ (0, .mountAt (mountOf "b")) ::
    (List.replicate 3 [(0, .step 100), (1, .step 100)]).flatten ++
    (1, .step 100) :: (0, .mountAt (mountOf "a")) :: List.replicate 3 (0, .step 100)

theorem reaper_keeps_mountedAfter :
    ∃ s, Lib.Interleaving mountStep (newMounts 2 fun _ => false) (mountTrace mountedAfter) s ∧
      s.shared.registered.map (·.1) = ["a", "b"] ∧ RecordsKept s.shared := by
  obtain ⟨s, hrun⟩ := mountTrace_run mountedAfter
  have hends : ∃ x ∈ (mountTrace mountedAfter).getLast?,
      x.post.shared.registered.map (·.1) = ["a", "b"] := by
    decide +kernel
  obtain ⟨x, hx, hregistered⟩ := hends
  rw [← hrun.eq_post hx] at hregistered
  exact ⟨s, hrun, hregistered, (reaper_keeps _ hrun (by decide +kernel)).1⟩

/-- `a` is taken up again when the reaper has found it expired and publishes it. -/
def reusedWhileReaped : List (Fin 2 × MountAct) :=
  idleChild ++ (0, .mountAt (mountOf "a")) :: List.replicate 3 (0, .step 100) ++
    [(1, .step 100)]

/-- **The reaper unmounts a child in use**, and forgets it. -/
theorem reusedWhileReaped_unmounts :
    ∃ s t, Lib.Interleaving mountStep (newMounts 2 fun _ => false)
        (mountTrace reusedWhileReaped) s ∧
      (s.shared.records 0).refcount = 1 ∧ ¬ ReapsIdle s (1, .step 100) ∧
      Lib.Interleaving mountStep (newMounts 2 fun _ => false)
        (mountTrace (reusedWhileReaped ++ List.replicate 3 (1, .step 100))) t ∧
      (t.shared.records 0).refcount = 1 ∧ t.shared.registered = [] ∧ ¬ RecordsKept t.shared := by
  obtain ⟨s, hrun⟩ := mountTrace_run reusedWhileReaped
  obtain ⟨t, hrun'⟩ := mountTrace_run (reusedWhileReaped ++ List.replicate 3 (1, .step 100))
  have hends : ∃ x ∈ (mountTrace reusedWhileReaped).getLast?,
      (x.post.shared.records 0).refcount = 1 ∧
      x.post.pc 1 = .unmountHandle ⟨"a", 0, some ⟨60, 100, [], []⟩⟩ := by
    decide +kernel
  have hends' : ∃ x ∈
      (mountTrace (reusedWhileReaped ++ List.replicate 3 (1, .step 100))).getLast?,
      (x.post.shared.records 0).refcount = 1 ∧ x.post.shared.registered = [] ∧
      (x.post.shared.records 0).lent = true := by
    decide +kernel
  obtain ⟨x, hx, hcount, hphase⟩ := hends
  obtain ⟨y, hy, hcount', hregistered, hlent⟩ := hends'
  rw [← hrun.eq_post hx] at hcount hphase
  rw [← hrun'.eq_post hy] at hcount' hregistered hlent
  refine ⟨s, t, hrun, hcount, fun hidle => ?_, hrun', hcount', hregistered, fun hkept => ?_⟩
  · unfold ReapsIdle at hidle
    simp only [hphase] at hidle
    have hzero := hidle rfl
    rw [hcount] at hzero
    exact absurd hzero (by decide)
  · have hfind := (hkept 0 hlent).1
    unfold MountTable.find at hfind
    rw [hregistered] at hfind
    cases hfind

end CccStorage
