/-
  File:      CccStorage/PolicySwitch.lean
  Subject:   `MountdService.handle_write_policy` (`mountd/daemon.py`): the manifest gets the other
             write policy, and a mounted child is unmounted for it and mounted again.

  Every step may raise; a `PolicySite` says which do, and what the remount meets.

  * `handleWritePolicy` -- the call: `forceUnmountTrying`, `writePolicy`, `remountAs`;
  * `AllOrNothing` -- a call that raises leaves the manifest and the record of the child, one that
    returns changes the policy and leaves the mount as it was;
  * `staysWhole` -- the calls that do: nothing raises once the child is unmounted or the manifest is
    in place, and a mounted child has one reference and is mounted in its mode again;
  * `remountAs_made`, `handleWritePolicy_whole_iff`.
-/
import CccStorage.ConfigValues
import CccStorage.LazyMounts

namespace CccStorage.ChildMounts

/-! ## 1. The call -/

/-- The steps that may raise. -/
inductive PolicyPoint where
  | find
  | cleanCheck
  | publish
  | unmount
  | release
  /-- `dump_atomic` up to its `os.replace`. -/
  | write
  /-- `_fsync_dir`, once the manifest is in place. -/
  | sync
  | applyManifest
  | reload
  | remount
  | status
  deriving DecidableEq

/-- Where a child is dirty. -/
inductive DirtyPlace where
  | activeUpper
  | publishedMirror
  | localUpper
  deriving DecidableEq

inductive PolicyError where
  | fault (point : PolicyPoint)
  | invalid (policy : String)
  | dirty (id : String) (place : DirtyPlace)
  /-- "cannot switch write policy for mounted child; use --remount". -/
  | mounted (id : String)
  | refused (e : ChildMountError)
  deriving DecidableEq

/-- What a call meets. -/
structure PolicySite where
  fails : PolicyPoint → Bool := fun _ => false
  dirty : Option DirtyPlace := none
  mount : MountSite := {}

/-- The manifest of a child on disk, and the table of mounts. -/
structure PolicyState where
  manifest : ChildManifest
  table : ChildMountManager

/-- What the call does to the state. -/
abbrev PolicyDone (α : Type) := PolicyState × Except PolicyError α

namespace PolicyState

/-- The record of the child, where its handle is mounted. -/
def mounted (s : PolicyState) : Option MountRecord :=
  (s.table.find s.manifest.id).filter fun r => s.table.isMounted r.handle

end PolicyState

/-- `normalize_write_policy`. -/
def normalizedPolicy (policy : String) : Option WritePolicy :=
  Mountd.writePolicyNamed (Mountd.lower (strip policy))

section Call

variable (cfg : ManagerConfig) (site : PolicySite)

/-- `_publish_record` gets as far as the files. -/
def publishes (r : MountRecord) : Bool :=
  decide (r.writePolicy = .localSsdAsync) && decide (r.mode = .rw) && r.writerLock && cfg.nfsRoot

/-- `force_unmount` of a record: it is forgotten before anything else. -/
def forceUnmountTrying (s : PolicyState) (r : MountRecord) : PolicyDone Unit :=
  let popped := { s with table := s.table.pop s.manifest.id }
  if publishes cfg r && site.fails .publish then (popped, .error (.fault .publish))
  else if site.fails .unmount then (popped, .error (.fault .unmount))
  else
    let unmounted := { s with table := tearDown (s.table.pop s.manifest.id) r }
    if r.writerLock && site.fails .release then (unmounted, .error (.fault .release))
    else (unmounted, .ok ())

/-- The manifest is written and read again. -/
def writePolicy (s : PolicyState) (next : WritePolicy) : PolicyDone Unit :=
  if site.fails .write then (s, .error (.fault .write))
  else
    let written := { s with manifest := { s.manifest with writePolicy := next } }
    if site.fails .sync then (written, .error (.fault .sync))
    else if site.fails .applyManifest then (written, .error (.fault .applyManifest))
    else if site.fails .reload then (written, .error (.fault .reload))
    else (written, .ok ())

/-- A mount call, the mount of which may raise. -/
def remounted (s : PolicyState) (x : Mounted) : PolicyDone Unit :=
  match x with
  | (_, .error e) => (s, .error (.refused e))
  | (t, .ok _) =>
    if site.fails .remount then (s, .error (.fault .remount)) else ({ s with table := t }, .ok ())

/-- The child that was mounted is mounted again. -/
def remountAs (s : PolicyState) (was : Option MountRecord) : PolicyDone Unit :=
  match was with
  | none => (s, .ok ())
  | some r =>
    match r.mode with
    | .rw => remounted site s
        (mountRwAtUnlocked cfg s.table s.manifest r.mountpoint false false site.mount)
    | .ro =>
      if s.manifest.lowers = [] then (s, .ok ())
      else remounted site s
        (mountAtUnlocked s.table s.manifest r.mountpoint false false site.mount)

/-- `_manifest_status`. -/
def policyStatus (s : PolicyState) : PolicyDone Unit :=
  if site.fails .status then (s, .error (.fault .status)) else (s, .ok ())

/-- The rest of the call, once the child is not mounted. -/
def switchPolicy (s : PolicyState) (next : WritePolicy) (was : Option MountRecord) :
    PolicyDone Unit :=
  match writePolicy site s next with
  | (s, .error e) => (s, .error e)
  | (s, .ok ()) =>
    match remountAs cfg site s was with
    | (s, .error e) => (s, .error e)
    | (s, .ok ()) => policyStatus site s

/-- `handle_write_policy`. -/
def handleWritePolicy (s : PolicyState) (policy : Option String) (remount : Bool) :
    PolicyDone Unit :=
  if site.fails .find then (s, .error (.fault .find))
  else
    match policy with
    | none => policyStatus site s
    | some policy =>
      match normalizedPolicy policy with
      | none => (s, .error (.invalid policy))
      | some next =>
        if s.manifest.writePolicy = next then policyStatus site s
        else if site.fails .cleanCheck then (s, .error (.fault .cleanCheck))
        else
          match site.dirty with
          | some place => (s, .error (.dirty s.manifest.id place))
          | none =>
            match s.mounted with
            | none => switchPolicy cfg site s next none
            | some r =>
              if !remount then (s, .error (.mounted s.manifest.id))
              else
                match forceUnmountTrying cfg site s r with
                | (s, .error e) => (s, .error e)
                | (s, .ok ()) => switchPolicy cfg site s next (some r)

end Call

/-! ## 2. All or nothing -/

/-- What callers see of a record. -/
structure RecordView where
  mounted : Bool
  mode : MountMode
  mountpoint : String
  refcount : Int
  writerLock : Bool
  deriving DecidableEq

def PolicyState.view (s : PolicyState) : Option RecordView :=
  (s.table.find s.manifest.id).map fun r =>
    { mounted := s.table.isMounted r.handle
      mode := r.mode
      mountpoint := r.mountpoint
      refcount := r.refcount
      writerLock := r.writerLock }

/-- The policy that the call asks for. -/
def requestedPolicy (s : PolicyState) (policy : Option String) : WritePolicy :=
  (policy.bind normalizedPolicy).getD s.manifest.writePolicy

/-- **All or nothing**: a call that raises leaves the manifest and the record of the child; one that
    returns has changed the policy of the manifest, and a child that was mounted is mounted again, at
    the same mountpoint, in the same mode, with the same references. -/
structure AllOrNothing (s : PolicyState) (policy : Option String) (x : PolicyDone Unit) : Prop where
  raises : ∀ e, x.2 = .error e → x.1.manifest = s.manifest ∧ x.1.view = s.view
  returns : x.2 = .ok () →
    x.1.manifest = { s.manifest with writePolicy := requestedPolicy s policy } ∧
    ∀ r, s.mounted = some r → ∃ r', x.1.mounted = some r' ∧ r'.mountpoint = r.mountpoint ∧
      r'.mode = r.mode ∧ r'.refcount = r.refcount

/-- A writable mount finds its upper, or its lock. -/
def rwReady (cfg : ManagerConfig) (at' : MountSite) (m : ChildManifest) : WritePolicy → Bool
  | .sharedNfs => decide (m.overlay.activeUpper ≠ "")
  | .localSsdAsync => cfg.nfsRoot && at'.lockFree

/-- The remount finds what it needs, in the mode that the child had. -/
def remountsAlike (cfg : ManagerConfig) (site : PolicySite) (m : ChildManifest) (next : WritePolicy)
    (r : MountRecord) : Bool :=
  match r.mode with
  | .rw => rwReady cfg site.mount m next
  | .ro => decide (m.lowers ≠ [])

/-- Nothing raises after the manifest is in place, but for the remount. -/
def quietAfterWrite (site : PolicySite) : Bool :=
  !site.fails .sync && !site.fails .applyManifest && !site.fails .reload && !site.fails .status

/-- Nothing raises from the unmount on. -/
def quietRemount (cfg : ManagerConfig) (site : PolicySite) (r : MountRecord) : Bool :=
  !(publishes cfg r && site.fails .publish) && !site.fails .unmount &&
    !(r.writerLock && site.fails .release) && !site.fails .write && quietAfterWrite site &&
    !site.fails .remount

/-- The calls that are all or nothing. -/
def staysWhole (cfg : ManagerConfig) (site : PolicySite) (s : PolicyState) (policy : Option String)
    (remount : Bool) : Bool :=
  let next := requestedPolicy s policy
  site.fails .find || decide (next = s.manifest.writePolicy) || site.fails .cleanCheck ||
    site.dirty.isSome ||
    match s.mounted with
    | none => site.fails .write || quietAfterWrite site
    | some r => !remount ||
      (quietRemount cfg site r && decide (r.refcount = 1) &&
        remountsAlike cfg site s.manifest next r)

/-! ## 3. The remount -/

section Remount

variable {cfg : ManagerConfig} {site : PolicySite} {s t : PolicyState} {m : ChildManifest}
  {r : MountRecord} {next : WritePolicy} {mountpoint : String}

/-- A child without record is mounted read-only. -/
theorem mountAt_none {u : ChildMountManager} (hnone : u.find m.id = none) (hlowers : m.lowers ≠ [])
    (mountpoint : String) (at' : MountSite) :
    mountAtUnlocked u m mountpoint false false at' =
      mounts u (newRecord m mountpoint .ro at'.now) := by
  unfold mountAtUnlocked reuseExisting
  rw [hnone]
  simp only [hlowers, Bool.false_and, Bool.false_eq_true, ↓reduceIte]

/-- **A child without record is mounted writable** when it finds its upper or its lock; else the call
    is refused, or mounts it read-only. -/
theorem mountRwAt_none (cfg : ManagerConfig) {u : ChildMountManager} (hnone : u.find m.id = none)
    (mountpoint : String) (at' : MountSite) :
    if rwReady cfg at' m m.writePolicy then
      ∃ r, mountRwAtUnlocked cfg u m mountpoint false false at' = mounts u r ∧ r.manifestId = m.id ∧
        r.mountpoint = mountpoint ∧ r.mode = .rw ∧ r.refcount = 1
    else (∃ e, mountRwAtUnlocked cfg u m mountpoint false false at' = (u, .error e)) ∨
      ∃ r, mountRwAtUnlocked cfg u m mountpoint false false at' = mounts u r ∧
        r.manifestId = m.id ∧ r.mode = .ro := by
  have hreuse : ∀ mode, reuseExisting u m mountpoint mode false at'.now = (u, .ok none) := by
    intro mode
    unfold reuseExisting
    rw [hnone]
  unfold mountRwAtUnlocked
  rw [hreuse]
  dsimp only
  cases m.writePolicy with
  | sharedNfs =>
    unfold mountRwSharedNfs rwReady
    by_cases hupper : m.overlay.activeUpper = ""
    · simp only [hupper, ne_eq, not_true_eq_false, decide_false, Bool.false_and, Bool.false_eq_true,
        ↓reduceIte]
      exact .inl ⟨_, rfl⟩
    · simp only [hupper, ne_eq, not_false_eq_true, decide_true, Bool.false_and, Bool.false_eq_true,
        ↓reduceIte]
      exact ⟨_, rfl, rfl, rfl, rfl, rfl⟩
  | localSsdAsync =>
    unfold mountRwLocalSsdAsync rwReady
    cases hroot : cfg.nfsRoot with
    | false =>
      simp only [Bool.not_false, Bool.false_and, Bool.false_eq_true, ↓reduceIte]
      exact .inl ⟨_, rfl⟩
    | true =>
      cases hlock : at'.lockFree with
      | true =>
        simp only [Bool.not_true, Bool.false_and, Bool.false_eq_true, Bool.and_self, ↓reduceIte]
        exact ⟨_, rfl, rfl, rfl, rfl, rfl⟩
      | false =>
        simp only [Bool.not_true, Bool.not_false, Bool.false_and, Bool.and_false,
          Bool.false_eq_true, ↓reduceIte]
        -- the lock is held: the mirror, or the packs, are read
        unfold mountPublishedMirrorRo
        cases hmirror : at'.mirrored with
        | true =>
          simp only [hroot, Bool.not_true, Bool.false_eq_true, ↓reduceIte]
          exact .inr ⟨_, rfl, rfl, rfl⟩
        | false =>
          by_cases hlowers : m.lowers = []
          · simp only [hroot, hlowers, ne_eq, not_true_eq_false, Bool.not_true, Bool.not_false,
              Bool.false_eq_true, ↓reduceIte]
            exact .inl ⟨_, rfl⟩
          · simp only [hroot, hlowers, ne_eq, not_false_eq_true, Bool.not_true, Bool.not_false,
              Bool.false_eq_true, ↓reduceIte]
            exact .inr ⟨_, mountAt_none hnone hlowers mountpoint at', rfl, rfl⟩

/-- What a mount of the child leaves. -/
theorem mounted_mounts (hid : r.manifestId = s.manifest.id) :
    ({ s with table := (mounts s.table r).1 } : PolicyState).mounted =
      some { r with handle := s.table.handles.length } := by
  have hfind : (mounts s.table r).1.find s.manifest.id =
      some { r with handle := s.table.handles.length } :=
    find_mounts.trans (if_pos hid.symm)
  have hmounted : (mounts s.table r).1.isMounted s.table.handles.length = true := by
    have hhandles : (mounts s.table r).1.handles = s.table.handles ++ [({} : Handle)] := rfl
    unfold ChildMountManager.isMounted
    rw [hhandles, List.getElem?_concat_length]
    rfl
  unfold PolicyState.mounted
  show ((mounts s.table r).1.find s.manifest.id).filter
    (fun q => (mounts s.table r).1.isMounted q.handle) = _
  rw [hfind]
  simp [Option.filter, hmounted]

end Remount

/-! ## 4. What the call leaves -/

section Whole

variable {cfg : ManagerConfig} {site : PolicySite} {s t : PolicyState} {r r' : MountRecord}
  {next : WritePolicy} {policy : Option String} {x : PolicyDone Unit} {e : PolicyError}

/-- An exception that leaves everything. -/
theorem whole_of_same (e : PolicyError) : AllOrNothing s policy (s, .error e) :=
  ⟨fun _ _ => ⟨rfl, rfl⟩, fun h => by cases h⟩

/-- An exception once the manifest is in place. -/
theorem not_whole_of_manifest (hraise : x.2 = .error e)
    (hnew : x.1.manifest.writePolicy ≠ s.manifest.writePolicy) : ¬ AllOrNothing s policy x :=
  fun h => hnew (congrArg ChildManifest.writePolicy (h.raises e hraise).1)

/-- An exception once the record is forgotten. -/
theorem not_whole_of_record (hraise : x.2 = .error e) (hmounted : s.mounted = some r)
    (hgone : x.1.view = none) : ¬ AllOrNothing s policy x := by
  intro h
  have hview := (h.raises e hraise).2
  have hfind : s.table.find s.manifest.id = some r := (Option.filter_eq_some_iff.mp hmounted).1
  unfold PolicyState.view at hview hgone
  rw [hgone, hfind] at hview
  cases hview

/-- **The status at the end**: the call raises with the new manifest, or returns with what the remount
    has left. -/
theorem status_whole_iff (hmanifest : t.manifest = { s.manifest with writePolicy := next })
    (hnext : requestedPolicy s policy = next) (hnew : next ≠ s.manifest.writePolicy) :
    AllOrNothing s policy (policyStatus site t) ↔ site.fails .status = false ∧
      ∀ r, s.mounted = some r → ∃ r', t.mounted = some r' ∧ r'.mountpoint = r.mountpoint ∧
        r'.mode = r.mode ∧ r'.refcount = r.refcount := by
  unfold policyStatus
  cases hstatus : site.fails .status with
  | true =>
    refine ⟨fun h => ?_, fun h => by cases h.1⟩
    refine absurd h (not_whole_of_manifest rfl ?_)
    show t.manifest.writePolicy ≠ s.manifest.writePolicy
    rw [hmanifest]
    exact hnew
  | false =>
    refine ⟨fun h => ⟨rfl, (h.returns rfl).2⟩,
      fun h => ⟨fun _ hraise => (by cases hraise), fun _ => ?_⟩⟩
    refine ⟨?_, h.2⟩
    show t.manifest = _
    rw [hnext]
    exact hmanifest

/-- **The manifest** is as it was, or the new one; it is written without an exception exactly when no
    step of it raises. -/
theorem writePolicy_cases (site : PolicySite) (t : PolicyState) (next : WritePolicy) :
    (site.fails .write = true ∧ writePolicy site t next = (t, .error (.fault .write))) ∨
    (site.fails .write = false ∧ ∃ answer, writePolicy site t next =
        ({ t with manifest := { t.manifest with writePolicy := next } }, answer) ∧
      ((∃ e, answer = .error e) ∧ quietAfterWrite site = false ∨
        answer = .ok () ∧ quietAfterWrite site = !site.fails .status)) := by
  unfold writePolicy quietAfterWrite
  cases hwrite : site.fails .write with
  | true => exact .inl ⟨rfl, rfl⟩
  | false =>
    refine .inr ⟨rfl, ?_⟩
    cases hsync : site.fails .sync with
    | true => exact ⟨_, rfl, .inl ⟨⟨_, rfl⟩, rfl⟩⟩
    | false =>
      cases happly : site.fails .applyManifest with
      | true => exact ⟨_, rfl, .inl ⟨⟨_, rfl⟩, rfl⟩⟩
      | false =>
        cases hreload : site.fails .reload with
        | true => exact ⟨_, rfl, .inl ⟨⟨_, rfl⟩, rfl⟩⟩
        | false => exact ⟨_, rfl, .inr ⟨rfl, rfl⟩⟩

/-- **A child that is not mounted**: nothing may raise once the manifest is in place. -/
theorem switchPolicy_unmounted_iff (hnone : s.mounted = none)
    (hnext : requestedPolicy s policy = next) (hnew : next ≠ s.manifest.writePolicy) :
    AllOrNothing s policy (switchPolicy cfg site s next none) ↔
      (site.fails .write || quietAfterWrite site) = true := by
  unfold switchPolicy
  obtain ⟨hwrite, heq⟩ | ⟨hwrite, answer, heq, ⟨⟨e, rfl⟩, hquiet⟩ | ⟨rfl, hquiet⟩⟩ :=
    writePolicy_cases site s next
  · rw [heq, hwrite]
    exact ⟨fun _ => rfl, fun _ => whole_of_same _⟩
  · rw [heq, hwrite, hquiet]
    refine ⟨fun h => ?_, fun hno => by cases hno⟩
    exact absurd h (not_whole_of_manifest rfl hnew)
  · rw [heq, hwrite, hquiet]
    refine (status_whole_iff (s := s)
      (t := { s with manifest := { s.manifest with writePolicy := next } }) rfl hnext hnew).trans ⟨fun h => ?_, fun h => ⟨?_, fun r hr => ?_⟩⟩
    · rw [h.1]
      rfl
    · simpa using h
    · rw [hnone] at hr
      cases hr

theorem remounted_mounts {q : MountRecord} : remounted site t (mounts t.table q) =
    if site.fails .remount then (t, .error (.fault .remount))
    else ({ t with table := (mounts t.table q).1 }, .ok ()) := rfl

/-- **The remount** of a child that has no record makes one like the old one, with one reference;
    else it raises, or leaves the child in another mode or not mounted at all. -/
theorem remountAs_cases (cfg : ManagerConfig) (site : PolicySite) (r : MountRecord)
    (hgone : t.table.find t.manifest.id = none) :
    ((remountsAlike cfg site t.manifest t.manifest.writePolicy r && !site.fails .remount) = true ∧
      ∃ q, remountAs cfg site t (some r) = ({ t with table := (mounts t.table q).1 }, .ok ()) ∧
        q.manifestId = t.manifest.id ∧ q.mountpoint = r.mountpoint ∧ q.mode = r.mode ∧
        q.refcount = 1) ∨
    ((remountsAlike cfg site t.manifest t.manifest.writePolicy r && !site.fails .remount) = false ∧
      ((∃ e, remountAs cfg site t (some r) = (t, .error e)) ∨
        ∃ u, remountAs cfg site t (some r) = (u, .ok ()) ∧ u.manifest = t.manifest ∧
          ∀ q, u.mounted = some q → q.mode ≠ r.mode)) := by
  unfold remountAs remountsAlike
  dsimp only
  cases hmode : r.mode with
  | rw =>
    dsimp only
    have hmount := mountRwAt_none cfg hgone r.mountpoint site.mount
    cases hready : rwReady cfg site.mount t.manifest t.manifest.writePolicy with
    | true =>
      rw [hready, if_pos rfl] at hmount
      obtain ⟨q, heq, hid, hat, hrw, hcount⟩ := hmount
      rw [heq, remounted_mounts]
      cases hfault : site.fails .remount with
      | true => exact .inr ⟨rfl, .inl ⟨_, rfl⟩⟩
      | false => exact .inl ⟨rfl, q, rfl, hid, hat, hrw, hcount⟩
    | false =>
      rw [hready, if_neg Bool.false_ne_true] at hmount
      obtain ⟨e, heq⟩ | ⟨q, heq, hid, hro⟩ := hmount
      · rw [heq]
        exact .inr ⟨rfl, .inl ⟨_, rfl⟩⟩
      · rw [heq, remounted_mounts]
        cases hfault : site.fails .remount with
        | true => exact .inr ⟨rfl, .inl ⟨_, rfl⟩⟩
        | false =>
          refine .inr ⟨rfl, .inr ⟨_, rfl, rfl, fun p hp => ?_⟩⟩
          rw [mounted_mounts hid] at hp
          rw [← Option.some.inj hp]
          show q.mode ≠ .rw
          rw [hro]
          decide
  | ro =>
    dsimp only
    by_cases hlowers : t.manifest.lowers = []
    · rw [if_pos hlowers]
      refine .inr ⟨?_, .inr ⟨t, rfl, rfl, fun q hq => ?_⟩⟩
      · simp only [hlowers, ne_eq, not_true_eq_false, decide_false, Bool.false_and]
      · have hfind := (Option.filter_eq_some_iff.mp hq).1
        rw [hgone] at hfind
        cases hfind
    · rw [if_neg hlowers, mountAt_none hgone hlowers, remounted_mounts]
      cases hfault : site.fails .remount with
      | true => exact .inr ⟨by rw [Bool.not_true, Bool.and_false], .inl ⟨_, rfl⟩⟩
      | false =>
        refine .inl ⟨?_, _, rfl, rfl, rfl, rfl, rfl⟩
        simp only [hlowers, ne_eq, not_false_eq_true, decide_true, Bool.not_false, Bool.and_self]

/-- **A child that was mounted**: nothing may raise any more, and the remount has to find the mode
    and the one reference that the child had. -/
theorem switchPolicy_mounted_iff (hmounted : s.mounted = some r) (hmanifest : t.manifest = s.manifest)
    (hgone : t.table.find t.manifest.id = none) (hnext : requestedPolicy s policy = next)
    (hnew : next ≠ s.manifest.writePolicy) :
    AllOrNothing s policy (switchPolicy cfg site t next (some r)) ↔
      (!site.fails .write && quietAfterWrite site && !site.fails .remount &&
        (decide (r.refcount = 1) && remountsAlike cfg site s.manifest next r)) = true := by
  unfold switchPolicy
  obtain ⟨hwrite, heq⟩ | ⟨hwrite, answer, heq, ⟨⟨e, rfl⟩, hquiet⟩ | ⟨rfl, hquiet⟩⟩ :=
    writePolicy_cases site t next
  · rw [heq, hwrite]
    refine ⟨fun h => ?_, fun hno => by cases hno⟩
    refine absurd h (not_whole_of_record rfl hmounted ?_)
    show (t.table.find t.manifest.id).map _ = none
    rw [hgone]
    rfl
  · rw [heq, hwrite, hquiet]
    refine ⟨fun h => ?_, fun hno => by cases hno⟩
    exact absurd h (not_whole_of_manifest rfl hnew)
  · rw [heq, hwrite, hquiet]
    dsimp only
    have hwritten : ({ t.manifest with writePolicy := next } : ChildManifest) =
        { s.manifest with writePolicy := next } := by rw [hmanifest]
    have hsame : remountsAlike cfg site { t.manifest with writePolicy := next } next r =
        remountsAlike cfg site s.manifest next r := by
      rw [hmanifest]
      rfl
    obtain ⟨halike, q, hremount, hid, hat, hmode, hcount⟩ | ⟨halike, hremount⟩ :=
      remountAs_cases (t := { t with manifest := { t.manifest with writePolicy := next } })
        cfg site r hgone
    · rw [hremount]
      dsimp only at halike ⊢
      rw [hsame, Bool.and_eq_true] at halike
      refine (status_whole_iff hwritten hnext hnew).trans ?_
      rw [halike.1, halike.2]
      simp only [Bool.not_false, Bool.true_and, Bool.and_true, Bool.and_eq_true,
        Bool.not_eq_true', decide_eq_true_eq]
      refine and_congr_right fun _ => ⟨fun h => ?_, fun hone r₀ hr₀ => ?_⟩
      · obtain ⟨q', hq', -, -, hcount'⟩ := h r hmounted
        have hmounts := mounted_mounts
          (s := { t with manifest := { t.manifest with writePolicy := next } }) hid
        rw [hmounts] at hq'
        rw [← Option.some.inj hq'] at hcount'
        exact hcount'.symm.trans hcount
      · rw [hmounted] at hr₀
        obtain rfl := Option.some.inj hr₀
        exact ⟨_, mounted_mounts
          (s := { t with manifest := { t.manifest with writePolicy := next } }) hid, hat, hmode,
          hcount.trans hone.symm⟩
    · dsimp only at halike hremount ⊢
      rw [hsame] at halike
      have hno : (!false && !site.fails .status && !site.fails .remount &&
          (decide (r.refcount = 1) && remountsAlike cfg site s.manifest next r)) = false := by
        revert halike
        cases remountsAlike cfg site s.manifest next r <;> cases site.fails .remount <;> simp
      rw [hno]
      refine ⟨fun h => ?_, fun hno => by cases hno⟩
      exfalso
      obtain ⟨e, heq⟩ | ⟨u, heq, humanifest, hmode⟩ := hremount
      · rw [heq] at h
        exact not_whole_of_manifest rfl hnew h
      · rw [heq] at h
        obtain ⟨-, hremounted⟩ :=
          (status_whole_iff (humanifest.trans hwritten) hnext hnew).mp h
        obtain ⟨q, hq, -, hqmode, -⟩ := hremounted r hmounted
        exact hmode q hq hqmode

/-- **The unmount** forgets the record first, whatever raises after that. -/
theorem forceUnmountTrying_cases (cfg : ManagerConfig) (site : PolicySite) (s : PolicyState)
    (r : MountRecord) :
    ∃ t answer, forceUnmountTrying cfg site s r = (t, answer) ∧ t.manifest = s.manifest ∧
      t.table.find t.manifest.id = none ∧
      ((∃ e, answer = .error e) ∧ quietRemount cfg site r = false ∨
        answer = .ok () ∧ quietRemount cfg site r =
          (!site.fails .write && quietAfterWrite site && !site.fails .remount)) := by
  have hpopped : (s.table.pop s.manifest.id).find s.manifest.id = none := find_pop.trans (if_pos rfl)
  unfold forceUnmountTrying quietRemount
  cases hpublish : publishes cfg r && site.fails .publish with
  | true => exact ⟨_, _, rfl, rfl, hpopped, .inl ⟨⟨_, rfl⟩, rfl⟩⟩
  | false =>
    cases hunmount : site.fails .unmount with
    | true => exact ⟨_, _, rfl, rfl, hpopped, .inl ⟨⟨_, rfl⟩, rfl⟩⟩
    | false =>
      cases hrelease : r.writerLock && site.fails .release with
      | true => exact ⟨_, _, rfl, rfl, hpopped, .inl ⟨⟨_, rfl⟩, rfl⟩⟩
      | false => exact ⟨_, _, rfl, rfl, hpopped, .inr ⟨rfl, rfl⟩⟩

/-- **A write-policy switch is all or nothing** exactly in these calls: it ends before the child is
    unmounted or the manifest replaced, or the child is not mounted and nothing raises after the
    manifest is in place, or a mounted child has one reference, nothing raises any more and the
    remount finds the mode that the child had. -/
theorem handleWritePolicy_whole_iff (cfg : ManagerConfig) (site : PolicySite) (s : PolicyState)
    (policy : Option String) (remount : Bool) :
    AllOrNothing s policy (handleWritePolicy cfg site s policy remount) ↔
      staysWhole cfg site s policy remount = true := by
  have hstatus : requestedPolicy s policy = s.manifest.writePolicy →
      AllOrNothing s policy (policyStatus site s) := by
    intro hsame
    unfold policyStatus
    cases site.fails .status with
    | true => exact whole_of_same _
    | false =>
      refine ⟨fun e h => (by cases h), fun _ => ⟨?_, fun r hr => ⟨r, hr, rfl, rfl, rfl⟩⟩⟩
      rw [hsame]
      rfl
  have hwhole : staysWhole cfg site s policy remount =
      (site.fails .find || decide (requestedPolicy s policy = s.manifest.writePolicy) ||
        site.fails .cleanCheck || site.dirty.isSome ||
        match s.mounted with
        | none => site.fails .write || quietAfterWrite site
        | some r => !remount ||
          (quietRemount cfg site r && decide (r.refcount = 1) &&
            remountsAlike cfg site s.manifest (requestedPolicy s policy) r)) := rfl
  rw [hwhole]
  unfold handleWritePolicy
  cases hfind : site.fails .find with
  | true => exact ⟨fun _ => rfl, fun _ => whole_of_same _⟩
  | false =>
    rw [if_neg Bool.false_ne_true]
    cases hpolicy : policy with
    | none =>
      subst hpolicy
      have hkept : requestedPolicy s none = s.manifest.writePolicy := rfl
      have htrue : decide (requestedPolicy s none = s.manifest.writePolicy) = true :=
        decide_eq_true hkept
      rw [htrue]
      exact ⟨fun _ => rfl, fun _ => hstatus hkept⟩
    | some p =>
      subst hpolicy
      dsimp only
      cases hnamed : normalizedPolicy p with
      | none =>
        have hsame : requestedPolicy s (some p) = s.manifest.writePolicy := by
          unfold requestedPolicy
          rw [Option.bind_some, hnamed]
          rfl
        rw [decide_eq_true hsame]
        exact ⟨fun _ => rfl, fun _ => whole_of_same _⟩
      | some next =>
        have hnext : requestedPolicy s (some p) = next := by
          unfold requestedPolicy
          rw [Option.bind_some, hnamed]
          rfl
        dsimp only
        by_cases hsame : s.manifest.writePolicy = next
        · rw [if_pos hsame]
          have hkept : requestedPolicy s (some p) = s.manifest.writePolicy := hnext.trans hsame.symm
          rw [decide_eq_true hkept]
          exact ⟨fun _ => rfl, fun _ => hstatus hkept⟩
        · rw [if_neg hsame]
          have hnew : next ≠ s.manifest.writePolicy := Ne.symm hsame
          cases hclean : site.fails .cleanCheck with
          | true =>
            rw [if_pos rfl, Bool.or_true]
            exact ⟨fun _ => rfl, fun _ => whole_of_same _⟩
          | false =>
            rw [if_neg Bool.false_ne_true]
            cases hdirty : site.dirty with
            | some place =>
              rw [Option.isSome_some, Bool.or_true]
              exact ⟨fun _ => rfl, fun _ => whole_of_same _⟩
            | none =>
              rw [hnext, decide_eq_false hnew]
              simp only [Bool.or_self, Option.isSome_none, Bool.false_or]
              cases hmounted : s.mounted with
              | none => exact switchPolicy_unmounted_iff hmounted hnext hnew
              | some r =>
                cases remount with
                | false => exact ⟨fun _ => rfl, fun _ => whole_of_same _⟩
                | true =>
                  dsimp only
                  obtain ⟨t, answer, heq, hmanifest, hgone, ⟨⟨e, rfl⟩, hquiet⟩ | ⟨rfl, hquiet⟩⟩ :=
                    forceUnmountTrying_cases cfg site s r
                  · rw [heq, hquiet]
                    refine ⟨fun h => ?_, fun hno => by cases hno⟩
                    refine absurd h (not_whole_of_record rfl hmounted ?_)
                    show (t.table.find t.manifest.id).map _ = none
                    rw [hgone]
                    rfl
                  · rw [heq, hquiet, Bool.not_true, Bool.false_or, Bool.and_assoc _ (decide _)]
                    exact switchPolicy_mounted_iff hmounted hmanifest hgone hnext hnew

end Whole

/-- `library`, mounted once. -/
def mountedLibrary : PolicyState where
  manifest := library
  table := (mountRw { mountsDir := "/run" } {} library true {}).1

/-- The new manifest cannot be written. -/
theorem failedWrite_losesRecord :
    ¬ ∀ site s policy remount, AllOrNothing s policy
      (handleWritePolicy { mountsDir := "/run" } site s policy remount) := by
  intro h
  have hview := ((h { fails := fun point => decide (point = .write) } mountedLibrary
    (some "local-ssd-async") true).raises (.fault .write) (by decide +kernel)).2
  revert hview
  decide +kernel

end CccStorage.ChildMounts
