/-
  File:      CccStorage/LazyMounts.lean
  Subject:   Children mounted on access: the lazy accesses of `ObservationManager`
             (`mountd/observation.py`) and `NestedMountManager` (`mountd/childmount.py`) over the table
             of mount records.

  * `accessChild`, `accessChildAt` -- accesses with `increment_ref=False`; `lazyStep`;
  * `lazilyAccessed_reaped_iff` -- a child is reaped exactly when no access of it mounted it: the
    record that an access makes has a reference, and nobody drops it;
  * `NestedMountManager`, `nestedStep` -- the view of one parent;
  * `nestedStep_keepsParent_iff`, `nested_keepsParent_iff` -- a call keeps the parent view exactly when
    the reaper does not meet an expired parent and only the parent is mounted as the parent.
-/
import CccStorage.ChildMounts

namespace CccStorage.ChildMounts

/-! ## 1. Lazy accesses -/

section Lazy

variable (cfg : ManagerConfig)

/-- `ObservationManager.access_child` with `increment_ref=False`, from the child's manifest. -/
def accessChild (s : ChildMountManager) (m : ChildManifest) (site : MountSite) : Mounted :=
  mountRw cfg s m false site

/-- `ObservationManager.access_child_at`. -/
def accessChildAt (s : ChildMountManager) (m : ChildManifest) (mountpoint : String)
    (site : MountSite) : Mounted :=
  mountRwAtUnlocked cfg s m mountpoint false false site

inductive LazyCall where
  | accessChild (m : ChildManifest) (site : MountSite)
  | accessChildAt (m : ChildManifest) (mountpoint : String) (site : MountSite)
  | idleUnmountExpired (ttl now : ℚ)

/-- The manifest and the site of an access. -/
def LazyCall.access : LazyCall → Option (ChildManifest × MountSite)
  | .accessChild m site => some (m, site)
  | .accessChildAt m _ site => some (m, site)
  | .idleUnmountExpired _ _ => none

def lazyStep (s : ChildMountManager) : LazyCall → ChildMountManager
  | .accessChild m site => (accessChild cfg s m site).1
  | .accessChildAt m mountpoint site => (accessChildAt cfg s m mountpoint site).1
  | .idleUnmountExpired ttl now => (idleUnmountExpired s ttl now).1

/-- An access of a child that is not mounted mounts nothing: there is no upper, no `nfs_root`, or
    another writer has the lock and there is neither a mirror nor a pack to read. -/
def Refused (m : ChildManifest) (site : MountSite) : Bool :=
  match m.writePolicy with
  | .sharedNfs => decide (m.overlay.activeUpper = "")
  | .localSsdAsync => !cfg.nfsRoot || (!site.lockFree && !site.mirrored && decide (m.lowers = []))

/-- The table after some calls, from the empty one. -/
def lazyRun (calls : List LazyCall) : ChildMountManager := calls.foldl (lazyStep cfg) {}

/-- **A lazily accessed child is reaped**: once nobody has accessed it for `ttl` the reaper unmounts
    it, and no access has left a reference. -/
structure LazyReaped (calls : List LazyCall) (id : String) : Prop where
  reaped : ∀ ttl now : ℚ, 0 ≤ ttl →
    (∀ c ∈ calls, ∀ x, c.access = some x → x.1.id = id → ttl ≤ now - x.2.now) →
    (idleUnmountExpired (lazyRun cfg calls) ttl now).1.find id = none
  unreferenced : ∀ r, (lazyRun cfg calls).find id = some r → r.refcount ≤ 0

end Lazy

section Reaped

variable {cfg : ManagerConfig} {s : ChildMountManager} {m : ChildManifest} {mountpoint id : String}
  {site : MountSite} {calls : List LazyCall}

theorem find_mounts {r : MountRecord} : (mounts s r).1.find id =
    if id = r.manifestId then some { r with handle := s.handles.length } else s.find id :=
  find_put

/-- A lazy access of a child without record. -/
theorem access_none (cfg : ManagerConfig) (mountpoint : String) (site : MountSite) (h : Owned s)
    (hnone : s.find m.id = none) :
    if Refused cfg m site then (mountRwAtUnlocked cfg s m mountpoint false false site).1 = s
    else ∃ r, r.manifestId = m.id ∧ r.refcount = 1 ∧
      mountRwAtUnlocked cfg s m mountpoint false false site = mounts s r := by
  have hreuse : reuseExisting s m mountpoint .rw false site.now = (s, .ok none) := by
    unfold reuseExisting
    rw [hnone]
  have hreuseRo : reuseExisting s m mountpoint .ro false site.now = (s, .ok none) := by
    unfold reuseExisting
    rw [hnone]
  unfold mountRwAtUnlocked Refused
  rw [hreuse]
  dsimp only
  cases m.writePolicy with
  | sharedNfs =>
    unfold mountRwSharedNfs
    by_cases hupper : m.overlay.activeUpper = ""
    · simp only [hupper, decide_true, ↓reduceIte, Bool.false_and, Bool.false_eq_true]
    · simp only [hupper, decide_false, ↓reduceIte, Bool.false_and, Bool.false_eq_true]
      exact ⟨_, rfl, rfl, rfl⟩
  | localSsdAsync =>
    unfold mountRwLocalSsdAsync
    cases hroot : cfg.nfsRoot with
    | false => simp only [Bool.not_false, Bool.true_or, ↓reduceIte]
    | true =>
      cases hlock : site.lockFree with
      | true =>
        simp only [Bool.not_true, Bool.false_or, Bool.false_and, Bool.false_eq_true, ↓reduceIte]
        exact ⟨_, rfl, rfl, rfl⟩
      | false =>
        unfold mountPublishedMirrorRo
        cases hmirror : site.mirrored with
        | true =>
          simp only [hroot, Bool.not_true, Bool.not_false, Bool.false_or, Bool.true_and,
            Bool.false_and, Bool.false_eq_true, ↓reduceIte]
          exact ⟨_, rfl, rfl, rfl⟩
        | false =>
          unfold mountAtUnlocked
          rw [hreuseRo]
          by_cases hlowers : m.lowers = []
          · simp only [hroot, hlowers, decide_true, Bool.not_true, Bool.not_false, Bool.false_or,
              Bool.true_and, Bool.false_and, Bool.false_eq_true, ↓reduceIte, ne_eq,
              not_true_eq_false]
          · simp only [hroot, hlowers, decide_false, Bool.not_true, Bool.not_false, Bool.false_or,
              Bool.true_and, Bool.false_and, Bool.false_eq_true, ↓reduceIte, ne_eq,
              not_false_eq_true]
            exact ⟨_, rfl, rfl, rfl⟩

/-- **One access**: every record keeps one reference, and a child has a record afterwards exactly
    when it had one or the access mounts it. -/
theorem access_step (cfg : ManagerConfig) (m : ChildManifest) (mountpoint : String)
    (site : MountSite) (h : Owned s) (hone : ∀ id r, s.find id = some r → r.refcount = 1) :
    (∀ id r, (mountRwAtUnlocked cfg s m mountpoint false false site).1.find id = some r →
      r.refcount = 1) ∧
    ∀ id, (mountRwAtUnlocked cfg s m mountpoint false false site).1.find id = none ↔
      s.find id = none ∧ (m.id = id → Refused cfg m site = true) := by
  cases hfind : s.find m.id with
  | none =>
    have haccess := access_none cfg mountpoint site h hfind
    by_cases hrefused : Refused cfg m site = true
    · rw [if_pos hrefused] at haccess
      rw [haccess]
      exact ⟨hone, fun id => (and_iff_left fun _ => hrefused).symm⟩
    · rw [if_neg hrefused] at haccess
      obtain ⟨r, hid, hcount, heq⟩ := haccess
      rw [heq]
      refine ⟨fun id q hq => ?_, fun id => ?_⟩
      · rw [find_mounts] at hq
        split at hq
        · rw [← Option.some.inj hq]
          exact hcount
        · exact hone id q hq
      · rw [find_mounts]
        by_cases hid' : id = r.manifestId
        · rw [if_pos hid']
          refine ⟨fun hno => (by cases hno), fun hno => ?_⟩
          exact absurd (hno.2 (hid'.trans hid).symm) hrefused
        · rw [if_neg hid']
          refine (and_iff_left fun heq' => ?_).symm
          exact absurd (heq'.symm.trans hid.symm) hid'
  | some existing =>
    have hother : ∀ id, s.find id = none → m.id ≠ id := by
      rintro id hnone rfl
      rw [hfind] at hnone
      cases hnone
    have hsame : ∀ id, s.find id = none ↔ s.find id = none ∧ (m.id = id → Refused cfg m site = true) :=
      fun id => ⟨fun hnone => ⟨hnone, fun heq => absurd heq (hother id hnone)⟩, fun hno => hno.1⟩
    have hdoes : MountDoes s m mountpoint false site.now
        (mountRwAtUnlocked cfg s m mountpoint false false site) := mountRwAtUnlocked_does h
    generalize mountRwAtUnlocked cfg s m mountpoint false false site = x at hdoes
    cases hdoes with
    | refused e => exact ⟨hone, hsame⟩
    | reused existing' used hfind' hused =>
      have hcount : used.refcount = 1 := by
        rw [hused]
        exact hone m.id existing' hfind'
      refine ⟨fun id q hq => ?_, fun id => ?_⟩
      · rw [find_put] at hq
        split at hq
        · rw [← Option.some.inj hq]
          exact hcount
        · exact hone id q hq
      · rw [find_put]
        by_cases hid : id = m.id
        · rw [if_pos hid]
          exact ⟨fun hno => (by cases hno), fun hno => absurd hid.symm (hother id hno.1)⟩
        · rw [if_neg hid]
          exact hsame id
    | made r hnone _ _ _ _ =>
      rw [hfind] at hnone
      cases hnone

/-- What holds after some lazy calls. -/
structure LazyTable (cfg : ManagerConfig) (calls : List LazyCall) (s : ChildMountManager) : Prop where
  owned : Owned s
  one : ∀ id r, s.find id = some r → r.refcount = 1
  none_iff : ∀ id, s.find id = none ↔
    ∀ c ∈ calls, ∀ x, c.access = some x → x.1.id = id → Refused cfg x.1 x.2 = true

/-- A record with a reference is not expired. -/
theorem any_expired_of_one {ttl now : ℚ} (hone : ∀ r, s.find id = some r → r.refcount = 1) :
    (s.find id).any (expired ttl now) = false := by
  cases hfind : s.find id with
  | none => rfl
  | some r =>
    have hcount : ¬ r.refcount ≤ 0 := by
      rw [hone r hfind]
      decide
    simp only [Option.any_some, expired, decide_eq_false hcount, Bool.false_and]

theorem lazyRun_concat {c : LazyCall} :
    lazyRun cfg (calls ++ [c]) = lazyStep cfg (lazyRun cfg calls) c := by
  unfold lazyRun
  rw [List.foldl_append]
  rfl

theorem lazyTable (cfg : ManagerConfig) (calls : List LazyCall) :
    LazyTable cfg calls (lazyRun cfg calls) := by
  induction calls using List.reverseRecOn with
  | nil =>
    refine ⟨Owned.start, fun id r hr => (by cases hr), fun id => ?_⟩
    exact ⟨fun _ c hc => (by cases hc), fun _ => rfl⟩
  | append_singleton calls c ih =>
    rw [lazyRun_concat]
    have haccess : ∀ m mountpoint site, c.access = some (m, site) →
        lazyStep cfg (lazyRun cfg calls) c =
          (mountRwAtUnlocked cfg (lazyRun cfg calls) m mountpoint false false site).1 →
        LazyTable cfg (calls ++ [c]) (lazyStep cfg (lazyRun cfg calls) c) := by
      intro m mountpoint site hc heq
      obtain ⟨hone, hnone⟩ := access_step cfg m mountpoint site ih.owned ih.one
      rw [heq]
      refine ⟨(mountRwAtUnlocked_does ih.owned).owned ih.owned, hone, fun id => ?_⟩
      rw [hnone, ih.none_iff]
      refine ⟨fun hno d hd x hx hid => ?_, fun hno => ⟨fun d hd => ?_, fun hid => ?_⟩⟩
      · rcases List.mem_append.mp hd with hd | hd
        · exact hno.1 d hd x hx hid
        · rw [List.mem_singleton.mp hd, hc] at hx
          obtain rfl := Option.some.inj hx
          exact hno.2 hid
      · exact hno d (List.mem_append_left _ hd)
      · exact hno c (List.mem_append_right _ (List.mem_singleton_self c)) (m, site) hc hid
    cases c with
    | accessChild m site => exact haccess m (mountpointOf cfg m) site rfl rfl
    | accessChildAt m mountpoint site => exact haccess m mountpoint site rfl rfl
    | idleUnmountExpired ttl now =>
      have hfinds : ∀ id, (lazyStep cfg (lazyRun cfg calls) (.idleUnmountExpired ttl now)).find id =
          (lazyRun cfg calls).find id := by
        intro id
        refine (idle_find ih.owned).trans ?_
        rw [any_expired_of_one (ih.one id)]
        rfl
      refine ⟨ih.owned.idle, fun id r hr => ih.one id r ((hfinds id).symm.trans hr), fun id => ?_⟩
      rw [hfinds, ih.none_iff]
      refine ⟨fun hno d hd x hx => ?_, fun hno d hd => hno d (List.mem_append_left _ hd)⟩
      rcases List.mem_append.mp hd with hd | hd
      · exact hno d hd x hx
      · rw [List.mem_singleton.mp hd] at hx
        cases hx

/-- Late enough for every access. -/
theorem exists_late (calls : List LazyCall) (ttl : ℚ) :
    ∃ now : ℚ, ∀ c ∈ calls, ∀ x, c.access = some x → ttl ≤ now - x.2.now := by
  induction calls with
  | nil => exact ⟨0, fun c hc => by cases hc⟩
  | cons c calls ih =>
    obtain ⟨now, hnow⟩ := ih
    cases hc : c.access with
    | none =>
      refine ⟨now, fun d hd x hx => ?_⟩
      rcases List.mem_cons.mp hd with rfl | hd
      · rw [hc] at hx
        cases hx
      · exact hnow d hd x hx
    | some y =>
      refine ⟨max now (ttl + y.2.now), fun d hd x hx => ?_⟩
      rcases List.mem_cons.mp hd with rfl | hd
      · rw [hc] at hx
        obtain rfl := Option.some.inj hx
        have hle := le_max_right now (ttl + y.2.now)
        linarith
      · have hle := le_max_left now (ttl + y.2.now)
        have hold := hnow d hd x hx
        linarith

/-- **A lazily accessed child is reaped exactly when no access has mounted it**: the record that an
    access makes has one reference, further accesses add none, and nobody drops it. -/
theorem lazilyAccessed_reaped_iff (cfg : ManagerConfig) (calls : List LazyCall) (id : String) :
    (∀ past, past <+: calls → LazyReaped cfg past id) ↔
      ∀ c ∈ calls, ∀ x, c.access = some x → x.1.id = id → Refused cfg x.1 x.2 = true := by
  refine ⟨fun h => ?_, fun h past hpast => ?_⟩
  · have htable := lazyTable cfg calls
    obtain ⟨now, hlate⟩ := exists_late calls 1
    -- the reaper comes late enough for every access, and finds the reference of the first one
    have hreaped := (h calls (List.prefix_refl calls)).reaped 1 now zero_le_one
      fun c hc x hx _ => hlate c hc x hx
    rw [idle_find htable.owned, any_expired_of_one (htable.one id), if_neg Bool.false_ne_true]
      at hreaped
    exact (htable.none_iff id).mp hreaped
  · have hnone : (lazyRun cfg past).find id = none :=
      ((lazyTable cfg past).none_iff id).mpr fun c hc => h c (hpast.subset hc)
    refine ⟨fun ttl now _ _ => ?_, fun r hr => ?_⟩
    · rw [idle_find (lazyTable cfg past).owned, hnone, ite_self]
    · rw [hnone] at hr
      cases hr

end Reaped

/-- One access, and the reaper a quarter of an hour later. -/
theorem lazyAccess_stays :
    ¬ ∀ calls id, LazyReaped { mountsDir := "/run" } calls id := by
  intro h
  have hreaped := (h [.accessChild library {}] "library").reaped 300 900 (by norm_num) (by
    intro c hc x hx _
    rw [List.mem_singleton.mp hc] at hx
    obtain rfl := Option.some.inj hx
    norm_num)
  revert hreaped
  decide +kernel

/-! ## 2. The view of one parent -/

structure NestedMountManager where
  mounts : ChildMountManager
  parentId : String
  parentMounted : Bool := false

namespace NestedMountManager

variable (cfg : ManagerConfig) (n : NestedMountManager)

def mountParent (m : ChildManifest) (site : MountSite) :
    NestedMountManager × Except ChildMountError MountRecord :=
  match mount cfg n.mounts m site with
  | (s, .ok record) => ({ n with mounts := s, parentMounted := true }, .ok record)
  | (s, .error e) => ({ n with mounts := s }, .error e)

def accessChild (m : ChildManifest) (site : MountSite) :
    NestedMountManager × Except ChildMountError MountRecord :=
  let x := mount cfg n.mounts m site
  ({ n with mounts := x.1 }, x.2)

def releaseChild (id : String) (now : ℚ) : NestedMountManager :=
  { n with mounts := release n.mounts id now }

/-- The table after it, and the ids it answers. -/
def idleReap (ttl now : ℚ) : NestedMountManager × List String :=
  let x := idleUnmountExpired n.mounts ttl now
  ({ n with mounts := x.1 }, x.2.filter (· ≠ n.parentId))

/-- The parent has a record, and its handle is mounted. -/
def parentRecordMounted : Bool :=
  match n.mounts.find n.parentId with
  | none => false
  | some record => n.mounts.isMounted record.handle

end NestedMountManager

inductive NestedCall where
  | mountParent (m : ChildManifest) (site : MountSite)
  | accessChild (m : ChildManifest) (site : MountSite)
  | releaseChild (id : String) (now : ℚ)
  /-- `release` of the parent, by one of its users. -/
  | releaseParent (now : ℚ)
  | idleReap (ttl now : ℚ)

/-- The state after a call, and the ids that the reaper answers. -/
def nestedCall (cfg : ManagerConfig) (n : NestedMountManager) :
    NestedCall → NestedMountManager × List String
  | .mountParent m site => ((n.mountParent cfg m site).1, [])
  | .accessChild m site => ((n.accessChild cfg m site).1, [])
  | .releaseChild id now => (n.releaseChild id now, [])
  | .releaseParent now => ({ n with mounts := release n.mounts n.parentId now }, [])
  | .idleReap ttl now => n.idleReap ttl now

def nestedStep (cfg : ManagerConfig) (n : NestedMountManager) (c : NestedCall) :
    NestedMountManager := (nestedCall cfg n c).1

/-- **A call keeps the parent view**: the reaper leaves the parent's mount, the flag says whether
    the parent is mounted, and the reaper answers exactly the children it has unmounted. -/
structure KeepsParent (cfg : ManagerConfig) (n : NestedMountManager) (c : NestedCall)
    (t : NestedMountManager) : Prop where
  parent : ∀ ttl now, c = .idleReap ttl now → ∀ r, n.mounts.find n.parentId = some r →
    t.mounts.find n.parentId = some r ∧ t.mounts.isMounted r.handle = n.mounts.isMounted r.handle
  view : t.parentMounted = t.parentRecordMounted
  answer : ∀ ttl now, c = .idleReap ttl now → ∀ id, id ∈ (nestedCall cfg n c).2 ↔
    ∃ r, n.mounts.find id = some r ∧ n.mounts.isMounted r.handle = true ∧
      t.mounts.isMounted r.handle = false

/-- `mount` does not refuse this child. -/
def Mountable (cfg : ManagerConfig) (s : ChildMountManager) (m : ChildManifest) : Bool :=
  match s.find m.id with
  | none => decide (m.lowers ≠ [])
  | some r => decide (r.mountpoint = mountpointOf cfg m) && decide (r.mode = .ro) &&
      decide (r.writePolicy = m.writePolicy)

/-- The reaper does not meet an expired parent, and while the parent is not mounted it is the only
    one mounted as parent, and not mounted as child. -/
def nestedOk (cfg : ManagerConfig) (n : NestedMountManager) : NestedCall → Bool
  | .mountParent m _ =>
    n.parentMounted || decide (m.id = n.parentId) || !Mountable cfg n.mounts m
  | .accessChild m _ =>
    n.parentMounted || decide (m.id ≠ n.parentId) || !Mountable cfg n.mounts m
  | .releaseChild _ _ => true
  | .releaseParent _ => true
  | .idleReap ttl now => !(n.mounts.find n.parentId).any (expired ttl now)

section Nested

variable {cfg : ManagerConfig} {s : ChildMountManager} {m : ChildManifest} {id : String}
  {site : MountSite} {n : NestedMountManager} {r : MountRecord} {ttl now : ℚ}

/-- What the reaper unmounts. -/
theorem idle_isMounted (ttl now : ℚ) (h : Owned s) (hfind : s.find id = some r) :
    (idleUnmountExpired s ttl now).1.isMounted r.handle = !expired ttl now r := by
  have howned : Owned (idleUnmountExpired s ttl now).1 := h.idle
  cases hexp : expired ttl now r with
  | false =>
    have hstays : (idleUnmountExpired s ttl now).1.find id = some r := by
      rw [idle_find h, hfind, Option.any_some, hexp]
      rfl
    exact howned.isMounted hstays
  | true =>
    by_contra hmounted
    have hstays : (idleUnmountExpired s ttl now).1.isMounted r.handle = true := by
      simpa using hmounted
    unfold ChildMountManager.isMounted at hstays
    cases he : (idleUnmountExpired s ttl now).1.handles[r.handle]? with
    | none =>
      rw [he] at hstays
      cases hstays
    | some e =>
      rcases howned.rest r.handle e he with ⟨j, q, hq, hhandle⟩ | hend
      · rw [idle_find h] at hq
        split at hq
        · cases hq
        · rename_i hnot
          have hj : j = id := h.apart j id q r hq hfind hhandle
          rw [hj, hfind, Option.any_some] at hnot
          exact hnot hexp
      · rw [he, hend] at hstays
        cases hstays

theorem parentRecordMounted_eq (h : Owned n.mounts) :
    n.parentRecordMounted = (n.mounts.find n.parentId).isSome := by
  unfold NestedMountManager.parentRecordMounted
  cases hfind : n.mounts.find n.parentId with
  | none => rfl
  | some r => exact h.isMounted hfind

theorem mount_isOk (cfg : ManagerConfig) (m : ChildManifest) (site : MountSite) (h : Owned s) :
    (mount cfg s m site).2.isOk = Mountable cfg s m := by
  unfold mount mountAtUnlocked reuseExisting Mountable
  cases hfind : s.find m.id with
  | none =>
    by_cases hlowers : m.lowers = []
    · simp only [hlowers, ↓reduceIte, ne_eq, not_true_eq_false, decide_false]
      rfl
    · simp only [hlowers, ↓reduceIte, Bool.false_and, Bool.false_eq_true, ne_eq, not_false_eq_true,
        decide_true]
      rfl
  | some r =>
    simp only [h.isMounted hfind, Bool.not_true, Bool.false_eq_true, ↓reduceIte]
    by_cases hat : r.mountpoint = mountpointOf cfg m
    · by_cases hmode : r.mode = .ro
      · by_cases hpolicy : r.writePolicy = m.writePolicy
        · simp only [hat, hmode, hpolicy, ne_eq, not_true_eq_false, ↓reduceIte, decide_true,
            Bool.and_self]
          rfl
        · simp only [hat, hmode, hpolicy, ne_eq, not_true_eq_false, not_false_eq_true, ↓reduceIte,
            decide_false, Bool.and_false]
          rfl
      · simp only [hat, hmode, ne_eq, not_true_eq_false, not_false_eq_true, ↓reduceIte,
          decide_false, Bool.and_false, Bool.false_and]
        rfl
    · simp only [hat, ne_eq, not_false_eq_true, ↓reduceIte, decide_false, Bool.false_and]
      rfl

/-- **`mount`**: a child has a record afterwards when it had one or is the one mounted. -/
theorem mount_isSome (cfg : ManagerConfig) (m : ChildManifest) (site : MountSite) (h : Owned s)
    (id : String) : ((mount cfg s m site).1.find id).isSome =
      ((s.find id).isSome || (decide (m.id = id) && Mountable cfg s m)) := by
  have hok := mount_isOk cfg m site h
  have hdoes : MountDoes s m (mountpointOf cfg m) true site.now (mount cfg s m site) :=
    mountAtUnlocked_does h
  generalize mount cfg s m site = x at hok hdoes
  cases hdoes with
  | refused e =>
    rw [← hok]
    simp only [Except.isOk, Except.toBool, Bool.and_false, Bool.or_false]
  | reused existing used hfind _ =>
    rw [find_put]
    by_cases hid : id = m.id
    · rw [if_pos hid, hid, hfind]
      rfl
    · rw [if_neg hid, decide_eq_false (Ne.symm hid), Bool.false_and, Bool.or_false]
  | made r _ hid' _ _ _ =>
    rw [find_mounts, ← hok]
    by_cases hid : id = r.manifestId
    · rw [if_pos hid, decide_eq_true (hid.trans hid').symm]
      simp only [mounts, Except.isOk, Except.toBool, Option.isSome_some, Bool.and_self, Bool.or_true]
    · rw [if_neg hid, decide_eq_false fun heq => hid (heq.symm.trans hid'.symm), Bool.false_and,
        Bool.or_false]

theorem release_isSome (released id : String) :
    ((release s released now).find id).isSome = (s.find id).isSome := by
  unfold release
  cases hfind : s.find released with
  | none => rfl
  | some r =>
    rw [find_put]
    by_cases hid : id = released
    · rw [if_pos hid, hid, hfind]
      rfl
    · rw [if_neg hid]

/-! ### One call -/

theorem mountParent_eq : (n.mountParent cfg m site).1 =
    { n with
      mounts := (mount cfg n.mounts m site).1
      parentMounted := n.parentMounted || (mount cfg n.mounts m site).2.isOk } := by
  unfold NestedMountManager.mountParent
  rcases mount cfg n.mounts m site with ⟨s, e | r⟩
  · simp only [Except.isOk, Except.toBool, Bool.or_false]
  · simp only [Except.isOk, Except.toBool, Bool.or_true]

theorem nestedStep_parentId (c : NestedCall) : (nestedStep cfg n c).parentId = n.parentId := by
  cases c with
  | mountParent m site =>
    show (n.mountParent cfg m site).1.parentId = n.parentId
    rw [mountParent_eq]
  | accessChild m site => rfl
  | releaseChild id now => rfl
  | releaseParent now => rfl
  | idleReap ttl now => rfl

theorem nestedStep_owned (cfg : ManagerConfig) (h : Owned n.mounts) (c : NestedCall) :
    Owned (nestedStep cfg n c).mounts := by
  cases c with
  | mountParent m site =>
    show Owned (n.mountParent cfg m site).1.mounts
    rw [mountParent_eq]
    exact (mountAtUnlocked_does h).owned h
  | accessChild m site => exact (mountAtUnlocked_does h).owned h
  | releaseChild id now => exact h.release
  | releaseParent now => exact h.release
  | idleReap ttl now => exact h.idle

/-- Only the reaper has more to keep than the flag. -/
theorem keepsParent_iff_view {c : NestedCall} {t : NestedMountManager}
    (hc : ∀ ttl now, c ≠ .idleReap ttl now) :
    KeepsParent cfg n c t ↔ t.parentMounted = t.parentRecordMounted :=
  ⟨fun h => h.view, fun h =>
    ⟨fun ttl now heq => absurd heq (hc ttl now), h, fun ttl now heq => absurd heq (hc ttl now)⟩⟩

theorem idleReap_keepsParent_iff (h : Owned n.mounts)
    (hview : n.parentMounted = n.parentRecordMounted) :
    KeepsParent cfg n (.idleReap ttl now) (n.idleReap ttl now).1 ↔
      (n.mounts.find n.parentId).any (expired ttl now) = false := by
  have hfinds : ∀ id, (n.idleReap ttl now).1.mounts.find id =
      if (n.mounts.find id).any (expired ttl now) then none else n.mounts.find id :=
    fun id => idle_find h
  refine ⟨fun hk => ?_, fun hkept => ⟨?_, ?_, ?_⟩⟩
  · by_contra hexp
    rw [Bool.not_eq_false] at hexp
    cases hfind : n.mounts.find n.parentId with
    | none =>
      rw [hfind] at hexp
      cases hexp
    | some r =>
      have hstays := (hk.parent ttl now rfl r hfind).1
      rw [hfinds, if_pos hexp] at hstays
      cases hstays
  · rintro ttl' now' heq r hfind
    have hnot : expired ttl now r = false := by
      rw [hfind] at hkept
      exact hkept
    refine ⟨?_, ?_⟩
    · rw [hfinds, hkept]
      exact hfind
    · rw [h.isMounted hfind]
      have hmounted := idle_isMounted ttl now h hfind
      rw [hnot] at hmounted
      exact hmounted
  · have howned : Owned (n.idleReap ttl now).1.mounts := h.idle
    have hsame : (n.idleReap ttl now).1.mounts.find n.parentId = n.mounts.find n.parentId := by
      rw [hfinds, hkept]
      rfl
    have hparent : (n.idleReap ttl now).1.parentId = n.parentId := rfl
    rw [parentRecordMounted_eq howned, hparent, hsame, ← parentRecordMounted_eq h]
    exact hview
  · intro ttl' now' heq id
    obtain ⟨rfl, rfl⟩ := NestedCall.idleReap.inj heq
    have hanswer : (nestedCall cfg n (.idleReap ttl now)).2 =
        ((n.mounts.records.map (·.1)).filter fun j =>
          (n.mounts.find j).any (expired ttl now)).filter (· ≠ n.parentId) := by
      show (idleUnmountExpired n.mounts ttl now).2.filter (· ≠ n.parentId) = _
      rw [idle_ids h]
    rw [hanswer, List.mem_filter, List.mem_filter, Lib.mem_keys_iff, decide_eq_true_iff]
    refine ⟨fun hid => ?_, fun hid => ?_⟩
    · obtain ⟨⟨-, hexp⟩, -⟩ := hid
      cases hfind : n.mounts.find id with
      | none =>
        rw [hfind] at hexp
        cases hexp
      | some r =>
        rw [hfind] at hexp
        have hmounted := idle_isMounted ttl now h hfind
        have hexp' : expired ttl now r = true := hexp
        rw [hexp'] at hmounted
        exact ⟨r, rfl, h.isMounted hfind, hmounted⟩
    · obtain ⟨r, hfind, -, hgone⟩ := hid
      have hmounted := idle_isMounted ttl now h hfind
      have hgone' : (idleUnmountExpired n.mounts ttl now).1.isMounted r.handle = false := hgone
      rw [hgone'] at hmounted
      have hexp : expired ttl now r = true := by
        simpa using hmounted.symm
      refine ⟨⟨?_, ?_⟩, ?_⟩
      · show (n.mounts.find id).isSome = true
        rw [hfind]
        rfl
      · rw [hfind]
        exact hexp
      · rintro rfl
        rw [hfind, Option.any_some, hexp] at hkept
        cases hkept

/-- **One call** keeps the parent view exactly when it is one that may. -/
theorem nestedStep_keepsParent_iff (h : Owned n.mounts)
    (hview : n.parentMounted = n.parentRecordMounted) (c : NestedCall) :
    KeepsParent cfg n c (nestedStep cfg n c) ↔ nestedOk cfg n c = true := by
  have howned := nestedStep_owned cfg h c
  have hrecord := parentRecordMounted_eq howned
  rw [nestedStep_parentId] at hrecord
  have hbefore : n.parentMounted = (n.mounts.find n.parentId).isSome :=
    hview.trans (parentRecordMounted_eq h)
  cases c with
  | mountParent m site =>
    have hmounts : (nestedStep cfg n (.mountParent m site)).mounts = (mount cfg n.mounts m site).1 :=
      congrArg NestedMountManager.mounts mountParent_eq
    have hflag : (nestedStep cfg n (.mountParent m site)).parentMounted =
        (n.parentMounted || (mount cfg n.mounts m site).2.isOk) :=
      congrArg NestedMountManager.parentMounted mountParent_eq
    rw [keepsParent_iff_view fun _ _ heq => (by cases heq), hrecord, hmounts, mount_isSome _ _ _ h,
      hflag, mount_isOk _ _ _ h, ← hbefore]
    have hok : nestedOk cfg n (.mountParent m site) =
        (n.parentMounted || decide (m.id = n.parentId) || !Mountable cfg n.mounts m) := rfl
    rw [hok]
    cases n.parentMounted <;> cases Mountable cfg n.mounts m <;>
      cases decide (m.id = n.parentId) <;> decide
  | accessChild m site =>
    have hmounts : (nestedStep cfg n (.accessChild m site)).mounts = (mount cfg n.mounts m site).1 :=
      rfl
    have hflag : (nestedStep cfg n (.accessChild m site)).parentMounted = n.parentMounted := rfl
    rw [keepsParent_iff_view fun _ _ heq => (by cases heq), hrecord, hmounts, mount_isSome _ _ _ h,
      hflag, ← hbefore]
    have hok : nestedOk cfg n (.accessChild m site) =
        (n.parentMounted || decide (m.id ≠ n.parentId) || !Mountable cfg n.mounts m) := rfl
    rw [hok, decide_not]
    cases n.parentMounted <;> cases Mountable cfg n.mounts m <;>
      cases decide (m.id = n.parentId) <;> decide
  | releaseChild id now =>
    rw [keepsParent_iff_view fun _ _ heq => (by cases heq), hrecord]
    have hsame : ((nestedStep cfg n (.releaseChild id now)).mounts.find n.parentId).isSome =
        (n.mounts.find n.parentId).isSome := release_isSome id n.parentId
    rw [hsame]
    exact ⟨fun _ => rfl, fun _ => hbefore⟩
  | releaseParent now =>
    rw [keepsParent_iff_view fun _ _ heq => (by cases heq), hrecord]
    have hsame : ((nestedStep cfg n (.releaseParent now)).mounts.find n.parentId).isSome =
        (n.mounts.find n.parentId).isSome := release_isSome n.parentId n.parentId
    rw [hsame]
    exact ⟨fun _ => rfl, fun _ => hbefore⟩
  | idleReap ttl now =>
    have hok : nestedOk cfg n (.idleReap ttl now) =
        !(n.mounts.find n.parentId).any (expired ttl now) := rfl
    rw [hok, Bool.not_eq_true']
    exact idleReap_keepsParent_iff h hview

/-! ### Runs -/

/-- **The nested reaper keeps the parent view** in a run, from a table in which the parent is not
    mounted, exactly when every call of the run is one that may. -/
theorem nested_keepsParent_iff (cfg : ManagerConfig) {start t : NestedMountManager}
    {tr : List (Lib.Trans NestedMountManager NestedCall)} (howned : Owned start.mounts)
    (hflag : start.parentMounted = false) (hnone : start.mounts.find start.parentId = none)
    (hrun : Lib.Run (fun a c b => b = nestedStep cfg a c) start tr t) :
    (∀ x ∈ tr, KeepsParent cfg x.pre x.ev x.post) ↔ ∀ x ∈ tr, nestedOk cfg x.pre x.ev = true := by
  have hstart : Owned start.mounts ∧ start.parentMounted = start.parentRecordMounted := by
    refine ⟨howned, ?_⟩
    rw [parentRecordMounted_eq howned, hflag, hnone]
    rfl
  have hpost : ∀ x ∈ tr, x.post = nestedStep cfg x.pre x.ev := fun x hx => hrun.isStep x hx
  -- both conditions keep the flag true to the record, so each call may be judged by itself
  have hviews : (∀ x ∈ tr, KeepsParent cfg x.pre x.ev (nestedStep cfg x.pre x.ev)) →
      ∀ x ∈ tr, Owned x.pre.mounts ∧ x.pre.parentMounted = x.pre.parentRecordMounted := by
    intro hok x hx
    have hinv := Lib.Run.invariant hrun
      (I := fun n => Owned n.mounts ∧ n.parentMounted = n.parentRecordMounted)
      (G := fun a c => KeepsParent cfg a c (nestedStep cfg a c)) hstart
      (fun a c b ha hk hb => hb ▸ ⟨nestedStep_owned cfg ha.1 c, hk.view⟩) hok
    exact (hinv.2 x hx).1
  refine ⟨fun h x hx => ?_, fun h x hx => ?_⟩
  · have hall : ∀ y ∈ tr, KeepsParent cfg y.pre y.ev (nestedStep cfg y.pre y.ev) :=
      fun y hy => hpost y hy ▸ h y hy
    obtain ⟨ho, hv⟩ := hviews hall x hx
    exact (nestedStep_keepsParent_iff ho hv x.ev).mp (hall x hx)
  · have hinv := Lib.Run.invariant hrun
      (I := fun n => Owned n.mounts ∧ n.parentMounted = n.parentRecordMounted)
      (G := fun a c => nestedOk cfg a c = true) hstart
      (fun a c b ha hk hb => hb ▸ ⟨nestedStep_owned cfg ha.1 c,
        ((nestedStep_keepsParent_iff ha.1 ha.2 c).mpr hk).view⟩) h
    obtain ⟨ho, hv⟩ := (hinv.2 x hx).1
    rw [hpost x hx]
    exact (nestedStep_keepsParent_iff ho hv x.ev).mpr (h x hx)

end Nested

/-- A parent with one pack. -/
def dataset : ChildManifest where
  id := "dataset"
  name := "dataset"
  type := "dataset"
  generation := 1
  packStack := { lowers := [{ path := "packs/dataset.sqfs", sha256 := "", size := 4 }] }

def datasetView : NestedMountManager := { mounts := {}, parentId := "dataset" }

/-- While somebody uses the parent the reaper leaves it. -/
theorem nested_keepsParent_dataset :
    KeepsParent { mountsDir := "/run" }
      (nestedStep { mountsDir := "/run" } datasetView (.mountParent dataset {}))
      (.idleReap 300 900)
      (nestedStep { mountsDir := "/run" }
        (nestedStep { mountsDir := "/run" } datasetView (.mountParent dataset {}))
        (.idleReap 300 900)) := by
  have hall := (nested_keepsParent_iff { mountsDir := "/run" } Owned.start rfl rfl
    (.step (.step (s := datasetView) (e := .mountParent dataset {}) .start rfl)
      (e := .idleReap 300 900) rfl)).mpr (by decide +kernel)
  exact hall _ (List.mem_append_right _ (List.mem_singleton_self _))

/-- The parent is released and the reaper comes. -/
theorem releasedParent_reaped :
    ¬ ∀ tr t, Lib.Run (fun a c b => b = nestedStep { mountsDir := "/run" } a c) datasetView tr t →
      ∀ x ∈ tr, KeepsParent { mountsDir := "/run" } x.pre x.ev x.post := by
  intro h
  have hkeeps := h _ _ (.step (.step (.step .start (e := .mountParent dataset {}) rfl)
    (e := .releaseParent 1) rfl) (e := .idleReap 300 900) rfl) _
    (List.mem_append_right _ (List.mem_singleton_self _))
  have hview := hkeeps.view
  revert hview
  decide +kernel

end CccStorage.ChildMounts
