/-
  File:      CccStorage/MountTree.lean
  Subject:   `MountdService.handle_mount_tree` (`mountd/daemon.py`): a parent and the children of its
             boundaries are mounted one after another.

  Every look-up, recall and mount may fail, at every position of the list; a `Visit` says what one
  of them meets.

  * `mountAtTrying` -- `_mount_at_unlocked` whose pack mount may fail;
  * `handleMountTree`, `mountBoundaries` -- the call;
  * `SameMounts` -- the records, their handles and their references are as before;
  * `mountAtTrying_does`, `mountBoundaries_grows` -- what one mount adds, and that none takes away;
  * `failedTree_keeps_iff` -- a call that raises leaves the mounts exactly when it raises before the
    parent is mounted.
-/
import CccStorage.LazyMounts
import CccStorage.PathTexts

namespace CccStorage.ChildMounts

/-! ## 1. The call -/

inductive TreeError where
  | notFound (selector : String)
  | recallFailed (id : String)
  | refused (e : ChildMountError)
  /-- The mountpoint cannot be made, or a pack cannot be mounted. -/
  | packMount (id : String)
  /-- The status of the parent cannot be read. -/
  | status
  deriving DecidableEq

/-- What one mount of the tree meets: `_find`, `_ensure_hot`, the mountpoint and the pack mount. -/
structure Visit where
  find : String → Option ChildManifest
  ensureHot : ChildManifest → Option ChildManifest := some
  site : MountSite := {}
  packFails : Bool := false

/-- `self._ensure_hot(self._find(selector))`. -/
def Visit.manifest (v : Visit) (selector : String) : Except TreeError ChildManifest :=
  match v.find selector with
  | none => .error (.notFound selector)
  | some found =>
    match v.ensureHot found with
    | none => .error (.recallFailed found.id)
    | some m => .ok m

/-- `_mount_at_unlocked` where the child is not mounted; the pack mount may fail. -/
def mountNew (s : ChildMountManager) (m : ChildManifest) (mountpoint : String)
    (requireExisting : Bool) (v : Visit) : ChildMountManager × Except TreeError MountRecord :=
  if m.lowers = [] then (s, .error (.refused (.noLowers m.id)))
  else if requireExisting && !v.site.isDir then
    (s, .error (.refused (.notDirectory m.id mountpoint)))
  else if v.packFails then (s, .error (.packMount m.id))
  else
    let x := s.register (newRecord m mountpoint .ro v.site.now)
    (x.1, .ok x.2)

/-- `mount_at`. -/
def mountAtTrying (s : ChildMountManager) (m : ChildManifest) (mountpoint : String)
    (requireExisting : Bool) (v : Visit) : ChildMountManager × Except TreeError MountRecord :=
  match reuseExisting s m mountpoint .ro true v.site.now with
  | (s, .error e) => (s, .error (.refused e))
  | (s, .ok (some existing)) => (s, .ok existing)
  | (s, .ok none) => mountNew s m mountpoint requireExisting v

structure NestedMount where
  id : String
  path : String
  mountpoint : String
  mounted : Bool

/-- `mountpoint / path`, for a relative path. -/
def under (mountpoint path : String) : String :=
  if normalizeText path = "." then mountpoint else mountpoint ++ "/" ++ normalizeText path

/-- The loop over `child_boundaries`; the boundaries are the visits from `i` on. -/
def mountBoundaries (visits : Nat → Visit) (root : String) :
    Nat → List ChildBoundary → ChildMountManager → List NestedMount →
      ChildMountManager × Except TreeError (List NestedMount)
  | _, [], s, nested => (s, .ok nested)
  | i, boundary :: boundaries, s, nested =>
    match (visits i).manifest boundary.childId with
    | .error e => (s, .error e)
    | .ok child =>
      let boundaryPath := stripSlashes boundary.path
      match mountAtTrying s child (under root boundaryPath) true (visits i) with
      | (s, .error e) => (s, .error e)
      | (s, .ok record) =>
        mountBoundaries visits root (i + 1) boundaries s (nested ++ [{
          id := child.id
          path := boundaryPath
          mountpoint := record.mountpoint
          mounted := s.isMounted record.handle }])

/-- `handle_mount_tree`: the parent is the first visit. -/
def handleMountTree (cfg : ManagerConfig) (visits : Nat → Visit) (statusFails : Bool)
    (s : ChildMountManager) (selector : String) :
    ChildMountManager × Except TreeError (List NestedMount) :=
  match (visits 0).manifest selector with
  | .error e => (s, .error e)
  | .ok parent =>
    match mountAtTrying s parent (mountpointOf cfg parent) false (visits 0) with
    | (s, .error e) => (s, .error e)
    | (s, .ok record) =>
      match mountBoundaries visits record.mountpoint 1 parent.childBoundaries s [] with
      | (s, .error e) => (s, .error e)
      | (s, .ok nested) => if statusFails then (s, .error .status) else (s, .ok nested)

/-- The mount records, their handles and their references are the same. -/
def SameMounts (s t : ChildMountManager) : Prop :=
  t.handles = s.handles ∧ ∀ id, (t.find id).map (fun r => (r.handle, r.refcount)) =
    (s.find id).map fun r => (r.handle, r.refcount)

/-- The parent itself is not mounted: it is unknown, its recall fails, it is mounted otherwise, it has
    no pack, or a pack cannot be mounted. -/
def parentFails (cfg : ManagerConfig) (v : Visit) (s : ChildMountManager) (selector : String) :
    Bool :=
  match v.manifest selector with
  | .error _ => true
  | .ok parent =>
    match (s.find parent.id).filter fun r => s.isMounted r.handle with
    | none => decide (parent.lowers = []) || v.packFails
    | some r => !(decide (r.mountpoint = mountpointOf cfg parent) && decide (r.mode = .ro) &&
        decide (r.writePolicy = parent.writePolicy))

/-! ## 2. What a mount adds -/

section Tree

variable {cfg : ManagerConfig} {s t u : ChildMountManager} {m : ChildManifest}
  {mountpoint selector root : String} {requireExisting statusFails : Bool} {v : Visit}
  {visits : Nat → Visit} {e : TreeError}

/-- Without a failure of the pack mount it is `_mount_at_unlocked`. -/
theorem mountAtTrying_eq (hpack : v.packFails = false) :
    mountAtTrying s m mountpoint requireExisting v =
      ((mountAtUnlocked s m mountpoint requireExisting true v.site).1,
        (mountAtUnlocked s m mountpoint requireExisting true v.site).2.mapError .refused) := by
  unfold mountAtTrying mountAtUnlocked
  rcases reuseExisting s m mountpoint .ro true v.site.now with ⟨s', e | _ | existing⟩
  · rfl
  · dsimp only
    unfold mountNew
    by_cases hlowers : m.lowers = []
    · rw [if_pos hlowers, if_pos hlowers]
      rfl
    · rw [if_neg hlowers, if_neg hlowers]
      by_cases hdir : (requireExisting && !v.site.isDir) = true
      · rw [if_pos hdir, if_pos hdir]
        rfl
      · rw [if_neg hdir, if_neg hdir, hpack]
        rfl
  · rfl

/-- No handle is lost, and without a new one no record loses a reference. -/
def Grows (s t : ChildMountManager) : Prop :=
  s.handles.length ≤ t.handles.length ∧ (t.handles.length = s.handles.length →
    ∀ id r, s.find id = some r → ∃ r', t.find id = some r' ∧ r.refcount ≤ r'.refcount)

theorem Grows.refl (s : ChildMountManager) : Grows s s :=
  ⟨le_rfl, fun _ _ r hr => ⟨r, hr, le_rfl⟩⟩

theorem Grows.trans (h : Grows s t) (h' : Grows t u) : Grows s u := by
  have hle := h.1
  have hle' := h'.1
  refine ⟨hle.trans hle', fun heq id r hr => ?_⟩
  obtain ⟨r', hr', hcount⟩ := h.2 (by omega) id r hr
  obtain ⟨r'', hr'', hcount'⟩ := h'.2 (by omega) id r' hr'
  exact ⟨r'', hr'', hcount.trans hcount'⟩

/-- A mount that is made: there is a new handle, or the child has one reference more. -/
def Adds (s t : ChildMountManager) (id : String) : Prop :=
  s.handles.length < t.handles.length ∨
    ∃ r r', s.find id = some r ∧ t.find id = some r' ∧ r.refcount < r'.refcount

theorem mountNew_does (s : ChildMountManager) (m : ChildManifest) (mountpoint : String)
    (requireExisting : Bool) (v : Visit) :
    (∃ e, mountNew s m mountpoint requireExisting v = (s, .error e)) ∨
    ∃ t r, mountNew s m mountpoint requireExisting v = (t, .ok r) ∧ Grows s t ∧ Adds s t m.id := by
  unfold mountNew
  by_cases hlowers : m.lowers = []
  · rw [if_pos hlowers]
    exact .inl ⟨_, rfl⟩
  · rw [if_neg hlowers]
    by_cases hdir : (requireExisting && !v.site.isDir) = true
    · rw [if_pos hdir]
      exact .inl ⟨_, rfl⟩
    · rw [if_neg hdir]
      by_cases hpack : v.packFails = true
      · rw [if_pos hpack]
        exact .inl ⟨_, rfl⟩
      · rw [if_neg hpack]
        have hlength : (s.register (newRecord m mountpoint .ro v.site.now)).1.handles.length =
            s.handles.length + 1 := List.length_append
        exact .inr ⟨_, _, rfl, ⟨by omega, fun heq => by omega⟩, .inl (by omega)⟩

/-- **One mount** changes nothing, or adds a mount. -/
theorem mountAtTrying_does (s : ChildMountManager) (m : ChildManifest) (mountpoint : String)
    (requireExisting : Bool) (v : Visit) :
    (∃ e, mountAtTrying s m mountpoint requireExisting v = (s, .error e)) ∨
    ∃ t r, mountAtTrying s m mountpoint requireExisting v = (t, .ok r) ∧ Grows s t ∧
      Adds s t m.id := by
  unfold mountAtTrying reuseExisting
  cases hfind : s.find m.id with
  | none => exact mountNew_does s m mountpoint requireExisting v
  | some existing =>
    dsimp only
    by_cases hmounted : (!s.isMounted existing.handle) = true
    · rw [if_pos hmounted]
      exact mountNew_does s m mountpoint requireExisting v
    · rw [if_neg hmounted]
      by_cases hat : existing.mountpoint ≠ mountpoint
      · rw [if_pos hat]
        exact .inl ⟨_, rfl⟩
      · rw [if_neg hat]
        by_cases hmode : existing.mode ≠ .ro
        · rw [if_pos hmode]
          exact .inl ⟨_, rfl⟩
        · rw [if_neg hmode]
          by_cases hpolicy : existing.writePolicy ≠ m.writePolicy
          · rw [if_pos hpolicy]
            exact .inl ⟨_, rfl⟩
          · rw [if_neg hpolicy]
            refine .inr ⟨_, _, rfl, ⟨le_rfl, fun _ id r hr => ?_⟩,
              .inr ⟨existing, _, hfind, find_put.trans (if_pos rfl), ?_⟩⟩
            · by_cases hid : id = m.id
              · rw [hid, hfind] at hr
                obtain rfl := Option.some.inj hr
                refine ⟨_, find_put.trans (if_pos hid), ?_⟩
                show existing.refcount ≤ existing.refcount + 1
                omega
              · exact ⟨r, find_put.trans ((if_neg hid).trans hr), le_rfl⟩
            · show existing.refcount < existing.refcount + 1
              omega

/-- **The loop takes nothing away**, wherever it ends. -/
theorem mountBoundaries_grows (visits : Nat → Visit) (root : String) (i : Nat)
    (boundaries : List ChildBoundary) (s : ChildMountManager) (nested : List NestedMount) :
    Grows s (mountBoundaries visits root i boundaries s nested).1 := by
  induction boundaries generalizing i s nested with
  | nil => exact .refl s
  | cons boundary boundaries ih =>
    unfold mountBoundaries
    cases (visits i).manifest boundary.childId with
    | error e => exact .refl s
    | ok child =>
      dsimp only
      obtain ⟨e, heq⟩ | ⟨t, r, heq, hgrows, -⟩ := mountAtTrying_does s child
        (under root (stripSlashes boundary.path)) true (visits i)
      · rw [heq]
        exact .refl s
      · rw [heq]
        exact hgrows.trans (ih _ _ _)

/-- What was added does not go away again. -/
theorem Adds.not_same {id : String} (h : Adds s t id) (hfirst : Grows s t) (hrest : Grows t u) :
    ¬ SameMounts s u := by
  intro hsame
  have hlength : u.handles.length = s.handles.length := congrArg List.length hsame.1
  have hle := hfirst.1
  have hle' := hrest.1
  rcases h with hnew | ⟨r, r', hr, hr', hcount⟩
  · omega
  · obtain ⟨r'', hr'', hcount'⟩ := hrest.2 (by omega) id r' hr'
    have hview := hsame.2 id
    rw [hr, hr'', Option.map_some, Option.map_some] at hview
    have hrefs : r''.refcount = r.refcount := congrArg Prod.snd (Option.some.inj hview)
    omega

/-- When the parent's own mount fails. -/
theorem parent_isOk (cfg : ManagerConfig) (s : ChildMountManager) (parent : ChildManifest) (v : Visit)
    (selector : String) (hparent : v.manifest selector = .ok parent) :
    (mountAtTrying s parent (mountpointOf cfg parent) false v).2.isOk =
      !parentFails cfg v s selector := by
  have hnew : (mountNew s parent (mountpointOf cfg parent) false v).2.isOk =
      !(decide (parent.lowers = []) || v.packFails) := by
    unfold mountNew
    by_cases hlowers : parent.lowers = []
    · simp only [hlowers, ↓reduceIte, decide_true, Bool.true_or, Bool.not_true]
      rfl
    · cases hpack : v.packFails with
      | true =>
        simp only [hlowers, ↓reduceIte, Bool.false_and, Bool.false_eq_true, Bool.or_true,
          Bool.not_true]
        rfl
      | false =>
        simp only [hlowers, ↓reduceIte, Bool.false_and, Bool.false_eq_true, decide_false,
          Bool.or_self, Bool.not_false]
        rfl
  unfold mountAtTrying reuseExisting parentFails
  rw [hparent]
  dsimp only
  cases hfind : s.find parent.id with
  | none => exact hnew
  | some r =>
    cases hmounted : s.isMounted r.handle with
    | false =>
      have hfilter : (some r).filter (fun r => s.isMounted r.handle) = none := by
        simp [Option.filter, hmounted]
      rw [hfilter]
      simp only [hmounted, Bool.not_false, ↓reduceIte]
      exact hnew
    | true =>
      have hfilter : (some r).filter (fun r => s.isMounted r.handle) = some r := by
        simp [Option.filter, hmounted]
      rw [hfilter]
      simp only [hmounted, Bool.not_true, Bool.false_eq_true, ↓reduceIte]
      by_cases hat : r.mountpoint = mountpointOf cfg parent
      · by_cases hmode : r.mode = .ro
        · by_cases hpolicy : r.writePolicy = parent.writePolicy
          · simp only [hat, hmode, hpolicy, ne_eq, not_true_eq_false, ↓reduceIte, decide_true,
              Bool.and_self, Bool.not_true, Bool.not_false]
            rfl
          · simp only [hat, hmode, hpolicy, ne_eq, not_true_eq_false, not_false_eq_true,
              ↓reduceIte, decide_false, Bool.and_false, Bool.not_false, Bool.not_true]
            rfl
        · simp only [hat, hmode, ne_eq, not_true_eq_false, not_false_eq_true, ↓reduceIte,
            decide_false, Bool.and_false, Bool.false_and, Bool.not_false, Bool.not_true]
          rfl
      · simp only [hat, ne_eq, not_false_eq_true, ↓reduceIte, decide_false, Bool.false_and,
          Bool.not_false, Bool.not_true]
        rfl

/-! ## 3. A call that raises -/

/-- **A mount tree that fails** leaves the mounts as they were exactly when the parent itself was not
    mounted: there is no way back from a later boundary. -/
theorem failedTree_keeps_iff (cfg : ManagerConfig) (visits : Nat → Visit) (statusFails : Bool)
    (s : ChildMountManager) (selector : String) {e : TreeError}
    (hraise : (handleMountTree cfg visits statusFails s selector).2 = .error e) :
    SameMounts s (handleMountTree cfg visits statusFails s selector).1 ↔
      parentFails cfg (visits 0) s selector = true := by
  cases hparent : (visits 0).manifest selector with
  | error e' =>
    have heq : handleMountTree cfg visits statusFails s selector = (s, .error e') := by
      unfold handleMountTree
      rw [hparent]
    have hfails : parentFails cfg (visits 0) s selector = true := by
      unfold parentFails
      rw [hparent]
    rw [heq]
    exact ⟨fun _ => hfails, fun _ => ⟨rfl, fun _ => rfl⟩⟩
  | ok parent =>
    have hok := parent_isOk cfg s parent (visits 0) selector hparent
    obtain ⟨e', heq⟩ | ⟨t, r, heq, hgrows, hadds⟩ :=
      mountAtTrying_does s parent (mountpointOf cfg parent) false (visits 0)
    · rw [heq] at hok
      have hno : (!parentFails cfg (visits 0) s selector) = false := hok.symm
      have hfails : parentFails cfg (visits 0) s selector = true := by simpa using hno
      have hcall : handleMountTree cfg visits statusFails s selector = (s, .error e') := by
        unfold handleMountTree
        rw [hparent]
        dsimp only
        rw [heq]
      rw [hcall]
      exact ⟨fun _ => hfails, fun _ => ⟨rfl, fun _ => rfl⟩⟩
    · rw [heq] at hok
      have hyes : (!parentFails cfg (visits 0) s selector) = true := hok.symm
      have hfails : parentFails cfg (visits 0) s selector = false := by simpa using hyes
      have hrest := mountBoundaries_grows visits r.mountpoint 1 parent.childBoundaries t []
      have hcall : (handleMountTree cfg visits statusFails s selector).1 =
          (mountBoundaries visits r.mountpoint 1 parent.childBoundaries t []).1 := by
        unfold handleMountTree
        rw [hparent]
        dsimp only
        rw [heq]
        dsimp only
        rcases mountBoundaries visits r.mountpoint 1 parent.childBoundaries t [] with ⟨u, e' | nested⟩
        · rfl
        · cases statusFails <;> rfl
      rw [hcall, hfails]
      exact ⟨fun hsame => absurd hsame (hadds.not_same hgrows hrest), fun hno => by cases hno⟩

end Tree

/-- A parent whose boundary names a child that is not registered. -/
def danglingTree : ChildManifest :=
  { dataset with childBoundaries := [{ path := "envs/base", childId := "env:base" }] }

def danglingVisits (_ : Nat) : Visit where
  find := fun selector => if selector = "dataset" then some danglingTree else none

theorem failedTree_keeps_dangling :
    ¬ SameMounts {} (handleMountTree { mountsDir := "/run" } danglingVisits false {} "dataset").1 := by
  intro hsame
  have hfails := (failedTree_keeps_iff { mountsDir := "/run" } danglingVisits false {} "dataset"
    (e := .notFound "env:base") rfl).mp hsame
  revert hfails
  decide +kernel

/-- The parent stays mounted when its boundary's child is not there. -/
theorem danglingTree_staysMounted :
    ¬ ∀ visits statusFails s selector e,
      (handleMountTree { mountsDir := "/run" } visits statusFails s selector).2 = .error e →
      SameMounts s (handleMountTree { mountsDir := "/run" } visits statusFails s selector).1 := by
  intro h
  have hhandles := (h danglingVisits false {} "dataset" (.notFound "env:base") rfl).1
  revert hhandles
  decide +kernel

end CccStorage.ChildMounts
