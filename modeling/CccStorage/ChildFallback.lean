/-
  File:      CccStorage/ChildFallback.lean
  Subject:   The dispatcher's operations on a path of a registered child
             (`mountd/dispatcher_fuse.py`), whatever the access to the child answers.

  `_private_child_path` tells "no child" from a failed access by four phrases in the text of the
  error. A missing tool or object, and any quoted name with such a phrase in it, sends the operation
  to the placeholder directory; so does a path with the reserved name in it.

  * `ChildPath`, `RegisteredView` -- a path at or below the boundary, and what a call meets there;
  * `CoreOp`, `StaysInView` -- the operations, and that they act in the child's mounted view or fail;
  * `RegisteredView.Settled` -- the condition on the path, the placeholder and the access;
  * `childView_iff` -- the operations stay in the view exactly when every call is settled;
  * `missingTool_unlinks` -- a host without `fuse-overlayfs`.
-/
import CccStorage.ChildAccess
import CccStorage.HiddenState

namespace CccStorage.Observe

open Lib (Program Keeps exec exec_bind exec_tryCatch)

/-! ## 1. Paths of a registered child -/

/-- **A path at or below the boundary of a child** of one of the roots. -/
structure ChildPath (d : Dispatcher) where
  rel : Path
  root : ObservationStorage
  child : String
  inner : Path
  route : routePath d.roots (d.mountPath rel) = .ok (root, child :: inner)
  safe : rel.any unsafePart = false
  notState : child ≠ root.stateSubdir

/-- **What one call meets**: the child is registered, and the mount of its access is the one of
    `accessPrivate`. Private mounts are not made above the source tree. -/
structure RegisteredView {d : Dispatcher} (p : ChildPath d) extends HostView where
  record : ObservedManifest
  registered : manifest p.root p.child = some record
  host : AccessHost
  childManifest : ChildManifest
  mounts : mountRw p.root p.child = (accessPrivate host childManifest).mapError AccessError.raised
  apart : ∀ mountpoint, mountRw p.root p.child = .ok (some mountpoint) →
    ¬ mountpoint <+: d.root.sourceRoot ++ p.rel

/-- An access with a mountpoint, or with an error that is not taken for "no child". -/
def SettledAccess : Access (Option Path) → Prop
  | .ok mountpoint => mountpoint ≠ none
  | .error (.failure f) => ∀ c ∈ f.pieces, ¬ Confusing c
  | .error _ => True

instance : DecidablePred SettledAccess
  | .ok mountpoint => inferInstanceAs (Decidable (mountpoint ≠ none))
  | .error (.failure f) => inferInstanceAs (Decidable (∀ c ∈ f.pieces, ¬ Confusing c))
  | .error (.os _) | .error .keyError => isTrue trivial

section Views

variable {d : Dispatcher} {p : ChildPath d}

/-- **The condition**: the path has no reserved name in it, the placeholder directory is there, and
    the access is settled. -/
structure RegisteredView.Settled (v : RegisteredView p) : Prop where
  plain : reservedName ∉ p.rel
  placeholder : v.isDir (p.root.sourceRoot ++ [p.child]) = true
  access : SettledAccess (accessPrivate v.host v.childManifest)

theorem ChildPath.rel_ne_nil (p : ChildPath d) : p.rel ≠ [] := by
  intro hnil
  obtain ⟨-, hown | hother⟩ := routePath_spec p.route
  · exact absurd (hown.2.trans hnil) (List.cons_ne_nil _ _)
  · rw [hnil] at hother
    exact absurd (List.suffix_nil.mp hother.2) (List.cons_ne_nil _ _)

theorem ChildPath.routed_safe (p : ChildPath d) : (p.child :: p.inner).any unsafePart = false := by
  have hsub : ∀ part ∈ p.child :: p.inner, part ∈ p.rel := by
    intro part hpart
    obtain ⟨-, hown | hother⟩ := routePath_spec p.route
    · exact hown.2 ▸ hpart
    · exact List.mem_of_mem_tail (hother.2.subset hpart)
  have hsafe := p.safe
  rw [List.any_eq_false] at hsafe ⊢
  exact fun part hpart => hsafe part (hsub part hpart)

/-! ## 2. The operations -/

inductive CoreOp where
  | sourcePath
  | entryFor
  | listdir
  | read
  | create
  | unlink
  | mkdir
  deriving DecidableEq, Repr

/-- An operation on a path; `source_path` answers with a place. -/
def CoreOp.run (d : Dispatcher) (env : Nat → HostView) (rel : Path) :
    CoreOp → DispatchM (Option Path)
  | .sourcePath => do
    let path ← Observe.sourcePath d (env 0) rel
    pure (some path)
  | .entryFor => do
    let _ ← Observe.entryFor d (env 0) rel
    pure none
  | .listdir => do
    let _ ← Observe.listdir d (env 0) rel
    pure none
  | .read => do
    coreRead d (env 0) rel
    pure none
  | .create => do
    let _ ← createAt d env rel
    pure none
  | .unlink => do
    unlinkAt d (env 0) rel
    pure none
  | .mkdir => do
    let _ ← coreMkdir d (env 0) rel
    pure none

variable (env : Nat → RegisteredView p)

/-- The place of a path in the child's mounted view, as one of the calls finds it. -/
def PlaceInView (q : Path) : Prop :=
  ∃ k mountpoint path, (env k).mountRw p.root p.child = .ok (some mountpoint) ∧
    mountpoint <+: path ∧ (q = (env k).leadsTo path ∨ q = (env k).entryOf path)

/-- The mount itself aside, an operation shows and changes places in the view only. -/
def TouchInView : Touch → Prop
  | .mounted _ => True
  | t => ∀ q ∈ t.paths, PlaceInView env q

def LogInView (s : FuseState) : Prop := ∀ t ∈ s.touched, TouchInView env t

/-- **The operation started at the `k`-th call acts in the mounted view, or fails**, and a place it
    answers is in the view of that call. -/
def StaysInView (k : Nat) (op : CoreOp) : Prop :=
  Keeps (LogInView env) (op.run d (fun j => (env (k + j)).toHostView) p.rel) fun answer =>
    ∀ path ∈ answer, ∃ mountpoint, (env k).mountRw p.root p.child = .ok (some mountpoint) ∧
      mountpoint <+: path

end Views

/-! ## 3. The access of a call -/

section Access

variable {d : Dispatcher} {p : ChildPath d} (v : RegisteredView p)

theorem access_routed : handleObserveAccessPrivate d v.toHostView p.rel =
    accessChild v.toHostView p.root (p.child :: p.inner) := by
  unfold handleObserveAccessPrivate
  rw [p.route]

theorem resolve_registered {allowMissing : Bool}
    (h : allowMissing = true ∨ v.isDir (p.root.sourceRoot ++ [p.child]) = true) :
    resolveChild v.toHostView p.root (p.child :: p.inner) allowMissing = some p.child := by
  have hthere : ¬ (!allowMissing && !v.isDir (p.root.sourceRoot ++ [p.child])) = true := by
    rcases h with rfl | h
    · exact nofun
    · rw [h, Bool.not_true, Bool.and_false]
      exact nofun
  simp only [resolveChild]
  rw [if_neg (Bool.not_eq_true _ ▸ p.routed_safe), if_neg hthere, if_neg p.notState]

/-- Without the placeholder directory the child is not found. -/
theorem access_missing (h : v.isDir (p.root.sourceRoot ++ [p.child]) = false) :
    accessChild v.toHostView p.root (p.child :: p.inner) =
      throw (.runtime ("observed child not found for path: " ++ relText (p.child :: p.inner))) := by
  have hnone : resolveChild v.toHostView p.root (p.child :: p.inner) false = none := by
    simp only [resolveChild]
    rw [if_neg (Bool.not_eq_true _ ▸ p.routed_safe), if_pos (by rw [h]; rfl)]
  unfold accessChild
  rw [hnone]

/-- With it, the access is the mount. -/
theorem access_mounts (h : v.isDir (p.root.sourceRoot ++ [p.child]) = true) :
    accessChild v.toHostView p.root (p.child :: p.inner) =
      match accessPrivate v.host v.childManifest with
      | .error e => throw e.raised
      | .ok mountpoint => (do
        touch (.mounted (v.entryOf (p.root.sourceRoot ++ [p.child])))
        pure mountpoint) := by
  unfold accessChild
  rw [resolve_registered v (.inr h)]
  simp only [v.registered, v.mounts]
  cases accessPrivate v.host v.childManifest <;> rfl

/-- An error that is not settled is taken for "no child". -/
theorem accessFailure_pure {message : String} (h : FallsBack message) :
    accessFailure (.runtime message) = pure none := if_pos h

theorem fallsBack_missing (rel : Path) :
    FallsBack ("observed child not found for path: " ++ relText rel) := by
  refine ⟨"not found", by decide, ?_⟩
  have htext := hasText_append "observed child " "not found" (" for path: " ++ relText rel)
  rw [← String.append_assoc] at htext
  exact htext

theorem access_unsettled (hplain : reservedName ∉ p.rel) (h : ¬ v.Settled) (s : FuseState) :
    ∃ t, exec (tryCatch (accessChild v.toHostView p.root (p.child :: p.inner)) accessFailure) s =
      (.ok none, t) := by
  rw [exec_tryCatch]
  cases hdir : v.isDir (p.root.sourceRoot ++ [p.child]) with
  | false =>
    rw [access_missing v hdir]
    simp only [Lib.exec_throw, accessFailure_pure (fallsBack_missing _)]
    exact ⟨s, rfl⟩
  | true =>
    rw [access_mounts v hdir]
    have hsettled : ¬ SettledAccess (accessPrivate v.host v.childManifest) := fun haccess =>
      h ⟨hplain, hdir, haccess⟩
    generalize accessPrivate v.host v.childManifest = answer at hsettled
    match answer, hsettled with
    | .ok none, _ => exact ⟨_, rfl⟩
    | .ok (some mountpoint), hsettled => exact absurd nofun hsettled
    | .error (.failure f), hsettled =>
      have hfalls : FallsBack f.text := by
        rw [fallsBack_text_iff]
        by_contra hnone
        push Not at hnone
        exact hsettled hnone
      simp only [Lib.exec_throw, AccessError.raised, accessFailure_pure hfalls]
      exact ⟨s, rfl⟩
    | .error (.os e), hsettled => exact absurd trivial hsettled
    | .error .keyError, hsettled => exact absurd trivial hsettled

/-- **A call that is not settled** answers with the placeholder. -/
theorem sourcePath_unsettled (h : ¬ v.Settled) (s : FuseState) :
    (exec (sourcePath d v.toHostView p.rel) s).1 = .ok (d.root.sourceRoot ++ p.rel) := by
  have hnormal : exec (normalizeRel p.rel) s = (.ok p.rel, s) := by
    unfold normalizeRel
    rw [p.safe]
    rfl
  have hprivate : ∃ t, exec (privateChildPath d v.toHostView p.rel) s = (.ok none, t) := by
    unfold privateChildPath
    rw [exec_bind, hnormal]
    by_cases hplain : reservedName ∈ p.rel
    · simp only [hplain, or_true, if_true]
      exact ⟨s, rfl⟩
    · simp only [hplain, p.rel_ne_nil, or_self, if_false, access_routed]
      obtain ⟨t, ht⟩ := access_unsettled v hplain h s
      rw [exec_bind, ht]
      exact ⟨t, rfl⟩
  obtain ⟨t, ht⟩ := hprivate
  unfold sourcePath
  simp only [exec_bind, hnormal, ht]
  rfl

variable (env : Nat → RegisteredView p)

/-- What a settled call adds to the log is the mount. -/
theorem log_mounted {s : FuseState} {place : Path} (h : LogInView env s) :
    LogInView env (s.log (.mounted place)) := by
  intro t ht
  rcases List.mem_append.mp ht with ht | ht
  · exact h t ht
  · obtain rfl := List.mem_singleton.mp ht
    trivial

theorem accessFailure_throw {message : String} (h : ¬ FallsBack message) :
    accessFailure (.runtime message) = throw (.runtime message) := if_neg h

/-- A settled access mounts the child and answers with its mountpoint, or raises. -/
theorem access_settled (h : v.Settled) :
    Keeps (LogInView env)
      (tryCatch (accessChild v.toHostView p.root (p.child :: p.inner)) accessFailure)
      fun answer => ∃ mountpoint, answer = some mountpoint ∧
        v.mountRw p.root p.child = .ok (some mountpoint) := by
  rw [access_mounts v h.placeholder]
  have hmounts := v.mounts
  have hsettled := h.access
  generalize accessPrivate v.host v.childManifest = answer at hsettled hmounts
  intro s hs
  rw [exec_tryCatch]
  match answer, hsettled, hmounts with
  | .ok none, hsettled, _ => exact absurd rfl hsettled
  | .ok (some mountpoint), _, hmounts =>
    refine ⟨log_mounted env hs, fun answer hanswer => ?_⟩
    obtain rfl := Except.ok.inj hanswer
    exact ⟨mountpoint, rfl, hmounts⟩
  | .error (.failure f), hsettled, _ =>
    have hstays : ¬ FallsBack f.text := by
      rw [fallsBack_text_iff]
      rintro ⟨c, hc, hconfusing⟩
      exact hsettled c hc hconfusing
    simp only [Lib.exec_throw, AccessError.raised, accessFailure_throw hstays]
    exact ⟨hs, nofun⟩
  | .error (.os e), _, _ => exact ⟨hs, nofun⟩
  | .error .keyError, _, _ => exact ⟨hs, nofun⟩

/-- **A settled call** answers with a place in the mounted view, or fails. -/
theorem sourcePath_settled (h : v.Settled) :
    Keeps (LogInView env) (sourcePath d v.toHostView p.rel) fun path =>
      ∃ mountpoint, v.mountRw p.root p.child = .ok (some mountpoint) ∧ mountpoint <+: path := by
  unfold sourcePath
  refine .bind normalizeRel_keeps fun rel hrel => ?_
  subst hrel
  have hprivate : Keeps (LogInView env) (privateChildPath d v.toHostView p.rel) fun answer =>
      ∃ mountpoint, v.mountRw p.root p.child = .ok (some mountpoint) ∧
        answer = some (mountpoint ++ p.rel.tail) := by
    unfold privateChildPath
    refine .bind normalizeRel_keeps fun rel hrel => ?_
    subst hrel
    rw [if_neg (not_or.mpr ⟨p.rel_ne_nil, h.plain⟩), access_routed]
    refine .bind (access_settled v env h) fun answer hanswer => .pure ?_
    obtain ⟨mountpoint, rfl, hmount⟩ := hanswer
    exact ⟨mountpoint, hmount, rfl⟩
  refine .bind hprivate fun answer hanswer => ?_
  obtain ⟨mountpoint, hmount, rfl⟩ := hanswer
  exact .pure ⟨mountpoint, hmount, List.prefix_append _ _⟩

end Access

/-! ## 4. The operations with settled calls -/

section Operations

variable {d : Dispatcher} {p : ChildPath d} {env : Nat → RegisteredView p} {k : Nat}
variable {mountpoint path : Path}

theorem leadsTo_inView (hmount : (env k).mountRw p.root p.child = .ok (some mountpoint))
    (hpath : mountpoint <+: path) : PlaceInView env ((env k).leadsTo path) :=
  ⟨k, mountpoint, path, hmount, hpath, .inl rfl⟩

theorem entryOf_inView (hmount : (env k).mountRw p.root p.child = .ok (some mountpoint))
    (hpath : mountpoint <+: path) : PlaceInView env ((env k).entryOf path) :=
  ⟨k, mountpoint, path, hmount, hpath, .inr rfl⟩

/-- A touch of one place in the view. -/
theorem touch_inView {t : Touch} {q : Path} (hpaths : t.paths = [q]) (hq : PlaceInView env q) :
    Keeps (LogInView env) (touch t) fun _ => True := by
  have htouch : TouchInView env t := by
    unfold TouchInView
    split
    · trivial
    · rw [hpaths]
      exact List.forall_mem_singleton.mpr hq
  refine .update fun s hs t' ht' => ?_
  rcases List.mem_append.mp ht' with ht' | ht'
  · exact hs t' ht'
  · obtain rfl := List.mem_singleton.mp ht'
    exact htouch

variable (h : ∀ k, (env k).Settled)

include h

theorem entryFor_inView (k : Nat) :
    Keeps (LogInView env) (entryFor d (env k).toHostView p.rel) fun _ => True := by
  unfold entryFor
  refine .bind normalizeRel_keeps fun rel hrel => ?_
  subst hrel
  refine .bind (sourcePath_settled (env k) env (h k)) fun path ⟨mountpoint, hmount, hpath⟩ => ?_
  have hshown := touch_inView (t := .attributes ((env k).leadsTo path)) rfl
    (leadsTo_inView hmount hpath)
  rw [if_neg p.rel_ne_nil, if_neg (h k).plain]
  split
  · exact .bind hshown fun _ _ => .pure trivial
  · exact .bind hshown fun _ _ => .pure trivial
  · exact .throw

theorem listdir_inView (k : Nat) :
    Keeps (LogInView env) (listdir d (env k).toHostView p.rel) fun _ => True := by
  unfold listdir
  refine .bind (sourcePath_settled (env k) env (h k)) fun path ⟨mountpoint, hmount, hpath⟩ => ?_
  split
  · refine .bind syscall_keeps fun _ _ => ?_
    exact .bind (touch_inView rfl (leadsTo_inView hmount hpath)) fun _ _ => .pure trivial
  · exact .throw

theorem coreRead_inView (k : Nat) :
    Keeps (LogInView env) (coreRead d (env k).toHostView p.rel) fun _ => True := by
  unfold coreRead
  refine .bind normalizeRel_keeps fun rel hrel => ?_
  subst hrel
  rw [if_neg (h k).plain]
  refine .bind (sourcePath_settled (env k) env (h k)) fun path ⟨mountpoint, hmount, hpath⟩ => ?_
  split
  · exact .bind syscall_keeps fun _ _ => touch_inView rfl (leadsTo_inView hmount hpath)
  · exact .throw

theorem createAt_inView (k : Nat) :
    Keeps (LogInView env) (createAt d (fun j => (env (k + j)).toHostView) p.rel) fun _ => True := by
  unfold createAt
  rw [if_neg (h k).plain]
  refine .bind (sourcePath_settled (env (k + 0)) env (h _)) fun path ⟨_, hmount, hpath⟩ => ?_
  refine .bind syscall_keeps fun _ _ => ?_
  refine .bind (touch_inView rfl (leadsTo_inView hmount hpath)) fun _ _ => ?_
  refine .bind (sourcePath_settled (env (k + 1)) env (h _)) fun path' ⟨_, hmount', hpath'⟩ => ?_
  refine .bind syscall_keeps fun _ _ => ?_
  refine .bind (touch_inView rfl (leadsTo_inView hmount' hpath')) fun _ _ => ?_
  exact .bind (entryFor_inView h (k + 2)) fun _ _ => .pure trivial

theorem unlinkAt_inView (k : Nat) :
    Keeps (LogInView env) (unlinkAt d (env k).toHostView p.rel) fun _ => True := by
  unfold unlinkAt
  rw [if_neg (h k).plain]
  refine .bind (sourcePath_settled (env k) env (h k)) fun path ⟨mountpoint, hmount, hpath⟩ => ?_
  exact .bind syscall_keeps fun _ _ => touch_inView rfl (entryOf_inView hmount hpath)

/-- At the boundary the service refuses: the child is registered. -/
theorem coreMkdir_inView (k : Nat) :
    Keeps (LogInView env) (coreMkdir d (env k).toHostView p.rel) fun _ => True := by
  unfold coreMkdir
  refine .bind normalizeRel_keeps fun rel hrel => ?_
  subst hrel
  rw [if_neg p.rel_ne_nil, if_neg (h k).plain]
  split
  · refine .bind (sourcePath_settled (env k) env (h k)) fun path ⟨_, hmount, hpath⟩ => ?_
    refine .bind syscall_keeps fun _ _ => ?_
    refine .bind (touch_inView rfl (entryOf_inView hmount hpath)) fun _ _ => ?_
    refine .bind syscall_keeps fun _ _ => ?_
    exact .bind (touch_inView rfl (leadsTo_inView hmount hpath)) fun _ _ => .pure trivial
  · refine .bind (Q := fun _ => True) ?_ fun _ _ => .pure trivial
    unfold handleObserveMkdir mkdirChild
    rw [p.route]
    simp only [resolve_registered (env k) (.inl rfl), (env k).registered]
    exact .throw

/-- **Every operation** whose calls are settled. -/
theorem stays_of_settled (k : Nat) (op : CoreOp) : StaysInView env k op := by
  cases op with
  | sourcePath =>
    refine .bind (sourcePath_settled (env k) env (h k)) fun path hpath => .pure ?_
    intro path' hpath'
    obtain rfl := Option.some.inj hpath'
    exact hpath
  | entryFor => exact .bind (entryFor_inView h k) fun _ _ => .pure nofun
  | listdir => exact .bind (listdir_inView h k) fun _ _ => .pure nofun
  | read => exact .bind (coreRead_inView h k) fun _ _ => .pure nofun
  | create => exact .bind (createAt_inView h k) fun _ _ => .pure nofun
  | unlink => exact .bind (unlinkAt_inView h k) fun _ _ => .pure nofun
  | mkdir => exact .bind (coreMkdir_inView h k) fun _ _ => .pure nofun

end Operations

/-- **The operations on a registered child's path stay in its mounted view**, whatever each of their
    calls meets, exactly when every call is settled. -/
theorem childView_iff {d : Dispatcher} {p : ChildPath d} (env : Nat → RegisteredView p) :
    (∀ k op, StaysInView env k op) ↔ ∀ k, (env k).Settled := by
  constructor
  · intro hstays k
    by_contra hunsettled
    have hplaceholder := sourcePath_unsettled (env k) hunsettled .start
    have hanswer : (exec (CoreOp.sourcePath.run d (fun j => (env (k + j)).toHostView) p.rel)
        .start).1 = .ok (some (d.root.sourceRoot ++ p.rel)) := by
      change (exec (sourcePath d (env k).toHostView p.rel >>= fun path => pure (some path))
        .start).1 = _
      rw [exec_bind]
      rcases hexec : exec (sourcePath d (env k).toHostView p.rel) .start with ⟨r, t⟩
      rw [hexec] at hplaceholder
      obtain rfl : r = .ok (d.root.sourceRoot ++ p.rel) := hplaceholder
      rfl
    obtain ⟨-, hin⟩ := hstays k .sourcePath .start (fun t ht => (by cases ht))
    obtain ⟨mountpoint, hmount, hprefix⟩ := hin _ hanswer _ rfl
    exact (env k).apart mountpoint hmount hprefix
  · exact fun h k op => stays_of_settled h k op

/-! ### A host without `fuse-overlayfs` -/

def plainRoot : ObservationStorage := ⟨["data"], ["source"], ".ccc-storage"⟩

def plainDispatcher : Dispatcher where
  roots := [plainRoot]
  root := plainRoot
  served := List.mem_cons_self
  distinct := fun _ hr _ => List.mem_singleton.mp hr
  apart := fun _ hr hne => absurd (List.mem_singleton.mp hr) hne

/-- A file of the child `alpha`, as the dispatcher names it. -/
def alphaNotes : ChildPath plainDispatcher where
  rel := ["alpha", "notes"]
  root := plainRoot
  child := "alpha"
  inner := ["notes"]
  route := by rfl
  safe := by decide +kernel
  notState := by decide

/-- The child, before its first commit. -/
def alphaManifest : ChildManifest where
  id := "observe:1f:alpha"
  name := "alpha"
  type := "observed-child"
  generation := 0
  overlay := { mode := "shared-overlay", activeUpper := "/source/.ccc-storage/overlays/alpha/upper" }

def toollessHost : AccessHost where
  which := fun _ => none
  run := fun _ => (0, "")
  isFile := fun _ => false
  isDir := fun _ => true
  preferKernel := false
  coldLock := "/source/.ccc-storage/locks/alpha.cold.lock"
  coldLockHeld := false
  reread := some alphaManifest
  knownPath := true
  store := none
  hotDir := "/source/.ccc-storage/packs"
  stamp := "2026-01-01T00:00:00Z"
  mountsDir := ["run", "mounts"]
  stacksDir := "/run/stacks"
  existing := none
  writerHeld := false
  mirror := none
  localUpper := "/run/local-overlays/alpha/upper"
  localWork := "/run/local-overlays/alpha/work"
  interrupted := none
  unmounted := false

theorem toollessHost_fails :
    accessPrivate toollessHost alphaManifest = fail (.missingTool .writableView) := rfl

/-- The placeholder directory holds a file of the same name. -/
def toollessView : RegisteredView alphaNotes where
  node := fun p =>
    if p = ["source", "alpha"] then some (.dir ["notes"])
    else if p = ["source", "alpha", "notes"] then some (.file 6)
    else none
  leadsTo := id
  entryOf := id
  manifest := fun _ _ => some ⟨false, 0, false, false⟩
  mountRw := fun _ _ => (accessPrivate toollessHost alphaManifest).mapError AccessError.raised
  fails := fun _ _ => none
  record := ⟨false, 0, false, false⟩
  registered := rfl
  host := toollessHost
  childManifest := alphaManifest
  mounts := rfl
  apart := fun _ hmount => by
    rw [toollessHost_fails] at hmount
    cases hmount

/-- **The file of the placeholder is deleted**, and nothing in the child. -/
theorem missingTool_unlinks :
    (exec (CoreOp.unlink.run plainDispatcher (fun _ => toollessView.toHostView) alphaNotes.rel)
      .start).2.touched = [.removed ["source", "alpha", "notes"]] ∧
      ¬ StaysInView (fun _ => toollessView) 0 .unlink := by
  have hremoved : (exec (CoreOp.unlink.run plainDispatcher (fun _ => toollessView.toHostView)
      alphaNotes.rel) .start).2.touched = [.removed ["source", "alpha", "notes"]] := by
    decide +kernel
  refine ⟨hremoved, fun hstays => ?_⟩
  obtain ⟨hlog, -⟩ := hstays .start (fun t ht => (by cases ht))
  have hin : TouchInView (fun _ => toollessView) (.removed ["source", "alpha", "notes"]) := by
    refine hlog _ ?_
    rw [hremoved]
    exact List.mem_cons_self
  obtain ⟨k, mountpoint, path, hmount, -⟩ := hin _ List.mem_cons_self
  exact absurd hmount nofun

end CccStorage.Observe
