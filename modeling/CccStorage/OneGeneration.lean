/-
  File:      CccStorage/OneGeneration.lean
  Subject:   What any number of `handle_commit` calls on one dirty shared-nfs child make of it,
             while nothing is written (`mountd/daemon.py`, `_commit_shared_nfs`).

  A shared-nfs call tests the active upper before it waits for the commit lock, and seals whatever
  is there when it has it.

  * `CommitResult`, `raceStep` -- what a call answers, and all calls step by step;
  * `OneGeneration` -- one delta of a dirty source, which every call that reports one reports;
  * `takesLockDirty` -- a call is given the lock while the upper is still dirty;
  * `SealedOnce`, `raceStep_sealedOnce` -- what every step keeps;
  * `sharedCommits_once` -- every run of such steps makes one generation.
-/
import CccStorage.CommitFaults

namespace CccStorage

/-! ## 1. Calls and what they answer -/

/-- How a call of `handle_commit` ends. -/
inductive CommitResult where
  /-- `replace(manifest, state="clean")`. -/
  | clean
  /-- `LockHeld`, or the error that a local-ssd-async call makes of it. -/
  | lockHeld
  | committed (generation : Nat)
  /-- "cannot commit: its writable child view is still mounted". -/
  | refused
  /-- "dirty mirror base generation". -/
  | stale
  /-- The registry has no such child, or a compaction raises. -/
  | raised
  deriving DecidableEq

inductive RaceEvent where
  | handleCommit (i : CallId)
  | step (i : CallId) (a : Answer)

/-- The shared-nfs calls, and what those that are over have answered. -/
structure CommitRace extends CommitState where
  result : CallId → Option CommitResult := fun _ => none

/-- The answer that a step settles, if it does. -/
def settles (v : Services) (s : CommitState) (i : CallId) : Option CommitResult :=
  match s.phase i with
  | .found .check _ =>
    if (dirtyStats s.ensureActive.activeTree).dirty then none else some .clean
  | .lock => s.lock.map fun _ => .lockHeld
  | .found .mirror m =>
    if (v.cfg i).mirrorAfterCommit then none else some (.committed m.generation)
  | .found .status m => some (.committed m.generation)
  | _ => none

/-- A call that raises leaves its locks. -/
def raisedCall (s : CommitState) (i : CallId) : CommitState :=
  ({ s with lock := if (s.phase i).critical then none else s.lock }).setPhase i .done

/-- A call is in `s`, and answers `x` if it has settled that. -/
def CommitRace.goes (r : CommitRace) (s : CommitState) (i : CallId) (x : Option CommitResult) :
    CommitRace where
  toCommitState := s
  result := Function.update r.result i (x.or (r.result i))

/-- **One step of the calls.** -/
def raceStep (v : Services) (r : CommitRace) : RaceEvent → Option CommitRace
  | .handleCommit i =>
    (commitStep v r.toCommitState (.handleCommit i)).map fun s =>
      r.goes s i (if (r.mounts (v.node i)).isSome then some .refused else none)
  | .step i a =>
    match r.phase i with
    | .idle | .done => none
    | _ =>
      match runStep v r.toCommitState i a with
      | some s => some (r.goes s i (settles v r.toCommitState i))
      | none => some (r.goes (raisedCall r.toCommitState i) i (some .raised))

/-- The paths of the packs are distinct, and none is that of the next delta. -/
def FreshPaths (v : Services) (m : ChildManifest) : Prop :=
  (m.lowers.map (·.path) ++ [deltaPath v.base.packDir (m.generation + 1)]).Nodup

/-- A child whose active upper has a dirty entry. No call has begun, the locks are free, and the
    paths of its packs are distinct and not that of the next delta. -/
structure DirtyUpper (v : Services) extends IdleState where
  unlocked : lock = none
  dirty : (dirtyStats toCommitState.activeTree).dirty = true
  paths : FreshPaths v disk

def DirtyUpper.race {v : Services} (s₀ : DirtyUpper v) : CommitRace :=
  { toCommitState := s₀.toCommitState }

/-! ## 2. One generation -/

/-- What a run of calls has made, and what the calls answer. -/
structure RaceView where
  generations : List Nat
  /-- What the published deltas were built from. -/
  sources : List Tree
  /-- The generation of the manifest on disk. -/
  current : Nat
  idle : CallId → Prop
  ended : CallId → Prop
  result : CallId → Option CommitResult

/-- **One dirty state makes one generation**: at most one delta is published, of a dirty source;
    every call that has ended reports that generation, found the child clean, or the lock held; and
    when all calls have ended, the delta is published. -/
structure OneGeneration (start : Nat) (w : RaceView) : Prop where
  atMostOne : w.generations = [] ∨ w.generations = [start + 1]
  dirtySources : ∀ t ∈ w.sources, (dirtyStats t).dirty = true
  reports : ∀ i x, w.result i = some x → x = .clean ∨ x = .lockHeld ∨
    x = .committed (start + 1) ∧ w.generations = [start + 1]
  answered : ∀ i, w.ended i → (w.result i).isSome
  published : (∀ i, w.idle i ∨ w.ended i) → (∃ i, w.ended i) →
    w.generations = [start + 1] ∧ w.current = start + 1

def CommitRace.view (r : CommitRace) : RaceView where
  generations := r.published.map (·.generation)
  sources := r.published.map fun x => (r.sealedUppers.lookup x.dir).getD ⟨[]⟩
  current := r.disk.generation
  idle i := r.phase i = .idle
  ended i := r.phase i = .done
  result := r.result

/-- **A call is given the lock while the upper is still dirty.** -/
def takesLockDirty (r : CommitRace) : RaceEvent → Bool
  | .step i _ =>
    match r.phase i, r.lock with
    | .lock, none => (dirtyStats r.activeTree).dirty
    | _, _ => true
  | .handleCommit _ => true

/-- The child is found where a call reads its registry back, and under the lock it is the one on
    disk. -/
def findsChild (v : Services) (r : CommitRace) : RaceEvent → Bool
  | .step i _ =>
    match r.phase i with
    | .reload .check .stored => (r.registry (v.node i)).isSome
    | .reload _ .stored => decide (r.registry (v.node i) = some r.disk)
    | _ => true
  | .handleCommit _ => true

/-- No call is made where the child is mounted writable. -/
def calledUnmounted (v : Services) (r : CommitRace) : RaceEvent → Bool
  | .handleCommit i => (r.mounts (v.node i)).isNone
  | .step _ _ => true

/-- **The condition** on a step of shared-nfs calls. -/
def RaceOk (v : Services) (r : CommitRace) (e : RaceEvent) : Prop :=
  takesLockDirty r e = true ∧ findsChild v r e = true ∧ calledUnmounted v r e = true

instance (v : Services) (r : CommitRace) (e : RaceEvent) : Decidable (RaceOk v r e) :=
  inferInstanceAs (Decidable (_ ∧ _))

/-! ## 3. What every step keeps -/

namespace Phase

/-- The call has the lock, and has sealed nothing yet. -/
def beforeSeal : Phase → Bool
  | .reload .sealUpper _ | .found .sealUpper _ => true
  | _ => false

/-- The answer is settled. -/
def settled : Phase → Bool
  | .release | .done => true
  | _ => false

/-- Which packs the manifest on disk lists, from the seal to the compaction. -/
def Lists (start disk : ChildManifest) : Phase → Prop
  | .recreate _ _ | .copy _ _ _ _ | .dump _ _ _ _ => disk = start
  | .clean _ | .reload .compact _ | .found .compact _ => (disk.lowers.map (·.path)).Nodup
  | _ => True

theorem critical_of_beforeSeal {p : Phase} (h : p.beforeSeal = true) : p.critical = true := by
  unfold beforeSeal at h
  split at h
  · rfl
  · rfl
  · cases h

theorem Lists.of_not_critical {start disk : ChildManifest} {p : Phase} (h : p.critical = false) :
    p.Lists start disk := by
  unfold Lists
  split
  all_goals first
    | trivial
    | cases h

end Phase

/-- The child is as dirty as at the start: no call has sealed its upper. -/
structure CommitRace.Unsealed (start : ChildManifest) (r : CommitRace) : Prop where
  disk : r.disk = start
  nothing : r.published = []
  notSealed : r.sealedUppers = []
  dirty : (dirtyStats r.activeTree).dirty = true
  holder : ∀ j, (r.phase j).critical = true → (r.phase j).beforeSeal = true
  results : ∀ j x, r.result j = some x → x = .lockHeld ∧ r.lock ≠ none

/-- One call has sealed the dirty upper. -/
structure CommitRace.Taken (start : ChildManifest) (r : CommitRace) : Prop where
  source : ∃ d t, r.sealedUppers = [(d, t)] ∧ (dirtyStats t).dirty = true
  clean : (dirtyStats r.activeTree).dirty = false
  holder : ∀ j, (r.phase j).beforeSeal = false
  lists : ∀ j, (r.phase j).Lists start r.disk
  results : ∀ j x, r.result j = some x → x = .clean ∨ x = .lockHeld ∨
    x = .committed (start.generation + 1) ∧ r.published ≠ []

/-- **The invariant**: the upper is sealed once, while it is dirty. -/
structure SealedOnce (v : Services) (start : ChildManifest) (r : CommitRace) : Prop where
  commit : CommitInv v start r.toCommitState
  held : ∀ j, r.lock = some j → (r.phase j).critical = true
  settled : ∀ j, (r.phase j).settled = true → (r.result j).isSome
  stage : r.Unsealed start ∨ r.Taken start

section Race

variable {v : Services} {start : ChildManifest} {r r' : CommitRace} {s s' : CommitState}
  {i : CallId} {p : Phase} {x : Option CommitResult}

theorem CommitRace.goes_result (y : CommitResult) {j : CallId}
    (hj : (r.goes s i x).result j = some y) : r.result j = some y ∨ j = i ∧ x = some y := by
  by_cases hji : j = i
  · subst hji
    have hat : (r.goes s j x).result j = x.or (r.result j) := Function.update_self ..
    have hor : x.or (r.result j) = some y := hat.symm.trans hj
    cases x with
    | none => exact .inl hor
    | some z => exact .inr ⟨rfl, hor⟩
  · exact .inl ((Function.update_of_ne hji _ _).symm.trans hj)

theorem CommitRace.goes_isSome {j : CallId} (h : (r.result j).isSome) :
    ((r.goes s i x).result j).isSome := by
  by_cases hji : j = i
  · subst hji
    show (Function.update r.result j (x.or (r.result j)) j).isSome
    rw [Function.update_self, Option.isSome_or, h, Bool.or_true]
  · show (Function.update r.result i (x.or (r.result i)) j).isSome
    rw [Function.update_of_ne hji]
    exact h

theorem CommitInv.alone (h : CommitInv v start s) (hi : (s.phase i).critical = true) {j : CallId}
    (hji : j ≠ i) : (s.phase j).critical = false := by
  by_contra hj
  have hlock := h.exclusive j (Bool.eq_true_of_not_eq_false hj)
  rw [h.exclusive i hi] at hlock
  exact hji (Option.some.inj hlock).symm

/-- The directories of the published deltas are the first that were sealed. -/
theorem CommitInv.published_dirs (h : CommitInv v start s) :
    s.published.map (·.dir) <+: s.sealedUppers.map (·.1) := by
  have hholder := h.holder
  cases hp : s.held with
  | recreate m dir | copy m dir todo copied =>
      rw [hp] at hholder
      exact ⟨[dir], hholder.2.1.symm⟩
  | dump m dir pack delta =>
      rw [hp] at hholder
      exact ⟨[dir], hholder.2.1.symm⟩
  | dumpCompacted m =>
      rw [hp] at hholder
      exact ⟨[], (List.append_nil _).trans hholder.1.1.symm⟩
  | found next m =>
      rw [hp] at hholder
      exact ⟨[], (List.append_nil _).trans hholder.2.1.symm⟩
  | idle | reload | lock | clean | release | done =>
      rw [hp] at hholder
      exact ⟨[], (List.append_nil _).trans hholder.1.symm⟩

theorem CommitInv.published_le (h : CommitInv v start s) :
    s.published.length ≤ s.sealedUppers.length := by
  have hlen := h.published_dirs.length_le
  rw [List.length_map, List.length_map] at hlen
  exact hlen

theorem CommitState.Settled.length (h : s.Settled) :
    s.published.length = s.sealedUppers.length := by
  have hlen := congrArg List.length h.1
  rw [List.length_map, List.length_map] at hlen
  exact hlen.symm

/-- One published delta is the next generation. -/
theorem CommitInv.generation_one (h : CommitInv v start s) (hone : s.published.length = 1) :
    s.published.map (·.generation) = [start.generation + 1] ∧
      s.disk.generation = start.generation + 1 := by
  have hgen := h.consecutive
  have hcur := h.current
  rw [hone] at hgen hcur
  exact ⟨hgen, hcur⟩

theorem ensureActive_same (s : CommitState) : s.ensureActive.sealedUppers = s.sealedUppers ∧
    s.ensureActive.published = s.published ∧ s.ensureActive.lock = s.lock ∧
    s.ensureActive.disk = s.disk := by
  unfold CommitState.ensureActive
  split <;> exact ⟨rfl, rfl, rfl, rfl⟩

theorem ensureActive_setPhase (s : CommitState) (i : CallId) (p : Phase) :
    (s.ensureActive.setPhase i p).phase = Function.update s.phase i p := by
  show Function.update s.ensureActive.phase i p = _
  rw [ensureActive_phase]

/-- The upper that is dirty exists. -/
theorem active_of_dirty (h : (dirtyStats s.activeTree).dirty = true) :
    ∃ d, s.active = some d ∧ s.activeTree = s.tree d := by
  unfold CommitState.activeTree at h ⊢
  cases ha : s.active with
  | some d => exact ⟨d, rfl, rfl⟩
  | none =>
      rw [ha] at h
      cases h

/-- A clean upper stays clean when a directory is removed. -/
theorem removed_clean {dir : DirId} (h : (dirtyStats s.activeTree).dirty = false) :
    (dirtyStats (({ s with
      dirs := Function.update s.dirs dir none }).setPhase i p).activeTree).dirty = false := by
  unfold CommitState.activeTree at h ⊢
  cases ha : s.active with
  | none => rfl
  | some d =>
      rw [ha] at h
      show (dirtyStats ((Function.update s.dirs dir none d).getD ⟨[]⟩)).dirty = false
      by_cases hd : d = dir
      · rw [hd, Function.update_self]
        rfl
      · rw [Function.update_of_ne hd]
        exact h

/-- **A step that seals nothing and publishes nothing** keeps the invariant. -/
theorem SealedOnce.keep (h : SealedOnce v start r) (hinv : CommitInv v start s')
    (hsealed : s'.sealedUppers = r.sealedUppers) (hpub : s'.published = r.published)
    (htree : (dirtyStats s'.activeTree).dirty = (dirtyStats r.activeTree).dirty)
    (hlock : s'.lock = r.lock)
    (hphase : s'.phase = Function.update r.phase i p)
    (hcrit : p.critical = (r.phase i).critical) (hbefore : p.beforeSeal = (r.phase i).beforeSeal)
    (hdisk : s'.disk = r.disk ∨ (r.phase i).critical = true ∧ (r.phase i).beforeSeal = false)
    (hlists : r.Taken start → p.Lists start s'.disk)
    (hx : ∀ y ∈ x, (r.Unsealed start → y = .lockHeld ∧ r.lock ≠ none) ∧
      (r.Taken start → y = .clean ∨ y = .lockHeld ∨
        y = .committed (start.generation + 1) ∧ r.published ≠ []))
    (hend : p.settled = true → (x.or (r.result i)).isSome) :
    SealedOnce v start (r.goes s' i x) := by
  have hat : ∀ j, s'.phase j = if j = i then p else r.phase j := by
    intro j
    rw [hphase, Function.update_apply]
  have hcriticalAt : ∀ j, (s'.phase j).critical = (r.phase j).critical := by
    intro j
    rw [hat]
    split
    · rename_i hj
      rw [hj, hcrit]
    · rfl
  have hbeforeAt : ∀ j, (s'.phase j).beforeSeal = (r.phase j).beforeSeal := by
    intro j
    rw [hat]
    split
    · rename_i hj
      rw [hj, hbefore]
    · rfl
  refine ⟨hinv, fun j hj => ?_, fun j hj => ?_, ?_⟩
  · have hj' : r.lock = some j := hlock ▸ hj
    exact (hcriticalAt j).trans (h.held j hj')
  · by_cases hji : j = i
    · subst hji
      have hp : s'.phase j = p := by rw [hat, if_pos rfl]
      have hset : p.settled = true := hp ▸ hj
      show (Function.update r.result j (x.or (r.result j)) j).isSome
      rw [Function.update_self]
      exact hend hset
    · have hp : s'.phase j = r.phase j := by rw [hat, if_neg hji]
      have hset : (r.phase j).settled = true := hp ▸ hj
      exact CommitRace.goes_isSome (h.settled j hset)
  · rcases h.stage with hun | htaken
    · refine .inl ⟨?_, hpub.trans hun.nothing, hsealed.trans hun.notSealed, ?_, fun j hj => ?_,
        fun j y hy => ?_⟩
      · rcases hdisk with heq | ⟨hc, hb⟩
        · exact heq.trans hun.disk
        · rw [hun.holder i hc] at hb
          cases hb
      · show (dirtyStats s'.activeTree).dirty = true
        rw [htree]
        exact hun.dirty
      · exact (hbeforeAt j).trans (hun.holder j ((hcriticalAt j).symm.trans hj))
      · show y = .lockHeld ∧ s'.lock ≠ none
        rw [hlock]
        rcases CommitRace.goes_result y hy with hold | ⟨rfl, hnew⟩
        · exact hun.results j y hold
        · exact (hx y hnew).1 hun
    · obtain ⟨d, t, hsource, hdirty⟩ := htaken.source
      refine .inr ⟨⟨d, t, hsealed.trans hsource, hdirty⟩, ?_, fun j => ?_, fun j => ?_,
        fun j y hy => ?_⟩
      · show (dirtyStats s'.activeTree).dirty = false
        rw [htree]
        exact htaken.clean
      · exact (hbeforeAt j).trans (htaken.holder j)
      · show (s'.phase j).Lists start s'.disk
        rw [hat]
        split
        · exact hlists htaken
        · rename_i hji
          rcases hdisk with heq | ⟨hc, -⟩
          · rw [heq]
            exact htaken.lists j
          · exact .of_not_critical (h.commit.alone hc hji)
      · show _ ∨ _ ∨ _ ∧ s'.published ≠ []
        rw [hpub]
        rcases CommitRace.goes_result y hy with hold | ⟨rfl, hnew⟩
        · exact htaken.results j y hold
        · exact (hx y hnew).2 htaken

/-! ### The steps that change the stage -/

/-- **The lock is taken** while the upper is dirty. -/
theorem SealedOnce.acquire (h : SealedOnce v start r) (hi : r.phase i = .lock)
    (hl : r.lock = none) (hdirty : (dirtyStats r.activeTree).dirty = true) :
    SealedOnce v start (r.goes (({ r.toCommitState with lock := some i }).setPhase i
      (.reload .sealUpper .scan)) i none) := by
  have hun : r.Unsealed start := by
    rcases h.stage with hun | htaken
    · exact hun
    · rw [htaken.clean] at hdirty
      cases hdirty
  have hfree : ∀ j, (r.phase j).critical = false := by
    intro j
    by_contra hj
    have hlock := h.commit.exclusive j (Bool.eq_true_of_not_eq_false hj)
    rw [hl] at hlock
    cases hlock
  have hself : Function.update r.phase i (.reload .sealUpper .scan) i = .reload .sealUpper .scan :=
    Function.update_self ..
  have hother : ∀ j, j ≠ i → Function.update r.phase i (.reload .sealUpper .scan) j = r.phase j :=
    fun j hj => Function.update_of_ne hj _ _
  refine ⟨h.commit.acquire hl, fun j hj => ?_, fun j hj => ?_,
    .inl ⟨hun.disk, hun.nothing, hun.notSealed, hdirty, fun j hj => ?_, fun j y hy => ?_⟩⟩
  · obtain rfl : i = j := Option.some.inj hj
    show (Function.update r.phase i (.reload .sealUpper .scan) i).critical = true
    rw [hself]
    rfl
  · have hset : (Function.update r.phase i (.reload .sealUpper .scan) j).settled = true := hj
    by_cases hji : j = i
    · rw [hji, hself] at hset
      cases hset
    · rw [hother j hji] at hset
      exact CommitRace.goes_isSome (h.settled j hset)
  · show (Function.update r.phase i (.reload .sealUpper .scan) j).beforeSeal = true
    have hcrit : (Function.update r.phase i (.reload .sealUpper .scan) j).critical = true := hj
    by_cases hji : j = i
    · rw [hji, hself]
      rfl
    · rw [hother j hji, hfree j] at hcrit
      cases hcrit
  · rcases CommitRace.goes_result y hy with hold | ⟨-, hnone⟩
    · exact ⟨(hun.results j y hold).1, nofun⟩
    · cases hnone

/-- **The upper is sealed**: it is still the dirty one. -/
theorem SealedOnce.sealActive (h : SealedOnce v start r) (hi : r.phase i = .found .sealUpper r.disk)
    (hsettled : r.Settled) :
    SealedOnce v start (r.goes (sealActive r.toCommitState i r.disk) i none) := by
  have hcrit : (r.phase i).critical = true := by
    rw [hi]
    rfl
  have hun : r.Unsealed start := by
    rcases h.stage with hun | htaken
    · exact hun
    · have hnot := htaken.holder i
      rw [hi] at hnot
      cases hnot
  obtain ⟨d, hactive, htree⟩ := active_of_dirty hun.dirty
  have hinv := h.commit.sealActive hcrit hsettled
  have hsealed : CccStorage.sealActive r.toCommitState i r.disk =
      ({ r.toCommitState with
        active := none
        sealedUppers := r.sealedUppers ++ [(d, r.tree d)] }).setPhase i (.recreate r.disk d) := by
    unfold CccStorage.sealActive
    rw [hactive]
  rw [hsealed] at hinv ⊢
  have hself : Function.update r.phase i (.recreate r.disk d) i = .recreate r.disk d :=
    Function.update_self ..
  have hother : ∀ j, j ≠ i → Function.update r.phase i (.recreate r.disk d) j = r.phase j :=
    fun j hj => Function.update_of_ne hj _ _
  refine ⟨hinv, fun j hj => ?_, fun j hj => ?_, .inr ⟨⟨d, r.tree d, ?_, ?_⟩, rfl, fun j => ?_,
    fun j => ?_, fun j y hy => ?_⟩⟩
  · show (Function.update r.phase i (.recreate r.disk d) j).critical = true
    have hlock : r.lock = some j := hj
    rw [h.commit.exclusive i hcrit] at hlock
    obtain rfl : i = j := Option.some.inj hlock
    rw [hself]
    rfl
  · have hset : (Function.update r.phase i (.recreate r.disk d) j).settled = true := hj
    by_cases hji : j = i
    · rw [hji, hself] at hset
      cases hset
    · rw [hother j hji] at hset
      exact CommitRace.goes_isSome (h.settled j hset)
  · show r.sealedUppers ++ [(d, r.tree d)] = _
    rw [hun.notSealed]
    rfl
  · rw [← htree]
    exact hun.dirty
  · show (Function.update r.phase i (.recreate r.disk d) j).beforeSeal = false
    by_cases hji : j = i
    · rw [hji, hself]
      rfl
    · rw [hother j hji]
      by_contra hbefore
      have hj := Phase.critical_of_beforeSeal (Bool.eq_true_of_not_eq_false hbefore)
      rw [h.commit.alone hcrit hji] at hj
      cases hj
  · show (Function.update r.phase i (.recreate r.disk d) j).Lists start r.disk
    by_cases hji : j = i
    · rw [hji, hself]
      exact hun.disk
    · rw [hother j hji]
      exact .of_not_critical (h.commit.alone hcrit hji)
  · rcases CommitRace.goes_result y hy with hold | ⟨-, hnone⟩
    · exact .inr (.inl (hun.results j y hold).1)
    · cases hnone

/-- Where the invariant has left the dirty upper, the call that holds the lock is past its seal. -/
theorem SealedOnce.taken (h : SealedOnce v start r) (hc : (r.phase i).critical = true)
    (hb : (r.phase i).beforeSeal = false) : r.Taken start := by
  rcases h.stage with hun | htaken
  · rw [hun.holder i hc] at hb
    cases hb
  · exact htaken

/-- **The delta is published.** -/
theorem SealedOnce.dumpCommitted (h : SealedOnce v start r) {dir : DirId} {pack : PackInfo}
    {delta : Tree} (hi : r.phase i = .dump r.disk dir pack delta)
    (hbuilt : r.Built v dir pack delta)
    (hpaths : FreshPaths v start) :
    SealedOnce v start
      (r.goes (dumpCommitted v r.toCommitState i r.disk dir pack delta) i none) := by
  have hcrit : (r.phase i).critical = true := by
    rw [hi]
    rfl
  have htaken := h.taken hcrit (by rw [hi]; rfl)
  have hdisk : r.disk = start := by
    have hlists := htaken.lists i
    rw [hi] at hlists
    exact hlists
  have hself : Function.update r.phase i (.clean dir) i = .clean dir := Function.update_self ..
  have hother : ∀ j, j ≠ i → Function.update r.phase i (.clean dir) j = r.phase j :=
    fun j hj => Function.update_of_ne hj _ _
  refine ⟨h.commit.dumpCommitted hcrit hbuilt, fun j hj => ?_, fun j hj => ?_,
    .inr ⟨htaken.source, htaken.clean, fun j => ?_, fun j => ?_, fun j y hy => ?_⟩⟩
  · show (Function.update r.phase i (.clean dir) j).critical = true
    have hlock : r.lock = some j := hj
    rw [h.commit.exclusive i hcrit] at hlock
    obtain rfl : i = j := Option.some.inj hlock
    rw [hself]
    rfl
  · have hset : (Function.update r.phase i (.clean dir) j).settled = true := hj
    by_cases hji : j = i
    · rw [hji, hself] at hset
      cases hset
    · rw [hother j hji] at hset
      exact CommitRace.goes_isSome (h.settled j hset)
  · show (Function.update r.phase i (.clean dir) j).beforeSeal = false
    by_cases hji : j = i
    · rw [hji, hself]
      rfl
    · rw [hother j hji]
      exact htaken.holder j
  · show (Function.update r.phase i (.clean dir) j).Lists start
      (committedManifest (v.cfg i) r.disk pack "shared-overlay")
    by_cases hji : j = i
    · rw [hji, hself]
      show ((r.disk.lowers ++ [pack]).map (·.path)).Nodup
      obtain ⟨k, built, hpack⟩ := hbuilt.2.2.1
      rw [List.map_append, hdisk, List.map_singleton, hpack, hdisk]
      exact hpaths
    · rw [hother j hji]
      exact .of_not_critical (h.commit.alone hcrit hji)
  · have hsome : r.published ++ [⟨r.disk.generation + 1, pack, dir, delta⟩] ≠ [] := by simp
    rcases CommitRace.goes_result y hy with hold | ⟨-, hnone⟩
    · rcases htaken.results j y hold with hy | hy | ⟨hy, -⟩
      · exact .inl hy
      · exact .inr (.inl hy)
      · exact .inr (.inr ⟨hy, hsome⟩)
    · cases hnone

/-- **The lock is released.** -/
theorem SealedOnce.release (h : SealedOnce v start r) (hi : r.phase i = .release)
    (hsettled : r.Settled) :
    SealedOnce v start (r.goes (({ r.toCommitState with lock := none }).setPhase i .done) i
      none) := by
  have hcrit : (r.phase i).critical = true := by
    rw [hi]
    rfl
  have htaken := h.taken hcrit (by rw [hi]; rfl)
  have hself : Function.update r.phase i .done i = .done := Function.update_self ..
  have hother : ∀ j, j ≠ i → Function.update r.phase i .done j = r.phase j :=
    fun j hj => Function.update_of_ne hj _ _
  refine ⟨h.commit.release hcrit hsettled, nofun, fun j hj => ?_,
    .inr ⟨htaken.source, htaken.clean, fun j => ?_, fun j => ?_, fun j y hy => ?_⟩⟩
  · by_cases hji : j = i
    · rw [hji]
      exact CommitRace.goes_isSome (h.settled i (by rw [hi]; rfl))
    · have hset : (Function.update r.phase i .done j).settled = true := hj
      rw [hother j hji] at hset
      exact CommitRace.goes_isSome (h.settled j hset)
  · show (Function.update r.phase i .done j).beforeSeal = false
    by_cases hji : j = i
    · rw [hji, hself]
      rfl
    · rw [hother j hji]
      exact htaken.holder j
  · show (Function.update r.phase i .done j).Lists start r.disk
    by_cases hji : j = i
    · rw [hji, hself]
      trivial
    · rw [hother j hji]
      exact htaken.lists j
  · rcases CommitRace.goes_result y hy with hold | ⟨-, hnone⟩
    · exact htaken.results j y hold
    · cases hnone

/-! ### Every step -/

theorem readsDisk_of_findsChild {a : Answer} (h : findsChild v r (.step i a) = true) :
    ReadsDisk v r.toCommitState (.step i a) := by
  intro y hy hne
  unfold readsBack at hy
  simp only at hy
  split at hy
  · rename_i next hp
    obtain rfl := Option.some.inj hy
    unfold findsChild at h
    simp only [hp] at h
    cases next with
    | check => exact absurd rfl hne
    | sealUpper | compact | mirror | status => exact of_decide_eq_true h
  · cases hy

/-- What the holder answers once it has published. -/
theorem SealedOnce.answers (h : SealedOnce v start r) (hc : (r.phase i).critical = true)
    (hb : (r.phase i).beforeSeal = false) (hsettled : r.Settled) {y : CommitResult}
    (hy : y ∈ some (CommitResult.committed r.disk.generation)) :
    (r.Unsealed start → y = .lockHeld ∧ r.lock ≠ none) ∧
      (r.Taken start → y = .clean ∨ y = .lockHeld ∨
        y = .committed (start.generation + 1) ∧ r.published ≠ []) := by
  obtain rfl : CommitResult.committed r.disk.generation = y := Option.some.inj hy
  refine ⟨fun hun => ?_, fun htaken => .inr (.inr ?_)⟩
  · rw [hun.holder i hc] at hb
    cases hb
  · obtain ⟨d, t, hsource, -⟩ := htaken.source
    have hone : r.published.length = 1 := by
      rw [hsettled.length, hsource]
      rfl
    rw [(h.commit.generation_one hone).2]
    refine ⟨rfl, fun hnil => ?_⟩
    rw [hnil] at hone
    cases hone

theorem runStep_sealedOnce (h : SealedOnce v start r) {a : Answer}
    (hdirty : takesLockDirty r (.step i a) = true) (hfinds : findsChild v r (.step i a) = true)
    (hpaths : FreshPaths v start)
    (hs : runStep v r.toCommitState i a = some s') :
    SealedOnce v start (r.goes s' i (settles v r.toCommitState i)) := by
  have hinv := runStep_inv h.commit (readsDisk_of_findsChild hfinds) hs
  cases hp : r.phase i with
  | idle | done =>
      unfold runStep at hs
      rw [hp] at hs
      cases hs
  | reload next q =>
      have hnone : settles v r.toCommitState i = none := by
        unfold settles
        rw [hp]
      have hlists : ∀ q', r.Taken start → (Phase.reload next q').Lists start r.disk := by
        intro q' htaken
        have hat := htaken.lists i
        rw [hp] at hat
        cases next <;> exact hat
      unfold runStep at hs
      rw [hp] at hs
      rw [hnone]
      cases q with
      | scan =>
          cases hs
          exact h.keep hinv rfl rfl rfl rfl rfl (by rw [hp]; cases next <;> rfl)
            (by rw [hp]; cases next <;> rfl) (.inl rfl) (hlists _) nofun nofun
      | loaded m =>
          cases hs
          exact h.keep hinv rfl rfl rfl rfl rfl (by rw [hp]; cases next <;> rfl)
            (by rw [hp]; cases next <;> rfl) (.inl rfl) (hlists _) nofun nofun
      | stored =>
          obtain ⟨m, hm, rfl⟩ := Option.map_eq_some_iff.mp hs
          refine h.keep hinv rfl rfl rfl rfl rfl (by rw [hp]; cases next <;> rfl)
            (by rw [hp]; cases next <;> rfl) (.inl rfl) (fun htaken => ?_) nofun nofun
          have hat := hlists .stored htaken
          cases next <;> exact hat
  | found next m =>
      have hc : next ≠ .check → (r.phase i).critical = true := by
        intro hne
        rw [hp]
        cases next with
        | check => exact absurd rfl hne
        | sealUpper | compact | mirror | status => rfl
      unfold runStep at hs
      rw [hp] at hs
      cases next with
      | check =>
          obtain rfl := Option.some.inj hs
          have hset : settles v r.toCommitState i =
              if (dirtyStats r.activeTree).dirty then none else some .clean := by
            unfold settles
            rw [hp]
            show (if (dirtyStats r.ensureActive.activeTree).dirty then _ else _) = _
            rw [ensureActive_activeTree]
          have hsame : ∀ q, (dirtyStats (r.ensureActive.setPhase i q).activeTree).dirty =
              (dirtyStats r.activeTree).dirty := by
            intro q
            show (dirtyStats r.ensureActive.activeTree).dirty = _
            rw [ensureActive_activeTree]
          obtain ⟨hsealed, hpub, hlock, hdisk⟩ := ensureActive_same r.toCommitState
          have hphase := ensureActive_setPhase r.toCommitState i
          rw [hset]
          rw [ensureActive_activeTree] at hinv ⊢
          by_cases hd : (dirtyStats r.activeTree).dirty = true
          · rw [if_pos hd] at hinv ⊢
            rw [if_pos hd]
            exact h.keep hinv hsealed hpub (hsame _) hlock (hphase _) (by rw [hp]; rfl)
              (by rw [hp]; rfl) (.inl hdisk) (fun _ => trivial) nofun nofun
          · rw [if_neg hd] at hinv ⊢
            rw [if_neg hd]
            refine h.keep hinv hsealed hpub (hsame _) hlock (hphase _) (by rw [hp]; rfl)
              (by rw [hp]; rfl) (.inl hdisk) (fun _ => trivial) (fun y hy => ?_)
              fun _ => rfl
            obtain rfl := Option.some.inj hy
            exact ⟨fun hun => absurd hun.dirty hd, fun _ => .inl rfl⟩
      | sealUpper =>
          have hm : m = r.disk ∧ r.Settled := by
            obtain ⟨hm, hsettled⟩ := h.commit.holderAt hp rfl
            exact ⟨hm.resolve_left nofun, hsettled⟩
          obtain ⟨rfl, hsettled⟩ := hm
          have hnone : settles v r.toCommitState i = none := by
            unfold settles
            rw [hp]
          have hun : r.Unsealed start := by
            rcases h.stage with hun | htaken
            · exact hun
            · have hnot := htaken.holder i
              rw [hp] at hnot
              cases hnot
          obtain ⟨d, hactive, -⟩ := active_of_dirty hun.dirty
          have hens : r.ensureActive = r.toCommitState := by
            unfold CommitState.ensureActive
            rw [hactive]
          obtain rfl := Option.some.inj hs
          rw [hnone, hens]
          exact h.sealActive hp hsettled
      | compact =>
          obtain ⟨hm, hsettled⟩ := h.commit.holderAt hp rfl
          obtain rfl := hm.resolve_left nofun
          have hnone : settles v r.toCommitState i = none := by
            unfold settles
            rw [hp]
          rw [hnone]
          have hs' : compactAfterCommit v r.toCommitState i r.disk a = some s' := hs
          unfold compactAfterCommit at hs'
          split at hs'
          · cases hs'
            exact h.keep hinv rfl rfl rfl rfl rfl (by rw [hp]; rfl) (by rw [hp]; rfl)
              (.inl rfl) (fun _ => trivial) nofun nofun
          · obtain ⟨merged, -, rfl⟩ := Option.map_eq_some_iff.mp hs'
            exact h.keep hinv rfl rfl rfl rfl rfl (by rw [hp]; rfl) (by rw [hp]; rfl)
              (.inl rfl) (fun _ => trivial) nofun nofun
      | mirror =>
          obtain ⟨hm, hsettled⟩ := h.commit.holderAt hp rfl
          obtain rfl := hm.resolve_left nofun
          have hset : settles v r.toCommitState i =
              if (v.cfg i).mirrorAfterCommit then none
              else some (.committed r.disk.generation) := by
            unfold settles
            rw [hp]
          rw [hset]
          simp only at hs
          split at hs
          · rename_i hmirror
            cases hs
            rw [if_pos hmirror]
            exact h.keep hinv rfl rfl rfl rfl rfl (by rw [hp]; rfl) (by rw [hp]; rfl)
              (.inr ⟨by rw [hp]; rfl, by rw [hp]; rfl⟩) (fun _ => trivial) nofun nofun
          · rename_i hmirror
            cases hs
            rw [if_neg hmirror]
            exact h.keep hinv rfl rfl rfl rfl rfl (by rw [hp]; rfl) (by rw [hp]; rfl)
              (.inl rfl) (fun _ => trivial)
              (fun y hy => h.answers (hc nofun) (by rw [hp]; rfl) hsettled hy) fun _ => rfl
      | status =>
          obtain ⟨hm, hsettled⟩ := h.commit.holderAt hp rfl
          obtain rfl := hm.resolve_left nofun
          have hset : settles v r.toCommitState i = some (.committed r.disk.generation) := by
            unfold settles
            rw [hp]
          cases hs
          rw [hset]
          exact h.keep hinv rfl rfl rfl rfl rfl (by rw [hp]; rfl) (by rw [hp]; rfl)
            (.inl rfl) (fun _ => trivial)
            (fun y hy => h.answers (hc nofun) (by rw [hp]; rfl) hsettled hy) fun _ => rfl
  | lock =>
      have hset : settles v r.toCommitState i = r.lock.map fun _ => .lockHeld := by
        unfold settles
        rw [hp]
      unfold runStep at hs
      rw [hp] at hs
      rw [hset]
      simp only at hs
      split at hs
      · rename_i j hl
        have hsome : r.lock ≠ none := by
          rw [hl]
          nofun
        cases hs
        rw [hl]
        refine h.keep hinv rfl rfl rfl rfl rfl (by rw [hp]; rfl) (by rw [hp]; rfl)
          (.inl rfl) (fun _ => trivial) (fun y hy => ?_) fun _ => rfl
        obtain rfl := Option.some.inj hy
        exact ⟨fun _ => ⟨rfl, hsome⟩, fun _ => .inr (.inl rfl)⟩
      · rename_i hl
        cases hs
        rw [hl]
        have hd : (dirtyStats r.activeTree).dirty = true := by
          unfold takesLockDirty at hdirty
          simp only [hp, hl] at hdirty
          exact hdirty
        exact h.acquire hp hl hd
  | recreate m dir =>
      have hnone : settles v r.toCommitState i = none := by
        unfold settles
        rw [hp]
      obtain ⟨hsealed, hpub, hlock, hdisk⟩ := ensureActive_same r.toCommitState
      unfold runStep at hs
      rw [hp] at hs
      cases hs
      rw [hnone]
      refine h.keep hinv hsealed hpub ?_ hlock (ensureActive_setPhase _ _ _) (by rw [hp]; rfl)
        (by rw [hp]; rfl) (.inl hdisk) (fun htaken => ?_) nofun nofun
      · show (dirtyStats r.ensureActive.activeTree).dirty = _
        rw [ensureActive_activeTree]
      · have hlists := htaken.lists i
        rw [hp] at hlists
        exact hdisk.trans hlists
  | copy m dir todo copied =>
      have hnone : settles v r.toCommitState i = none := by
        unfold settles
        rw [hp]
      have hlists : r.Taken start → r.disk = start := by
        intro htaken
        have hat := htaken.lists i
        rw [hp] at hat
        exact hat
      unfold runStep at hs
      rw [hp] at hs
      rw [hnone]
      cases todo with
      | cons path todo =>
          cases hs
          exact h.keep hinv rfl rfl rfl rfl rfl (by rw [hp]; rfl) (by rw [hp]; rfl)
            (.inl rfl) hlists nofun nofun
      | nil =>
          cases hs
          exact h.keep hinv rfl rfl rfl rfl rfl (by rw [hp]; rfl) (by rw [hp]; rfl)
            (.inl rfl) hlists nofun nofun
  | dump m dir pack delta =>
      obtain ⟨rfl, hbuilt⟩ := h.commit.holderAt hp rfl
      have hnone : settles v r.toCommitState i = none := by
        unfold settles
        rw [hp]
      unfold runStep at hs
      rw [hp] at hs
      cases hs
      rw [hnone]
      exact h.dumpCommitted hp hbuilt hpaths
  | clean dir =>
      have hnone : settles v r.toCommitState i = none := by
        unfold settles
        rw [hp]
      unfold runStep at hs
      rw [hp] at hs
      cases hs
      rw [hnone]
      have hc : (r.phase i).critical = true := by
        rw [hp]
        rfl
      have htaken := h.taken hc (by rw [hp]; rfl)
      refine h.keep hinv rfl rfl ?_ rfl rfl (by rw [hp]; rfl) (by rw [hp]; rfl) (.inl rfl)
        (fun _ => ?_) nofun nofun
      · rw [htaken.clean]
        exact removed_clean htaken.clean
      · have hlists := htaken.lists i
        rw [hp] at hlists
        exact hlists
  | dumpCompacted m =>
      have hnone : settles v r.toCommitState i = none := by
        unfold settles
        rw [hp]
      unfold runStep at hs
      rw [hp] at hs
      cases hs
      rw [hnone]
      exact h.keep hinv rfl rfl rfl rfl rfl (by rw [hp]; rfl) (by rw [hp]; rfl)
        (.inr ⟨by rw [hp]; rfl, by rw [hp]; rfl⟩) (fun _ => trivial) nofun nofun
  | release =>
      have hsettled : r.Settled := h.commit.holderAt hp rfl
      have hnone : settles v r.toCommitState i = none := by
        unfold settles
        rw [hp]
      unfold runStep at hs
      rw [hp] at hs
      cases hs
      rw [hnone]
      exact h.release hp hsettled

/-- **A call that has not ended goes on**: the child is found, and its packs are merged. -/
theorem SealedOnce.goesOn (h : SealedOnce v start r) (a : Answer) (hidle : r.phase i ≠ .idle)
    (hdone : r.phase i ≠ .done) (hfinds : findsChild v r (.step i a) = true) :
    ∃ s, runStep v r.toCommitState i a = some s := by
  unfold runStep
  cases hp : r.phase i with
  | idle => exact absurd hp hidle
  | done => exact absurd hp hdone
  | reload next q =>
      cases q with
      | scan | loaded => exact ⟨_, rfl⟩
      | stored =>
          unfold findsChild at hfinds
          simp only [hp] at hfinds
          have hsome : (r.registry (v.node i)).isSome := by
            cases next with
            | check => exact hfinds
            | sealUpper | compact | mirror | status =>
                rw [of_decide_eq_true hfinds]
                rfl
          obtain ⟨m, hm⟩ := Option.isSome_iff_exists.mp hsome
          exact ⟨_, congrArg (Option.map _) hm⟩
  | found next m =>
      cases next with
      | check | sealUpper | status => exact ⟨_, rfl⟩
      | mirror =>
          simp only
          split <;> exact ⟨_, rfl⟩
      | compact =>
          obtain ⟨hm, -⟩ := h.commit.holderAt hp rfl
          obtain rfl := hm.resolve_left nofun
          have hlists := (h.taken (by rw [hp]; rfl) (by rw [hp]; rfl)).lists i
          rw [hp] at hlists
          have hnodup : (r.disk.lowers.map (·.path)).Nodup := hlists
          simp only [compactAfterCommit]
          split
          · exact ⟨_, rfl⟩
          · rename_i c hc
            have hrun : runnableCandidate (v.cfg i).levelPolicy r.disk false = some c := by
              unfold postCommitCandidate at hc
              split at hc
              · exact hc
              · cases hc
            obtain ⟨older, hsplit, hne⟩ := runnableCandidate_suffix hrun
            have hmerged := @mergedManifest_suffix _ _ (compactedPack (v.cfg i) r.disk c a.built) _
              hsplit hne hnodup rfl
            exact ⟨_, congrArg (Option.map _) hmerged⟩
  | lock =>
      simp only
      split <;> exact ⟨_, rfl⟩
  | copy m dir todo copied => cases todo <;> exact ⟨_, rfl⟩
  | recreate | dump | clean | dumpCompacted | release => exact ⟨_, rfl⟩

/-- **Every step** keeps the invariant under the condition. -/
theorem raceStep_sealedOnce (h : SealedOnce v start r)
    (hpaths : FreshPaths v start)
    {e : RaceEvent} (hok : RaceOk v r e) (hs : raceStep v r e = some r') :
    SealedOnce v start r' := by
  obtain ⟨hdirty, hfinds, hunmounted⟩ := hok
  cases e with
  | handleCommit i =>
      have hmounts : r.mounts (v.node i) = none := Option.isNone_iff_eq_none.mp hunmounted
      obtain ⟨s, hstep, rfl⟩ := Option.map_eq_some_iff.mp hs
      have hread : ReadsDisk v r.toCommitState (.handleCommit i) := by
        intro y hy
        cases hy
      have hinv := commitStep_inv h.commit hread hstep
      unfold commitStep at hstep
      simp only at hstep
      split at hstep
      · rename_i hidle
        rw [hmounts] at hstep ⊢
        obtain rfl := Option.some.inj hstep
        exact h.keep hinv rfl rfl rfl rfl rfl (by rw [hidle]; rfl) (by rw [hidle]; rfl) (.inl rfl)
          (fun _ => trivial) nofun nofun
      · cases hstep
  | step i a =>
      have hgo : ∀ hidle : r.phase i ≠ .idle, ∀ hdone : r.phase i ≠ .done,
          (match runStep v r.toCommitState i a with
            | some s => some (r.goes s i (settles v r.toCommitState i))
            | none => some (r.goes (raisedCall r.toCommitState i) i (some .raised))) = some r' →
          SealedOnce v start r' := by
        intro hidle hdone hstep
        obtain ⟨s, hrun⟩ := h.goesOn a hidle hdone hfinds
        rw [hrun] at hstep
        obtain rfl := Option.some.inj hstep
        exact runStep_sealedOnce h hdirty hfinds hpaths hrun
      unfold raceStep at hs
      simp only at hs
      split at hs
      · cases hs
      · cases hs
      · rename_i hidle hdone
        exact hgo hidle hdone hs

/-- **The invariant gives one generation.** -/
theorem SealedOnce.oneGeneration (h : SealedOnce v start r) :
    OneGeneration start.generation r.view := by
  have hle := h.commit.published_le
  have hone : r.published ≠ [] → r.Taken start ∧ r.published.length = 1 := by
    intro hne
    have hpos : 0 < r.published.length := List.length_pos_iff.mpr hne
    rcases h.stage with hun | htaken
    · exact absurd hun.nothing hne
    · obtain ⟨d, t, hsource, -⟩ := htaken.source
      rw [hsource, List.length_singleton] at hle
      exact ⟨htaken, by omega⟩
  refine ⟨?_, fun t ht => ?_, fun i x hx => ?_, fun i hi => ?_, fun hended hdone => ?_⟩
  · by_cases hne : r.published = []
    · exact .inl (congrArg (List.map _) hne)
    · exact .inr (h.commit.generation_one (hone hne).2).1
  · obtain ⟨x, hx, rfl⟩ := List.mem_map.mp ht
    obtain ⟨htaken, -⟩ := hone (List.ne_nil_of_mem hx)
    obtain ⟨d, t, hsource, hdirty⟩ := htaken.source
    have hdir : x.dir ∈ r.sealedUppers.map (·.1) :=
      h.commit.published_dirs.subset (List.mem_map_of_mem hx)
    rw [hsource] at hdir ⊢
    rw [List.mem_singleton.mp hdir, List.lookup_cons_self]
    exact hdirty
  · rcases h.stage with hun | htaken
    · exact .inr (.inl (hun.results i x hx).1)
    · rcases htaken.results i x hx with hx' | hx' | ⟨hx', hne⟩
      · exact .inl hx'
      · exact .inr (.inl hx')
      · exact .inr (.inr ⟨hx', (h.commit.generation_one (hone hne).2).1⟩)
  · have hi' : r.phase i = .done := hi
    exact h.settled i (by rw [hi']; rfl)
  · have hfree : ∀ j, (r.phase j).critical = false := by
      intro j
      rcases hended j with hj | hj
      · rw [show r.phase j = .idle from hj]
        rfl
      · rw [show r.phase j = .done from hj]
        rfl
    have hlock : r.lock = none := by
      cases hl : r.lock with
      | none => rfl
      | some j =>
          have hj := h.held j hl
          rw [hfree j] at hj
          cases hj
    obtain ⟨i, hi⟩ := hdone
    have hi' : r.phase i = .done := hi
    obtain ⟨x, hx⟩ := Option.isSome_iff_exists.mp (h.settled i (by rw [hi']; rfl))
    rcases h.stage with hun | htaken
    · exact absurd hlock (hun.results i x hx).2
    · obtain ⟨d, t, hsource, -⟩ := htaken.source
      have hsettled : r.Settled := by
        have hholder := h.commit.holder
        unfold CommitState.held at hholder
        rw [hlock] at hholder
        exact hholder
      have hlen : r.published.length = 1 := by
        rw [hsettled.length, hsource]
        rfl
      exact h.commit.generation_one hlen

theorem DirtyUpper.sealedOnce (s₀ : DirtyUpper v) : SealedOnce v s₀.disk s₀.race := by
  refine ⟨s₀.commitInv v, fun j hj => ?_, fun j hj => ?_, .inl ⟨rfl, s₀.nothingPublished,
    s₀.nothingSealed, s₀.dirty, fun j hj => ?_, nofun⟩⟩
  · have hlock : s₀.lock = some j := hj
    rw [s₀.unlocked] at hlock
    cases hlock
  · have hidle : (s₀.phase j).settled = true := hj
    rw [s₀.idle j] at hidle
    cases hidle
  · have hidle : (s₀.phase j).critical = true := hj
    rw [s₀.idle j] at hidle
    cases hidle

/-- **Every run makes one generation**, where calls take the lock while the upper is dirty. -/
theorem sharedCommits_once (s₀ : DirtyUpper v) {tr : List (Lib.Trans CommitRace RaceEvent)}
    (hrun : Lib.Run (fun a e b => raceStep v a e = some b) s₀.race tr r)
    (hok : ∀ x ∈ tr, RaceOk v x.pre x.ev) :
    OneGeneration s₀.disk.generation r.view ∧
      ∀ x ∈ tr, OneGeneration s₀.disk.generation x.pre.view ∧
        OneGeneration s₀.disk.generation x.post.view := by
  have hinv := hrun.invariant (I := SealedOnce v s₀.disk) (G := RaceOk v) s₀.sealedOnce
    (fun a e b ha hg hs => raceStep_sealedOnce ha s₀.paths hg hs) hok
  exact ⟨hinv.1.oneGeneration, fun x hx =>
    ⟨(hinv.2 x hx).1.oneGeneration, (hinv.2 x hx).2.oneGeneration⟩⟩

end Race

end CccStorage
