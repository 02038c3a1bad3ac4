/-
  File:      CccStorage/MirrorCommits.lean
  Subject:   What any number of `handle_commit` calls on one local-ssd-async child make of its
             mirror, while nothing is written (`mountd/daemon.py`, `_commit_local_async`).

  A call looks at the mirror again when it has both locks, and removes it before it gives them back.

  * `LocalPhase`, `localStep` -- all calls step by step;
  * `MirrorTaken`, `localStep_mirrorTaken` -- what every step keeps;
  * `mirrorCommits_once` -- every run makes one generation;
  * `commits_once` -- the calls of either policy;
  * `doubleCommit_breaks` -- two shared-nfs calls that have seen the same dirty upper.
-/
import CccStorage.OneGeneration
import CccStorage.StateRoots

namespace CccStorage

/-! ## 1. Calls -/

/-- What a local-ssd-async call does next with the manifest it reads back. -/
inductive LocalPoint where
  | check
  /-- "Re-resolve" under both locks. -/
  | retest
  /-- `_cleanup_local_async_state`. -/
  | cleanup
  | compact
  | mirror
  | status
  deriving DecidableEq

inductive LocalPhase where
  | idle
  | reload (next : LocalPoint) (r : Reload)
  | found (next : LocalPoint) (manifest : ChildManifest)
  | writerLock
  | commitLock
  | build (manifest : ChildManifest) (latest : PublishedMirror)
  | dump (manifest : ChildManifest) (latest : PublishedMirror) (built : BuiltFile)
  | cleanLocal
  | dumpCompacted (manifest : ChildManifest)
  | release
  | releaseWriter
  | done

namespace LocalPhase

def hasCommit : LocalPhase → Bool
  | .idle | .reload .check _ | .found .check _ | .writerLock | .commitLock | .releaseWriter
  | .done => false
  | _ => true

def hasWriter : LocalPhase → Bool
  | .idle | .reload .check _ | .found .check _ | .writerLock | .done => false
  | _ => true

def settled : LocalPhase → Bool
  | .release | .releaseWriter | .done => true
  | _ => false

theorem hasWriter_of_hasCommit {p : LocalPhase} (h : p.hasCommit = true) : p.hasWriter = true := by
  cases p with
  | reload next r => cases next <;> first | rfl | cases h
  | found next m => cases next <;> first | rfl | cases h
  | _ => first | rfl | cases h

end LocalPhase

/-- The shared root, the local uppers and the local-ssd-async calls. -/
structure LocalRace where
  disk : ChildManifest
  mirror : Option PublishedMirror
  uppers : Node → Option Tree := fun _ => none
  writerLock : Option CallId := none
  commitLock : Option CallId := none
  registry : Node → Option ChildManifest := fun _ => none
  /-- The child is mounted writable on the node. -/
  mountedRw : Node → Bool := fun _ => false
  phase : CallId → LocalPhase := fun _ => .idle
  /-- The generations published, with the trees their deltas were built from. -/
  published : List (Nat × Tree) := []
  result : CallId → Option CommitResult := fun _ => none

namespace LocalRace

def setPhase (s : LocalRace) (i : CallId) (p : LocalPhase) : LocalRace :=
  { s with phase := Function.update s.phase i p }

/-- A call answers, and goes on to give back its locks. -/
def answer (s : LocalRace) (i : CallId) (x : CommitResult) (p : LocalPhase) : LocalRace :=
  { s with result := Function.update s.result i (some x) }.setPhase i p

/-- `latest_dirty_mirror`, where it has something to commit. -/
def latest (s : LocalRace) : Option PublishedMirror :=
  s.mirror.filter fun m => !(m.fileCount == 0 && m.bytes == 0)

/-- A call that raises leaves its locks. -/
def raised (s : LocalRace) (i : CallId) : LocalRace :=
  { s with
    commitLock := if (s.phase i).hasCommit then none else s.commitLock
    writerLock := if (s.phase i).hasWriter then none else s.writerLock }.answer i .raised .done

end LocalRace

/-- **The next step of a local-ssd-async call.** -/
def localRunStep (v : Services) (s : LocalRace) (i : CallId) (a : Answer) : Option LocalRace :=
  match s.phase i with
  | .idle | .done => none
  | .reload next .scan =>
    some ({ s with registry := Function.update s.registry (v.node i) none }.setPhase i
      (.reload next (.loaded s.disk)))
  | .reload next (.loaded m) =>
    some ({ s with registry := Function.update s.registry (v.node i) (some m) }.setPhase i
      (.reload next .stored))
  | .reload next .stored =>
    match s.registry (v.node i) with
    | some m => some (s.setPhase i (.found next m))
    | none => some (s.raised i)
  | .found .check _ =>
    if s.latest.isSome then some (s.setPhase i .writerLock) else some (s.answer i .clean .done)
  | .writerLock =>
    match s.writerLock with
    | some _ => some (s.answer i .lockHeld .done)
    | none => some ({ s with writerLock := some i }.setPhase i .commitLock)
  | .commitLock =>
    match s.commitLock with
    | some _ => some (s.answer i .lockHeld .releaseWriter)
    | none => some ({ s with commitLock := some i }.setPhase i (.reload .retest .scan))
  | .found .retest m =>
    match s.latest with
    | none => some (s.answer i .clean .release)
    | some latest =>
      if latest.baseGeneration ≠ m.generation then some (s.answer i .stale .release)
      else some (s.setPhase i (.build m latest))
  | .build m latest => some (s.setPhase i (.dump m latest a.built))
  | .dump m latest built =>
    let pack := deltaPack (v.cfg i) (m.generation + 1) built
    some ({ s with
      disk := committedManifest (v.cfg i) m pack "local-ssd-async"
      published := s.published ++ [(m.generation + 1, latest.tree)] }.setPhase i
        (.reload .cleanup .scan))
  | .found .cleanup _ => some ({ s with mirror := none }.setPhase i .cleanLocal)
  | .cleanLocal =>
    some ({ s with uppers := Function.update s.uppers (v.node i) none }.setPhase i
      (.reload .compact .scan))
  | .found .compact m =>
    match postCommitCandidate (v.cfg i) m with
    | none => some (s.setPhase i (.found .mirror m))
    | some c =>
      match mergedManifest m c (compactedPack (v.cfg i) m c a.built) with
      | some merged => some (s.setPhase i (.dumpCompacted merged))
      | none => some (s.raised i)
  | .dumpCompacted m => some ({ s with disk := m }.setPhase i (.reload .mirror .scan))
  | .found .mirror m =>
    if (v.cfg i).mirrorAfterCommit then
      some ({ s with disk := { m with coldStorage := a.cold } }.setPhase i (.reload .status .scan))
    else some (s.answer i (.committed m.generation) .release)
  | .found .status m => some (s.answer i (.committed m.generation) .release)
  | .release => some ({ s with commitLock := none }.setPhase i .releaseWriter)
  | .releaseWriter => some ({ s with writerLock := none }.setPhase i .done)

def localStep (v : Services) (s : LocalRace) : RaceEvent → Option LocalRace
  | .handleCommit i =>
    match s.phase i with
    | .idle =>
      some (if s.mountedRw (v.node i) then s.answer i .refused .done
        else s.setPhase i (.reload .check .scan))
    | _ => none
  | .step i a => localRunStep v s i a

/-- A child whose published mirror has something to commit, on the generation on disk. No call has
    begun, the locks are free, and the paths of its packs are distinct and not that of the next
    delta. -/
structure DirtyMirrorStart (v : Services) where
  disk : ChildManifest
  mirror : PublishedMirror
  uppers : Node → Option Tree
  mountedRw : Node → Bool
  registry : Node → Option ChildManifest
  hasData : ¬ (mirror.fileCount = 0 ∧ mirror.bytes = 0)
  current : mirror.baseGeneration = disk.generation
  paths : FreshPaths v disk

def DirtyMirrorStart.race {v : Services} (s₀ : DirtyMirrorStart v) : LocalRace where
  disk := s₀.disk
  mirror := some s₀.mirror
  uppers := s₀.uppers
  mountedRw := s₀.mountedRw
  registry := s₀.registry

def LocalRace.view (s : LocalRace) : RaceView where
  generations := s.published.map (·.1)
  sources := s.published.map (·.2)
  current := s.disk.generation
  idle i := s.phase i = .idle
  ended i := s.phase i = .done
  result := s.result

/-- **The condition** on a step of local-ssd-async calls: the child is found where a call reads its
    registry back, and under the locks it is the one on disk; no call is made where the child is
    mounted writable. -/
def localOk (v : Services) (s : LocalRace) : RaceEvent → Bool
  | .handleCommit i => !s.mountedRw (v.node i)
  | .step i _ =>
    match s.phase i with
    | .reload .check .stored => (s.registry (v.node i)).isSome
    | .reload _ .stored => decide (s.registry (v.node i) = some s.disk)
    | _ => true

/-! ## 2. What every step keeps -/

namespace LocalRace

/-- Nothing is published, and the mirror is there. -/
def Fresh (start : ChildManifest) (l : PublishedMirror) (s : LocalRace) : Prop :=
  s.published = [] ∧ s.disk = start ∧ s.mirror = some l

def Published (start : ChildManifest) (l : PublishedMirror) (s : LocalRace) : Prop :=
  s.published = [(start.generation + 1, l.tree)] ∧ s.disk.generation = start.generation + 1

/-- The delta is published, and the mirror is gone. -/
def Over (start : ChildManifest) (l : PublishedMirror) (s : LocalRace) : Prop :=
  s.Published start l ∧ s.mirror = none

def Distinct (s : LocalRace) : Prop := (s.disk.lowers.map (·.path)).Nodup

/-- What holds where the holder of the commit lock is. -/
def At (start : ChildManifest) (l : PublishedMirror) (s : LocalRace) : LocalPhase → Prop
  | .found .retest m => m = s.disk ∧ (s.Fresh start l ∨ s.Over start l)
  | .build m latest | .dump m latest _ => m = s.disk ∧ latest = l ∧ s.Fresh start l
  | .reload .cleanup _ | .found .cleanup _ => s.Published start l ∧ s.Distinct
  | .cleanLocal | .reload .compact _ => s.Over start l ∧ s.Distinct
  | .found .compact m => m = s.disk ∧ s.Over start l ∧ s.Distinct
  | .dumpCompacted m => m.generation = s.disk.generation ∧ s.Over start l
  | .found .mirror m | .found .status m => m = s.disk ∧ s.Over start l
  | .reload .mirror _ | .reload .status _ | .release => s.Over start l
  | _ => s.Fresh start l ∨ s.Over start l

/-- The holder of the commit lock. -/
def held (s : LocalRace) : LocalPhase := (s.commitLock.map s.phase).getD .idle

end LocalRace

/-- **The invariant of the local-ssd-async calls**: the mirror is taken once. -/
structure MirrorTaken (start : ChildManifest) (l : PublishedMirror) (s : LocalRace) : Prop where
  holder : s.At start l s.held
  commit : ∀ j, (s.phase j).hasCommit = true ↔ s.commitLock = some j
  writer : ∀ j, (s.phase j).hasWriter = true ↔ s.writerLock = some j
  settled : ∀ j, (s.phase j).settled = true → (s.result j).isSome
  results : ∀ j x, s.result j = some x → x = .lockHeld ∨
    (x = .clean ∨ x = .committed (start.generation + 1)) ∧ s.published ≠ []
  waiting : s.published = [] → (∀ j, s.phase j ≠ .releaseWriter) ∧
    ((∃ j, (s.result j).isSome) → s.writerLock ≠ none)

section Local

variable {v : Services} {start : ChildManifest} {l : PublishedMirror} {s s' : LocalRace}
  {i : CallId} {p : LocalPhase}

theorem LocalRace.At.congr (hdisk : s'.disk = s.disk) (hmirror : s'.mirror = s.mirror)
    (hpub : s'.published = s.published) (h : s.At start l p) : s'.At start l p := by
  have hfresh : s.Fresh start l → s'.Fresh start l := by
    unfold LocalRace.Fresh
    rw [hdisk, hmirror, hpub]
    exact id
  have hpublished : s.Published start l → s'.Published start l := by
    unfold LocalRace.Published
    rw [hdisk, hpub]
    exact id
  have hover : s.Over start l → s'.Over start l := fun h => ⟨hpublished h.1, hmirror.trans h.2⟩
  have hdistinct : s.Distinct → s'.Distinct := by
    unfold LocalRace.Distinct
    rw [hdisk]
    exact id
  cases p with
  | found next m =>
      cases next with
      | check => exact h.imp hfresh hover
      | retest => exact ⟨h.1.trans hdisk.symm, h.2.imp hfresh hover⟩
      | cleanup => exact ⟨hpublished h.1, hdistinct h.2⟩
      | compact => exact ⟨h.1.trans hdisk.symm, hover h.2.1, hdistinct h.2.2⟩
      | mirror | status => exact ⟨h.1.trans hdisk.symm, hover h.2⟩
  | reload next r =>
      cases next with
      | check | retest => exact h.imp hfresh hover
      | cleanup => exact ⟨hpublished h.1, hdistinct h.2⟩
      | compact => exact ⟨hover h.1, hdistinct h.2⟩
      | mirror | status => exact hover h
  | build | dump => exact ⟨h.1.trans hdisk.symm, h.2.1, hfresh h.2.2⟩
  | cleanLocal => exact ⟨hover h.1, hdistinct h.2⟩
  | dumpCompacted m => exact ⟨h.1.trans (congrArg _ hdisk.symm), hover h.2⟩
  | release => exact hover h
  | idle | writerLock | commitLock | releaseWriter | done => exact h.imp hfresh hover

/-- Before the delta is published the mirror is there. -/
theorem LocalRace.At.mirror (h : s.At start l p) (hpub : s.published = []) : s.mirror = some l := by
  have hfresh : s.Fresh start l ∨ s.Over start l → s.mirror = some l := by
    intro h
    rcases h with h | h
    · exact h.2.2
    · rw [h.1.1] at hpub
      cases hpub
  have hover : s.Over start l → s.mirror = some l := fun h => hfresh (.inr h)
  have hpublished : s.Published start l → s.mirror = some l := by
    intro h
    rw [h.1] at hpub
    cases hpub
  cases p with
  | found next m =>
      cases next with
      | check => exact hfresh h
      | retest => exact hfresh h.2
      | cleanup => exact hpublished h.1
      | compact => exact hover h.2.1
      | mirror | status => exact hover h.2
  | reload next r =>
      cases next with
      | check | retest => exact hfresh h
      | cleanup => exact hpublished h.1
      | compact => exact hover h.1
      | mirror | status => exact hover h
  | build | dump => exact h.2.2.2.2
  | cleanLocal => exact hover h.1
  | dumpCompacted m => exact hover h.2
  | release => exact hover h
  | idle | writerLock | commitLock | releaseWriter | done => exact hfresh h

theorem LocalRace.At.published (h : s.At start l p) :
    s.published = [] ∨ s.published = [(start.generation + 1, l.tree)] := by
  have hstage : s.Fresh start l ∨ s.Over start l → _ := fun h => h.imp (·.1) (·.1.1)
  cases p with
  | found next m =>
      cases next with
      | check => exact hstage h
      | retest => exact hstage h.2
      | cleanup => exact .inr h.1.1
      | compact => exact .inr h.2.1.1.1
      | mirror | status => exact .inr h.2.1.1
  | reload next r =>
      cases next with
      | check | retest => exact hstage h
      | cleanup => exact .inr h.1.1
      | compact => exact .inr h.1.1.1
      | mirror | status => exact .inr h.1.1
  | build | dump => exact .inl h.2.2.1
  | cleanLocal => exact .inr h.1.1.1
  | dumpCompacted m => exact .inr h.2.1.1
  | release => exact .inr h.1.1
  | idle | writerLock | commitLock | releaseWriter | done => exact hstage h

theorem MirrorTaken.holderAt (h : MirrorTaken start l s) (hi : s.phase i = p)
    (hp : p.hasCommit = true) : s.At start l p := by
  have hlock := (h.commit i).mp (by rw [hi]; exact hp)
  have hholder := h.holder
  unfold LocalRace.held at hholder
  rw [hlock] at hholder
  rw [← hi]
  exact hholder

/-- An answer that a call may give. -/
def LocalRace.Allowed (start : ChildManifest) (s : LocalRace) (x : CommitResult) : Prop :=
  x = .lockHeld ∧ s.writerLock ≠ none ∨
    (x = .clean ∨ x = .committed (start.generation + 1)) ∧ s.published ≠ []

/-- **A step that takes and gives back no lock** keeps the invariant. -/
theorem MirrorTaken.keep (h : MirrorTaken start l s) (hcl : s'.commitLock = s.commitLock)
    (hwl : s'.writerLock = s.writerLock) (hphase : s'.phase = Function.update s.phase i p)
    (hc : p.hasCommit = (s.phase i).hasCommit) (hw : p.hasWriter = (s.phase i).hasWriter)
    (hp : p ≠ .releaseWriter) (hat : (s.phase i).hasCommit = true → s'.At start l p)
    (hsame : (s.phase i).hasCommit = false →
      s'.disk = s.disk ∧ s'.mirror = s.mirror ∧ s'.published = s.published)
    (hpub : s.published ≠ [] → s'.published ≠ [])
    (hresult : s'.result = s.result ∨
      ∃ x, s'.result = Function.update s.result i (some x) ∧ s.Allowed start x)
    (hset : p.settled = true → (s'.result i).isSome) : MirrorTaken start l s' := by
  have hphases : ∀ j, s'.phase j = if j = i then p else s.phase j := by
    intro j
    rw [hphase, Function.update_apply]
  have hmono : ∀ j, (s.result j).isSome → (s'.result j).isSome := by
    intro j hj
    rcases hresult with heq | ⟨x, heq, -⟩
    · rw [heq]
      exact hj
    · rw [heq, Function.update_apply]
      split
      · rfl
      · exact hj
  have hold : ∀ j x, s'.result j = some x → s.result j = some x ∨ s.Allowed start x := by
    intro j x hx
    rcases hresult with heq | ⟨y, heq, hy⟩
    · exact .inl (heq ▸ hx)
    · rw [heq, Function.update_apply] at hx
      split at hx
      · obtain rfl := Option.some.inj hx
        exact .inr hy
      · exact .inl hx
  refine ⟨?_, fun j => ?_, fun j => ?_, fun j hj => ?_, fun j x hx => ?_, fun hnil => ?_⟩
  · unfold LocalRace.held
    rw [hcl]
    cases hcase : (s.phase i).hasCommit with
    | true =>
        rw [(h.commit i).mp hcase]
        show s'.At start l (s'.phase i)
        rw [hphases, if_pos rfl]
        exact hat hcase
    | false =>
        obtain ⟨hdisk, hmirror, hpublished⟩ := hsame hcase
        refine LocalRace.At.congr hdisk hmirror hpublished ?_
        have hholder := h.holder
        unfold LocalRace.held at hholder
        cases hl : s.commitLock with
        | none =>
            rw [hl] at hholder
            exact hholder
        | some j =>
            rw [hl] at hholder
            have hji : j ≠ i := by
              intro heq
              rw [heq] at hl
              rw [(h.commit i).mpr hl] at hcase
              cases hcase
            show s.At start l (s'.phase j)
            rw [hphases, if_neg hji]
            exact hholder
  · rw [hphases, hcl, ← h.commit j]
    split
    · rename_i hji
      rw [hc, hji]
    · exact Iff.rfl
  · rw [hphases, hwl, ← h.writer j]
    split
    · rename_i hji
      rw [hw, hji]
    · exact Iff.rfl
  · rw [hphases] at hj
    split at hj
    · rename_i hji
      rw [hji]
      exact hset hj
    · exact hmono j (h.settled j hj)
  · rcases hold j x hx with hx | ⟨hx, -⟩ | ⟨hx, hne⟩
    · rcases h.results j x hx with hx | ⟨hx, hne⟩
      · exact .inl hx
      · exact .inr ⟨hx, hpub hne⟩
    · exact .inl hx
    · exact .inr ⟨hx, hpub hne⟩
  · have hempty : s.published = [] := by
      by_contra hne
      exact hpub hne hnil
    obtain ⟨hnot, hwait⟩ := h.waiting hempty
    refine ⟨fun j => ?_, fun hsome => ?_⟩
    · rw [hphases]
      split
      · exact hp
      · exact hnot j
    · rw [hwl]
      obtain ⟨j, hj⟩ := hsome
      obtain ⟨x, hx⟩ := Option.isSome_iff_exists.mp hj
      rcases hold j x hx with hx | ⟨-, hne⟩ | ⟨-, hne⟩
      · exact hwait ⟨j, by rw [hx]; rfl⟩
      · exact hne
      · exact absurd hempty hne

/-- The writer lock is taken. -/
theorem MirrorTaken.takeWriter (h : MirrorTaken start l s) (hi : s.phase i = .writerLock)
    (hl : s.writerLock = none) :
    MirrorTaken start l ({ s with writerLock := some i }.setPhase i .commitLock) := by
  have hfree : ∀ j, (s.phase j).hasWriter = false := by
    intro j
    by_contra hj
    have hlock := (h.writer j).mp (Bool.eq_true_of_not_eq_false hj)
    rw [hl] at hlock
    cases hlock
  have hcl : s.commitLock = none := by
    cases hl : s.commitLock with
    | none => rfl
    | some j =>
        have hj := LocalPhase.hasWriter_of_hasCommit ((h.commit j).mpr hl)
        rw [hfree j] at hj
        cases hj
  refine ⟨?_, fun j => ?_, fun j => ?_, fun j hj => ?_, h.results, fun hnil => ?_⟩
  · have hholder := h.holder
    unfold LocalRace.held at hholder ⊢
    show LocalRace.At start l _ ((s.commitLock.map _).getD .idle)
    rw [hcl] at hholder ⊢
    exact hholder
  · show (Function.update s.phase i .commitLock j).hasCommit = true ↔ s.commitLock = some j
    rw [← h.commit j, Function.update_apply]
    split
    · rename_i hji
      rw [hji, hi]
      exact Iff.rfl
    · exact Iff.rfl
  · show (Function.update s.phase i .commitLock j).hasWriter = true ↔ some i = some j
    rw [Function.update_apply]
    split
    · rename_i hji
      rw [hji]
      exact ⟨fun _ => rfl, fun _ => rfl⟩
    · rename_i hji
      rw [hfree j]
      exact ⟨nofun, fun heq => absurd (Option.some.inj heq).symm hji⟩
  · have hset : (Function.update s.phase i .commitLock j).settled = true := hj
    rw [Function.update_apply] at hset
    split at hset
    · cases hset
    · exact h.settled j hset
  · obtain ⟨hnot, -⟩ := h.waiting hnil
    refine ⟨fun j => ?_, fun _ => nofun⟩
    show Function.update s.phase i .commitLock j ≠ .releaseWriter
    rw [Function.update_apply]
    split
    · nofun
    · exact hnot j

/-- The commit lock is taken: the call has the writer lock, so that nobody has the other. -/
theorem MirrorTaken.takeCommit (h : MirrorTaken start l s) (hi : s.phase i = .commitLock)
    (hl : s.commitLock = none) :
    MirrorTaken start l ({ s with commitLock := some i }.setPhase i (.reload .retest .scan)) := by
  have hfree : ∀ j, (s.phase j).hasCommit = false := by
    intro j
    by_contra hj
    have hlock := (h.commit j).mp (Bool.eq_true_of_not_eq_false hj)
    rw [hl] at hlock
    cases hlock
  refine ⟨?_, fun j => ?_, fun j => ?_, fun j hj => ?_, h.results, fun hnil => ?_⟩
  · have hholder := h.holder
    unfold LocalRace.held at hholder ⊢
    rw [hl] at hholder
    show LocalRace.At start l _ (Function.update s.phase i (.reload .retest .scan) i)
    rw [Function.update_self]
    exact hholder
  · show (Function.update s.phase i (.reload .retest .scan) j).hasCommit = true ↔ some i = some j
    rw [Function.update_apply]
    split
    · rename_i hji
      rw [hji]
      exact ⟨fun _ => rfl, fun _ => rfl⟩
    · rename_i hji
      rw [hfree j]
      exact ⟨nofun, fun heq => absurd (Option.some.inj heq).symm hji⟩
  · show (Function.update s.phase i (.reload .retest .scan) j).hasWriter = true ↔
      s.writerLock = some j
    rw [← h.writer j, Function.update_apply]
    split
    · rename_i hji
      rw [hji, hi]
      exact Iff.rfl
    · exact Iff.rfl
  · have hset : (Function.update s.phase i (.reload .retest .scan) j).settled = true := hj
    rw [Function.update_apply] at hset
    split at hset
    · cases hset
    · exact h.settled j hset
  · obtain ⟨hnot, hwait⟩ := h.waiting hnil
    refine ⟨fun j => ?_, hwait⟩
    show Function.update s.phase i (.reload .retest .scan) j ≠ .releaseWriter
    rw [Function.update_apply]
    split
    · nofun
    · exact hnot j

/-- The commit lock is given back. -/
theorem MirrorTaken.releaseCommit (h : MirrorTaken start l s) (hi : s.phase i = .release) :
    MirrorTaken start l ({ s with commitLock := none }.setPhase i .releaseWriter) := by
  have hover : s.Over start l := h.holderAt hi rfl
  have hlock := (h.commit i).mp (by rw [hi]; rfl)
  refine ⟨.inr hover, fun j => ?_, fun j => ?_, fun j hj => ?_, h.results, fun hnil => ?_⟩
  · show (Function.update s.phase i .releaseWriter j).hasCommit = true ↔ none = some j
    rw [Function.update_apply]
    split
    · exact ⟨nofun, nofun⟩
    · rename_i hji
      refine ⟨fun hj => ?_, nofun⟩
      have hother := (h.commit j).mp hj
      rw [hlock] at hother
      exact absurd (Option.some.inj hother).symm hji
  · show (Function.update s.phase i .releaseWriter j).hasWriter = true ↔ s.writerLock = some j
    rw [← h.writer j, Function.update_apply]
    split
    · rename_i hji
      rw [hji, hi]
      exact Iff.rfl
    · exact Iff.rfl
  · have hset : (Function.update s.phase i .releaseWriter j).settled = true := hj
    rw [Function.update_apply] at hset
    split at hset
    · rename_i hji
      rw [hji]
      exact h.settled i (by rw [hi]; rfl)
    · exact h.settled j hset
  · have hempty : s.published = [] := hnil
    rw [hover.1.1] at hempty
    cases hempty

/-- The writer lock is given back, after the delta is published. -/
theorem MirrorTaken.releaseWriter (h : MirrorTaken start l s) (hi : s.phase i = .releaseWriter) :
    MirrorTaken start l ({ s with writerLock := none }.setPhase i .done) := by
  have hlock := (h.writer i).mp (by rw [hi]; rfl)
  have hphases : ∀ j, s.commitLock = some j → j ≠ i := by
    intro j hj heq
    have hcommit := (h.commit j).mpr hj
    rw [heq, hi] at hcommit
    cases hcommit
  refine ⟨?_, fun j => ?_, fun j => ?_, fun j hj => ?_, h.results, fun hnil => ?_⟩
  · have hholder := h.holder
    unfold LocalRace.held at hholder ⊢
    show LocalRace.At start l _ ((s.commitLock.map (Function.update s.phase i .done)).getD .idle)
    cases hl : s.commitLock with
    | none =>
        rw [hl] at hholder
        exact hholder
    | some j =>
        rw [hl] at hholder
        show LocalRace.At start l _ (Function.update s.phase i .done j)
        rw [Function.update_of_ne (hphases j hl)]
        exact hholder
  · show (Function.update s.phase i .done j).hasCommit = true ↔ s.commitLock = some j
    rw [← h.commit j, Function.update_apply]
    split
    · rename_i hji
      rw [hji, hi]
      exact Iff.rfl
    · exact Iff.rfl
  · show (Function.update s.phase i .done j).hasWriter = true ↔ none = some j
    rw [Function.update_apply]
    split
    · exact ⟨nofun, nofun⟩
    · rename_i hji
      refine ⟨fun hj => ?_, nofun⟩
      have hother := (h.writer j).mp hj
      rw [hlock] at hother
      exact absurd (Option.some.inj hother).symm hji
  · have hset : (Function.update s.phase i .done j).settled = true := hj
    rw [Function.update_apply] at hset
    split at hset
    · rename_i hji
      rw [hji]
      exact h.settled i (by rw [hi]; rfl)
    · exact h.settled j hset
  · exact absurd hi ((h.waiting hnil).1 i)

theorem LocalRace.answer_isSome {x : CommitResult} : ((s.answer i x p).result i).isSome = true := by
  show (Function.update s.result i (some x) i).isSome = true
  rw [Function.update_self]
  rfl

/-- What is found again under both locks is the mirror of the start, until it is taken. -/
theorem LocalRace.latest_some (hdata : ¬ (l.fileCount = 0 ∧ l.bytes = 0))
    (h : s.mirror = some l) : s.latest = some l := by
  unfold LocalRace.latest
  rw [h]
  refine Option.filter_eq_some_iff.mpr ⟨rfl, ?_⟩
  rw [Bool.not_eq_true', Bool.and_eq_false_iff, beq_eq_false_iff_ne, beq_eq_false_iff_ne]
  exact not_and_or.mp hdata

theorem LocalRace.latest_over (h : s.Over start l) : s.latest = none := by
  unfold LocalRace.latest
  rw [h.2]
  rfl

theorem LocalRace.Over.current (h : s.Over start l) {m : ChildManifest} (hm : m = s.disk) :
    s.Allowed start (.committed m.generation) := by
  refine .inr ⟨.inr ?_, ?_⟩
  · rw [hm, h.1.2]
  · rw [h.1.1]
    nofun

/-- **The delta is published** from the mirror that was there at the start. -/
theorem LocalRace.Fresh.dump {built : BuiltFile} (h : s.Fresh start l)
    (hpaths : FreshPaths v start)
    (hdisk : s'.disk = committedManifest (v.cfg i) s.disk
      (deltaPack (v.cfg i) (s.disk.generation + 1) built) "local-ssd-async")
    (hpublished : s'.published = s.published ++ [(s.disk.generation + 1, l.tree)]) :
    s'.Published start l ∧ s'.Distinct := by
  obtain ⟨hpub, rfl, -⟩ := h
  refine ⟨⟨?_, ?_⟩, ?_⟩
  · rw [hpublished, hpub]
    rfl
  · rw [hdisk]
    rfl
  · unfold LocalRace.Distinct
    rw [hdisk]
    show (List.map (fun x : PackInfo => x.path) (s.disk.lowers ++ [_])).Nodup
    rw [List.map_append]
    exact hpaths

theorem localRunStep_mirrorTaken (h : MirrorTaken start l s)
    (hdata : ¬ (l.fileCount = 0 ∧ l.bytes = 0)) (hcurrent : l.baseGeneration = start.generation)
    (hpaths : FreshPaths v start)
    {a : Answer} (hok : localOk v s (.step i a) = true) (hs : localRunStep v s i a = some s') :
    MirrorTaken start l s' := by
  unfold localRunStep at hs
  cases hp : s.phase i with
  | idle | done =>
      rw [hp] at hs
      cases hs
  | reload next r =>
      have hat : (s.phase i).hasCommit = true → s.At start l (.reload next r) := by
        intro hc
        exact h.holderAt hp (hp ▸ hc)
      rw [hp] at hs
      cases r with
      | scan =>
          obtain rfl := Option.some.inj hs
          refine h.keep rfl rfl rfl (by rw [hp]; cases next <;> rfl)
            (by rw [hp]; cases next <;> rfl) nofun (fun hc => ?_) (fun _ => ⟨rfl, rfl, rfl⟩) id
            (.inl rfl) nofun
          have hheld := hat hc
          cases next <;> exact hheld
      | loaded m =>
          obtain rfl := Option.some.inj hs
          refine h.keep rfl rfl rfl (by rw [hp]; cases next <;> rfl)
            (by rw [hp]; cases next <;> rfl) nofun (fun hc => ?_) (fun _ => ⟨rfl, rfl, rfl⟩) id
            (.inl rfl) nofun
          have hheld := hat hc
          cases next <;> exact hheld
      | stored =>
          unfold localOk at hok
          simp only [hp] at hok hs
          have hread : next ≠ .check → s.registry (v.node i) = some s.disk := by
            intro hne
            cases next with
            | check => exact absurd rfl hne
            | retest | cleanup | compact | mirror | status => exact of_decide_eq_true hok
          cases hreg : s.registry (v.node i) with
          | none =>
              cases next with
              | check =>
                  rw [hreg] at hok
                  cases hok
              | retest | cleanup | compact | mirror | status =>
                  have hdisk := hread nofun
                  rw [hreg] at hdisk
                  cases hdisk
          | some m =>
              rw [hreg] at hs
              obtain rfl := Option.some.inj hs
              refine h.keep rfl rfl rfl (by rw [hp]; cases next <;> rfl)
                (by rw [hp]; cases next <;> rfl) nofun (fun hc => ?_) (fun _ => ⟨rfl, rfl, rfl⟩) id
                (.inl rfl) nofun
              have hheld := hat hc
              have hm : next ≠ .check → m = s.disk := by
                intro hne
                exact Option.some.inj (hreg.symm.trans (hread hne))
              cases next with
              | check => exact hheld
              | retest => exact ⟨hm nofun, hheld⟩
              | cleanup => exact hheld
              | compact => exact ⟨hm nofun, hheld⟩
              | mirror | status => exact ⟨hm nofun, hheld⟩
  | found next m =>
      have hat : (s.phase i).hasCommit = true → s.At start l (.found next m) := by
        intro hc
        exact h.holderAt hp (hp ▸ hc)
      rw [hp] at hs
      cases next with
      | check =>
          simp only at hs
          split at hs
          · obtain rfl := Option.some.inj hs
            exact h.keep rfl rfl rfl (by rw [hp]; rfl) (by rw [hp]; rfl) nofun
              (fun hc => by rw [hp] at hc; cases hc) (fun _ => ⟨rfl, rfl, rfl⟩) id (.inl rfl) nofun
          · rename_i hnone
            obtain rfl := Option.some.inj hs
            have hpub : s.published ≠ [] := by
              intro hnil
              have hmirror := h.holder.mirror hnil
              refine hnone ?_
              rw [LocalRace.latest_some hdata hmirror]
              rfl
            exact h.keep rfl rfl rfl (by rw [hp]; rfl) (by rw [hp]; rfl) nofun
              (fun hc => by rw [hp] at hc; cases hc) (fun _ => ⟨rfl, rfl, rfl⟩) id
              (.inr ⟨.clean, rfl, .inr ⟨.inl rfl, hpub⟩⟩)
              fun _ => LocalRace.answer_isSome
      | retest =>
          obtain ⟨rfl, hstage⟩ := hat (by rw [hp]; rfl)
          simp only at hs
          rcases hstage with hfresh | hover
          · rw [LocalRace.latest_some hdata hfresh.2.2] at hs
            have hbase : ¬ l.baseGeneration ≠ s.disk.generation := by
              rw [hfresh.2.1, hcurrent]
              exact not_not.mpr rfl
            simp only [if_neg hbase] at hs
            obtain rfl := Option.some.inj hs
            exact h.keep rfl rfl rfl (by rw [hp]; rfl) (by rw [hp]; rfl) nofun
              (fun _ => ⟨rfl, rfl, hfresh⟩) (fun hc => by rw [hp] at hc; cases hc) id (.inl rfl)
              nofun
          · rw [LocalRace.latest_over hover] at hs
            obtain rfl := Option.some.inj hs
            have hne : s.published ≠ [] := by
              rw [hover.1.1]
              nofun
            exact h.keep rfl rfl rfl (by rw [hp]; rfl) (by rw [hp]; rfl) nofun (fun _ => hover)
              (fun hc => by rw [hp] at hc; cases hc) id (.inr ⟨.clean, rfl, .inr ⟨.inl rfl, hne⟩⟩)
              fun _ => LocalRace.answer_isSome
      | cleanup =>
          obtain ⟨hpub, hdistinct⟩ := hat (by rw [hp]; rfl)
          obtain rfl := Option.some.inj hs
          exact h.keep rfl rfl rfl (by rw [hp]; rfl) (by rw [hp]; rfl) nofun
            (fun _ => ⟨⟨hpub, rfl⟩, hdistinct⟩) (fun hc => by rw [hp] at hc; cases hc) id
            (.inl rfl) nofun
      | compact =>
          obtain ⟨rfl, hover, hdistinct⟩ := hat (by rw [hp]; rfl)
          simp only at hs
          split at hs
          · obtain rfl := Option.some.inj hs
            exact h.keep rfl rfl rfl (by rw [hp]; rfl) (by rw [hp]; rfl) nofun
              (fun _ => ⟨rfl, hover⟩) (fun hc => by rw [hp] at hc; cases hc) id (.inl rfl) nofun
          · rename_i c hc
            have hrun : runnableCandidate (v.cfg i).levelPolicy s.disk false = some c := by
              unfold postCommitCandidate at hc
              split at hc
              · exact hc
              · cases hc
            obtain ⟨older, hsplit, hne⟩ := runnableCandidate_suffix hrun
            have hmerged := @mergedManifest_suffix _ _ (compactedPack (v.cfg i) s.disk c a.built) _
              hsplit hne hdistinct rfl
            rw [hmerged] at hs
            obtain rfl := Option.some.inj hs
            exact h.keep rfl rfl rfl (by rw [hp]; rfl) (by rw [hp]; rfl) nofun
              (fun _ => ⟨rfl, hover⟩) (fun hc => by rw [hp] at hc; cases hc) id (.inl rfl) nofun
      | mirror =>
          obtain ⟨rfl, hover⟩ := hat (by rw [hp]; rfl)
          simp only at hs
          split at hs
          · obtain rfl := Option.some.inj hs
            exact h.keep rfl rfl rfl (by rw [hp]; rfl) (by rw [hp]; rfl) nofun
              (fun _ => hover) (fun hc => by rw [hp] at hc; cases hc) id (.inl rfl) nofun
          · obtain rfl := Option.some.inj hs
            exact h.keep rfl rfl rfl (by rw [hp]; rfl) (by rw [hp]; rfl) nofun
              (fun _ => hover) (fun hc => by rw [hp] at hc; cases hc) id
              (.inr ⟨_, rfl, hover.current rfl⟩)
              fun _ => LocalRace.answer_isSome
      | status =>
          obtain ⟨rfl, hover⟩ := hat (by rw [hp]; rfl)
          obtain rfl := Option.some.inj hs
          exact h.keep rfl rfl rfl (by rw [hp]; rfl) (by rw [hp]; rfl) nofun
            (fun _ => hover) (fun hc => by rw [hp] at hc; cases hc) id
            (.inr ⟨_, rfl, hover.current rfl⟩)
            fun _ => LocalRace.answer_isSome
  | writerLock =>
      rw [hp] at hs
      simp only at hs
      split at hs
      · rename_i j hl
        have hne : s.writerLock ≠ none := by
          rw [hl]
          nofun
        obtain rfl := Option.some.inj hs
        exact h.keep rfl rfl rfl (by rw [hp]; rfl) (by rw [hp]; rfl) nofun
          (fun hc => by rw [hp] at hc; cases hc) (fun _ => ⟨rfl, rfl, rfl⟩) id
          (.inr ⟨_, rfl, .inl ⟨rfl, hne⟩⟩) fun _ => LocalRace.answer_isSome
      · rename_i hl
        obtain rfl := Option.some.inj hs
        exact h.takeWriter hp hl
  | commitLock =>
      rw [hp] at hs
      simp only at hs
      split at hs
      · rename_i j hl
        -- the holder has the writer lock too
        have hcommit := (h.commit j).mpr hl
        have hwriter := (h.writer j).mp (LocalPhase.hasWriter_of_hasCommit hcommit)
        rw [(h.writer i).mp (by rw [hp]; rfl)] at hwriter
        obtain rfl : i = j := Option.some.inj hwriter
        rw [hp] at hcommit
        cases hcommit
      · rename_i hl
        obtain rfl := Option.some.inj hs
        exact h.takeCommit hp hl
  | build m latest =>
      rw [hp] at hs
      have hat := h.holderAt hp rfl
      obtain rfl := Option.some.inj hs
      exact h.keep rfl rfl rfl (by rw [hp]; rfl) (by rw [hp]; rfl) nofun
        (fun _ => hat) (fun hc => by rw [hp] at hc; cases hc) id (.inl rfl) nofun
  | dump m latest built =>
      rw [hp] at hs
      obtain ⟨rfl, rfl, hfresh⟩ := h.holderAt hp rfl
      obtain rfl := Option.some.inj hs
      exact h.keep rfl rfl rfl (by rw [hp]; rfl) (by rw [hp]; rfl) nofun
        (fun _ => hfresh.dump hpaths rfl rfl) (fun hc => by rw [hp] at hc; cases hc)
        (fun _ => List.append_ne_nil_of_right_ne_nil _ nofun) (.inl rfl) nofun
  | cleanLocal =>
      rw [hp] at hs
      have hat := h.holderAt hp rfl
      obtain rfl := Option.some.inj hs
      exact h.keep rfl rfl rfl (by rw [hp]; rfl) (by rw [hp]; rfl) nofun
        (fun _ => hat) (fun hc => by rw [hp] at hc; cases hc) id (.inl rfl) nofun
  | dumpCompacted m =>
      rw [hp] at hs
      obtain ⟨hgen, hover⟩ := h.holderAt hp rfl
      obtain rfl := Option.some.inj hs
      exact h.keep rfl rfl rfl (by rw [hp]; rfl) (by rw [hp]; rfl) nofun
        (fun _ => ⟨⟨hover.1.1, hgen.trans hover.1.2⟩, hover.2⟩)
        (fun hc => by rw [hp] at hc; cases hc) id (.inl rfl) nofun
  | release =>
      rw [hp] at hs
      obtain rfl := Option.some.inj hs
      exact h.releaseCommit hp
  | releaseWriter =>
      rw [hp] at hs
      obtain rfl := Option.some.inj hs
      exact h.releaseWriter hp

theorem localStep_mirrorTaken (h : MirrorTaken start l s)
    (hdata : ¬ (l.fileCount = 0 ∧ l.bytes = 0)) (hcurrent : l.baseGeneration = start.generation)
    (hpaths : FreshPaths v start)
    {e : RaceEvent} (hok : localOk v s e = true) (hs : localStep v s e = some s') :
    MirrorTaken start l s' := by
  cases e with
  | handleCommit i =>
      unfold localStep at hs
      simp only at hs
      split at hs
      · rename_i hidle
        have hmounted : s.mountedRw (v.node i) = false := by
          unfold localOk at hok
          simpa using hok
        rw [hmounted] at hs
        obtain rfl := Option.some.inj hs
        exact h.keep rfl rfl rfl (by rw [hidle]; rfl) (by rw [hidle]; rfl) nofun
          (fun hc => by rw [hidle] at hc; cases hc) (fun _ => ⟨rfl, rfl, rfl⟩) id (.inl rfl) nofun
      · cases hs
  | step i a => exact localRunStep_mirrorTaken h hdata hcurrent hpaths hok hs

/-- What a published mirror counts is in its tree. -/
theorem dirty_of_counts (hdata : ¬ (l.fileCount = 0 ∧ l.bytes = 0)) :
    (dirtyStats l.tree).dirty = true := by
  by_contra hclean
  obtain ⟨hfiles, hbytes⟩ := l.counted
  have hlen : (dirtyStats l.tree).fileCount = 0 := by
    have hnot : ¬ 0 < (dirtyStats l.tree).fileCount := fun hpos =>
      hclean (decide_eq_true hpos)
    omega
  have hsum : (dirtyStats l.tree).bytes = 0 := by
    unfold dirtyStats at hlen ⊢
    rw [List.eq_nil_of_length_eq_zero hlen]
    rfl
  exact hdata ⟨hfiles.trans hlen, hbytes.trans hsum⟩

/-- **The invariant gives one generation.** -/
theorem MirrorTaken.oneGeneration (h : MirrorTaken start l s)
    (hdata : ¬ (l.fileCount = 0 ∧ l.bytes = 0)) : OneGeneration start.generation s.view := by
  have hstage := h.holder.published
  have hsome : s.published ≠ [] → s.view.generations = [start.generation + 1] := by
    intro hne
    show s.published.map (·.1) = _
    rw [hstage.resolve_left hne]
    rfl
  refine ⟨?_, fun t ht => ?_, fun i x hx => ?_, fun i hi => ?_, fun hended hdone => ?_⟩
  · by_cases hne : s.published = []
    · exact .inl (congrArg (List.map _) hne)
    · exact .inr (hsome hne)
  · obtain ⟨y, hy, rfl⟩ := List.mem_map.mp ht
    rw [hstage.resolve_left (List.ne_nil_of_mem hy)] at hy
    rw [List.mem_singleton.mp hy]
    exact dirty_of_counts hdata
  · rcases h.results i x hx with hx | ⟨hx | hx, hne⟩
    · exact .inr (.inl hx)
    · exact .inl hx
    · exact .inr (.inr ⟨hx, hsome hne⟩)
  · have hi' : s.phase i = .done := hi
    exact h.settled i (by rw [hi']; rfl)
  · have hfree : s.commitLock = none ∧ s.writerLock = none := by
      have hnot : ∀ j, (s.phase j).hasCommit = false ∧ (s.phase j).hasWriter = false := by
        intro j
        rcases hended j with hj | hj
        · rw [show s.phase j = .idle from hj]
          exact ⟨rfl, rfl⟩
        · rw [show s.phase j = .done from hj]
          exact ⟨rfl, rfl⟩
      constructor
      · by_contra hl
        obtain ⟨j, hj⟩ := Option.ne_none_iff_exists'.mp hl
        have hcommit := (h.commit j).mpr hj
        rw [(hnot j).1] at hcommit
        cases hcommit
      · by_contra hl
        obtain ⟨j, hj⟩ := Option.ne_none_iff_exists'.mp hl
        have hwriter := (h.writer j).mpr hj
        rw [(hnot j).2] at hwriter
        cases hwriter
    obtain ⟨i, hi⟩ := hdone
    have hi' : s.phase i = .done := hi
    have hanswer := h.settled i (by rw [hi']; rfl)
    have hne : s.published ≠ [] := fun hnil => (h.waiting hnil).2 ⟨i, hanswer⟩ hfree.2
    have hholder := h.holder
    unfold LocalRace.held at hholder
    rw [hfree.1] at hholder
    rcases hholder with hfresh | hover
    · exact absurd hfresh.1 hne
    · exact ⟨hsome hne, hover.1.2⟩

theorem DirtyMirrorStart.mirrorTaken (s₀ : DirtyMirrorStart v) :
    MirrorTaken s₀.disk s₀.mirror s₀.race where
  holder := .inl ⟨rfl, rfl, rfl⟩
  commit _ := ⟨nofun, nofun⟩
  writer _ := ⟨nofun, nofun⟩
  settled := nofun
  results := nofun
  waiting _ := ⟨nofun, fun hsome => by
    obtain ⟨j, hj⟩ := hsome
    cases hj⟩

/-- **Every run makes one generation.** -/
theorem mirrorCommits_once (s₀ : DirtyMirrorStart v) {tr : List (Lib.Trans LocalRace RaceEvent)}
    (hrun : Lib.Run (fun a e b => localStep v a e = some b) s₀.race tr s)
    (hok : ∀ x ∈ tr, localOk v x.pre x.ev = true) :
    OneGeneration s₀.disk.generation s.view ∧
      ∀ x ∈ tr, OneGeneration s₀.disk.generation x.pre.view ∧
        OneGeneration s₀.disk.generation x.post.view := by
  have hinv := hrun.invariant (I := MirrorTaken s₀.disk s₀.mirror)
    (G := fun a e => localOk v a e = true) s₀.mirrorTaken
    (fun a e b ha hg hs => localStep_mirrorTaken ha s₀.hasData s₀.current s₀.paths hg hs) hok
  exact ⟨hinv.1.oneGeneration s₀.hasData, fun x hx =>
    ⟨(hinv.2 x hx).1.oneGeneration s₀.hasData, (hinv.2 x hx).2.oneGeneration s₀.hasData⟩⟩

end Local

/-! ## 3. Either policy -/

/-- **One dirty state makes one generation**, whatever the write policy: in every state of every
    run whose shared-nfs calls are given the lock while the upper is dirty. -/
theorem commits_once (v : Services) :
    (∀ (s₀ : DirtyUpper v) tr r,
      Lib.Run (fun a e b => raceStep v a e = some b) s₀.race tr r →
      (∀ x ∈ tr, RaceOk v x.pre x.ev) →
      OneGeneration s₀.disk.generation r.view ∧
        ∀ x ∈ tr, OneGeneration s₀.disk.generation x.pre.view ∧
          OneGeneration s₀.disk.generation x.post.view) ∧
    (∀ (s₀ : DirtyMirrorStart v) tr s,
      Lib.Run (fun a e b => localStep v a e = some b) s₀.race tr s →
      (∀ x ∈ tr, localOk v x.pre x.ev = true) →
      OneGeneration s₀.disk.generation s.view ∧
        ∀ x ∈ tr, OneGeneration s₀.disk.generation x.pre.view ∧
          OneGeneration s₀.disk.generation x.post.view) :=
  ⟨fun s₀ _ _ hrun hok => sharedCommits_once s₀ hrun hok,
    fun s₀ _ _ hrun hok => mirrorCommits_once s₀ hrun hok⟩

/-- An upper with one file. -/
def oneFile : DirtyUpper twoServices where
  toIdleState := dirtyUpper
  unlocked := rfl
  dirty := rfl
  paths := List.nodup_singleton _

def oneFileMirror : DirtyMirrorStart twoServices where
  disk := dirtyUpper.disk
  mirror := publishedEpoch ⟨[(["a"], .file [1])]⟩ 0
  uppers := fun _ => none
  mountedRw := fun _ => false
  registry := fun _ => none
  hasData := by decide
  current := rfl
  paths := List.nodup_singleton _

def raceSteps (n : Nat) (i : CallId) : List RaceEvent := List.replicate n (.step i {})

/-- Calls 0 and 2, on two nodes: when the first has ended, the second starts. -/
def oneAfterTheOther : List RaceEvent :=
  .handleCommit 0 :: raceSteps 20 0 ++ .handleCommit 2 :: raceSteps 4 2

/-- Calls 0 and 2, of local-ssd-async: the second has seen the mirror before the first began. -/
def bothSeeMirror : List RaceEvent :=
  .handleCommit 2 :: raceSteps 4 2 ++ .handleCommit 0 :: raceSteps 24 0 ++ raceSteps 8 2

theorem commits_once_runs :
    (∃ r, Lib.Run (fun a e b => raceStep twoServices a e = some b) oneFile.race
        (Lib.trace (raceStep twoServices) oneFile.race oneAfterTheOther) r ∧
      r.result 0 = some (.committed 1) ∧ r.result 2 = some .clean ∧ OneGeneration 0 r.view) ∧
    ∃ s, Lib.Run (fun a e b => localStep twoServices a e = some b) oneFileMirror.race
        (Lib.trace (localStep twoServices) oneFileMirror.race bothSeeMirror) s ∧
      s.result 0 = some (.committed 1) ∧ s.result 2 = some .clean ∧ OneGeneration 0 s.view := by
  obtain ⟨hshared, hlocal⟩ := commits_once twoServices
  constructor
  · obtain ⟨r, hrun⟩ := Lib.Run.trace (raceStep twoServices) oneAfterTheOther oneFile.race
    have hend : ∃ x ∈ (Lib.trace (raceStep twoServices) oneFile.race oneAfterTheOther).getLast?,
        x.post.result 0 = some (.committed 1) ∧ x.post.result 2 = some .clean := by
      decide +kernel
    obtain ⟨x, hx, hresults⟩ := hend
    rw [← hrun.eq_post hx] at hresults
    exact ⟨r, hrun, hresults.1, hresults.2, (hshared oneFile _ r hrun (by decide +kernel)).1⟩
  · obtain ⟨s, hrun⟩ := Lib.Run.trace (localStep twoServices) bothSeeMirror oneFileMirror.race
    have hend : ∃ x ∈ (Lib.trace (localStep twoServices) oneFileMirror.race
        bothSeeMirror).getLast?,
        x.post.result 0 = some (.committed 1) ∧ x.post.result 2 = some .clean := by
      decide +kernel
    obtain ⟨x, hx, hresults⟩ := hend
    rw [← hrun.eq_post hx] at hresults
    exact ⟨s, hrun, hresults.1, hresults.2, (hlocal oneFileMirror _ s hrun (by decide +kernel)).1⟩

/-- Calls 0 and 2, of shared-nfs, on two nodes: both have seen the dirty upper before either has
    the lock. -/
def bothSeeDirty : List RaceEvent :=
  .handleCommit 0 :: raceSteps 4 0 ++ .handleCommit 2 :: raceSteps 4 2 ++ raceSteps 16 0 ++
    raceSteps 15 2

/-- **The second commit seals the new, empty upper** and publishes it as another generation. -/
theorem doubleCommit_breaks : ¬ ∀ (v : Services) (s₀ : DirtyUpper v) tr r,
    Lib.Run (fun a e b => raceStep v a e = some b) s₀.race tr r →
      OneGeneration s₀.disk.generation r.view := by
  intro h
  obtain ⟨r, hrun⟩ := Lib.Run.trace (raceStep twoServices) bothSeeDirty oneFile.race
  have hend : ∃ x ∈ (Lib.trace (raceStep twoServices) oneFile.race bothSeeDirty).getLast?,
      x.post.published.map (·.generation) = [1, 2] := by decide +kernel
  obtain ⟨x, hx, htwo⟩ := hend
  rw [← hrun.eq_post hx] at htwo
  have hone : r.published.map (·.generation) = [] ∨ r.published.map (·.generation) = [1] :=
    (h twoServices oneFile _ r hrun).atMostOne
  rw [htwo] at hone
  rcases hone with hnil | hone
  · cases hnil
  · cases hone

end CccStorage
