/-
  File:      CccStorage/Unmount.lean
  Subject:   The last unmount of a local-ssd-async writer, step by step between application writes,
             and the commit of what it published (`mountd/childmount.py`, `mountd/daemon.py`).

  All four ways to unmount publish the mirror, unmount the overlay and release the writer lock, in
  that order. The mirror is a copy of the local upper that is taken while the overlay is writable;
  the commit takes its delta from the mirror and deletes both.

  * `LocalWriter`, `writerStep` -- one node's writer and its service;
  * `FreshRelease`, `unmount_keepsWrites` -- a commit loses nothing as long as the lock is only
    released when the mirror has what the upper has;
  * `BeforeCopy`, `freshRelease_of_beforeCopy` -- as it has when no write comes after its copy;
  * `lateWrite_notKept` -- a write between the copy and the unmount, on each of the four ways.
-/
import CccStorage.StateRoots
import CccStorage.SerialCommits

namespace CccStorage

/-! ## 1. The writer of one node -/

/-- What the unmount of a record reads. -/
structure WriterRecord where
  refcount : Int
  lastUsed : Int
  baseGeneration : Nat
  deriving DecidableEq

inductive UnmountCall where
  | unmount
  | forceUnmount
  | idleUnmountExpired (ttl now : Int)
  | stopAll
  deriving DecidableEq

/-- Where the last unmount is. -/
inductive UnmountPhase where
  | idle
  | publish (record : WriterRecord)
  /-- `_copy_logical_tree`: the paths listed and not yet copied, and the copy. -/
  | copy (record : WriterRecord) (todo : List Path) (copied : List (Path × Entry))
  | unmount
  | release

structure LocalWriter where
  disk : ChildManifest
  /-- The node-local upper. -/
  upper : Tree
  /-- The latest published epoch, on the shared root. -/
  mirror : Option PublishedMirror
  record : Option WriterRecord
  /-- The overlay is mounted. -/
  mounted : Bool
  writerLock : Bool
  phase : UnmountPhase := .idle
  /-- The deltas that commits have listed. -/
  committed : List (PackInfo × Tree) := []
  /-- What applications were told is written, by path. -/
  completed : Path → Option Bytes := fun _ => none

/-- Remove a file. -/
def unlink (t : Tree) (p : Path) : Tree := ⟨t.nodes.filter fun x => x.1 ≠ p⟩

theorem lookup_unlink {t : Tree} {p q : Path} :
    (unlink t p).nodes.lookup q = if q = p then none else t.nodes.lookup q := by
  show (t.nodes.filter fun x => x.1 ≠ p).lookup q = _
  rw [Tree.lookup_filter fun a => decide (a ≠ p)]
  by_cases hq : q = p
  · rw [if_pos hq, if_neg (by simpa using hq)]
  · rw [if_neg hq, if_pos (by simpa using hq)]

/-- The names in a directory, as `iterdir` and `copytree` list them. -/
def listed (t : Tree) (d : Path) : List Path :=
  ((t.below d).map fun r => d ++ r.take 1).dedup

/-- **The next step of the last unmount**; `none` where the call raises, or none is under way. -/
def unmountStep (s : LocalWriter) : Option LocalWriter :=
  match s.phase with
  | .idle => none
  | .publish r =>
    if (dirtyStats s.upper).dirty then some { s with phase := .copy r (listed s.upper []) [] }
    else some { s with phase := .unmount }
  | .copy r (p :: todo) copied =>
    match s.upper.nodes.lookup p with
    | some .dir =>
      some { s with phase := .copy r (listed s.upper p ++ todo) ((p, .dir) :: copied) }
    | some (.file content) =>
      some { s with phase := .copy r todo ((p, .file content) :: copied) }
    | some (.symlink target) =>
      some { s with phase := .copy r todo ((p, .symlink target) :: copied) }
    | some .whiteout | some .special | none =>
      -- skipped at the top; below it `copytree` raises
      if p.length = 1 then some { s with phase := .copy r todo copied } else none
  | .copy r [] copied =>
    some { s with
      mirror := some (publishedEpoch ⟨copied⟩ r.baseGeneration)
      phase := .unmount }
  | .unmount => some { s with mounted := false, phase := .release }
  | .release => some { s with writerLock := false, record := none, phase := .idle }

/-- A call that unmounts, up to its publish. -/
def beginUnmount (s : LocalWriter) (r : WriterRecord) : UnmountCall → LocalWriter
  | .unmount =>
    let r := { r with refcount := r.refcount - 1 }
    { s with record := some r, phase := if r.refcount ≤ 0 then .publish r else .idle }
  | .forceUnmount | .stopAll => { s with record := none, phase := .publish r }
  | .idleUnmountExpired ttl now =>
    if 0 < r.refcount then s
    else if ttl ≤ now - r.lastUsed then { s with phase := .publish r }
    else s

/-- `handle_commit` of the child, up to the cleanup; a builder that raises leaves all as it is. -/
def commitMirror (cfg : NodeConfig) (s : LocalWriter) (built : Option BuiltFile) : LocalWriter :=
  if s.record.isSome && s.mounted then s
  else
    match s.mirror, built with
    | some latest, some b =>
      if latest.fileCount = 0 ∧ latest.bytes = 0 then s
      else if s.writerLock then s
      else if latest.baseGeneration ≠ s.disk.generation then s
      else
        let pack := deltaPack cfg (s.disk.generation + 1) b
        { s with
          disk := committedManifest cfg s.disk pack "local-ssd-async"
          committed := s.committed ++ [(pack, prepareDeltaSource latest.tree)]
          mirror := none
          upper := ⟨[]⟩ }
    | _, _ => s

inductive WriterEvent where
  | makeDir (path : Path)
  | write (path : Path) (content : Bytes)
  /-- A file is deleted; a device whiteout stays where a lower layer has the name. -/
  | delete (path : Path) (below : Bool)
  | call (c : UnmountCall)
  | step
  /-- The call raises where it is. -/
  | fail
  | handleCommit (built : Option BuiltFile)

/-- An application may write a file here: in a directory of the upper. -/
def LocalWriter.Writable (s : LocalWriter) (path : Path) : Prop :=
  s.mounted = true ∧ path ≠ [] ∧ s.upper.get path.dropLast = some .dir ∧ s.upper.get path ≠ some .dir

instance (s : LocalWriter) (path : Path) : Decidable (s.Writable path) :=
  inferInstanceAs (Decidable (_ ∧ _ ∧ _ ∧ _))

def writerStep (cfg : NodeConfig) (s : LocalWriter) : WriterEvent → Option LocalWriter
  | .makeDir path =>
    if s.Writable path ∧ s.upper.get path = none then
      some { s with upper := s.upper.set path .dir }
    else none
  | .write path content =>
    if s.Writable path then
      some { s with
        upper := s.upper.set path (.file content)
        completed := Function.update s.completed path (some content) }
    else none
  | .delete path below =>
    if s.Writable path then
      some { s with
        upper := if below then s.upper.set path .whiteout else unlink s.upper path
        completed := Function.update s.completed path none }
    else none
  | .call c =>
    match s.phase, s.record with
    | .idle, some r => some (beginUnmount s r c)
    | .idle, none => some s
    | _, _ => none
  | .step => unmountStep s
  | .fail => some { s with phase := .idle }
  | .handleCommit built => some (commitMirror cfg s built)

/-! ## 2. Releases with a fresh mirror -/

/-- **The mirror is fresh**: if there is one, it has every file of the upper as it is there. -/
def LocalWriter.MirrorFresh (s : LocalWriter) : Prop :=
  ∀ m ∈ s.mirror, ∀ x ∈ s.upper.nodes, (s.upper.nodes.lookup x.1 matches some (.file _)) →
    m.tree.nodes.lookup x.1 = s.upper.nodes.lookup x.1

instance (s : LocalWriter) : Decidable s.MirrorFresh :=
  inferInstanceAs (Decidable (∀ m ∈ s.mirror, ∀ x ∈ s.upper.nodes, _ → _ = _))

theorem LocalWriter.mirrorFresh_iff {s : LocalWriter} : s.MirrorFresh ↔ ∀ m ∈ s.mirror,
    ∀ path content, s.upper.nodes.lookup path = some (.file content) →
      m.tree.nodes.lookup path = some (.file content) := by
  constructor
  · intro h m hm path content hfile
    obtain ⟨x, hx, rfl⟩ := List.mem_map.mp (Tree.lookup_ne_none.mp
      (Option.ne_none_iff_exists'.mpr ⟨_, hfile⟩))
    rw [h m hm x hx (by rw [hfile]), hfile]
  · intro h m hm x hx hfile
    split at hfile
    · rename_i content hcontent
      rw [hcontent]
      exact h m hm x.1 content hcontent
    · cases hfile

/-- The step that releases the writer lock. -/
def LocalWriter.releases (s : LocalWriter) : WriterEvent → Bool
  | .step => match s.phase with
    | .release => true
    | _ => false
  | _ => false

/-- **The writer lock is released with a fresh mirror.** -/
def FreshRelease (s : LocalWriter) (e : WriterEvent) : Prop := s.releases e = true → s.MirrorFresh

instance (s : LocalWriter) (e : WriterEvent) : Decidable (FreshRelease s e) :=
  inferInstanceAs (Decidable (_ → _))

/-- **No completed write is lost**: it is in the local upper, in the mirror or in a committed
    delta. -/
def LocalWriter.Kept (s : LocalWriter) : Prop :=
  ∀ path content, s.completed path = some content →
    s.upper.nodes.lookup path = some (.file content) ∨
    (∃ m ∈ s.mirror, m.tree.nodes.lookup path = some (.file content)) ∨
    ∃ d ∈ s.committed, d.2.nodes.lookup path = some (.file content)

/-- The upper keeps what is written until a commit; without the lock nothing is written, and the
    mirror is fresh. -/
structure WriterInv (s : LocalWriter) : Prop where
  kept : ∀ path content, s.completed path = some content →
    s.upper.nodes.lookup path = some (.file content) ∨
      ∃ d ∈ s.committed, d.2.nodes.lookup path = some (.file content)
  unlocked : s.writerLock = false →
    s.record = none ∧ s.phase = .idle ∧ s.mounted = false ∧ s.MirrorFresh
  releasing : s.phase = .release → s.mounted = false

section Keeps

variable {cfg : NodeConfig} {s s' : LocalWriter} {path : Path} {content : Bytes}

theorem WriterInv.writes (h : WriterInv s) (hw : s.Writable path) {upper : Tree}
    {completed : Path → Option Bytes}
    (hkept : ∀ q c, completed q = some c → upper.nodes.lookup q = some (.file c) ∨
      ∃ d ∈ s.committed, d.2.nodes.lookup q = some (.file c)) :
    WriterInv { s with upper := upper, completed := completed } where
  kept := hkept
  unlocked := by
    intro hfree
    have hmounted := (h.unlocked hfree).2.2.1
    rw [hw.1] at hmounted
    cases hmounted
  releasing := h.releasing

theorem WriterInv.unmountStep (h : WriterInv s) (hg : FreshRelease s .step)
    (hs : unmountStep s = some s') : WriterInv s' := by
  have hlocked : s.phase ≠ .idle → s.writerLock = true := by
    intro hne
    cases hl : s.writerLock with
    | true => rfl
    | false => exact absurd (h.unlocked hl).2.1 hne
  -- until the release, only the phase, the mirror and the mount change
  have hon : ∀ {s₁ : LocalWriter}, s₁.upper = s.upper → s₁.committed = s.committed →
      s₁.completed = s.completed → s₁.writerLock = true →
      (s₁.phase = .release → s₁.mounted = false) → WriterInv s₁ := by
    intro s₁ hupper hcommitted hcompleted hlock hreleasing
    refine ⟨?_, fun hfree => ?_, hreleasing⟩
    · rw [hupper, hcommitted, hcompleted]
      exact h.kept
    · rw [hlock] at hfree
      cases hfree
  unfold CccStorage.unmountStep at hs
  cases hp : s.phase with
  | idle =>
      rw [hp] at hs
      cases hs
  | publish r =>
      rw [hp] at hs hlocked
      simp only at hs
      split at hs <;> cases hs <;> exact hon rfl rfl rfl (hlocked nofun) nofun
  | copy r todo copied =>
      rw [hp] at hs hlocked
      cases todo with
      | nil =>
          cases hs
          exact hon rfl rfl rfl (hlocked nofun) nofun
      | cons p todo =>
          simp only at hs
          split at hs
          · cases hs
            exact hon rfl rfl rfl (hlocked nofun) nofun
          · cases hs
            exact hon rfl rfl rfl (hlocked nofun) nofun
          · cases hs
            exact hon rfl rfl rfl (hlocked nofun) nofun
          all_goals
            split at hs
            · cases hs
              exact hon rfl rfl rfl (hlocked nofun) nofun
            · cases hs
  | unmount =>
      rw [hp] at hs hlocked
      cases hs
      exact hon rfl rfl rfl (hlocked nofun) fun _ => rfl
  | release =>
      have hreleases : s.releases .step = true := by
        unfold LocalWriter.releases
        simp only [hp]
      rw [hp] at hs
      cases hs
      exact ⟨h.kept, fun _ => ⟨rfl, rfl, h.releasing hp, hg hreleases⟩, nofun⟩

theorem WriterInv.beginUnmount (h : WriterInv s) {r : WriterRecord} (hr : s.record = some r)
    (c : UnmountCall) : WriterInv (beginUnmount s r c) := by
  have hlocked : s.writerLock = false → False := by
    intro hfree
    have hnone := (h.unlocked hfree).1
    rw [hr] at hnone
    cases hnone
  have hbegun : ∀ (record : Option WriterRecord) (phase : UnmountPhase), phase ≠ .release →
      WriterInv { s with record := record, phase := phase } := fun record phase hne =>
    ⟨h.kept, fun hfree => (hlocked hfree).elim, fun hp => absurd hp hne⟩
  cases c with
  | unmount =>
      refine hbegun _ _ ?_
      split <;> exact nofun
  | forceUnmount | stopAll => exact hbegun _ _ nofun
  | idleUnmountExpired ttl now =>
      unfold CccStorage.beginUnmount
      simp only
      split
      · exact h
      · split
        · exact hbegun _ _ nofun
        · exact h

/-- **A commit** takes its delta from a mirror that is fresh. -/
theorem WriterInv.commitMirror (h : WriterInv s) (cfg : NodeConfig) (built : Option BuiltFile) :
    WriterInv (commitMirror cfg s built) := by
  unfold CccStorage.commitMirror
  split
  · exact h
  · split
    · rename_i latest b hmirror
      split
      · exact h
      · split
        · exact h
        · rename_i hfree
          rw [Bool.not_eq_true] at hfree
          split
          · exact h
          · obtain ⟨hrecord, hphase, hmounted, hfresh⟩ := h.unlocked hfree
            refine ⟨fun path content hdone => .inr ?_, fun _ => ⟨hrecord, hphase, hmounted, nofun⟩,
              h.releasing⟩
            rcases h.kept path content hdone with hupper | ⟨d, hd, hfile⟩
            · have hlatest := LocalWriter.mirrorFresh_iff.mp hfresh latest hmirror path content hupper
              exact ⟨_, List.mem_append_right _ List.mem_cons_self,
                prepareDeltaSource_lookup hlatest rfl⟩
            · exact ⟨d, List.mem_append_left _ hd, hfile⟩
    · exact h

/-- **Every event keeps the completed writes**, if releases are fresh. -/
theorem writerStep_inv (h : WriterInv s) {e : WriterEvent} (hg : FreshRelease s e)
    (hs : writerStep cfg s e = some s') : WriterInv s' := by
  cases e with
  | makeDir path =>
      obtain ⟨⟨hw, hnone⟩, hs⟩ := Option.ite_none_right_eq_some.mp hs
      cases hs
      refine h.writes hw fun q c hq => (h.kept q c hq).imp_left fun hfile => ?_
      rw [Tree.lookup_set, if_neg]
      · exact hfile
      · rintro rfl
        rw [Tree.get_of_ne hw.2.1, hfile] at hnone
        cases hnone
  | write path content =>
      obtain ⟨hw, hs⟩ := Option.ite_none_right_eq_some.mp hs
      cases hs
      refine h.writes hw fun q c hq => ?_
      rw [Tree.lookup_set]
      by_cases hqp : q = path
      · rw [hqp, Function.update_self] at hq
        rw [if_pos hqp, ← Option.some.inj hq]
        exact .inl rfl
      · rw [Function.update_of_ne hqp] at hq
        rw [if_neg hqp]
        exact h.kept q c hq
  | delete path below =>
      obtain ⟨hw, hs⟩ := Option.ite_none_right_eq_some.mp hs
      cases hs
      refine h.writes hw fun q c hq => ?_
      by_cases hqp : q = path
      · rw [hqp, Function.update_self] at hq
        cases hq
      · rw [Function.update_of_ne hqp] at hq
        refine (h.kept q c hq).imp_left fun hfile => ?_
        split
        · rw [Tree.lookup_set, if_neg hqp]
          exact hfile
        · rw [lookup_unlink, if_neg hqp]
          exact hfile
  | call c =>
      simp only [writerStep] at hs
      split at hs
      · rename_i r hphase hr
        cases hs
        exact h.beginUnmount hr c
      · cases hs
        exact h
      · cases hs
  | step => exact h.unmountStep hg hs
  | fail =>
      cases hs
      exact ⟨h.kept, fun hfree => ⟨(h.unlocked hfree).1, rfl, (h.unlocked hfree).2.2⟩, nofun⟩
  | handleCommit built =>
      cases hs
      exact h.commitMirror cfg built

end Keeps

/-- A writer with its lock, before the first write. -/
structure MountedWriter extends LocalWriter where
  locked : writerLock = true
  notBegun : phase = .idle
  nothingCompleted : ∀ path, completed path = none

theorem MountedWriter.writerInv (s₀ : MountedWriter) : WriterInv s₀.toLocalWriter where
  kept := by
    intro path content hdone
    rw [s₀.nothingCompleted] at hdone
    cases hdone
  unlocked := by
    intro hfree
    rw [s₀.locked] at hfree
    cases hfree
  releasing := by
    intro hp
    rw [s₀.notBegun] at hp
    cases hp

theorem WriterInv.kept_somewhere {s : LocalWriter} (h : WriterInv s) : s.Kept :=
  fun path content hdone => (h.kept path content hdone).imp_right .inr

/-- **Unmounting and committing loses no completed write**, on any of the four ways and whenever
    applications write, in every run that releases the writer lock with a fresh mirror. -/
theorem unmount_keepsWrites (cfg : NodeConfig) (s₀ : MountedWriter) {s : LocalWriter}
    {tr : List (Lib.Trans LocalWriter WriterEvent)}
    (hrun : Lib.Run (fun a e b => writerStep cfg a e = some b) s₀.toLocalWriter tr s)
    (hok : ∀ x ∈ tr, FreshRelease x.pre x.ev) : s.Kept ∧ ∀ x ∈ tr, x.pre.Kept ∧ x.post.Kept := by
  have hinv := hrun.invariant (I := WriterInv) (G := FreshRelease) s₀.writerInv
    (fun a e b ha hg hs => writerStep_inv ha hg hs) hok
  exact ⟨hinv.1.kept_somewhere, fun x hx =>
    ⟨(hinv.2 x hx).1.kept_somewhere, (hinv.2 x hx).2.kept_somewhere⟩⟩

/-! ## 3. Writes before their copy -/

/-- The copy has still to come to the path. -/
def UnmountPhase.Covers (path : Path) : UnmountPhase → Prop
  | .copy _ todo _ => ∃ q ∈ todo, q <+: path
  | .idle | .publish _ => True
  | .unmount | .release => False

def WriterEvent.written : WriterEvent → Option Path
  | .write path _ => some path
  | _ => none

/-- The step that finds nothing to publish. -/
def LocalWriter.skips (s : LocalWriter) : WriterEvent → Bool
  | .step => match s.phase with
    | .publish _ => !(dirtyStats s.upper).dirty
    | _ => false
  | _ => false

/-- **Writes come before their copy**, and where there is nothing to publish the mirror is fresh
    as it is. -/
structure BeforeCopy (s : LocalWriter) (e : WriterEvent) : Prop where
  intime : ∀ path ∈ e.written, s.phase.Covers path
  skipped : s.skips e = true → s.MirrorFresh

/-- **How far the copy is**: what it has of the upper, and what it will still come to. -/
structure CopyCovers (s : LocalWriter) : Prop where
  closed : DirClosed s.upper.get
  rootless : s.upper.nodes.lookup [] = none
  copy : ∀ r todo copied, s.phase = .copy r todo copied → ∀ path content,
    s.upper.nodes.lookup path = some (.file content) →
      (∃ q ∈ todo, q <+: path) ∨ copied.lookup path = some (.file content)
  fresh : s.phase = .unmount ∨ s.phase = .release → s.MirrorFresh

section Covers

variable {cfg : NodeConfig} {s s' : LocalWriter} {t : Tree} {path p : Path} {content : Bytes}

/-- What is below a directory is below one of its listed names. -/
theorem listed_covers {d r : Path} (hr : r ≠ []) (h : t.get (d ++ r) ≠ none) :
    ∃ q ∈ listed t d, q <+: d ++ r := by
  refine ⟨d ++ r.take 1, ?_, ?_⟩
  · unfold listed
    rw [List.mem_dedup]
    exact List.mem_map_of_mem (Tree.mem_below.mpr ⟨hr, h⟩)
  · rw [List.prefix_append_right_inj]
    exact List.take_prefix 1 r

theorem dirClosed_set {e : Entry} (h : DirClosed t.get) (hp : p ≠ [])
    (hparent : t.get p.dropLast = some .dir) (hdir : e = .dir ∨ t.get p ≠ some .dir) :
    DirClosed (t.set p e).get := by
  intro d n hne
  rw [Tree.get_set hp] at hne ⊢
  have hd : t.get d = some .dir := by
    by_cases hdn : d ++ [n] = p
    · rw [← hdn, List.dropLast_concat] at hparent
      exact hparent
    · rw [if_neg hdn] at hne
      exact h d n hne
  by_cases hdp : d = p
  · rw [if_pos hdp]
    rcases hdir with rfl | hnot
    · rfl
    · exact absurd (hdp ▸ hd) hnot
  · rw [if_neg hdp]
    exact hd

theorem get_unlink (hp : p ≠ []) {q : Path} :
    (unlink t p).get q = if q = p then none else t.get q := by
  unfold Tree.get
  by_cases hq : q = []
  · rw [if_pos hq, if_pos hq, if_neg fun heq => hp (heq.symm.trans hq)]
  · rw [if_neg hq, if_neg hq, lookup_unlink]

theorem dirClosed_unlink (h : DirClosed t.get) (hp : p ≠ []) (hnot : t.get p ≠ some .dir) :
    DirClosed (unlink t p).get := by
  intro d n hne
  rw [get_unlink hp] at hne ⊢
  have hd : t.get d = some .dir := by
    split at hne
    · exact absurd rfl hne
    · exact h d n hne
  have hdp : d ≠ p := by
    intro heq
    rw [heq] at hd
    exact hnot hd
  rw [if_neg hdp]
  exact hd

/-- **An application's change** of the upper keeps the copy complete, where it comes before it. -/
theorem CopyCovers.edit (h : CopyCovers s) {upper : Tree} {completed : Path → Option Bytes}
    (hclosed : DirClosed upper.get) (hrootless : upper.nodes.lookup [] = none)
    (hfiles : ∀ q c, upper.nodes.lookup q = some (.file c) →
      s.upper.nodes.lookup q = some (.file c) ∨ s.phase.Covers q) :
    CopyCovers { s with upper := upper, completed := completed } where
  closed := hclosed
  rootless := hrootless
  copy := by
    intro r todo copied hp q c hq
    rcases hfiles q c hq with hold | hcovers
    · exact h.copy r todo copied hp q c hold
    · have hphase : s.phase = .copy r todo copied := hp
      rw [hphase] at hcovers
      exact .inl hcovers
  fresh := by
    intro hp
    refine LocalWriter.mirrorFresh_iff.mpr fun m hm q c hq => ?_
    rcases hfiles q c hq with hold | hcovers
    · exact LocalWriter.mirrorFresh_iff.mp (h.fresh hp) m hm q c hold
    · have hphase : s.phase = .unmount ∨ s.phase = .release := hp
      rcases hphase with hphase | hphase
      all_goals
        rw [hphase] at hcovers
        exact hcovers.elim

/-- **The copy goes on** at a path: a directory is listed, and of the rest only files and symlinks
    are copied. -/
theorem CopyCovers.copyNext (h : CopyCovers s) {r : WriterRecord} {todo : List Path}
    {copied : List (Path × Entry)} (hp : s.phase = .copy r (p :: todo) copied)
    (hs : unmountStep s = some s') : CopyCovers s' := by
  have hcovered := h.copy r (p :: todo) copied hp
  have hat : ∀ q c, s.upper.nodes.lookup q = some (.file c) → p <+: q → q ≠ p → p ≠ [] →
      s.upper.nodes.lookup p = some .dir := by
    intro q c hq hpq hne hp0
    have hq0 : q ≠ [] := by
      intro hq0
      rw [hq0, h.rootless] at hq
      cases hq
    have hget : s.upper.get q ≠ none := by
      rw [Tree.get_of_ne hq0, hq]
      exact Option.some_ne_none _
    rw [← Tree.get_of_ne hp0]
    exact h.closed.above hget hpq hne.symm
  have hmove : ∀ {todo' : List Path} {copied' : List (Path × Entry)},
      (∀ q c, s.upper.nodes.lookup q = some (.file c) →
        (∃ x ∈ p :: todo, x <+: q) ∨ copied.lookup q = some (.file c) →
          (∃ x ∈ todo', x <+: q) ∨ copied'.lookup q = some (.file c)) →
      CopyCovers { s with phase := .copy r todo' copied' } := by
    intro todo' copied' hstep
    refine ⟨h.closed, h.rootless, fun r₁ todo₁ copied₁ hphase q c hq => ?_,
      fun hphase => hphase.elim nofun nofun⟩
    cases hphase
    exact hstep q c hq (hcovered q c hq)
  -- an entry that is copied as it is, or left out, has no file below it
  have hleaf : ∀ {copied' : List (Path × Entry)}, s.upper.nodes.lookup p ≠ some .dir → p ≠ [] →
      (∀ c, s.upper.nodes.lookup p = some (.file c) → copied'.lookup p = some (.file c)) →
      (∀ q, q ≠ p → copied'.lookup q = copied.lookup q) →
        CopyCovers { s with phase := .copy r todo copied' } := by
    intro copied' hnot hp0 hself hother
    refine hmove fun q c hq hcov => ?_
    by_cases hqp : q = p
    · rw [hqp] at hq ⊢
      exact .inr (hself c hq)
    · rw [hother q hqp]
      refine hcov.imp_left fun ⟨x, hx, hxq⟩ => ?_
      rcases List.mem_cons.mp hx with rfl | hx
      · exact absurd (hat q c hq hxq hqp hp0) hnot
      · exact ⟨x, hx, hxq⟩
  have hfound : ∀ e, s.upper.nodes.lookup p = some e → p ≠ [] := by
    intro e he hp0
    rw [hp0, h.rootless] at he
    cases he
  have hcons : ∀ (e : Entry) q, q ≠ p → List.lookup q ((p, e) :: copied) = copied.lookup q := by
    intro e q hq
    rw [List.lookup_cons, beq_eq_false_iff_ne.mpr hq]
  unfold unmountStep at hs
  rw [hp] at hs
  simp only at hs
  split at hs
  · rename_i hdir
    cases hs
    refine hmove fun q c hq hcov => ?_
    have hqp : q ≠ p := by
      rintro rfl
      rw [hdir] at hq
      cases hq
    rw [hcons _ q hqp]
    refine hcov.imp_left fun ⟨x, hx, hxq⟩ => ?_
    rcases List.mem_cons.mp hx with rfl | hx
    · obtain ⟨d, rfl⟩ := hxq
      have hd : d ≠ [] := by
        rintro rfl
        exact hqp (List.append_nil x)
      have hget : s.upper.get (x ++ d) ≠ none := by
        rw [Tree.get_of_ne (by simp [hd]), hq]
        exact Option.some_ne_none _
      obtain ⟨y, hy, hyq⟩ := listed_covers hd hget
      exact ⟨y, List.mem_append_left _ hy, hyq⟩
    · exact ⟨x, List.mem_append_right _ hx, hxq⟩
  · rename_i content hfile
    cases hs
    refine hleaf (by rw [hfile]; exact nofun) (hfound _ hfile) (fun c hc => ?_) (hcons _)
    rw [List.lookup_cons_self, ← hfile]
    exact hc
  · rename_i target hlink
    cases hs
    refine hleaf (by rw [hlink]; exact nofun) (hfound _ hlink) (fun c hc => ?_) (hcons _)
    rw [hlink] at hc
    cases hc
  all_goals
    rename_i hother
    split at hs
    · rename_i hlen
      cases hs
      have hp0 : p ≠ [] := by
        rintro rfl
        cases hlen
      refine hleaf (by rw [hother]; exact nofun) hp0 (fun c hc => ?_) fun _ _ => rfl
      rw [hother] at hc
      cases hc
    · cases hs

/-- **Every step of the unmount** keeps the copy complete. -/
theorem CopyCovers.unmountStep (h : CopyCovers s) (hb : BeforeCopy s .step)
    (hs : unmountStep s = some s') : CopyCovers s' := by
  cases hp : s.phase with
  | copy r todo copied =>
      cases todo with
      | cons p todo => exact h.copyNext hp hs
      | nil =>
          unfold CccStorage.unmountStep at hs
          rw [hp] at hs
          cases hs
          refine ⟨h.closed, h.rootless, nofun, fun _ => LocalWriter.mirrorFresh_iff.mpr ?_⟩
          intro m hm path content hfile
          cases hm
          rcases h.copy r [] copied hp path content hfile with ⟨q, hq, -⟩ | hcopied
          · cases hq
          · exact hcopied
  | publish r =>
      have hskip : (dirtyStats s.upper).dirty = false → s.MirrorFresh := by
        intro hclean
        refine hb.skipped ?_
        unfold LocalWriter.skips
        simp only [hp, hclean, Bool.not_false]
      unfold CccStorage.unmountStep at hs
      rw [hp] at hs
      simp only at hs
      split at hs
      · cases hs
        refine ⟨h.closed, h.rootless, ?_, fun hphase => hphase.elim nofun nofun⟩
        intro r₁ todo copied hphase path content hfile
        cases hphase
        left
        have hp0 : path ≠ [] := by
          rintro rfl
          rw [h.rootless] at hfile
          cases hfile
        have hget : s.upper.get ([] ++ path) ≠ none := by
          rw [List.nil_append, Tree.get_of_ne hp0, hfile]
          exact Option.some_ne_none _
        exact listed_covers hp0 hget
      · rename_i hclean
        cases hs
        exact ⟨h.closed, h.rootless, nofun, fun _ => hskip (Bool.not_eq_true _ ▸ hclean)⟩
  | unmount =>
      unfold CccStorage.unmountStep at hs
      rw [hp] at hs
      cases hs
      exact ⟨h.closed, h.rootless, nofun, fun _ => h.fresh (.inl hp)⟩
  | release =>
      unfold CccStorage.unmountStep at hs
      rw [hp] at hs
      cases hs
      exact ⟨h.closed, h.rootless, nofun, fun hphase => hphase.elim nofun nofun⟩
  | idle =>
      unfold CccStorage.unmountStep at hs
      rw [hp] at hs
      cases hs

/-- **Every event keeps the copy complete**, if writes come before their copy. -/
theorem writerStep_covers (h : CopyCovers s) {e : WriterEvent} (hb : BeforeCopy s e)
    (hs : writerStep cfg s e = some s') : CopyCovers s' := by
  cases e with
  | makeDir path =>
      obtain ⟨⟨hw, -⟩, hs⟩ := Option.ite_none_right_eq_some.mp hs
      cases hs
      refine h.edit (dirClosed_set h.closed hw.2.1 hw.2.2.1 (.inl rfl)) ?_ fun q c hq => .inl ?_
      · rw [Tree.lookup_set, if_neg hw.2.1.symm]
        exact h.rootless
      · rw [Tree.lookup_set] at hq
        split at hq
        · cases hq
        · exact hq
  | write path content =>
      obtain ⟨hw, hs⟩ := Option.ite_none_right_eq_some.mp hs
      cases hs
      refine h.edit (dirClosed_set h.closed hw.2.1 hw.2.2.1 (.inr hw.2.2.2)) ?_ fun q c hq => ?_
      · rw [Tree.lookup_set, if_neg hw.2.1.symm]
        exact h.rootless
      · rw [Tree.lookup_set] at hq
        split at hq
        · rename_i hqp
          rw [hqp]
          exact .inr (hb.intime path rfl)
        · exact .inl hq
  | delete path below =>
      obtain ⟨hw, hs⟩ := Option.ite_none_right_eq_some.mp hs
      cases hs
      cases below with
      | true =>
          refine h.edit (dirClosed_set h.closed hw.2.1 hw.2.2.1 (.inr hw.2.2.2)) ?_
            fun q c hq => .inl ?_
          · rw [if_pos rfl, Tree.lookup_set, if_neg hw.2.1.symm]
            exact h.rootless
          · rw [if_pos rfl, Tree.lookup_set] at hq
            split at hq
            · cases hq
            · exact hq
      | false =>
          refine h.edit (dirClosed_unlink h.closed hw.2.1 hw.2.2.2) ?_ fun q c hq => .inl ?_
          · rw [if_neg Bool.false_ne_true, lookup_unlink, if_neg hw.2.1.symm]
            exact h.rootless
          · rw [if_neg Bool.false_ne_true, lookup_unlink] at hq
            split at hq
            · cases hq
            · exact hq
  | call c =>
      have hbegun : ∀ (record : Option WriterRecord) (phase : UnmountPhase),
          (phase = .idle ∨ ∃ r, phase = .publish r) →
            CopyCovers { s with record := record, phase := phase } := by
        intro record phase hphase
        refine ⟨h.closed, h.rootless, ?_, ?_⟩ <;> rcases hphase with rfl | ⟨r, rfl⟩
        · exact nofun
        · exact nofun
        · exact fun hp => hp.elim nofun nofun
        · exact fun hp => hp.elim nofun nofun
      simp only [writerStep] at hs
      split at hs
      · cases hs
        cases c with
        | unmount =>
            refine hbegun _ _ ?_
            split
            · exact .inr ⟨_, rfl⟩
            · exact .inl rfl
        | forceUnmount | stopAll => exact hbegun _ _ (.inr ⟨_, rfl⟩)
        | idleUnmountExpired ttl now =>
            unfold beginUnmount
            simp only
            split
            · exact h
            · split
              · exact hbegun _ _ (.inr ⟨_, rfl⟩)
              · exact h
      · cases hs
        exact h
      · cases hs
  | step => exact h.unmountStep hb hs
  | fail =>
      cases hs
      exact ⟨h.closed, h.rootless, nofun, fun hp => hp.elim nofun nofun⟩
  | handleCommit built =>
      cases hs
      unfold commitMirror
      split
      · exact h
      · split
        · split
          · exact h
          · split
            · exact h
            · split
              · exact h
              · refine ⟨fun d n hne => absurd ?_ hne, rfl, ?_, fun _ => nofun⟩
                · rw [Tree.get_of_ne (by simp)]
                  rfl
                · intro r todo copied _ path content hq
                  cases hq
        · exact h

end Covers

/-- **Writes before their copy make every release fresh.** -/
theorem freshRelease_of_beforeCopy (cfg : NodeConfig) (s₀ : MountedWriter)
    (hclosed : DirClosed s₀.upper.get) (hrootless : s₀.upper.nodes.lookup [] = none)
    {s : LocalWriter} {tr : List (Lib.Trans LocalWriter WriterEvent)}
    (hrun : Lib.Run (fun a e b => writerStep cfg a e = some b) s₀.toLocalWriter tr s)
    (hok : ∀ x ∈ tr, BeforeCopy x.pre x.ev) : ∀ x ∈ tr, FreshRelease x.pre x.ev := by
  have hstart : CopyCovers s₀.toLocalWriter := by
    refine ⟨hclosed, hrootless, ?_, ?_⟩
    · rw [s₀.notBegun]
      exact nofun
    · rw [s₀.notBegun]
      exact fun hp => hp.elim nofun nofun
  have hinv := hrun.invariant (I := CopyCovers) (G := BeforeCopy) hstart
    (fun a e b ha hb hs => writerStep_covers ha hb hs) hok
  intro x hx hreleases
  refine (hinv.2 x hx).1.fresh (.inr ?_)
  unfold LocalWriter.releases at hreleases
  split at hreleases
  · split at hreleases
    · assumption
    · cases hreleases
  · cases hreleases

/-! ### Writes around one copy -/

/-- A writer with an idle mount and an empty upper. -/
def idleWriter : MountedWriter where
  disk := { idleCommits.disk with writePolicy := .localSsdAsync }
  upper := ⟨[]⟩
  mirror := none
  record := some { refcount := 0, lastUsed := 0, baseGeneration := 0 }
  mounted := true
  writerLock := true
  locked := rfl
  notBegun := rfl
  nothingCompleted := fun _ => rfl

def writerTrace (es : List WriterEvent) : List (Lib.Trans LocalWriter WriterEvent) :=
  Lib.trace (writerStep coldNode) idleWriter.toLocalWriter es

/-- `b` is written when `a` has been listed and not been copied, over an older `b`. -/
def writeDuringCopy : List WriterEvent :=
  [.write ["b"] [0], .write ["a"] [1], .call .unmount, .step, .write ["b"] [2]] ++
    List.replicate 5 .step ++ [.handleCommit (some { sha256 := "", size := 1 })]

theorem unmount_keepsWrites_duringCopy :
    ∃ s, Lib.Run (fun a e b => writerStep coldNode a e = some b) idleWriter.toLocalWriter
        (writerTrace writeDuringCopy) s ∧
      s.completed ["b"] = some [2] ∧ s.upper.nodes = [] ∧ s.Kept := by
  obtain ⟨s, hrun⟩ := Lib.Run.trace (writerStep coldNode) writeDuringCopy idleWriter.toLocalWriter
  have hs : s = (writerTrace writeDuringCopy)[10].post := hrun.eq_post rfl
  have hkept := (unmount_keepsWrites coldNode idleWriter hrun (by decide)).1
  rw [hs] at hrun hkept
  exact ⟨_, hrun, by decide, by decide, hkept⟩

/-- `b` is written when the mirror has been published, and the overlay is still mounted. -/
def writeBeforeUnmount (c : UnmountCall) : List WriterEvent :=
  [.write ["a"] [1], .call c, .step, .step, .step, .write ["b"] [2], .step, .step,
    .handleCommit (some { sha256 := "", size := 1 })]

/-- The late write is in none of the three, whichever call unmounts. -/
theorem lateWrite_notKept :
    ∀ c ∈ [UnmountCall.unmount, .forceUnmount, .idleUnmountExpired 60 100, .stopAll],
      ∃ s, Lib.Run (fun a e b => writerStep coldNode a e = some b) idleWriter.toLocalWriter
          (writerTrace (writeBeforeUnmount c)) s ∧
        s.completed ["b"] = some [2] ∧ s.upper.nodes = [] ∧ s.mirror.isNone = true ∧
        s.committed.map (fun d => d.2.nodes) = [[(["a"], .file [1])]] ∧ ¬ s.Kept := by
  intro c hc
  obtain ⟨s, hrun⟩ := Lib.Run.trace (writerStep coldNode) (writeBeforeUnmount c)
    idleWriter.toLocalWriter
  have hends : ∀ c ∈ [UnmountCall.unmount, .forceUnmount, .idleUnmountExpired 60 100, .stopAll],
      ∃ x ∈ (writerTrace (writeBeforeUnmount c)).getLast?, x.post.completed ["b"] = some [2] ∧
        x.post.upper.nodes = [] ∧ x.post.mirror.isNone = true ∧
        x.post.committed.map (fun d => d.2.nodes) = [[(["a"], .file [1])]] := by
    decide
  obtain ⟨x, hx, hdone, hupper, hmirror, hcommitted⟩ := hends c hc
  rw [← hrun.eq_post hx] at hdone hupper hmirror hcommitted
  refine ⟨s, hrun, hdone, hupper, hmirror, hcommitted, fun hkept => ?_⟩
  rcases hkept ["b"] [2] hdone with hfile | ⟨m, hm, -⟩ | ⟨d, hd, hfile⟩
  · rw [hupper] at hfile
    cases hfile
  · rw [Option.isNone_iff_eq_none.mp hmirror] at hm
    cases hm
  · have hnodes := List.mem_map_of_mem (f := fun d : PackInfo × Tree => d.2.nodes) hd
    rw [hcommitted, List.mem_singleton] at hnodes
    rw [hnodes] at hfile
    cases hfile

/-- **A write that was told to be done is lost** by an unmount and a commit. -/
theorem lateWrite_notCommitted :
    ∃ s, Lib.Run (fun a e b => writerStep coldNode a e = some b) idleWriter.toLocalWriter
        (writerTrace (writeBeforeUnmount .unmount)) s ∧
      s.completed ["b"] = some [2] ∧ s.upper.nodes = [] ∧ s.mirror.isNone = true ∧
      s.committed.map (fun d => d.2.nodes) = [[(["a"], .file [1])]] ∧ ¬ s.Kept :=
  lateWrite_notKept .unmount (by decide)

end CccStorage
