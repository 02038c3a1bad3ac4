/-
  File:      CccStorage/ObservedMkdir.lean
  Subject:   `mkdir_child` of one boundary by any number of callers, step by step, with accesses,
             commits and renames of the child.

  No call takes a lock before it tests for the manifest. A `mkdir_child` that finds none makes the
  directories and the active upper, and then replaces the manifest file; a rename to the boundary
  does the same with the manifest it brings.

  * `BoundaryCall`, `boundaryStep` -- the steps of the calls; every step may fail instead;
  * `RegistersOnce` -- no two calls register the boundary in one life of it;
  * `TestsAlone` -- a test that finds no manifest is taken while no other call is about to write one;
  * `mkdirs_registerOnce` -- runs of such tests: `mkdir_child` never replaces a manifest;
  * `secondMkdir_resets` -- a test before the manifest of the first call is written, and a commit
    before the second one writes.
-/
import CccStorage.Commit
import CccStorage.Lib.Interleave

namespace CccStorage.ObservedMkdir

/-! ## 1. The steps of the calls -/

/-- What `mkdir_child` has resolved a path to, and the names it derives. -/
structure ObservedBoundary where
  childIdPrefix : String
  boundaryPath : String
  childName : String
  /-- `observation_root.relative_path` -/
  observationRel : String
  activeUpper : String
  rootPolicy : Option WritePolicy
  deriving DecidableEq

/-- `self.child_id(boundary_path)`. -/
def childId (b : ObservedBoundary) : String := b.childIdPrefix ++ ":" ++ stripSlashes b.boundaryPath

/-- The manifest of a new child. -/
def newManifest (b : ObservedBoundary) (defaultPolicy : WritePolicy) : ChildManifest where
  id := childId b
  name := b.childName
  type := "observed-child"
  generation := 0
  parentId := "observe-root:" ++ b.observationRel
  parentPath := b.boundaryPath
  overlay := { mode := "shared-overlay", activeUpper := b.activeUpper, overlayGeneration := 0 }
  writePolicy := b.rootPolicy.getD defaultPolicy

/-- What `mkdir_child` does between the test and the replacement of the manifest file. -/
inductive Preparation where
  | registryDir
  | boundaryDir
  | activeUpper
  | tempFile
  deriving DecidableEq

/-- Where a call is. -/
inductive BoundaryCall where
  | idle
  /-- `mkdir_child` has found no manifest. -/
  | making (defaultPolicy : WritePolicy) (left : List Preparation)
  /-- It has written one, in the life of the boundary that began with it. -/
  | registered (life : Nat)
  /-- `ChildExistsError` -/
  | refused
  /-- `rename_child` to the boundary has found no manifest there. -/
  | arriving (m : ChildManifest)
  /-- An access has read the manifest and will write it with a new stamp. -/
  | accessing (m : ChildManifest)
  /-- A commit has read the manifest and builds a delta. -/
  | committing (m : ChildManifest)
  /-- `rename_child` from the boundary has read the manifest. -/
  | leaving (m : ChildManifest)
  | done
  | failed
  deriving DecidableEq

inductive BoundaryAct where
  | mkdir (defaultPolicy : WritePolicy)
  | prepare
  | access
  | commit
  | renameFrom
  | renameTo (m : ChildManifest)
  /-- The call writes its manifest. -/
  | dump (stamp : String) (built : BuiltFile)
  | unlink
  | fail
  deriving DecidableEq

/-- The files of the boundary: its manifest, and what is made. -/
structure BoundaryFiles where
  manifest : Option ChildManifest
  made : List Preparation
  /-- How often the manifest was removed. -/
  life : Nat
  deriving DecidableEq

section

variable (b : ObservedBoundary) (cfg : NodeConfig)

/-- **One step of a call.** -/
def boundaryStep (d : BoundaryFiles) :
    BoundaryCall → BoundaryAct → Option (BoundaryFiles × BoundaryCall)
  | .idle, .mkdir defaultPolicy =>
    match d.manifest with
    | some _ => some (d, .refused)
    | none => some (d, .making defaultPolicy [.registryDir, .boundaryDir, .activeUpper, .tempFile])
  | .making defaultPolicy (p :: left), .prepare =>
    some ({ d with made := if p ∈ d.made then d.made else p :: d.made },
      .making defaultPolicy left)
  | .making defaultPolicy [], .dump _ _ =>
    some ({ d with manifest := some (newManifest b defaultPolicy) }, .registered d.life)
  | .idle, .access => some (d, (d.manifest.map .accessing).getD .failed)
  | .accessing m, .dump stamp _ => some ({ d with manifest := some (markAccessed m stamp) }, .done)
  | .idle, .commit => some (d, (d.manifest.map .committing).getD .failed)
  | .committing m, .dump _ built =>
    some ({ d with manifest := some (committedManifest cfg m
      (deltaPack cfg (m.generation + 1) built) "shared-overlay") }, .done)
  | .idle, .renameFrom =>
    match d.manifest with
    | none => some (d, .failed)
    | some m => if m.generation = 0 ∧ m.lowers = [] then some (d, .leaving m) else some (d, .failed)
  | .leaving _, .unlink =>
    match d.manifest with
    | none => some (d, .failed)
    | some _ => some ({ d with manifest := none, life := d.life + 1 }, .done)
  | .idle, .renameTo m =>
    match d.manifest with
    | some _ => some (d, .failed)
    | none => some (d, .arriving m)
  | .arriving m, .dump _ _ => some ({ d with manifest := some m }, .done)
  | .making _ _, .fail | .arriving _, .fail | .accessing _, .fail | .committing _, .fail
  | .leaving _, .fail => some (d, .failed)
  | _, _ => none

abbrev BoundaryThreads (n : Nat) := Lib.Threads n BoundaryFiles BoundaryCall

/-- No call has begun. -/
def start (n : Nat) (manifest : Option ChildManifest) : BoundaryThreads n :=
  ⟨⟨manifest, [], 0⟩, fun _ => .idle⟩

/-! ## 2. The law and the condition -/

namespace BoundaryCall

/-- A call of `mkdir_child` that has passed its test. -/
def makes : BoundaryCall → Bool
  | making _ _ => true
  | _ => false

/-- The call has found no manifest and will write one. -/
def pending : BoundaryCall → Bool
  | making _ _ | arriving _ => true
  | _ => false

/-- The call will write a manifest. -/
def writes : BoundaryCall → Bool
  | making _ _ | arriving _ | accessing _ | committing _ => true
  | _ => false

end BoundaryCall

variable {n : Nat}

/-- **The boundary is registered once in each of its lives.** -/
def RegistersOnce (s : BoundaryThreads n) : Prop :=
  ∀ i j life, s.pc i = .registered life → s.pc j = .registered life → i = j

/-- A step of `mkdir_child` leaves the manifest that is there. -/
def KeepsManifest (x : Lib.Trans (BoundaryThreads n) (Fin n × BoundaryAct)) : Prop :=
  (x.pre.pc x.ev.1).makes = true → ∀ m, x.pre.shared.manifest = some m →
    x.post.shared.manifest = some m

/-- **The condition**: a test for the manifest that finds none is taken while no other call is about
    to write one. -/
def TestsAlone (s : BoundaryThreads n) (e : Fin n × BoundaryAct) : Prop :=
  match e.2 with
  | .mkdir _ | .renameTo _ => s.shared.manifest = none → ∀ j, (s.pc j).writes = false
  | _ => True

instance (s : BoundaryThreads n) (e : Fin n × BoundaryAct) : Decidable (TestsAlone s e) :=
  match h : e.2 with
  | .mkdir _ | .renameTo _ =>
    decidable_of_iff (s.shared.manifest = none → ∀ j, (s.pc j).writes = false)
      (by rw [TestsAlone, h])
  | .prepare | .access | .commit | .renameFrom | .dump _ _ | .unlink | .fail =>
    isTrue (by rw [TestsAlone, h]; exact trivial)

/-- What a call knows of the manifest. -/
def AtPoint (d : BoundaryFiles) : BoundaryCall → Prop
  | .making _ _ | .arriving _ => d.manifest = none
  | .registered life => life < d.life ∨ life = d.life ∧ d.manifest ≠ none
  | .idle | .refused | .accessing _ | .committing _ | .leaving _ | .done | .failed => True

/-- **The outline**: one call that found no manifest is the only one about to write one. -/
def outline : Lib.Outline BoundaryFiles BoundaryCall where
  inv _ := True
  point := AtPoint
  apart p q := (p.pending = true → q.writes = false) ∧ (q.pending = true → p.writes = false) ∧
    ∀ life, p = .registered life → q ≠ .registered life
  symm _ _ h := ⟨h.2.1, h.1, fun life hq hp => h.2.2 life hp hq⟩

end

/-! ## 3. Every step keeps the outline -/

section

variable {b : ObservedBoundary} {cfg : NodeConfig} {n : Nat} {s : BoundaryThreads n} {i : Fin n}
  {p q : BoundaryCall} {d : BoundaryFiles}

theorem BoundaryCall.writes_of_pending (h : p.pending = true) : p.writes = true := by
  cases p with
  | making defaultPolicy left => rfl
  | arriving m => rfl
  | _ => cases h

/-- A step that leaves the manifest as it is. -/
theorem keeps_same (h : outline.Holds s) (hmanifest : d.manifest = s.shared.manifest)
    (hlife : d.life = s.shared.life) (hpoint : AtPoint d p)
    (hpending : p.pending = true → (s.pc i).pending = true)
    (hwrites : p.writes = true → (s.pc i).writes = true ∨ ∀ j, (s.pc j).pending = false)
    (hnew : ∀ life, p ≠ .registered life) : outline.Keeps s i d p := by
  have hsame : ∀ q, AtPoint s.shared q → AtPoint d q := by
    intro q hq
    cases q with
    | making defaultPolicy left => exact hmanifest.trans hq
    | arriving m => exact hmanifest.trans hq
    | registered life =>
      rcases hq with hq | ⟨hq, hne⟩
      · exact .inl (hlife ▸ hq)
      · exact .inr ⟨hq.trans hlife.symm, fun hnone => hne (hmanifest.symm.trans hnone)⟩
    | _ => exact trivial
  refine ⟨trivial, hpoint, fun j _ => hsame _ (h.point j), fun j hj => ⟨fun hp => ?_, fun hq => ?_,
    fun life hp => absurd hp (hnew life)⟩⟩
  · exact (h.apart i j fun hij => hj hij.symm).1 (hpending hp)
  · rw [Bool.eq_false_iff]
    intro hp
    rcases hwrites hp with hw | hfree
    · rw [(h.apart i j fun hij => hj hij.symm).2.1 hq] at hw
      cases hw
    · rw [hfree j] at hq
      cases hq

/-- A test that finds no manifest, while no other call is about to write one. -/
theorem keeps_test (h : outline.Holds s) (hnone : s.shared.manifest = none)
    (halone : ∀ j, (s.pc j).writes = false) (hpending : p.pending = true)
    (hnew : ∀ life, p ≠ .registered life) : outline.Keeps s i s.shared p := by
  have hfree : ∀ j, (s.pc j).pending = false := by
    intro j
    rw [Bool.eq_false_iff]
    intro hj
    have hwrites := BoundaryCall.writes_of_pending hj
    rw [halone j] at hwrites
    cases hwrites
  refine ⟨trivial, ?_, fun j _ => h.point j, fun j _ => ⟨fun _ => halone j, fun hq => ?_,
    fun life hp => absurd hp (hnew life)⟩⟩
  · show AtPoint s.shared p
    cases p with
    | making defaultPolicy left => exact hnone
    | arriving m => exact hnone
    | _ => cases hpending
  · rw [hfree j] at hq
    cases hq

/-- While a manifest is there no call has found none. -/
theorem not_pending (h : outline.Holds s) {m : ChildManifest} (hm : s.shared.manifest = some m)
    (j : Fin n) : (s.pc j).pending = false := by
  have hj := h.point j
  change AtPoint s.shared (s.pc j) at hj
  cases hpc : s.pc j with
  | making defaultPolicy left =>
    rw [hpc] at hj
    cases hm.symm.trans hj
  | arriving m' =>
    rw [hpc] at hj
    cases hm.symm.trans hj
  | _ => rfl

/-- A call writes its manifest. -/
theorem keeps_write (h : outline.Holds s) {m : ChildManifest} (hwrites : (s.pc i).writes = true)
    (hmanifest : d.manifest = some m) (hlife : d.life = s.shared.life) (hend : p.writes = false)
    (hpoint : ∀ life, p = .registered life →
      life = d.life ∧ s.shared.manifest = none) : outline.Keeps s i d p := by
  have hfree : ∀ j, j ≠ i → (s.pc j).pending = false := by
    intro j hj
    rw [Bool.eq_false_iff]
    intro hpending
    have hapart := (h.apart i j fun hij => hj hij.symm).2.1 hpending
    rw [hwrites] at hapart
    cases hapart
  have hsome : d.manifest ≠ none := by
    rw [hmanifest]
    exact nofun
  have hidle : p.pending = false := by
    rw [Bool.eq_false_iff]
    intro hpending
    rw [BoundaryCall.writes_of_pending hpending] at hend
    cases hend
  refine ⟨trivial, ?_, fun j hj => ?_, fun j hj => ⟨fun hp => ?_, fun _ => hend, ?_⟩⟩
  · show AtPoint d p
    cases p with
    | making defaultPolicy left => cases hend
    | arriving m' => cases hend
    | registered life => exact .inr ⟨(hpoint life rfl).1, hsome⟩
    | _ => exact trivial
  · have hj' := h.point j
    change AtPoint s.shared (s.pc j) at hj'
    show AtPoint d (s.pc j)
    have hnot := hfree j hj
    cases hpc : s.pc j with
    | making defaultPolicy left =>
      rw [hpc] at hnot
      cases hnot
    | arriving m' =>
      rw [hpc] at hnot
      cases hnot
    | registered life =>
      rw [hpc] at hj'
      rcases hj' with hlt | ⟨heq, -⟩
      · exact .inl (hlife ▸ hlt)
      · exact .inr ⟨heq.trans hlife.symm, hsome⟩
    | _ => exact trivial
  · rw [hidle] at hp
    cases hp
  · -- whoever registered in an earlier life did so in another one
    intro life hp hq
    obtain ⟨rfl, hnone⟩ := hpoint life hp
    have hj' := h.point j
    change AtPoint s.shared (s.pc j) at hj'
    rw [hq] at hj'
    rcases hj' with hlt | ⟨-, hne⟩
    · rw [hlife] at hlt
      exact absurd hlt (Nat.lt_irrefl _)
    · exact hne hnone

/-- The manifest is removed: a life of the boundary ends. -/
theorem keeps_unlink (h : outline.Holds s) :
    outline.Keeps s i { s.shared with manifest := none, life := s.shared.life + 1 } .done := by
  refine ⟨trivial, trivial, fun j _ => ?_, fun j _ => ⟨nofun, fun _ => rfl, nofun⟩⟩
  have hj := h.point j
  change AtPoint s.shared (s.pc j) at hj
  show AtPoint _ (s.pc j)
  cases hpc : s.pc j with
  | making defaultPolicy left => rfl
  | arriving m => rfl
  | registered life =>
    rw [hpc] at hj
    left
    rcases hj with hlt | ⟨heq, -⟩
    · exact Nat.lt_succ_of_lt hlt
    · exact Nat.lt_succ_of_le heq.le
  | _ => exact trivial

/-- **Every step keeps the outline**, a test under the condition. -/
theorem boundaryStep_keeps {e : Fin n × BoundaryAct} (h : outline.Holds s) (hok : TestsAlone s e)
    (hstep : boundaryStep b cfg s.shared (s.pc e.1) e.2 = some (d, p)) :
    outline.Keeps s e.1 d p := by
  obtain ⟨i, act⟩ := e
  have hpoint := h.point i
  change AtPoint s.shared (s.pc i) at hpoint
  dsimp only at hstep
  unfold boundaryStep at hstep
  split at hstep
  · split at hstep
    · obtain ⟨rfl, rfl⟩ := Prod.mk.inj (Option.some.inj hstep)
      exact keeps_same h rfl rfl trivial nofun nofun nofun
    · rename_i hnone
      obtain ⟨rfl, rfl⟩ := Prod.mk.inj (Option.some.inj hstep)
      exact keeps_test h hnone (hok hnone) rfl nofun
  · rename_i defaultPolicy prep left _ hpc
    obtain ⟨rfl, rfl⟩ := Prod.mk.inj (Option.some.inj hstep)
    rw [hpc] at hpoint
    refine keeps_same h rfl rfl hpoint (fun _ => ?_) (fun _ => .inl ?_) nofun
    · rw [hpc]
      rfl
    · rw [hpc]
      rfl
  · rename_i defaultPolicy _ _ hpc
    obtain ⟨rfl, rfl⟩ := Prod.mk.inj (Option.some.inj hstep)
    rw [hpc] at hpoint
    refine keeps_write h (by rw [hpc]; rfl) rfl rfl rfl fun life hlife => ?_
    exact ⟨(BoundaryCall.registered.inj hlife).symm, hpoint⟩
  · obtain ⟨rfl, rfl⟩ := Prod.mk.inj (Option.some.inj hstep)
    cases hm : s.shared.manifest with
    | none => exact keeps_same h rfl rfl trivial nofun nofun nofun
    | some m => exact keeps_same h rfl rfl trivial nofun (fun _ => .inr (not_pending h hm)) nofun
  · rename_i m stamp built _ hpc
    obtain ⟨rfl, rfl⟩ := Prod.mk.inj (Option.some.inj hstep)
    exact keeps_write h (by rw [hpc]; rfl) rfl rfl rfl nofun
  · obtain ⟨rfl, rfl⟩ := Prod.mk.inj (Option.some.inj hstep)
    cases hm : s.shared.manifest with
    | none => exact keeps_same h rfl rfl trivial nofun nofun nofun
    | some m => exact keeps_same h rfl rfl trivial nofun (fun _ => .inr (not_pending h hm)) nofun
  · rename_i m stamp built _ hpc
    obtain ⟨rfl, rfl⟩ := Prod.mk.inj (Option.some.inj hstep)
    exact keeps_write h (by rw [hpc]; rfl) rfl rfl rfl nofun
  · split at hstep
    · obtain ⟨rfl, rfl⟩ := Prod.mk.inj (Option.some.inj hstep)
      exact keeps_same h rfl rfl trivial nofun nofun nofun
    · split at hstep
      · obtain ⟨rfl, rfl⟩ := Prod.mk.inj (Option.some.inj hstep)
        exact keeps_same h rfl rfl trivial nofun nofun nofun
      · obtain ⟨rfl, rfl⟩ := Prod.mk.inj (Option.some.inj hstep)
        exact keeps_same h rfl rfl trivial nofun nofun nofun
  · split at hstep
    · obtain ⟨rfl, rfl⟩ := Prod.mk.inj (Option.some.inj hstep)
      exact keeps_same h rfl rfl trivial nofun nofun nofun
    · obtain ⟨rfl, rfl⟩ := Prod.mk.inj (Option.some.inj hstep)
      exact keeps_unlink h
  · split at hstep
    · obtain ⟨rfl, rfl⟩ := Prod.mk.inj (Option.some.inj hstep)
      exact keeps_same h rfl rfl trivial nofun nofun nofun
    · rename_i hnone
      obtain ⟨rfl, rfl⟩ := Prod.mk.inj (Option.some.inj hstep)
      exact keeps_test h hnone (hok hnone) rfl nofun
  · rename_i m stamp built _ hpc
    obtain ⟨rfl, rfl⟩ := Prod.mk.inj (Option.some.inj hstep)
    exact keeps_write h (by rw [hpc]; rfl) rfl rfl rfl nofun
  · obtain ⟨rfl, rfl⟩ := Prod.mk.inj (Option.some.inj hstep)
    exact keeps_same h rfl rfl trivial nofun nofun nofun
  · obtain ⟨rfl, rfl⟩ := Prod.mk.inj (Option.some.inj hstep)
    exact keeps_same h rfl rfl trivial nofun nofun nofun
  · obtain ⟨rfl, rfl⟩ := Prod.mk.inj (Option.some.inj hstep)
    exact keeps_same h rfl rfl trivial nofun nofun nofun
  · obtain ⟨rfl, rfl⟩ := Prod.mk.inj (Option.some.inj hstep)
    exact keeps_same h rfl rfl trivial nofun nofun nofun
  · obtain ⟨rfl, rfl⟩ := Prod.mk.inj (Option.some.inj hstep)
    exact keeps_same h rfl rfl trivial nofun nofun nofun
  · cases hstep

theorem registersOnce_of_holds (h : outline.Holds s) : RegistersOnce s := by
  intro i j life hi hj
  by_contra hij
  exact (h.apart i j hij).2.2 life hi hj

/-- **An observed child is registered once**: in every run of any number of calls on one boundary in
    which each test that finds no manifest is taken while no other call is about to write one, no two
    calls of `mkdir_child` succeed in one life of the boundary, and none replaces a manifest. -/
theorem mkdirs_registerOnce {t : BoundaryThreads n} {manifest : Option ChildManifest}
    {tr : List (Lib.Trans (BoundaryThreads n) (Fin n × BoundaryAct))}
    (hrun : Lib.Interleaving (boundaryStep b cfg) (start n manifest) tr t)
    (hok : ∀ x ∈ tr, TestsAlone x.pre x.ev) :
    RegistersOnce t ∧ ∀ x ∈ tr, RegistersOnce x.post ∧ KeepsManifest x := by
  have hstart : outline.Holds (start n manifest) :=
    ⟨trivial, fun _ => trivial, fun _ _ _ => ⟨nofun, nofun, nofun⟩⟩
  have hinv := outline.run (G := TestsAlone) hrun hstart
    (fun a e u p ha hg hs => boundaryStep_keeps ha hg hs) hok
  refine ⟨registersOnce_of_holds hinv.1, fun x hx => ⟨registersOnce_of_holds (hinv.2 x hx).2, ?_⟩⟩
  intro hmakes m hm
  have hpending : (x.pre.pc x.ev.1).pending = true := by
    cases hpc : x.pre.pc x.ev.1 with
    | making defaultPolicy left => rfl
    | _ =>
      rw [hpc] at hmakes
      cases hmakes
  rw [not_pending (hinv.2 x hx).1 hm] at hpending
  cases hpending

end

/-! ## 4. Two calls -/

def runBoundary : ObservedBoundary :=
  ⟨"observe:lab", "run", "run", "", "/nfs/overlays/observe%3Alab%3Arun/active", none⟩

def nfsNode : NodeConfig where
  levelPolicy := {
    levels := [⟨0, 4096⟩, ⟨1, 4⟩]
    nonempty := by decide
    increasing := by decide }
  packDir := "/nfs/packs/observe%3Alab%3Arun"
  activeUpper := "/nfs/overlays/observe%3Alab%3Arun/active"
  coldPrefix g := "children/run/g" ++ padTo 6 g

/-- Three callers, and no manifest yet. -/
def mkdirTrace (es : List (Fin 3 × BoundaryAct)) :
    List (Lib.Trans (BoundaryThreads 3) (Fin 3 × BoundaryAct)) :=
  Lib.trace (fun s e => s.next (boundaryStep runBoundary nfsNode) e) (start 3 none) es

theorem mkdirTrace_run (es : List (Fin 3 × BoundaryAct)) :
    ∃ s, Lib.Interleaving (boundaryStep runBoundary nfsNode) (start 3 none) (mkdirTrace es) s :=
  Lib.Run.trace _ _ _

def writeNew (i : Fin 3) : List (Fin 3 × BoundaryAct) :=
  List.replicate 4 (i, .prepare) ++ [(i, .dump "" ⟨"", 0, none⟩)]

def commitOnce (i : Fin 3) : List (Fin 3 × BoundaryAct) :=
  [(i, .commit), (i, .dump "" ⟨"sha-1", 9, none⟩)]

/-- In turn the second call is refused, and the commit stays. -/
theorem mkdirs_registerOnce_inTurn :
    ∃ s, Lib.Interleaving (boundaryStep runBoundary nfsNode) (start 3 none)
        (mkdirTrace ((0, .mkdir .sharedNfs) :: writeNew 0 ++ commitOnce 2 ++
          [(1, .mkdir .sharedNfs)])) s ∧
      s.pc 1 = .refused ∧ s.shared.manifest.map (·.generation) = some 1 ∧ RegistersOnce s := by
  obtain ⟨s, hrun⟩ := mkdirTrace_run ((0, .mkdir .sharedNfs) :: writeNew 0 ++ commitOnce 2 ++
    [(1, .mkdir .sharedNfs)])
  have hends : ∃ x ∈ (mkdirTrace ((0, .mkdir .sharedNfs) :: writeNew 0 ++ commitOnce 2 ++
      [(1, .mkdir .sharedNfs)])).getLast?, x.post.pc 1 = .refused ∧
        x.post.shared.manifest.map (·.generation) = some 1 := by
    decide +kernel
  obtain ⟨x, hx, hrefused, hgeneration⟩ := hends
  rw [← hrun.eq_post hx] at hrefused hgeneration
  exact ⟨s, hrun, hrefused, hgeneration, (mkdirs_registerOnce hrun (by decide +kernel)).1⟩

/-- **The second call tests before the first has written**, and writes after the commit: both are
    registered, and the committed generation with its pack is gone. -/
theorem secondMkdir_resets :
    ∃ s, Lib.Interleaving (boundaryStep runBoundary nfsNode) (start 3 none)
        (mkdirTrace ((0, .mkdir .sharedNfs) :: (1, .mkdir .sharedNfs) :: writeNew 0 ++
          commitOnce 2 ++ writeNew 1)) s ∧
      ¬ RegistersOnce s ∧
      (∃ x ∈ mkdirTrace ((0, .mkdir .sharedNfs) :: (1, .mkdir .sharedNfs) :: writeNew 0 ++
          commitOnce 2 ++ writeNew 1),
        x.pre.shared.manifest.map (fun m => (m.generation, m.lowers.length)) = some (1, 1) ∧
          ¬ KeepsManifest x) ∧
      s.shared.manifest.map (fun m => (m.generation, m.lowers)) = some (0, []) := by
  obtain ⟨s, hrun⟩ := mkdirTrace_run ((0, .mkdir .sharedNfs) :: (1, .mkdir .sharedNfs) ::
    writeNew 0 ++ commitOnce 2 ++ writeNew 1)
  have hends : ∃ x ∈ (mkdirTrace ((0, .mkdir .sharedNfs) :: (1, .mkdir .sharedNfs) ::
      writeNew 0 ++ commitOnce 2 ++ writeNew 1)).getLast?,
      x.post.pc 0 = .registered 0 ∧ x.post.pc 1 = .registered 0 ∧
        (x.pre.pc x.ev.1).makes = true ∧
        x.pre.shared.manifest.map (fun m => (m.generation, m.lowers.length)) = some (1, 1) ∧
        x.post.shared.manifest.map (fun m => (m.generation, m.lowers)) = some (0, []) := by
    decide +kernel
  obtain ⟨x, hx, hfirst, hsecond, hmakes, hbefore, hafter⟩ := hends
  rw [← hrun.eq_post hx] at hfirst hsecond
  refine ⟨s, hrun, fun honce => absurd (honce 0 1 0 hfirst hsecond) (by decide),
    ⟨x, List.mem_of_getLast? hx, hbefore, fun hkeeps => ?_⟩, ?_⟩
  · cases hm : x.pre.shared.manifest with
    | none =>
      rw [hm] at hbefore
      cases hbefore
    | some m =>
      rw [hkeeps hmakes m hm] at hafter
      rw [hm] at hbefore
      have hgeneration := (Prod.mk.inj (Option.some.inj hbefore)).1
      rw [(Prod.mk.inj (Option.some.inj hafter)).1] at hgeneration
      exact absurd hgeneration (by decide)
  · rw [hrun.eq_post hx]
    exact hafter

end CccStorage.ObservedMkdir
