/-
  File:      CccStorage/Passes.lean
  Subject:   The three background passes over the registered children: `AutoCommitWorker.tick`,
             `run_background_compaction_once` and `run_cold_storage_once` (`mountd/daemon.py`,
             `mountd/workers/auto_commit.py`).

  Each is a loop over the children by id. The commit loop catches `LockHeld` and the compaction loop
  leaves out a child that is mounted writable; any other exception of a handler leaves the loop.

  * `PassService` -- what the passes call, on the state of one child; past the checks written out
    here a handler does and raises whatever it likes;
  * `PassRegistry`, `find` -- the children, and how a handler finds one again;
  * `runPass`, `SparesOthers` -- a pass, and what a failing child may not do to the others;
  * `Escapes`, `pass_sparesOthers_iff` -- exactly when it does not.
-/
import CccStorage.AutoCommit
import CccStorage.ArchivalPass
import CccStorage.Lib.Rounds

namespace CccStorage

/-! ## 1. The children -/

inductive PassError where
  | lockHeld
  | childMount
  | mountd
  | packBuild
  | verification
  | compaction
  | objectStore
  | recall
  | os
  /-- `KeyError`, from `_find`. -/
  | key
  deriving DecidableEq, Repr

/-- `str.isspace` of one character. -/
def isSpace (c : Char) : Bool :=
  (9 ≤ c.toNat && c.toNat ≤ 13) || (28 ≤ c.toNat && c.toNat ≤ 32) || c.toNat == 0x85 ||
    c.toNat == 0xa0 || c.toNat == 0x1680 || (0x2000 ≤ c.toNat && c.toNat ≤ 0x200a) ||
    c.toNat == 0x2028 || c.toNat == 0x2029 || c.toNat == 0x202f || c.toNat == 0x205f ||
    c.toNat == 0x3000

/-- `s.strip()`. -/
def strip (s : String) : String :=
  String.ofList (((s.toList.dropWhile isSpace).reverse.dropWhile isSpace).reverse)

/-- `self.children`: the ids in the order of the dictionary, which are file-safe names without white
    space at either end, and the state of each child. -/
structure PassRegistry (S : Type) where
  ids : List String
  nodup : ids.Nodup
  unpadded : ∀ i ∈ ids, strip i = i
  child : String → S

namespace PassRegistry

variable {S : Type}

def set (R : PassRegistry S) (i : String) (s : S) : PassRegistry S :=
  { R with child := Function.update R.child i s }

/-- The registry with one manifest less. -/
def without (R : PassRegistry S) (f : String) : PassRegistry S where
  ids := R.ids.erase f
  nodup := R.nodup.erase f
  unpadded i hi := R.unpadded i (List.mem_of_mem_erase hi)
  child := R.child

/-- `sorted(self.children.values(), key=lambda item: item.id)`. -/
def sorted (R : PassRegistry S) : List String := R.ids.mergeSort fun a b => decide (a ≤ b)

/-- A step on the state of one child. -/
def stepAt {α : Type} (R : PassRegistry S) (i : String) (step : S → Except PassError α × S) :
    Except PassError α × PassRegistry S :=
  let result := step (R.child i)
  (result.1, R.set i result.2)

end PassRegistry

/-! ## 2. The passes -/

/-- The service, and what it does to one child. -/
structure PassService (S : Type) where
  levelPolicy : LevelPolicy
  /-- `archive_enabled`, and there is a cold store. -/
  archiveEnabled : Bool
  removeHot : Bool
  idleSeconds : ℚ
  now : ℚ
  epoch : String → Option ℚ
  manifest : S → ChildManifest
  mount : S → Option MountMode
  isFile : S → String → Bool
  evaluateChild : S → Except PassError String × S
  /-- `ensure_active_upper` and `dirty_stats`. -/
  dirty : S → Except PassError Bool × S
  /-- `handle_commit` past its mount check. -/
  commit : S → Except PassError Unit × S
  /-- `handle_compact` past its plan. -/
  compact : CompactionCandidate → S → Except PassError Unit × S
  archive : (keepHot : Bool) → S → Except PassError Unit × S
  markAccessed : S → Except PassError Unit × S

inductive PassKind where
  | tick
  | compaction
  | coldStorage
  deriving DecidableEq, Repr

/-- What a pass reports of a child. -/
inductive PassReport where
  | decided (decision : String)
  | committed
  /-- `reason: locked`. -/
  | locked
  | passedOver
  | marked
  | done
  deriving DecidableEq, Repr

namespace PassService

variable {S : Type} (v : PassService S)

def handleCommit (s : S) : Except PassError Unit × S :=
  if v.mount s = some .rw then (.error .childMount, s) else v.commit s

def handleCompact (s : S) : Except PassError Unit × S :=
  match runnableCandidate v.levelPolicy (v.manifest s) false with
  | none => (.ok (), s)
  | some candidate => v.compact candidate s

/-- `_find`, after `reload_registry`. -/
def find (R : PassRegistry S) (selector : String) : Option String :=
  let selector := strip selector
  if selector ∈ R.ids then some selector
  else R.ids.find? fun i =>
    selector = (v.manifest (R.child i)).name || selector = (v.manifest (R.child i)).parentPath

/-- A handler on the child it finds. -/
def handle (R : PassRegistry S) (selector : String) (handler : S → Except PassError Unit × S) :
    Except PassError Unit × PassRegistry S :=
  match v.find R selector with
  | none => (.error .key, R)
  | some i => R.stepAt i handler

/-- **One round of a loop.** -/
def passRound (kind : PassKind) (R : PassRegistry S) (i : String) :
    Except PassError PassReport × PassRegistry S :=
  match kind with
  | .tick =>
    match R.stepAt i v.evaluateChild with
    | (.error e, R) => (.error e, R)
    | (.ok decision, R) =>
      if decision ≠ TRIGGER then (.ok (.decided decision), R)
      else match v.handle R i v.handleCommit with
        | (.ok _, R) => (.ok .committed, R)
        | (.error .lockHeld, R) => (.ok .locked, R)
        | (.error e, R) => (.error e, R)
  | .compaction =>
    if v.mount (R.child i) = some .rw then (.ok .passedOver, R)
    else if runnableCandidate v.levelPolicy (v.manifest (R.child i)) false = none then
      (.ok .passedOver, R)
    else match v.handle R i v.handleCompact with
      | (.ok _, R) => (.ok .done, R)
      | (.error e, R) => (.error e, R)
  | .coldStorage =>
    -- the manifest and the mount are those of the snapshot the loop runs over
    let m := v.manifest (R.child i)
    match R.stepAt i v.dirty with
    | (.error e, R) => (.error e, R)
    | (.ok dirty, R) =>
      let decision := archiveDecision v.epoch (v.isFile (R.child i)) m dirty
        (v.mount (R.child i)).isSome v.idleSeconds v.now
      if decision.reason = "no-access-metadata" then
        match R.stepAt i v.markAccessed with
        | (.ok _, R) => (.ok .marked, R)
        | (.error e, R) => (.error e, R)
      else if !decision.eligible then (.ok .passedOver, R)
      else match v.handle R i (v.archive !v.removeHot) with
        | (.ok _, R) => (.ok .done, R)
        | (.error e, R) => (.error e, R)

/-- **A pass**: what it reports, child by child, up to the exception that leaves the loop. -/
def runPass (kind : PassKind) (R : PassRegistry S) :
    List (String × Except PassError PassReport) × PassRegistry S :=
  if kind = .coldStorage ∧ v.archiveEnabled = false then ([], R)
  else Lib.rounds (v.passRound kind) R.sorted R

/-- **The others are processed as if `f` were absent.** -/
def SparesOthers (kind : PassKind) (R : PassRegistry S) (f : String) : Prop :=
  ∀ g ∈ R.ids, g ≠ f →
    (∀ report, (g, report) ∈ (v.runPass kind R).1 ↔
      (g, report) ∈ (v.runPass kind (R.without f)).1) ∧
    (v.runPass kind R).2.child g = (v.runPass kind (R.without f)).2.child g

/-- **The processing of a child raises, and the loop does not catch it.** -/
def Escapes (kind : PassKind) (s : S) : Prop :=
  match kind with
  | .tick =>
    (∃ e, (v.evaluateChild s).1 = .error e) ∨
      (v.evaluateChild s).1 = .ok TRIGGER ∧
        ∃ e, e ≠ .lockHeld ∧ (v.handleCommit (v.evaluateChild s).2).1 = .error e
  | .compaction => v.mount s ≠ some .rw ∧ ∃ e, (v.handleCompact s).1 = .error e
  | .coldStorage => v.archiveEnabled = true ∧
    ((∃ e, (v.dirty s).1 = .error e) ∨
      ∃ dirty, (v.dirty s).1 = .ok dirty ∧
        let s' := (v.dirty s).2
        let decision := archiveDecision v.epoch (v.isFile s') (v.manifest s) dirty
          (v.mount s').isSome v.idleSeconds v.now
        (decision.reason = "no-access-metadata" ∧ ∃ e, (v.markAccessed s').1 = .error e) ∨
        (decision.eligible = true ∧ ∃ e, (v.archive (!v.removeHot) s').1 = .error e))

/-! ## 3. A round on the child itself -/

/-- A round, on the state of its child. -/
def childRound (kind : PassKind) (s : S) : Except PassError PassReport × S :=
  match kind with
  | .tick =>
    match v.evaluateChild s with
    | (.error e, s) => (.error e, s)
    | (.ok decision, s) =>
      if decision ≠ TRIGGER then (.ok (.decided decision), s)
      else match v.handleCommit s with
        | (.ok _, s) => (.ok .committed, s)
        | (.error .lockHeld, s) => (.ok .locked, s)
        | (.error e, s) => (.error e, s)
  | .compaction =>
    if v.mount s = some .rw then (.ok .passedOver, s)
    else if runnableCandidate v.levelPolicy (v.manifest s) false = none then (.ok .passedOver, s)
    else match v.handleCompact s with
      | (.ok _, s) => (.ok .done, s)
      | (.error e, s) => (.error e, s)
  | .coldStorage =>
    match v.dirty s with
    | (.error e, s) => (.error e, s)
    | (.ok dirty, s') =>
      let decision := archiveDecision v.epoch (v.isFile s') (v.manifest s) dirty
        (v.mount s').isSome v.idleSeconds v.now
      if decision.reason = "no-access-metadata" then
        match v.markAccessed s' with
        | (.ok _, s) => (.ok .marked, s)
        | (.error e, s) => (.error e, s)
      else if !decision.eligible then (.ok .passedOver, s')
      else match v.archive (!v.removeHot) s' with
        | (.ok _, s) => (.ok .done, s)
        | (.error e, s) => (.error e, s)

variable {v} {R : PassRegistry S} {i f : String} {kind : PassKind}

@[simp] theorem set_child : (R.set i s).child i = s := Function.update_self ..

@[simp] theorem set_ids : (R.set i s).ids = R.ids := rfl

theorem set_set {s s' : S} : (R.set i s).set i s' = R.set i s' := by
  unfold PassRegistry.set
  simp only [Function.update_idem]

/-- **`_find` of a child's own id finds the child.** -/
theorem find_self (hi : i ∈ R.ids) : v.find R i = some i := by
  unfold find
  rw [R.unpadded i hi]
  exact if_pos hi

theorem handle_self (hi : i ∈ R.ids) (handler : S → Except PassError Unit × S) :
    v.handle R i handler = ((handler (R.child i)).1, R.set i (handler (R.child i)).2) := by
  unfold handle
  rw [find_self hi]
  rfl

/-- **A round changes its own child only**, and looks at no other. -/
theorem passRound_eq (hi : i ∈ R.ids) :
    v.passRound kind R i =
      ((v.childRound kind (R.child i)).1, R.set i (v.childRound kind (R.child i)).2) := by
  cases kind with
  | tick =>
    simp only [passRound, childRound, PassRegistry.stepAt]
    rcases v.evaluateChild (R.child i) with ⟨e | decision, s⟩
    · rfl
    · simp only
      by_cases ht : decision = TRIGGER
      · rw [if_neg (not_not.mpr ht), if_neg (not_not.mpr ht), handle_self (R := R.set i s) hi,
          set_child]
        rcases v.handleCommit s with ⟨e | -, s'⟩
        · cases e <;> simp only [set_set]
        · simp only [set_set]
      · rw [if_pos ht, if_pos ht]
  | compaction =>
    have hself : ∀ s, R.child i = s → R = R.set i s := by
      rintro s rfl
      unfold PassRegistry.set
      rw [Function.update_eq_self]
    simp only [passRound, childRound]
    by_cases hrw : v.mount (R.child i) = some .rw
    · rw [if_pos hrw, if_pos hrw]
      exact Prod.ext rfl (hself _ rfl)
    · rw [if_neg hrw, if_neg hrw]
      by_cases hnone : runnableCandidate v.levelPolicy (v.manifest (R.child i)) false = none
      · rw [if_pos hnone, if_pos hnone]
        exact Prod.ext rfl (hself _ rfl)
      · rw [if_neg hnone, if_neg hnone, handle_self hi]
        rcases v.handleCompact (R.child i) with ⟨e | -, s'⟩ <;> rfl
  | coldStorage =>
    simp only [passRound, childRound, PassRegistry.stepAt]
    rcases v.dirty (R.child i) with ⟨e | dirty, s⟩
    · rfl
    · simp only [set_child]
      split
      · rcases v.markAccessed s with ⟨e | -, s'⟩ <;> simp only [set_set]
      · split
        · rfl
        · rw [handle_self (R := R.set i s) hi, set_child]
          rcases v.archive (!v.removeHot) s with ⟨e | -, s'⟩ <;> simp only [set_set]

/-- What is archived is called eligible. -/
theorem archiveDecision_reason {epoch : String → Option ℚ} {isFile : String → Bool}
    {m : ChildManifest} {dirty mounted : Bool} {idle now : ℚ}
    (h : (archiveDecision epoch isFile m dirty mounted idle now).eligible = true) :
    (archiveDecision epoch isFile m dirty mounted idle now).reason = "eligible" := by
  unfold archiveDecision at h ⊢
  grind

/-- **When a round ends the pass.** -/
theorem childRound_error_iff {s : S} (hon : kind = .coldStorage → v.archiveEnabled = true) :
    (∃ e, (v.childRound kind s).1 = .error e) ↔ v.Escapes kind s := by
  cases kind with
  | tick =>
    simp only [childRound, Escapes]
    rcases v.evaluateChild s with ⟨e | decision, s⟩
    · exact iff_of_true ⟨e, rfl⟩ (.inl ⟨e, rfl⟩)
    · simp only [reduceCtorEq, exists_false, false_or, Except.ok.injEq]
      by_cases ht : decision = TRIGGER
      · rw [if_neg (not_not.mpr ht)]
        simp only [ht, true_and]
        rcases v.handleCommit s with ⟨e | -, s'⟩
        · by_cases hl : e = .lockHeld
          · subst hl
            simp
          · have hraised : ∀ e', e' = e → e' ≠ .lockHeld := by
              rintro e' rfl
              exact hl
            cases e <;> simp_all
        · simp
      · rw [if_pos ht]
        simp [ht]
  | compaction =>
    simp only [childRound, Escapes]
    by_cases hrw : v.mount s = some .rw
    · rw [if_pos hrw]
      simp [hrw]
    · rw [if_neg hrw]
      by_cases hnone : runnableCandidate v.levelPolicy (v.manifest s) false = none
      · rw [if_pos hnone]
        simp [handleCompact, hnone]
      · rw [if_neg hnone]
        rcases v.handleCompact s with ⟨e | -, s'⟩ <;> simp [hrw]
  | coldStorage =>
    simp only [childRound, Escapes]
    rw [hon rfl]
    rcases v.dirty s with ⟨e | dirty, s'⟩
    · simp
    · simp only [reduceCtorEq, exists_false, false_or, Except.ok.injEq, exists_eq_left', true_and]
      generalize hdecision : archiveDecision v.epoch (v.isFile s') (v.manifest s) dirty
        (v.mount s').isSome v.idleSeconds v.now = decision
      by_cases hreason : decision.reason = "no-access-metadata"
      · have hnot : decision.eligible ≠ true := by
          intro he
          rw [← hdecision] at he hreason
          rw [archiveDecision_reason he] at hreason
          exact absurd hreason (by decide)
        rw [if_pos hreason]
        rcases v.markAccessed s' with ⟨e | -, s''⟩ <;> simp [hreason, hnot]
      · rw [if_neg hreason]
        cases decision.eligible with
        | false => simp [hreason]
        | true => rcases v.archive (!v.removeHot) s' with ⟨e | -, s''⟩ <;> simp [hreason]

/-! ## 4. Two passes -/

theorem childRound_escapes_iff {s : S} (hon : kind = .coldStorage → v.archiveEnabled = true) :
    v.Escapes kind s ↔ ¬ ∃ r, (v.childRound kind s).1 = .ok r := by
  rw [← childRound_error_iff hon]
  cases (v.childRound kind s).1 with
  | error e => exact iff_of_true ⟨e, rfl⟩ fun ⟨_, h⟩ => by cases h
  | ok r => exact iff_of_false (fun ⟨_, h⟩ => by cases h) (not_not.mpr ⟨r, rfl⟩)

/-- **An exception ends a loop over distinct children** exactly when the processing of one of them
    raises one. -/
theorem stopped_iff (hon : kind = .coldStorage → v.archiveEnabled = true) {keys : List String}
    (hnd : keys.Nodup) (hkeys : ∀ g ∈ keys, g ∈ R.ids) :
    Lib.Stopped (Lib.rounds (v.passRound kind) keys R).1 ↔
      ∃ g ∈ keys, v.Escapes kind (R.child g) := by
  induction keys generalizing R with
  | nil =>
    refine iff_of_false Lib.not_stopped_nil ?_
    rintro ⟨g, hg, -⟩
    exact absurd hg List.not_mem_nil
  | cons g keys ih =>
    have hround : v.passRound kind R g = _ := passRound_eq (hkeys g List.mem_cons_self)
    obtain ⟨hfresh, hnd⟩ := List.nodup_cons.mp hnd
    rcases hchild : v.childRound kind (R.child g) with ⟨e | r, s⟩
    all_goals rw [hchild] at hround
    · rw [Lib.rounds_cons_error hround]
      refine iff_of_true Lib.stopped_singleton ⟨g, List.mem_cons_self, ?_⟩
      exact (childRound_error_iff hon).mp ⟨e, by rw [hchild]⟩
    · have hpass : ¬ v.Escapes kind (R.child g) := by
        rw [childRound_escapes_iff hon, not_not]
        exact ⟨r, by rw [hchild]⟩
      rw [Lib.rounds_cons_ok hround, Lib.stopped_cons_ok,
        ih (R := R.set g s) hnd fun g hg => hkeys g (List.mem_cons_of_mem _ hg)]
      have hother : ∀ g' ∈ keys, (R.set g s).child g' = R.child g' := by
        intro g' hg'
        have hne : g' ≠ g := by
          rintro rfl
          exact hfresh hg'
        exact Function.update_of_ne hne _ _
      constructor
      · rintro ⟨g', hg', he⟩
        rw [hother g' hg'] at he
        exact ⟨g', List.mem_cons_of_mem _ hg', he⟩
      · rintro ⟨g', hg', he⟩
        rcases List.mem_cons.mp hg' with rfl | hg'
        · exact absurd he hpass
        · exact ⟨g', hg', by rwa [hother g' hg']⟩

/-- The registry, and a registry that lacks `f` only. -/
structure Lacks (f : String) (ids : List String) (R R' : PassRegistry S) : Prop where
  whole : R.ids = ids
  lacking : R'.ids = ids.erase f
  same : ∀ g, g ≠ f → R.child g = R'.child g

theorem mem_lacking {ids : List String} {R R' : PassRegistry S} (h : Lacks f ids R R') {g : String}
    (hg : g ∈ ids) (hne : g ≠ f) : g ∈ R.ids ∧ g ∈ R'.ids := by
  rw [h.whole, h.lacking]
  exact ⟨hg, (List.mem_erase_of_ne hne).mpr hg⟩

/-- **A round on another child** does the same with and without `f`. -/
theorem passRound_lacks {ids : List String} {R R' : PassRegistry S} (h : Lacks f ids R R')
    {g : String} (hg : g ∈ ids) (hne : g ≠ f) :
    (v.passRound kind R g).1 = (v.passRound kind R' g).1 ∧
      Lacks f ids (v.passRound kind R g).2 (v.passRound kind R' g).2 := by
  obtain ⟨hmem, hmem'⟩ := mem_lacking h hg hne
  rw [passRound_eq hmem, passRound_eq hmem', h.same g hne]
  refine ⟨rfl, h.whole, h.lacking, fun g' hne' => ?_⟩
  by_cases heq : g' = g
  · subst heq
    rw [set_child, set_child]
  · show Function.update R.child g _ g' = Function.update R'.child g _ g'
    rw [Function.update_of_ne heq, Function.update_of_ne heq, h.same g' hne']

theorem rounds_lacks {ids keys : List String} {R R' : PassRegistry S} (h : Lacks f ids R R')
    (hkeys : ∀ g ∈ keys, g ∈ ids ∧ g ≠ f) :
    (Lib.rounds (v.passRound kind) keys R).1 = (Lib.rounds (v.passRound kind) keys R').1 ∧
      Lacks f ids (Lib.rounds (v.passRound kind) keys R).2
        (Lib.rounds (v.passRound kind) keys R').2 :=
  Lib.rounds_congr
    (fun g hg _ _ (hrel : Lacks f ids _ _) => passRound_lacks hrel (hkeys g hg).1 (hkeys g hg).2) h

end PassService

/-- **The children in order**, those before `f` and those after it. -/
theorem PassRegistry.sorted_split {S : Type} {R : PassRegistry S} {f : String} (hf : f ∈ R.ids) :
    ∃ front back, R.sorted = front ++ f :: back ∧ (R.without f).sorted = front ++ back ∧
      (∀ g ∈ front, g < f) ∧ (∀ g ∈ back, f < g) ∧ (front ++ back).Nodup := by
  have hperm : R.sorted.Perm R.ids := List.mergeSort_perm _ _
  have hle : ∀ ids : List String, (ids.mergeSort fun a b => decide (a ≤ b)).Pairwise (· ≤ ·) := by
    intro ids
    have hsorted : (ids.mergeSort fun a b => decide (a ≤ b)).Pairwise fun a b => decide (a ≤ b) :=
      List.pairwise_mergeSort
        (fun a b c hab hbc =>
          decide_eq_true ((of_decide_eq_true hab).trans (of_decide_eq_true hbc)))
        (fun a b => by simpa using le_total a b) ids
    exact hsorted.imp of_decide_eq_true
  obtain ⟨front, back, hsplit⟩ := List.append_of_mem (hperm.mem_iff.mpr hf)
  have hnd : (front ++ f :: back).Nodup := hsplit ▸ hperm.nodup_iff.mpr R.nodup
  have hordered : (front ++ f :: back).Pairwise (· ≤ ·) := hsplit ▸ hle R.ids
  have hnd' : (front ++ back).Nodup ∧ f ∉ front ++ back := by
    have := List.nodup_middle.mp hnd
    exact ⟨(List.nodup_cons.mp this).2, (List.nodup_cons.mp this).1⟩
  obtain ⟨-, hback, hfront⟩ := List.pairwise_append.mp hordered
  refine ⟨front, back, hsplit, ?_, fun g hg => ?_, fun g hg => ?_, hnd'.1⟩
  · have hperm' : (R.without f).sorted.Perm (front ++ back) := by
      refine (List.mergeSort_perm _ _).trans ?_
      have herase := (hsplit ▸ hperm : (front ++ f :: back).Perm R.ids).erase f
      have hmiddle : ((front ++ f :: back).erase f) = front ++ back := by
        rw [List.erase_append_right _ fun h => hnd'.2 (List.mem_append_left _ h),
          List.erase_cons_head]
      rw [hmiddle] at herase
      exact herase.symm
    refine List.Perm.eq_of_pairwise (fun a b _ _ => le_antisymm) (hle _) ?_ hperm'
    exact hordered.sublist ((List.sublist_cons_self f back).append_left front)
  · exact lt_of_le_of_ne (hfront g hg f List.mem_cons_self)
      fun heq => hnd'.2 (List.mem_append_left _ (heq ▸ hg))
  · exact lt_of_le_of_ne ((List.pairwise_cons.mp hback).1 g hg)
      fun heq => hnd'.2 (List.mem_append_right _ (heq ▸ hg))

section Pass

variable {S : Type} {v : PassService S} {R : PassRegistry S} {f : String} {kind : PassKind}

open PassService

/-- The children before `f` do not touch it. -/
theorem rounds_child {keys : List String} (hkeys : ∀ g ∈ keys, g ∈ R.ids ∧ g ≠ f) :
    (Lib.rounds (v.passRound kind) keys R).2.ids = R.ids ∧
      (Lib.rounds (v.passRound kind) keys R).2.child f = R.child f := by
  refine Lib.rounds_invariant (I := fun w : PassRegistry S => w.ids = R.ids ∧ w.child f = R.child f)
    (fun g hg w hw => ?_) ⟨rfl, rfl⟩
  obtain ⟨hmem, hne⟩ := hkeys g hg
  rw [passRound_eq (hw.1 ▸ hmem)]
  exact ⟨hw.1, (Function.update_of_ne hne.symm _ _).trans hw.2⟩

/-- **A pass spares the others** exactly when the exception of `f` is caught, or `f` is the last
    child, or the exception of a child before `f` has ended the pass already. -/
theorem pass_sparesOthers_iff (v : PassService S) (kind : PassKind) (R : PassRegistry S)
    {f : String} (hf : f ∈ R.ids) :
    v.SparesOthers kind R f ↔
      (v.Escapes kind (R.child f) →
        (∀ g ∈ R.ids, g ≤ f) ∨ ∃ g ∈ R.ids, g < f ∧ v.Escapes kind (R.child g)) := by
  by_cases hoff : kind = .coldStorage ∧ v.archiveEnabled = false
  · have hempty : ∀ R : PassRegistry S, v.runPass kind R = ([], R) := fun R => if_pos hoff
    have hnot : ¬ v.Escapes kind (R.child f) := by
      rw [hoff.1]
      intro h
      exact absurd hoff.2 (by rw [h.1]; exact Bool.noConfusion)
    refine iff_of_true (fun g _ _ => ?_) fun h => absurd h hnot
    rw [hempty, hempty]
    exact ⟨fun _ => Iff.rfl, rfl⟩
  have hrun : ∀ R : PassRegistry S,
      v.runPass kind R = Lib.rounds (v.passRound kind) R.sorted R := fun R => if_neg hoff
  have hon : kind = .coldStorage → v.archiveEnabled = true := fun hk =>
    Bool.of_not_eq_false fun h => hoff ⟨hk, h⟩
  obtain ⟨front, back, hsorted, hwithout, hfront, hback, hnd⟩ := PassRegistry.sorted_split hf
  have hids : ∀ g, g ∈ R.ids ↔ g ∈ front ∨ g = f ∨ g ∈ back := by
    intro g
    have hmem : g ∈ R.sorted ↔ g ∈ R.ids := (List.mergeSort_perm _ _).mem_iff
    rw [← hmem, hsorted, List.mem_append, List.mem_cons]
  have hlacks : Lacks f R.ids R (R.without f) := ⟨rfl, rfl, fun _ _ => rfl⟩
  have hkeys : ∀ g ∈ front, g ∈ R.ids ∧ g ≠ f := fun g hg =>
    ⟨(hids g).mpr (.inl hg), (hfront g hg).ne⟩
  have hagree : (Lib.rounds (v.passRound kind) front R).1 =
      (Lib.rounds (v.passRound kind) front (R.without f)).1 ∧ _ := rounds_lacks hlacks hkeys
  obtain ⟨hlog, hfinal⟩ := hagree
  have hstop : Lib.Stopped (Lib.rounds (v.passRound kind) front R).1 ↔ _ :=
    stopped_iff hon (List.nodup_append.mp hnd).1 fun g hg => (hkeys g hg).1
  unfold SparesOthers
  rw [hrun, hrun, hsorted, hwithout]
  by_cases hstopped : Lib.Stopped (Lib.rounds (v.passRound kind) front R).1
  · -- neither pass goes beyond the children before `f`
    have hstopped' := hlog ▸ hstopped
    rw [Lib.rounds_stopped _ _ hstopped, Lib.rounds_stopped _ _ hstopped', hlog]
    obtain ⟨g, hg, he⟩ := hstop.mp hstopped
    exact iff_of_true (fun g _ hne => ⟨fun _ => Iff.rfl, hfinal.same g hne⟩)
      fun _ => .inr ⟨g, (hids g).mpr (.inl hg), hfront g hg, he⟩
  have hstopped' : ¬ Lib.Stopped (Lib.rounds (v.passRound kind) front (R.without f)).1 :=
    hlog ▸ hstopped
  rw [Lib.rounds_append _ _ hstopped, Lib.rounds_append _ _ hstopped', hlog]
  have hkept : (Lib.rounds (v.passRound kind) front R).2.ids = R.ids ∧ _ := rounds_child hkeys
  obtain ⟨hframe, hchild⟩ := hkept
  have hlogged : ∀ x ∈ (Lib.rounds (v.passRound kind) front (R.without f)).1, x.1 ∈ front :=
    fun x hx => Lib.rounds_keys hx
  generalize Lib.rounds (v.passRound kind) front R = first at *
  generalize Lib.rounds (v.passRound kind) front (R.without f) = first' at *
  have hround : v.passRound kind first.2 f = _ := passRound_eq (hframe ▸ hf)
  rw [hchild] at hround
  rcases hown : v.childRound kind (R.child f) with ⟨e | r, s⟩
  all_goals
    rw [hown] at hround
    simp only at hround
  · -- the exception of `f` ends the pass with it
    have hescapes : v.Escapes kind (R.child f) :=
      (childRound_error_iff hon).mp ⟨e, by rw [hown]⟩
    rw [Lib.rounds_cons_error hround]
    have hnone : ¬ ∃ g ∈ R.ids, g < f ∧ v.Escapes kind (R.child g) := by
      rintro ⟨g, hg, hlt, he⟩
      rcases (hids g).mp hg with hg | rfl | hg
      · exact hstopped (hstop.mpr ⟨g, hg, he⟩)
      · exact lt_irrefl _ hlt
      · exact lt_asymm hlt (hback g hg)
    cases back with
    | nil =>
      refine iff_of_true (fun g _ hne => ⟨fun report => ?_, ?_⟩) fun _ => .inl fun g hg => ?_
      · simp [Lib.rounds, hne]
      · show Function.update first.2.child f s g = first'.2.child g
        rw [Function.update_of_ne hne]
        exact hfinal.same g hne
      · rcases (hids g).mp hg with hg | rfl | hg
        · exact (hfront g hg).le
        · exact le_rfl
        · exact absurd hg List.not_mem_nil
    | cons g rest =>
      have hlt : f < g := hback g List.mem_cons_self
      have hg : g ∈ R.ids := (hids g).mpr (.inr (.inr List.mem_cons_self))
      refine iff_of_false (fun h => ?_) fun h => ?_
      · have hlogs := (h g hg hlt.ne').1
        obtain ⟨report, hreport⟩ : ∃ report,
            (g, report) ∈ (Lib.rounds (v.passRound kind) (g :: rest) first'.2).1 := by
          rcases hnext : v.passRound kind first'.2 g with ⟨e' | r', w⟩
          · rw [Lib.rounds_cons_error hnext]
            exact ⟨_, List.mem_singleton_self _⟩
          · rw [Lib.rounds_cons_ok hnext]
            exact ⟨_, List.mem_cons_self⟩
        rcases List.mem_append.mp ((hlogs report).mpr (List.mem_append_right _ hreport)) with
          hbefore | hown
        · exact lt_asymm hlt (hfront g (hlogged _ hbefore))
        · exact hlt.ne' (congrArg Prod.fst (List.mem_singleton.mp hown))
      · rcases h hescapes with hlast | hearlier
        · exact absurd (hlast g hg) (not_le.mpr hlt)
        · exact hnone hearlier
  · -- `f` is reported, and the rest goes on
    have hpass : ¬ v.Escapes kind (R.child f) := by
      rw [childRound_escapes_iff hon, not_not]
      exact ⟨r, by rw [hown]⟩
    refine iff_of_true ?_ fun h => absurd h hpass
    rw [Lib.rounds_cons_ok hround]
    have hlacks' : Lacks f R.ids (first.2.set f s) first'.2 := by
      refine ⟨hfinal.whole, hfinal.lacking, fun g hne => ?_⟩
      show Function.update first.2.child f s g = first'.2.child g
      rw [Function.update_of_ne hne]
      exact hfinal.same g hne
    have hrest : (Lib.rounds (v.passRound kind) back (first.2.set f s)).1 =
        (Lib.rounds (v.passRound kind) back first'.2).1 ∧ _ :=
      rounds_lacks hlacks' fun g hg => ⟨(hids g).mpr (.inr (.inr hg)), (hback g hg).ne'⟩
    obtain ⟨hlogs, hends⟩ := hrest
    refine fun g _ hne => ⟨fun report => ?_, hends.same g hne⟩
    simp [hlogs, hne]

end Pass

/-! ### Two children -/

/-- The worker of one node, over children as a commit sees them. -/
def autoCommitService (services : CommitServices) : PassService AutoCommitChild where
  levelPolicy := services.cfg.levelPolicy
  archiveEnabled := false
  removeHot := true
  idleSeconds := 604800
  now := 0
  epoch := fun _ => none
  manifest := AutoCommitChild.manifest
  mount := fun c => if c.mountedWritable then some .rw else none
  isFile := fun _ _ => true
  evaluateChild := fun c => (.ok (evaluateChild {} c 0), c)
  dirty := fun c => (.ok (dirtyStats c.activeUpper.tree).dirty, c)
  commit := fun c =>
    match c.handleCommit services with
    | (.ok _, m) => (.ok (), { c with manifest := m })
    | (.error .commitLocked, _) => (.error .lockHeld, c)
    | (.error _, _) => (.error .childMount, c)
  compact := fun _ c => (.ok (), c)
  archive := fun _ c => (.error .mountd, c)
  markAccessed := fun c => (.ok (), c)

/-- A child with one file, written eight days before the clock's epoch. -/
def editedChild (id : String) (mountedWritable : Bool) : AutoCommitChild :=
  { deletedFileChild with
    manifest := { hotChild.disk with id := id, name := id }
    activeUpper := ⟨⟨[(["config"], .file [1])]⟩, fun _ => -691200⟩
    mountedWritable := mountedWritable }

/-- `alpha` is still mounted writable, or not; `beta` is not. -/
def alphaBeta (alphaMounted : Bool) : PassRegistry AutoCommitChild where
  ids := ["alpha", "beta"]
  nodup := by decide
  unpadded := by decide +kernel
  child := fun i => editedChild i (alphaMounted && i = "alpha")

theorem alphaBeta_sorted (mounted : Bool) :
    (alphaBeta mounted).sorted = ["alpha", "beta"] ∧
      ((alphaBeta mounted).without "alpha").sorted = ["beta"] := by
  refine ⟨List.mergeSort_of_pairwise ?_, List.mergeSort_of_pairwise ?_⟩
  · show ["alpha", "beta"].Pairwise fun a b => decide (a ≤ b) = true
    decide +kernel
  · show ["beta"].Pairwise fun a b => decide (a ≤ b) = true
    decide +kernel

theorem alphaBeta_spare :
    "alpha" ∈ (alphaBeta false).ids ∧
      (autoCommitService weekServices).SparesOthers .tick (alphaBeta false) "alpha" := by
  have hmem : "alpha" ∈ (alphaBeta false).ids := by decide
  refine ⟨hmem, (pass_sparesOthers_iff (autoCommitService weekServices) .tick _ hmem).mpr ?_⟩
  have hcommits : ((autoCommitService weekServices).handleCommit
      ((alphaBeta false).child "alpha")).1 = .ok () := by rfl
  rintro (⟨e, he⟩ | ⟨-, e, -, he⟩)
  · cases he
  · exact absurd (hcommits.symm.trans he) nofun

/-- **A child that is still mounted writable**: `ChildMountError` ends the tick before the next
    child, which would be committed if the first were absent. -/
theorem mountedAlpha_stops :
    ((autoCommitService weekServices).runPass .tick (alphaBeta true)).1 =
        [("alpha", .error .childMount)] ∧
      ((autoCommitService weekServices).runPass .tick ((alphaBeta true).without "alpha")).1 =
        [("beta", .ok .committed)] ∧
      ¬ (autoCommitService weekServices).SparesOthers .tick (alphaBeta true) "alpha" := by
  have hstop : ((autoCommitService weekServices).runPass .tick (alphaBeta true)).1 =
      [("alpha", .error .childMount)] := by
    unfold PassService.runPass
    rw [(alphaBeta_sorted true).1]
    decide +kernel
  have hgo : ((autoCommitService weekServices).runPass .tick
      ((alphaBeta true).without "alpha")).1 = [("beta", .ok .committed)] := by
    unfold PassService.runPass
    rw [(alphaBeta_sorted true).2]
    decide +kernel
  refine ⟨hstop, hgo, fun h => ?_⟩
  have hbeta := (h "beta" (by decide) (by decide)).1 (.ok .committed)
  rw [hstop, hgo] at hbeta
  have hreported := hbeta.mpr (List.mem_singleton_self _)
  exact absurd (congrArg Prod.fst (List.mem_singleton.mp hreported)) (by decide)

end CccStorage
