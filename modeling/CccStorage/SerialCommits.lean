/-
  File:      CccStorage/SerialCommits.lean
  Subject:   Concurrent commits of one shared-NFS child: are they serialised by the commit lock?

  * `CopyInv`, `commitStep_copyInv` -- every published delta is the copy of a sealed upper, while
    applications write to the active upper only;
  * `Serialised`, `commits_serialise` -- what every run keeps in which calls under the lock read
    back from their registries what is on disk;
  * `commits_serialise_of_distinctServices` -- calls of different services always do;
  * `staleRegistry_repeats` -- a second thread of a service that stores an older manifest makes a
    commit repeat a generation.
-/
import CccStorage.SharedCommit

namespace CccStorage

/-! ## 1. What the deltas are -/

/-- The node an application writes through. -/
def CommitEvent.writer : CommitEvent → Option Node
  | .write n _ _ => some n
  | _ => none

/-- **Applications write to the active upper**: through no mount of a sealed directory. -/
def WritesActive (s : CommitState) (e : CommitEvent) : Prop :=
  ∀ n ∈ e.writer, s.mounts n = s.active

instance (s : CommitState) (e : CommitEvent) : Decidable (WritesActive s e) :=
  inferInstanceAs (Decidable (∀ n ∈ e.writer, _ = _))

/-- How far the copy of a sealed upper is. -/
def CommitState.CopyAt (s : CommitState) : Phase → Prop
  | .recreate _ dir => (dir, s.tree dir) ∈ s.sealedUppers
  | .copy _ dir todo copied => (dir, s.tree dir) ∈ s.sealedUppers ∧
      ∃ front back, (s.tree dir).nodes = front ++ back ∧ todo = back.map (·.1) ∧
        copied = front.filter (·.2.isCopied)
  | .dump _ dir _ delta => ∃ t, (dir, t) ∈ s.sealedUppers ∧ delta = prepareDeltaSource t
  | _ => True

/-- **Every published delta is the copy of a sealed upper**, as it was when it was sealed. -/
structure CopyInv (s : CommitState) : Prop where
  nodup : ∀ d t, s.dirs d = some t → (t.nodes.map (·.1)).Nodup
  holder : s.CopyAt s.held
  copies : ∀ x ∈ s.published, ∃ t, (x.dir, t) ∈ s.sealedUppers ∧ x.delta = prepareDeltaSource t

section Copies

variable {v : Services} {start : ChildManifest} {s s' : CommitState} {i : CallId} {p : Phase}

theorem CopyInv.tree_nodup (h : CopyInv s) (d : DirId) : ((s.tree d).nodes.map (·.1)).Nodup := by
  unfold CommitState.tree
  cases hd : s.dirs d with
  | none => exact List.nodup_nil
  | some t => exact h.nodup d t hd

/-- A step that keeps the sealed uppers and their trees. -/
theorem CopyInv.keep (h : CopyInv s) (hsealed : s'.sealedUppers = s.sealedUppers)
    (hpub : s'.published = s.published) (hheld : s'.held = s.held)
    (htree : ∀ d ∈ s.sealedUppers.map (·.1), s'.tree d = s.tree d)
    (hnodup : ∀ d t, s'.dirs d = some t → (t.nodes.map (·.1)).Nodup) : CopyInv s' where
  nodup := hnodup
  holder := by
    have hat := h.holder
    rw [hheld]
    cases hp : s.held with
    | recreate m dir =>
        rw [hp] at hat
        have hmem : (dir, s.tree dir) ∈ s.sealedUppers := hat
        show (dir, s'.tree dir) ∈ s'.sealedUppers
        rw [hsealed, htree dir (List.mem_map_of_mem hmem)]
        exact hmem
    | copy m dir todo copied =>
        rw [hp] at hat
        have hmem : (dir, s.tree dir) ∈ s.sealedUppers := hat.1
        show (dir, s'.tree dir) ∈ s'.sealedUppers ∧ _
        rw [hsealed, htree dir (List.mem_map_of_mem hmem)]
        exact hat
    | dump m dir pack delta =>
        rw [hp] at hat
        obtain ⟨t, ht, hdelta⟩ := hat
        exact ⟨t, hsealed ▸ ht, hdelta⟩
    | idle | reload | found | lock | clean | dumpCompacted | release | done => trivial
  copies := by
    rw [hpub, hsealed]
    exact h.copies

theorem CopyInv.setPhase (h : CopyInv s) (hp : s.CopyAt p) : CopyInv (s.setPhase i p) where
  nodup := h.nodup
  holder := by
    unfold CommitState.held
    show s.CopyAt ((s.lock.map (Function.update s.phase i p)).getD .idle)
    cases hl : s.lock with
    | none => trivial
    | some j =>
        by_cases hj : j = i
        · subst hj
          rw [Option.map_some, Option.getD_some, Function.update_self]
          exact hp
        · have hat := h.holder
          unfold CommitState.held at hat
          rw [hl] at hat
          rw [Option.map_some, Option.getD_some, Function.update_of_ne hj]
          exact hat
  copies := h.copies

theorem CopyInv.ensureActive (h : CopyInv s) (hinv : CommitInv v start s) :
    CopyInv s.ensureActive := by
  unfold CommitState.ensureActive
  cases ha : s.active with
  | some d => exact h
  | none =>
      refine h.keep rfl rfl rfl (fun d hd => ?_) fun d t ht => ?_
      · have hne : d ≠ s.nextDir := (hinv.sealedOld d hd).ne
        show (Function.update s.dirs s.nextDir (some ⟨[]⟩) d).getD ⟨[]⟩ = (s.dirs d).getD ⟨[]⟩
        rw [Function.update_of_ne hne]
      · by_cases hd : d = s.nextDir
        · subst hd
          have ht' : Function.update s.dirs s.nextDir (some ⟨[]⟩) s.nextDir = some t := ht
          rw [Function.update_self] at ht'
          cases ht'
          exact List.nodup_nil
        · have ht' : Function.update s.dirs s.nextDir (some ⟨[]⟩) d = some t := ht
          rw [Function.update_of_ne hd] at ht'
          exact h.nodup d t ht'

theorem nodup_set {t : Tree} {path : Path} {e : Entry} (h : (t.nodes.map (·.1)).Nodup) :
    ((t.set path e).nodes.map (·.1)).Nodup := by
  show (path :: (t.nodes.filter fun x => x.1 ≠ path).map (·.1)).Nodup
  rw [List.nodup_cons]
  refine ⟨fun hmem => ?_, (List.filter_sublist.map _).nodup h⟩
  obtain ⟨x, hx, hpath⟩ := List.mem_map.mp hmem
  have hne := (List.mem_filter.mp hx).2
  rw [hpath] at hne
  simp only [ne_eq, not_true_eq_false, decide_false, Bool.false_eq_true] at hne

/-- A write to the active upper reaches no sealed one. -/
theorem CopyInv.writeFile (h : CopyInv s) (hinv : CommitInv v start s) {n : Node} {path : Path}
    {content : Bytes} (hactive : s.mounts n = s.active)
    (hw : writeFile s n path content = some s') : CopyInv s' := by
  unfold CccStorage.writeFile at hw
  split at hw
  · cases hw
  · rename_i d hd
    obtain ⟨t, ht, rfl⟩ := Option.map_eq_some_iff.mp hw
    have hnew := (hinv.activeNew d (hactive ▸ hd)).2
    refine h.keep rfl rfl rfl (fun d' hd' => ?_) fun d' t' ht' => ?_
    · have hne : d' ≠ d := fun heq => hnew (heq ▸ hd')
      show (Function.update s.dirs d _ d').getD ⟨[]⟩ = (s.dirs d').getD ⟨[]⟩
      rw [Function.update_of_ne hne]
    · have hat : Function.update s.dirs d (some (t.set path (.file content))) d' = some t' := ht'
      by_cases hdd : d' = d
      · subst hdd
        rw [Function.update_self] at hat
        cases hat
        exact nodup_set (h.nodup d' t ht)
      · rw [Function.update_of_ne hdd] at hat
        exact h.nodup d' t' hat

/-- Where the holder of the lock is, its copy is. -/
theorem CopyInv.holderAt (h : CopyInv s) (hinv : CommitInv v start s) (hi : s.phase i = p)
    (hp : p.critical = true) : s.CopyAt p := by
  have hat := h.holder
  rw [hinv.held_eq (i := i) (by rw [hi]; exact hp), hi] at hat
  exact hat

theorem CopyInv.sealActive (h : CopyInv s) (hinv : CommitInv v start s)
    (hi : (s.phase i).critical = true) (m : ChildManifest) : CopyInv (sealActive s i m) := by
  unfold CccStorage.sealActive
  cases ha : s.active with
  | none => exact h
  | some d =>
      have hheld : (({ s with
          active := none
          sealedUppers := s.sealedUppers ++ [(d, s.tree d)] }).setPhase i
            (.recreate m d)).held = .recreate m d := held_setPhase (hinv.exclusive i hi)
      refine ⟨h.nodup, ?_, fun x hx => ?_⟩
      · show CommitState.CopyAt _ (CommitState.held _)
        rw [hheld]
        exact List.mem_append_right _ List.mem_cons_self
      · obtain ⟨t, ht, hdelta⟩ := h.copies x hx
        exact ⟨t, List.mem_append_left _ ht, hdelta⟩

/-- **One more path is copied**, with what the sealed upper has there. -/
theorem CommitState.CopyAt.copyNext {m : ChildManifest} {dir : DirId} {path : Path}
    {todo : List Path} {copied : List (Path × Entry)}
    (h : s.CopyAt (.copy m dir (path :: todo) copied))
    (hnd : ((s.tree dir).nodes.map (·.1)).Nodup) :
    s.CopyAt (.copy m dir todo (copied ++
      ((((s.tree dir).nodes.lookup path).filter (·.isCopied)).map fun e => (path, e)).toList)) := by
  obtain ⟨hmem, front, back, hnodes, htodo, hcopied⟩ := h
  cases back with
  | nil => cases htodo
  | cons x back =>
      obtain ⟨hpath, htodo⟩ := List.cons.inj htodo
      have hlookup : (s.tree dir).nodes.lookup path = some x.2 := by
        rw [hnodes, List.map_append, List.map_cons] at hnd
        rw [hnodes, hpath]
        refine List.lookup_eq_some_iff.mpr ⟨front, back, rfl, fun y hy => ?_⟩
        have hdisj := (List.nodup_append'.mp hnd).2.2
        have hne : y.1 ≠ x.1 := fun heq =>
          hdisj (heq ▸ List.mem_map_of_mem hy) List.mem_cons_self
        exact bne_iff_ne.mpr hne.symm
      refine ⟨hmem, front ++ [x], back, by rw [hnodes, List.append_assoc]; rfl, htodo, ?_⟩
      rw [List.filter_append, ← hcopied, hlookup, hpath, Option.filter_some, List.filter_cons]
      split <;> rfl

theorem runStep_copyInv (h : CopyInv s) (hinv : CommitInv v start s) {a : Answer}
    (hs : runStep v s i a = some s') : CopyInv s' := by
  have hstore : ∀ n m, CopyInv (s.store n m) := fun _ _ => ⟨h.nodup, h.holder, h.copies⟩
  unfold runStep at hs
  cases hp : s.phase i with
  | idle | done =>
      rw [hp] at hs
      cases hs
  | reload next r =>
      rw [hp] at hs
      cases r with
      | scan =>
          cases hs
          exact (hstore _ _).setPhase trivial
      | loaded m =>
          cases hs
          exact (hstore _ _).setPhase trivial
      | stored =>
          obtain ⟨m, -, rfl⟩ := Option.map_eq_some_iff.mp hs
          exact h.setPhase trivial
  | found next m =>
      rw [hp] at hs
      cases next with
      | check =>
          cases hs
          refine (h.ensureActive hinv).setPhase ?_
          split <;> trivial
      | sealUpper =>
          cases hs
          refine (h.ensureActive hinv).sealActive hinv.ensureActive ?_ m
          rw [ensureActive_phase, hp]
          rfl
      | compact =>
          simp only [compactAfterCommit] at hs
          split at hs
          · cases hs
            exact h.setPhase trivial
          · obtain ⟨merged, -, rfl⟩ := Option.map_eq_some_iff.mp hs
            refine CopyInv.setPhase ⟨h.nodup, h.holder, h.copies⟩ ?_
            trivial
      | mirror =>
          simp only at hs
          split at hs
          · cases hs
            have hsame : CopyInv { s with disk := { m with coldStorage := a.cold } } :=
              ⟨h.nodup, h.holder, h.copies⟩
            exact hsame.setPhase trivial
          · cases hs
            exact h.setPhase trivial
      | status =>
          cases hs
          exact h.setPhase trivial
  | lock =>
      rw [hp] at hs
      simp only at hs
      split at hs
      · cases hs
        exact h.setPhase trivial
      · cases hs
        have hlocked : CopyInv { s with lock := some i } := by
          refine ⟨h.nodup, ?_, h.copies⟩
          have hheld : ({ s with lock := some i } : CommitState).held = .lock := hp
          rw [hheld]
          trivial
        exact hlocked.setPhase trivial
  | recreate m dir =>
      rw [hp] at hs
      cases hs
      have hat := (h.ensureActive hinv).holderAt hinv.ensureActive
        (by rw [ensureActive_phase, hp]) rfl
      refine (h.ensureActive hinv).setPhase ⟨hat, [], _, rfl, rfl, rfl⟩
  | copy m dir todo copied =>
      rw [hp] at hs
      have hat := h.holderAt hinv hp rfl
      cases todo with
      | cons path todo =>
          cases hs
          exact h.setPhase (hat.copyNext (h.tree_nodup dir))
      | nil =>
          cases hs
          obtain ⟨hmem, front, back, hnodes, htodo, hcopied⟩ := hat
          have hback : back = [] := List.map_eq_nil_iff.mp htodo.symm
          rw [hback, List.append_nil] at hnodes
          refine CopyInv.setPhase ⟨h.nodup, h.holder, h.copies⟩ ?_
          refine ⟨s.tree dir, hmem, ?_⟩
          unfold prepareDeltaSource
          rw [hnodes, hcopied]
  | dump m dir pack delta =>
      rw [hp] at hs
      obtain ⟨t, ht, hdelta⟩ := h.holderAt hinv hp rfl
      cases hs
      have hsame : CopyInv { s with
          disk := committedManifest (v.cfg i) m pack "shared-overlay"
          published := s.published ++ [⟨m.generation + 1, pack, dir, delta⟩] } := by
        refine ⟨h.nodup, h.holder, fun x hx => ?_⟩
        rcases List.mem_append.mp hx with hx | hx
        · exact h.copies x hx
        · rw [List.mem_singleton.mp hx]
          exact ⟨t, ht, hdelta⟩
      exact hsame.setPhase trivial
  | clean dir =>
      rw [hp] at hs
      cases hs
      have hheld : s.held = .clean dir := (hinv.held_eq (by rw [hp]; rfl)).trans hp
      have hsame : CopyInv { s with dirs := Function.update s.dirs dir none } := by
        refine ⟨fun d t ht => ?_, ?_, h.copies⟩
        · have hat : Function.update s.dirs dir none d = some t := ht
          by_cases hd : d = dir
          · rw [hd, Function.update_self] at hat
            cases hat
          · rw [Function.update_of_ne hd] at hat
            exact h.nodup d t hat
        · show CommitState.CopyAt _ s.held
          rw [hheld]
          trivial
      exact hsame.setPhase trivial
  | dumpCompacted m =>
      rw [hp] at hs
      cases hs
      have hsame : CopyInv { s with disk := m } := ⟨h.nodup, h.holder, h.copies⟩
      exact hsame.setPhase trivial
  | release =>
      rw [hp] at hs
      cases hs
      have hfree : CopyInv { s with lock := none } := ⟨h.nodup, trivial, h.copies⟩
      exact hfree.setPhase trivial

theorem commitStep_copyInv (h : CopyInv s) (hinv : CommitInv v start s) {e : CommitEvent}
    (hw : WritesActive s e) (hs : commitStep v s e = some s') : CopyInv s' := by
  cases e with
  | handleCommit i =>
      unfold commitStep at hs
      simp only at hs
      split at hs
      · cases hs
        refine h.setPhase ?_
        split <;> trivial
      · cases hs
  | commitSharedNfs i =>
      unfold commitStep at hs
      simp only at hs
      split at hs
      · cases hs
        exact h.setPhase trivial
      · cases hs
  | step i a => exact runStep_copyInv h hinv hs
  | mountRw n =>
      unfold commitStep at hs
      simp only at hs
      split at hs
      · cases hs
        exact h
      · cases hs
        have hens := h.ensureActive hinv
        exact ⟨hens.nodup, hens.holder, hens.copies⟩
  | unmount n =>
      cases hs
      exact ⟨h.nodup, h.holder, h.copies⟩
  | write n path content => exact h.writeFile hinv (hw n rfl) hs

end Copies

/-! ## 2. Commits serialise -/

/-- **The commits of a run serialise**, from the manifest at its start. -/
structure Serialised (start : ChildManifest) (s : CommitState) : Prop where
  /-- The published generations have no gaps and no repeats. -/
  consecutive : s.published.map (·.generation) =
    List.range' (start.generation + 1) s.published.length
  current : s.disk.generation = start.generation + s.published.length
  /-- Every published delta is in the stack in generation order, or in a compacted pack. -/
  inOrder : StackHolds s.disk.lowers s.published
  /-- No two commits build at one path. -/
  pathsDistinct : s.builds.Nodup
  /-- What was in a sealed upper is in exactly one published delta, once its commit publishes. -/
  inOneDelta : ∀ x ∈ s.sealedUppers, (∃ i, (s.phase i).unpublished = some x.1) ∨
    ∃ d, (d ∈ s.published ∧ d.dir = x.1 ∧ ∀ d' ∈ s.published, d'.dir = x.1 → d' = d) ∧
      ∀ path content, x.2.nodes.lookup path = some (.file content) →
        d.delta.nodes.lookup path = some (.file content)

section Serial

variable {v : Services} {start : ChildManifest} {s : CommitState}

theorem IdleState.copyInv (s₀ : IdleState) : CopyInv s₀.toCommitState where
  nodup := s₀.nodup
  holder := by
    rw [s₀.held_idle]
    trivial
  copies := by
    rw [s₀.nothingPublished]
    exact nofun

/-- The sealed uppers are the published ones, and the one of the commit that is under way. -/
theorem CommitInv.sealed_eq (h : CommitInv v start s) :
    s.sealedUppers.map (·.1) = s.published.map (·.dir) ∨
      ∃ dir i, (s.phase i).unpublished = some dir ∧
        s.sealedUppers.map (·.1) = s.published.map (·.dir) ++ [dir] := by
  have hholder := h.holder
  have hcall : ∀ dir, s.held.unpublished = some dir → ∃ i, (s.phase i).unpublished = some dir := by
    intro dir hdir
    unfold CommitState.held at hdir
    cases hl : s.lock with
    | none =>
        rw [hl] at hdir
        cases hdir
    | some i =>
        rw [hl] at hdir
        exact ⟨i, hdir⟩
  cases hp : s.held with
  | recreate m dir =>
      rw [hp] at hholder hcall
      obtain ⟨i, hi⟩ := hcall dir rfl
      exact .inr ⟨dir, i, hi, hholder.2.1⟩
  | copy m dir todo copied =>
      rw [hp] at hholder hcall
      obtain ⟨i, hi⟩ := hcall dir rfl
      exact .inr ⟨dir, i, hi, hholder.2.1⟩
  | dump m dir pack delta =>
      rw [hp] at hholder hcall
      obtain ⟨i, hi⟩ := hcall dir rfl
      exact .inr ⟨dir, i, hi, hholder.2.1⟩
  | found next m =>
      rw [hp] at hholder
      exact .inl hholder.2.1
  | dumpCompacted m =>
      rw [hp] at hholder
      exact .inl hholder.1.1
  | idle | reload | lock | clean | release | done =>
      rw [hp] at hholder
      exact .inl hholder.1

/-- The built paths are those of the published generations, and perhaps of the next one. -/
theorem CommitInv.builds_eq (h : CommitInv v start s) :
    s.builds = s.published.map (·.pack.path) ∨
      s.builds = s.published.map (·.pack.path) ++
        [deltaPath v.base.packDir (s.disk.generation + 1)] := by
  have hholder := h.holder
  cases hp : s.held with
  | dump m dir pack delta =>
      rw [hp] at hholder
      obtain ⟨-, -, hbuilds, ⟨i, built, hpack⟩, -⟩ := hholder
      rw [hbuilds, hpack]
      exact .inr rfl
  | recreate m dir | copy m dir todo copied =>
      rw [hp] at hholder
      exact .inl hholder.2.2
  | found next m =>
      rw [hp] at hholder
      exact .inl hholder.2.2
  | dumpCompacted m =>
      rw [hp] at hholder
      exact .inl hholder.1.2
  | idle | reload | lock | clean | release | done =>
      rw [hp] at hholder
      exact .inl hholder.2

theorem CommitInv.builds_nodup (h : CommitInv v start s) : s.builds.Nodup := by
  have hpaths : s.published.map (·.pack.path) =
      (s.published.map (·.generation)).map (deltaPath v.base.packDir) := by
    rw [List.map_map]
    exact List.map_congr_left fun x hx => h.path_eq hx
  have hnd : (s.published.map (·.pack.path)).Nodup := by
    rw [hpaths, h.consecutive]
    exact List.Nodup.map (fun a b hab => deltaPath_inj hab) List.nodup_range'
  rcases h.builds_eq with hb | hb
  · rw [hb]
    exact hnd
  · rw [hb]
    refine List.nodup_append'.mpr ⟨hnd, List.nodup_singleton _, fun path hmem hnew => ?_⟩
    obtain ⟨x, hx, rfl⟩ := List.mem_map.mp hmem
    have hgen := List.mem_singleton.mp hnew
    rw [h.path_eq hx] at hgen
    have heq := deltaPath_inj hgen
    have hle := (h.generation_le hx).2
    omega

theorem CommitInv.serialised (h : CommitInv v start s) (hcopy : CopyInv s) : Serialised start s where
  consecutive := h.consecutive
  current := h.current
  inOrder := h.stack
  pathsDistinct := h.builds_nodup
  inOneDelta := by
    intro x hx
    have hdirs : (s.published.map (·.dir)).Nodup := by
      have honce := h.sealedOnce
      rcases h.sealed_eq with heq | ⟨dir, i, -, heq⟩
      · rw [heq] at honce
        exact honce
      · rw [heq] at honce
        exact (List.nodup_append'.mp honce).1
    have hmem : x.1 ∈ s.sealedUppers.map (·.1) := List.mem_map_of_mem hx
    have hpublished : x.1 ∈ s.published.map (·.dir) → ∃ d,
        (d ∈ s.published ∧ d.dir = x.1 ∧ ∀ d' ∈ s.published, d'.dir = x.1 → d' = d) ∧
          ∀ path content, x.2.nodes.lookup path = some (.file content) →
            d.delta.nodes.lookup path = some (.file content) := by
      intro hin
      obtain ⟨d, hd, hdir⟩ := List.mem_map.mp hin
      obtain ⟨t, ht, hdelta⟩ := hcopy.copies d hd
      have hpair : (d.dir, t) = x := List.inj_on_of_nodup_map h.sealedOnce ht hx hdir
      refine ⟨d, ⟨hd, hdir, fun d' hd' hdir' =>
        List.inj_on_of_nodup_map hdirs hd' hd (hdir'.trans hdir.symm)⟩, fun path content hfile => ?_⟩
      rw [hdelta]
      rw [← hpair] at hfile
      exact prepareDeltaSource_lookup hfile rfl
    rcases h.sealed_eq with heq | ⟨dir, i, hi, heq⟩
    · rw [heq] at hmem
      exact .inr (hpublished hmem)
    · rw [heq] at hmem
      rcases List.mem_append.mp hmem with hmem | hmem
      · exact .inr (hpublished hmem)
      · rw [List.mem_singleton.mp hmem]
        exact .inl ⟨i, hi⟩

/-- **Concurrent commits of one child serialise**, in every state of every run from any start,
    where every call under the lock reads back from its registry what is on disk. -/
theorem commits_serialise (v : Services) (s₀ : IdleState)
    {tr : List (Lib.Trans CommitState CommitEvent)}
    (hrun : Lib.Run (fun a e b => commitStep v a e = some b) s₀.toCommitState tr s)
    (hok : ∀ x ∈ tr, ReadsDisk v x.pre x.ev ∧ WritesActive x.pre x.ev) :
    Serialised s₀.disk s ∧ ∀ x ∈ tr, Serialised s₀.disk x.pre ∧ Serialised s₀.disk x.post := by
  have hinv := hrun.invariant
    (I := fun a => CommitInv v s₀.disk a ∧ CopyInv a)
    (G := fun a e => ReadsDisk v a e ∧ WritesActive a e) ⟨s₀.commitInv v, s₀.copyInv⟩
    (fun a e b ha hg hs => ⟨commitStep_inv ha.1 hg.1 hs, commitStep_copyInv ha.2 ha.1 hg.2 hs⟩) hok
  refine ⟨hinv.1.1.serialised hinv.1.2, fun x hx => ?_⟩
  obtain ⟨hpre, hpost⟩ := hinv.2 x hx
  exact ⟨hpre.1.serialised hpre.2, hpost.1.serialised hpost.2⟩

end Serial

/-! ## 3. Calls of different services -/

/-- A call that reloads under the lock has loaded, and stored, what is on disk. -/
def CommitState.FreshAt (v : Services) (s : CommitState) (i : CallId) : Phase → Prop
  | .reload next (.loaded m) => next ≠ .check → m = s.disk
  | .reload next .stored => next ≠ .check → s.registry (v.node i) = some s.disk
  | _ => True

section Distinct

variable {v : Services} {start : ChildManifest} {s s' : CommitState} {i : CallId}

/-- A step of a call leaves the other calls and the other registries, and outside the lock the
    manifest on disk. -/
theorem runStep_frame {a : Answer} (hs : runStep v s i a = some s') :
    (∀ j, j ≠ i → s'.phase j = s.phase j) ∧
      (∀ n, n ≠ v.node i → s'.registry n = s.registry n) ∧
      ((s.phase i).critical = false → s'.disk = s.disk) := by
  have hset : ∀ (p : Phase) (j : CallId), j ≠ i → Function.update s.phase i p j = s.phase j :=
    fun p j hj => Function.update_of_ne hj p s.phase
  have hens : s.ensureActive.registry = s.registry ∧ s.ensureActive.disk = s.disk := by
    unfold CommitState.ensureActive
    split <;> exact ⟨rfl, rfl⟩
  have hensPhase : ∀ (p : Phase) (j : CallId), j ≠ i →
      (s.ensureActive.setPhase i p).phase j = s.phase j := by
    intro p j hj
    show Function.update s.ensureActive.phase i p j = _
    rw [ensureActive_phase]
    exact hset p j hj
  unfold runStep at hs
  cases hp : s.phase i with
  | idle | done =>
      rw [hp] at hs
      cases hs
  | reload next r =>
      rw [hp] at hs
      cases r with
      | scan | loaded =>
          cases hs
          exact ⟨hset _, fun n hn => Function.update_of_ne hn _ _, fun _ => rfl⟩
      | stored =>
          obtain ⟨m, -, rfl⟩ := Option.map_eq_some_iff.mp hs
          exact ⟨hset _, fun _ _ => rfl, fun _ => rfl⟩
  | found next m =>
      rw [hp] at hs
      cases next with
      | check =>
          cases hs
          exact ⟨hensPhase _, fun n _ => congrFun hens.1 n, fun _ => hens.2⟩
      | sealUpper =>
          cases hs
          unfold sealActive
          split
          · exact ⟨hensPhase _, fun n _ => congrFun hens.1 n, nofun⟩
          · exact ⟨fun j _ => congrFun (ensureActive_phase s) j, fun n _ => congrFun hens.1 n, nofun⟩
      | compact =>
          simp only [compactAfterCommit] at hs
          split at hs
          · cases hs
            exact ⟨hset _, fun _ _ => rfl, nofun⟩
          · obtain ⟨merged, -, rfl⟩ := Option.map_eq_some_iff.mp hs
            exact ⟨hset _, fun _ _ => rfl, nofun⟩
      | mirror =>
          simp only at hs
          split at hs <;> cases hs <;> exact ⟨hset _, fun _ _ => rfl, nofun⟩
      | status =>
          cases hs
          exact ⟨hset _, fun _ _ => rfl, nofun⟩
  | lock =>
      rw [hp] at hs
      simp only at hs
      split at hs <;> cases hs <;> exact ⟨hset _, fun _ _ => rfl, fun _ => rfl⟩
  | recreate m dir =>
      rw [hp] at hs
      cases hs
      exact ⟨hensPhase _, fun n _ => congrFun hens.1 n, nofun⟩
  | copy m dir todo copied =>
      rw [hp] at hs
      cases todo <;> cases hs <;> exact ⟨hset _, fun _ _ => rfl, nofun⟩
  | dump | clean | dumpCompacted | release =>
      rw [hp] at hs
      cases hs
      exact ⟨hset _, fun _ _ => rfl, nofun⟩

/-- The call an event belongs to. -/
def CommitEvent.call : CommitEvent → Option CallId
  | .handleCommit i | .commitSharedNfs i | .step i _ => some i
  | .mountRw _ | .unmount _ | .write _ _ _ => none

/-- A step leaves every other call where it is. -/
theorem commitStep_phase {e : CommitEvent} (hs : commitStep v s e = some s')
    (he : ∀ j ∈ e.call, i ≠ j) : s'.phase i = s.phase i := by
  cases e with
  | handleCommit j | commitSharedNfs j =>
      unfold commitStep at hs
      simp only at hs
      split at hs
      · cases hs
        exact Function.update_of_ne (he j rfl) _ _
      · cases hs
  | step j a => exact (runStep_frame hs).1 i (he j rfl)
  | mountRw n =>
      unfold commitStep at hs
      simp only at hs
      split at hs
      · cases hs
        rfl
      · cases hs
        exact congrFun (ensureActive_phase s) i
  | unmount n =>
      cases hs
      rfl
  | write n path content =>
      have hw : writeFile s n path content = some s' := hs
      unfold writeFile at hw
      split at hw
      · cases hw
      · obtain ⟨t, -, rfl⟩ := Option.map_eq_some_iff.mp hw
        rfl

/-- A call that moves to a point where it has read nothing is fresh. -/
theorem freshAt_update {p : Phase} (hphase : s'.phase = Function.update s.phase i p)
    (hp : s'.FreshAt v i p) : s'.FreshAt v i (s'.phase i) := by
  rw [hphase, Function.update_self]
  exact hp

/-- The call itself stays fresh. -/
theorem runStep_fresh {a : Answer} (hf : s.FreshAt v i (s.phase i))
    (hs : runStep v s i a = some s') : s'.FreshAt v i (s'.phase i) := by
  unfold runStep at hs
  cases hp : s.phase i with
  | idle | done =>
      rw [hp] at hs
      cases hs
  | reload next r =>
      rw [hp] at hs hf
      cases r with
      | scan =>
          cases hs
          exact freshAt_update rfl fun _ => rfl
      | loaded m =>
          cases hs
          refine freshAt_update rfl fun hne => ?_
          show Function.update s.registry (v.node i) (some m) (v.node i) = some s.disk
          rw [Function.update_self, hf hne]
      | stored =>
          obtain ⟨m, -, rfl⟩ := Option.map_eq_some_iff.mp hs
          exact freshAt_update rfl trivial
  | found next m =>
      rw [hp] at hs
      cases next with
      | check =>
          cases hs
          refine freshAt_update (s := s.ensureActive) rfl ?_
          split <;> trivial
      | sealUpper =>
          cases hs
          unfold sealActive
          split
          · exact freshAt_update (s := s.ensureActive) rfl trivial
          · rw [ensureActive_phase, hp]
            trivial
      | compact =>
          simp only [compactAfterCommit] at hs
          split at hs
          · cases hs
            exact freshAt_update rfl trivial
          · obtain ⟨merged, -, rfl⟩ := Option.map_eq_some_iff.mp hs
            exact freshAt_update (s := s) rfl trivial
      | mirror =>
          simp only at hs
          split at hs <;> cases hs <;> exact freshAt_update rfl trivial
      | status =>
          cases hs
          exact freshAt_update rfl trivial
  | lock =>
      rw [hp] at hs
      simp only at hs
      split at hs <;> cases hs <;> exact freshAt_update rfl trivial
  | recreate m dir =>
      rw [hp] at hs
      cases hs
      exact freshAt_update (s := s.ensureActive) rfl trivial
  | copy m dir todo copied =>
      rw [hp] at hs
      cases todo <;> cases hs <;> exact freshAt_update rfl trivial
  | dump | clean | dumpCompacted | release =>
      rw [hp] at hs
      cases hs
      exact freshAt_update rfl trivial

/-- **Calls of different services read back what is on disk.** -/
theorem readsDisk_of_fresh (hf : ∀ j, s.FreshAt v j (s.phase j)) (e : CommitEvent) :
    ReadsDisk v s e := by
  intro x hx hne
  cases e with
  | step i a =>
      unfold readsBack at hx
      simp only at hx
      split at hx
      · rename_i next hp
        cases hx
        have hat := hf i
        rw [hp] at hat
        exact hat hne
      · cases hx
  | handleCommit | commitSharedNfs | mountRw | unmount | write => cases hx

/-- What another call does leaves a call fresh: it has another registry, and no lock. -/
theorem freshAt_step (hinj : Function.Injective v.node) (h : CommitInv v start s)
    (hf : ∀ j, s.FreshAt v j (s.phase j)) {e : CommitEvent} (hs : commitStep v s e = some s') :
    ∀ j, s'.FreshAt v j (s'.phase j) := by
  have hkeep : ∀ j, s'.phase j = s.phase j → s'.registry (v.node j) = s.registry (v.node j) →
      ((s.phase j).critical = true → s'.disk = s.disk) → s'.FreshAt v j (s'.phase j) := by
    intro j hphase hreg hdisk
    have hat := hf j
    rw [hphase]
    cases hp : s.phase j with
    | reload next r =>
        rw [hp] at hat hdisk
        cases r with
        | scan => trivial
        | loaded m =>
            intro hne
            rw [hdisk (by cases next <;> first | rfl | exact absurd rfl hne)]
            exact hat hne
        | stored =>
            intro hne
            rw [hreg, hdisk (by cases next <;> first | rfl | exact absurd rfl hne)]
            exact hat hne
    | _ => trivial
  intro j
  have hcall : ∀ i p, s.FreshAt v i p → (s.setPhase i p).FreshAt v j ((s.setPhase i p).phase j) := by
    intro i p hp
    show s.FreshAt v j (Function.update s.phase i p j)
    by_cases hji : j = i
    · rw [hji, Function.update_self]
      exact hp
    · rw [Function.update_of_ne hji]
      exact hf j
  cases e with
  | step i a =>
      by_cases hji : j = i
      · rw [hji]
        exact runStep_fresh (hf i) hs
      · obtain ⟨hphase, hreg, hdisk⟩ := runStep_frame hs
        refine hkeep j (hphase j hji) (hreg _ fun heq => hji (hinj heq)) fun hj => hdisk ?_
        rw [Bool.eq_false_iff]
        intro hi
        exact hji (Option.some.inj ((h.exclusive j hj).symm.trans (h.exclusive i hi)))
  | handleCommit i =>
      unfold commitStep at hs
      simp only at hs
      split at hs
      · cases hs
        exact hcall i _ (by split <;> trivial)
      · cases hs
  | commitSharedNfs i =>
      unfold commitStep at hs
      simp only at hs
      split at hs
      · cases hs
        exact hcall i _ trivial
      · cases hs
  | mountRw n =>
      unfold commitStep at hs
      simp only at hs
      split at hs
      · cases hs
        exact hf j
      · cases hs
        have hens : s.ensureActive.registry = s.registry ∧ s.ensureActive.disk = s.disk := by
          unfold CommitState.ensureActive
          split <;> exact ⟨rfl, rfl⟩
        exact hkeep j (congrFun (ensureActive_phase s) j) (congrFun hens.1 _) fun _ => hens.2
  | unmount n =>
      cases hs
      exact hkeep j rfl rfl fun _ => rfl
  | write n path content =>
      have hw : writeFile s n path content = some s' := hs
      unfold writeFile at hw
      split at hw
      · cases hw
      · obtain ⟨t, -, rfl⟩ := Option.map_eq_some_iff.mp hw
        exact hkeep j rfl rfl fun _ => rfl

/-- **Calls of different services serialise**, whatever their schedule. -/
theorem commits_serialise_of_distinctServices (hinj : Function.Injective v.node) (s₀ : IdleState)
    {tr : List (Lib.Trans CommitState CommitEvent)}
    (hrun : Lib.Run (fun a e b => commitStep v a e = some b) s₀.toCommitState tr s)
    (hok : ∀ x ∈ tr, WritesActive x.pre x.ev) :
    Serialised s₀.disk s ∧ ∀ x ∈ tr, Serialised s₀.disk x.pre ∧ Serialised s₀.disk x.post := by
  have hinv := hrun.invariant
    (I := fun a => CommitInv v s₀.disk a ∧ ∀ j, a.FreshAt v j (a.phase j))
    (G := fun _ _ => True) ⟨s₀.commitInv v, fun j => by rw [s₀.idle j]; trivial⟩
    (fun a e b ha _ hs => ⟨commitStep_inv ha.1 (readsDisk_of_fresh ha.2 e) hs,
      freshAt_step hinj ha.1 ha.2 hs⟩) fun _ _ => trivial
  exact commits_serialise v s₀ hrun fun x hx =>
    ⟨readsDisk_of_fresh (hinv.2 x hx).1.2 x.ev, hok x hx⟩

end Distinct

/-! ### Schedules of three calls -/

/-- Two services check the same dirty upper; the second commits after the first has. -/
def twoCommitters : List CommitEvent :=
  [.mountRw 5, .write 5 ["a"] [1], .commitSharedNfs 0, .commitSharedNfs 2] ++ steps 4 0 ++
    steps 20 2 ++ steps 19 0

theorem commits_serialise_twoCommitters :
    ∃ s, Lib.Run (fun a e b => commitStep twoServices a e = some b) idleCommits.toCommitState
        (schedule twoCommitters) s ∧
      (∃ x ∈ schedule twoCommitters, x.post.published.map (·.generation) = [1, 2]) ∧
      Serialised idleCommits.disk s := by
  obtain ⟨s, hrun⟩ := Lib.Run.trace (commitStep twoServices) twoCommitters
    idleCommits.toCommitState
  exact ⟨s, hrun, ⟨(schedule twoCommitters)[40], List.getElem_mem _, by decide⟩,
    (commits_serialise twoServices idleCommits hrun (by decide)).1⟩

/-- Call 1 has loaded generation 0 when call 2 commits; it stores it in the registry of its service
    while call 0, which holds the lock by then, is about to read back. -/
def staleStore : List CommitEvent :=
  [.mountRw 5, .write 5 ["a"] [1], .commitSharedNfs 0, .commitSharedNfs 1, .commitSharedNfs 2] ++
    steps 4 0 ++ steps 1 1 ++ steps 20 2 ++ steps 3 0 ++ steps 1 1 ++ steps 5 0

/-- **Generation 1 is published twice**, at one path; the file of the first commit is gone. -/
theorem staleRegistry_repeats :
    (∃ s, Lib.Run (fun a e b => commitStep twoServices a e = some b) idleCommits.toCommitState
        (schedule staleStore) s) ∧
      (∀ x ∈ schedule staleStore, WritesActive x.pre x.ev) ∧
      ∃ x ∈ schedule staleStore, x.post.published.map (·.generation) = [1, 1] ∧
        x.post.disk.lowers.map (·.path) = ["/nfs/packs/env/delta-g0001.sqfs"] ∧
        (x.post.packs "/nfs/packs/env/delta-g0001.sqfs").map (·.nodes) = some [] ∧
        ¬ Serialised idleCommits.disk x.post := by
  refine ⟨Lib.Run.trace (commitStep twoServices) staleStore idleCommits.toCommitState,
    by decide, (schedule staleStore)[38], List.getElem_mem _, by decide, by decide, by decide,
    fun h => ?_⟩
  have hrepeat : (schedule staleStore)[38].post.published.map (·.generation) = [1, 1] := by decide
  have hpaths := h.consecutive
  rw [hrepeat] at hpaths
  have hlen : (schedule staleStore)[38].post.published.length = 2 := by decide
  rw [hlen] at hpaths
  cases hpaths

end CccStorage
