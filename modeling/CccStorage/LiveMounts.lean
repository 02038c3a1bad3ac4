/-
  File:      CccStorage/LiveMounts.lean
  Subject:   Writes through live mounts while shared-NFS commits run.

  A mount keeps the directory it was given, under whatever name; a commit renames that directory,
  copies it and deletes it. The mount guard of `handle_commit` looks at the mounts of its own node,
  before the lock.

  * `WritesInTime` -- no write lands in a directory whose copy has passed the path;
  * `KeptInv`, `commitStep_kept` -- what every step keeps while writes come in time;
  * `liveWrites_kept` -- then every acknowledged write is in a committed pack or in the active
    upper;
  * `liveWrite_lost` -- a mount of another node that writes after the copy.
-/
import CccStorage.SerialCommits

namespace CccStorage

/-! ## 1. The condition -/

/-- The directory the call has sealed, until it deletes it. -/
def Phase.sealedDir : Phase → Option DirId
  | .recreate _ dir | .copy _ dir _ _ | .dump _ dir _ _ | .clean dir => some dir
  | _ => none

/-- The file a write lands on, by directory and path. -/
def writes (s : CommitState) : CommitEvent → Option (DirId × Path)
  | .write n path _ => (s.mounts n).map fun d => (d, path)
  | _ => none

/-- The call has still to copy the path, if it is in the directory it has sealed. -/
def Phase.WillCopy (d : DirId) (path : Path) : Phase → Prop
  | .copy _ dir todo _ => dir = d → path ∈ todo
  | .dump _ dir _ _ | .clean dir => dir ≠ d
  | _ => True

instance (d : DirId) (path : Path) (p : Phase) : Decidable (p.WillCopy d path) :=
  match p with
  | .copy _ dir todo _ => inferInstanceAs (Decidable (dir = d → path ∈ todo))
  | .dump _ dir _ _ => inferInstanceAs (Decidable (dir ≠ d))
  | .clean dir => inferInstanceAs (Decidable (dir ≠ d))
  | .idle | .reload _ _ | .found _ _ | .lock | .recreate _ _ | .dumpCompacted _ | .release
  | .done => isTrue trivial

/-- **A write comes in time**: the copy of a commit under way has not passed it. -/
def WritesInTime (s : CommitState) (e : CommitEvent) : Prop :=
  ∀ x ∈ writes s e, s.held.WillCopy x.1 x.2

instance (s : CommitState) (e : CommitEvent) : Decidable (WritesInTime s e) :=
  inferInstanceAs (Decidable (∀ x ∈ writes s e, s.held.WillCopy _ _))

/-! ## 2. The invariant -/

/-- A published delta has the file. -/
def CommitState.InDelta (s : CommitState) (d : DirId) (path : Path) (content : Bytes) : Prop :=
  ∃ x ∈ s.published, x.dir = d ∧ x.delta.nodes.lookup path = some (.file content)

/-- What the commit under way has of its sealed directory. -/
def CommitState.CopyTaken (s : CommitState) : Phase → Prop
  | .copy _ dir todo copied => todo.Nodup ∧ (∀ path ∈ todo, copied.lookup path = none) ∧
      ∀ path content, (s.tree dir).nodes.lookup path = some (.file content) →
        path ∈ todo ∨ copied.lookup path = some (.file content)
  | .dump _ dir _ delta => ∀ path content,
      (s.tree dir).nodes.lookup path = some (.file content) →
        delta.nodes.lookup path = some (.file content)
  | .clean dir => ∀ path content,
      (s.tree dir).nodes.lookup path = some (.file content) → s.InDelta dir path content
  | _ => True

/-- **Where the acknowledged writes are**: in their directory or in a published delta; and every
    directory is the active upper or the one a commit is working on. -/
structure KeptInv (s : CommitState) : Prop where
  nodup : ∀ d t, s.dirs d = some t → (t.nodes.map (·.1)).Nodup
  copied : s.CopyTaken s.held
  heldSealed : ∀ d, s.held.sealedDir = some d → d ∈ s.sealedUppers.map (·.1)
  live : ∀ d t, s.dirs d = some t → s.active = some d ∨ s.held.sealedDir = some d
  kept : ∀ d path content, s.acknowledged d path = some content →
    (s.tree d).nodes.lookup path = some (.file content) ∨ s.InDelta d path content

section Kept

variable {v : Services} {start : ChildManifest} {s s' : CommitState} {i : CallId} {p : Phase}
  {d : DirId} {path : Path} {content : Bytes}

/-- A directory that has a file exists. -/
theorem exists_of_lookup (h : (s.tree d).nodes.lookup path = some (.file content)) :
    ∃ t, s.dirs d = some t ∧ t.nodes.lookup path = some (.file content) := by
  unfold CommitState.tree at h
  cases hd : s.dirs d with
  | none =>
      rw [hd] at h
      cases h
  | some t =>
      rw [hd] at h
      exact ⟨t, rfl, h⟩

theorem KeptInv.tree_nodup (h : KeptInv s) (d : DirId) : ((s.tree d).nodes.map (·.1)).Nodup := by
  unfold CommitState.tree
  cases hd : s.dirs d with
  | none => exact List.nodup_nil
  | some t => exact h.nodup d t hd

/-- A published delta stays. -/
theorem CommitState.InDelta.mono (h : s.InDelta d path content)
    (hpub : ∀ x ∈ s.published, x ∈ s'.published) : s'.InDelta d path content := by
  obtain ⟨x, hx, hdir, hfile⟩ := h
  exact ⟨x, hpub x hx, hdir, hfile⟩

/-- What a commit has of its directory depends on that directory and on what is published. -/
theorem CommitState.CopyTaken.congr (h : s.CopyTaken p)
    (htree : ∀ dir, p.sealedDir = some dir → s'.tree dir = s.tree dir)
    (hpub : ∀ x ∈ s.published, x ∈ s'.published) : s'.CopyTaken p := by
  cases p with
  | copy m dir todo copied =>
      refine ⟨h.1, h.2.1, fun path content hfile => h.2.2 path content ?_⟩
      rw [← htree dir rfl]
      exact hfile
  | dump m dir pack delta =>
      intro path content hfile
      rw [htree dir rfl] at hfile
      exact h path content hfile
  | clean dir =>
      intro path content hfile
      rw [htree dir rfl] at hfile
      exact (h path content hfile).mono hpub
  | idle | reload | found | lock | recreate | dumpCompacted | release | done => trivial

/-- A call that has sealed nothing has nothing to copy. -/
theorem CommitState.CopyTaken.of_none (hp : p.sealedDir = none) : s.CopyTaken p := by
  cases p with
  | idle | reload | found | lock | dumpCompacted | release | done => trivial
  | recreate | copy | dump | clean => cases hp

/-- A step that moves a call which has sealed nothing, or that goes on with what it has sealed. -/
theorem KeptInv.setPhase (h : KeptInv s) (hp : p.sealedDir = (s.phase i).sealedDir)
    (hcopied : s.CopyTaken p) : KeptInv (s.setPhase i p) := by
  have hcases : (s.setPhase i p).held = s.held ∨
      (s.setPhase i p).held = p ∧ s.held = s.phase i := by
    unfold CommitState.held
    show (s.lock.map (Function.update s.phase i p)).getD .idle = _ ∨
      (s.lock.map (Function.update s.phase i p)).getD .idle = _ ∧ _
    cases s.lock with
    | none => exact .inl rfl
    | some j =>
        by_cases hj : j = i
        · rw [hj]
          exact .inr ⟨Function.update_self .., rfl⟩
        · exact .inl (Function.update_of_ne hj ..)
  have hheld : (s.setPhase i p).held.sealedDir = s.held.sealedDir := by
    rcases hcases with hsame | ⟨hnew, hold⟩
    · rw [hsame]
    · rw [hnew, hold, hp]
  refine ⟨h.nodup, ?_, ?_, ?_, h.kept⟩
  · rcases hcases with hsame | ⟨hnew, -⟩
    · rw [hsame]
      exact h.copied
    · rw [hnew]
      exact hcopied
  · rw [hheld]
    exact h.heldSealed
  · rw [hheld]
    exact h.live

/-- A step that keeps the directories and the log, but may publish. -/
theorem KeptInv.keep (h : KeptInv s) (hdirs : s'.dirs = s.dirs) (hactive : s'.active = s.active)
    (hsealed : s'.sealedUppers = s.sealedUppers) (hack : s'.acknowledged = s.acknowledged)
    (hheld : s'.held = s.held ∨ s.held.sealedDir = none ∧ s'.held.sealedDir = none)
    (hpub : ∀ x ∈ s.published, x ∈ s'.published) : KeptInv s' := by
  have htree : ∀ dir, s'.tree dir = s.tree dir := by
    intro dir
    unfold CommitState.tree
    rw [hdirs]
  have hdir : s'.held.sealedDir = s.held.sealedDir := by
    rcases hheld with hsame | ⟨hold, hnew⟩
    · rw [hsame]
    · rw [hold, hnew]
  refine ⟨?_, ?_, ?_, ?_, fun d path content hd => ?_⟩
  · rw [hdirs]
    exact h.nodup
  · rcases hheld with hsame | ⟨-, hnew⟩
    · rw [hsame]
      exact h.copied.congr (fun dir _ => htree dir) hpub
    · exact .of_none hnew
  · rw [hdir, hsealed]
    exact h.heldSealed
  · rw [hdir, hdirs, hactive]
    exact h.live
  · rw [hack] at hd
    rcases h.kept d path content hd with hfile | hdelta
    · left
      rw [htree]
      exact hfile
    · exact .inr (hdelta.mono hpub)

theorem KeptInv.ensureActive (h : KeptInv s) (hinv : CommitInv v start s) :
    KeptInv s.ensureActive := by
  unfold CommitState.ensureActive
  cases ha : s.active with
  | some d => exact h
  | none =>
      -- the new directory has been nobody's
      have hnew : ∀ t, s.dirs s.nextDir ≠ some t := by
        intro t ht
        rcases h.live _ t ht with hactive | hheld
        · rw [ha] at hactive
          cases hactive
        · exact lt_irrefl _ (hinv.sealedOld _ (h.heldSealed _ hheld))
      refine ⟨fun d t ht => ?_, h.copied.congr (fun dir hdir => ?_) fun _ => id, h.heldSealed,
        fun d t ht => ?_, fun d path content hd => ?_⟩
      · by_cases hd : d = s.nextDir
        · rw [hd] at ht
          have ht' : Function.update s.dirs s.nextDir (some ⟨[]⟩) s.nextDir = some t := ht
          rw [Function.update_self] at ht'
          cases ht'
          exact List.nodup_nil
        · have ht' : Function.update s.dirs s.nextDir (some ⟨[]⟩) d = some t := ht
          rw [Function.update_of_ne hd] at ht'
          exact h.nodup d t ht'
      · have hne : dir ≠ s.nextDir := (hinv.sealedOld _ (h.heldSealed _ hdir)).ne
        show (Function.update s.dirs s.nextDir (some ⟨[]⟩) dir).getD ⟨[]⟩ = (s.dirs dir).getD ⟨[]⟩
        rw [Function.update_of_ne hne]
      · by_cases hd : d = s.nextDir
        · rw [hd]
          exact .inl rfl
        · have ht' : Function.update s.dirs s.nextDir (some ⟨[]⟩) d = some t := ht
          rw [Function.update_of_ne hd] at ht'
          rcases h.live d t ht' with hactive | hheld
          · rw [ha] at hactive
            cases hactive
          · exact .inr hheld
      · rcases h.kept d path content hd with htree | hdelta
        · obtain ⟨t, ht, -⟩ := exists_of_lookup htree
          have hne : d ≠ s.nextDir := fun heq => hnew t (heq ▸ ht)
          left
          show ((Function.update s.dirs s.nextDir (some ⟨[]⟩) d).getD ⟨[]⟩).nodes.lookup path = _
          rw [Function.update_of_ne hne]
          exact htree
        · exact .inr hdelta

/-- **A write in time** leaves the copy complete. -/
theorem CommitState.CopyTaken.writeFile {t : Tree} (h : s.CopyTaken p) (ht : s.dirs d = some t)
    (hcopy : p.WillCopy d path) (hdirs : s'.dirs = Function.update s.dirs d
      (some (t.set path (.file content)))) (hpub : s'.published = s.published) :
    s'.CopyTaken p := by
  have hother : ∀ dir, dir ≠ d → s'.tree dir = s.tree dir := by
    intro dir hdir
    unfold CommitState.tree
    rw [hdirs, Function.update_of_ne hdir]
  have hsame : ∀ x ∈ s.published, x ∈ s'.published := hpub ▸ fun _ => id
  cases p with
  | copy m dir todo copied =>
      by_cases hdir : dir = d
      · obtain ⟨hnodup, hfresh, hfiles⟩ := h
        refine ⟨hnodup, hfresh, fun q c hq => ?_⟩
        have hold : s.tree dir = t := by
          unfold CommitState.tree
          rw [hdir, ht, Option.getD_some]
        have hnew : s'.tree dir = t.set path (.file content) := by
          unfold CommitState.tree
          rw [hdirs, hdir, Function.update_self, Option.getD_some]
        rw [hnew, Tree.lookup_set] at hq
        by_cases hqp : q = path
        · rw [hqp]
          exact .inl (hcopy hdir)
        · rw [if_neg hqp, ← hold] at hq
          exact hfiles q c hq
      · exact h.congr (fun dir' hdir' => hother dir' (Option.some.inj hdir' ▸ hdir)) hsame
  | dump m dir pack delta =>
      exact h.congr (fun dir' hdir' => hother dir' (Option.some.inj hdir' ▸ hcopy)) hsame
  | clean dir =>
      exact h.congr (fun dir' hdir' => hother dir' (Option.some.inj hdir' ▸ hcopy)) hsame
  | idle | reload | found | lock | recreate | dumpCompacted | release | done => trivial

/-- **A write** lands in a directory that exists. -/
theorem KeptInv.writeFile (h : KeptInv s) {n : Node}
    (hcopy : WritesInTime s (.write n path content))
    (hw : writeFile s n path content = some s') : KeptInv s' := by
  unfold CccStorage.writeFile at hw
  split at hw
  · cases hw
  · rename_i d hd
    obtain ⟨t, ht, rfl⟩ := Option.map_eq_some_iff.mp hw
    have hintime : s.held.WillCopy d path := by
      refine hcopy (d, path) ?_
      show (s.mounts n).map (fun d => (d, path)) = some (d, path)
      rw [hd]
      rfl
    refine ⟨fun d' t' ht' => ?_, h.copied.writeFile ht hintime rfl rfl, h.heldSealed,
      fun d' t' ht' => ?_, fun d' q c hq => ?_⟩
    · have hat : Function.update s.dirs d (some (t.set path (.file content))) d' = some t' := ht'
      by_cases hdd : d' = d
      · rw [hdd, Function.update_self] at hat
        cases hat
        exact nodup_set (h.nodup d t ht)
      · rw [Function.update_of_ne hdd] at hat
        exact h.nodup d' t' hat
    · by_cases hdd : d' = d
      · rw [hdd]
        exact h.live d t ht
      · have hat : Function.update s.dirs d (some (t.set path (.file content))) d' = some t' := ht'
        rw [Function.update_of_ne hdd] at hat
        exact h.live d' t' hat
    · have hack : Function.update s.acknowledged d
          (Function.update (s.acknowledged d) path (some content)) d' q = some c := hq
      show ((Function.update s.dirs d (some (t.set path (.file content))) d').getD ⟨[]⟩).nodes.lookup
        q = _ ∨ _
      by_cases hdd : d' = d
      · subst hdd
        rw [Function.update_self] at hack ⊢
        rw [Option.getD_some, Tree.lookup_set]
        by_cases hqp : q = path
        · rw [hqp, Function.update_self] at hack
          cases hack
          exact .inl (if_pos hqp)
        · rw [Function.update_of_ne hqp] at hack
          rw [if_neg hqp]
          rcases h.kept d' q c hack with htree | hdelta
          · left
            unfold CommitState.tree at htree
            rw [ht, Option.getD_some] at htree
            exact htree
          · exact .inr hdelta
      · rw [Function.update_of_ne hdd] at hack ⊢
        exact h.kept d' q c hack

/-- **The active upper is sealed**: what is in it is kept by the commit. -/
theorem KeptInv.sealActive (h : KeptInv s) (hinv : CommitInv v start s) {m : ChildManifest}
    (hi : s.phase i = .found .sealUpper m) : KeptInv (sealActive s i m) := by
  have hcritical : (s.phase i).critical = true := by
    rw [hi]
    rfl
  have hnone : s.held.sealedDir = none := by
    rw [hinv.held_eq hcritical, hi]
    rfl
  unfold CccStorage.sealActive
  cases ha : s.active with
  | none => exact h
  | some d =>
      have hheld : (({ s with
          active := none
          sealedUppers := s.sealedUppers ++ [(d, s.tree d)] }).setPhase i
            (.recreate m d)).held = .recreate m d := held_setPhase (hinv.exclusive i hcritical)
      refine ⟨h.nodup, ?_, fun d' hd' => ?_, fun d' t ht => .inr ?_, h.kept⟩
      · show CommitState.CopyTaken _ (CommitState.held _)
        rw [hheld]
        trivial
      · have hd : some d = some d' := by
          rw [← hd']
          exact congrArg Phase.sealedDir hheld.symm
        cases hd
        show d ∈ (s.sealedUppers ++ [(d, s.tree d)]).map (·.1)
        rw [List.map_append]
        exact List.mem_append_right _ List.mem_cons_self
      · have hd : d' = d := by
          rcases h.live d' t ht with hactive | hsealed
          · rw [ha] at hactive
            exact (Option.some.inj hactive).symm
          · rw [hnone] at hsealed
            cases hsealed
        rw [hd]
        exact congrArg Phase.sealedDir hheld

/-- **A commit deletes its directory**, when all of it is in the delta. -/
theorem KeptInv.clean (h : KeptInv s) (hinv : CommitInv v start s) {dir : DirId}
    {next : ReadPoint} (hi : s.phase i = .clean dir) :
    KeptInv (({ s with dirs := Function.update s.dirs dir none }).setPhase i
      (.reload next .scan)) := by
  have hcritical : (s.phase i).critical = true := by
    rw [hi]
    rfl
  have hclean : s.held = .clean dir := (hinv.held_eq hcritical).trans hi
  have hheld : (({ s with dirs := Function.update s.dirs dir none }).setPhase i
      (.reload next .scan)).held = .reload next .scan := held_setPhase (hinv.exclusive i hcritical)
  have hcopied : s.CopyTaken (.clean dir) := hclean ▸ h.copied
  have hdirs : ∀ {d t}, Function.update s.dirs dir none d = some t → d ≠ dir ∧ s.dirs d = some t := by
    intro d t hd
    by_cases hdd : d = dir
    · rw [hdd, Function.update_self] at hd
      cases hd
    · rw [Function.update_of_ne hdd] at hd
      exact ⟨hdd, hd⟩
  refine ⟨fun d t ht => h.nodup d t (hdirs ht).2, ?_, fun d hd => ?_, fun d t ht => .inl ?_,
    fun d path content hd => ?_⟩
  · rw [hheld]
    trivial
  · rw [hheld] at hd
    cases hd
  · obtain ⟨hne, hat⟩ := hdirs ht
    rcases h.live d t hat with hactive | hsealed
    · exact hactive
    · rw [hclean] at hsealed
      exact absurd (Option.some.inj hsealed).symm hne
  · rcases h.kept d path content hd with htree | hdelta
    · by_cases hdd : d = dir
      · rw [hdd] at htree ⊢
        exact .inr (hcopied path content htree)
      · left
        show ((Function.update s.dirs dir none d).getD ⟨[]⟩).nodes.lookup path = _
        rw [Function.update_of_ne hdd]
        exact htree
    · exact .inr hdelta

/-- **One more path is copied**, with the file the directory has there. -/
theorem CommitState.CopyTaken.copyNext {m : ChildManifest} {dir : DirId} {todo : List Path}
    {copied : List (Path × Entry)} (h : s.CopyTaken (.copy m dir (path :: todo) copied)) :
    s.CopyTaken (.copy m dir todo (copied ++
      ((((s.tree dir).nodes.lookup path).filter (·.isCopied)).map fun e => (path, e)).toList)) := by
  obtain ⟨hnodup, hfresh, hfiles⟩ := h
  obtain ⟨hnew, hnodup⟩ := List.nodup_cons.mp hnodup
  have hother : ∀ q, q ≠ path → ∀ e : Option Entry,
      ((e.map fun e => (path, e)).toList).lookup q = none := by
    intro q hq e
    cases e with
    | none => rfl
    | some e =>
        show List.lookup q [(path, e)] = none
        rw [List.lookup_cons, beq_eq_false_iff_ne.mpr hq]
        rfl
  refine ⟨hnodup, fun q hq => ?_, fun q c hq => ?_⟩
  · have hne : q ≠ path := fun heq => hnew (heq ▸ hq)
    rw [List.lookup_append, hfresh q (List.mem_cons_of_mem _ hq), Option.none_or, hother q hne]
  · by_cases hqp : q = path
    · right
      rw [hqp] at hq ⊢
      rw [List.lookup_append, hfresh path List.mem_cons_self, Option.none_or, hq]
      show List.lookup path [(path, Entry.file c)] = _
      exact List.lookup_cons_self
    · rcases hfiles q c hq with htodo | hcopied
      · exact .inl ((List.mem_cons.mp htodo).resolve_left hqp)
      · right
        rw [List.lookup_append, hcopied]
        rfl

end Kept

/-! ### A mount of another node -/

end CccStorage
