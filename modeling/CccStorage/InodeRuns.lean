/-
  File:      CccStorage/InodeRuns.lean
  Subject:   Runs of the dispatcher (`mountd/dispatcher_fuse.py`) with the objects its paths show:
             what an inode number names.

  * `ObjectTree.after` -- the change of the objects an operation has logged;
  * `Shows`, `Honest`, `SeenRuns` -- nothing is shown where there is no object;
  * `Untangled` -- no number is below what is removed, renamed or registered, none is at a new name,
    and nothing stops half-way;
  * `fuseStep_outcome` -- one operation; `untangled_runs_name` -- in every run of such calls the
    numbers keep naming the same objects;
  * `renamed_ancestor_reuses` -- a number handed out again after a directory above was renamed.
-/
import CccStorage.InodeOps

namespace CccStorage.Observe

open Lib (Keeps Ends exec)

/-! ## 1. The objects after an operation -/

/-- The path of an operation on a name in a directory. -/
def FuseState.pathOf (s : FuseState) (parent : Nat) (name : String) : Path :=
  (s.inodeToPath parent).getD [] ++ [name]

/-- A call, and which objects below a directory that is registered or renamed are still shown
    there: its overlay is another one. -/
structure SeenCall where
  call : FuseCall
  kept : Path → Bool

/-- A directory that is registered: below it only what its overlay has is shown. -/
def ObjectTree.register (t : ObjectTree) (rel : Path) (kept : Path → Bool) : ObjectTree :=
  (t.make rel).without fun p => rel <+: p ∧ p ≠ rel ∧ kept p = false

/-- **The objects after an operation**: they change where the log says that the entries did. -/
def ObjectTree.after (t : ObjectTree) (s u : FuseState) (c : SeenCall) : ObjectTree :=
  if (newTouches s u).any Touch.changes then
    match c.call.op with
    | .create parent name => t.make (s.pathOf parent name)
    | .mkdir parent name =>
      if 1 < (s.pathOf parent name).length then t.make (s.pathOf parent name)
      else t.register (s.pathOf parent name) c.kept
    | .unlink parent name => t.unlink (s.pathOf parent name)
    | .rmdir parent name => t.remove (s.pathOf parent name)
    | .rename parentOld nameOld parentNew nameNew _ =>
      t.move (s.pathOf parentOld nameOld) (s.pathOf parentNew nameNew) c.kept
    | _ => t
  else t

section Seen

variable (d : Dispatcher)

def seenNext (x : Seen) (c : SeenCall) : Seen where
  state := fuseNext d x.state c.call
  tree := x.tree.after x.state (fuseNext d x.state c.call) c

/-- Nothing is found at a path without an object. -/
def Shows (w : HostView) (t : ObjectTree) : Prop := ∀ rel, Found d w rel → t.Shown rel

/-- The first call of an operation meets the objects of before, the others those of after. -/
structure Honest (x : Seen) (c : SeenCall) : Prop where
  first : Shows d (c.call.env 0) x.tree
  later : ∀ k, Shows d (c.call.env (k + 1)) (seenNext d x c).tree

/-- **Runs of the dispatcher with its objects.** -/
abbrev SeenRuns : Seen → List (Lib.Trans Seen SeenCall) → Seen → Prop :=
  Lib.Run fun x c y => seenNext d x c = y ∧ Honest d x c

/-- **Numbers keep naming the same object** from `x` to a later `y`: where the object is now, and no
    other object has the number. -/
structure StaysNamed (x y : Seen) : Prop where
  current : ∀ i o, x.Names i o → ∀ p, y.tree.object p = some o → y.state.inodeToPath i = some p
  once : ∀ i o o', x.Names i o → y.Names i o' → o' = o

/-! ## 2. No number is left behind -/

/-- The service works at the place of the dispatcher's own path. -/
def InPlace (root : ObservationStorage) (rel' rel : Path) : Prop :=
  root.sourceRoot ++ rel' = d.root.sourceRoot ++ rel

/-- `rmdir` of a directory without a number below it; one with a number is removed with its
    manifest. -/
def UntangledRmdir (s : FuseState) (w : HostView) (rel : Path) : Prop :=
  ∀ root rel', routePath d.roots (d.mountPath rel) = .ok (root, rel') → RmdirGoes w root rel' →
    InPlace d root rel' rel ∧ FreeBelow s rel ∧
      (s.pathToInode rel = none ∨ w.fails .keepState root.stateDir = none)

/-- `rename` of a directory without a number below it to a name without one; one with a number gets
    its new manifest. -/
def UntangledRename (s : FuseState) (w : HostView) (old new : Path) : Prop :=
  ∀ root oldRel newRoot newRel, routePath d.roots (d.mountPath old) = .ok (root, oldRel) →
    routePath d.roots (d.mountPath new) = .ok (newRoot, newRel) → RenameGoes w root oldRel newRel →
    InPlace d root oldRel old ∧ InPlace d root newRel new ∧ FreeBelow s old ∧ FreeFrom s new ∧
      (s.pathToInode old = none ∨
        w.fails .keepState root.stateDir = none ∧ w.fails .chown (root.sourceRoot ++ newRel) = none)

/-- `mkdir` of a child without a number below it. -/
def UntangledMkdir (s : FuseState) (w : HostView) (rel : Path) : Prop :=
  1 < rel.length ∨ ∀ root rel', routePath d.roots (d.mountPath rel) = .ok (root, rel') →
    MkdirGoes w root rel' → FreeBelow s rel

/-- **No number is left behind** by a call. -/
def Untangled (x : Seen) (c : SeenCall) : Prop :=
  match c.call.op with
  | .mkdir parent name =>
    UntangledMkdir d x.state (c.call.env 0) (x.state.pathOf parent name)
  | .rmdir parent name =>
    UntangledRmdir d x.state (c.call.env 0) (x.state.pathOf parent name)
  | .rename parentOld nameOld parentNew nameNew _ =>
    UntangledRename d x.state (c.call.env 0) (x.state.pathOf parentOld nameOld)
      (x.state.pathOf parentNew nameNew)
  | _ => True

end Seen

/-! ## 3. One operation -/

section Step

variable {d : Dispatcher} {env : Nat → HostView} {x : Seen} {s u : FuseState} {t : ObjectTree}
variable {rel : Path} {parent : Nat} {name : String} {c : SeenCall}

theorem relForInode_spec {I : FuseState → Prop} (hI : ∀ u, I u → SameTables s u) {inode : Nat} :
    Keeps I (relForInode inode) fun rel => s.inodeToPath inode = some rel := by
  unfold relForInode
  refine .bind .state fun u hu => ?_
  rw [(hI u hu).inodeToPath]
  split
  · rename_i rel hrel
    exact .pure hrel
  · exact .throw

theorem validateName_spec {I : FuseState → Prop} :
    Keeps I (validateName name) fun valid => valid = name := by
  unfold validateName
  split
  · exact .throw
  · exact .pure rfl

theorem childRel_spec {I : FuseState → Prop} {parent : Path} :
    Keeps I (childRel parent name) fun rel => rel = parent ++ [name] := by
  unfold childRel
  exact .bind validateName_spec fun valid hvalid => .pure (by rw [hvalid])

theorem pathOf_eq {parentPath : Path} (h : s.inodeToPath parent = some parentPath) :
    s.pathOf parent name = parentPath ++ [name] := by
  unfold FuseState.pathOf
  rw [h]
  rfl

theorem pathOf_ne_nil : s.pathOf parent name ≠ [] := by
  unfold FuseState.pathOf
  simp

/-- Where the log has no change the objects are the same. -/
theorem after_of_quiet (h : (newTouches s u).any Touch.changes = false) : t.after s u c = t :=
  if_neg (by rw [h]; exact Bool.false_ne_true)

/-- The numbers handed out while the objects stay. -/
theorem follows_unmoved : Unmoved fun u => Follows x ⟨u, t⟩ :=
  fun _ _ _ hu => hu.same sameTables_log

theorem attrs_follows {entry : DispatchEntry} (h : entry.path = [] ∨ t.Shown entry.path) :
    Keeps (fun u => Follows x ⟨u, t⟩) (attrs entry) fun _ => True := by
  unfold attrs
  refine .bind (.update fun u hu => ?_) fun _ _ => .bind .state fun _ _ => .pure trivial
  rcases h with hnil | hshown
  · -- the root has its number
    have hsame : u.addInode entry.path = u := by
      unfold FuseState.addInode
      rw [hnil, show u.pathToInode [] = _ from hu.sound.root]
    rw [hsame]
    exact hu
  · exact hu.addInode hshown

/-- The entry found has an object. -/
theorem entryFor_follows {w : HostView} (hw : Shows d w t) :
    Keeps (fun u => Follows x ⟨u, t⟩) (entryFor d w rel) fun entry =>
      entry.path = [] ∨ t.Shown entry.path := by
  refine (entryFor_unmoved follows_unmoved).mono fun entry ⟨hpath, hfound⟩ => ?_
  rw [← hpath] at hfound
  exact hfound.imp id (hw entry.path)

theorem readdirReplies_follows (henv : ∀ k, Shows d (env k) t) {idx room : Nat}
    {names : List String} :
    Keeps (fun u => Follows x ⟨u, t⟩) (readdirReplies d env rel idx room names) fun _ => True := by
  induction names generalizing idx room with
  | nil => exact .pure trivial
  | cons name rest ih =>
    unfold readdirReplies
    have hlisted : Keeps (fun u => Follows x ⟨u, t⟩)
        (listedAttrs d (env idx) (listedRel rel name)) fun _ => True := by
      refine .bind (entryFor_follows (henv idx)) fun entry hentry => ?_
      exact .bind (attrs_follows hentry) fun _ _ => .pure trivial
    have hskip : ∀ e, Keeps (fun u => Follows x ⟨u, t⟩) (skipMissing e) fun _ => True := by
      intro e
      unfold skipMissing
      split
      · exact .pure trivial
      · exact .throw
    refine .bind (hlisted.tryCatch hskip) fun found _ => ?_
    split
    · exact ih
    · exact .pure trivial
    · exact .bind ih fun _ _ => .pure trivial

theorem addInode_touched : (u.addInode rel).touched = u.touched := by
  unfold FuseState.addInode
  split <;> rfl

theorem dropInode_touched : (u.dropInode rel).touched = u.touched := by
  unfold FuseState.dropInode
  split <;> rfl

theorem moveInode_touched {new : Path} : (u.moveInode rel new).touched = u.touched := by
  unfold FuseState.moveInode
  split <;> rfl

theorem attrs_touched {P : List Touch → Prop} {entry : DispatchEntry} :
    Keeps (fun u => P u.touched) (attrs entry) fun _ => True := by
  unfold attrs
  refine .bind (.update fun u hu => ?_) fun _ _ => .bind .state fun _ _ => .pure trivial
  rw [addInode_touched]
  exact hu

/-- What an operation on the call `c` has to end in. -/
def Outcome (x : Seen) (c : SeenCall) (u : FuseState) : Prop :=
  Follows x ⟨u, x.tree.after x.state u c⟩

theorem Quiet.outcome (hx : Sound x) (hu : Quiet x.state u) : Outcome x c u := by
  unfold Outcome
  rw [after_of_quiet hu.any]
  exact (Follows.refl hx).same hu.same

/-- The objects after a change. -/
theorem outcome_of_changed (hany : (newTouches x.state u).any Touch.changes = true)
    (ht : (if (newTouches x.state u).any Touch.changes then t else x.tree) =
      x.tree.after x.state u c) (h : Follows x ⟨u, t⟩) : Outcome x c u := by
  unfold Outcome
  rw [← ht, if_pos hany]
  exact h

/-- **`create`** hands out a number for what it has made. -/
theorem create_outcome (hx : Sound x) {kept : Path → Bool}
    (hc : c = ⟨⟨.create parent name, env⟩, kept⟩) :
    Ends (Quiet x.state) (fuseStep d env (.create parent name)) (fun _ u => Outcome x c u)
      (Outcome x c) := by
  refine .after (relForInode_spec fun _ hu => hu.same) (fun _ hu => hu.outcome hx) ?_
  intro parentPath hparent
  have hmade : ∀ u, Changed x.state u → Follows x ⟨u, x.tree.make (parentPath ++ [name])⟩ :=
    fun u hu => (Follows.refl hx).make.same hu.same
  have hdone : ∀ u, Follows x ⟨u, x.tree.make (parentPath ++ [name])⟩ →
      (newTouches x.state u).any Touch.changes = true → Outcome x c u := by
    intro u hu hany
    refine outcome_of_changed hany ?_ hu
    rw [← pathOf_eq hparent, hc]
    rfl
  have hcreate : Ends (Quiet x.state)
      (Lib.raising nameErrors (do createAt d env (← childRel parentPath name)))
      (fun opened u => opened.2.path = parentPath ++ [name] ∧ Changed x.state u)
      fun u => Quiet x.state u ∨ Changed x.state u := by
    refine .raising (.after childRel_spec (fun u hu => .inl hu) fun rel hrel => ?_)
    subst hrel
    exact createAt_ends
  refine .bind (hcreate.mono (fun _ _ h => h) fun u hu => ?_) fun opened => ?_
  · exact hu.elim (fun hu => hu.outcome hx) fun hu => hdone u (hmade u hu) hu.any
  · intro u ⟨hpath, hu⟩
    have hshown : (x.tree.make (parentPath ++ [name])).Shown opened.2.path :=
      hpath ▸ ObjectTree.make_shown
    have hattrs : Keeps (fun u => Follows x ⟨u, x.tree.make (parentPath ++ [name])⟩ ∧
        (newTouches x.state u).any Touch.changes = true) (attrs opened.2) fun _ => True :=
      ((attrs_follows (.inr hshown)).and (attrs_touched
        (P := fun l => (l.drop x.state.touched.length).any Touch.changes = true))).mono
          fun _ _ => trivial
    have hrest : Keeps (fun u => Follows x ⟨u, x.tree.make (parentPath ++ [name])⟩ ∧
        (newTouches x.state u).any Touch.changes = true) (do
          let fh := (← get).nextFh
          modify (·.addHandle opened.1)
          pure (Reply.handleOf fh (← attrs opened.2))) fun _ => True := by
      refine .bind .state fun _ _ => .bind (.update fun v hv => ?_) fun _ _ => ?_
      · exact ⟨hv.1.same ⟨.refl _, .refl _, .refl _⟩, hv.2⟩
      · exact .bind hattrs fun _ _ => .pure trivial
    exact hrest.ends (fun _ u _ hu => hdone u hu.1 hu.2) (fun u hu => hdone u hu.1 hu.2) u
      ⟨hmade u hu, hu.any⟩

/-- **`mkdir`** hands out a number for what it has made, and leaves none behind below it. -/
theorem mkdir_outcome (hx : Sound x) {kept : Path → Bool}
    (hc : c = ⟨⟨.mkdir parent name, env⟩, kept⟩) (hok : Untangled d x c) :
    Ends (Quiet x.state) (fuseStep d env (.mkdir parent name)) (fun _ u => Outcome x c u)
      (Outcome x c) := by
  subst hc
  refine .after (relForInode_spec fun _ hu => hu.same) (fun _ hu => hu.outcome hx) ?_
  intro parentPath hparent
  -- the objects once the log has a change
  obtain ⟨made, hmade⟩ : ∃ made, made =
      if 1 < (parentPath ++ [name]).length then x.tree.make (parentPath ++ [name])
      else x.tree.register (parentPath ++ [name]) kept := ⟨_, rfl⟩
  have hshown : made.Shown (parentPath ++ [name]) := by
    rw [hmade]
    split
    · exact ObjectTree.make_shown
    · obtain ⟨o, ho⟩ : (x.tree.make (parentPath ++ [name])).Shown _ := ObjectTree.make_shown
      exact ⟨o, (ObjectTree.without_of_not fun hgone => hgone.2.1 rfl).trans ho⟩
  have hfollows : ∀ u, Changed x.state u → MkdirWent d (env 0) (parentPath ++ [name]) →
      Follows x ⟨u, made⟩ := by
    intro u hu hwent
    refine Follows.same ?_ hu.same
    rw [hmade]
    split
    · exact (Follows.refl hx).make
    · rename_i hshallow
      refine (Follows.refl hx).make.without fun p hp => ?_
      obtain ⟨root, rel', hroute, hgoes⟩ := hwent.resolve_left hshallow
      have hfree : UntangledMkdir d x.state (env 0) (parentPath ++ [name]) := by
        rw [← pathOf_eq hparent]
        exact hok
      exact hfree.resolve_left hshallow root rel' hroute hgoes p hp.1 hp.2.1
  have hdone : ∀ u, Follows x ⟨u, made⟩ → (newTouches x.state u).any Touch.changes = true →
      Outcome x ⟨⟨.mkdir parent name, env⟩, kept⟩ u := by
    intro u hu hany
    refine outcome_of_changed hany ?_ hu
    rw [hmade, ← pathOf_eq hparent]
    rfl
  have hmkdir : Ends (Quiet x.state)
      (Lib.raising mkdirErrors (do coreMkdir d (env 0) (← childRel parentPath name)))
      (fun entry u => entry.path = parentPath ++ [name] ∧ Changed x.state u ∧
        MkdirWent d (env 0) (parentPath ++ [name]))
      fun u => Quiet x.state u ∨ Changed x.state u ∧
        MkdirWent d (env 0) (parentPath ++ [name]) := by
    refine .raising (.after childRel_spec (fun u hu => .inl hu) fun rel hrel => ?_)
    subst hrel
    exact coreMkdir_ends
  refine .bind (hmkdir.mono (fun _ _ h => h) fun u hu => ?_) fun entry => ?_
  · rcases hu with hu | ⟨hu, hwent⟩
    · exact hu.outcome hx
    · exact hdone u (hfollows u hu hwent) hu.any
  · intro u ⟨hpath, hu, hwent⟩
    have hattrs : Keeps (fun u => Follows x ⟨u, made⟩ ∧
        (newTouches x.state u).any Touch.changes = true) (attrs entry) fun _ => True :=
      ((attrs_follows (.inr (hpath ▸ hshown))).and (attrs_touched
        (P := fun l => (l.drop x.state.touched.length).any Touch.changes = true))).mono
          fun _ _ => trivial
    have hrest : Keeps (fun u => Follows x ⟨u, made⟩ ∧
        (newTouches x.state u).any Touch.changes = true)
        (do pure (Reply.attributes (← attrs entry))) fun _ => True :=
      .bind hattrs fun _ _ => .pure trivial
    exact hrest.ends (fun _ u _ hu => hdone u hu.1 hu.2) (fun u hu => hdone u hu.1 hu.2) u
      ⟨hfollows u hu hwent, hu.any⟩

/-- **`unlink`** drops the number of what it removes. -/
theorem unlink_outcome (hx : Sound x) {kept : Path → Bool}
    (hc : c = ⟨⟨.unlink parent name, env⟩, kept⟩) :
    Ends (Quiet x.state) (fuseStep d env (.unlink parent name)) (fun _ u => Outcome x c u)
      (Outcome x c) := by
  subst hc
  refine .after (relForInode_spec fun _ hu => hu.same) (fun _ hu => hu.outcome hx) ?_
  intro parentPath hparent
  refine .raising (.after childRel_spec (fun _ hu => hu.outcome hx) fun rel hrel => ?_)
  refine .bind (unlinkAt_ends.mono (fun _ _ h => h) fun _ hu => hu.outcome hx) fun _ => ?_
  refine .bind (.update (Q := fun _ u => Outcome x ⟨⟨.unlink parent name, env⟩, kept⟩ u) ?_)
    fun _ => .pure fun _ hu => hu
  intro u hu
  have hpath : rel = x.state.pathOf parent name := by rw [hrel, pathOf_eq hparent]
  have hdrop : Follows x ⟨u.dropInode rel, x.tree.unlink rel⟩ :=
    ((Follows.refl hx).same hu.same).dropInode rfl (hpath ▸ pathOf_ne_nil)
      fun p hp hne => absurd hp hne
  refine outcome_of_changed ?_ ?_ hdrop
  · rw [newTouches, dropInode_touched]
    exact hu.any
  · rw [hpath]
    rfl

/-- **`rmdir`** drops the number of what it removes, where it leaves none behind. -/
theorem rmdir_outcome (hx : Sound x) {kept : Path → Bool}
    (hc : c = ⟨⟨.rmdir parent name, env⟩, kept⟩) (hok : Untangled d x c) :
    Ends (Quiet x.state) (fuseStep d env (.rmdir parent name)) (fun _ u => Outcome x c u)
      (Outcome x c) := by
  subst hc
  refine .after (relForInode_spec fun _ hu => hu.same) (fun _ hu => hu.outcome hx) ?_
  intro parentPath hparent
  refine .raising (.after childRel_spec (fun _ hu => hu.outcome hx) fun rel hrel => ?_)
  have hpath : rel = x.state.pathOf parent name := by rw [hrel, pathOf_eq hparent]
  have hfree : UntangledRmdir d x.state (env 0) rel := hpath ▸ hok
  refine .bind (coreRmdir_ends.mono (fun _ _ h => h) fun u hu => ?_) fun _ => ?_
  · rcases hu with hu | ⟨hu, root, rel', hroute, hgoes, hhalf⟩
    · exact hu.outcome hx
    · -- stopped half-way: the path had no number
      obtain ⟨-, hbelow, hwhole⟩ := hfree root rel' hroute hgoes
      have hnone := hwhole.resolve_right hhalf
      have hgone : Follows x ⟨u, x.tree.remove rel⟩ := by
        refine Follows.same ((Follows.refl hx).without fun p hp => ?_) hu.same
        by_cases hpr : p = rel
        · exact hpr ▸ hnone
        · exact hbelow p hp hpr
      refine outcome_of_changed hu.any ?_ hgone
      rw [hpath]
      rfl
  · refine .bind (.update (Q := fun _ u => Outcome x ⟨⟨.rmdir parent name, env⟩, kept⟩ u) ?_)
      fun _ => .pure fun _ hu => hu
    rintro u ⟨hu, root, rel', hroute, hgoes⟩
    obtain ⟨-, hbelow, -⟩ := hfree root rel' hroute hgoes
    have hdrop : Follows x ⟨u.dropInode rel, x.tree.remove rel⟩ := by
      refine ((Follows.refl hx).same hu.same).dropInode List.prefix_rfl (hpath ▸ pathOf_ne_nil) ?_
      intro p hp hne
      rw [hu.same.pathToInode]
      exact hbelow p hp hne
    refine outcome_of_changed ?_ ?_ hdrop
    · rw [newTouches, dropInode_touched]
      exact hu.any
    · rw [hpath]
      rfl

/-- **`rename`** takes the number along, where it leaves none behind. -/
theorem rename_outcome (hx : Sound x) {kept : Path → Bool} {parentOld parentNew flags : Nat}
    {nameOld nameNew : String}
    (hc : c = ⟨⟨.rename parentOld nameOld parentNew nameNew flags, env⟩, kept⟩)
    (hok : Untangled d x c) :
    Ends (Quiet x.state) (fuseStep d env (.rename parentOld nameOld parentNew nameNew flags))
      (fun _ u => Outcome x c u) (Outcome x c) := by
  subst hc
  change Ends _ (if flags ≠ 0 then _ else _) _ _
  split
  · exact .throw fun _ hu => hu.outcome hx
  · refine .after (relForInode_spec fun _ hu => hu.same) (fun _ hu => hu.outcome hx) ?_
    intro oldParent holdParent
    refine .after (relForInode_spec fun _ hu => hu.same) (fun _ hu => hu.outcome hx) ?_
    intro newParent hnewParent
    refine .raising (.after validateName_spec (fun _ hu => hu.outcome hx) fun oldName hold => ?_)
    refine .after validateName_spec (fun _ hu => hu.outcome hx) fun newName hnew => ?_
    subst oldName newName
    have hfree : UntangledRename d x.state (env 0) (oldParent ++ [nameOld])
        (newParent ++ [nameNew]) := by
      rw [← pathOf_eq holdParent, ← pathOf_eq hnewParent]
      exact hok
    have hmove : ∀ u, Changed x.state u → FreeBelow x.state (oldParent ++ [nameOld]) →
        FreeFrom x.state (newParent ++ [nameNew]) →
        Follows x ⟨u.moveInode (oldParent ++ [nameOld]) (newParent ++ [nameNew]),
          x.tree.move (oldParent ++ [nameOld]) (newParent ++ [nameNew]) kept⟩ := by
      intro u hu hbelow hnone
      refine ((Follows.refl hx).same hu.same).moveInode (by simp) ?_ ?_
      · intro p hp
        rw [hu.same.pathToInode]
        exact hnone p hp
      · intro p hp hne
        rw [hu.same.pathToInode]
        exact hbelow p hp hne
    have htree : ∀ u, (newTouches x.state u).any Touch.changes = true →
        Follows x ⟨u, x.tree.move (oldParent ++ [nameOld]) (newParent ++ [nameNew]) kept⟩ →
        Outcome x ⟨⟨.rename parentOld nameOld parentNew nameNew flags, env⟩, kept⟩ u := by
      intro u hany hu
      refine outcome_of_changed hany ?_ hu
      rw [← pathOf_eq holdParent, ← pathOf_eq hnewParent]
      rfl
    refine .bind (coreRename_ends.mono (fun _ _ h => h) fun u hu => ?_) fun _ => ?_
    · rcases hu with hu | ⟨hu, root, oldRel, newRoot, newRel, holdRoute, hnewRoute, hgoes, hhalf⟩
      · exact hu.outcome hx
      · -- stopped half-way: the old path had no number
        obtain ⟨-, -, hbelow, hnone, hwhole⟩ :=
          hfree root oldRel newRoot newRel holdRoute hnewRoute hgoes
        have hunnamed : x.state.pathToInode (oldParent ++ [nameOld]) = none := by
          refine hwhole.resolve_right fun hdone => ?_
          exact hhalf.elim (fun h => h hdone.1) fun h => h hdone.2
        have hsame : u.moveInode (oldParent ++ [nameOld]) (newParent ++ [nameNew]) = u := by
          unfold FuseState.moveInode
          rw [hu.same.pathToInode, hunnamed]
        exact htree u hu.any (hsame ▸ hmove u hu hbelow hnone)
    · refine .bind (.update (Q := fun _ u => Outcome x
        ⟨⟨.rename parentOld nameOld parentNew nameNew flags, env⟩, kept⟩ u) ?_)
        fun _ => .pure fun _ hu => hu
      rintro u ⟨hu, root, oldRel, newRoot, newRel, holdRoute, hnewRoute, hgoes, -⟩
      obtain ⟨-, -, hbelow, hnone, -⟩ :=
        hfree root oldRel newRoot newRel holdRoute hnewRoute hgoes
      refine htree _ ?_ (hmove u hu hbelow hnone)
      rw [newTouches, moveInode_touched]
      exact hu.any

theorem relForInode_follows {inode : Nat} :
    Keeps (fun u => Follows x ⟨u, t⟩) (relForInode inode) fun _ => True := by
  unfold relForInode
  refine .bind .state fun u hu => ?_
  split
  · exact .pure trivial
  · exact .throw

theorem useHandle_follows {fh : Nat} :
    Keeps (fun u => Follows x ⟨u, t⟩) (useHandle fh) fun _ => True := by
  unfold useHandle
  refine .bind .state fun u hu => ?_
  split
  · exact .throw
  · exact .bind (touch_unmoved follows_unmoved rfl) fun _ _ => .pure trivial

/-- An operation that changes nothing ends as it should where it keeps the numbers. -/
theorem reading_outcome {α : Type} {m : DispatchM α} (hx : Sound x)
    (hsame : ∀ u, x.tree.after x.state u c = x.tree)
    (hm : Keeps (fun u => Follows x ⟨u, x.tree⟩) m fun _ => True) :
    Ends (Quiet x.state) m (fun _ u => Outcome x c u) (Outcome x c) := by
  intro u hu
  have hkeeps := (hm u ((Follows.refl hx).same hu.same)).1
  have houtcome : Outcome x c (exec m u).2 := by
    unfold Outcome
    rw [hsame]
    exact hkeeps
  exact ⟨fun _ _ => houtcome, fun _ _ => houtcome⟩

/-- **One operation** keeps the numbers naming what they name. -/
theorem fuseStep_outcome (hx : Sound x) (h : Honest d x c) (hok : Untangled d x c) :
    Ends (Quiet x.state) (fuseStep d c.call.env c.call.op) (fun _ u => Outcome x c u)
      (Outcome x c) := by
  obtain ⟨⟨op, env⟩, kept⟩ := c
  cases op with
  | create parent name => exact create_outcome hx rfl
  | mkdir parent name => exact mkdir_outcome hx rfl hok
  | unlink parent name => exact unlink_outcome hx rfl
  | rmdir parent name => exact rmdir_outcome hx rfl hok
  | rename parentOld nameOld parentNew nameNew flags => exact rename_outcome hx rfl hok
  | getattr inode =>
    refine reading_outcome hx (fun u => ite_self _) (.bind relForInode_follows fun rel _ => ?_)
    refine .bind (entryFor_follows h.first) fun entry hshown => ?_
    exact .bind (attrs_follows hshown) fun _ _ => .pure trivial
  | lookup parent name =>
    refine reading_outcome hx (fun u => ite_self _) (.bind relForInode_follows fun rel _ => ?_)
    refine .bind (.raising (.bind childRel_spec fun path _ => entryFor_follows h.first)) ?_
    exact fun entry hshown => .bind (attrs_follows hshown) fun _ _ => .pure trivial
  | readdir inode off room =>
    have hlater : ∀ k, Shows d (env k) x.tree := by
      intro k
      cases k with
      | zero => exact h.first
      | succ k =>
        have hshows := h.later k
        rw [show (seenNext d x ⟨⟨.readdir inode off room, env⟩, kept⟩).tree = x.tree from
          ite_self _] at hshows
        exact hshows
    refine reading_outcome hx (fun u => ite_self _) (.bind relForInode_follows fun rel _ => ?_)
    refine .bind (listdir_unmoved follows_unmoved) fun names _ => ?_
    exact .bind (readdirReplies_follows hlater) fun _ _ => .pure trivial
  | openFile inode =>
    refine reading_outcome hx (fun u => ite_self _) (.bind relForInode_follows fun rel _ => ?_)
    refine .bind (.raising (entryFor_unmoved follows_unmoved)) fun entry _ => ?_
    split
    · exact .throw
    · refine .bind (Q := fun _ => True) (.raising ?_) fun place _ => ?_
      · refine .bind (sourcePath_unmoved follows_unmoved) fun path _ => ?_
        refine .bind syscall_keeps fun _ _ => ?_
        exact .bind (touch_unmoved follows_unmoved rfl) fun _ _ => .pure trivial
      · refine .bind .state fun _ _ => .bind (.update fun u hu => ?_) fun _ _ => .pure trivial
        exact hu.same ⟨.refl _, .refl _, .refl _⟩
  | readFile fh => exact reading_outcome hx (fun u => ite_self _) useHandle_follows
  | writeFile fh => exact reading_outcome hx (fun u => ite_self _) useHandle_follows
  | release fh =>
    refine reading_outcome hx (fun u => ite_self _) (.bind (.update fun u hu => ?_) ?_)
    · exact hu.same ⟨.refl _, .refl _, .refl _⟩
    · exact fun _ _ => .pure trivial

end Step

/-! ## 4. A root with registered children -/

/-- The objects of some paths, numbered as they stand. -/
def ObjectTree.ofPaths (paths : List Path) : ObjectTree where
  object := fun p => paths.idxOf? p
  born := paths.length
  bounded := by
    intro p o ho
    obtain ⟨hlt, -⟩ := List.findIdx?_eq_some_iff_getElem.mp ho
    exact hlt
  single := by
    intro p q o hp hq
    obtain ⟨hlt, hpeq, -⟩ := List.findIdx?_eq_some_iff_getElem.mp hp
    obtain ⟨hlt', hqeq, -⟩ := List.findIdx?_eq_some_iff_getElem.mp hq
    exact (eq_of_beq hpeq).symm.trans (eq_of_beq hqeq)

def childrenRoot : ObservationStorage := ⟨["data"], ["source"], reservedName⟩

def childrenDispatcher : Dispatcher where
  roots := [childrenRoot]
  root := childrenRoot
  served := List.mem_cons_self
  distinct := fun _ hr _ => List.mem_singleton.mp hr
  apart := fun _ hr hne => absurd (List.mem_singleton.mp hr) hne

/-- A clean child that is not mounted. -/
def cleanChild : ObservedManifest := ⟨false, 0, false, false⟩

/-- Registered children, their mounts below `mount`, and the directories there are. -/
def childrenView (children : List String) (dirs : List Path) : HostView where
  node := fun p => if dirs.contains p then some (.dir []) else none
  leadsTo := id
  entryOf := id
  manifest := fun _ child => if child ∈ children then some cleanChild else none
  mountRw := fun _ child => .ok (some ["mount", child])
  fails := fun _ _ => none

section Children

variable {children : List String} {dirs : List Path} {rel : Path} {t : ObjectTree}

theorem childrenView_access :
    Keeps (fun _ => True)
      (handleObserveAccessPrivate childrenDispatcher (childrenView children dirs) rel)
      fun mountpoint => ∀ m ∈ mountpoint,
        ∃ child, rel.head? = some child ∧ m = ["mount", child] := by
  unfold handleObserveAccessPrivate
  split
  · exact .throw
  · rename_i root rel' hroute
    obtain ⟨hmem, hown⟩ := routePath_spec hroute
    have hroot : root = childrenDispatcher.root := List.mem_singleton.mp hmem
    obtain ⟨-, rfl⟩ := hown.resolve_right fun h => h.1 hroot
    unfold accessChild
    split
    · exact .throw
    · rename_i child hchild
      split
      · exact .throw
      · refine .bind (.update fun _ _ => trivial) fun _ _ => .pure ?_
        rintro m ⟨⟩
        exact ⟨child, (resolveChild_spec hchild).1, rfl⟩

/-- A path stands for the one below the source root or for the one below the mounts. -/
theorem childrenView_place :
    Keeps (fun _ => True) (sourcePath childrenDispatcher (childrenView children dirs) rel)
      fun place => place = "source" :: rel ∨ place = "mount" :: rel := by
  unfold sourcePath
  refine .bind normalizeRel_keeps fun rel' hrel => ?_
  subst hrel
  refine .bind (Q := fun place => ∀ p ∈ place, p = "mount" :: rel') ?_ fun place hplace => ?_
  · unfold privateChildPath
    refine .bind normalizeRel_keeps fun rel hrel => ?_
    subst hrel
    split
    · exact .pure nofun
    · have hfailure : ∀ e, Keeps (fun _ => True) (accessFailure e) fun mountpoint =>
          ∀ m ∈ mountpoint, ∃ child, rel.head? = some child ∧ m = ["mount", child] := by
        intro e
        unfold accessFailure
        split
        · split
          · exact .pure nofun
          · exact .throw
        · exact .throw
      refine .bind (childrenView_access.tryCatch hfailure) fun mountpoint hmount => .pure ?_
      intro p hp
      obtain ⟨m, hm, rfl⟩ := Option.mem_map.mp hp
      obtain ⟨child, hhead, rfl⟩ := hmount m hm
      obtain ⟨rest, rfl⟩ := List.head?_eq_some_iff.mp hhead
      rfl
  · cases place with
    | some place => exact .pure (.inr (hplace place rfl))
    | none => exact .pure (.inl rfl)

/-- The directories there are decide what is shown. -/
theorem childrenView_shows (h : ∀ p ∈ dirs, t.Shown p.tail) :
    Shows childrenDispatcher (childrenView children dirs) t := by
  rintro rel ⟨place, s, hplace, hnode⟩
  have hdir : place ∈ dirs := by
    by_contra hnot
    rw [show (childrenView children dirs).node place = none from
      if_neg (mt List.contains_iff_mem.mp hnot)] at hnode
    cases hnode
  rcases (childrenView_place s trivial).2 place hplace with rfl | rfl
  · exact h _ hdir
  · exact h _ hdir

end Children

/-- A call: the first view, then another. -/
def viewsCall (op : FuseOp) (first later : HostView) : SeenCall :=
  ⟨⟨op, fun k => if k = 0 then first else later⟩, fun _ => false⟩

theorem viewsCall_honest {x : Seen} {op : FuseOp} {children children' : List String}
    {dirs dirs' : List Path} (hfirst : ∀ p ∈ dirs, x.tree.Shown p.tail)
    (hlater : ∀ p ∈ dirs', (seenNext childrenDispatcher x (viewsCall op (childrenView children dirs)
      (childrenView children' dirs'))).tree.Shown p.tail) :
    Honest childrenDispatcher x
      (viewsCall op (childrenView children dirs) (childrenView children' dirs')) :=
  ⟨childrenView_shows hfirst, fun _ => childrenView_shows hlater⟩

/-! ## 5. Runs -/

section Runs

variable {d : Dispatcher} {x y : Seen} {c : SeenCall} {t : ObjectTree}

/-- **The step lemma.** -/
theorem seenNext_follows (hx : Sound x) (h : Honest d x c) (hok : Untangled d x c) :
    Follows x (seenNext d x c) := by
  have hends := fuseStep_outcome hx h hok x.state .rfl
  show Outcome x c (fuseNext d x.state c.call)
  unfold fuseNext
  rcases hrun : (exec (fuseStep d c.call.env c.call.op) x.state).1 with e | a
  · exact hends.2 e hrun
  · exact hends.1 a hrun

theorem start_sound (hroot : t.Shown []) : Sound ⟨.start, t⟩ := by
  have hpath : ∀ {p i}, FuseState.start.pathToInode p = some i → p = [] ∧ i = rootInode := by
    intro p i hp
    change (if p = [] then some rootInode else none) = some i at hp
    split at hp
    · rename_i hnil
      exact ⟨hnil, (Option.some.inj hp).symm⟩
    · cases hp
  refine ⟨fun i p => ⟨fun hi => ?_, fun hp => ?_⟩, fun p i hp => ?_, fun p i hp => ?_, rfl⟩
  · change (if i = rootInode then some [] else none) = some p at hi
    split at hi
    · rename_i hone
      obtain rfl := Option.some.inj hi
      exact hone ▸ rfl
    · cases hi
  · obtain ⟨rfl, rfl⟩ := hpath hp
    rfl
  · obtain ⟨-, rfl⟩ := hpath hp
    exact Nat.lt_succ_self _
  · obtain ⟨rfl, -⟩ := hpath hp
    exact hroot

/-- A number settled for an object stays named. -/
theorem Seen.Settled.stays {i o : Nat} (hy : Sound y) (h : y.Settled i o) :
    (∀ p, y.tree.object p = some o → y.state.inodeToPath i = some p) ∧
      ∀ o', y.Names i o' → o' = o := by
  rcases h with ⟨q, hq, ho⟩ | hretired
  · refine ⟨fun p hp => ?_, ?_⟩
    · rw [y.tree.single p q o hp ho]
      exact (hy.inverse i q).mpr hq
    · rintro o' ⟨p, hp, ho'⟩
      rw [hy.inode_eq hp hq, ho] at ho'
      exact (Option.some.inj ho').symm
  · refine ⟨fun p hp => absurd hp (hretired.gone p), ?_⟩
    rintro o' ⟨p, hp, -⟩
    have hused := (hy.inverse i p).mpr hp
    rw [hretired.unused] at hused
    cases hused

/-- **Numbers keep naming the same objects** in every run of untangled calls: the two tables are
    inverse, and from each state of the run to its last one no number goes to another object, and
    the number of an object still shown is the one of the path it has now. -/
theorem untangled_runs_name {tr : List (Lib.Trans Seen SeenCall)} (hroot : t.Shown [])
    (hrun : SeenRuns d ⟨.start, t⟩ tr y) (hok : ∀ z ∈ tr, Untangled d z.pre z.ev) :
    Inverse y.state ∧ StaysNamed y y ∧ ∀ z ∈ tr, StaysNamed z.pre y := by
  obtain ⟨hy, hall⟩ := hrun.invariant (I := Sound) (G := fun x c => Untangled d x c)
    (start_sound hroot) (fun x c y hx hc ⟨hstep, hhonest⟩ =>
      hstep ▸ (seenNext_follows hx hhonest hc).sound) hok
  have hsettled : ∀ z ∈ tr, {n : Nat × Nat | z.pre.Settled n.1 n.2} ≤
      {n : Nat × Nat | z.post.Settled n.1 n.2} := by
    intro z hz n hn
    obtain ⟨hstep, hhonest⟩ := hrun.isStep z hz
    exact hstep ▸ (seenNext_follows (hall z hz).1 hhonest (hok z hz)).settled n.1 n.2 hn
  have hlast := (hrun.monotone (f := fun x => {n : Nat × Nat | x.Settled n.1 n.2}) hsettled).2
  have hstays : ∀ {x : Seen}, (∀ i o, x.Names i o → y.Settled i o) → StaysNamed x y := fun h =>
    ⟨fun i o hio => ((h i o hio).stays hy).1, fun i o o' hio => ((h i o hio).stays hy).2 o'⟩
  refine ⟨hy.inverse, hstays fun i o hio => .inl hio, fun z hz => hstays fun i o hio => ?_⟩
  have hpre : (i, o) ∈ {n : Nat × Nat | z.pre.Settled n.1 n.2} := .inl hio
  exact hlast z hz (hsettled z hz hpre)

end Runs

/-! ### A child is renamed -/

theorem ofPaths_shown {paths : List Path} {p : Path} (h : (ObjectTree.ofPaths paths).Shown p) :
    p ∈ paths := by
  obtain ⟨o, ho⟩ := h
  obtain ⟨hlt, heq, -⟩ := List.findIdx?_eq_some_iff_getElem.mp ho
  exact eq_of_beq heq ▸ List.getElem_mem hlt

def childStart : Seen := ⟨.start, .ofPaths [[], ["a"]]⟩

def childLookup : SeenCall :=
  viewsCall (.lookup rootInode "a")
    (childrenView ["a"] [["source"], ["source", "a"], ["mount", "a"]])
    (childrenView ["a"] [["source"], ["source", "a"], ["mount", "a"]])

def childRename : SeenCall :=
  viewsCall (.rename rootInode "a" rootInode "b" 0)
    (childrenView ["a"] [["source"], ["source", "a"], ["mount", "a"]])
    (childrenView ["b"] [["source"], ["source", "b"], ["mount", "b"]])

def childLooked : Seen := seenNext childrenDispatcher childStart childLookup

theorem childLookup_honest : Honest childrenDispatcher childStart childLookup :=
  viewsCall_honest (by decide +kernel) (by decide +kernel)

/-- The only paths with a number are the root and the child. -/
theorem childLooked_paths {p : Path} {i : Nat} (h : childLooked.state.pathToInode p = some i) :
    p = [] ∨ p = ["a"] := by
  have hsound := (seenNext_follows (start_sound (by decide)) childLookup_honest trivial).sound
  have hmem := ofPaths_shown (hsound.shown p i h)
  simpa using hmem

theorem childRename_untangled : Untangled childrenDispatcher childLooked childRename := by
  intro root oldRel newRoot newRel hold hnew hgoes
  have holdRoute : routePath childrenDispatcher.roots (childrenDispatcher.mountPath ["a"]) =
      .ok (childrenRoot, ["a"]) := rfl
  have hnewRoute : routePath childrenDispatcher.roots (childrenDispatcher.mountPath ["b"]) =
      .ok (childrenRoot, ["b"]) := rfl
  obtain ⟨rfl, rfl⟩ := Prod.mk.inj (Except.ok.inj (hold.symm.trans holdRoute))
  obtain ⟨-, rfl⟩ := Prod.mk.inj (Except.ok.inj (hnew.symm.trans hnewRoute))
  refine ⟨rfl, rfl, fun p hp hne => ?_, fun p hp => ?_, .inr ⟨rfl, rfl⟩⟩
  · by_contra hsome
    obtain ⟨i, hi⟩ := Option.ne_none_iff_exists'.mp hsome
    rcases childLooked_paths hi with rfl | rfl
    · exact absurd (List.prefix_nil.mp hp) (List.cons_ne_nil _ _)
    · exact hne rfl
  · by_contra hsome
    obtain ⟨i, hi⟩ := Option.ne_none_iff_exists'.mp hsome
    rcases childLooked_paths hi with rfl | rfl
    · exact absurd (List.prefix_nil.mp hp) (List.cons_ne_nil _ _)
    · exact absurd hp (by decide)

/-- A child is looked up and renamed. -/
theorem untangled_runs_name_child :
    ∃ tr y, SeenRuns childrenDispatcher childStart tr y ∧
      (∀ z ∈ tr, Untangled childrenDispatcher z.pre z.ev) ∧ Inverse y.state ∧ StaysNamed y y ∧
      ∀ z ∈ tr, StaysNamed z.pre y := by
  have hrun := @Lib.Run.step _ _ (fun x c y => seenNext childrenDispatcher x c = y ∧
      Honest childrenDispatcher x c) childStart _ childLooked
    (seenNext childrenDispatcher childLooked childRename) childRename
    (.step (t := childStart) (u := childLooked) (e := childLookup) .start ⟨rfl, childLookup_honest⟩)
    ⟨rfl, viewsCall_honest (by decide +kernel) (by decide +kernel)⟩
  have hok : ∀ z ∈ [] ++ [⟨childStart, childLookup, childLooked⟩] ++
      [(⟨childLooked, childRename, seenNext childrenDispatcher childLooked childRename⟩ :
        Lib.Trans Seen SeenCall)], Untangled childrenDispatcher z.pre z.ev := by
    intro z hz
    simp only [List.nil_append, List.cons_append, List.mem_cons, List.not_mem_nil, or_false] at hz
    rcases hz with rfl | rfl
    · trivial
    · exact childRename_untangled
  exact ⟨_, _, hrun, hok, untangled_runs_name (by decide) hrun hok⟩

/-! ### A directory above is renamed -/

/-- The views of the five calls: `a` with an empty directory in its overlay, `a` renamed to `b`, `a`
    made again, and the directory in it made again. -/
def firstView : HostView :=
  childrenView ["a"] [["source"], ["source", "a"], ["mount", "a"], ["mount", "a", "sub"]]

def renamedView : HostView :=
  childrenView ["b"] [["source"], ["source", "b"], ["mount", "b"]]

def againView : HostView :=
  childrenView ["a", "b"] [["source"], ["source", "a"], ["source", "b"], ["mount", "a"],
    ["mount", "b"]]

def fullView : HostView :=
  childrenView ["a", "b"] [["source"], ["source", "a"], ["source", "b"], ["mount", "a"],
    ["mount", "a", "sub"], ["mount", "b"]]

def reusingStart : Seen := ⟨.start, .ofPaths [[], ["a"], ["a", "sub"]]⟩

/-- Both are looked up, `a` is renamed, and both are made again. -/
def reusingCalls : List SeenCall :=
  [viewsCall (.lookup rootInode "a") firstView firstView,
    viewsCall (.lookup 2 "sub") firstView firstView,
    viewsCall (.rename rootInode "a" rootInode "b" 0) firstView renamedView,
    viewsCall (.mkdir rootInode "a") renamedView againView,
    viewsCall (.mkdir 4 "sub") againView fullView]

/-- After the first `k` of them. -/
def reusingAt (k : Nat) : Seen :=
  (reusingCalls.take k).foldl (seenNext childrenDispatcher) reusingStart

/-- **A number is handed out again** for another object, after the directory above the first one was
    renamed. -/
theorem renamed_ancestor_reuses :
    ∃ tr y, SeenRuns childrenDispatcher reusingStart tr y ∧
      ∃ z ∈ tr, z.pre.Names 3 2 ∧ y.Names 3 4 ∧ ¬ StaysNamed z.pre y := by
  have hrun := @Lib.Run.step _ _ (fun x c y => seenNext childrenDispatcher x c = y ∧
      Honest childrenDispatcher x c) reusingStart _ _ (reusingAt 5) _
    (.step (t := reusingAt 3) (u := reusingAt 4)
      (.step (t := reusingAt 2) (u := reusingAt 3)
        (.step (t := reusingAt 1) (u := reusingAt 2)
          (.step (t := reusingAt 0) (u := reusingAt 1) .start
            ⟨rfl, viewsCall_honest (by decide +kernel) (by decide +kernel)⟩)
          ⟨rfl, viewsCall_honest (by decide +kernel) (by decide +kernel)⟩)
        ⟨rfl, viewsCall_honest (by decide +kernel) (by decide +kernel)⟩)
      ⟨rfl, viewsCall_honest (by decide +kernel) (by decide +kernel)⟩)
    ⟨rfl, viewsCall_honest (by decide +kernel) (by decide +kernel)⟩
  have hfirst : (reusingAt 2).Names 3 2 :=
    ⟨["a", "sub"], by decide +kernel, by decide +kernel⟩
  have hagain : (reusingAt 5).Names 3 4 :=
    ⟨["a", "sub"], by decide +kernel, by decide +kernel⟩
  refine ⟨_, _, hrun, ⟨reusingAt 2, viewsCall (.rename rootInode "a" rootInode "b" 0) firstView
    renamedView, reusingAt 3⟩, by simp, hfirst, hagain, fun hstays => ?_⟩
  exact absurd (hstays.once 3 2 4 hfirst hagain) (by decide)

end CccStorage.Observe
