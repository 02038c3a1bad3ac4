/-
  File:      CccStorage/InodeOps.lean
  Subject:   What the operations of the dispatcher (`mountd/dispatcher_fuse.py`) do to the entries,
             read off the log, and how they end then.

  * `Touch.changes`, `Quiet`, `Changed` -- a log without and with a change, the tables untouched;
  * `sourcePath_unmoved`, `entryFor_unmoved` -- looking up changes nothing, and what it finds;
  * `MkdirGoes`, `RmdirGoes`, `RenameGoes` -- when the service carries an operation out;
  * `createAt_ends`, `coreMkdir_ends`, .. -- when an operation logs a change, and how it ends then.
-/
import CccStorage.HiddenState
import CccStorage.InodeTables

namespace CccStorage.Observe

open Lib (Keeps Ends exec)

/-! ## 1. When the service carries an operation out -/

/-- What `_assert_mutable_generation0` accepts. -/
structure ObservedManifest.Mutable (m : ObservedManifest) : Prop where
  unmounted : m.mounted = false
  first : m.generation = 0
  bare : m.packed = false
  clean : m.dirty = false

structure MkdirGoes (w : HostView) (root : ObservationStorage) (rel : Path) : Prop where
  child : ∃ child, resolveChild w root rel true = some child ∧ w.manifest root child = none ∧
    w.fails .makeDir (root.sourceRoot ++ [child]) = none

structure RmdirGoes (w : HostView) (root : ObservationStorage) (rel : Path) : Prop where
  child : ∃ child, resolveChild w root rel false = some child ∧ rel = [child] ∧
    (∀ m ∈ w.manifest root child, m.Mutable) ∧
    w.fails .removeDir (root.sourceRoot ++ [child]) = none

structure RenameGoes (w : HostView) (root : ObservationStorage) (oldRel newRel : Path) : Prop where
  children : ∃ old new, resolveChild w root oldRel false = some old ∧ oldRel = [old] ∧
    resolveChild w root newRel true = some new ∧ newRel = [new] ∧
    (∃ m ∈ w.manifest root old, m.Mutable) ∧ w.manifest root new = none ∧
    w.node (root.sourceRoot ++ [new]) = none ∧
    w.fails .renamePath (root.sourceRoot ++ [old]) = none

/-! ## 2. What an operation logs -/

/-- A touch that changes the entries. -/
def Touch.changes : Touch → Bool
  | .created _ | .removed _ | .renamed _ _ => true
  | _ => false

/-- The touches since `s`. -/
def newTouches (s u : FuseState) : List Touch := u.touched.drop s.touched.length

/-- There is a directory or file at the place a path stands for. -/
def Found (d : Dispatcher) (w : HostView) (rel : Path) : Prop :=
  ∃ place s, (exec (sourcePath d w rel) s).1 = .ok place ∧ (w.node place).isSome

/-- The tables are those of `s`, and the log since has no change. -/
structure Quiet (s u : FuseState) : Prop where
  same : SameTables s u
  log : ∃ l, u.touched = s.touched ++ l ∧ ∀ t ∈ l, t.changes = false

/-- The tables are those of `s`, and the log since has a change. -/
structure Changed (s u : FuseState) : Prop where
  same : SameTables s u
  log : ∃ l, u.touched = s.touched ++ l ∧ ∃ t ∈ l, t.changes = true

/-- What a touch that changes nothing keeps. -/
def Unmoved (I : FuseState → Prop) : Prop := ∀ u t, t.changes = false → I u → I (u.log t)

section Logs

variable {s u : FuseState} {t : Touch}

theorem Quiet.rfl : Quiet s s := ⟨.rfl, [], (List.append_nil _).symm, nofun⟩

theorem sameTables_log : SameTables u (u.log t) := ⟨.refl _, .refl _, .refl _⟩

theorem log_touched {l : List Touch} (h : u.touched = s.touched ++ l) :
    (u.log t).touched = s.touched ++ (l ++ [t]) := by
  show u.touched ++ [t] = _
  rw [h, List.append_assoc]

theorem quiet_unmoved : Unmoved (Quiet s) := by
  rintro u t ht ⟨hsame, l, hl, hquiet⟩
  refine ⟨hsame.trans sameTables_log, l ++ [t], log_touched hl, fun t' ht' => ?_⟩
  rcases List.mem_append.mp ht' with ht' | ht'
  · exact hquiet t' ht'
  · exact List.mem_singleton.mp ht' ▸ ht

theorem changed_unmoved : Unmoved (Changed s) := by
  rintro u t - ⟨hsame, l, hl, t', ht', hchange⟩
  exact ⟨hsame.trans sameTables_log, l ++ [t], log_touched hl, t', List.mem_append_left _ ht',
    hchange⟩

theorem Quiet.change (h : Quiet s u) (ht : t.changes = true) : Changed s (u.log t) := by
  obtain ⟨hsame, l, hl, -⟩ := h
  exact ⟨hsame.trans sameTables_log, l ++ [t], log_touched hl, t, by simp, ht⟩

theorem Quiet.any (h : Quiet s u) : (newTouches s u).any Touch.changes = false := by
  obtain ⟨-, l, hl, hquiet⟩ := h
  rw [newTouches, hl, List.drop_left]
  exact List.any_eq_false.mpr fun t ht => by rw [hquiet t ht]; exact Bool.false_ne_true

theorem Changed.any (h : Changed s u) : (newTouches s u).any Touch.changes = true := by
  obtain ⟨-, l, hl, t, ht, hchange⟩ := h
  rw [newTouches, hl, List.drop_left]
  exact List.any_eq_true.mpr ⟨t, ht, hchange⟩

end Logs

section Core

variable {I : FuseState → Prop} {d : Dispatcher} {w : HostView} {root : ObservationStorage}
variable {rel p : Path} {t : Touch}

theorem touch_unmoved (hI : Unmoved I) (ht : t.changes = false) :
    Keeps I (touch t) fun _ => True := .update fun u hu => hI u t ht hu

theorem accessChild_unmoved (hI : Unmoved I) : Keeps I (accessChild w root rel) fun _ => True := by
  unfold accessChild
  split
  · exact .throw
  · split
    · exact .throw
    · split
      · exact .throw
      · exact .bind (touch_unmoved hI rfl) fun _ _ => .pure trivial

theorem privateChildPath_unmoved (hI : Unmoved I) :
    Keeps I (privateChildPath d w rel) fun _ => True := by
  unfold privateChildPath
  refine .bind normalizeRel_keeps fun rel' _ => ?_
  split
  · exact .pure trivial
  · have haccess : Keeps I (handleObserveAccessPrivate d w rel') fun _ => True := by
      unfold handleObserveAccessPrivate
      split
      · exact .throw
      · exact accessChild_unmoved hI
    have hfailure : ∀ e, Keeps I (accessFailure e) fun _ => True := by
      intro e
      unfold accessFailure
      split
      · split
        · exact .pure trivial
        · exact .throw
      · exact .throw
    exact .bind (haccess.tryCatch hfailure) fun _ _ => .pure trivial

/-- **A place is looked up** without a change, and it is one that `sourcePath` gives. -/
theorem sourcePath_unmoved (hI : Unmoved I) :
    Keeps I (sourcePath d w rel) fun place => ∃ s, (exec (sourcePath d w rel) s).1 = .ok place := by
  have hkeeps : Keeps I (sourcePath d w rel) fun _ => True := by
    unfold sourcePath
    refine .bind normalizeRel_keeps fun rel' _ => .bind (privateChildPath_unmoved hI) ?_
    intro path _
    cases path with
    | some place => exact .pure trivial
    | none => exact .pure trivial
  exact fun s hs => ⟨(hkeeps s hs).1, fun place hplace => ⟨s, hplace⟩⟩

theorem listdir_unmoved (hI : Unmoved I) : Keeps I (listdir d w rel) fun _ => True := by
  unfold listdir
  refine .bind (sourcePath_unmoved hI) fun path _ => ?_
  split
  · refine .bind syscall_keeps fun _ _ => .bind (touch_unmoved hI rfl) fun _ _ => .pure trivial
  · exact .throw

/-- **An entry** is of the path asked for, and found there unless it is the root's own. -/
theorem entryFor_unmoved (hI : Unmoved I) :
    Keeps I (entryFor d w rel) fun entry => entry.path = rel ∧ (rel = [] ∨ Found d w rel) := by
  unfold entryFor
  refine .bind normalizeRel_keeps fun rel' hrel => ?_
  subst hrel
  refine .bind (sourcePath_unmoved hI) fun place hplace => ?_
  obtain ⟨s, hplace⟩ := hplace
  split
  · rename_i hnil
    exact .bind (touch_unmoved hI rfl) fun _ _ => .pure ⟨rfl, .inl hnil⟩
  · split
    · exact .throw
    · have hfound : ∀ n, w.node place = some n → Found d w rel' := fun n hn =>
        ⟨place, s, hplace, hn ▸ rfl⟩
      split
      · rename_i names hnode
        refine .bind (touch_unmoved hI rfl) fun _ _ => .pure ⟨rfl, .inr (hfound _ hnode)⟩
      · rename_i size hnode
        exact .bind (touch_unmoved hI rfl) fun _ _ => .pure ⟨rfl, .inr (hfound _ hnode)⟩
      · exact .throw

end Core

/-! ## 3. What an operation does to the entries -/

section Changes

variable {d : Dispatcher} {w : HostView} {env : Nat → HostView} {root : ObservationStorage}
variable {s : FuseState} {rel rel' old new p : Path} {t : Touch} {child : String}

/-- From here on the log has a change. -/
theorem touch_changes (ht : t.changes = true) {E : FuseState → Prop} :
    Ends (Quiet s) (touch t) (fun _ u => Changed s u) E := .update fun _ hu => hu.change ht

theorem syscall_ends {I E : FuseState → Prop} {call : SysCall} (hE : ∀ u, I u →
    w.fails call p ≠ none → E u) :
    Ends I (syscall w call p) (fun _ u => I u ∧ w.fails call p = none) E := by
  unfold syscall
  split
  · rename_i e he
    exact .throw fun u hu => hE u hu (by rw [he]; exact Option.some_ne_none e)
  · rename_i hnone
    exact .pure fun u hu => ⟨hu, hnone⟩

/-- What holds of the state alone. -/
theorem ends_and {α : Type} {I E : FuseState → Prop} {C : Prop} {m : DispatchM α}
    {Q : α → FuseState → Prop} (h : C → Ends I m Q E) : Ends (fun u => I u ∧ C) m Q E :=
  fun u hu => h hu.2 u hu.1

theorem createAt_ends :
    Ends (Quiet s) (createAt d env rel) (fun opened u => opened.2.path = rel ∧ Changed s u)
      fun u => Quiet s u ∨ Changed s u := by
  unfold createAt
  split
  · exact .throw fun _ hu => .inl hu
  · refine .after (sourcePath_unmoved quiet_unmoved) (fun _ hu => .inl hu) fun path _ => ?_
    refine .after syscall_keeps (fun _ hu => .inl hu) fun _ _ => ?_
    refine .bind (touch_changes rfl) fun _ => ?_
    have hrest : Keeps (Changed s) (do
        let path' ← sourcePath d (env 1) rel
        syscall (env 1) .chown path'
        touch (.owned ((env 1).leadsTo path'))
        let entry ← entryFor d (env 2) rel
        pure ((env 0).leadsTo path, entry)) fun opened => opened.2.path = rel := by
      refine .bind (sourcePath_unmoved changed_unmoved) fun _ _ => ?_
      refine .bind syscall_keeps fun _ _ => .bind (touch_unmoved changed_unmoved rfl) fun _ _ => ?_
      exact .bind (entryFor_unmoved changed_unmoved) fun entry hentry => .pure hentry.1
    exact hrest.ends (fun _ _ hopened hu => ⟨hopened, hu⟩) fun _ hu => .inr hu

theorem unlinkAt_ends :
    Ends (Quiet s) (unlinkAt d w rel) (fun _ u => Changed s u) (Quiet s) := by
  unfold unlinkAt
  split
  · exact .throw fun _ hu => hu
  · refine .after (sourcePath_unmoved quiet_unmoved) (fun _ hu => hu) fun path _ => ?_
    exact .after syscall_keeps (fun _ hu => hu) fun _ _ => touch_changes rfl

/-- `mkdir_child` logs a change only where it goes. -/
theorem mkdirChild_ends :
    Ends (Quiet s) (mkdirChild w root rel)
      (fun child u => rel.head? = some child ∧ Changed s u ∧ MkdirGoes w root rel)
      fun u => Quiet s u ∨ Changed s u ∧ MkdirGoes w root rel := by
  unfold mkdirChild
  split
  · exact .throw fun _ hu => .inl hu
  · rename_i child hchild
    split
    · exact .throw fun _ hu => .inl hu
    · rename_i hnone
      refine .bind (syscall_ends fun _ hu _ => .inl hu) fun _ => ends_and fun hmade => ?_
      have hgoes : MkdirGoes w root rel := ⟨child, hchild, hnone, hmade⟩
      refine .bind (touch_changes rfl) fun _ => ?_
      have hrest : Keeps (Changed s) (do
          syscall w .chown (root.sourceRoot ++ [child])
          touch (.owned (w.leadsTo (root.sourceRoot ++ [child])))
          syscall w .keepState root.stateDir
          pure child) fun made => made = child := by
        refine .bind syscall_keeps fun _ _ => .bind (touch_unmoved changed_unmoved rfl) ?_
        exact fun _ _ => .bind syscall_keeps fun _ _ => .pure rfl
      refine hrest.ends (fun made _ hmade hu => ⟨?_, hu, hgoes⟩) fun _ hu => .inr ⟨hu, hgoes⟩
      exact hmade ▸ (resolveChild_spec hchild).1

/-- The service registers the child of the path. -/
def MkdirWent (d : Dispatcher) (w : HostView) (rel : Path) : Prop :=
  1 < rel.length ∨
    ∃ root rel', routePath d.roots (d.mountPath rel) = .ok (root, rel') ∧ MkdirGoes w root rel'

theorem coreMkdir_ends :
    Ends (Quiet s) (coreMkdir d w rel)
      (fun entry u => entry.path = rel ∧ Changed s u ∧ MkdirWent d w rel)
      fun u => Quiet s u ∨ Changed s u ∧ MkdirWent d w rel := by
  unfold coreMkdir
  refine .after normalizeRel_keeps (fun _ hu => .inl hu) fun rel' hrel => ?_
  subst hrel
  split
  · exact .throw fun _ hu => .inl hu
  · rename_i hnil
    split
    · exact .throw fun _ hu => .inl hu
    · split
      · rename_i hdeep
        refine .after (sourcePath_unmoved quiet_unmoved) (fun _ hu => .inl hu) fun path _ => ?_
        refine .after syscall_keeps (fun _ hu => .inl hu) fun _ _ => ?_
        refine .bind (touch_changes rfl) fun _ => ?_
        have hrest : Keeps (Changed s) (do
            syscall w .chown path
            touch (.owned (w.leadsTo path))
            pure (⟨rel', entryName path, .dir, 0⟩ : DispatchEntry)) fun entry =>
              entry.path = rel' := by
          refine .bind syscall_keeps fun _ _ => .bind (touch_unmoved changed_unmoved rfl) ?_
          exact fun _ _ => .pure rfl
        exact hrest.ends (fun _ _ hentry hu => ⟨hentry, hu, .inl hdeep⟩)
          fun _ hu => .inr ⟨hu, .inl hdeep⟩
      · rename_i hshallow
        refine .bind (Q := fun child u => [child] = rel' ∧ Changed s u ∧ MkdirWent d w rel') ?_
          fun child => .pure fun _ hu => hu
        unfold handleObserveMkdir
        split
        · exact .throw fun _ hu => .inl hu
        · rename_i root rel'' hroute
          refine mkdirChild_ends.mono (fun child u ⟨hhead, hu, hgoes⟩ => ⟨?_, hu, .inr ?_⟩)
            fun u hu => hu.imp id fun ⟨hu, hgoes⟩ => ⟨hu, .inr ⟨root, rel'', hroute, hgoes⟩⟩
          · -- the path is one name, and routed to the root's own child
            obtain ⟨name, rfl⟩ : ∃ name, rel' = [name] := by
              cases rel' with
              | nil => exact absurd rfl hnil
              | cons name rest =>
                cases rest with
                | nil => exact ⟨name, rfl⟩
                | cons _ _ => exact absurd (by simp) hshallow
            rcases (routePath_spec hroute).2 with ⟨-, rfl⟩ | ⟨-, hsuffix⟩
            · rw [Option.some.inj hhead]
            · rw [List.suffix_nil.mp hsuffix] at hhead
              cases hhead
          · exact ⟨root, rel'', hroute, hgoes⟩

theorem exactObservedBoundary_spec {I : FuseState → Prop} {allowMissing : Bool} :
    Keeps I (exactObservedBoundary w root rel allowMissing) fun child =>
      rel = [child] ∧ resolveChild w root rel allowMissing = some child := by
  unfold exactObservedBoundary
  split
  · rename_i child hchild
    split
    · rename_i hrel
      exact .pure ⟨hrel, hchild⟩
    · exact .throw
  · exact .throw

theorem assertMutable_spec {I : FuseState → Prop} {m : ObservedManifest} :
    Keeps I (assertMutable m child) fun _ => m.Mutable := by
  unfold assertMutable
  split
  · exact .throw
  · rename_i hmounted
    split
    · exact .throw
    · rename_i hfirst
      push Not at hfirst
      split
      · exact .throw
      · rename_i hdirty
        exact .pure ⟨Bool.eq_false_of_not_eq_true hmounted, hfirst.1,
          Bool.eq_false_of_not_eq_true hfirst.2, Bool.eq_false_of_not_eq_true hdirty⟩

theorem assertRegisteredMutable_spec {I : FuseState → Prop} {m : Option ObservedManifest} :
    Keeps I (assertRegisteredMutable m child) fun _ => ∀ m' ∈ m, m'.Mutable := by
  cases m with
  | none => exact .pure nofun
  | some m => exact assertMutable_spec.mono fun _ hm m' hm' => Option.some.inj hm' ▸ hm

/-- The manifest and the overlay of the child are not written through. -/
def Halfway (w : HostView) (root : ObservationStorage) : Prop :=
  w.fails .keepState root.stateDir ≠ none

/-- `rmdir_child` logs a change only where it goes, and raises after it only half-way. -/
theorem rmdirChild_ends :
    Ends (Quiet s) (rmdirChild w root rel) (fun _ u => Changed s u ∧ RmdirGoes w root rel)
      fun u => Quiet s u ∨ Changed s u ∧ RmdirGoes w root rel ∧ Halfway w root := by
  unfold rmdirChild
  refine .after exactObservedBoundary_spec (fun _ hu => .inl hu) fun child ⟨hrel, hchild⟩ => ?_
  refine .after assertRegisteredMutable_spec (fun _ hu => .inl hu) fun _ hmutable => ?_
  unfold removeBoundary
  split
  · exact .bind (Q := fun _ _ => False) (.throw fun _ hu => .inl hu) fun _ _ hfalse => hfalse.elim
  · rename_i hremove
    have hgoes : RmdirGoes w root rel := ⟨child, hchild, hrel, hmutable, hremove⟩
    refine .bind (touch_changes rfl) fun _ => ?_
    exact (syscall_ends fun _ hu hfails => .inr ⟨hu, hgoes, hfails⟩).mono
      (fun _ _ hu => ⟨hu.1, hgoes⟩) fun _ hu => hu

theorem coreRmdir_ends :
    Ends (Quiet s) (coreRmdir d w rel)
      (fun _ u => Changed s u ∧ ∃ root rel',
        routePath d.roots (d.mountPath rel) = .ok (root, rel') ∧ RmdirGoes w root rel')
      fun u => Quiet s u ∨ Changed s u ∧ ∃ root rel',
        routePath d.roots (d.mountPath rel) = .ok (root, rel') ∧ RmdirGoes w root rel' ∧
          Halfway w root := by
  unfold coreRmdir
  refine .after normalizeRel_keeps (fun _ hu => .inl hu) fun rel' hrel => ?_
  subst hrel
  split
  · exact .throw fun _ hu => .inl hu
  · unfold handleObserveRmdir
    split
    · exact .throw fun _ hu => .inl hu
    · rename_i root rel'' hroute
      exact rmdirChild_ends.mono (fun _ _ ⟨hu, hgoes⟩ => ⟨hu, root, rel'', hroute, hgoes⟩)
        fun _ hu => hu.imp id fun ⟨hu, hgoes, hhalf⟩ => ⟨hu, root, rel'', hroute, hgoes, hhalf⟩

/-- `rename_child` logs a change only where it goes, and raises after it only half-way. -/
theorem renameChild_ends :
    Ends (Quiet s) (renameChild w root old new) (fun _ u => Changed s u ∧ RenameGoes w root old new)
      fun u => Quiet s u ∨ Changed s u ∧ RenameGoes w root old new ∧
        (Halfway w root ∨ w.fails .chown (root.sourceRoot ++ new) ≠ none) := by
  unfold renameChild
  refine .after exactObservedBoundary_spec (fun _ hu => .inl hu) fun oldName ⟨hold, hfrom⟩ => ?_
  refine .after exactObservedBoundary_spec (fun _ hu => .inl hu) fun newName ⟨hnew, hto⟩ => ?_
  split
  · exact .throw fun _ hu => .inl hu
  · rename_i m hm
    split
    · exact .throw fun _ hu => .inl hu
    · rename_i hfree
      push Not at hfree
      refine .after assertMutable_spec (fun _ hu => .inl hu) fun _ hmutable => ?_
      refine .bind (syscall_ends fun _ hu _ => .inl hu) fun _ => ends_and fun hmoved => ?_
      have hgoes : RenameGoes w root old new :=
        ⟨oldName, newName, hfrom, hold, hto, hnew, ⟨m, hm, hmutable⟩,
          Option.not_isSome_iff_eq_none.mp hfree.1, Option.not_isSome_iff_eq_none.mp hfree.2,
          hmoved⟩
      refine .bind (touch_changes rfl) fun _ => ?_
      refine .bind (syscall_ends fun _ hu hfails => .inr ⟨hu, hgoes, .inl hfails⟩) fun _ =>
        ends_and fun _ => ?_
      refine .bind (syscall_ends fun _ hu hfails => .inr ⟨hu, hgoes, .inr (hnew ▸ hfails)⟩) fun _ =>
        ends_and fun _ => ?_
      exact .update fun u hu => ⟨changed_unmoved u _ rfl hu, hgoes⟩

/-- The service moves the child of the old path to the new one. -/
def RenameWent (d : Dispatcher) (w : HostView) (old new : Path)
    (C : ObservationStorage → Path → Prop) : Prop :=
  ∃ root oldRel newRoot newRel, routePath d.roots (d.mountPath old) = .ok (root, oldRel) ∧
    routePath d.roots (d.mountPath new) = .ok (newRoot, newRel) ∧ RenameGoes w root oldRel newRel ∧
    C root newRel

theorem coreRename_ends :
    Ends (Quiet s) (coreRename d w old new)
      (fun _ u => Changed s u ∧ RenameWent d w old new fun _ _ => True)
      fun u => Quiet s u ∨ Changed s u ∧ RenameWent d w old new fun root newRel =>
        Halfway w root ∨ w.fails .chown (root.sourceRoot ++ newRel) ≠ none := by
  unfold coreRename
  refine .after normalizeRel_keeps (fun _ hu => .inl hu) fun old' hold => ?_
  refine .after normalizeRel_keeps (fun _ hu => .inl hu) fun new' hnew => ?_
  subst hold hnew
  split
  · exact .throw fun _ hu => .inl hu
  · unfold handleObserveRename
    split
    · exact .throw fun _ hu => .inl hu
    · exact .throw fun _ hu => .inl hu
    · rename_i root oldRel newRoot newRel holdRoute hnewRoute
      split
      · exact .throw fun _ hu => .inl hu
      · exact renameChild_ends.mono
          (fun _ _ ⟨hu, hgoes⟩ => ⟨hu, root, oldRel, newRoot, newRel, holdRoute, hnewRoute, hgoes,
            trivial⟩)
          fun _ hu => hu.imp id fun ⟨hu, hgoes, hhalf⟩ =>
            ⟨hu, root, oldRel, newRoot, newRel, holdRoute, hnewRoute, hgoes, hhalf⟩

end Changes

end CccStorage.Observe
