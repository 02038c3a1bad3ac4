/-
  File:      CccStorage/HiddenState.lean
  Subject:   The state directory of an observation root seen through its dispatcher
             (`mountd/dispatcher_fuse.py`), over sequences of FUSE operations.

  The core filters one fixed name, `.ccc-storage`, in its own operations; `rmdir` and `rename` rely
  on the service, which refuses the configured `state_subdir`. A root whose `state_subdir` has
  another name shows its state directory.

  * `Outside`, `Invisible` -- a place not in the state directory, and a log with such places only;
  * `HostView.Confined` -- no link or bind mount leads from outside into the state directory;
  * `StateHidden` -- the invariant, with the inode table and the open descriptors;
  * `stateDir_invisible_iff` -- every confined run is invisible exactly for the reserved name;
  * `namedState_visible` -- a root with another name, and the file created in its registry.
-/
import CccStorage.Dispatcher

namespace CccStorage.Observe

open Lib (Keeps exec exec_bind raising)

/-! ## 1. What must stay out of sight -/

/-- A place that is not the state directory or in it. -/
def Outside (d : Dispatcher) (p : Path) : Prop := ¬ d.root.stateDir <+: p

instance (d : Dispatcher) (p : Path) : Decidable (Outside d p) :=
  inferInstanceAs (Decidable (¬ d.root.stateDir <+: p))

/-- What an operation shows or changes is outside, and a listing does not name it. -/
def Touch.Hidden (d : Dispatcher) (t : Touch) : Prop :=
  (∀ p ∈ t.paths, Outside d p) ∧ d.root.stateSubdir ∉ t.names

instance (d : Dispatcher) (t : Touch) : Decidable (t.Hidden d) :=
  inferInstanceAs (Decidable ((∀ p ∈ t.paths, Outside d p) ∧ d.root.stateSubdir ∉ t.names))

/-- **The state directory is invisible** in everything the operations have shown and changed. -/
def Invisible (d : Dispatcher) (s : FuseState) : Prop := ∀ t ∈ s.touched, t.Hidden d

instance (d : Dispatcher) (s : FuseState) : Decidable (Invisible d s) :=
  inferInstanceAs (Decidable (∀ t ∈ s.touched, t.Hidden d))

/-- **No way in**: a path outside leads to a place outside, and no private mount is inside. -/
structure HostView.Confined (w : HostView) (d : Dispatcher) : Prop where
  leadsTo : ∀ p, Outside d p → Outside d (w.leadsTo p)
  entryOf : ∀ p, Outside d p → Outside d (w.entryOf p)
  mountRw : ∀ root child mountpoint, w.mountRw root child = .ok (some mountpoint) →
    Outside d mountpoint

def FuseCall.Confined (c : FuseCall) (d : Dispatcher) : Prop := ∀ k, (c.env k).Confined d

/-- **The invariant**: the log, the inode table and the open descriptors. -/
structure StateHidden (d : Dispatcher) (s : FuseState) : Prop where
  touched : Invisible d s
  table : ∀ inode rel, s.inodeToPath inode = some rel → rel.head? ≠ some reservedName
  handles : ∀ fh p, s.fhToFd fh = some p → Outside d p

/-! ## 2. Paths -/

section Paths

variable {d : Dispatcher} {root : ObservationStorage} {rel rel' p : Path} {child : String}
variable {w : HostView}

theorem outside_source (h : rel.head? ≠ some d.root.stateSubdir) :
    Outside d (d.root.sourceRoot ++ rel) := by
  intro hin
  unfold ObservationStorage.stateDir at hin
  rw [List.prefix_append_right_inj] at hin
  obtain ⟨rest, rfl⟩ := hin
  exact h rfl

/-- Below a place outside, a path without the name stays outside. -/
theorem outside_append (hp : Outside d p) (hrel : d.root.stateSubdir ∉ rel) :
    Outside d (p ++ rel) := by
  intro hin
  rcases List.prefix_or_prefix_of_prefix hin (List.prefix_append p rel) with hpre | ⟨q, hq⟩
  · exact hp hpre
  · rcases List.eq_nil_or_concat q with rfl | ⟨q', name, rfl⟩
    · rw [List.append_nil] at hq
      exact hp (hq ▸ List.prefix_rfl)
    · -- the state directory ends below `p`, so its name is a component of `rel`
      rw [← hq, List.prefix_append_right_inj] at hin
      have hends : p ++ q' ++ [name] = d.root.sourceRoot ++ [d.root.stateSubdir] := by
        rw [List.append_assoc, ← List.concat_eq_append, hq]
        rfl
      obtain ⟨-, hname⟩ := List.append_inj' hends rfl
      obtain rfl := List.singleton_inj.mp hname
      exact hrel (hin.mem (by rw [List.concat_eq_append]; exact List.mem_append_right _ List.mem_cons_self))

theorem resolveChild_spec {allowMissing : Bool}
    (h : resolveChild w root rel allowMissing = some child) :
    rel.head? = some child ∧ child ≠ root.stateSubdir := by
  unfold resolveChild at h
  split at h
  · cases h
  · split at h
    · cases h
    · split at h
      · cases h
      · split at h
        · cases h
        · rename_i hne
          obtain rfl := Option.some.inj h
          exact ⟨rfl, hne⟩

/-- The rounds of `resolve` keep the longest public path above the path. -/
theorem selectRoot_foldl {roots : List ObservationStorage} {selected : Option ObservationStorage}
    (hsel : ∀ r ∈ selected, r.publicPath <+: p)
    (h : roots.foldl (selectRoot p) selected = some root) :
    (root ∈ selected ∨ root ∈ roots) ∧ root.publicPath <+: p ∧
      (∀ r ∈ selected, r.publicPath.length ≤ root.publicPath.length) ∧
      ∀ r ∈ roots, r.publicPath <+: p → r.publicPath.length ≤ root.publicPath.length := by
  induction roots generalizing selected with
  | nil =>
    obtain rfl : selected = some root := h
    refine ⟨.inl rfl, hsel root rfl, fun r hr => ?_, nofun⟩
    obtain rfl := Option.some.inj hr
    exact le_rfl
  | cons first rest ih =>
    rw [List.foldl_cons] at h
    unfold selectRoot at h
    split at h
    · rename_i hfirst
      split at h
      · obtain ⟨hmem, hpre, hbest, hrest⟩ := ih (fun r hr => by cases hr; exact hfirst) h
        have hle := hbest first rfl
        refine ⟨.inr ?_, hpre, nofun, fun r hr habove => ?_⟩
        · rcases hmem with hmem | hmem
          · cases hmem
            exact List.mem_cons_self
          · exact List.mem_cons_of_mem _ hmem
        · rcases List.mem_cons.mp hr with rfl | hr
          · exact hle
          · exact hrest r hr habove
      · rename_i best
        split at h
        · rename_i hlt
          obtain ⟨hmem, hpre, hbest, hrest⟩ := ih (fun r hr => by cases hr; exact hfirst) h
          have hle := hbest first rfl
          refine ⟨.inr ?_, hpre, fun r hr => ?_, fun r hr habove => ?_⟩
          · rcases hmem with hmem | hmem
            · cases hmem
              exact List.mem_cons_self
            · exact List.mem_cons_of_mem _ hmem
          · cases hr
            omega
          · rcases List.mem_cons.mp hr with rfl | hr
            · exact hle
            · exact hrest r hr habove
        · rename_i hlt
          obtain ⟨hmem, hpre, hbest, hrest⟩ := ih hsel h
          have hle := hbest best rfl
          refine ⟨hmem.imp id (List.mem_cons_of_mem _), hpre, hbest, fun r hr habove => ?_⟩
          rcases List.mem_cons.mp hr with rfl | hr
          · omega
          · exact hrest r hr habove
    · rename_i hfirst
      obtain ⟨hmem, hpre, hbest, hrest⟩ := ih hsel h
      refine ⟨hmem.imp id (List.mem_cons_of_mem _), hpre, hbest, fun r hr habove => ?_⟩
      rcases List.mem_cons.mp hr with rfl | hr
      · exact absurd habove hfirst
      · exact hrest r hr habove

/-- The root selected is the nearest one above the path. -/
theorem resolveRoot_spec {roots : List ObservationStorage} (h : resolveRoot roots p = some root) :
    root ∈ roots ∧ root.publicPath <+: p ∧
      ∀ r ∈ roots, r.publicPath <+: p → r.publicPath.length ≤ root.publicPath.length := by
  obtain ⟨hmem, hpre, -, hlongest⟩ := selectRoot_foldl (fun r hr => by cases hr) h
  exact ⟨hmem.resolve_left (by rintro ⟨⟩), hpre, hlongest⟩

/-- **A path of the dispatcher is routed** to its own root, or to another root nearer to it. -/
theorem routePath_spec (h : routePath d.roots (d.mountPath rel) = .ok (root, rel')) :
    root ∈ d.roots ∧ (root = d.root ∧ rel' = rel ∨ root ≠ d.root ∧ rel' <:+ rel.tail) := by
  unfold routePath at h
  split at h
  · cases h
  · rename_i r hroute
    obtain ⟨hroot, hrel⟩ := Prod.mk.inj (Except.ok.inj h)
    subst hroot
    obtain ⟨hmem, hpre, hlongest⟩ := resolveRoot_spec hroute
    refine ⟨hmem, ?_⟩
    have hle := hlongest d.root d.served (List.prefix_append _ _)
    unfold relToRoot Dispatcher.mountPath at hrel
    by_cases hown : r = d.root
    · subst hown
      rw [List.drop_append_length] at hrel
      exact .inl ⟨rfl, hrel.symm⟩
    · refine .inr ⟨hown, ?_⟩
      have hlt : d.root.publicPath.length < r.publicPath.length := by
        refine lt_of_le_of_ne hle fun heq => hown (d.distinct r hmem ?_)
        have hboth := List.prefix_of_prefix_length_le hpre (List.prefix_append _ _) heq.ge
        exact hboth.eq_of_length heq.symm
      rw [List.drop_append, List.drop_eq_nil_of_le hle, List.nil_append] at hrel
      obtain ⟨k, hk⟩ := Nat.exists_eq_add_of_lt hlt
      rw [show r.publicPath.length - d.root.publicPath.length = 1 + k by omega, ← List.drop_drop,
        List.drop_one] at hrel
      rw [← hrel]
      exact List.drop_suffix k rel.tail

end Paths

/-! ## 3. The service -/

section Service

variable {d : Dispatcher} {w : HostView} {root : ObservationStorage} {rel rel' : Path}
variable {child : String} {t : Touch} {p : Path}

theorem touch_keeps (ht : t.Hidden d) : Keeps (StateHidden d) (touch t) fun _ => True := by
  refine .update fun s hs => ⟨fun t' ht' => ?_, hs.table, hs.handles⟩
  rcases List.mem_append.mp ht' with ht' | ht'
  · exact hs.touched t' ht'
  · obtain rfl := List.mem_singleton.mp ht'
    exact ht

/-- A touch of one place. -/
theorem touchOne_keeps (hpaths : t.paths = [p]) (hn : t.names = []) (hp : Outside d p) :
    Keeps (StateHidden d) (touch t) fun _ => True :=
  touch_keeps ⟨by rw [hpaths]; exact List.forall_mem_singleton.mpr hp, hn ▸ List.not_mem_nil⟩

/-- A child of a served root, other than its own state directory, is outside. -/
theorem outside_child (hmem : root ∈ d.roots) (hchild : child ≠ root.stateSubdir) :
    Outside d (root.sourceRoot ++ [child]) := by
  by_cases hown : root = d.root
  · subst hown
    exact outside_source fun hhead => hchild (Option.some.inj hhead)
  · exact d.apart root hmem hown child

theorem accessChild_keeps (hw : w.Confined d) (hmem : root ∈ d.roots) :
    Keeps (StateHidden d) (accessChild w root rel) fun mountpoint =>
      ∀ p ∈ mountpoint, Outside d p := by
  unfold accessChild
  split
  · exact .throw
  · rename_i child hchild
    split
    · exact .throw
    · split
      · exact .throw
      · rename_i mountpoint hmount
        have hout := outside_child hmem (resolveChild_spec hchild).2
        refine .bind (touchOne_keeps rfl rfl (hw.entryOf _ hout)) fun _ _ => .pure ?_
        rintro p rfl
        exact hw.mountRw root child p hmount

theorem mkdirChild_keeps (hw : w.Confined d) (hmem : root ∈ d.roots) :
    Keeps (StateHidden d) (mkdirChild w root rel) fun child =>
      rel.head? = some child ∧ child ≠ root.stateSubdir := by
  unfold mkdirChild
  split
  · exact .throw
  · rename_i child hchild
    have hspec := resolveChild_spec hchild
    have hout := outside_child hmem hspec.2
    split
    · exact .throw
    · refine .bind syscall_keeps fun _ _ => ?_
      refine .bind (touchOne_keeps rfl rfl (hw.entryOf _ hout)) fun _ _ => ?_
      refine .bind syscall_keeps fun _ _ => ?_
      refine .bind (touchOne_keeps rfl rfl (hw.leadsTo _ hout)) fun _ _ => ?_
      exact .bind syscall_keeps fun _ _ => .pure hspec

theorem exactObservedBoundary_keeps {allowMissing : Bool} :
    Keeps (StateHidden d) (exactObservedBoundary w root rel allowMissing) fun child =>
      rel = [child] ∧ child ≠ root.stateSubdir := by
  unfold exactObservedBoundary
  split
  · rename_i child hchild
    split
    · rename_i hrel
      exact .pure ⟨hrel, (resolveChild_spec hchild).2⟩
    · exact .throw
  · exact .throw

theorem assertMutable_keeps {m : ObservedManifest} :
    Keeps (StateHidden d) (assertMutable m child) fun _ => True := by
  unfold assertMutable
  split
  · exact .throw
  · split
    · exact .throw
    · split
      · exact .throw
      · exact .pure trivial

theorem assertRegisteredMutable_keeps {m : Option ObservedManifest} :
    Keeps (StateHidden d) (assertRegisteredMutable m child) fun _ => True := by
  cases m with
  | none => exact .pure trivial
  | some m => exact assertMutable_keeps

theorem removeBoundary_keeps (hp : Outside d (w.entryOf p)) :
    Keeps (StateHidden d) (removeBoundary w p) fun _ => True := by
  unfold removeBoundary
  split
  · exact .throw
  · exact touchOne_keeps rfl rfl hp

theorem rmdirChild_keeps (hw : w.Confined d) (hmem : root ∈ d.roots) :
    Keeps (StateHidden d) (rmdirChild w root rel) fun _ => True := by
  unfold rmdirChild
  refine .bind exactObservedBoundary_keeps fun child ⟨_, hchild⟩ => ?_
  have hout := hw.entryOf _ (outside_child hmem hchild)
  refine .bind assertRegisteredMutable_keeps fun _ _ => ?_
  exact .bind (removeBoundary_keeps hout) fun _ _ => syscall_keeps

theorem renameChild_keeps (hw : w.Confined d) (hmem : root ∈ d.roots) :
    Keeps (StateHidden d) (renameChild w root rel rel') fun _ =>
      rel' ≠ [] ∧ rel' ≠ [root.stateSubdir] := by
  unfold renameChild
  refine .bind exactObservedBoundary_keeps fun old ⟨_, hold⟩ => ?_
  refine .bind exactObservedBoundary_keeps fun new ⟨hrel, hnew⟩ => ?_
  subst hrel
  have hok : [new] ≠ [] ∧ [new] ≠ [root.stateSubdir] :=
    ⟨List.cons_ne_nil _ _, fun h => hnew (List.singleton_inj.mp h)⟩
  have hsource := outside_child hmem hold
  have htarget := outside_child hmem hnew
  split
  · exact .throw
  · split
    · exact .throw
    · refine .bind assertMutable_keeps fun _ _ => .bind syscall_keeps fun _ _ => ?_
      refine .bind (touch_keeps ⟨?_, List.not_mem_nil⟩) fun _ _ => ?_
      · refine List.forall_mem_cons.mpr ⟨hw.entryOf _ hsource, ?_⟩
        exact List.forall_mem_singleton.mpr (hw.entryOf _ htarget)
      · refine .bind syscall_keeps fun _ _ => .bind syscall_keeps fun _ _ => ?_
        exact (touchOne_keeps rfl rfl (hw.leadsTo _ htarget)).mono fun _ _ => hok

end Service

/-! ## 4. The core -/

section Core

variable {d : Dispatcher} {w : HostView} {rel old new : Path} {p : Path}

theorem handleObserveAccessPrivate_keeps (hw : w.Confined d) :
    Keeps (StateHidden d) (handleObserveAccessPrivate d w rel) fun mountpoint =>
      ∀ p ∈ mountpoint, Outside d p := by
  unfold handleObserveAccessPrivate
  split
  · exact .throw
  · rename_i root rel' hroute
    exact accessChild_keeps hw (routePath_spec hroute).1

/-- A new child is not named as the state directory. -/
theorem handleObserveMkdir_keeps (hname : d.root.stateSubdir = reservedName) (hw : w.Confined d)
    (hrel : reservedName ∉ rel) :
    Keeps (StateHidden d) (handleObserveMkdir d w rel) fun child => child ≠ reservedName := by
  unfold handleObserveMkdir
  split
  · exact .throw
  · rename_i root rel' hroute
    obtain ⟨hmem, hown⟩ := routePath_spec hroute
    refine (mkdirChild_keeps hw hmem).mono fun child ⟨hhead, hchild⟩ => ?_
    rcases hown with ⟨rfl, -⟩ | ⟨-, hsuffix⟩
    · exact hname ▸ hchild
    · rintro rfl
      have hin : reservedName ∈ rel' := List.mem_of_head? hhead
      exact hrel (List.mem_of_mem_tail (hsuffix.subset hin))

theorem handleObserveRmdir_keeps (hw : w.Confined d) :
    Keeps (StateHidden d) (handleObserveRmdir d w rel) fun _ => True := by
  unfold handleObserveRmdir
  split
  · exact .throw
  · rename_i root rel' hroute
    exact rmdirChild_keeps hw (routePath_spec hroute).1

/-- Nothing is renamed to the state directory. -/
theorem handleObserveRename_keeps (hname : d.root.stateSubdir = reservedName) (hw : w.Confined d) :
    Keeps (StateHidden d) (handleObserveRename d w old new) fun _ => new ≠ [reservedName] := by
  unfold handleObserveRename
  split
  · exact .throw
  · exact .throw
  · rename_i oldRoot oldRel newRoot newRel holdRoute hnewRoute
    split
    · exact .throw
    · rename_i hsame
      have hsame := not_not.mp hsame
      obtain ⟨hmem, -⟩ := routePath_spec holdRoute
      obtain ⟨-, hown⟩ := routePath_spec hnewRoute
      refine (renameChild_keeps hw hmem).mono fun _ ⟨hne, hstate⟩ => ?_
      rintro rfl
      rcases hown with ⟨rfl, rfl⟩ | ⟨-, hsuffix⟩
      · rw [d.distinct oldRoot hmem hsame, hname] at hstate
        exact hstate rfl
      · exact hne (List.suffix_nil.mp hsuffix)

theorem accessFailure_keeps {e : DispatchError} :
    Keeps (StateHidden d) (accessFailure e) fun mountpoint => ∀ p ∈ mountpoint, Outside d p := by
  unfold accessFailure
  split
  · split
    · exact .pure nofun
    · exact .throw
  · exact .throw

theorem privateChildPath_keeps (hname : d.root.stateSubdir = reservedName) (hw : w.Confined d) :
    Keeps (StateHidden d) (privateChildPath d w rel) fun path => ∀ p ∈ path, Outside d p := by
  unfold privateChildPath
  refine .bind normalizeRel_keeps fun rel' hrel => ?_
  subst hrel
  split
  · exact .pure nofun
  · rename_i hplain
    push Not at hplain
    refine .bind ((handleObserveAccessPrivate_keeps hw).tryCatch fun _ => accessFailure_keeps) ?_
    intro mountpoint hmountpoint
    refine .pure fun p hp => ?_
    obtain ⟨q, hq, rfl⟩ := Option.mem_map.mp hp
    refine outside_append (hmountpoint q hq) fun hin => hplain.2 ?_
    rw [← hname]
    exact List.mem_of_mem_tail hin

/-- **What a path stands for** is outside, unless the path goes into the state directory. -/
theorem sourcePath_keeps (hname : d.root.stateSubdir = reservedName) (hw : w.Confined d) :
    Keeps (StateHidden d) (sourcePath d w rel) fun p =>
      rel.head? ≠ some reservedName → Outside d p := by
  unfold sourcePath
  refine .bind normalizeRel_keeps fun rel' hrel' => ?_
  subst hrel'
  refine .bind (privateChildPath_keeps hname hw) fun path hpath => ?_
  cases path with
  | some p => exact .pure fun _ => hpath p rfl
  | none => exact .pure fun hhead => outside_source (hname ▸ hhead)

theorem head_ne_of_not_mem (h : reservedName ∉ rel) : rel.head? ≠ some reservedName := fun hhead =>
  h (List.mem_of_head? hhead)

theorem entryFor_keeps (hname : d.root.stateSubdir = reservedName) (hw : w.Confined d) :
    Keeps (StateHidden d) (entryFor d w rel) fun entry =>
      entry.path.head? ≠ some reservedName := by
  unfold entryFor
  refine .bind normalizeRel_keeps fun rel' hrel => ?_
  subst hrel
  refine .bind (sourcePath_keeps hname hw) fun path hpath => ?_
  have hshown : rel'.head? ≠ some reservedName →
      Keeps (StateHidden d) (touch (.attributes (w.leadsTo path))) fun _ => True := fun hhead =>
    touchOne_keeps rfl rfl (hw.leadsTo _ (hpath hhead))
  split
  · rename_i hroot
    have hhead : rel'.head? ≠ some reservedName := by rw [hroot]; exact nofun
    exact .bind (hshown hhead) fun _ _ => .pure hhead
  · split
    · exact .throw
    · rename_i hplain
      have hhead := head_ne_of_not_mem hplain
      split
      · exact .bind (hshown hhead) fun _ _ => .pure hhead
      · exact .bind (hshown hhead) fun _ _ => .pure hhead
      · exact .throw

theorem listdir_keeps (hname : d.root.stateSubdir = reservedName) (hw : w.Confined d)
    (hrel : rel.head? ≠ some reservedName) :
    Keeps (StateHidden d) (listdir d w rel) fun _ => True := by
  unfold listdir
  refine .bind (sourcePath_keeps hname hw) fun path hpath => ?_
  split
  · rename_i names _
    refine .bind syscall_keeps fun _ _ => ?_
    refine .bind (touch_keeps ⟨List.forall_mem_singleton.mpr (hw.leadsTo _ (hpath hrel)), ?_⟩)
      fun _ _ => .pure trivial
    intro hin
    have hshown := List.mem_filter.mp (List.mem_mergeSort.mp hin)
    exact of_decide_eq_true hshown.2 hname
  · exact .throw

theorem coreMkdir_keeps (hname : d.root.stateSubdir = reservedName) (hw : w.Confined d) :
    Keeps (StateHidden d) (coreMkdir d w rel) fun entry =>
      entry.path.head? ≠ some reservedName := by
  unfold coreMkdir
  refine .bind normalizeRel_keeps fun rel' hrel => ?_
  subst hrel
  split
  · exact .throw
  · split
    · exact .throw
    · rename_i hplain
      have hhead := head_ne_of_not_mem hplain
      split
      · refine .bind (sourcePath_keeps hname hw) fun path hpath => ?_
        refine .bind syscall_keeps fun _ _ => ?_
        refine .bind (touchOne_keeps rfl rfl (hw.entryOf _ (hpath hhead))) fun _ _ => ?_
        refine .bind syscall_keeps fun _ _ => ?_
        exact .bind (touchOne_keeps rfl rfl (hw.leadsTo _ (hpath hhead))) fun _ _ => .pure hhead
      · refine .bind (handleObserveMkdir_keeps hname hw hplain) fun child hchild => .pure ?_
        exact fun h => hchild (Option.some.inj h)

theorem coreRmdir_keeps (hw : w.Confined d) :
    Keeps (StateHidden d) (coreRmdir d w rel) fun _ => True := by
  unfold coreRmdir
  refine .bind normalizeRel_keeps fun rel' _ => ?_
  split
  · exact .throw
  · exact handleObserveRmdir_keeps hw

theorem coreRename_keeps (hname : d.root.stateSubdir = reservedName) (hw : w.Confined d) :
    Keeps (StateHidden d) (coreRename d w old new) fun _ => new ≠ [reservedName] := by
  unfold coreRename
  refine .bind normalizeRel_keeps fun old' _ => ?_
  refine .bind normalizeRel_keeps fun new' hnew => ?_
  subst hnew
  split
  · exact .throw
  · exact handleObserveRename_keeps hname hw

end Core

/-! ## 5. The FUSE operations -/

section Fuse

variable {d : Dispatcher} {s : FuseState} {rel parent : Path} {p : Path} {env : Nat → HostView}

/-- What holds of every value of a table holds of an updated one, if it holds of the new value. -/
theorem update_forall {P : Path → Prop} {table : Nat → Option Path} {i : Nat} {v : Option Path}
    (h : ∀ j a, table j = some a → P a) (hv : ∀ a ∈ v, P a) :
    ∀ j a, Function.update table i v j = some a → P a := by
  intro j a ha
  by_cases heq : j = i
  · subst heq
    rw [Function.update_self] at ha
    exact hv a ha
  · rw [Function.update_of_ne heq] at ha
    exact h j a ha

theorem StateHidden.addInode (h : StateHidden d s) (hrel : rel.head? ≠ some reservedName) :
    StateHidden d (s.addInode rel) := by
  unfold FuseState.addInode
  split
  · exact h
  · exact ⟨h.touched, update_forall h.table (by rintro _ ⟨⟩; exact hrel), h.handles⟩

theorem StateHidden.dropInode (h : StateHidden d s) : StateHidden d (s.dropInode rel) := by
  unfold FuseState.dropInode
  split
  · exact h
  · exact ⟨h.touched, update_forall h.table nofun, h.handles⟩

theorem StateHidden.moveInode (h : StateHidden d s) {new : Path}
    (hnew : new.head? ≠ some reservedName) : StateHidden d (s.moveInode rel new) := by
  unfold FuseState.moveInode
  split
  · exact h
  · exact ⟨h.touched, update_forall h.table (by rintro _ ⟨⟩; exact hnew), h.handles⟩

theorem StateHidden.addHandle (h : StateHidden d s) (hp : Outside d p) :
    StateHidden d (s.addHandle p) :=
  ⟨h.touched, h.table, update_forall h.handles (by rintro _ ⟨⟩; exact hp)⟩

theorem StateHidden.closeHandle (h : StateHidden d s) {fh : Nat} :
    StateHidden d (s.closeHandle fh) :=
  ⟨h.touched, h.table, update_forall h.handles nofun⟩

theorem relForInode_keeps {inode : Nat} :
    Keeps (StateHidden d) (relForInode inode) fun rel => rel.head? ≠ some reservedName := by
  unfold relForInode
  refine .bind .state fun s hs => ?_
  split
  · rename_i rel hrel
    exact .pure (hs.table inode rel hrel)
  · exact .throw

theorem attrs_keeps {entry : DispatchEntry} (h : entry.path.head? ≠ some reservedName) :
    Keeps (StateHidden d) (attrs entry) fun _ => True := by
  unfold attrs
  exact .bind (.update fun s hs => hs.addInode h) fun _ _ => .bind .state fun _ _ => .pure trivial

theorem validateName_keeps {name : String} :
    Keeps (StateHidden d) (validateName name) fun _ => True := by
  unfold validateName
  split
  · exact .throw
  · exact .pure trivial

theorem childRel_keeps {name : String} :
    Keeps (StateHidden d) (childRel parent name) fun _ => True := by
  unfold childRel
  exact .bind validateName_keeps fun _ _ => .pure trivial

/-- A path below a parent that is not in the state directory is not in it, unless it is its root. -/
theorem head_append_ne {name : String} (hparent : parent.head? ≠ some reservedName)
    (hroot : parent ++ [name] ≠ [reservedName]) :
    (parent ++ [name]).head? ≠ some reservedName := by
  cases parent with
  | nil => exact fun h => hroot (by rw [List.nil_append, Option.some.inj h])
  | cons first rest => exact hparent

theorem skipMissing_keeps {e : DispatchError} :
    Keeps (StateHidden d) (skipMissing e) fun _ => True := by
  unfold skipMissing
  split
  · exact .pure trivial
  · exact .throw

theorem readdirReplies_keeps (hname : d.root.stateSubdir = reservedName)
    (henv : ∀ k, (env k).Confined d) {idx room : Nat} {names : List String} :
    Keeps (StateHidden d) (readdirReplies d env rel idx room names) fun _ => True := by
  induction names generalizing idx room with
  | nil => exact .pure trivial
  | cons name rest ih =>
    unfold readdirReplies
    have hlisted : Keeps (StateHidden d) (listedAttrs d (env idx) (listedRel rel name))
        fun _ => True := by
      refine .bind (entryFor_keeps hname (henv idx)) fun entry hentry => ?_
      exact .bind (attrs_keeps hentry) fun _ _ => .pure trivial
    refine .bind (hlisted.tryCatch fun _ => skipMissing_keeps) fun found _ => ?_
    split
    · exact ih
    · exact .pure trivial
    · exact .bind ih fun _ _ => .pure trivial

theorem createAt_keeps (hname : d.root.stateSubdir = reservedName)
    (henv : ∀ k, (env k).Confined d) :
    Keeps (StateHidden d) (createAt d env rel) fun opened =>
      Outside d opened.1 ∧ opened.2.path.head? ≠ some reservedName := by
  unfold createAt
  split
  · exact .throw
  · rename_i hplain
    have hhead := head_ne_of_not_mem hplain
    refine .bind (sourcePath_keeps hname (henv 0)) fun path hpath => ?_
    have hout := (henv 0).leadsTo _ (hpath hhead)
    refine .bind syscall_keeps fun _ _ => .bind (touchOne_keeps rfl rfl hout) fun _ _ => ?_
    refine .bind (sourcePath_keeps hname (henv 1)) fun path' hpath' => ?_
    have hout' := (henv 1).leadsTo _ (hpath' hhead)
    refine .bind syscall_keeps fun _ _ => .bind (touchOne_keeps rfl rfl hout') fun _ _ => ?_
    exact .bind (entryFor_keeps hname (henv 2)) fun entry hentry => .pure ⟨hout, hentry⟩

theorem unlinkAt_keeps {w : HostView} (hname : d.root.stateSubdir = reservedName)
    (hw : w.Confined d) : Keeps (StateHidden d) (unlinkAt d w rel) fun _ => True := by
  unfold unlinkAt
  split
  · exact .throw
  · rename_i hplain
    refine .bind (sourcePath_keeps hname hw) fun path hpath => ?_
    have hout := hw.entryOf _ (hpath (head_ne_of_not_mem hplain))
    exact .bind syscall_keeps fun _ _ => touchOne_keeps rfl rfl hout

theorem useHandle_keeps {fh : Nat} : Keeps (StateHidden d) (useHandle fh) fun _ => True := by
  unfold useHandle
  refine .bind .state fun s hs => ?_
  split
  · exact .throw
  · rename_i place hplace
    exact .bind (touchOne_keeps rfl rfl (hs.handles fh place hplace)) fun _ _ => .pure trivial

/-- **One operation** keeps the invariant. -/
theorem fuseStep_keeps (hname : d.root.stateSubdir = reservedName)
    (henv : ∀ k, (env k).Confined d) (op : FuseOp) :
    Keeps (StateHidden d) (fuseStep d env op) fun _ => True := by
  cases op with
  | getattr inode =>
    refine .bind relForInode_keeps fun rel _ => ?_
    refine .bind (entryFor_keeps hname (henv 0)) fun entry hentry => ?_
    exact .bind (attrs_keeps hentry) fun _ _ => .pure trivial
  | lookup parent name =>
    refine .bind relForInode_keeps fun parent _ => ?_
    refine .bind (.raising (.bind childRel_keeps fun rel _ => entryFor_keeps hname (henv 0))) ?_
    exact fun entry hentry => .bind (attrs_keeps hentry) fun _ _ => .pure trivial
  | readdir inode off room =>
    refine .bind relForInode_keeps fun rel hrel => ?_
    refine .bind (listdir_keeps hname (henv 0) hrel) fun names _ => ?_
    exact .bind (readdirReplies_keeps hname henv) fun _ _ => .pure trivial
  | openFile inode =>
    refine .bind relForInode_keeps fun rel hrel => ?_
    refine .bind (.raising (entryFor_keeps hname (henv 0))) fun entry _ => ?_
    split
    · exact .throw
    · refine .bind (Q := Outside d) (.raising ?_) fun place hplace => ?_
      · refine .bind (sourcePath_keeps hname (henv 1)) fun path hpath => ?_
        have hout := (henv 1).leadsTo _ (hpath hrel)
        refine .bind syscall_keeps fun _ _ => ?_
        exact .bind (touchOne_keeps rfl rfl hout) fun _ _ => .pure hout
      · refine .bind .state fun _ _ => ?_
        exact .bind (.update fun s hs => hs.addHandle hplace) fun _ _ => .pure trivial
  | create parent name =>
    refine .bind relForInode_keeps fun parent _ => ?_
    refine .bind (.raising (.bind childRel_keeps fun rel _ => createAt_keeps hname henv)) ?_
    intro opened hopened
    refine .bind .state fun _ _ => ?_
    refine .bind (.update fun s hs => hs.addHandle hopened.1) fun _ _ => ?_
    exact .bind (attrs_keeps hopened.2) fun _ _ => .pure trivial
  | readFile fh => exact useHandle_keeps
  | writeFile fh => exact useHandle_keeps
  | release fh =>
    exact .bind (.update fun s hs => hs.closeHandle) fun _ _ => .pure trivial
  | unlink parent name =>
    refine .bind relForInode_keeps fun parent _ => .raising (.bind childRel_keeps fun rel _ => ?_)
    refine .bind (unlinkAt_keeps hname (henv 0)) fun _ _ => ?_
    exact .bind (.update fun s hs => hs.dropInode) fun _ _ => .pure trivial
  | mkdir parent name =>
    refine .bind relForInode_keeps fun parent _ => ?_
    refine .bind (.raising (.bind childRel_keeps fun rel _ => coreMkdir_keeps hname (henv 0))) ?_
    exact fun entry hentry => .bind (attrs_keeps hentry) fun _ _ => .pure trivial
  | rmdir parent name =>
    refine .bind relForInode_keeps fun parent _ => ?_
    refine .raising (.bind childRel_keeps fun rel _ => ?_)
    refine .bind (coreRmdir_keeps (henv 0)) fun _ _ => ?_
    exact .bind (.update fun s hs => hs.dropInode) fun _ _ => .pure trivial
  | rename parentOld nameOld parentNew nameNew flags =>
    change Keeps (StateHidden d) (if flags ≠ 0 then _ else _) _
    split
    · exact .throw
    · refine .bind relForInode_keeps fun parentOld _ => ?_
      refine .bind relForInode_keeps fun parentNew hparent => .raising ?_
      refine .bind validateName_keeps fun oldName _ => .bind validateName_keeps fun newName _ => ?_
      refine .bind (coreRename_keeps hname (henv 0)) fun _ hroot => ?_
      have hhead := head_append_ne hparent hroot
      exact .bind (.update fun s hs => hs.moveInode hhead) fun _ _ => .pure trivial

end Fuse

/-! ## 6. Runs -/

section Runs

variable (d : Dispatcher)

theorem start_hidden : StateHidden d .start := by
  refine ⟨fun t ht => (by cases ht), fun inode rel hrel => ?_, fun fh p hp => (by cases hp)⟩
  change (if inode = rootInode then some [] else none) = some rel at hrel
  split at hrel
  · obtain rfl := Option.some.inj hrel
    exact nofun
  · cases hrel

/-- The files of a root with nothing in it but the state directory. -/
def emptyRootView : HostView where
  node := fun p => if p = d.root.sourceRoot then some (.dir [d.root.stateSubdir]) else none
  leadsTo := id
  entryOf := id
  manifest := fun _ _ => none
  mountRw := fun _ _ => .ok none
  fails := fun _ _ => none

/-- What `readdir` of the root has listed there. -/
theorem readdir_emptyRoot (h : d.root.stateSubdir ≠ reservedName) :
    Touch.listed d.root.sourceRoot [d.root.stateSubdir] ∈
      (fuseNext d .start ⟨.readdir rootInode 3 0, fun _ => emptyRootView d⟩).touched := by
  have hpath : exec (sourcePath d (emptyRootView d) []) .start =
      (.ok d.root.sourceRoot, .start) := by
    simp [sourcePath, normalizeRel, privateChildPath]
  have hnames : sortedNames ([d.root.stateSubdir].filter (· ≠ reservedName)) =
      [d.root.stateSubdir] := by
    have hfilter : [d.root.stateSubdir].filter (· ≠ reservedName) = [d.root.stateSubdir] :=
      List.filter_cons_of_pos (decide_eq_true h)
    rw [hfilter]
    exact List.mergeSort_singleton _
  have hroot_dir : (emptyRootView d).node d.root.sourceRoot = some (.dir [d.root.stateSubdir]) :=
    if_pos rfl
  have hlist : exec (listdir d (emptyRootView d) []) .start =
      (.ok [d.root.stateSubdir],
        FuseState.start.log (.listed d.root.sourceRoot [d.root.stateSubdir])) := by
    unfold listdir
    simp only [exec_bind, hpath, hroot_dir, hnames]
    rfl
  have hroot : exec (relForInode rootInode) .start = (.ok [], .start) := rfl
  unfold fuseNext fuseStep
  simp only [exec_bind, hroot, hlist]
  exact List.mem_cons_self

/-- **The state directory is invisible** in every run in which nothing leads into it, exactly for a
    root whose `state_subdir` is the name the core reserves. -/
theorem stateDir_invisible_iff :
    (∀ tr s, FuseRuns d .start tr s → (∀ x ∈ tr, x.ev.Confined d) → Invisible d s) ↔
      d.root.stateSubdir = reservedName := by
  constructor
  · intro hall
    by_contra hne
    have hrun := @Lib.Run.step _ _ (fun s c s' => fuseNext d s c = s') .start _ _ _
      ⟨.readdir rootInode 3 0, fun _ => emptyRootView d⟩ .start rfl
    have hinvisible := hall _ _ hrun fun x hx => by
      obtain rfl := List.mem_singleton.mp hx
      exact fun _ => ⟨fun _ hp => hp, fun _ hp => hp, fun _ _ _ hmount => (by cases hmount)⟩
    exact (hinvisible _ (readdir_emptyRoot d hne)).2 List.mem_cons_self
  · intro hname tr s hrun hok
    have hkeeps := hrun.invariant (I := StateHidden d) (G := fun _ c => c.Confined d)
      (start_hidden d) (fun s c s' hs hc hstep => hstep ▸ (fuseStep_keeps hname hc c.op s hs).1) hok
    exact hkeeps.1.touched

end Runs

/-! ### A root with another name -/

/-- A root whose state directory is `state`. -/
def namedRoot : ObservationStorage := ⟨["data"], ["source"], "state"⟩

def namedState : Dispatcher where
  roots := [namedRoot]
  root := namedRoot
  served := List.mem_cons_self
  distinct := fun _ hr _ => List.mem_singleton.mp hr
  apart := fun _ hr hne => absurd (List.mem_singleton.mp hr) hne

/-- Its files. -/
def namedView : HostView where
  node := fun p =>
    if p = ["source"] then some (.dir ["alpha", "state"])
    else if p = ["source", "state"] then some (.dir ["packs", "registry"])
    else if p = ["source", "state", "registry"] then some (.dir ["alpha.toml"])
    else if p = ["source", "state", "registry", "alpha.toml"] then some (.file 300)
    else none
  leadsTo := id
  entryOf := id
  manifest := fun _ _ => none
  mountRw := fun _ _ => .ok none
  fails := fun _ _ => none

theorem namedView_confined : namedView.Confined namedState :=
  ⟨fun _ hp => hp, fun _ hp => hp, fun _ _ _ hmount => (by cases hmount)⟩

def namedCall (op : FuseOp) : FuseCall := ⟨op, fun _ => namedView⟩

/-- Look up `state` and `registry` in it, then unlink a manifest there. -/
def namedCalls : List FuseCall :=
  [namedCall (.lookup rootInode "state"), namedCall (.lookup 2 "registry"),
    namedCall (.unlink 3 "alpha.toml")]

/-- **A manifest is removed** through the dispatcher of a root whose `state_subdir` is `state`, where
    nothing leads into the state directory. -/
theorem namedState_visible :
    AcceptedSubdir namedState.root.stateSubdir ∧
      ∃ tr s, FuseRuns namedState .start tr s ∧ (∀ x ∈ tr, x.ev.Confined namedState) ∧
        .removed ["source", "state", "registry", "alpha.toml"] ∈ s.touched ∧
        ¬ Invisible namedState s := by
  refine ⟨by decide +kernel, _, namedCalls.foldl (fuseNext namedState) .start,
    .step (e := namedCall _) (.step (e := namedCall _) (.step (e := namedCall _) .start rfl) rfl) rfl,
    fun x hx => ?_, by decide +kernel, by decide +kernel⟩
  simp only [List.nil_append, List.cons_append, List.mem_cons, List.not_mem_nil, or_false] at hx
  rcases hx with rfl | rfl | rfl <;> exact fun _ => namedView_confined

end CccStorage.Observe
