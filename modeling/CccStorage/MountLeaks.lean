/-
  File:      CccStorage/MountLeaks.lean
  Subject:   What the mount composers leave behind: nothing when they raise, and when they return, a
             handle that takes everything down again.

  * `order`, `roots` -- the mountpoints that a handle reaches, in the order in which `unmount`
    detaches them, and its scratch directories;
  * `unmount_detaches`, `unmount_live`, `unmount_again` -- what `unmount` does, once and twice;
  * `Standing` -- what a `try` block has mounted; `cleanup_undone`, `mountOverlay_answer`;
  * `compose_leaksNothing` -- for all five composers, wherever they fail.

  A bind mount whose read-only remount cannot be started is left aside: `mount_bind_ro` has no
  `except` clause.
-/
import CccStorage.LayerMounts

namespace CccStorage.Composers

open Observe

/-! ## 1. Handles -/

mutual

/-- The mountpoints of a handle and its lower ones, in the order of `unmount`. -/
def MountHandle.order : MountHandle → List String
  | .mk dir _ _ _ lowers _ => dir.path :: orderReversed lowers

def orderReversed : List MountHandle → List String
  | [] => []
  | handle :: handles => orderReversed handles ++ handle.order

end

mutual

/-- The scratch directories of a handle and its lower ones. -/
def MountHandle.roots : MountHandle → List String
  | .mk _ _ _ _ lowers stackRoot => stackRoot.toList ++ rootsOf lowers

def rootsOf : List MountHandle → List String
  | [] => []
  | handle :: handles => handle.roots ++ rootsOf handles

end

mutual

/-- All flags `mounted` of a handle and its lower ones. -/
def MountHandle.AllAre (b : Bool) : MountHandle → Prop
  | .mk _ _ _ mounted lowers _ => mounted = b ∧ AllOf b lowers

def AllOf (b : Bool) : List MountHandle → Prop
  | [] => True
  | handle :: handles => AllOf b handles ∧ handle.AllAre b

end

/-- What is left of the scratch directories when these are removed. -/
def without (roots : List String) (scratch : List String) : List String :=
  scratch.filter fun d => !roots.any fun root => covers root d

theorem without_append (a b scratch : List String) :
    without (a ++ b) scratch = without a (without b scratch) := by
  unfold without
  rw [List.filter_filter]
  refine List.filter_congr fun d _ => ?_
  rw [List.any_append, Bool.not_or]

theorem without_again (roots scratch : List String) :
    without roots (without roots scratch) = without roots scratch := by
  unfold without
  rw [List.filter_filter]
  refine List.filter_congr fun d _ => ?_
  rw [Bool.and_self]

theorem mem_without {roots scratch : List String} {d : String} (h : d ∈ without roots scratch) :
    d ∈ scratch ∧ d ∉ roots := by
  unfold without at h
  rw [List.mem_filter, Bool.not_eq_true', List.any_eq_false] at h
  refine ⟨h.1, fun hd => h.2 d hd ?_⟩
  unfold covers
  rw [decide_eq_true rfl, Bool.true_or]

theorem rmtree_scratch (s : Machine) (root : String) :
    (s.rmtree root).scratch = without [root] s.scratch := by
  unfold Machine.rmtree without
  dsimp only
  refine List.filter_congr fun d _ => ?_
  rw [List.any_cons, List.any_nil, Bool.or_false]

/-- What is done to the scratch directory of a handle. -/
def removeRoot (stackRoot : Option String) (s : Machine) : Machine :=
  match stackRoot with
  | none => s
  | some root => s.rmtree root

theorem unmount_mk (dir : Directory) (command : List String) (options : Option OverlayOptions)
    (mounted : Bool) (lowers : List MountHandle) (stackRoot : Option String) (s : Machine) :
    (MountHandle.mk dir command options mounted lowers stackRoot).unmount s =
      (.mk dir command options false
          (unmountReversed lowers (if mounted then s.detach dir.path else s)).1 stackRoot,
        removeRoot stackRoot
          (unmountReversed lowers (if mounted then s.detach dir.path else s)).2) := by
  rw [MountHandle.unmount.eq_def]
  rfl

mutual

/-- **`unmount`** detaches every mount once, the top one before the lower ones, and removes the
    scratch directories. -/
theorem unmount_detaches : ∀ (handle : MountHandle) (s : Machine), handle.AllAre true →
    (handle.unmount s).2.detached = s.detached ++ handle.order ∧
    (handle.unmount s).2.scratch = without handle.roots s.scratch ∧
    (handle.unmount s).1.AllAre false ∧ (handle.unmount s).1.roots = handle.roots
  | .mk dir command options mounted lowers stackRoot, s, hall => by
    obtain ⟨rfl, hlowers⟩ := hall
    obtain ⟨hdetached, hscratch, hnone, hroots⟩ :=
      unmountReversed_detaches lowers (s.detach dir.path) hlowers
    have hlog : s.detached ++ [dir.path] ++ orderReversed lowers =
        s.detached ++ (dir.path :: orderReversed lowers) := List.append_cons .. |>.symm
    rw [unmount_mk, if_pos rfl, MountHandle.order, MountHandle.roots, MountHandle.AllAre,
      MountHandle.roots, hroots]
    cases stackRoot with
    | none => exact ⟨hdetached.trans hlog, hscratch, ⟨rfl, hnone⟩, rfl⟩
    | some root =>
      refine ⟨hdetached.trans hlog, ?_, ⟨rfl, hnone⟩, rfl⟩
      unfold removeRoot
      dsimp only
      rw [rmtree_scratch, hscratch, ← without_append]
      rfl

theorem unmountReversed_detaches : ∀ (handles : List MountHandle) (s : Machine),
    AllOf true handles →
    (unmountReversed handles s).2.detached = s.detached ++ orderReversed handles ∧
    (unmountReversed handles s).2.scratch = without (rootsOf handles) s.scratch ∧
    AllOf false (unmountReversed handles s).1 ∧
    rootsOf (unmountReversed handles s).1 = rootsOf handles
  | [], s, _ => by
    refine ⟨(List.append_nil _).symm, ?_, trivial, rfl⟩
    unfold without
    exact (List.filter_eq_self.mpr fun _ _ => rfl).symm
  | handle :: handles, s, hall => by
    obtain ⟨hlater, hhandle⟩ := hall
    obtain ⟨hdetached, hscratch, hnone, hroots⟩ := unmountReversed_detaches handles s hlater
    obtain ⟨hdetached', hscratch', hnone', hroots'⟩ :=
      unmount_detaches handle (unmountReversed handles s).2 hhandle
    rw [unmountReversed, orderReversed, rootsOf]
    refine ⟨?_, ?_, ⟨hnone, hnone'⟩, ?_⟩
    · rw [hdetached', hdetached, List.append_assoc]
    · rw [hscratch', hscratch, ← without_append]
    · rw [rootsOf, hroots, hroots']

end

mutual

/-- Mounts that are the latest ones are gone, and no other. -/
theorem unmount_live : ∀ (handle : MountHandle) (s : Machine) (rest : List String),
    handle.AllAre true → s.live = handle.order ++ rest → (handle.unmount s).2.live = rest
  | .mk dir command options mounted lowers stackRoot, s, rest, hall, hlive => by
    obtain ⟨rfl, hlowers⟩ := hall
    rw [MountHandle.order, List.cons_append] at hlive
    have hdetach : (s.detach dir.path).live = orderReversed lowers ++ rest := by
      show s.live.erase dir.path = orderReversed lowers ++ rest
      rw [hlive, List.erase_cons_head]
    have hrest := unmountReversed_live lowers (s.detach dir.path) rest hlowers hdetach
    rw [unmount_mk, if_pos rfl]
    cases stackRoot with
    | none => exact hrest
    | some root => exact hrest

theorem unmountReversed_live : ∀ (handles : List MountHandle) (s : Machine) (rest : List String),
    AllOf true handles → s.live = orderReversed handles ++ rest →
    (unmountReversed handles s).2.live = rest
  | [], _, _, _, hlive => hlive
  | handle :: handles, s, rest, hall, hlive => by
    rw [orderReversed, List.append_assoc] at hlive
    have hlater := unmountReversed_live handles s (handle.order ++ rest) hall.1 hlive
    rw [unmountReversed]
    exact unmount_live handle (unmountReversed handles s).2 rest hall.2 hlater

end

mutual

/-- A handle that is not mounted only removes what is left of its scratch directories. -/
theorem unmount_unmounted : ∀ (handle : MountHandle) (s : Machine), handle.AllAre false →
    (handle.unmount s).2 = { s with scratch := without handle.roots s.scratch }
  | .mk dir command options mounted lowers stackRoot, s, hall => by
    obtain ⟨rfl, hlowers⟩ := hall
    have hrest := unmountReversed_unmounted lowers s hlowers
    rw [unmount_mk, if_neg Bool.false_ne_true, hrest, MountHandle.roots]
    cases stackRoot with
    | none => rfl
    | some root =>
      unfold removeRoot Machine.rmtree
      dsimp only [Option.toList]
      rw [without_append]
      congr 1
      exact rmtree_scratch { s with scratch := without (rootsOf lowers) s.scratch } root

theorem unmountReversed_unmounted : ∀ (handles : List MountHandle) (s : Machine),
    AllOf false handles →
    (unmountReversed handles s).2 = { s with scratch := without (rootsOf handles) s.scratch }
  | [], s, _ => by
    have hsame : without [] s.scratch = s.scratch := List.filter_eq_self.mpr fun _ _ => rfl
    rw [rootsOf, hsame]
    rfl
  | handle :: handles, s, hall => by
    rw [unmountReversed, rootsOf, without_append,
      unmount_unmounted handle (unmountReversed handles s).2 hall.2,
      unmountReversed_unmounted handles s hall.1]

end

/-- **`unmount` is idempotent.** -/
theorem unmount_again (handle : MountHandle) (s : Machine) (hall : handle.AllAre true) :
    ((handle.unmount s).1.unmount (handle.unmount s).2).2 = (handle.unmount s).2 := by
  obtain ⟨-, hscratch, hnone, hroots⟩ := unmount_detaches handle s hall
  rw [unmount_unmounted _ _ hnone, hroots, hscratch, without_again, ← hscratch]

/-! ## 2. The try blocks -/

section Answers

variable {h : Host} {s s₀ t : Machine} {packs : List PackInfo} {mnt root pack : String}
  {preferKernel : Bool} {handle : MountHandle} {handles : List MountHandle} {what : MountCommand}
  {argv : String → List String} {options : List MountHandle → OverlayOptions} {x : Lowers}
  {cmd extra : List String} {given : Option String} {e : ComposeError}

/-- **Nothing is left**: the live mounts are the ones before, and no scratch directory is new. -/
structure Undone (s₀ t : Machine) : Prop where
  live : t.live = s₀.live
  scratch : ∀ d ∈ t.scratch, d ∈ s₀.scratch

/-- What a handle stands for: its mounts are the latest ones, and what is new in the scratch
    directories is its own. -/
structure Built (s₀ t : Machine) (handle : MountHandle) : Prop where
  mounted : handle.AllAre true
  live : t.live = handle.order ++ s₀.live
  scratch : ∀ d ∈ t.scratch, d ∈ s₀.scratch ∨ d ∈ handle.roots

/-- What a composer answers. -/
structure Answer (s₀ : Machine) (x : Composed) : Prop where
  raises : ∀ e, x.2 = .error e → Undone s₀ x.1
  returns : ∀ handle, x.2 = .ok handle → Built s₀ x.1 handle

/-- **What a `try` block has mounted**: the mounts of its handles, in their order; new scratch
    directories are theirs, or the block's own. -/
structure Standing (s₀ : Machine) (extra : List String) (handles : List MountHandle) (s : Machine) :
    Prop where
  mounted : AllOf true handles
  live : s.live = orderReversed handles ++ s₀.live
  scratch : ∀ d ∈ s.scratch, d ∈ s₀.scratch ∨ d ∈ extra ∨ d ∈ rootsOf handles

theorem Undone.refl (s : Machine) : Undone s s := ⟨rfl, fun _ hd => hd⟩

theorem Answer.error {s₀ t : Machine} (hundone : Undone s₀ t) (e : ComposeError) :
    Answer s₀ (t, .error e) :=
  ⟨fun _ _ => hundone, fun _ hok => by cases hok⟩

theorem Answer.ok (hbuilt : Built s₀ t handle) : Answer s₀ (t, .ok handle) :=
  ⟨fun _ herror => (by cases herror), fun _ hok => Except.ok.inj hok ▸ hbuilt⟩

theorem orderReversed_concat (handles : List MountHandle) (handle : MountHandle) :
    orderReversed (handles ++ [handle]) = handle.order ++ orderReversed handles := by
  induction handles with
  | nil => simp only [List.nil_append, orderReversed, List.append_nil]
  | cons first handles ih =>
    rw [List.cons_append, orderReversed, ih, orderReversed, List.append_assoc]

theorem mem_rootsOf_concat {d : String} (handles : List MountHandle) (handle : MountHandle) :
    d ∈ rootsOf (handles ++ [handle]) ↔ d ∈ rootsOf handles ∨ d ∈ handle.roots := by
  induction handles with
  | nil => simp only [List.nil_append, rootsOf, List.append_nil, List.not_mem_nil, false_or]
  | cons first handles ih =>
    rw [List.cons_append, rootsOf, rootsOf, List.mem_append, List.mem_append, ih]
    tauto

theorem allOf_concat {b : Bool} (handles : List MountHandle) (handle : MountHandle) :
    AllOf b (handles ++ [handle]) ↔ AllOf b handles ∧ handle.AllAre b := by
  induction handles with
  | nil => simp only [List.nil_append, AllOf, true_and]
  | cons first handles ih =>
    rw [List.cons_append, AllOf, AllOf, ih]
    tauto

/-- One more mount. -/
theorem Standing.concat (hs : Standing s₀ extra handles s) (hbuilt : Built s t handle) :
    Standing s₀ extra (handles ++ [handle]) t where
  mounted := (allOf_concat handles handle).mpr ⟨hs.mounted, hbuilt.mounted⟩
  live := by rw [hbuilt.live, hs.live, orderReversed_concat, List.append_assoc]
  scratch := by
    intro d hd
    rw [mem_rootsOf_concat]
    rcases hbuilt.scratch d hd with hold | hnew
    · rcases hs.scratch d hold with h | h | h
      · exact .inl h
      · exact .inr (.inl h)
      · exact .inr (.inr (.inl h))
    · exact .inr (.inr (.inr hnew))

/-- A step that fails leaves what stands. -/
theorem Standing.undone (hs : Standing s₀ extra handles s) (hundone : Undone s t) :
    Standing s₀ extra handles t :=
  ⟨hs.mounted, hundone.live.trans hs.live, fun d hd => hs.scratch d (hundone.scratch d hd)⟩

/-- The block's scratch directory is made. -/
theorem Standing.start (s : Machine) (root : String) :
    Standing s [root] [] (s.makeScratch root) where
  mounted := trivial
  live := rfl
  scratch := by
    intro d hd
    rcases List.mem_cons.mp hd with rfl | hd
    · exact .inr (.inl (List.mem_singleton_self d))
    · exact .inl (List.mem_of_mem_filter hd)

/-- **The `except` clause** takes down what stands, and removes the scratch directory. -/
theorem Standing.cleanup_undone (hs : Standing s₀ [root] handles s) :
    Undone s₀ (cleanup handles root s) := by
  obtain ⟨-, hscratch, -, -⟩ := unmountReversed_detaches handles s hs.mounted
  refine ⟨unmountReversed_live handles s s₀.live hs.mounted hs.live, fun d hd => ?_⟩
  unfold cleanup at hd
  rw [rmtree_scratch, hscratch] at hd
  obtain ⟨hd, hroot⟩ := mem_without hd
  obtain ⟨hd, hroots⟩ := mem_without hd
  rcases hs.scratch d hd with hold | hnew | hnew
  · exact hold
  · exact absurd hnew hroot
  · exact absurd hnew hroots

theorem runCommand_keeps (h : Host) (what : MountCommand) (s : Machine) :
    Undone s (runCommand h what s).1 := by
  unfold runCommand
  cases h.result s.commands with
  | raised => exact ⟨rfl, fun _ hd => hd⟩
  | returned code output =>
    dsimp only
    split
    · exact ⟨rfl, fun _ hd => hd⟩
    · exact ⟨rfl, fun _ hd => hd⟩

theorem mountPack_answer (h : Host) (pack mnt : String) (cmd : List String) (s : Machine) :
    Answer s (mountPack h pack mnt cmd s) := by
  have hkeeps := runCommand_keeps h .pack s
  unfold mountPack
  cases hrun : runCommand h .pack s with
  | mk t answer =>
    rw [hrun] at hkeeps
    cases answer with
    | error e => exact .error hkeeps e
    | ok _ =>
      refine .ok ⟨⟨rfl, trivial⟩, ?_, fun d hd => .inl (hkeeps.scratch d hd)⟩
      show mnt :: t.live = [mnt] ++ s.live
      rw [hkeeps.live]
      rfl

theorem mountRo_answer (h : Host) (preferKernel : Bool) (pack mnt : String) (s : Machine) :
    Answer s (mountRo h preferKernel pack mnt s) := by
  unfold mountRo
  split
  · exact mountPack_answer ..
  · cases h.which s.commands .squashfuse with
    | none => exact .error (.refl s) _
    | some squashfuse => exact mountPack_answer ..

/-- **The loop over the packs** keeps what stands, whether it ends or raises. -/
theorem mountEach_standing (h : Host) (preferKernel : Bool) (root : String) (idx : Nat)
    (packs : List PackInfo) (hs : Standing s₀ extra handles s) :
    Standing s₀ extra (mountEach h preferKernel root idx packs handles s).handles
      (mountEach h preferKernel root idx packs handles s).machine := by
  induction packs generalizing idx handles s with
  | nil => exact hs
  | cons pack packs ih =>
    have hanswer := mountRo_answer h preferKernel pack.path (lowerMnt root idx) s
    unfold mountEach
    cases hmount : mountRo h preferKernel pack.path (lowerMnt root idx) s with
    | mk t answer =>
      rw [hmount] at hanswer
      cases answer with
      | error e => exact hs.undone (hanswer.raises e rfl)
      | ok handle => exact ih _ (hs.concat (hanswer.returns handle rfl))

/-- **The overlay** over what stands, and the `except` clause where it fails. -/
theorem mountOverlay_answer (h : Host) (what : MountCommand) (argv : String → List String)
    (mnt : String) (options : List MountHandle → OverlayOptions)
    (hs : Standing s₀ [root] x.handles x.machine) :
    Answer s₀ (mountOverlay h what argv mnt root options x) := by
  unfold mountOverlay
  cases x.error with
  | some e => exact .error hs.cleanup_undone e
  | none =>
    have hkeeps := runCommand_keeps h what x.machine
    dsimp only
    cases hrun : runCommand h what x.machine with
    | mk t answer =>
      rw [hrun] at hkeeps
      have ht : Standing s₀ [root] x.handles t := hs.undone hkeeps
      cases answer with
      | error e => exact .error ht.cleanup_undone e
      | ok _ =>
        refine .ok ⟨⟨rfl, ht.mounted⟩, ?_, fun d hd => ?_⟩
        · show mnt :: t.live = _
          rw [ht.live, MountHandle.order]
          rfl
        · rcases ht.scratch d hd with hold | hnew | hnew
          · exact .inl hold
          · rw [MountHandle.roots]
            exact .inr (List.mem_append_left _ hnew)
          · rw [MountHandle.roots]
            exact .inr (List.mem_append_right _ hnew)

/-! ## 3. The composers -/

/-- Where the packs are mounted, the last one first. -/
def packMountpoints (root : String) (count : Nat) : List String :=
  ((List.range' 0 count).map (lowerMnt root)).reverse

/-- The mountpoints of `mount_stack_ro`, the top one first. -/
def stackMountpoints (mnt : String) : Nat → List String
  | 1 => [mnt]
  | count => mnt :: packMountpoints (stackRoot mnt) count

/-- **The mountpoints of a composer**, the top one first: one for each pack, the mount on top of
    them, and the stack in between where a writable view has several packs. -/
def Composer.mountpoints : Composer → List String
  | .stackRo packs mnt _ => stackMountpoints mnt packs.length
  | .layeredRw packs _ _ mnt given _ =>
    mnt :: if packs = [] then []
      else stackMountpoints (scratchRoot given mnt ".rw-stack" ++ "/lower") packs.length
  | .kernelOverlay packs _ _ mnt given _ =>
    mnt :: packMountpoints (scratchRoot given mnt ".kernel-rw-stack") packs.length
  | .dirsAndPacks _ packs mnt given _ =>
    mnt :: packMountpoints (scratchRoot given mnt ".dir-pack-stack") packs.length
  | .bindRo _ mnt => [mnt]

theorem mountEach_order (h : Host) (preferKernel : Bool) (root : String) (idx : Nat)
    (packs : List PackInfo) (handles : List MountHandle) (s : Machine)
    (hok : (mountEach h preferKernel root idx packs handles s).error = none) :
    orderReversed (mountEach h preferKernel root idx packs handles s).handles =
      ((List.range' idx packs.length).map (lowerMnt root)).reverse ++ orderReversed handles := by
  induction packs generalizing idx handles s with
  | nil => rfl
  | cons pack packs ih =>
    unfold mountEach at hok ⊢
    cases hmount : mountRo h preferKernel pack.path (lowerMnt root idx) s with
    | mk t answer =>
      cases answer with
      | error e =>
        rw [hmount] at hok
        cases hok
      | ok handle =>
        rw [hmount] at hok
        dsimp only at hok ⊢
        obtain ⟨cmd, rfl⟩ := mountRo_ok hmount
        rw [ih _ _ _ hok, orderReversed_concat, List.length_cons, List.range'_succ, List.map_cons,
          List.reverse_cons, List.append_assoc]
        rfl

theorem mountEach_packMountpoints
    (hok : (mountEach h preferKernel root 0 packs [] s).error = none) :
    orderReversed (mountEach h preferKernel root 0 packs [] s).handles =
      packMountpoints root packs.length := by
  rw [mountEach_order h preferKernel root 0 packs [] s hok]
  exact List.append_nil _

theorem mountStackRo_answer (h : Host) (packs : List PackInfo) (mnt : String) (preferKernel : Bool)
    (s : Machine) : Answer s (mountStackRo h packs mnt preferKernel s) := by
  unfold mountStackRo
  match packs with
  | [] => exact .error (.refl s) _
  | [pack] => exact mountRo_answer ..
  | p₁ :: p₂ :: rest =>
    dsimp only
    cases h.which s.commands .fuseOverlayfs with
    | none => exact .error (.refl s) _
    | some fuseOverlayfs =>
      exact mountOverlay_answer _ _ _ _ _
        (mountEach_standing h preferKernel (stackRoot mnt) 0 (p₁ :: p₂ :: rest) (.start s _))

theorem mountStackRo_order (hok : mountStackRo h packs mnt preferKernel s = (t, .ok handle)) :
    handle.order = stackMountpoints mnt packs.length := by
  unfold mountStackRo at hok
  match packs, hok with
  | [], hok => cases congrArg Prod.snd hok
  | [pack], hok =>
    obtain ⟨cmd, rfl⟩ := mountRo_ok hok
    rfl
  | p₁ :: p₂ :: rest, hok =>
    dsimp only at hok
    cases hwhich : h.which s.commands .fuseOverlayfs with
    | none =>
      rw [hwhich] at hok
      cases congrArg Prod.snd hok
    | some fuseOverlayfs =>
      rw [hwhich] at hok
      obtain ⟨hnone, rfl⟩ := mountOverlay_ok hok
      rw [MountHandle.order, mountEach_packMountpoints hnone]
      rfl

theorem mountLayeredRw_answer (h : Host) (packs : List PackInfo) (upper : Directory)
    (overlayRoot mnt : String) (given : Option String) (preferKernel : Bool) (s : Machine) :
    Answer s (mountLayeredRw h packs upper overlayRoot mnt given preferKernel s) := by
  unfold mountLayeredRw
  cases h.which s.commands .fuseOverlayfs with
  | none => exact .error (.refl s) _
  | some fuseOverlayfs =>
    dsimp only
    refine mountOverlay_answer _ _ _ _ _ ?_
    have hstart := Standing.start s (scratchRoot given mnt ".rw-stack")
    by_cases hempty : packs = []
    · rw [if_pos hempty]
      exact hstart
    · rw [if_neg hempty]
      have hanswer := mountStackRo_answer h packs (scratchRoot given mnt ".rw-stack" ++ "/lower")
        preferKernel (s.makeScratch (scratchRoot given mnt ".rw-stack"))
      cases hstack : mountStackRo h packs (scratchRoot given mnt ".rw-stack" ++ "/lower")
          preferKernel (s.makeScratch (scratchRoot given mnt ".rw-stack")) with
      | mk t answer =>
        rw [hstack] at hanswer
        cases answer with
        | error e => exact hstart.undone (hanswer.raises e rfl)
        | ok below => exact hstart.concat (hanswer.returns below rfl)

theorem mountLayeredRw_order {upper : Directory} {overlayRoot : String}
    (hok : mountLayeredRw h packs upper overlayRoot mnt given preferKernel s = (t, .ok handle)) :
    handle.order =
      (Composer.layeredRw packs upper overlayRoot mnt given preferKernel).mountpoints := by
  unfold mountLayeredRw at hok
  cases hwhich : h.which s.commands .fuseOverlayfs with
  | none =>
    rw [hwhich] at hok
    cases congrArg Prod.snd hok
  | some fuseOverlayfs =>
    rw [hwhich] at hok
    dsimp only at hok
    by_cases hempty : packs = []
    · rw [if_pos hempty] at hok
      obtain ⟨-, rfl⟩ := mountOverlay_ok hok
      subst hempty
      rfl
    · rw [if_neg hempty] at hok
      cases hstack : mountStackRo h packs (scratchRoot given mnt ".rw-stack" ++ "/lower")
          preferKernel (s.makeScratch (scratchRoot given mnt ".rw-stack")) with
      | mk u answer =>
        rw [hstack] at hok
        cases answer with
        | error e => cases congrArg Prod.snd hok
        | ok below =>
          obtain ⟨-, rfl⟩ := mountOverlay_ok hok
          show mnt :: orderReversed [below] = mnt :: if packs = [] then [] else _
          rw [if_neg hempty, ← mountStackRo_order hstack]
          rfl

theorem mountLayeredRwKernelOverlay_answer (h : Host) (packs : List PackInfo) (upper : Directory)
    (work mnt : String) (given : Option String) (preferKernel : Bool) (s : Machine) :
    Answer s (mountLayeredRwKernelOverlay h packs upper work mnt given preferKernel s) := by
  unfold mountLayeredRwKernelOverlay
  cases h.which s.commands .mount with
  | none => exact .error (.refl s) _
  | some mountBin =>
    exact mountOverlay_answer _ _ _ _ _
      (mountEach_standing h preferKernel _ 0 packs
        (.start s (scratchRoot given mnt ".kernel-rw-stack")))

theorem mountLayeredRwKernelOverlay_order {upper : Directory} {work : String}
    (hok : mountLayeredRwKernelOverlay h packs upper work mnt given preferKernel s =
      (t, .ok handle)) :
    handle.order =
      (Composer.kernelOverlay packs upper work mnt given preferKernel).mountpoints := by
  unfold mountLayeredRwKernelOverlay at hok
  cases hwhich : h.which s.commands .mount with
  | none =>
    rw [hwhich] at hok
    cases congrArg Prod.snd hok
  | some mountBin =>
    rw [hwhich] at hok
    obtain ⟨hnone, rfl⟩ := mountOverlay_ok hok
    rw [MountHandle.order, mountEach_packMountpoints hnone]
    rfl

theorem mountDirsAndPacksRo_answer (h : Host) (topDirs : List Directory) (packs : List PackInfo)
    (mnt : String) (given : Option String) (preferKernel : Bool) (s : Machine) :
    Answer s (mountDirsAndPacksRo h topDirs packs mnt given preferKernel s) := by
  unfold mountDirsAndPacksRo
  cases h.which s.commands .fuseOverlayfs with
  | none => exact .error (.refl s) _
  | some fuseOverlayfs =>
    have hstanding := mountEach_standing h preferKernel (scratchRoot given mnt ".dir-pack-stack") 0
      packs (.start s (scratchRoot given mnt ".dir-pack-stack"))
    dsimp only
    refine mountOverlay_answer _ _ _ _ _ ?_
    split
    · exact hstanding
    · exact hstanding

theorem mountDirsAndPacksRo_order {topDirs : List Directory}
    (hok : mountDirsAndPacksRo h topDirs packs mnt given preferKernel s = (t, .ok handle)) :
    handle.order = (Composer.dirsAndPacks topDirs packs mnt given preferKernel).mountpoints := by
  unfold mountDirsAndPacksRo at hok
  cases hwhich : h.which s.commands .fuseOverlayfs with
  | none =>
    rw [hwhich] at hok
    cases congrArg Prod.snd hok
  | some fuseOverlayfs =>
    rw [hwhich] at hok
    dsimp only at hok
    by_cases hempty : topDirs = [] ∧ packs = []
    · rw [if_pos hempty] at hok
      cases (mountOverlay_ok hok).1
    · rw [if_neg hempty] at hok
      obtain ⟨hnone, rfl⟩ := mountOverlay_ok hok
      rw [MountHandle.order, mountEach_packMountpoints hnone]
      rfl

/-- The remount of a bind mount can be started. -/
def Composer.RemountStarts (h : Host) (s : Machine) : Composer → Prop
  | .bindRo _ _ => h.result (s.commands + 1) ≠ .raised
  | _ => True

theorem runCommand_machine (h : Host) (what : MountCommand) (s : Machine) :
    (runCommand h what s).1 = { s with commands := s.commands + 1 } := by
  unfold runCommand
  cases h.result s.commands with
  | raised => rfl
  | returned code output =>
    dsimp only
    split
    · rfl
    · rfl

/-- A command that can be started fails with a message. -/
theorem runCommand_error (hrun : runCommand h what s = (t, .error e))
    (hstarts : h.result s.commands ≠ .raised) : ∃ f, e = .failure f := by
  unfold runCommand at hrun
  cases hresult : h.result s.commands with
  | raised => exact absurd hresult hstarts
  | returned code output =>
    rw [hresult] at hrun
    dsimp only at hrun
    split at hrun
    · cases congrArg Prod.snd hrun
    · exact ⟨_, (Except.error.inj (congrArg Prod.snd hrun)).symm⟩

theorem mountBindRo_answer (h : Host) (source : Directory) (mnt : String) (s : Machine)
    (hstarts : h.result (s.commands + 1) ≠ .raised) : Answer s (mountBindRo h source mnt s) := by
  unfold mountBindRo
  cases h.which s.commands .mount with
  | none => exact .error (.refl s) _
  | some mountBin =>
    dsimp only
    split
    · exact .error (.refl s) _
    · have hu := runCommand_machine h .bind s
      cases hbind : runCommand h .bind s with
      | mk u answer =>
        rw [hbind] at hu
        obtain rfl : u = { s with commands := s.commands + 1 } := hu
        cases answer with
        | error e =>
          have hkeeps : Undone s { s with commands := s.commands + 1 } := ⟨rfl, fun _ hd => hd⟩
          exact .error hkeeps e
        | ok _ =>
          have hv := runCommand_machine h .bindRemount
            (Machine.attach { s with commands := s.commands + 1 } mnt)
          dsimp only
          cases hremount : runCommand h .bindRemount
              (Machine.attach { s with commands := s.commands + 1 } mnt) with
          | mk v answer =>
            rw [hremount] at hv
            have hlive : v.live = mnt :: s.live := by rw [show v = _ from hv]; rfl
            have hscratch : v.scratch = s.scratch := by rw [show v = _ from hv]; rfl
            cases answer with
            | ok _ => exact .ok ⟨⟨rfl, trivial⟩, hlive, fun d hd => .inl (hscratch ▸ hd)⟩
            | error e =>
              obtain ⟨f, rfl⟩ := runCommand_error hremount hstarts
              -- the handle of the bind is unmounted
              refine .error ⟨?_, fun d hd => hscratch ▸ hd⟩ _
              exact unmount_live (.mk ⟨mnt, source.tree⟩ [mountBin, "--bind", source.path, mnt] none
                true [] none) v s.live ⟨rfl, trivial⟩ hlive

theorem mountBindRo_ok {source : Directory} (hok : mountBindRo h source mnt s = (t, .ok handle)) :
    ∃ cmd, handle = .mk ⟨mnt, source.tree⟩ cmd none true [] none := by
  unfold mountBindRo at hok
  cases hwhich : h.which s.commands .mount with
  | none =>
    rw [hwhich] at hok
    cases congrArg Prod.snd hok
  | some mountBin =>
    rw [hwhich] at hok
    dsimp only at hok
    split at hok
    · cases congrArg Prod.snd hok
    · cases hbind : runCommand h .bind s with
      | mk u answer =>
        rw [hbind] at hok
        cases answer with
        | error e => cases congrArg Prod.snd hok
        | ok _ =>
          dsimp only at hok
          cases hremount : runCommand h .bindRemount (u.attach mnt) with
          | mk v answer =>
            rw [hremount] at hok
            cases answer with
            | ok _ => exact ⟨_, (Except.ok.inj (congrArg Prod.snd hok)).symm⟩
            | error e => cases e <;> cases congrArg Prod.snd hok

theorem compose_answer (h : Host) (s : Machine) (c : Composer) (hremount : c.RemountStarts h s) :
    Answer s (compose h s c) := by
  cases c with
  | stackRo => exact mountStackRo_answer ..
  | layeredRw => exact mountLayeredRw_answer ..
  | kernelOverlay => exact mountLayeredRwKernelOverlay_answer ..
  | dirsAndPacks => exact mountDirsAndPacksRo_answer ..
  | bindRo => exact mountBindRo_answer _ _ _ _ hremount

theorem compose_order {c : Composer} (hok : compose h s c = (t, .ok handle)) :
    handle.order = c.mountpoints := by
  cases c with
  | stackRo => exact mountStackRo_order hok
  | layeredRw => exact mountLayeredRw_order hok
  | kernelOverlay => exact mountLayeredRwKernelOverlay_order hok
  | dirsAndPacks => exact mountDirsAndPacksRo_order hok
  | bindRo =>
    obtain ⟨cmd, rfl⟩ := mountBindRo_ok hok
    rfl

/-- **A mount attempt leaks nothing**: where it raises, all its mounts are gone and so are its
    scratch directories. Where it returns a handle, the handle reaches one mount for each pack and
    the mount on top of them -- a single pack of `mount_stack_ro` is that mount itself, and a
    writable view has the stack of several packs in between --, all of them mounted; its `unmount`
    detaches them from the top, each once, and a second one does nothing. -/
theorem compose_leaksNothing (h : Host) (s : Machine) (c : Composer)
    (hremount : c.RemountStarts h s) :
    (∀ t e, compose h s c = (t, .error e) → t.live = s.live ∧ ∀ d ∈ t.scratch, d ∈ s.scratch) ∧
    ∀ t handle, compose h s c = (t, .ok handle) →
      handle.AllAre true ∧ handle.order = c.mountpoints ∧ t.live = c.mountpoints ++ s.live ∧
      (handle.unmount t).2.live = s.live ∧ (∀ d ∈ (handle.unmount t).2.scratch, d ∈ s.scratch) ∧
      ∀ u : Machine, (handle.unmount u).2.detached = u.detached ++ c.mountpoints ∧
        ((handle.unmount u).1.unmount (handle.unmount u).2).2 = (handle.unmount u).2 := by
  have hanswer := compose_answer h s c hremount
  refine ⟨fun t e hraises => ?_, fun t handle hok => ?_⟩
  · rw [hraises] at hanswer
    have hundone := hanswer.raises e rfl
    exact ⟨hundone.live, hundone.scratch⟩
  · have horder := compose_order hok
    rw [hok] at hanswer
    obtain ⟨hmounted, hlive, hscratch⟩ := hanswer.returns handle rfl
    refine ⟨hmounted, horder, horder ▸ hlive, unmount_live handle t s.live hmounted hlive, ?_,
      fun u => ⟨horder ▸ (unmount_detaches handle u hmounted).1, unmount_again handle u hmounted⟩⟩
    intro d hd
    rw [(unmount_detaches handle t hmounted).2.1] at hd
    obtain ⟨hd, hnew⟩ := mem_without hd
    exact (hscratch d hd).resolve_right hnew

end Answers

/-- Two packs and an upper. -/
def twoBelow : Composer :=
  .layeredRw [deletesOld, deletesOld] ⟨"/upper", Tree.get ⟨[]⟩⟩ "/overlay" "/mnt" none false

theorem compose_leaksNothing_two : ∃ t handle,
    compose (readyHost oldDeleted) {} twoBelow = (t, .ok handle) ∧
      (handle.unmount t).2.detached = twoBelow.mountpoints := by
  refine ⟨_, _, rfl, ?_⟩
  have hleaks := (compose_leaksNothing (readyHost oldDeleted) {} twoBelow trivial).2 _ _ rfl
  exact (hleaks.2.2.2.2.2 _).1

/-- A read-only stack of a single pack is one mount, not two. -/
theorem singlePack_oneMount :
    ¬ ∀ (h : Host) (s : Machine) (c : Composer) (t : Machine) (handle : MountHandle),
      c.RemountStarts h s → compose h s c = (t, .ok handle) →
        handle.order.length = c.packs.length + 1 := by
  intro hall
  have hlength := hall (readyHost oldDeleted) {} (.stackRo [deletesOld] "/mnt" false) _ _
    trivial rfl
  revert hlength
  decide

end CccStorage.Composers
