/-
  File:      CccStorage/LayerMounts.lean
  Subject:   The mount composers of `pack/reader.py`: packs, directories and an upper mounted as one
             view, on a machine whose tools may be missing and whose commands may fail.

  A directory comes with the tree that is seen in it, so a handle knows what its mount shows. The
  mountpoints and the scratch directories can be made and removed, and the unmount commands succeed.

  * `Directory`, `OverlayOptions`, `MountHandle` -- what is mounted; `OverlayOptions.tree`: the
    first lower directory is topmost, and the upper is above all of them;
  * `Machine`, `MountHandle.unmount` -- the live mounts and the scratch directories;
  * `Host`, `Composer`, `compose` -- the five composers;
  * `lowerDirs_of_mountEach` -- what the loop over the packs mounts;
  * `composers_showSame_iff` -- all of them show the committed view and what is put above it, unless
    a single pack that holds marks is mounted as it is.
-/
import CccStorage.ChildAccess
import CccStorage.PathTexts

namespace CccStorage.Composers

open Observe

/-! ## 1. Directories and handles -/

/-- A directory, and the tree that is seen in it. -/
structure Directory where
  path : String
  tree : Layer

/-- What an overlay command is told: the lower directories, topmost first, and for a writable view
    the upper and the work directory. -/
structure OverlayOptions where
  lowerdirs : List Directory
  upper : Option (Directory × String) := none

namespace OverlayOptions

def text (o : OverlayOptions) : String :=
  let lowerdir := "lowerdir=" ++ Observe.lowerdirs (o.lowerdirs.map (·.path))
  match o.upper with
  | none => lowerdir
  | some (upper, work) => lowerdir ++ ",upperdir=" ++ upper.path ++ ",workdir=" ++ work

/-- **What the overlay shows.** -/
def tree (o : OverlayOptions) : Layer :=
  view ((o.lowerdirs.map (·.tree)).reverse ++ (o.upper.map (·.1.tree)).toList)

end OverlayOptions

/-- `MountHandle`, and with lower handles `StackMountHandle` and `WritableLayerMountHandle`. -/
inductive MountHandle where
  | mk (dir : Directory) (command : List String) (options : Option OverlayOptions) (mounted : Bool)
      (lowers : List MountHandle) (stackRoot : Option String)

namespace MountHandle

/-- The mountpoint. -/
def dir : MountHandle → Directory
  | mk dir _ _ _ _ _ => dir

def mounted : MountHandle → Bool
  | mk _ _ _ mounted _ _ => mounted

end MountHandle

/-! ## 2. The machine -/

structure Machine where
  /-- The mountpoints of the live mounts, the latest first. -/
  live : List String := []
  /-- The mountpoints that were unmounted, in that order. -/
  detached : List String := []
  scratch : List String := []
  /-- How many commands were run to mount something. -/
  commands : Nat := 0

namespace Machine

def attach (s : Machine) (p : String) : Machine := { s with live := p :: s.live }

/-- `umount -l`. -/
def detach (s : Machine) (p : String) : Machine :=
  { s with live := s.live.erase p, detached := s.detached ++ [p] }

/-- `shutil.rmtree`. -/
def rmtree (s : Machine) (root : String) : Machine :=
  { s with scratch := s.scratch.filter fun d => !covers root d }

/-- An empty scratch directory. -/
def makeScratch (s : Machine) (root : String) : Machine :=
  { s.rmtree root with scratch := root :: (s.rmtree root).scratch }

end Machine

mutual

/-- `unmount`: the mount itself, then the lower ones from the last to the first, then the scratch
    directory. -/
def MountHandle.unmount : MountHandle → Machine → MountHandle × Machine
  | .mk dir command options mounted lowers stackRoot, s =>
    let s := if mounted then s.detach dir.path else s
    let x := unmountReversed lowers s
    (.mk dir command options false x.1 stackRoot,
      match stackRoot with
      | none => x.2
      | some root => x.2.rmtree root)

/-- `for handle in reversed(handles): handle.unmount()`. -/
def unmountReversed : List MountHandle → Machine → List MountHandle × Machine
  | [], s => ([], s)
  | handle :: handles, s =>
    let later := unmountReversed handles s
    let x := handle.unmount later.2
    (x.1 :: later.1, x.2)

end

/-! ## 3. The composers -/

inductive Tool where
  | squashfuse
  | fuseOverlayfs
  | mount
  deriving DecidableEq

/-- `subprocess.run` of a command. -/
inductive CommandResult where
  | returned (code : Int) (output : String)
  /-- It raises: the command cannot be started. -/
  | raised

/-- What the composers meet, by the number of commands run before. -/
structure Host where
  which : Nat → Tool → Option String
  result : Nat → CommandResult
  isDir : String → Bool
  /-- The tree of a pack. -/
  packTree : String → Layer

inductive ComposeError where
  | failure (f : AccessFailure)
  /-- "cannot mount an empty read-only stack". -/
  | emptyReadOnlyStack
  | os

/-- A composer's answer. -/
abbrev Composed := Machine × Except ComposeError MountHandle

section Reader

variable (h : Host)

/-- A mount command. -/
def runCommand (what : MountCommand) (s : Machine) : Machine × Except ComposeError Unit :=
  let run := { s with commands := s.commands + 1 }
  match h.result s.commands with
  | .returned code output =>
    if code = 0 then (run, .ok ()) else (run, .error (.failure (.commandFailed what code output)))
  | .raised => (run, .error .os)

/-- The command of `mount_ro`. -/
def mountPack (pack mnt : String) (cmd : List String) (s : Machine) : Composed :=
  match runCommand h .pack s with
  | (s, .error e) => (s, .error e)
  | (s, .ok ()) => (s.attach mnt, .ok (.mk ⟨mnt, h.packTree pack⟩ cmd none true [] none))

/-- `mount_ro`. -/
def mountRo (preferKernel : Bool) (pack mnt : String) (s : Machine) : Composed :=
  if preferKernel && (h.which s.commands .mount).isSome then
    mountPack h pack mnt ["mount", "-t", "squashfs", "-o", "loop,ro", pack, mnt] s
  else
    match h.which s.commands .squashfuse with
    | none => (s, .error (.failure (.missingTool .squashfuse)))
    | some squashfuse => mountPack h pack mnt [squashfuse, pack, mnt] s

/-- What a `try` block has mounted when it ends, and the exception that ended it. -/
structure Lowers where
  machine : Machine
  handles : List MountHandle
  error : Option ComposeError

/-- The loop over the packs, each mounted below the scratch directory. -/
def mountEach (preferKernel : Bool) (root : String) :
    Nat → List PackInfo → List MountHandle → Machine → Lowers
  | _, [], handles, s => ⟨s, handles, none⟩
  | idx, pack :: packs, handles, s =>
    match mountRo h preferKernel pack.path (lowerMnt root idx) s with
    | (s, .error e) => ⟨s, handles, some e⟩
    | (s, .ok handle) => mountEach preferKernel root (idx + 1) packs (handles ++ [handle]) s

/-- The `except` clause. -/
def cleanup (handles : List MountHandle) (root : String) (s : Machine) : Machine :=
  (unmountReversed handles s).2.rmtree root

/-- The overlay over what the `try` block has mounted. -/
def mountOverlay (what : MountCommand) (argv : String → List String) (mnt root : String)
    (options : List MountHandle → OverlayOptions) (x : Lowers) : Composed :=
  match x.error with
  | some e => (cleanup x.handles root x.machine, .error e)
  | none =>
    match runCommand h what x.machine with
    | (s, .error e) => (cleanup x.handles root s, .error e)
    | (s, .ok ()) =>
      let o := options x.handles
      (s.attach mnt,
        .ok (.mk ⟨mnt, o.tree⟩ (argv o.text) (some o) true x.handles (some root)))

/-- The mountpoints of the handles, the last one first. -/
def dirsReversed (handles : List MountHandle) : List Directory :=
  (handles.map MountHandle.dir).reverse

/-- `mount_stack_ro`. -/
def mountStackRo (packs : List PackInfo) (mnt : String) (preferKernel : Bool) (s : Machine) :
    Composed :=
  match packs with
  | [] => (s, .error (.failure .emptyStack))
  | [pack] => mountRo h preferKernel pack.path mnt s
  | packs =>
    match h.which s.commands .fuseOverlayfs with
    | none => (s, .error (.failure (.missingTool .packStack)))
    | some fuseOverlayfs =>
      let root := stackRoot mnt
      mountOverlay h .packStack (fun text => [fuseOverlayfs, "-o", text, mnt]) mnt root
        (fun handles => { lowerdirs := dirsReversed handles })
        (mountEach h preferKernel root 0 packs [] (s.makeScratch root))

/-- `stack_root`, or a directory beside the mountpoint. -/
def scratchRoot (given : Option String) (mnt suffix : String) : String :=
  given.getD (pathJoin (pathParent mnt) ("." ++ pathName mnt ++ suffix))

def emptyLower (root : String) : Directory := ⟨root ++ "/empty-lower", Tree.get ⟨[]⟩⟩

/-- `mount_layered_rw`. -/
def mountLayeredRw (packs : List PackInfo) (upper : Directory) (overlayRoot mnt : String)
    (given : Option String) (preferKernel : Bool) (s : Machine) : Composed :=
  match h.which s.commands .fuseOverlayfs with
  | none => (s, .error (.failure (.missingTool .writableView)))
  | some fuseOverlayfs =>
    let root := scratchRoot given mnt ".rw-stack"
    let s := s.makeScratch root
    let lowers :=
      if packs = [] then ⟨s, [], none⟩
      else
        match mountStackRo h packs (root ++ "/lower") preferKernel s with
        | (s, .error e) => ⟨s, [], some e⟩
        | (s, .ok handle) => ⟨s, [handle], none⟩
    mountOverlay h .writableView (fun text => [fuseOverlayfs, "-o", text, mnt]) mnt root
      (fun handles => {
        lowerdirs := if packs = [] then [emptyLower root] else handles.map MountHandle.dir
        upper := some (upper, pathJoin overlayRoot "work") })
      lowers

/-- `mount_layered_rw_kernel_overlay`. -/
def mountLayeredRwKernelOverlay (packs : List PackInfo) (upper : Directory) (work mnt : String)
    (given : Option String) (preferKernel : Bool) (s : Machine) : Composed :=
  match h.which s.commands .mount with
  | none => (s, .error (.failure (.missingTool .kernelOverlay)))
  | some mountBin =>
    let root := scratchRoot given mnt ".kernel-rw-stack"
    mountOverlay h .kernelOverlay
      (fun text => [mountBin, "-t", "overlay", "overlay", "-o", text, mnt]) mnt root
      (fun handles => {
        lowerdirs := if packs = [] then [emptyLower root] else dirsReversed handles
        upper := some (upper, work) })
      (mountEach h preferKernel root 0 packs [] (s.makeScratch root))

/-- `mount_dirs_and_packs_ro`. -/
def mountDirsAndPacksRo (topDirs : List Directory) (packs : List PackInfo) (mnt : String)
    (given : Option String) (preferKernel : Bool) (s : Machine) : Composed :=
  match h.which s.commands .fuseOverlayfs with
  | none => (s, .error (.failure (.missingTool .dirPackStack)))
  | some fuseOverlayfs =>
    let root := scratchRoot given mnt ".dir-pack-stack"
    let x := mountEach h preferKernel root 0 packs [] (s.makeScratch root)
    let lowers :=
      if topDirs = [] ∧ packs = [] then { x with error := some .emptyReadOnlyStack } else x
    mountOverlay h .dirPackStack (fun text => [fuseOverlayfs, "-o", text, mnt]) mnt root
      (fun handles => { lowerdirs := topDirs ++ dirsReversed handles }) lowers

/-- `mount_bind_ro`. -/
def mountBindRo (source : Directory) (mnt : String) (s : Machine) : Composed :=
  match h.which s.commands .mount with
  | none => (s, .error (.failure (.missingTool .bindMount)))
  | some mountBin =>
    if !h.isDir source.path then (s, .error (.failure (.bindSource source.path)))
    else
      let cmd := [mountBin, "--bind", source.path, mnt]
      match runCommand h .bind s with
      | (s, .error e) => (s, .error e)
      | (s, .ok ()) =>
        let handle := MountHandle.mk ⟨mnt, source.tree⟩ cmd none true [] none
        match runCommand h .bindRemount (s.attach mnt) with
        | (s, .ok ()) => (s, .ok handle)
        | (s, .error (.failure f)) => ((handle.unmount s).2, .error (.failure f))
        -- the remount has no `except` clause
        | (s, .error e) => (s, .error e)

end Reader

/-- A composer with its arguments; `given` is `stack_root`. -/
inductive Composer where
  | stackRo (packs : List PackInfo) (mnt : String) (preferKernel : Bool)
  | layeredRw (packs : List PackInfo) (upper : Directory) (overlayRoot mnt : String)
      (given : Option String) (preferKernel : Bool)
  | kernelOverlay (packs : List PackInfo) (upper : Directory) (work mnt : String)
      (given : Option String) (preferKernel : Bool)
  | dirsAndPacks (topDirs : List Directory) (packs : List PackInfo) (mnt : String)
      (given : Option String) (preferKernel : Bool)
  | bindRo (source : Directory) (mnt : String)

def compose (h : Host) (s : Machine) : Composer → Composed
  | .stackRo packs mnt preferKernel => mountStackRo h packs mnt preferKernel s
  | .layeredRw packs upper overlayRoot mnt given preferKernel =>
    mountLayeredRw h packs upper overlayRoot mnt given preferKernel s
  | .kernelOverlay packs upper work mnt given preferKernel =>
    mountLayeredRwKernelOverlay h packs upper work mnt given preferKernel s
  | .dirsAndPacks topDirs packs mnt given preferKernel =>
    mountDirsAndPacksRo h topDirs packs mnt given preferKernel s
  | .bindRo source mnt => mountBindRo h source mnt s

def Composer.packs : Composer → List PackInfo
  | .stackRo packs _ _ => packs
  | .layeredRw packs _ _ _ _ _ => packs
  | .kernelOverlay packs _ _ _ _ _ => packs
  | .dirsAndPacks _ packs _ _ _ => packs
  | .bindRo _ _ => []

/-! ## 4. What the mounts show -/

/-- The mountpoints of the packs, the oldest first. -/
def lowerDirs (packTree : String → Layer) (root : String) : Nat → List PackInfo → List Directory
  | _, [] => []
  | idx, pack :: packs =>
    ⟨lowerMnt root idx, packTree pack.path⟩ :: lowerDirs packTree root (idx + 1) packs

/-- The trees of the packs, oldest first. -/
def packTrees (packTree : String → Layer) (packs : List PackInfo) : List Layer :=
  packs.map fun pack => packTree pack.path

/-- **What a composer has to show**: the packs in their order, and above them the upper, or the
    given directories with the first one topmost. -/
def Composer.shows (packTree : String → Layer) : Composer → Layer
  | .stackRo packs _ _ => view (packTrees packTree packs)
  | .layeredRw packs upper _ _ _ _ => view (packTrees packTree packs ++ [upper.tree])
  | .kernelOverlay packs upper _ _ _ _ => view (packTrees packTree packs ++ [upper.tree])
  | .dirsAndPacks topDirs packs _ _ _ =>
    view (packTrees packTree packs ++ (topDirs.map (·.tree)).reverse)
  | .bindRo source _ => source.tree

/-- The layer holds no mark of a deletion. -/
def NoMarks (L : Layer) : Prop := ∀ p e, L p = some e → p.getLast?.all (shownEntry · e) = true

section Shows

variable {h : Host} {s t : Machine} {packs : List PackInfo} {mnt root pack : String}
  {preferKernel : Bool} {handle : MountHandle} {what : MountCommand} {argv : String → List String}
  {options : List MountHandle → OverlayOptions} {x : Lowers} {cmd : List String}
  {given : Option String} {packTree : String → Layer}

theorem mountPack_ok (hok : mountPack h pack mnt cmd s = (t, .ok handle)) :
    handle = .mk ⟨mnt, h.packTree pack⟩ cmd none true [] none := by
  unfold mountPack at hok
  cases hrun : runCommand h .pack s with
  | mk u answer =>
    rw [hrun] at hok
    cases answer with
    | error e => cases congrArg Prod.snd hok
    | ok _ => exact (Except.ok.inj (congrArg Prod.snd hok)).symm

theorem mountRo_ok (hok : mountRo h preferKernel pack mnt s = (t, .ok handle)) :
    ∃ cmd, handle = .mk ⟨mnt, h.packTree pack⟩ cmd none true [] none := by
  unfold mountRo at hok
  split at hok
  · exact ⟨_, mountPack_ok hok⟩
  · cases hwhich : h.which s.commands .squashfuse with
    | none =>
      rw [hwhich] at hok
      cases congrArg Prod.snd hok
    | some squashfuse =>
      rw [hwhich] at hok
      exact ⟨_, mountPack_ok hok⟩

/-- **The loop over the packs** mounts each of them below the scratch directory. -/
theorem mountEach_dirs (h : Host) (preferKernel : Bool) (root : String) (idx : Nat)
    (packs : List PackInfo) (handles : List MountHandle) (s : Machine)
    (hok : (mountEach h preferKernel root idx packs handles s).error = none) :
    (mountEach h preferKernel root idx packs handles s).handles.map MountHandle.dir =
      handles.map MountHandle.dir ++ lowerDirs h.packTree root idx packs := by
  induction packs generalizing idx handles s with
  | nil => exact (List.append_nil _).symm
  | cons pack packs ih =>
    unfold mountEach at hok ⊢
    cases hmount : mountRo h preferKernel pack.path (lowerMnt root idx) s with
    | mk t answer =>
      cases answer with
      | error e =>
        rw [hmount] at hok
        cases hok
      | ok handle =>
        rw [hmount] at hok
        dsimp only at hok ⊢
        obtain ⟨cmd, rfl⟩ := mountRo_ok hmount
        rw [ih _ _ _ hok, List.map_append, List.append_assoc]
        rfl

theorem lowerDirs_tree (packTree : String → Layer) (root : String) (idx : Nat)
    (packs : List PackInfo) :
    (lowerDirs packTree root idx packs).map (·.tree) = packTrees packTree packs := by
  induction packs generalizing idx with
  | nil => rfl
  | cons pack packs ih => exact congrArg _ (ih (idx + 1))

theorem mountOverlay_ok (hok : mountOverlay h what argv mnt root options x = (t, .ok handle)) :
    x.error = none ∧ handle = .mk ⟨mnt, (options x.handles).tree⟩ (argv (options x.handles).text)
      (some (options x.handles)) true x.handles (some root) := by
  unfold mountOverlay at hok
  cases herror : x.error with
  | some e =>
    rw [herror] at hok
    cases congrArg Prod.snd hok
  | none =>
    rw [herror] at hok
    dsimp only at hok
    cases hrun : runCommand h what x.machine with
    | mk u answer =>
      rw [hrun] at hok
      cases answer with
      | error e => cases congrArg Prod.snd hok
      | ok _ => exact ⟨rfl, (Except.ok.inj (congrArg Prod.snd hok)).symm⟩

/-- An overlay of the packs below what is above them. -/
theorem tree_packs (lowers : List Directory) (above : List Directory)
    (upper : Option (Directory × String)) :
    ({ lowerdirs := above ++ lowers.reverse, upper := upper } : OverlayOptions).tree =
      view (lowers.map (·.tree) ++ (above.map (·.tree)).reverse ++
        (upper.map (·.1.tree)).toList) := by
  unfold OverlayOptions.tree
  dsimp only
  rw [List.map_append, List.reverse_append, List.map_reverse, List.reverse_reverse]

/-- What the loop has mounted, the last pack first. -/
theorem dirsReversed_of_mountEach
    (hok : (mountEach h preferKernel root 0 packs [] s).error = none) :
    dirsReversed (mountEach h preferKernel root 0 packs [] s).handles =
      (lowerDirs h.packTree root 0 packs).reverse := by
  unfold dirsReversed
  rw [mountEach_dirs h preferKernel root 0 packs [] s hok]
  rfl

/-- **A read-only stack** of several packs is their overlay, a single one is mounted as it is. -/
theorem mountStackRo_tree (hok : mountStackRo h packs mnt preferKernel s = (t, .ok handle)) :
    (∃ pack, packs = [pack] ∧ handle.dir.tree = h.packTree pack.path) ∨
      (2 ≤ packs.length ∧ handle.dir.tree = view (packTrees h.packTree packs)) := by
  unfold mountStackRo at hok
  match packs, hok with
  | [], hok => cases congrArg Prod.snd hok
  | [pack], hok =>
    obtain ⟨cmd, rfl⟩ := mountRo_ok hok
    exact .inl ⟨pack, rfl, rfl⟩
  | p₁ :: p₂ :: rest, hok =>
    dsimp only at hok
    cases hwhich : h.which s.commands .fuseOverlayfs with
    | none =>
      rw [hwhich] at hok
      cases congrArg Prod.snd hok
    | some fuseOverlayfs =>
      rw [hwhich] at hok
      obtain ⟨hnone, rfl⟩ := mountOverlay_ok hok
      refine .inr ⟨by simp, ?_⟩
      show ({ lowerdirs := dirsReversed _ } : OverlayOptions).tree = _
      rw [dirsReversed_of_mountEach hnone]
      have htree := tree_packs (lowerDirs h.packTree (stackRoot mnt) 0 (p₁ :: p₂ :: rest)) [] none
      rw [List.nil_append] at htree
      rw [htree, lowerDirs_tree]
      simp

/-- **As a layer**, a mounted stack is the committed view, whether it is one pack or more. -/
theorem mountStackRo_layer (hne : packs ≠ [])
    (hok : mountStackRo h packs mnt preferKernel s = (t, .ok handle)) :
    view [handle.dir.tree] = view (packTrees h.packTree packs) := by
  obtain ⟨pack, rfl, htree⟩ | ⟨-, htree⟩ := mountStackRo_tree hok
  · rw [htree]
    rfl
  · rw [htree]
    exact Lib.Rules.view_view _

/-- Layers that show the same below show the same under one more layer. -/
theorem view_concat_congr {ls ls' : List Layer} (heq : view ls = view ls') (L : Layer) :
    view (ls ++ [L]) = view (ls' ++ [L]) := by
  unfold view at heq ⊢
  rw [Lib.Rules.view_concat, Lib.Rules.view_concat, heq]

theorem mountLayeredRw_tree {upper : Directory} {overlayRoot : String} (hne : packs ≠ [])
    (hok : mountLayeredRw h packs upper overlayRoot mnt given preferKernel s = (t, .ok handle)) :
    handle.dir.tree = view (packTrees h.packTree packs ++ [upper.tree]) := by
  unfold mountLayeredRw at hok
  cases hwhich : h.which s.commands .fuseOverlayfs with
  | none =>
    rw [hwhich] at hok
    cases congrArg Prod.snd hok
  | some fuseOverlayfs =>
    rw [hwhich] at hok
    dsimp only at hok
    rw [if_neg hne] at hok
    cases hstack : mountStackRo h packs (scratchRoot given mnt ".rw-stack" ++ "/lower") preferKernel
        (s.makeScratch (scratchRoot given mnt ".rw-stack")) with
    | mk u answer =>
      rw [hstack] at hok
      cases answer with
      | error e => cases congrArg Prod.snd hok
      | ok below =>
        obtain ⟨-, rfl⟩ := mountOverlay_ok hok
        have hlayer := mountStackRo_layer hne hstack
        show ({ lowerdirs := if packs = [] then _ else [below].map MountHandle.dir,
                upper := some (upper, _) } : OverlayOptions).tree = _
        rw [if_neg hne]
        exact view_concat_congr hlayer upper.tree

theorem mountLayeredRwKernelOverlay_tree {upper : Directory} {work : String} (hne : packs ≠ [])
    (hok : mountLayeredRwKernelOverlay h packs upper work mnt given preferKernel s =
      (t, .ok handle)) :
    handle.dir.tree = view (packTrees h.packTree packs ++ [upper.tree]) := by
  unfold mountLayeredRwKernelOverlay at hok
  cases hwhich : h.which s.commands .mount with
  | none =>
    rw [hwhich] at hok
    cases congrArg Prod.snd hok
  | some mountBin =>
    rw [hwhich] at hok
    obtain ⟨hnone, rfl⟩ := mountOverlay_ok hok
    have htree := tree_packs
      (lowerDirs h.packTree (scratchRoot given mnt ".kernel-rw-stack") 0 packs) []
      (some (upper, work))
    rw [List.nil_append, lowerDirs_tree] at htree
    show ({ lowerdirs := if packs = [] then _ else dirsReversed _,
            upper := some (upper, work) } : OverlayOptions).tree = _
    rw [if_neg hne, dirsReversed_of_mountEach hnone, htree]
    simp

theorem mountDirsAndPacksRo_tree {topDirs : List Directory} (hne : packs ≠ [])
    (hok : mountDirsAndPacksRo h topDirs packs mnt given preferKernel s = (t, .ok handle)) :
    handle.dir.tree = view (packTrees h.packTree packs ++ (topDirs.map (·.tree)).reverse) := by
  unfold mountDirsAndPacksRo at hok
  cases hwhich : h.which s.commands .fuseOverlayfs with
  | none =>
    rw [hwhich] at hok
    cases congrArg Prod.snd hok
  | some fuseOverlayfs =>
    rw [hwhich] at hok
    dsimp only at hok
    rw [if_neg fun hempty => hne hempty.2] at hok
    obtain ⟨hnone, rfl⟩ := mountOverlay_ok hok
    have htree := tree_packs
      (lowerDirs h.packTree (scratchRoot given mnt ".dir-pack-stack") 0 packs) topDirs none
    rw [lowerDirs_tree] at htree
    show ({ lowerdirs := topDirs ++ dirsReversed _ } : OverlayOptions).tree = _
    rw [dirsReversed_of_mountEach hnone, htree]
    simp

end Shows

/-- Every tool is there, and every command returns. -/
def readyHost (packTree : String → Layer) : Host where
  which := fun _ _ => some "tool"
  result := fun _ => .returned 0 ""
  isDir := fun _ => true
  packTree := packTree

/-- **All composers show the same view** of a stack -- the packs in their order, and above them the
    upper or the given directories -- exactly when the stack has several packs, or its only one
    holds no mark: `mount_stack_ro` mounts a single pack as it is, and its marks are seen. -/
theorem composers_showSame_iff (packTree : String → Layer) (packs : List PackInfo)
    (hne : packs ≠ []) :
    (∀ h : Host, h.packTree = packTree → ∀ c : Composer, c.packs = packs → ∀ s t handle,
      compose h s c = (t, .ok handle) → handle.dir.tree = c.shows packTree) ↔
      2 ≤ packs.length ∨ ∀ pack ∈ packs, NoMarks (packTree pack.path) := by
  refine ⟨fun hall => ?_, fun hok h htree c hpacks s t handle hcompose => ?_⟩
  · match packs, hne, hall with
    | [], hne, _ => exact absurd rfl hne
    | p₁ :: p₂ :: rest, _, _ => exact .inl (by simp)
    | [pack], _, hall =>
      refine .inr fun pack' hpack' => ?_
      obtain rfl := List.mem_singleton.mp hpack'
      have hshown := hall (readyHost packTree) rfl (.stackRo [pack'] "/mnt" false) rfl {} _ _ rfl
      -- the pack as it is shows what its overlay shows
      exact (Lib.Rules.view_singleton_iff (R := overlayRules)).mp hshown.symm
  · subst htree
    cases c with
    | stackRo packs' mnt preferKernel =>
      obtain rfl : packs' = packs := hpacks
      obtain ⟨pack, rfl, htree⟩ | ⟨-, htree⟩ := mountStackRo_tree hcompose
      · have hmarks : NoMarks (h.packTree pack.path) := by
          rcases hok with htwo | hmarks
          · rw [List.length_singleton] at htwo
            omega
          · exact hmarks pack (List.mem_singleton_self pack)
        rw [htree]
        exact ((Lib.Rules.view_singleton_iff (R := overlayRules)).mpr hmarks).symm
      · exact htree
    | layeredRw packs' upper overlayRoot mnt given preferKernel =>
      obtain rfl : packs' = packs := hpacks
      exact mountLayeredRw_tree hne hcompose
    | kernelOverlay packs' upper work mnt given preferKernel =>
      obtain rfl : packs' = packs := hpacks
      exact mountLayeredRwKernelOverlay_tree hne hcompose
    | dirsAndPacks topDirs packs' mnt given preferKernel =>
      obtain rfl : packs' = packs := hpacks
      exact mountDirsAndPacksRo_tree hne hcompose
    | bindRo source mnt => exact absurd hpacks.symm hne

/-- A pack whose only entry deletes `old`. -/
def deletesOld : PackInfo := { path := "packs/1.sqfs", sha256 := "", size := 1 }

def oldDeleted (_ : String) : Layer := Tree.get ⟨[([".wh.old"], .file [])]⟩

theorem composers_showSame_two :
    ∃ handle, (mountStackRo (readyHost oldDeleted) [deletesOld, deletesOld] "/mnt" false {}).2 =
        .ok handle ∧
      handle.dir.tree = view (packTrees oldDeleted [deletesOld, deletesOld]) := by
  refine ⟨_, rfl, ?_⟩
  exact (composers_showSame_iff oldDeleted [deletesOld, deletesOld] (List.cons_ne_nil _ _)).mpr
    (.inl le_rfl) (readyHost oldDeleted) rfl (.stackRo [deletesOld, deletesOld] "/mnt" false) rfl {}
    _ _ rfl

/-- The mark of a single pack is seen in its read-only mount. -/
theorem singlePack_showsMark :
    ¬ ∀ (packTree : String → Layer) (packs : List PackInfo), packs ≠ [] →
      ∀ h : Host, h.packTree = packTree → ∀ c : Composer, c.packs = packs → ∀ s t handle,
        compose h s c = (t, .ok handle) → handle.dir.tree = c.shows packTree := by
  intro hall
  have hshown := hall oldDeleted [deletesOld] (List.cons_ne_nil _ _) (readyHost oldDeleted) rfl
    (.stackRo [deletesOld] "/mnt" false) rfl {} _ _ rfl
  have hmark := congrFun hshown [".wh.old"]
  revert hmark
  decide +kernel

end CccStorage.Composers
