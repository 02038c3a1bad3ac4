/-
  File:      CccStorage/ChildPaths.lean
  Subject:   The paths a child id stands for on one node: stores under the state root, the run
             directory and the local overlays.

  * `OverlayPaths`, `LocalOverlayPaths`, `DirtyMirrorPaths`, `packObjectDir`, the lock files, the
    mountpoint and the scratch directory of each way to mount;
  * `Store`, `storeNames` -- the seven directories, and the names an id takes in each;
  * `shareNothing_iff` -- two ids share nothing exactly when neither is the other with `.local` or
    `.mirror` after it, or with `.` before and `.stack` after it.
-/
import CccStorage.Names
import CccStorage.Tree

namespace CccStorage.ChildPaths

/-! ## 1. The paths of a child -/

/-- An id that is a name of its own once encoded. -/
structure IsId (id : String) : Prop where
  nonempty : id ≠ ""
  dot : id ≠ "."
  dotDot : id ≠ ".."

structure OverlayPaths where
  root : Path
  activeUpper : Path
  sealedDir : Path

def OverlayPaths.work (p : OverlayPaths) : Path := p.root ++ ["work"]

def OverlayPaths.forChild (overlaysRoot : Path) (childId : String) : OverlayPaths :=
  let childRoot := overlaysRoot ++ [safeNamespaceName childId]
  { root := childRoot, activeUpper := childRoot ++ ["active"], sealedDir := childRoot ++ ["sealed"] }

structure LocalOverlayPaths where
  root : Path
  activeUpper : Path
  work : Path
  meta' : Path

def LocalOverlayPaths.forChild (localRoot : Path) (childId : String) : LocalOverlayPaths :=
  let childRoot := localRoot ++ [safeNamespaceName childId]
  { root := childRoot, activeUpper := childRoot ++ ["active"], work := childRoot ++ ["work"],
    meta' := childRoot ++ ["meta.json"] }

structure DirtyMirrorPaths where
  root : Path
  epochsDir : Path
  current : Path
  publishJson : Path

def DirtyMirrorPaths.forChild (nfsRoot : Path) (childId : String) : DirtyMirrorPaths :=
  let root := nfsRoot ++ ["async"] ++ [safeNamespaceName childId]
  { root, epochsDir := root ++ ["epochs"], current := root ++ ["current"],
    publishJson := root ++ ["publish.json"] }

def packObjectDir (packsRoot : Path) (childId : String) : Path :=
  packsRoot ++ [safeNamespaceName childId]

/-- `<root>/locks/<safe name><suffix>`. -/
def lockPath (suffix : String) (root : Path) (childId : String) : Path :=
  root ++ ["locks"] ++ [safeNamespaceName childId ++ suffix]

def commitLockPath : Path → String → Path := lockPath ".commit.lock"

def coldLockPath : Path → String → Path := lockPath ".cold.lock"

/-- `EnvTransaction._lock_path`. -/
def updateLockPath : Path → String → Path := lockPath ".update.lock"

def writerLockPath : Path → String → Path := lockPath ".local-writer.lock"

/-- `self.mounts_dir / _safe_name(manifest.id)`. -/
def defaultMountpoint (runDir : Path) (childId : String) : Path :=
  runDir ++ ["mounts"] ++ [safeNamespaceName childId]

/-- `mnt.parent / f".{mnt.name}.stack"` of `mount_stack_ro`. -/
def readOnlyStackRoot (mnt : Path) : Path :=
  mnt.dropLast ++ ["." ++ mnt.getLast?.getD "" ++ ".stack"]

/-- `self.run_dir / "stacks" / f"{_safe_name(manifest.id)}<suffix>"`. -/
def stackRootNamed (suffix : String) (runDir : Path) (childId : String) : Path :=
  runDir ++ ["stacks"] ++ [safeNamespaceName childId ++ suffix]

/-- The four ways a child is mounted. -/
inductive MountMode where
  /-- `_mount_at_unlocked` -/
  | readOnly
  /-- `_mount_rw_shared_nfs` -/
  | sharedNfs
  /-- `_mount_rw_local_ssd_async` -/
  | localSsd
  /-- `_mount_published_mirror_ro` -/
  | mirror
  deriving DecidableEq

def MountMode.all : List MountMode := [.readOnly, .sharedNfs, .localSsd, .mirror]

/-- The directory a mount at the default mountpoint composes its layers in. -/
def stackRoot (runDir : Path) : MountMode → String → Path
  | .readOnly, childId => readOnlyStackRoot (defaultMountpoint runDir childId)
  | .sharedNfs, childId => stackRootNamed "" runDir childId
  | .localSsd, childId => stackRootNamed ".local" runDir childId
  | .mirror, childId => stackRootNamed ".mirror" runDir childId

/-- The scratch directories of a mount: a shared mount stacks its packs below its own. -/
def scratchDirs (runDir : Path) (mode : MountMode) (childId : String) : List Path :=
  let root := stackRoot runDir mode childId
  match mode with
  | .readOnly => [root, root ++ ["lowers"]]
  | .sharedNfs => [root, root ++ ["lower"], readOnlyStackRoot (root ++ ["lower"]),
      root ++ ["empty-lower"]]
  | .localSsd => [root, root ++ ["lowers"], root ++ ["empty-lower"]]
  | .mirror => [root, root ++ ["lowers"]]

/-- The configured directories. -/
structure Roots where
  nfsRoot : Path
  runDir : Path
  localOverlayRoot : Path

/-- Without a configured one the local overlays lie in the run directory. -/
def Roots.withDefaults (nfsRoot runDir : Path) : Roots :=
  ⟨nfsRoot, runDir, runDir ++ ["local-overlays"]⟩

/-- **Every path derived for a child**, under any policy and mounted in any way. -/
def derivedPaths (roots : Roots) (childId : String) : List Path :=
  let overlay := OverlayPaths.forChild (roots.nfsRoot ++ ["overlays"]) childId
  let localOverlay := LocalOverlayPaths.forChild roots.localOverlayRoot childId
  let dirtyMirror := DirtyMirrorPaths.forChild roots.nfsRoot childId
  [overlay.root, overlay.activeUpper, overlay.sealedDir, overlay.work,
    localOverlay.root, localOverlay.activeUpper, localOverlay.work, localOverlay.meta',
    dirtyMirror.root, dirtyMirror.epochsDir, dirtyMirror.current, dirtyMirror.publishJson,
    packObjectDir (roots.nfsRoot ++ ["packs"]) childId,
    commitLockPath roots.nfsRoot childId, coldLockPath roots.nfsRoot childId,
    updateLockPath roots.nfsRoot childId, writerLockPath roots.nfsRoot childId,
    defaultMountpoint roots.runDir childId] ++
  MountMode.all.flatMap fun mode => scratchDirs roots.runDir mode childId

/-- No path of one id is a path of the other, or inside one. -/
def ShareNothing (roots : Roots) (a b : String) : Prop :=
  ∀ p ∈ derivedPaths roots a, ∀ q ∈ derivedPaths roots b, ¬p <+: q ∧ ¬q <+: p

instance (roots : Roots) (a b : String) : Decidable (ShareNothing roots a b) :=
  inferInstanceAs (Decidable (∀ p ∈ derivedPaths roots a, ∀ q ∈ derivedPaths roots b,
    ¬p <+: q ∧ ¬q <+: p))

/-! ## 2. Seven directories -/

inductive Store where
  | overlays
  | localOverlays
  | async
  | packs
  | locks
  | mounts
  | stackRoots
  deriving DecidableEq

def Roots.dir (roots : Roots) : Store → Path
  | .overlays => roots.nfsRoot ++ ["overlays"]
  | .localOverlays => roots.localOverlayRoot
  | .async => roots.nfsRoot ++ ["async"]
  | .packs => roots.nfsRoot ++ ["packs"]
  | .locks => roots.nfsRoot ++ ["locks"]
  | .mounts => roots.runDir ++ ["mounts"]
  | .stackRoots => roots.runDir ++ ["stacks"]

/-- None of the seven directories is another one or inside it. -/
def Roots.Separate (roots : Roots) : Prop :=
  ∀ s s' : Store, s ≠ s' → ¬roots.dir s <+: roots.dir s'

/-- With the local overlays in the run directory it is enough that the state root and the run
    directory lie apart. -/
theorem withDefaults_separate {nfsRoot runDir : Path} (h : ¬nfsRoot <+: runDir)
    (h' : ¬runDir <+: nfsRoot) : (Roots.withDefaults nfsRoot runDir).Separate := by
  have happ : ∀ {p q : Path} {x y : String}, p ++ [x] <+: q ++ [y] →
      p <+: q ++ [y] := fun hpre => (List.prefix_append _ _).trans hpre
  have hcross : ∀ {p q : Path} {x y : String}, ¬p <+: q → ¬q <+: p → ¬p ++ [x] <+: q ++ [y] := by
    intro p q x y hpq hqp hpre
    have hp := happ hpre
    rcases List.prefix_or_prefix_of_prefix hp (List.prefix_append q [y]) with hc | hc
    · exact hpq hc
    · exact hqp hc
  have hsame : ∀ {p : Path} {x y : String}, x ≠ y → ¬p ++ [x] <+: p ++ [y] := by
    intro p x y hxy hpre
    rw [List.prefix_append_right_inj, List.cons_prefix_cons] at hpre
    exact hxy hpre.1
  intro s s' hne
  cases s <;> cases s' <;> first
    | exact absurd rfl hne
    | exact hcross h h'
    | exact hcross h' h
    | exact hsame (by decide)

/-- The names an id takes in each directory. -/
def storeNames (childId : String) : Store → List String
  | .overlays | .localOverlays | .async | .packs => [safeNamespaceName childId]
  | .locks => [".commit.lock", ".cold.lock", ".update.lock", ".local-writer.lock"].map
      (safeNamespaceName childId ++ ·)
  | .mounts => [safeNamespaceName childId, "." ++ safeNamespaceName childId ++ ".stack"]
  | .stackRoots => ["", ".local", ".mirror"].map (safeNamespaceName childId ++ ·)

section

variable {roots : Roots} {a b id name : String} {p q : Path} {s s' : Store}

theorem readOnlyStackRoot_concat (d : Path) (name : String) :
    readOnlyStackRoot (d ++ [name]) = d ++ ["." ++ name ++ ".stack"] := by
  rw [readOnlyStackRoot, List.dropLast_concat, List.getLast?_concat, Option.getD_some]

/-- Every derived path is one of the names, or inside it. -/
theorem exists_name (h : p ∈ derivedPaths roots id) :
    ∃ s, ∃ name ∈ storeNames id s, roots.dir s ++ [name] <+: p := by
  have hhere : ∀ s name, name ∈ storeNames id s → p = roots.dir s ++ [name] →
      ∃ s, ∃ name ∈ storeNames id s, roots.dir s ++ [name] <+: p :=
    fun s name hname heq => ⟨s, name, hname, heq ▸ List.prefix_rfl⟩
  have hinside : ∀ s name x, name ∈ storeNames id s → p = roots.dir s ++ [name] ++ [x] →
      ∃ s, ∃ name ∈ storeNames id s, roots.dir s ++ [name] <+: p :=
    fun s name x hname heq => ⟨s, name, hname, heq ▸ List.prefix_append _ _⟩
  have hmount : readOnlyStackRoot (defaultMountpoint roots.runDir id) =
      roots.dir .mounts ++ ["." ++ safeNamespaceName id ++ ".stack"] :=
    readOnlyStackRoot_concat _ _
  have hlower : readOnlyStackRoot (stackRootNamed "" roots.runDir id ++ ["lower"]) =
      roots.dir .stackRoots ++ [safeNamespaceName id ++ ""] ++ [".lower.stack"] :=
    readOnlyStackRoot_concat _ _
  rw [derivedPaths, List.mem_append] at h
  rcases h with h | h
  · simp only [List.mem_cons, List.not_mem_nil, or_false] at h
    rcases h with h | h | h | h | h | h | h | h | h | h | h | h | h | h | h | h | h | h
    · exact hhere .overlays _ List.mem_cons_self h
    · exact hinside .overlays _ _ List.mem_cons_self h
    · exact hinside .overlays _ _ List.mem_cons_self h
    · exact hinside .overlays _ _ List.mem_cons_self h
    · exact hhere .localOverlays _ List.mem_cons_self h
    · exact hinside .localOverlays _ _ List.mem_cons_self h
    · exact hinside .localOverlays _ _ List.mem_cons_self h
    · exact hinside .localOverlays _ _ List.mem_cons_self h
    · exact hhere .async _ List.mem_cons_self h
    · exact hinside .async _ _ List.mem_cons_self h
    · exact hinside .async _ _ List.mem_cons_self h
    · exact hinside .async _ _ List.mem_cons_self h
    · exact hhere .packs _ List.mem_cons_self h
    · exact hhere .locks _ (List.mem_map_of_mem (by simp)) h
    · exact hhere .locks _ (List.mem_map_of_mem (by simp)) h
    · exact hhere .locks _ (List.mem_map_of_mem (by simp)) h
    · exact hhere .locks _ (List.mem_map_of_mem (by simp)) h
    · exact hhere .mounts _ List.mem_cons_self h
  · obtain ⟨mode, -, h⟩ := List.mem_flatMap.mp h
    cases mode with
    | readOnly =>
      simp only [scratchDirs, stackRoot, List.mem_cons, List.not_mem_nil, or_false, hmount] at h
      rcases h with h | h
      · exact hhere .mounts _ (by simp [storeNames]) h
      · exact hinside .mounts _ _ (by simp [storeNames]) h
    | sharedNfs =>
      simp only [scratchDirs, stackRoot, List.mem_cons, List.not_mem_nil, or_false, hlower] at h
      rcases h with h | h | h | h
      · exact hhere .stackRoots _ (List.mem_map_of_mem (by simp)) h
      · exact hinside .stackRoots _ _ (List.mem_map_of_mem (by simp)) h
      · exact hinside .stackRoots _ _ (List.mem_map_of_mem (by simp)) h
      · exact hinside .stackRoots _ _ (List.mem_map_of_mem (by simp)) h
    | localSsd =>
      simp only [scratchDirs, stackRoot, List.mem_cons, List.not_mem_nil, or_false] at h
      rcases h with h | h | h
      · exact hhere .stackRoots _ (List.mem_map_of_mem (by simp)) h
      · exact hinside .stackRoots _ _ (List.mem_map_of_mem (by simp)) h
      · exact hinside .stackRoots _ _ (List.mem_map_of_mem (by simp)) h
    | mirror =>
      simp only [scratchDirs, stackRoot, List.mem_cons, List.not_mem_nil, or_false] at h
      rcases h with h | h
      · exact hhere .stackRoots _ (List.mem_map_of_mem (by simp)) h
      · exact hinside .stackRoots _ _ (List.mem_map_of_mem (by simp)) h

theorem name_derived (h : name ∈ storeNames id s) : roots.dir s ++ [name] ∈ derivedPaths roots id := by
  have hscratch : ∀ mode, stackRoot roots.runDir mode id ∈ derivedPaths roots id := by
    intro mode
    refine List.mem_append_right _ (List.mem_flatMap.mpr ⟨mode, ?_, ?_⟩)
    · cases mode <;> decide
    · cases mode <;> exact List.mem_cons_self
  cases s with
  | overlays =>
    rw [List.mem_singleton.mp h]
    exact List.mem_append_left _ (by simp [OverlayPaths.forChild, Roots.dir])
  | localOverlays =>
    rw [List.mem_singleton.mp h]
    exact List.mem_append_left _ (by simp [LocalOverlayPaths.forChild, Roots.dir])
  | async =>
    rw [List.mem_singleton.mp h]
    exact List.mem_append_left _ (by simp [DirtyMirrorPaths.forChild, Roots.dir])
  | packs =>
    rw [List.mem_singleton.mp h]
    exact List.mem_append_left _ (by simp [packObjectDir, Roots.dir])
  | locks =>
    refine List.mem_append_left _ ?_
    simp only [storeNames, List.map_cons, List.map_nil, List.mem_cons, List.not_mem_nil,
      or_false] at h
    rcases h with rfl | rfl | rfl | rfl
    · simp [commitLockPath, lockPath, Roots.dir]
    · simp [coldLockPath, lockPath, Roots.dir]
    · simp [updateLockPath, lockPath, Roots.dir]
    · simp [writerLockPath, lockPath, Roots.dir]
  | mounts =>
    simp only [storeNames, List.mem_cons, List.not_mem_nil, or_false] at h
    rcases h with rfl | rfl
    · exact List.mem_append_left _ (by simp [defaultMountpoint, Roots.dir])
    · have hroot := hscratch .readOnly
      rwa [stackRoot, defaultMountpoint, readOnlyStackRoot_concat] at hroot
  | stackRoots =>
    simp only [storeNames, List.map_cons, List.map_nil, List.mem_cons, List.not_mem_nil,
      or_false] at h
    rcases h with rfl | rfl | rfl
    · exact hscratch .sharedNfs
    · exact hscratch .localSsd
    · exact hscratch .mirror

/-- In separate directories a path lies inside another one only below the same name. -/
theorem same_name (hsep : roots.Separate) {n n' : String} (hp : roots.dir s ++ [n] <+: p)
    (hq : roots.dir s' ++ [n'] <+: q) (hpq : p <+: q) : s = s' ∧ n = n' := by
  have hpq' : roots.dir s ++ [n] <+: q := hp.trans hpq
  have hstore : s = s' := by
    by_contra hne
    rcases List.prefix_or_prefix_of_prefix ((List.prefix_append _ _).trans hpq')
      ((List.prefix_append _ _).trans hq) with h | h
    · exact hsep s s' hne h
    · exact hsep s' s (fun h' => hne h'.symm) h
  subst hstore
  have hlen : (roots.dir s ++ [n]).length = (roots.dir s ++ [n']).length := by
    rw [List.length_append, List.length_append, List.length_singleton, List.length_singleton]
  have heq := (List.prefix_of_prefix_length_le hpq' hq hlen.le).eq_of_length hlen
  exact ⟨rfl, (List.cons.inj (List.append_cancel_left heq)).1⟩

/-- **Sharing is taking a common name** in one of the seven directories. -/
theorem shareNothing_names (hsep : roots.Separate) :
    ShareNothing roots a b ↔ ∀ s, ∀ name ∈ storeNames a s, name ∉ storeNames b s := by
  constructor
  · intro h s name ha hb
    exact (h _ (name_derived ha) _ (name_derived hb)).1 List.prefix_rfl
  · intro h p hp q hq
    obtain ⟨s, n, hn, hnp⟩ := exists_name hp
    obtain ⟨s', n', hn', hnq⟩ := exists_name hq
    constructor
    · intro hpq
      obtain ⟨rfl, rfl⟩ := same_name hsep hnp hnq hpq
      exact h s n hn hn'
    · intro hqp
      obtain ⟨rfl, rfl⟩ := same_name hsep hnq hnp hqp
      exact h s' n' hn hn'

/-! ## 3. Names with suffixes -/

theorem quote_append (x y : String) : quote (x ++ y) = quote x ++ quote y := by
  rw [← String.toList_inj]
  simp [quote, quoteBytes, String.toUTF8_eq_toByteArray]

theorem safeNamespaceName_of_ne (h : id ≠ "") : safeNamespaceName id = quote id := by
  rw [safeNamespaceName, if_neg h, if_neg (quote_ne_empty h)]

/-- Neither text is an end of the other. -/
def EndApart (x y : String) : Prop := ¬x.toList <:+ y.toList ∧ ¬y.toList <:+ x.toList

instance (x y : String) : Decidable (EndApart x y) :=
  inferInstanceAs (Decidable (¬x.toList <:+ y.toList ∧ ¬y.toList <:+ x.toList))

theorem append_ne_of_endApart {x y u v : String} (h : EndApart x y) : u ++ x ≠ v ++ y := by
  intro heq
  have hlist : u.toList ++ x.toList = v.toList ++ y.toList := by
    rw [← String.toList_append, heq, String.toList_append]
  have hx : x.toList <:+ v.toList ++ y.toList := hlist ▸ List.suffix_append _ _
  rcases List.suffix_or_suffix_of_suffix hx (List.suffix_append _ _) with h' | h'
  · exact h.1 h'
  · exact h.2 h'

theorem append_left_cancel {x u v : String} (h : u ++ x = v ++ x) : u = v := by
  rw [← String.toList_inj, String.toList_append, String.toList_append] at h
  exact String.toList_injective (List.append_cancel_right h)

/-- The names of two ids with ends of a list none of which is an end of another. -/
theorem ends_apart {ends : List String} (ha : a ≠ "") (hb : b ≠ "") (hne : a ≠ b)
    (hends : ∀ x ∈ ends, ∀ y ∈ ends, x = y ∨ EndApart x y) :
    ∀ name ∈ ends.map (safeNamespaceName a ++ ·), name ∉ ends.map (safeNamespaceName b ++ ·) := by
  intro name hna hnb
  obtain ⟨x, hx, rfl⟩ := List.mem_map.mp hna
  obtain ⟨y, hy, heq⟩ := List.mem_map.mp hnb
  rcases hends y hy x hx with rfl | hapart
  · exact hne (safeNamespaceName_inj ha hb (append_left_cancel heq).symm)
  · exact append_ne_of_endApart hapart heq

/-- The id whose name is a scratch directory of the other: its shared scratch directory that of
    the other's local or mirror mount, its mountpoint that of the other's read-only mount. -/
def TakesScratchOf (a b : String) : Prop :=
  a = b ++ ".local" ∨ a = b ++ ".mirror" ∨ a = "." ++ b ++ ".stack"

instance (a b : String) : Decidable (TakesScratchOf a b) :=
  inferInstanceAs (Decidable (_ ∨ _ ∨ _))

theorem TakesScratchOf.shares (hb : b ≠ "") (h : TakesScratchOf a b) :
    ∃ s, ∃ name ∈ storeNames a s, name ∈ storeNames b s := by
  have hmade : ∀ {x y : String}, x ≠ "" → safeNamespaceName (x ++ y) = quote x ++ quote y := by
    intro x y hx
    have hne : x ++ y ≠ "" := fun hempty => hx (String.append_eq_empty_iff.mp hempty).1
    rw [safeNamespaceName_of_ne hne, quote_append]
  have hlocal : quote ".local" = ".local" := by decide +kernel
  have hmirror : quote ".mirror" = ".mirror" := by decide +kernel
  have hdot : quote "." = "." := by decide +kernel
  have hstack : quote ".stack" = ".stack" := by decide +kernel
  rcases h with rfl | rfl | rfl
  · refine ⟨.stackRoots, quote b ++ ".local", ?_, ?_⟩
    · simp [storeNames, hmade hb, hlocal]
    · simp [storeNames, safeNamespaceName_of_ne hb]
  · refine ⟨.stackRoots, quote b ++ ".mirror", ?_, ?_⟩
    · simp [storeNames, hmade hb, hmirror]
    · simp [storeNames, safeNamespaceName_of_ne hb]
  · have hne : "." ++ b ≠ "" :=
      fun hempty => absurd (String.append_eq_empty_iff.mp hempty).1 (by decide)
    refine ⟨.mounts, "." ++ quote b ++ ".stack", ?_, ?_⟩
    · rw [storeNames, hmade hne, quote_append, hdot, hstack]
      exact List.mem_cons_self
    · rw [storeNames, safeNamespaceName_of_ne hb]
      exact List.mem_cons_of_mem _ List.mem_cons_self

/-- An encoded id that is another one with an end is that id with that end. -/
theorem eq_append_of_safe {x : String} (ha : a ≠ "") (hb : b ≠ "") (hx : quote x = x)
    (h : safeNamespaceName a = safeNamespaceName b ++ x) : a = b ++ x := by
  rw [safeNamespaceName_of_ne ha, safeNamespaceName_of_ne hb] at h
  rw [← hx, ← quote_append] at h
  exact quote_inj h

theorem names_apart (ha : a ≠ "") (hb : b ≠ "") (hne : a ≠ b) (hab : ¬TakesScratchOf a b)
    (hba : ¬TakesScratchOf b a) (s : Store) :
    ∀ name ∈ storeNames a s, name ∉ storeNames b s := by
  have hsafe : safeNamespaceName a ≠ safeNamespaceName b :=
    fun heq => hne (safeNamespaceName_inj ha hb heq)
  have hsame : ∀ name ∈ [safeNamespaceName a], name ∉ [safeNamespaceName b] := by
    intro name hna hnb
    exact hsafe ((List.mem_singleton.mp hna).symm.trans (List.mem_singleton.mp hnb))
  have hlocal : quote ".local" = ".local" := by decide +kernel
  have hmirror : quote ".mirror" = ".mirror" := by decide +kernel
  have hscratch : ∀ {x y : String}, x ≠ "" → y ≠ "" → ¬TakesScratchOf x y →
      safeNamespaceName x ≠ safeNamespaceName y ++ ".local" ∧
      safeNamespaceName x ≠ safeNamespaceName y ++ ".mirror" ∧
      safeNamespaceName x ≠ "." ++ safeNamespaceName y ++ ".stack" := by
    intro x y hx hy hnot
    refine ⟨fun h => hnot (.inl (eq_append_of_safe hx hy hlocal h)),
      fun h => hnot (.inr (.inl (eq_append_of_safe hx hy hmirror h))), fun h => ?_⟩
    refine hnot (.inr (.inr (quote_inj ?_)))
    rw [quote_append, quote_append, show quote "." = "." by decide +kernel,
      show quote ".stack" = ".stack" by decide +kernel, ← safeNamespaceName_of_ne hx,
      ← safeNamespaceName_of_ne hy]
    exact h
  obtain ⟨hl, hm, hs⟩ := hscratch ha hb hab
  obtain ⟨hl', hm', hs'⟩ := hscratch hb ha hba
  cases s with
  | overlays => exact hsame
  | localOverlays => exact hsame
  | async => exact hsame
  | packs => exact hsame
  | locks => exact ends_apart ha hb hne (by decide +kernel)
  | mounts =>
    intro name hna hnb
    simp only [storeNames, List.mem_cons, List.not_mem_nil, or_false] at hna hnb
    rcases hna with rfl | rfl
    · rcases hnb with h | h
      · exact hsafe h
      · exact hs h
    · rcases hnb with h | h
      · exact hs' h.symm
      · have hlist := congrArg String.toList (append_left_cancel h)
        rw [String.toList_append, String.toList_append] at hlist
        exact hsafe (String.toList_injective (List.append_cancel_left hlist))
  | stackRoots =>
    intro name hna hnb
    have hnil : ∀ {x : String}, x ++ "" = x := String.append_empty
    simp only [storeNames, List.map_cons, List.map_nil, List.mem_cons, List.not_mem_nil,
      or_false, hnil] at hna hnb
    have happart : EndApart ".local" ".mirror" := by decide +kernel
    rcases hna with rfl | rfl | rfl
    · rcases hnb with h | h | h
      · exact hsafe h
      · exact hl h
      · exact hm h
    · rcases hnb with h | h | h
      · exact hl' h.symm
      · exact hsafe (append_left_cancel h)
      · exact append_ne_of_endApart happart h
    · rcases hnb with h | h | h
      · exact hm' h.symm
      · exact append_ne_of_endApart happart h.symm
      · exact hsafe (append_left_cancel h)

/-- **Two children share nothing** exactly when neither takes the other's scratch directory. -/
theorem shareNothing_iff (hsep : roots.Separate) (ha : IsId a) (hb : IsId b) (hne : a ≠ b) :
    ShareNothing roots a b ↔ ¬TakesScratchOf a b ∧ ¬TakesScratchOf b a := by
  rw [shareNothing_names hsep]
  constructor
  · intro h
    constructor
    · intro htakes
      obtain ⟨s, name, hna, hnb⟩ := htakes.shares hb.nonempty
      exact h s name hna hnb
    · intro htakes
      obtain ⟨s, name, hnb, hna⟩ := htakes.shares ha.nonempty
      exact h s name hna hnb
  · intro ⟨hab, hba⟩ s
    exact names_apart ha.nonempty hb.nonempty hne hab hba s

/-- Two directories of one observed directory: what the second composes its shared mount in is where
    the packs of the first are mounted for its local one. -/
theorem runLocal_sharesScratch :
    IsId "observe:lab:run" ∧ IsId "observe:lab:run.local" ∧
      ¬ShareNothing (.withDefaults ["nfs"] ["run"]) "observe:lab:run" "observe:lab:run.local" ∧
      stackRoot ["run"] .localSsd "observe:lab:run" =
        stackRoot ["run"] .sharedNfs "observe:lab:run.local" :=
  ⟨⟨by decide, by decide, by decide⟩, ⟨by decide, by decide, by decide⟩, by decide +kernel,
    by decide +kernel⟩

theorem aliceBob_shareNothing_iff :
    ShareNothing (.withDefaults ["nfs"] ["run"]) "observe:lab:alice" "observe:lab:bob" ↔
      ¬TakesScratchOf "observe:lab:alice" "observe:lab:bob" ∧
        ¬TakesScratchOf "observe:lab:bob" "observe:lab:alice" :=
  shareNothing_iff (withDefaults_separate (by decide) (by decide))
    ⟨by decide, by decide, by decide⟩ ⟨by decide, by decide, by decide⟩ (by decide)

end

end CccStorage.ChildPaths
