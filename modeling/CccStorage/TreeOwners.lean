/-
  File:      CccStorage/TreeOwners.lean
  Subject:   Which mount serves a path below a parent whose boundaries were mounted by
             `handle_mount_tree` (`mountd/daemon.py`), and who owns it (`core/resolve.py`).

  A mount hides what is below its mountpoint, so the latest mount above a path serves it. Every view
  is read-only: a stack of several packs finds no place for its scratch directory in one.

  * `topmost` -- the mount that serves a path;
  * `TreeViews`, `TreeViews.visits` -- what the loop meets when nothing was mounted before;
  * `topmost_standing`, `mountBoundaries_iff` -- what serves a path after the first boundaries, and
    when the loop goes through;
  * `latest_eq_longestPrefix` -- where outer boundaries come first, the latest is the nearest;
  * `mountTree_servesOwners_iff` -- the call serves every path from its owner exactly when each
    child has one pack, no child is mounted twice, and outer boundaries come first.
-/
import CccStorage.MountTree
import CccStorage.HpcClosure
import CccStorage.ChildAccess

namespace CccStorage.ChildMounts

open Hpc (longestPrefix resolveOwnerPath BoundariesOk)

/-! ## 1. The mount that serves a path -/

/-- **The latest mount** at the path or above it. -/
def ChildMountManager.topmost (s : ChildMountManager) (path : String) : Option MountRecord :=
  Lib.longest (fun r => r.handle) (fun r => s.isMounted r.handle && covers r.mountpoint path)
    (s.records.map (·.2))

/-- The parent and the children as they are found and recalled, and the directories of their
    views. -/
structure TreeViews where
  parent : ChildManifest
  child : String → ChildManifest
  hasDir : String → String → Bool
  now : ℚ := 0

namespace TreeViews

variable (cfg : ManagerConfig) (w : TreeViews)

/-- `mountpoint.is_dir()`, in the view that serves it. -/
def isDir (s : ChildMountManager) (path : String) : Bool :=
  match s.topmost path with
  | none => false
  | some r => w.hasDir r.manifestId (innerText r.mountpoint path)

/-- One mount: the scratch directory of a stack of several packs cannot be made in a view. -/
def visit (s : ChildMountManager) (m : ChildManifest) (mountpoint : String) : Visit where
  find := fun _ => some m
  site := { isDir := w.isDir s mountpoint, now := w.now }
  packFails := decide (2 ≤ m.lowers.length) && (s.topmost (Observe.stackRoot mountpoint)).isSome

def root : String := mountpointOf cfg w.parent

def mountpoint (b : ChildBoundary) : String := under (w.root cfg) (stripSlashes b.path)

/-- The table after the parent was mounted, and then these boundaries. -/
def standing (s : ChildMountManager) (done : List ChildBoundary) : ChildMountManager :=
  done.foldl
    (fun s b => (s.register (newRecord (w.child b.childId) (w.mountpoint cfg b) .ro w.now)).1)
    (s.register (newRecord w.parent (w.root cfg) .ro w.now)).1

/-- **What the mounts of the call meet.** -/
def visits (s : ChildMountManager) : Nat → Visit
  | 0 => w.visit s w.parent (w.root cfg)
  | i + 1 =>
    match w.parent.childBoundaries[i]? with
    | none => { find := fun _ => none }
    | some b => w.visit (w.standing cfg s (w.parent.childBoundaries.take i)) (w.child b.childId)
        (w.mountpoint cfg b)

/-- Every boundary is a directory in the view of the nearest owner above it. -/
def DirsExist : Prop :=
  ∀ b ∈ w.parent.childBoundaries,
    let above := resolveOwnerPath (w.parent.childBoundaries.filter fun e => e.path ≠ b.path) b.path
      w.parent.id
    w.hasDir above.ownerId above.innerPath = true

/-- **The boundaries can be mounted one after another.** -/
structure InOrder : Prop where
  packed : w.parent.lowers ≠ []
  single : ∀ b ∈ w.parent.childBoundaries, (w.child b.childId).lowers.length = 1
  apart : (w.parent.id :: w.parent.childBoundaries.map (·.childId)).Nodup
  outerFirst : w.parent.childBoundaries.Pairwise fun a b => covers b.path a.path = false

end TreeViews

/-! ## 2. A table in the order of its mounts -/

section Table

variable {s : ChildMountManager} {r : MountRecord} {path : String}

theorem newRecord_manifestId (m : ChildManifest) (mountpoint : String) (mode : MountMode)
    (now : ℚ) : (newRecord m mountpoint mode now).manifestId = m.id := rfl

theorem newRecord_mountpoint (m : ChildManifest) (mountpoint : String) (mode : MountMode)
    (now : ℚ) : (newRecord m mountpoint mode now).mountpoint = mountpoint := rfl

/-- Later records have later handles, and all are mounted. -/
structure Rising (s : ChildMountManager) : Prop where
  handles : (s.records.map (·.2)).Pairwise fun a b => a.handle < b.handle
  mounted : ∀ x ∈ s.records, s.isMounted x.2.handle = true

theorem register_records (hnone : s.find r.manifestId = none) :
    (s.register r).1.records =
      s.records ++ [(r.manifestId, { r with handle := s.handles.length })] := by
  have hkey : r.manifestId ∉ s.records.map (·.1) := by
    rw [Lib.mem_keys_iff]
    show ¬ (s.find r.manifestId).isSome = true
    rw [hnone]
    exact Bool.false_ne_true
  exact if_neg hkey

theorem mountpoint_of_register (hnone : s.find r.manifestId = none) {x : String × MountRecord}
    (hx : x ∈ (s.register r).1.records) : x ∈ s.records ∨ x.2.mountpoint = r.mountpoint := by
  rw [register_records hnone] at hx
  rcases List.mem_append.mp hx with hx | hx
  · exact .inl hx
  · obtain rfl := List.mem_singleton.mp hx
    exact .inr rfl

theorem isMounted_register (s : ChildMountManager) (r : MountRecord) (k : Nat) :
    (s.register r).1.isMounted k = (s.isMounted k || decide (k = s.handles.length)) := by
  unfold ChildMountManager.isMounted
  show (((s.handles ++ [({} : Handle)])[k]?).map (·.mounted)).getD false = _
  rcases Nat.lt_trichotomy k s.handles.length with hlt | rfl | hgt
  · rw [List.getElem?_append_left hlt, decide_eq_false (Nat.ne_of_lt hlt), Bool.or_false]
  · rw [List.getElem?_concat_length, decide_eq_true rfl, Bool.or_true]
    rfl
  · have hnone : (s.handles ++ [({} : Handle)])[k]? = none := by
      rw [List.getElem?_eq_none_iff, List.length_append]
      simpa using hgt
    have hnone' : s.handles[k]? = none := List.getElem?_eq_none_iff.mpr (Nat.le_of_lt hgt)
    rw [hnone, hnone', decide_eq_false (Nat.ne_of_gt hgt), Bool.or_false]

theorem Rising.lt (h : Rising s) {x : String × MountRecord} (hx : x ∈ s.records) :
    x.2.handle < s.handles.length := by
  have hmounted := h.mounted x hx
  by_contra hle
  unfold ChildMountManager.isMounted at hmounted
  rw [List.getElem?_eq_none_iff.mpr (Nat.not_lt.mp hle)] at hmounted
  cases hmounted

theorem Rising.register (h : Rising s) (hnone : s.find r.manifestId = none) :
    Rising (s.register r).1 where
  handles := by
    rw [register_records hnone, List.map_append, List.pairwise_append]
    refine ⟨h.handles, List.pairwise_singleton _ _, fun a ha b hb => ?_⟩
    obtain ⟨x, hx, rfl⟩ := List.mem_map.mp ha
    obtain rfl := List.mem_singleton.mp hb
    exact h.lt hx
  mounted := by
    intro x hx
    rw [register_records hnone] at hx
    rw [isMounted_register]
    rcases List.mem_append.mp hx with hx | hx
    · rw [h.mounted x hx, Bool.true_or]
    · obtain rfl := List.mem_singleton.mp hx
      rw [decide_eq_true rfl, Bool.or_true]

theorem Rising.topmost_eq (h : Rising s) (path : String) :
    s.topmost path = Lib.latest (fun r => covers r.mountpoint path) (s.records.map (·.2)) := by
  have hrising : (s.records.map (·.2)).Pairwise fun a b =>
      (s.isMounted a.handle && covers a.mountpoint path) = true →
      (s.isMounted b.handle && covers b.mountpoint path) = true → a.handle < b.handle :=
    h.handles.imp fun hlt _ _ => hlt
  unfold ChildMountManager.topmost
  rw [← Lib.latest_eq_longest hrising]
  refine Lib.latest_congr fun r hr => ?_
  obtain ⟨x, hx, rfl⟩ := List.mem_map.mp hr
  rw [h.mounted x hx, Bool.true_and]

/-- **A new mount** serves what is below it, and nothing else. -/
theorem Rising.topmost_register (h : Rising s) (hnone : s.find r.manifestId = none)
    (path : String) :
    (s.register r).1.topmost path =
      if covers r.mountpoint path then some { r with handle := s.handles.length }
      else s.topmost path := by
  rw [(h.register hnone).topmost_eq, h.topmost_eq, register_records hnone, List.map_append,
    List.map_singleton, Lib.latest_concat]

/-- Whose mount serves a path, and where that is mounted. -/
def ChildMountManager.serving (s : ChildMountManager) (path : String) : Option (String × String) :=
  (s.topmost path).map fun r => (r.manifestId, r.mountpoint)

theorem Rising.serving_register (h : Rising s) (hnone : s.find r.manifestId = none)
    (path : String) :
    (s.register r).1.serving path =
      if covers r.mountpoint path then some (r.manifestId, r.mountpoint) else s.serving path := by
  unfold ChildMountManager.serving
  rw [h.topmost_register hnone]
  split
  · rfl
  · rfl

end Table

/-! ## 3. What serves a path below the parent -/

section Views

variable {cfg : ManagerConfig} {w : TreeViews} {s : ChildMountManager}
  {done rest : List ChildBoundary} {b : ChildBoundary} {path p : String}

/-- The latest of the boundaries above a path. -/
def latestAbove (done : List ChildBoundary) (p : String) : Option ChildBoundary :=
  Lib.latest (fun b => covers b.path p) done

/-- Whose view serves a path after the parent and these boundaries were mounted, and where that is
    mounted. -/
def TreeViews.served (cfg : ManagerConfig) (w : TreeViews) (done : List ChildBoundary)
    (path : String) : Option (String × String) :=
  match Lib.latest (fun b => covers (w.mountpoint cfg b) path) done with
  | some b => some (b.childId, w.mountpoint cfg b)
  | none => if covers (w.root cfg) path then some (w.parent.id, w.root cfg) else none

/-- **The table after the first boundaries.** -/
structure Stood (cfg : ManagerConfig) (w : TreeViews) (s : ChildMountManager)
    (done : List ChildBoundary) : Prop where
  rising : Rising (w.standing cfg s done)
  apart : (w.parent.id :: done.map (·.childId)).Nodup
  keys : (w.standing cfg s done).records.map (·.1) = w.parent.id :: done.map (·.childId)
  places : ∀ x ∈ (w.standing cfg s done).records,
    x.2.mountpoint = w.root cfg ∨ ∃ b ∈ done, x.2.mountpoint = w.mountpoint cfg b
  serving : ∀ path, (w.standing cfg s done).serving path = w.served cfg done path

theorem standing_concat (cfg : ManagerConfig) (w : TreeViews) (s : ChildMountManager)
    (done : List ChildBoundary) (b : ChildBoundary) :
    w.standing cfg s (done ++ [b]) = ((w.standing cfg s done).register
      (newRecord (w.child b.childId) (w.mountpoint cfg b) .ro w.now)).1 := by
  unfold TreeViews.standing
  rw [List.foldl_append]
  rfl

theorem served_concat (cfg : ManagerConfig) (w : TreeViews) (done : List ChildBoundary)
    (b : ChildBoundary) (path : String) :
    w.served cfg (done ++ [b]) path =
      if covers (w.mountpoint cfg b) path then some (b.childId, w.mountpoint cfg b)
      else w.served cfg done path := by
  unfold TreeViews.served
  rw [Lib.latest_concat]
  cases covers (w.mountpoint cfg b) path with
  | true => rfl
  | false => rfl

theorem Stood.find_none (h : Stood cfg w s done) {id : String}
    (hid : id ∉ w.parent.id :: done.map (·.childId)) : (w.standing cfg s done).find id = none :=
  Lib.lookup_of_not_key (h.keys ▸ hid)

/-- **After each mount** the table is as it should be. -/
theorem stood (cfg : ManagerConfig) (w : TreeViews) (s : ChildMountManager) (hnone : s.records = [])
    (hids : ∀ b ∈ done, (w.child b.childId).id = b.childId)
    (hapart : (w.parent.id :: done.map (·.childId)).Nodup) : Stood cfg w s done := by
  induction done using List.reverseRecOn with
  | nil =>
    have hfind : s.find w.parent.id = none := by
      unfold ChildMountManager.find
      rw [hnone]
      rfl
    have hrising : Rising s := by
      refine ⟨?_, fun x hx => ?_⟩
      · rw [hnone]
        exact List.Pairwise.nil
      · rw [hnone] at hx
        cases hx
    have hrecords := register_records (r := newRecord w.parent (w.root cfg) .ro w.now) hfind
    rw [hnone, List.nil_append] at hrecords
    refine ⟨hrising.register hfind, hapart, ?_, fun x hx => ?_, fun path => ?_⟩
    · show (s.register _).1.records.map (·.1) = _
      rw [hrecords]
      rfl
    · have hx' : x ∈ (s.register (newRecord w.parent (w.root cfg) .ro w.now)).1.records := hx
      rw [hrecords] at hx'
      obtain rfl := List.mem_singleton.mp hx'
      exact .inl rfl
    · have hserving := hrising.serving_register (r := newRecord w.parent (w.root cfg) .ro w.now)
        hfind path
      have hbefore : s.serving path = none := by
        unfold ChildMountManager.serving ChildMountManager.topmost
        rw [hnone]
        rfl
      rw [hbefore] at hserving
      exact hserving
  | append_singleton done b ih =>
    have hboth := hapart
    rw [List.map_append, ← List.cons_append, List.nodup_append] at hboth
    obtain ⟨hdone, -, hnew⟩ := hboth
    have hb : b.childId ∉ w.parent.id :: done.map (·.childId) := fun hmem =>
      hnew _ hmem _ (List.mem_singleton_self _) rfl
    have hid := hids b (List.mem_append_right _ (List.mem_singleton_self b))
    have hst := ih (fun b hb => hids b (List.mem_append_left _ hb)) hdone
    have hfind : (w.standing cfg s done).find
        (newRecord (w.child b.childId) (w.mountpoint cfg b) .ro w.now).manifestId = none :=
      hst.find_none (by rw [newRecord_manifestId, hid]; exact hb)
    have hrecords := register_records hfind
    refine ⟨?_, hapart, ?_, fun x hx => ?_, fun path => ?_⟩
    · rw [standing_concat]
      exact hst.rising.register hfind
    · rw [standing_concat, hrecords, List.map_append, hst.keys, List.map_append]
      show _ ++ [(w.child b.childId).id] = _
      rw [hid]
      rfl
    · rw [standing_concat] at hx
      rcases mountpoint_of_register hfind hx with hx | hplace
      · rcases hst.places x hx with hroot | ⟨e, he, hplace⟩
        · exact .inl hroot
        · exact .inr ⟨e, List.mem_append_left _ he, hplace⟩
      · rw [newRecord_mountpoint] at hplace
        exact .inr ⟨b, List.mem_append_right _ (List.mem_singleton_self b), hplace⟩
    · have hserving := hst.rising.serving_register hfind path
      rw [newRecord_manifestId, newRecord_mountpoint, hid, hst.serving] at hserving
      rw [standing_concat, served_concat]
      exact hserving

/-! Below the parent's mountpoint, in texts. -/

theorem under_normal (hp : NormalPath p) (root : String) : under root p = root ++ "/" ++ p := by
  unfold under
  rw [hp.normalize, if_neg (Hpc.normalPath_ne_dot hp)]

theorem covers_below (root a p : String) :
    covers (root ++ "/" ++ a) (root ++ "/" ++ p) = covers a p := by
  have hroot : ∀ text : String,
      (root ++ "/" ++ text).toList = (root ++ "/").toList ++ text.toList :=
    fun text => String.toList_append
  unfold covers
  rw [Bool.eq_iff_iff, Bool.or_eq_true, Bool.or_eq_true, decide_eq_true_iff, decide_eq_true_iff,
    List.isPrefixOf_iff_prefix, List.isPrefixOf_iff_prefix, ← String.toList_inj,
    ← String.toList_inj, hroot, hroot, List.append_cancel_left_eq, List.append_assoc,
    List.prefix_append_right_inj]

theorem covers_root (root p : String) : covers root (root ++ "/" ++ p) = true := by
  unfold covers
  rw [Bool.or_eq_true, List.isPrefixOf_iff_prefix, String.toList_append, String.toList_append]
  exact .inr (List.prefix_append _ _)

theorem below_inj {root a p : String} (h : root ++ "/" ++ a = root ++ "/" ++ p) : a = p := by
  rw [← String.toList_inj, String.toList_append, String.toList_append (t := p),
    List.append_cancel_left_eq, String.toList_inj] at h
  exact h

theorem ne_below (root p : String) : root ≠ root ++ "/" ++ p := by
  intro h
  have hlength := congrArg (fun text => text.toList.length) h
  simp only [String.toList_append, List.length_append] at hlength
  have hslash : "/".toList.length = 1 := rfl
  omega

theorem innerText_below (root a p : String) :
    innerText (root ++ "/" ++ a) (root ++ "/" ++ p) = innerText a p := by
  unfold innerText
  rw [String.toList_append, String.toList_append (t := p), List.length_append,
    List.drop_append, List.drop_eq_nil_of_le (by omega), List.nil_append, Nat.add_sub_cancel_left]

theorem innerText_root (hp : NormalPath p) (root : String) :
    innerText root (root ++ "/" ++ p) = p := by
  have hslash : "/".toList = ['/'] := rfl
  have hrest : ('/' :: p.toList).dropWhile (· == '/') = p.toList := by
    have hhead := hp.ends.1
    cases hchars : p.toList with
    | nil => rfl
    | cons c rest =>
      rw [hchars] at hhead
      rw [List.dropWhile_cons_of_pos rfl]
      refine List.dropWhile_cons_of_neg fun hc => hhead ?_
      rw [eq_of_beq hc, List.head?_cons]
  unfold innerText
  rw [String.toList_append, String.toList_append, List.append_assoc, List.drop_left, hslash,
    List.singleton_append, hrest, String.ofList_toList]

/-- What `is_dir` answers for a path below the parent: whether the view that serves it has it. -/
def TreeViews.dirIn (w : TreeViews) (done : List ChildBoundary) (p : String) : Bool :=
  match latestAbove done p with
  | some b => w.hasDir b.childId (innerText b.path p)
  | none => w.hasDir w.parent.id p

/-- The owner of a path among the boundaries that are mounted: the latest one above it. -/
def TreeViews.latestOwner (w : TreeViews) (done : List ChildBoundary) (p : String) : String :=
  ((latestAbove done p).map (·.childId)).getD w.parent.id

theorem mountpoint_eq (hb : NormalPath b.path) :
    w.mountpoint cfg b = w.root cfg ++ "/" ++ b.path := by
  unfold TreeViews.mountpoint
  rw [hb.strip, under_normal hb]

theorem latest_mountpoint (hdone : ∀ b ∈ done, NormalPath b.path) (p : String) :
    Lib.latest (fun b => covers (w.mountpoint cfg b) (w.root cfg ++ "/" ++ p)) done =
      latestAbove done p := by
  refine Lib.latest_congr fun b hb => ?_
  rw [mountpoint_eq (hdone b hb), covers_below]

/-- **Below the parent** the latest boundary above a path serves it. -/
theorem Stood.serving_below (h : Stood cfg w s done) (hdone : ∀ b ∈ done, NormalPath b.path)
    (p : String) :
    ((w.standing cfg s done).serving (w.root cfg ++ "/" ++ p)).map Prod.fst =
      some (w.latestOwner done p) := by
  rw [h.serving]
  unfold TreeViews.served TreeViews.latestOwner
  rw [latest_mountpoint hdone]
  cases latestAbove done p with
  | some b => rfl
  | none =>
    dsimp only
    rw [if_pos (covers_root _ _)]
    rfl

theorem isDir_eq (w : TreeViews) (s : ChildMountManager) (path : String) :
    w.isDir s path =
      ((s.serving path).map fun x => w.hasDir x.1 (innerText x.2 path)).getD false := by
  unfold TreeViews.isDir ChildMountManager.serving
  cases s.topmost path with
  | none => rfl
  | some r => rfl

theorem Stood.isDir_below (h : Stood cfg w s done) (hdone : ∀ b ∈ done, NormalPath b.path)
    (hp : NormalPath p) :
    w.isDir (w.standing cfg s done) (w.root cfg ++ "/" ++ p) = w.dirIn done p := by
  rw [isDir_eq, h.serving]
  unfold TreeViews.served TreeViews.dirIn
  rw [latest_mountpoint hdone]
  cases hlatest : latestAbove done p with
  | some b =>
    have hb := hdone b (Lib.latest_mem hlatest).1
    dsimp only
    rw [Option.map_some, Option.getD_some, mountpoint_eq hb, innerText_below]
  | none =>
    dsimp only
    rw [if_pos (covers_root _ _), Option.map_some, Option.getD_some, innerText_root hp]

/-- The last slash is not before another one. -/
theorem prefix_of_last {a n r : List Char} (h : r ++ ['/'] <+: a ++ '/' :: n) (hn : '/' ∉ n) :
    r ++ ['/'] <+: a ++ ['/'] := by
  have hsplit : a ++ '/' :: n = (a ++ ['/']) ++ n := by
    rw [List.append_assoc, List.singleton_append]
  rw [hsplit] at h
  rcases List.prefix_or_prefix_of_prefix h (List.prefix_append (a ++ ['/']) n) with hle | ⟨t, ht⟩
  · exact hle
  · rw [← ht, List.prefix_append_right_inj] at h
    rcases List.eq_nil_or_concat t with rfl | ⟨t', c, rfl⟩
    · rw [← ht, List.append_nil]
    · rw [List.concat_eq_append, ← List.append_assoc] at ht
      have hc : c = '/' := by simpa using (List.append_inj' ht rfl).2
      have hmem : c ∈ n := h.subset (by simp)
      exact absurd (hc ▸ hmem) hn

theorem parent_name (mnt : String) (hslash : '/' ∈ mnt.toList) :
    mnt.toList = (Observe.pathParent mnt).toList ++ '/' :: (pathName mnt).toList ∧
      '/' ∉ (pathName mnt).toList := by
  have hmnt : mnt.toList.reverse = mnt.toList.reverse.takeWhile (· ≠ '/') ++
      mnt.toList.reverse.dropWhile (· ≠ '/') := List.takeWhile_append_dropWhile.symm
  have hname : '/' ∉ mnt.toList.reverse.takeWhile (· ≠ '/') := fun hmem => by
    simpa using List.mem_takeWhile_imp hmem
  unfold Observe.pathParent pathName
  rw [String.toList_ofList, String.toList_ofList, List.mem_reverse]
  refine ⟨?_, hname⟩
  cases hdrop : mnt.toList.reverse.dropWhile (· ≠ '/') with
  | nil =>
    rw [hdrop, List.append_nil] at hmnt
    rw [← hmnt, List.mem_reverse] at hname
    exact absurd hslash hname
  | cons c rest =>
    have hc : c = '/' := by
      have hhead := List.head?_dropWhile_not (· ≠ '/') mnt.toList.reverse
      rw [hdrop] at hhead
      simpa using hhead
    rw [hdrop, hc] at hmnt
    have hback := congrArg List.reverse hmnt
    rw [List.reverse_reverse, List.reverse_append, List.reverse_cons, List.append_assoc] at hback
    exact hback

/-- What is beside a mountpoint below the parent is below the parent. -/
theorem covers_stackRoot (root p : String) :
    covers root (Observe.stackRoot (root ++ "/" ++ p)) = true := by
  have hslash : "/".toList = ['/'] := rfl
  have hmnt : (root ++ "/" ++ p).toList = root.toList ++ '/' :: p.toList := by
    rw [String.toList_append, String.toList_append, hslash, List.append_assoc,
      List.singleton_append]
  obtain ⟨hsplit, hname⟩ := parent_name (root ++ "/" ++ p) (by rw [hmnt]; simp)
  have hbelow : root.toList ++ ['/'] <+:
      (Observe.pathParent (root ++ "/" ++ p)).toList ++ ['/'] := by
    refine prefix_of_last ?_ hname
    rw [← hsplit, hmnt]
    exact ⟨p.toList, by rw [List.append_assoc, List.singleton_append]⟩
  unfold covers Observe.stackRoot pathJoin
  rw [Bool.or_eq_true, List.isPrefixOf_iff_prefix, String.toList_append, String.toList_append,
    hslash]
  exact .inr (hbelow.trans (List.prefix_append _ _))

/-- **In a view** there is no place for a scratch directory. -/
theorem Stood.stackRoot_served (h : Stood cfg w s done) (p : String) :
    ((w.standing cfg s done).topmost
      (Observe.stackRoot (w.root cfg ++ "/" ++ p))).isSome = true := by
  have hsome : ((w.standing cfg s done).serving
      (Observe.stackRoot (w.root cfg ++ "/" ++ p))).isSome = true := by
    rw [h.serving]
    unfold TreeViews.served
    cases Lib.latest (fun b => covers (w.mountpoint cfg b)
        (Observe.stackRoot (w.root cfg ++ "/" ++ p))) done with
    | some b => rfl
    | none =>
      dsimp only
      rw [if_pos (covers_stackRoot _ _)]
      rfl
  unfold ChildMountManager.serving at hsome
  rwa [Option.isSome_map] at hsome

/-! ## 4. The loop -/

/-- The next boundary can be mounted. -/
structure Goes (w : TreeViews) (done : List ChildBoundary) (b : ChildBoundary) : Prop where
  fresh : b.childId ∉ w.parent.id :: done.map (·.childId)
  single : (w.child b.childId).lowers.length = 1
  isDir : w.dirIn done b.path = true

/-- One after another, each can be mounted. -/
def AllGo (w : TreeViews) : List ChildBoundary → List ChildBoundary → Prop
  | _, [] => True
  | done, b :: rest => Goes w done b ∧ AllGo w (done ++ [b]) rest

theorem allGo_iff : AllGo w done rest ↔
    ∀ first b last, rest = first ++ b :: last → Goes w (done ++ first) b := by
  induction rest generalizing done with
  | nil => exact iff_of_true trivial fun first b last h => by simp at h
  | cons c rest ih =>
    unfold AllGo
    rw [ih]
    constructor
    · rintro ⟨hc, hrest⟩ first b last heq
      cases first with
      | nil =>
        obtain ⟨rfl, -⟩ := List.cons.inj heq
        rwa [List.append_nil]
      | cons x first =>
        obtain ⟨rfl, htail⟩ := List.cons.inj heq
        have hgoes := hrest first b last htail
        rwa [List.append_assoc, List.singleton_append] at hgoes
    · intro h
      refine ⟨?_, fun first b last heq => ?_⟩
      · have hgoes := h [] c rest rfl
        rwa [List.append_nil] at hgoes
      · have hgoes := h (c :: first) b last (by rw [heq, List.cons_append])
        rwa [List.append_assoc, List.singleton_append]

/-- **One mount of the loop** goes through, or leaves the table as it is. -/
theorem mountAtTrying_goes (h : Stood cfg w s done) (hdone : ∀ e ∈ done, NormalPath e.path)
    (hb : NormalPath b.path) (hnew : ∀ e ∈ done, e.path ≠ b.path)
    (hid : (w.child b.childId).id = b.childId) :
    (Goes w done b ∧ ∃ r, mountAtTrying (w.standing cfg s done) (w.child b.childId)
        (w.mountpoint cfg b) true
        (w.visit (w.standing cfg s done) (w.child b.childId) (w.mountpoint cfg b)) =
      (w.standing cfg s (done ++ [b]), .ok r)) ∨
    (¬ Goes w done b ∧ ∃ e, mountAtTrying (w.standing cfg s done) (w.child b.childId)
        (w.mountpoint cfg b) true
        (w.visit (w.standing cfg s done) (w.child b.childId) (w.mountpoint cfg b)) =
      (w.standing cfg s done, .error e)) := by
  by_cases hfresh : b.childId ∈ w.parent.id :: done.map (·.childId)
  · -- the child is mounted elsewhere
    refine .inr ⟨fun hgoes => hgoes.fresh hfresh, ?_⟩
    obtain ⟨x, hx, hkey⟩ := List.mem_map.mp (h.keys ▸ hfresh)
    have hfind : (w.standing cfg s done).find (w.child b.childId).id = some x.2 := by
      rw [hid, ← hkey]
      exact (Lib.lookup_eq_some_iff_mem (h.keys ▸ h.apart)).mpr hx
    have hplace : x.2.mountpoint ≠ w.mountpoint cfg b := by
      rw [mountpoint_eq hb]
      rcases h.places x hx with hroot | ⟨e, he, hplace⟩
      · rw [hroot]
        exact ne_below _ _
      · rw [hplace, mountpoint_eq (hdone e he)]
        exact fun heq => hnew e he (below_inj heq)
    unfold mountAtTrying reuseExisting
    rw [hfind]
    dsimp only
    rw [h.rising.mounted x hx, if_neg (by simp), if_pos hplace]
    exact ⟨_, rfl⟩
  · have hfind : (w.standing cfg s done).find (w.child b.childId).id = none :=
      h.find_none (hid.symm ▸ hfresh)
    have hdir : w.isDir (w.standing cfg s done) (w.mountpoint cfg b) = w.dirIn done b.path := by
      rw [mountpoint_eq hb, h.isDir_below hdone hb]
    have hserved : ((w.standing cfg s done).topmost
        (Observe.stackRoot (w.mountpoint cfg b))).isSome = true := by
      rw [mountpoint_eq hb]
      exact h.stackRoot_served b.path
    unfold mountAtTrying reuseExisting
    rw [hfind]
    dsimp only
    unfold mountNew TreeViews.visit
    dsimp only
    rw [hdir, hserved, Bool.and_true]
    by_cases hlowers : (w.child b.childId).lowers = []
    · refine .inr ⟨fun hgoes => ?_, ?_⟩
      · have hsingle := hgoes.single
        rw [hlowers] at hsingle
        cases hsingle
      · rw [if_pos hlowers]
        exact ⟨_, rfl⟩
    · rw [if_neg hlowers]
      cases hthere : w.dirIn done b.path with
      | false =>
        refine .inr ⟨fun hgoes => ?_, ⟨_, rfl⟩⟩
        rw [hgoes.isDir] at hthere
        cases hthere
      | true =>
        by_cases hmany : 2 ≤ (w.child b.childId).lowers.length
        · refine .inr ⟨fun hgoes => ?_, ?_⟩
          · rw [hgoes.single] at hmany
            omega
          · rw [decide_eq_true hmany]
            exact ⟨_, rfl⟩
        · have hsome := List.length_pos_iff.mpr hlowers
          refine .inl ⟨⟨hfresh, by omega, hthere⟩, ?_⟩
          rw [decide_eq_false hmany, standing_concat]
          exact ⟨_, rfl⟩

/-- **The loop** goes through exactly when each boundary can be mounted after the ones before. -/
theorem mountBoundaries_goes (cfg : ManagerConfig) (hnone : s.records = [])
    (hids : ∀ b ∈ w.parent.childBoundaries, (w.child b.childId).id = b.childId)
    (hok : BoundariesOk w.parent.childBoundaries)
    (hsplit : w.parent.childBoundaries = done ++ rest)
    (hapart : (w.parent.id :: done.map (·.childId)).Nodup) (nested : List NestedMount) :
    (AllGo w done rest ∧ (w.parent.id :: (done ++ rest).map (·.childId)).Nodup ∧
      ∃ nested', mountBoundaries (w.visits cfg s) (w.root cfg) (done.length + 1) rest
        (w.standing cfg s done) nested = (w.standing cfg s (done ++ rest), .ok nested')) ∨
    (¬ AllGo w done rest ∧ ∃ t e, mountBoundaries (w.visits cfg s) (w.root cfg) (done.length + 1)
        rest (w.standing cfg s done) nested = (t, .error e)) := by
  induction rest generalizing done nested with
  | nil => exact .inl ⟨trivial, (List.append_nil done).symm ▸ hapart, nested, by
      rw [List.append_nil]
      rfl⟩
  | cons b rest ih =>
    have hdone : ∀ e ∈ done, e ∈ w.parent.childBoundaries := fun e he => by
      rw [hsplit]
      exact List.mem_append_left _ he
    have hb : b ∈ w.parent.childBoundaries := by
      rw [hsplit]
      exact List.mem_append_right _ List.mem_cons_self
    have hst := stood cfg w s hnone (fun e he => hids e (hdone e he)) hapart
    have hnew : ∀ e ∈ done, e.path ≠ b.path := by
      have hdistinct := hok.distinct
      rw [hsplit, List.map_append, List.map_cons, List.nodup_append] at hdistinct
      exact fun e he => hdistinct.2.2 _ (List.mem_map_of_mem he) _ List.mem_cons_self
    have hgoes := mountAtTrying_goes hst (fun e he => hok.normal e (hdone e he)) (hok.normal b hb)
      hnew (hids b hb)
    have hvisit : w.visits cfg s (done.length + 1) = w.visit (w.standing cfg s done)
        (w.child b.childId) (w.mountpoint cfg b) := by
      have hnth : w.parent.childBoundaries[done.length]? = some b := by
        rw [hsplit, List.getElem?_append_right le_rfl, Nat.sub_self]
        rfl
      have htake : w.parent.childBoundaries.take done.length = done := by
        rw [hsplit, List.take_left]
      unfold TreeViews.visits
      dsimp only
      rw [hnth, htake]
    have hmanifest : (w.visits cfg s (done.length + 1)).manifest b.childId =
        .ok (w.child b.childId) := by
      rw [hvisit]
      rfl
    unfold mountBoundaries AllGo
    rw [hmanifest]
    dsimp only
    rw [hvisit]
    rcases hgoes with ⟨hgo, r, heq⟩ | ⟨hno, e, heq⟩
    · have heq' : mountAtTrying (w.standing cfg s done) (w.child b.childId)
          (under (w.root cfg) (stripSlashes b.path)) true
          (w.visit (w.standing cfg s done) (w.child b.childId) (w.mountpoint cfg b)) =
          (w.standing cfg s (done ++ [b]), .ok r) := heq
      rw [heq']
      dsimp only
      have hnext : w.parent.childBoundaries = (done ++ [b]) ++ rest := by
        rw [hsplit, List.append_assoc, List.singleton_append]
      have hnodup : (w.parent.id :: (done ++ [b]).map (·.childId)).Nodup := by
        rw [List.map_append, ← List.cons_append, List.map_singleton]
        refine List.nodup_append.mpr ⟨hapart, List.nodup_singleton _, fun x hx y hy heq => ?_⟩
        obtain rfl := List.mem_singleton.mp hy
        exact hgo.fresh (heq ▸ hx)
      have hrest := ih hnext hnodup (nested ++ [{
        id := (w.child b.childId).id
        path := stripSlashes b.path
        mountpoint := r.mountpoint
        mounted := (w.standing cfg s (done ++ [b])).isMounted r.handle }])
      rw [List.length_append, List.length_singleton, List.append_assoc,
        List.singleton_append] at hrest
      rcases hrest with ⟨hall, hids', hrun⟩ | ⟨hnot, hrun⟩
      · exact .inl ⟨⟨hgo, hall⟩, hids', hrun⟩
      · exact .inr ⟨fun hall => hnot hall.2, hrun⟩
    · have heq' : mountAtTrying (w.standing cfg s done) (w.child b.childId)
          (under (w.root cfg) (stripSlashes b.path)) true
          (w.visit (w.standing cfg s done) (w.child b.childId) (w.mountpoint cfg b)) =
          (w.standing cfg s done, .error e) := heq
      rw [heq']
      exact .inr ⟨fun hall => hno hall.1, _, e, rfl⟩

/-- **The whole call.** -/
theorem handleMountTree_goes (cfg : ManagerConfig) (hnone : s.records = [])
    (hids : ∀ b ∈ w.parent.childBoundaries, (w.child b.childId).id = b.childId)
    (hok : BoundariesOk w.parent.childBoundaries) :
    (w.parent.lowers ≠ [] ∧ AllGo w [] w.parent.childBoundaries ∧
      (w.parent.id :: w.parent.childBoundaries.map (·.childId)).Nodup ∧
      ∃ nested, handleMountTree cfg (w.visits cfg s) false s w.parent.id =
        (w.standing cfg s w.parent.childBoundaries, .ok nested)) ∨
    (¬ (w.parent.lowers ≠ [] ∧ AllGo w [] w.parent.childBoundaries) ∧
      ∃ t e, handleMountTree cfg (w.visits cfg s) false s w.parent.id = (t, .error e)) := by
  have hfind : s.find w.parent.id = none := by
    unfold ChildMountManager.find
    rw [hnone]
    rfl
  have hbefore : ∀ path, s.topmost path = none := by
    intro path
    unfold ChildMountManager.topmost
    rw [hnone]
    rfl
  have hmanifest : (w.visits cfg s 0).manifest w.parent.id = .ok w.parent := rfl
  have hpack : (w.visits cfg s 0).packFails = false := by
    show (decide (2 ≤ w.parent.lowers.length) && (s.topmost _).isSome) = false
    rw [hbefore]
    exact Bool.and_false _
  have hparent : mountAtTrying s w.parent (mountpointOf cfg w.parent) false (w.visits cfg s 0) =
      if w.parent.lowers = [] then (s, .error (.refused (.noLowers w.parent.id)))
      else
        (w.standing cfg s [], .ok (s.register (newRecord w.parent (w.root cfg) .ro w.now)).2) := by
    unfold mountAtTrying reuseExisting
    rw [hfind]
    dsimp only
    unfold mountNew
    rw [hpack]
    rfl
  unfold handleMountTree
  rw [hmanifest]
  dsimp only
  rw [hparent]
  by_cases hlowers : w.parent.lowers = []
  · rw [if_pos hlowers]
    exact .inr ⟨fun h => h.1 hlowers, _, _, rfl⟩
  · rw [if_neg hlowers]
    dsimp only
    have hplace : (s.register (newRecord w.parent (w.root cfg) .ro w.now)).2.mountpoint =
        w.root cfg := newRecord_mountpoint w.parent (w.root cfg) .ro w.now
    have hloop := mountBoundaries_goes cfg hnone hids hok (List.nil_append _).symm
      (List.nodup_singleton _) []
    rw [List.nil_append, List.length_nil, Nat.zero_add] at hloop
    rw [hplace]
    rcases hloop with ⟨hall, hapart, nested, hrun⟩ | ⟨hno, t, e, hrun⟩
    · refine .inl ⟨hlowers, hall, hapart, nested, ?_⟩
      rw [hrun]
      rfl
    · refine .inr ⟨fun h => hno h.2, t, e, ?_⟩
      rw [hrun]

/-! ## 5. The nearest boundary -/

theorem boundariesOk_sublist (hok : BoundariesOk rest) (hsub : done.Sublist rest) :
    BoundariesOk done :=
  ⟨fun b hb => hok.normal b (hsub.subset hb), hok.distinct.sublist (hsub.map _)⟩

/-- **Where outer boundaries come first**, the latest one above a path is the nearest. -/
theorem latestAbove_eq (hok : BoundariesOk done)
    (houter : done.Pairwise fun a b => covers b.path a.path = false) (p : String) :
    latestAbove done p = longestPrefix done p := by
  unfold latestAbove
  rw [Hpc.longestPrefix_eq hok]
  refine Lib.latest_eq_longest (houter.imp fun hnot ha hc => ?_)
  by_contra hle
  have habove := covers_of_length hc ha (Nat.not_lt.mp hle)
  rw [hnot] at habove
  cases habove

theorem ownerId_eq (w : TreeViews) (hok : BoundariesOk done) (hp : NormalPath p) :
    (resolveOwnerPath done p w.parent.id).ownerId =
      ((longestPrefix done p).map (·.childId)).getD w.parent.id := by
  cases hlong : longestPrefix done p with
  | none => rw [Hpc.resolve_none hp hlong]; rfl
  | some b => rw [Hpc.resolve_some hok hp hlong]; rfl

/-- What is above a boundary is among the ones before it, where outer boundaries come first. -/
theorem longestPrefix_before (hok : BoundariesOk (done ++ b :: rest))
    (houter : (done ++ b :: rest).Pairwise fun a b => covers b.path a.path = false) :
    longestPrefix ((done ++ b :: rest).filter fun e => e.path ≠ b.path) b.path =
      longestPrefix done b.path := by
  have hpaths := hok.distinct
  rw [List.map_append, List.map_cons, List.nodup_append] at hpaths
  have hlater := (List.pairwise_cons.mp (List.pairwise_append.mp houter).2.1).1
  have hdone : BoundariesOk done := boundariesOk_sublist hok (List.sublist_append_left _ _)
  have hcover : ∀ l : List ChildBoundary,
      Lib.longest (fun e => e.path.toList.length) (fun e => covers e.path b.path) l =
        Lib.longest (fun e => e.path.toList.length) (fun e => covers e.path b.path)
          (l.filter fun e => covers e.path b.path) :=
    fun l => (Lib.longest_filter fun _ _ hnot => hnot).symm
  rw [Hpc.longestPrefix_eq (boundariesOk_sublist hok List.filter_sublist),
    Hpc.longestPrefix_eq hdone, hcover, hcover done, List.filter_filter, List.filter_append,
    List.filter_cons_of_neg (by simp)]
  have hrest : rest.filter (fun e => covers e.path b.path && decide (e.path ≠ b.path)) = [] := by
    refine List.filter_eq_nil_iff.mpr fun e he hboth => ?_
    rw [hlater e he] at hboth
    cases hboth
  have hfirst : done.filter (fun e => covers e.path b.path && decide (e.path ≠ b.path)) =
      done.filter fun e => covers e.path b.path := by
    refine List.filter_congr fun e he => ?_
    have hne : e.path ≠ b.path :=
      hpaths.2.2 _ (List.mem_map_of_mem he) _ List.mem_cons_self
    rw [decide_eq_true hne, Bool.and_true]
  rw [hrest, hfirst, List.append_nil]

/-- **In order**, every boundary can be mounted. -/
theorem TreeViews.InOrder.allGo (h : w.InOrder) (hok : BoundariesOk w.parent.childBoundaries)
    (hdirs : w.DirsExist) : AllGo w [] w.parent.childBoundaries := by
  refine allGo_iff.mpr fun first b last hsplit => ?_
  rw [List.nil_append]
  have hb : b ∈ w.parent.childBoundaries := by
    rw [hsplit]
    exact List.mem_append_right _ List.mem_cons_self
  have hnormal := hok.normal b hb
  refine ⟨?_, h.single b hb, ?_⟩
  · have hapart := h.apart
    rw [hsplit, List.map_append, ← List.cons_append, List.map_cons, List.nodup_append] at hapart
    exact fun hmem => hapart.2.2 _ hmem _ List.mem_cons_self rfl
  · have hthere := hdirs b hb
    have hfilter : BoundariesOk (w.parent.childBoundaries.filter fun e => e.path ≠ b.path) :=
      boundariesOk_sublist hok List.filter_sublist
    have hbefore := longestPrefix_before (hsplit ▸ hok) (hsplit ▸ h.outerFirst)
    rw [← hsplit] at hbefore
    have hfirst : BoundariesOk first :=
      boundariesOk_sublist hok (hsplit ▸ List.sublist_append_left _ _)
    have houter : first.Pairwise fun a b => covers b.path a.path = false :=
      h.outerFirst.sublist (hsplit ▸ List.sublist_append_left _ _)
    unfold TreeViews.dirIn
    rw [latestAbove_eq hfirst houter, ← hbefore]
    dsimp only at hthere
    cases hlong : longestPrefix (w.parent.childBoundaries.filter fun e => e.path ≠ b.path)
        b.path with
    | none =>
      rw [Hpc.resolve_none hnormal hlong] at hthere
      exact hthere
    | some e =>
      rw [Hpc.resolve_some hfilter hnormal hlong] at hthere
      exact hthere

/-- **In order**, the latest mount above a path is its owner's. -/
theorem latestOwner_eq (hok : BoundariesOk done)
    (houter : done.Pairwise fun a b => covers b.path a.path = false) (hp : NormalPath p) :
    w.latestOwner done p = (resolveOwnerPath done p w.parent.id).ownerId := by
  unfold TreeViews.latestOwner
  rw [latestAbove_eq hok houter, ownerId_eq w hok hp]

/-- A boundary owns its own path. -/
theorem longestPrefix_self (hok : BoundariesOk done) (hb : b ∈ done) :
    longestPrefix done b.path = some b :=
  (Hpc.longestPrefix_eq_some_iff hok).mpr
    ⟨hb, covers_self _, fun _ _ hcover => (prefix_of_covers hcover).length_le⟩

/-- Where the latest mount above each boundary is its own, outer boundaries come first. -/
theorem outerFirst_of_owners (hok : BoundariesOk w.parent.childBoundaries)
    (hapart : (w.parent.id :: w.parent.childBoundaries.map (·.childId)).Nodup)
    (howners : ∀ p, NormalPath p → w.latestOwner w.parent.childBoundaries p =
      (resolveOwnerPath w.parent.childBoundaries p w.parent.id).ownerId) :
    w.parent.childBoundaries.Pairwise fun a b => covers b.path a.path = false := by
  rw [List.pairwise_iff_forall_sublist]
  intro a c hsub
  obtain ⟨before, after, hsplit, ha, hafter⟩ := List.cons_sublist_iff.mp hsub
  have hc : c ∈ after := List.singleton_sublist.mp hafter
  have hmem : a ∈ w.parent.childBoundaries := hsplit ▸ List.mem_append_left _ ha
  by_contra hcover
  -- a later boundary above `a` serves the path of `a`
  obtain ⟨x, hx⟩ := Lib.exists_latest (m := fun e : ChildBoundary => covers e.path a.path) hc
    (by simpa using hcover)
  have hlatest : latestAbove w.parent.childBoundaries a.path = some x := by
    rw [hsplit]
    exact Lib.latest_append hx
  have howner := howners a.path (hok.normal a hmem)
  rw [ownerId_eq w hok (hok.normal a hmem), longestPrefix_self hok hmem] at howner
  unfold TreeViews.latestOwner at howner
  rw [hlatest, Option.map_some, Option.getD_some, Option.map_some, Option.getD_some] at howner
  have hids := (List.nodup_cons.mp hapart).2
  rw [hsplit, List.map_append, List.nodup_append] at hids
  have hxid := List.mem_map_of_mem (f := fun e : ChildBoundary => e.childId) (Lib.latest_mem hx).1
  exact hids.2.2 _ (List.mem_map_of_mem ha) _ hxid howner.symm

/-- **A mounted tree** serves every path below the parent from the view of its owner exactly when
    the parent has packs, each child has one pack, no child is mounted twice, and no boundary comes
    after one that it encloses. -/
theorem mountTree_servesOwners_iff (cfg : ManagerConfig) (w : TreeViews) (s : ChildMountManager)
    (hnone : s.records = [])
    (hids : ∀ b ∈ w.parent.childBoundaries, (w.child b.childId).id = b.childId)
    (hok : BoundariesOk w.parent.childBoundaries) (hdirs : w.DirsExist) :
    ((handleMountTree cfg (w.visits cfg s) false s w.parent.id).2.isOk = true ∧
      ∀ p, NormalPath p →
        ((handleMountTree cfg (w.visits cfg s) false s w.parent.id).1.topmost
            (w.root cfg ++ "/" ++ p)).map (·.manifestId) =
          some (resolveOwnerPath w.parent.childBoundaries p w.parent.id).ownerId) ↔
      w.InOrder := by
  have hserving : ∀ (t : ChildMountManager) (path : String),
      (t.topmost path).map (·.manifestId) = (t.serving path).map Prod.fst := by
    intro t path
    unfold ChildMountManager.serving
    rw [Option.map_map]
    rfl
  have hnormal : ∀ b ∈ w.parent.childBoundaries, NormalPath b.path := hok.normal
  rcases handleMountTree_goes cfg hnone hids hok with
    ⟨hpacked, hall, hapart, nested, hrun⟩ | ⟨hno, t, e, hrun⟩
  · have hst := stood cfg w s hnone hids hapart
    rw [hrun]
    dsimp only
    constructor
    · rintro ⟨-, howners⟩
      refine ⟨hpacked, fun b hb => ?_, hapart, outerFirst_of_owners hok hapart fun p hp => ?_⟩
      · obtain ⟨first, last, hsplit⟩ := List.append_of_mem hb
        exact (allGo_iff.mp hall first b last hsplit).single
      · have howner := howners p hp
        rw [hserving, hst.serving_below hnormal] at howner
        exact Option.some.inj howner
    · intro h
      refine ⟨rfl, fun p hp => ?_⟩
      rw [hserving, hst.serving_below hnormal, latestOwner_eq hok h.outerFirst hp]
  · rw [hrun]
    refine iff_of_false (fun h => by cases h.1) fun h => hno ⟨h.packed, h.allGo hok hdirs⟩

end Views

/-! ## 6. A home with environments -/

def envPack : PackInfo := { path := "packs/env.sqfs", sha256 := "", size := 4 }

/-- Its children have `count` packs each, and every directory is in every view. -/
def homeViews (count : Nat) : TreeViews where
  parent := { Hpc.aliceHome with packStack := dataset.packStack }
  child := fun id => { dataset with
    id := id
    packStack := { lowers := List.replicate count envPack } }
  hasDir := fun _ _ => true

theorem homeViews_servesOwners :
    ((handleMountTree { mountsDir := "/run" } ((homeViews 1).visits { mountsDir := "/run" } {})
        false {} "home:alice").1.topmost ((homeViews 1).root { mountsDir := "/run" } ++ "/" ++
          "conda/envs")).map (·.manifestId) =
      some (resolveOwnerPath Hpc.aliceHome.childBoundaries "conda/envs" "home:alice").ownerId := by
  have hp : NormalPath "conda/envs" :=
    Hpc.aliceHome_ok.normal ⟨"conda/envs", "env:envs", "lazy", "explicit"⟩ (by decide +kernel)
  have hin : (homeViews 1).InOrder :=
    ⟨List.cons_ne_nil _ _, fun _ _ => rfl, by decide +kernel, by decide +kernel⟩
  exact ((mountTree_servesOwners_iff { mountsDir := "/run" } (homeViews 1) {} rfl (fun _ _ => rfl)
    Hpc.aliceHome_ok fun _ _ => rfl).mpr hin).2 "conda/envs" hp

/-- A child of two packs is not mounted. -/
theorem twoPacks_notMounted :
    ¬ ∀ (cfg : ManagerConfig) (w : TreeViews) (s : ChildMountManager), s.records = [] →
      (∀ b ∈ w.parent.childBoundaries, (w.child b.childId).id = b.childId) →
      BoundariesOk w.parent.childBoundaries → w.DirsExist →
      (handleMountTree cfg (w.visits cfg s) false s w.parent.id).2.isOk = true ∧
        ∀ p, NormalPath p →
          ((handleMountTree cfg (w.visits cfg s) false s w.parent.id).1.topmost
              (w.root cfg ++ "/" ++ p)).map (·.manifestId) =
            some (resolveOwnerPath w.parent.childBoundaries p w.parent.id).ownerId := by
  intro hall
  have hmounted := (hall { mountsDir := "/run" } (homeViews 2) {} rfl (fun _ _ => rfl)
    Hpc.aliceHome_ok fun _ _ => rfl).1
  revert hmounted
  decide +kernel

end CccStorage.ChildMounts
