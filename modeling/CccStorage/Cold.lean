/-
  File:      CccStorage/Cold.lean
  Subject:   Cold storage of committed packs (`ccc_storage_cold/archive.py`, `policy.py`): upload,
             eviction, recall, and the manifest states they publish.

  * `packKey`, `manifestWithColdState`, `needsRecall`, `markAccessed` -- the pure parts;
  * `ColdWorld` -- the manifest on disk, the hot pack files and the object store;
  * `archivePacks` (`archive_committed_packs_to_cold_storage`), `mirrorPacks`, `recallPacks` --
    the operations, each returning the world it leaves whether or not it raises;
  * `uploadPacks_spec`, `evictPacks_spec`, `stagePacks_spec`, `publishStaged_spec` -- what their
    parts leave, for packs of distinct names.

  The digest `sha256` and the serialised manifest `dumps` are variables: nothing here depends on
  how they compute.
-/
import CccStorage.Manifest

namespace CccStorage

abbrev Bytes := List UInt8

/-! ## 1. Keys -/

/-- `s.strip('/')`. -/
def stripSlashes (s : String) : String :=
  String.ofList ((s.toList.dropWhile (· == '/')).reverse.dropWhile (· == '/')).reverse

def packKey (pre : String) (pack : PackInfo) : String :=
  stripSlashes pre ++ "/packs/" ++ pathName pack.path

def manifestKey (pre : String) : String := stripSlashes pre ++ "/manifest.toml"

theorem dropWhile_idem {α : Type*} (p : α → Bool) (l : List α) :
    (l.dropWhile p).dropWhile p = l.dropWhile p := by
  induction l with
  | nil => rfl
  | cons a l ih =>
      by_cases h : p a
      · rw [List.dropWhile_cons_of_pos h, ih]
      · rw [List.dropWhile_cons_of_neg h, List.dropWhile_cons_of_neg h]

/-- Dropping at the end leaves a list that starts as before, or nothing. -/
theorem dropWhile_reverse_dropWhile {α : Type*} (p : α → Bool) {l : List α}
    (h : l.dropWhile p = l) :
    ((l.reverse.dropWhile p).reverse).dropWhile p = (l.reverse.dropWhile p).reverse := by
  cases l with
  | nil => rfl
  | cons a l =>
      have ha : p a = false := by
        by_contra hp
        rw [Bool.not_eq_false] at hp
        rw [List.dropWhile_cons_of_pos hp] at h
        have := (List.dropWhile_sublist (l := l) p).length_le
        rw [h, List.length_cons] at this
        omega
      have hsuf : (l.reverse ++ [a]).dropWhile p = l.reverse.dropWhile p ++ [a] := by
        rw [List.dropWhile_append]
        split
        · rename_i hnil
          rw [List.isEmpty_iff] at hnil
          rw [hnil, List.dropWhile_cons_of_neg (by simp [ha])]
          rfl
        · rfl
      rw [List.reverse_cons, hsuf, List.reverse_append, List.reverse_singleton,
        List.singleton_append, List.dropWhile_cons_of_neg (by simp [ha])]

@[simp] theorem stripSlashes_idem (s : String) :
    stripSlashes (stripSlashes s) = stripSlashes s := by
  unfold stripSlashes
  have h := dropWhile_reverse_dropWhile _ (dropWhile_idem (· == '/') s.toList)
  rw [String.toList_ofList, h, List.reverse_reverse, dropWhile_idem]

@[simp] theorem packKey_strip (pre : String) (pack : PackInfo) :
    packKey (stripSlashes pre) pack = packKey pre pack := by
  unfold packKey
  rw [stripSlashes_idem]

/-- Under one prefix, packs of different names have different keys. -/
theorem packKey_inj {pre : String} {p q : PackInfo} (h : packKey pre p = packKey pre q) :
    pathName p.path = pathName q.path := by
  unfold packKey at h
  rw [← String.toList_inj] at h ⊢
  simpa [String.toList_append] using h

/-- The manifest object of a prefix is none of its pack objects. -/
theorem manifestKey_ne_packKey (pre : String) (p : PackInfo) :
    manifestKey pre ≠ packKey pre p := by
  unfold manifestKey packKey
  rw [ne_eq, ← String.toList_inj]
  simp only [String.toList_append, List.append_assoc, List.append_cancel_left_eq]
  intro h
  have h1 := congrArg (fun l => l[1]?) h
  revert h1
  simp

/-! ## 2. Manifest states -/

def PACK_STATE_MISSING : String := "missing"
def PACK_STATE_HOT : String := "hot"
def PACK_STATE_COLD : String := "cold"
def SNAPSHOT_AVAILABLE : String := "available"

/-- `_manifest_with_cold_state`: the cold table of a manifest just uploaded under `pre`. -/
def manifestWithColdState (manifest : ChildManifest) (pre packState backend mode stamp : String) :
    ChildManifest :=
  let cold := { manifest.coldStorage with
    backend := backend
    mode := mode
    packState := packState
    snapshotState := SNAPSHOT_AVAILABLE
    packGeneration := manifest.generation
    mirrorGeneration := manifest.generation
    overlayGeneration := manifest.overlay.overlayGeneration
    uri := stripSlashes pre }
  let cold :=
    if packState = PACK_STATE_COLD then { cold with archivedAt := stamp, lastMirroredAt := stamp }
    else { cold with lastMirroredAt := stamp }
  { manifest with coldStorage := cold }

/-- The manifest an archive publishes: cold and evicted, or hot and mirrored. -/
def archivedManifest (manifest : ChildManifest) (pre : String) (removeHot : Bool)
    (backend stamp : String) : ChildManifest :=
  manifestWithColdState manifest pre (if removeHot then PACK_STATE_COLD else PACK_STATE_HOT)
    backend (if removeHot then "archive" else "mirror") stamp

/-- The manifest `mirror_committed_packs_to_cold_storage` publishes. -/
def mirroredManifest (manifest : ChildManifest) (pre backend stamp : String) : ChildManifest :=
  manifestWithColdState manifest pre PACK_STATE_HOT backend "mirror" stamp

/-- A recalled pack: the same pack, its file in the hot directory. -/
def recalledPack (hotDir : String) (pack : PackInfo) : PackInfo :=
  { pack with path := pathJoin hotDir (pathName pack.path) }

/-- The manifest a recall publishes. -/
def recalledManifest (manifest : ChildManifest) (hotDir stamp : String) : ChildManifest :=
  { manifest with
    coldStorage := { manifest.coldStorage with
      packState := PACK_STATE_HOT
      mode := "recalled"
      lastRecalledAt := stamp
      lastAccessedAt := stamp }
    packStack := { manifest.packStack with
      lowers := manifest.lowers.map (recalledPack hotDir) } }

/-- The manifest `_mark_accessed` writes. -/
def markAccessed (manifest : ChildManifest) (stamp : String) : ChildManifest :=
  { manifest with coldStorage := { manifest.coldStorage with lastAccessedAt := stamp } }

def hotPacksPresent (manifest : ChildManifest) (isFile : String → Bool) : Bool :=
  manifest.lowers.all fun pack => isFile pack.path

def needsRecall (manifest : ChildManifest) (isFile : String → Bool) : Bool :=
  if manifest.lowers = [] then false
  else if manifest.coldStorage.packState = PACK_STATE_COLD then true
  else !hotPacksPresent manifest isFile

section States

variable (m : ChildManifest) (pre packState backend mode stamp hotDir : String)

@[simp] theorem manifestWithColdState_generation :
    (manifestWithColdState m pre packState backend mode stamp).generation = m.generation := rfl

@[simp] theorem manifestWithColdState_lowers :
    (manifestWithColdState m pre packState backend mode stamp).lowers = m.lowers := rfl

@[simp] theorem manifestWithColdState_packState :
    (manifestWithColdState m pre packState backend mode stamp).coldStorage.packState
      = packState := by
  unfold manifestWithColdState
  split <;> rfl

@[simp] theorem manifestWithColdState_uri :
    (manifestWithColdState m pre packState backend mode stamp).coldStorage.uri
      = stripSlashes pre := by
  unfold manifestWithColdState
  split <;> rfl

@[simp] theorem archivedManifest_lowers (removeHot : Bool) :
    (archivedManifest m pre removeHot backend stamp).lowers = m.lowers := rfl

@[simp] theorem archivedManifest_packState (removeHot : Bool) :
    (archivedManifest m pre removeHot backend stamp).coldStorage.packState
      = if removeHot then PACK_STATE_COLD else PACK_STATE_HOT :=
  manifestWithColdState_packState ..

@[simp] theorem archivedManifest_uri (removeHot : Bool) :
    (archivedManifest m pre removeHot backend stamp).coldStorage.uri = stripSlashes pre :=
  manifestWithColdState_uri ..

@[simp] theorem mirroredManifest_lowers :
    (mirroredManifest m pre backend stamp).lowers = m.lowers := rfl

@[simp] theorem mirroredManifest_packState :
    (mirroredManifest m pre backend stamp).coldStorage.packState = PACK_STATE_HOT :=
  manifestWithColdState_packState ..

@[simp] theorem recalledManifest_generation :
    (recalledManifest m hotDir stamp).generation = m.generation := rfl

@[simp] theorem recalledManifest_lowers :
    (recalledManifest m hotDir stamp).lowers = m.lowers.map (recalledPack hotDir) := rfl

@[simp] theorem recalledManifest_packState :
    (recalledManifest m hotDir stamp).coldStorage.packState = PACK_STATE_HOT := rfl

@[simp] theorem markAccessed_generation : (markAccessed m stamp).generation = m.generation := rfl

@[simp] theorem markAccessed_lowers : (markAccessed m stamp).lowers = m.lowers := rfl

@[simp] theorem markAccessed_packState :
    (markAccessed m stamp).coldStorage.packState = m.coldStorage.packState := rfl

@[simp] theorem markAccessed_uri :
    (markAccessed m stamp).coldStorage.uri = m.coldStorage.uri := rfl

end States

/-! ## 3. The operations -/

/-- What cold storage works on: the manifest on disk, the pack files by path, the objects by
    key. -/
structure ColdWorld where
  disk : ChildManifest
  hot : String → Option Bytes
  store : String → Option Bytes

inductive ColdError where
  /-- `put_file` of a path that is no file. -/
  | sourceMissing (path : String)
  /-- `get_file` of a key that holds no object. -/
  | objectNotFound (key : String)
  | noUri (id : String)
  | verificationFailed (key : String)
  deriving DecidableEq, Repr

/-- `store.put_file(key, path)`. -/
def putFile (w : ColdWorld) (key path : String) : Option ColdWorld :=
  (w.hot path).map fun b => { w with store := Function.update w.store key (some b) }

/-- Upload the packs in order, stopping at the first that fails. -/
def uploadPacks (pre : String) : List PackInfo → ColdWorld →
    ColdWorld × Except ColdError (List String)
  | [], w => (w, .ok [])
  | pack :: packs, w =>
    match putFile w (packKey pre pack) pack.path with
    | none => (w, .error (.sourceMissing pack.path))
    | some w' =>
      let r := uploadPacks pre packs w'
      (r.1, r.2.map (packKey pre pack :: ·))

/-- Unlink the hot files of the packs; also the paths that were there. -/
def evictPacks : List PackInfo → ColdWorld → ColdWorld × List String
  | [], w => (w, [])
  | pack :: packs, w =>
    let r := evictPacks packs { w with hot := Function.update w.hot pack.path none }
    (r.1, if (w.hot pack.path).isSome then pack.path :: r.2 else r.2)

section Operations

variable (sha256 : Bytes → String) (dumps : ChildManifest → Bytes)

/-- `archive_committed_packs_to_cold_storage`: every pack, then the manifest object, then the
    manifest on disk, and only then the hot files. -/
def archivePacks (manifest : ChildManifest) (pre : String) (removeHot : Bool)
    (backend stamp : String) (w : ColdWorld) : ColdWorld × Except ColdError ChildManifest :=
  match uploadPacks pre manifest.lowers w with
  | (w, .error e) => (w, .error e)
  | (w, .ok _) =>
    let archived := archivedManifest manifest pre removeHot backend stamp
    let w := { w with store := Function.update w.store (manifestKey pre) (some (dumps archived)) }
    let w := { w with disk := archived }
    if removeHot then ((evictPacks manifest.lowers w).1, .ok archived) else (w, .ok archived)

/-- `mirror_committed_packs_to_cold_storage` with `persist_manifest`. -/
def mirrorPacks (manifest : ChildManifest) (pre backend stamp : String) (w : ColdWorld) :
    ColdWorld × Except ColdError ChildManifest :=
  match uploadPacks pre manifest.lowers w with
  | (w, .error e) => (w, .error e)
  | (w, .ok _) =>
    let mirrored := mirroredManifest manifest pre backend stamp
    let w := { w with store := Function.update w.store (manifestKey pre) (some (dumps mirrored)) }
    ({ w with disk := mirrored }, .ok mirrored)

/-- Download and verify every pack into a temporary file; nothing is published yet. -/
def stagePacks (uri : String) (store : String → Option Bytes) :
    List PackInfo → Except ColdError (List (PackInfo × Bytes))
  | [] => .ok []
  | pack :: packs =>
    let key := packKey uri pack
    match store key with
    | none => .error (.objectNotFound key)
    | some b =>
      if sha256 b ≠ pack.sha256 ∨ b.length ≠ pack.size then .error (.verificationFailed key)
      else (stagePacks uri store packs).map ((pack, b) :: ·)

/-- `os.replace` every staged file onto its place in the hot directory. -/
def publishStaged (hotDir : String) (staged : List (PackInfo × Bytes))
    (hot : String → Option Bytes) : String → Option Bytes :=
  staged.foldl
    (fun hot pb => Function.update hot (pathJoin hotDir (pathName pb.1.path)) (some pb.2)) hot

/-- `recall_cold_storage_packs`. -/
def recallPacks (manifest : ChildManifest) (hotDir stamp : String) (w : ColdWorld) :
    ColdWorld × Except ColdError ChildManifest :=
  if manifest.coldStorage.uri = "" then (w, .error (.noUri manifest.id))
  else
    match stagePacks sha256 manifest.coldStorage.uri w.store manifest.lowers with
    | .error e => (w, .error e)
    | .ok staged =>
      let recalled := recalledManifest manifest hotDir stamp
      ({ w with hot := publishStaged hotDir staged w.hot, disk := recalled }, .ok recalled)

end Operations

/-! ## 4. What the operations leave -/

section Specs

variable {sha256 : Bytes → String} {dumps : ChildManifest → Bytes}
variable {pre uri hotDir : String} {packs : List PackInfo} {w : ColdWorld}

/-- The bytes are those the pack was recorded with. -/
def Matches (sha256 : Bytes → String) (pack : PackInfo) (b : Bytes) : Prop :=
  sha256 b = pack.sha256 ∧ b.length = pack.size

/-- The names of the packs' files are distinct. -/
def NamesDistinct (packs : List PackInfo) : Prop :=
  packs.Pairwise fun p q => pathName p.path ≠ pathName q.path

instance (packs : List PackInfo) : Decidable (NamesDistinct packs) :=
  inferInstanceAs (Decidable (packs.Pairwise _))

@[simp] theorem uploadPacks_disk : (uploadPacks pre packs w).1.disk = w.disk := by
  induction packs generalizing w with
  | nil => rfl
  | cons pack packs ih =>
      unfold uploadPacks
      cases h : putFile w (packKey pre pack) pack.path with
      | none => rfl
      | some w' =>
          obtain ⟨b, -, rfl⟩ := Option.map_eq_some_iff.mp h
          exact ih

@[simp] theorem uploadPacks_hot : (uploadPacks pre packs w).1.hot = w.hot := by
  induction packs generalizing w with
  | nil => rfl
  | cons pack packs ih =>
      unfold uploadPacks
      cases h : putFile w (packKey pre pack) pack.path with
      | none => rfl
      | some w' =>
          obtain ⟨b, -, rfl⟩ := Option.map_eq_some_iff.mp h
          exact ih

/-- Objects under other keys stay. -/
theorem uploadPacks_store_of_ne {key : String} (h : ∀ p ∈ packs, packKey pre p ≠ key) :
    (uploadPacks pre packs w).1.store key = w.store key := by
  induction packs generalizing w with
  | nil => rfl
  | cons pack packs ih =>
      unfold uploadPacks
      cases hput : putFile w (packKey pre pack) pack.path with
      | none => rfl
      | some w' =>
          obtain ⟨b, -, rfl⟩ := Option.map_eq_some_iff.mp hput
          rw [ih fun p hp => h p (List.mem_cons_of_mem _ hp)]
          exact Function.update_of_ne (h pack List.mem_cons_self).symm _ _

/-- **A complete upload**: every pack's object holds the bytes of its hot file. -/
theorem uploadPacks_spec {keys : List String} (hd : NamesDistinct packs)
    (h : (uploadPacks pre packs w).2 = .ok keys) :
    ∀ p ∈ packs, ∃ b, w.hot p.path = some b ∧
      (uploadPacks pre packs w).1.store (packKey pre p) = some b := by
  induction packs generalizing w keys with
  | nil => intro p hp; cases hp
  | cons pack packs ih =>
      unfold uploadPacks at h ⊢
      obtain ⟨hne, hd'⟩ := List.pairwise_cons.mp hd
      cases hput : putFile w (packKey pre pack) pack.path with
      | none =>
          rw [hput] at h
          cases h
      | some w' =>
          rw [hput] at h
          obtain ⟨b, hb, rfl⟩ := Option.map_eq_some_iff.mp hput
          simp only at h ⊢
          cases hr : (uploadPacks pre packs
              { w with store := Function.update w.store (packKey pre pack) (some b) }).2 with
          | error e =>
              rw [hr] at h
              cases h
          | ok keys' =>
              intro p hp
              rcases List.mem_cons.mp hp with rfl | hp
              · refine ⟨b, hb, ?_⟩
                rw [uploadPacks_store_of_ne fun q hq hk => hne q hq (packKey_inj hk).symm]
                exact Function.update_self ..
              · exact ih hd' hr p hp

/-- Without its hot file the first pack cannot be uploaded, and nothing is. -/
theorem uploadPacks_missing {pack : PackInfo} (h : w.hot pack.path = none) :
    uploadPacks pre (pack :: packs) w = (w, .error (.sourceMissing pack.path)) := by
  unfold uploadPacks putFile
  rw [h]
  rfl

/-- **An upload succeeds** exactly when every pack has its hot file. -/
theorem uploadPacks_ok_iff :
    (∃ keys, (uploadPacks pre packs w).2 = .ok keys) ↔ ∀ p ∈ packs, (w.hot p.path).isSome := by
  induction packs generalizing w with
  | nil => exact ⟨fun _ p hp => absurd hp List.not_mem_nil, fun _ => ⟨[], rfl⟩⟩
  | cons pack packs ih =>
      unfold uploadPacks putFile
      cases hfile : w.hot pack.path with
      | none =>
          constructor
          · rintro ⟨keys, h⟩
            cases h
          · intro h
            have hpack := h pack List.mem_cons_self
            rw [hfile] at hpack
            cases hpack
      | some b =>
          have hrest := ih (w := { w with
            store := Function.update w.store (packKey pre pack) (some b) })
          simp only [Option.map_some, List.forall_mem_cons, hfile, Option.isSome_some, true_and]
          rw [← hrest]
          constructor
          · rintro ⟨keys, h⟩
            cases hr : (uploadPacks pre packs { w with
                store := Function.update w.store (packKey pre pack) (some b) }).2 with
            | error e =>
                rw [hr] at h
                cases h
            | ok keys' => exact ⟨keys', rfl⟩
          · rintro ⟨keys, h⟩
            rw [h]
            exact ⟨_, rfl⟩

@[simp] theorem evictPacks_disk : (evictPacks packs w).1.disk = w.disk := by
  induction packs generalizing w with
  | nil => rfl
  | cons pack packs ih =>
      unfold evictPacks
      rw [ih]

@[simp] theorem evictPacks_store : (evictPacks packs w).1.store = w.store := by
  induction packs generalizing w with
  | nil => rfl
  | cons pack packs ih =>
      unfold evictPacks
      rw [ih]

/-- What is gone stays gone. -/
theorem evictPacks_none {path : String} (h : w.hot path = none) :
    (evictPacks packs w).1.hot path = none := by
  induction packs generalizing w with
  | nil => exact h
  | cons pack packs ih =>
      unfold evictPacks
      refine ih ?_
      by_cases hp : path = pack.path
      · subst hp
        exact Function.update_self ..
      · exact (Function.update_of_ne hp ..).trans h

/-- **After an eviction no pack is hot.** -/
theorem evictPacks_spec : ∀ p ∈ packs, (evictPacks packs w).1.hot p.path = none := by
  induction packs generalizing w with
  | nil => intro p hp; cases hp
  | cons pack packs ih =>
      intro p hp
      unfold evictPacks
      rcases List.mem_cons.mp hp with rfl | hp
      · exact evictPacks_none (Function.update_self ..)
      · exact ih p hp

/-- **Staged packs are verified**, one by one in the order of the stack. -/
theorem stagePacks_spec {store : String → Option Bytes} {staged : List (PackInfo × Bytes)}
    (h : stagePacks sha256 uri store packs = .ok staged) :
    staged.map (·.1) = packs ∧ ∀ pb ∈ staged, Matches sha256 pb.1 pb.2 := by
  induction packs generalizing staged with
  | nil =>
      cases h
      exact ⟨rfl, fun pb hpb => by cases hpb⟩
  | cons pack packs ih =>
      unfold stagePacks at h
      simp only at h
      split at h
      · cases h
      · rename_i b hb
        split at h
        · cases h
        · rename_i hok
          rw [not_or, not_ne_iff, not_ne_iff] at hok
          cases hr : stagePacks sha256 uri store packs with
          | error e =>
              rw [hr] at h
              cases h
          | ok rest =>
              rw [hr] at h
              cases h
              obtain ⟨hmap, hall⟩ := ih hr
              refine ⟨by rw [List.map_cons, hmap], fun pb hpb => ?_⟩
              rcases List.mem_cons.mp hpb with rfl | hpb
              · exact hok
              · exact hall pb hpb

/-- Files at other places of the hot directory stay. -/
theorem publishStaged_of_ne {staged : List (PackInfo × Bytes)} {hot : String → Option Bytes}
    {path : String} (h : ∀ pb ∈ staged, pathJoin hotDir (pathName pb.1.path) ≠ path) :
    publishStaged hotDir staged hot path = hot path := by
  unfold publishStaged
  induction staged generalizing hot with
  | nil => rfl
  | cons pb staged ih =>
      rw [List.foldl_cons, ih fun q hq => h q (List.mem_cons_of_mem _ hq)]
      exact Function.update_of_ne (h pb List.mem_cons_self).symm _ _

/-- The name of a path is a file name. -/
theorem isFileName_pathName (path : String) : IsFileName (pathName path) := by
  unfold IsFileName pathName
  rw [String.toList_ofList, List.mem_reverse]
  intro h
  have hall := List.mem_takeWhile_imp h
  simp at hall

@[simp] theorem pathName_recalledPack (p : PackInfo) :
    pathName (recalledPack hotDir p).path = pathName p.path :=
  pathName_join hotDir (isFileName_pathName p.path)

/-- Two files of one directory at one path have one name. -/
theorem pathJoin_name_inj {d : String} {p q : PackInfo}
    (h : pathJoin d (pathName p.path) = pathJoin d (pathName q.path)) :
    pathName p.path = pathName q.path := by
  rw [← pathName_join d (isFileName_pathName p.path), h,
    pathName_join d (isFileName_pathName q.path)]

/-- **Every staged file ends at its own place.** -/
theorem publishStaged_spec {staged : List (PackInfo × Bytes)} {hot : String → Option Bytes}
    (hd : NamesDistinct (staged.map (·.1))) :
    ∀ pb ∈ staged, publishStaged hotDir staged hot (recalledPack hotDir pb.1).path = some pb.2 := by
  induction staged generalizing hot with
  | nil => intro pb hpb; cases hpb
  | cons qb staged ih =>
      rw [List.map_cons] at hd
      obtain ⟨hne, hd'⟩ := List.pairwise_cons.mp hd
      intro pb hpb
      rcases List.mem_cons.mp hpb with rfl | hpb
      · have hrest : ∀ rb ∈ staged, pathJoin hotDir (pathName rb.1.path)
            ≠ (recalledPack hotDir pb.1).path := by
          intro rb hrb heq
          exact hne rb.1 (List.mem_map_of_mem hrb) (pathJoin_name_inj heq.symm)
        have hstep : publishStaged hotDir staged
            (Function.update hot (recalledPack hotDir pb.1).path (some pb.2))
              (recalledPack hotDir pb.1).path = some pb.2 :=
          (publishStaged_of_ne hrest).trans (Function.update_self ..)
        exact hstep
      · exact ih hd' pb hpb

end Specs

end CccStorage
