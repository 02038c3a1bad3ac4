/-
  File:      CccStorage/RegistryReloads.lean
  Subject:   `reload_registry` clears the three maps that all requests share and fills them again;
             every request looks children, manifest paths and state roots up in them
             (`mountd/daemon.py`, `mountd/control.py`).

  * `Registry`, `RegistryMaps` -- the manifest files, and the maps that are filled from them;
  * `Request.accesses` -- what the handlers do with the maps, in order;
  * `registryStep` -- one step of a request: of a reload, or a look-up;
  * `AloneCollects` -- what the request finds when it runs alone;
  * `LooksUpUndisturbed` -- no look-up while another request reloads;
  * `requests_resolveAlone` -- in such runs each request finds what it finds alone;
  * `pinnedWhileReloaded` -- a child that is not found because another request reloads.
-/
import CccStorage.Lib.Dict
import CccStorage.Lib.Interleave
import CccStorage.StateRoots

namespace CccStorage

/-! ## 1. The registry -/

/-- A manifest file that loads, and what of it a resolution reads. -/
structure ManifestFile where
  path : Path
  id : String
  name : String
  parentPath : String
  deriving DecidableEq

/-- The file, and the state root it was found under. -/
structure RegistryFile extends ManifestFile where
  stateRoot : Path
  deriving DecidableEq

structure Registry where
  roots : ServiceRoots
  /-- The files that load under `<state root>/registry`, in path order. -/
  manifests : Path → List ManifestFile
  /-- `str.strip`. -/
  strip : String → String

/-- The files in the order in which `reload_registry` reads them. -/
def Registry.files (reg : Registry) : List RegistryFile :=
  reg.roots.stateRoots.flatMap fun root => (reg.manifests root).map fun m => ⟨m, root⟩

/-- `children`, `manifest_paths` and `manifest_state_roots`. -/
structure RegistryMaps where
  children : List (String × RegistryFile)
  paths : String → Option Path
  stateRoots : String → Option Path

/-- The maps when a file has been read. -/
def RegistryMaps.read (m : RegistryMaps) (f : RegistryFile) : RegistryMaps where
  children := Lib.dictSet m.children f.id f
  paths := Function.update m.paths f.id (some f.path)
  stateRoots := Function.update m.stateRoots f.id (some f.stateRoot)

/-- The maps when the files have been read. -/
def readAll (files : List RegistryFile) : RegistryMaps :=
  files.foldl RegistryMaps.read ⟨[], fun _ => none, fun _ => none⟩

/-- What a request does with the maps. -/
inductive MapAccess where
  /-- `_find(selector)` and `_find(manifest.id)`. -/
  | find (selector : String)
  | findAgain
  | reload
  /-- `self.children[manifest.id]` and `self.children.get(manifest.id, manifest)`. -/
  | child
  | childGet
  /-- `self.manifest_paths[manifest.id]`. -/
  | pathAt
  /-- `_manifest_path` and `_state_root_for_manifest`. -/
  | manifestPath
  | stateRoot
  deriving DecidableEq

/-- What a request has found. -/
inductive Resolution where
  | found (f : RegistryFile)
  /-- The request's own manifest. -/
  | own
  | path (p : Path)
  | stateRoot (root : Path)
  | notFound
  /-- "dictionary changed size during iteration". -/
  | changedSize
  deriving DecidableEq

/-- Where `reload_registry` is: a file is put into one map after another. -/
inductive ReloadStage where
  | clearChildren
  | clearPaths
  | clearStateRoots
  | children (todo : List RegistryFile)
  | paths (f : RegistryFile) (todo : List RegistryFile)
  | stateRoots (f : RegistryFile) (todo : List RegistryFile)
  deriving DecidableEq

/-- What a reload is for. -/
inductive AfterReload where
  | find (selector : String)
  | manifestPath
  | stateRoot
  | done
  deriving DecidableEq

inductive RequestStage where
  | next
  | reload (stage : ReloadStage) (after : AfterReload)
  /-- `_find`: `selector in self.children`, `self.children[selector]`, and the iteration. -/
  | contains (selector : String)
  | get (selector : String)
  | iterate (selector : String)
  | values (selector : String) (index size : Nat)
  /-- `_manifest_path` and `_state_root_for_manifest` after their reload. -/
  | pathAgain
  | stateRootAgain
  | pathParents
  | failed
  deriving DecidableEq

structure RequestThread where
  /-- `manifest.id`. -/
  id : String
  todo : List MapAccess
  stage : RequestStage
  outcomes : List Resolution
  deriving DecidableEq

namespace RequestThread

def goes (t : RequestThread) (stage : RequestStage) : RequestThread := { t with stage := stage }

def answered (t : RequestThread) (o : Resolution) : RequestThread :=
  { t with stage := .next, outcomes := t.outcomes ++ [o] }

def found (t : RequestThread) (f : RegistryFile) : RequestThread :=
  { t with id := f.id, stage := .next, outcomes := t.outcomes ++ [.found f] }

def fails (t : RequestThread) (o : Resolution) : RequestThread :=
  { t with stage := .failed, outcomes := t.outcomes ++ [o] }

end RequestThread

/-- A step of `reload_registry`. -/
def reloadStep (reg : Registry) (m : RegistryMaps) (t : RequestThread) (after : AfterReload) :
    ReloadStage → RegistryMaps × RequestThread
  | .clearChildren => ({ m with children := [] }, t.goes (.reload .clearPaths after))
  | .clearPaths => ({ m with paths := fun _ => none }, t.goes (.reload .clearStateRoots after))
  | .clearStateRoots =>
    ({ m with stateRoots := fun _ => none }, t.goes (.reload (.children reg.files) after))
  | .children [] =>
    match after with
    | .find selector => (m, t.goes (.contains selector))
    | .manifestPath => (m, t.goes .pathAgain)
    | .stateRoot => (m, t.goes .stateRootAgain)
    | .done => (m, t.goes .next)
  | .children (f :: todo) =>
    ({ m with children := Lib.dictSet m.children f.id f }, t.goes (.reload (.paths f todo) after))
  | .paths f todo =>
    ({ m with paths := Function.update m.paths f.id (some f.path) },
      t.goes (.reload (.stateRoots f todo) after))
  | .stateRoots f todo =>
    ({ m with stateRoots := Function.update m.stateRoots f.id (some f.stateRoot) },
      t.goes (.reload (.children todo) after))

/-- `self.children[manifest.id]`, and `get` with the request's own manifest as its default. -/
def lookupChild (m : RegistryMaps) (t : RequestThread) (id : String) (default : Option Resolution) :
    RequestThread :=
  match m.children.lookup id, default with
  | some f, _ => t.found f
  | none, some o => t.answered o
  | none, none => t.fails .notFound

/-- The start of an access. -/
def accessStep (reg : Registry) (m : RegistryMaps) (t : RequestThread) : MapAccess → RequestThread
  | .find selector => t.goes (.reload .clearChildren (.find (reg.strip selector)))
  | .findAgain => t.goes (.reload .clearChildren (.find (reg.strip t.id)))
  | .reload => t.goes (.reload .clearChildren .done)
  | .child => lookupChild m t t.id none
  | .childGet => lookupChild m t t.id (some .own)
  | .pathAt =>
    match m.paths t.id with
    | some p => t.answered (.path p)
    | none => t.fails .notFound
  | .manifestPath =>
    match m.paths t.id with
    | some p => t.answered (.path p)
    | none => t.goes (.reload .clearChildren .manifestPath)
  | .stateRoot =>
    match m.stateRoots t.id with
    | some root => t.answered (.stateRoot root)
    | none => t.goes (.reload .clearChildren .stateRoot)

/-- **A step of a request.** -/
def registryStep (reg : Registry) (m : RegistryMaps) (t : RequestThread) (_ : Unit) :
    Option (RegistryMaps × RequestThread) :=
  match t.stage with
  | .next =>
    match t.todo with
    | [] => none
    | a :: todo => some (m, accessStep reg m { t with todo := todo } a)
  | .reload stage after => some (reloadStep reg m t after stage)
  | .contains selector =>
    if (m.children.lookup selector).isSome then some (m, t.goes (.get selector))
    else some (m, t.goes (.iterate selector))
  | .get selector => some (m, lookupChild m t selector none)
  | .iterate selector => some (m, t.goes (.values selector 0 m.children.length))
  | .values selector index size =>
    if m.children.length ≠ size then some (m, t.fails .changedSize)
    else
      match m.children[index]? with
      | none => some (m, t.fails .notFound)
      | some (_, f) =>
        if selector = f.name ∨ selector = f.parentPath then some (m, t.found f)
        else some (m, t.goes (.values selector (index + 1) size))
  | .pathAgain =>
    match m.paths t.id with
    | some p => some (m, t.answered (.path p))
    | none => some (m, t.fails .notFound)
  | .stateRootAgain =>
    match m.stateRoots t.id with
    | some root => some (m, t.answered (.stateRoot root))
    | none => some (m, t.goes .pathParents)
  | .pathParents =>
    match m.paths t.id with
    | some p =>
      -- `path.parents[2]` of an absolute path
      some (m, t.answered (.stateRoot (if 4 ≤ p.length then p.dropLast.dropLast.dropLast
        else reg.roots.nfsRoot)))
    | none => some (m, t.answered (.stateRoot reg.roots.nfsRoot))
  | .failed => none

/-! ## 2. The handlers -/

/-- `_manifest_status`. -/
def statusAccesses (localAsync : Bool) : List MapAccess :=
  .stateRoot :: if localAsync then [.stateRoot] else []

/-- `_mark_accessed`, and what `_ensure_hot` does. -/
inductive HotBranch where
  | unchanged
  | marked
  /-- Cold when first looked at, and hot or cold again under the lock. -/
  | recalledElsewhere (changed : Bool)
  | recalled
  deriving DecidableEq

def markAccesses (changed : Bool) : List MapAccess :=
  if changed then [.manifestPath, .reload, .childGet] else []

def ensureHotAccesses : HotBranch → List MapAccess
  | .unchanged => markAccesses false
  | .marked => markAccesses true
  | .recalledElsewhere changed => [.stateRoot, .findAgain] ++ markAccesses changed
  | .recalled =>
    [.stateRoot, .findAgain, .stateRoot, .manifestPath, .manifestPath, .reload, .child]

/-- `_compact_if_needed` with a candidate. -/
def compactAccesses : List MapAccess := [.stateRoot, .pathAt, .pathAt, .reload, .child]

/-- `_mirror_after_commit_if_configured`. -/
def mirrorAccesses : List MapAccess := [.manifestPath, .manifestPath, .reload, .child]

/-- `_build_commit_from_source`. -/
def buildAccesses (localAsync compacts mirrors : Bool) : List MapAccess :=
  [.stateRoot, .stateRoot, .pathAt] ++
    -- `_cleanup_local_async_state`
    (if localAsync then [.findAgain, .stateRoot] else []) ++ [.reload, .child] ++
    (if compacts then compactAccesses else []) ++ (if mirrors then mirrorAccesses else []) ++
    statusAccesses localAsync

/-- How a commit goes. -/
inductive CommitBranch where
  /-- The child is mounted writable. -/
  | refused
  | clean
  | writerLockHeld
  | commitLockHeld
  /-- Under the locks: nothing left to commit, or a mirror of another generation. -/
  | cleanAgain
  | conflict
  | built (compacts mirrors : Bool)
  deriving DecidableEq

/-- `_commit_shared_nfs`. -/
def commitSharedAccesses (selector : String) : CommitBranch → List MapAccess
  | .refused => []
  | .clean => [.find selector, .stateRoot] ++ statusAccesses false
  | .writerLockHeld | .commitLockHeld | .cleanAgain | .conflict =>
    [.find selector, .stateRoot, .stateRoot]
  | .built compacts mirrors =>
    [.find selector, .stateRoot, .stateRoot, .find selector, .stateRoot] ++
      buildAccesses false compacts mirrors

/-- `_commit_local_async`. -/
def commitLocalAccesses (selector : String) : CommitBranch → List MapAccess
  | .refused => []
  | .clean => [.find selector, .stateRoot] ++ statusAccesses true
  | .writerLockHeld => [.find selector, .stateRoot]
  | .commitLockHeld => [.find selector, .stateRoot, .stateRoot]
  | .cleanAgain =>
    [.find selector, .stateRoot, .stateRoot, .find selector, .stateRoot] ++ statusAccesses true
  | .conflict => [.find selector, .stateRoot, .stateRoot, .find selector, .stateRoot]
  | .built compacts mirrors =>
    [.find selector, .stateRoot, .stateRoot, .find selector, .stateRoot] ++
      buildAccesses true compacts mirrors

/-- A request, and the branches it takes. -/
inductive Request where
  | reloadRegistry
  | commit (selector : String) (localAsync : Bool) (branch : CommitBranch)
  | compact (selector : String) (localAsync compacted : Bool)
  | pin (selector : String) (localAsync : Bool)
  | coldArchive (selector : String) (localAsync archived : Bool)
  | mount (selector : String) (localAsync : Bool) (branch : HotBranch)
  deriving DecidableEq

/-- **What a handler does with the maps**, in order. -/
def Request.accesses : Request → List MapAccess
  | .reloadRegistry => [.reload]
  | .commit selector localAsync branch =>
    .find selector :: if localAsync then commitLocalAccesses selector branch
      else commitSharedAccesses selector branch
  | .compact selector localAsync compacted =>
    .find selector :: if compacted then compactAccesses ++ statusAccesses localAsync else []
  | .pin selector localAsync =>
    [.find selector, .pathAt, .pathAt, .reload, .child] ++ statusAccesses localAsync
  | .coldArchive selector localAsync archived =>
    [.find selector, .stateRoot, .find selector, .stateRoot] ++
      if archived then
        [.manifestPath, .manifestPath, .reload, .child] ++ statusAccesses localAsync
      else []
  | .mount selector localAsync branch =>
    .find selector :: ensureHotAccesses branch ++ statusAccesses localAsync

/-- A request that arrives. -/
def Request.thread (r : Request) : RequestThread := ⟨"", r.accesses, .next, []⟩

/-! ## 3. Alone and together -/

abbrev RequestThreads (k : Nat) := Lib.Threads k RegistryMaps RequestThread

/-- The requests arrive at a service that has scanned its registry. -/
def startRequests (reg : Registry) {k : Nat} (requests : Fin k → Request) : RequestThreads k where
  shared := readAll reg.files
  pc := fun i => (requests i).thread

/-- **What the request finds when it runs alone**, up to some point of it. -/
def AloneCollects (reg : Registry) (r : Request) (outcomes : List Resolution) : Prop :=
  ∃ (s : RequestThreads 1) (tr : List (Lib.Trans (RequestThreads 1) (Fin 1 × Unit))),
    Lib.Interleaving (registryStep reg) (startRequests reg fun _ => r) tr s ∧
      (s.pc 0).outcomes = outcomes

namespace RequestThread

/-- From the first `clear` to the last entry. -/
def reloading (t : RequestThread) : Bool :=
  match t.stage with
  | .reload .clearChildren _ | .reload (.children []) _ => false
  | .reload _ _ => true
  | _ => false

/-- The next step reads the maps. -/
def looksUp (t : RequestThread) : Bool :=
  match t.stage, t.todo with
  | .next, .child :: _ | .next, .childGet :: _ | .next, .pathAt :: _ | .next, .manifestPath :: _
  | .next, .stateRoot :: _ => true
  | .contains _, _ | .get _, _ | .iterate _, _ | .values _ _ _, _ => true
  | .pathAgain, _ | .stateRootAgain, _ | .pathParents, _ => true
  | _, _ => false

/-- The next step is one of an iteration over the children. -/
def iterates (t : RequestThread) : Bool :=
  match t.stage with
  | .iterate _ | .values _ _ _ => true
  | _ => false

end RequestThread

/-- **The condition**: no request looks anything up while another one reloads, and the children are
    iterated in the order of the registry. -/
structure LooksUpUndisturbed (reg : Registry) {k : Nat} (s : RequestThreads k) (e : Fin k × Unit) :
    Prop where
  reloads : (s.pc e.1).looksUp = true → ∀ j, j ≠ e.1 → (s.pc j).reloading = false
  ordered : (s.pc e.1).iterates = true →
    s.shared.children.map (·.1) = (readAll reg.files).children.map (·.1)

instance (reg : Registry) {k : Nat} (s : RequestThreads k) (e : Fin k × Unit) :
    Decidable (LooksUpUndisturbed reg s e) :=
  decidable_of_iff
    (((s.pc e.1).looksUp = true → ∀ j, j ≠ e.1 → (s.pc j).reloading = false) ∧
      ((s.pc e.1).iterates = true →
        s.shared.children.map (·.1) = (readAll reg.files).children.map (·.1)))
    ⟨fun h => ⟨h.1, h.2⟩, fun h => ⟨h.reloads, h.ordered⟩⟩

/-! ## 4. What the maps hold -/

/-- The file of the id that is read last. -/
def lastFile : List RegistryFile → String → Option RegistryFile
  | [], _ => none
  | f :: files, id => (lastFile files id).or (if f.id = id then some f else none)

theorem lastFile_of_suffix {files todo : List RegistryFile} (h : todo <:+ files) {id : String}
    {f : RegistryFile} (hf : lastFile todo id = some f) : lastFile files id = some f := by
  obtain ⟨done, rfl⟩ := h
  induction done with
  | nil => exact hf
  | cons g done ih =>
      show (lastFile (done ++ todo) id).or _ = some f
      rw [ih]
      rfl

/-- What the maps hold when the files have been read into them. -/
theorem read_foldl (files : List RegistryFile) (m : RegistryMaps) (id : String) :
    (files.foldl RegistryMaps.read m).children.lookup id =
        (lastFile files id).or (m.children.lookup id) ∧
      (files.foldl RegistryMaps.read m).paths id =
        ((lastFile files id).map (·.path)).or (m.paths id) ∧
      (files.foldl RegistryMaps.read m).stateRoots id =
        ((lastFile files id).map (·.stateRoot)).or (m.stateRoots id) := by
  induction files generalizing m with
  | nil => exact ⟨rfl, rfl, rfl⟩
  | cons f files ih =>
      obtain ⟨hchildren, hpaths, hroots⟩ := ih (m.read f)
      have hcons : lastFile (f :: files) id =
          (lastFile files id).or (if f.id = id then some f else none) := rfl
      rw [List.foldl_cons, hchildren, hpaths, hroots, hcons]
      simp only [RegistryMaps.read, Lib.lookup_dictSet, Function.update_apply]
      by_cases hid : id = f.id
      · rw [if_pos hid, if_pos hid, if_pos hid, if_pos hid.symm]
        cases lastFile files id <;> exact ⟨rfl, rfl, rfl⟩
      · rw [if_neg hid, if_neg hid, if_neg hid, if_neg fun h => hid h.symm]
        cases lastFile files id <;> exact ⟨rfl, rfl, rfl⟩

theorem readAll_eq (files : List RegistryFile) (id : String) :
    (readAll files).children.lookup id = lastFile files id ∧
      (readAll files).paths id = (lastFile files id).map (·.path) ∧
      (readAll files).stateRoots id = (lastFile files id).map (·.stateRoot) := by
  obtain ⟨hchildren, hpaths, hroots⟩ := read_foldl files ⟨[], fun _ => none, fun _ => none⟩ id
  exact ⟨hchildren.trans (Option.or_none ..), hpaths.trans (Option.or_none ..),
    hroots.trans (Option.or_none ..)⟩

theorem read_foldl_nodup (files : List RegistryFile) {m : RegistryMaps}
    (h : (m.children.map (·.1)).Nodup) :
    ((files.foldl RegistryMaps.read m).children.map (·.1)).Nodup := by
  induction files generalizing m with
  | nil => exact h
  | cons f files ih => exact ih (m := m.read f) (Lib.nodup_dictSet h f.id f)

theorem readAll_append (done : List RegistryFile) (f : RegistryFile) :
    readAll (done ++ [f]) = (readAll done).read f := by
  unfold readAll
  rw [List.foldl_append]
  rfl

namespace RequestThread

/-- The files that a request has still to put into each map. -/
def pendingChildren (reg : Registry) (t : RequestThread) : List RegistryFile :=
  match t.stage with
  | .reload .clearPaths _ | .reload .clearStateRoots _ => reg.files
  | .reload (.children todo) _ | .reload (.paths _ todo) _ | .reload (.stateRoots _ todo) _ => todo
  | _ => []

def pendingPaths (reg : Registry) (t : RequestThread) : List RegistryFile :=
  match t.stage with
  | .reload .clearPaths _ | .reload .clearStateRoots _ => reg.files
  | .reload (.paths f todo) _ => f :: todo
  | .reload (.children todo) _ | .reload (.stateRoots _ todo) _ => todo
  | _ => []

def pendingStateRoots (reg : Registry) (t : RequestThread) : List RegistryFile :=
  match t.stage with
  | .reload .clearPaths _ | .reload .clearStateRoots _ => reg.files
  | .reload (.paths f todo) _ | .reload (.stateRoots f todo) _ => f :: todo
  | .reload (.children todo) _ => todo
  | _ => []

end RequestThread

variable {reg : Registry} {k : Nat} {β : Type}

/-- **A map has its entries**, or a request is about to put them in. -/
def Filled (files : List RegistryFile) (pending : Fin k → List RegistryFile)
    (value : RegistryFile → β) (get : String → Option β) : Prop :=
  ∀ id, get id = (lastFile files id).map value ∨
    ∃ j f, lastFile files id = some f ∧ lastFile (pending j) id = some f

section Filled

variable {files : List RegistryFile} {pending pending' : Fin k → List RegistryFile}
  {value : RegistryFile → β} {get : String → Option β} {i : Fin k}

/-- A step that leaves the map alone. -/
theorem Filled.keep (h : Filled files pending value get)
    (hother : ∀ j, j ≠ i → pending' j = pending j)
    (hself : pending i = [] ∨ pending' i = pending i) : Filled files pending' value get := by
  intro id
  rcases h id with hget | ⟨j, f, hf, hj⟩
  · exact .inl hget
  · refine .inr ⟨j, f, hf, ?_⟩
    by_cases hji : j = i
    · rw [hji] at hj ⊢
      rcases hself with hnil | hsame
      · rw [hnil] at hj
        cases hj
      · rw [hsame]
        exact hj
    · rw [hother j hji]
      exact hj

/-- The map is cleared by a request that goes on to fill it. -/
theorem Filled.clear (hself : pending i = files) : Filled files pending value fun _ => none := by
  intro id
  cases hf : lastFile files id with
  | none => exact .inl rfl
  | some f => exact .inr ⟨i, f, rfl, by rw [hself]; exact hf⟩

/-- **An entry is put in**: a later file of the same id is still to come, or it is the last. -/
theorem Filled.insert (h : Filled files pending value get)
    (hother : ∀ j, j ≠ i → pending' j = pending j) {f : RegistryFile} {todo : List RegistryFile}
    (hi : pending i = f :: todo) (hi' : pending' i = todo) (hsuffix : f :: todo <:+ files) :
    Filled files pending' value (Function.update get f.id (some (value f))) := by
  intro id
  have hcons : lastFile (f :: todo) id =
      (lastFile todo id).or (if f.id = id then some f else none) := rfl
  cases hlast : lastFile todo id with
  | some g =>
    have hg := lastFile_of_suffix hsuffix (hcons.trans (by rw [hlast]; rfl))
    exact .inr ⟨i, g, hg, by rw [hi']; exact hlast⟩
  | none =>
    rw [hlast] at hcons
    by_cases hid : id = f.id
    · rw [if_pos hid.symm] at hcons
      rw [lastFile_of_suffix hsuffix hcons, hid, Function.update_self]
      exact .inl rfl
    · rw [if_neg fun he => hid he.symm] at hcons
      rw [Function.update_of_ne hid]
      rcases h id with hget | ⟨j, g, hg, hj⟩
      · exact .inl hget
      · by_cases hji : j = i
        · rw [hji, hi, hcons] at hj
          cases hj
        · exact .inr ⟨j, g, hg, by rw [hother j hji]; exact hj⟩

end Filled

/-- The files that are left of a scan are the last ones. -/
def ScansSuffix (reg : Registry) (t : RequestThread) : Prop :=
  match t.stage with
  | .reload (.children todo) _ => todo <:+ reg.files
  | .reload (.paths f todo) _ | .reload (.stateRoots f todo) _ => f :: todo <:+ reg.files
  | _ => True

/-- **The invariant of the shared maps.** -/
structure MapsFill (reg : Registry) (s : RequestThreads k) : Prop where
  children : Filled reg.files (fun j => (s.pc j).pendingChildren reg) (fun f => f)
    fun id => s.shared.children.lookup id
  paths : Filled reg.files (fun j => (s.pc j).pendingPaths reg) (·.path) s.shared.paths
  stateRoots : Filled reg.files (fun j => (s.pc j).pendingStateRoots reg) (·.stateRoot)
    s.shared.stateRoots
  nodup : (s.shared.children.map (·.1)).Nodup
  suffix : ∀ j, ScansSuffix reg (s.pc j)

/-- Maps in which every look-up finds the same. -/
structure RegistryMaps.Agrees (m m' : RegistryMaps) : Prop where
  children : ∀ id, m.children.lookup id = m'.children.lookup id
  paths : m.paths = m'.paths
  stateRoots : m.stateRoots = m'.stateRoots

theorem pending_of_not_reloading {t : RequestThread} (h : t.reloading = false) :
    t.pendingChildren reg = [] ∧ t.pendingPaths reg = [] ∧ t.pendingStateRoots reg = [] := by
  unfold RequestThread.reloading at h
  unfold RequestThread.pendingChildren RequestThread.pendingPaths RequestThread.pendingStateRoots
  cases hstage : t.stage with
  | reload stage after =>
    rw [hstage] at h
    cases stage with
    | clearChildren => exact ⟨rfl, rfl, rfl⟩
    | children todo =>
      cases todo with
      | nil => exact ⟨rfl, rfl, rfl⟩
      | cons f todo => cases h
    | _ => cases h
  | _ => exact ⟨rfl, rfl, rfl⟩

/-- **While nobody reloads, the maps are those of a full scan.** -/
theorem MapsFill.agrees {s : RequestThreads k} (h : MapsFill reg s)
    (hnone : ∀ j, (s.pc j).reloading = false) : s.shared.Agrees (readAll reg.files) := by
  refine ⟨fun id => ?_, funext fun id => ?_, funext fun id => ?_⟩
  · rcases h.children id with hget | ⟨j, f, -, hj⟩
    · rw [(readAll_eq reg.files id).1]
      exact hget.trans (Option.map_id' ..)
    · have hj : lastFile ((s.pc j).pendingChildren reg) id = some f := hj
      rw [(pending_of_not_reloading (hnone j)).1] at hj
      cases hj
  · rcases h.paths id with hget | ⟨j, f, -, hj⟩
    · rw [hget, (readAll_eq reg.files id).2.1]
    · have hj : lastFile ((s.pc j).pendingPaths reg) id = some f := hj
      rw [(pending_of_not_reloading (hnone j)).2.1] at hj
      cases hj
  · rcases h.stateRoots id with hget | ⟨j, f, -, hj⟩
    · rw [hget, (readAll_eq reg.files id).2.2]
    · have hj : lastFile ((s.pc j).pendingStateRoots reg) id = some f := hj
      rw [(pending_of_not_reloading (hnone j)).2.2] at hj
      cases hj

section Steps

variable {s : RequestThreads k} {i : Fin k} {u : RegistryMaps} {t : RequestThread}

/-- The maps of a request that runs alone. -/
def AloneMaps (reg : Registry) (t : RequestThread) (m : RegistryMaps) : Prop :=
  match t.stage with
  | .reload .clearPaths _ => m = { readAll reg.files with children := [] }
  | .reload .clearStateRoots _ =>
    m = { readAll reg.files with children := [], paths := fun _ => none }
  | .reload (.children todo) _ => ∃ done, done ++ todo = reg.files ∧ m = readAll done
  | .reload (.paths f todo) _ => ∃ done, done ++ f :: todo = reg.files ∧
      m = { readAll done with children := (readAll (done ++ [f])).children }
  | .reload (.stateRoots f todo) _ => ∃ done, done ++ f :: todo = reg.files ∧
      m = { readAll (done ++ [f]) with stateRoots := (readAll done).stateRoots }
  | _ => m = readAll reg.files

/-- A request that has nothing to put into the maps. -/
structure Settled (reg : Registry) (t : RequestThread) : Prop where
  children : t.pendingChildren reg = []
  paths : t.pendingPaths reg = []
  stateRoots : t.pendingStateRoots reg = []
  suffix : ScansSuffix reg t
  alone : AloneMaps reg t (readAll reg.files)

theorem Settled.of_stage (h : ∀ r after, t.stage ≠ .reload r after) : Settled reg t := by
  have hpending : t.reloading = false := by
    unfold RequestThread.reloading
    cases hstage : t.stage with
    | reload r after => exact (h r after hstage).elim
    | _ => rfl
  obtain ⟨hchildren, hpaths, hroots⟩ : t.pendingChildren reg = [] ∧ t.pendingPaths reg = [] ∧
      t.pendingStateRoots reg = [] := pending_of_not_reloading hpending
  refine ⟨hchildren, hpaths, hroots, ?_, ?_⟩
  · unfold ScansSuffix
    cases hstage : t.stage with
    | reload r after => exact (h r after hstage).elim
    | _ => trivial
  · unfold AloneMaps
    cases hstage : t.stage with
    | reload r after => exact (h r after hstage).elim
    | _ => rfl

theorem lookupChild_settled {m : RegistryMaps} {id : String} {default : Option Resolution} :
    Settled reg (lookupChild m t id default) := by
  unfold lookupChild
  split <;> exact ⟨rfl, rfl, rfl, trivial, rfl⟩

theorem accessStep_settled {m : RegistryMaps} (a : MapAccess) :
    Settled reg (accessStep reg m t a) := by
  cases a with
  | find selector => exact ⟨rfl, rfl, rfl, trivial, rfl⟩
  | findAgain => exact ⟨rfl, rfl, rfl, trivial, rfl⟩
  | reload => exact ⟨rfl, rfl, rfl, trivial, rfl⟩
  | child => exact lookupChild_settled
  | childGet => exact lookupChild_settled
  | pathAt =>
    simp only [accessStep]
    split <;> exact ⟨rfl, rfl, rfl, trivial, rfl⟩
  | manifestPath =>
    simp only [accessStep]
    split <;> exact ⟨rfl, rfl, rfl, trivial, rfl⟩
  | stateRoot =>
    simp only [accessStep]
    split <;> exact ⟨rfl, rfl, rfl, trivial, rfl⟩

/-- **A step that is not one of a reload** leaves the maps alone. -/
theorem registryStep_settled {m : RegistryMaps} {t' : RequestThread} {a : Unit}
    (h : ∀ r after, t.stage ≠ .reload r after) (hs : registryStep reg m t a = some (u, t')) :
    u = m ∧ Settled reg t' := by
  unfold registryStep at hs
  cases hstage : t.stage with
  | next =>
    rw [hstage] at hs
    simp only at hs
    split at hs <;> cases hs
    exact ⟨rfl, accessStep_settled _⟩
  | reload r after => exact (h r after hstage).elim
  | contains selector =>
    rw [hstage] at hs
    simp only at hs
    split at hs <;> cases hs <;> exact ⟨rfl, rfl, rfl, rfl, trivial, rfl⟩
  | get selector =>
    rw [hstage] at hs
    cases hs
    exact ⟨rfl, lookupChild_settled⟩
  | iterate selector =>
    rw [hstage] at hs
    cases hs
    exact ⟨rfl, rfl, rfl, rfl, trivial, rfl⟩
  | values selector index size =>
    rw [hstage] at hs
    simp only at hs
    split at hs
    · cases hs
      exact ⟨rfl, rfl, rfl, rfl, trivial, rfl⟩
    · split at hs
      · cases hs
        exact ⟨rfl, rfl, rfl, rfl, trivial, rfl⟩
      · split at hs <;> cases hs <;> exact ⟨rfl, rfl, rfl, rfl, trivial, rfl⟩
  | pathAgain =>
    rw [hstage] at hs
    simp only at hs
    split at hs <;> cases hs <;> exact ⟨rfl, rfl, rfl, rfl, trivial, rfl⟩
  | stateRootAgain =>
    rw [hstage] at hs
    simp only at hs
    split at hs <;> cases hs <;> exact ⟨rfl, rfl, rfl, rfl, trivial, rfl⟩
  | pathParents =>
    rw [hstage] at hs
    simp only at hs
    split at hs <;> cases hs <;> exact ⟨rfl, rfl, rfl, rfl, trivial, rfl⟩
  | failed =>
    rw [hstage] at hs
    cases hs

/-- **Every step keeps the maps filled.** -/
theorem registryStep_fills (h : MapsFill reg s) {a : Unit}
    (hs : registryStep reg s.shared (s.pc i) a = some (u, t)) :
    MapsFill reg ((s.sharing u).moved i t) := by
  have hother : ∀ j, j ≠ i → ((s.sharing u).moved i t).pc j = s.pc j :=
    fun j hj => (s.sharing u).moved_of_ne t hj
  have hself : ((s.sharing u).moved i t).pc i = t := (s.sharing u).moved_self i t
  have hc : ∀ j, j ≠ i → (((s.sharing u).moved i t).pc j).pendingChildren reg =
      (s.pc j).pendingChildren reg := fun j hj => by rw [hother j hj]
  have hp : ∀ j, j ≠ i → (((s.sharing u).moved i t).pc j).pendingPaths reg =
      (s.pc j).pendingPaths reg := fun j hj => by rw [hother j hj]
  have hr : ∀ j, j ≠ i → (((s.sharing u).moved i t).pc j).pendingStateRoots reg =
      (s.pc j).pendingStateRoots reg := fun j hj => by rw [hother j hj]
  have hsuffix : ScansSuffix reg t → ∀ j, ScansSuffix reg (((s.sharing u).moved i t).pc j) := by
    intro ht j
    by_cases hj : j = i
    · rw [hj, hself]
      exact ht
    · rw [hother j hj]
      exact h.suffix j
  have hi := h.suffix i
  by_cases hstage : ∃ r after, (s.pc i).stage = .reload r after
  · obtain ⟨r, after, hstage⟩ := hstage
    have hq : s.pc i = ⟨(s.pc i).id, (s.pc i).todo, .reload r after, (s.pc i).outcomes⟩ := by
      rw [← hstage]
    rw [hq] at hs hi
    cases r with
    | clearChildren =>
      cases hs
      refine ⟨.clear (i := i) ?_, h.paths.keep hp (.inl ?_), h.stateRoots.keep hr (.inl ?_),
        List.nodup_nil, hsuffix trivial⟩
      · rw [hself]
        rfl
      · rw [hq]
        rfl
      · rw [hq]
        rfl
    | clearPaths =>
      cases hs
      refine ⟨h.children.keep hc (.inr ?_), .clear (i := i) ?_, h.stateRoots.keep hr (.inr ?_),
        h.nodup, hsuffix trivial⟩
      · rw [hself, hq]
        rfl
      · rw [hself]
        rfl
      · rw [hself, hq]
        rfl
    | clearStateRoots =>
      cases hs
      refine ⟨h.children.keep hc (.inr ?_), h.paths.keep hp (.inr ?_), .clear (i := i) ?_,
        h.nodup, hsuffix (List.suffix_refl _)⟩
      · rw [hself, hq]
        rfl
      · rw [hself, hq]
        rfl
      · rw [hself]
        rfl
    | children todo =>
      cases todo with
      | nil =>
        have ht : u = s.shared ∧ ScansSuffix reg t := by
          cases after <;> cases hs <;> exact ⟨rfl, trivial⟩
        obtain ⟨rfl, ht⟩ := ht
        refine ⟨h.children.keep hc (.inl ?_), h.paths.keep hp (.inl ?_),
          h.stateRoots.keep hr (.inl ?_), h.nodup, hsuffix ht⟩
        · rw [hq]
          rfl
        · rw [hq]
          rfl
        · rw [hq]
          rfl
      | cons f todo =>
        cases hs
        have hset : (fun id => (Lib.dictSet s.shared.children f.id f).lookup id) =
            Function.update (fun id => s.shared.children.lookup id) f.id (some f) := by
          funext id
          rw [Lib.lookup_dictSet, Function.update_apply]
        have hinsert := h.children.insert hc (f := f) (by rw [hq]; rfl)
          (by rw [hself]; rfl) hi
        rw [← hset] at hinsert
        refine ⟨hinsert, h.paths.keep hp (.inr ?_), h.stateRoots.keep hr (.inr ?_),
          Lib.nodup_dictSet h.nodup f.id f, hsuffix hi⟩
        · rw [hself, hq]
          rfl
        · rw [hself, hq]
          rfl
    | paths f todo =>
      cases hs
      have hinsert := h.paths.insert hp (f := f) (by rw [hq]; rfl)
        (by rw [hself]; rfl) hi
      refine ⟨h.children.keep hc (.inr ?_), hinsert, h.stateRoots.keep hr (.inr ?_), h.nodup,
        hsuffix hi⟩
      · rw [hself, hq]
        rfl
      · rw [hself, hq]
        rfl
    | stateRoots f todo =>
      cases hs
      have hinsert := h.stateRoots.insert hr (f := f) (by rw [hq]; rfl)
        (by rw [hself]; rfl) hi
      refine ⟨h.children.keep hc (.inr ?_), h.paths.keep hp (.inr ?_), hinsert, h.nodup,
        hsuffix ((List.suffix_cons f todo).trans hi)⟩
      · rw [hself, hq]
        rfl
      · rw [hself, hq]
        rfl
  · have hnot : ∀ r after, (s.pc i).stage ≠ .reload r after :=
      fun r after he => hstage ⟨r, after, he⟩
    obtain ⟨rfl, ht⟩ := registryStep_settled hnot hs
    have hold : Settled reg (s.pc i) := .of_stage hnot
    exact ⟨h.children.keep hc (.inl hold.children), h.paths.keep hp (.inl hold.paths),
      h.stateRoots.keep hr (.inl hold.stateRoots), h.nodup, hsuffix ht.suffix⟩

/-! ## 5. Every request as it is alone -/

theorem lookupChild_agrees {m m' : RegistryMaps} (h : m.Agrees m') (id : String)
    (default : Option Resolution) : lookupChild m t id default = lookupChild m' t id default := by
  unfold lookupChild
  rw [h.children id]

/-- **A look-up finds the same** in maps that agree; an iteration, in the same maps. -/
theorem registryStep_agrees {m m' : RegistryMaps} {t' : RequestThread} {a : Unit}
    (h : ∀ r after, t.stage ≠ .reload r after) (hlook : t.looksUp = true → m.Agrees m')
    (hiterate : t.iterates = true → m = m') (hs : registryStep reg m t a = some (u, t')) :
    registryStep reg m' t a = some (m', t') := by
  unfold RequestThread.looksUp at hlook
  unfold RequestThread.iterates at hiterate
  unfold registryStep at hs ⊢
  cases hstage : t.stage with
  | next =>
    rw [hstage] at hs hlook
    simp only at hs ⊢
    cases htodo : t.todo with
    | nil =>
      rw [htodo] at hs
      cases hs
    | cons a todo =>
      rw [htodo] at hs hlook
      have hsame : accessStep reg m { t with todo := todo } a =
          accessStep reg m' { t with todo := todo } a := by
        cases a with
        | find selector => rfl
        | findAgain => rfl
        | reload => rfl
        | child => exact lookupChild_agrees (hlook rfl) _ _
        | childGet => exact lookupChild_agrees (hlook rfl) _ _
        | pathAt =>
          simp only [accessStep]
          rw [(hlook rfl).paths]
        | manifestPath =>
          simp only [accessStep]
          rw [(hlook rfl).paths]
        | stateRoot =>
          simp only [accessStep]
          rw [(hlook rfl).stateRoots]
      rw [hstage] at hsame
      cases hs
      exact congrArg (fun t' => some (m', t')) hsame.symm
  | reload r after => exact (h r after hstage).elim
  | contains selector =>
    rw [hstage] at hs hlook
    simp only at hs ⊢
    rw [(hlook rfl).children selector] at hs
    split at hs <;> rename_i hfound <;> cases hs
    · rw [if_pos hfound]
    · rw [if_neg hfound]
  | get selector =>
    rw [hstage] at hs hlook
    cases hs
    simp only
    rw [lookupChild_agrees (hlook rfl) selector none]
  | iterate selector =>
    rw [hstage] at hs hiterate
    cases hs
    rw [hiterate rfl]
  | values selector index size =>
    have hstep : registryStep reg m t a = some (u, t') := by
      unfold registryStep
      exact hs
    have hmaps := (registryStep_settled h hstep).1
    rw [hstage] at hs hiterate
    rw [← hiterate rfl]
    rw [hmaps] at hs
    exact hs
  | pathAgain =>
    rw [hstage] at hs hlook
    simp only at hs ⊢
    rw [(hlook rfl).paths] at hs
    split at hs <;> cases hs <;> rfl
  | stateRootAgain =>
    rw [hstage] at hs hlook
    simp only at hs ⊢
    rw [(hlook rfl).stateRoots] at hs
    split at hs <;> cases hs <;> rfl
  | pathParents =>
    rw [hstage] at hs hlook
    simp only at hs ⊢
    rw [(hlook rfl).paths] at hs
    split at hs <;> cases hs <;> rfl
  | failed =>
    rw [hstage] at hs
    cases hs

/-- **A step that the request takes, it takes alone**, if what it looks up is there. -/
theorem registryStep_alone {m v : RegistryMaps} {t' : RequestThread} {a : Unit}
    (hm : AloneMaps reg t m) (hlook : t.looksUp = true → v.Agrees (readAll reg.files))
    (hiterate : t.iterates = true → v = readAll reg.files)
    (hs : registryStep reg v t a = some (u, t')) :
    ∃ m', registryStep reg m t a = some (m', t') ∧ AloneMaps reg t' m' := by
  by_cases hstage : ∃ r after, t.stage = .reload r after
  · obtain ⟨r, after, hstage⟩ := hstage
    unfold registryStep at hs ⊢
    unfold AloneMaps at hm
    rw [hstage] at hs hm ⊢
    cases r with
    | clearChildren =>
      cases hs
      refine ⟨_, rfl, ?_⟩
      show { m with children := [] } = _
      rw [show m = readAll reg.files from hm]
    | clearPaths =>
      cases hs
      refine ⟨_, rfl, ?_⟩
      show { m with paths := fun _ => none } = _
      rw [show m = { readAll reg.files with children := [] } from hm]
    | clearStateRoots =>
      cases hs
      refine ⟨_, rfl, [], rfl, ?_⟩
      show { m with stateRoots := fun _ => none } = _
      rw [show m = { readAll reg.files with children := [], paths := fun _ => none } from hm]
      rfl
    | children todo =>
      obtain ⟨done, hdone, hm⟩ := hm
      cases todo with
      | nil =>
        rw [List.append_nil] at hdone
        have hfull : m = readAll reg.files := by rw [hm, hdone]
        cases after <;> cases hs <;> exact ⟨m, rfl, hfull⟩
      | cons f todo =>
        cases hs
        refine ⟨_, rfl, done, hdone, ?_⟩
        show { m with children := Lib.dictSet m.children f.id f } = _
        rw [hm, readAll_append]
        rfl
    | paths f todo =>
      obtain ⟨done, hdone, hm⟩ := hm
      cases hs
      refine ⟨_, rfl, done, hdone, ?_⟩
      show { m with paths := Function.update m.paths f.id (some f.path) } = _
      rw [hm, readAll_append]
      rfl
    | stateRoots f todo =>
      obtain ⟨done, hdone, hm⟩ := hm
      cases hs
      refine ⟨_, rfl, done ++ [f], ?_, ?_⟩
      · rw [← hdone, List.append_assoc]
        rfl
      · show { m with stateRoots := Function.update m.stateRoots f.id (some f.stateRoot) } = _
        rw [hm, readAll_append]
        rfl
  · have hnot : ∀ r after, t.stage ≠ .reload r after := fun r after he => hstage ⟨r, after, he⟩
    have hfull : m = readAll reg.files := by
      unfold AloneMaps at hm
      cases he : t.stage with
      | reload r after => exact (hnot r after he).elim
      | _ =>
        rw [he] at hm
        exact hm
    have hstep := registryStep_agrees hnot hlook hiterate hs
    rw [← hfull] at hstep
    exact ⟨m, hstep, hfull ▸ (registryStep_settled hnot hs).2.alone⟩

end Steps

/-! ## 6. Runs -/

/-- A run of the request alone, up to where it is. -/
def AloneAt (reg : Registry) (r : Request) (t : RequestThread) : Prop :=
  ∃ (m : RegistryMaps) (tr : List (Lib.Trans (RequestThreads 1) (Fin 1 × Unit))),
    Lib.Interleaving (registryStep reg) (startRequests reg fun _ => r) tr ⟨m, fun _ => t⟩ ∧
      AloneMaps reg t m

theorem AloneAt.step {r : Request} {t t' : RequestThread} {u v : RegistryMaps} {a : Unit}
    (h : AloneAt reg r t) (hlook : t.looksUp = true → v.Agrees (readAll reg.files))
    (hiterate : t.iterates = true → v = readAll reg.files)
    (hs : registryStep reg v t a = some (u, t')) : AloneAt reg r t' := by
  obtain ⟨m, tr, hrun, hm⟩ := h
  obtain ⟨m', hstep, hm'⟩ := registryStep_alone hm hlook hiterate hs
  refine ⟨m', _, hrun.step (e := (0, a)) ?_, hm'⟩
  unfold Lib.Threads.next
  simp only [hstep]
  refine congrArg some (congrArg (Lib.Threads.mk m') (funext fun j => ?_))
  rw [Subsingleton.elim j 0, Function.update_self]

/-- Every request is where it is alone, and the maps are filled. -/
structure RequestsHold (reg : Registry) (requests : Fin k → Request) (s : RequestThreads k) :
    Prop where
  maps : MapsFill reg s
  alone : ∀ i, AloneAt reg (requests i) (s.pc i)

theorem startRequests_hold (reg : Registry) (requests : Fin k → Request) :
    RequestsHold reg requests (startRequests reg requests) := by
  refine ⟨⟨fun id => .inl ?_, fun id => .inl (readAll_eq reg.files id).2.1,
    fun id => .inl (readAll_eq reg.files id).2.2, read_foldl_nodup reg.files List.nodup_nil,
    fun _ => trivial⟩, fun i => ⟨readAll reg.files, [], .start, rfl⟩⟩
  exact (readAll_eq reg.files id).1.trans (Option.map_id' ..).symm

/-- **Every step of every request** keeps each of them where it is alone. -/
theorem RequestsHold.next {requests : Fin k → Request} {s t : RequestThreads k}
    {e : Fin k × Unit} (h : RequestsHold reg requests s) (hg : LooksUpUndisturbed reg s e)
    (hs : s.next (registryStep reg) e = some t) : RequestsHold reg requests t := by
  obtain ⟨u, p, hf, rfl⟩ := Lib.Threads.next_eq_moved hs
  refine ⟨registryStep_fills h.maps hf, fun j => ?_⟩
  by_cases hj : j = e.1
  · have hagrees : (s.pc e.1).looksUp = true → s.shared.Agrees (readAll reg.files) := by
      refine fun hlook => h.maps.agrees fun j => ?_
      by_cases hj : j = e.1
      · rw [hj]
        unfold RequestThread.looksUp at hlook
        unfold RequestThread.reloading
        cases hstage : (s.pc e.1).stage with
        | reload r after =>
          rw [hstage] at hlook
          cases hlook
        | _ => rfl
      · exact hg.reloads hlook j hj
    rw [hj, Lib.Threads.moved_self]
    refine (h.alone e.1).step hagrees (fun hiterate => ?_) hf
    have hlook : (s.pc e.1).looksUp = true := by
      unfold RequestThread.iterates at hiterate
      unfold RequestThread.looksUp
      split at hiterate <;> rename_i hstage
      · rw [hstage]
      · rw [hstage]
      · cases hiterate
    have hsame := hagrees hlook
    have hchildren : s.shared.children = (readAll reg.files).children :=
      Lib.dict_ext h.maps.nodup (hg.ordered hiterate) hsame.children
    cases hmaps : s.shared with
    | mk children paths stateRoots =>
      rw [hmaps] at hchildren hsame
      rw [show children = _ from hchildren, show paths = _ from hsame.paths,
        show stateRoots = _ from hsame.stateRoots]
  · rw [Lib.Threads.moved_of_ne _ _ hj]
    exact h.alone j

/-- **Concurrent requests resolve as alone**: in any interleaving of requests with reloads in which
    no request looks anything up while another one reloads, and none iterates over the children out
    of their order, each request has found, at every moment, what it finds when it runs alone. -/
theorem requests_resolveAlone {requests : Fin k → Request} {s : RequestThreads k}
    {tr : List (Lib.Trans (RequestThreads k) (Fin k × Unit))}
    (hrun : Lib.Interleaving (registryStep reg) (startRequests reg requests) tr s)
    (hok : ∀ x ∈ tr, LooksUpUndisturbed reg x.pre x.ev) :
    ∀ i, AloneCollects reg (requests i) (s.pc i).outcomes ∧
      ∀ x ∈ tr, AloneCollects reg (requests i) (x.post.pc i).outcomes := by
  have hinv := hrun.invariant (I := RequestsHold reg requests) (G := LooksUpUndisturbed reg)
    (startRequests_hold reg requests) (fun _ _ _ ha hg hs => ha.next hg hs) hok
  have hcollects : ∀ {s i}, RequestsHold reg requests s →
      AloneCollects reg (requests i) (s.pc i).outcomes := by
    intro s i h
    obtain ⟨m, tr, hrun, -⟩ := h.alone i
    exact ⟨_, tr, hrun, rfl⟩
  exact fun i => ⟨hcollects hinv.1, fun x hx => hcollects (hinv.2 x hx).2⟩

/-! ### One child, pinned and reloaded -/

def childFile : RegistryFile where
  path := ["/", "nfs", "registry", "a.toml"]
  id := "child-a"
  name := "a"
  parentPath := "envs/a"
  stateRoot := ["/", "nfs"]

def oneManifest : Registry where
  roots := ⟨["/", "nfs"], [], ["/", "ssd"]⟩
  manifests := fun root => if root = ["/", "nfs"] then [childFile.toManifestFile] else []
  strip := fun selector => selector

def pinAndReload : Fin 2 → Request := ![.pin "a" false, .reloadRegistry]

def requestsTrace (es : List (Fin 2 × Unit)) : List (Lib.Trans (RequestThreads 2) (Fin 2 × Unit)) :=
  Lib.trace (fun s e => s.next (registryStep oneManifest) e)
    (startRequests oneManifest pinAndReload) es

theorem requestsTrace_run (es : List (Fin 2 × Unit)) :
    ∃ s, Lib.Interleaving (registryStep oneManifest) (startRequests oneManifest pinAndReload)
      (requestsTrace es) s :=
  Lib.Run.trace _ _ _

/-- `i` resolves the child; `j` takes some steps of its reload; `i` goes on. -/
def pinnedAround (i j : Fin k) (steps : Nat) : List (Fin k × Unit) :=
  List.replicate 12 (i, ()) ++ List.replicate steps (j, ()) ++ List.replicate 11 (i, ())

/-- The reload is over when the pin goes on. -/
theorem requests_resolveAlone_reloaded :
    ∃ s, Lib.Interleaving (registryStep oneManifest) (startRequests oneManifest pinAndReload)
        (requestsTrace (pinnedAround 0 1 8)) s ∧
      (s.pc 0).outcomes = [.found childFile, .path childFile.path, .path childFile.path,
        .found childFile, .stateRoot childFile.stateRoot] ∧
      AloneCollects oneManifest (.pin "a" false) (s.pc 0).outcomes := by
  obtain ⟨s, hrun⟩ := requestsTrace_run (pinnedAround 0 1 8)
  have hends : ∃ x ∈ (requestsTrace (pinnedAround 0 1 8)).getLast?,
      (x.post.pc 0).outcomes = [.found childFile, .path childFile.path, .path childFile.path,
        .found childFile, .stateRoot childFile.stateRoot] := by
    decide +kernel
  obtain ⟨x, hx, hfound⟩ := hends
  rw [← hrun.eq_post hx] at hfound
  exact ⟨s, hrun, hfound, (requests_resolveAlone hrun (by decide +kernel) 0).1⟩

/-- Where a request is that has run alone for some steps. -/
def aloneAfter (reg : Registry) (r : Request) (steps : Nat) : Option (RequestThreads 1) :=
  (fun a => a.bind fun b => b.next (registryStep reg) (0, ()))^[steps]
    (some (startRequests reg fun _ => r))

/-- A request that has come to its end has taken no more steps. -/
theorem aloneCollects_ends {r : Request} {outcomes : List Resolution} {steps : Nat}
    (hend : aloneAfter reg r steps = none) (h : AloneCollects reg r outcomes) :
    ∃ n < steps, (aloneAfter reg r n).map (fun s => (s.pc 0).outcomes) = some outcomes := by
  obtain ⟨s, tr, hrun, hs⟩ := h
  have hiter : aloneAfter reg r tr.length = some s := hrun.iterate fun e => Subsingleton.elim e _
  refine ⟨tr.length, Nat.lt_of_not_le fun hle => ?_, by rw [hiter, ← hs]; rfl⟩
  obtain ⟨n, hn⟩ := Nat.exists_eq_add_of_le hle
  have hnone : aloneAfter reg r (steps + n) = none := by
    unfold aloneAfter at hend ⊢
    rw [Nat.add_comm, Function.iterate_add_apply, hend]
    exact Function.iterate_fixed rfl n
  rw [hn, hnone] at hiter
  cases hiter

/-- **A child is not found** because another request has cleared the maps. -/
theorem pinnedWhileReloaded :
    ∃ s, Lib.Interleaving (registryStep oneManifest) (startRequests oneManifest pinAndReload)
        (requestsTrace (pinnedAround 0 1 3)) s ∧
      (s.pc 0).outcomes = [.found childFile, .path childFile.path, .notFound] ∧
      ¬ AloneCollects oneManifest (.pin "a" false) (s.pc 0).outcomes := by
  obtain ⟨s, hrun⟩ := requestsTrace_run (pinnedAround 0 1 3)
  have hends : ∃ x ∈ (requestsTrace (pinnedAround 0 1 3)).getLast?,
      (x.post.pc 0).outcomes = [.found childFile, .path childFile.path, .notFound] := by
    decide +kernel
  obtain ⟨x, hx, hfound⟩ := hends
  rw [← hrun.eq_post hx] at hfound
  refine ⟨s, hrun, hfound, fun halone => ?_⟩
  rw [hfound] at halone
  have hend : (aloneAfter oneManifest (.pin "a" false) 24).isNone = true := by decide +kernel
  obtain ⟨n, hn, hcollects⟩ := aloneCollects_ends (Option.isNone_iff_eq_none.mp hend) halone
  revert hcollects
  revert n
  decide +kernel

end CccStorage
