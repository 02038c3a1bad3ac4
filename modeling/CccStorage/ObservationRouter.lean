/-
  File:      CccStorage/ObservationRouter.lean
  Subject:   `ObservationRouter` (`mountd/observation.py`): which observation directory a path goes
             to.

  * `resolvePath` -- a path string normalised lexically; `parts`, its anchor and components;
  * `addRoot`, `resolve`, `relToRoot`, `routePath` -- registration, selection, the rest of the path;
  * `Registered` -- the roots stand for the directories added, each once;
  * `resolve_eq_ok_iff` -- the nearest directory above a path;
  * `route_spec` -- the same for every order of the calls, and a root further away changes nothing.
-/
import CccStorage.Tarfile
import CccStorage.PathTexts
import CccStorage.Lib.Longest
import CccStorage.Lib.Escaped

namespace CccStorage.Router

open CccStorage.Bundle (NormPath normpath slashParts)

/-! ## 1. Paths -/

/-- **An absolute path.** -/
structure AbsPath where
  text : String
  absolute : isAbsolute text = true
  deriving DecidableEq

/-- How many slashes the anchor of a path has that begins with so many. -/
def anchorSlashes (leading : Nat) : Nat := if leading = 2 then 2 else min leading 1

/-- `str(Path(path))`. -/
def pathStr (path : String) : String :=
  let parts := (path.toList.splitOn '/').filter fun part => part ≠ [] ∧ part ≠ ['.']
  String.ofList (List.replicate (anchorSlashes (path.toList.takeWhile (· = '/')).length) '/' ++
    Lib.joined '/' parts)

theorem leading_pos {path : String} (h : isAbsolute path = true) :
    0 < (path.toList.takeWhile (· = '/')).length := by
  have hhead : path.toList.head? = some '/' := of_decide_eq_true h
  cases hl : path.toList with
  | nil =>
    rw [hl] at hhead
    cases hhead
  | cons c cs =>
    rw [hl, List.head?_cons] at hhead
    rw [Option.some.inj hhead, List.takeWhile_cons_of_pos (by simp)]
    exact Nat.succ_pos _

theorem anchorSlashes_pos {leading : Nat} (h : 0 < leading) : 0 < anchorSlashes leading := by
  unfold anchorSlashes
  split <;> omega

theorem isAbsolute_pathStr {path : String} (h : isAbsolute path = true) :
    isAbsolute (pathStr path) = true := by
  obtain ⟨k, hk⟩ := Nat.exists_eq_succ_of_ne_zero (anchorSlashes_pos (leading_pos h)).ne'
  refine decide_eq_true ?_
  rw [pathStr, String.toList_ofList, hk, List.replicate_succ, List.cons_append, List.head?_cons]

/-- `Path(path)`. -/
def AbsPath.purePath (path : AbsPath) : AbsPath :=
  ⟨pathStr path.text, isAbsolute_pathStr path.absolute⟩

/-- `_resolve_path(path)`: no `~` is expanded in an absolute path, and nothing is put before it. -/
def resolvePath (path : AbsPath) : NormPath := normpath path.purePath.text

/-- The anchor of an absolute path. -/
def anchor (p : NormPath) : String := String.ofList (List.replicate p.slashes '/')

/-- `path.parts`. -/
def parts (p : NormPath) : Path := anchor p :: p.comps

/-- `str(path)`. -/
def pathTextOf (p : NormPath) : String := anchor p ++ pathText p.comps

/-- `path.relative_to(base)` succeeds. -/
def isRelativeTo (p base : NormPath) : Bool := (parts base).isPrefixOf (parts p)

/-- `base / rel`, as text. -/
def joinText (base rel : String) : String :=
  if rel = "" then base
  else if base.toList.getLast? = some '/' then base ++ rel
  else base ++ "/" ++ rel

/-! ## 2. The router -/

structure ObservationError where
  message : String
  deriving DecidableEq, Repr

/-- A configured observation directory; its manager is made from it. -/
structure ObservationStorage where
  publicPath : AbsPath
  sourceRoot : String
  stateDir : String
  stateSubdir : String
  rootId : String
  deriving DecidableEq

/-- `initialize_observation_dir(path, state_subdir=...)`: `rootId` is the id the directory has, or
    the one made for it; none where the file system refuses. -/
def initializeObservationDir (path : AbsPath) (stateSubdir : String) (rootId : Option String) :
    Option ObservationStorage :=
  if stateSubdir = "" ∨ '/' ∈ stateSubdir.toList ∨ stateSubdir = "." ∨ stateSubdir = ".." then none
  else
    match rootId with
    | none => none
    | some id =>
      if id = "" then none
      else some
        { publicPath := path.purePath
          sourceRoot := path.purePath.text
          stateDir := joinText path.purePath.text stateSubdir
          stateSubdir := stateSubdir
          rootId := id }

/-- One call of `add_root`. -/
inductive AddCall where
  | storage (storage : ObservationStorage)
  | dir (path : AbsPath) (stateSubdir : String) (rootId : Option String)

/-- The storage of a call that does not raise. -/
def AddCall.storage? : AddCall → Option ObservationStorage
  | .storage s => some s
  | .dir path stateSubdir rootId => initializeObservationDir path stateSubdir rootId

def rootPath (s : ObservationStorage) : NormPath := resolvePath s.publicPath

def depthLe (a b : ObservationStorage) : Bool :=
  (parts (rootPath a)).length ≤ (parts (rootPath b)).length

/-- `add_root` of a storage: the root of that directory is kept, or the new one sorted in. -/
def addRoot (roots : List ObservationStorage) (s : ObservationStorage) :
    List ObservationStorage × ObservationStorage :=
  match roots.find? fun routed => rootPath routed = rootPath s with
  | some routed => (roots, routed)
  | none => ((roots ++ [s]).mergeSort depthLe, s)

def addCall (roots : List ObservationStorage) (call : AddCall) : List ObservationStorage :=
  match call.storage? with
  | some s => (addRoot roots s).1
  | none => roots

def addCalls (roots : List ObservationStorage) (calls : List AddCall) : List ObservationStorage :=
  calls.foldl addCall roots

/-- `resolve(path)`. -/
def resolve (roots : List ObservationStorage) (path : AbsPath) :
    Except ObservationError ObservationStorage :=
  match roots.foldl (Lib.longer (fun routed => (parts (rootPath routed)).length)
      fun routed => isRelativeTo (resolvePath path) (rootPath routed)) none with
  | none => .error ⟨"path is not under a configured observation dir: " ++ path.text⟩
  | some routed => .ok routed

/-- `rel_to_root(path, routed)`. -/
def relToRoot (path : AbsPath) (routed : ObservationStorage) : Except ObservationError String :=
  if isRelativeTo (resolvePath path) (rootPath routed) then
    .ok (pathText ((parts (resolvePath path)).drop (parts (rootPath routed)).length))
  else .error ⟨"path is not under observation dir: " ++ path.text⟩

/-- `_route_path(path)`. -/
def routePath (roots : List ObservationStorage) (path : String) :
    Except ObservationError (ObservationStorage × String) :=
  if h : isAbsolute path = true then do
    let routed ← resolve roots ⟨path, h⟩
    let rel ← relToRoot ⟨path, h⟩ routed
    return (routed, rel)
  else
    match roots with
    | [routed] => .ok (routed, path)
    | _ => .error ⟨"relative observe path is ambiguous with multiple roots: " ++ path⟩

/-! ## 3. Normalised paths -/

section

variable {path : AbsPath} {text rel : String} {p q base : NormPath}
  {roots : List ObservationStorage} {s x : ObservationStorage} {calls calls' more : List AddCall}
  {paths paths' : List NormPath}

/-- A component of a normalised path. -/
def Component (c : String) : Prop := c ≠ "" ∧ '/' ∉ c.toList

theorem normpath_component (text : String) : ∀ c ∈ (normpath text).comps, Component c := by
  have hparts : ∀ c ∈ slashParts text, '/' ∉ c.toList := by
    intro c hc
    obtain ⟨part, hpart, rfl⟩ := List.mem_map.mp hc
    rw [String.toList_ofList]
    exact Lib.not_mem_of_mem_splitOn hpart
  -- the components kept so far, over the parts still to come
  have hfold : ∀ (slashes : Nat) (l acc : List String), (∀ c ∈ l, '/' ∉ c.toList) →
      (∀ c ∈ acc, Component c) → ∀ c ∈ l.foldl (fun comps c =>
        if c = "" ∨ c = "." then comps
        else if c ≠ ".." ∨ (slashes = 0 ∧ comps = []) ∨ comps.getLast? = some ".." then comps ++ [c]
        else comps.dropLast) acc, Component c := by
    intro slashes l
    induction l with
    | nil => exact fun acc _ hacc => hacc
    | cons c l ih =>
      intro acc hl hacc
      refine ih _ (fun d hd => hl d (List.mem_cons_of_mem _ hd)) fun d hd => ?_
      dsimp only at hd
      split at hd
      · exact hacc d hd
      · rename_i hempty
        split at hd
        · rcases List.mem_append.mp hd with hd | hd
          · exact hacc d hd
          · rw [List.mem_singleton.mp hd]
            exact ⟨fun h => hempty (.inl h), hl c List.mem_cons_self⟩
        · exact hacc d (List.dropLast_subset _ hd)
  exact hfold _ (slashParts text) [] hparts fun c hc => absurd hc List.not_mem_nil

theorem plain_components (path : AbsPath) :
    Lib.Plain '/' ((resolvePath path).comps.map String.toList) := by
  intro l hl
  obtain ⟨c, hc, rfl⟩ := List.mem_map.mp hl
  obtain ⟨hne, hslash⟩ := normpath_component _ c hc
  exact ⟨fun h => hne (String.toList_eq_nil_iff.mp h), hslash⟩

theorem normpath_slashes (text : String) :
    (normpath text).slashes = anchorSlashes (text.toList.takeWhile (· = '/')).length := rfl

/-- An absolute path stays one. -/
theorem slashes_pos (path : AbsPath) : 0 < (resolvePath path).slashes := by
  rw [resolvePath, normpath_slashes]
  exact anchorSlashes_pos (leading_pos path.purePath.absolute)

theorem isRelativeTo_iff : isRelativeTo p base = true ↔ parts base <+: parts p := by
  rw [isRelativeTo, List.isPrefixOf_iff_prefix]

theorem anchor_inj (h : anchor p = anchor q) : p.slashes = q.slashes := by
  have hlist := congrArg String.toList h
  rw [anchor, anchor, String.toList_ofList, String.toList_ofList] at hlist
  have hlen := congrArg List.length hlist
  rwa [List.length_replicate, List.length_replicate] at hlen

theorem parts_inj (h : parts p = parts q) : p = q := by
  obtain ⟨hanchor, hcomps⟩ := List.cons.inj h
  cases p
  cases q
  cases anchor_inj hanchor
  cases hcomps
  rfl

/-- Two of one depth above a path are the same. -/
theorem above_unique {p' : NormPath} (h : parts q <+: parts p) (h' : parts p' <+: parts p)
    (hlen : (parts q).length = (parts p').length) : q = p' :=
  parts_inj ((List.prefix_of_prefix_length_le h h' hlen.le).eq_of_length hlen)

/-! ## 4. The roots -/

/-- **The roots stand for the directories added**, each once. -/
structure Registered (roots : List ObservationStorage) (paths : List NormPath) : Prop where
  nodup : (roots.map rootPath).Nodup
  mem : ∀ q, q ∈ roots.map rootPath ↔ q ∈ paths

/-- The directories of the calls that did not raise. -/
def addedPaths (calls : List AddCall) : List NormPath :=
  (calls.filterMap AddCall.storage?).map rootPath

theorem Registered.addRoot (h : Registered roots paths) (s : ObservationStorage) :
    Registered (addRoot roots s).1 (paths ++ [rootPath s]) ∧
      ∀ x ∈ roots, x ∈ (Router.addRoot roots s).1 := by
  unfold Router.addRoot
  cases hfind : roots.find? fun routed => rootPath routed = rootPath s with
  | some routed =>
    have hmem := List.mem_of_find?_eq_some hfind
    have hsame : rootPath routed = rootPath s := by simpa using List.find?_some hfind
    refine ⟨⟨h.nodup, fun q => ?_⟩, fun x hx => hx⟩
    rw [List.mem_append, List.mem_singleton, ← h.mem]
    refine ⟨.inl, fun hq => hq.elim id fun hq => ?_⟩
    rw [hq, ← hsame]
    exact List.mem_map_of_mem hmem
  | none =>
    have hnew : rootPath s ∉ roots.map rootPath := by
      intro hmem
      obtain ⟨routed, hrouted, hsame⟩ := List.mem_map.mp hmem
      exact List.find?_eq_none.mp hfind routed hrouted (decide_eq_true hsame)
    have hperm : ((roots ++ [s]).mergeSort depthLe).Perm (roots ++ [s]) := List.mergeSort_perm _ _
    refine ⟨⟨?_, fun q => ?_⟩, fun x hx => ?_⟩
    · rw [(hperm.map rootPath).nodup_iff, List.map_append, List.map_singleton, List.nodup_append]
      refine ⟨h.nodup, List.nodup_singleton _, fun a ha b hb heq => ?_⟩
      rw [List.mem_singleton.mp hb] at heq
      exact hnew (heq ▸ ha)
    · rw [(hperm.map rootPath).mem_iff, List.map_append, List.map_singleton, List.mem_append,
        List.mem_append, h.mem]
    · rw [hperm.mem_iff]
      exact List.mem_append_left _ hx

theorem Registered.addCall (h : Registered roots paths) (call : AddCall) :
    Registered (addCall roots call) (paths ++ addedPaths [call]) ∧
      ∀ x ∈ roots, x ∈ Router.addCall roots call := by
  unfold Router.addCall
  cases hcall : call.storage? with
  | none =>
    have hnothing : addedPaths [call] = [] := by simp [addedPaths, hcall]
    rw [hnothing, List.append_nil]
    exact ⟨h, fun x hx => hx⟩
  | some s =>
    have hone : addedPaths [call] = [rootPath s] := by simp [addedPaths, hcall]
    rw [hone]
    exact h.addRoot s

/-- **Any calls of `add_root`**: no directory twice, and no root lost. -/
theorem Registered.addCalls (h : Registered roots paths) (calls : List AddCall) :
    Registered (addCalls roots calls) (paths ++ addedPaths calls) ∧
      ∀ x ∈ roots, x ∈ Router.addCalls roots calls := by
  induction calls generalizing roots paths with
  | nil =>
    refine ⟨?_, fun x hx => hx⟩
    rw [show addedPaths [] = [] from rfl, List.append_nil]
    exact h
  | cons call calls ih =>
    obtain ⟨hstep, hkept⟩ := h.addCall call
    obtain ⟨hrest, hkept'⟩ := ih hstep
    have hsplit : addedPaths (call :: calls) = addedPaths [call] ++ addedPaths calls := by
      rw [addedPaths, ← List.singleton_append, List.filterMap_append, List.map_append]
      rfl
    rw [hsplit, ← List.append_assoc]
    exact ⟨hrest, fun x hx => hkept' x (hkept x hx)⟩

theorem registered (calls : List AddCall) : Registered (addCalls [] calls) (addedPaths calls) := by
  have hstart : Registered ([] : List ObservationStorage) [] := ⟨List.nodup_nil, fun q => Iff.rfl⟩
  exact (hstart.addCalls calls).1

/-! ## 5. The nearest root -/

/-- **The nearest directory above a path**: its parts are the longest prefix. -/
structure NearestRoot (paths : List NormPath) (p q : NormPath) : Prop where
  mem : q ∈ paths
  above : parts q <+: parts p
  longest : ∀ q' ∈ paths, parts q' <+: parts p → (parts q').length ≤ (parts q).length

theorem Registered.inj (h : Registered roots paths) (hs : s ∈ roots) (hx : x ∈ roots)
    (heq : rootPath s = rootPath x) : s = x :=
  List.inj_on_of_nodup_map h.nodup hs hx heq

/-- **`resolve`** gives the root of the nearest directory. -/
theorem resolve_eq_ok_iff (h : Registered roots paths) :
    resolve roots path = .ok s ↔
      s ∈ roots ∧ NearestRoot paths (resolvePath path) (rootPath s) := by
  have hdistinct : ∀ a ∈ roots, ∀ b ∈ roots,
      isRelativeTo (resolvePath path) (rootPath a) = true →
      isRelativeTo (resolvePath path) (rootPath b) = true →
      (parts (rootPath a)).length = (parts (rootPath b)).length → a = b :=
    fun a ha b hb hpa hpb hlen =>
      h.inj ha hb (above_unique (isRelativeTo_iff.mp hpa) (isRelativeTo_iff.mp hpb) hlen)
  have hfound := Lib.longest_eq_some_iff (x := s) hdistinct
  rw [← Lib.foldl_longer] at hfound
  have hok : resolve roots path = .ok s ↔
      roots.foldl (Lib.longer (fun routed => (parts (rootPath routed)).length)
        fun routed => isRelativeTo (resolvePath path) (rootPath routed)) none = some s := by
    unfold resolve
    split
    · rename_i hnone
      rw [hnone]
      exact ⟨nofun, nofun⟩
    · rename_i routed hsome
      rw [hsome]
      exact ⟨fun heq => congrArg some (Except.ok.inj heq),
        fun heq => congrArg Except.ok (Option.some.inj heq)⟩
  rw [hok, hfound]
  constructor
  · rintro ⟨hs, habove, hlongest⟩
    refine ⟨hs, (h.mem _).mp (List.mem_map_of_mem hs), isRelativeTo_iff.mp habove,
      fun q hq hqp => ?_⟩
    obtain ⟨x, hx, rfl⟩ := List.mem_map.mp ((h.mem q).mpr hq)
    exact hlongest x hx (isRelativeTo_iff.mpr hqp)
  · rintro ⟨hs, hnear⟩
    exact ⟨hs, isRelativeTo_iff.mpr hnear.above, fun x hx hxp =>
      hnear.longest _ ((h.mem _).mp (List.mem_map_of_mem hx)) (isRelativeTo_iff.mp hxp)⟩

/-- **`resolve` raises** exactly where no directory is above the path. -/
theorem resolve_error_iff (h : Registered roots paths) :
    (∃ e, resolve roots path = .error e) ↔ ∀ q ∈ paths, ¬parts q <+: parts (resolvePath path) := by
  have hnone : (∃ e, resolve roots path = .error e) ↔
      Lib.longest (fun routed => (parts (rootPath routed)).length)
        (fun routed => isRelativeTo (resolvePath path) (rootPath routed)) roots = none := by
    rw [← Lib.foldl_longer]
    unfold resolve
    split
    · rename_i hnone
      rw [hnone]
      exact ⟨fun _ => rfl, fun _ => ⟨_, rfl⟩⟩
    · rename_i routed hsome
      rw [hsome]
      constructor
      · rintro ⟨e, he⟩
        cases he
      · exact nofun
  rw [hnone, Lib.longest_eq_none_iff]
  constructor
  · intro hno q hq hqp
    obtain ⟨x, hx, rfl⟩ := List.mem_map.mp ((h.mem q).mpr hq)
    have hfalse := hno x hx
    rw [isRelativeTo_iff.mpr hqp] at hfalse
    cases hfalse
  · intro hno x hx
    rw [← Bool.not_eq_true, isRelativeTo_iff]
    exact hno _ ((h.mem _).mp (List.mem_map_of_mem hx))

/-- The nearest directory, as `resolve` gives it. -/
theorem resolve_nearest (h : Registered roots paths) :
    (∃ routed, resolve roots path = .ok routed ∧ rootPath routed = q) ↔
      NearestRoot paths (resolvePath path) q := by
  constructor
  · rintro ⟨routed, hok, rfl⟩
    exact ((resolve_eq_ok_iff h).mp hok).2
  · intro hnear
    obtain ⟨routed, hrouted, rfl⟩ := List.mem_map.mp ((h.mem q).mpr hnear.mem)
    exact ⟨routed, (resolve_eq_ok_iff h).mpr ⟨hrouted, hnear⟩, rfl⟩

theorem nearestRoot_congr (h : ∀ q, q ∈ paths' ↔ q ∈ paths) :
    NearestRoot paths' p q ↔ NearestRoot paths p q := by
  constructor
  · exact fun hq => ⟨(h q).mp hq.mem, hq.above, fun q' hq' => hq.longest q' ((h q').mpr hq')⟩
  · exact fun hq => ⟨(h q).mpr hq.mem, hq.above, fun q' hq' => hq.longest q' ((h q').mp hq')⟩

/-! ## 6. The rest of the path -/

theorem getLast?_anchor (h : 0 < p.slashes) : (anchor p).toList.getLast? = some '/' := by
  obtain ⟨k, hk⟩ := Nat.exists_eq_succ_of_ne_zero h.ne'
  rw [anchor, String.toList_ofList, hk, List.replicate_succ', List.getLast?_concat]

theorem joinText_empty (base : String) : joinText base "" = base := if_pos rfl

theorem joinText_of_slash {base : String} (hrel : rel ≠ "")
    (h : base.toList.getLast? = some '/') : joinText base rel = base ++ rel := by
  rw [joinText, if_neg hrel, if_pos h]

theorem joinText_of_name {base : String} (hrel : rel ≠ "")
    (h : base.toList.getLast? ≠ some '/') : joinText base rel = base ++ "/" ++ rel := by
  rw [joinText, if_neg hrel, if_neg h]

/-- **The root and the path in it**, joined, are the normalised path. -/
theorem joinText_relToRoot (h : parts (rootPath s) <+: parts (resolvePath path)) :
    ∃ rel, relToRoot path s = .ok rel ∧
      joinText (pathTextOf (rootPath s)) rel = pathTextOf (resolvePath path) := by
  obtain ⟨rest, hrest⟩ := h
  obtain ⟨hanchor, hcomps⟩ := List.cons.inj hrest
  rw [List.append_eq] at hcomps
  have hplain : Lib.Plain '/' (((rootPath s).comps ++ rest).map String.toList) := by
    have hall := plain_components path
    rwa [← hcomps] at hall
  rw [List.map_append] at hplain
  have hrel : relToRoot path s = .ok (pathText rest) := by
    rw [relToRoot, if_pos (isRelativeTo_iff.mpr ⟨rest, hrest⟩), ← hrest, List.drop_left]
  refine ⟨_, hrel, ?_⟩
  have hfull : pathTextOf (resolvePath path) =
      anchor (rootPath s) ++ pathText ((rootPath s).comps ++ rest) := by
    rw [pathTextOf, ← hanchor, ← hcomps]
  rw [hfull]
  by_cases hnil : rest = []
  · rw [hnil, List.append_nil]
    exact joinText_empty _
  · have hne := pathText_ne_empty hplain.right hnil
    by_cases hroot : (rootPath s).comps = []
    · -- the root directory itself ends with the slash of its anchor
      have htext : pathTextOf (rootPath s) = anchor (rootPath s) := by
        rw [pathTextOf, hroot, show pathText [] = "" from rfl, String.append_empty]
      have hlast : (anchor (rootPath s)).toList.getLast? = some '/' :=
        getLast?_anchor (slashes_pos s.publicPath)
      rw [htext, joinText_of_slash hne hlast, hroot, List.nil_append]
    · have hends := (Lib.joined_ends hplain.left (by simpa using hroot)).2
      have hlast : (pathTextOf (rootPath s)).toList.getLast? ≠ some '/' := by
        have hjoined := Lib.joined_ne_nil hplain.left (by simpa using hroot)
        rw [pathTextOf, String.toList_append, toList_pathText,
          List.getLast?_append_of_ne_nil _ hjoined]
        exact hends
      rw [joinText_of_name hne hlast, pathTextOf, pathText_append hroot hnil]
      simp only [String.append_assoc]

theorem routePath_eq_ok (h : resolve roots path = .ok s) (hrel : relToRoot path s = .ok rel) :
    routePath roots path.text = .ok (s, rel) := by
  unfold routePath
  rw [dif_pos path.absolute, h]
  dsimp only [bind, Except.bind]
  rw [hrel]
  rfl

/-! ## 7. Routing -/

/-- **Routing picks the nearest root.** For any calls of `add_root` and any absolute path: the
    directory chosen is the one whose parts are the longest prefix of the path's, and there is an
    error exactly where none is; no order of the calls changes it; the root and the rest of the
    path, joined, are the normalised path; and more roots change only what is below them. -/
theorem route_spec (calls : List AddCall) (path : AbsPath) :
    (∀ q, (∃ routed, resolve (addCalls [] calls) path = .ok routed ∧ rootPath routed = q) ↔
      NearestRoot (addedPaths calls) (resolvePath path) q) ∧
    ((∃ e, resolve (addCalls [] calls) path = .error e) ↔
      ∀ q ∈ addedPaths calls, ¬parts q <+: parts (resolvePath path)) ∧
    (∀ calls' : List AddCall, calls'.Perm calls → ∀ q,
      (∃ routed, resolve (addCalls [] calls') path = .ok routed ∧ rootPath routed = q) ↔
        ∃ routed, resolve (addCalls [] calls) path = .ok routed ∧ rootPath routed = q) ∧
    (∀ routed, resolve (addCalls [] calls) path = .ok routed →
      ∃ rel, routePath (addCalls [] calls) path.text = .ok (routed, rel) ∧
        joinText (pathTextOf (rootPath routed)) rel = pathTextOf (resolvePath path)) ∧
    ∀ more : List AddCall, (∀ q ∈ addedPaths more, ¬parts q <+: parts (resolvePath path)) →
      resolve (addCalls [] (calls ++ more)) path = resolve (addCalls [] calls) path := by
  refine ⟨fun q => resolve_nearest (registered calls), resolve_error_iff (registered calls),
    fun calls' hperm q => ?_, fun routed hrouted => ?_, fun more hmore => ?_⟩
  · have hsame : ∀ q, q ∈ addedPaths calls' ↔ q ∈ addedPaths calls := fun q =>
      ((hperm.filterMap _).map _).mem_iff
    rw [resolve_nearest (registered calls'), resolve_nearest (registered calls),
      nearestRoot_congr hsame]
  · obtain ⟨rel, hrel, hjoin⟩ :=
      joinText_relToRoot ((resolve_eq_ok_iff (registered calls)).mp hrouted).2.above
    exact ⟨rel, routePath_eq_ok hrouted hrel, hjoin⟩
  · have hbase := registered calls
    have hsplit : addCalls [] (calls ++ more) = addCalls (addCalls [] calls) more :=
      List.foldl_append
    obtain ⟨hall, hkept⟩ := hbase.addCalls more
    rw [hsplit]
    cases hresolve : resolve (addCalls [] calls) path with
    | ok routed =>
      obtain ⟨hrouted, hnear⟩ := (resolve_eq_ok_iff hbase).mp hresolve
      refine (resolve_eq_ok_iff hall).mpr ⟨hkept _ hrouted, List.mem_append_left _ hnear.mem,
        hnear.above, fun q hq hqp => ?_⟩
      rcases List.mem_append.mp hq with hq | hq
      · exact hnear.longest q hq hqp
      · exact absurd hqp (hmore q hq)
    | error e =>
      have hno := (resolve_error_iff hbase).mp ⟨e, hresolve⟩
      obtain ⟨e', he'⟩ : ∃ e', resolve (addCalls (addCalls [] calls) more) path = .error e' :=
        (resolve_error_iff hall).mpr fun q hq => (List.mem_append.mp hq).elim (hno q) (hmore q)
      -- both name the path and nothing else
      have htext : ∀ {roots : List ObservationStorage} {e : ObservationError},
          resolve roots path = .error e →
            e = ⟨"path is not under a configured observation dir: " ++ path.text⟩ := by
        intro roots e he
        unfold resolve at he
        split at he
        · exact (Except.error.inj he).symm
        · cases he
      rw [he', htext he', htext hresolve]

end

end CccStorage.Router
