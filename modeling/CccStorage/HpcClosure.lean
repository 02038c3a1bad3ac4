/-
  File:      CccStorage/HpcClosure.lean
  Subject:   Who owns a path: `resolve_owner_path` (`core/resolve.py`), and the lookup of a staged
             packset over the mount closure of a root (`hpc/closure.py`, `hpc/client.py`).

  * `resolveOwnerPath` -- the nearest boundary above a path, or the parent;
  * `MountGraph`, `computeMountClosure`, `StagedPackset.lookup` -- the closure and the client's own
    search;
  * `lookup_agrees_iff` -- the client agrees with the owner exactly where no boundary that was left
    out lies above a nearest boundary that was taken, and that boundary is longer than one
    character.
-/
import CccStorage.PathTexts
import CccStorage.Lib.Longest

namespace CccStorage.Hpc

/-! ## 1. The owner of a path -/

/-- `OwningBoundary`. -/
structure OwningBoundary where
  ownerId : String
  boundary : Option ChildBoundary
  relativePath : String
  innerPath : String
  deriving DecidableEq, Repr

/-- `_longest_prefix(boundaries, clean)`. -/
def longestPrefix (boundaries : List ChildBoundary) (clean : String) : Option ChildBoundary :=
  boundaries.foldl (Lib.longer (fun b => (stripSlashes b.path).toList.length) fun b =>
    stripSlashes b.path ≠ "" && covers (stripSlashes b.path) clean) none

def resolveOwnerPath (boundaries : List ChildBoundary) (relPath parentId : String) :
    OwningBoundary :=
  let clean := normalizeText relPath
  match longestPrefix boundaries clean with
  | none => ⟨parentId, none, clean, clean⟩
  | some best => ⟨best.childId, some best, clean, innerText (stripSlashes best.path) clean⟩

/-- `registry.boundaries_of(root_id)` of `BoundaryRegistry.from_manifests`: a manifest without
    boundaries adds no entry, and a later one of the same id replaces an earlier. -/
def boundariesOf (manifests : List ChildManifest) (rootId : String) : List ChildBoundary :=
  ((manifests.filter fun m => m.id = rootId ∧ m.childBoundaries ≠ []).getLast?.map
    ChildManifest.childBoundaries).getD []

/-! ## 2. The closure -/

structure MountGraphNode where
  childId : String
  path : String
  reason : String := ""
  deriving DecidableEq, Repr

structure MountGraph where
  root : String
  included : List MountGraphNode := []
  excluded : List MountGraphNode := []
  deriving DecidableEq, Repr

/-- A node as a dictionary: the path may be missing, the reason is there when it is not empty. -/
structure NodeDict where
  childId : String
  path : Option String
  reason : Option String
  deriving DecidableEq, Repr

structure GraphDict where
  root : String
  included : Option (List NodeDict)
  excluded : Option (List NodeDict)
  deriving DecidableEq, Repr

def MountGraphNode.toDict (node : MountGraphNode) : NodeDict where
  childId := node.childId
  path := some (if stripSlashes node.path = "" then "." else stripSlashes node.path)
  reason := if node.reason = "" then none else some node.reason

def MountGraphNode.fromDict (data : NodeDict) : MountGraphNode where
  childId := data.childId
  path := data.path.getD "."
  reason := data.reason.getD ""

def MountGraph.toDict (graph : MountGraph) : GraphDict where
  root := graph.root
  included := some (graph.included.map MountGraphNode.toDict)
  excluded := some (graph.excluded.map MountGraphNode.toDict)

def MountGraph.fromDict (data : GraphDict) : MountGraph where
  root := data.root
  included := (data.included.getD []).map MountGraphNode.fromDict
  excluded := (data.excluded.getD []).map MountGraphNode.fromDict

/-- `compute_mount_closure`; none for the `KeyError` of an unknown root. -/
def computeMountClosure (manifests : List ChildManifest) (rootId : String)
    (includeChildIds : List String) : Option MountGraph :=
  if rootId ∈ manifests.map ChildManifest.id then
    let boundaries := boundariesOf manifests rootId
    some
      { root := rootId
        included := ⟨rootId, ".", ""⟩ ::
          (boundaries.filter fun b => b.childId ∈ includeChildIds).map fun b =>
            ⟨b.childId, b.path, ""⟩
        excluded := (boundaries.filter fun b => b.childId ∉ includeChildIds).map fun b =>
          ⟨b.childId, b.path, "child boundary not included in this HPC closure"⟩ }
  else none

/-! ## 3. The client -/

structure IncludedPath where
  childId : String
  path : String
  innerPath : String
  deriving DecidableEq, Repr

inductive LookupError where
  /-- `ExcludedChildError` -/
  | excluded (message : String)
  /-- `FileNotFoundError` -/
  | notFound (relPath : String)
  deriving DecidableEq, Repr

def excludedMessage (node : MountGraphNode) : String :=
  "child " ++ node.childId ++ " at " ++ node.path ++ " is excluded from this HPC closure: " ++
    (if node.reason = "" then "not included" else node.reason)

/-- `sorted(nodes, key=lambda n: len(n.path), reverse=True)`. -/
def longestFirst (nodes : List MountGraphNode) : List MountGraphNode :=
  Lib.byLength (fun n => n.path.toList.length) nodes

/-- `"" if node.path in ("", ".") else node.path.strip("/")`. -/
def includedPrefix (node : MountGraphNode) : String :=
  if node.path = "" ∨ node.path = "." then "" else stripSlashes node.path

/-- `StagedPackset(graph).lookup(rel_path)`. -/
def lookup (graph : MountGraph) (relPath : String) : Except LookupError IncludedPath :=
  let clean := stripSlashes relPath
  match (longestFirst graph.excluded).find? fun n => covers (stripSlashes n.path) clean with
  | some node => .error (.excluded (excludedMessage node))
  | none =>
    let best := (longestFirst graph.included).find? fun n =>
      includedPrefix n = "" || covers (includedPrefix n) clean
    match best.or (graph.included.find? fun n => n.childId = graph.root) with
    | none => .error (.notFound relPath)
    | some best => .ok
      { childId := best.childId
        path := clean
        innerPath :=
          if includedPrefix best = "" then clean else innerText (includedPrefix best) clean }

/-! ## 4. The search of the client -/

/-- The boundaries of a root: normal paths, no two the same. -/
structure BoundariesOk (boundaries : List ChildBoundary) : Prop where
  normal : ∀ b ∈ boundaries, NormalPath b.path
  distinct : (boundaries.map ChildBoundary.path).Nodup

/-- The nearest boundary above a path. -/
structure Nearest (boundaries : List ChildBoundary) (p : String) (b : ChildBoundary) : Prop where
  mem : b ∈ boundaries
  above : covers b.path p = true
  nearest : ∀ e ∈ boundaries, covers e.path p = true → e.path.toList.length ≤ b.path.toList.length

section

variable {boundaries : List ChildBoundary} {p rootId : String} {includeChildIds : List String}

theorem longestPrefix_eq (hok : BoundariesOk boundaries) :
    longestPrefix boundaries p =
      Lib.longest (fun b : ChildBoundary => b.path.toList.length) (fun b => covers b.path p)
        boundaries := by
  rw [longestPrefix, Lib.foldl_longer]
  refine Lib.longest_congr (fun b hb => ?_) fun b hb => ?_
  · rw [(hok.normal b hb).strip]
  · rw [(hok.normal b hb).strip, decide_eq_true (hok.normal b hb).ne_empty, Bool.true_and]

/-- **The nearest boundary** is the one the fold finds. -/
theorem longestPrefix_eq_some_iff (hok : BoundariesOk boundaries) {b : ChildBoundary} :
    longestPrefix boundaries p = some b ↔ Nearest boundaries p b := by
  rw [longestPrefix_eq hok, Lib.longest_eq_some_iff]
  · exact ⟨fun h => ⟨h.1, h.2.1, h.2.2⟩, fun h => ⟨h.mem, h.above, h.nearest⟩⟩
  · intro a ha c hc hcover hcover' hlen
    have hpath := covers_unique hcover hcover' hlen
    exact List.inj_on_of_nodup_map hok.distinct ha hc hpath

theorem boundariesOf_root {manifests : List ChildManifest} {root : ChildManifest}
    (hroot : root ∈ manifests) (hids : (manifests.map ChildManifest.id).Nodup) :
    boundariesOf manifests root.id = root.childBoundaries := by
  have hsame : ∀ m ∈ manifests, m.id = root.id → m = root := fun m hm hid =>
    List.inj_on_of_nodup_map hids hm hroot hid
  rw [boundariesOf]
  by_cases hnil : root.childBoundaries = []
  · have hfilter : manifests.filter (fun m => m.id = root.id ∧ m.childBoundaries ≠ []) = [] := by
      rw [List.filter_eq_nil_iff]
      intro m hm hboth
      obtain ⟨hid, hne⟩ := of_decide_eq_true hboth
      exact hne (hsame m hm hid ▸ hnil)
    rw [hfilter, hnil]
    rfl
  · have hlast : ((manifests.filter fun m => m.id = root.id ∧ m.childBoundaries ≠ []).getLast?) =
        some root := by
      have hmem : root ∈ manifests.filter fun m => m.id = root.id ∧ m.childBoundaries ≠ [] :=
        List.mem_filter.mpr ⟨hroot, decide_eq_true ⟨rfl, hnil⟩⟩
      obtain ⟨last, hlast⟩ := List.getLast?_isSome.mpr (List.ne_nil_of_mem hmem) |> fun h =>
        Option.isSome_iff_exists.mp h
      have hin := List.mem_filter.mp (List.mem_of_getLast? hlast)
      rw [hlast, hsame last hin.1 (of_decide_eq_true hin.2).1]
    rw [hlast]
    rfl

def takenNode (b : ChildBoundary) : MountGraphNode := ⟨b.childId, b.path, ""⟩

def leftOutNode (b : ChildBoundary) : MountGraphNode :=
  ⟨b.childId, b.path, "child boundary not included in this HPC closure"⟩

/-- The closure of a root with these boundaries. -/
def closureOf (rootId : String) (boundaries : List ChildBoundary) (includeChildIds : List String) :
    MountGraph where
  root := rootId
  included := ⟨rootId, ".", ""⟩ ::
    (boundaries.filter fun b => b.childId ∈ includeChildIds).map takenNode
  excluded := (boundaries.filter fun b => b.childId ∉ includeChildIds).map leftOutNode

theorem computeMountClosure_root {manifests : List ChildManifest} {root : ChildManifest}
    (hroot : root ∈ manifests) (hids : (manifests.map ChildManifest.id).Nodup) :
    computeMountClosure manifests root.id includeChildIds =
      some (closureOf root.id root.childBoundaries includeChildIds) := by
  rw [computeMountClosure, if_pos (List.mem_map_of_mem hroot), boundariesOf_root hroot hids]
  rfl

theorem stripSlashes_dot : stripSlashes "." = "." := by decide +kernel

/-- A node whose path is normal, or the root's, comes back from its dictionary. -/
theorem fromDict_toDict_node {node : MountGraphNode}
    (h : stripSlashes node.path = node.path) (hne : node.path ≠ "") :
    MountGraphNode.fromDict node.toDict = node := by
  obtain ⟨childId, path, reason⟩ := node
  simp only at h hne
  simp only [MountGraphNode.toDict, MountGraphNode.fromDict, h, if_neg hne, Option.getD_some]
  by_cases hreason : reason = ""
  · rw [if_pos hreason, hreason]
    rfl
  · rw [if_neg hreason]
    rfl

theorem map_fromDict_toDict {nodes : List MountGraphNode}
    (h : ∀ n ∈ nodes, stripSlashes n.path = n.path ∧ n.path ≠ "") :
    (nodes.map MountGraphNode.toDict).map MountGraphNode.fromDict = nodes := by
  rw [List.map_map]
  exact (List.map_congr_left fun n hn => fromDict_toDict_node (h n hn).1 (h n hn).2).trans
    (List.map_id _)

theorem fromDict_toDict {graph : MountGraph}
    (hin : ∀ n ∈ graph.included, stripSlashes n.path = n.path ∧ n.path ≠ "")
    (hex : ∀ n ∈ graph.excluded, stripSlashes n.path = n.path ∧ n.path ≠ "") :
    MountGraph.fromDict graph.toDict = graph := by
  obtain ⟨root, included, excluded⟩ := graph
  simp only [MountGraph.toDict, MountGraph.fromDict, Option.getD_some]
  rw [map_fromDict_toDict hin, map_fromDict_toDict hex]

theorem closureOf_fromDict_toDict (hok : BoundariesOk boundaries) :
    MountGraph.fromDict (closureOf rootId boundaries includeChildIds).toDict =
      closureOf rootId boundaries includeChildIds := by
  refine fromDict_toDict (fun n hn => ?_) fun n hn => ?_
  · rcases List.mem_cons.mp hn with rfl | hn
    · exact ⟨stripSlashes_dot, show "." ≠ "" by decide⟩
    · obtain ⟨b, hb, rfl⟩ := List.mem_map.mp hn
      have hnormal := hok.normal b (List.mem_of_mem_filter hb)
      exact ⟨hnormal.strip, hnormal.ne_empty⟩
  · obtain ⟨b, hb, rfl⟩ := List.mem_map.mp hn
    have hnormal := hok.normal b (List.mem_of_mem_filter hb)
    exact ⟨hnormal.strip, hnormal.ne_empty⟩

/-- The path of a boundary is never the text of the root. -/
theorem normalPath_ne_dot {text : String} (h : NormalPath text) : text ≠ "." := by
  obtain ⟨names, hne, hnames, rfl⟩ := h
  intro hdot
  have hsplit := NormalPath.splitOn hne hnames
  rw [hdot] at hsplit
  obtain ⟨n, rest, rfl⟩ := List.exists_cons_of_ne_nil hne
  have hhead : ".".toList = n.toList := by
    have hcons : ".".toList.splitOn '/' = [".".toList] := by decide
    rw [hcons, List.map_cons] at hsplit
    exact (List.cons.inj hsplit).1
  exact (hnames n List.mem_cons_self).dot (String.toList_inj.mp hhead).symm

/-- A boundary that was left out is refused for every path below it. -/
theorem lookup_excluded (hok : BoundariesOk boundaries) (hp : NormalPath p)
    (h : ∃ e ∈ boundaries, e.childId ∉ includeChildIds ∧ covers e.path p = true) :
    ∃ message, lookup (closureOf rootId boundaries includeChildIds) p =
      .error (.excluded message) := by
  obtain ⟨e, he, hout, hcover⟩ := h
  have hmem : leftOutNode e ∈ longestFirst (closureOf rootId boundaries includeChildIds).excluded :=
    (List.mem_insertionSort _).mpr
      (List.mem_map_of_mem (List.mem_filter.mpr ⟨he, decide_eq_true hout⟩))
  rw [lookup]
  cases hfind : (longestFirst (closureOf rootId boundaries includeChildIds).excluded).find?
      fun n => covers (stripSlashes n.path) (stripSlashes p) with
  | some node => exact ⟨_, rfl⟩
  | none =>
    have hnone := List.find?_eq_none.mp hfind _ hmem
    rw [hp.strip] at hnone
    change ¬ covers (stripSlashes e.path) p = true at hnone
    rw [(hok.normal e he).strip] at hnone
    exact absurd hcover hnone

/-- **Where no boundary that was left out lies above the path**, the client takes the nearest
    boundary when it is longer than one character, and the root otherwise. -/
theorem lookup_included (hok : BoundariesOk boundaries) (hp : NormalPath p)
    (h : ∀ e ∈ boundaries, e.childId ∉ includeChildIds → covers e.path p = false) :
    lookup (closureOf rootId boundaries includeChildIds) p =
      .ok (match longestPrefix boundaries p with
        | none => ⟨rootId, p, p⟩
        | some b =>
          if b.path.toList.length ≤ 1 then ⟨rootId, p, p⟩
          else ⟨b.childId, p, innerText b.path p⟩) := by
  have hexcluded : (longestFirst (closureOf rootId boundaries includeChildIds).excluded).find?
      (fun n => covers (stripSlashes n.path) p) = none := by
    rw [List.find?_eq_none]
    intro n hn
    obtain ⟨b, hb, rfl⟩ := List.mem_map.mp ((List.mem_insertionSort _).mp hn)
    obtain ⟨hb, hout⟩ := List.mem_filter.mp hb
    change ¬ covers (stripSlashes b.path) p = true
    rw [(hok.normal b hb).strip, h b hb (of_decide_eq_true hout)]
    exact nofun
  have htaken : ∀ b ∈ boundaries, includedPrefix (takenNode b) = b.path := by
    intro b hb
    rw [includedPrefix, if_neg]
    · exact (hok.normal b hb).strip
    · exact fun hdot => hdot.elim (hok.normal b hb).ne_empty (normalPath_ne_dot (hok.normal b hb))
  have hsearch : Lib.longest (fun n : MountGraphNode => n.path.toList.length)
      (fun n => includedPrefix n = "" || covers (includedPrefix n) p)
      ((boundaries.filter fun b => b.childId ∈ includeChildIds).map takenNode) =
      (longestPrefix boundaries p).map takenNode := by
    have hkeep : Lib.longest (fun b : ChildBoundary => b.path.toList.length)
        (fun b => covers b.path p) (boundaries.filter fun b => b.childId ∈ includeChildIds) =
        Lib.longest (fun b => b.path.toList.length) (fun b => covers b.path p) boundaries :=
      Lib.longest_filter fun b hb hout => h b hb (of_decide_eq_false hout)
    rw [Lib.longest_map, longestPrefix_eq hok, ← hkeep]
    congr 1
    refine Lib.longest_congr (fun _ _ => rfl) fun b hb => ?_
    have hb := List.mem_of_mem_filter hb
    change (includedPrefix (takenNode b) = "" || covers (includedPrefix (takenNode b)) p) = _
    rw [htaken b hb, decide_eq_false (hok.normal b hb).ne_empty, Bool.false_or]
  have hroot : includedPrefix ⟨rootId, ".", ""⟩ = "" := rfl
  have hbest : (longestFirst (closureOf rootId boundaries includeChildIds).included).find?
      (fun n => includedPrefix n = "" || covers (includedPrefix n) p) =
      some (match longestPrefix boundaries p with
        | none => ⟨rootId, ".", ""⟩
        | some b => if b.path.toList.length ≤ 1 then ⟨rootId, ".", ""⟩ else takenNode b) := by
    rw [longestFirst, Lib.find?_byLength, closureOf, Lib.longest, hsearch, hroot]
    cases longestPrefix boundaries p with
    | none => rfl
    | some b =>
      have hdot : (".".toList).length = 1 := rfl
      simp only [Option.map_some, takenNode, hdot, decide_true, Bool.true_or, true_and]
      split <;> rfl
  rw [lookup, hp.strip, hexcluded]
  dsimp only
  rw [hbest, Option.some_or]
  cases hlong : longestPrefix boundaries p with
  | none =>
    dsimp only
    rw [if_pos hroot]
  | some b =>
    have hb := ((longestPrefix_eq_some_iff hok).mp hlong).mem
    dsimp only
    split
    · rfl
    · rw [htaken b hb, if_neg (hok.normal b hb).ne_empty]
      rfl

/-! ## 5. The client and the owner -/

/-- The owner is a boundary that was left out. -/
def LeftOut (includeChildIds : List String) (owner : OwningBoundary) : Prop :=
  ∃ b, owner.boundary = some b ∧ b.childId ∉ includeChildIds

/-- What the client answers is what the owner says: a refusal exactly for a boundary that was left
    out, and otherwise the same id and the same inner path. -/
def Agrees (includeChildIds : List String) (owner : OwningBoundary)
    (answer : Except LookupError IncludedPath) : Prop :=
  ((∃ message, answer = .error (.excluded message)) ↔ LeftOut includeChildIds owner) ∧
    (¬ LeftOut includeChildIds owner →
      ∃ found, answer = .ok found ∧ found.childId = owner.ownerId ∧
        found.innerPath = owner.innerPath)

/-- A nearest boundary that was taken is longer than one character, and below no boundary that was
    left out. -/
def Clear (boundaries : List ChildBoundary) (includeChildIds : List String) (p : String) : Prop :=
  ∀ b, Nearest boundaries p b → b.childId ∈ includeChildIds →
    b.path.toList.length ≠ 1 ∧
      ∀ e ∈ boundaries, e.childId ∉ includeChildIds → covers e.path p = false

theorem resolve_none (hp : NormalPath p) (h : longestPrefix boundaries p = none) :
    resolveOwnerPath boundaries p rootId = ⟨rootId, none, p, p⟩ := by
  rw [resolveOwnerPath, hp.normalize, h]

theorem resolve_some (hok : BoundariesOk boundaries) (hp : NormalPath p) {b : ChildBoundary}
    (h : longestPrefix boundaries p = some b) :
    resolveOwnerPath boundaries p rootId = ⟨b.childId, some b, p, innerText b.path p⟩ := by
  rw [resolveOwnerPath, hp.normalize, h]
  dsimp only
  rw [(hok.normal b ((longestPrefix_eq_some_iff hok).mp h).mem).strip]

/-- The rest of a path below a boundary is shorter than the path. -/
theorem innerText_ne (hok : BoundariesOk boundaries) {b : ChildBoundary}
    (hb : Nearest boundaries p b) : p ≠ innerText b.path p := by
  intro heq
  have hlen : p.toList.length ≤ (p.toList.drop b.path.toList.length).length := by
    conv => lhs; rw [heq, innerText, String.toList_ofList]
    exact (List.dropWhile_sublist _).length_le
  have hpos : 0 < b.path.toList.length := by
    refine List.length_pos_iff.mpr fun hnil => (hok.normal b hb.mem).ne_empty ?_
    exact String.toList_eq_nil_iff.mp hnil
  have hppos : 0 < p.toList.length := by
    have habove := hb.above
    rw [covers, Bool.or_eq_true, decide_eq_true_iff, List.isPrefixOf_iff_prefix] at habove
    rcases habove with rfl | hprefix
    · exact hpos
    · have hle := hprefix.length_le
      rw [List.length_append] at hle
      omega
  rw [List.length_drop] at hlen
  omega

/-- **The client agrees with the owner of a path exactly where the path is clear.** -/
theorem agrees_iff (hok : BoundariesOk boundaries) (hp : NormalPath p) :
    Agrees includeChildIds (resolveOwnerPath boundaries p rootId)
      (lookup (closureOf rootId boundaries includeChildIds) p) ↔
      Clear boundaries includeChildIds p := by
  by_cases hout : ∃ e ∈ boundaries, e.childId ∉ includeChildIds ∧ covers e.path p = true
  · obtain ⟨message, hanswer⟩ : ∃ message,
        lookup (closureOf rootId boundaries includeChildIds) p = .error (.excluded message) :=
      lookup_excluded hok hp hout
    obtain ⟨e, he, heout, hcover⟩ := hout
    cases hlong : longestPrefix boundaries p with
    | none =>
      rw [longestPrefix_eq hok, Lib.longest_eq_none_iff] at hlong
      rw [hlong e he] at hcover
      cases hcover
    | some b =>
      have hnear := (longestPrefix_eq_some_iff hok).mp hlong
      rw [resolve_some hok hp hlong, hanswer]
      constructor
      · rintro ⟨hiff, -⟩ b' hnear' htaken
        have hsame := (longestPrefix_eq_some_iff hok).mpr hnear'
        rw [hlong] at hsame
        obtain rfl := Option.some.inj hsame
        obtain ⟨b', hb', hleft⟩ := hiff.mp ⟨message, rfl⟩
        obtain rfl := Option.some.inj hb'
        exact absurd htaken hleft
      · intro hclear
        have hleft : b.childId ∉ includeChildIds := by
          intro htaken
          rw [(hclear b hnear htaken).2 e he heout] at hcover
          cases hcover
        exact ⟨⟨fun _ => ⟨b, rfl, hleft⟩, fun _ => ⟨message, rfl⟩⟩, fun hnot =>
          absurd ⟨b, rfl, hleft⟩ hnot⟩
  · have hnone : ∀ e ∈ boundaries, e.childId ∉ includeChildIds → covers e.path p = false := by
      intro e he heout
      by_contra hcover
      rw [Bool.not_eq_false] at hcover
      exact hout ⟨e, he, heout, hcover⟩
    rw [lookup_included hok hp hnone]
    cases hlong : longestPrefix boundaries p with
    | none =>
      rw [resolve_none hp hlong]
      refine ⟨fun _ b hnear _ => ?_, fun _ => ⟨⟨?_, ?_⟩, fun _ => ⟨_, rfl, rfl, rfl⟩⟩⟩
      · rw [(longestPrefix_eq_some_iff hok).mpr hnear] at hlong
        cases hlong
      · rintro ⟨message, hanswer⟩
        cases hanswer
      · rintro ⟨b, hb, -⟩
        cases hb
    | some b =>
      have hnear := (longestPrefix_eq_some_iff hok).mp hlong
      have htaken : b.childId ∈ includeChildIds := by
        by_contra hleft
        have hcover := hnone b hnear.mem hleft
        rw [hnear.above] at hcover
        cases hcover
      have hnotLeft : ¬ LeftOut includeChildIds ⟨b.childId, some b, p, innerText b.path p⟩ := by
        rintro ⟨b', hb', hleft⟩
        obtain rfl := Option.some.inj hb'
        exact hleft htaken
      have hpos : b.path.toList.length ≠ 0 := fun hzero =>
        (hok.normal b hnear.mem).ne_empty
          (String.toList_eq_nil_iff.mp (List.length_eq_zero_iff.mp hzero))
      rw [resolve_some hok hp hlong]
      dsimp only
      by_cases hlen : b.path.toList.length ≤ 1
      · rw [if_pos hlen]
        constructor
        · rintro ⟨-, hsame⟩
          obtain ⟨found, hfound, -, hinner⟩ := hsame hnotLeft
          obtain rfl := Except.ok.inj hfound
          exact absurd hinner (innerText_ne hok hnear)
        · intro hclear
          have hone := (hclear b hnear htaken).1
          omega
      · rw [if_neg hlen]
        constructor
        · intro _ b' hnear' _
          have hsame := (longestPrefix_eq_some_iff hok).mpr hnear'
          rw [hlong] at hsame
          obtain rfl := Option.some.inj hsame
          exact ⟨by omega, hnone⟩
        · refine fun _ => ⟨⟨?_, fun hleft => absurd hleft hnotLeft⟩, fun _ => ⟨_, rfl, rfl, rfl⟩⟩
          rintro ⟨message, hanswer⟩
          cases hanswer

/-- **The staged lookup and the owner**: over the closure of a root, sent through its dictionary,
    the client agrees with `resolve_owner_path` exactly where the path is clear. -/
theorem lookup_agrees_iff {manifests : List ChildManifest} {root : ChildManifest}
    (hroot : root ∈ manifests) (hids : (manifests.map ChildManifest.id).Nodup)
    (hok : BoundariesOk root.childBoundaries) (hp : NormalPath p) :
    ∃ graph, computeMountClosure manifests root.id includeChildIds = some graph ∧
      (Agrees includeChildIds (resolveOwnerPath root.childBoundaries p root.id)
        (lookup (MountGraph.fromDict graph.toDict) p) ↔
          Clear root.childBoundaries includeChildIds p) := by
  refine ⟨_, computeMountClosure_root hroot hids, ?_⟩
  rw [closureOf_fromDict_toDict hok]
  exact agrees_iff hok hp

end

/-! ## 6. Two boundaries, one in the other -/

/-- A home with an environment of a one-letter path, and one inside a boundary of its own. -/
def aliceHome : ChildManifest where
  id := "home:alice"
  name := "alice-root"
  type := "user-root"
  generation := 1
  childBoundaries := [⟨"conda", "env:conda", "lazy", "explicit"⟩,
    ⟨"conda/envs", "env:envs", "lazy", "explicit"⟩, ⟨"a", "env:a", "lazy", "explicit"⟩]

def lookupIn (includeChildIds : List String) (p : String) :
    Option (Except LookupError IncludedPath) :=
  (computeMountClosure [aliceHome] aliceHome.id includeChildIds).map fun graph =>
    lookup (MountGraph.fromDict graph.toDict) p

/-- **The client refuses a path of a taken boundary** inside one that was left out, and gives the
    path of a one-letter boundary to the root. -/
theorem lookup_disagrees :
    (resolveOwnerPath aliceHome.childBoundaries "conda/envs/x" aliceHome.id).ownerId = "env:envs" ∧
    lookupIn ["env:envs"] "conda/envs/x" = some (.error (.excluded ("child env:conda at conda is " ++
      "excluded from this HPC closure: child boundary not included in this HPC closure"))) ∧
    (resolveOwnerPath aliceHome.childBoundaries "a/x" aliceHome.id).ownerId = "env:a" ∧
    lookupIn ["env:a"] "a/x" = some (.ok ⟨"home:alice", "a/x", "a/x"⟩) := by
  decide +kernel

theorem pathName_of_decide {name : String}
    (h : name ≠ "" ∧ name ≠ "." ∧ name ≠ ".." ∧ '/' ∉ name.toList) : PathName name :=
  ⟨h.1, h.2.1, h.2.2.1, h.2.2.2⟩

theorem aliceHome_ok : BoundariesOk aliceHome.childBoundaries where
  normal b hb := by
    have hconda : PathName "conda" := pathName_of_decide (by decide +kernel)
    have henvs : PathName "envs" := pathName_of_decide (by decide +kernel)
    have ha : PathName "a" := pathName_of_decide (by decide +kernel)
    simp only [aliceHome, List.mem_cons, List.not_mem_nil, or_false] at hb
    rcases hb with rfl | rfl | rfl
    · exact ⟨["conda"], by simp, by simpa using hconda, by decide +kernel⟩
    · exact ⟨["conda", "envs"], by simp, by simpa using ⟨hconda, henvs⟩, by decide +kernel⟩
    · exact ⟨["a"], by simp, by simpa using ha, by decide +kernel⟩
  distinct := by decide +kernel

theorem aliceHome_agrees_iff :
    NormalPath "conda/envs" ∧
      ∃ graph, computeMountClosure [aliceHome] aliceHome.id ["env:conda"] = some graph ∧
        (Agrees ["env:conda"]
          (resolveOwnerPath aliceHome.childBoundaries "conda/envs" aliceHome.id)
          (lookup (MountGraph.fromDict graph.toDict) "conda/envs") ↔
            Clear aliceHome.childBoundaries ["env:conda"] "conda/envs") := by
  have hp : NormalPath "conda/envs" :=
    aliceHome_ok.normal ⟨"conda/envs", "env:envs", "lazy", "explicit"⟩ (by decide +kernel)
  exact ⟨hp, lookup_agrees_iff (List.mem_singleton_self _) (by decide +kernel) aliceHome_ok hp⟩

end CccStorage.Hpc
