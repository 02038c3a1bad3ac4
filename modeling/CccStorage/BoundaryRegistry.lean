/-
  File:      CccStorage/BoundaryRegistry.lean
  Subject:   `BoundaryRegistry` (`core/resolve.py`): parents and children, in both directions.

  * `add`, `fromManifests` -- a parent's declaration overwrites, a child's own only fills a gap;
  * `Declares`, `SelfDeclares` -- what the manifests say of a child;
  * `parentOf_eq_some_iff` -- the map after any additions, in terms of what is declared;
  * `fromManifests_perm` -- the order of the manifests does not matter, and the two directions
    agree.
-/
import CccStorage.HpcClosure

namespace CccStorage.Boundaries

open Hpc

/-! ## 1. The registry -/

/-- `ParentRef`. -/
structure ParentRef where
  parentId : String
  parentPath : String
  deriving DecidableEq, Repr

/-- `BoundaryRegistry`: a dictionary is the map it stands for. -/
structure BoundaryRegistry where
  boundaries : String → Option (List ChildBoundary)
  parents : String → Option ParentRef
  manifests : String → Option ChildManifest

def BoundaryRegistry.empty : BoundaryRegistry := ⟨fun _ => none, fun _ => none, fun _ => none⟩

/-- One boundary of a manifest: its child has this parent now. -/
def declare (parentId : String) (parents : String → Option ParentRef) (b : ChildBoundary) :
    String → Option ParentRef :=
  Function.update parents b.childId (some ⟨parentId, stripSlashes b.path⟩)

/-- `self._parent_of.setdefault(child_id, ref)`. -/
def setDefault (parents : String → Option ParentRef) (childId : String) (ref : ParentRef) :
    String → Option ParentRef :=
  Function.update parents childId ((parents childId).or (some ref))

/-- `registry.add(manifest)`. -/
def BoundaryRegistry.add (r : BoundaryRegistry) (m : ChildManifest) : BoundaryRegistry :=
  let r := { r with manifests := Function.update r.manifests m.id (some m) }
  let r :=
    if m.childBoundaries ≠ [] then
      { r with
        boundaries := Function.update r.boundaries m.id (some m.childBoundaries)
        parents := m.childBoundaries.foldl (declare m.id) r.parents }
    else r
  if m.parentId ≠ "" then
    { r with parents := setDefault r.parents m.id ⟨m.parentId, stripSlashes m.parentPath⟩ }
  else r

/-- `BoundaryRegistry.from_manifests(manifests)`. -/
def fromManifests (manifests : List ChildManifest) : BoundaryRegistry :=
  manifests.foldl BoundaryRegistry.add .empty

namespace BoundaryRegistry

def boundariesOf (r : BoundaryRegistry) (parentId : String) : List ChildBoundary :=
  (r.boundaries parentId).getD []

def childIds (r : BoundaryRegistry) (parentId : String) : List String :=
  (r.boundariesOf parentId).map ChildBoundary.childId

def parentOf (r : BoundaryRegistry) (childId : String) : Option ParentRef := r.parents childId

def resolveOwner (r : BoundaryRegistry) (parentId relPath : String) : OwningBoundary :=
  resolveOwnerPath (r.boundariesOf parentId) relPath parentId

end BoundaryRegistry

/-! ## 2. What the manifests declare -/

/-- Distinct ids, and every child id declared as a boundary at most once. -/
structure DeclaredOnce (ms : List ChildManifest) : Prop where
  ids : (ms.map ChildManifest.id).Nodup
  children : ((ms.flatMap ChildManifest.childBoundaries).map ChildBoundary.childId).Nodup

/-- A manifest has a boundary for the child. -/
def Declares (ms : List ChildManifest) (child : String) (ref : ParentRef) : Prop :=
  ∃ m ∈ ms, ∃ b ∈ m.childBoundaries, b.childId = child ∧ ref = ⟨m.id, stripSlashes b.path⟩

/-- The child's own manifest names its parent. -/
def SelfDeclares (ms : List ChildManifest) (child : String) (ref : ParentRef) : Prop :=
  ∃ m ∈ ms, m.id = child ∧ m.parentId ≠ "" ∧ ref = ⟨m.parentId, stripSlashes m.parentPath⟩

/-- **The parent of a child**: the one that declares it, or else the one it declares. -/
def HasParent (ms : List ChildManifest) (child : String) (ref : ParentRef) : Prop :=
  Declares ms child ref ∨ (∀ ref', ¬Declares ms child ref') ∧ SelfDeclares ms child ref

section

variable {ms ms' : List ChildManifest} {m : ChildManifest} {child id : String} {ref : ParentRef}
  {r : BoundaryRegistry} {bs : List ChildBoundary} {b : ChildBoundary}

theorem DeclaredOnce.left (h : DeclaredOnce (ms ++ [m])) : DeclaredOnce ms := by
  obtain ⟨hids, hchildren⟩ := h
  rw [List.map_append] at hids
  rw [List.flatMap_append, List.map_append] at hchildren
  exact ⟨hids.of_append_left, hchildren.of_append_left⟩

theorem DeclaredOnce.perm (h : DeclaredOnce ms) (hperm : ms'.Perm ms) : DeclaredOnce ms' :=
  ⟨((hperm.map _).nodup_iff).mpr h.ids,
    (((hperm.flatMap_right _).map _).nodup_iff).mpr h.children⟩

/-- What the last manifest declares, no earlier one does. -/
theorem DeclaredOnce.last (h : DeclaredOnce (ms ++ [m])) (hb : b ∈ m.childBoundaries) :
    ¬Declares ms b.childId ref := by
  rintro ⟨p, hp, c, hc, hchild, -⟩
  have hchildren := h.children
  rw [List.flatMap_append, List.map_append, List.nodup_append] at hchildren
  have hfirst : c.childId ∈ (ms.flatMap ChildManifest.childBoundaries).map ChildBoundary.childId :=
    List.mem_map_of_mem (List.mem_flatMap.mpr ⟨p, hp, hc⟩)
  have hsecond : b.childId ∈
      ([m].flatMap ChildManifest.childBoundaries).map ChildBoundary.childId :=
    List.mem_map_of_mem (by simpa using hb)
  exact hchildren.2.2 _ hfirst _ hsecond hchild

theorem DeclaredOnce.boundaries (h : DeclaredOnce (ms ++ [m])) :
    (m.childBoundaries.map ChildBoundary.childId).Nodup := by
  have hchildren := h.children
  rw [List.flatMap_append, List.map_append, List.flatMap_singleton] at hchildren
  exact hchildren.of_append_right

theorem DeclaredOnce.fresh (h : DeclaredOnce (ms ++ [m])) : m.id ∉ ms.map ChildManifest.id := by
  have hids := h.ids
  rw [List.map_append, List.nodup_append] at hids
  exact fun hmem => hids.2.2 _ hmem _ (by simp) rfl

theorem declares_concat :
    Declares (ms ++ [m]) child ref ↔ Declares ms child ref ∨
      ∃ b ∈ m.childBoundaries, b.childId = child ∧ ref = ⟨m.id, stripSlashes b.path⟩ := by
  simp [Declares, or_and_right, exists_or]

theorem selfDeclares_concat :
    SelfDeclares (ms ++ [m]) child ref ↔ SelfDeclares ms child ref ∨
      m.id = child ∧ m.parentId ≠ "" ∧ ref = ⟨m.parentId, stripSlashes m.parentPath⟩ := by
  simp [SelfDeclares, or_and_right, exists_or]

/-! ## 3. One addition -/

/-- The boundaries of one manifest: each child gets it as parent, the others keep theirs. -/
theorem foldl_declare (id : String) (h : (bs.map ChildBoundary.childId).Nodup)
    (parents : String → Option ParentRef) :
    (∀ b ∈ bs, bs.foldl (declare id) parents b.childId = some ⟨id, stripSlashes b.path⟩) ∧
      ∀ child, (∀ b ∈ bs, b.childId ≠ child) →
        bs.foldl (declare id) parents child = parents child := by
  induction bs generalizing parents with
  | nil => exact ⟨fun b hb => absurd hb List.not_mem_nil, fun _ _ => rfl⟩
  | cons c bs ih =>
    rw [List.map_cons, List.nodup_cons] at h
    obtain ⟨hset, hkeep⟩ := ih h.2 (declare id parents c)
    have hfresh : ∀ b ∈ bs, b.childId ≠ c.childId := fun b hb heq =>
      h.1 (heq ▸ List.mem_map_of_mem hb)
    refine ⟨fun b hb => ?_, fun child hchild => ?_⟩
    · rcases List.mem_cons.mp hb with rfl | hb
      · rw [List.foldl_cons, hkeep _ hfresh, declare, Function.update_self]
      · exact hset b hb
    · rw [List.foldl_cons, hkeep child fun b hb => hchild b (List.mem_cons_of_mem _ hb), declare,
        Function.update_of_ne (hchild c List.mem_cons_self).symm]

/-- The parents once the boundaries of a manifest are added. -/
theorem parents_add (r : BoundaryRegistry) (m : ChildManifest) :
    (r.add m).parents =
      if m.parentId ≠ "" then
        setDefault (m.childBoundaries.foldl (declare m.id) r.parents) m.id
          ⟨m.parentId, stripSlashes m.parentPath⟩
      else m.childBoundaries.foldl (declare m.id) r.parents := by
  have hnil : (if m.childBoundaries ≠ [] then m.childBoundaries.foldl (declare m.id) r.parents
      else r.parents) = m.childBoundaries.foldl (declare m.id) r.parents := by
    split
    · rfl
    · rename_i h
      rw [not_not.mp h]
      rfl
  rw [← hnil]
  unfold BoundaryRegistry.add
  split <;> split <;> rfl

theorem boundaries_add (r : BoundaryRegistry) (m : ChildManifest) :
    (r.add m).boundaries =
      if m.childBoundaries ≠ [] then
        Function.update r.boundaries m.id (some m.childBoundaries)
      else r.boundaries := by
  unfold BoundaryRegistry.add
  split <;> split <;> rfl

/-- A child the manifest has a boundary for. -/
theorem parentOf_add_of_declared (hnodup : (m.childBoundaries.map ChildBoundary.childId).Nodup)
    (hb : b ∈ m.childBoundaries) :
    (r.add m).parentOf b.childId = some ⟨m.id, stripSlashes b.path⟩ := by
  have hset := (foldl_declare m.id hnodup r.parents).1 b hb
  rw [BoundaryRegistry.parentOf, parents_add]
  split
  · rw [setDefault]
    by_cases hself : b.childId = m.id
    · rw [hself] at hset ⊢
      rw [Function.update_self, hset, Option.some_or]
    · rw [Function.update_of_ne hself, hset]
  · exact hset

/-- A child it has none for: only its own declaration can be new, and only where there is none. -/
theorem parentOf_add_of_other (hnodup : (m.childBoundaries.map ChildBoundary.childId).Nodup)
    (hchild : ∀ b ∈ m.childBoundaries, b.childId ≠ child) :
    (r.add m).parentOf child =
      if m.id = child ∧ m.parentId ≠ "" then
        (r.parentOf child).or (some ⟨m.parentId, stripSlashes m.parentPath⟩)
      else r.parentOf child := by
  have hkeep := (foldl_declare m.id hnodup r.parents).2 child hchild
  rw [BoundaryRegistry.parentOf, parents_add]
  by_cases hparent : m.parentId ≠ ""
  · rw [if_pos hparent, setDefault]
    by_cases hself : m.id = child
    · rw [if_pos ⟨hself, hparent⟩, hself, Function.update_self, ← hself]
      rw [← hself] at hkeep
      rw [hkeep]
      rfl
    · rw [if_neg fun h => hself h.1, Function.update_of_ne (Ne.symm hself), hkeep]
      rfl
  · rw [if_neg hparent, if_neg fun h => hparent h.2, hkeep]
    rfl

/-! ## 4. All additions -/

theorem fromManifests_concat (ms : List ChildManifest) (m : ChildManifest) :
    fromManifests (ms ++ [m]) = (fromManifests ms).add m := by
  rw [fromManifests, List.foldl_append]
  rfl

/-- **The parent of a child**, whatever came first. -/
theorem parentOf_eq_some_iff (hok : DeclaredOnce ms) :
    (fromManifests ms).parentOf child = some ref ↔ HasParent ms child ref := by
  induction ms using List.reverseRecOn generalizing child ref with
  | nil =>
    constructor
    · exact fun h => absurd h (Option.some_ne_none _ ∘ Eq.symm)
    · rintro (⟨p, hp, -⟩ | ⟨-, p, hp, -⟩) <;> exact absurd hp List.not_mem_nil
  | append_singleton ms m ih =>
    have hleft := hok.left
    have hnodup := hok.boundaries
    rw [fromManifests_concat]
    by_cases hdeclared : ∃ b ∈ m.childBoundaries, b.childId = child
    · obtain ⟨b, hb, rfl⟩ := hdeclared
      rw [parentOf_add_of_declared hnodup hb]
      have hlast : Declares (ms ++ [m]) b.childId ref ↔ ref = ⟨m.id, stripSlashes b.path⟩ := by
        rw [declares_concat]
        constructor
        · rintro (h | ⟨c, hc, hchild, href⟩)
          · exact absurd h (hok.last hb)
          · rwa [List.inj_on_of_nodup_map hnodup hc hb hchild] at href
        · exact fun href => .inr ⟨b, hb, rfl, href⟩
      constructor
      · exact fun h => .inl (hlast.mpr (Option.some.inj h).symm)
      · rintro (h | ⟨hno, -⟩)
        · rw [hlast.mp h]
        · exact absurd (declares_concat.mpr (.inr ⟨b, hb, rfl, rfl⟩)) (hno _)
    · have hchild : ∀ b ∈ m.childBoundaries, b.childId ≠ child := fun b hb heq =>
        hdeclared ⟨b, hb, heq⟩
      have hsame : ∀ ref, Declares (ms ++ [m]) child ref ↔ Declares ms child ref := by
        intro ref
        rw [declares_concat]
        exact ⟨fun h => h.resolve_right fun ⟨b, hb, heq, _⟩ => hchild b hb heq, .inl⟩
      rw [parentOf_add_of_other hnodup hchild]
      by_cases hself : m.id = child ∧ m.parentId ≠ ""
      · obtain ⟨rfl, hparent⟩ := hself
        -- its manifest is new, so nothing was self-declared before
        have hnew : ∀ ref, ¬SelfDeclares ms m.id ref := by
          rintro ref ⟨p, hp, hid, -⟩
          exact hok.fresh (hid ▸ List.mem_map_of_mem hp)
        have hown : SelfDeclares (ms ++ [m]) m.id ref ↔
            ref = ⟨m.parentId, stripSlashes m.parentPath⟩ := by
          rw [selfDeclares_concat]
          exact ⟨fun h => (h.resolve_left (hnew ref)).2.2, fun h => .inr ⟨rfl, hparent, h⟩⟩
        rw [if_pos ⟨rfl, hparent⟩, HasParent, hown, hsame]
        simp only [hsame]
        cases hfound : (fromManifests ms).parentOf m.id with
        | none =>
          have hno : ∀ ref', ¬Declares ms m.id ref' := fun ref' h => by
            have hsome := (ih hleft).mpr (.inl h)
            rw [hfound] at hsome
            cases hsome
          rw [Option.none_or]
          constructor
          · exact fun h => .inr ⟨hno, (Option.some.inj h).symm⟩
          · rintro (h | ⟨-, h⟩)
            · exact absurd h (hno ref)
            · rw [h]
        | some old =>
          have hold : Declares ms m.id old := by
            rcases (ih hleft).mp hfound with h | ⟨-, h⟩
            · exact h
            · exact absurd h (hnew old)
          rw [Option.some_or]
          constructor
          · exact fun h => .inl (Option.some.inj h ▸ hold)
          · rintro (h | ⟨hno, -⟩)
            · exact hfound.symm.trans ((ih hleft).mpr (.inl h))
            · exact absurd hold (hno old)
      · have hown : SelfDeclares (ms ++ [m]) child ref ↔ SelfDeclares ms child ref := by
          rw [selfDeclares_concat]
          exact ⟨fun h => h.resolve_right fun h => hself ⟨h.1, h.2.1⟩, .inl⟩
        rw [if_neg hself, ih hleft, HasParent, HasParent, hown, hsame]
        simp only [hsame]

/-- The boundaries of the last manifest of an id that has some, as the mount closure takes them. -/
theorem boundariesOf_eq_last (ms : List ChildManifest) (id : String) :
    (fromManifests ms).boundariesOf id = Hpc.boundariesOf ms id := by
  induction ms using List.reverseRecOn with
  | nil => rfl
  | append_singleton ms m ih =>
    rw [fromManifests_concat, BoundaryRegistry.boundariesOf, boundaries_add]
    rw [Hpc.boundariesOf, List.filter_append]
    by_cases hbs : m.childBoundaries ≠ []
    · rw [if_pos hbs]
      by_cases hid : m.id = id
      · have hlast : [m].filter (fun m => m.id = id ∧ m.childBoundaries ≠ []) = [m] := by
          simp [hid, hbs]
        rw [hlast, List.getLast?_concat, ← hid, Function.update_self]
        rfl
      · have hlast : [m].filter (fun m => m.id = id ∧ m.childBoundaries ≠ []) = [] := by
          simp [hid]
        rw [hlast, List.append_nil, Function.update_of_ne (Ne.symm hid)]
        exact ih
    · have hlast : [m].filter (fun m => m.id = id ∧ m.childBoundaries ≠ []) = [] := by
        simp [not_not.mp hbs]
      rw [if_neg hbs, hlast, List.append_nil]
      exact ih

/-- **The boundaries of a parent** are those of its manifest. -/
theorem boundariesOf_eq (hids : (ms.map ChildManifest.id).Nodup) :
    (∀ m ∈ ms, (fromManifests ms).boundariesOf m.id = m.childBoundaries) ∧
      ∀ id, id ∉ ms.map ChildManifest.id → (fromManifests ms).boundariesOf id = [] := by
  induction ms using List.reverseRecOn with
  | nil => exact ⟨fun m hm => absurd hm List.not_mem_nil, fun _ _ => rfl⟩
  | append_singleton ms m ih =>
    rw [List.map_append, List.nodup_append] at hids
    obtain ⟨hbefore, hother⟩ := ih hids.1
    have hnew : m.id ∉ ms.map ChildManifest.id := fun hmem => hids.2.2 _ hmem _ (by simp) rfl
    have hself : ((fromManifests ms).add m).boundariesOf m.id = m.childBoundaries := by
      rw [BoundaryRegistry.boundariesOf, boundaries_add]
      split
      · rw [Function.update_self, Option.getD_some]
      · rename_i h
        rw [not_not.mp h]
        exact hother _ hnew
    have hkeep : ∀ id, id ≠ m.id →
        ((fromManifests ms).add m).boundariesOf id = (fromManifests ms).boundariesOf id := by
      intro id hid
      rw [BoundaryRegistry.boundariesOf, boundaries_add]
      split
      · rw [Function.update_of_ne hid]
        rfl
      · rfl
    rw [fromManifests_concat]
    refine ⟨fun p hp => ?_, fun id hid => ?_⟩
    · rcases List.mem_append.mp hp with hp | hp
      · rw [hkeep p.id fun heq => hnew (heq ▸ List.mem_map_of_mem hp)]
        exact hbefore p hp
      · rw [List.mem_singleton.mp hp]
        exact hself
    · rw [List.map_append, List.mem_append, not_or] at hid
      rw [hkeep id (by simpa using hid.2)]
      exact hother id hid.1

theorem hasParent_perm (hperm : ms'.Perm ms) :
    HasParent ms' child ref ↔ HasParent ms child ref := by
  have hdeclares : ∀ ref, Declares ms' child ref ↔ Declares ms child ref := fun ref => by
    simp only [Declares, hperm.mem_iff]
  have hself : SelfDeclares ms' child ref ↔ SelfDeclares ms child ref := by
    simp only [SelfDeclares, hperm.mem_iff]
  simp only [HasParent, hdeclares, hself]

theorem boundariesOf_perm (hids : (ms.map ChildManifest.id).Nodup) (hperm : ms'.Perm ms) :
    (fromManifests ms').boundariesOf id = (fromManifests ms).boundariesOf id := by
  have hids' : (ms'.map ChildManifest.id).Nodup := ((hperm.map _).nodup_iff).mpr hids
  by_cases hmem : id ∈ ms.map ChildManifest.id
  · obtain ⟨m, hm, rfl⟩ := List.mem_map.mp hmem
    rw [(boundariesOf_eq hids).1 m hm, (boundariesOf_eq hids').1 m (hperm.mem_iff.mpr hm)]
  · have hmem' : id ∉ ms'.map ChildManifest.id := by rwa [(hperm.map _).mem_iff]
    rw [(boundariesOf_eq hids).2 id hmem, (boundariesOf_eq hids').2 id hmem']

/-- **The order of the manifests does not matter**, and the two directions agree: a boundary's child
    has the manifest with the boundary as its parent, whatever it declares itself, and a child of
    no boundary has exactly the parent it declares. -/
theorem fromManifests_perm (ms : List ChildManifest) (hok : DeclaredOnce ms) :
    (∀ ms', ms'.Perm ms →
      (∀ id, (fromManifests ms').boundariesOf id = (fromManifests ms).boundariesOf id) ∧
      (∀ id, (fromManifests ms').childIds id = (fromManifests ms).childIds id) ∧
      (∀ id, (fromManifests ms').parentOf id = (fromManifests ms).parentOf id) ∧
      ∀ id relPath, (fromManifests ms').resolveOwner id relPath =
        (fromManifests ms).resolveOwner id relPath) ∧
    (∀ m ∈ ms, (fromManifests ms).boundariesOf m.id = m.childBoundaries) ∧
    (∀ p, ∀ b ∈ (fromManifests ms).boundariesOf p,
      (fromManifests ms).parentOf b.childId = some ⟨p, stripSlashes b.path⟩) ∧
    ∀ child, (∀ p ∈ ms, ∀ b ∈ p.childBoundaries, b.childId ≠ child) →
      ∀ ref, (fromManifests ms).parentOf child = some ref ↔ SelfDeclares ms child ref := by
  refine ⟨fun ms' hperm => ?_, (boundariesOf_eq hok.ids).1, fun p b hb => ?_,
    fun child hno ref => ?_⟩
  · have hbound : ∀ id, (fromManifests ms').boundariesOf id = (fromManifests ms).boundariesOf id :=
      fun id => boundariesOf_perm hok.ids hperm
    refine ⟨hbound, fun id => ?_, fun id => Option.ext fun ref => ?_, fun id relPath => ?_⟩
    · rw [BoundaryRegistry.childIds, hbound]
      rfl
    · rw [parentOf_eq_some_iff (hok.perm hperm), parentOf_eq_some_iff hok, hasParent_perm hperm]
    · rw [BoundaryRegistry.resolveOwner, hbound]
      rfl
  · by_cases hmem : p ∈ ms.map ChildManifest.id
    · obtain ⟨m, hm, rfl⟩ := List.mem_map.mp hmem
      rw [(boundariesOf_eq hok.ids).1 m hm] at hb
      exact (parentOf_eq_some_iff hok).mpr (.inl ⟨m, hm, b, hb, rfl, rfl⟩)
    · rw [(boundariesOf_eq hok.ids).2 p hmem] at hb
      exact absurd hb List.not_mem_nil
  · have hnone : ∀ ref', ¬Declares ms child ref' := fun ref' ⟨p, hp, b, hb, hchild, _⟩ =>
      hno p hp b hb hchild
    rw [parentOf_eq_some_iff hok]
    exact ⟨fun h => (h.resolve_left (hnone ref)).2, fun h => .inr ⟨hnone, h⟩⟩

def rootManifest : ChildManifest :=
  { id := "root", name := "root", type := "user-root", generation := 3
    childBoundaries := [⟨"/env/a/", "a", "lazy", "explicit"⟩] }

/-- A child that names another parent than the one that has it. -/
def childManifest : ChildManifest :=
  { id := "a", name := "a", type := "conda-env", generation := 5, parentId := "other"
    parentPath := "old" }

theorem fromManifests_perm_witness :
    (fromManifests [rootManifest, childManifest]).parentOf "a" =
        (fromManifests [childManifest, rootManifest]).parentOf "a" ∧
      (fromManifests [childManifest, rootManifest]).parentOf "a" = some ⟨"root", "env/a"⟩ := by
  have hok : DeclaredOnce [childManifest, rootManifest] := ⟨by decide, by decide⟩
  obtain ⟨hperm, hbounds, hparent, -⟩ := fromManifests_perm _ hok
  refine ⟨(hperm _ (List.Perm.swap _ _ _)).2.2.1 "a", ?_⟩
  have hb : (⟨"/env/a/", "a", "lazy", "explicit"⟩ : ChildBoundary) ∈
      (fromManifests [childManifest, rootManifest]).boundariesOf rootManifest.id := by
    rw [hbounds rootManifest (by decide)]
    decide
  exact (hparent "root" _ hb).trans (by decide +kernel)

end

end CccStorage.Boundaries
