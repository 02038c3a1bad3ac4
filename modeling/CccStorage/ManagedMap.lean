/-
  File:      CccStorage/ManagedMap.lean
  Subject:   Is the managed parent a map from names to children? The manifest files are named by
             the sanitised names, so two names may mean one file.

  * `NameMap.Does` -- what each operation does to a map from exact names to children, and what
    it returns;
  * `children` -- the map a registry stands for;
  * `Unambiguous` -- the names of a call have their own files;
  * `parentStep_does` -- an unambiguous call acts as the map does;
  * `managedParent_refines` -- and so does every run of such calls;
  * `sameFile_diverges` -- a child removed under another name.
-/
import CccStorage.ManagedParent

namespace CccStorage

/-! ## 1. A map from names to children -/

/-- A child: its manifest, the files in its active upper and its live mount. -/
structure Child where
  manifest : ChildManifest
  upper : Tree
  live : Option MountRecord

abbrev NameMap := String → Option Child

section Spec

variable (cfg : ParentConfig)

def Child.status (c : Child) : Except ParentError ParentResult :=
  .ok (.status (childStatus cfg c.manifest c.upper c.live))

/-- A child just created. -/
def newChild (name : String) : Child where
  manifest := newManifest cfg name
  upper := ⟨[]⟩
  live := none

/-- What an operation leaves and returns. -/
abbrev NameMap.Answer := NameMap × Except ParentError ParentResult

namespace NameMap

variable (M : NameMap)

def create (name : String) : Answer :=
  match M name with
  | some _ => (M, .error (.childExists name cfg.parentPath))
  | none => (Function.update M name (some (newChild cfg name)), (newChild cfg name).status cfg)

/-- The child under a new name. -/
def renamed (c : Child) (newName : String) : Child :=
  { c with manifest := renamedManifest cfg c.manifest newName }

def rename (oldName newName : String) : Answer :=
  match M oldName with
  | none => (M, .error (.childNotFound oldName cfg.parentPath))
  | some c =>
    match M newName with
    | some _ => (M, .error (.childExists newName cfg.parentPath))
    | none =>
      (Function.update (Function.update M oldName none) newName (some (renamed cfg c newName)),
        (renamed cfg c newName).status cfg)

def remove (name : String) : Answer :=
  match M name with
  | none => (M, .error (.childNotFound name cfg.parentPath))
  | some c =>
    if c.manifest.generation > 0 ∨ c.manifest.lowers ≠ [] then
      (M, .error (.committed name c.manifest.generation))
    else if (dirtyStats c.upper).dirty then
      (M, .error (.notEmpty name (dirtyStats c.upper).fileCount))
    else (Function.update M name none, .ok (.removed c.manifest.id name))

def access (name : String) : Answer :=
  match M name with
  | none => (M, .error (.childNotFound name cfg.parentPath))
  | some c =>
    match mountRo c.live (mountpointPath cfg c.manifest.id) (cfg.prepare c.manifest) with
    | .error e => (M, .error (.mount e))
    | .ok record =>
      (Function.update M name (some { c with live := some record }),
        .ok (.status (childStatus cfg (cfg.prepare c.manifest) c.upper (some record))))

/-- A listing returns the names in the map, in order. -/
def Lists (answer : Answer) : Prop :=
  answer.1 = M ∧ ∃ names, answer.2 = .ok (.names names) ∧ names.Pairwise (· < ·) ∧
    ∀ n, n ∈ names ↔ (M n).isSome

/-- **What an operation does to a map from names to children**: it acts on the child of exactly
    that name, and leaves every other child alone. -/
def Does : ParentOp → Answer → Prop
  | .create name, answer => answer = create cfg M name.text
  | .rename oldName newName, answer => answer = rename cfg M oldName.text newName.text
  | .remove name, answer => answer = remove cfg M name.text
  | .access name, answer => answer = access cfg M name.text
  | .list, answer => Lists M answer

end NameMap

end Spec

/-! ## 2. The map of a registry -/

/-- The child a manifest describes. -/
def ParentState.childOf (s : ParentState) (m : ChildManifest) : Child where
  manifest := m
  upper := s.upperOf m.id
  live := s.mounts m.id

/-- **The children of a registry** by their exact names. -/
def children (s : ParentState) : NameMap := fun name =>
  match s.load (safeName name) with
  | some m => if m.name = name then some (s.childOf m) else none
  | none => none

/-- What every call keeps. -/
structure Consistent (cfg : ParentConfig) (s : ParentState) : Prop extends IdsInv cfg s where
  named : ∀ x ∈ s.files, x.1 = safeName x.2.name ∧ validateName x.2.name = none
  /-- An overlay under the id of a name is that of a child. -/
  owned : ∀ n u, s.uppers (safeNamespaceName (childId cfg n)) = some u →
    ∃ x ∈ s.files, x.2.id = childId cfg n
  /-- A mount under the id of a name is that of a child with packs. -/
  live : ∀ n r, s.mounts (childId cfg n) = some r →
    ∃ x ∈ s.files, x.2.id = childId cfg n ∧ x.2.lowers ≠ []

/-- **The file of a name is its own**: no child of another name has it. -/
def OwnFile (s : ParentState) (name : String) : Prop :=
  ∀ x ∈ s.files, x.1 = safeName name → x.2.name = name

/-- A file name that `list_children` takes for a temporary one. -/
def isHiddenFile (stem : String) : Bool := ".".toList.isPrefixOf (stem ++ ".toml").toList

/-- **The condition**: the names of the call have their own files, a name that is absent is created
    only when no child has the id derived from it, and a listing finds no file whose name starts
    with a dot. -/
def Unambiguous (cfg : ParentConfig) (s : ParentState) : ParentOp → Prop
  | .create name =>
    OwnFile s name.text ∧ (¬ (children s name.text).isSome → FreshId cfg s (.create name))
  | .rename oldName newName =>
    OwnFile s oldName.text ∧ ((children s oldName.text).isSome → OwnFile s newName.text)
  | .remove name => OwnFile s name.text
  | .access name => OwnFile s name.text
  | .list => ∀ x ∈ s.files, isHiddenFile x.1 = false

section Lookup

variable {cfg : ParentConfig} {s t : ParentState} {stem stem' name : String} {m : ChildManifest}

theorem load_dump : (s.dump stem m).load stem' = if stem' = stem then some m else s.load stem' := by
  unfold ParentState.load ParentState.dump
  simp only [List.lookup_cons]
  by_cases h : stem' = stem
  · rw [h, beq_self_eq_true, if_pos rfl]
  · rw [beq_eq_false_iff_ne.mpr h, if_neg h, Tree.lookup_filter (fun a => decide (a ≠ stem)),
      decide_eq_true h, if_pos rfl]

theorem load_unlink :
    (s.unlink stem).load stem' = if stem' = stem then none else s.load stem' := by
  unfold ParentState.load ParentState.unlink
  simp only
  rw [Tree.lookup_filter (fun a => decide (a ≠ stem))]
  by_cases h : stem' = stem
  · simp [h]
  · simp [h]

@[simp] theorem load_ensureActiveUpper (id : String) :
    (s.ensureActiveUpper id).load stem = s.load stem := rfl

@[simp] theorem load_removeOverlay (id : String) :
    (s.removeOverlay id).load stem = s.load stem := rfl

/-- Making an upper sure to be there changes no files in any. -/
@[simp] theorem upperOf_ensureActiveUpper (id id' : String) :
    (s.ensureActiveUpper id).upperOf id' = s.upperOf id' := by
  unfold ParentState.ensureActiveUpper ParentState.upperOf
  simp only
  by_cases h : safeNamespaceName id' = safeNamespaceName id
  · rw [h, Function.update_self]
    rfl
  · rw [Function.update_of_ne h]

@[simp] theorem childOf_ensureActiveUpper (id : String) :
    (s.ensureActiveUpper id).childOf m = s.childOf m := by
  unfold ParentState.childOf
  rw [upperOf_ensureActiveUpper]
  rfl

@[simp] theorem childOf_dump (m' : ChildManifest) : (s.dump stem m').childOf m = s.childOf m := rfl

@[simp] theorem childOf_unlink : (s.unlink stem).childOf m = s.childOf m := rfl

/-- The map depends only on the files found and the children they describe. -/
@[simp] theorem children_ensureActiveUpper (id : String) :
    children (s.ensureActiveUpper id) = children s := by
  funext name
  unfold children
  simp only [load_ensureActiveUpper, childOf_ensureActiveUpper]

/-- **With its own file**, a name means what the file says. -/
theorem children_of_ownFile (h : OwnFile s name) :
    children s name = (s.load (safeName name)).map s.childOf := by
  unfold children
  cases hl : s.load (safeName name) with
  | none => rfl
  | some m =>
      have hn : m.name = name := h _ (mem_of_load hl) rfl
      simp only [hn, if_true, Option.map_some]

/-- Another name under a file means nothing. -/
theorem children_of_other (hl : s.load (safeName name) = some m) (hn : m.name ≠ name) :
    children s name = none := by
  unfold children
  rw [hl]
  simp only [if_neg hn]

theorem children_of_none (hl : s.load (safeName name) = none) : children s name = none := by
  unfold children
  rw [hl]

/-- **The children are the manifests.** -/
theorem children_isSome_iff (h : Consistent cfg s) :
    (children s name).isSome ↔ ∃ x ∈ s.files, x.2.name = name := by
  constructor
  · intro hsome
    unfold children at hsome
    split at hsome
    · rename_i m hl
      split at hsome
      · rename_i hn
        exact ⟨_, mem_of_load hl, hn⟩
      · cases hsome
    · cases hsome
  · rintro ⟨x, hx, rfl⟩
    cases hl : s.load (safeName x.2.name) with
    | none => exact absurd (h.named x hx).1 (stem_ne_of_load_none hl x hx)
    | some m =>
        have heq := h.eq_of_stem (mem_of_load hl) hx (h.named x hx).1.symm
        unfold children
        rw [hl]
        simp only
        rw [if_pos (by rw [← heq])]
        rfl

end Lookup

/-! ## 3. Every unambiguous call acts as the map does -/

section Calls

variable {cfg : ParentConfig} {s : ParentState}

/-- A child published under a free file name. -/
theorem children_dump_new {name : String} {m : ChildManifest} (hn : m.name = name)
    (hfree : s.load (safeName name) = none) :
    children (s.dump (safeName name) m) = Function.update (children s) name (some (s.childOf m)) := by
  funext k
  by_cases hk : k = name
  · rw [hk, Function.update_self]
    unfold children
    rw [load_dump, if_pos rfl]
    simp only [hn, if_true, childOf_dump]
  · rw [Function.update_of_ne hk]
    by_cases hstem : safeName k = safeName name
    · have hnone : s.load (safeName k) = none := by
        rw [hstem]
        exact hfree
      have hother : (s.dump (safeName name) m).load (safeName k) = some m := by
        rw [load_dump, if_pos hstem]
      rw [children_of_none hnone, children_of_other hother (by rw [hn]; exact Ne.symm hk)]
    · unfold children
      rw [load_dump, if_neg hstem]
      rfl

/-- A child taken away with its file. -/
theorem children_unlink {name : String} {m : ChildManifest} (hn : m.name = name)
    (hl : s.load (safeName name) = some m) :
    children (s.unlink (safeName name)) = Function.update (children s) name none := by
  funext k
  by_cases hstem : safeName k = safeName name
  · have hgone : (s.unlink (safeName name)).load (safeName k) = none := by
      rw [load_unlink, if_pos hstem]
    rw [children_of_none hgone]
    by_cases hk : k = name
    · rw [hk, Function.update_self]
    · have hother : s.load (safeName k) = some m := by
        rw [hstem]
        exact hl
      rw [Function.update_of_ne hk, children_of_other hother (by rw [hn]; exact Ne.symm hk)]
  · have hk : k ≠ name := fun heq => hstem (by rw [heq])
    rw [Function.update_of_ne hk]
    unfold children
    rw [load_unlink, if_neg hstem]
    rfl

/-- The map a call leaves, and what it returns. -/
def answerOf (r : ParentState × Except ParentError ParentResult) : NameMap.Answer :=
  (children r.1, r.2)

theorem answerOf_status {m : ChildManifest} :
    answerOf (status cfg s m) = (children s, (s.childOf m).status cfg) := by
  unfold answerOf status
  rw [children_ensureActiveUpper]
  rfl

theorem create_does (h : Consistent cfg s) {n : ChildName} (hu : Unambiguous cfg s (.create n)) :
    answerOf (createChild cfg s n.text) = NameMap.create cfg (children s) n.text := by
  obtain ⟨hown, hfresh⟩ := hu
  rw [children_of_ownFile hown] at hfresh
  unfold NameMap.create createChild
  rw [n.valid, children_of_ownFile hown]
  cases hl : s.load (safeName n.text) with
  | some m => rfl
  | none =>
      have hfresh := hfresh (by rw [hl]; exact Bool.false_ne_true)
      -- nothing is left under the id
      have hupper : s.upperOf (newManifest cfg n.text).id = ⟨[]⟩ := by
        unfold ParentState.upperOf
        cases hu : s.uppers (safeNamespaceName (newManifest cfg n.text).id) with
        | none => rfl
        | some u =>
            obtain ⟨x, hx, hid⟩ := h.owned n.text u hu
            exact absurd hid (hfresh x hx)
      have hlive : s.mounts (newManifest cfg n.text).id = none := by
        cases hr : s.mounts (newManifest cfg n.text).id with
        | none => rfl
        | some r =>
            obtain ⟨x, hx, hid, -⟩ := h.live n.text r hr
            exact absurd hid (hfresh x hx)
      have hchild : s.childOf (newManifest cfg n.text) = newChild cfg n.text := by
        unfold ParentState.childOf newChild
        rw [hupper, hlive]
      have hname : (newManifest cfg n.text).name = n.text := rfl
      have hfree : (s.ensureActiveUpper (newManifest cfg n.text).id).load (safeName n.text) =
          none := by
        rw [load_ensureActiveUpper]
        exact hl
      simp only [Option.map_none, Option.isSome_none, Bool.false_eq_true, if_false]
      rw [answerOf_status, childOf_dump, childOf_ensureActiveUpper, hchild,
        children_dump_new hname hfree, children_ensureActiveUpper, childOf_ensureActiveUpper,
        hchild]

/-- A rename moves the child under its new name. -/
theorem rename_does {o n : ChildName} (hu : Unambiguous cfg s (.rename o n)) :
    answerOf (renameChild cfg s o.text n.text) =
      NameMap.rename cfg (children s) o.text n.text := by
  obtain ⟨hown, hnew⟩ := hu
  unfold NameMap.rename renameChild
  rw [n.valid]
  have hold := children_of_ownFile hown
  cases hl : s.load (safeName o.text) with
  | none =>
      rw [hl] at hold
      rw [hold]
      rfl
  | some m =>
      rw [hl] at hold
      have hname : m.name = o.text := hown _ (mem_of_load hl) rfl
      have hfile := children_of_ownFile (hnew (by rw [hold]; rfl))
      rw [hold, hfile]
      cases hln : s.load (safeName n.text) with
      | some m' => rfl
      | none =>
          have hne : safeName o.text ≠ safeName n.text := by
            intro heq
            rw [heq, hln] at hl
            cases hl
          have hl' : (s.dump (safeName n.text) (renamedManifest cfg m n.text)).load
              (safeName o.text) = some m := by
            rw [load_dump, if_neg hne]
            exact hl
          have hno : o.text ≠ n.text := fun heq => hne (by rw [heq])
          simp only [Option.map_some, Option.map_none, Option.isSome_none, Bool.false_eq_true,
            if_false]
          have hnamed : (renamedManifest cfg m n.text).name = n.text := rfl
          have hchild : s.childOf (renamedManifest cfg m n.text) =
              NameMap.renamed cfg (s.childOf m) n.text := rfl
          rw [answerOf_status, children_unlink hname hl', children_dump_new hnamed hln,
            Function.update_comm hno, childOf_unlink, childOf_dump, hchild]

/-- A removal takes the overlay of the removed child, and no other child's. -/
theorem remove_does (h : Consistent cfg s) {n : ChildName} (hown : OwnFile s n.text) :
    answerOf (removeChild cfg s n.text) = NameMap.remove cfg (children s) n.text := by
  unfold NameMap.remove removeChild
  rw [children_of_ownFile hown]
  cases hl : s.load (safeName n.text) with
  | none => rfl
  | some m =>
      have hname : m.name = n.text := hown _ (mem_of_load hl) rfl
      simp only [Option.map_some]
      have hgen : (s.childOf m).manifest = m := rfl
      have hup : (s.childOf m).upper = s.upperOf m.id := rfl
      rw [hgen, hup]
      split
      · rfl
      · split
        · rfl
        · have hothers : children ((s.unlink (safeName n.text)).removeOverlay m.id) =
              children (s.unlink (safeName n.text)) := by
            funext k
            unfold children
            rw [load_removeOverlay]
            cases hk : (s.unlink (safeName n.text)).load (safeName k) with
            | none => rfl
            | some m' =>
                have hm' := mem_of_load hk
                obtain ⟨hmem, hstem⟩ := List.mem_filter.mp hm'
                have hroot : safeNamespaceName m'.id ≠ safeNamespaceName m.id := by
                  intro heq
                  have hid := safeNamespaceName_inj (h.id_ne_empty hmem)
                    (h.id_ne_empty (mem_of_load hl)) heq
                  rw [h.eq_of_id hmem (mem_of_load hl) hid] at hstem
                  simp at hstem
                have hsame : ((s.unlink (safeName n.text)).removeOverlay m.id).childOf m' =
                    (s.unlink (safeName n.text)).childOf m' := by
                  unfold ParentState.childOf ParentState.upperOf ParentState.removeOverlay
                  simp only [Function.update_of_ne hroot]
                simp only [hsame]
          unfold answerOf
          simp only
          rw [hothers, children_unlink hname hl]

/-- An access changes the mount of the child alone. -/
theorem access_does (h : Consistent cfg s) {n : ChildName} (hown : OwnFile s n.text) :
    answerOf (accessChild cfg s n.text) = NameMap.access cfg (children s) n.text := by
  unfold NameMap.access accessChild
  rw [children_of_ownFile hown]
  cases hl : s.load (safeName n.text) with
  | none => rfl
  | some m =>
      have hname : m.name = n.text := hown _ (mem_of_load hl) rfl
      have hlive : (s.childOf m).live = s.mounts m.id := rfl
      have hman : (s.childOf m).manifest = m := rfl
      simp only [Option.map_some, cfg.prepare_id, hlive, hman]
      cases hr : mountRo (s.mounts m.id) (mountpointPath cfg m.id) (cfg.prepare m) with
      | error e => rfl
      | ok record =>
          simp only
          rw [answerOf_status]
          set s' : ParentState := { s with mounts := Function.update s.mounts m.id (some record) }
            with hs'
          have hchildren : children s' = Function.update (children s) n.text
              (some { s.childOf m with live := some record }) := by
            funext k
            by_cases hk : k = n.text
            · rw [hk, Function.update_self]
              have hl' : s'.load (safeName n.text) = some m := hl
              unfold children
              rw [hl']
              simp only [hname, if_true]
              unfold ParentState.childOf
              rw [hs']
              simp only [Function.update_self]
              rfl
            · rw [Function.update_of_ne hk]
              unfold children
              have hsame : s'.load (safeName k) = s.load (safeName k) := rfl
              rw [hsame]
              cases hlk : s.load (safeName k) with
              | none => rfl
              | some m' =>
                  by_cases hnk : m'.name = k
                  · have hid : m'.id ≠ m.id := by
                      intro heq
                      have hfile := h.eq_of_id (mem_of_load hlk) (mem_of_load hl) heq
                      have hmm : m' = m := congrArg Prod.snd hfile
                      rw [hmm, hname] at hnk
                      exact hk hnk.symm
                    have hchild : s'.childOf m' = s.childOf m' := by
                      unfold ParentState.childOf
                      rw [hs']
                      simp only [Function.update_of_ne hid]
                      rfl
                    simp only [hchild]
                  · simp only [if_neg hnk]
          rw [hchildren]
          unfold Child.status ParentState.childOf
          simp only [cfg.prepare_id, hs', Function.update_self]
          rfl

theorem not_internal_of_valid {name : String} (h : validateName name = none) :
    isInternalName name = false := by
  unfold validateName at h
  split at h
  · cases h
  · split at h
    · cases h
    · split at h
      · cases h
      · rename_i hi
        exact Bool.eq_false_iff.mpr hi

/-- **A listing** names every file that is visible and has a valid name in it. -/
theorem listChildren_eq
    (h : ∀ x ∈ s.files, isHiddenFile x.1 = false ∧ validateName x.2.name = none) :
    listChildren s = sortedNames (s.files.map (·.2.name)) := by
  have hall : s.files.filterMap (fun x =>
      if ".".toList.isPrefixOf (x.1 ++ ".toml").toList then none
      else if isInternalName x.2.name then none
      else some x.2.name) = s.files.map (·.2.name) := by
    rw [← List.filterMap_eq_map]
    refine List.filterMap_congr fun x hx => ?_
    have hvisible : ".".toList.isPrefixOf (x.1 ++ ".toml").toList = false := (h x hx).1
    rw [hvisible, not_internal_of_valid (h x hx).2]
    rfl
  unfold listChildren
  rw [hall]

/-- Files named after their children have different names. -/
theorem names_nodup (hstems : s.files.Pairwise fun x y => x.1 ≠ y.1)
    (hnamed : ∀ x ∈ s.files, x.1 = safeName x.2.name) : (s.files.map (·.2.name)).Nodup := by
  rw [List.Nodup, List.pairwise_map]
  refine hstems.imp_of_mem fun hx hy hne heq => hne ?_
  rw [hnamed _ hx, hnamed _ hy, heq]

/-- A listing shows every child once, when no file name hides one. -/
theorem list_does (h : Consistent cfg s) (hu : ∀ x ∈ s.files, isHiddenFile x.1 = false) :
    NameMap.Lists (children s) (answerOf (s, .ok (.names (listChildren s)))) := by
  have hnames := names_nodup h.stems fun x hx => (h.named x hx).1
  have hlist := listChildren_eq fun x hx => ⟨hu x hx, (h.named x hx).2⟩
  refine ⟨rfl, listChildren s, rfl, ?_, fun n => ?_⟩
  · have hsorted : (listChildren s).Pairwise fun a b => decide (a ≤ b) = true := by
      rw [hlist]
      unfold sortedNames
      refine List.pairwise_mergeSort (fun a b c hab hbc => ?_) (fun a b => ?_) _
      · rw [decide_eq_true_eq] at hab hbc ⊢
        exact le_trans hab hbc
      · rw [Bool.or_eq_true, decide_eq_true_eq, decide_eq_true_eq]
        exact le_total a b
    have hnodup : (listChildren s).Nodup := by
      rw [hlist]
      exact (List.mergeSort_perm _ _).nodup_iff.mpr hnames
    refine hsorted.imp₂ (fun a b hle hne => ?_) hnodup
    exact lt_of_le_of_ne (of_decide_eq_true hle) hne
  · rw [hlist, children_isSome_iff h]
    unfold sortedNames
    rw [List.mem_mergeSort, List.mem_map]

/-! ## 4. Calls keep the registry consistent -/

/-- New overlays and mounts are those of children, and the children there were stay. -/
theorem Consistent.of_keep {t : ParentState} (h : Consistent cfg s) (hids : IdsInv cfg t)
    (hnamed : ∀ x ∈ t.files, x.1 = safeName x.2.name ∧ validateName x.2.name = none)
    (hkeep : ∀ x ∈ s.files, ∃ y ∈ t.files, y.2.id = x.2.id ∧ y.2.lowers = x.2.lowers)
    (huppers : ∀ k u, t.uppers k = some u → s.uppers k = none →
      ∃ y ∈ t.files, k = safeNamespaceName y.2.id)
    (hmounts : ∀ id r, t.mounts id = some r → s.mounts id = none →
      ∃ y ∈ t.files, y.2.id = id ∧ y.2.lowers ≠ []) : Consistent cfg t := by
  refine ⟨hids, hnamed, fun n u hu => ?_, fun n r hr => ?_⟩
  · cases hs : s.uppers (safeNamespaceName (childId cfg n)) with
    | none =>
        obtain ⟨y, hy, heq⟩ := huppers _ u hu hs
        exact ⟨y, hy, (safeNamespaceName_inj (childId_ne_empty n) (hids.id_ne_empty hy) heq).symm⟩
    | some u' =>
        obtain ⟨x, hx, hid⟩ := h.owned n u' hs
        obtain ⟨y, hy, hyid, -⟩ := hkeep x hx
        exact ⟨y, hy, hyid.trans hid⟩
  · cases hs : s.mounts (childId cfg n) with
    | none => exact hmounts _ r hr hs
    | some r' =>
        obtain ⟨x, hx, hid, hne⟩ := h.live n r' hs
        obtain ⟨y, hy, hyid, hyl⟩ := hkeep x hx
        exact ⟨y, hy, hyid.trans hid, by rw [hyl]; exact hne⟩

/-- The only overlay `ensure_active_upper` can add. -/
theorem uppers_ensureActiveUpper {id k : String} {u : Tree}
    (h : (s.ensureActiveUpper id).uppers k = some u) (hs : s.uppers k = none) :
    k = safeNamespaceName id := by
  by_contra hne
  unfold ParentState.ensureActiveUpper at h
  simp only [Function.update_of_ne hne, hs] at h
  cases h

theorem Consistent.create (h : Consistent cfg s) {n : ChildName}
    (hu : Unambiguous cfg s (.create n)) : Consistent cfg (createChild cfg s n.text).1 := by
  obtain ⟨hown, hfresh⟩ := hu
  rw [children_of_ownFile hown] at hfresh
  unfold createChild
  rw [n.valid]
  cases hl : s.load (safeName n.text) with
  | some m => exact h
  | none =>
      have hfresh := hfresh (by rw [hl]; exact Bool.false_ne_true)
      simp only [Option.isSome_none, Bool.false_eq_true, if_false, status]
      set new := newManifest cfg n.text with hnew
      set t := ((s.ensureActiveUpper new.id).dump (safeName n.text) new).ensureActiveUpper new.id
        with ht
      have hfiles : t.files = (safeName n.text, new) :: s.files := by
        have hfree : (s.ensureActiveUpper new.id).load (safeName n.text) = none := by
          rw [load_ensureActiveUpper]
          exact hl
        rw [ht]
        exact files_dump_new hfree new
      have hmem : (safeName n.text, new) ∈ t.files := by
        rw [hfiles]
        exact List.mem_cons_self
      have hchange : FilesChange cfg s t (.create n) := .created n hl hfiles
      refine h.of_keep (hchange.idsInv h.toIdsInv hfresh) ?_ ?_ ?_ ?_
      · intro x hx
        rw [hfiles] at hx
        rcases List.mem_cons.mp hx with rfl | hx
        · exact ⟨rfl, n.valid⟩
        · exact h.named x hx
      · intro x hx
        exact ⟨x, by rw [hfiles]; exact List.mem_cons_of_mem _ hx, rfl, rfl⟩
      · intro k u hu hs
        refine ⟨_, hmem, ?_⟩
        by_cases hk : (s.ensureActiveUpper new.id).uppers k = none
        · exact uppers_ensureActiveUpper hu hk
        · obtain ⟨u', hu'⟩ := Option.ne_none_iff_exists'.mp hk
          exact uppers_ensureActiveUpper hu' hs
      · intro id r hr hs
        have hsame : t.mounts id = s.mounts id := rfl
        rw [hsame, hs] at hr
        cases hr

theorem Consistent.rename (h : Consistent cfg s) (o n : ChildName) :
    Consistent cfg (renameChild cfg s o.text n.text).1 := by
  unfold renameChild
  rw [n.valid]
  cases hl : s.load (safeName o.text) with
  | none => exact h
  | some m =>
      simp only
      cases hln : s.load (safeName n.text) with
      | some m' => exact h
      | none =>
          simp only [Option.isSome_none, Bool.false_eq_true, if_false, status]
          set new := renamedManifest cfg m n.text with hnew
          set t := ((s.dump (safeName n.text) new).unlink (safeName o.text)).ensureActiveUpper
            new.id with ht
          have hne : safeName n.text ≠ safeName o.text := by
            intro heq
            rw [heq, hl] at hln
            cases hln
          have hfiles : t.files = (safeName n.text, new) ::
              s.files.filter fun x => x.1 ≠ safeName o.text := by
            have hdump := files_dump_new hln new
            rw [ht]
            unfold ParentState.ensureActiveUpper ParentState.unlink
            rw [hdump, List.filter_cons, if_pos (by simpa using hne)]
          have hmem : (safeName n.text, new) ∈ t.files := by
            rw [hfiles]
            exact List.mem_cons_self
          have hchange : FilesChange cfg s t (.rename o n) := .renamed o n m hl hln hfiles
          refine h.of_keep (hchange.idsInv h.toIdsInv trivial) ?_ ?_ ?_ ?_
          · intro x hx
            rw [hfiles] at hx
            rcases List.mem_cons.mp hx with rfl | hx
            · exact ⟨rfl, n.valid⟩
            · exact h.named x (List.mem_filter.mp hx).1
          · intro x hx
            by_cases hstem : x.1 = safeName o.text
            · have hsame : x = (safeName o.text, m) := h.eq_of_stem hx (mem_of_load hl) hstem
              exact ⟨_, hmem, by rw [hsame]; rfl, by rw [hsame]; rfl⟩
            · refine ⟨x, ?_, rfl, rfl⟩
              rw [hfiles]
              exact List.mem_cons_of_mem _ (List.mem_filter.mpr ⟨hx, by simpa using hstem⟩)
          · intro k u hu hs
            exact ⟨_, hmem, uppers_ensureActiveUpper hu hs⟩
          · intro id r hr hs
            have hsame : t.mounts id = s.mounts id := rfl
            rw [hsame, hs] at hr
            cases hr

theorem Consistent.remove (h : Consistent cfg s) (n : ChildName) :
    Consistent cfg (removeChild cfg s n.text).1 := by
  unfold removeChild
  cases hl : s.load (safeName n.text) with
  | none => exact h
  | some m =>
      simp only
      split
      · exact h
      · rename_i hclean
        split
        · exact h
        · set t := (s.unlink (safeName n.text)).removeOverlay m.id with ht
          have hfiles : t.files = s.files.filter fun x => x.1 ≠ safeName n.text := rfl
          have hchange : FilesChange cfg s t (.remove n) := .removed n m hl hfiles rfl
          have hstays : ∀ x ∈ s.files, x.2.id ≠ m.id → x ∈ t.files := by
            intro x hx hid
            rw [hfiles, List.mem_filter]
            refine ⟨hx, ?_⟩
            rw [decide_eq_true_eq]
            intro hstem
            have hsame : x = (safeName n.text, m) := h.eq_of_stem hx (mem_of_load hl) hstem
            exact hid (by rw [hsame])
          refine ⟨hchange.idsInv h.toIdsInv trivial, fun x hx => ?_, fun k u hu => ?_,
            fun k r hr => ?_⟩
          · rw [hfiles] at hx
            exact h.named x (List.mem_filter.mp hx).1
          · have hroot : safeNamespaceName (childId cfg k) ≠ safeNamespaceName m.id := by
              intro heq
              rw [ht, heq] at hu
              unfold ParentState.removeOverlay at hu
              simp only [Function.update_self] at hu
              cases hu
            have hu' : s.uppers (safeNamespaceName (childId cfg k)) = some u := by
              rw [← hu, ht]
              unfold ParentState.removeOverlay
              simp only [Function.update_of_ne hroot]
              rfl
            obtain ⟨x, hx, hid⟩ := h.owned k u hu'
            exact ⟨x, hstays x hx fun heq => hroot (by rw [← heq, hid]), hid⟩
          · obtain ⟨x, hx, hid, hne⟩ := h.live k r hr
            refine ⟨x, hstays x hx fun heq => ?_, hid, hne⟩
            -- a child that is removed has no packs
            have hsame := h.eq_of_id hx (mem_of_load hl) heq
            rw [hsame] at hne
            exact hclean (.inr hne)

theorem Consistent.access (h : Consistent cfg s) (n : ChildName) :
    Consistent cfg (accessChild cfg s n.text).1 := by
  unfold accessChild
  cases hl : s.load (safeName n.text) with
  | none => exact h
  | some m =>
      simp only [cfg.prepare_id]
      cases hr : mountRo (s.mounts m.id) (mountpointPath cfg m.id) (cfg.prepare m) with
      | error e => exact h
      | ok record =>
          simp only [status, cfg.prepare_id]
          have hm := mem_of_load hl
          refine h.of_keep (h.toIdsInv.of_files rfl) h.named (fun x hx => ⟨x, hx, rfl, rfl⟩) ?_ ?_
          · intro k u hu hs
            exact ⟨_, hm, uppers_ensureActiveUpper hu hs⟩
          · intro id r hid hs
            have hmine : id = m.id := by
              by_contra hne
              unfold ParentState.ensureActiveUpper at hid
              simp only [Function.update_of_ne hne, hs] at hid
              cases hid
            refine ⟨_, hm, hmine.symm, fun hnil => ?_⟩
            -- without a live mount there must be a pack to mount
            rw [← hmine, hs] at hr
            unfold mountRo at hr
            simp only [(cfg.prepare_nil m).mpr hnil, if_true] at hr
            cases hr

/-- **An unambiguous call keeps the registry consistent.** -/
theorem Consistent.step (h : Consistent cfg s) {op : ParentOp} (hu : Unambiguous cfg s op) :
    Consistent cfg (parentStep cfg s op).1 := by
  cases op with
  | create n => exact h.create hu
  | rename o n => exact h.rename o n
  | remove n => exact h.remove n
  | access n => exact h.access n
  | list => exact h

/-- **An unambiguous call acts as the map does.** -/
theorem parentStep_does (h : Consistent cfg s) {op : ParentOp} (hu : Unambiguous cfg s op) :
    (children s).Does cfg op (answerOf (parentStep cfg s op)) := by
  cases op with
  | create n => exact create_does h hu
  | rename o n => exact rename_does hu
  | remove n => exact remove_does h hu
  | access n => exact access_does h hu
  | list => exact list_does h hu

end Calls

/-! ## 5. Runs -/

/-- A run of calls, refused ones among them. -/
abbrev CallRuns (cfg : ParentConfig) :
    ParentState → List (Lib.Trans ParentState ParentOp) → ParentState → Prop :=
  Lib.Run fun s op t => some (parentStep cfg s op).1 = some t

/-- **The managed parent is a faithful name map**: in every run of calls on a consistent registry,
    an empty one in particular, whose calls are all unambiguous, each call changes the children and
    answers as the map from exact names does. -/
theorem managedParent_refines (cfg : ParentConfig) {start t : ParentState}
    {tr : List (Lib.Trans ParentState ParentOp)} (h : CallRuns cfg start tr t)
    (hstart : Consistent cfg start) (hu : ∀ x ∈ tr, Unambiguous cfg x.pre x.ev) :
    ∀ x ∈ tr, x.post = (parentStep cfg x.pre x.ev).1 ∧
      (children x.pre).Does cfg x.ev (children x.post, (parentStep cfg x.pre x.ev).2) := by
  have hinv := h.invariant (I := Consistent cfg) (G := Unambiguous cfg) hstart
    (fun a e b ha hg hstep => by
      cases hstep
      exact ha.step hg) hu
  intro x hx
  have hpost : x.post = (parentStep cfg x.pre x.ev).1 :=
    (Option.some.inj (h.isStep x hx)).symm
  refine ⟨hpost, ?_⟩
  rw [hpost]
  exact parentStep_does (hinv.2 x hx).1 (hu x hx)

/-- An empty registry is consistent. -/
theorem consistent_empty (cfg : ParentConfig) : Consistent cfg {} := by
  refine ⟨⟨.nil, .nil, ?_⟩, ?_, nofun, nofun⟩
  · exact fun x hx => absurd hx List.not_mem_nil
  · exact fun x hx => absurd hx List.not_mem_nil

/-! ### Concrete runs -/

instance (s : ParentState) (name : String) : Decidable (OwnFile s name) :=
  inferInstanceAs (Decidable (∀ x ∈ s.files, x.1 = safeName name → x.2.name = name))

instance (cfg : ParentConfig) (s : ParentState) : (op : ParentOp) →
    Decidable (Unambiguous cfg s op)
  | .create name =>
    inferInstanceAs (Decidable (OwnFile s name.text ∧
      (¬ (children s name.text).isSome → FreshId cfg s (.create name))))
  | .rename oldName newName =>
    inferInstanceAs (Decidable (OwnFile s oldName.text ∧
      ((children s oldName.text).isSome → OwnFile s newName.text)))
  | .remove name => inferInstanceAs (Decidable (OwnFile s name.text))
  | .access name => inferInstanceAs (Decidable (OwnFile s name.text))
  | .list => inferInstanceAs (Decidable (∀ x ∈ s.files, isHiddenFile x.1 = false))

/-- The transitions of calls on an empty registry. -/
def datasetCalls (ops : List ParentOp) : List (Lib.Trans ParentState ParentOp) :=
  Lib.trace (fun s op => some (parentStep datasetParent s op).1) {} ops

theorem datasetCalls_runs (ops : List ParentOp) :
    ∃ t, CallRuns datasetParent {} (datasetCalls ops) t :=
  Lib.Run.trace _ _ _

/-- Calls whose names have their own files; two of them are refused. -/
def plainCalls : List ParentOp :=
  [.create nameA, .create nameA, .rename nameA nameB, .access nameB, .remove nameA, .list,
    .remove nameB]

theorem plainCalls_refines :
    (datasetCalls plainCalls).length = 7 ∧
      ∀ x ∈ datasetCalls plainCalls, x.post = (parentStep datasetParent x.pre x.ev).1 ∧
        (children x.pre).Does datasetParent x.ev
          (children x.post, (parentStep datasetParent x.pre x.ev).2) := by
  obtain ⟨t, h⟩ := datasetCalls_runs plainCalls
  exact ⟨by decide +kernel,
    managedParent_refines datasetParent h (consistent_empty datasetParent) (by decide +kernel)⟩

/-- Two names of one file. -/
def nameSpaced : ChildName := ⟨"a b", by decide⟩

def nameUnderscored : ChildName := ⟨"a_b", by decide⟩

/-- No child is named `a b`, and yet a removal of `a b` succeeds: the child `a_b` is gone. -/
theorem sameFile_diverges :
    ∃ x ∈ datasetCalls [.create nameUnderscored, .remove nameSpaced],
      x.ev = .remove nameSpaced ∧ (children x.pre "a b").isSome = false ∧
        (children x.pre "a_b").isSome = true ∧ (children x.post "a_b").isSome = false ∧
        (parentStep datasetParent x.pre x.ev).2 = .ok (.removed "dataset:a_b" "a b") ∧
        ¬ (children x.pre).Does datasetParent x.ev
          (children x.post, (parentStep datasetParent x.pre x.ev).2) := by
  have hrun : ∃ x ∈ datasetCalls [.create nameUnderscored, .remove nameSpaced],
      x.ev = .remove nameSpaced ∧ (children x.pre "a b").isSome = false ∧
        (children x.pre "a_b").isSome = true ∧ (children x.post "a_b").isSome = false ∧
        (parentStep datasetParent x.pre x.ev).2 = .ok (.removed "dataset:a_b" "a b") := by
    decide +kernel
  obtain ⟨x, hx, hev, hspaced, hunder, hgone, hanswer⟩ := hrun
  refine ⟨x, hx, hev, hspaced, hunder, hgone, hanswer, fun hdoes => ?_⟩
  have hnone : children x.pre nameSpaced.text = none :=
    Option.isNone_iff_eq_none.mp (Option.isSome_eq_false_iff.mp hspaced)
  rw [hev] at hdoes
  have hsnd := congrArg Prod.snd hdoes
  rw [hev] at hanswer
  unfold NameMap.remove at hsnd
  simp only [hnone, hanswer] at hsnd
  cases hsnd

end CccStorage
