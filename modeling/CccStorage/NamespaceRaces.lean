/-
  File:      CccStorage/NamespaceRaces.lean
  Subject:   `create_child`, `rename_child` and `remove_child` of one managed parent, called from
             any number of nodes at once, one file operation at a time
             (`mountd/managed_parent.py`).

  Only a create holds a lock; a rename checks both names, reads the one file, writes the other and
  removes the one, and a removal checks, reads and removes.

  * `SharedParent`, `NamespacePhase`, `namespaceStep` -- the parent, where a call is, and its steps;
  * `AsChecked` -- what a call writes is still as it was checked, and its child is nobody else's;
  * `namespaceRaces_safe` -- in a run of such steps every child is listed once under its name, no
    manifest is overwritten and no listed child loses its overlay;
  * `renamedOver` -- two renames to one name.
-/
import CccStorage.Lib.Interleave
import CccStorage.ManagedMap

namespace CccStorage

/-! ## 1. The calls -/

inductive NamespaceCall where
  | create (name : ChildName)
  | rename (oldName newName : ChildName)
  | remove (name : ChildName)
  deriving DecidableEq

def NamespaceCall.names : NamespaceCall → List String
  | .create n => [n.text]
  | .rename o n => [o.text, n.text]
  | .remove n => [n.text]

inductive CallError where
  | parent (e : ParentError)
  /-- A manifest that was there is gone when it is read or removed. -/
  | fileNotFound (stem : String)
  deriving DecidableEq, Repr

structure SharedParent where
  parent : ParentState
  /-- The create locks that exist, by the file name of the child. -/
  createLocks : String → Bool := fun _ => false
  /-- The children that were created and not removed: id, and the name of the last rename. -/
  ledger : List (String × String)
  /-- What renames have published whose old file is still there: id and new name. -/
  published : List (String × String) := []
  returned : List (NamespaceCall × Except CallError ParentResult) := []

/-- The next thing a call does. -/
inductive NamespacePhase where
  | idle
  | createLock (n : ChildName)
  | createExists (n : ChildName)
  | createUpper (n : ChildName)
  | createDump (n : ChildName)
  /-- With the manifest it has written, if it has. -/
  | createRelease (n : ChildName) (written : Option ChildManifest)
  | renameExists (o n : ChildName)
  | renameFree (o n : ChildName)
  | renameLoad (o n : ChildName)
  | renameDump (o n : ChildName) (m : ChildManifest)
  | renameUnlink (o n : ChildName) (m : ChildManifest)
  | removeExists (n : ChildName)
  | removeLoad (n : ChildName)
  | removeStats (n : ChildName) (m : ChildManifest)
  | removeUnlink (n : ChildName) (m : ChildManifest)
  | removeTree (n : ChildName) (m : ChildManifest)
  | status (c : NamespaceCall) (m : ChildManifest)

inductive NamespaceAct where
  | call (c : NamespaceCall)
  | step

/-- The names an event brings in. -/
def NamespaceAct.names : NamespaceAct → List String
  | .call c => c.names
  | .step => []

/-- Where a call starts. -/
def NamespaceCall.start : NamespaceCall → NamespacePhase
  | .create n => .createLock n
  | .rename o n => .renameExists o n
  | .remove n => .removeExists n

namespace SharedParent

/-- A call returns or raises. -/
def returns (s : SharedParent) (c : NamespaceCall) (r : Except CallError ParentResult) :
    SharedParent × NamespacePhase :=
  ({ s with returned := s.returned ++ [(c, r)] }, .idle)

def raises (s : SharedParent) (c : NamespaceCall) (e : ParentError) :
    SharedParent × NamespacePhase :=
  s.returns c (.error (.parent e))

/-- The children after a rename of this one. -/
def renamedTo (ledger : List (String × String)) (id oldName newName : String) :
    List (String × String) :=
  ledger.map fun c => if c = (id, oldName) then (id, newName) else c

end SharedParent

/-- **The next file operation of a call.** -/
def namespaceStep (cfg : ParentConfig) (s : SharedParent) :
    NamespacePhase → NamespaceAct → Option (SharedParent × NamespacePhase)
  | .idle, .call c => some (s, c.start)
  | .createLock n, .step =>
    if s.createLocks (safeName n.text) then
      some (s.raises (.create n) (.childExists n.text cfg.parentPath))
    else
      some ({ s with createLocks := Function.update s.createLocks (safeName n.text) true },
        .createExists n)
  | .createExists n, .step =>
    if (s.parent.load (safeName n.text)).isSome then some (s, .createRelease n none)
    else some (s, .createUpper n)
  | .createUpper n, .step =>
    some ({ s with parent := s.parent.ensureActiveUpper (childId cfg n.text) }, .createDump n)
  | .createDump n, .step =>
    some ({ s with
      parent := s.parent.dump (safeName n.text) (newManifest cfg n.text)
      ledger := (childId cfg n.text, n.text) :: s.ledger },
      .createRelease n (some (newManifest cfg n.text)))
  | .createRelease n written, .step =>
    let s := { s with createLocks := Function.update s.createLocks (safeName n.text) false }
    match written with
    | none => some (s.raises (.create n) (.childExists n.text cfg.parentPath))
    | some m => some (s, .status (.create n) m)
  | .renameExists o n, .step =>
    if (s.parent.load (safeName o.text)).isSome then some (s, .renameFree o n)
    else some (s.raises (.rename o n) (.childNotFound o.text cfg.parentPath))
  | .renameFree o n, .step =>
    if (s.parent.load (safeName n.text)).isSome then
      some (s.raises (.rename o n) (.childExists n.text cfg.parentPath))
    else some (s, .renameLoad o n)
  | .renameLoad o n, .step =>
    match s.parent.load (safeName o.text) with
    | some m => some (s, .renameDump o n m)
    | none => some (s.returns (.rename o n) (.error (.fileNotFound (safeName o.text))))
  | .renameDump o n m, .step =>
    some ({ s with
      parent := s.parent.dump (safeName n.text) (renamedManifest cfg m n.text)
      published := (m.id, n.text) :: s.published }, .renameUnlink o n m)
  | .renameUnlink o n m, .step =>
    let published := s.published.filter fun c => c ≠ (m.id, n.text)
    match s.parent.load (safeName o.text) with
    | some _ =>
      some ({ s with
        parent := s.parent.unlink (safeName o.text)
        ledger := SharedParent.renamedTo s.ledger m.id o.text n.text
        published := published }, .status (.rename o n) (renamedManifest cfg m n.text))
    | none =>
      some ({ s with published := published }.returns (.rename o n)
        (.error (.fileNotFound (safeName o.text))))
  | .removeExists n, .step =>
    if (s.parent.load (safeName n.text)).isSome then some (s, .removeLoad n)
    else some (s.raises (.remove n) (.childNotFound n.text cfg.parentPath))
  | .removeLoad n, .step =>
    match s.parent.load (safeName n.text) with
    | some m =>
      if m.generation > 0 ∨ m.lowers ≠ [] then
        some (s.raises (.remove n) (.committed n.text m.generation))
      else some (s, .removeStats n m)
    | none => some (s.returns (.remove n) (.error (.fileNotFound (safeName n.text))))
  | .removeStats n m, .step =>
    let stats := dirtyStats (s.parent.upperOf m.id)
    if stats.dirty then some (s.raises (.remove n) (.notEmpty n.text stats.fileCount))
    else some (s, .removeUnlink n m)
  | .removeUnlink n m, .step =>
    match s.parent.load (safeName n.text) with
    | some _ =>
      some ({ s with
        parent := s.parent.unlink (safeName n.text)
        ledger := s.ledger.filter fun c => c ≠ (m.id, n.text) }, .removeTree n m)
    | none => some (s.returns (.remove n) (.error (.fileNotFound (safeName n.text))))
  | .removeTree n m, .step =>
    some ({ s with parent := s.parent.removeOverlay m.id }.returns (.remove n)
      (.ok (.removed m.id n.text)))
  | .status c m, .step =>
    some ({ s with parent := s.parent.ensureActiveUpper m.id }.returns c
      (.ok (.status (childStatus cfg m (s.parent.upperOf m.id) (s.parent.mounts m.id)))))
  | _, _ => none

/-! ## 2. What is checked when it is written -/

namespace NamespacePhase

/-- The names a call works on. -/
def names : NamespacePhase → List String
  | .idle => []
  | .createLock n | .createExists n | .createUpper n | .createDump n | .createRelease n _ =>
    [n.text]
  | .renameExists o n | .renameFree o n | .renameLoad o n | .renameDump o n _
  | .renameUnlink o n _ => [o.text, n.text]
  | .removeExists n | .removeLoad n | .removeStats n _ | .removeUnlink n _ | .removeTree n _ =>
    [n.text]
  | .status _ _ => []

/-- The create lock a call holds. -/
def lock : NamespacePhase → Option String
  | .createExists n | .createUpper n | .createDump n | .createRelease n _ =>
    some (safeName n.text)
  | _ => none

/-- The file a create has found free. -/
def creating : NamespacePhase → Option String
  | .createUpper n | .createDump n => some (safeName n.text)
  | _ => none

/-- The rename of a call that has written the new file and not removed the old one. -/
def midway : NamespacePhase → Option (ChildName × ChildName × ChildManifest)
  | .renameUnlink o n m => some (o, n, m)
  | _ => none

/-- The child whose manifest a removal has taken and whose overlay is still there. -/
def removing : NamespacePhase → Option String
  | .removeTree _ m => some m.id
  | _ => none

end NamespacePhase

abbrev NamespaceThreads (k : Nat) := Lib.Threads k SharedParent NamespacePhase

abbrev NamespaceRun {k : Nat} (cfg : ParentConfig) :
    NamespaceThreads k → List (Lib.Trans (NamespaceThreads k) (Fin k × NamespaceAct)) →
      NamespaceThreads k → Prop :=
  Lib.Interleaving (namespaceStep cfg)

/-- **The condition**, on the writes of manifests: a create has an id that no child has and no
    removal is about to clear; a rename finds the new name still free, also of creates that have
    found it so, and the old one as it has read it; a removal takes the manifest it has read; and no
    other rename of the child is under way. The files written are not named like temporary ones. -/
def NamespacePhase.AsChecked {k : Nat} (cfg : ParentConfig) (s : NamespaceThreads k) :
    NamespacePhase → Prop
  | .createDump n => isHiddenFile (safeName n.text) = false ∧
      (∀ x ∈ s.shared.parent.files, x.2.id ≠ childId cfg n.text) ∧
      ∀ j, (s.pc j).removing ≠ some (childId cfg n.text)
  | .renameDump o n m => isHiddenFile (safeName n.text) = false ∧
      s.shared.parent.load (safeName n.text) = none ∧
      (∀ j, (s.pc j).creating ≠ some (safeName n.text)) ∧
      s.shared.parent.load (safeName o.text) = some m ∧
      ∀ c ∈ s.shared.published, c.1 ≠ m.id
  | .removeUnlink n m =>
      (∀ m' ∈ s.shared.parent.load (safeName n.text), m' = m) ∧
      ∀ c ∈ s.shared.published, c.1 ≠ m.id
  | _ => True

instance {k : Nat} (cfg : ParentConfig) (s : NamespaceThreads k) : (p : NamespacePhase) →
    Decidable (p.AsChecked cfg s)
  | .createDump _ => inferInstanceAs (Decidable (_ ∧ _ ∧ _))
  | .renameDump _ _ _ => inferInstanceAs (Decidable (_ ∧ _ ∧ _ ∧ _ ∧ _))
  | .removeUnlink _ _ => inferInstanceAs (Decidable (_ ∧ _))
  | .idle | .createLock _ | .createExists _ | .createUpper _ | .createRelease _ _
  | .renameExists _ _ | .renameFree _ _ | .renameLoad _ _ | .renameUnlink _ _ _
  | .removeExists _ | .removeLoad _ | .removeStats _ _ | .removeTree _ _ | .status _ _ =>
    isTrue trivial

/-- Every step's writes are as checked. -/
def AsChecked {k : Nat} (cfg : ParentConfig) (s : NamespaceThreads k)
    (e : Fin k × NamespaceAct) : Prop := (s.pc e.1).AsChecked cfg s

instance {k : Nat} (cfg : ParentConfig) (s : NamespaceThreads k) (e : Fin k × NamespaceAct) :
    Decidable (AsChecked cfg s e) :=
  inferInstanceAs (Decidable ((s.pc e.1).AsChecked cfg s))

/-- **Every child is listed once under its name**, no name is claimed twice, and no manifest is
    there under another name, but that of a rename under way. -/
structure NamespaceSafe (s : SharedParent) : Prop where
  listed : ∀ c ∈ s.ledger, (listChildren s.parent).count c.2 = 1
  once : ∀ c ∈ s.ledger, (∀ p ∈ s.published, p.1 ≠ c.1) →
    (s.parent.files.filter fun x => x.2.id = c.1).map (·.2.name) = [c.2]
  claims : (s.ledger.map (·.2)).Nodup

/-- **No manifest is overwritten**, and no listed child loses its overlay. -/
structure NamespaceKept (s t : SharedParent) : Prop where
  manifests : ∀ stem m m', s.parent.load stem = some m → t.parent.load stem = some m' → m' = m
  overlays : ∀ x ∈ t.parent.files, ∀ u, s.parent.uppers (safeNamespaceName x.2.id) = some u →
    t.parent.uppers (safeNamespaceName x.2.id) = some u

/-! ## 3. The proof outline -/

/-- What holds of the parent between any two file operations. -/
structure SharedInv (names : Set String) (s : SharedParent) : Prop where
  stems : s.parent.files.Pairwise fun x y => x.1 ≠ y.1
  named : ∀ x ∈ s.parent.files, x.1 = safeName x.2.name ∧ x.2.name ∈ names
  visible : ∀ x ∈ s.parent.files, isHiddenFile x.1 = false ∧ validateName x.2.name = none
  nonempty : ∀ x ∈ s.parent.files, x.2.id ≠ ""
  ids : (s.ledger.map (·.1)).Nodup
  /-- A child's manifest is there under its name. -/
  filed : ∀ c ∈ s.ledger, ∃ m, s.parent.load (safeName c.2) = some m ∧ m.id = c.1 ∧ m.name = c.2
  /-- A manifest is that of a child, or of a rename under way. -/
  owned : ∀ x ∈ s.parent.files,
    (x.2.id, x.2.name) ∈ s.ledger ∨ (x.2.id, x.2.name) ∈ s.published

/-- A rename between its two writes. -/
structure Midway (cfg : ParentConfig) (s : SharedParent) (o n : ChildName) (m : ChildManifest) :
    Prop where
  old : s.parent.load (safeName o.text) = some m
  new : s.parent.load (safeName n.text) = some (renamedManifest cfg m n.text)
  ne : safeName o.text ≠ safeName n.text
  child : (m.id, o.text) ∈ s.ledger
  published : (m.id, n.text) ∈ s.published

/-- What a call may rely on. -/
structure PhaseHolds (cfg : ParentConfig) (names : Set String) (s : SharedParent)
    (p : NamespacePhase) : Prop where
  names : ∀ a ∈ p.names, a ∈ names
  lock : ∀ st, p.lock = some st → s.createLocks st = true
  creating : ∀ st, p.creating = some st → s.parent.load st = none
  midway : ∀ o n m, p.midway = some (o, n, m) → Midway cfg s o n m
  removing : ∀ id, p.removing = some id → id ≠ "" ∧ ∀ x ∈ s.parent.files, x.2.id ≠ id

/-- Two calls hold different create locks, and are midway in renames of different children. -/
structure CallsApart (p q : NamespacePhase) : Prop where
  lock : ∀ st, p.lock = some st → q.lock ≠ some st
  midway : ∀ o n m o' n' m', p.midway = some (o, n, m) → q.midway = some (o', n', m') → m.id ≠ m'.id

/-- A call that is not between reading and writing a manifest is apart from any such call. -/
theorem midway_apart {p q : NamespacePhase} (hp : p.midway = none) (o n : ChildName)
    (m : ChildManifest) (o' n' : ChildName) (m' : ChildManifest) (h : p.midway = some (o, n, m))
    (_ : q.midway = some (o', n', m')) : m.id ≠ m'.id := by
  rw [hp] at h
  cases h

def namespaceOutline (cfg : ParentConfig) (names : Set String) :
    Lib.Outline SharedParent NamespacePhase where
  inv := SharedInv names
  point := PhaseHolds cfg names
  apart := CallsApart
  symm := fun _ _ h => ⟨fun st hq hp => h.lock st hp hq,
    fun o n m o' n' m' hq hp heq => h.midway o' n' m' o n m hp hq heq.symm⟩

section Outline

variable {cfg : ParentConfig} {names : Set String} {s t : SharedParent} {p q : NamespacePhase}

theorem SharedInv.names_nodup (h : SharedInv names s) :
    (s.parent.files.map (·.2.name)).Nodup :=
  CccStorage.names_nodup h.stems fun x hx => (h.named x hx).1

/-- A list without duplicates whose members are all one has one member. -/
theorem eq_singleton_of_nodup {α : Type*} {l : List α} {a : α} (hl : l.Nodup) (ha : a ∈ l)
    (hall : ∀ b ∈ l, b = a) : l = [a] := by
  cases l with
  | nil => cases ha
  | cons b l =>
      have hb : b = a := hall b List.mem_cons_self
      have hnil : l = [] := by
        rw [List.eq_nil_iff_forall_not_mem]
        intro c hc
        have hca : c = a := hall c (List.mem_cons_of_mem b hc)
        rw [hca, ← hb] at hc
        exact (List.nodup_cons.mp hl).1 hc
      rw [hb, hnil]

/-- **What holds between file operations is safe.** -/
theorem SharedInv.safe (h : SharedInv names s) : NamespaceSafe s := by
  have hmember : ∀ c ∈ s.ledger, ∃ x ∈ s.parent.files, x.2.id = c.1 ∧ x.2.name = c.2 := by
    intro c hc
    obtain ⟨m, hload, hid, hname⟩ := h.filed c hc
    exact ⟨_, mem_of_load hload, hid, hname⟩
  refine ⟨fun c hc => ?_, fun c hc hsettled => ?_, ?_⟩
  · obtain ⟨x, hx, -, hname⟩ := hmember c hc
    rw [listChildren_eq h.visible]
    unfold sortedNames
    rw [(List.mergeSort_perm _ _).count_eq]
    refine List.count_eq_one_of_mem h.names_nodup ?_
    rw [← hname]
    exact List.mem_map_of_mem hx
  · obtain ⟨x, hx, hid, hname⟩ := hmember c hc
    refine eq_singleton_of_nodup (h.names_nodup.sublist (List.filter_sublist.map _)) ?_ ?_
    · rw [← hname]
      exact List.mem_map_of_mem (List.mem_filter.mpr ⟨hx, decide_eq_true hid⟩)
    · intro b hb
      obtain ⟨y, hy, rfl⟩ := List.mem_map.mp hb
      obtain ⟨hy, hyid⟩ := List.mem_filter.mp hy
      have hyid : y.2.id = c.1 := of_decide_eq_true hyid
      rcases h.owned y hy with hown | hpub
      · have hsame := List.inj_on_of_nodup_map h.ids hown hc hyid
        rw [← hsame]
      · exact absurd hyid (hsettled _ hpub)
  · have hnodup : s.ledger.Nodup := h.ids.of_map
    refine (List.nodup_map_iff_inj_on hnodup).mpr fun c hc d hd hname => ?_
    obtain ⟨m, hload, hid, -⟩ := h.filed c hc
    obtain ⟨m', hload', hid', -⟩ := h.filed d hd
    rw [hname, hload'] at hload
    cases hload
    exact Prod.ext (hid.symm.trans hid') hname

/-- Only the files, the ledger and what renames have published matter. -/
theorem SharedInv.congr (h : SharedInv names s) (hf : t.parent.files = s.parent.files)
    (hl : t.ledger = s.ledger) (hp : t.published = s.published) : SharedInv names t := by
  have hload : ∀ stem, t.parent.load stem = s.parent.load stem := by
    intro stem
    unfold ParentState.load
    rw [hf]
  constructor
  · rw [hf]
    exact h.stems
  · rw [hf]
    exact h.named
  · rw [hf]
    exact h.visible
  · rw [hf]
    exact h.nonempty
  · rw [hl]
    exact h.ids
  · rw [hl]
    intro c hc
    rw [hload]
    exact h.filed c hc
  · rw [hf, hl, hp]
    exact h.owned

/-- What a call relies on, after a step of another. -/
theorem PhaseHolds.of (h : PhaseHolds cfg names s q)
    (hlock : ∀ st, q.lock = some st → s.createLocks st = true → t.createLocks st = true)
    (hcreating : ∀ st, q.creating = some st → s.parent.load st = none →
      t.parent.load st = none)
    (hmidway : ∀ o n m, q.midway = some (o, n, m) → Midway cfg s o n m → Midway cfg t o n m)
    (hremoving : ∀ id, q.removing = some id → (∀ x ∈ s.parent.files, x.2.id ≠ id) →
      ∀ x ∈ t.parent.files, x.2.id ≠ id) : PhaseHolds cfg names t q where
  names := h.names
  lock := fun st hst => hlock st hst (h.lock st hst)
  creating := fun st hst => hcreating st hst (h.creating st hst)
  midway := fun o n m hm => hmidway o n m hm (h.midway o n m hm)
  removing := fun id hid => ⟨(h.removing id hid).1, hremoving id hid (h.removing id hid).2⟩

/-- A step that touches no file, lock or ledger entry disturbs nobody. -/
theorem PhaseHolds.congr (h : PhaseHolds cfg names s q) (hf : t.parent.files = s.parent.files)
    (hl : t.ledger = s.ledger) (hp : t.published = s.published)
    (hlock : ∀ st, q.lock = some st → s.createLocks st = true → t.createLocks st = true) :
    PhaseHolds cfg names t q := by
  have hload : ∀ stem, t.parent.load stem = s.parent.load stem := by
    intro stem
    unfold ParentState.load
    rw [hf]
  refine h.of hlock (fun st _ hnone => ?_) (fun o n m _ hm => ?_) fun id _ hall => ?_
  · rw [hload]
    exact hnone
  · refine ⟨?_, ?_, hm.ne, ?_, ?_⟩
    · rw [hload]
      exact hm.old
    · rw [hload]
      exact hm.new
    · rw [hl]
      exact hm.child
    · rw [hp]
      exact hm.published
  · rw [hf]
    exact hall

/-- A phase that holds no lock and is between no two writes. -/
structure NamespacePhase.Plain (p : NamespacePhase) : Prop where
  lock : p.lock = none
  creating : p.creating = none
  midway : p.midway = none
  removing : p.removing = none

/-- A create that has found its file free holds the lock. -/
theorem lock_of_creating {st : String} (h : p.creating = some st) : p.lock = some st := by
  cases p <;> first | exact h | cases h

theorem NamespacePhase.Plain.holds (h : p.Plain) (hnames : ∀ a ∈ p.names, a ∈ names) :
    PhaseHolds cfg names s p := by
  refine ⟨hnames, fun st hst => ?_, fun st hst => ?_, fun o n m hm => ?_, fun id hid => ?_⟩
  · rw [h.lock] at hst
    cases hst
  · rw [h.creating] at hst
    cases hst
  · rw [h.midway] at hm
    cases hm
  · rw [h.removing] at hid
    cases hid

theorem NamespacePhase.Plain.apart (h : p.Plain) : CallsApart p q := by
  refine ⟨fun st hst => ?_, fun o n m o' n' m' hm => ?_⟩
  · rw [h.lock] at hst
    cases hst
  · rw [h.midway] at hm
    cases hm

end Outline

/-! ## 4. Every step keeps the outline -/

section Steps

variable {cfg : ParentConfig} {names : Set String} {k : Nat} {s : NamespaceThreads k} {i : Fin k}
  {t : SharedParent} {p : NamespacePhase}

theorem load_congr {a b : ParentState} (h : a.files = b.files) (stem : String) :
    a.load stem = b.load stem := by
  unfold ParentState.load
  rw [h]

/-- A step of a call that leaves files and ledger as they are, and holds no new lock. -/
theorem keeps_within (h : (namespaceOutline cfg names).Holds s)
    (hf : t.parent.files = s.shared.parent.files) (hl : t.ledger = s.shared.ledger)
    (hp : t.published = s.shared.published) (hk : t.createLocks = s.shared.createLocks)
    (hnames : ∀ a ∈ p.names, a ∈ names) (hlock : ∀ st, p.lock = some st → (s.pc i).lock = some st)
    (hcreating : ∀ st, p.creating = some st → s.shared.parent.load st = none)
    (hmidway : p.midway = none) (hremoving : p.removing = none) :
    (namespaceOutline cfg names).Keeps s i t p := by
  refine ⟨h.inv.congr hf hl hp, ⟨hnames, fun st hst => ?_, fun st hst => ?_, ?_, ?_⟩,
    fun j _ => (h.point j).congr hf hl hp fun st _ hheld => ?_, fun j hj => ⟨fun st hst => ?_, ?_⟩⟩
  · rw [hk]
    exact (h.point i).lock st (hlock st hst)
  · rw [load_congr hf]
    exact hcreating st hst
  · rw [hmidway]
    exact nofun
  · rw [hremoving]
    exact nofun
  · rw [hk]
    exact hheld
  · exact (h.apart i j hj.symm).lock st (hlock st hst)
  · exact midway_apart hmidway

/-- A call that goes on without a lock, where files and ledger stay as they are. -/
theorem keeps_plain (h : (namespaceOutline cfg names).Holds s)
    (hf : t.parent.files = s.shared.parent.files) (hl : t.ledger = s.shared.ledger)
    (hp : t.published = s.shared.published) (hk : t.createLocks = s.shared.createLocks)
    (hnames : ∀ a ∈ p.names, a ∈ names) (hplain : p.Plain) :
    (namespaceOutline cfg names).Keeps s i t p := by
  refine keeps_within h hf hl hp hk hnames (fun st hst => ?_) (fun st hst => ?_) hplain.midway
    hplain.removing
  · rw [hplain.lock] at hst
    cases hst
  · rw [hplain.creating] at hst
    cases hst

/-- A call returns or raises, with files and ledger as they are. -/
theorem keeps_returns (h : (namespaceOutline cfg names).Holds s)
    (hf : t.parent.files = s.shared.parent.files) (hl : t.ledger = s.shared.ledger)
    (hp : t.published = s.shared.published) (hk : t.createLocks = s.shared.createLocks) :
    (namespaceOutline cfg names).Keeps s i t .idle :=
  keeps_plain h hf hl hp hk (fun _ ha => nomatch ha) ⟨rfl, rfl, rfl, rfl⟩

theorem keeps_acquire (h : (namespaceOutline cfg names).Holds s) {n : ChildName}
    (hpc : s.pc i = .createLock n) (hfree : s.shared.createLocks (safeName n.text) = false) :
    (namespaceOutline cfg names).Keeps s i { s.shared with
      createLocks := Function.update s.shared.createLocks (safeName n.text) true }
      (.createExists n) := by
  refine ⟨h.inv.congr rfl rfl rfl, ⟨?_, ?_, nofun, nofun, nofun⟩,
    fun j _ => (h.point j).congr rfl rfl rfl fun st _ hheld => ?_,
    fun j hj => ⟨?_, midway_apart rfl⟩⟩
  · have hown := (h.point i).names
    rw [hpc] at hown
    exact hown
  · intro st hst
    cases hst
    exact Function.update_self ..
  · by_cases hst : st = safeName n.text
    · rw [hst]
      exact Function.update_self ..
    · simp only [Function.update_of_ne hst]
      exact hheld
  · intro st hst hother
    cases hst
    have hheld := (h.point j).lock _ hother
    rw [hfree] at hheld
    cases hheld

theorem keeps_release (h : (namespaceOutline cfg names).Holds s) {n : ChildName}
    {written : Option ChildManifest} (hpc : s.pc i = .createRelease n written)
    {returned : List (NamespaceCall × Except CallError ParentResult)} (hplain : p.Plain)
    (hnames : ∀ a ∈ p.names, a ∈ names) :
    (namespaceOutline cfg names).Keeps s i { s.shared with
      createLocks := Function.update s.shared.createLocks (safeName n.text) false
      returned := returned } p := by
  refine ⟨h.inv.congr rfl rfl rfl, hplain.holds hnames,
    fun j hj => (h.point j).congr rfl rfl rfl fun st hst hheld => ?_, fun j _ => hplain.apart⟩
  have hne : st ≠ safeName n.text := by
    rintro rfl
    have hmine : (s.pc i).lock = some (safeName n.text) := by
      rw [hpc]
      rfl
    exact (h.apart i j hj.symm).lock _ hmine hst
  simp only [Function.update_of_ne hne]
  exact hheld

/-- **A create publishes its manifest.** -/
theorem keeps_createDump (h : (namespaceOutline cfg names).Holds s) {n : ChildName}
    (hpc : s.pc i = .createDump n) (hg : (NamespacePhase.createDump n).AsChecked cfg s) :
    (namespaceOutline cfg names).Keeps s i { s.shared with
      parent := s.shared.parent.dump (safeName n.text) (newManifest cfg n.text)
      ledger := (childId cfg n.text, n.text) :: s.shared.ledger }
      (.createRelease n (some (newManifest cfg n.text))) := by
  obtain ⟨hvisible, hfresh, hremoving⟩ := hg
  have hpoint := h.point i
  rw [hpc] at hpoint
  have hn : n.text ∈ names := hpoint.names _ List.mem_cons_self
  have hfree : s.shared.parent.load (safeName n.text) = none := hpoint.creating _ rfl
  have hfiles := files_dump_new hfree (newManifest cfg n.text)
  have hold : ∀ {st m}, s.shared.parent.load st = some m →
      (s.shared.parent.dump (safeName n.text) (newManifest cfg n.text)).load st = some m := by
    intro st m hload
    rw [load_dump, if_neg]
    · exact hload
    · rintro rfl
      rw [hfree] at hload
      cases hload
  refine ⟨?_, ⟨hpoint.names, hpoint.lock, nofun, nofun, nofun⟩, fun j hj => ?_,
    fun j hj => ⟨?_, midway_apart rfl⟩⟩
  · have hinv := h.inv
    constructor
    · simp only [hfiles]
      exact List.pairwise_cons.mpr
        ⟨fun x hx => (stem_ne_of_load_none hfree x hx).symm, hinv.stems⟩
    · simp only [hfiles, List.forall_mem_cons]
      exact ⟨⟨rfl, hn⟩, hinv.named⟩
    · simp only [hfiles, List.forall_mem_cons]
      exact ⟨⟨hvisible, n.valid⟩, hinv.visible⟩
    · simp only [hfiles, List.forall_mem_cons]
      exact ⟨childId_ne_empty n.text, hinv.nonempty⟩
    · rw [List.map_cons, List.nodup_cons]
      refine ⟨fun hmem => ?_, hinv.ids⟩
      obtain ⟨c, hc, hid⟩ := List.mem_map.mp hmem
      obtain ⟨m, hload, hm, -⟩ := hinv.filed c hc
      exact hfresh _ (mem_of_load hload) (hm.trans hid)
    · simp only [List.forall_mem_cons]
      refine ⟨⟨newManifest cfg n.text, ?_, rfl, rfl⟩, fun c hc => ?_⟩
      · rw [load_dump, if_pos rfl]
      · obtain ⟨m, hload, hm⟩ := hinv.filed c hc
        exact ⟨m, hold hload, hm⟩
    · simp only [hfiles, List.forall_mem_cons]
      refine ⟨.inl List.mem_cons_self, fun x hx => ?_⟩
      exact (hinv.owned x hx).imp_left (List.mem_cons_of_mem _)
  · refine (h.point j).of (fun _ _ hheld => hheld) (fun st hst hnone => ?_) (fun o n' m _ hm => ?_)
      fun id hid hall => ?_
    · rw [load_dump, if_neg]
      · exact hnone
      · rintro rfl
        refine (h.apart i j hj.symm).lock (safeName n.text) ?_ ?_
        · rw [hpc]
          rfl
        · exact lock_of_creating hst
    · exact ⟨hold hm.old, hold hm.new, hm.ne, List.mem_cons_of_mem _ hm.child, hm.published⟩
    · simp only [hfiles, List.forall_mem_cons]
      refine ⟨fun heq => hremoving j ?_, hall⟩
      rw [hid, ← heq]
      rfl
  · have hapart := h.apart i j hj.symm
    rw [hpc] at hapart
    exact hapart.lock

/-- **A rename publishes the manifest under the new name.** -/
theorem keeps_renameDump (h : (namespaceOutline cfg names).Holds s) (hinj : Set.InjOn safeName names)
    {o n : ChildName} {m : ChildManifest} (hpc : s.pc i = .renameDump o n m)
    (hg : (NamespacePhase.renameDump o n m).AsChecked cfg s) :
    (namespaceOutline cfg names).Keeps s i { s.shared with
      parent := s.shared.parent.dump (safeName n.text) (renamedManifest cfg m n.text)
      published := (m.id, n.text) :: s.shared.published } (.renameUnlink o n m) := by
  obtain ⟨hvisible, hfree, hcreating, hold, hsettled⟩ := hg
  have hpoint := h.point i
  rw [hpc] at hpoint
  have ho : o.text ∈ names := hpoint.names _ List.mem_cons_self
  have hn : n.text ∈ names := hpoint.names _ (List.mem_cons_of_mem _ List.mem_cons_self)
  have hinv := h.inv
  have hmem := mem_of_load hold
  have hname : m.name = o.text := by
    obtain ⟨hstem, hmine⟩ := hinv.named _ hmem
    exact (hinj ho hmine hstem).symm
  have hchild : (m.id, o.text) ∈ s.shared.ledger := by
    rcases hinv.owned _ hmem with hown | hpub
    · rw [← hname]
      exact hown
    · exact absurd rfl (hsettled _ hpub)
  have hfiles := files_dump_new hfree (renamedManifest cfg m n.text)
  have hkept : ∀ {st m'}, s.shared.parent.load st = some m' →
      (s.shared.parent.dump (safeName n.text) (renamedManifest cfg m n.text)).load st =
        some m' := by
    intro st m' hload
    rw [load_dump, if_neg]
    · exact hload
    · rintro rfl
      rw [hfree] at hload
      cases hload
  refine ⟨?_, ⟨hpoint.names, nofun, nofun, ?_, nofun⟩, fun j hj => ?_, fun j hj => ⟨nofun, ?_⟩⟩
  · constructor
    · simp only [hfiles]
      exact List.pairwise_cons.mpr
        ⟨fun x hx => (stem_ne_of_load_none hfree x hx).symm, hinv.stems⟩
    · simp only [hfiles, List.forall_mem_cons]
      exact ⟨⟨rfl, hn⟩, hinv.named⟩
    · simp only [hfiles, List.forall_mem_cons]
      exact ⟨⟨hvisible, n.valid⟩, hinv.visible⟩
    · simp only [hfiles, List.forall_mem_cons]
      exact ⟨hinv.nonempty _ hmem, hinv.nonempty⟩
    · exact hinv.ids
    · intro c hc
      obtain ⟨m', hload, hm'⟩ := hinv.filed c hc
      exact ⟨m', hkept hload, hm'⟩
    · simp only [hfiles, List.forall_mem_cons]
      refine ⟨.inr List.mem_cons_self, fun x hx => ?_⟩
      exact (hinv.owned x hx).imp_right (List.mem_cons_of_mem _)
  · intro o' n' m' hm
    cases hm
    refine ⟨hkept hold, ?_, fun heq => ?_, hchild, List.mem_cons_self⟩
    · rw [load_dump, if_pos rfl]
    · rw [heq, hfree] at hold
      cases hold
  · refine (h.point j).of (fun _ _ hheld => hheld) (fun st hst hnone => ?_)
      (fun o' n' m' _ hm => ?_) fun id hid hall => ?_
    · rw [load_dump, if_neg]
      · exact hnone
      · rintro rfl
        exact hcreating j hst
    · exact ⟨hkept hm.old, hkept hm.new, hm.ne, hm.child, List.mem_cons_of_mem _ hm.published⟩
    · simp only [hfiles, List.forall_mem_cons]
      exact ⟨hall _ hmem, hall⟩
  · intro o' n' m₁ o₂ n₂ m₂ hm hm₂ heq
    cases hm
    exact hsettled _ ((h.point j).midway _ _ _ hm₂).published heq.symm

/-- What another rename under way relies on, when a manifest of another child is removed. -/
theorem Midway.unlink {u : SharedParent} {o n : ChildName} {m m' : ChildManifest} {stem : String}
    (hm : Midway cfg t o n m) (hgone : t.parent.load stem = some m') (hid : m'.id ≠ m.id)
    (hparent : u.parent = t.parent.unlink stem) (hchild : (m.id, o.text) ∈ u.ledger)
    (hpublished : (m.id, n.text) ∈ u.published) : Midway cfg u o n m := by
  refine ⟨?_, ?_, hm.ne, hchild, hpublished⟩
  · rw [hparent, load_unlink, if_neg]
    · exact hm.old
    · rintro rfl
      have hold := hm.old
      rw [hgone] at hold
      cases hold
      exact hid rfl
  · rw [hparent, load_unlink, if_neg]
    · exact hm.new
    · rintro rfl
      have hnew := hm.new
      rw [hgone] at hnew
      cases hnew
      exact hid rfl

/-- **A rename removes the old manifest.** -/
theorem keeps_renameUnlink (h : (namespaceOutline cfg names).Holds s)
    (hinj : Set.InjOn safeName names) {o n : ChildName} {m : ChildManifest}
    (hpc : s.pc i = .renameUnlink o n m) :
    (namespaceOutline cfg names).Keeps s i { s.shared with
      parent := s.shared.parent.unlink (safeName o.text)
      ledger := SharedParent.renamedTo s.shared.ledger m.id o.text n.text
      published := s.shared.published.filter fun c => c ≠ (m.id, n.text) }
      (.status (.rename o n) (renamedManifest cfg m n.text)) := by
  have hpoint := h.point i
  rw [hpc] at hpoint
  have ho : o.text ∈ names := hpoint.names _ List.mem_cons_self
  have hinv := h.inv
  have hmid : Midway cfg s.shared o n m := hpoint.midway o n m rfl
  have hplain : (NamespacePhase.status (.rename o n) (renamedManifest cfg m n.text)).Plain :=
    ⟨rfl, rfl, rfl, rfl⟩
  have hother : ∀ {c : String × String}, c ∈ s.shared.ledger → c ≠ (m.id, o.text) →
      c ∈ SharedParent.renamedTo s.shared.ledger m.id o.text n.text := by
    intro c hc hne
    refine List.mem_map.mpr ⟨c, hc, ?_⟩
    rw [if_neg hne]
  have hrenamed : (m.id, n.text) ∈
      SharedParent.renamedTo s.shared.ledger m.id o.text n.text := by
    refine List.mem_map.mpr ⟨_, hmid.child, ?_⟩
    rw [if_pos rfl]
  refine ⟨?_, hplain.holds fun _ ha => (nomatch ha), fun j hj => ?_, fun j hj => hplain.apart⟩
  · constructor
    · exact hinv.stems.filter _
    · exact fun x hx => hinv.named x (List.mem_filter.mp hx).1
    · exact fun x hx => hinv.visible x (List.mem_filter.mp hx).1
    · exact fun x hx => hinv.nonempty x (List.mem_filter.mp hx).1
    · have hids : (SharedParent.renamedTo s.shared.ledger m.id o.text n.text).map (·.1) =
          s.shared.ledger.map (·.1) := by
        unfold SharedParent.renamedTo
        rw [List.map_map]
        refine List.map_congr_left fun c _ => ?_
        rw [Function.comp_apply]
        split
        · rename_i heq
          rw [heq]
        · rfl
      simp only [hids]
      exact hinv.ids
    · intro c hc
      obtain ⟨c₀, hc₀, heq⟩ := List.mem_map.mp hc
      by_cases hmine : c₀ = (m.id, o.text)
      · rw [if_pos hmine] at heq
        rw [← heq]
        refine ⟨renamedManifest cfg m n.text, ?_, rfl, rfl⟩
        rw [load_unlink, if_neg hmid.ne.symm]
        exact hmid.new
      · rw [if_neg hmine] at heq
        rw [← heq]
        obtain ⟨m', hload, hid, hname⟩ := hinv.filed c₀ hc₀
        refine ⟨m', ?_, hid, hname⟩
        rw [load_unlink, if_neg]
        · exact hload
        · intro hstem
          have hold := hmid.old
          rw [← hstem, hload] at hold
          cases hold
          have hnamed := hinv.named _ (mem_of_load hload)
          have hmo : m.name = o.text := hinj hnamed.2 ho (by rw [← hnamed.1, hstem])
          exact hmine (Prod.ext hid.symm (hname.symm.trans hmo))
    · intro x hx
      obtain ⟨hx, hstem⟩ := List.mem_filter.mp hx
      have hstem : x.1 ≠ safeName o.text := of_decide_eq_true hstem
      by_cases hnew : (x.2.id, x.2.name) = (m.id, n.text)
      · left
        rw [hnew]
        exact hrenamed
      · rcases hinv.owned x hx with hown | hpub
        · refine .inl (hother hown fun heq => hstem ?_)
          have hname : x.2.name = o.text := congrArg Prod.snd heq
          rw [(hinv.named x hx).1, hname]
        · exact .inr (List.mem_filter.mpr ⟨hpub, decide_eq_true hnew⟩)
  · refine (h.point j).of (fun _ _ hheld => hheld) (fun st hst hnone => ?_)
      (fun o' n' m' hm' hm => ?_) fun id _ hall x hx => hall x (List.mem_filter.mp hx).1
    · rw [load_unlink, hnone, ite_self]
    · have hid : m.id ≠ m'.id := by
        refine (h.apart i j hj.symm).midway o n m o' n' m' ?_ hm'
        rw [hpc]
        rfl
      refine hm.unlink hmid.old hid rfl (hother hm.child fun heq => ?_)
        (List.mem_filter.mpr ⟨hm.published, decide_eq_true fun heq => ?_⟩)
      · exact hid (congrArg Prod.fst heq).symm
      · exact hid (congrArg Prod.fst heq).symm

/-- **A removal takes the manifest away.** -/
theorem keeps_removeUnlink (h : (namespaceOutline cfg names).Holds s)
    (hinj : Set.InjOn safeName names) {n : ChildName} {m : ChildManifest}
    (hpc : s.pc i = .removeUnlink n m) (hg : (NamespacePhase.removeUnlink n m).AsChecked cfg s)
    {m' : ChildManifest} (hload : s.shared.parent.load (safeName n.text) = some m') :
    (namespaceOutline cfg names).Keeps s i { s.shared with
      parent := s.shared.parent.unlink (safeName n.text)
      ledger := s.shared.ledger.filter fun c => c ≠ (m.id, n.text) } (.removeTree n m) := by
  obtain ⟨hsame, hsettled⟩ := hg
  have hm : m' = m := hsame m' hload
  rw [hm] at hload
  have hpoint := h.point i
  rw [hpc] at hpoint
  have hn : n.text ∈ names := hpoint.names _ List.mem_cons_self
  have hinv := h.inv
  have hmem := mem_of_load hload
  have hname : m.name = n.text := by
    obtain ⟨hstem, hmine⟩ := hinv.named _ hmem
    exact (hinj hn hmine hstem).symm
  have hledger : ∀ x ∈ s.shared.parent.files, x.2.id = m.id →
      (m.id, x.2.name) ∈ s.shared.ledger := by
    intro x hx hid
    rcases hinv.owned x hx with hown | hpub
    · rw [← hid]
      exact hown
    · exact absurd hid (hsettled _ hpub)
  have hlast : ∀ x ∈ s.shared.parent.files, x.2.id = m.id → x.1 = safeName n.text := by
    intro x hx hid
    have heq := List.inj_on_of_nodup_map hinv.ids (hledger x hx hid) (hledger _ hmem rfl) rfl
    have hxn : x.2.name = m.name := congrArg Prod.snd heq
    rw [(hinv.named x hx).1, hxn, hname]
  have hkept : ∀ {c : String × String}, c ∈ s.shared.ledger → c.1 ≠ m.id →
      c ∈ s.shared.ledger.filter fun c => c ≠ (m.id, n.text) := by
    intro c hc hne
    exact List.mem_filter.mpr ⟨hc, decide_eq_true fun heq => hne (congrArg Prod.fst heq)⟩
  refine ⟨?_, ⟨hpoint.names, nofun, nofun, nofun, ?_⟩, fun j hj => ?_,
    fun j hj => ⟨nofun, midway_apart rfl⟩⟩
  · constructor
    · exact hinv.stems.filter _
    · exact fun x hx => hinv.named x (List.mem_filter.mp hx).1
    · exact fun x hx => hinv.visible x (List.mem_filter.mp hx).1
    · exact fun x hx => hinv.nonempty x (List.mem_filter.mp hx).1
    · exact hinv.ids.sublist (List.filter_sublist.map _)
    · intro c hc
      obtain ⟨hc, hne⟩ := List.mem_filter.mp hc
      obtain ⟨m₁, hload₁, hid₁, hname₁⟩ := hinv.filed c hc
      refine ⟨m₁, ?_, hid₁, hname₁⟩
      rw [load_unlink, if_neg]
      · exact hload₁
      · intro hstem
        rw [hstem, hload] at hload₁
        cases hload₁
        refine of_decide_eq_true hne (Prod.ext hid₁.symm ?_)
        rw [← hname₁, hname]
    · intro x hx
      obtain ⟨hx, hstem⟩ := List.mem_filter.mp hx
      have hstem : x.1 ≠ safeName n.text := of_decide_eq_true hstem
      exact (hinv.owned x hx).imp_left fun hown => hkept hown fun hid => hstem (hlast x hx hid)
  · intro id hid
    cases hid
    refine ⟨hinv.nonempty _ hmem, fun x hx hid => ?_⟩
    obtain ⟨hx, hstem⟩ := List.mem_filter.mp hx
    exact of_decide_eq_true hstem (hlast x hx hid)
  · refine (h.point j).of (fun _ _ hheld => hheld) (fun st hst hnone => ?_)
      (fun o' n' m₁ _ hmid => ?_) fun id _ hall x hx => hall x (List.mem_filter.mp hx).1
    · rw [load_unlink, hnone, ite_self]
    · have hid : m₁.id ≠ m.id := hsettled _ hmid.published
      exact hmid.unlink hload hid.symm rfl (hkept hmid.child hid) hmid.published

/-- **Every step keeps the outline**, if what it writes is as checked. -/
theorem namespaceStep_keeps (h : (namespaceOutline cfg names).Holds s)
    (hinj : Set.InjOn safeName names) {a : NamespaceAct} (hg : AsChecked cfg s (i, a))
    (hcall : ∀ n ∈ a.names, n ∈ names)
    (hs : namespaceStep cfg s.shared (s.pc i) a = some (t, p)) :
    (namespaceOutline cfg names).Keeps s i t p := by
  have hnames := (h.point i).names
  have hcreating := (h.point i).creating
  unfold AsChecked at hg
  cases hpc : s.pc i with
  | idle =>
    rw [hpc] at hs
    cases a with
    | step => cases hs
    | call c =>
      cases hs
      refine keeps_plain h rfl rfl rfl rfl ?_ ?_
      · cases c <;> exact hcall
      · cases c <;> exact ⟨rfl, rfl, rfl, rfl⟩
  | createLock n =>
    rw [hpc] at hs
    cases a with
    | call c => cases hs
    | step =>
      simp only [namespaceStep] at hs
      split at hs
      · cases hs
        exact keeps_returns h rfl rfl rfl rfl
      · rename_i hfree
        cases hs
        exact keeps_acquire h hpc (Bool.not_eq_true _ ▸ hfree)
  | createExists n =>
    rw [hpc] at hs hnames
    cases a with
    | call c => cases hs
    | step =>
      simp only [namespaceStep] at hs
      split at hs
      · cases hs
        exact keeps_within h rfl rfl rfl rfl hnames (fun st hst => by rw [hpc]; exact hst) nofun
          rfl rfl
      · rename_i hfree
        cases hs
        refine keeps_within h rfl rfl rfl rfl hnames (fun st hst => by rw [hpc]; exact hst)
          (fun st hst => ?_) rfl rfl
        cases hst
        exact Option.not_isSome_iff_eq_none.mp hfree
  | createUpper n =>
    rw [hpc] at hs hnames hcreating
    cases a with
    | call c => cases hs
    | step =>
      cases hs
      exact keeps_within h rfl rfl rfl rfl hnames (fun st hst => by rw [hpc]; exact hst)
        (fun st hst => hcreating st hst) rfl rfl
  | createDump n =>
    rw [hpc] at hs hg
    cases a with
    | call c => cases hs
    | step =>
      cases hs
      exact keeps_createDump h hpc hg
  | createRelease n written =>
    rw [hpc] at hs
    cases a with
    | call c => cases hs
    | step =>
      cases written with
      | none =>
        cases hs
        exact keeps_release h hpc ⟨rfl, rfl, rfl, rfl⟩ fun _ ha => nomatch ha
      | some m =>
        cases hs
        exact keeps_release h hpc ⟨rfl, rfl, rfl, rfl⟩ fun _ ha => nomatch ha
  | renameExists o n =>
    rw [hpc] at hs hnames
    cases a with
    | call c => cases hs
    | step =>
      simp only [namespaceStep] at hs
      split at hs <;> cases hs
      · exact keeps_plain h rfl rfl rfl rfl hnames ⟨rfl, rfl, rfl, rfl⟩
      · exact keeps_returns h rfl rfl rfl rfl
  | renameFree o n =>
    rw [hpc] at hs hnames
    cases a with
    | call c => cases hs
    | step =>
      simp only [namespaceStep] at hs
      split at hs <;> cases hs
      · exact keeps_returns h rfl rfl rfl rfl
      · exact keeps_plain h rfl rfl rfl rfl hnames ⟨rfl, rfl, rfl, rfl⟩
  | renameLoad o n =>
    rw [hpc] at hs hnames
    cases a with
    | call c => cases hs
    | step =>
      simp only [namespaceStep] at hs
      split at hs <;> cases hs
      · exact keeps_plain h rfl rfl rfl rfl hnames ⟨rfl, rfl, rfl, rfl⟩
      · exact keeps_returns h rfl rfl rfl rfl
  | renameDump o n m =>
    rw [hpc] at hs hg
    cases a with
    | call c => cases hs
    | step =>
      cases hs
      exact keeps_renameDump h hinj hpc hg
  | renameUnlink o n m =>
    have hold := ((h.point i).midway o n m (by rw [hpc]; rfl)).old
    rw [hpc] at hs
    cases a with
    | call c => cases hs
    | step =>
      simp only [namespaceStep, hold] at hs
      cases hs
      exact keeps_renameUnlink h hinj hpc
  | removeExists n =>
    rw [hpc] at hs hnames
    cases a with
    | call c => cases hs
    | step =>
      simp only [namespaceStep] at hs
      split at hs <;> cases hs
      · exact keeps_plain h rfl rfl rfl rfl hnames ⟨rfl, rfl, rfl, rfl⟩
      · exact keeps_returns h rfl rfl rfl rfl
  | removeLoad n =>
    rw [hpc] at hs hnames
    cases a with
    | call c => cases hs
    | step =>
      simp only [namespaceStep] at hs
      split at hs
      · split at hs <;> cases hs
        · exact keeps_returns h rfl rfl rfl rfl
        · exact keeps_plain h rfl rfl rfl rfl hnames ⟨rfl, rfl, rfl, rfl⟩
      · cases hs
        exact keeps_returns h rfl rfl rfl rfl
  | removeStats n m =>
    rw [hpc] at hs hnames
    cases a with
    | call c => cases hs
    | step =>
      simp only [namespaceStep] at hs
      split at hs <;> cases hs
      · exact keeps_returns h rfl rfl rfl rfl
      · exact keeps_plain h rfl rfl rfl rfl hnames ⟨rfl, rfl, rfl, rfl⟩
  | removeUnlink n m =>
    rw [hpc] at hs hg
    cases a with
    | call c => cases hs
    | step =>
      simp only [namespaceStep] at hs
      split at hs
      · rename_i m' hload
        cases hs
        exact keeps_removeUnlink h hinj hpc hg hload
      · cases hs
        exact keeps_returns h rfl rfl rfl rfl
  | removeTree n m =>
    rw [hpc] at hs
    cases a with
    | call c => cases hs
    | step =>
      cases hs
      exact keeps_returns h rfl rfl rfl rfl
  | status c m =>
    rw [hpc] at hs
    cases a with
    | call c => cases hs
    | step =>
      cases hs
      exact keeps_returns h rfl rfl rfl rfl

end Steps

/-! ## 5. Runs -/

section Transitions

variable {cfg : ParentConfig} {names : Set String} {s t : SharedParent} {p q : NamespacePhase}
  {a : NamespaceAct}

/-- **What a step does to the parent.** -/
inductive ParentChange (cfg : ParentConfig) (s t : ParentState) (p : NamespacePhase) : Prop where
  | same (h : t = s) : ParentChange cfg s t p
  | upper (id : String) (h : t = s.ensureActiveUpper id) : ParentChange cfg s t p
  | created (n : ChildName) (hp : p = .createDump n)
      (h : t = s.dump (safeName n.text) (newManifest cfg n.text)) : ParentChange cfg s t p
  | renamed (o n : ChildName) (m : ChildManifest) (hp : p = .renameDump o n m)
      (h : t = s.dump (safeName n.text) (renamedManifest cfg m n.text)) : ParentChange cfg s t p
  | unlinked (stem : String) (h : t = s.unlink stem) : ParentChange cfg s t p
  | removed (n : ChildName) (m : ChildManifest) (hp : p = .removeTree n m)
      (h : t = s.removeOverlay m.id) : ParentChange cfg s t p

theorem namespaceStep_parent (hs : namespaceStep cfg s p a = some (t, q)) :
    ParentChange cfg s.parent t.parent p := by
  cases a with
  | call c =>
    cases p with
    | idle =>
      cases hs
      exact .same rfl
    | _ => cases hs
  | step =>
    cases p with
    | idle => cases hs
    | createLock n | createExists n | renameExists o n | renameFree o n | removeExists n
    | removeStats n m =>
      simp only [namespaceStep] at hs
      split at hs <;> cases hs <;> exact .same rfl
    | createUpper n =>
      cases hs
      exact .upper _ rfl
    | createDump n =>
      cases hs
      exact .created n rfl rfl
    | createRelease n written => cases written <;> cases hs <;> exact .same rfl
    | renameLoad o n =>
      simp only [namespaceStep] at hs
      split at hs <;> cases hs <;> exact .same rfl
    | renameDump o n m =>
      cases hs
      exact .renamed o n m rfl rfl
    | renameUnlink o n m | removeUnlink n m =>
      simp only [namespaceStep] at hs
      split at hs <;> cases hs
      · exact .unlinked _ rfl
      · exact .same rfl
    | removeLoad n =>
      simp only [namespaceStep] at hs
      split at hs
      · split at hs <;> cases hs <;> exact .same rfl
      · cases hs
        exact .same rfl
    | removeTree n m =>
      cases hs
      exact .removed n m rfl rfl
    | status c m =>
      cases hs
      exact .upper _ rfl

theorem uppers_kept {s : ParentState} {id root : String} {u : Tree} (h : s.uppers root = some u) :
    (s.ensureActiveUpper id).uppers root = some u := by
  unfold ParentState.ensureActiveUpper ParentState.upperOf
  by_cases hroot : root = safeNamespaceName id
  · rw [← hroot]
    simp only [Function.update_self, h, Option.getD_some]
  · simp only [Function.update_of_ne hroot]
    exact h

/-- **No step overwrites a manifest** or takes a listed child's overlay, if it writes as checked. -/
theorem namespaceStep_kept {k : Nat} {s : NamespaceThreads k} {i : Fin k}
    (h : (namespaceOutline cfg names).Holds s) (hg : AsChecked cfg s (i, a))
    (hs : namespaceStep cfg s.shared (s.pc i) a = some (t, q)) : NamespaceKept s.shared t := by
  have hdump : ∀ {stem : String} {m₀ : ChildManifest}, s.shared.parent.load stem = none →
      t.parent = s.shared.parent.dump stem m₀ → NamespaceKept s.shared t := by
    intro stem m₀ hfree hparent
    refine ⟨fun st m m' hold hnew => ?_, fun x _ u hu => ?_⟩
    · rw [hparent, load_dump, if_neg] at hnew
      · rw [hold] at hnew
        exact (Option.some.inj hnew).symm
      · rintro rfl
        rw [hfree] at hold
        cases hold
    · rw [hparent]
      exact hu
  have hsame : t.parent.files = s.shared.parent.files → ∀ st m m',
      s.shared.parent.load st = some m → t.parent.load st = some m' → m' = m := by
    intro hfiles st m m' hold hnew
    rw [load_congr hfiles, hold] at hnew
    exact (Option.some.inj hnew).symm
  unfold AsChecked at hg
  have hpoint := h.point i
  cases namespaceStep_parent hs with
  | same hparent =>
    refine ⟨hsame (by rw [hparent]), fun x _ u hu => ?_⟩
    rw [hparent]
    exact hu
  | upper id hparent =>
    refine ⟨hsame (by rw [hparent]; rfl), fun x _ u hu => ?_⟩
    rw [hparent]
    exact uppers_kept hu
  | created n hp hparent =>
    rw [hp] at hpoint
    exact hdump (hpoint.creating _ rfl) hparent
  | renamed o n m hp hparent =>
    rw [hp] at hg
    exact hdump hg.2.1 hparent
  | unlinked stem hparent =>
    refine ⟨fun st m m' hold hnew => ?_, fun x _ u hu => ?_⟩
    · rw [hparent, load_unlink] at hnew
      split at hnew
      · cases hnew
      · rw [hold] at hnew
        exact (Option.some.inj hnew).symm
    · rw [hparent]
      exact hu
  | removed n m hp hparent =>
    rw [hp] at hpoint
    obtain ⟨hid, hgone⟩ := hpoint.removing m.id rfl
    refine ⟨hsame (by rw [hparent]; rfl), fun x hx u hu => ?_⟩
    have hx : x ∈ s.shared.parent.files := by
      rw [hparent] at hx
      exact hx
    have hroot : safeNamespaceName x.2.id ≠ safeNamespaceName m.id := fun heq =>
      hgone x hx (safeNamespaceName_inj (h.inv.nonempty x hx) hid heq)
    rw [hparent]
    unfold ParentState.removeOverlay
    simp only [Function.update_of_ne hroot]
    exact hu

end Transitions

/-- A parent between calls, whose children are all listed. -/
structure SettledParent (names : Set String) where
  parent : ParentState
  stems : parent.files.Pairwise fun x y => x.1 ≠ y.1
  ids : parent.files.Pairwise fun x y => x.2.id ≠ y.2.id
  named : ∀ x ∈ parent.files, x.1 = safeName x.2.name ∧ x.2.name ∈ names
  visible : ∀ x ∈ parent.files, isHiddenFile x.1 = false ∧ validateName x.2.name = none
  nonempty : ∀ x ∈ parent.files, x.2.id ≠ ""

/-- No call is under way. -/
def SettledParent.threads {names : Set String} (s : SettledParent names) (k : Nat) :
    NamespaceThreads k where
  shared := { parent := s.parent, ledger := s.parent.files.map fun x => (x.2.id, x.2.name) }
  pc := fun _ => .idle

theorem SettledParent.holds {names : Set String} (s : SettledParent names) (cfg : ParentConfig)
    (k : Nat) : (namespaceOutline cfg names).Holds (s.threads k) := by
  refine ⟨⟨s.stems, s.named, s.visible, s.nonempty, ?_, fun c hc => ?_, fun x hx => .inl ?_⟩,
    fun i => ⟨fun _ ha => (nomatch ha), nofun, nofun, nofun, nofun⟩,
    fun i j _ => ⟨nofun, midway_apart rfl⟩⟩
  · show ((s.parent.files.map fun x => (x.2.id, x.2.name)).map (·.1)).Nodup
    rw [List.map_map, List.Nodup, List.pairwise_map]
    exact s.ids
  · obtain ⟨x, hx, rfl⟩ := List.mem_map.mp hc
    have hstem := (s.named x hx).1
    cases hload : s.parent.load (safeName x.2.name) with
    | none => exact absurd hstem (stem_ne_of_load_none hload x hx)
    | some m =>
      have hsame := List.inj_on_of_nodup_map (f := (·.1)) (List.pairwise_map.mpr s.stems)
        (mem_of_load hload) hx hstem.symm
      exact ⟨m, hload, by rw [← hsame], by rw [← hsame]⟩
  · exact List.mem_map_of_mem hx

/-- **Namespace calls are safe in any order** in which what is written is as it was checked:
    whatever the calls, their number and their interleaving, every child created and not removed is
    listed once under the name of its last rename, no name is claimed twice, no manifest is
    overwritten, and no removal takes the overlay of a listed child. -/
theorem namespaceRaces_safe (cfg : ParentConfig) (names : Set String)
    (hinj : Set.InjOn safeName names) (s₀ : SettledParent names) {k : Nat}
    {s : NamespaceThreads k} {tr : List (Lib.Trans (NamespaceThreads k) (Fin k × NamespaceAct))}
    (hrun : NamespaceRun cfg (s₀.threads k) tr s)
    (hcalls : ∀ x ∈ tr, ∀ n ∈ x.ev.2.names, n ∈ names)
    (hok : ∀ x ∈ tr, AsChecked cfg x.pre x.ev) :
    NamespaceSafe s.shared ∧
      ∀ x ∈ tr, NamespaceSafe x.post.shared ∧ NamespaceKept x.pre.shared x.post.shared := by
  have hinv := (namespaceOutline cfg names).run
    (G := fun a e => AsChecked cfg a e ∧ ∀ n ∈ e.2.names, n ∈ names)
    hrun (s₀.holds cfg k) (fun a e u p ha hg hs => namespaceStep_keeps ha hinj hg.1 hg.2 hs)
    fun x hx => ⟨hok x hx, hcalls x hx⟩
  refine ⟨hinv.1.inv.safe, fun x hx => ⟨(hinv.2 x hx).2.inv.safe, ?_⟩⟩
  obtain ⟨p, hs, -⟩ := Lib.Threads.next_eq_some (hrun.isStep x hx)
  exact namespaceStep_kept (hinv.2 x hx).1 (hok x hx) hs

/-! ### Calls that overlap -/

def nameD : ChildName := ⟨"d", by decide⟩

def letters : List String := ["a", "b", "c", "d"]

theorem letters_inj : Set.InjOn safeName {n | n ∈ letters} := by
  have hall : ∀ m ∈ letters, ∀ n ∈ letters, safeName m = safeName n → m = n := by decide +kernel
  exact fun m hm n hn => hall m hm n hn

/-- Two children, `a` and `b`. -/
def twoChildren : SettledParent {n | n ∈ letters} where
  parent := { files := [("a", newManifest datasetParent "a"), ("b", newManifest datasetParent "b")] }
  stems := by decide
  ids := by decide
  named := by decide +kernel
  visible := by decide +kernel
  nonempty := by decide

/-- The transitions of a schedule of calls on `twoChildren`. -/
def namespaceTrace (k : Nat) (es : List (Fin k × NamespaceAct)) :
    List (Lib.Trans (NamespaceThreads k) (Fin k × NamespaceAct)) :=
  Lib.trace (fun s e => s.next (namespaceStep datasetParent) e) (twoChildren.threads k) es

theorem namespaceTrace_run (k : Nat) (es : List (Fin k × NamespaceAct)) :
    ∃ s, NamespaceRun datasetParent (twoChildren.threads k) (namespaceTrace k es) s :=
  Lib.Run.trace _ _ _

/-- A create of `c`, a rename of `a` to `d` and a removal of `b`, step by step in turn. -/
def apartCalls {k : Nat} (i j l : Fin k) : List (Fin k × NamespaceAct) :=
  [(i, .call (.create nameC)), (j, .call (.rename nameA nameD)), (l, .call (.remove nameB))] ++
    (List.replicate 6 [(i, .step), (j, .step), (l, .step)]).flatten

theorem namespaceRaces_safe_apart :
    ∃ s, NamespaceRun datasetParent (twoChildren.threads 3)
        (namespaceTrace 3 (apartCalls 0 1 2)) s ∧
      (namespaceTrace 3 (apartCalls 0 1 2)).length = 20 ∧ NamespaceSafe s.shared := by
  obtain ⟨s, hrun⟩ := namespaceTrace_run 3 (apartCalls 0 1 2)
  exact ⟨s, hrun, by decide +kernel, (namespaceRaces_safe datasetParent _ letters_inj twoChildren
    hrun (by decide +kernel) (by decide +kernel)).1⟩

/-- `a` and `b` are both renamed to `c`, and both have found it free. -/
def renamedOver {k : Nat} (i j : Fin k) : List (Fin k × NamespaceAct) :=
  [(i, .call (.rename nameA nameC)), (j, .call (.rename nameB nameC))] ++
    (List.replicate 3 [(i, .step), (j, .step)]).flatten ++
    List.replicate 3 (i, .step) ++ List.replicate 3 (j, .step)

/-- **Two renames to one name both succeed**: the second overwrites the manifest of the first, and
    one of the two children is no longer listed. -/
theorem renamedOver_losesChild :
    ∃ s, NamespaceRun datasetParent (twoChildren.threads 2)
        (namespaceTrace 2 (renamedOver 0 1)) s ∧
      s.shared.returned.map (fun r => (r.1, r.2.isOk)) =
        [(.rename nameA nameC, true), (.rename nameB nameC, true)] ∧
      s.shared.parent.files.map (fun x => (x.1, x.2.id)) = [("c", "dataset:b")] ∧
      ¬ NamespaceSafe s.shared ∧
      ∃ x ∈ namespaceTrace 2 (renamedOver 0 1), ¬ NamespaceKept x.pre.shared x.post.shared := by
  obtain ⟨s, hrun⟩ := namespaceTrace_run 2 (renamedOver 0 1)
  have hends : ∃ x ∈ (namespaceTrace 2 (renamedOver 0 1)).getLast?,
      x.post.shared.returned.map (fun r => (r.1, r.2.isOk)) =
        [(.rename nameA nameC, true), (.rename nameB nameC, true)] ∧
      x.post.shared.parent.files.map (fun x => (x.1, x.2.id)) = [("c", "dataset:b")] ∧
      x.post.shared.ledger = [("dataset:a", "c"), ("dataset:b", "c")] := by
    decide +kernel
  obtain ⟨x, hx, hreturned, hfiles, hledger⟩ := hends
  rw [← hrun.eq_post hx] at hreturned hfiles hledger
  refine ⟨s, hrun, hreturned, hfiles, fun hsafe => ?_, ?_⟩
  · have hclaims := hsafe.claims
    rw [hledger] at hclaims
    exact absurd hclaims (by decide)
  · have hover : ∃ x ∈ namespaceTrace 2 (renamedOver 0 1),
        ∃ m ∈ x.pre.shared.parent.load "c", ∃ m' ∈ x.post.shared.parent.load "c", m' ≠ m := by
      decide +kernel
    obtain ⟨x, hx, m, hm, m', hm', hne⟩ := hover
    exact ⟨x, hx, fun hkept => hne (hkept.manifests "c" m m' hm hm')⟩

end CccStorage
