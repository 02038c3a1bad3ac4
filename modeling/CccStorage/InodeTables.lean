/-
  File:      CccStorage/InodeTables.lean
  Subject:   The inode tables of the dispatcher (`mountd/dispatcher_fuse.py`) beside the objects its
             paths show, and what the three table operations keep of them.

  * `ObjectTree` -- the object at each path, every object at one path; `make`, `unlink`, `remove`,
    `move`;
  * `Inverse`, `Sound` -- the two tables are inverse, and only paths with an object are in them;
  * `Seen.Names`, `Seen.Settled` -- an inode number names an object, or it and the object are gone;
  * `Follows` -- what stays true of the numbers handed out; `Follows.addInode`, `Follows.dropInode`,
    `Follows.moveInode` -- and under what the table operations keep it.
-/
import CccStorage.Dispatcher

namespace CccStorage.Observe

/-! ## 1. Objects -/

/-- **The objects** at the paths of a dispatcher, numbered by birth: one object has one path. -/
structure ObjectTree where
  object : Path → Option Nat
  born : Nat
  bounded : ∀ p o, object p = some o → o < born
  single : ∀ p q o, object p = some o → object q = some o → p = q

namespace ObjectTree

variable (t : ObjectTree)

def Shown (rel : Path) : Prop := ∃ o, t.object rel = some o

instance (rel : Path) : Decidable (t.Shown rel) :=
  decidable_of_iff (t.object rel).isSome Option.isSome_iff_exists

/-- A new object, unless the path has one. -/
def make (rel : Path) : ObjectTree :=
  if t.object rel = none then
    { object := Function.update t.object rel (some t.born)
      born := t.born + 1
      bounded := by
        intro p o ho
        by_cases hp : p = rel
        · subst hp
          rw [Function.update_self] at ho
          obtain rfl := Option.some.inj ho
          exact Nat.lt_succ_self _
        · rw [Function.update_of_ne hp] at ho
          exact Nat.lt_succ_of_lt (t.bounded p o ho)
      single := by
        have hold : ∀ p, p ≠ rel → t.object p ≠ some t.born := fun p _ ho =>
          lt_irrefl _ (t.bounded p _ ho)
        intro p q o hp hq
        by_cases hpr : p = rel <;> by_cases hqr : q = rel
        · rw [hpr, hqr]
        · subst hpr
          rw [Function.update_self] at hp
          rw [Function.update_of_ne hqr, ← Option.some.inj hp] at hq
          exact absurd hq (hold q hqr)
        · subst hqr
          rw [Function.update_self] at hq
          rw [Function.update_of_ne hpr, ← Option.some.inj hq] at hp
          exact absurd hp (hold p hpr)
        · rw [Function.update_of_ne hpr] at hp
          rw [Function.update_of_ne hqr] at hq
          exact t.single p q o hp hq }
  else t

/-- What is left when some paths lose their objects. -/
def without (gone : Path → Prop) [DecidablePred gone] : ObjectTree where
  object := fun p => if gone p then none else t.object p
  born := t.born
  bounded := by
    intro p o ho
    split at ho
    · cases ho
    · exact t.bounded p o ho
  single := by
    intro p q o hp hq
    split at hp
    · cases hp
    · split at hq
      · cases hq
      · exact t.single p q o hp hq

/-- The entry itself goes. -/
def unlink (rel : Path) : ObjectTree := t.without (· = rel)

/-- A directory goes, with whatever its path and those below it show. -/
def remove (rel : Path) : ObjectTree := t.without (rel <+: ·)

/-- The object a path shows after a directory has gone from `old` to `new`. Of what was below it
    only the objects `kept` go with it: what lay in the overlay is deleted. -/
def movedObject (old new : Path) (kept : Path → Bool) (p : Path) : Option Nat :=
  if new <+: p then
    if kept (p.drop new.length) || p = new then t.object (old ++ p.drop new.length) else none
  else if old <+: p then none
  else t.object p

theorem movedObject_source {old new p : Path} {kept : Path → Bool} {o : Nat}
    (h : t.movedObject old new kept p = some o) :
    (∃ rest, p = new ++ rest ∧ t.object (old ++ rest) = some o) ∨
      ¬ new <+: p ∧ ¬ old <+: p ∧ t.object p = some o := by
  unfold movedObject at h
  split at h
  · rename_i hnew
    obtain ⟨rest, rfl⟩ := hnew
    rw [List.drop_left] at h
    split at h
    · exact .inl ⟨rest, rfl, h⟩
    · cases h
  · rename_i hnew
    split at h
    · cases h
    · rename_i hold
      exact .inr ⟨hnew, hold, h⟩

/-- A directory goes from `old` to `new`. -/
def move (old new : Path) (kept : Path → Bool) : ObjectTree where
  object := t.movedObject old new kept
  born := t.born
  bounded := by
    intro p o ho
    rcases t.movedObject_source ho with ⟨rest, -, ho⟩ | ⟨-, -, ho⟩
    · exact t.bounded _ o ho
    · exact t.bounded _ o ho
  single := by
    intro p q o hp hq
    rcases t.movedObject_source hp with ⟨rest, rfl, hold⟩ | ⟨-, hnot, hkept⟩
    · rcases t.movedObject_source hq with ⟨rest', rfl, hold'⟩ | ⟨-, hnot', hkept'⟩
      · rw [List.append_cancel_left (t.single _ _ o hold hold')]
      · exact absurd (t.single _ _ o hold hkept' ▸ List.prefix_append old rest) hnot'
    · rcases t.movedObject_source hq with ⟨rest', rfl, hold'⟩ | ⟨-, -, hkept'⟩
      · exact absurd (t.single _ _ o hold' hkept ▸ List.prefix_append old rest') hnot
      · exact t.single p q o hkept hkept'

section Facts

variable {t} {rel old new p : Path} {kept : Path → Bool} {o : Nat}

theorem make_of_some (h : t.object p = some o) : (t.make rel).object p = some o := by
  unfold make
  split
  · rename_i hnone
    have hne : p ≠ rel := by
      rintro rfl
      rw [hnone] at h
      cases h
    show Function.update t.object rel (some t.born) p = some o
    rw [Function.update_of_ne hne]
    exact h
  · exact h

theorem make_shown : (t.make rel).Shown rel := by
  unfold make
  split
  · exact ⟨t.born, Function.update_self ..⟩
  · rename_i hsome
    exact Option.ne_none_iff_exists'.mp hsome

theorem le_born_make : t.born ≤ (t.make rel).born := by
  unfold make
  split
  · exact Nat.le_succ _
  · exact le_rfl

/-- An object of before is where it was. -/
theorem of_make (ho : o < t.born) (h : (t.make rel).object p = some o) : t.object p = some o := by
  unfold make at h
  split at h
  · by_cases hp : p = rel
    · subst hp
      obtain rfl : t.born = o :=
        Option.some.inj ((Function.update_self (β := fun _ => Option Nat) ..).symm.trans h)
      exact absurd ho (lt_irrefl _)
    · exact (Function.update_of_ne hp ..).symm.trans h
  · exact h

theorem without_of_not {gone : Path → Prop} [DecidablePred gone] (hp : ¬ gone p) :
    (t.without gone).object p = t.object p := if_neg hp

theorem of_without {gone : Path → Prop} [DecidablePred gone]
    (h : (t.without gone).object p = some o) : ¬ gone p ∧ t.object p = some o := by
  change (if gone p then none else t.object p) = some o at h
  split at h
  · cases h
  · rename_i hp
    exact ⟨hp, h⟩

theorem move_new : (t.move old new kept).object new = t.object old := by
  change (if new <+: new then _ else _) = _
  rw [if_pos List.prefix_rfl, if_pos (by simp), List.drop_length, List.append_nil]

theorem move_of_not (hnew : ¬ new <+: p) (hold : ¬ old <+: p) :
    (t.move old new kept).object p = t.object p := by
  change (if new <+: p then _ else if old <+: p then none else t.object p) = _
  rw [if_neg hnew, if_neg hold]

end Facts

end ObjectTree

/-! ## 2. The tables -/

/-- **The two tables are inverse.** -/
def Inverse (s : FuseState) : Prop :=
  ∀ i p, s.inodeToPath i = some p ↔ s.pathToInode p = some i

/-- A dispatcher with the objects its paths show. -/
structure Seen where
  state : FuseState
  tree : ObjectTree

/-- The number handed out for a path with the object. -/
def Seen.Names (x : Seen) (i o : Nat) : Prop :=
  ∃ p, x.state.pathToInode p = some i ∧ x.tree.object p = some o

/-- A number out of use and an object that is gone. -/
structure Seen.Retired (x : Seen) (i o : Nat) : Prop where
  used : i < x.state.nextInode
  unused : x.state.inodeToPath i = none
  born : o < x.tree.born
  gone : ∀ p, x.tree.object p ≠ some o

/-- What becomes of a number handed out for an object. -/
def Seen.Settled (x : Seen) (i o : Nat) : Prop := x.Names i o ∨ x.Retired i o

/-- **The invariant of the tables.** -/
structure Sound (x : Seen) : Prop where
  inverse : Inverse x.state
  fresh : ∀ p i, x.state.pathToInode p = some i → i < x.state.nextInode
  shown : ∀ p i, x.state.pathToInode p = some i → x.tree.Shown p
  root : x.state.pathToInode [] = some rootInode

/-- **What stays true**: the invariant, and every number settled for an object. -/
structure Follows (x y : Seen) : Prop where
  sound : Sound y
  settled : ∀ i o, x.Settled i o → y.Settled i o

theorem Follows.refl {x : Seen} (h : Sound x) : Follows x x := ⟨h, fun _ _ h => h⟩

theorem Follows.trans {x y z : Seen} (h : Follows x y) (h' : Follows y z) : Follows x z :=
  ⟨h'.sound, fun i o hio => h'.settled i o (h.settled i o hio)⟩

section Tables

variable {x : Seen} {s u : FuseState} {t : ObjectTree} {rel old new : Path}

/-- The table fields are the same. -/
structure SameTables (s u : FuseState) : Prop where
  inodeToPath : u.inodeToPath = s.inodeToPath
  pathToInode : u.pathToInode = s.pathToInode
  nextInode : u.nextInode = s.nextInode

theorem SameTables.rfl : SameTables s s := ⟨.refl _, .refl _, .refl _⟩

theorem SameTables.trans {v : FuseState} (h : SameTables s u) (h' : SameTables u v) :
    SameTables s v :=
  ⟨h'.inodeToPath.trans h.inodeToPath, h'.pathToInode.trans h.pathToInode,
    h'.nextInode.trans h.nextInode⟩

theorem Follows.same (h : Follows x ⟨s, t⟩) (hsame : SameTables s u) : Follows x ⟨u, t⟩ := by
  obtain ⟨hi, hp, hn⟩ := hsame
  refine ⟨⟨?_, ?_, ?_, ?_⟩, fun i o hio => ?_⟩
  · intro i p
    show u.inodeToPath i = some p ↔ u.pathToInode p = some i
    rw [hi, hp]
    exact h.sound.inverse i p
  · intro p i hpi
    show i < u.nextInode
    rw [hn]
    exact h.sound.fresh p i ((congrFun hp p).symm.trans hpi)
  · exact fun p i hpi => h.sound.shown p i ((congrFun hp p).symm.trans hpi)
  · exact (congrFun hp []).trans h.sound.root
  · rcases h.settled i o hio with ⟨p, hpi, ho⟩ | hgone
    · exact .inl ⟨p, (congrFun hp p).trans hpi, ho⟩
    · exact .inr ⟨hn.symm ▸ hgone.used, (congrFun hi i).trans hgone.unused, hgone.born, hgone.gone⟩

/-- A number in a table is the one of its path. -/
theorem Sound.inode_eq (h : Sound ⟨s, t⟩) {i : Nat} {p q : Path}
    (hp : s.pathToInode p = some i) (hq : s.pathToInode q = some i) : p = q :=
  Option.some.inj (((h.inverse i p).mpr hp).symm.trans ((h.inverse i q).mpr hq))

/-- **A new number** goes to a path with an object. -/
theorem Follows.addInode (h : Follows x ⟨s, t⟩) (hrel : t.Shown rel) :
    Follows x ⟨s.addInode rel, t⟩ := by
  unfold FuseState.addInode
  split
  · exact h
  · rename_i hnone
    have hsound := h.sound
    -- the next number is in neither table
    have hnext : s.inodeToPath s.nextInode = none := by
      rw [Option.eq_none_iff_forall_not_mem]
      intro p hp
      exact lt_irrefl _ (hsound.fresh p _ ((hsound.inverse _ _).mp hp))
    have hne : ∀ p i, s.pathToInode p = some i → p ≠ rel := by
      rintro p i hp rfl
      rw [hnone] at hp
      cases hp
    refine h.trans ⟨⟨?_, ?_, ?_, ?_⟩, ?_⟩
    · intro i p
      show Function.update s.inodeToPath s.nextInode (some rel) i = some p ↔
        Function.update s.pathToInode rel (some s.nextInode) p = some i
      by_cases hi : i = s.nextInode <;> by_cases hp : p = rel
      · rw [hi, hp, Function.update_self, Function.update_self]
        exact ⟨fun _ => rfl, fun _ => rfl⟩
      · rw [hi, Function.update_self, Function.update_of_ne hp]
        refine ⟨fun heq => absurd (Option.some.inj heq).symm hp, fun heq => ?_⟩
        exact absurd (hsound.fresh p _ heq) (lt_irrefl _)
      · rw [hp, Function.update_self, Function.update_of_ne hi]
        refine ⟨fun heq => ?_, fun heq => absurd (Option.some.inj heq).symm hi⟩
        exact absurd rfl (hne rel i ((hsound.inverse i rel).mp heq))
      · rw [Function.update_of_ne hi, Function.update_of_ne hp]
        exact hsound.inverse i p
    · intro p i hp
      change Function.update s.pathToInode rel (some s.nextInode) p = some i at hp
      by_cases hpr : p = rel
      · rw [hpr, Function.update_self] at hp
        exact Option.some.inj hp ▸ Nat.lt_succ_self _
      · rw [Function.update_of_ne hpr] at hp
        exact Nat.lt_succ_of_lt (hsound.fresh p i hp)
    · intro p i hp
      change Function.update s.pathToInode rel (some s.nextInode) p = some i at hp
      by_cases hpr : p = rel
      · exact hpr ▸ hrel
      · rw [Function.update_of_ne hpr] at hp
        exact hsound.shown p i hp
    · show Function.update s.pathToInode rel (some s.nextInode) [] = some rootInode
      rw [Function.update_of_ne (hne [] _ hsound.root)]
      exact hsound.root
    · rintro i o (⟨p, hp, ho⟩ | hgone)
      · refine .inl ⟨p, ?_, ho⟩
        show Function.update s.pathToInode rel (some s.nextInode) p = some i
        rw [Function.update_of_ne (hne p i hp)]
        exact hp
      · refine .inr ⟨Nat.lt_succ_of_lt hgone.used, ?_, hgone.born, hgone.gone⟩
        show Function.update s.inodeToPath s.nextInode (some rel) i = none
        rw [Function.update_of_ne hgone.used.ne]
        exact hgone.unused

/-- A new object takes no number from another. -/
theorem Follows.make (h : Follows x ⟨s, t⟩) : Follows x ⟨s, t.make rel⟩ := by
  have hsound := h.sound
  refine h.trans ⟨⟨hsound.inverse, hsound.fresh, ?_, hsound.root⟩, ?_⟩
  · intro p i hp
    obtain ⟨o, ho⟩ := hsound.shown p i hp
    exact ⟨o, ObjectTree.make_of_some ho⟩
  · rintro i o (⟨p, hp, ho⟩ | hgone)
    · exact .inl ⟨p, hp, ObjectTree.make_of_some ho⟩
    · refine .inr ⟨hgone.used, hgone.unused, hgone.born.trans_le ObjectTree.le_born_make, ?_⟩
      exact fun p hp => hgone.gone p (ObjectTree.of_make hgone.born hp)

/-- **Objects go** from paths without a number. -/
theorem Follows.without (h : Follows x ⟨s, t⟩) {gone : Path → Prop} [DecidablePred gone]
    (hgone : ∀ p, gone p → s.pathToInode p = none) : Follows x ⟨s, t.without gone⟩ := by
  have hsound := h.sound
  have hkept : ∀ p i, s.pathToInode p = some i → ¬ gone p := by
    intro p i hp hg
    rw [hgone p hg] at hp
    cases hp
  refine h.trans ⟨⟨hsound.inverse, hsound.fresh, ?_, hsound.root⟩, ?_⟩
  · intro p i hp
    obtain ⟨o, ho⟩ := hsound.shown p i hp
    exact ⟨o, (ObjectTree.without_of_not (hkept p i hp)).trans ho⟩
  · rintro i o (⟨p, hp, ho⟩ | hretired)
    · exact .inl ⟨p, hp, (ObjectTree.without_of_not (hkept p i hp)).trans ho⟩
    · refine .inr ⟨hretired.used, hretired.unused, hretired.born, fun p hp => ?_⟩
      exact hretired.gone p (ObjectTree.of_without hp).2

/-- **A number is dropped** with the objects that go, where no other of their paths has one. -/
theorem Follows.dropInode (h : Follows x ⟨s, t⟩) {gone : Path → Prop} [DecidablePred gone]
    (hrel : gone rel) (hnil : rel ≠ [])
    (hgone : ∀ p, gone p → p ≠ rel → s.pathToInode p = none) :
    Follows x ⟨s.dropInode rel, t.without gone⟩ := by
  unfold FuseState.dropInode
  split
  · rename_i hnone
    refine h.without fun p hp => ?_
    by_cases hpr : p = rel
    · exact hpr ▸ hnone
    · exact hgone p hp hpr
  · rename_i inode hinode
    have hsound := h.sound
    have hpath : ∀ {p i}, Function.update s.pathToInode rel none p = some i →
        p ≠ rel ∧ s.pathToInode p = some i := by
      intro p i hp
      have hne : p ≠ rel := by
        rintro rfl
        rw [Function.update_self] at hp
        cases hp
      rw [Function.update_of_ne hne] at hp
      exact ⟨hne, hp⟩
    have hkept : ∀ p i, p ≠ rel → s.pathToInode p = some i → ¬ gone p := by
      intro p i hne hp hg
      rw [hgone p hg hne] at hp
      cases hp
    refine h.trans ⟨⟨?_, fun p i hp => hsound.fresh p i (hpath hp).2, ?_, ?_⟩, ?_⟩
    · intro i p
      show Function.update s.inodeToPath inode none i = some p ↔
        Function.update s.pathToInode rel none p = some i
      by_cases hi : i = inode
      · subst hi
        rw [Function.update_self]
        refine ⟨nofun, fun hp => ?_⟩
        exact absurd (hsound.inode_eq (hpath hp).2 hinode) (hpath hp).1
      · rw [Function.update_of_ne hi, hsound.inverse i p]
        refine ⟨fun hp => ?_, fun hp => (hpath hp).2⟩
        have hne : p ≠ rel := by
          rintro rfl
          exact hi (Option.some.inj (hp.symm.trans hinode))
        rw [Function.update_of_ne hne]
        exact hp
    · intro p i hp
      obtain ⟨hne, hp⟩ := hpath hp
      obtain ⟨o, ho⟩ := hsound.shown p i hp
      exact ⟨o, (ObjectTree.without_of_not (hkept p i hne hp)).trans ho⟩
    · show Function.update s.pathToInode rel none [] = some rootInode
      rw [Function.update_of_ne hnil.symm]
      exact hsound.root
    · rintro i o (⟨p, hp, ho⟩ | hretired)
      · by_cases hpr : p = rel
        · subst hpr
          obtain rfl : i = inode := Option.some.inj (hp.symm.trans hinode)
          refine .inr ⟨hsound.fresh _ _ hp, Function.update_self .., t.bounded _ _ ho, ?_⟩
          intro q hq
          obtain ⟨hnot, hq⟩ := ObjectTree.of_without hq
          exact hnot (t.single _ _ o ho hq ▸ hrel)
        · refine .inl ⟨p, ?_, (ObjectTree.without_of_not (hkept p i hpr hp)).trans ho⟩
          show Function.update s.pathToInode rel none p = some i
          rw [Function.update_of_ne hpr]
          exact hp
      · refine .inr ⟨hretired.used, ?_, hretired.born, fun p hp => ?_⟩
        · show Function.update s.inodeToPath inode none i = none
          by_cases hi : i = inode
          · rw [hi, Function.update_self]
          · rw [Function.update_of_ne hi]
            exact hretired.unused
        · exact hretired.gone p (ObjectTree.of_without hp).2

/-- No path at or below `rel` has a number. -/
def FreeFrom (s : FuseState) (rel : Path) : Prop := ∀ p, rel <+: p → s.pathToInode p = none

/-- No path below `rel`, itself apart, has a number. -/
def FreeBelow (s : FuseState) (rel : Path) : Prop :=
  ∀ p, rel <+: p → p ≠ rel → s.pathToInode p = none

/-- **A number goes with its directory** to a name without one. -/
theorem Follows.moveInode {kept : Path → Bool} (h : Follows x ⟨s, t⟩) (hnil : old ≠ [])
    (hnew : FreeFrom s new) (hold : FreeBelow s old) :
    Follows x ⟨s.moveInode old new, t.move old new kept⟩ := by
  have hsound := h.sound
  have hnotNew : ∀ p i, s.pathToInode p = some i → ¬ new <+: p := by
    intro p i hp hpre
    rw [hnew p hpre] at hp
    cases hp
  have hkept : ∀ p i o, p ≠ old → s.pathToInode p = some i → t.object p = some o →
      (t.move old new kept).object p = some o := by
    intro p i o hne hp ho
    refine (ObjectTree.move_of_not (hnotNew p i hp) fun hpre => ?_).trans ho
    rw [hold p hpre hne] at hp
    cases hp
  have hgone : ∀ o, (∀ p, t.object p ≠ some o) → ∀ p, (t.move old new kept).object p ≠ some o := by
    intro o ho p hp
    rcases t.movedObject_source hp with ⟨rest, -, hfrom⟩ | ⟨-, -, hfrom⟩
    · exact ho _ hfrom
    · exact ho p hfrom
  unfold FuseState.moveInode
  split
  · rename_i hnone
    have hne : ∀ p i, s.pathToInode p = some i → p ≠ old := by
      rintro p i hp rfl
      rw [hnone] at hp
      cases hp
    refine h.trans ⟨⟨hsound.inverse, hsound.fresh, ?_, hsound.root⟩, ?_⟩
    · intro p i hp
      obtain ⟨o, ho⟩ := hsound.shown p i hp
      exact ⟨o, hkept p i o (hne p i hp) hp ho⟩
    · rintro i o (⟨p, hp, ho⟩ | hretired)
      · exact .inl ⟨p, hp, hkept p i o (hne p i hp) hp ho⟩
      · exact .inr ⟨hretired.used, hretired.unused, hretired.born, hgone o hretired.gone⟩
  · rename_i inode hinode
    have hoff : ∀ p i, p ≠ old → s.pathToInode p = some i →
        Function.update (Function.update s.pathToInode old none) new (some inode) p = some i := by
      intro p i hne hp
      have hpn : p ≠ new := by
        rintro rfl
        exact hnotNew p i hp List.prefix_rfl
      rw [Function.update_of_ne hpn, Function.update_of_ne hne]
      exact hp
    have hpath : ∀ {p i},
        Function.update (Function.update s.pathToInode old none) new (some inode) p = some i →
          p = new ∧ i = inode ∨ p ≠ new ∧ p ≠ old ∧ s.pathToInode p = some i := by
      intro p i hp
      by_cases hpn : p = new
      · rw [hpn, Function.update_self] at hp
        exact .inl ⟨hpn, (Option.some.inj hp).symm⟩
      · rw [Function.update_of_ne hpn] at hp
        have hpo : p ≠ old := by
          rintro rfl
          rw [Function.update_self] at hp
          cases hp
        rw [Function.update_of_ne hpo] at hp
        exact .inr ⟨hpn, hpo, hp⟩
    refine h.trans ⟨⟨?_, ?_, ?_, ?_⟩, ?_⟩
    · intro i p
      show Function.update s.inodeToPath inode (some new) i = some p ↔
        Function.update (Function.update s.pathToInode old none) new (some inode) p = some i
      by_cases hi : i = inode
      · subst hi
        rw [Function.update_self]
        constructor
        · intro hp
          rw [← Option.some.inj hp, Function.update_self]
        · intro hp
          rcases hpath hp with ⟨rfl, -⟩ | ⟨-, hpo, hp⟩
          · rfl
          · exact absurd (hsound.inode_eq hp hinode) hpo
      · rw [Function.update_of_ne hi, hsound.inverse i p]
        constructor
        · intro hp
          refine hoff p i ?_ hp
          rintro rfl
          exact hi (Option.some.inj (hp.symm.trans hinode))
        · intro hp
          rcases hpath hp with ⟨-, heq⟩ | ⟨-, -, hp⟩
          · exact absurd heq hi
          · exact hp
    · intro p i hp
      rcases hpath hp with ⟨-, rfl⟩ | ⟨-, -, hp⟩
      · exact hsound.fresh old i hinode
      · exact hsound.fresh p i hp
    · intro p i hp
      rcases hpath hp with ⟨rfl, -⟩ | ⟨-, hpo, hp⟩
      · obtain ⟨o, ho⟩ := hsound.shown old inode hinode
        exact ⟨o, ObjectTree.move_new.trans ho⟩
      · obtain ⟨o, ho⟩ := hsound.shown p i hp
        exact ⟨o, hkept p i o hpo hp ho⟩
    · exact hoff [] _ hnil.symm hsound.root
    · rintro i o (⟨p, hp, ho⟩ | hretired)
      · by_cases hpo : p = old
        · subst hpo
          obtain rfl : i = inode := Option.some.inj (hp.symm.trans hinode)
          exact .inl ⟨new, Function.update_self .., ObjectTree.move_new.trans ho⟩
        · exact .inl ⟨p, hoff p i hpo hp, hkept p i o hpo hp ho⟩
      · refine .inr ⟨hretired.used, ?_, hretired.born, hgone o hretired.gone⟩
        have hi : i ≠ inode := by
          rintro rfl
          have hused := (hsound.inverse i old).mpr hinode
          rw [hretired.unused] at hused
          cases hused
        show Function.update s.inodeToPath inode (some new) i = none
        rw [Function.update_of_ne hi]
        exact hretired.unused

end Tables

end CccStorage.Observe
