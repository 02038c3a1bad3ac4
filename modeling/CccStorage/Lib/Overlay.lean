/-
  File:      CccStorage/Lib/Overlay.lean
  Subject:   Layered trees with marks: what a stack of layers shows. Names nothing of the storage
             service.

  A layer maps paths to entries. A MARK is an entry with a reserved name: one in a directory
  hides everything older below that directory (`opq`), one beside a name hides what is older at
  that name (`wh`). An entry that is not a directory hides what is older at and below its path.

  * `Rules.hides` -- what a layer hides of the older ones, and `hides_iff`, where it does;
  * `Rules.apply`, `Rules.view` -- what is seen through one layer, and through a stack;
  * `view_view` -- a view as a layer; `view_singleton_iff` -- a layer that is seen as it is;
  * `Rules.covers`, `foldl_apply_iff` -- where two views through the same layers agree;
  * `Rules.merge` -- two layers as one: the newer entries, and the older ones it does not hide;
  * `hides_merge_of_hides`, `hides_of_hides_merge` -- what a merged layer hides;
  * `apply_idem` -- a layer applied twice; `closed_view` -- closed layers show a closed view.
-/
import Mathlib

namespace Lib

/-- A layer, and likewise a view: paths are lists of names. -/
abbrev Layer (N E : Type*) := List N → Option E

/-- The reserved names and the kinds of entries of an overlay. -/
structure Rules (N E : Type*) where
  opq : N
  wh : N → N
  /-- Not a directory. -/
  leaf : E → Bool
  /-- An entry of that name is visible. -/
  shown : N → E → Bool

namespace Rules

variable {N E : Type*} (R : Rules N E)

/-! ## 1. Hiding -/

/-- The layer hides what is older at `n` in the directory `d` and below it. -/
def hidesAt (L : Layer N E) (d : List N) (n : N) : Bool :=
  (L (d ++ [R.opq])).any R.leaf || (L (d ++ [R.wh n])).any R.leaf || (L (d ++ [n])).any R.leaf

/-- Walk down a path from the directory `d` and look for what hides it. -/
def hidesFrom (L : Layer N E) (d : List N) : List N → Bool
  | [] => false
  | n :: r => R.hidesAt L d n || hidesFrom L (d ++ [n]) r

/-- **The layer hides** what is older at the path. -/
def hides (L : Layer N E) (p : List N) : Bool := R.hidesFrom L [] p

variable {R} {L M V : Layer N E} {p q : List N}

theorem hidesFrom_iff {d : List N} :
    R.hidesFrom L d p = true ↔ ∃ c n r, p = c ++ n :: r ∧ R.hidesAt L (d ++ c) n = true := by
  induction p generalizing d with
  | nil =>
      constructor
      · intro h
        cases h
      · rintro ⟨c, n, r, h, -⟩
        cases c <;> cases h
  | cons m p ih =>
      unfold hidesFrom
      rw [Bool.or_eq_true, ih]
      constructor
      · rintro (h | ⟨c, n, r, rfl, h⟩)
        · exact ⟨[], m, p, rfl, by rwa [List.append_nil]⟩
        · exact ⟨m :: c, n, r, rfl, by rwa [List.append_assoc] at h⟩
      · rintro ⟨c, n, r, hp, h⟩
        cases c with
        | nil =>
            cases hp
            rw [List.append_nil] at h
            exact .inl h
        | cons m' c =>
            cases hp
            exact .inr ⟨c, n, r, rfl, by rwa [List.append_assoc]⟩

/-- **Where a layer hides a path**: in some directory on the way, at the next name. -/
theorem hides_iff :
    R.hides L p = true ↔ ∃ d n r, p = d ++ n :: r ∧ R.hidesAt L d n = true := by
  unfold hides
  rw [hidesFrom_iff]
  rfl

/-- What is hidden at a path is hidden below it. -/
theorem hides_below (h : R.hides L p = true) (hpq : p <+: q) : R.hides L q = true := by
  obtain ⟨d, n, r, rfl, hat⟩ := hides_iff.mp h
  obtain ⟨t, rfl⟩ := hpq
  exact hides_iff.mpr ⟨d, n, r ++ t, by simp, hat⟩

/-- A leaf hides its path and what is below it. -/
theorem hides_of_leaf {e : E} (hp : p ≠ []) (he : L p = some e) (hl : R.leaf e = true)
    (hpq : p <+: q) : R.hides L q = true := by
  refine hides_below (p := p) ?_ hpq
  have hsplit : p = p.dropLast ++ [p.getLast hp] := (List.dropLast_concat_getLast hp).symm
  refine hides_iff.mpr ⟨p.dropLast, p.getLast hp, [], hsplit, ?_⟩
  unfold hidesAt
  rw [← hsplit, he, Option.any_some, hl, Bool.or_true]

/-- An opaque mark hides everything strictly below its directory. -/
theorem hides_of_opq {d : List N} {n : N} {e : E} (he : L (d ++ [R.opq]) = some e)
    (hl : R.leaf e = true) (hq : d ++ [n] <+: q) : R.hides L q = true := by
  refine hides_below (hides_iff.mpr ⟨d, n, [], rfl, ?_⟩) hq
  unfold hidesAt
  rw [he, Option.any_some, hl, Bool.true_or, Bool.true_or]

/-- A whiteout mark hides its name and what is below it. -/
theorem hides_of_wh {d : List N} {n : N} {e : E} (he : L (d ++ [R.wh n]) = some e)
    (hl : R.leaf e = true) (hq : d ++ [n] <+: q) : R.hides L q = true := by
  refine hides_below (hides_iff.mpr ⟨d, n, [], rfl, ?_⟩) hq
  unfold hidesAt
  rw [he, Option.any_some, hl, Bool.or_true, Bool.true_or]

/-! ## 2. Views -/

variable (R) in
/-- What is seen through the layer: its own visible entries, and what it does not hide. -/
def apply (V L : Layer N E) : Layer N E := fun p =>
  match L p with
  | some e => if p.getLast?.all (R.shown · e) then some e else none
  | none => if R.hides L p then none else V p

variable (R) in
/-- **What a stack shows**, oldest layer first. -/
def view (layers : List (Layer N E)) : Layer N E := layers.foldl R.apply fun _ => none

theorem apply_of_some {e : E} (h : L p = some e) :
    R.apply V L p = if p.getLast?.all (R.shown · e) then some e else none := by
  unfold apply
  rw [h]

theorem apply_of_none (h : L p = none) :
    R.apply V L p = if R.hides L p then none else V p := by
  unfold apply
  rw [h]

theorem apply_of_hides (h : L p = none) (hh : R.hides L p = true) : R.apply V L p = none := by
  rw [apply_of_none h, if_pos hh]

theorem apply_of_not_hides (h : L p = none) (hh : R.hides L p = false) :
    R.apply V L p = V p := by
  rw [apply_of_none h, hh]
  rfl

/-- **A layer applied twice** shows what it shows applied once. -/
theorem apply_idem : R.apply (R.apply V L) L = R.apply V L := by
  funext p
  cases hp : L p with
  | some e => rw [apply_of_some hp, apply_of_some hp]
  | none =>
      rw [apply_of_none hp]
      cases hh : R.hides L p with
      | true => rw [if_pos rfl, apply_of_hides hp hh]
      | false => rfl

theorem view_append (ls ls' : List (Layer N E)) :
    R.view (ls ++ ls') = ls'.foldl R.apply (R.view ls) := List.foldl_append

theorem view_concat (ls : List (Layer N E)) (L : Layer N E) :
    R.view (ls ++ [L]) = R.apply (R.view ls) L := view_append ls [L]

/-- Everything in a view is visible. -/
theorem view_shown {ls : List (Layer N E)} {e : E} (h : R.view ls p = some e) :
    p.getLast?.all (R.shown · e) = true := by
  induction ls using List.reverseRecOn with
  | nil => cases h
  | append_singleton ls L ih =>
      rw [view_concat] at h
      cases hp : L p with
      | some e' =>
          rw [apply_of_some hp] at h
          split at h
          · rename_i hshown
            obtain rfl := Option.some.inj h
            exact hshown
          · cases h
      | none =>
          rw [apply_of_none hp] at h
          split at h
          · cases h
          · exact ih h

/-- **A layer shows itself** exactly when all of it is visible. -/
theorem view_singleton_iff : R.view [L] = L ↔
    ∀ p e, L p = some e → p.getLast?.all (R.shown · e) = true := by
  refine ⟨fun h p e he => ?_, fun h => ?_⟩
  · rw [← h] at he
    exact view_shown he
  · funext p
    show R.apply (fun _ => none) L p = L p
    cases hp : L p with
    | some e => rw [apply_of_some hp, if_pos (h p e hp)]
    | none => rw [apply_of_none hp, ite_self]

/-- **A view as a layer** shows what it shows. -/
theorem view_view (ls : List (Layer N E)) : R.view [R.view ls] = R.view ls :=
  view_singleton_iff.mpr fun _ _ he => view_shown he

/-! ### What a layer covers -/

variable (R) in
/-- Nothing older is seen at the path through the layer. -/
def covers (L : Layer N E) (p : List N) : Bool := (L p).isSome || R.hides L p

variable (R) in
/-- Nothing older is seen strictly below the path. -/
def hidesIn (L : Layer N E) (p : List N) : Bool :=
  R.hides L p || (L (p ++ [R.opq])).any R.leaf

theorem apply_of_covers {V' : Layer N E} (h : R.covers L p = true) :
    R.apply V L p = R.apply V' L p := by
  unfold covers at h
  rw [Bool.or_eq_true] at h
  cases hp : L p with
  | some e => rw [apply_of_some hp, apply_of_some hp]
  | none =>
      rw [hp] at h
      have hh : R.hides L p = true := h.resolve_left Bool.false_ne_true
      rw [apply_of_hides hp hh, apply_of_hides hp hh]

theorem apply_of_not_covers (h : ¬ R.covers L p = true) : R.apply V L p = V p := by
  unfold covers at h
  rw [Bool.or_eq_true, not_or] at h
  have hp : L p = none := by simpa using h.1
  exact apply_of_not_hides hp (Bool.eq_false_iff.mpr h.2)

/-- **Two views through the same layers** agree at a path exactly when they agree there already
    or a layer covers it. -/
theorem foldl_apply_iff {V' : Layer N E} {ls : List (Layer N E)} :
    ls.foldl R.apply V p = ls.foldl R.apply V' p ↔
      V p = V' p ∨ ∃ L ∈ ls, R.covers L p = true := by
  induction ls generalizing V V' with
  | nil => simp
  | cons L ls ih =>
      rw [List.foldl_cons, List.foldl_cons, ih]
      by_cases h : R.covers L p = true
      · exact ⟨fun _ => .inr ⟨L, List.mem_cons_self, h⟩, fun _ => .inl (apply_of_covers h)⟩
      · rw [apply_of_not_covers h, apply_of_not_covers h]
        refine or_congr_right ⟨fun ⟨K, hK, hc⟩ => ⟨K, List.mem_cons_of_mem L hK, hc⟩, ?_⟩
        rintro ⟨K, hK, hc⟩
        rcases List.mem_cons.mp hK with rfl | hK
        · exact absurd hc h
        · exact ⟨K, hK, hc⟩

theorem hides_of_hidesIn (h : R.hidesIn L p = true) (hpq : p <+: q) (hne : p ≠ q) :
    R.hides L q = true := by
  unfold hidesIn at h
  rw [Bool.or_eq_true] at h
  rcases h with h | h
  · exact hides_below h hpq
  · obtain ⟨r, rfl⟩ := hpq
    obtain ⟨e, he, hl⟩ := (Option.any_eq_true ..).mp h
    cases r with
    | nil => exact absurd (List.append_nil p).symm hne
    | cons n r => exact hides_of_opq (n := n) he hl ⟨r, by simp⟩

/-- A name the layer says nothing about is hidden only with everything beside it. -/
theorem hidesIn_of_hides {n : N} (h : R.hides L (p ++ [n]) = true) (hn : L (p ++ [n]) = none)
    (hwh : L (p ++ [R.wh n]) = none) : R.hidesIn L p = true := by
  obtain ⟨d, m, r, hsplit, hat⟩ := hides_iff.mp h
  unfold hidesIn
  rw [Bool.or_eq_true]
  cases r using List.reverseRecOn with
  | nil =>
      obtain ⟨rfl, hm⟩ := List.append_inj' hsplit rfl
      cases hm
      unfold hidesAt at hat
      rw [hn, hwh] at hat
      exact .inr (by simpa using hat)
  | append_singleton r k =>
      rw [← List.cons_append, ← List.append_assoc] at hsplit
      obtain ⟨rfl, -⟩ := List.append_inj' hsplit rfl
      exact .inl (hides_iff.mpr ⟨d, m, r, rfl, hat⟩)

/-! ### Closed layers -/

variable (R) in
/-- Every entry is at the top or in a directory. -/
def Closed (L : Layer N E) : Prop :=
  ∀ d n, L (d ++ [n]) ≠ none → d = [] ∨ ∃ e, L d = some e ∧ R.leaf e = false

/-- In a closed layer nothing is below a path without an entry. -/
theorem Closed.none_below (h : R.Closed L) (hp : p ≠ []) (hpq : p <+: q) (hn : L p = none) :
    L q = none := by
  obtain ⟨r, rfl⟩ := hpq
  induction r using List.reverseRecOn with
  | nil => rwa [List.append_nil]
  | append_singleton r n ih =>
      by_contra hne
      rw [← List.append_assoc] at hne
      rcases h _ _ hne with hnil | ⟨e, he, -⟩
      · exact hp (List.append_eq_nil_iff.mp hnil).1
      · rw [ih] at he
        cases he

/-- **A closed layer over a closed view** shows a closed view. -/
theorem Closed.apply (hV : R.Closed V) (hL : R.Closed L)
    (hs : ∀ n e, R.leaf e = false → R.shown n e = true) : R.Closed (R.apply V L) := by
  intro d n hne
  by_cases hd : d = []
  · exact .inl hd
  · right
    have hdir : ∀ e, L d = some e → R.leaf e = false → ∃ e, R.apply V L d = some e ∧
        R.leaf e = false := by
      intro e he hl
      refine ⟨e, ?_, hl⟩
      rw [apply_of_some he, if_pos]
      cases d.getLast? with
      | none => rfl
      | some m => exact hs m e hl
    cases hLn : L (d ++ [n]) with
    | some e =>
        obtain ⟨e', he', hl'⟩ := (hL d n (by rw [hLn]; exact Option.some_ne_none e)).resolve_left hd
        exact hdir e' he' hl'
    | none =>
        rw [apply_of_none hLn] at hne
        split at hne
        · exact absurd rfl hne
        · rename_i hh
          obtain ⟨e, he, hl⟩ := (hV d n hne).resolve_left hd
          have hhd : ¬ R.hides L d = true := fun h => hh (hides_below h (List.prefix_append d _))
          cases hLd : L d with
          | none => exact ⟨e, by rw [apply_of_none hLd, if_neg hhd, he], hl⟩
          | some e' =>
              refine hdir e' hLd ?_
              by_contra hleaf
              exact hhd (hides_of_leaf hd hLd (by simpa using hleaf) List.prefix_rfl)

variable (R) in
/-- The older layer under the newer one, marks kept. -/
def merge (M L : Layer N E) : Layer N E := fun p =>
  match L p with
  | some e => some e
  | none => if R.hides L p then none else M p

theorem merge_of_some {e : E} (h : L p = some e) : R.merge M L p = some e := by
  unfold merge
  rw [h]

theorem merge_of_none (h : L p = none) :
    R.merge M L p = if R.hides L p then none else M p := by
  unfold merge
  rw [h]

theorem merge_of_covers {M' : Layer N E} (h : R.covers L p = true) :
    R.merge M L p = R.merge M' L p := by
  unfold covers at h
  rw [Bool.or_eq_true] at h
  cases hp : L p with
  | some e => rw [merge_of_some hp, merge_of_some hp]
  | none =>
      rw [hp] at h
      have hh : R.hides L p = true := h.resolve_left Bool.false_ne_true
      rw [merge_of_none hp, merge_of_none hp, if_pos hh, if_pos hh]

theorem merge_of_not_covers (h : ¬ R.covers L p = true) : R.merge M L p = M p := by
  unfold covers at h
  rw [Bool.or_eq_true, not_or] at h
  have hp : L p = none := by simpa using h.1
  rw [merge_of_none hp, if_neg h.2]

/-- **A merged layer hides what the newer one hides.** -/
theorem hides_merge_of_hides (h : R.hides L p = true) : R.hides (R.merge M L) p = true := by
  obtain ⟨d, n, r, rfl, hat⟩ := hides_iff.mp h
  refine hides_iff.mpr ⟨d, n, r, rfl, ?_⟩
  have hkeep : ∀ q, (L q).any R.leaf = true → (R.merge M L q).any R.leaf = true := by
    intro q hq
    obtain ⟨e, he, hl⟩ := (Option.any_eq_true ..).mp hq
    rw [merge_of_some he, Option.any_some, hl]
  unfold hidesAt at hat ⊢
  rw [Bool.or_eq_true, Bool.or_eq_true] at hat ⊢
  exact hat.imp (Or.imp (hkeep _) (hkeep _)) (hkeep _)

/-- **What a merged layer hides**, the newer or the older one hides. -/
theorem hides_of_hides_merge (h : R.hides (R.merge M L) p = true) :
    R.hides L p = true ∨ R.hides M p = true := by
  obtain ⟨d, n, r, rfl, hat⟩ := hides_iff.mp h
  by_cases hL : R.hides L (d ++ n :: r) = true
  · exact .inl hL
  · refine .inr (hides_iff.mpr ⟨d, n, r, rfl, ?_⟩)
    have hL' : ¬ R.hidesAt L d n = true := fun hat' => hL (hides_iff.mpr ⟨d, n, r, rfl, hat'⟩)
    unfold hidesAt at hat hL' ⊢
    rw [Bool.or_eq_true, Bool.or_eq_true] at hat hL' ⊢
    have hkeep : ∀ q, ¬ (L q).any R.leaf = true → (R.merge M L q).any R.leaf = true →
        (M q).any R.leaf = true := by
      intro q hq hm
      cases hLq : L q with
      | some e =>
          rw [merge_of_some hLq] at hm
          rw [hLq] at hq
          exact absurd hm hq
      | none =>
          rw [merge_of_none hLq] at hm
          split at hm
          · cases hm
          · exact hm
    rw [not_or, not_or] at hL'
    exact hat.imp (Or.imp (hkeep _ hL'.1.1) (hkeep _ hL'.1.2)) (hkeep _ hL'.2)

end Rules

end Lib
