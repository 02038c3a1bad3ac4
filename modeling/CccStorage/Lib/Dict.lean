/-
  File:      CccStorage/Lib/Dict.lean
  Subject:   Dictionaries that keep the order in which their keys were first set. Names nothing of
             the storage service.

  * `dictSet` -- a key that is there keeps its place;
  * `lookup_dictSet`, `keys_dictSet` -- what a look-up finds, and the order of the keys;
  * `dictPop`, `lookup_dictPop` -- a key that is taken out;
  * `lookup_eq_some_iff_mem` -- what a look-up finds is what the list holds;
  * `dict_ext` -- the keys in their order and the values determine the dictionary.
-/
import Mathlib.Data.List.Nodup

namespace Lib

variable {κ α : Type*} [DecidableEq κ]

/-- `d[k] = v`. -/
def dictSet (d : List (κ × α)) (k : κ) (v : α) : List (κ × α) :=
  if k ∈ d.map (·.1) then d.map fun x => if x.1 = k then (k, v) else x else d ++ [(k, v)]

theorem lookup_of_not_key {d : List (κ × α)} {k : κ} (hk : k ∉ d.map (·.1)) :
    d.lookup k = none := by
  rw [List.lookup_eq_none_iff]
  intro x hx
  exact bne_iff_ne.mpr fun h => hk (List.mem_map.mpr ⟨x, hx, h.symm⟩)

theorem lookup_map_set {d : List (κ × α)} {k k' : κ} {v : α} (hk : k ∈ d.map (·.1)) :
    (d.map fun x => if x.1 = k then (k, v) else x).lookup k' =
      if k' = k then some v else d.lookup k' := by
  induction d with
  | nil => cases hk
  | cons x d ih =>
      rw [List.map_cons, List.lookup_cons, List.lookup_cons]
      by_cases hx : x.1 = k
      · rw [if_pos hx]
        by_cases hk' : k' = k
        · rw [if_pos hk', hk', beq_self_eq_true]
        · have hne : (k' == k) = false := beq_eq_false_iff_ne.mpr hk'
          have hne' : (k' == x.1) = false := by rw [hx]; exact hne
          rw [hne, hne', if_neg hk']
          by_cases hmem : k ∈ d.map (·.1)
          · rw [ih hmem, if_neg hk']
          · refine congrArg (List.lookup k') ?_
            refine (List.map_congr_left fun y hy => ?_).trans (List.map_id d)
            exact if_neg fun hy' => hmem (List.mem_map.mpr ⟨y, hy, hy'⟩)
      · rw [if_neg hx]
        have hmem : k ∈ d.map (·.1) := by
          rw [List.map_cons, List.mem_cons] at hk
          exact hk.resolve_left fun h => hx h.symm
        by_cases hk' : k' = x.1
        · rw [hk', beq_self_eq_true, if_neg hx]
        · rw [beq_eq_false_iff_ne.mpr hk', ih hmem]

/-- **What a look-up finds** after `d[k] = v`. -/
theorem lookup_dictSet (d : List (κ × α)) (k k' : κ) (v : α) :
    (dictSet d k v).lookup k' = if k' = k then some v else d.lookup k' := by
  unfold dictSet
  split
  · rename_i hk
    exact lookup_map_set hk
  · rename_i hk
    rw [List.lookup_append]
    by_cases hk' : k' = k
    · rw [if_pos hk', hk', lookup_of_not_key hk, List.lookup_cons, beq_self_eq_true]
      rfl
    · rw [if_neg hk', List.lookup_cons, beq_eq_false_iff_ne.mpr hk']
      cases d.lookup k' <;> rfl

/-- **The order of the keys**: a new one comes last. -/
theorem keys_dictSet (d : List (κ × α)) (k : κ) (v : α) :
    (dictSet d k v).map (·.1) =
      if k ∈ d.map (·.1) then d.map (·.1) else d.map (·.1) ++ [k] := by
  unfold dictSet
  split
  · rw [List.map_map]
    refine List.map_congr_left fun x _ => ?_
    show (if x.1 = k then (k, v) else x).1 = x.1
    split
    · rename_i hx
      exact hx.symm
    · rfl
  · rw [List.map_append]
    rfl

theorem nodup_dictSet {d : List (κ × α)} (h : (d.map (·.1)).Nodup) (k : κ) (v : α) :
    ((dictSet d k v).map (·.1)).Nodup := by
  rw [keys_dictSet]
  split
  · exact h
  · rename_i hk
    rw [List.nodup_append]
    refine ⟨h, List.nodup_singleton k, fun a ha b hb => ?_⟩
    rw [List.mem_singleton] at hb
    rintro rfl
    exact hk (hb ▸ ha)

/-- `d.pop(k)`. -/
def dictPop (d : List (κ × α)) (k : κ) : List (κ × α) := d.filter fun x => decide (x.1 ≠ k)

/-- **What a look-up finds** after `d.pop(k)`. -/
theorem lookup_dictPop (d : List (κ × α)) (k k' : κ) :
    (dictPop d k).lookup k' = if k' = k then none else d.lookup k' := by
  unfold dictPop
  induction d with
  | nil => simp
  | cons x d ih =>
      rw [List.filter_cons, List.lookup_cons]
      by_cases hx : x.1 = k
      · rw [if_neg (by simp [hx]), ih]
        by_cases hk' : k' = k
        · rw [if_pos hk', if_pos hk']
        · rw [if_neg hk', if_neg hk', beq_eq_false_iff_ne.mpr (hx ▸ hk')]
      · rw [if_pos (by simp [hx]), List.lookup_cons, ih]
        by_cases hk' : k' = x.1
        · have hne : ¬ k' = k := fun h => hx (hk'.symm.trans h)
          rw [if_neg hne, if_neg hne, hk', beq_self_eq_true]
        · rw [beq_eq_false_iff_ne.mpr hk']

theorem nodup_dictPop {d : List (κ × α)} (h : (d.map (·.1)).Nodup) (k : κ) :
    ((dictPop d k).map (·.1)).Nodup :=
  h.sublist (List.filter_sublist.map _)

theorem mem_keys_iff {d : List (κ × α)} {k : κ} : k ∈ d.map (·.1) ↔ (d.lookup k).isSome := by
  induction d with
  | nil => simp
  | cons x d ih =>
      rw [List.map_cons, List.mem_cons, List.lookup_cons]
      by_cases hk : k = x.1
      · rw [hk, beq_self_eq_true]
        simp
      · rw [beq_eq_false_iff_ne.mpr hk]
        simp only [hk, false_or, ih]

theorem lookup_eq_some_iff_mem {d : List (κ × α)} (h : (d.map (·.1)).Nodup) {k : κ} {v : α} :
    d.lookup k = some v ↔ (k, v) ∈ d := by
  refine ⟨fun hk => ?_, fun hk => ?_⟩
  · obtain ⟨l₁, l₂, hl, -⟩ := List.lookup_eq_some_iff.mp hk
    exact hl ▸ List.mem_append_right _ List.mem_cons_self
  · obtain ⟨l₁, l₂, rfl⟩ := List.append_of_mem hk
    rw [List.map_append, List.nodup_append] at h
    refine List.lookup_eq_some_iff.mpr ⟨l₁, l₂, rfl, fun x hx => ?_⟩
    have hne : x.1 ≠ k := h.2.2 x.1 (List.mem_map_of_mem hx) k List.mem_cons_self
    exact bne_iff_ne.mpr hne.symm

/-- **The keys in their order and the values determine the dictionary.** -/
theorem dict_ext {d d' : List (κ × α)} (h : (d.map (·.1)).Nodup)
    (hkeys : d.map (·.1) = d'.map (·.1)) (hvalues : ∀ k, d.lookup k = d'.lookup k) : d = d' := by
  induction d generalizing d' with
  | nil => exact (List.map_eq_nil_iff.mp hkeys.symm).symm
  | cons x d ih =>
      cases d' with
      | nil => cases hkeys
      | cons y d' =>
          rw [List.map_cons, List.map_cons, List.cons.injEq] at hkeys
          rw [List.map_cons, List.nodup_cons] at h
          obtain ⟨hxy, htail⟩ := hkeys
          have hx := hvalues x.1
          rw [List.lookup_cons, List.lookup_cons, ← hxy, beq_self_eq_true] at hx
          have hsame : x = y := Prod.ext hxy (Option.some.inj hx)
          refine congrArg₂ List.cons hsame (ih h.2 htail fun k => ?_)
          by_cases hk : k = x.1
          · rw [hk, lookup_of_not_key h.1, lookup_of_not_key (htail ▸ h.1)]
          · have hv := hvalues k
            rw [List.lookup_cons, List.lookup_cons, ← hxy, beq_eq_false_iff_ne.mpr hk] at hv
            exact hv

end Lib
