/-
  File:      CccStorage/Lib/Joined.lean
  Subject:   Names joined by a separator: the text of a path and the list of its components say the
             same. Names nothing of the storage service.

  * `Plain` -- names that are not empty and do not contain the separator;
  * `joined_inj`, `joined_length_lt` -- the text determines the names, and grows with them;
  * `covers_iff` -- a text is another one, or begins it up to a separator, exactly when its names
    begin the other's;
  * `joined_rest` -- what follows the first names, without the separator.
-/
import Mathlib.Data.List.Basic
import Mathlib.Data.List.TakeWhile

namespace Lib

variable {α : Type*} [BEq α] [LawfulBEq α] {sep : α} {a b c names : List (List α)}

/-- The names of a path: none is empty, none contains the separator. -/
def Plain (sep : α) (names : List (List α)) : Prop := ∀ n ∈ names, n ≠ [] ∧ sep ∉ n

omit [BEq α] [LawfulBEq α] in
theorem Plain.append (ha : Plain sep a) (hb : Plain sep b) : Plain sep (a ++ b) := by
  intro n hn
  rcases List.mem_append.mp hn with hn | hn
  · exact ha n hn
  · exact hb n hn

omit [BEq α] [LawfulBEq α] in
theorem Plain.left (h : Plain sep (a ++ b)) : Plain sep a :=
  fun n hn => h n (List.mem_append_left _ hn)

omit [BEq α] [LawfulBEq α] in
theorem Plain.right (h : Plain sep (a ++ b)) : Plain sep b :=
  fun n hn => h n (List.mem_append_right _ hn)

/-- The text of the names. -/
def joined (sep : α) (names : List (List α)) : List α := [sep].intercalate names

omit [BEq α] [LawfulBEq α] in
theorem joined_singleton (n : List α) : joined sep [n] = n := List.intercalate_singleton

omit [BEq α] [LawfulBEq α] in
theorem joined_cons (n : List α) (ha : a ≠ []) :
    joined sep (n :: a) = n ++ sep :: joined sep a := by
  rw [joined, List.intercalate_cons_of_ne_nil ha, List.append_assoc, List.singleton_append, joined]

omit [BEq α] [LawfulBEq α] in
theorem joined_append (ha : a ≠ []) (hb : b ≠ []) :
    joined sep (a ++ b) = joined sep a ++ sep :: joined sep b := by
  induction a with
  | nil => exact absurd rfl ha
  | cons n rest ih =>
    by_cases hrest : rest = []
    · subst hrest
      rw [List.singleton_append, joined_cons n hb, joined_singleton]
    · rw [List.cons_append, joined_cons n (List.append_ne_nil_of_left_ne_nil hrest b),
        ih hrest, joined_cons n hrest, List.append_assoc, List.cons_append]

omit [BEq α] [LawfulBEq α] in
theorem mem_joined {x : α} (h : x ∈ joined sep a) : x = sep ∨ ∃ n ∈ a, x ∈ n := by
  induction a with
  | nil => exact absurd h List.not_mem_nil
  | cons n rest ih =>
    by_cases hrest : rest = []
    · subst hrest
      rw [joined_singleton] at h
      exact .inr ⟨n, List.mem_cons_self, h⟩
    · rw [joined_cons n hrest, List.mem_append, List.mem_cons] at h
      rcases h with h | h | h
      · exact .inr ⟨n, List.mem_cons_self, h⟩
      · exact .inl h
      · rcases ih h with h | ⟨m, hm, hx⟩
        · exact .inl h
        · exact .inr ⟨m, List.mem_cons_of_mem _ hm, hx⟩

omit [BEq α] [LawfulBEq α] in
theorem mem_joined_of_mem {n : List α} {x : α} (hn : n ∈ a) (hx : x ∈ n) : x ∈ joined sep a := by
  induction a with
  | nil => exact absurd hn List.not_mem_nil
  | cons m rest ih =>
    by_cases hrest : rest = []
    · subst hrest
      rw [joined_singleton]
      exact List.mem_singleton.mp hn ▸ hx
    · rw [joined_cons m hrest]
      rcases List.mem_cons.mp hn with rfl | hn
      · exact List.mem_append_left _ hx
      · exact List.mem_append_right _ (List.mem_cons_of_mem _ (ih hn))

omit [BEq α] [LawfulBEq α] in
/-- The first name is what comes before the first separator. -/
theorem takeWhile_joined [DecidableEq α] {n : List α} (h : sep ∉ n) :
    (joined sep (n :: a)).takeWhile (· ≠ sep) = n := by
  have hall : ∀ x ∈ n, decide (x ≠ sep) = true :=
    fun x hx => decide_eq_true fun heq => h (heq ▸ hx)
  by_cases ha : a = []
  · subst ha
    rw [joined_singleton, List.takeWhile_eq_self_iff]
    exact hall
  · rw [joined_cons n ha, List.takeWhile_append_of_pos hall, List.takeWhile_cons_of_neg (by simp),
      List.append_nil]

/-- The names come back by splitting at the separator. -/
theorem splitOn_joined (h : Plain sep a) (ha : a ≠ []) : (joined sep a).splitOn sep = a :=
  List.splitOn_intercalate sep (fun n hn => (h n hn).2) ha

theorem joined_inj (ha : Plain sep a) (hb : Plain sep b) (ha' : a ≠ []) (hb' : b ≠ [])
    (h : joined sep a = joined sep b) : a = b := by
  rw [← splitOn_joined ha ha', h, splitOn_joined hb hb']

omit [BEq α] [LawfulBEq α] in
theorem joined_ne_nil (h : Plain sep a) (ha : a ≠ []) : joined sep a ≠ [] := by
  obtain ⟨n, rest, rfl⟩ := List.exists_cons_of_ne_nil ha
  have hn := (h n List.mem_cons_self).1
  by_cases hrest : rest = []
  · subst hrest
    rw [joined_singleton]
    exact hn
  · rw [joined_cons n hrest]
    exact List.append_ne_nil_of_left_ne_nil hn _

omit [BEq α] [LawfulBEq α] in
/-- The text of a path with the names of another and more is longer. -/
theorem joined_length_lt (ha : a ≠ []) (hb : b ≠ []) :
    (joined sep a).length < (joined sep (a ++ b)).length := by
  rw [joined_append ha hb, List.length_append, List.length_cons]
  omega

omit [BEq α] [LawfulBEq α] in
/-- The text neither begins nor ends with the separator. -/
theorem joined_ends (h : Plain sep a) (ha : a ≠ []) :
    (joined sep a).head? ≠ some sep ∧ (joined sep a).getLast? ≠ some sep := by
  induction a with
  | nil => exact absurd rfl ha
  | cons n rest ih =>
    have hn := h n List.mem_cons_self
    obtain ⟨x, xs, rfl⟩ := List.exists_cons_of_ne_nil hn.1
    have hx : x ≠ sep := fun hx => hn.2 (hx ▸ List.mem_cons_self)
    by_cases hrest : rest = []
    · subst hrest
      rw [joined_singleton]
      refine ⟨fun hhead => hx (Option.some.inj hhead), fun hlast => hn.2 ?_⟩
      exact List.mem_of_getLast? hlast
    · have hplain : Plain sep rest := fun m hm => h m (List.mem_cons_of_mem _ hm)
      rw [joined_cons _ hrest]
      refine ⟨fun hhead => hx (Option.some.inj hhead), fun hlast => (ih hplain hrest).2 ?_⟩
      obtain ⟨y, ys, hy⟩ := List.exists_cons_of_ne_nil (joined_ne_nil hplain hrest)
      rw [hy] at hlast ⊢
      rwa [List.getLast?_append, List.getLast?_cons_cons, List.getLast?_cons, Option.some_or,
        ← List.getLast?_cons] at hlast

/-- **A text that is another one, or begins it up to a separator**: its names begin the other's. -/
theorem covers_iff (ha : Plain sep a) (hb : Plain sep b) (ha' : a ≠ []) (hb' : b ≠ []) :
    joined sep b = joined sep a ∨ joined sep a ++ [sep] <+: joined sep b ↔ a <+: b := by
  constructor
  · rintro (heq | ⟨rest, hrest⟩)
    · have hab : b = a := joined_inj hb ha hb' ha' heq
      exact hab ▸ List.prefix_rfl
    · refine ⟨rest.splitOn sep, ?_⟩
      have hsplit := List.splitOn_append_cons_self (a := sep) (joined sep a) rest
      rw [List.append_assoc, List.singleton_append] at hrest
      rw [hrest, splitOn_joined hb hb', splitOn_joined ha ha'] at hsplit
      exact hsplit.symm
  · rintro ⟨t, rfl⟩
    by_cases ht : t = []
    · subst ht
      rw [List.append_nil]
      exact .inl rfl
    · refine .inr ⟨joined sep t, ?_⟩
      rw [joined_append ha' ht, List.append_assoc, List.singleton_append]

/-- What follows the first names, with the separator taken off. -/
theorem joined_rest (ha : a ≠ []) (hb : Plain sep b) :
    ((joined sep (a ++ b)).drop (joined sep a).length).dropWhile (· == sep) = joined sep b := by
  by_cases hb' : b = []
  · subst hb'
    rw [List.append_nil, List.drop_length]
    rfl
  · rw [joined_append ha hb', List.drop_left, List.dropWhile_cons_of_pos (by simp)]
    have hhead := (joined_ends hb hb').1
    cases hjoined : joined sep b with
    | nil => exact absurd hjoined (joined_ne_nil hb hb')
    | cons x xs =>
      rw [hjoined] at hhead
      refine List.dropWhile_cons_of_neg fun hx => hhead ?_
      rw [List.head?_cons, eq_of_beq hx]

end Lib
