/-
  File:      CccStorage/Lib/Escaped.lean
  Subject:   Texts in which one character takes the meaning from the next, and their fields. Names
             nothing of the storage service.

  * `splitOn_joined_iff` -- names joined by a separator come back exactly when none contains it;
  * `lex`, `lex_map_iff` -- the characters of a text, each with whether it is escaped; a text is
    read as it stands exactly when it does not contain the escape character;
  * `fields`, `fields_map` -- what stands between the separators that are not escaped.
-/
import CccStorage.Lib.Joined

namespace Lib

variable {α : Type*} [DecidableEq α] {esc sep : α} {t n : List α} {names : List (List α)}

/-! ## 1. Pieces -/

theorem not_mem_of_mem_splitOn (h : n ∈ t.splitOn sep) : sep ∉ n := by
  induction t generalizing n with
  | nil =>
    rw [List.splitOn_nil, List.mem_singleton] at h
    exact h ▸ List.not_mem_nil
  | cons c t ih =>
    rw [List.splitOn_cons_eq_if_modifyHead] at h
    by_cases hc : c = sep
    · rw [if_pos (beq_iff_eq.mpr hc)] at h
      rcases List.mem_cons.mp h with rfl | h
      · exact List.not_mem_nil
      · exact ih h
    · rw [if_neg (by simpa using hc)] at h
      obtain ⟨first, rest, heq⟩ := List.exists_cons_of_ne_nil (List.splitOn_ne_nil sep t)
      rw [heq, List.modifyHead_cons, List.mem_cons] at h
      rcases h with rfl | h
      · -- the character is put before the first piece
        have hfirst : sep ∉ first := ih (heq ▸ List.mem_cons_self)
        exact List.not_mem_cons_of_ne_of_not_mem (Ne.symm hc) hfirst
      · exact ih (heq ▸ List.mem_cons_of_mem _ h)

/-- **Names joined by the separator** are its pieces exactly when none contains it. -/
theorem splitOn_joined_iff (hne : names ≠ []) :
    (joined sep names).splitOn sep = names ↔ ∀ n ∈ names, sep ∉ n :=
  ⟨fun h _ hn => not_mem_of_mem_splitOn (h.symm ▸ hn),
    fun h => List.splitOn_intercalate sep h hne⟩

theorem splitOn_map {β : Type*} [BEq β] [LawfulBEq β] {f : α → β} (hf : Function.Injective f)
    (t : List α) : (t.map f).splitOn (f sep) = (t.splitOn sep).map (List.map f) := by
  induction t with
  | nil => rfl
  | cons c t ih =>
    rw [List.map_cons, List.splitOn_cons_eq_if_modifyHead, List.splitOn_cons_eq_if_modifyHead, ih]
    by_cases hc : c = sep
    · rw [if_pos (by simp [hc]), if_pos (by simp [hc]), List.map_cons, List.map_nil]
    · rw [if_neg (by simpa using fun heq => hc (hf heq)), if_neg (by simpa using hc)]
      obtain ⟨first, rest, heq⟩ := List.exists_cons_of_ne_nil (List.splitOn_ne_nil sep t)
      rw [heq]
      rfl

/-! ## 2. Escapes -/

/-- The characters of the text and whether each is escaped; a last escape character escapes
    nothing. -/
def lex (esc : α) : List α → List (α × Bool)
  | [] => []
  | [c] => if c = esc then [] else [(c, false)]
  | c :: d :: rest =>
    if c = esc then (d, true) :: lex esc rest else (c, false) :: lex esc (d :: rest)

theorem lex_of_not_mem (h : esc ∉ t) : lex esc t = t.map fun c => (c, false) := by
  induction t with
  | nil => rfl
  | cons c t ih =>
    have hc : c ≠ esc := fun heq => h (heq ▸ List.mem_cons_self)
    have ht := ih fun hmem => h (List.mem_cons_of_mem _ hmem)
    cases t with
    | nil =>
      rw [lex, if_neg hc]
      rfl
    | cons d rest =>
      rw [lex, if_neg hc, ht]
      rfl

theorem lex_length_le (esc : α) : ∀ t : List α, (lex esc t).length ≤ t.length
  | [] => le_rfl
  | [c] => by
    rw [lex]
    split
    · exact Nat.zero_le _
    · exact le_rfl
  | c :: d :: rest => by
    have hrest := lex_length_le esc rest
    have hnext := lex_length_le esc (d :: rest)
    rw [lex]
    split
    · simp only [List.length_cons]
      omega
    · simp only [List.length_cons] at hnext ⊢
      omega

theorem lex_length_lt : ∀ {t : List α}, esc ∈ t → (lex esc t).length < t.length
  | [c], h => by
    obtain rfl := List.mem_singleton.mp h
    rw [lex, if_pos rfl]
    exact Nat.zero_lt_one
  | c :: d :: rest, h => by
    rw [lex]
    by_cases hc : c = esc
    · have hle := lex_length_le esc rest
      rw [if_pos hc]
      simp only [List.length_cons]
      omega
    · have hlt := lex_length_lt ((List.mem_cons.mp h).resolve_left (Ne.symm hc))
      rw [if_neg hc]
      simp only [List.length_cons] at hlt ⊢
      omega

/-- **A text is read as it stands** exactly when it does not contain the escape character. -/
theorem lex_map_iff : (lex esc t).map Prod.fst = t ↔ esc ∉ t := by
  refine ⟨fun h hmem => ?_, fun h => ?_⟩
  · have hlt := lex_length_lt hmem
    have hlength := congrArg List.length h
    rw [List.length_map] at hlength
    omega
  · rw [lex_of_not_mem h, List.map_map]
    exact List.map_id t

/-! ## 3. Fields -/

/-- What stands between the separators that are not escaped. -/
def fields (sep : α) (toks : List (α × Bool)) : List (List (α × Bool)) :=
  toks.splitOn (sep, false)

omit [DecidableEq α] in
theorem map_joined {β : Type*} (f : β → α) (b : β) (l : List (List β)) :
    (joined b l).map f = joined (f b) (l.map (List.map f)) := by
  induction l with
  | nil => rfl
  | cons n rest ih =>
    by_cases hrest : rest = []
    · subst hrest
      rw [joined_singleton, List.map_singleton, joined_singleton]
    · rw [joined_cons n hrest, List.map_append, List.map_cons, ih, List.map_cons,
        joined_cons _ (by simpa using hrest)]

/-- The fields, joined, are the text. -/
theorem joined_fields (sep : α) (toks : List (α × Bool)) :
    joined sep ((fields sep toks).map (List.map Prod.fst)) = toks.map Prod.fst := by
  have hjoined : joined (sep, false) (fields sep toks) = toks := List.intercalate_splitOn _
  rw [← map_joined Prod.fst (sep, false), hjoined]

/-- **The fields of a text without escapes** are its pieces. -/
theorem fields_map (sep : α) (t : List α) :
    fields sep (t.map fun c => (c, false)) = (t.splitOn sep).map (List.map fun c => (c, false)) :=
  splitOn_map (f := fun c => (c, false)) (fun _ _ heq => congrArg Prod.fst heq) t

end Lib
